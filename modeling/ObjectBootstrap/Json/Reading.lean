import ObjectBootstrap.Config
import ObjectBootstrap.Definition
import ObjectBootstrap.Json.Tree
import ObjectBootstrap.Text.Decimal

/-!
# Reading from JSON text

Tiers, roles, scopes, placements and configurations in JSON text.

A value of an enumeration is written as its label, or as an object with the label as its only key
and `null` as its value. A record is written as an object or as the array of its fields in order. In
an object unknown keys are ignored, whatever their values are; a known key may stand only once; and
a key has to be a text. A placement needs its tier and may leave its rank out, but as an array it
has both fields. A configuration may leave out any field, and as an array the last ones.

## Main definitions

* `ofLabelled?`: reads a value of an enumeration.
* `Placement.ofJsonText?`, `Config.ofJsonText`: read a placement and a configuration.
-/

namespace ObjectBootstrap

namespace JsonTree

/-- Reads a value of an enumeration, given all of them and their labels. -/
def ofLabelled? {α : Type} (all : List α) (label : α → String) : JsonTree → Option α
  | .string (some text) => all.find? fun a => label a == text
  | .object [(some text, .null)] => all.find? fun a => label a == text
  | _ => none

/-- Reads a number of thirty-two bits. It is written as an integer, and not as minus zero. -/
def int32? : JsonTree → Option Int32
  | .number text =>
    let (negative, digits) := match text.toList with
      | '-' :: rest => (true, rest)
      | cs => (false, cs)
    if digits.all Char.isDigit then
      let size := decimalValue digits
      if negative then
        if 0 < size ∧ size ≤ 2147483648 then some (Int32.ofInt (-(size : Int))) else none
      else if size ≤ 2147483647 then some (Int32.ofInt size) else none
    else none
  | _ => none

/-- Reads a value that may be absent, written as `null`. -/
def optional? {α : Type} (read? : JsonTree → Option α) : JsonTree → Option (Option α)
  | .null => some none
  | tree => (read? tree).map some

/-- Reads a truth value. -/
def bool? : JsonTree → Option Bool
  | .bool value => some value
  | _ => none

/-- The values of a record's fields, in the order of the given keys, from an object. Fails when a
    key is no text or a known key stands twice. -/
def fields? (keys : List String) (members : List (Option String × JsonTree)) :
    Option (List (Option JsonTree)) :=
  if members.all (fun member => member.1.isSome) then
    keys.mapM fun key =>
      match members.filter (fun member => member.1 == some key) with
      | [] => some none
      | [member] => some (some member.2)
      | _ => none
  else none

/-- Reads a field that may be left out. -/
def fieldOr? {α : Type} (absent : α) (read? : JsonTree → Option α) : Option JsonTree → Option α
  | none => some absent
  | some tree => read? tree

end JsonTree

open JsonTree

/-- Reads a tier. -/
def Tier.ofTree? : JsonTree → Option Tier := ofLabelled? Tier.all Tier.label

/-- Reads a role. -/
def Role.ofTree? : JsonTree → Option Role := ofLabelled? Role.all Role.label

/-- Reads a scope. -/
def Scope.ofTree? : JsonTree → Option Scope := ofLabelled? Scope.all Scope.label

/-- Reads a placement. -/
def Placement.ofTree? : JsonTree → Option Placement
  | .array [tier, rank] => do
    let tier ← Tier.ofTree? tier
    let rank ← optional? int32? rank
    return ⟨tier, rank⟩
  | .object members => do
    match ← fields? ["tier", "rank"] members with
    | [some tier, rank] =>
      let tier ← Tier.ofTree? tier
      let rank ← fieldOr? none (optional? int32?) rank
      return ⟨tier, rank⟩
    | _ => none
  | _ => none

/-- The configuration with the given fields; absent ones keep their defaults. -/
def Config.ofFields? : List (Option JsonTree) → Option Config
  | [includeNonSingletons, allowEagerInit, preInstantiateSingletons,
      allowDefinitionOverriding] => do
    let includeNonSingletons ←
      fieldOr? Config.standard.includeNonSingletons bool? includeNonSingletons
    let allowEagerInit ← fieldOr? Config.standard.allowEagerInit bool? allowEagerInit
    let preInstantiateSingletons ←
      fieldOr? Config.standard.preInstantiateSingletons bool? preInstantiateSingletons
    let allowDefinitionOverriding ←
      fieldOr? Config.standard.allowDefinitionOverriding bool? allowDefinitionOverriding
    return ⟨includeNonSingletons, allowEagerInit, preInstantiateSingletons,
      allowDefinitionOverriding⟩
  | _ => none

/-- The keys of a configuration, in order. -/
def Config.keys : List String :=
  ["include_non_singletons", "allow_eager_init", "pre_instantiate_singletons",
    "allow_definition_overriding"]

/-- Reads a configuration. -/
def Config.ofTree? : JsonTree → Option Config
  | .array items =>
    if items.length ≤ 4 then
      Config.ofFields? (items.map some ++ List.replicate (4 - items.length) none)
    else none
  | .object members => do Config.ofFields? (← fields? Config.keys members)
  | _ => none

/-- Reads a placement from a whole text. -/
def Placement.ofJsonText? (text : String) : Option Placement :=
  (JsonTree.ofText? text).bind Placement.ofTree?

/-- Reads a configuration from a whole text. -/
def Config.ofJsonText (text : String) : Except Error Config :=
  match (JsonTree.ofText? text).bind Config.ofTree? with
  | some config => .ok config
  | none => .error (.internal "invalid bootstrap configuration")

end ObjectBootstrap
