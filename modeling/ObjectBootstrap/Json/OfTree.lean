import ObjectBootstrap.Json.Number
import ObjectBootstrap.Json.Tree
import ObjectBootstrap.Json.Value
import ObjectBootstrap.NameTable

/-!
# Values of JSON text

From text as it is written to the value it stands for. Here nothing is ignored, so everything has to
be right: a text that holds half of a surrogate pair and a number that is too large are refused. Of
the members of an object that have the same key, the last one counts.

## Main definitions

* `Json.lastOfEach`: of members with one key, the last.
* `Json.ofTree?`: the value of a tree.
* `Json.ofText?`: reads a whole text.

## Theorems

* `Json.lookup_lastOfEach`: a key stands for what the last member with this key says.
-/

namespace ObjectBootstrap

namespace Json

open NameTable (lookup_entry)

/-- The members that no later member replaces. -/
def lastOfEach : List (String × Json) → List (String × Json)
  | [] => []
  | member :: rest =>
    if rest.any fun later => later.1 == member.1 then lastOfEach rest
    else member :: lastOfEach rest

/-- A key has a value in a list of members exactly when some member has the key. -/
theorem isSome_lookup_eq_any (key : String) (members : List (String × Json)) :
    (members.lookup key).isSome = members.any fun member => member.1 == key := by
  induction members with
  | nil => rfl
  | cons member rest ih =>
    obtain ⟨k, value⟩ := member
    rw [lookup_entry, List.any_cons, ← ih]
    by_cases h : key = k
    · simp [h]
    · rw [if_neg h, beq_eq_false_iff_ne.2 fun hk => h hk.symm, Bool.false_or]

/-- A key stands for what the last member with this key says. -/
theorem lookup_lastOfEach (key : String) (members : List (String × Json)) :
    (lastOfEach members).lookup key = members.reverse.lookup key := by
  induction members with
  | nil => rfl
  | cons member rest ih =>
    obtain ⟨k, value⟩ := member
    have hsome : (rest.reverse.lookup k).isSome = rest.any fun later => later.1 == k := by
      rw [isSome_lookup_eq_any, List.any_reverse]
    rw [lastOfEach, List.reverse_cons, List.lookup_append, lookup_entry, List.lookup_nil]
    by_cases hk : key = k
    · subst hk
      rw [if_pos rfl]
      split
      · next hlater =>
        -- A later member has the key, so this one does not matter.
        rw [hlater] at hsome
        obtain ⟨found, hfound⟩ := Option.isSome_iff_exists.1 hsome
        rw [ih, hfound, Option.some_or]
      · next hlater =>
        rw [Bool.not_eq_true] at hlater
        rw [hlater, Option.isSome_eq_false_iff, Option.isNone_iff_eq_none] at hsome
        rw [lookup_entry, if_pos rfl, hsome, Option.none_or]
    · rw [if_neg hk, Option.or_none]
      split
      · exact ih
      · rw [lookup_entry, if_neg hk, ih]

mutual

/-- The value of a tree. -/
def ofTree? : JsonTree → Option Json
  | .null => some .null
  | .bool value => some (.bool value)
  | .number text => (numberText? text).map .number
  | .string text => text.map .string
  | .array items => (ofItems? items).map .array
  | .object members => (ofMembers? members).map fun members => .object (lastOfEach members)

/-- The values of the elements of an array. -/
def ofItems? : List JsonTree → Option (List Json)
  | [] => some []
  | item :: rest => do
    let value ← ofTree? item
    let values ← ofItems? rest
    return value :: values

/-- The members of an object with their values, repeated ones included. -/
def ofMembers? : List (Option String × JsonTree) → Option (List (String × Json))
  | [] => some []
  | (key, tree) :: rest => do
    let key ← key
    let value ← ofTree? tree
    let members ← ofMembers? rest
    return (key, value) :: members

end

/-- Reads a whole text. -/
def ofText? (text : String) : Option Json := (JsonTree.ofText? text).bind ofTree?

end Json

end ObjectBootstrap
