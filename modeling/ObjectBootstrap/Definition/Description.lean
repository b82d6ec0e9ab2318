import ObjectBootstrap.Definition
import ObjectBootstrap.Text.Quoted

/-!
# Descriptions of definitions

A definition on one line, for people to read: the values of its fields by name, properties by
ascending key, and capabilities in declaration order. Two dots at the end stand for what has no text
of its own, the factory.

## Main definitions

* `Definition.describe`: the line.
-/

namespace ObjectBootstrap

/-- The name of a tier as a single word. -/
def Tier.word : Tier → String
  | highest => "Highest"
  | ordered => "Ordered"
  | plain => "Plain"

/-- The name of a role as a single word. -/
def Role.word : Role → String
  | application => "Application"
  | support => "Support"
  | infrastructure => "Infrastructure"

/-- The name of a scope as a single word. -/
def Scope.word : Scope → String
  | singleton => "Singleton"
  | prototype => "Prototype"

/-- Items between braces, without blanks at the ends. -/
def braced (items : List String) : String :=
  "\x7b" ++ ", ".intercalate items ++ "\x7d"

/-- A record: its name and its fields between braces. -/
def recordText (name : String) (fields : List String) : String :=
  name ++ " \x7b " ++ ", ".intercalate fields ++ " \x7d"

/-- A placement in a description. -/
def Placement.describe (p : Placement) : String :=
  let rank := match p.rank with
    | none => "None"
    | some rank => "Some(" ++ toString rank.toInt ++ ")"
  recordText "Placement" ["tier: " ++ p.tier.word, "rank: " ++ rank]

/-- The line that describes a definition. -/
def Definition.describe {F : Type} (d : Definition F) : String :=
  let property (entry : String × String) := quoteText entry.1 ++ ": " ++ quoteText entry.2
  recordText "Definition" [
    "name: " ++ quoteText d.name,
    "type_name: " ++ quoteText d.typeName,
    "role: " ++ d.role.word,
    "scope: " ++ d.scope.word,
    "placement: " ++ d.placement.describe,
    "lazy_init: " ++ toString d.lazyInit,
    "is_abstract: " ++ toString d.isAbstract,
    "properties: " ++ braced (d.properties.entries.map property),
    "capabilities: " ++ braced (d.declared.map Capability.word),
    ".."]

end ObjectBootstrap
