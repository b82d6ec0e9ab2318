import ObjectBootstrap.Program

/-!
# Journals of hook calls

What recording hooks see, as lines of text. A line tells the kind of the call and who was called,
and for some kinds about what, with colons in between. The names in a line may contain colons too,
so the lines about an object are found by how they end.

## Main definitions

* `Note`: a call that is recorded, and its line.
* `Journal`: the lines, with `record`, `startingWith`, `about` and `clear`.
-/

namespace ObjectBootstrap

namespace Recording

/-- A call that is recorded. -/
inductive Note where
  | mutated (hook : String)
  | customized (hook : String)
  | intercepted (stage : Stage) (hook object : String)
  | told (listener event : String)

/-- The line of a call. -/
def Note.line : Note → String
  | mutated hook => "mutate:" ++ hook
  | customized hook => "customize:" ++ hook
  | intercepted .before hook object => "before:" ++ hook ++ ":" ++ object
  | intercepted .after hook object => "after:" ++ hook ++ ":" ++ object
  | told listener event => "event:" ++ listener ++ ":" ++ event

/-- The lines of the calls so far, in order. -/
structure Journal where
  lines : List String := []

namespace Journal

/-- Records a call. -/
def record (j : Journal) (note : Note) : Journal := ⟨j.lines ++ [note.line]⟩

/-- The lines that start with a text. -/
def startingWith (j : Journal) (start : String) : List String :=
  j.lines.filter fun line => start.toList.isPrefixOf line.toList

/-- The lines that end with a colon and the name of an object. -/
def about (j : Journal) (object : String) : List String :=
  j.lines.filter fun line => (":" ++ object).toList.isSuffixOf line.toList

/-- The journal without any line. -/
def clear (_ : Journal) : Journal := {}

end Journal

end Recording

end ObjectBootstrap
