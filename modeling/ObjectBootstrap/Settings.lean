import ObjectBootstrap.Error
import ObjectBootstrap.NameTable
import ObjectBootstrap.Text.Blank

/-!
# Settings

Texts under keys that the embedding program supplies. They answer placeholders, and some of them are
read as flags. A flag is one of eight words in any ASCII case, with blanks around it allowed; any
other text under a key that is asked for as a flag is an error that quotes the text as it was given.

## Main definitions

* `Settings`: the texts, with `get?`, `set` and `flag?`.
-/

namespace ObjectBootstrap

/-- Texts under keys, as the embedding program supplies them. -/
structure Settings where
  table : NameTable String := NameTable.empty

namespace Settings

/-- No setting at all. -/
def empty : Settings := ⟨NameTable.empty⟩

/-- The text under a key. -/
def get? (s : Settings) (key : String) : Option String := s.table.get? key

/-- Stores a text under a key. -/
def set (s : Settings) (key text : String) : Settings := ⟨s.table.insert key text⟩

/-- The settings given as a list; of two texts under one key the later one counts. -/
def ofList (entries : List (String × String)) : Settings :=
  entries.foldl (fun s entry => s.set entry.1 entry.2) empty

/-- The eight words that are flags. -/
def flagOfWord? (word : String) : Option Bool :=
  if word ∈ ["true", "1", "yes", "on"] then some true
  else if word ∈ ["false", "0", "no", "off"] then some false
  else none

/-- The text under a key read as a flag; an absent key is no error. -/
def flag? (s : Settings) (key : String) : Except Error (Option Bool) :=
  match s.get? key with
  | none => .ok none
  | some text =>
    match flagOfWord? (String.map Char.toLower (trimBlank text)) with
    | some value => .ok (some value)
    | none =>
      .error (.internal ("configuration key '" ++ key ++ "' is not a boolean: '" ++ text ++ "'"))

end Settings

end ObjectBootstrap
