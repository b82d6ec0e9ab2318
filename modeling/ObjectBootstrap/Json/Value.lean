/-!
# JSON values

Values of the JSON data format and their indented text. A number is held as the text that is
written for it, which says everything about it whatever its size. The members of an object keep
their order.

## Main definitions

* `Json`: a value.
* `Json.pretty`: its text, one member or element a line, indented by two blanks a level.
-/

namespace ObjectBootstrap

/-- A JSON value. -/
inductive Json where
  | null
  | bool (value : Bool)
  | number (text : String)
  | string (text : String)
  | array (items : List Json)
  | object (members : List (String × Json))

namespace Json

/-- The digit of a value below sixteen. -/
def hexDigit (n : Nat) : Char :=
  if n < 10 then Char.ofNat (48 + n) else Char.ofNat (87 + n)

/-- How one character stands between quotes: quotes, backslashes and control characters are
    escaped, five control characters by a letter and the others by their number. -/
def quotedChar (c : Char) : List Char :=
  if c = '"' then ['\\', '"']
  else if c = '\\' then ['\\', '\\']
  else if c.toNat = 8 then ['\\', 'b']
  else if c.toNat = 9 then ['\\', 't']
  else if c.toNat = 10 then ['\\', 'n']
  else if c.toNat = 12 then ['\\', 'f']
  else if c.toNat = 13 then ['\\', 'r']
  else if c.toNat < 32 then
    ['\\', 'u', '0', '0', hexDigit (c.toNat / 16), hexDigit (c.toNat % 16)]
  else [c]

/-- A text between quotes. -/
def quoted (s : String) : String :=
  "\"" ++ String.ofList (s.toList.flatMap quotedChar) ++ "\""

/-- A line break and the blanks of a level. -/
def newLine (level : Nat) : String :=
  String.ofList ('\n' :: List.replicate (2 * level) ' ')

/-- Items on lines of their own between brackets; nothing stands between the brackets of an empty
    list. -/
def bracketed (opening closing : String) (level : Nat) : List String → String
  | [] => opening ++ closing
  | items =>
    opening ++ newLine (level + 1) ++ ("," ++ newLine (level + 1)).intercalate items
      ++ newLine level ++ closing

mutual

/-- The indented text of a value that stands at a level. -/
def prettyAt (level : Nat) : Json → String
  | .null => "null"
  | .bool value => if value then "true" else "false"
  | .number text => text
  | .string text => quoted text
  | .array items => bracketed "[" "]" level (prettyItems (level + 1) items)
  | .object members => bracketed "\x7b" "\x7d" level (prettyMembers (level + 1) members)

/-- The texts of the elements of an array. -/
def prettyItems (level : Nat) : List Json → List String
  | [] => []
  | item :: rest => prettyAt level item :: prettyItems level rest

/-- The texts of the members of an object. -/
def prettyMembers (level : Nat) : List (String × Json) → List String
  | [] => []
  | (key, value) :: rest =>
    (quoted key ++ ": " ++ prettyAt level value) :: prettyMembers level rest

end

/-- The indented text of a value. -/
def pretty (value : Json) : String := prettyAt 0 value

/-- A list of texts as an array. -/
def ofTexts (texts : List String) : Json := .array (texts.map .string)

/-- A natural number as a value. -/
def ofNat (n : Nat) : Json := .number (toString n)

end Json

end ObjectBootstrap
