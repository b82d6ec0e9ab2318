import ObjectBootstrap.Text.Invisible

/-!
# Quoted text

A text between quotes, for people to read. Quotes and backslashes are escaped, the usual control
characters by a letter or a zero, and other invisible characters by their number in braces.

## Main definitions

* `quoteText`: a text between quotes.
-/

namespace ObjectBootstrap

/-- How one character stands between quotes. -/
def quoteChar (c : Char) : List Char :=
  if c = '"' then ['\\', '"']
  else if c = '\\' then ['\\', '\\']
  else if c = '\n' then ['\\', 'n']
  else if c = '\r' then ['\\', 'r']
  else if c = '\t' then ['\\', 't']
  else if c.toNat = 0 then ['\\', '0']
  else if isInvisible c then
    ['\\', 'u', '\x7b'] ++ Nat.toDigits 16 c.toNat ++ ['\x7d']
  else [c]

/-- A text between quotes. -/
def quoteText (s : String) : String :=
  "\"" ++ String.ofList (s.toList.flatMap quoteChar) ++ "\""

end ObjectBootstrap
