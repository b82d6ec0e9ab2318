/-!
# JSON text

The grammar of JSON text, read strictly: no comment, no comma before a closing bracket, no leading
zero, no control character inside quotes, and nothing but blanks after the value. Text is read
into a tree that keeps what a later reading has to decide on: numbers as they are written, every
member of an object, repeated or not, and, in place of a text that escapes half of a surrogate
pair, the absence of a text. Such a half is harmless where a value is ignored and an error where it
is used, so the tree cannot refuse it yet.

## Main definitions

* `JsonTree`: JSON text as it is written.
* `JsonTree.ofText?`: reads a whole text.
-/

namespace ObjectBootstrap

/-- JSON text as it is written. -/
inductive JsonTree where
  | null
  | bool (value : Bool)
  | number (text : String)
  /-- No text when an escape in it names half of a surrogate pair. -/
  | string (text : Option String)
  | array (items : List JsonTree)
  | object (members : List (Option String × JsonTree))

namespace JsonTree

/-- The blanks that may stand between two parts of JSON text. -/
def isGap (c : Char) : Bool := c = ' ' || c = '\n' || c = '\t' || c = '\r'

/-- The rest of a text behind the blanks it starts with. -/
def skipGap (cs : List Char) : List Char := cs.dropWhile isGap

/-- The value of a hexadecimal digit. -/
def hexValue? (c : Char) : Option Nat :=
  if '0' ≤ c ∧ c ≤ '9' then some (c.toNat - 48)
  else if 'a' ≤ c ∧ c ≤ 'f' then some (c.toNat - 87)
  else if 'A' ≤ c ∧ c ≤ 'F' then some (c.toNat - 55)
  else none

/-- The value of four hexadecimal digits. -/
def hex4? (a b c d : Char) : Option Nat := do
  let a ← hexValue? a
  let b ← hexValue? b
  let c ← hexValue? c
  let d ← hexValue? d
  return ((a * 16 + b) * 16 + c) * 16 + d

/-- A text under construction: the characters so far, last one first, and the upper half of a
    surrogate pair that waits for its lower half. Once a half is left alone there is no text. -/
structure Pending where
  chars : Option (List Char) := some []
  upper : Option Nat := none

namespace Pending

/-- Adds a character; an upper half that still waits is left alone. -/
def push (p : Pending) (c : Char) : Pending :=
  ⟨if p.upper.isSome then none else p.chars.map (c :: ·), none⟩

/-- Adds the sixteen-bit unit that an escape names. -/
def pushUnit (p : Pending) (unit : Nat) : Pending :=
  if 0xD800 ≤ unit ∧ unit < 0xDC00 then
    ⟨if p.upper.isSome then none else p.chars, some unit⟩
  else if 0xDC00 ≤ unit ∧ unit < 0xE000 then
    match p.upper with
    | some upper =>
      ⟨p.chars.map (Char.ofNat (0x10000 + (upper - 0xD800) * 0x400 + (unit - 0xDC00)) :: ·), none⟩
    | none => ⟨none, none⟩
  else p.push (Char.ofNat unit)

/-- The finished text. -/
def text (p : Pending) : Option String :=
  if p.upper.isSome then none else p.chars.map fun chars => String.ofList chars.reverse

end Pending

/-- The character that a one-letter escape stands for. -/
def escaped? (c : Char) : Option Char :=
  if c = '"' then some '"'
  else if c = '\\' then some '\\'
  else if c = '/' then some '/'
  else if c = 'b' then some (Char.ofNat 8)
  else if c = 'f' then some (Char.ofNat 12)
  else if c = 'n' then some '\n'
  else if c = 'r' then some '\r'
  else if c = 't' then some '\t'
  else none

/-- Reads the text behind an opening quote up to its closing quote. -/
def stringBody? (p : Pending) : List Char → Option (Option String × List Char)
  | [] => none
  | '"' :: rest => some (p.text, rest)
  | '\\' :: 'u' :: a :: b :: c :: d :: rest =>
    match hex4? a b c d with
    | some unit => stringBody? (p.pushUnit unit) rest
    | none => none
  | '\\' :: c :: rest =>
    match escaped? c with
    | some c => stringBody? (p.push c) rest
    | none => none
  | c :: rest => if c.toNat < 32 then none else stringBody? (p.push c) rest

/-- Takes the digits a text starts with; there has to be one. -/
def digits? (cs : List Char) : Option (List Char × List Char) :=
  match cs.takeWhile Char.isDigit with
  | [] => none
  | digits => some (digits, cs.dropWhile Char.isDigit)

/-- Takes the digits before the point; a zero stands alone. -/
def whole? : List Char → Option (List Char × List Char)
  | '0' :: rest =>
    match rest with
    | c :: _ => if c.isDigit then none else some (['0'], rest)
    | [] => some (['0'], [])
  | cs => digits? cs

/-- Takes a point and the digits behind it, where a point stands. -/
def fraction? : List Char → Option (List Char × List Char)
  | '.' :: rest => do
    let (digits, rest) ← digits? rest
    return ('.' :: digits, rest)
  | cs => some ([], cs)

/-- Takes a sign where one stands. -/
def sign : List Char → List Char × List Char
  | '+' :: rest => (['+'], rest)
  | '-' :: rest => (['-'], rest)
  | cs => ([], cs)

/-- Takes an exponent where one stands. -/
def exponent? : List Char → Option (List Char × List Char)
  | [] => some ([], [])
  | e :: rest =>
    if e = 'e' || e = 'E' then do
      let (sign, rest) := sign rest
      let (digits, rest) ← digits? rest
      return (e :: sign ++ digits, rest)
    else some ([], e :: rest)

/-- Takes a number as it is written. -/
def number? (cs : List Char) : Option (String × List Char) := do
  let (minus, rest) := match cs with
    | '-' :: rest => (['-'], rest)
    | _ => ([], cs)
  let (whole, rest) ← whole? rest
  let (fraction, rest) ← fraction? rest
  let (exponent, rest) ← exponent? rest
  return (String.ofList (minus ++ whole ++ fraction ++ exponent), rest)

mutual

/-- Takes a value. The number bounds the nesting and the lengths of what is read. -/
def value? : Nat → List Char → Option (JsonTree × List Char)
  | 0, _ => none
  | fuel + 1, cs =>
    match skipGap cs with
    | 'n' :: 'u' :: 'l' :: 'l' :: rest => some (.null, rest)
    | 't' :: 'r' :: 'u' :: 'e' :: rest => some (.bool true, rest)
    | 'f' :: 'a' :: 'l' :: 's' :: 'e' :: rest => some (.bool false, rest)
    | '"' :: rest => do
      let (text, rest) ← stringBody? {} rest
      return (.string text, rest)
    | '[' :: rest =>
      match skipGap rest with
      | ']' :: rest => some (.array [], rest)
      | rest => do
        let (items, rest) ← items? fuel rest
        return (.array items, rest)
    | '\x7b' :: rest =>
      match skipGap rest with
      | '\x7d' :: rest => some (.object [], rest)
      | rest => do
        let (members, rest) ← members? fuel rest
        return (.object members, rest)
    | cs => do
      let (text, rest) ← number? cs
      return (.number text, rest)

/-- Takes the elements of an array that has some, and its closing bracket. -/
def items? : Nat → List Char → Option (List JsonTree × List Char)
  | 0, _ => none
  | fuel + 1, cs => do
    let (item, rest) ← value? fuel cs
    match skipGap rest with
    | ']' :: rest => return ([item], rest)
    | ',' :: rest =>
      let (items, rest) ← items? fuel rest
      return (item :: items, rest)
    | _ => none

/-- Takes the members of an object that has some, and its closing bracket. -/
def members? : Nat → List Char → Option (List (Option String × JsonTree) × List Char)
  | 0, _ => none
  | fuel + 1, cs =>
    match skipGap cs with
    | '"' :: rest => do
      let (key, rest) ← stringBody? {} rest
      match skipGap rest with
      | ':' :: rest =>
        let (value, rest) ← value? fuel rest
        match skipGap rest with
        | '\x7d' :: rest => return ([(key, value)], rest)
        | ',' :: rest =>
          let (members, rest) ← members? fuel rest
          return ((key, value) :: members, rest)
        | _ => none
      | _ => none
    | _ => none

end

/-- Reads a whole text. Each step of the reading either takes a character or comes right before
    one that does, so twice the length bounds the steps. -/
def ofText? (text : String) : Option JsonTree :=
  match value? (2 * text.length + 2) text.toList with
  | some (tree, rest) => if skipGap rest = [] then some tree else none
  | none => none

end JsonTree

end ObjectBootstrap
