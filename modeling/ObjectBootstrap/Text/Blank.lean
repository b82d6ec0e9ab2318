/-!
# Blank characters

The characters with the White_Space property, and the text between them. Flags are read with blanks
around them removed, so which characters are blank decides which settings are flags.

## Main definitions

* `isBlank`: the White_Space property.
* `trimBlank`: a text without the blanks at its two ends.
-/

namespace ObjectBootstrap

/-- The code points with the White_Space property, as closed ranges. -/
def blankRanges : List (Nat × Nat) :=
  [(0x09, 0x0D), (0x20, 0x20), (0x85, 0x85), (0xA0, 0xA0), (0x1680, 0x1680), (0x2000, 0x200A),
    (0x2028, 0x2029), (0x202F, 0x202F), (0x205F, 0x205F), (0x3000, 0x3000)]

/-- Whether a character has the White_Space property. -/
def isBlank (c : Char) : Bool :=
  blankRanges.any fun range => range.1 ≤ c.toNat && c.toNat ≤ range.2

/-- A text without the blanks at its two ends. -/
def trimBlank (s : String) : String :=
  String.ofList ((s.toList.dropWhile isBlank).reverse.dropWhile isBlank).reverse

end ObjectBootstrap
