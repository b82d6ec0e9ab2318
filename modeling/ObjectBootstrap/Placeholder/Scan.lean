/-!
# Finding placeholders

A placeholder opens with a dollar sign and a brace and ends at the closing brace that belongs to it.
Between the two, each further opening asks for one more closing brace; a brace that is opened
without a dollar sign does not count.

Where a placeholder ends is told as an offset in bytes of UTF-8, which is how a text is indexed. A
cut at such an offset fails when the offset is no boundary between characters. An offset of a
closing brace always is one, so the cuts that the resolver makes never fail.

## Main definitions

* `splitAtOpening`: the text up to the first opening and the text behind it.
* `closingOffset`: where the placeholder ends in which a text starts.
* `cutAtByte`: the two parts of a text at a byte offset.
-/

namespace ObjectBootstrap

namespace Placeholder

/-- The text before the first opening and the text behind it, if there is an opening. -/
def splitAtOpening : List Char → Option (List Char × List Char)
  | [] => none
  | '$' :: '\x7b' :: rest => some ([], rest)
  | c :: rest => (splitAtOpening rest).map fun parts => (c :: parts.1, parts.2)

/-- Whether a text contains an opening. -/
def hasOpening (cs : List Char) : Bool := (splitAtOpening cs).isSome

/-- The byte offset of the brace that closes a placeholder, from the text behind its opening. The
    first argument counts the further openings that are not closed yet. -/
def closingOffset : Nat → List Char → Option Nat
  | _, [] => none
  | depth, '$' :: '\x7b' :: rest => (closingOffset (depth + 1) rest).map (· + 2)
  | 0, '\x7d' :: _ => some 0
  | depth + 1, '\x7d' :: rest => (closingOffset depth rest).map (· + 1)
  | depth, c :: rest => (closingOffset depth rest).map (· + c.utf8Size)

/-- The two parts of a text at a byte offset, if a character starts or the text ends there. -/
def cutAtByte : Nat → List Char → Option (List Char × List Char)
  | 0, cs => some ([], cs)
  | _ + 1, [] => none
  | n + 1, c :: rest =>
    if c.utf8Size ≤ n + 1 then
      (cutAtByte (n + 1 - c.utf8Size) rest).map fun parts => (c :: parts.1, parts.2)
    else none

/-- What stands behind the first opening is shorter than the text. -/
theorem splitAtOpening_length {cs before behind : List Char}
    (h : splitAtOpening cs = some (before, behind)) :
    before.length + behind.length + 2 = cs.length := by
  fun_induction splitAtOpening cs generalizing before with
  | case1 => simp at h
  | case2 rest =>
    simp only [Option.some.injEq, Prod.mk.injEq] at h
    simp [← h.1, ← h.2]
  | case3 c rest _ ih =>
    obtain ⟨⟨b, r⟩, hp, heq⟩ := Option.map_eq_some_iff.1 h
    simp only [Prod.mk.injEq] at heq
    have := ih (heq.2 ▸ hp)
    simp [← heq.1]
    omega

/-- A cut neither loses nor adds a character. -/
theorem cutAtByte_append {n : Nat} {cs before behind : List Char}
    (h : cutAtByte n cs = some (before, behind)) : before ++ behind = cs := by
  fun_induction cutAtByte n cs generalizing before with
  | case1 cs =>
    simp only [Option.some.injEq, Prod.mk.injEq] at h
    simp [← h.1, ← h.2]
  | case2 => simp at h
  | case3 n c rest _ ih =>
    obtain ⟨⟨b, r⟩, hp, heq⟩ := Option.map_eq_some_iff.1 h
    simp only [Prod.mk.injEq] at heq
    simp [← heq.1, ih (heq.2 ▸ hp)]
  | case4 => simp at h

end Placeholder

end ObjectBootstrap
