import Mathlib.Data.List.Infix
import Mathlib.Order.Nat
import ObjectBootstrap.Proofs.Placeholder.Meaning

/-!
# Placeholders in bytes

A text is stored as its bytes in UTF-8, and an offset counts bytes. The scan of a text walks along
its characters and adds up how many bytes they take. It comes to the same offsets as a scan of the
bytes themselves, since the byte of a dollar sign or of a brace is part of no other character
(`mem_utf8EncodeChar_iff`).

The scan of the bytes, `closingOctet`, steps over an opening as a whole and counts how many
placeholders are open. This count is the number of openings that it has come past less the number of
closing braces. So it stops at the first closing brace in front of which the two numbers are the
same (`closingOctet_eq_some_iff`), and this is so for any bytes, whether they are those of a text or
not.

## Main definitions

* `octets`: The bytes of a text.
* `occurrences`: How often some bytes stand among others.
* `OpensAt`, `ClosesAt`: What there is at an offset.
* `closingOctet`: The offset of the brace that closes a placeholder, byte by byte.

## Theorems

* `closingOctet_eq_some_iff`: Where a placeholder is closed in any bytes.
* `closingOffset_eq_closingOctet`: The scan of a text is that of its bytes.
* `closingOffset_eq_some_iff`, `closingOffset_eq_none_iff`: Where a placeholder is closed in a text.
* `splitAtOpening_offset`: A text is split at the first opening among its bytes.
-/

namespace ObjectBootstrap

namespace Placeholder

/-- The bytes of a text in UTF-8. -/
def octets (text : List Char) : List UInt8 := (String.ofList text).toUTF8.data.toList

/-- How often some bytes stand among others. -/
def occurrences (pattern among : List UInt8) : Nat :=
  among.tails.countP fun tail => pattern.isPrefixOf tail

/-- There is an opening at an offset. -/
def OpensAt (bytes : List UInt8) (i : Nat) : Prop := octets ['$', '\x7b'] <+: bytes.drop i

/-- There is a closing brace at an offset, and the bytes in front of it hold as many closing braces
    as openings, counting as openings also those that are open in front of the bytes. -/
def ClosesAt (depth : Nat) (bytes : List UInt8) (i : Nat) : Prop :=
  octets ['\x7d'] <+: bytes.drop i ∧
    occurrences (octets ['\x7d']) (bytes.take i)
      = occurrences (octets ['$', '\x7b']) (bytes.take i) + depth

/-- The offset of the brace that closes a placeholder, from the bytes behind its opening. The first
    argument counts the further openings that are not closed yet. -/
def closingOctet : Nat → List UInt8 → Option Nat
  | _, [] => none
  | depth, 0x24 :: 0x7b :: rest => (closingOctet (depth + 1) rest).map (· + 2)
  | 0, 0x7d :: _ => some 0
  | depth + 1, 0x7d :: rest => (closingOctet depth rest).map (· + 1)
  | depth, _ :: rest => (closingOctet depth rest).map (· + 1)

section Leasts

variable {P Q : Nat → Prop}

-- A property that begins later has a later least number.
theorem isLeast_add_iff {n : Nat} (hlow : ∀ i < n, ¬P i) (hshift : ∀ i, P (i + n) ↔ Q i)
    (i : Nat) : IsLeast {i | P i} i ↔ ∃ j, IsLeast {j | Q j} j ∧ j + n = i := by
  have hle : ∀ i, P i → n ≤ i := fun i hi => Nat.le_of_not_lt fun hlt => hlow i hlt hi
  constructor
  · rintro ⟨hi, hleast⟩
    rcases Nat.exists_eq_add_of_le' (hle i hi) with ⟨j, rfl⟩
    refine ⟨j, ⟨(hshift j).1 hi, fun k hk => ?_⟩, rfl⟩
    exact Nat.le_of_add_le_add_right (hleast ((hshift k).2 hk))
  · rintro ⟨j, ⟨hj, hleast⟩, rfl⟩
    refine ⟨(hshift j).2 hj, fun k hk => ?_⟩
    rcases Nat.exists_eq_add_of_le' (hle k hk) with ⟨k, rfl⟩
    exact Nat.add_le_add_right (hleast ((hshift k).1 hk)) n

-- A search for the least number with a property fails when there is none.
theorem eq_none_iff_of_isLeast {found : Option Nat}
    (h : ∀ i, found = some i ↔ IsLeast {i | P i} i) : found = none ↔ ∀ i, ¬P i := by
  constructor
  · rintro rfl i hi
    classical
    cases (h _).2 (Nat.isLeast_find ⟨i, hi⟩)
  · intro hnone
    cases found with
    | none => rfl
    | some i => exact absurd ((h i).1 rfl).1 (hnone i)

end Leasts

section Bytes

variable {depth : Nat} {b : UInt8} {rest : List UInt8}

theorem opensAt_iff {i : Nat} : OpensAt rest i ↔ [0x24, 0x7b] <+: rest.drop i := Iff.rfl

theorem closesAt_iff {i : Nat} :
    ClosesAt depth rest i ↔ [0x7d] <+: rest.drop i ∧
      occurrences [0x7d] (rest.take i) = occurrences [0x24, 0x7b] (rest.take i) + depth := Iff.rfl

theorem occurrences_nil (pattern : List UInt8) : occurrences (b :: pattern) [] = 0 := rfl

theorem occurrences_cons (pattern : List UInt8) :
    occurrences pattern (b :: rest)
      = occurrences pattern rest + if pattern <+: b :: rest then 1 else 0 := by
  rw [occurrences, List.tails_cons, List.countP_cons, ← occurrences]
  simp only [List.isPrefixOf_iff_prefix]

theorem occurrences_of_prefix {pattern : List UInt8} (h : pattern <+: b :: rest) :
    occurrences pattern (b :: rest) = occurrences pattern rest + 1 := by
  rw [occurrences_cons, if_pos h]

theorem occurrences_of_not_prefix {pattern : List UInt8} (h : ¬pattern <+: b :: rest) :
    occurrences pattern (b :: rest) = occurrences pattern rest := by
  rw [occurrences_cons, if_neg h, Nat.add_zero]

theorem occurrences_of_ne {a : UInt8} (h : b ≠ a) (pattern : List UInt8) :
    occurrences (a :: pattern) (b :: rest) = occurrences (a :: pattern) rest :=
  occurrences_of_not_prefix fun hprefix => h (List.cons_prefix_cons.1 hprefix).1.symm

theorem not_closesAt_zero (h : b = 0x7d → depth ≠ 0) : ¬ClosesAt depth (b :: rest) 0 := by
  intro hcloses
  rcases closesAt_iff.1 hcloses with ⟨hbrace, hdepth⟩
  rw [List.take_zero, occurrences_nil, occurrences_nil, Nat.zero_add] at hdepth
  exact h (List.cons_prefix_cons.1 hbrace).1.symm hdepth.symm

theorem closesAt_zero (rest : List UInt8) : ClosesAt 0 (0x7d :: rest) 0 :=
  ⟨List.prefix_append [0x7d] rest, rfl⟩

-- An opening in front asks for one more closing brace.
theorem closesAt_opening (i : Nat) :
    ClosesAt depth (0x24 :: 0x7b :: rest) (i + 2) ↔ ClosesAt (depth + 1) rest i := by
  have hopening : ([0x24, 0x7b] : List UInt8) <+: 0x24 :: 0x7b :: rest.take i :=
    List.prefix_append [0x24, 0x7b] _
  rw [closesAt_iff, closesAt_iff, List.drop_succ_cons, List.drop_succ_cons, List.take_succ_cons,
    List.take_succ_cons, occurrences_of_prefix hopening, occurrences_of_ne (by decide),
    occurrences_of_ne (by decide), occurrences_of_ne (by decide), Nat.add_right_comm, Nat.add_assoc]

-- A closing brace in front is one of those that are asked for.
theorem closesAt_closing (i : Nat) :
    ClosesAt (depth + 1) (0x7d :: rest) (i + 1) ↔ ClosesAt depth rest i := by
  have hclosing : ([0x7d] : List UInt8) <+: 0x7d :: rest.take i := List.prefix_append [0x7d] _
  rw [closesAt_iff, closesAt_iff, List.drop_succ_cons, List.take_succ_cons,
    occurrences_of_prefix hclosing, occurrences_of_ne (by decide), ← Nat.add_assoc,
    Nat.add_right_cancel_iff]

-- Another byte in front changes nothing.
theorem closesAt_plain (hclosing : b ≠ 0x7d)
    (hopening : ∀ behind, b = 0x24 → rest = 0x7b :: behind → False) (i : Nat) :
    ClosesAt depth (b :: rest) (i + 1) ↔ ClosesAt depth rest i := by
  have hplain : ¬([0x24, 0x7b] : List UInt8) <+: b :: rest.take i := by
    intro hprefix
    rcases List.cons_prefix_cons.1 hprefix with ⟨hb, hbrace⟩
    rcases hbrace.trans (List.take_prefix i rest) with ⟨behind, hbehind⟩
    exact hopening behind hb.symm hbehind.symm
  rw [closesAt_iff, closesAt_iff, List.drop_succ_cons, List.take_succ_cons,
    occurrences_of_not_prefix hplain, occurrences_of_ne hclosing]

/-- The scan of any bytes finds the first closing brace in front of which as many placeholders are
    closed as opened. -/
theorem closingOctet_eq_some_iff (depth : Nat) (bytes : List UInt8) : ∀ i,
    closingOctet depth bytes = some i ↔ IsLeast {i | ClosesAt depth bytes i} i := by
  fun_induction closingOctet depth bytes with
  | case1 depth =>
      intro i
      refine ⟨fun h => (by cases h), fun h => ?_⟩
      have hbrace := (closesAt_iff.1 h.1).1
      rw [List.drop_nil, List.prefix_nil] at hbrace
      cases hbrace
  | case2 depth rest ih =>
      intro i
      rw [Option.map_eq_some_iff, isLeast_add_iff _ closesAt_opening]
      · simp only [ih]
      -- Neither byte of the opening is a closing brace.
      · intro i hi hcloses
        match i with
        | 0 => exact not_closesAt_zero (fun hb => absurd hb (by decide)) hcloses
        | 1 =>
            have hbrace := (closesAt_iff.1 hcloses).1
            exact absurd (List.cons_prefix_cons.1 hbrace).1 (by decide)
  | case3 rest =>
      intro i
      refine ⟨?_, fun h => ?_⟩
      · rintro ⟨⟩
        exact ⟨closesAt_zero rest, fun i _ => Nat.zero_le i⟩
      · rw [Nat.le_zero.1 (h.2 (closesAt_zero rest))]
  | case4 depth rest ih =>
      intro i
      rw [Option.map_eq_some_iff, isLeast_add_iff _ closesAt_closing]
      · simp only [ih]
      · intro i hi
        rw [Nat.lt_one_iff.1 hi]
        exact not_closesAt_zero fun _ => Nat.succ_ne_zero depth
  | case5 depth b rest hopening hzero hsucc ih =>
      intro i
      have hclosing : b ≠ 0x7d := by
        intro hb
        cases depth with
        | zero => exact hzero rfl hb
        | succ depth => exact hsucc depth rfl hb
      rw [Option.map_eq_some_iff, isLeast_add_iff _ (closesAt_plain hclosing hopening)]
      · simp only [ih]
      · intro i hi
        rw [Nat.lt_one_iff.1 hi]
        exact not_closesAt_zero fun hb => absurd hb hclosing

theorem closingOctet_plain (hclosing : b ≠ 0x7d)
    (hopening : ∀ behind, b = 0x24 → rest = 0x7b :: behind → False) :
    closingOctet depth (b :: rest) = (closingOctet depth rest).map (· + 1) := by
  rw [closingOctet]
  · exact hopening
  · intro _ hb
    exact absurd hb hclosing
  · intro _ _ hb
    exact absurd hb hclosing

theorem closingOctet_append {early late : List UInt8} (hopening : 0x24 ∉ early)
    (hclosing : 0x7d ∉ early) :
    closingOctet depth (early ++ late) = (closingOctet depth late).map (· + early.length) := by
  induction early with
  | nil =>
      rw [List.nil_append]
      cases closingOctet depth late <;> rfl
  | cons b early ih =>
      rw [List.mem_cons, not_or] at hopening hclosing
      rw [List.cons_append, closingOctet_plain (Ne.symm hclosing.1)
        (fun _ hb => absurd hb.symm hopening.1), ih hopening.2 hclosing.2, Option.map_map]
      rfl

end Bytes

section Encoding

variable {c : Char} {rest : List Char}

theorem octets_cons (c : Char) (rest : List Char) :
    octets (c :: rest) = String.utf8EncodeChar c ++ octets rest := by
  have heq : ∀ text : List Char, octets text = text.flatMap String.utf8EncodeChar := by
    intro text
    rw [octets, String.toUTF8_eq_toByteArray, String.toByteArray_ofList, List.utf8Encode,
      List.data_toByteArray, List.toList_toArray]
  rw [heq, heq, List.flatMap_cons]

theorem octets_opening_cons (rest : List Char) :
    octets ('$' :: '\x7b' :: rest) = 0x24 :: 0x7b :: octets rest := by
  rw [octets_cons, octets_cons]
  rfl

theorem octets_closing_cons (rest : List Char) :
    octets ('\x7d' :: rest) = 0x7d :: octets rest := by
  rw [octets_cons]
  rfl

/-- The byte of an ASCII character stands in the encoding of no other character. -/
theorem mem_utf8EncodeChar_iff {a : Char} (ha : a.toNat < 128) :
    UInt8.ofNat a.toNat ∈ String.utf8EncodeChar c ↔ c = a := by
  have hc : c = a ↔ c.toNat = a.toNat := Char.toNat_inj.symm
  have hval : c.toNat = c.val.toNat := rfl
  rw [hc]
  -- One byte is the number of its character, and each of several bytes is at least 128.
  fun_cases String.utf8EncodeChar c
  all_goals simp only [List.mem_cons, List.not_mem_nil, or_false, ← UInt8.toNat_inj,
    UInt8.toNat_ofNat']
  all_goals omega

theorem dollar_mem_iff : 0x24 ∈ String.utf8EncodeChar c ↔ c = '$' :=
  mem_utf8EncodeChar_iff (a := '$') (by decide)

-- The byte of a brace in front is that of a brace.
theorem head_of_octets {behind : List UInt8} (h : octets rest = 0x7b :: behind) :
    rest.head? = some '\x7b' := by
  cases rest with
  | nil => cases h
  | cons c rest =>
      have hmem : 0x7b ∈ String.utf8EncodeChar c := by
        rw [octets_cons] at h
        rcases hencoding : String.utf8EncodeChar c with _ | ⟨b, more⟩
        · exact absurd hencoding String.utf8EncodeChar_ne_nil
        · rw [hencoding, List.cons_append, List.cons.injEq] at h
          rw [h.1]
          exact List.mem_cons_self
      rw [List.head?_cons, (mem_utf8EncodeChar_iff (a := '\x7b') (by decide)).1 hmem]

/-- The scan of a text is that of its bytes. -/
theorem closingOffset_eq_closingOctet (depth : Nat) (text : List Char) :
    closingOffset depth text = closingOctet depth (octets text) := by
  fun_induction closingOffset depth text with
  | case1 depth => rfl
  | case2 depth rest ih => rw [ih, octets_opening_cons, closingOctet]
  | case3 rest => rw [octets_closing_cons, closingOctet]
  | case4 depth rest ih => rw [ih, octets_closing_cons, closingOctet]
  | case5 depth c rest hopening hzero hsucc ih =>
      have hclosing : c ≠ '\x7d' := by
        intro hc
        cases depth with
        | zero => exact hzero rfl hc
        | succ depth => exact hsucc depth rfl hc
      rw [ih, octets_cons]
      -- A dollar sign may stand in front of a brace, and the other characters stop no scan.
      by_cases hdollar : c = '$'
      · subst hdollar
        have hplain : ∀ behind, (0x24 : UInt8) = 0x24 → octets rest = 0x7b :: behind → False :=
          fun _ _ hbehind => plain_iff.2 hopening ⟨rfl, head_of_octets hbehind⟩
        exact (closingOctet_plain (by decide) hplain).symm
      · have hnone : 0x7d ∉ String.utf8EncodeChar c :=
          mt (mem_utf8EncodeChar_iff (a := '\x7d') (by decide)).1 hclosing
        rw [closingOctet_append (mt dollar_mem_iff.1 hdollar) hnone, String.length_utf8EncodeChar]

/-- A placeholder is closed by the first closing brace in front of which there are as many closing
    braces as openings. -/
theorem closingOffset_eq_some_iff {depth : Nat} {text : List Char} (i : Nat) :
    closingOffset depth text = some i ↔ IsLeast {i | ClosesAt depth (octets text) i} i := by
  rw [closingOffset_eq_closingOctet, closingOctet_eq_some_iff]

example : closingOffset 0 "ñ$\x7bí\x7d\x7dó".toList = some 7 := by decide

theorem closingOffset_eq_none_iff {depth : Nat} {text : List Char} :
    closingOffset depth text = none ↔ ∀ i, ¬ClosesAt depth (octets text) i :=
  eq_none_iff_of_isLeast closingOffset_eq_some_iff

theorem not_opensAt_of_plain (hplain : Plain c rest) {i : Nat}
    (hi : i < (String.utf8EncodeChar c).length) : ¬OpensAt (octets (c :: rest)) i := by
  intro hopens
  rw [opensAt_iff, octets_cons, List.drop_append_of_le_length (Nat.le_of_lt hi)] at hopens
  rcases hdrop : (String.utf8EncodeChar c).drop i with _ | ⟨b, more⟩
  · exact absurd (List.drop_eq_nil_iff.1 hdrop) (Nat.not_le_of_lt hi)
  · rw [hdrop, List.cons_append, List.cons_prefix_cons] at hopens
    rcases hopens with ⟨rfl, hbrace⟩
    have hmem : 0x24 ∈ String.utf8EncodeChar c := List.mem_of_mem_drop (hdrop ▸ List.mem_cons_self)
    rcases dollar_mem_iff.1 hmem with rfl
    -- The dollar sign is a single byte, and the brace comes right behind it.
    have hmore : more = [] := by
      have hlength := congrArg List.length hdrop
      rw [List.length_drop, List.length_cons, String.length_utf8EncodeChar] at hlength
      have hsize : '$'.utf8Size = 1 := rfl
      exact List.eq_nil_of_length_eq_zero (by omega)
    rw [hmore, List.nil_append] at hbrace
    rcases hbrace with ⟨behind, hbehind⟩
    exact hplain ⟨rfl, head_of_octets hbehind.symm⟩

theorem opensAt_add (c : Char) (rest : List Char) (i : Nat) :
    OpensAt (octets (c :: rest)) (i + (String.utf8EncodeChar c).length)
      ↔ OpensAt (octets rest) i := by
  rw [opensAt_iff, opensAt_iff, octets_cons, Nat.add_comm, List.drop_length_add_append]

theorem opensAt_zero (rest : List Char) : OpensAt (octets ('$' :: '\x7b' :: rest)) 0 := by
  rw [opensAt_iff, octets_opening_cons, List.drop_zero]
  exact List.prefix_append [0x24, 0x7b] _

/-- A text is split at the first opening among its bytes. -/
theorem splitAtOpening_offset (text : List Char) : ∀ i,
    (splitAtOpening text).map (fun parts => bytes parts.1) = some i ↔
      IsLeast {i | OpensAt (octets text) i} i := by
  fun_induction splitAtOpening text with
  | case1 =>
      intro i
      refine ⟨fun h => (by cases h), fun h => ?_⟩
      have hopens := opensAt_iff.1 h.1
      rw [show octets [] = [] from rfl, List.drop_nil, List.prefix_nil] at hopens
      cases hopens
  | case2 rest =>
      intro i
      refine ⟨?_, fun h => ?_⟩
      · rintro ⟨⟩
        exact ⟨opensAt_zero rest, fun i _ => Nat.zero_le i⟩
      · rw [Nat.le_zero.1 (h.2 (opensAt_zero rest))]
        rfl
  | case3 c rest hopening ih =>
      intro i
      -- The bytes of the character stand in front of those of the literal.
      have hbytes : (fun parts : List Char × List Char => bytes (c :: parts.1))
          = (· + c.utf8Size) ∘ fun parts => bytes parts.1 :=
        funext fun _ => Nat.add_comm _ _
      rw [isLeast_add_iff (fun _ => not_opensAt_of_plain (plain_iff.2 hopening))
        (opensAt_add c rest), Option.map_map, Function.comp_def, hbytes, ← Option.map_map,
        Option.map_eq_some_iff, String.length_utf8EncodeChar]
      simp only [ih]

end Encoding

end Placeholder

end ObjectBootstrap
