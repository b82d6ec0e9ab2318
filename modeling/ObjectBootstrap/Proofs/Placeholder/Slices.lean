import ObjectBootstrap.Proofs.Placeholder.Octets
import ObjectBootstrap.Proofs.Placeholder.Visits

/-!
# Slices of texts

A call of the resolver takes four slices of its text: in front of an opening, behind it, the body up
to the brace that closes it, and what remains behind this brace. They begin and end at offsets in
bytes, and there is no slice if one of the two is behind the end of the text or inside a character.

The two scans find an offset only where the text is put together of parts around it, and then the
offset is the length of such a part. So each slice is there, and it is one of the parts
(`slice_eq`). What a call does next can therefore be told by offsets and slices alone (`proceeds`),
and it is never that a character would be cut. An error of a call within is handed up as it is, so
no call ever returns that one (`Resolver.Intact.step`).

## Main definitions

* `slice?`: The part of a text between two byte offsets.
* `Opened`, `Closed`: The slices around an opening, and around the brace that closes it.
* `Reading.left`: What is left of the text of a call.
* `Proceeds`: What a call does next, by the bytes of its text.
* `Resolver.Intact`: No character has been cut.

## Theorems

* `slice_eq`: A part of a text is a slice of it.
* `proceeds`: A call goes on as the bytes of its text say.
* `Resolver.Intact.of_leads`: The resolver never cuts a character.
* `resolver_slices`: Where placeholders end, and which slices the resolver takes.
-/

namespace ObjectBootstrap

namespace Placeholder

open Resolver

section Slices

variable {text : String} {start stop : Nat}

theorem valid_extract (h : start ≤ stop ∧ String.Pos.Raw.IsValid text ⟨start⟩ ∧
    String.Pos.Raw.IsValid text ⟨stop⟩) : (text.toUTF8.extract start stop).IsValidUTF8 :=
  (String.Pos.Raw.isValidUTF8_extract_iff ⟨start⟩ ⟨stop⟩ h.1 h.2.2.le_rawEndPos).2 (Or.inr h.2)

/-- The part of a text between two byte offsets. There is none if the offsets are out of order, or
    if one of them is behind the end of the text or inside a character. -/
def slice? (text : String) (start stop : Nat) : Option String :=
  if h : start ≤ stop ∧ String.Pos.Raw.IsValid text ⟨start⟩ ∧
      String.Pos.Raw.IsValid text ⟨stop⟩ then
    some (.fromUTF8 (text.toUTF8.extract start stop) (valid_extract h))
  else none

theorem isValid_append (early late : String) :
    String.Pos.Raw.IsValid (early ++ late) ⟨early.utf8ByteSize⟩ :=
  String.Pos.Raw.isValid_iff_exists_append.2 ⟨early, late, rfl, rfl⟩

/-- A part of a text is the slice between the offset that it begins at and the one where it ends. -/
theorem slice_eq (before behind : String) {part : String} (htext : before ++ part ++ behind = text)
    (hstart : before.utf8ByteSize = start) (hstop : start + part.utf8ByteSize = stop) :
    slice? text start stop = some part := by
  subst htext hstart hstop
  have hstart : String.Pos.Raw.IsValid (before ++ part ++ behind) ⟨before.utf8ByteSize⟩ := by
    rw [String.append_assoc]
    exact isValid_append before (part ++ behind)
  have hstop : String.Pos.Raw.IsValid (before ++ part ++ behind)
      ⟨before.utf8ByteSize + part.utf8ByteSize⟩ := by
    rw [← String.utf8ByteSize_append]
    exact isValid_append (before ++ part) behind
  have hbytes : (before ++ part ++ behind).toByteArray.extract before.utf8ByteSize
      (before.utf8ByteSize + part.utf8ByteSize) = part.toByteArray := by
    rw [String.append_assoc, String.toByteArray_append, String.toByteArray_append,
      ← String.size_toByteArray, ← String.size_toByteArray,
      ← Nat.add_zero before.toByteArray.size, Nat.add_assoc, ByteArray.extract_append_size_add,
      Nat.zero_add, ByteArray.extract_append_eq_left rfl]
  rw [slice?, dif_pos ⟨Nat.le_add_right _ _, hstart, hstop⟩]
  exact congrArg some (String.toByteArray_inj.1 hbytes)

example : slice? "jardín" 4 6 = some "í" ∧ slice? "jardín" 4 5 = none := by decide

end Slices

/-- The first opening of a text, and the slices in front of it and behind it. -/
structure Opened (text : String) (i : Nat) (literal behind : String) : Prop where
  opens : IsLeast {i | OpensAt (octets text.toList) i} i
  literal_eq : slice? text 0 i = some literal
  behind_eq : slice? text (i + 2) text.utf8ByteSize = some behind

/-- The brace that closes this opening, counted from behind it, and the slices around the brace. -/
structure Closed (text : String) (i : Nat) (literal behind : String) (j : Nat)
    (body remainder : String) : Prop extends Opened text i literal behind where
  closes : IsLeast {j | ClosesAt 0 (octets behind.toList) j} j
  body_eq : slice? text (i + 2) (i + 2 + j) = some body
  remainder_eq : slice? text (i + 2 + j + 1) text.utf8ByteSize = some remainder
  append_eq : literal ++ "$\x7b" ++ body ++ "\x7d" ++ remainder = text

/-- What is left of the text of a call. -/
def Reading.left (reading : Reading) : String := String.ofList reading.rest

/-- What a call does next, by the bytes of what is left of its text. -/
inductive Proceeds (visiting : List String) (frames : List Frame) (reading : Reading) :
    Resolver → Prop
  | returns (hopens : ∀ i, ¬OpensAt (octets reading.left.toList) i) :
      Proceeds visiting frames reading
        ⟨visiting, frames, .returns (.ok (reading.resolved ++ reading.rest))⟩
  | fails {i : Nat} {literal behind : String} (hopened : Opened reading.left i literal behind)
      (hcloses : ∀ j, ¬ClosesAt 0 (octets behind.toList) j) :
      Proceeds visiting frames reading
        ⟨visiting, frames, .returns (.error (.unterminated reading.whole))⟩
  | calls {i j : Nat} {literal behind body remainder : String}
      (hclosed : Closed reading.left i literal behind j body remainder) :
      Proceeds visiting frames reading
        ⟨visiting,
          .body ⟨reading.whole, reading.resolved ++ literal.toList, remainder.toList⟩ :: frames,
          .reads (.of body)⟩

theorem Opened.of_append {text literal behind : String}
    (htext : literal ++ "$\x7b" ++ behind = text)
    (hopens : IsLeast {i | OpensAt (octets text.toList) i} literal.utf8ByteSize) :
    Opened text literal.utf8ByteSize literal behind where
  opens := hopens
  literal_eq := by
    refine slice_eq "" ("$\x7b" ++ behind) ?_ rfl (Nat.zero_add _)
    rw [String.empty_append, ← String.append_assoc, htext]
  behind_eq := by
    refine slice_eq (literal ++ "$\x7b") "" ?_ String.utf8ByteSize_append ?_
    · rw [String.append_empty, htext]
    · rw [← htext, String.utf8ByteSize_append, String.utf8ByteSize_append]
      rfl

theorem Opened.closed {text literal behind body remainder : String}
    (hopened : Opened text literal.utf8ByteSize literal behind)
    (htext : literal ++ "$\x7b" ++ behind = text) (hbehind : body ++ "\x7d" ++ remainder = behind)
    (hcloses : IsLeast {j | ClosesAt 0 (octets behind.toList) j} body.utf8ByteSize) :
    Closed text literal.utf8ByteSize literal behind body.utf8ByteSize body remainder := by
  have happend : literal ++ "$\x7b" ++ body ++ "\x7d" ++ remainder = text := by
    rw [← htext, ← hbehind]
    simp only [String.append_assoc]
  refine ⟨hopened, hcloses, ?_, ?_, happend⟩
  · refine slice_eq (literal ++ "$\x7b") ("\x7d" ++ remainder) ?_ String.utf8ByteSize_append
      rfl
    rw [← happend]
    simp only [String.append_assoc]
  · refine slice_eq (literal ++ "$\x7b" ++ body ++ "\x7d") "" ?_ ?_ ?_
    · rw [String.append_empty, happend]
    · simp only [String.utf8ByteSize_append]
      rfl
    · rw [← happend]
      simp only [String.utf8ByteSize_append]
      rfl

theorem utf8ByteSize_ofList (text : List Char) :
    (String.ofList text).utf8ByteSize = bytes text := by
  induction text with
  | nil => rfl
  | cons c text ih =>
      rw [← List.singleton_append, String.ofList_append, String.utf8ByteSize_append, ih,
        ← String.singleton_eq_ofList, String.utf8ByteSize_singleton]
      rfl

-- A text is put together of the parts that it is split in at its first opening.
theorem splitAtOpening_append {text literal behind : List Char}
    (h : splitAtOpening text = some (literal, behind)) :
    literal ++ '$' :: '\x7b' :: behind = text := by
  fun_induction splitAtOpening text generalizing literal with
  | case1 => cases h
  | case2 rest =>
      cases h
      rfl
  | case3 c rest _ ih =>
      rcases Option.map_eq_some_iff.1 h with ⟨⟨early, late⟩, hsplit, heq⟩
      cases heq
      rw [List.cons_append, ih hsplit]

-- The brace that closes a placeholder stands behind a body of as many bytes as its offset says.
theorem closingOffset_append {depth offset : Nat} {text : List Char}
    (h : closingOffset depth text = some offset) :
    ∃ body remainder, body ++ '\x7d' :: remainder = text ∧ bytes body = offset := by
  fun_induction closingOffset depth text generalizing offset with
  | case1 => cases h
  | case2 depth rest ih =>
      rcases Option.map_eq_some_iff.1 h with ⟨n, hn, rfl⟩
      rcases ih hn with ⟨body, remainder, rfl, rfl⟩
      refine ⟨'$' :: '\x7b' :: body, remainder, rfl, ?_⟩
      rw [bytes, bytes, ← Nat.add_assoc, Nat.add_comm]
      rfl
  | case3 rest =>
      cases h
      exact ⟨[], rest, rfl, rfl⟩
  | case4 depth rest ih =>
      rcases Option.map_eq_some_iff.1 h with ⟨n, hn, rfl⟩
      rcases ih hn with ⟨body, remainder, rfl, rfl⟩
      exact ⟨'\x7d' :: body, remainder, rfl, Nat.add_comm _ _⟩
  | case5 depth c rest _ _ _ ih =>
      rcases Option.map_eq_some_iff.1 h with ⟨n, hn, rfl⟩
      rcases ih hn with ⟨body, remainder, rfl, rfl⟩
      exact ⟨c :: body, remainder, rfl, Nat.add_comm _ _⟩

theorem ofList_opening (literal behind : List Char) :
    String.ofList (literal ++ '$' :: '\x7b' :: behind)
      = String.ofList literal ++ "$\x7b" ++ String.ofList behind := by
  have hsplit : literal ++ '$' :: '\x7b' :: behind = literal ++ ['$', '\x7b'] ++ behind := by
    rw [List.append_assoc, List.cons_append, List.singleton_append]
  rw [hsplit, String.ofList_append, String.ofList_append]

theorem ofList_closing (body remainder : List Char) :
    String.ofList (body ++ '\x7d' :: remainder)
      = String.ofList body ++ "\x7d" ++ String.ofList remainder := by
  rw [← List.singleton_append, ← List.append_assoc, String.ofList_append, String.ofList_append]

/-- A call goes on as the bytes of its text say. -/
theorem proceeds (visiting : List String) (frames : List Frame) (reading : Reading) :
    Proceeds visiting frames reading (proceed visiting frames reading) := by
  have hleft : reading.left.toList = reading.rest := String.toList_ofList
  have hoffset := splitAtOpening_offset reading.rest
  rw [proceed]
  cases hopen : splitAtOpening reading.rest with
  | none =>
      refine .returns ?_
      rw [hleft, ← eq_none_iff_of_isLeast hoffset, hopen]
      rfl
  | some parts =>
      rcases parts with ⟨literal, behind⟩
      have htext : String.ofList literal ++ "$\x7b" ++ String.ofList behind = reading.left := by
        rw [← ofList_opening, splitAtOpening_append hopen]
        rfl
      have hopened : Opened reading.left (String.ofList literal).utf8ByteSize
          (String.ofList literal) (String.ofList behind) := by
        refine .of_append htext ?_
        rw [hleft, utf8ByteSize_ofList, ← hoffset, hopen]
        rfl
      dsimp only
      cases hclose : closingOffset 0 behind with
      | none =>
          refine .fails hopened ?_
          rw [String.toList_ofList]
          exact closingOffset_eq_none_iff.1 hclose
      | some offset =>
          rcases closingOffset_append hclose with ⟨body, remainder, hbehind, rfl⟩
          have hcut : cutAtByte (bytes body) behind = some (body, '\x7d' :: remainder) := by
            rw [← hbehind, cutAtByte_bytes]
          have hpieces : String.ofList body ++ "\x7d" ++ String.ofList remainder
              = String.ofList behind := by
            rw [← ofList_closing, hbehind]
          have hcloses : IsLeast {j | ClosesAt 0 (octets (String.ofList behind).toList) j}
              (String.ofList body).utf8ByteSize := by
            rw [String.toList_ofList, utf8ByteSize_ofList, ← closingOffset_eq_some_iff, hclose]
          have hcalls : Proceeds visiting frames reading _ :=
            .calls (hopened.closed htext hpieces hcloses)
          rw [String.toList_ofList, String.toList_ofList] at hcalls
          simpa only [hcut, List.drop_succ_cons, List.drop_zero] using hcalls

/-- No character has been cut: this is not what a call returns. -/
def Resolver.Intact (r : Resolver) : Prop := r.task ≠ .returns (.error .brokenCharacter)

namespace Resolver.Intact

variable {settings : Settings} {visiting : List String} {frames : List Frame} {reading : Reading}

theorem reads : Intact ⟨visiting, frames, .reads reading⟩ := fun h => by cases h

theorem resume {result : Except PlaceholderError (List Char)}
    (h : result ≠ .error .brokenCharacter) : (resume visiting frames reading result).Intact := by
  cases result with
  | ok replacement => exact reads
  | error e =>
      intro htask
      injection htask with hresult
      exact h hresult

theorem of_proceeds {r : Resolver} (h : Proceeds visiting frames reading r) : r.Intact := by
  cases h with
  | returns _ => exact fun h => by cases h
  | fails _ _ => exact fun h => by cases h
  | calls _ => exact reads

theorem meet {result : Except PlaceholderError (List Char)} (h : result ≠ .error .brokenCharacter) :
    (meet settings visiting frames reading result).Intact := by
  cases result with
  | error e => exact resume h
  | ok body =>
      rcases hsplit : splitDefault body with ⟨key, default⟩
      simp only [Resolver.meet, hsplit]
      by_cases hkey : key ∈ visiting
      · rw [if_pos hkey]
        exact resume fun h => by cases h
      · rw [if_neg hkey]
        cases settings.get? key with
        | some text => exact reads
        | none =>
            cases default with
            | some default => exact resume fun h => by cases h
            | none => exact resume fun h => by cases h

theorem step {r r' : Resolver} (h : r.Intact) (hstep : r.step settings = some r') : r'.Intact := by
  rcases r with ⟨visiting, frames, reading | result⟩
  · cases hstep
    exact of_proceeds (proceeds visiting frames reading)
  · have hresult : result ≠ .error .brokenCharacter := fun heq => h (congrArg _ heq)
    cases frames with
    | nil => cases hstep
    | cons frame frames =>
        cases frame with
        | body reading =>
            cases hstep
            exact meet hresult
        | setting key reading =>
            cases hstep
            exact resume hresult

theorem of_leads {r r' : Resolver} (h : r.Intact) (hleads : Leads settings r r') : r'.Intact := by
  induction hleads with
  | refl => exact h
  | tail _ hstep ih => exact ih.step hstep

end Resolver.Intact

/-- **Offsets and slices.** Among the bytes of a text, a placeholder is closed by the first closing
    brace in front of which there are as many closing braces as openings, and it is not closed if
    there is no such brace. Whatever text the resolver is handed and whatever the settings say, each
    slice that a call takes is within its text and begins and ends between characters, and those
    around a placeholder are put together to the text again. So the resolver never fails for a cut
    inside a character. -/
theorem resolver_slices :
    (∀ text : String,
      closingOffset 0 text.toList = closingOctet 0 (octets text.toList) ∧
      (∀ i, closingOffset 0 text.toList = some i ↔
        IsLeast {i | ClosesAt 0 (octets text.toList) i} i) ∧
      (closingOffset 0 text.toList = none ↔ ∀ i, ¬ClosesAt 0 (octets text.toList) i)) ∧
    ∀ (settings : Settings) (text : String),
      (∃ result, resolve settings text = result.map String.ofList ∧
        Leads settings (start text) ⟨[], [], .returns result⟩) ∧
      resolve settings text ≠ .error .brokenCharacter ∧
      ∀ r, Leads settings (start text) r →
        r.task ≠ .returns (.error .brokenCharacter) ∧
        ∀ reading, r.task = .reads reading →
          ∃ r', r.step settings = some r' ∧ Proceeds r.visiting r.frames reading r' := by
  refine ⟨fun text => ⟨closingOffset_eq_closingOctet 0 text.toList, closingOffset_eq_some_iff,
    closingOffset_eq_none_iff⟩, ?_⟩
  intro settings text
  have hstart : (start text).Intact := Resolver.Intact.reads
  have hend : Leads settings (start text)
      ⟨[], [], .returns (resolveFrom settings [] text text.toList)⟩ := by
    have hreturns := (reads_returns settings [] text text.toList [] []).leads
    rwa [map_nil_append] at hreturns
  refine ⟨⟨_, rfl, hend⟩, ?_, ?_⟩
  · intro hresolve
    rw [resolve] at hresolve
    cases hresult : resolveFrom settings [] text text.toList with
    | ok value =>
        rw [hresult] at hresolve
        cases hresolve
    | error e =>
        rw [hresult] at hresolve hend
        cases hresolve
        exact hstart.of_leads hend rfl
  · intro r hleads
    refine ⟨hstart.of_leads hleads, ?_⟩
    rcases r with ⟨visiting, frames, task⟩
    rintro reading rfl
    exact ⟨_, rfl, proceeds visiting frames reading⟩

end Placeholder

end ObjectBootstrap
