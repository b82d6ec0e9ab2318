import ObjectBootstrap.Proofs.Placeholder.Meaning

/-!
# Seams

The resolver puts texts side by side that come from different places: literals, the settings of
keys, and defaults. It looks for openings in each of them before it puts them together, and it does
not look at the whole again. So an opening in the result begins at the end of one piece and ends at
the beginning of another one: it lies on a seam (`opening_flatten_iff`). A text without an opening
is left alone, which is why resolving twice is resolving once wherever there is no seam.

The pieces of a default are those of the resolved body, up to the first colon left out.

## Main definitions

* `pieces`, `piecesOf`: What the value of a template, or of a text, is put together of.
* `Seam`: An opening is formed where pieces meet.
* `Seamed`: A text can be resolved, and its pieces meet in an opening.

## Theorems

* `hasOpening_iff`: What it means that there is an opening.
* `evaluate_eq_pieces`: The value of a template is put together of its pieces.
* `pieces_unopened`: No piece contains an opening.
* `piecesOf_render`: The pieces of a text are those of its template.
* `resolve_eq_piecesOf`: A text is resolved to its pieces put together.
* `resolve_unopened`: A text without an opening is resolved to itself.
-/

namespace ObjectBootstrap

namespace Placeholder

section Outcomes

variable {ε α β : Type}

theorem bind_eq_ok_iff {x : Except ε α} {f : α → Except ε β} {b : β} :
    x.bind f = .ok b ↔ ∃ a, x = .ok a ∧ f a = .ok b := by
  cases x <;> simp [Except.bind]

theorem map_eq_ok_iff {x : Except ε α} {f : α → β} {b : β} :
    x.map f = .ok b ↔ ∃ a, x = .ok a ∧ f a = b := by
  cases x <;> simp [Except.map]

end Outcomes

section Openings

-- The resolver finds an opening in a text when there is one.
theorem hasOpening_iff (text : List Char) : hasOpening text = true ↔ ['$', '\x7b'] <:+: text := by
  unfold hasOpening
  induction text with
  | nil => simp [splitAtOpening]
  | cons c rest ih =>
      rw [List.infix_cons_iff]
      by_cases hplain : Plain c rest
      · rw [splitAtOpening_plain hplain, Option.isSome_map, ih]
        refine ⟨Or.inr, fun h => h.resolve_left ?_⟩
        rintro ⟨behind, hbehind⟩
        cases hbehind
        exact hplain ⟨rfl, rfl⟩
      · rcases Decidable.of_not_not hplain with ⟨rfl, hhead⟩
        rcases List.head?_eq_some_iff.1 hhead with ⟨behind, rfl⟩
        exact ⟨fun _ => Or.inl ⟨behind, rfl⟩, fun _ => rfl⟩

-- An opening in two texts put together lies in one of them, or they meet in it.
theorem opening_append_iff (early late : List Char) :
    ['$', '\x7b'] <:+: early ++ late ↔
      ['$', '\x7b'] <:+: early ∨ ['$', '\x7b'] <:+: late ∨
        early.getLast? = some '$' ∧ late.head? = some '\x7b' := by
  rw [List.infix_append_iff_ne_nil]
  refine or_congr_right (or_congr_right ⟨?_, ?_⟩)
  · rintro ⟨before, behind, hbefore, hbehind, heq, ⟨front, rfl⟩, ⟨tail, rfl⟩⟩
    rcases before with _ | ⟨c, _ | ⟨d, before⟩⟩
    · exact absurd rfl hbefore
    · cases heq
      exact ⟨List.getLast?_concat, rfl⟩
    · cases before with
      | nil => cases heq; exact absurd rfl hbehind
      | cons e before => cases heq
  · rintro ⟨hlast, hhead⟩
    rcases List.getLast?_eq_some_iff.1 hlast with ⟨front, rfl⟩
    rcases List.head?_eq_some_iff.1 hhead with ⟨tail, rfl⟩
    exact ⟨['$'], ['\x7b'], List.cons_ne_nil _ _, List.cons_ne_nil _ _, rfl, ⟨front, rfl⟩,
      ⟨tail, rfl⟩⟩

end Openings

/-- One of some pieces ends in a dollar sign, and what stands behind it begins with a brace. -/
def Seam : List (List Char) → Prop
  | [] => False
  | piece :: behind =>
    (piece.getLast? = some '$' ∧ behind.flatten.head? = some '\x7b') ∨ Seam behind

instance Seam.decide : (pieces : List (List Char)) → Decidable (Seam pieces)
  | [] => isFalse id
  | piece :: behind =>
    have := Seam.decide behind
    inferInstanceAs (Decidable
      ((piece.getLast? = some '$' ∧ behind.flatten.head? = some '\x7b') ∨ Seam behind))

/-- None of some pieces contains an opening. -/
def Unopened (pieces : List (List Char)) : Prop := ∀ piece ∈ pieces, ¬['$', '\x7b'] <:+: piece

/-- Such pieces put together contain an opening exactly when there is a seam. -/
theorem opening_flatten_iff {pieces : List (List Char)} (h : Unopened pieces) :
    ['$', '\x7b'] <:+: pieces.flatten ↔ Seam pieces := by
  induction pieces with
  | nil => simp [Seam]
  | cons piece behind ih =>
      rcases List.forall_mem_cons.1 h with ⟨hpiece, hbehind⟩
      rw [List.flatten_cons, opening_append_iff, or_iff_right hpiece, ih hbehind, Seam, or_comm]

-- An empty piece does not keep its neighbours apart. Within a piece there is no seam.
example : Seam [['a', '$'], [], ['\x7b', 'b']] ∧ ¬Seam [['a', '$', '\x7b'], ['b']] := by decide

/-- What stands behind the first colon of pieces that are put together. -/
def behindColon : List (List Char) → List (List Char)
  | [] => []
  | piece :: behind =>
    if ':' ∈ piece then (piece.dropWhile (· != ':')).tail :: behind else behindColon behind

theorem flatten_behindColon (pieces : List (List Char)) :
    (behindColon pieces).flatten = (pieces.flatten.dropWhile (· != ':')).tail := by
  induction pieces with
  | nil => rfl
  | cons piece behind ih =>
      rw [behindColon, List.flatten_cons]
      by_cases hcolon : ':' ∈ piece
      · have hne : piece.dropWhile (· != ':') ≠ [] := by
          rw [Ne, List.dropWhile_eq_nil_iff]
          exact fun hall => absurd (hall ':' hcolon) (by decide)
        rw [if_pos hcolon, List.flatten_cons, List.dropWhile_append,
          if_neg (by rwa [List.isEmpty_iff]), List.tail_append_of_ne_nil hne]
      · have hnil : piece.dropWhile (· != ':') = [] := by
          rw [List.dropWhile_eq_nil_iff]
          intro c hc
          rw [bne_iff_ne]
          exact fun heq => hcolon (heq ▸ hc)
        rw [if_neg hcolon, List.dropWhile_append, hnil, ih]
        rfl

-- The default of a body, in pieces.
theorem flatten_behindColon_of_default {pieces : List (List Char)} {key : String}
    {default : List Char} (h : splitDefault pieces.flatten = (key, some default)) :
    (behindColon pieces).flatten = default := by
  rw [flatten_behindColon]
  unfold splitDefault at h
  split at h
  · cases h
  · next heq =>
      cases h
      rw [heq, List.tail_cons]

theorem Unopened.behindColon {pieces : List (List Char)} (h : Unopened pieces) :
    Unopened (behindColon pieces) := by
  induction pieces with
  | nil => exact h
  | cons piece behind ih =>
      rcases List.forall_mem_cons.1 h with ⟨hpiece, hbehind⟩
      rw [Placeholder.behindColon]
      split
      · refine List.forall_mem_cons.2 ⟨fun hin => hpiece (hin.trans ?_), hbehind⟩
        exact ((List.tail_suffix _).trans (List.dropWhile_suffix _)).isInfix
      · exact ih hbehind

/-- The pieces that the value of a template is put together of, while the settings of some keys are
    being resolved: literals, the pieces of settings, and what stands in a resolved body behind its
    first colon. -/
def pieces (settings : Settings) (visiting : List String) :
    Template → Except PlaceholderError (List (List Char))
  | .empty => .ok []
  | .literal text rest => (pieces settings visiting rest).map (text :: ·)
  | .placeholder body rest =>
    (pieces settings visiting body).bind fun body =>
      let (key, default) := splitDefault body.flatten
      if _hkey : key ∈ visiting then .error (.circular key)
      else
        let replacement := match _hget : settings.get? key with
          | some text =>
            (pieces settings (key :: visiting) (read false text.toList).1).bind fun value =>
              if (read false text.toList).2.1 = [] then .ok value
              else .error (.unterminated text)
          | none =>
            match default with
            | some _ => .ok (behindColon body)
            | none => .error (.unresolved key)
        replacement.bind fun replacement =>
          (pieces settings visiting rest).map (replacement ++ ·)
termination_by t => (unvisited settings visiting, sizeOf t)
decreasing_by
  · exact Prod.Lex.right _ (by simp only [Template.literal.sizeOf_spec]; omega)
  · exact Prod.Lex.right _ (by simp only [Template.placeholder.sizeOf_spec]; omega)
  · exact Prod.Lex.left _ _ (unvisited_lt _hget _hkey)
  · exact Prod.Lex.right _ (by simp only [Template.placeholder.sizeOf_spec]; omega)

/-- The pieces of a text: those of its template, unless the text has an opening that is never
    closed. -/
def piecesOf (settings : Settings) (visiting : List String) (text : String) :
    Except PlaceholderError (List (List Char)) :=
  (pieces settings visiting (read false text.toList).1).bind fun value =>
    if (read false text.toList).2.1 = [] then .ok value else .error (.unterminated text)

/-- The pieces that a placeholder with a resolved body stands for, given those of the keys with a
    setting. -/
def supply (value : String → String → Except PlaceholderError (List (List Char)))
    (settings : Settings) (visiting : List String) (body : List (List Char)) :
    Except PlaceholderError (List (List Char)) :=
  let (key, default) := splitDefault body.flatten
  if key ∈ visiting then .error (.circular key)
  else
    match settings.get? key with
    | some text => value key text
    | none =>
      match default with
      | some _ => .ok (behindColon body)
      | none => .error (.unresolved key)

theorem pieces_placeholder (settings : Settings) (visiting : List String)
    (body rest : Template) :
    pieces settings visiting (.placeholder body rest)
      = (pieces settings visiting body).bind fun body =>
          (supply (fun key text => piecesOf settings (key :: visiting) text) settings visiting
            body).bind fun replacement =>
              (pieces settings visiting rest).map (replacement ++ ·) := by
  rw [pieces]
  refine congrArg _ (funext fun resolved => ?_)
  unfold supply
  rcases splitDefault resolved.flatten with ⟨key, default⟩
  dsimp only
  by_cases hkey : key ∈ visiting
  · rw [dif_pos hkey, if_pos hkey]
    rfl
  · rw [dif_neg hkey, if_neg hkey]
    refine congrArg (fun r => Except.bind r _) ?_
    split
    · next text hget => simp only [hget, piecesOf]
    · next hget => simp only [hget]

theorem valueOf_eq_piecesOf {settings : Settings} {visiting : List String} {text : String}
    (h : evaluate settings visiting (read false text.toList).1
      = (pieces settings visiting (read false text.toList).1).map List.flatten) :
    valueOf settings visiting text = (piecesOf settings visiting text).map List.flatten := by
  rw [valueOf, piecesOf, h, bind_map, map_bind]
  refine congrArg _ (funext fun value => ?_)
  split <;> rfl

-- The text that a placeholder stands for is put together of its pieces, if those of settings are.
theorem substitute_eq_supply {settings : Settings} {visiting : List String}
    (h : ∀ key text, key ∉ visiting → settings.get? key = some text →
      valueOf settings (key :: visiting) text
        = (piecesOf settings (key :: visiting) text).map List.flatten) (body : List (List Char)) :
    substitute (fun key text => valueOf settings (key :: visiting) text) settings visiting
        body.flatten
      = (supply (fun key text => piecesOf settings (key :: visiting) text) settings visiting
          body).map List.flatten := by
  unfold substitute supply
  rcases hsplit : splitDefault body.flatten with ⟨key, default⟩
  dsimp only
  by_cases hkey : key ∈ visiting
  · rw [if_pos hkey, if_pos hkey]
    rfl
  · rw [if_neg hkey, if_neg hkey]
    cases hget : settings.get? key with
    | some text => exact h key text hkey hget
    | none =>
        cases default with
        | none => rfl
        | some default => exact congrArg Except.ok (flatten_behindColon_of_default hsplit).symm

/-- The value of a template is put together of its pieces. -/
theorem evaluate_eq_pieces (settings : Settings) (visiting : List String) (t : Template) :
    evaluate settings visiting t = (pieces settings visiting t).map List.flatten := by
  induction visiting, t using pieces.induct settings with
  | case1 visiting =>
      rw [evaluate, pieces]
      rfl
  | case2 visiting text rest ih =>
      rw [evaluate, pieces, ih, map_map, map_map]
      rfl
  | case3 visiting body rest ihbody ihvalue ih =>
      have hvalues := fun key text hkey hget => valueOf_eq_piecesOf (ihvalue key hkey text hget)
      rw [evaluate_placeholder, pieces_placeholder, ihbody, bind_map, map_bind]
      simp only [substitute_eq_supply hvalues, bind_map, map_bind, ih, map_map, List.flatten_append]

theorem supply_unopened {value : String → String → Except PlaceholderError (List (List Char))}
    {settings : Settings} {visiting : List String} {body replacement : List (List Char)}
    (hvalue : ∀ key text parts, key ∉ visiting → settings.get? key = some text →
      value key text = .ok parts → Unopened parts) (hbody : Unopened body)
    (h : supply value settings visiting body = .ok replacement) : Unopened replacement := by
  unfold supply at h
  dsimp only at h
  split at h
  · cases h
  · next hkey =>
      split at h
      · next text hget => exact hvalue _ text replacement hkey hget h
      · split at h
        · cases h
          exact hbody.behindColon
        · cases h

theorem piecesOf_eq_ok {settings : Settings} {visiting : List String} {text : String}
    {parts : List (List Char)} (h : piecesOf settings visiting text = .ok parts) :
    pieces settings visiting (read false text.toList).1 = .ok parts := by
  rcases bind_eq_ok_iff.1 h with ⟨value, hvalue, h⟩
  split at h
  · cases h
    exact hvalue
  · cases h

/-- No piece of a template contains an opening. -/
theorem pieces_unopened {settings : Settings} {visiting : List String} {t : Template} :
    ∀ {inside : Bool} {parts : List (List Char)}, t.WellFormed inside →
      pieces settings visiting t = .ok parts → Unopened parts := by
  induction visiting, t using pieces.induct settings with
  | case1 visiting =>
      intro inside parts _ hparts
      rw [pieces] at hparts
      cases hparts
      exact List.forall_mem_nil _
  | case2 visiting text rest ih =>
      intro inside parts hwf hparts
      rcases hwf with ⟨_, hopening, _, _, hwf⟩
      rw [pieces, map_eq_ok_iff] at hparts
      rcases hparts with ⟨behind, hbehind, rfl⟩
      exact List.forall_mem_cons.2 ⟨hopening, ih hwf hbehind⟩
  | case3 visiting body rest ihbody ihvalue ih =>
      intro inside parts hwf hparts
      rw [pieces_placeholder, bind_eq_ok_iff] at hparts
      rcases hparts with ⟨resolved, hresolved, hparts⟩
      rcases bind_eq_ok_iff.1 hparts with ⟨replacement, hreplacement, hparts⟩
      rcases map_eq_ok_iff.1 hparts with ⟨behind, hbehind, rfl⟩
      refine List.forall_mem_append.2 ⟨?_, ih hwf.2 hbehind⟩
      -- The texts of settings are read as templates of their own.
      refine supply_unopened (fun key text parts hkey hget hvalue => ?_) (ihbody hwf.1 hresolved)
        hreplacement
      exact ihvalue key hkey text hget (read_spec false text.toList).wellFormed
        (piecesOf_eq_ok hvalue)

/-- The pieces of a text are those of the template that it is the rendering of. -/
theorem piecesOf_render (settings : Settings) (visiting : List String) {t : Template}
    (h : t.WellFormed false) :
    piecesOf settings visiting (String.ofList t.render) = pieces settings visiting t := by
  rcases read_eq_of_render h with ⟨htemplate, hrest⟩
  rw [piecesOf, String.toList_ofList, htemplate, hrest]
  cases pieces settings visiting t <;> rfl

-- Whether a text can be resolved or not.
theorem resolve_eq_piecesOf (settings : Settings) (text : String) :
    resolve settings text
      = (piecesOf settings [] text).map fun parts => String.ofList parts.flatten := by
  rw [resolve, resolveFrom_text, valueOf_eq_piecesOf (evaluate_eq_pieces _ _ _), map_map]

theorem resolve_of_render (settings : Settings) {t : Template} (h : t.WellFormed false)
    {text : String} (htext : String.ofList t.render = text) :
    resolve settings text
      = (pieces settings [] t).map fun parts => String.ofList parts.flatten := by
  rw [← htext, resolve_eq_piecesOf, piecesOf_render _ _ h]

/-- A text is resolved to its pieces put together. -/
theorem resolve_eq_ok_iff {settings : Settings} {text result : String} :
    resolve settings text = .ok result ↔
      ∃ parts, piecesOf settings [] text = .ok parts ∧ String.ofList parts.flatten = result := by
  rw [resolve_eq_piecesOf, map_eq_ok_iff]

/-- A text can be resolved, and its pieces meet in an opening. -/
def Seamed (settings : Settings) (text : String) : Prop :=
  ∃ parts, piecesOf settings [] text = .ok parts ∧ Seam parts

/-- What a text is resolved to has an opening exactly where pieces of the text meet in one. -/
theorem hasOpening_resolved_iff {settings : Settings} {text result : String}
    (h : resolve settings text = .ok result) :
    hasOpening result.toList = true ↔ Seamed settings text := by
  rcases resolve_eq_ok_iff.1 h with ⟨parts, hparts, rfl⟩
  have hunopened : Unopened parts :=
    pieces_unopened (read_spec false text.toList).wellFormed (piecesOf_eq_ok hparts)
  rw [hasOpening_iff, String.toList_ofList, opening_flatten_iff hunopened]
  constructor
  · intro hseam
    exact ⟨parts, hparts, hseam⟩
  · rintro ⟨parts', hparts', hseam⟩
    cases hparts.symm.trans hparts'
    exact hseam

/-- A text without an opening is resolved to itself. -/
theorem resolve_unopened (settings : Settings) {text : String}
    (h : hasOpening text.toList = false) : resolve settings text = .ok text := by
  rw [hasOpening, Option.isSome_eq_false_iff, Option.isNone_iff_eq_none] at h
  rw [resolve, resolveFrom_eq, h]
  exact congrArg Except.ok String.ofList_toList

end Placeholder

end ObjectBootstrap
