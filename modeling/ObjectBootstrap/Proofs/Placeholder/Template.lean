import Mathlib.Data.Nat.Init
import Mathlib.Logic.ExistsUnique
import ObjectBootstrap.Placeholder.Resolve

/-!
# Templates

What a text with placeholders means is said of a tree, the template that the text is a rendering of.
A template is a sequence of literals and placeholders, and the body of a placeholder is a template
again. For a text to have one template only, literals are as long as they can be: none is empty, no
two of them stand side by side, and none contains an opening, nor a closing brace inside of a
placeholder.

`read` finds the template of a text, and it says what is left when it comes upon an opening that is
never closed. It is the inverse of rendering (`read_render`), and every text is either a rendering
or has such an opening (`read_spec`).

## Main definitions

* `Template`, `Template.render`, `Template.WellFormed`: Templates and what they render to.
* `openAfter`, `Unclosed`: How many placeholders are open behind a text.
* `read`: The template of a text.

## Theorems

* `read_render`: What is rendered is read again.
* `read_spec`: What is read renders to the text, up to an opening that is never closed.
* `openAfter_render`: A rendering leaves as many placeholders open as it finds.
* `rendered_or_unclosed`: A text is the rendering of one template, or an opening is never closed.
-/

namespace ObjectBootstrap

namespace Placeholder

/-- A text with placeholders, as a tree. -/
inductive Template where
  | empty
  | literal (text : List Char) (rest : Template)
  | placeholder (body rest : Template)
  deriving DecidableEq

namespace Template

/-- The text of a template. -/
def render : Template → List Char
  | empty => []
  | literal text rest => text ++ rest.render
  | placeholder body rest => '$' :: '\x7b' :: (body.render ++ '\x7d' :: rest.render)

/-- Whether a template begins with a literal. -/
def isLiteral : Template → Bool
  | literal _ _ => true
  | _ => false

/-- Literals are as long as they can be. The first argument tells whether the template is the body
    of a placeholder. -/
def WellFormed : Bool → Template → Prop
  | _, empty => True
  | inside, literal text rest =>
    text ≠ [] ∧ ¬['$', '\x7b'] <:+: text ∧ (inside = true → '\x7d' ∉ text) ∧
      rest.isLiteral = false ∧ rest.WellFormed inside
  | inside, placeholder body rest => body.WellFormed true ∧ rest.WellFormed inside

/-- Puts a character in front of a template. -/
def push (c : Char) : Template → Template
  | literal text rest => literal (c :: text) rest
  | rest => literal [c] rest

theorem render_push (c : Char) (t : Template) : (t.push c).render = c :: t.render := by
  cases t <;> rfl

end Template

/-- How many placeholders are open behind a text. The first argument counts those that are open in
    front of it. -/
def openAfter : Nat → List Char → Nat
  | depth, [] => depth
  | depth, '$' :: '\x7b' :: rest => openAfter (depth + 1) rest
  | depth + 1, '\x7d' :: rest => openAfter depth rest
  | depth, _ :: rest => openAfter depth rest

/-- A text has an opening that is never closed. -/
def Unclosed (text : List Char) : Prop := openAfter 0 text ≠ 0

/-- The template of a text, and what is left of the text. Inside of a placeholder the rest begins
    with the brace that closes it. Otherwise there is no rest, or it begins with an opening that is
    never closed. -/
def read (inside : Bool) (chars : List Char) :
    Template × {rest : List Char // rest.length ≤ chars.length} :=
  match chars with
  | [] => (.empty, ⟨[], Nat.le_refl _⟩)
  | '$' :: '\x7b' :: behind =>
    match read true behind with
    | (body, ⟨'\x7d' :: tail, hbody⟩) =>
      have htail : tail.length < behind.length := hbody
      match read inside tail with
      | (t, ⟨rest, hrest⟩) =>
        (.placeholder body t, ⟨rest,
          Nat.le_trans hrest (Nat.le_trans (Nat.le_of_lt htail) (Nat.le_add_right _ 2))⟩)
    | _ => (.empty, ⟨'$' :: '\x7b' :: behind, Nat.le_refl _⟩)
  | c :: behind =>
    if inside = true ∧ c = '\x7d' then (.empty, ⟨c :: behind, Nat.le_refl _⟩)
    else
      match read inside behind with
      | (t, ⟨rest, hrest⟩) => (t.push c, ⟨rest, Nat.le_succ_of_le hrest⟩)
termination_by chars.length
decreasing_by
  all_goals simp only [List.length_cons]
  all_goals omega

/-- A character and the text behind it do not begin with an opening. -/
def Plain (c : Char) (rest : List Char) : Prop := ¬(c = '$' ∧ rest.head? = some '\x7b')

theorem plain_iff {c : Char} {rest : List Char} :
    Plain c rest ↔ ∀ behind, c = '$' → rest = '\x7b' :: behind → False := by
  constructor
  · intro h behind hc hrest
    exact h ⟨hc, by rw [hrest, List.head?_cons]⟩
  · rintro h ⟨hc, hhead⟩
    cases rest with
    | nil => cases hhead
    | cons d behind =>
        rw [List.head?_cons, Option.some.injEq] at hhead
        exact h behind hc (by rw [hhead])

theorem read_nil (inside : Bool) : read inside [] = (.empty, ⟨[], Nat.le_refl _⟩) := by
  rw [read]

theorem read_plain {inside : Bool} {c : Char} {behind : List Char} (h : Plain c behind)
    (hc : ¬(inside = true ∧ c = '\x7d')) :
    (read inside (c :: behind)).1 = (read inside behind).1.push c ∧
      (read inside (c :: behind)).2.1 = (read inside behind).2.1 := by
  rw [read]
  · rw [if_neg hc]
    exact ⟨rfl, rfl⟩
  · exact plain_iff.1 h

theorem read_closing (behind : List Char) :
    (read true ('\x7d' :: behind)).1 = .empty ∧
      (read true ('\x7d' :: behind)).2.1 = '\x7d' :: behind := by
  rw [read]
  · rw [if_pos ⟨rfl, rfl⟩]
    exact ⟨rfl, rfl⟩
  · intro rest hc
    cases hc

theorem read_closed {inside : Bool} {behind tail : List Char}
    (h : (read true behind).2.1 = '\x7d' :: tail) :
    (read inside ('$' :: '\x7b' :: behind)).1
        = .placeholder (read true behind).1 (read inside tail).1 ∧
      (read inside ('$' :: '\x7b' :: behind)).2.1 = (read inside tail).2.1 := by
  rw [read]
  rcases hread : read true behind with ⟨body, rest, hrest⟩
  rw [hread] at h
  simp only at h
  subst h
  exact ⟨rfl, rfl⟩

theorem read_unclosed {inside : Bool} {behind : List Char}
    (h : (read true behind).2.1.head? ≠ some '\x7d') :
    (read inside ('$' :: '\x7b' :: behind)).1 = .empty ∧
      (read inside ('$' :: '\x7b' :: behind)).2.1 = '$' :: '\x7b' :: behind := by
  rw [read]
  rcases hread : read true behind with ⟨body, rest, hrest⟩
  rw [hread] at h
  split
  · next heq =>
      cases heq
      exact absurd rfl h
  · exact ⟨rfl, rfl⟩

/-- A text that begins with no brace stays apart from a dollar sign in front of it. -/
def Braceless (rest : List Char) : Prop := rest.head? ≠ some '\x7b'

-- In front of such a text a literal does not form an opening.
theorem plain_of_literal {c : Char} {text rest : List Char}
    (h : ¬['$', '\x7b'] <:+: c :: text) (hrest : Braceless rest) : Plain c (text ++ rest) := by
  rintro ⟨rfl, hhead⟩
  cases text with
  | nil => exact hrest hhead
  | cons d text =>
      rw [List.cons_append, List.head?_cons, Option.some.injEq] at hhead
      subst hhead
      exact h ⟨[], text, rfl⟩

theorem literal_tail {c : Char} {text : List Char} (h : ¬['$', '\x7b'] <:+: c :: text) :
    ¬['$', '\x7b'] <:+: text :=
  fun hin => h (hin.trans (List.suffix_cons c text).isInfix)

-- The rendering of a template that does not begin with a literal stays apart from a literal in
-- front of it.
theorem braceless_render {t : Template} (h : t.isLiteral = false) {rest : List Char}
    (hrest : Braceless rest) : Braceless (t.render ++ rest) := by
  cases t with
  | empty => exact hrest
  | literal text rest => cases h
  | placeholder body rest =>
      intro hhead
      rw [Template.render, List.cons_append, List.head?_cons, Option.some.injEq] at hhead
      exact absurd hhead (by decide)

theorem push_of_isLiteral {c : Char} {t : Template} (h : t.isLiteral = false) :
    t.push c = .literal [c] t := by
  cases t with
  | literal text rest => cases h
  | _ => rfl

theorem read_literal {inside : Bool} {text behind : List Char} {t : Template}
    (hne : text ≠ []) (hopening : ¬['$', '\x7b'] <:+: text)
    (hclosing : inside = true → '\x7d' ∉ text) (hbehind : Braceless behind)
    (ht : (read inside behind).1 = t) (hliteral : t.isLiteral = false) :
    (read inside (text ++ behind)).1 = .literal text t ∧
      (read inside (text ++ behind)).2.1 = (read inside behind).2.1 := by
  induction text with
  | nil => exact absurd rfl hne
  | cons c text ih =>
      have hplain : Plain c (text ++ behind) := plain_of_literal hopening hbehind
      have hc : ¬(inside = true ∧ c = '\x7d') :=
        fun ⟨hin, heq⟩ => hclosing hin (heq ▸ List.mem_cons_self)
      rcases read_plain hplain hc with ⟨hfirst, hrest⟩
      rw [List.cons_append, hfirst, hrest]
      cases text with
      | nil =>
          rw [List.nil_append, ht, push_of_isLiteral hliteral]
          exact ⟨rfl, rfl⟩
      | cons d text =>
          rcases ih (List.cons_ne_nil d text) (literal_tail hopening)
            (fun hin hmem => hclosing hin (List.mem_cons_of_mem c hmem)) with ⟨ih1, ih2⟩
          rw [ih1, ih2]
          exact ⟨rfl, rfl⟩

/-- What is rendered is read again, up to the end of the text or of the placeholder. -/
theorem read_render {t : Template} :
    ∀ {inside : Bool} {rest : List Char}, t.WellFormed inside →
      (rest = [] ∨ inside = true ∧ ∃ tail, rest = '\x7d' :: tail) →
        (read inside (t.render ++ rest)).1 = t ∧ (read inside (t.render ++ rest)).2.1 = rest := by
  induction t with
  | empty =>
      intro inside rest _ hrest
      rw [Template.render, List.nil_append]
      rcases hrest with rfl | ⟨rfl, tail, rfl⟩
      · rw [read_nil]
        exact ⟨rfl, rfl⟩
      · exact read_closing tail
  | literal text t ih =>
      intro inside rest hwf hrest
      rcases hwf with ⟨hne, hopening, hclosing, hliteral, hwf⟩
      have hbraceless : Braceless rest := by
        rcases hrest with rfl | ⟨_, tail, rfl⟩
        · exact fun h => by cases h
        · exact fun h => absurd (Option.some.inj h) (by decide)
      rcases ih hwf hrest with ⟨ih1, ih2⟩
      rw [Template.render, List.append_assoc]
      rcases read_literal hne hopening hclosing (braceless_render hliteral hbraceless) ih1
        hliteral with ⟨h1, h2⟩
      exact ⟨h1, h2.trans ih2⟩
  | placeholder body t ihbody ih =>
      intro inside rest hwf hrest
      rw [Template.render, List.cons_append, List.cons_append, List.append_assoc,
        List.cons_append]
      rcases ihbody hwf.1 (Or.inr ⟨rfl, t.render ++ rest, rfl⟩) with ⟨hbody, hafter⟩
      rcases read_closed hafter with ⟨h1, h2⟩
      rcases ih hwf.2 hrest with ⟨ih1, ih2⟩
      rw [h1, h2, hbody, ih1]
      exact ⟨rfl, ih2⟩

theorem wellFormed_push {inside : Bool} {c : Char} {t : Template} {rest : List Char}
    (ht : t.WellFormed inside) (hplain : Plain c (t.render ++ rest))
    (hc : ¬(inside = true ∧ c = '\x7d')) : (t.push c).WellFormed inside := by
  have hsingle : ¬['$', '\x7b'] <:+: [c] := by
    intro h
    have := h.length_le
    simp at this
  have hclosing : inside = true → '\x7d' ∉ [c] := by
    intro hin hmem
    exact hc ⟨hin, (List.mem_singleton.1 hmem).symm⟩
  cases t with
  | empty => exact ⟨List.cons_ne_nil c [], hsingle, hclosing, rfl, trivial⟩
  | placeholder body t => exact ⟨List.cons_ne_nil c [], hsingle, hclosing, rfl, ht⟩
  | literal text t =>
      rcases ht with ⟨hne, hopening, hclosing', hliteral, hwf⟩
      refine ⟨List.cons_ne_nil c text, ?_, ?_, hliteral, hwf⟩
      -- An opening would be formed with the first character of the literal.
      · rw [List.infix_cons_iff, not_or]
        refine ⟨?_, hopening⟩
        rintro ⟨behind, hbehind⟩
        rw [List.cons_append, List.cons_append, List.cons.injEq] at hbehind
        refine hplain ⟨hbehind.1.symm, ?_⟩
        rw [Template.render, ← hbehind.2]
        rfl
      · intro hin hmem
        rcases List.mem_cons.1 hmem with heq | hmem
        · exact hc ⟨hin, heq.symm⟩
        · exact hclosing' hin hmem

/-- A text that never closes an opening in front of it: a body that goes on to the end, or up to
    another opening that is never closed. -/
inductive NeverClosed : List Char → Prop
  | last {body : Template} : body.WellFormed true → NeverClosed body.render
  | more {body : Template} {behind : List Char} : body.WellFormed true → NeverClosed behind →
    NeverClosed (body.render ++ '$' :: '\x7b' :: behind)

/-- What is read of a text renders to it, up to a rest: there is none, or it is the end of the
    placeholder, or it begins with an opening that is never closed. -/
structure Reads (inside : Bool) (chars : List Char) (t : Template) (rest : List Char) : Prop where
  wellFormed : t.WellFormed inside
  render_eq : t.render ++ rest = chars
  stops : rest = [] ∨ (inside = true ∧ ∃ tail, rest = '\x7d' :: tail) ∨
    ∃ behind, rest = '$' :: '\x7b' :: behind ∧ NeverClosed behind

namespace Reads

variable {inside : Bool} {behind tail rest : List Char} {body t : Template} {c : Char}

/-- A character in front goes into the template. -/
theorem push (h : Reads inside behind t rest) (hplain : Plain c behind)
    (hc : ¬(inside = true ∧ c = '\x7d')) : Reads inside (c :: behind) (t.push c) rest := by
  refine ⟨wellFormed_push h.wellFormed (h.render_eq.symm ▸ hplain) hc, ?_, h.stops⟩
  rw [Template.render_push, List.cons_append, h.render_eq]

/-- A body up to the brace that closes it makes a placeholder. -/
theorem placeholder (hbody : Reads true behind body ('\x7d' :: tail))
    (h : Reads inside tail t rest) :
    Reads inside ('$' :: '\x7b' :: behind) (.placeholder body t) rest := by
  refine ⟨⟨hbody.wellFormed, h.wellFormed⟩, ?_, h.stops⟩
  rw [Template.render, List.cons_append, List.cons_append, List.append_assoc, List.cons_append,
    h.render_eq, hbody.render_eq]

/-- A body that does not come to a closing brace leaves its opening unclosed. -/
theorem unclosed (hbody : Reads true behind body rest) (hrest : rest.head? ≠ some '\x7d') :
    Reads inside ('$' :: '\x7b' :: behind) .empty ('$' :: '\x7b' :: behind) := by
  refine ⟨trivial, rfl, Or.inr (Or.inr ⟨behind, rfl, ?_⟩)⟩
  rw [← hbody.render_eq]
  -- The body of the opening goes on to the end, or up to another one that is never closed.
  rcases hbody.stops with hend | ⟨_, tail, htail⟩ | ⟨more, hmore, hnever⟩
  · rw [hend, List.append_nil]
    exact .last hbody.wellFormed
  · exact absurd (by rw [htail, List.head?_cons]) hrest
  · rw [hmore]
    exact .more hbody.wellFormed hnever

end Reads

/-- What is read of any text is read in this sense. The induction is on the length of the text,
    since what stands behind a placeholder is read on its own. -/
theorem read_spec (inside : Bool) (chars : List Char) :
    Reads inside chars (read inside chars).1 (read inside chars).2.1 := by
  have key : ∀ length, ∀ (inside : Bool) (chars : List Char), chars.length = length →
      Reads inside chars (read inside chars).1 (read inside chars).2.1 := by
    intro length
    induction length using Nat.strongRecOn with
    | ind length ih =>
      intro inside chars hlength
      subst hlength
      cases chars with
      | nil =>
          rw [read_nil]
          exact ⟨trivial, rfl, Or.inl rfl⟩
      | cons c behind =>
          -- The text goes on with a character, ends the placeholder, or opens another one.
          by_cases hplain : Plain c behind
          · by_cases hc : inside = true ∧ c = '\x7d'
            · rcases hc with ⟨rfl, rfl⟩
              rcases read_closing behind with ⟨h1, h2⟩
              rw [h1, h2]
              exact ⟨trivial, rfl, Or.inr (Or.inl ⟨rfl, behind, rfl⟩)⟩
            · rcases read_plain hplain hc with ⟨h1, h2⟩
              rw [h1, h2]
              exact (ih behind.length (Nat.lt_succ_self _) inside behind rfl).push hplain hc
          · rcases Decidable.of_not_not hplain with ⟨rfl, hhead⟩
            rcases List.head?_eq_some_iff.1 hhead with ⟨behind, rfl⟩
            have hbody := ih behind.length (by simp only [List.length_cons]; omega) true behind rfl
            by_cases hclosed : (read true behind).2.1.head? = some '\x7d'
            · rcases List.head?_eq_some_iff.1 hclosed with ⟨tail, htail⟩
              have hshort := (read true behind).2.2
              rw [htail] at hbody hshort
              rw [List.length_cons] at hshort
              rcases read_closed htail with ⟨h1, h2⟩
              rw [h1, h2]
              exact hbody.placeholder
                (ih tail.length (by simp only [List.length_cons]; omega) inside tail rfl)
            · rcases read_unclosed hclosed with ⟨h1, h2⟩
              rw [h1, h2]
              exact hbody.unclosed hclosed
  exact key chars.length inside chars rfl

theorem openAfter_plain {depth : Nat} {c : Char} {rest : List Char} (h : Plain c rest)
    (hc : c = '\x7d' → depth = 0) : openAfter depth (c :: rest) = openAfter depth rest := by
  rw [openAfter]
  · exact plain_iff.1 h
  · rintro depth' rfl rfl
    exact absurd (hc rfl) (Nat.succ_ne_zero depth')

/-- A rendering leaves as many placeholders open as it finds. Outside of placeholders it may hold
    closing braces, and these close nothing. -/
theorem openAfter_render {t : Template} :
    ∀ {inside : Bool} {depth : Nat} {rest : List Char}, t.WellFormed inside →
      (inside = true ∨ depth = 0) → Braceless rest →
        openAfter depth (t.render ++ rest) = openAfter depth rest := by
  induction t with
  | empty => intro inside depth rest _ _ _; rfl
  | literal text t ih =>
      intro inside depth rest hwf hdepth hrest
      rcases hwf with ⟨hne, hopening, hclosing, hliteral, hwf⟩
      rw [Template.render, List.append_assoc, ← ih hwf hdepth hrest]
      have hbehind := braceless_render hliteral hrest
      -- Character by character: none opens, and one that closes stands outside of placeholders.
      clear hne
      induction text with
      | nil => rfl
      | cons c text ihtext =>
          rw [List.cons_append, openAfter_plain (plain_of_literal hopening hbehind)]
          · exact ihtext (literal_tail hopening)
              fun hin hmem => hclosing hin (List.mem_cons_of_mem c hmem)
          · rintro rfl
            rcases hdepth with hin | hdepth
            · exact absurd List.mem_cons_self (hclosing hin)
            · exact hdepth
  | placeholder body t ihbody ih =>
      intro inside depth rest hwf hdepth hrest
      have hbrace : Braceless ('\x7d' :: (t.render ++ rest)) :=
        fun h => absurd (Option.some.inj h) (by decide)
      rw [Template.render, List.cons_append, List.cons_append, List.append_assoc,
        List.cons_append, openAfter, ihbody hwf.1 (Or.inl rfl) hbrace, openAfter,
        ih hwf.2 hdepth hrest]

theorem openAfter_neverClosed {behind : List Char} (h : NeverClosed behind) :
    ∀ depth, openAfter (depth + 1) behind ≠ 0 := by
  induction h with
  | @last body hwf =>
      intro depth
      have hend : Braceless [] := fun h => by cases h
      have hall : openAfter (depth + 1) (body.render ++ []) = openAfter (depth + 1) [] :=
        openAfter_render hwf (Or.inl rfl) hend
      rw [List.append_nil, openAfter] at hall
      rw [hall]
      exact Nat.succ_ne_zero depth
  | @more body behind hwf _ ih =>
      intro depth
      have hopening : Braceless ('$' :: '\x7b' :: behind) :=
        fun h => absurd (Option.some.inj h) (by decide)
      rw [openAfter_render hwf (Or.inl rfl) hopening]
      exact ih (depth + 1)

/-- A text has an opening that is never closed when something of it is left. -/
theorem unclosed_iff (chars : List Char) : Unclosed chars ↔ (read false chars).2.1 ≠ [] := by
  rcases read_spec false chars with ⟨hwf, hrender, hstops⟩
  generalize (read false chars).1 = t at *
  generalize (read false chars).2.1 = rest at *
  subst hrender
  have hbraceless : Braceless rest := by
    rcases hstops with rfl | ⟨hin, _⟩ | ⟨behind, rfl, _⟩
    · exact fun h => by cases h
    · cases hin
    · exact fun h => absurd (Option.some.inj h) (by decide)
  rw [Unclosed, openAfter_render hwf (Or.inr rfl) hbraceless]
  rcases hstops with rfl | ⟨hin, _⟩ | ⟨behind, rfl, hnever⟩
  · exact ⟨fun h => absurd rfl h, fun h => absurd rfl h⟩
  · cases hin
  · exact ⟨fun _ => List.cons_ne_nil _ _, fun _ => openAfter_neverClosed hnever 0⟩

-- A template is read from its own text, and nothing is left.
theorem read_eq_of_render {t : Template} (h : t.WellFormed false) :
    (read false t.render).1 = t ∧ (read false t.render).2.1 = [] := by
  have := read_render h (Or.inl rfl)
  rwa [List.append_nil] at this

/-- A text is the rendering of one template, or it has an opening that is never closed. -/
theorem rendered_or_unclosed (chars : List Char) :
    ((∃! t : Template, t.WellFormed false ∧ t.render = chars) ∧ ¬Unclosed chars) ∨
      ((¬∃ t : Template, t.WellFormed false ∧ t.render = chars) ∧ Unclosed chars) := by
  by_cases hrest : (read false chars).2.1 = []
  · refine Or.inl ⟨⟨(read false chars).1, ?_, ?_⟩, ?_⟩
    · have hspec := read_spec false chars
      refine ⟨hspec.wellFormed, ?_⟩
      have := hspec.render_eq
      rwa [hrest, List.append_nil] at this
    · rintro t ⟨hwf, rfl⟩
      exact (read_eq_of_render hwf).1.symm
    · rw [unclosed_iff]
      exact not_not_intro hrest
  · refine Or.inr ⟨?_, (unclosed_iff chars).2 hrest⟩
    rintro ⟨t, hwf, rfl⟩
    exact hrest (read_eq_of_render hwf).2

end Placeholder

end ObjectBootstrap
