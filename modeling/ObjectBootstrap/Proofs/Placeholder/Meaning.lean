import Mathlib.Data.List.TakeWhile
import ObjectBootstrap.Proofs.Placeholder.Template

/-!
# What placeholders mean

The value of a text is that of its template, part by part from left to right. The resolver does not
see the template. It looks for an opening, counts bytes to the brace that closes it, cuts the text
there, and goes on behind the cut. That it comes to the value of the template is shown on
renderings, where each of these steps finds the part that was rendered there
(`splitAtOpening_literal`, `closingOffset_render`, `cutAtByte_bytes`).

Values take visits to keys, and the text of a key is read as a template of its own, so the induction
is on the number of keys that are left to visit and then on the template.

## Main definitions

* `evaluate`: The value of a template.

## Theorems

* `splitDefault_eq`: A body is split at its first colon.
* `resolveFrom_render_of`: The resolver goes through what is rendered as its evaluation does.
* `resolveFrom_text`: The resolver comes to the value of a text.
* `resolve_template`: The syntax and the meaning of placeholders.
-/

namespace ObjectBootstrap

namespace Placeholder

/-- A body is split at its first colon: the key holds none, and a default is what stands behind
    it. -/
theorem splitDefault_eq (body : List Char) :
    (':' ∉ body ∧ splitDefault body = (String.ofList body, none)) ∨
      ∃ key default, body = key ++ ':' :: default ∧ ':' ∉ key ∧
        splitDefault body = (String.ofList key, some default) := by
  have hkey : ':' ∉ body.takeWhile (· != ':') := by
    intro hmem
    have := List.mem_takeWhile_imp hmem
    simp at this
  have hbody := List.takeWhile_append_dropWhile (p := (· != ':')) (l := body)
  rcases hdrop : body.dropWhile (· != ':') with _ | ⟨c, default⟩
  · rw [hdrop, List.append_nil] at hbody
    refine Or.inl ⟨hbody ▸ hkey, ?_⟩
    rw [splitDefault, hdrop]
  · have hc : c = ':' := by
      have := List.head?_dropWhile_not (· != ':') body
      rw [hdrop] at this
      simpa using this
    subst hc
    rw [hdrop] at hbody
    refine Or.inr ⟨body.takeWhile (· != ':'), default, hbody.symm, hkey, ?_⟩
    rw [splitDefault, hdrop]

section Outcomes

variable {ε α β γ : Type}

theorem map_bind (x : Except ε α) (f : α → Except ε β) (g : β → γ) :
    (x.bind f).map g = x.bind fun a => (f a).map g := by
  cases x <;> rfl

theorem bind_map (x : Except ε α) (f : α → β) (g : β → Except ε γ) :
    (x.map f).bind g = x.bind fun a => g (f a) := by
  cases x <;> rfl

theorem bind_bind (x : Except ε α) (f : α → Except ε β) (g : β → Except ε γ) :
    (x.bind f).bind g = x.bind fun a => (f a).bind g := by
  cases x <;> rfl

theorem map_map (x : Except ε α) (f : α → β) (g : β → γ) :
    (x.map f).map g = x.map fun a => g (f a) := by
  cases x <;> rfl

end Outcomes

/-- The value of a template while the settings of some keys are being resolved. -/
def evaluate (settings : Settings) (visiting : List String) :
    Template → Except PlaceholderError (List Char)
  | .empty => .ok []
  | .literal text rest => (evaluate settings visiting rest).map (text ++ ·)
  | .placeholder body rest =>
    (evaluate settings visiting body).bind fun body =>
      let (key, default) := splitDefault body
      if _hkey : key ∈ visiting then .error (.circular key)
      else
        let replacement := match _hget : settings.get? key with
          | some text =>
            -- A text with an opening that is never closed fails behind its template.
            (evaluate settings (key :: visiting) (read false text.toList).1).bind fun value =>
              if (read false text.toList).2.1 = [] then .ok value
              else .error (.unterminated text)
          | none =>
            match default with
            | some default => .ok default
            | none => .error (.unresolved key)
        replacement.bind fun replacement =>
          (evaluate settings visiting rest).map (replacement ++ ·)
termination_by t => (unvisited settings visiting, sizeOf t)
decreasing_by
  · exact Prod.Lex.right _ (by simp only [Template.literal.sizeOf_spec]; omega)
  · exact Prod.Lex.right _ (by simp only [Template.placeholder.sizeOf_spec]; omega)
  · exact Prod.Lex.left _ _ (unvisited_lt _hget _hkey)
  · exact Prod.Lex.right _ (by simp only [Template.placeholder.sizeOf_spec]; omega)

/-- How many bytes a text takes. -/
def bytes : List Char → Nat
  | [] => 0
  | c :: text => c.utf8Size + bytes text

theorem bytes_append (early late : List Char) :
    bytes (early ++ late) = bytes early + bytes late := by
  induction early with
  | nil => rw [List.nil_append, bytes, Nat.zero_add]
  | cons c early ih => rw [List.cons_append, bytes, ih, bytes, Nat.add_assoc]

theorem cutAtByte_bytes (text rest : List Char) :
    cutAtByte (bytes text) (text ++ rest) = some (text, rest) := by
  induction text with
  | nil => rw [bytes, List.nil_append, cutAtByte]
  | cons c text ih =>
      have hc := c.utf8Size_pos
      -- A character takes at least one byte, so the cut is not at its start.
      have hbytes : bytes (c :: text) = (c.utf8Size - 1 + bytes text) + 1 := by
        rw [bytes]
        omega
      have hrest : c.utf8Size - 1 + bytes text + 1 - c.utf8Size = bytes text := by omega
      rw [hbytes, List.cons_append, cutAtByte, if_pos (by omega), hrest, ih]
      rfl

theorem splitAtOpening_plain {c : Char} {rest : List Char} (h : Plain c rest) :
    splitAtOpening (c :: rest)
      = (splitAtOpening rest).map fun parts => (c :: parts.1, parts.2) := by
  rw [splitAtOpening]
  exact plain_iff.1 h

theorem closingOffset_plain {depth : Nat} {c : Char} {rest : List Char} (h : Plain c rest)
    (hc : c ≠ '\x7d') :
    closingOffset depth (c :: rest) = (closingOffset depth rest).map (· + c.utf8Size) := by
  rw [closingOffset]
  · exact plain_iff.1 h
  · intro _ hclosing
    exact absurd hclosing hc
  · intro _ _ hclosing
    exact absurd hclosing hc

-- The first opening behind a literal is the first one behind its end.
theorem splitAtOpening_literal {text rest : List Char} (hopening : ¬['$', '\x7b'] <:+: text)
    (hrest : Braceless rest) :
    splitAtOpening (text ++ rest)
      = (splitAtOpening rest).map fun parts => (text ++ parts.1, parts.2) := by
  induction text with
  | nil =>
      rw [List.nil_append]
      cases splitAtOpening rest <;> rfl
  | cons c text ih =>
      rw [List.cons_append, splitAtOpening_plain (plain_of_literal hopening hrest),
        ih (literal_tail hopening), Option.map_map]
      rfl

theorem closingOffset_literal {depth : Nat} {text rest : List Char}
    (hopening : ¬['$', '\x7b'] <:+: text) (hclosing : '\x7d' ∉ text) (hrest : Braceless rest) :
    closingOffset depth (text ++ rest) = (closingOffset depth rest).map (· + bytes text) := by
  induction text with
  | nil =>
      rw [List.nil_append]
      cases closingOffset depth rest <;> rfl
  | cons c text ih =>
      rw [List.mem_cons, not_or] at hclosing
      rw [List.cons_append, closingOffset_plain (plain_of_literal hopening hrest)
        (fun h => hclosing.1 h.symm), ih (literal_tail hopening) hclosing.2, Option.map_map]
      refine congrArg (fun f => Option.map f (closingOffset depth rest)) (funext fun offset => ?_)
      simp only [Function.comp_apply, bytes]
      omega

/-- The body of a placeholder is skipped as a whole when its end is looked for. -/
theorem closingOffset_render {t : Template} :
    ∀ {depth : Nat} {rest : List Char}, t.WellFormed true → Braceless rest →
      closingOffset depth (t.render ++ rest)
        = (closingOffset depth rest).map (· + bytes t.render) := by
  induction t with
  | empty =>
      intro depth rest _ _
      rw [Template.render, List.nil_append]
      cases closingOffset depth rest <;> rfl
  | literal text t ih =>
      intro depth rest hwf hrest
      rcases hwf with ⟨_, hopening, hclosing, hliteral, hwf⟩
      rw [Template.render, List.append_assoc, closingOffset_literal hopening (hclosing rfl)
        (braceless_render hliteral hrest), ih hwf hrest, Option.map_map, bytes_append]
      refine congrArg (fun f => Option.map f (closingOffset depth rest)) (funext fun offset => ?_)
      simp only [Function.comp_apply]
      omega
  | placeholder body t ihbody ih =>
      intro depth rest hwf hrest
      have hbrace : Braceless ('\x7d' :: (t.render ++ rest)) :=
        fun h => absurd (Option.some.inj h) (by decide)
      -- Two bytes open the placeholder, and one closes it.
      have hbytes : bytes (Template.placeholder body t).render
          = 2 + (bytes body.render + (1 + bytes t.render)) := by
        rw [Template.render, bytes, bytes, bytes_append, bytes, ← Nat.add_assoc]
        rfl
      rw [Template.render, List.cons_append, List.cons_append, List.append_assoc,
        List.cons_append, closingOffset, ihbody hwf.1 hbrace, closingOffset, ih hwf.2 hrest,
        Option.map_map, Option.map_map, Option.map_map, ← Template.render, hbytes]
      refine congrArg (fun f => Option.map f (closingOffset depth rest)) (funext fun offset => ?_)
      simp only [Function.comp_apply]
      omega

theorem closingOffset_neverClosed {behind : List Char} (h : NeverClosed behind) :
    ∀ depth, closingOffset depth behind = none := by
  induction h with
  | @last body hwf =>
      intro depth
      have hend : Braceless [] := fun h => by cases h
      have hall : closingOffset depth (body.render ++ [])
          = (closingOffset depth []).map (· + bytes body.render) := closingOffset_render hwf hend
      rw [List.append_nil, closingOffset, Option.map_none] at hall
      exact hall
  | @more body behind hwf _ ih =>
      intro depth
      have hopening : Braceless ('$' :: '\x7b' :: behind) :=
        fun h => absurd (Option.some.inj h) (by decide)
      rw [closingOffset_render hwf hopening, closingOffset, ih, Option.map_none, Option.map_none]

/-- What a placeholder with a resolved body stands for, given the values of the keys with a
    setting. -/
def substitute (value : String → String → Except PlaceholderError (List Char))
    (settings : Settings) (visiting : List String) (body : List Char) :
    Except PlaceholderError (List Char) :=
  let (key, default) := splitDefault body
  if key ∈ visiting then .error (.circular key)
  else
    match settings.get? key with
    | some text => value key text
    | none =>
      match default with
      | some default => .ok default
      | none => .error (.unresolved key)

-- Only the values of keys that have a setting and are not being resolved matter.
theorem substitute_congr {value value' : String → String → Except PlaceholderError (List Char)}
    {settings : Settings} {visiting : List String}
    (h : ∀ key text, key ∉ visiting → settings.get? key = some text →
      value key text = value' key text) (body : List Char) :
    substitute value settings visiting body = substitute value' settings visiting body := by
  unfold substitute
  rcases splitDefault body with ⟨key, default⟩
  dsimp only
  by_cases hkey : key ∈ visiting
  · rw [if_pos hkey, if_pos hkey]
  · rw [if_neg hkey, if_neg hkey]
    cases hget : settings.get? key with
    | none => rfl
    | some text => exact h key text hkey hget

/-- The value of a text: that of its template, unless the text has an opening that is never
    closed. -/
def valueOf (settings : Settings) (visiting : List String) (text : String) :
    Except PlaceholderError (List Char) :=
  (evaluate settings visiting (read false text.toList).1).bind fun value =>
    if (read false text.toList).2.1 = [] then .ok value else .error (.unterminated text)

theorem evaluate_placeholder (settings : Settings) (visiting : List String)
    (body rest : Template) :
    evaluate settings visiting (.placeholder body rest)
      = (evaluate settings visiting body).bind fun body =>
          (substitute (fun key text => valueOf settings (key :: visiting) text) settings visiting
            body).bind fun replacement =>
              (evaluate settings visiting rest).map (replacement ++ ·) := by
  rw [evaluate]
  refine congrArg _ (funext fun resolved => ?_)
  unfold substitute
  rcases splitDefault resolved with ⟨key, default⟩
  dsimp only
  by_cases hkey : key ∈ visiting
  · rw [dif_pos hkey, if_pos hkey]
    rfl
  · rw [dif_neg hkey, if_neg hkey]
    refine congrArg (fun r => Except.bind r _) ?_
    split
    · next text hget => simp only [hget, valueOf]
    · next hget => simp only [hget]

-- One round of the resolver.
theorem resolveFrom_eq (settings : Settings) (visiting : List String) (whole : String)
    (rest : List Char) :
    resolveFrom settings visiting whole rest
      = match splitAtOpening rest with
        | none => .ok rest
        | some (literal, behind) =>
          match closingOffset 0 behind with
          | none => .error (.unterminated whole)
          | some offset =>
            match cutAtByte offset behind with
            | none => .error .brokenCharacter
            | some (body, tail) =>
              (resolveFrom settings visiting (String.ofList body) body).bind fun body =>
                (substitute (fun key text =>
                    resolveFrom settings (key :: visiting) text text.toList)
                  settings visiting body).bind fun replacement =>
                    (resolveFrom settings visiting whole (tail.drop 1)).map
                      (literal ++ replacement ++ ·) := by
  -- The definition carries along why it ends, and the equation forgets it.
  rw [resolveFrom]
  split
  · next hopen => simp only [hopen]
  · next literal behind hopen =>
      simp only [hopen]
      cases closingOffset 0 behind with
      | none => rfl
      | some offset =>
          dsimp only
          split
          · next hcut => simp only [hcut]
          · next body tail hcut =>
              simp only [hcut]
              refine congrArg _ (funext fun resolved => ?_)
              unfold substitute
              rcases splitDefault resolved with ⟨key, default⟩
              dsimp only
              by_cases hkey : key ∈ visiting
              · rw [dif_pos hkey, if_pos hkey]
                rfl
              · rw [dif_neg hkey, if_neg hkey]
                refine congrArg (fun r => Except.bind r _) ?_
                split
                · next text hget => simp only [hget]
                · next hget =>
                    cases default with
                    | none => simp only [hget]
                    | some default => simp only [hget]

-- Nothing is resolved to nothing.
theorem resolveFrom_nil (settings : Settings) (visiting : List String) (whole : String) :
    resolveFrom settings visiting whole [] = .ok [] := by
  rw [resolveFrom_eq, splitAtOpening]

-- An opening that is never closed is an error.
theorem resolveFrom_neverClosed (settings : Settings) (visiting : List String) (whole : String)
    {behind : List Char} (h : NeverClosed behind) :
    resolveFrom settings visiting whole ('$' :: '\x7b' :: behind)
      = .error (.unterminated whole) := by
  rw [resolveFrom_eq, splitAtOpening]
  simp only [closingOffset_neverClosed h]

-- A literal stays as it is.
theorem resolveFrom_literal (settings : Settings) (visiting : List String) (whole : String)
    {text rest : List Char} (hopening : ¬['$', '\x7b'] <:+: text) (hrest : Braceless rest) :
    resolveFrom settings visiting whole (text ++ rest)
      = (resolveFrom settings visiting whole rest).map (text ++ ·) := by
  rw [resolveFrom_eq, resolveFrom_eq settings visiting whole rest,
    splitAtOpening_literal hopening hrest]
  cases splitAtOpening rest with
  | none => rfl
  | some parts =>
      rcases parts with ⟨literal, behind⟩
      simp only [Option.map_some]
      cases closingOffset 0 behind with
      | none => rfl
      | some offset =>
          dsimp only
          cases cutAtByte offset behind with
          | none => rfl
          | some cut => simp only [map_bind, map_map, List.append_assoc]

/-- What the resolver leaves to do behind a template. -/
def Leaves (rest : List Char) : Prop :=
  rest = [] ∨ ∃ behind, rest = '$' :: '\x7b' :: behind ∧ NeverClosed behind

theorem Leaves.braceless {rest : List Char} (h : Leaves rest) : Braceless rest := by
  rcases h with rfl | ⟨behind, rfl, _⟩
  · exact fun h => by cases h
  · exact fun h => absurd (Option.some.inj h) (by decide)

theorem read_leaves (chars : List Char) : Leaves (read false chars).2.1 := by
  rcases (read_spec false chars).stops with h | ⟨hin, _⟩ | h
  · exact Or.inl h
  · cases hin
  · exact Or.inr h

/-- The resolver goes through a rendering as its evaluation does, if it does so for the settings of
    further keys. -/
theorem resolveFrom_render_of {settings : Settings} {visiting : List String}
    (hvalues : ∀ key text, key ∉ visiting → settings.get? key = some text →
      resolveFrom settings (key :: visiting) text text.toList
        = valueOf settings (key :: visiting) text) {t : Template} :
    ∀ {inside : Bool} {whole : String} {rest : List Char}, t.WellFormed inside → Leaves rest →
      resolveFrom settings visiting whole (t.render ++ rest)
        = (evaluate settings visiting t).bind fun value =>
          (resolveFrom settings visiting whole rest).map (value ++ ·) := by
  induction t with
  | empty =>
      intro inside whole rest _ _
      rw [Template.render, List.nil_append, evaluate]
      cases resolveFrom settings visiting whole rest <;> rfl
  | literal text t ih =>
      intro inside whole rest hwf hrest
      rcases hwf with ⟨_, hopening, _, hliteral, hwf⟩
      rw [Template.render, List.append_assoc, resolveFrom_literal settings visiting whole hopening
        (braceless_render hliteral hrest.braceless), ih hwf hrest, evaluate]
      simp only [map_bind, bind_map, map_map, List.append_assoc]
  | placeholder body t ihbody ih =>
      intro inside whole rest hwf hrest
      have hbrace : Braceless ('\x7d' :: (t.render ++ rest)) :=
        fun h => absurd (Option.some.inj h) (by decide)
      -- The resolver finds the body that was rendered, and behind it the rest of the template.
      have hbody : resolveFrom settings visiting (String.ofList body.render) body.render
          = evaluate settings visiting body := by
        have hall : resolveFrom settings visiting (String.ofList body.render) (body.render ++ [])
            = _ := ihbody hwf.1 (Or.inl rfl)
        rw [List.append_nil, resolveFrom_nil] at hall
        rw [hall]
        cases evaluate settings visiting body with
        | error e => rfl
        | ok value => simp only [Except.bind, Except.map, List.append_nil]
      have hsplit : splitAtOpening (Template.render (.placeholder body t) ++ rest)
          = some ([], body.render ++ '\x7d' :: (t.render ++ rest)) := by
        rw [Template.render, List.cons_append, List.cons_append, List.append_assoc,
          List.cons_append, splitAtOpening]
      have hoffset : closingOffset 0 (body.render ++ '\x7d' :: (t.render ++ rest))
          = some (bytes body.render) := by
        rw [closingOffset_render hwf.1 hbrace, closingOffset, Option.map_some, Nat.zero_add]
      rw [resolveFrom_eq, hsplit, evaluate_placeholder]
      simp only [hoffset, cutAtByte_bytes, hbody, substitute_congr hvalues, List.drop_succ_cons,
        List.drop_zero, ih hwf.2 hrest, bind_bind, bind_map, map_bind, map_map, List.nil_append,
        List.append_assoc]

/-- The resolver comes to the value of a text. The induction is on the number of keys that are left
    to visit, since the settings of keys are texts too. -/
theorem resolveFrom_text (settings : Settings) : ∀ (visiting : List String) (text : String),
    resolveFrom settings visiting text text.toList = valueOf settings visiting text := by
  have key : ∀ left visiting, unvisited settings visiting = left → ∀ text : String,
      resolveFrom settings visiting text text.toList = valueOf settings visiting text := by
    intro left
    induction left using Nat.strongRecOn with
    | ind left ih =>
      intro visiting hleft text
      have hspec := read_spec false text.toList
      -- A visit to one more key leaves fewer of them.
      have hvalues : ∀ key text, key ∉ visiting → settings.get? key = some text →
          resolveFrom settings (key :: visiting) text text.toList
            = valueOf settings (key :: visiting) text :=
        fun key text hkey hget => ih _ (hleft ▸ unvisited_lt hget hkey) _ rfl text
      have hrender : resolveFrom settings visiting text
          ((read false text.toList).1.render ++ (read false text.toList).2.1) = _ :=
        resolveFrom_render_of hvalues hspec.wellFormed (read_leaves text.toList)
      rw [hspec.render_eq] at hrender
      rw [hrender, valueOf]
      refine congrArg _ (funext fun value => ?_)
      rcases read_leaves text.toList with hend | ⟨behind, hbehind, hnever⟩
      · rw [hend, resolveFrom_nil, if_pos rfl]
        simp only [Except.map, List.append_nil]
      · rw [hbehind, resolveFrom_neverClosed settings visiting text hnever,
          if_neg (List.cons_ne_nil _ _)]
        rfl
  intro visiting text
  exact key _ visiting rfl text

/-- The syntax of placeholders and what they mean. A text is the rendering of one template, or it
    has an opening that is never closed. The resolver answers the value of the template in the one
    case, and an error in the other one. -/
theorem resolve_template (settings : Settings) (text : String) :
    (((∃! t : Template, t.WellFormed false ∧ String.ofList t.render = text) ∧
        ¬Unclosed text.toList) ∨
      ((¬∃ t : Template, t.WellFormed false ∧ String.ofList t.render = text) ∧
        Unclosed text.toList)) ∧
    (∀ t : Template, t.WellFormed false → String.ofList t.render = text →
      resolve settings text = (evaluate settings [] t).map String.ofList) ∧
    (Unclosed text.toList → ∃ e, resolve settings text = .error e) := by
  have hrender : ∀ t : Template, String.ofList t.render = text ↔ t.render = text.toList := by
    intro t
    constructor
    · rintro rfl
      rw [String.toList_ofList]
    · intro h
      rw [h, String.ofList_toList]
  simp only [hrender]
  refine ⟨rendered_or_unclosed text.toList, ?_, ?_⟩
  · intro t hwf ht
    rcases read_eq_of_render hwf with ⟨htemplate, hrest⟩
    rw [resolve, resolveFrom_text, valueOf, ← ht, htemplate, hrest]
    cases evaluate settings [] t <;> rfl
  · intro hunclosed
    rw [unclosed_iff] at hunclosed
    rw [resolve, resolveFrom_text, valueOf]
    cases evaluate settings [] (read false text.toList).1 with
    | error e => exact ⟨e, rfl⟩
    | ok value =>
        refine ⟨.unterminated text, ?_⟩
        simp only [Except.bind, if_neg hunclosed, Except.map]

example : resolve (.ofList [("host", "$\x7bname:local\x7d"), ("port", "80")])
    "at $\x7bhost\x7d:$\x7b$\x7bkey:port\x7d\x7d\x7d" = .ok "at local:80\x7d" := by
  cbv

end Placeholder

end ObjectBootstrap
