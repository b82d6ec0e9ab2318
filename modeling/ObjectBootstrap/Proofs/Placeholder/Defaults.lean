import ObjectBootstrap.Proofs.Placeholder.Meaning

/-!
# Defaults of keys with a setting

A key with a setting stands for its setting, whatever default follows the key. The default is not
left alone, though. Keys may be made of placeholders, so a body is resolved before it is split, and
the placeholders of a default that nobody needs are resolved with it. They cannot change what the
placeholder stands for, but they can fail, and then the placeholder fails as the default does by
itself (`resolve_default`).

A body whose key is plain text is the template of its default with the key put in front, and so its
value is that of the default with the key in front (`evaluate_prepend`).

## Main definitions

* `Template.prepend`: Puts a text in front of a template.
* `Enclosed`: The placeholders of a text are closed, and it has no other closing braces.

## Theorems

* `evaluate_prepend`: The value of a template with a text in front.
* `substitute_default`: What a key with a setting stands for, with a default and without.
* `evaluate_default`: The same for a placeholder anywhere in a template.
* `resolve_default`: A text that is one placeholder with a default, and its key has a setting.
-/

namespace ObjectBootstrap

namespace Placeholder

/-- Puts a text in front of a template. -/
def Template.prepend (text : List Char) (t : Template) : Template := text.foldr Template.push t

theorem render_prepend (text : List Char) (t : Template) :
    (t.prepend text).render = text ++ t.render := by
  induction text with
  | nil => rfl
  | cons c text ih =>
      rw [Template.prepend, List.foldr_cons, Template.render_push, ← Template.prepend, ih,
        List.cons_append]

theorem wellFormed_prepend {inside : Bool} {text : List Char} {t : Template}
    (hopening : '$' ∉ text) (hclosing : '\x7d' ∉ text) (ht : t.WellFormed inside) :
    (t.prepend text).WellFormed inside := by
  induction text with
  | nil => exact ht
  | cons c text ih =>
      rw [List.mem_cons, not_or] at hopening hclosing
      have hplain : Plain c ((t.prepend text).render ++ []) := fun h => hopening.1 h.1.symm
      exact wellFormed_push (ih hopening.2 hclosing.2) hplain fun h => hclosing.1 h.2.symm

theorem evaluate_push (settings : Settings) (visiting : List String) (c : Char) (t : Template) :
    evaluate settings visiting (t.push c) = (evaluate settings visiting t).map (c :: ·) := by
  cases t with
  | empty => exact evaluate.eq_2 _ _ _ _
  | literal text t =>
      rw [Template.push, evaluate, evaluate, map_map]
      rfl
  | placeholder body t => exact evaluate.eq_2 _ _ _ _

/-- A text in front of a template stands in front of its value. -/
theorem evaluate_prepend (settings : Settings) (visiting : List String) (text : List Char)
    (t : Template) :
    evaluate settings visiting (t.prepend text)
      = (evaluate settings visiting t).map (text ++ ·) := by
  induction text with
  | nil =>
      rw [Template.prepend, List.foldr_nil]
      cases evaluate settings visiting t <;> rfl
  | cons c text ih =>
      rw [Template.prepend, List.foldr_cons, evaluate_push, ← Template.prepend, ih, map_map]
      rfl

theorem splitDefault_of_not_mem {key : List Char} (h : ':' ∉ key) :
    splitDefault key = (String.ofList key, none) := by
  rcases splitDefault_eq key with ⟨_, hsplit⟩ | ⟨early, late, rfl, _, _⟩
  · exact hsplit
  · exact absurd (List.mem_append_right early List.mem_cons_self) h

theorem splitDefault_append {key : List Char} (h : ':' ∉ key) (default : List Char) :
    splitDefault (key ++ ':' :: default) = (String.ofList key, some default) := by
  have hkey : ∀ c ∈ key, (c != ':') = true := by
    intro c hc
    rw [bne_iff_ne]
    rintro rfl
    exact h hc
  rw [splitDefault, List.dropWhile_append_of_pos hkey, List.takeWhile_append_of_pos hkey]
  simp

/-- A key with a setting stands for the setting, with a default and without. -/
theorem substitute_default (value : String → String → Except PlaceholderError (List Char))
    {settings : Settings} {key found : String} (visiting : List String) (hcolon : ':' ∉ key.toList)
    (hfound : settings.get? key = some found) (default : List Char) :
    substitute value settings visiting (key.toList ++ ':' :: default)
      = substitute value settings visiting key.toList := by
  rw [substitute, substitute, splitDefault_append hcolon, splitDefault_of_not_mem hcolon]
  simp only [String.ofList_toList, hfound]

/-- A placeholder with a default needs the default to have a value, and has no use for it. -/
theorem evaluate_default {settings : Settings} {key found : String} (visiting : List String)
    (hcolon : ':' ∉ key.toList) (hfound : settings.get? key = some found)
    (default rest : Template) :
    evaluate settings visiting
        (.placeholder ((default.prepend [':']).prepend key.toList) rest)
      = (evaluate settings visiting default).bind fun _ =>
          evaluate settings visiting (.placeholder (Template.empty.prepend key.toList) rest) := by
  simp only [evaluate_placeholder, evaluate_prepend, map_map, bind_map]
  refine congrArg _ (funext fun value => ?_)
  rw [evaluate, List.singleton_append, substitute_default _ visiting hcolon hfound]
  simp only [Except.map, Except.bind, List.append_nil]

/-- A text may stand inside a placeholder: each opening is closed in it, and no closing brace is
    outside of the placeholders. -/
def Enclosed (text : String) : Prop :=
  ∃ t : Template, t.WellFormed true ∧ String.ofList t.render = text

-- What may stand inside a placeholder may stand outside.
theorem Template.WellFormed.outside {t : Template} (h : t.WellFormed true) :
    t.WellFormed false := by
  induction t with
  | empty => trivial
  | literal text t ih =>
      rcases h with ⟨hne, hopening, _, hliteral, hwf⟩
      exact ⟨hne, hopening, fun h => (by cases h), hliteral, ih hwf⟩
  | placeholder body t _ ih => exact ⟨h.1, ih h.2⟩

theorem resolve_render (settings : Settings) {t : Template} (h : t.WellFormed false) :
    resolve settings (String.ofList t.render) = (evaluate settings [] t).map String.ofList := by
  rcases read_eq_of_render h with ⟨htemplate, hrest⟩
  rw [resolve, resolveFrom_text, valueOf, String.toList_ofList, htemplate, hrest]
  cases evaluate settings [] t <;> rfl

/-- **Defaults of keys with a setting.** If the key of a placeholder has a setting, then the
    placeholder is resolved with a default as it is without one, unless the default cannot be
    resolved. In this case the placeholder fails as the default does. -/
theorem resolve_default (settings : Settings) {key found default : String}
    (hkey : ∀ c ∈ key.toList, c ≠ '$' ∧ c ≠ '\x7b' ∧ c ≠ '\x7d' ∧ c ≠ ':')
    (hfound : settings.get? key = some found) (hdefault : Enclosed default) :
    resolve settings ("$\x7b" ++ key ++ ":" ++ default ++ "\x7d")
      = (resolve settings default).bind fun _ => resolve settings ("$\x7b" ++ key ++ "\x7d") := by
  rcases hdefault with ⟨t, ht, rfl⟩
  have hopening : '$' ∉ key.toList := fun h => (hkey _ h).1 rfl
  have hclosing : '\x7d' ∉ key.toList := fun h => (hkey _ h).2.2.1 rfl
  have hcolon : ':' ∉ key.toList := fun h => (hkey _ h).2.2.2 rfl
  let plain : Template := .placeholder (Template.empty.prepend key.toList) .empty
  let full : Template := .placeholder ((t.prepend [':']).prepend key.toList) .empty
  have hplain : plain.WellFormed false :=
    ⟨wellFormed_prepend hopening hclosing trivial, trivial⟩
  have hfull : full.WellFormed false :=
    ⟨wellFormed_prepend hopening hclosing (wellFormed_prepend (by decide) (by decide) ht), trivial⟩
  have hplaintext : "$\x7b" ++ key ++ "\x7d" = String.ofList plain.render := by
    rw [← String.toList_inj]
    simp only [plain, Template.render, render_prepend, String.toList_append, String.toList_ofList,
      List.append_nil]
    rfl
  have hfulltext : "$\x7b" ++ key ++ ":" ++ String.ofList t.render ++ "\x7d"
      = String.ofList full.render := by
    rw [← String.toList_inj]
    simp only [full, Template.render, render_prepend, String.toList_append, String.toList_ofList,
      List.append_assoc]
    rfl
  rw [hplaintext, hfulltext, resolve_render settings hplain, resolve_render settings hfull,
    resolve_render settings ht.outside, evaluate_default [] hcolon hfound,
    map_bind, bind_map]

end Placeholder

namespace Scenarios

open Placeholder

def knownSettings : Settings := .ofList [("known", "value")]

theorem known_plain : ∀ c ∈ "known".toList, c ≠ '$' ∧ c ≠ '\x7b' ∧ c ≠ '\x7d' ∧ c ≠ ':' := by
  simp

def enclosedDefault : Template :=
  .placeholder (.literal ['u', 'n', 's', 'e', 't', ':', 'i', 'n', 'n', 'e', 'r'] .empty)
    (.literal [' ', 'e', 'n', 'd'] .empty)

theorem enclosedDefault_wellFormed : enclosedDefault.WellFormed true := by
  simp only [enclosedDefault, Template.WellFormed]
  decide

theorem resolve_enclosedDefault :
    resolve knownSettings "$\x7bunset:inner\x7d end" = .ok "inner end" := by
  rw [show "$\x7bunset:inner\x7d end" = String.ofList enclosedDefault.render from rfl,
    resolve_render knownSettings enclosedDefault_wellFormed.outside, enclosedDefault,
    evaluate_placeholder]
  simp only [evaluate]
  rfl

theorem default_not_needed :
    (∀ c ∈ "known".toList, c ≠ '$' ∧ c ≠ '\x7b' ∧ c ≠ '\x7d' ∧ c ≠ ':') ∧
    knownSettings.get? "known" = some "value" ∧ Enclosed "$\x7bunset:inner\x7d end" ∧
    resolve knownSettings "$\x7bknown:$\x7bunset:inner\x7d end\x7d"
      = resolve knownSettings "$\x7bknown\x7d" := by
  have hknown : knownSettings.get? "known" = some "value" := by decide
  have henclosed : Enclosed "$\x7bunset:inner\x7d end" :=
    ⟨enclosedDefault, enclosedDefault_wellFormed, rfl⟩
  have hresolve := resolve_default knownSettings known_plain hknown henclosed
  rw [resolve_enclosedDefault] at hresolve
  exact ⟨known_plain, hknown, henclosed, hresolve⟩

def knownKey : Template := .placeholder (.literal ['k', 'n', 'o', 'w', 'n'] .empty) .empty

theorem resolve_known : resolve knownSettings "$\x7bknown\x7d" = .ok "value" := by
  have hwf : knownKey.WellFormed false := by
    simp only [knownKey, Template.WellFormed]
    decide
  have hvalue : valueOf knownSettings ["known"] "value" = .ok ['v', 'a', 'l', 'u', 'e'] := by
    rw [← resolveFrom_text, resolveFrom_eq]
    rfl
  rw [show "$\x7bknown\x7d" = String.ofList knownKey.render from rfl,
    resolve_render knownSettings hwf, knownKey, evaluate_placeholder]
  simp only [evaluate]
  change (((valueOf knownSettings ["known"] "value").bind fun value => .ok (value ++ [])).map _) = _
  rw [hvalue]
  rfl

def unknownKey : Template :=
  .placeholder (.literal ['u', 'n', 'k', 'n', 'o', 'w', 'n'] .empty) .empty

theorem unknownKey_wellFormed : unknownKey.WellFormed true := by
  simp only [unknownKey, Template.WellFormed]
  decide

theorem resolve_unknown_default :
    resolve knownSettings "$\x7bknown:$\x7bunknown\x7d\x7d" = .error (.unresolved "unknown") := by
  have hwf : (Template.placeholder (.literal ['k', 'n', 'o', 'w', 'n', ':'] unknownKey)
      .empty).WellFormed false := by
    simp only [unknownKey, Template.WellFormed]
    decide
  rw [show "$\x7bknown:$\x7bunknown\x7d\x7d" = String.ofList
      (Template.placeholder (.literal ['k', 'n', 'o', 'w', 'n', ':'] unknownKey)
        .empty).render from rfl,
    resolve_render knownSettings hwf, unknownKey, evaluate_placeholder]
  simp only [evaluate, evaluate_placeholder]
  rfl

/-- The first key has a setting and the second one has none. The default is not needed, and it
    fails. -/
theorem default_fails :
    resolve knownSettings "$\x7bknown\x7d" = .ok "value" ∧
    resolve knownSettings "$\x7bknown:$\x7bunknown\x7d\x7d" = .error (.unresolved "unknown") ∧
    ¬∀ (settings : Settings) (key found default : String),
      (∀ c ∈ key.toList, c ≠ '$' ∧ c ≠ '\x7b' ∧ c ≠ '\x7d' ∧ c ≠ ':') →
      settings.get? key = some found → Enclosed default →
      resolve settings ("$\x7b" ++ key ++ ":" ++ default ++ "\x7d")
        = resolve settings ("$\x7b" ++ key ++ "\x7d") := by
  refine ⟨resolve_known, resolve_unknown_default, fun h => ?_⟩
  have hsame := h knownSettings "known" "value" "$\x7bunknown\x7d" known_plain (by decide)
    ⟨unknownKey, unknownKey_wellFormed, rfl⟩
  exact absurd (resolve_unknown_default.symm.trans (hsame.trans resolve_known)) (by decide)

end Scenarios

end ObjectBootstrap
