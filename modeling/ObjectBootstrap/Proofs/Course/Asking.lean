import ObjectBootstrap.Proofs.Course.Runs

/-!
# What programs ask for

The requests that a program makes in a run are those that it comes by with the answers that it is
given. An edit of a definition is part of the run: it makes requests of its own, and what follows it
depends on it.

## Main definitions

* `Prog.Asks`: A program that is run makes a request, and it is answered.

## Theorems

* `Prog.Asks.courses`: What happens in front of a request, and what is left of it in the log.
-/

namespace ObjectBootstrap

variable {H : Host}

/-- A program that is run from a state makes a request in one state, and it is answered in
    another. -/
inductive Prog.Asks (answer : {γ : Type} → Request H γ → Run H γ) {β : Type} (r : Request H β)
    (w : State H) (reply : β) (w' : State H) : {α : Type} → Prog H α → State H → Prop
  | here {α : Type} {next : β → Prog H α} :
    answer r w = some (reply, w') → Asks answer r w reply w' (.ask r next) w
  | later {α γ : Type} {first : Request H γ} {next : γ → Prog H α} {s t : State H} {a : γ} :
    answer first s = some (a, t) → Asks answer r w reply w' (next a) t →
      Asks answer r w reply w' (.ask first next) s
  /-- The definition that is to be edited is not there. -/
  | unedited {α γ : Type} {name : String}
    {edit : Definition H.Factory → Prog H (γ × Definition H.Factory)}
    {next : Except Error γ → Prog H α} {s : State H} {e : Error} :
    s.container.definition name = .error e → Asks answer r w reply w' (next (.error e)) s →
      Asks answer r w reply w' (.update name edit next) s
  | editing {α γ : Type} {name : String}
    {edit : Definition H.Factory → Prog H (γ × Definition H.Factory)}
    {next : Except Error γ → Prog H α} {s : State H} {d : Definition H.Factory} :
    s.container.definition name = .ok d → Asks answer r w reply w' (edit d) s →
      Asks answer r w reply w' (.update name edit next) s
  | edited {α γ : Type} {name : String}
    {edit : Definition H.Factory → Prog H (γ × Definition H.Factory)}
    {next : Except Error γ → Prog H α} {s t : State H} {d e : Definition H.Factory} {result : γ} :
    s.container.definition name = .ok d →
      (edit d).interpret answer s = some ((result, e), t) →
      Asks answer r w reply w' (next (.ok result))
        ((t.withContainer (t.container.writeBack name e)).note (.updated name e)) →
      Asks answer r w reply w' (.update name edit next) s

/-- A request is made on a course of the program, and what is written down up to its answer stands
    in the log when the program is done. What comes behind the answer need not be a course itself,
    because an edit that the request was part of began in front of it. -/
theorem Prog.Asks.courses {answer : {γ : Type} → Request H γ → Run H γ}
    (hanswer : ∀ {γ : Type} (r : Request H γ), Run.Follows Anything (answer r)) {α β : Type}
    {r : Request H β} {w w' s : State H} {reply : β} {p : Prog H α}
    (h : p.Asks answer r w reply w' s) :
    answer r w = some (reply, w') ∧ Course Anything s w ∧
      ∀ {a : α} {t : State H}, p.interpret answer s = some (a, t) → w'.log <:+ t.log := by
  induction h with
  | @here _ next hreply =>
      refine ⟨hreply, .rest w, fun {a t} hrun => ?_⟩
      rcases Run.bind_eq_some_iff.1 hrun with ⟨b, u, hfirst, hrest⟩
      cases hreply.symm.trans hfirst
      exact ((next reply).interpret_follows hanswer _ _ _ hrest).log_suffix
  | later hfirst _ ih =>
      rcases ih with ⟨hreply, hfront, hbehind⟩
      refine ⟨hreply, .followedBy (hanswer _ _ _ _ hfirst) hfront, fun {a t} hrun => ?_⟩
      rcases Run.bind_eq_some_iff.1 hrun with ⟨b, u, hfirst', hrest⟩
      cases hfirst.symm.trans hfirst'
      exact hbehind hrest
  | @unedited _ _ _ _ _ _ _ hd _ ih =>
      rcases ih with ⟨hreply, hfront, hbehind⟩
      refine ⟨hreply, hfront, fun {a t} hrun => ?_⟩
      rw [Prog.interpret_update_of_error hd] at hrun
      exact hbehind hrun
  | @editing _ _ _ _ next _ _ hd _ ih =>
      rcases ih with ⟨hreply, hfront, hbehind⟩
      refine ⟨hreply, hfront, fun {a t} hrun => ?_⟩
      rcases (Prog.interpret_update_eq_some_iff hd).1 hrun with ⟨result, e, u, hedit, hrest⟩
      exact ((hbehind hedit).trans (List.suffix_cons _ _)).trans
        ((next (.ok result)).interpret_follows hanswer _ _ _ hrest).log_suffix
  | @edited _ _ _ edit _ s t d _ _ hd hedit _ ih =>
      rcases ih with ⟨hreply, hfront, hbehind⟩
      have hrun : Course Anything s t := (edit d).interpret_follows hanswer _ _ _ hedit
      refine ⟨hreply, .followedBy (.update trivial hd hrun) hfront, fun {a t} hrun => ?_⟩
      rcases (Prog.interpret_update_eq_some_iff hd).1 hrun with ⟨_, _, _, hedit', hrest⟩
      cases hedit.symm.trans hedit'
      exact hbehind hrest

end ObjectBootstrap
