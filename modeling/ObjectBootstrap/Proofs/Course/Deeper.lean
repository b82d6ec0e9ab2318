import ObjectBootstrap.Proofs.Course.Means

/-!
# Runs at greater depth

A run that comes to a result at one depth comes to the same result at every greater one
(`Keeping.deeper`). So the depth says how far a run is followed, and nothing of what it does.

Greater means run more programs and none of them differently. A function of an engine is put
together of the runs of its programs, so it keeps its results, too. The repetition of passes in
registry mutation keeps them because greater means allow for more passes, and a repetition that is
over makes no use of them.

## Main definitions

* `Run.Below`: Where one run has a result, another one has the same.
* `Means.Extends`: Means that run no program differently, but maybe more of them.
* `Keeping`: A run that keeps its results with greater means.

## Theorems

* `compositional_keeping`: Runs that are put together keep their results.
* `Engine.mutationPhase_keeping`: Registry mutation keeps its results.
* `Means.ofDepth_extends`: A greater depth has greater means.
* `Keeping.deeper`: A run comes to the same result at every greater depth.
-/

namespace ObjectBootstrap

variable {H : Host} {α β : Type}

/-- Where a run has a result, another run has the same. -/
def Run.Below (run run' : Run H α) : Prop := ∀ s r, run s = some r → run' s = some r

namespace Run.Below

theorem refl (run : Run H α) : Run.Below run run := fun _ _ h => h

theorem bind {run run' : Run H α} {next next' : α → Run H β} (hrun : Run.Below run run')
    (hnext : ∀ a, Run.Below (next a) (next' a)) : Run.Below (run >>= next) (run' >>= next') := by
  intro s ⟨b, u⟩ h
  rcases Run.bind_eq_some_iff.1 h with ⟨a, t, hfirst, hrest⟩
  exact Run.bind_eq_some_iff.2 ⟨a, t, hrun s _ hfirst, hnext a t _ hrest⟩

theorem attempt {first first' : Attempt H α} {next next' : α → Attempt H β}
    (hfirst : Run.Below first.run first'.run)
    (hnext : ∀ a, Run.Below (next a).run (next' a).run) :
    Run.Below (first >>= next).run (first' >>= next').run := by
  rw [ExceptT.run_bind, ExceptT.run_bind]
  refine hfirst.bind fun result => ?_
  match result with
  | .error e => exact refl _
  | .ok a => exact hnext a

end Run.Below

/-- Means that run no program differently, but maybe more of them. -/
structure Means.Extends (m m' : Means H) : Prop where
  limit_le : m.limit ≤ m'.limit
  run_below {α : Type} (shown : Facade) (p : Prog H α) : Run.Below (m.run shown p) (m'.run shown p)

theorem Means.Extends.refl (m : Means H) : m.Extends m := ⟨Nat.le_refl _, fun _ _ => .refl _⟩

theorem Means.Extends.trans {m m' m'' : Means H} (h : m.Extends m') (h' : m'.Extends m'') :
    m.Extends m'' where
  limit_le := Nat.le_trans h.limit_le h'.limit_le
  run_below shown p s r hr := h'.run_below shown p s r (h.run_below shown p s r hr)

/-- A run comes to the same result with greater means. -/
def Keeping (run : Means H → Run H α) : Prop :=
  ∀ m m' : Means H, m.Extends m' → Run.Below (run m) (run m')

/-- Runs that are put together keep their results. -/
theorem compositional_keeping : Compositional (H := H) Keeping where
  fixed _ _ _ _ := .refl _
  bind hfirst hnext m m' h := .bind (hfirst m m' h) fun a => hnext a m m' h
  program shown p _ _ h := h.run_below shown p

namespace Engine

variable {behaviour : Behaviour H} {facade : Facade}

/-- A repetition of passes that is over makes no use of more of them. -/
theorem reiterate_below (shown : Facade) (config : Config) {m m' : Means H} (h : m.Extends m') :
    ∀ {limit limit' : Nat}, limit ≤ limit' → ∀ (number : Nat) (progress : Progress H),
      Run.Below ((m.engine behaviour facade).reiterate shown config limit number progress).run
        ((m'.engine behaviour facade).reiterate shown config limit' number progress).run := by
  intro limit
  induction limit with
  | zero =>
      intro limit' _ number progress s r hr
      cases hr
  | succ limit ih =>
      intro limit' hlimit number progress
      cases limit' with
      | zero => exact absurd hlimit (Nat.not_succ_le_zero _)
      | succ limit' =>
          refine .attempt (discover_composed compositional_keeping shown config
            (.reiteration number) progress m m' h) fun next => ?_
          by_cases hlast : next.mutators.length = progress.mutators.length
          · rw [if_pos hlast, if_pos hlast]
            exact .refl _
          · rw [if_neg hlast, if_neg hlast]
            exact ih (Nat.le_of_succ_le_succ hlimit) _ _

theorem mutateAll_keeping (shown : Facade) (config : Config)
    (externals : List (ExternalHook H.Content)) :
    Keeping fun m => ((m.engine behaviour facade).mutateAll shown config externals).run := by
  have hC := compositional_keeping (H := H)
  refine hC.attempt (mutateEach_composed hC shown _) fun _ => ?_
  refine hC.attempt (discover_composed hC shown config _ _) fun _ => ?_
  refine hC.attempt (discover_composed hC shown config _ _) fun _ => ?_
  exact fun m m' h => reiterate_below shown config h h.limit_le 1 _

theorem mutationPhase_keeping (shown : Facade) (config : Config)
    (externals : List (ExternalHook H.Content)) :
    Keeping fun m => ((m.engine behaviour facade).mutationPhase shown config externals).run := by
  have hC := compositional_keeping (H := H)
  refine hC.attempt (mutateAll_keeping shown config externals) fun progress => ?_
  exact hC.attempt (customizeEach_composed hC shown _) fun _ => hC.pure _

end Engine

/-- A program keeps its result if the answers to its requests do. -/
theorem Prog.interpret_below {answer answer' : {γ : Type} → Request H γ → Run H γ}
    (hanswer : ∀ {γ : Type} (r : Request H γ), Run.Below (answer r) (answer' r)) (p : Prog H α) :
    Run.Below (p.interpret answer) (p.interpret answer') := by
  induction p with
  | done result => exact .refl _
  | ask request next ih => exact .bind (hanswer request) ih
  | update name edit next ihedit ih =>
      rw [Prog.interpret, Prog.interpret]
      refine .bind (.refl Run.container) fun k => ?_
      cases k.definition name with
      | error e => exact ih (.error e)
      | ok d =>
          refine .bind (ihedit d) fun edited => ?_
          exact .bind (.refl _) fun _ => .bind (.refl _) fun _ => ih (.ok edited.1)

namespace Means

variable (behaviour : Behaviour H) (facade : Facade)

/-- The means of a depth. -/
def ofDepth (depth : Nat) : Means H :=
  ⟨(Engine.ofDepth behaviour facade depth).limit, (Engine.ofDepth behaviour facade depth).run⟩

theorem engine_ofDepth (depth : Nat) :
    (ofDepth behaviour facade depth).engine behaviour facade
      = Engine.ofDepth behaviour facade depth := by
  cases depth <;> rfl

theorem limit_ofDepth (depth : Nat) : (ofDepth behaviour facade depth).limit = depth := by
  cases depth <;> rfl

theorem ofDepth_extends_succ (depth : Nat) :
    (ofDepth behaviour facade depth).Extends (ofDepth behaviour facade (depth + 1)) := by
  induction depth with
  | zero =>
      refine ⟨Nat.zero_le _, fun shown p => Prog.interpret_below (fun request s r hr => ?_) p⟩
      cases hr
  | succ depth ih =>
      refine ⟨Nat.le_succ _, fun shown p => Prog.interpret_below (fun request => ?_) p⟩
      rw [← engine_ofDepth behaviour facade depth, ← engine_ofDepth behaviour facade (depth + 1)]
      exact Engine.answer_composed compositional_keeping shown
        (Engine.mutationPhase_keeping shown) request _ _ ih

/-- A greater depth has greater means. -/
theorem ofDepth_extends {depth depth' : Nat} (h : depth ≤ depth') :
    (ofDepth behaviour facade depth).Extends (ofDepth behaviour facade depth') := by
  induction h with
  | refl => exact .refl _
  | step _ ih => exact ih.trans (ofDepth_extends_succ behaviour facade _)

end Means

theorem Keeping.deeper {run : Means H → Run H α} (hrun : Keeping run) {behaviour : Behaviour H}
    {facade : Facade} {depth depth' : Nat} (hle : depth ≤ depth') {s : State H} {r : α × State H}
    (h : run (.ofDepth behaviour facade depth) s = some r) :
    run (.ofDepth behaviour facade depth') s = some r :=
  hrun _ _ (Means.ofDepth_extends behaviour facade hle) s r h

end ObjectBootstrap
