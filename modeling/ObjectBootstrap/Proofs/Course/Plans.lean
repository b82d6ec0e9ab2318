import ObjectBootstrap.Proofs.Course.Deeper

/-!
# The calls that a run comes to

A run that is out of depth has come to a call that needs more of it, and everything in front of this
call is settled. The run itself has no result then, and so no state to look at. But a run that is
put together of programs can be told as a plan, in which the programs stand as they are (`Plan`),
and a plan says which of them it comes to, in which states, with some means (`Plan.Makes`).

A plan is finite wherever it leads. So if every call that it comes to returns at some depth, there
is one depth for all of them, and the plan settles (`Plan.settles`).

## Main definitions

* `Call`, `Call.Returns`: A program that is run in a state, and whether it returns there.
* `Plan`, `Plan.run`, `Plan.Makes`: A run that is put together of programs, and the calls in it.
* `Run.Makes`: The calls that a run comes to.
* `Settles`: A run has a result at some depth and the same with all greater means.

## Theorems

* `compositional_planned`: Whatever is put together of programs has a plan.
* `Settles.bind`, `Settles.attempt`: Runs one behind the other.
* `Plan.settles`: A plan settles if its calls return.
* `Plan.returned`: The calls of a plan returned if the plan did.
-/

namespace ObjectBootstrap

variable {H : Host} {α β : Type}

/-- A program that is run in a state. -/
structure Call (H : Host) where
  {Result : Type}
  shown : Facade
  program : Prog H Result
  state : State H

/-- A call comes to an end, at some depth. -/
def Call.Returns (call : Call H) (behaviour : Behaviour H) (facade : Facade) : Prop :=
  ∃ depth r, (Means.ofDepth behaviour facade depth).run call.shown call.program call.state = some r

/-- A run that is put together of programs and of runs that always return. -/
inductive Plan (H : Host) : Type → Type 1
  | fixed {α : Type} (run : Run H α) (htotal : run.Total) : Plan H α
  | bind {α β : Type} (first : Plan H α) (next : α → Plan H β) : Plan H β
  | program {α : Type} (shown : Facade) (p : Prog H α) : Plan H α

namespace Plan

/-- A plan is carried out with some means. -/
def run (m : Means H) : {α : Type} → Plan H α → Run H α
  | _, fixed run _ => run
  | _, bind first next => first.run m >>= fun a => (next a).run m
  | _, program shown p => m.run shown p

/-- A plan that is carried out from a state comes to a call. -/
def Makes (m : Means H) (call : Call H) : {α : Type} → Plan H α → State H → Prop
  | _, fixed _ _, _ => False
  | _, bind first next, s => first.Makes m call s ∨
    ∃ a t, first.run m s = some (a, t) ∧ (next a).Makes m call t
  | _, program shown p, s => call = ⟨shown, p, s⟩

end Plan

/-- A run has a plan. -/
def Planned (run : Means H → Run H α) : Prop := ∃ plan : Plan H α, ∀ m, plan.run m = run m

/-- Whatever is put together of programs has a plan. -/
theorem compositional_planned : Compositional (H := H) Planned where
  fixed htotal := ⟨.fixed _ htotal, fun _ => rfl⟩
  bind hfirst hnext := by
    rcases hfirst with ⟨first, hfirst⟩
    refine ⟨.bind first fun a => (hnext a).choose, fun m => ?_⟩
    simp only [Plan.run, hfirst, (hnext _).choose_spec]
  program shown p := ⟨.program shown p, fun _ => rfl⟩

/-- A run comes to a call from a state, as a plan of it tells. -/
def Run.Makes (run : Means H → Run H α) (m : Means H) (call : Call H) (s : State H) : Prop :=
  ∃ plan : Plan H α, (∀ m, plan.run m = run m) ∧ plan.Makes m call s

/-- A run has a result at some depth behind a given one, and the same with all greater means. -/
def Settles (behaviour : Behaviour H) (facade : Facade) (depth : Nat) (run : Means H → Run H α)
    (s : State H) : Prop :=
  ∃ deeper, depth ≤ deeper ∧ ∃ r, ∀ m,
    (Means.ofDepth behaviour facade deeper).Extends m → run m s = some r

section Settling

variable {behaviour : Behaviour H} {facade : Facade} {depth : Nat} {s : State H}

namespace Settles

theorem of_eq {run : Means H → Run H α} {r : α × State H}
    (h : ∀ m, (Means.ofDepth behaviour facade depth).Extends m → run m s = some r) :
    Settles behaviour facade depth run s :=
  ⟨depth, Nat.le_refl _, r, h⟩

theorem mono {run : Means H → Run H α} {depth' : Nat} (hle : depth ≤ depth')
    (h : Settles behaviour facade depth' run s) : Settles behaviour facade depth run s := by
  rcases h with ⟨deeper, hdeeper, hr⟩
  exact ⟨deeper, Nat.le_trans hle hdeeper, hr⟩

theorem congr {run run' : Means H → Run H α}
    (heq : ∀ m, (Means.ofDepth behaviour facade depth).Extends m → run m s = run' m s)
    (h : Settles behaviour facade depth run s) : Settles behaviour facade depth run' s := by
  rcases h with ⟨deeper, hdeeper, r, hr⟩
  refine ⟨deeper, hdeeper, r, fun m hm => ?_⟩
  rw [← heq m ((Means.ofDepth_extends behaviour facade hdeeper).trans hm)]
  exact hr m hm

/-- A run settles, and what follows it settles from where it ends. -/
theorem bind {run : Means H → Run H α} {next : α → Means H → Run H β}
    (hrun : Settles behaviour facade depth run s)
    (hnext : ∀ deeper, depth ≤ deeper → ∀ a t,
      (∀ m, (Means.ofDepth behaviour facade deeper).Extends m → run m s = some (a, t)) →
        Settles behaviour facade deeper (next a) t) :
    Settles behaviour facade depth (fun m => run m >>= fun a => next a m) s := by
  rcases hrun with ⟨deeper, hdeeper, ⟨a, t⟩, hr⟩
  rcases hnext deeper hdeeper a t hr with ⟨deepest, hdeepest, r, hrest⟩
  refine ⟨deepest, Nat.le_trans hdeeper hdeepest, r, fun m hm => ?_⟩
  have hfirst : run m s = some (a, t) :=
    hr m ((Means.ofDepth_extends behaviour facade hdeepest).trans hm)
  change (run m s).bind (fun r => next r.1 m r.2) = some r
  rw [hfirst, Option.bind_some]
  exact hrest m hm

/-- The same for attempts: an error settles what follows. -/
theorem attempt {first : Means H → Attempt H α} {next : α → Means H → Attempt H β}
    (hfirst : Settles behaviour facade depth (fun m => (first m).run) s)
    (hnext : ∀ deeper, depth ≤ deeper → ∀ a t,
      (∀ m, (Means.ofDepth behaviour facade deeper).Extends m →
        (first m).run s = some (.ok a, t)) →
        Settles behaviour facade deeper (fun m => (next a m).run) t) :
    Settles behaviour facade depth (fun m => (first m >>= fun a => next a m).run) s := by
  simp only [ExceptT.run_bind]
  refine bind hfirst fun deeper hdeeper result t hr => ?_
  match result with
  | .error e => exact of_eq fun _ _ => rfl
  | .ok a => exact hnext deeper hdeeper a t hr

end Settles

/-- A plan settles if the calls that it comes to return. -/
theorem Plan.settles (plan : Plan H α) : ∀ (depth : Nat) (s : State H),
    (∀ deeper, depth ≤ deeper → ∀ call,
      plan.Makes (.ofDepth behaviour facade deeper) call s → call.Returns behaviour facade) →
    Settles behaviour facade depth (fun m => plan.run m) s := by
  induction plan with
  | fixed run htotal =>
      intro depth s _
      rcases htotal s with ⟨r, hr⟩
      exact .of_eq fun _ _ => hr
  | program shown p =>
      intro depth s hcalls
      rcases hcalls depth (Nat.le_refl _) ⟨shown, p, s⟩ rfl with ⟨deeper, r, hr⟩
      refine ⟨max depth deeper, Nat.le_max_left _ _, r, fun m hm => ?_⟩
      have hdeeper := Means.ofDepth_extends behaviour facade (Nat.le_max_right depth deeper)
      exact (hdeeper.trans hm).run_below shown p s r hr
  | bind first next ihfirst ihnext =>
      intro depth s hcalls
      refine .bind (ihfirst depth s fun deeper hdeeper call hmakes =>
        hcalls deeper hdeeper call (.inl hmakes)) fun deeper hdeeper a t hr => ?_
      refine ihnext a deeper t fun deepest hdeepest call hmakes => ?_
      -- What follows is made in the state that the first part settles on.
      refine hcalls deepest (Nat.le_trans hdeeper hdeepest) call (.inr ⟨a, t, ?_, hmakes⟩)
      exact hr _ (Means.ofDepth_extends behaviour facade hdeepest)

/-- So does every run that has a plan. -/
theorem Planned.settles {run : Means H → Run H α} (hrun : Planned run)
    (hcalls : ∀ deeper, depth ≤ deeper → ∀ call,
      Run.Makes run (.ofDepth behaviour facade deeper) call s → call.Returns behaviour facade) :
    Settles behaviour facade depth run s := by
  rcases hrun with ⟨plan, hplan⟩
  refine .congr (fun m _ => congrFun (hplan m) s) (plan.settles depth s ?_)
  exact fun deeper hdeeper call hmakes => hcalls deeper hdeeper call ⟨plan, hplan, hmakes⟩

theorem Plan.keeping (plan : Plan H α) : Keeping fun m => plan.run m := by
  induction plan with
  | fixed run htotal => exact compositional_keeping.fixed htotal
  | program shown p => exact compositional_keeping.program shown p
  | bind first next ihfirst ihnext => exact compositional_keeping.bind ihfirst ihnext

/-- The calls that a plan comes to returned if the plan did. -/
theorem Plan.returned {m m' : Means H} (hm : m.Extends m') {call : Call H} (plan : Plan H α) :
    ∀ {s : State H} {r : α × State H}, plan.Makes m call s → plan.run m' s = some r →
      ∃ r', m'.run call.shown call.program call.state = some r' := by
  induction plan with
  | fixed run htotal => exact fun hmakes => absurd hmakes id
  | program shown p =>
      intro s r hmakes hr
      cases hmakes
      exact ⟨r, hr⟩
  | bind first next ihfirst ihnext =>
      intro s r hmakes hr
      rcases Run.bind_eq_some_iff.1 hr with ⟨a, t, hfirst, hnext⟩
      rcases hmakes with hmakes | ⟨a', t', hearly, hmakes⟩
      · exact ihfirst hmakes hfirst
      · -- The first part has one result, here and with greater means.
        have hsame : some (a', t') = some (a, t) :=
          (first.keeping m m' hm s _ hearly).symm.trans hfirst
        cases hsame
        exact ihnext a hmakes hnext

/-- The calls that a run comes to returned if the run did. -/
theorem Run.Makes.returns {run : Means H → Run H α} {call : Call H} {deeper : Nat}
    (hmakes : Run.Makes run (.ofDepth behaviour facade depth) call s) (hle : depth ≤ deeper)
    {r : α × State H} (h : run (.ofDepth behaviour facade deeper) s = some r) :
    call.Returns behaviour facade := by
  rcases hmakes with ⟨plan, hplan, hmakes⟩
  rw [← hplan] at h
  exact ⟨deeper, plan.returned (Means.ofDepth_extends behaviour facade hle) hmakes h⟩

end Settling

end ObjectBootstrap
