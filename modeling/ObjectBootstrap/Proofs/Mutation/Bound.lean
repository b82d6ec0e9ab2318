import ObjectBootstrap.Proofs.Course.Plans
import ObjectBootstrap.Proofs.Mutation.FixedPoint
import ObjectBootstrap.Proofs.Mutation.Search

/-!
# The registry mutation phase comes to an end

Each pass may register mutators while it works through those that there were, so the set that the
phase works on may grow with every step. What bounds the phase is that a name is taken once. If no
more than a number of names are ever registered for mutators, each reiteration but the last one uses
up one of them, whatever is registered over the others.

That bounds the passes and not yet the phase: hooks and factories are programs of their own, and a
program that never returns is never left. If each call returns that the phase comes to, then so does
the phase, since nothing else in it takes forever (`mutationPhase_settles`).

## Main definitions

* `MutationCall`: The calls of hooks and factories that the phase comes to.

## Theorems

* `rounds_le_bound`: A phase that succeeds tells of no more passes than there can be.
* `search_settles`: A search comes to an end from each of its points on.
* `MutationCall.returns`: The calls of a phase that returned have returned.
* `mutationPhase_terminates`: The phase comes to an end, with a bound on its passes.
-/

namespace ObjectBootstrap

variable {H : Host}

/-- The calls of hooks and factories that the phase comes to from a state: by the external mutators,
    in its passes, and by the customizations. -/
inductive MutationCall (behaviour : Behaviour H) (facade shown : Facade) (config : Config)
    (externals : List (ExternalHook H.Content)) (s : State H) (call : Call H) : Prop
  | external {depth : Nat} :
    Run.Makes (fun m =>
        ((m.engine behaviour facade).mutateEach shown (externalMutators externals)).run)
      (.ofDepth behaviour facade depth) call s →
    MutationCall behaviour facade shown config externals s call
  | pass {depth : Nat} {pass : DiscoveryPass} {progress : Progress H} {w : State H} :
    ComesTo (Engine.ofDepth behaviour facade depth) shown config externals s pass progress w →
    Run.Makes (fun m => ((m.engine behaviour facade).discover shown config pass progress).run)
      (.ofDepth behaviour facade depth) call w →
    MutationCall behaviour facade shown config externals s call
  | customization {depth : Nat} {progress : Progress H} {u : State H} :
    ((Engine.ofDepth behaviour facade depth).mutateAll shown config externals).run s
      = some (.ok progress, u) →
    Run.Makes (fun m => ((m.engine behaviour facade).customizeEach shown
        (progress.mutators ++ externalCustomizers externals)).run)
      (.ofDepth behaviour facade depth) call u →
    MutationCall behaviour facade shown config externals s call

theorem length_reiterations (invoked : List (List String)) :
    ∀ number, (reiterations number invoked).length = invoked.length := by
  induction invoked with
  | nil => exact fun _ => rfl
  | cons first rest ih => exact fun number => congrArg Nat.succ (ih (number + 1))

section Search

variable {behaviour : Behaviour H} {facade shown : Facade} {config : Config}
  {externals : List (ExternalHook H.Content)} {s : State H} {bound : Nat}

-- What is left of a search, a pass and what is left behind it, as long as the means last.
theorem searchFrom_run {depth : Nat} {pass : DiscoveryPass} {progress : Progress H} {w : State H}
    (hroom : pass.position ≤ depth + 1) {m : Means H}
    (hm : (Means.ofDepth behaviour facade depth).Extends m) :
    ((m.engine behaviour facade).searchFrom shown config pass progress).run w
      = ((m.engine behaviour facade).discover shown config pass progress >>= fun next =>
          if pass.Ends progress next then pure next
          else (m.engine behaviour facade).searchFrom shown config pass.next next).run w := by
  have hlimit : depth ≤ m.limit := Means.limit_ofDepth behaviour facade depth ▸ hm.limit_le
  have hposition : pass.position ≤ (m.engine behaviour facade).limit + 1 :=
    hroom.trans (Nat.succ_le_succ hlimit)
  exact congrArg (fun attempt : Attempt H (Progress H) => attempt.run w)
    (Engine.searchFrom_eq hposition)

section Bounded

variable (hs : s.container.Consistent)
  (hnames : ∀ depth pass progress w,
    ComesTo (Engine.ofDepth behaviour facade depth) shown config externals s pass progress w →
      (mutatorNames s w).card ≤ bound)
include hs hnames

-- How far a search comes when there are so many names.
theorem position_le_bound {depth : Nat} {pass : DiscoveryPass} {progress : Progress H}
    {w : State H}
    (h : ComesTo (Engine.ofDepth behaviour facade depth) shown config externals s pass progress w) :
    pass.position ≤ bound + 2 :=
  (h.position_le_mutators (Engine.lawful_ofDepth behaviour facade depth) hs).trans
    (Nat.add_le_add_right (hnames depth pass progress w h) 2)

/-- A phase that succeeds tells of all its passes, and they are no more than there can be. -/
theorem rounds_le_bound {depth : Nat} {m : Mutation} {t : State H}
    (h : ((Engine.ofDepth behaviour facade depth).mutationPhase shown config externals).run s
      = some (.ok m, t)) :
    ∃ highest ordered again,
      m.rounds = ⟨.highest, highest⟩ :: ⟨.ordered, ordered⟩ :: reiterations 1 again ∧
      again.length ≤ bound + 1 ∧ m.rounds.length ≤ bound + 3 := by
  rcases mutationPhase_run h with ⟨last, u, hsearch, _, rfl⟩
  rcases Engine.mutateAll_sweeps hsearch with ⟨_, sweeps, _, hsweeps, hwhole, _⟩
  rcases hwhole with ⟨highest, ordered, again, _, hshape⟩
  have hrounds : last.rounds = ⟨.highest, highest⟩ :: ⟨.ordered, ordered⟩
      :: reiterations 1 (again ++ [[]]) := hsweeps.progress_extends.rounds_eq.trans hshape
  -- The last pass is one that the search came to, and no such pass is too far.
  rcases ComesTo.last_pass hsearch with ⟨pass, before, v, hcomes, hpass⟩
  have hlength : last.rounds.length ≤ bound + 3 := by
    rcases Engine.discover_mutators hpass with ⟨hooks, hhooks⟩
    rw [(Engine.discover_extends hpass hhooks).rounds_eq, List.length_append,
      hcomes.rounds_length]
    exact Nat.succ_le_succ (position_le_bound hs hnames hcomes)
  refine ⟨highest, ordered, again ++ [[]], hrounds, ?_, hlength⟩
  rw [hrounds, List.length_cons, List.length_cons, length_reiterations] at hlength
  omega

variable (hcalls : ∀ call : Call H, MutationCall behaviour facade shown config externals s call →
  call.Returns behaviour facade)
include hcalls

/-- A search comes to an end from each of its points on. The induction is on how many passes may be
    left. -/
theorem search_settles (left : Nat) :
    ∀ {depth : Nat} {pass : DiscoveryPass} {progress : Progress H} {w : State H},
      pass.position + left = bound + 3 → bound + 2 ≤ depth →
      ComesTo (Engine.ofDepth behaviour facade depth) shown config externals s pass progress w →
      Settles behaviour facade depth
        (fun m => ((m.engine behaviour facade).searchFrom shown config pass progress).run) w := by
  induction left with
  | zero =>
      intro depth pass progress w hleft _ hcomes
      have hposition := position_le_bound hs hnames hcomes
      omega
  | succ left ih =>
      intro depth pass progress w hleft hdepth hcomes
      have hroom : pass.position ≤ depth + 1 := by omega
      refine .congr (fun m hm => (searchFrom_run hroom hm).symm) (.attempt ?_ ?_)
      · refine (Engine.discover_composed compositional_planned shown config pass progress).settles
          fun deeper hdeeper call hmakes => ?_
        exact hcalls call (.pass (hcomes.deeper hdeeper) hmakes)
      · intro deeper hdeeper next v hrun
        by_cases hends : pass.Ends progress next
        · simp only [if_pos hends]
          exact .of_eq fun _ _ => rfl
        · simp only [if_neg hends]
          refine ih ?_ (hdepth.trans hdeeper) ((hcomes.deeper hdeeper).next ?_ hends)
          · rw [DiscoveryPass.position_next]
            omega
          · rw [← Means.engine_ofDepth]
            exact hrun _ (.refl _)

/-- The phase comes to an end. -/
theorem mutationPhase_settles :
    Settles behaviour facade 0
      (fun m => ((m.engine behaviour facade).mutationPhase shown config externals).run) s := by
  refine .attempt (.attempt ?_ ?_) ?_
  · refine (Engine.mutateEach_composed compositional_planned shown _).settles
      fun depth _ call hmakes => ?_
    exact hcalls call (.external hmakes)
  · intro depth _ _ u hexternals
    -- The search may need greater depth than the external mutators did.
    refine .mono (Nat.le_max_left depth (bound + 2)) ?_
    refine search_settles hs hnames hcalls (bound + 3) (Nat.zero_add _)
      (Nat.le_max_right depth (bound + 2)) (.first ?_)
    rw [← Means.engine_ofDepth]
    exact hexternals _ (Means.ofDepth_extends behaviour facade (Nat.le_max_left _ _))
  · intro depth _ progress u hsearch
    refine .attempt ?_ fun _ _ _ _ _ => .of_eq fun _ _ => rfl
    refine (Engine.customizeEach_composed compositional_planned shown _).settles
      fun deeper hdeeper call hmakes => ?_
    refine hcalls call (.customization ?_ hmakes)
    rw [← Means.engine_ofDepth]
    exact hsearch _ (Means.ofDepth_extends behaviour facade hdeeper)

end Bounded

end Search

-- The first one of two attempts has a result if both of them do.
theorem Attempt.first_returned {α β : Type} {first : Attempt H α} {second : α → Attempt H β}
    {s : State H} {r : Except Error β × State H} (h : (first >>= second).run s = some r) :
    ∃ r', first.run s = some r' := by
  rcases Attempt.run_bind_eq_some_iff.1 h with ⟨_, hfirst, _⟩ | ⟨_, _, hfirst, _⟩
  · exact ⟨_, hfirst⟩
  · exact ⟨_, hfirst⟩

/-- The calls that a phase comes to have returned if it did. -/
theorem MutationCall.returns {behaviour : Behaviour H} {facade shown : Facade} {config : Config}
    {externals : List (ExternalHook H.Content)} {s : State H} {call : Call H}
    (h : MutationCall behaviour facade shown config externals s call) {depth : Nat}
    {r : Except Error Mutation × State H}
    (hphase : ((Engine.ofDepth behaviour facade depth).mutationPhase shown config externals).run s
      = some r) : call.Returns behaviour facade := by
  have hdeeper : ∀ depth', ((Engine.ofDepth behaviour facade (max depth' depth)).mutationPhase shown
      config externals).run s = some r :=
    fun depth' => Engine.mutationPhase_deeper (Nat.le_max_right depth' depth) hphase
  cases h with
  | @external depth' hmakes =>
      rcases Attempt.first_returned (hdeeper depth') with ⟨_, hsearch⟩
      rcases Attempt.first_returned hsearch with ⟨_, hexternals⟩
      rw [← Means.engine_ofDepth] at hexternals
      exact hmakes.returns (Nat.le_max_left depth' depth) hexternals
  | @pass depth' pass progress w hcomes hmakes =>
      rcases Attempt.first_returned (hdeeper depth') with ⟨_, hsearch⟩
      rw [(hcomes.deeper (Nat.le_max_left depth' depth)).mutateAll_run,
        ← Means.engine_ofDepth] at hsearch
      rw [Engine.searchFrom_eq (Engine.position_le_of_run hsearch)] at hsearch
      rcases Attempt.first_returned hsearch with ⟨_, hpass⟩
      exact hmakes.returns (Nat.le_max_left depth' depth) hpass
  | @customization depth' progress u hsearch hmakes =>
      have hrest := hdeeper depth'
      rw [← Means.engine_ofDepth] at hsearch hrest
      have hlate := (Engine.mutateAll_keeping shown config externals).deeper
        (Nat.le_max_left depth' depth) hsearch
      rw [Engine.mutationPhase, Attempt.run_bind_of_ok hlate] at hrest
      rcases Attempt.first_returned hrest with ⟨_, hcustomize⟩
      exact hmakes.returns (Nat.le_max_left depth' depth) hcustomize

/-- The phase comes to an end if each call of a hook or a factory that it comes to does, and if
    there are no more names of mutators than a bound, however they come to be registered. Behind the
    passes for the higher tiers it makes one reiteration more than there are names at most, whether
    it succeeds or not, and a phase that succeeds tells of all its passes. -/
theorem mutationPhase_terminates (behaviour : Behaviour H) (facade shown : Facade) (config : Config)
    (externals : List (ExternalHook H.Content)) (s : State H) (bound : Nat)
    (hs : s.container.Consistent)
    (hcalls : ∀ call : Call H, MutationCall behaviour facade shown config externals s call →
      call.Returns behaviour facade)
    (hnames : ∀ depth pass progress w,
      ComesTo (Engine.ofDepth behaviour facade depth) shown config externals s pass progress w →
        (mutatorNames s w).card ≤ bound) :
    (∃ depth result t,
      (∀ deeper, depth ≤ deeper →
        ((Engine.ofDepth behaviour facade deeper).mutationPhase shown config externals).run s
          = some (result, t)) ∧
      ∀ m, result = .ok m → ∃ highest ordered again,
        m.rounds = ⟨.highest, highest⟩ :: ⟨.ordered, ordered⟩ :: reiterations 1 again ∧
        again.length ≤ bound + 1 ∧ m.rounds.length ≤ bound + 3) ∧
    ∀ depth pass progress w,
      ComesTo (Engine.ofDepth behaviour facade depth) shown config externals s pass progress w →
        progress.rounds.length + 1 ≤ bound + 3 ∧
        ∀ number, pass = .reiteration number → number ≤ bound + 1 := by
  refine ⟨?_, fun depth pass progress w h => ⟨?_, ?_⟩⟩
  · rcases mutationPhase_settles hs hnames hcalls with ⟨depth, _, ⟨result, t⟩, hrun⟩
    have hdeep : ∀ deeper, depth ≤ deeper →
        ((Engine.ofDepth behaviour facade deeper).mutationPhase shown config externals).run s
          = some (result, t) := by
      intro deeper hdeeper
      rw [← Means.engine_ofDepth]
      exact hrun _ (Means.ofDepth_extends behaviour facade hdeeper)
    refine ⟨depth, result, t, hdeep, ?_⟩
    rintro m rfl
    exact rounds_le_bound hs hnames (hdeep depth (Nat.le_refl _))
  · rw [h.rounds_length]
    exact Nat.succ_le_succ (position_le_bound hs hnames h)
  · rintro number rfl
    exact Nat.le_of_succ_le_succ (position_le_bound hs hnames h)

namespace Scenarios

/-- Mutators that register themselves and each other anew whenever they are called, in another
    place than before. -/
def reregistering : Behaviour host := { behaviour with
  mutate := fun _ => do
    let _ ← Prog.request (.register (mutator "first" ⟨.highest, none⟩ true))
    let _ ← Prog.request (.register (mutator "second" ⟨.highest, none⟩ true))
    return .ok () }

def restless : Definition Bool := mutator "first" ⟨.plain, none⟩ true

/-- A registry with one of them, in which whatever is there may be registered anew. -/
def reregistrable : State host :=
  (stateOf [restless]).withContainer
    { (stateOf [restless]).container with allowOverriding := true }

theorem rounds_of_reregistering :
    (((Engine.ofDepth reregistering .direct 3).mutationPhase .direct .standard []).run
      reregistrable).map
      (fun r => (r.1.toOption.map Mutation.rounds,
        decide (mutatorNames reregistrable r.2 ⊆ {"first", "second"})))
      = some (some [⟨.highest, []⟩, ⟨.ordered, []⟩, ⟨.reiteration 1, ["first"]⟩,
        ⟨.reiteration 2, ["second"]⟩, ⟨.reiteration 3, []⟩], true) := by
  decide +kernel

/-- Two mutators that register each other over and over are called once each, and the phase comes to
    an end after as many passes as there may be. -/
theorem reregistering_terminates : reregistrable.container.Consistent ∧
    ∃ depth t, ∃ m : Mutation,
      (∀ deeper, depth ≤ deeper →
        ((Engine.ofDepth reregistering .direct deeper).mutationPhase .direct .standard []).run
          reregistrable
          = some (.ok m, t)) ∧
      m.rounds = [⟨.highest, []⟩, ⟨.ordered, []⟩, ⟨.reiteration 1, ["first"]⟩,
        ⟨.reiteration 2, ["second"]⟩, ⟨.reiteration 3, []⟩] ∧
      m.rounds.length ≤ 2 + 3 := by
  rcases Option.map_eq_some_iff.1 rounds_of_reregistering with ⟨⟨result, t⟩, hphase, hreport⟩
  rcases Prod.mk.inj hreport with ⟨hreported, hsubset⟩
  have hconsistent : reregistrable.container.Consistent :=
    (stateOf_consistent (by decide : ([restless].map fun d => d.name).Nodup)).congr rfl rfl rfl
  have hcalls : ∀ call, MutationCall reregistering .direct .direct .standard [] reregistrable call →
      call.Returns reregistering .direct := fun call hcall => hcall.returns hphase
  have hnames : ∀ depth pass progress w,
      ComesTo (Engine.ofDepth reregistering .direct depth) .direct .standard [] reregistrable pass
        progress w → (mutatorNames reregistrable w).card ≤ 2 := by
    intro depth pass progress w hcomes
    exact Finset.card_le_card ((hcomes.mutatorNames_returned hphase).trans
      (of_decide_eq_true hsubset))
  rcases mutationPhase_terminates reregistering .direct .direct .standard [] reregistrable 2
    hconsistent hcalls hnames with
    ⟨⟨depth, result', t', hdeep, hrounds⟩, _⟩
  -- At a depth that suffices for both, the two results are one.
  have hsame : some (result', t') = some (result, t) :=
    (hdeep _ (Nat.le_max_left depth 3)).symm.trans
      (Engine.mutationPhase_deeper (Nat.le_max_right depth 3) hphase)
  cases hsame
  rcases Option.map_eq_some_iff.1 hreported with ⟨m, hm, hlist⟩
  cases result with
  | error e => cases hm
  | ok m' =>
      cases hm
      rcases hrounds m rfl with ⟨_, _, _, _, _, hlength⟩
      exact ⟨hconsistent, depth, t, m, hdeep, hlist, hlength⟩

end Scenarios

end ObjectBootstrap
