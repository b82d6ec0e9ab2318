import ObjectBootstrap.Proofs.Mutation.Passes

/-!
# The registry mutation phase reaches a fixed point

Mutators may register mutators, so the phase works on a set that changes under its hands. Whatever
the hooks and factories do, a phase that succeeds has called each mutator once, has told what it
did, and has left no mutator behind: when the first factory is customized, every name that a query
for mutators answers was taken.

## Theorems

* `mutationPhase_run`: The phase as a search that is followed by customizations.
* `mutationPhase_fixed_point`: What a successful phase did.
-/

namespace ObjectBootstrap

variable {H : Host}

/-- A successful phase is a search for mutators, and behind it the customizations by all mutators
    and the external customizers. -/
theorem mutationPhase_run {E : Engine H} {shown : Facade} {config : Config}
    {externals : List (ExternalHook H.Content)} {s t : State H} {m : Mutation}
    (h : (E.mutationPhase shown config externals).run s = some (.ok m, t)) :
    ∃ progress u, (E.mutateAll shown config externals).run s = some (.ok progress, u) ∧
      (E.customizeEach shown (progress.mutators ++ externalCustomizers externals)).run u
        = some (.ok (), t) ∧
      m = {
        processed := progress.processed
        rounds := progress.rounds
        mutationOrder := progress.mutationOrder
        customizationOrder :=
          (progress.mutators ++ externalCustomizers externals).map Prod.fst } := by
  rcases Attempt.run_bind_eq_ok_iff.1 h with ⟨progress, u, hsearch, hrest⟩
  rcases Attempt.run_bind_eq_ok_iff.1 hrest with ⟨_, v, hcustomize, hpure⟩
  cases hpure
  exact ⟨progress, u, hsearch, hcustomize, rfl⟩

-- The names of the rounds are those of the hooks that were called in them.
theorem flatMap_invoked_round (sweeps : List (Sweep H)) :
    (sweeps.map Sweep.round).flatMap Round.invoked
      = (sweeps.flatMap Sweep.hooks).map Prod.fst := by
  rw [List.flatMap_map, List.map_flatMap]
  rfl

/-- What a successful phase did. Its rounds are those of a whole search, no name stands in them
    twice, the names that were taken are those that stand in them, and the external mutators come
    in front of them in the order of mutation. Each mutator was called once to mutate the registry,
    and after all of them each was called once more, the same object, to customize the factory,
    with the external customizers behind them. In each of the calls the program of the hook was run
    and did not fail, and beside the calls there were only builds. At the moment of the first
    customization a query for mutators answers only names that were taken. -/
theorem mutationPhase_fixed_point (behaviour : Behaviour H) (facade shown : Facade) (depth : Nat)
    (config : Config) (externals : List (ExternalHook H.Content)) {s t : State H} {m : Mutation}
    (h : ((Engine.ofDepth behaviour facade depth).mutationPhase shown config externals).run s
      = some (.ok m, t)) :
    WholeSearch m.rounds ∧
    (m.rounds.flatMap Round.invoked).Nodup ∧
    (∀ name, m.processed.contains name = true ↔ name ∈ m.rounds.flatMap Round.invoked) ∧
    m.mutationOrder
      = (externalMutators externals).map Prod.fst ++ m.rounds.flatMap Round.invoked ∧
    m.customizationOrder = m.mutationOrder ++ (externalCustomizers externals).map Prod.fst ∧
    ∃ (hooks : List (String × Object H.Content)) (u : State H),
      externalMutators externals <+: hooks ∧
      hooks.map Prod.fst = m.mutationOrder ∧
      phaseCalls (since s t)
        = mutations hooks ++ customizations (hooks ++ externalCustomizers externals) ∧
      phaseCalls (since s u) = mutations hooks ∧
      (Engine.ofDepth behaviour facade depth).Turns shown (mutations hooks) s (.ok ()) u ∧
      ((Engine.ofDepth behaviour facade depth).customizeEach shown
        (hooks ++ externalCustomizers externals)).run u = some (.ok (), t) ∧
      (Engine.ofDepth behaviour facade depth).Turns shown
        (customizations (hooks ++ externalCustomizers externals)) u (.ok ()) t ∧
      ∀ name ∈ (u.container.namesFor config.mutatorQuery).1,
        m.processed.contains name = true := by
  have hE : (Engine.ofDepth behaviour facade depth).Lawful :=
    Engine.lawful_ofDepth behaviour facade depth
  rcases mutationPhase_run h with ⟨progress, u, hsearch, hcustomize, rfl⟩
  rcases Engine.mutateAll_sweeps hsearch with ⟨v, sweeps, hexternals, hsweeps, hwhole, hsettled⟩
  have hprogress := hsweeps.progress_extends
  have hrounds : progress.rounds = sweeps.map Sweep.round := hprogress.rounds_eq
  have hdiscovered : progress.rounds.flatMap Round.invoked
      = (sweeps.flatMap Sweep.hooks).map Prod.fst := by
    rw [hrounds, flatMap_invoked_round]
  have hperm : progress.processed.names.Perm (progress.rounds.flatMap Round.invoked) := by
    rw [hdiscovered]
    exact hprogress.processed_perm
  have horder : progress.mutationOrder = (externalMutators externals).map Prod.fst
      ++ progress.rounds.flatMap Round.invoked := by
    rw [hdiscovered]
    exact hprogress.order_eq
  have hmutators : progress.mutators = externalMutators externals
      ++ sweeps.flatMap Sweep.hooks := hprogress.mutators_eq
  have hnames : progress.mutators.map Prod.fst = progress.mutationOrder := by
    rw [hmutators, List.map_append, horder, hdiscovered]
  have hmutations := Engine.mutateAll_turns hE hsearch
  have hcustomizations := Engine.customizeEach_turns hcustomize
  refine ⟨hrounds ▸ hwhole, ?_, ?_, horder, ?_, progress.mutators, u, ?_, hnames,
    (hmutations.followedBy hcustomizations).calls hE, hmutations.calls hE, hmutations, hcustomize,
    hcustomizations, hsettled⟩
  · exact hperm.nodup_iff.1 (hprogress.processed_nodup List.nodup_nil)
  · intro name
    rw [Processed.contains_iff]
    exact hperm.mem_iff
  · rw [← hnames, List.map_append]
  · rw [hmutators]
    exact List.prefix_append _ _

/-- What an attempt answers when it succeeds. -/
def answer? {α : Type} (result : Option (Except Error α × State H)) : Option α :=
  result.bind fun r => r.1.toOption

theorem eq_ok_of_toOption {α : Type} {result : Except Error α} {a : α}
    (h : result.toOption = some a) : result = .ok a := by
  cases result with
  | error e => cases h
  | ok b => rw [Option.some.inj h]

theorem exists_of_answer? {α : Type} {result : Option (Except Error α × State H)} {a : α}
    (h : answer? result = some a) : ∃ t, result = some (.ok a, t) := by
  rcases Option.bind_eq_some_iff.1 h with ⟨⟨r, t⟩, rfl, hr⟩
  cases eq_ok_of_toOption hr
  exact ⟨t, rfl⟩

theorem exists_ok_of_answer? {α : Type} {result : Except Error α} {t : State H}
    (h : (answer? (some (result, t))).isSome = true) : ∃ a, result = .ok a := by
  cases result with
  | error e => cases h
  | ok a => exact ⟨a, rfl⟩

namespace Scenarios

-- A small world: an object either is active, and registers a mutator when it mutates, or not.
abbrev host : Host := ⟨Bool, Bool, Unit⟩

def mutator (name : String) (placement : Placement) (active : Bool) : Definition Bool where
  name := name
  typeName := name
  placement := placement
  capabilities := [.mutatesRegistry, .customizesFactory]
  maker := .hosted active

def behaviour : Behaviour host where
  make active _ := .done (.ok active)
  mutate active :=
    if active then do
      let _ ← Prog.request (.register (mutator "recruit" ⟨.highest, none⟩ false))
      return .ok ()
    else return .ok ()
  customize _ := .done (.ok ())
  merge _ _ d := .done (.ok d)
  intercept _ _ object _ := .done (.ok (some object))
  notify _ _ := .done ()

/-- A new registry with some definitions in it. -/
def stateOf (definitions : List (Definition Bool)) : State host where
  container := .holding definitions
  store := ()

theorem stateOf_consistent {definitions : List (Definition Bool)}
    (h : (definitions.map fun d => d.name).Nodup) :
    (stateOf definitions).container.Consistent :=
  Container.consistent_holding h

def externals : List (ExternalHook Bool) :=
  [⟨"externalMutator", true, ⟨"externalMutator", 100, .hosted false⟩⟩,
    ⟨"externalCustomizer", false, ⟨"externalCustomizer", 101, .hosted false⟩⟩]

def withRecruiter : State host := stateOf [mutator "recruiter" ⟨.ordered, some 3⟩ true]

def customizer (name : String) (placement : Placement) : Definition Bool where
  name := name
  typeName := name
  placement := placement
  capabilities := [.customizesFactory]
  maker := .hosted false

/-- As `behaviour`, except that a recruiter registers a customizer when it customizes. -/
def registeringCustomizer : Behaviour host := { behaviour with
  customize := fun active =>
    if active then do
      let _ ← Prog.request (.register (customizer "late" ⟨.ordered, none⟩))
      return .ok ()
    else return .ok () }

abbrev registeringEngine : Engine host := Engine.ofDepth registeringCustomizer .direct 3

theorem rounds_of_withRecruiter :
    ((registeringEngine.mutationPhase .direct .standard externals).run withRecruiter).map
      (fun r => (r.1.toOption.map Mutation.rounds, r.2.container.definitions.names))
      = some (some [⟨.highest, []⟩, ⟨.ordered, ["recruiter"]⟩, ⟨.reiteration 1, ["recruit"]⟩,
        ⟨.reiteration 2, []⟩], ["recruiter", "recruit", "late"]) := by
  decide +kernel

/-- A recruiter is called in the pass for the ordered tiers, and what it registers there waits for
    the first reiteration. It is called once more to customize, and it registers a customizer. -/
theorem recruiter_fixed_point : ∃ (m : Mutation) (t : State host),
    (registeringEngine.mutationPhase .direct .standard externals).run withRecruiter
      = some (.ok m, t) ∧
    m.rounds.flatMap Round.invoked = ["recruiter", "recruit"] ∧
    m.mutationOrder = ["externalMutator", "recruiter", "recruit"] ∧
    m.customizationOrder = ["externalMutator", "recruiter", "recruit", "externalCustomizer"] ∧
    (∃ (hooks : List (String × Object Bool)) (u : State host),
      hooks.map Prod.fst = ["externalMutator", "recruiter", "recruit"] ∧
      registeringEngine.Turns .direct (mutations hooks) withRecruiter (.ok ()) u ∧
      registeringEngine.Turns .direct
        (customizations (hooks ++ externalCustomizers (H := host) externals)) u (.ok ()) t) ∧
    withRecruiter.container.definitions.names = ["recruiter"] ∧
    t.container.definitions.names = ["recruiter", "recruit", "late"] := by
  rcases Option.map_eq_some_iff.1 rounds_of_withRecruiter with ⟨⟨result, t⟩, ht, hreport⟩
  rcases Prod.mk.inj hreport with ⟨hresult, hnames⟩
  rcases Option.map_eq_some_iff.1 hresult with ⟨m, hm, hrounds⟩
  cases result with
  | error e => cases hm
  | ok m' =>
      cases hm
      rcases mutationPhase_fixed_point registeringCustomizer .direct .direct 3 .standard externals
        ht with ⟨_, _, _, horder, hcustomized, hooks, u, _, hhooks, _, _, hfirst, _, hsecond, _⟩
      rw [hrounds] at horder
      refine ⟨m, t, ht, ?_, horder, ?_, ⟨hooks, u, hhooks.trans horder, hfirst, hsecond⟩, rfl,
        hnames⟩
      · rw [hrounds]
        rfl
      · rw [hcustomized, horder]
        rfl

end Scenarios

end ObjectBootstrap
