import ObjectBootstrap.Proofs.Container.Standing
import ObjectBootstrap.Proofs.Customization.ExactlyOnce

/-!
# Mutators that come too late

Every mutator is a customizer as well. The mutation phase looks for mutators until there are none
left, and customizes with those that it has called. A customizer that registers a mutator then does
so behind the last search: nobody calls the newcomer to mutate, and the customization phase, which
looks for customizers and only leaves out what was called before, calls it to customize.

This is the one way in which it happens. A name that the customization phase calls, and that belongs
to a mutator at any later moment, was stored as that mutator behind the search.

## Theorems

* `Engine.mutateAll_settled`: What a search calls and what it leaves behind.
* `customized_mutators`: What is called to customize has mutated, or was stored behind the search.
-/

namespace ObjectBootstrap

variable {H : Host}

namespace CapabilityQuery

variable {F : Type}

-- The queries of the two phases ask for the same apart from the capability.
theorem admits_mutator {config : Config} {d : Definition F}
    (h : config.customizerQuery.admits d = true)
    (hmutates : d.hasCapability .mutatesRegistry = true) :
    config.mutatorQuery.admits d = true := by
  unfold admits Config.customizerQuery at h
  unfold admits Config.mutatorQuery
  rw [Bool.and_eq_true] at h ⊢
  exact ⟨h.1, hmutates⟩

end CapabilityQuery

namespace Engine

variable {E : Engine H} {shown : Facade} {config : Config}

/-- A successful search tells of the mutators that it calls, and leaves no name that a query for
    mutators answers and that it did not take. -/
theorem mutateAll_settled {externals : List (ExternalHook H.Content)} {last : Progress H}
    {s t : State H} (h : (E.mutateAll shown config externals).run s = some (.ok last, t)) :
    last.mutators.map Prod.fst = last.mutationOrder ∧
      ∀ name ∈ (t.container.namesFor config.mutatorQuery).1,
        last.processed.contains name = true := by
  rcases mutateAll_sweeps h with ⟨u, sweeps, hexternals, hsweeps, _, hsettled⟩
  have hprogress := hsweeps.progress_extends
  have hmutators : last.mutators = externalMutators externals ++ sweeps.flatMap Sweep.hooks :=
    hprogress.mutators_eq
  have horder : last.mutationOrder = (externalMutators externals).map Prod.fst
      ++ (sweeps.flatMap Sweep.hooks).map Prod.fst := hprogress.order_eq
  refine ⟨?_, hsettled⟩
  rw [hmutators, List.map_append, horder]

end Engine

/-- Both phases, one after the other and under the same configuration. The run falls into a search,
    in which hooks are called to mutate, and a rest, in which all of them are called to customize,
    and behind them the external customizers and the hooks that the second phase finds. If one of
    the latter names belongs to a mutator at any moment behind the first phase, then the definition
    of this mutator was stored after the search had come to its end. -/
theorem customized_mutators (behaviour : Behaviour H) (facade shown : Facade) (depth : Nat)
    (config : Config) (externals : List (ExternalHook H.Content)) {s t u : State H} {m : Mutation}
    {order : List String} (hs : s.container.Consistent)
    (hm : ((Engine.ofDepth behaviour facade depth).mutationPhase shown config externals).run s
      = some (.ok m, t))
    (hc : ((Engine.ofDepth behaviour facade depth).customizationPhase shown config
      m.processed).run t = some (.ok order, u)) :
    ∃ (hooks later : List (String × Object H.Content)) (v : State H),
      hooks.map Prod.fst = m.mutationOrder ∧ later.map Prod.fst = order ∧
      since s u = since s v ++ since v u ∧
      phaseCalls (since s v) = mutations hooks ∧
      phaseCalls (since v u) = customizations (hooks ++ externalCustomizers externals ++ later) ∧
      ∀ name ∈ order, ∀ w d, Course Anything t w →
        w.container.definitions.get? name = some d → d.hasCapability .mutatesRegistry = true →
          (name, d) ∈ stores (since v w) := by
  have hE : (Engine.ofDepth behaviour facade depth).Lawful :=
    Engine.lawful_ofDepth behaviour facade depth
  rcases mutationPhase_run hm with ⟨progress, v, hsearch, hcustomize, rfl⟩
  rcases Engine.mutateAll_settled hsearch with ⟨hnames, hsettled⟩
  rcases Engine.customizationPhase_perm hE hc with ⟨hperm, later, hlater, hcustomizes⟩
  have hmutations := Engine.mutateAll_turns hE hsearch
  have hfirst := Engine.customizeEach_turns hcustomize
  have hboth := hfirst.followedBy hcustomizes
  have hsv : Course Anything s v := hmutations.course hE
  have hvt : Course Anything v t := hfirst.course hE
  refine ⟨progress.mutators, later, v, hnames, hlater, hsv.since_followedBy (hboth.course hE),
    hmutations.calls hE, ?_, ?_⟩
  · rw [hboth.calls hE, customizations_append _ later]
  · intro name hname w d htw hd hmutates
    rcases List.mem_filter.1 (hperm.mem_iff.1 hname) with ⟨hanswer, huntaken⟩
    rw [stores_followedBy hvt htw, List.mem_append]
    -- What was not stored behind the search stands as the search left it, and there it would have
    -- been taken.
    rcases htw.definition_of_stores hd with ht | hstored
    · rcases hvt.definition_of_stores ht with hv | hstored
      · rcases ((hsv.followedBy hvt).consistent hs).mem_namesFor_iff.1 hanswer with
          ⟨e, he, hadmits⟩
        have hsame : e = d := Option.some.inj (he.symm.trans ht)
        have htaken : progress.processed.contains name = true :=
          hsettled name ((hsv.consistent hs).mem_namesFor_iff.2
            ⟨d, hv, CapabilityQuery.admits_mutator (hsame ▸ hadmits) hmutates⟩)
        rw [htaken] at huntaken
        cases huntaken
      · exact Or.inl hstored
    · exact Or.inr hstored

namespace Scenarios

/-- As `behaviour`, except that a recruiter registers one more mutator when it customizes. -/
def registeringLate : Behaviour host := { behaviour with
  customize := fun active =>
    if active then do
      let _ ← Prog.request (.register (mutator "lateMutator" {} false))
      return .ok ()
    else return .ok () }

abbrev lateEngine : Engine host := Engine.ofDepth registeringLate .direct 3

theorem withRecruiter_consistent : withRecruiter.container.Consistent :=
  stateOf_consistent (by decide)

/-- The hook that an entry calls to mutate. -/
def mutated? : Activity host → Option String
  | .entered (.mutate name _) => some name
  | _ => none

/-- The hook that an entry calls to customize. -/
def customized? : Activity host → Option String
  | .entered (.customize name _) => some name
  | _ => none

/-- Both phases, one after the other, with the state between them. -/
def latePhases : Attempt host (Mutation × State host × List String) := do
  let m ← lateEngine.mutationPhase .direct .standard externals
  let t ← get
  let order ← lateEngine.customizationPhase .direct .standard m.processed
  return (m, t, order)

theorem calls_of_latePhases : (latePhases.run withRecruiter).map (fun r =>
    (r.1.toOption.map fun r =>
        (r.2.2, r.2.1.container.typeMatch "lateMutator" .mutatesRegistry),
      (since withRecruiter r.2).filterMap mutated?,
        (since withRecruiter r.2).filterMap customized?))
      = some (some (["lateMutator"], true), ["externalMutator", "recruiter", "recruit"],
        ["externalMutator", "recruiter", "recruit", "externalCustomizer", "lateMutator"]) := by
  decide +kernel

-- The runs of the two phases.
theorem runs_of_latePhases {m : Mutation} {t : State host} {order : List String} {s u : State host}
    (h : latePhases.run s = some (.ok (m, t, order), u)) :
    (lateEngine.mutationPhase .direct .standard externals).run s
      = some (.ok m, t) ∧
    (lateEngine.customizationPhase .direct .standard m.processed).run t
      = some (.ok order, u) := by
  rcases Attempt.run_bind_eq_ok_iff.1 h with ⟨_, _, hm, h⟩
  rcases Attempt.run_bind_eq_ok_iff.1 h with ⟨_, _, hget, h⟩
  cases hget
  rcases Attempt.run_bind_eq_ok_iff.1 h with ⟨_, _, hc, h⟩
  cases h
  exact ⟨hm, hc⟩

-- What the two phases come to.
theorem latePhases_withRecruiter : ∃ (m : Mutation) (t u : State host),
    (lateEngine.mutationPhase .direct .standard externals).run withRecruiter
      = some (.ok m, t) ∧
    (lateEngine.customizationPhase .direct .standard m.processed).run t
      = some (.ok ["lateMutator"], u) ∧
    t.container.typeMatch "lateMutator" .mutatesRegistry = true ∧
    (since withRecruiter u).filterMap mutated? = ["externalMutator", "recruiter", "recruit"] ∧
    (since withRecruiter u).filterMap customized?
      = ["externalMutator", "recruiter", "recruit", "externalCustomizer", "lateMutator"] := by
  rcases Option.map_eq_some_iff.1 calls_of_latePhases with ⟨⟨r, u⟩, hrun, hcalls⟩
  cases r with
  | error e => cases congrArg Prod.fst hcalls
  | ok r =>
      obtain ⟨m, t, order⟩ := r
      have hanswer := Option.some.inj (congrArg Prod.fst hcalls)
      have horder : order = ["lateMutator"] := congrArg Prod.fst hanswer
      subst horder
      rcases runs_of_latePhases hrun with ⟨hm, hc⟩
      exact ⟨m, t, u, hm, hc, congrArg Prod.snd hanswer, congrArg (fun r => r.2.1) hcalls,
        congrArg (fun r => r.2.2) hcalls⟩

/-- The late mutator is called to customize because it was stored behind the search. -/
theorem lateMutator_stored : ∃ (m : Mutation) (t u v : State host)
    (d : Definition Bool),
    (lateEngine.mutationPhase .direct .standard externals).run withRecruiter
      = some (.ok m, t) ∧
    (lateEngine.customizationPhase .direct .standard m.processed).run t
      = some (.ok ["lateMutator"], u) ∧
    withRecruiter.container.Consistent ∧
    since withRecruiter u = since withRecruiter v ++ since v u ∧
    t.container.definitions.get? "lateMutator" = some d ∧
    d.hasCapability .mutatesRegistry = true ∧
    ("lateMutator", d) ∈ stores (since v t) := by
  rcases latePhases_withRecruiter with ⟨m, t, u, hm, hc, hmutator, _, _⟩
  rcases customized_mutators registeringLate .direct .direct 3 .standard externals
    withRecruiter_consistent hm hc with
    ⟨_, _, v, _, _, hparts, _, _, hlate⟩
  rcases (Option.any_eq_true _ _).1 hmutator with ⟨d, hd, hmutates⟩
  exact ⟨m, t, u, v, d, hm, hc, withRecruiter_consistent, hparts, hd, hmutates,
    hlate "lateMutator" (List.mem_singleton_self _) t d (.rest t) hd hmutates⟩

/-- The late mutator is a mutator when the second phase calls it to customize, and nobody ever calls
    it to mutate. -/
theorem lateMutator_not_mutated : ∃ (m : Mutation) (t u : State host),
    (lateEngine.mutationPhase .direct .standard externals).run withRecruiter
      = some (.ok m, t) ∧
    (lateEngine.customizationPhase .direct .standard m.processed).run t
      = some (.ok ["lateMutator"], u) ∧
    withRecruiter.container.Consistent ∧
    t.container.typeMatch "lateMutator" .mutatesRegistry = true ∧
    "lateMutator" ∈ (since withRecruiter u).filterMap customized? ∧
    "lateMutator" ∉ (since withRecruiter u).filterMap mutated? := by
  rcases latePhases_withRecruiter with ⟨m, t, u, hm, hc, hmutator, hmutated, hcustomized⟩
  refine ⟨m, t, u, hm, hc, withRecruiter_consistent, hmutator, ?_, ?_⟩
  · rw [hcustomized]
    decide
  · rw [hmutated]
    decide

end Scenarios

end ObjectBootstrap
