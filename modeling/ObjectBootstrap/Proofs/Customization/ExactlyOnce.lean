import Mathlib.Data.List.Nodup
import ObjectBootstrap.Proofs.Customization.Tiers

/-!
# Every customizer is called exactly once

The mutation phase calls its mutators as customizers, and the customization phase calls the other
customizers. The two look for their hooks by different queries and at different times, and all that
one tells the other is which names it took. This is enough: a name that answers the query for
customizers was either taken, and then it was called by the first phase, or it was not, and then it
is called by the second one. Neither phase calls a name twice that it found itself, and the second
one leaves out all that the first one called. Nothing of this depends on what the hooks do to the
definitions in the meantime.

## Main definitions

* `EntryPoint.isCustomize`: Whether an entry point is that of a customizer.

## Theorems

* `Engine.mutationPhase_taken`: What a mutation phase took, and which calls it made.
* `customizations_exactly_once`: Both phases together.
-/

namespace ObjectBootstrap

variable {H : Host}

/-- Whether an entry point is that of a customizer. -/
def EntryPoint.isCustomize : EntryPoint H → Bool
  | .customize _ _ => true
  | _ => false

theorem filter_mutations (hooks : List (String × Object H.Content)) :
    (mutations hooks).filter EntryPoint.isCustomize = [] := by
  rw [List.filter_eq_nil_iff]
  intro point hpoint
  rcases List.mem_map.1 hpoint with ⟨entry, _, rfl⟩
  exact Bool.false_ne_true

theorem filter_customizations (hooks : List (String × Object H.Content)) :
    (customizations hooks).filter EntryPoint.isCustomize = customizations hooks := by
  rw [List.filter_eq_self]
  intro point hpoint
  rcases List.mem_map.1 hpoint with ⟨entry, _, rfl⟩
  rfl

/-- A successful mutation phase took the names that stand in its rounds, each once, and called them
    as customizers between the external mutators and the external customizers. -/
theorem Engine.mutationPhase_taken {E : Engine H} (hE : E.Lawful) {shown : Facade}
    {config : Config} {externals : List (ExternalHook H.Content)} {s t : State H} {m : Mutation}
    (h : (E.mutationPhase shown config externals).run s = some (.ok m, t)) :
    Course Anything s t ∧
    ∃ taken, taken.map Prod.fst = m.rounds.flatMap Round.invoked ∧
      (taken.map Prod.fst).Nodup ∧
      (∀ name, m.processed.contains name = true ↔ name ∈ taken.map Prod.fst) ∧
      m.customizationOrder
        = (externalMutators externals ++ taken ++ externalCustomizers externals).map Prod.fst ∧
      (phaseCalls (since s t)).filter EntryPoint.isCustomize
        = customizations
          (externalMutators externals ++ taken ++ externalCustomizers externals) := by
  rcases mutationPhase_run h with ⟨progress, v, hsearch, hcustomize, rfl⟩
  rcases mutateAll_sweeps hsearch with ⟨u, sweeps, hexternals, hsweeps, _, _⟩
  have hprogress := hsweeps.progress_extends
  have hmutators : progress.mutators = externalMutators externals
      ++ sweeps.flatMap Sweep.hooks := hprogress.mutators_eq
  have hperm : progress.processed.names.Perm ((sweeps.flatMap Sweep.hooks).map Prod.fst) :=
    hprogress.processed_perm
  have hturns := (mutateAll_turns hE hsearch).followedBy (customizeEach_turns hcustomize)
  refine ⟨hturns.course hE, sweeps.flatMap Sweep.hooks, ?_, ?_, ?_, ?_, ?_⟩
  · change _ = progress.rounds.flatMap Round.invoked
    have hrounds : progress.rounds = sweeps.map Sweep.round := hprogress.rounds_eq
    rw [hrounds, flatMap_invoked_round]
  · exact hperm.nodup_iff.1 (hprogress.processed_nodup List.nodup_nil)
  · intro name
    rw [Processed.contains_iff]
    exact hperm.mem_iff
  · rw [hmutators]
  · -- Only the calls behind the search are customizations.
    rw [hturns.calls hE, List.filter_append, filter_mutations, filter_customizations, hmutators]
    rfl

/-- Both phases, one after the other and under the same configuration. The hooks that the mutation
    phase found stand in its order of customization between the external ones. No name that one of
    the phases found stands twice in their orders, and every name that a query for customizers
    answers when the second phase begins stands there once. And each entry of the two orders is one
    call of a customizer. -/
theorem customizations_exactly_once (behaviour : Behaviour H) (facade shown : Facade)
    (depth : Nat) (config : Config) (externals : List (ExternalHook H.Content))
    {s t u : State H} {m : Mutation} {order : List String} (hs : s.container.Consistent)
    (hm : ((Engine.ofDepth behaviour facade depth).mutationPhase shown config externals).run s
      = some (.ok m, t))
    (hc : ((Engine.ofDepth behaviour facade depth).customizationPhase shown config
      m.processed).run t = some (.ok order, u)) :
    m.customizationOrder = (externalMutators externals).map Prod.fst
      ++ m.rounds.flatMap Round.invoked ++ (externalCustomizers externals).map Prod.fst ∧
    (m.rounds.flatMap Round.invoked ++ order).Nodup ∧
    (∀ name ∈ (t.container.namesFor config.customizerQuery).1,
      (m.rounds.flatMap Round.invoked ++ order).count name = 1) ∧
    ∃ hooks : List (String × Object H.Content),
      hooks.map Prod.fst = m.customizationOrder ++ order ∧
      (phaseCalls (since s u)).filter EntryPoint.isCustomize = customizations hooks := by
  have hE : (Engine.ofDepth behaviour facade depth).Lawful :=
    Engine.lawful_ofDepth behaviour facade depth
  rcases Engine.mutationPhase_taken hE hm with
    ⟨hcourse, taken, htaken, hnodup, hprocessed, horder, hcalls⟩
  rcases Engine.customizationPhase_perm hE hc with ⟨hperm, others, hothers, hlater⟩
  have ht : t.container.Consistent := hcourse.consistent hs
  have hnames : (t.container.namesFor config.customizerQuery).1.Nodup :=
    (ht.namesFor_sublist _).nodup ht.names_nodup
  rw [← htaken]
  -- What the second phase calls was not taken by the first one.
  have hmem : ∀ name, name ∈ order ↔
      name ∈ (t.container.namesFor config.customizerQuery).1 ∧ name ∉ taken.map Prod.fst := by
    intro name
    rw [hperm.mem_iff, List.mem_filter, ← hprocessed, Bool.not_eq_true', Bool.not_eq_true]
  have hboth : (taken.map Prod.fst ++ order).Nodup := by
    rw [List.nodup_append]
    refine ⟨hnodup, hperm.nodup_iff.2 (hnames.filter _), ?_⟩
    intro a ha b hb hab
    exact ((hmem b).1 hb).2 (hab ▸ ha)
  refine ⟨?_, hboth, ?_, ?_⟩
  · rw [horder, List.map_append, List.map_append]
  · intro name hname
    refine List.count_eq_one_of_mem hboth (List.mem_append.2 ?_)
    by_cases hold : name ∈ taken.map Prod.fst
    · exact Or.inl hold
    · exact Or.inr ((hmem name).2 ⟨hname, hold⟩)
  · refine ⟨externalMutators externals ++ taken ++ externalCustomizers externals ++ others, ?_, ?_⟩
    · rw [List.map_append, ← horder, hothers]
    · rw [phaseCalls_followedBy hcourse (hlater.course hE), List.filter_append, hcalls,
        hlater.calls hE, filter_customizations, customizations_append _ others]

namespace Scenarios

def mixedHooks : State host :=
  stateOf [mutator "recruiter" ⟨.ordered, some 3⟩ true, customizer "plain" {},
    customizer "highest" ⟨.highest, none⟩]

/-- Both phases, one after the other. -/
def bothPhases : Attempt host (Mutation × List String) := do
  let m ← registeringEngine.mutationPhase .direct .standard externals
  let order ← registeringEngine.customizationPhase .direct .standard m.processed
  return (m, order)

theorem orders_of_bothPhases :
    (answer? (bothPhases.run mixedHooks)).map (fun r => (r.1.rounds.flatMap Round.invoked, r.2))
      = some (["recruiter", "recruit"], ["highest", "late", "plain"]) := by
  decide +kernel

theorem mixedHooks_consistent : mixedHooks.container.Consistent :=
  stateOf_consistent (by decide)

/-- The recruit and the late customizer were not there at the beginning. Both are called once, the
    recruit by the first phase and the late customizer by the second one. -/
theorem mixedHooks_exactly_once : ∃ (m : Mutation) (t : State host) (order : List String)
    (u : State host),
    (registeringEngine.mutationPhase .direct .standard externals).run mixedHooks
      = some (.ok m, t) ∧
    (registeringEngine.customizationPhase .direct .standard m.processed).run t
      = some (.ok order, u) ∧
    mixedHooks.container.Consistent ∧
    (["recruiter", "recruit"] ++ ["highest", "late", "plain"]).Nodup ∧
    m.customizationOrder = ["externalMutator", "recruiter", "recruit", "externalCustomizer"] ∧
    ∃ hooks : List (String × Object Bool),
      hooks.map Prod.fst
        = ["externalMutator", "recruiter", "recruit", "externalCustomizer", "highest", "late",
          "plain"] ∧
      (phaseCalls (since mixedHooks u)).filter EntryPoint.isCustomize = customizations hooks := by
  rcases Option.map_eq_some_iff.1 orders_of_bothPhases with ⟨⟨m, order⟩, hphases, horders⟩
  rcases exists_of_answer? hphases with ⟨u, hrun⟩
  rcases Attempt.run_bind_eq_ok_iff.1 hrun with ⟨_, t, hm, hrest⟩
  rcases Attempt.run_bind_eq_ok_iff.1 hrest with ⟨_, _, hc, hpure⟩
  cases hpure
  have hinvoked : m.rounds.flatMap Round.invoked = ["recruiter", "recruit"] :=
    congrArg Prod.fst horders
  have hlater : order = ["highest", "late", "plain"] := congrArg Prod.snd horders
  rcases customizations_exactly_once registeringCustomizer .direct .direct 3 .standard externals
    mixedHooks_consistent hm hc with ⟨horder, hnodup, _, hooks, hnames, hcalls⟩
  rw [hinvoked] at horder hnodup
  rw [hlater] at hnodup hnames
  exact ⟨m, t, order, u, hm, hc, mixedHooks_consistent, hnodup, horder, hooks,
    hnames.trans (congrArg (fun names => names ++ ["highest", "late", "plain"]) horder), hcalls⟩

end Scenarios

end ObjectBootstrap
