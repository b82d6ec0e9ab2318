import ObjectBootstrap.Proofs.Container.Consistency
import ObjectBootstrap.Proofs.Mutation.Calls
import ObjectBootstrap.Proofs.Order

/-!
# Discovery passes, one after the other

A successful search for registry mutators is a sequence of passes, each of which starts in the state
that the one before it left. `Sweeps` is that sequence. It forgets how the phase loops, so that what
one pass does to the progress is proved once, in `Engine.discover_extends`, and carried over
any number of passes by `Sweeps.progress_extends`.

A pass may register mutators while it builds and calls others, and these wait for a later pass. A
pass that admits every tier and finds nothing has therefore seen only names that were taken before,
and has left the registry as it found it. That is why the search may stop there
(`Engine.discover_settled`).

## Main definitions

* `Config.mutatorQuery`: The query by which registry mutators are looked for.
* `Sweep`, `Sweeps`: A pass as it was made, and passes one after the other.
* `Progress.Extends`: What passes add to the progress.
* `WholeSearch`: The rounds of a whole search.

## Theorems

* `Engine.run_take_cons`: What becomes of the first name that a pass looks at.
* `Engine.discover_extends`: What one pass adds.
* `Sweeps.progress_extends`, `Sweeps.turns`: What a sequence of passes adds, and which hooks it
  calls.
* `Engine.reiterate_sweeps`: The reiterations as a sequence of passes.
* `Engine.mutateAll_sweeps`, `Engine.mutateAll_turns`: The search as a sequence of passes, and the
  hooks that it calls.
-/

namespace ObjectBootstrap

variable {H : Host}

/-- The query by which registry mutators are looked for. -/
def Config.mutatorQuery (config : Config) : CapabilityQuery :=
  ⟨.mutatesRegistry, config.includeNonSingletons, config.allowEagerInit⟩

namespace Processed

theorem contains_iff (p : Processed) (name : String) : p.contains name = true ↔ name ∈ p.names :=
  List.contains_iff_mem

theorem names_insert {p : Processed} {name : String} (h : p.contains name = false) :
    (p.insert name).2.names = p.names ++ [name] := by
  rw [insert, h]
  rfl

end Processed

/-- The hooks of a batch in running order. -/
def running (batch : List (Ranked (Object H.Content))) : List (String × Object H.Content) :=
  (sortRanked batch).map fun ranked => (ranked.name, ranked.hook)

theorem running_names (batch : List (Ranked (Object H.Content))) :
    (running batch).map Prod.fst = (sortRanked batch).map Ranked.name := by
  rw [running, List.map_map]
  rfl

/-- The progress after one more pass. -/
def Progress.advance (progress : Progress H) (pass : DiscoveryPass) (processed : Processed)
    (hooks : List (String × Object H.Content)) : Progress H where
  processed := processed
  rounds := progress.rounds ++ [⟨pass, hooks.map Prod.fst⟩]
  mutationOrder := progress.mutationOrder ++ hooks.map Prod.fst
  mutators := progress.mutators ++ hooks

/-- What passes add to the progress: rounds, and the hooks that were called in them. -/
structure Progress.Extends (progress : Progress H) (rounds : List Round)
    (hooks : List (String × Object H.Content)) (next : Progress H) : Prop where
  rounds_eq : next.rounds = progress.rounds ++ rounds
  order_eq : next.mutationOrder = progress.mutationOrder ++ hooks.map Prod.fst
  mutators_eq : next.mutators = progress.mutators ++ hooks
  processed_perm : next.processed.names.Perm (progress.processed.names ++ hooks.map Prod.fst)
  processed_nodup : progress.processed.names.Nodup → next.processed.names.Nodup

namespace Progress.Extends

theorem refl (progress : Progress H) : progress.Extends [] [] progress := by
  refine ⟨?_, ?_, ?_, ?_, id⟩
  · rw [List.append_nil]
  · rw [List.map_nil, List.append_nil]
  · rw [List.append_nil]
  · rw [List.map_nil, List.append_nil]

theorem trans {progress next last : Progress H} {early late : List Round}
    {first second : List (String × Object H.Content)} (h1 : progress.Extends early first next)
    (h2 : next.Extends late second last) :
    progress.Extends (early ++ late) (first ++ second) last := by
  refine ⟨?_, ?_, ?_, ?_, fun h => h2.processed_nodup (h1.processed_nodup h)⟩
  · rw [h2.rounds_eq, h1.rounds_eq, List.append_assoc]
  · rw [h2.order_eq, h1.order_eq, List.map_append, List.append_assoc]
  · rw [h2.mutators_eq, h1.mutators_eq, List.append_assoc]
  · rw [List.map_append, ← List.append_assoc]
    exact h2.processed_perm.trans (h1.processed_perm.append_right _)

end Progress.Extends

namespace Engine

variable {E : Engine H} {shown : Facade} {config : Config}

/-- A name that a pass looks at was taken before, or is not admitted, or is built and taken. -/
theorem run_take_cons {pass : DiscoveryPass} {name : String} {rest : List String}
    {processed processed' : Processed} {batch : List (Ranked (Object H.Content))} {s t : State H}
    (h : (E.take shown pass (name :: rest) processed).run s
      = some (.ok (batch, processed'), t)) :
    (processed.contains name = true ∧
      (E.take shown pass rest processed).run s = some (.ok (batch, processed'), t)) ∨
    (processed.contains name = false ∧
      pass.admits (shown.classify s.container name).tier = false ∧
      (E.take shown pass rest processed).run s = some (.ok (batch, processed'), t)) ∨
    (processed.contains name = false ∧
      pass.admits (shown.classify s.container name).tier = true ∧
      ∃ hook u more,
        (E.buildHook shown .registryMutation .mutatesRegistry .mutator name).run s
          = some (.ok hook, u) ∧
        (E.take shown pass rest (processed.insert name).2).run u
          = some (.ok (more, processed'), t) ∧
        batch = ⟨name, shown.classify s.container name, hook⟩ :: more) := by
  unfold take at h
  cases hseen : processed.contains name with
  | true =>
      rw [hseen, if_pos rfl] at h
      exact Or.inl ⟨rfl, h⟩
  | false =>
      refine Or.inr ?_
      rw [hseen, if_neg Bool.false_ne_true] at h
      rcases Attempt.run_bind_eq_ok_iff.1 h with ⟨k, u, hcontainer, hrest⟩
      cases hcontainer
      cases hadmits : pass.admits (shown.classify s.container name).tier with
      | false =>
          simp only [hadmits] at hrest
          exact Or.inl ⟨rfl, rfl, hrest⟩
      | true =>
          simp only [hadmits, if_true] at hrest
          rcases Attempt.run_bind_eq_ok_iff.1 hrest with ⟨hook, v, hbuild, hmore⟩
          rcases Attempt.run_bind_eq_ok_iff.1 hmore with ⟨⟨more, taken⟩, w, htake, hpure⟩
          cases hpure
          exact Or.inr ⟨rfl, rfl, hook, v, more, hbuild, htake, rfl⟩

-- A pass takes names that it was given and that were not taken before, each of them once.
theorem take_names {pass : DiscoveryPass} :
    ∀ {names : List String} {processed processed' : Processed}
      {batch : List (Ranked (Object H.Content))} {s t : State H},
      (E.take shown pass names processed).run s = some (.ok (batch, processed'), t) →
        processed'.names = processed.names ++ batch.map Ranked.name ∧
        (processed.names.Nodup → processed'.names.Nodup) ∧
        (batch.map Ranked.name).Sublist names := by
  intro names
  induction names with
  | nil =>
      intro processed processed' batch s t h
      cases h
      exact ⟨(List.append_nil _).symm, id, List.Sublist.refl _⟩
  | cons name rest ih =>
      intro processed processed' batch s t h
      rcases run_take_cons h with
        ⟨_, hrest⟩ | ⟨_, _, hrest⟩ | ⟨hnew, _, hook, u, more, _, hrest, rfl⟩
      · rcases ih hrest with ⟨hnames, hnodup, hsub⟩
        exact ⟨hnames, hnodup, hsub.cons name⟩
      · rcases ih hrest with ⟨hnames, hnodup, hsub⟩
        exact ⟨hnames, hnodup, hsub.cons name⟩
      · rcases ih hrest with ⟨hnames, hnodup, hsub⟩
        -- A new name is taken behind those that were taken before.
        rw [Processed.names_insert hnew] at hnames hnodup
        refine ⟨?_, fun hprocessed => hnodup ?_, ?_⟩
        · rw [hnames, List.append_assoc]
          rfl
        · rw [← Bool.not_eq_true, Processed.contains_iff] at hnew
          rw [List.nodup_append]
          refine ⟨hprocessed, List.pairwise_singleton _ name, fun a ha b hb heq => hnew ?_⟩
          rw [← List.mem_singleton.1 hb, ← heq]
          exact ha
        · rw [List.map_cons]
          exact hsub.cons_cons name

-- A pass that admits every tier and takes nothing has only seen names that were taken before.
theorem take_nothing {pass : DiscoveryPass} (hpass : ∀ tier, pass.admits tier = true) :
    ∀ {names : List String} {processed processed' : Processed} {s t : State H},
      (E.take shown pass names processed).run s = some (.ok ([], processed'), t) →
        t = s ∧ ∀ name ∈ names, processed'.contains name = true := by
  intro names
  induction names with
  | nil =>
      intro processed processed' s t h
      cases h
      exact ⟨rfl, fun name hmem => absurd hmem List.not_mem_nil⟩
  | cons name rest ih =>
      intro processed processed' s t h
      rcases run_take_cons h with
        ⟨hold, htake⟩ | ⟨_, hadmits, _⟩ | ⟨_, _, _, _, _, _, _, hbatch⟩
      · rcases ih htake with ⟨rfl, hrest⟩
        refine ⟨rfl, fun n hmem => ?_⟩
        rcases List.mem_cons.1 hmem with rfl | hmem
        · rw [Processed.contains_iff] at hold ⊢
          rw [(take_names htake).1]
          exact List.mem_append_left _ hold
        · exact hrest n hmem
      -- Every tier is admitted, and a name that was built would be in the batch.
      · rw [hpass] at hadmits
        cases hadmits
      · cases hbatch

-- The two halves of a pass: it takes a batch, and calls it in running order.
theorem run_discover_eq_ok {pass : DiscoveryPass} {progress next : Progress H} {s t : State H}
    (h : (E.discover shown config pass progress).run s = some (.ok next, t)) :
    ∃ batch processed u,
      (E.take shown pass (s.container.namesFor config.mutatorQuery).1 progress.processed).run
          (s.withContainer (s.container.namesFor config.mutatorQuery).2)
        = some (.ok (batch, processed), u) ∧
      (E.mutateEach shown (running batch)).run u = some (.ok (), t) ∧
      next = progress.advance pass processed (running batch) := by
  rcases Attempt.run_bind_eq_ok_iff.1 h with ⟨names, u, hnames, hrest⟩
  cases hnames
  rcases Attempt.run_bind_eq_ok_iff.1 hrest with ⟨⟨batch, processed⟩, v, htake, hcalls⟩
  rcases Attempt.run_bind_eq_ok_iff.1 hcalls with ⟨_, w, hcall, hpure⟩
  cases hpure
  exact ⟨batch, processed, v, htake, hcall, rfl⟩

-- The same, when it is told which hooks the pass called.
theorem run_discover_hooks {pass : DiscoveryPass} {progress next : Progress H} {s t : State H}
    {hooks : List (String × Object H.Content)}
    (h : (E.discover shown config pass progress).run s = some (.ok next, t))
    (hhooks : next.mutators = progress.mutators ++ hooks) :
    ∃ batch processed u,
      (E.take shown pass (s.container.namesFor config.mutatorQuery).1 progress.processed).run
          (s.withContainer (s.container.namesFor config.mutatorQuery).2)
        = some (.ok (batch, processed), u) ∧
      (E.mutateEach shown (running batch)).run u = some (.ok (), t) ∧
      hooks = running batch ∧ next = progress.advance pass processed (running batch) := by
  rcases run_discover_eq_ok h with ⟨batch, processed, u, htake, hcall, rfl⟩
  exact ⟨batch, processed, u, htake, hcall, (List.append_cancel_left hhooks).symm, rfl⟩

/-- What one pass adds to the progress. -/
theorem discover_extends {pass : DiscoveryPass} {progress next : Progress H} {s t : State H}
    {hooks : List (String × Object H.Content)}
    (h : (E.discover shown config pass progress).run s = some (.ok next, t))
    (hhooks : next.mutators = progress.mutators ++ hooks) :
    progress.Extends [⟨pass, hooks.map Prod.fst⟩] hooks next := by
  rcases run_discover_hooks h hhooks with ⟨batch, processed, u, htake, _, rfl, rfl⟩
  rcases take_names htake with ⟨hnames, hnodup, _⟩
  refine ⟨rfl, rfl, rfl, ?_, hnodup⟩
  change processed.names.Perm _
  rw [hnames, running_names]
  exact ((sortRanked_perm batch).map Ranked.name).symm.append_left _

-- One pass calls its hooks in turn, behind the query and the builds.
theorem discover_turns (hE : E.Lawful) {pass : DiscoveryPass} {progress next : Progress H}
    {s t : State H} {hooks : List (String × Object H.Content)}
    (h : (E.discover shown config pass progress).run s = some (.ok next, t))
    (hhooks : next.mutators = progress.mutators ++ hooks) :
    E.Turns shown (mutations hooks) s (.ok ()) t := by
  rcases run_discover_hooks h hhooks with ⟨batch, processed, u, htake, hcall, rfl, rfl⟩
  have hsearch : Course Activity.OfBuild s _ := .quiet (.search s config.mutatorQuery)
  have hbuilds : Course Activity.OfBuild s u := hsearch.followedBy
    (take_follows hE (fun _ => id) shown pass _ _ _ _ _ htake)
  exact .behind hbuilds (mutateEach_turns hcall)

/-- A pass that admits every tier and finds nothing leaves nothing to find. -/
theorem discover_settled {pass : DiscoveryPass} (hpass : ∀ tier, pass.admits tier = true)
    {progress next : Progress H} {s t : State H}
    (h : (E.discover shown config pass progress).run s = some (.ok next, t))
    (hnone : next.mutators.length = progress.mutators.length) :
    ∀ name ∈ (t.container.namesFor config.mutatorQuery).1,
      next.processed.contains name = true := by
  rcases run_discover_eq_ok h with ⟨batch, processed, u, htake, hcall, rfl⟩
  -- No hook was called, so none was taken either.
  have hbatch : batch = [] := by
    change (progress.mutators ++ running batch).length = _ at hnone
    rw [running, List.length_append, List.length_map, (sortRanked_perm batch).length_eq] at hnone
    exact List.length_eq_zero_iff.1 (by omega)
  subst hbatch
  rcases take_nothing hpass htake with ⟨rfl, hall⟩
  -- Nothing was built or called behind the query, so its answer stands.
  have hstay : t = s.withContainer (s.container.namesFor config.mutatorQuery).2 := by
    rw [running, sortRanked, List.mergeSort_nil] at hcall
    cases hcall
    rfl
  rw [hstay, State.withContainer_container, Container.namesFor_namesFor]
  exact hall

end Engine

/-- A pass as it was made: where it started from, and the hooks that it called. -/
structure Sweep (H : Host) where
  pass : DiscoveryPass
  start : State H
  before : Progress H
  hooks : List (String × Object H.Content)

/-- The names of the hooks that the pass called, in calling order. -/
def Sweep.invoked (sweep : Sweep H) : List String := sweep.hooks.map Prod.fst

/-- What is reported of the pass. -/
def Sweep.round (sweep : Sweep H) : Round := ⟨sweep.pass, sweep.invoked⟩

/-- Passes that are made one after the other, each from where the one before it ended. -/
inductive Sweeps (E : Engine H) (shown : Facade) (config : Config) :
    State H → Progress H → List (Sweep H) → State H → Progress H → Prop
  | done (s : State H) (progress : Progress H) : Sweeps E shown config s progress [] s progress
  | sweep {s u t : State H} {pass : DiscoveryPass} {progress next last : Progress H}
    {hooks : List (String × Object H.Content)} {later : List (Sweep H)} :
    (E.discover shown config pass progress).run s = some (.ok next, u) →
      next.mutators = progress.mutators ++ hooks →
      Sweeps E shown config u next later t last →
      Sweeps E shown config s progress (⟨pass, s, progress, hooks⟩ :: later) t last

/-- The rounds of reiterations, counted from a number on. -/
def reiterations : Nat → List (List String) → List Round
  | _, [] => []
  | number, invoked :: rest => ⟨.reiteration number, invoked⟩ :: reiterations (number + 1) rest

/-- The rounds of a whole search: the highest tier, the ordered tiers, and reiterations up to the
    first one that calls nothing. -/
def WholeSearch (rounds : List Round) : Prop :=
  ∃ highest ordered again, (∀ invoked ∈ again, invoked ≠ []) ∧
    rounds = ⟨.highest, highest⟩ :: ⟨.ordered, ordered⟩ :: reiterations 1 (again ++ [[]])

/-- The external hooks that mutate the registry, as supplied. -/
def externalMutators (externals : List (ExternalHook H.Content)) :
    List (String × Object H.Content) :=
  (externals.filter ExternalHook.mutates).map fun e => (e.name, e.hook)

/-- The external hooks that only customize the factory, as supplied. -/
def externalCustomizers (externals : List (ExternalHook H.Content)) :
    List (String × Object H.Content) :=
  (externals.filter fun e => !e.mutates).map fun e => (e.name, e.hook)

/-- The progress of a search in front of its first pass. -/
def Progress.initial (externals : List (ExternalHook H.Content)) : Progress H where
  mutationOrder := (externalMutators externals).map Prod.fst
  mutators := externalMutators externals

namespace Sweeps

variable {E : Engine H} {shown : Facade} {config : Config} {s t : State H}
  {progress last : Progress H} {sweeps : List (Sweep H)}

/-- What a sequence of passes adds to the progress. -/
theorem progress_extends (h : Sweeps E shown config s progress sweeps t last) :
    progress.Extends (sweeps.map Sweep.round) (sweeps.flatMap Sweep.hooks) last := by
  induction h with
  | done s progress => exact .refl progress
  | sweep hrun hhooks _ ih => exact (Engine.discover_extends hrun hhooks).trans ih

-- Each pass of a sequence has passes in front of it and behind it.
theorem split (h : Sweeps E shown config s progress sweeps t last) {sweep : Sweep H}
    (hmem : sweep ∈ sweeps) :
    ∃ early later next u, sweeps = early ++ sweep :: later ∧
      Sweeps E shown config s progress early sweep.start sweep.before ∧
      (E.discover shown config sweep.pass sweep.before).run sweep.start = some (.ok next, u) ∧
      next.mutators = sweep.before.mutators ++ sweep.hooks ∧
      Sweeps E shown config u next later t last := by
  induction h with
  | done s progress => exact absurd hmem List.not_mem_nil
  | @sweep s u t pass progress next last hooks later hrun hhooks hlater ih =>
      rcases List.mem_cons.1 hmem with rfl | hmem
      · exact ⟨[], later, next, u, rfl, .done s progress, hrun, hhooks, hlater⟩
      · rcases ih hmem with ⟨early, rest, next', u', hsplit, hearly, hrun', hhooks', hrest⟩
        refine ⟨⟨pass, s, progress, hooks⟩ :: early, rest, next', u', ?_,
          .sweep hrun hhooks hearly, hrun', hhooks', hrest⟩
        rw [hsplit, List.cons_append]

/-- The hooks that a sequence of passes calls: each of its own, in its order. -/
theorem turns (hE : E.Lawful) (h : Sweeps E shown config s progress sweeps t last) :
    E.Turns shown (mutations (sweeps.flatMap Sweep.hooks)) s (.ok ()) t := by
  induction h with
  | done s progress => exact .done (.rest s)
  | sweep hrun hhooks _ ih =>
      rw [List.flatMap_cons, mutations_append]
      exact (Engine.discover_turns hE hrun hhooks).followedBy ih

theorem course (hE : E.Lawful) (h : Sweeps E shown config s progress sweeps t last) :
    Course Anything s t :=
  (h.turns hE).course hE

end Sweeps

namespace Engine

variable {E : Engine H} {shown : Facade} {config : Config}

-- A pass keeps the mutators that were called before.
theorem discover_mutators {pass : DiscoveryPass} {progress next : Progress H} {s t : State H}
    (h : (E.discover shown config pass progress).run s = some (.ok next, t)) :
    ∃ hooks, next.mutators = progress.mutators ++ hooks := by
  rcases run_discover_eq_ok h with ⟨batch, _, _, _, _, rfl⟩
  exact ⟨running batch, rfl⟩

/-- Reiterations come to an end with one that calls nothing, and all of the earlier ones call
    something. After the last one nothing is left to find. -/
theorem reiterate_sweeps {limit : Nat} :
    ∀ {number : Nat} {progress last : Progress H} {s t : State H},
      (E.reiterate shown config limit number progress).run s = some (.ok last, t) →
        ∃ sweeps again, Sweeps E shown config s progress sweeps t last ∧
          (∀ invoked ∈ again, invoked ≠ []) ∧
          sweeps.map Sweep.round = reiterations number (again ++ [[]]) ∧
          ∀ name ∈ (t.container.namesFor config.mutatorQuery).1,
            last.processed.contains name = true := by
  induction limit with
  | zero =>
      intro number progress last s t h
      cases h
  | succ limit ih =>
      intro number progress last s t h
      rcases Attempt.run_bind_eq_ok_iff.1 h with ⟨next, u, hrun, hrest⟩
      rcases discover_mutators hrun with ⟨hooks, hhooks⟩
      -- A pass that finds nothing is the last one. Any other one is followed by more of them.
      by_cases hnone : next.mutators.length = progress.mutators.length
      · rw [if_pos hnone] at hrest
        cases hrest
        have hempty : hooks = [] := by
          rw [hhooks, List.length_append] at hnone
          exact List.length_eq_zero_iff.1 (by omega)
        refine ⟨_, [], .sweep hrun hhooks (.done _ _), ?_, ?_,
          discover_settled (fun _ => rfl) hrun hnone⟩
        · intro invoked hmem
          exact absurd hmem List.not_mem_nil
        · rw [hempty]
          rfl
      · rw [if_neg hnone] at hrest
        rcases ih hrest with ⟨sweeps, again, hsweeps, hagain, hrounds, hsettled⟩
        refine ⟨_, hooks.map Prod.fst :: again, .sweep hrun hhooks hsweeps, ?_, ?_, hsettled⟩
        · intro invoked hmem
          rcases List.mem_cons.1 hmem with rfl | hmem
          · intro hinvoked
            have hempty : hooks = [] := List.map_eq_nil_iff.1 hinvoked
            exact hnone (by rw [hhooks, hempty, List.append_nil])
          · exact hagain invoked hmem
        · rw [List.map_cons, hrounds]
          rfl

/-- A whole search calls the external mutators and goes on in passes until nothing is left to
    find. -/
theorem mutateAll_sweeps {externals : List (ExternalHook H.Content)} {last : Progress H}
    {s t : State H} (h : (E.mutateAll shown config externals).run s = some (.ok last, t)) :
    ∃ u sweeps, (E.mutateEach shown (externalMutators externals)).run s = some (.ok (), u) ∧
      Sweeps E shown config u (.initial externals) sweeps t last ∧
      WholeSearch (sweeps.map Sweep.round) ∧
      ∀ name ∈ (t.container.namesFor config.mutatorQuery).1,
        last.processed.contains name = true := by
  rcases Attempt.run_bind_eq_ok_iff.1 h with ⟨_, u, hexternals, hrest⟩
  rcases Attempt.run_bind_eq_ok_iff.1 hrest with ⟨afterHighest, v, hhighest, hrest⟩
  rcases Attempt.run_bind_eq_ok_iff.1 hrest with ⟨afterOrdered, w, hordered, hrest⟩
  rcases discover_mutators hhighest with ⟨highest, hmutators⟩
  rcases discover_mutators hordered with ⟨ordered, hmutators'⟩
  rcases reiterate_sweeps hrest with ⟨sweeps, again, hsweeps, hagain, hrounds, hsettled⟩
  refine ⟨u, _, hexternals, .sweep hhighest hmutators (.sweep hordered hmutators' hsweeps),
    ⟨highest.map Prod.fst, ordered.map Prod.fst, again, hagain, ?_⟩, hsettled⟩
  rw [List.map_cons, List.map_cons, hrounds]
  rfl

/-- A whole search calls the mutators that it tells of in turn. -/
theorem mutateAll_turns (hE : E.Lawful) {externals : List (ExternalHook H.Content)}
    {last : Progress H} {s t : State H}
    (h : (E.mutateAll shown config externals).run s = some (.ok last, t)) :
    E.Turns shown (mutations last.mutators) s (.ok ()) t := by
  rcases mutateAll_sweeps h with ⟨u, sweeps, hexternals, hsweeps, _⟩
  have hmutators : last.mutators = externalMutators externals ++ sweeps.flatMap Sweep.hooks :=
    hsweeps.progress_extends.mutators_eq
  rw [hmutators, mutations_append]
  exact (mutateEach_turns hexternals).followedBy (hsweeps.turns hE)

end Engine

end ObjectBootstrap
