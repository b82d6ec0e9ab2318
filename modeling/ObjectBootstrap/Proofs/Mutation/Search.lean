import ObjectBootstrap.Proofs.Course.Deeper
import ObjectBootstrap.Proofs.Container.Standing
import ObjectBootstrap.Proofs.Mutation.Passes
import Mathlib.Data.Finset.Card

/-!
# The points of a search

A search for mutators need not come to an end, so there may be no run of it to look at. What can be
looked at are the points in front of its passes, one after the other (`ComesTo`): the state there,
and the progress so far. They are there whatever becomes of the search later on.

At each point the whole search is what is left of it (`ComesTo.mutateAll_run`). The names that were
taken up to there are all names of mutators (`ComesTo.processed_subset`), and each reiteration that
was followed by another pass has taken one more of them (`ComesTo.position_le`). So a search that
has come far has seen many mutators.

## Main definitions

* `DiscoveryPass.position`, `DiscoveryPass.next`, `DiscoveryPass.Ends`: The order of the passes.
* `ComesTo`: The points in front of the passes of a search.
* `mutatorNames`: The names under which mutators were registered.
* `Engine.searchFrom`: What is left of a search in front of a pass.

## Theorems

* `ComesTo.mono`: Greater means come to the same points.
* `ComesTo.mutateAll_run`: The search from one of its points on.
* `ComesTo.mutatorNames_subset`: What was registered up to a point is not forgotten.
* `ComesTo.position_le_mutators`: No point is farther than there are names of mutators.
* `ComesTo.last_pass`: The last pass of a search that succeeds.
-/

namespace ObjectBootstrap

variable {H : Host}

namespace DiscoveryPass

/-- How many passes are made in front of a pass. -/
def position : DiscoveryPass → Nat
  | highest => 0
  | ordered => 1
  | reiteration number => number + 1

/-- The pass behind a pass. -/
def next : DiscoveryPass → DiscoveryPass
  | highest => ordered
  | ordered => reiteration 1
  | reiteration number => reiteration (number + 1)

@[simp] theorem position_next (pass : DiscoveryPass) : pass.next.position = pass.position + 1 := by
  cases pass <;> rfl

/-- A reiteration that has called nothing is the last pass. -/
def Ends : DiscoveryPass → Progress H → Progress H → Prop
  | highest, _, _ => False
  | ordered, _, _ => False
  | reiteration _, before, after => after.mutators.length = before.mutators.length

instance decidableEnds : ∀ (pass : DiscoveryPass) (before after : Progress H),
    Decidable (pass.Ends before after)
  | highest, _, _ => inferInstanceAs (Decidable False)
  | ordered, _, _ => inferInstanceAs (Decidable False)
  | reiteration _, _, _ => inferInstanceAs (Decidable (_ = _))

end DiscoveryPass

/-- The points that a search comes to, each in front of a pass. -/
inductive ComesTo (E : Engine H) (shown : Facade) (config : Config)
    (externals : List (ExternalHook H.Content)) (s : State H) :
    DiscoveryPass → Progress H → State H → Prop
  | first {u : State H} :
    (E.mutateEach shown (externalMutators externals)).run s = some (.ok (), u) →
      ComesTo E shown config externals s .highest (.initial externals) u
  | next {u v : State H} {pass : DiscoveryPass} {progress next : Progress H} :
    ComesTo E shown config externals s pass progress u →
      (E.discover shown config pass progress).run u = some (.ok next, v) →
      ¬pass.Ends progress next →
      ComesTo E shown config externals s pass.next next v

/-- The names under which mutators were registered up to a state: at the start and since then. -/
def mutatorNames (s t : State H) : Finset String :=
  (((s.container.definitions.entries ++ stores (since s t)).filter
    fun entry => entry.2.hasCapability .mutatesRegistry).map Prod.fst).toFinset

theorem mem_mutatorNames {s t : State H} {name : String} :
    name ∈ mutatorNames s t ↔ ∃ d,
      (name, d) ∈ s.container.definitions.entries ++ stores (since s t) ∧
        d.hasCapability .mutatesRegistry = true := by
  simp only [mutatorNames, List.mem_toFinset, List.mem_map, List.mem_filter, Prod.exists,
    exists_and_right, exists_eq_right]

-- Nothing that was registered is forgotten.
theorem mutatorNames_mono {may may' : Activity H → Prop} {s u t : State H} (h1 : Course may s u)
    (h2 : Course may' u t) : mutatorNames s u ⊆ mutatorNames s t := by
  intro name hname
  rcases mem_mutatorNames.1 hname with ⟨d, hd, hmutates⟩
  refine mem_mutatorNames.2 ⟨d, ?_, hmutates⟩
  rw [stores_followedBy h1 h2, ← List.append_assoc]
  exact List.mem_append_left _ hd

-- A definition that is found in a state was there at the start or was stored since then.
theorem Course.mem_mutatorNames {may : Activity H → Prop} {s t : State H} (h : Course may s t)
    {name : String} {d : Definition H.Factory} (hd : t.container.definitions.get? name = some d)
    (hmutates : d.hasCapability .mutatesRegistry = true) : name ∈ mutatorNames s t := by
  refine ObjectBootstrap.mem_mutatorNames.2 ⟨d, List.mem_append.2 ?_, hmutates⟩
  refine (h.definition_of_stores hd).imp_left fun hfirst => ?_
  rcases List.lookup_eq_some_iff.1 hfirst with ⟨early, late, hentries, _⟩
  rw [hentries]
  exact List.mem_append_right _ List.mem_cons_self

theorem Attempt.run_bind_of_ok {α β : Type} {first : Attempt H α} {second : α → Attempt H β}
    {s u : State H} {a : α} (h : first.run s = some (.ok a, u)) :
    (first >>= second).run s = (second a).run u := by
  rw [ExceptT.run_bind]
  change (first.run s).bind _ = _
  rw [h]
  rfl

namespace Engine

variable {E : Engine H} {shown : Facade} {config : Config}

-- The hooks that a pass calls are registered as mutators in front of it.
theorem discover_registered {pass : DiscoveryPass} {progress next : Progress H} {s t : State H}
    {hooks : List (String × Object H.Content)} (hs : s.container.Consistent)
    (h : (E.discover shown config pass progress).run s = some (.ok next, t))
    (hhooks : next.mutators = progress.mutators ++ hooks) :
    ∀ name ∈ hooks.map Prod.fst, ∃ d, s.container.definitions.get? name = some d ∧
      d.hasCapability .mutatesRegistry = true := by
  rcases run_discover_hooks h hhooks with ⟨batch, processed, u, htake, _, rfl, rfl⟩
  intro name hname
  rw [running_names, ((sortRanked_perm batch).map Ranked.name).mem_iff] at hname
  rcases hs.mem_namesFor_iff.1 ((take_names htake).2.2.subset hname) with ⟨d, hd, hadmits⟩
  exact ⟨d, hd, (Bool.and_eq_true_iff.1 hadmits).2⟩

/-- What is left of a search in front of a pass. -/
def searchFrom (E : Engine H) (shown : Facade) (config : Config) :
    DiscoveryPass → Progress H → Attempt H (Progress H)
  | .highest, progress => do
    let progress ← E.discover shown config .highest progress
    let progress ← E.discover shown config .ordered progress
    E.reiterate shown config E.limit 1 progress
  | .ordered, progress => do
    let progress ← E.discover shown config .ordered progress
    E.reiterate shown config E.limit 1 progress
  | .reiteration number, progress =>
    E.reiterate shown config (E.limit + 1 - number) number progress

/-- A search makes a pass and goes on behind it, as long as the means last. -/
theorem searchFrom_eq {pass : DiscoveryPass} {progress : Progress H}
    (hroom : pass.position ≤ E.limit + 1) :
    E.searchFrom shown config pass progress = (do
      let next ← E.discover shown config pass progress
      if pass.Ends progress next then return next
      else E.searchFrom shown config pass.next next) := by
  cases pass with
  | highest => rfl
  | ordered => rfl
  | reiteration number =>
      have hnumber : E.limit + 1 - number = (E.limit - number) + 1 :=
        Nat.sub_add_comm (Nat.le_of_succ_le_succ hroom)
      have hlater : E.limit + 1 - (number + 1) = E.limit - number := Nat.add_sub_add_right _ 1 _
      rw [searchFrom, hnumber, reiterate]
      simp only [searchFrom, DiscoveryPass.next, hlater]
      rfl

-- Behind the last pass that the means suffice for, there is no result.
theorem searchFrom_exhausted {pass : DiscoveryPass} {progress : Progress H} {s : State H}
    (hroom : E.limit + 1 < pass.position) :
    (E.searchFrom shown config pass progress).run s = none := by
  cases pass with
  | highest => exact absurd hroom (Nat.not_lt_zero _)
  | ordered => exact absurd hroom (by simp [DiscoveryPass.position])
  | reiteration number =>
      have hnumber : E.limit + 1 - number = 0 := Nat.sub_eq_zero_of_le (Nat.lt_succ_iff.1 hroom)
      rw [searchFrom, hnumber]
      rfl

-- A search that has a result has not run out of means.
theorem position_le_of_run {pass : DiscoveryPass} {progress : Progress H} {s : State H}
    {r : Except Error (Progress H) × State H}
    (h : (E.searchFrom shown config pass progress).run s = some r) :
    pass.position ≤ E.limit + 1 := by
  refine Nat.le_of_not_lt fun hfar => ?_
  rw [searchFrom_exhausted hfar] at h
  cases h

-- A pass leads from state to state along a course.
theorem discover_course (hE : E.Lawful) {pass : DiscoveryPass} {progress : Progress H}
    {result : Except Error (Progress H)} {s t : State H}
    (h : (E.discover shown config pass progress).run s = some (result, t)) : Course Anything s t :=
  discover_follows hE (fun _ _ => trivial) shown config pass (fun _ _ => trivial) progress _ _ _ h

theorem searchFrom_follows (hE : E.Lawful) : ∀ (pass : DiscoveryPass) (progress : Progress H),
    Attempt.Follows Anything (E.searchFrom shown config pass progress) := by
  have hdiscover : ∀ pass progress,
      Attempt.Follows Anything (E.discover shown config pass progress) :=
    fun _ _ _ _ _ h => discover_course hE h
  have hreiterate : ∀ limit number progress,
      Attempt.Follows Anything (E.reiterate shown config limit number progress) :=
    reiterate_along hE.keeps (Course.trail Anything) (asked_follows hE fun _ _ => trivial)
      (fun _ _ => trivial) shown config
  intro pass progress
  cases pass with
  | highest =>
      refine Attempt.follows_bind (hdiscover _ _) fun _ => ?_
      exact Attempt.follows_bind (hdiscover _ _) fun _ => hreiterate _ _ _
  | ordered =>
      exact Attempt.follows_bind (hdiscover _ _) fun _ => hreiterate _ _ _
  | reiteration number => exact hreiterate _ _ _

theorem mutationPhase_deeper {behaviour : Behaviour H} {facade : Facade} {depth depth' : Nat}
    (hle : depth ≤ depth') {externals : List (ExternalHook H.Content)} {s : State H}
    {r : Except Error Mutation × State H}
    (h : ((ofDepth behaviour facade depth).mutationPhase shown config externals).run s = some r) :
    ((ofDepth behaviour facade depth').mutationPhase shown config externals).run s = some r := by
  rw [← Means.engine_ofDepth] at h ⊢
  exact (mutationPhase_keeping shown config externals).deeper hle h

end Engine

namespace ComesTo

variable {E : Engine H} {shown : Facade} {config : Config}
  {externals : List (ExternalHook H.Content)} {s w : State H} {pass : DiscoveryPass}
  {progress : Progress H}

/-- Greater means come to the same points. -/
theorem mono {behaviour : Behaviour H} {facade : Facade} {m m' : Means H} (hm : m.Extends m')
    (h : ComesTo (m.engine behaviour facade) shown config externals s pass progress w) :
    ComesTo (m'.engine behaviour facade) shown config externals s pass progress w := by
  induction h with
  | first hfirst =>
      exact .first (Engine.mutateEach_composed compositional_keeping shown _ m m' hm _ _ hfirst)
  | next _ hrun hgoes ih =>
      exact .next ih
        (Engine.discover_composed compositional_keeping shown config _ _ m m' hm _ _ hrun) hgoes

theorem deeper {behaviour : Behaviour H} {facade : Facade} {depth depth' : Nat}
    (hle : depth ≤ depth')
    (h : ComesTo (.ofDepth behaviour facade depth) shown config externals s pass progress w) :
    ComesTo (.ofDepth behaviour facade depth') shown config externals s pass progress w := by
  rw [← Means.engine_ofDepth] at h ⊢
  exact h.mono (Means.ofDepth_extends behaviour facade hle)

/-- The search from one of its points on. -/
theorem mutateAll_run (h : ComesTo E shown config externals s pass progress w) :
    (E.mutateAll shown config externals).run s
      = (E.searchFrom shown config pass progress).run w := by
  induction h with
  | first hfirst => exact Attempt.run_bind_of_ok hfirst
  | @next u v pass progress next _ hrun hgoes ih =>
      rw [ih]
      by_cases hroom : pass.position ≤ E.limit + 1
      · rw [Engine.searchFrom_eq hroom, Attempt.run_bind_of_ok hrun, if_neg hgoes]
      · rw [Engine.searchFrom_exhausted (Nat.lt_of_not_le hroom), Engine.searchFrom_exhausted]
        rw [DiscoveryPass.position_next]
        omega

theorem course (h : ComesTo E shown config externals s pass progress w) (hE : E.Lawful) :
    Course Anything s w := by
  induction h with
  | first hfirst =>
      exact Engine.mutateEach_follows hE shown (fun _ _ => trivial) _ _ _ _ hfirst
  | next _ hrun _ ih =>
      exact ih.followedBy (Engine.discover_course hE hrun)

/-- The names at a point of a phase that has returned are among those at its end. -/
theorem mutatorNames_subset (h : ComesTo E shown config externals s pass progress w)
    (hE : E.Lawful) {result : Except Error Mutation} {t : State H}
    (hphase : (E.mutationPhase shown config externals).run s = some (result, t)) :
    mutatorNames s w ⊆ mutatorNames s t := by
  rcases Attempt.run_bind_eq_some_iff.1 hphase with ⟨e, hsearch, _⟩ | ⟨last, u, hsearch, hrest⟩
  all_goals
    rw [h.mutateAll_run] at hsearch
    have hlate := Engine.searchFrom_follows hE _ _ _ _ _ hsearch
  · exact mutatorNames_mono (h.course hE) hlate
  · have hcustomize : Course Anything u t := Attempt.follows_bind
      (Engine.customizeEach_follows hE shown (fun _ _ => trivial) _)
      (fun _ => Attempt.follows_pure _) _ _ _ hrest
    exact mutatorNames_mono (h.course hE) (hlate.followedBy hcustomize)

-- The same for a point that was come to at some other depth.
theorem mutatorNames_returned {behaviour : Behaviour H} {facade : Facade} {depth depth' : Nat}
    (h : ComesTo (.ofDepth behaviour facade depth) shown config externals s pass progress w)
    {result : Except Error Mutation} {t : State H}
    (hphase : ((Engine.ofDepth behaviour facade depth').mutationPhase shown config externals).run s
      = some (result, t)) : mutatorNames s w ⊆ mutatorNames s t :=
  (h.deeper (Nat.le_max_left depth depth')).mutatorNames_subset
    (Engine.lawful_ofDepth behaviour facade _)
    (Engine.mutationPhase_deeper (Nat.le_max_right depth depth') hphase)

/-- A round is told of each pass that was made. -/
theorem rounds_length (h : ComesTo E shown config externals s pass progress w) :
    progress.rounds.length = pass.position := by
  induction h with
  | first _ => rfl
  | next _ hrun _ ih =>
      rcases Engine.discover_mutators hrun with ⟨hooks, hhooks⟩
      rw [(Engine.discover_extends hrun hhooks).rounds_eq, List.length_append, ih,
        DiscoveryPass.position_next]
      rfl

theorem processed_nodup (h : ComesTo E shown config externals s pass progress w) :
    progress.processed.names.Nodup := by
  induction h with
  | first _ => exact List.nodup_nil
  | next _ hrun _ ih =>
      rcases Engine.discover_mutators hrun with ⟨hooks, hhooks⟩
      exact (Engine.discover_extends hrun hhooks).processed_nodup ih

/-- Each reiteration that was followed by another pass has taken a name. -/
theorem position_le (h : ComesTo E shown config externals s pass progress w) :
    pass.position ≤ progress.processed.names.length + 2 := by
  induction h with
  | first _ => exact Nat.zero_le _
  | @next u v pass progress next _ hrun hgoes ih =>
      rcases Engine.discover_mutators hrun with ⟨hooks, hhooks⟩
      have htaken : next.processed.names.length
          = progress.processed.names.length + hooks.length := by
        rw [(Engine.discover_extends hrun hhooks).processed_perm.length_eq, List.length_append,
          List.length_map]
      rw [DiscoveryPass.position_next, htaken]
      cases pass with
      | highest => exact Nat.le_add_left 1 _ |>.trans (Nat.le_succ _)
      | ordered => exact Nat.le_add_left 2 _
      | reiteration number =>
          -- A reiteration that does not end the search has called some hook.
          have hcalled : hooks.length ≠ 0 := by
            intro hnone
            refine hgoes ?_
            change next.mutators.length = progress.mutators.length
            rw [hhooks, List.length_append, hnone, Nat.add_zero]
          omega

/-- All names that were taken are names of mutators. -/
theorem processed_subset (h : ComesTo E shown config externals s pass progress w) (hE : E.Lawful)
    (hs : s.container.Consistent) :
    ∀ name ∈ progress.processed.names, name ∈ mutatorNames s w := by
  induction h with
  | first _ => exact fun name hname => absurd hname List.not_mem_nil
  | @next u v pass progress next hcomes hrun _ ih =>
      have hearly : Course Anything s u := hcomes.course hE
      have hlate : Course Anything u v := Engine.discover_course hE hrun
      rcases Engine.discover_mutators hrun with ⟨hooks, hhooks⟩
      intro name hname
      refine mutatorNames_mono hearly hlate ?_
      rw [(Engine.discover_extends hrun hhooks).processed_perm.mem_iff, List.mem_append] at hname
      rcases hname with hbefore | hcalled
      · exact ih name hbefore
      · rcases Engine.discover_registered (hearly.consistent hs) hrun hhooks name hcalled with
          ⟨d, hd, hmutates⟩
        exact hearly.mem_mutatorNames hd hmutates

/-- No point is farther than there are names of mutators. -/
theorem position_le_mutators (h : ComesTo E shown config externals s pass progress w)
    (hE : E.Lawful) (hs : s.container.Consistent) :
    pass.position ≤ (mutatorNames s w).card + 2 := by
  refine h.position_le.trans (Nat.add_le_add_right ?_ 2)
  rw [← List.toFinset_card_of_nodup h.processed_nodup]
  refine Finset.card_le_card fun name hname => ?_
  exact h.processed_subset hE hs name (List.mem_toFinset.1 hname)

-- The last of the reiterations that are left.
theorem last_reiteration {limit : Nat} :
    ∀ {number : Nat} {progress last : Progress H} {w t : State H},
      ComesTo E shown config externals s (.reiteration number) progress w →
        (E.reiterate shown config limit number progress).run w = some (.ok last, t) →
        ∃ pass before u, ComesTo E shown config externals s pass before u ∧
          (E.discover shown config pass before).run u = some (.ok last, t) := by
  induction limit with
  | zero =>
      intro number progress last w t _ hrun
      cases hrun
  | succ limit ih =>
      intro number progress last w t h hrun
      rcases Attempt.run_bind_eq_ok_iff.1 hrun with ⟨next, u, hpass, hrest⟩
      by_cases hends : next.mutators.length = progress.mutators.length
      · rw [if_pos hends] at hrest
        cases hrest
        exact ⟨_, progress, w, h, hpass⟩
      · rw [if_neg hends] at hrest
        exact ih (h.next hpass hends) hrest

/-- A search that succeeds ends with a pass that it came to. -/
theorem last_pass {last : Progress H} {t : State H}
    (h : (E.mutateAll shown config externals).run s = some (.ok last, t)) :
    ∃ pass before u, ComesTo E shown config externals s pass before u ∧
      (E.discover shown config pass before).run u = some (.ok last, t) := by
  rcases Attempt.run_bind_eq_ok_iff.1 h with ⟨_, u, hexternals, hrest⟩
  rcases Attempt.run_bind_eq_ok_iff.1 hrest with ⟨afterHighest, v, hhighest, hrest⟩
  rcases Attempt.run_bind_eq_ok_iff.1 hrest with ⟨afterOrdered, w, hordered, hrest⟩
  exact last_reiteration (((first hexternals).next hhighest id).next hordered id) hrest

end ComesTo

end ObjectBootstrap
