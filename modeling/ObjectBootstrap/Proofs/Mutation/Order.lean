import Mathlib
import ObjectBootstrap.Proofs.Container.Standing
import ObjectBootstrap.Proofs.Mutation.FixedPoint

/-!
# The order of registry mutation

Mutators are called pass by pass, and each pass admits tiers by a rule of its own. Still no mutator
is called before another one that it should have waited for, as long as both were known when its
pass began. Either both are called in that pass, and then they stand as its sort puts them, or the
other one was not admitted, and then it is of a lower tier: what a pass admits is closed upwards
(`DiscoveryPass.level_lt`).

If nobody registers or moves mutators during the phase, all of them are known from the start. Then
any two are called in the right order, which leaves one list only, and so the passes together come
to a single sort.

## Main definitions

* `Meanwhile`: Something held at a moment between two states.

## Theorems

* `Engine.take_classified`: What a pass takes and leaves, by the placements it meets.
* `Engine.take_kept`: The same for names that keep their placements.
* `Engine.discover_precedes`: The order of two names that are known to a pass.
* `Sweeps.precedes`: The order of two names that are known to one of the passes.
* `Sweeps.sorted`: All passes together come to a single sort.
* `mutationPhase_order`: The order of a successful phase.
-/

namespace ObjectBootstrap

variable {H : Host}

/-- What a pass leaves is of a lower tier than what it takes. -/
theorem DiscoveryPass.level_lt {pass : DiscoveryPass} {taken left : Tier}
    (htaken : pass.admits taken = true) (hleft : pass.admits left = false) :
    taken.level < left.level := by
  cases pass with
  | highest =>
      cases taken <;> cases left <;> simp_all [admits, Tier.level]
  | ordered =>
      cases taken <;> cases left <;> simp_all [admits, Tier.isOrdered, Tier.level]
  | reiteration number => cases hleft

/-- Something held at a moment between two states. -/
def Meanwhile (s t : State H) (holds : State H → Prop) : Prop :=
  ∃ u, Course Anything s u ∧ Course Anything u t ∧ holds u

theorem Meanwhile.earlier {s s' t : State H} {holds : State H → Prop}
    (h : Meanwhile s' t holds) (hs : Course Anything s s') : Meanwhile s t holds := by
  rcases h with ⟨u, h1, h2, hu⟩
  exact ⟨u, hs.followedBy h1, h2, hu⟩

namespace Engine

variable {E : Engine H} {shown : Facade} {config : Config}

/-- Whatever a pass takes was met with an admitted placement, and whatever it leaves was taken
    before or met with one that is not admitted. -/
theorem take_classified (hE : E.Lawful) {pass : DiscoveryPass} :
    ∀ {names : List String} {processed processed' : Processed}
      {batch : List (Ranked (Object H.Content))} {s t : State H},
      (E.take shown pass names processed).run s = some (.ok (batch, processed'), t) →
        (∀ ranked ∈ batch, Meanwhile s t fun u =>
          ranked.placement = shown.classify u.container ranked.name ∧
            pass.admits ranked.placement.tier = true) ∧
        ∀ name ∈ names, processed.contains name = false → name ∉ batch.map Ranked.name →
          Meanwhile s t fun u =>
            pass.admits (shown.classify u.container name).tier = false := by
  intro names
  induction names with
  | nil =>
      intro processed processed' batch s t h
      cases h
      exact ⟨fun ranked hmem => absurd hmem List.not_mem_nil,
        fun name hmem => absurd hmem List.not_mem_nil⟩
  | cons name rest ih =>
      intro processed processed' batch s t h
      have hcourse : Course Anything s t := take_follows hE (fun _ _ => trivial) shown pass _ _ _ _
        _ h
      rcases run_take_cons h with
        ⟨hold, htake⟩ | ⟨_, hadmits, htake⟩ | ⟨hnew, hadmits, hook, u, more, hbuild, htake, rfl⟩
      -- The first name was taken before, was met and left, or was met and taken.
      · rcases ih htake with ⟨htaken, hleft⟩
        refine ⟨htaken, fun n hmem hn => ?_⟩
        rcases List.mem_cons.1 hmem with rfl | hmem
        · rw [hold] at hn
          cases hn
        · exact hleft n hmem hn
      · rcases ih htake with ⟨htaken, hleft⟩
        refine ⟨htaken, fun n hmem hn hbatch => ?_⟩
        rcases List.mem_cons.1 hmem with rfl | hmem
        · exact ⟨s, .rest s, hcourse, hadmits⟩
        · exact hleft n hmem hn hbatch
      · have hu : Course Anything s u :=
          buildHook_follows hE (fun _ _ => trivial) shown _ _ _ name _ _ _ hbuild
        rcases ih htake with ⟨htaken, hleft⟩
        refine ⟨fun ranked hmem => ?_, fun n hmem hn hbatch => ?_⟩
        · rcases List.mem_cons.1 hmem with rfl | hmem
          · exact ⟨s, .rest s, hcourse, rfl, hadmits⟩
          · exact (htaken ranked hmem).earlier hu
        · rw [List.map_cons, List.mem_cons, not_or] at hbatch
          rcases List.mem_cons.1 hmem with rfl | hmem
          · exact absurd rfl hbatch.1
          · refine (hleft n hmem ?_ hbatch.2).earlier hu
            rw [← Bool.not_eq_true, Processed.contains_iff, Processed.names_insert hnew,
              List.mem_append, List.mem_singleton, ← Processed.contains_iff, not_or, hn]
            exact ⟨Bool.false_ne_true, hbatch.1⟩

/-- Of the names that a pass knows and that keep their placements, it takes those with an admitted
    placement, unless they were taken before, and leaves the other ones. -/
theorem take_kept (hE : E.Lawful) {pass : DiscoveryPass} {processed processed' : Processed}
    {batch : List (Ranked (Object H.Content))} {s u w t : State H}
    (hs : s.container.Consistent) (h1 : Course Anything s u) (h2 : Course Anything w t)
    (htake : (E.take .direct pass (u.container.namesFor config.mutatorQuery).1 processed).run
        (u.withContainer (u.container.namesFor config.mutatorQuery).2)
      = some (.ok (batch, processed'), w)) :
    (∀ ranked ∈ batch, ∀ p, KeepsPlacement s t ranked.name p →
      ranked.placement = p ∧ pass.admits p.tier = true) ∧
    ∀ name ∈ (u.container.namesFor config.mutatorQuery).1, ∀ p, KeepsPlacement s t name p →
      processed.contains name = false → name ∉ batch.map Ranked.name →
        pass.admits p.tier = false := by
  have hquery : Course Anything u (u.withContainer (u.container.namesFor config.mutatorQuery).2) :=
    .quiet (.search u config.mutatorQuery)
  have hregistered := (h1.consistent hs).namesFor_sublist config.mutatorQuery
  have hclassify : ∀ {name : String} {p : Placement} {x : State H}, KeepsPlacement s t name p →
      name ∈ (u.container.namesFor config.mutatorQuery).1 →
      Course Anything (u.withContainer (u.container.namesFor config.mutatorQuery).2) x →
      Course Anything x w → Facade.direct.classify x.container name = p := by
    intro name p x hkeeps hmem hx hxw
    have hux := hquery.followedBy hx
    exact hkeeps.classify (h1.followedBy hux) (hxw.followedBy h2)
      ((((h1.followedBy hux).consistent hs).mem_names_iff name).1
        (hux.names_grow.subset (hregistered.subset hmem)))
  rcases take_classified hE htake with ⟨htaken, hleft⟩
  refine ⟨fun ranked hmem p hkeeps => ?_, fun name hmem p hkeeps hnew hbatch => ?_⟩
  · rcases htaken ranked hmem with ⟨x, hx, hxw, hseen, hadmits⟩
    have hname := (take_names htake).2.2.subset (List.mem_map_of_mem hmem)
    have heq := hseen.trans (hclassify hkeeps hname hx hxw)
    exact ⟨heq, heq ▸ hadmits⟩
  · rcases hleft name hmem hnew hbatch with ⟨x, hx, hxw, hadmits⟩
    rwa [hclassify hkeeps hmem hx hxw] at hadmits

/-- A pass calls two names that it knows in the right order, or it leaves the second one, which is
    of a lower tier then. -/
theorem discover_precedes (hE : E.Lawful) {pass : DiscoveryPass} {progress next : Progress H}
    {s u v t : State H} {hooks : List (String × Object H.Content)}
    (hs : s.container.Consistent) (h1 : Course Anything s u) (h2 : Course Anything v t)
    (h : (E.discover .direct config pass progress).run u = some (.ok next, v))
    (hhooks : next.mutators = progress.mutators ++ hooks) {a b : String} {pa pb : Placement}
    (ha : KeepsPlacement s t a pa) (hb : KeepsPlacement s t b pb)
    (hcalled : a ∈ hooks.map Prod.fst)
    (hknown : b ∈ (u.container.namesFor config.mutatorQuery).1)
    (hnew : progress.processed.contains b = false)
    (hbefore : b ∈ hooks.map Prod.fst → Before (hooks.map Prod.fst) a b) :
    pa.sortKey.lt pb.sortKey = true ∨
      pa.sortKey = pb.sortKey ∧ Before t.container.names a b := by
  rcases run_discover_hooks h hhooks with ⟨batch, processed, w, htake, hcall, rfl, rfl⟩
  rw [running_names] at hcalled hbefore
  have hwt : Course Anything w t := .followedBy
    (mutateEach_follows hE .direct (fun _ _ => trivial) _ _ _ _ hcall) h2
  have hut : Course Anything u t := .followedBy
    (discover_follows hE (fun _ _ => trivial) .direct config pass (fun _ _ => trivial) progress
      _ _ _ h) h2
  rcases take_kept hE hs h1 hwt htake with ⟨htaken, hleft⟩
  by_cases hboth : b ∈ (sortRanked batch).map Ranked.name
  · -- Both are called in this pass, so they stand as its sort puts them.
    rcases (hbefore hboth).of_map with ⟨ra, rb, hpair, rfl, rfl⟩
    have hra := htaken ra (sortRanked_mem.1 hpair.left_mem) pa ha
    have hrb := htaken rb (sortRanked_mem.1 hpair.right_mem) pb hb
    have hkeys := key_lt_or_before_of_sorted hpair
    rw [Ranked.key, Ranked.key, hra.1, hrb.1] at hkeys
    refine hkeys.imp id fun ⟨heq, hfirst⟩ => ⟨heq, ?_⟩
    have hnames := (take_names htake).2.2.trans
      ((h1.consistent hs).namesFor_sublist config.mutatorQuery)
    exact ((hfirst.map Ranked.name).trans hnames).trans hut.names_grow.sublist
  · -- The second one is left by this pass, which therefore met it in a lower tier.
    refine Or.inl ((SortKey.lt_iff _ _).2 (Or.inl ?_))
    rcases List.mem_map.1 hcalled with ⟨ra, hra, rfl⟩
    rw [((sortRanked_perm batch).map Ranked.name).mem_iff] at hboth
    exact DiscoveryPass.level_lt (htaken ra (sortRanked_mem.1 hra) pa ha).2
      (hleft b hknown pb hb hnew hboth)

end Engine

section Phase

variable {E : Engine H} {config : Config} {s u v t : State H} {last : Progress H}
  {externals : List (ExternalHook H.Content)} {sweeps : List (Sweep H)}

-- The names that were taken before a pass are those of the earlier passes.
theorem Sweeps.processed_perm {sweeps : List (Sweep H)}
    (h : Sweeps E .direct config u (.initial externals) sweeps v last) :
    last.processed.names.Perm (sweeps.flatMap Sweep.invoked) := by
  have hperm := h.progress_extends.processed_perm
  rw [List.map_flatMap] at hperm
  exact hperm

theorem Sweeps.invoked_nodup
    (h : Sweeps E .direct config u (.initial externals) sweeps v last) :
    (sweeps.flatMap Sweep.invoked).Nodup :=
  h.processed_perm.nodup_iff.1 (h.progress_extends.processed_nodup List.nodup_nil)

/-- Of two names that were known to the pass that called the first one, and of which the first one
    was called first, the first one has the smaller key, or the same key and the earlier
    registration. -/
theorem Sweeps.precedes (hE : E.Lawful) (hs : s.container.Consistent)
    (h1 : Course Anything s u) (h2 : Course Anything v t)
    (h : Sweeps E .direct config u (.initial externals) sweeps v last) {sweep : Sweep H}
    (hmem : sweep ∈ sweeps) {a b : String} {pa pb : Placement}
    (ha : KeepsPlacement s t a pa) (hb : KeepsPlacement s t b pb)
    (hcalled : a ∈ sweep.invoked)
    (hknown : b ∈ (sweep.start.container.namesFor config.mutatorQuery).1)
    (hnew : sweep.before.processed.contains b = false)
    (hbefore : Before (sweeps.flatMap Sweep.invoked) a b) :
    pa.sortKey.lt pb.sortKey = true ∨
      pa.sortKey = pb.sortKey ∧ Before t.container.names a b := by
  rcases h.split hmem with ⟨early, later, next, w, hsplit, hearly, hrun, hhooks, hlater⟩
  refine Engine.discover_precedes hE hs (h1.followedBy (hearly.course hE))
    ((hlater.course hE).followedBy h2) hrun hhooks ha hb hcalled hknown hnew fun hboth => ?_
  have hnodup := h.invoked_nodup
  have hinvoked : sweep.invoked.Sublist (sweeps.flatMap Sweep.invoked) := by
    rw [hsplit, List.flatMap_append, List.flatMap_cons]
    exact (List.sublist_append_left _ _).trans (List.sublist_append_right _ _)
  -- Within the pass the two stand as they do in the whole order, since no name is called twice.
  have hne : a ≠ b := by
    intro heq
    subst heq
    exact hbefore.not_symm hnodup hbefore
  rcases Before.total hne hcalled hboth with hab | hba
  · exact hab
  · exact absurd (List.Sublist.trans hba hinvoked) (hbefore.not_symm hnodup)

-- If nothing moves mutators, two that were called one before the other were both known to the pass
-- that called the first one.
theorem Sweeps.known (hE : E.Lawful) (hs : s.container.Consistent)
    (h1 : Course Anything s u) (h2 : Course Anything v t)
    (h : Sweeps E .direct config u (.initial externals) sweeps v last)
    (hun : Unmoved config.mutatorQuery (fun d => d.placement) s t) {sweep : Sweep H}
    (hmem : sweep ∈ sweeps) :
    (sweep.start.container.namesFor config.mutatorQuery).1
        = s.container.search config.mutatorQuery ∧
      ∀ {a b : String}, a ∈ sweep.invoked → Before (sweeps.flatMap Sweep.invoked) a b →
        sweep.before.processed.contains b = false := by
  rcases h.split hmem with ⟨early, later, next, w, hsplit, hearly, hrun, hhooks, hlater⟩
  have hstart := h1.followedBy (hearly.course hE)
  have hfinish : Course Anything sweep.start t := .followedBy
    (Engine.discover_follows hE (fun _ _ => trivial) .direct config sweep.pass
      (fun _ _ => trivial) sweep.before _ _ _ hrun) ((hlater.course hE).followedBy h2)
  refine ⟨?_, ?_⟩
  · rw [(hstart.consistent hs).namesFor_eq]
    exact hstart.search_eq hfinish hs hun
  · intro a b hcalled hbefore
    rw [← Bool.not_eq_true, Processed.contains_iff, hearly.processed_perm.mem_iff]
    intro hold
    -- Otherwise it was called in an earlier pass, and so before the first one.
    have hnodup := h.invoked_nodup
    refine hbefore.not_symm hnodup ?_
    rw [hsplit, List.flatMap_append, List.flatMap_cons]
    exact Before.append hold (List.mem_append_left _ hcalled)

-- A pass calls names that its query answers.
theorem Sweeps.invoked_known {sweep : Sweep H}
    (h : Sweeps E .direct config u (.initial externals) sweeps v last) (hmem : sweep ∈ sweeps) :
    ∀ name ∈ sweep.invoked,
      name ∈ (sweep.start.container.namesFor config.mutatorQuery).1 := by
  rcases h.split hmem with ⟨_, _, next, _, _, _, hrun, hhooks, _⟩
  rcases Engine.run_discover_hooks hrun hhooks with ⟨batch, processed, _, htake, _, hbatch, _⟩
  intro name hname
  rw [Sweep.invoked, hbatch, running_names,
    ((sortRanked_perm batch).map Ranked.name).mem_iff] at hname
  exact (Engine.take_names htake).2.2.subset hname

/-- If nothing moves mutators, all passes together come to a single sort. -/
theorem Sweeps.sorted (hE : E.Lawful) (hs : s.container.Consistent)
    (h1 : Course Anything s u) (h2 : Course Anything v t)
    (h : Sweeps E .direct config u (.initial externals) sweeps v last)
    (hsettled : ∀ name ∈ (v.container.namesFor config.mutatorQuery).1,
      last.processed.contains name = true)
    (hun : Unmoved config.mutatorQuery (fun d => d.placement) s t) :
    sweeps.flatMap Sweep.invoked
      = (sortRanked (s.container.ranking config.mutatorQuery)).map Ranked.name := by
  have hv := h1.followedBy (h.course hE)
  have hst := hv.followedBy h2
  have hknown : ∀ {name : String}, name ∈ sweeps.flatMap Sweep.invoked →
      name ∈ s.container.search config.mutatorQuery := by
    intro name hname
    rcases List.mem_flatMap.1 hname with ⟨sweep, hmem, hcalled⟩
    rw [← (h.known hE hs h1 h2 hun hmem).1]
    exact h.invoked_known hmem name hcalled
  have hnames := Container.nodup_search hs.names_nodup config.mutatorQuery
  refine eq_sortRanked_names _ hnames ?_ fun a b hbefore => ?_
  -- All answers were called in the end, and nothing else was.
  · refine (List.perm_ext_iff_of_nodup h.invoked_nodup hnames).2 fun name => ⟨hknown, ?_⟩
    intro hname
    rw [← hv.search_eq h2 hs hun, ← (hv.consistent hs).namesFor_eq] at hname
    have := hsettled name hname
    rwa [Processed.contains_iff, h.processed_perm.mem_iff] at this
  · rcases List.mem_flatMap.1 hbefore.left_mem with ⟨sweep, hmem, hcalled⟩
    -- Any two were known to the pass that called the first one, so they stand right.
    rcases h.known hE hs h1 h2 hun hmem with ⟨hstart, hnew⟩
    have ha := hknown hbefore.left_mem
    have hb := hknown hbefore.right_mem
    refine (h.precedes hE hs h1 h2 hmem (hun.keepsPlacement hs ha) (hun.keepsPlacement hs hb)
      hcalled (hstart ▸ hb) (hnew hcalled hbefore) hbefore).imp id fun ⟨hkey, hfirst⟩ =>
        ⟨hkey, ?_⟩
    -- Among the answers the two stand as they do among all names.
    have hrest : Course Anything t t := .rest t
    have ht := hst.search_eq hrest hs hun
    rw [← ht, Container.search] at ha hb ⊢
    exact hfirst.filter _ (List.mem_filter.1 ha).2 (List.mem_filter.1 hb).2

/-- The order of a successful phase, as a sequence of passes that starts when the external mutators
    were called. Take a pass that called a name `a`, and a name `b` that this pass knew and that
    was not taken before it. If `a` was called before `b`, and neither placement changed in the
    course of the phase, then the key of `a` is smaller, or the keys are the same and `a` was
    registered first. And if no stored definition changes which mutators there are and how they
    are placed, then all that was called was called in the order of one stable sort. -/
theorem mutationPhase_order (behaviour : Behaviour H) (facade : Facade) (depth : Nat)
    (config : Config) (externals : List (ExternalHook H.Content)) {s t : State H} {m : Mutation}
    (hs : s.container.Consistent)
    (h : ((Engine.ofDepth behaviour facade depth).mutationPhase .direct config externals).run s
      = some (.ok m, t)) :
    (∃ u sweeps v last,
      ((Engine.ofDepth behaviour facade depth).mutateEach .direct
        (externalMutators externals)).run s = some (.ok (), u) ∧
      Sweeps (Engine.ofDepth behaviour facade depth) .direct config u (.initial externals) sweeps
        v last ∧
      sweeps.map Sweep.round = m.rounds ∧
      ∀ sweep ∈ sweeps, ∀ a b pa pb,
        KeepsPlacement s t a pa → KeepsPlacement s t b pb →
        a ∈ sweep.invoked →
        b ∈ (sweep.start.container.namesFor config.mutatorQuery).1 →
        sweep.before.processed.contains b = false →
        Before (m.rounds.flatMap Round.invoked) a b →
          pa.sortKey.lt pb.sortKey = true ∨
            pa.sortKey = pb.sortKey ∧ Before t.container.names a b) ∧
    (Unmoved config.mutatorQuery (fun d => d.placement) s t →
      m.rounds.flatMap Round.invoked
        = (sortRanked (s.container.ranking config.mutatorQuery)).map Ranked.name) := by
  have hE : (Engine.ofDepth behaviour facade depth).Lawful :=
    Engine.lawful_ofDepth behaviour facade depth
  rcases mutationPhase_run h with ⟨last, v, hsearch, hcustomize, rfl⟩
  rcases Engine.mutateAll_sweeps hsearch with ⟨u, sweeps, hexternals, hsweeps, _, hsettled⟩
  have h1 : Course Anything s u :=
    Engine.mutateEach_follows hE .direct (fun _ _ => trivial) _ _ _ _ hexternals
  have h2 : Course Anything v t :=
    Engine.customizeEach_follows hE .direct (fun _ _ => trivial) _ _ _ _ hcustomize
  have hrounds : last.rounds = sweeps.map Sweep.round := hsweeps.progress_extends.rounds_eq
  have hcalled : last.rounds.flatMap Round.invoked = sweeps.flatMap Sweep.invoked := by
    rw [hrounds, List.flatMap_map]
    rfl
  refine ⟨⟨u, sweeps, v, last, hexternals, hsweeps, hrounds.symm, ?_⟩, ?_⟩
  · intro sweep hmem a b pa pb ha hb hinvoked hknown hnew hbefore
    rw [hcalled] at hbefore
    exact hsweeps.precedes hE hs h1 h2 hmem ha hb hinvoked hknown hnew hbefore
  · intro hun
    rw [hcalled]
    exact hsweeps.sorted hE hs h1 h2 hsettled hun

end Phase

namespace Scenarios

/-- Mutators of all tiers in registration order. None of them registers anything. -/
def tiered : State host :=
  stateOf [mutator "plain" {} false, mutator "rank7" ⟨.ordered, some 7⟩ false,
    mutator "rank2" ⟨.ordered, some 2⟩ false, mutator "highest" ⟨.highest, none⟩ false,
    mutator "rank2later" ⟨.ordered, some 2⟩ false]

theorem report_of_tiered :
    (((Engine.ofDepth behaviour .direct 3).mutationPhase .direct .standard []).run tiered).map
      (fun r => (r.1.toOption.map Mutation.rounds, (stores (since tiered r.2)).map Prod.fst))
      = some (some [⟨.highest, ["highest"]⟩, ⟨.ordered, ["rank2", "rank2later", "rank7"]⟩,
        ⟨.reiteration 1, ["plain"]⟩, ⟨.reiteration 2, []⟩], []) := by
  cbv

theorem tiered_consistent : tiered.container.Consistent :=
  stateOf_consistent (by decide)

/-- The order of all of them, and of the highest and the plain one in particular. -/
theorem tiered_order : ∃ (m : Mutation) (t : State host),
    ((Engine.ofDepth behaviour .direct 3).mutationPhase .direct .standard []).run tiered
      = some (.ok m, t) ∧
    m.rounds.flatMap Round.invoked = ["highest", "rank2", "rank2later", "rank7", "plain"] ∧
    KeepsPlacement tiered t "highest" ⟨.highest, none⟩ ∧
    KeepsPlacement tiered t "plain" {} ∧
    ((⟨.highest, none⟩ : Placement).sortKey.lt (⟨.plain, none⟩ : Placement).sortKey = true ∨
      (⟨.highest, none⟩ : Placement).sortKey = (⟨.plain, none⟩ : Placement).sortKey ∧
        Before t.container.names "highest" "plain") := by
  rcases Option.map_eq_some_iff.1 report_of_tiered with ⟨⟨result, t⟩, ht, hreport⟩
  simp only [Prod.mk.injEq, List.map_eq_nil_iff] at hreport
  rcases hreport with ⟨hanswer, hstores⟩
  rcases Option.map_eq_some_iff.1 hanswer with ⟨m, hm, hrounds⟩
  cases eq_ok_of_toOption hm
  have hkeeps : ∀ name d, tiered.container.definitions.get? name = some d →
      KeepsPlacement tiered t name d.placement := by
    intro name d hd
    refine ⟨fun e he => ?_, fun e he => ?_⟩
    · rw [hd, Option.some.injEq] at he
      rw [he]
    · rw [hstores] at he
      exact absurd he List.not_mem_nil
  have hun : Unmoved Config.standard.mutatorQuery (fun d => d.placement) tiered t := by
    intro entry hentry
    rw [hstores] at hentry
    exact absurd hentry List.not_mem_nil
  have hhighest := hkeeps "highest" _ rfl
  have hplain := hkeeps "plain" _ rfl
  rcases mutationPhase_order behaviour .direct 3 .standard [] tiered_consistent ht with
    ⟨⟨u, sweeps, v, last, hexternals, hsweeps, heq, hprecedes⟩, hsorted⟩
  cases hexternals
  refine ⟨m, t, ht, ?_, hhighest, hplain, ?_⟩
  · rw [hsorted hun]
    cbv
  · rw [hrounds] at heq hprecedes
    cases hsweeps with
    | done => cases heq
    | @sweep _ _ _ pass _ _ _ hooks later _ _ _ =>
        rw [List.map_cons, List.cons.injEq] at heq
        have hinvoked : hooks.map Prod.fst = ["highest"] := congrArg Round.invoked heq.1
        refine hprecedes _ List.mem_cons_self "highest" "plain" _ _ hhighest hplain ?_ ?_ rfl ?_
        · change "highest" ∈ hooks.map Prod.fst
          rw [hinvoked]
          exact List.mem_singleton_self "highest"
        · change "plain" ∈ (tiered.container.namesFor Config.standard.mutatorQuery).1
          decide +kernel
        · change ["highest", "plain"].Sublist ["highest", "rank2", "rank2later", "rank7", "plain"]
          decide

end Scenarios

end ObjectBootstrap
