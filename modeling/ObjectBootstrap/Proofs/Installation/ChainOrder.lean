import Mathlib
import ObjectBootstrap.Proofs.Installation.Tiers
import ObjectBootstrap.Proofs.Mutation.FixedPoint

/-!
# The order of the chain

An installation is a sequence of additions to the chain, each of which takes a name to the end. The
interceptors that finalize metadata are added twice, and names of an earlier installation may be in
the chain already. What comes out has a closed form (`chainOf`): the old names that were not added
keep their order, and behind them stands each added name where it was added last.

The sequence itself is that of one sort of all interceptors, although it is made tier by tier, and
of a second sort of those that finalize metadata. This takes that no hook or factory interferes
(`Undisturbed`). Then the installation can be repeated, and nothing moves.

## Main definitions

* `chainOf`: The names of the chain after an installation.
* `Undisturbed`: No hook or factory that is called interferes.

## Theorems

* `foldl_moveLast`: Names that are taken to the end one after the other.
* `foldl_installs`: The additions of an installation, in closed form.
* `chainOf_chainOf`, `count_chainOf`: The closed form when it is repeated, and each interceptor in
  it.
* `Engine.run_installationPhase_eq_ok`: An installation as a sequence of additions.
* `Engine.installationPhase_installs`: The additions that an installation makes.
* `installationPhase_chain`: What an installation makes of the chain.
-/

namespace ObjectBootstrap

variable {H : Host}

/-- The names of the chain after an installation: what was there and is neither installed now nor
    reserved, the sentinel, the interceptors that leave metadata alone, those that finalize it, and
    the listener detector. -/
def chainOf (old : List String) (hooks : List (Ranked Bool)) : List String :=
  old.filter (fun n => n ∉ hooks.map Ranked.name ∧ n ≠ sentinelName ∧ n ≠ listenerDetectorName)
    ++ [sentinelName]
    ++ sortedNames (hooks.filter fun hook => !hook.hook)
    ++ sortedNames (hooks.filter fun hook => hook.hook)
    ++ [listenerDetectorName]

/-- No hook or factory that is called on the way installs a hook, or stores a definition that makes
    a difference to what is installed. -/
structure Undisturbed (q : CapabilityQuery) (s t : State H) : Prop where
  no_installs : ∀ activity ∈ inner (since s t), activity.installed? = none
  unmoved : Unmoved q Definition.station s t

/-- Names that are taken to the end one after the other stand there in that order. -/
theorem foldl_moveLast {moved : List String} (h : moved.Nodup) (names : List String) :
    moved.foldl moveLast names = names.filter (fun n => n ∉ moved) ++ moved := by
  induction moved generalizing names with
  | nil => simp
  | cons name rest ih =>
      rw [List.nodup_cons] at h
      -- No later name is the first one, so it stays where it was taken.
      have hlast : [name].filter (fun n => n ∉ rest) = [name] :=
        List.filter_cons_of_pos (by simp [h.1])
      rw [List.foldl_cons, ih h.2, moveLast, List.filter_append, List.filter_filter, hlast,
        List.append_assoc]
      refine congrArg (· ++ _) (List.filter_congr fun n _ => ?_)
      by_cases hn : n = name
      · simp [hn]
      · simp [hn]

theorem mem_sortedNames {hooks : List (Ranked Bool)} {name : String} :
    name ∈ sortedNames hooks ↔ name ∈ hooks.map Ranked.name :=
  ((sortRanked_perm hooks).map Ranked.name).mem_iff

theorem nodup_sortedNames {hooks : List (Ranked Bool)} (h : (hooks.map Ranked.name).Nodup) :
    (sortedNames hooks).Nodup :=
  ((sortRanked_perm hooks).map Ranked.name).nodup_iff.2 h

-- The tiers of the marked answers are the marked names of the tiers.
theorem ofTier_marking (k : Container H) (q : CapabilityQuery) (tier : Tier) :
    ofTier tier (k.marking q) = (Engine.namesOfTier k tier (k.search q)).map k.mark := by
  rw [ofTier, Container.marking, List.filter_map]
  rfl

-- The mergers of the three tiers, sorted together.
theorem sortRanked_mergers (hooks : List (Ranked Bool)) :
    sortRanked ((ofTier .highest hooks ++ ofTier .ordered hooks ++ ofTier .plain hooks).filter
        fun hook => hook.hook)
      = sortRanked (hooks.filter fun hook => hook.hook) := by
  refine sortRanked_congr fun key => ?_
  rw [List.filter_comm, filter_tiers, List.filter_comm]

/-- An installation that is repeated moves nothing. -/
theorem chainOf_chainOf (old : List String) (hooks : List (Ranked Bool)) :
    chainOf (chainOf old hooks) hooks = chainOf old hooks := by
  have hnone : ∀ p : Ranked Bool → Bool, (sortedNames (hooks.filter p)).filter (fun n =>
      n ∉ hooks.map Ranked.name ∧ n ≠ sentinelName ∧ n ≠ listenerDetectorName) = [] := by
    intro p
    rw [List.filter_eq_nil_iff]
    intro n hn
    have hmem := (List.filter_sublist.map Ranked.name).subset (mem_sortedNames.1 hn)
    simp only [decide_eq_true_eq]
    exact fun h => h.1 hmem
  have hold : (chainOf old hooks).filter (fun n =>
        n ∉ hooks.map Ranked.name ∧ n ≠ sentinelName ∧ n ≠ listenerDetectorName)
      = old.filter fun n =>
        n ∉ hooks.map Ranked.name ∧ n ≠ sentinelName ∧ n ≠ listenerDetectorName := by
    rw [chainOf, List.filter_append, List.filter_append, List.filter_append, List.filter_append,
      hnone, hnone, List.filter_filter, List.filter_cons_of_neg (by simp),
      List.filter_cons_of_neg (by simp)]
    simp only [List.filter_nil, List.append_nil, Bool.and_self]
  unfold chainOf at hold ⊢
  rw [hold]

/-- Each interceptor is in the chain once. -/
theorem count_chainOf {old : List String} {hooks : List (Ranked Bool)} {name : String}
    (hnodup : (hooks.map Ranked.name).Nodup) (hmem : name ∈ hooks.map Ranked.name)
    (hsentinel : name ≠ sentinelName) (hdetector : name ≠ listenerDetectorName) :
    (chainOf old hooks).count name = 1 := by
  -- The old names that are left and the reserved ones are others.
  have hold : (old.filter fun n =>
      n ∉ hooks.map Ranked.name ∧ n ≠ sentinelName ∧ n ≠ listenerDetectorName).count name = 0 := by
    rw [List.count_eq_zero]
    intro hin
    have := (List.mem_filter.1 hin).2
    simp only [decide_eq_true_eq] at this
    exact this.1 hmem
  -- The two sorts hold together what the hooks are, each once.
  have hperm : (sortedNames (hooks.filter fun hook => !hook.hook)
      ++ sortedNames (hooks.filter fun hook => hook.hook)).Perm (hooks.map Ranked.name) := by
    rw [sortedNames, sortedNames, ← List.map_append]
    refine List.Perm.map _ (((sortRanked_perm _).append (sortRanked_perm _)).trans ?_)
    exact List.perm_append_comm.trans (List.filter_append_perm _ hooks)
  have hboth := hperm.count_eq name
  rw [List.count_append, hnodup.count, if_pos hmem] at hboth
  have hfirst : [sentinelName].count name = 0 :=
    List.count_eq_zero.2 fun hin => hsentinel (List.mem_singleton.1 hin)
  have hlast : [listenerDetectorName].count name = 0 :=
    List.count_eq_zero.2 fun hin => hdetector (List.mem_singleton.1 hin)
  rw [chainOf, List.count_append, List.count_append, List.count_append, List.count_append, hold,
    hfirst, hlast]
  omega

section ClosedForm

variable {k : Container H} {q : CapabilityQuery}

theorem marking_names : (k.marking q).map Ranked.name = k.search q := by
  rw [Container.marking, List.map_map]
  exact List.map_id _

-- Those that finalize metadata can be told by their names.
theorem mem_mergers_iff {hook : Ranked Bool} (h : hook ∈ k.marking q) :
    hook.name ∈ sortedNames ((k.marking q).filter fun hook => hook.hook) ↔ hook.hook = true := by
  rw [mem_sortedNames]
  constructor
  · intro hmem
    rcases List.mem_map.1 hmem with ⟨other, hother, hname⟩
    rcases List.mem_filter.1 hother with ⟨hin, hmerges⟩
    rcases List.mem_map.1 h with ⟨n, _, rfl⟩
    rcases List.mem_map.1 hin with ⟨n', _, rfl⟩
    cases hname
    exact hmerges
  · intro hmerges
    exact List.mem_map_of_mem (List.mem_filter.2 ⟨h, hmerges⟩)

-- Of the interceptors the second round leaves those where they are that it does not add.
theorem filter_sortedNames (hdetector : listenerDetectorName ∉ k.search q) :
    (sortedNames (k.marking q)).filter (fun n => n ∉ sortedNames ((k.marking q).filter
        fun hook => hook.hook) ++ [listenerDetectorName])
      = sortedNames ((k.marking q).filter fun hook => !hook.hook) := by
  have hrest : sortedNames ((k.marking q).filter fun hook => !hook.hook)
      = ((sortRanked (k.marking q)).filter fun hook => !hook.hook).map Ranked.name := by
    rw [sortedNames, sortRanked_filter]
  rw [hrest]
  change ((sortRanked (k.marking q)).map Ranked.name).filter _ = _
  rw [List.filter_map]
  refine congrArg _ (List.filter_congr fun hook hmem => ?_)
  have hin := sortRanked_mem.1 hmem
  have hname : hook.name ≠ listenerDetectorName := by
    intro heq
    refine hdetector (heq ▸ ?_)
    rw [← marking_names]
    exact List.mem_map_of_mem hin
  simp [mem_mergers_iff hin, hname]

/-- The additions that an installation makes, in closed form. -/
theorem foldl_installs (hk : k.names.Nodup) (hsentinel : sentinelName ∉ k.search q)
    (hdetector : listenerDetectorName ∉ k.search q) (old : List String) :
    (sentinelName :: sortedNames (k.marking q)
        ++ (sortedNames ((k.marking q).filter fun hook => hook.hook)
          ++ [listenerDetectorName])).foldl moveLast old
      = chainOf old (k.marking q) := by
  have hnames : ((k.marking q).map Ranked.name).Nodup := by
    rw [marking_names]
    exact Container.nodup_search hk q
  have hmergers : (((k.marking q).filter fun hook => hook.hook).map Ranked.name).Nodup :=
    hnames.sublist (List.filter_sublist.map _)
  have hsub : ∀ n ∈ sortedNames ((k.marking q).filter fun hook => hook.hook),
      n ∈ k.search q := by
    intro n hn
    rw [← marking_names]
    exact (List.filter_sublist.map _).subset (mem_sortedNames.1 hn)
  have hall : ∀ n, n ∈ sortedNames (k.marking q) ↔ n ∈ k.search q := by
    intro n
    rw [mem_sortedNames, marking_names]
  have hearly : (sentinelName :: sortedNames (k.marking q)).Nodup := by
    rw [List.nodup_cons, hall]
    exact ⟨hsentinel, nodup_sortedNames hnames⟩
  have hlate : (sortedNames ((k.marking q).filter fun hook => hook.hook)
      ++ [listenerDetectorName]).Nodup := by
    rw [List.nodup_append]
    refine ⟨nodup_sortedNames hmergers, List.pairwise_singleton _ _, fun a ha b hb heq => ?_⟩
    rw [List.mem_singleton.1 hb] at heq
    exact hdetector (heq ▸ hsub a ha)
  have hreserved : sentinelName ≠ listenerDetectorName := by decide
  have hmoved : sentinelName ∉ sortedNames ((k.marking q).filter fun hook => hook.hook)
      ++ [listenerDetectorName] := by
    rw [List.mem_append, List.mem_singleton, not_or]
    exact ⟨fun hmem => hsentinel (hsub _ hmem), hreserved⟩
  have hold : old.filter (fun n => decide (n ∉ sortedNames ((k.marking q).filter fun hook =>
          hook.hook) ++ [listenerDetectorName])
        && decide (n ∉ sentinelName :: sortedNames (k.marking q)))
      = old.filter fun n => n ∉ (k.marking q).map Ranked.name ∧ n ≠ sentinelName ∧
        n ≠ listenerDetectorName := by
    refine List.filter_congr fun n _ => ?_
    rw [← Bool.decide_and, decide_eq_decide, List.mem_append, List.mem_singleton, List.mem_cons,
      marking_names, hall]
    have := hsub n
    tauto
  rw [List.foldl_append, foldl_moveLast hearly, foldl_moveLast hlate, List.filter_append,
    List.filter_filter, hold, List.filter_cons_of_pos (by simpa using hmoved),
    filter_sortedNames hdetector, chainOf]
  simp only [List.append_assoc, List.cons_append, List.nil_append]

end ClosedForm

namespace Engine

variable {E : Engine H} {config : Config}

/-- The parts of a successful installation: what is built, and what is added to the chain in front
    of it and behind it. -/
theorem run_installationPhase_eq_ok {s t : State H} {inst : Installation}
    (h : (E.installationPhase .direct config).run s = some (.ok inst, t)) :
    ∃ division ordered plain u1 u2 u3 u4 u5 u6,
      Adds s u1 [sentinelName] ∧
      (divide .direct (E.buildMarked .direct)
        (s.container.namesFor config.interceptorQuery).1).run u1 = some (.ok division, u2) ∧
      Adds u2 u3 (sortedNames (division.highest.map Ranked.marked)) ∧
      (buildEach (E.buildMarked .direct) division.ordered).run u3 = some (.ok ordered, u4) ∧
      Adds u4 u5 (sortedNames (ordered.map Ranked.marked)) ∧
      (buildEach (E.buildMarked .direct) division.plain).run u5 = some (.ok plain, u6) ∧
      Adds u6 t (sortedNames (plain.map Ranked.marked)
        ++ (sortedNames (((division.highest ++ ordered ++ plain).map Ranked.marked).filter
            fun hook => hook.hook) ++ [listenerDetectorName])) ∧
      inst.chain = t.container.chain.names := by
  rcases run_installationPhase_parts h with ⟨division, ordered, plain, u1, u2, u3, u4, u5, u6, u7,
    hdivide, hhighest, hbuildOrdered, hordered, hbuildPlain, hplain, hmergers, hlast, rfl⟩
  have hmark : ((division.highest ++ ordered ++ plain).filter fun ranked =>
        ranked.hook.2).map Ranked.marked
      = ((division.highest ++ ordered ++ plain).map Ranked.marked).filter fun hook =>
        hook.hook := by
    rw [List.filter_map]
    rfl
  have hmerged := Adds.of_tier hmergers
  rw [hmark] at hmerged
  exact ⟨division, ordered, plain, _, u1, u2, u3, u4, u5,
    (Adds.of_builds (.quiet (.search s _))).followedBy (.of_post _ _), hdivide, .of_tier hhighest,
    hbuildOrdered, .of_tier hordered, hbuildPlain,
    (Adds.of_tier hplain).followedBy (hmerged.followedBy (.of_install hlast)), rfl⟩

/-- The additions that an undisturbed installation makes: the sentinel, all interceptors in one
    sort, those that finalize metadata once more, and the listener detector. -/
theorem installationPhase_installs (hE : E.Lawful) {s t : State H} {inst : Installation}
    (hs : s.container.Consistent)
    (hun : Unmoved config.interceptorQuery Definition.station s t)
    (h : (E.installationPhase .direct config).run s = some (.ok inst, t)) :
    inst.chain = t.container.chain.names ∧
    tierInstalls (since s t)
      = sentinelName :: sortedNames (s.container.marking config.interceptorQuery)
        ++ (sortedNames ((s.container.marking config.interceptorQuery).filter fun hook =>
            hook.hook) ++ [listenerDetectorName]) := by
  rcases run_installationPhase_eq_ok h with ⟨division, ordered, plain, u1, u2, u3, u4, u5, u6,
    hfirst, hdivide, hhighest, hbuildOrdered, hordered, hbuildPlain, hlast, hchain⟩
  refine ⟨hchain, ?_⟩
  have hmarked : ∀ candidate, Attempt.Follows Activity.OfBuild (E.buildMarked .direct candidate) :=
    buildMarked_follows hE (fun _ => id) .direct
  have hb1 : Adds u1 u2 [] := .of_builds (divide_follows hmarked _ _ _ _ hdivide)
  have hb2 : Adds u3 u4 [] := .of_builds (buildEach_follows hmarked _ _ _ _ hbuildOrdered)
  have hb3 : Adds u5 u6 [] := .of_builds (buildEach_follows hmarked _ _ _ _ hbuildPlain)
  -- The way up to each tier and the way behind it, on which what is looked up stays the same.
  have hupTo3 := (hfirst.followedBy hb1).followedBy hhighest
  have hupTo5 := (hupTo3.followedBy hb2).followedBy hordered
  have hfrom4 := hordered.followedBy (hb3.followedBy hlast)
  have hfrom2 := hhighest.followedBy (hb2.followedBy hfrom4)
  have hset := hun.settled hs
  rw [hs.namesFor_eq] at hdivide
  rcases divide_settled hE (hset.inside hfirst.course hfrom2.course) hdivide with
    ⟨hhighest', hcandidates, hcandidates'⟩
  rw [hcandidates] at hbuildOrdered
  rw [hcandidates'] at hbuildPlain
  have hsub : ∀ tier, ∀ n ∈ namesOfTier s.container tier
      (s.container.search config.interceptorQuery),
      n ∈ s.container.search config.interceptorQuery :=
    fun tier n hn => List.mem_of_mem_filter hn
  have hordered' := buildEach_settled hE
    ((hset.inside hupTo3.course hfrom4.course).subset (hsub .ordered)) hbuildOrdered
  have hplain' := buildEach_settled hE
    ((hset.inside hupTo5.course hlast.course).subset (hsub .plain)) hbuildPlain
  rw [← ofTier_marking] at hhighest' hordered' hplain'
  -- The three tiers come to one sort, and so do those of them that finalize metadata.
  have htiers := congrArg (List.map Ranked.name)
    (sortRanked_tiers (s.container.marking config.interceptorQuery))
  rw [List.map_append, List.map_append] at htiers
  rw [(hupTo5.followedBy (hb3.followedBy hlast)).installs_eq, List.map_append, List.map_append,
    hhighest', hordered', hplain']
  unfold sortedNames
  rw [sortRanked_mergers, ← htiers]
  simp only [List.nil_append, List.append_nil, List.append_assoc, List.cons_append]

end Engine

-- If nothing is moved, the installation looks up the same.
theorem Course.marking_eq {s t : State H} {q : CapabilityQuery} (h : Course Anything s t)
    (hs : s.container.Consistent) (hun : Unmoved q Definition.station s t) :
    t.container.marking q = s.container.marking q := by
  have hrest : Course Anything t t := .rest t
  rw [Container.marking, Container.marking, h.search_eq hrest hs hun]
  exact List.map_congr_left fun name hmem => hun.settled hs t h hrest name hmem

/-- What one successful installation makes of the chain, in closed form. -/
theorem Engine.installationPhase_chainOf {E : Engine H} (hE : E.Lawful) {config : Config}
    {s t : State H} {inst : Installation} (hs : s.container.Consistent)
    (hsentinel : sentinelName ∉ s.container.search config.interceptorQuery)
    (hdetector : listenerDetectorName ∉ s.container.search config.interceptorQuery)
    (hun : Undisturbed config.interceptorQuery s t)
    (h : (E.installationPhase .direct config).run s = some (.ok inst, t)) :
    Course Anything s t ∧ inst.chain = t.container.chain.names ∧
      inst.chain = chainOf s.container.chain.names
        (s.container.marking config.interceptorQuery) := by
  have hcourse : Course Anything s t := installationPhase_follows hE (fun _ _ => trivial) .direct
    config (fun _ => trivial) _ _ _ h
  rcases installationPhase_installs hE hs hun.unmoved h with ⟨hchain, hinstalls⟩
  refine ⟨hcourse, hchain, ?_⟩
  -- Nothing is installed inside of calls, so the chain moves by the additions of the phase.
  have hall : installs (since s t) = tierInstalls (since s t) :=
    (filterMap_outer Activity.installed? _ hun.no_installs).symm
  rw [hchain, hcourse.chain_names, hall, hinstalls, foldl_installs hs.names_nodup hsentinel
    hdetector]

/-- What a successful installation makes of the chain if no hook or factory interferes and no
    interceptor has a reserved name: the old names that are left, the sentinel, the interceptors in
    one stable sort, those that finalize metadata in another one behind them, and the listener
    detector. Each interceptor is there once, and a second installation leaves the chain as it
    is. -/
theorem installationPhase_chain (behaviour : Behaviour H) (facade : Facade) (depth : Nat)
    (config : Config) {s t : State H} {inst : Installation} (hs : s.container.Consistent)
    (hsentinel : sentinelName ∉ s.container.search config.interceptorQuery)
    (hdetector : listenerDetectorName ∉ s.container.search config.interceptorQuery)
    (hun : Undisturbed config.interceptorQuery s t)
    (h : ((Engine.ofDepth behaviour facade depth).installationPhase .direct config).run s
      = some (.ok inst, t)) :
    t.container.chain.names = inst.chain ∧
    inst.chain = chainOf s.container.chain.names
      (s.container.marking config.interceptorQuery) ∧
    (∀ name ∈ s.container.search config.interceptorQuery, inst.chain.count name = 1) ∧
    ∀ (inst' : Installation) (t' : State H),
      ((Engine.ofDepth behaviour facade depth).installationPhase .direct config).run t
        = some (.ok inst', t') →
      Undisturbed config.interceptorQuery t t' → inst'.chain = inst.chain := by
  have hE : (Engine.ofDepth behaviour facade depth).Lawful :=
    Engine.lawful_ofDepth behaviour facade depth
  rcases Engine.installationPhase_chainOf hE hs hsentinel hdetector hun h with
    ⟨hcourse, hchain, heq⟩
  refine ⟨hchain.symm, heq, ?_, ?_⟩
  · intro name hmem
    have hnames : (s.container.marking config.interceptorQuery).map Ranked.name
        = s.container.search config.interceptorQuery := marking_names
    rw [heq]
    refine count_chainOf ?_ (hnames ▸ hmem) ?_ ?_
    · rw [hnames]
      exact Container.nodup_search hs.names_nodup _
    · exact fun hname => hsentinel (hname ▸ hmem)
    · exact fun hname => hdetector (hname ▸ hmem)
  · intro inst' t' h' hun'
    -- The second installation starts from the closed form and looks up the same.
    have hrest : Course Anything t t := .rest t
    have hsearch := hcourse.search_eq hrest hs hun.unmoved
    rcases Engine.installationPhase_chainOf hE (hcourse.consistent hs) (hsearch ▸ hsentinel)
      (hsearch ▸ hdetector) hun' h' with ⟨_, _, heq'⟩
    rw [heq', hcourse.marking_eq hs hun.unmoved, ← hchain, heq, chainOf_chainOf]

namespace Scenarios

def interceptor (name : String) (placement : Placement) (merges : Bool) : Definition Bool where
  name := name
  typeName := name
  placement := placement
  capabilities := if merges then [.mergesDefinitionMetadata, .interceptsInstance]
    else [.interceptsInstance]
  maker := .hosted false

def fiveHooks : List (Definition Bool) :=
  [interceptor "reinstalled" {} false, interceptor "highestMerging" ⟨.highest, none⟩ true,
    interceptor "rank5" ⟨.ordered, some 5⟩ false,
    interceptor "rank1Merging" ⟨.ordered, some 1⟩ true,
    interceptor "rank1" ⟨.ordered, some 1⟩ false]

/-- The chain holds two hooks already. One of them is to be installed again. -/
def partlyInstalled : State host :=
  (stateOf fiveHooks).withContainer { (stateOf fiveHooks).container with
    chain := ⟨[⟨"reinstalled", .listenerDetector⟩, ⟨"earlier", .listenerDetector⟩]⟩ }

theorem partlyInstalled_consistent : partlyInstalled.container.Consistent := by
  have hconsistent : (stateOf fiveHooks).container.Consistent := stateOf_consistent (by decide)
  exact hconsistent.congr rfl rfl rfl

theorem report_of_partlyInstalled :
    (((Engine.ofDepth behaviour .direct 3).installationPhase .direct .standard).run
      partlyInstalled).map
      (fun r => (r.1.toOption.map Installation.chain,
        installs (inner (since partlyInstalled r.2)),
        (stores (since partlyInstalled r.2)).map Prod.fst))
      = some (some ["earlier", "meshestra.bootstrapSentinel", "rank1", "rank5", "reinstalled",
        "highestMerging", "rank1Merging", "meshestra.listenerDetector"], [], []) := by
  cbv

theorem partlyInstalled_chain : ∃ (inst : Installation) (t : State host),
    ((Engine.ofDepth behaviour .direct 3).installationPhase .direct .standard).run partlyInstalled
      = some (.ok inst, t) ∧
    Undisturbed Config.standard.interceptorQuery partlyInstalled t ∧
    t.container.chain.names
      = ["earlier", sentinelName, "rank1", "rank5", "reinstalled", "highestMerging",
        "rank1Merging", listenerDetectorName] ∧
    inst.chain = chainOf ["reinstalled", "earlier"]
      (partlyInstalled.container.marking Config.standard.interceptorQuery) := by
  rcases Option.map_eq_some_iff.1 report_of_partlyInstalled with ⟨⟨result, t⟩, hrun, hreport⟩
  simp only [Prod.mk.injEq, List.map_eq_nil_iff] at hreport
  rcases hreport with ⟨hanswer, hinstalls, hstores⟩
  rcases Option.map_eq_some_iff.1 hanswer with ⟨inst, hinst, hchain⟩
  cases eq_ok_of_toOption hinst
  have hun : Undisturbed Config.standard.interceptorQuery partlyInstalled t := by
    refine ⟨?_, ?_⟩
    · exact List.filterMap_eq_nil_iff.1 hinstalls
    · intro entry hentry
      rw [hstores] at hentry
      exact absurd hentry List.not_mem_nil
  rcases installationPhase_chain behaviour .direct 3 .standard partlyInstalled_consistent
    (by decide +kernel) (by decide +kernel) hun hrun with ⟨hnames, hclosed, _, _⟩
  exact ⟨inst, t, hrun, hun, hnames.trans hchain, hclosed⟩

end Scenarios

end ObjectBootstrap
