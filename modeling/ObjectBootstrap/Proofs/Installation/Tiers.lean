import ObjectBootstrap.Proofs.Container.Standing
import ObjectBootstrap.Proofs.Course.Runs

/-!
# Tiers of interceptors

The installation divides the interceptors among the tiers, builds each tier and installs it in
order. What it divides them by, and whether an interceptor finalizes metadata, is looked up name by
name while factories run in between. As long as these facts stay what they were (`Settled`), the
tiers come out as if all of them had been looked up at once, in the state from which the
installation starts.

## Main definitions

* `Config.interceptorQuery`: The query by which interceptors are looked for.
* `Container.marking`: The answers to a query with all that the installation looks up.
* `Settled`: What is looked up stays the same.
* `tierInstalls`: The names that a phase installs itself.
* `Adds`: The names that are added to the chain on the way between two states.

## Theorems

* `divide_settled`, `buildEach_settled`: The tiers, as they are looked up in the first state.
* `installTier_installs`: A tier is installed in the order of its sort.
* `Engine.run_installationPhase_parts`: An installation, part by part.
* `Engine.installation_ways`: The ways through the parts of an installation.
-/

namespace ObjectBootstrap

variable {H : Host}

/-- The query by which interceptors are looked for. -/
def Config.interceptorQuery (config : Config) : CapabilityQuery :=
  ⟨.interceptsInstance, config.includeNonSingletons, config.allowEagerInit⟩

/-- What the installation looks up of a definition: its placement, and whether it finalizes
    metadata. -/
def Definition.station {F : Type} (d : Definition F) : Placement × Bool :=
  (d.placement, d.hasCapability .mergesDefinitionMetadata)

/-- A name with what the installation looks up of it. -/
def Container.mark (k : Container H) (name : String) : Ranked Bool :=
  ⟨name, Facade.direct.classify k name, k.typeMatch name .mergesDefinitionMetadata⟩

/-- The answers to a query with all that the installation looks up, in registration order. -/
def Container.marking (k : Container H) (q : CapabilityQuery) : List (Ranked Bool) :=
  (k.search q).map k.mark

/-- The names of hooks in the order of their sort. -/
def sortedNames (hooks : List (Ranked Bool)) : List String :=
  (sortRanked hooks).map Ranked.name

/-- A built hook as it was looked up. -/
def Ranked.marked (r : Ranked (Object H.Content × Bool)) : Ranked Bool :=
  ⟨r.name, r.placement, r.hook.2⟩

/-- What is looked up of some names stays what it is in a first state. -/
def Settled (k : Container H) (names : List String) (s t : State H) : Prop :=
  ∀ u, Course Anything s u → Course Anything u t → ∀ name ∈ names,
    u.container.mark name = k.mark name

namespace Settled

variable {k : Container H} {names : List String} {s s' t t' : State H}

theorem inside (h : Settled k names s t) (h1 : Course Anything s s')
    (h2 : Course Anything t' t) : Settled k names s' t' :=
  fun u hu hu' => h u (h1.followedBy hu) (hu'.followedBy h2)

theorem subset {fewer : List String} (h : Settled k names s t) (hsub : ∀ n ∈ fewer, n ∈ names) :
    Settled k fewer s t :=
  fun u hu hu' name hmem => h u hu hu' name (hsub name hmem)

end Settled

-- What is looked up of a name is how it stands among the answers to a query.
theorem Container.mark_of_standing {k : Container H} {q : CapabilityQuery} {name : String}
    {placement : Placement} {merges : Bool}
    (h : k.standing q Definition.station name = some (placement, merges)) :
    k.mark name = ⟨name, placement, merges⟩ := by
  rcases Option.bind_eq_some_iff.1 h with ⟨d, hd, hstanding⟩
  rw [CapabilityQuery.standing] at hstanding
  split at hstanding
  · cases hstanding
    have hmerges : k.typeMatch name .mergesDefinitionMetadata
        = d.hasCapability .mergesDefinitionMetadata := by
      rw [typeMatch, hd, Option.any_some]
    rw [mark, Facade.classify_direct hd, hmerges]
  · cases hstanding

/-- If no stored definition moves an answer to a query, what is looked up of the answers stays. -/
theorem Unmoved.settled {q : CapabilityQuery} {s t : State H}
    (h : Unmoved q Definition.station s t) (hs : s.container.Consistent) :
    Settled s.container (s.container.search q) s t := by
  intro u h1 h2 name hmem
  rw [hs.mem_search_iff q Definition.station, Option.isSome_iff_exists] at hmem
  rcases hmem with ⟨⟨placement, merges⟩, hfirst⟩
  have hlater := (h1.standing_eq h2 h name).trans hfirst
  rw [Container.mark_of_standing hfirst, Container.mark_of_standing hlater]

namespace Engine

variable {E : Engine H} {k : Container H}

-- A built interceptor is as it was looked up.
theorem buildMarked_settled (hE : E.Lawful) {name : String} {s t : State H}
    {r : Ranked (Object H.Content × Bool)} (hset : Settled k [name] s t)
    (h : (E.buildMarked .direct (name, (k.mark name).placement)).run s = some (.ok r, t)) :
    r.marked = k.mark name := by
  have hcourse : Course Anything s t :=
    buildMarked_follows hE (fun _ _ => trivial) .direct _ _ _ _ h
  rcases Attempt.run_bind_eq_ok_iff.1 h with ⟨ranked, u, hbuild, hrest⟩
  rcases Attempt.run_bind_eq_ok_iff.1 hrest with ⟨k', v, hlook, hpure⟩
  cases hlook
  cases hpure
  rcases Attempt.run_bind_eq_ok_iff.1 hbuild with ⟨hook, w, _, hpure⟩
  cases hpure
  -- Whether it finalizes metadata is read behind the build, where nothing has moved.
  have hnow : t.container.mark name = k.mark name :=
    hset t hcourse (.rest t) name (List.mem_singleton_self name)
  have hmerges : t.container.typeMatch name .mergesDefinitionMetadata = (k.mark name).hook :=
    congrArg Ranked.hook hnow
  rw [Ranked.marked, hmerges]
  rfl

/-- A tier that is built candidate by candidate. -/
theorem buildEach_settled (hE : E.Lawful) :
    ∀ {names : List String} {s t : State H} {hooks : List (Ranked (Object H.Content × Bool))},
      Settled k names s t →
      (buildEach (E.buildMarked .direct) (names.map fun name =>
        (name, (k.mark name).placement))).run s = some (.ok hooks, t) →
        hooks.map Ranked.marked = names.map k.mark := by
  intro names
  induction names with
  | nil =>
      intro s t hooks _ h
      cases h
      rfl
  | cons name rest ih =>
      intro s t hooks hset h
      rcases Attempt.run_bind_eq_ok_iff.1 h with ⟨hook, u, hbuild, hrest⟩
      rcases Attempt.run_bind_eq_ok_iff.1 hrest with ⟨more, v, hmore, hpure⟩
      cases hpure
      have hsu : Course Anything s u :=
        buildMarked_follows hE (fun _ _ => trivial) .direct _ _ _ _ hbuild
      have hut : Course Anything u t :=
        buildEach_follows (buildMarked_follows hE (fun _ _ => trivial) .direct) _ _ _ _ hmore
      have hfirst := buildMarked_settled hE
        ((hset.inside (.rest s) hut).subset fun n hn => by simp_all) hbuild
      have hlater := ih ((hset.inside hsu (.rest t)).subset fun n hn =>
        List.mem_cons_of_mem name hn) hmore
      rw [List.map_cons, List.map_cons, hfirst, hlater]

/-- The names of a tier, as they are looked up. -/
def namesOfTier (k : Container H) (tier : Tier) (names : List String) : List String :=
  names.filter fun name => (k.mark name).placement.tier = tier

/-- The division among the tiers: the highest tier is built, and the others are candidates. -/
theorem divide_settled (hE : E.Lawful) :
    ∀ {names : List String} {s t : State H} {division : Division (Object H.Content × Bool)},
      Settled k names s t →
      (divide .direct (E.buildMarked .direct) names).run s = some (.ok division, t) →
        division.highest.map Ranked.marked = (namesOfTier k .highest names).map k.mark ∧
        division.ordered = (namesOfTier k .ordered names).map (fun name =>
          (name, (k.mark name).placement)) ∧
        division.plain = (namesOfTier k .plain names).map (fun name =>
          (name, (k.mark name).placement)) := by
  intro names
  induction names with
  | nil =>
      intro s t division _ h
      cases h
      exact ⟨rfl, rfl, rfl⟩
  | cons name rest ih =>
      intro s t division hset h
      have hcourse : Course Anything s t := divide_follows
        (buildMarked_follows hE (fun _ _ => trivial) .direct) _ _ _ _ h
      rcases Attempt.run_bind_eq_ok_iff.1 h with ⟨k', _, hlook, hrest⟩
      cases hlook
      -- The placement is read now, and the first state tells what it is.
      have hnow : s.container.mark name = k.mark name :=
        hset s (.rest s) hcourse name List.mem_cons_self
      have hplacement : Facade.direct.classify s.container name = (k.mark name).placement :=
        congrArg Ranked.placement hnow
      simp only [hplacement] at hrest
      have hsub : ∀ n ∈ rest, n ∈ name :: rest := fun n hn => List.mem_cons_of_mem name hn
      unfold namesOfTier
      cases htier : (k.mark name).placement.tier with
      | highest =>
          simp only [htier] at hrest
          rcases Attempt.run_bind_eq_ok_iff.1 hrest with ⟨hook, u, hbuild, hrest⟩
          rcases Attempt.run_bind_eq_ok_iff.1 hrest with ⟨more, v, hmore, hpure⟩
          cases hpure
          have hsu : Course Anything s u :=
            buildMarked_follows hE (fun _ _ => trivial) .direct _ _ _ _ hbuild
          have hut : Course Anything u t := divide_follows
            (buildMarked_follows hE (fun _ _ => trivial) .direct) _ _ _ _ hmore
          have hfirst := buildMarked_settled hE
            ((hset.inside (.rest s) hut).subset fun n hn => by simp_all) hbuild
          rcases ih ((hset.inside hsu (.rest t)).subset hsub) hmore with ⟨h1, h2, h3⟩
          rw [List.filter_cons_of_pos (by simp [htier]), List.filter_cons_of_neg (by simp [htier]),
            List.filter_cons_of_neg (by simp [htier]), List.map_cons, List.map_cons, hfirst]
          exact ⟨congrArg _ h1, h2, h3⟩
      | ordered =>
          simp only [htier] at hrest
          rcases Attempt.run_bind_eq_ok_iff.1 hrest with ⟨more, v, hmore, hpure⟩
          cases hpure
          rcases ih (hset.subset hsub) hmore with ⟨h1, h2, h3⟩
          rw [List.filter_cons_of_neg (by simp [htier]), List.filter_cons_of_pos (by simp [htier]),
            List.filter_cons_of_neg (by simp [htier]), List.map_cons]
          exact ⟨h1, congrArg _ h2, h3⟩
      | plain =>
          simp only [htier] at hrest
          rcases Attempt.run_bind_eq_ok_iff.1 hrest with ⟨more, v, hmore, hpure⟩
          cases hpure
          rcases ih (hset.subset hsub) hmore with ⟨h1, h2, h3⟩
          rw [List.filter_cons_of_neg (by simp [htier]), List.filter_cons_of_neg (by simp [htier]),
            List.filter_cons_of_pos (by simp [htier]), List.map_cons]
          exact ⟨h1, h2, congrArg _ h3⟩

end Engine

/-- The names that are installed outside of calls. -/
def tierInstalls (chronicle : List (Activity H)) : List String :=
  installs (outer chronicle)

theorem tierInstalls_followedBy {may may' : Activity H → Prop} {s t u : State H}
    (h1 : Course may s t) (h2 : Course may' t u) :
    tierInstalls (since s u) = tierInstalls (since s t) ++ tierInstalls (since t u) := by
  rw [h1.since_followedBy h2, tierInstalls, outer_append h1.nested, installs_append]
  rfl

-- Builds install nothing outside of calls.
theorem tierInstalls_of_builds {s t : State H} (h : Course Activity.OfBuild s t) :
    tierInstalls (since s t) = [] := by
  rw [tierInstalls, installs, List.filterMap_eq_nil_iff]
  intro activity hmem
  rcases h.outer_may activity hmem with hbuild | ⟨point, failure, rfl⟩
  · cases activity with
    | installed name => exact absurd hbuild id
    | _ => rfl
  · rfl

theorem install_installs {name : String} {hook : Hook H.Content} {s t : State H}
    (h : Run.install name hook s = some ((), t)) : tierInstalls (since s t) = [name] := by
  cases h
  have hdeed := Deed.install s name hook
  rw [tierInstalls]
  change installs (outer (since s ((s.withContainer (s.container.install name hook)).note
    (.installed name)))) = [name]
  rw [Course.since_deed hdeed, outer_remark hdeed.isRemark]
  rfl

/-- A tier is installed in the order of its sort. -/
theorem installTier_installs {hooks : List (Ranked (Object H.Content × Bool))} {s t : State H}
    (h : Engine.installTier hooks s = some ((), t)) :
    tierInstalls (since s t) = sortedNames (hooks.map Ranked.marked) := by
  have hnames : sortedNames (hooks.map Ranked.marked) = (sortRanked hooks).map Ranked.name := by
    rw [sortedNames, ← sortRanked_map (f := Ranked.marked) (fun _ => rfl), List.map_map]
    rfl
  rw [hnames]
  unfold Engine.installTier at h
  -- The rest of a sorted tier need not be the sort of anything, so the sort is forgotten.
  generalize sortRanked hooks = sorted at h ⊢
  induction sorted generalizing s with
  | nil =>
      cases h
      rw [since_self]
      rfl
  | cons ranked rest ih =>
      rcases Run.bind_eq_some_iff.1 h with ⟨_, u, hfirst, hrest⟩
      have hinstall : Course Anything s u := Run.follows_install _ trivial _ _ _ hfirst
      have hlater : Course Anything u t :=
        Engine.installEach_follows (fun _ => trivial) rest _ _ _ hrest
      rw [tierInstalls_followedBy hinstall hlater, install_installs hfirst, ih hrest]
      rfl

/-- The names that are added to the chain on the way between two states. -/
structure Adds (s t : State H) (names : List String) : Prop where
  course : Course Anything s t
  installs_eq : tierInstalls (since s t) = names

namespace Adds

variable {s t u : State H} {early late : List String}

theorem followedBy (h1 : Adds s t early) (h2 : Adds t u late) : Adds s u (early ++ late) := by
  refine ⟨h1.course.followedBy h2.course, ?_⟩
  rw [tierInstalls_followedBy h1.course h2.course, h1.installs_eq, h2.installs_eq]

theorem of_builds (h : Course Activity.OfBuild s t) : Adds s t [] :=
  ⟨h.anything, tierInstalls_of_builds h⟩

theorem of_install {name : String} {hook : Hook H.Content}
    (h : Run.install name hook s = some ((), t)) : Adds s t [name] :=
  ⟨Run.follows_install hook trivial _ _ _ h, install_installs h⟩

theorem of_post (s : State H) (target : Nat) : Adds s (s.post target) [sentinelName] := by
  have hquiet : Course Activity.OfBuild s { s with sentinels := s.sentinels ++ [⟨target, []⟩] } :=
    .quiet (.station s target)
  have hinstall : Run.install sentinelName (.sentinel s.sentinels.length)
      { s with sentinels := s.sentinels ++ [⟨target, []⟩] } = some ((), s.post target) := rfl
  exact (of_builds hquiet).followedBy (of_install hinstall)

theorem of_tier {hooks : List (Ranked (Object H.Content × Bool))}
    (h : Engine.installTier hooks s = some ((), t)) :
    Adds s t (sortedNames (hooks.map Ranked.marked)) :=
  ⟨Engine.installTier_follows (fun _ => trivial) hooks _ _ _ h, installTier_installs h⟩

end Adds

/-- A successful installation, part by part: what it found is divided and built tier by tier, and
    each tier is installed before the next one is built. -/
theorem Engine.run_installationPhase_parts {E : Engine H} {shown : Facade} {config : Config}
    {s t : State H} {inst : Installation}
    (h : (E.installationPhase shown config).run s = some (.ok inst, t)) :
    ∃ division ordered plain u1 u2 u3 u4 u5 u6 u7,
      (divide shown (E.buildMarked shown) (s.container.namesFor config.interceptorQuery).1).run
        ((s.withContainer (s.container.namesFor config.interceptorQuery).2).post inst.target)
          = some (.ok division, u1) ∧
      installTier division.highest u1 = some ((), u2) ∧
      (buildEach (E.buildMarked shown) division.ordered).run u2 = some (.ok ordered, u3) ∧
      installTier ordered u3 = some ((), u4) ∧
      (buildEach (E.buildMarked shown) division.plain).run u4 = some (.ok plain, u5) ∧
      installTier plain u5 = some ((), u6) ∧
      installTier ((division.highest ++ ordered ++ plain).filter fun ranked => ranked.hook.2) u6
        = some ((), u7) ∧
      Run.install listenerDetectorName .listenerDetector u7 = some ((), t) ∧
      inst = {
        target := s.container.chain.size + 1
          + (s.container.namesFor config.interceptorQuery).1.length
        chain := t.container.chain.names
        sentinel := s.sentinels.length } := by
  rcases Attempt.run_bind_eq_ok_iff.1 h with ⟨names, s1, hnames, h⟩
  cases hnames
  rcases Attempt.run_bind_eq_ok_iff.1 h with ⟨_, s2, hlook, h⟩
  cases hlook
  rcases Attempt.run_bind_eq_ok_iff.1 h with ⟨number, s3, hsentinel, h⟩
  cases hsentinel
  rcases Attempt.run_bind_eq_ok_iff.1 h with ⟨_, s4, hfirst, h⟩
  cases hfirst
  rcases Attempt.run_bind_eq_ok_iff.1 h with ⟨division, s5, hdivide, h⟩
  rcases Attempt.run_bind_eq_ok_iff.1 h with ⟨_, s6, hhighest, h⟩
  rcases Attempt.run_bind_eq_ok_iff.1 h with ⟨ordered, s7, hbuildOrdered, h⟩
  rcases Attempt.run_bind_eq_ok_iff.1 h with ⟨_, s8, hordered, h⟩
  rcases Attempt.run_bind_eq_ok_iff.1 h with ⟨plain, s9, hbuildPlain, h⟩
  rcases Attempt.run_bind_eq_ok_iff.1 h with ⟨_, s10, hplain, h⟩
  rcases Attempt.run_bind_eq_ok_iff.1 h with ⟨_, s11, hmergers, h⟩
  rcases Attempt.run_bind_eq_ok_iff.1 h with ⟨_, s12, hlast, h⟩
  rcases Attempt.run_bind_eq_ok_iff.1 h with ⟨_, s13, hend, h⟩
  cases hend
  cases h
  -- The query that finds the interceptors leaves the chain as it is.
  have hchain : (s.container.namesFor config.interceptorQuery).2.chain = s.container.chain :=
    Container.namesFor_chain _ _
  refine ⟨division, ordered, plain, s5, s6, s7, s8, s9, s10, s11, hdivide,
    Attempt.run_step_eq_ok_iff.1 hhighest, hbuildOrdered, Attempt.run_step_eq_ok_iff.1 hordered,
    hbuildPlain, Attempt.run_step_eq_ok_iff.1 hplain, Attempt.run_step_eq_ok_iff.1 hmergers,
    Attempt.run_step_eq_ok_iff.1 hlast, ?_⟩
  exact congrArg (fun chain : HookChain H.Content => Installation.mk
    (chain.size + 1 + (s.container.namesFor config.interceptorQuery).1.length) _ _) hchain

/-- The ways from the tiers of an installation to the point where only the listener detector is
    missing. -/
theorem Engine.installation_ways {E : Engine H} (hE : E.Lawful) {shown : Facade}
    {division : Division (Object H.Content × Bool)}
    {ordered plain mergers : List (Ranked (Object H.Content × Bool))}
    {u1 u2 u3 u4 u5 u6 u7 : State H} (hhighest : installTier division.highest u1 = some ((), u2))
    (hbuildOrdered :
      (buildEach (E.buildMarked shown) division.ordered).run u2 = some (.ok ordered, u3))
    (hordered : installTier ordered u3 = some ((), u4))
    (hbuildPlain : (buildEach (E.buildMarked shown) division.plain).run u4 = some (.ok plain, u5))
    (hplain : installTier plain u5 = some ((), u6))
    (hmergers : installTier mergers u6 = some ((), u7)) :
    Course Anything u1 u7 ∧ Course Anything u3 u7 ∧ Course Anything u5 u7 := by
  have hbuild := buildEach_follows (buildMarked_follows hE (fun _ _ => trivial) shown)
  have htier : ∀ hooks, Run.Follows Anything (installTier (H := H) hooks) :=
    installTier_follows fun _ => trivial
  have hfrom5 : Course Anything u5 u7 :=
    .followedBy (htier _ _ _ _ hplain) (htier _ _ _ _ hmergers)
  have hfrom3 : Course Anything u3 u7 :=
    .followedBy (htier _ _ _ _ hordered) (.followedBy (hbuild _ _ _ _ hbuildPlain) hfrom5)
  have hfrom1 : Course Anything u1 u7 :=
    .followedBy (htier _ _ _ _ hhighest) (.followedBy (hbuild _ _ _ _ hbuildOrdered) hfrom3)
  exact ⟨hfrom1, hfrom3, hfrom5⟩

end ObjectBootstrap
