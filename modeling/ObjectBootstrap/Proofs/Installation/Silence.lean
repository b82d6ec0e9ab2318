import Mathlib.Data.Finset.Card
import ObjectBootstrap.Proofs.Customization.Tiers
import ObjectBootstrap.Proofs.Installation.ChainOrder

/-!
# When a sentinel falls silent

A sentinel notes objects as long as the chain holds fewer hooks than its target. The chain never
becomes shorter, so once it holds as many, the sentinel notes nothing any more, whatever happens
(`Course.silent`).

Whether it comes to that is a matter of counting. The target is worked out in advance, as one for
each hook that is installed, one for the sentinel, and one for each interceptor that was found. But
a hook that is installed under a name of the chain takes the place of the old one, and the chain
does not become longer. The listener detector, which the target leaves out, makes up for one such
name. So the sentinel falls silent if the names that the chain holds in the end, each counted once,
are as many as the target. With two names in common it may never do so, and after a second
installation it never does.

## Theorems

* `Course.size_le`: The chain never becomes shorter.
* `Course.sentinel_kept`: A sentinel keeps its target.
* `Course.silent`: A sentinel whose target is reached notes nothing.
* `Engine.installationPhase_holds`: What the chain holds after an installation.
* `sentinel_silent`: When the sentinel of an installation is silent from its end on.
-/

namespace ObjectBootstrap

variable {H : Host}

theorem mem_moveLast {names : List String} {name n : String} :
    n ∈ moveLast names name ↔ n ∈ names ∨ n = name := by
  by_cases h : n = name
  · simp [moveLast, h]
  · simp [moveLast, h]

theorem nodup_moveLast {names : List String} (h : names.Nodup) (name : String) :
    (moveLast names name).Nodup := by
  rw [moveLast, List.nodup_append]
  refine ⟨h.filter _, List.pairwise_singleton _ _, fun a ha b hb heq => ?_⟩
  have hne := (List.mem_filter.1 ha).2
  rw [heq, List.mem_singleton.1 hb, bne_self_eq_false] at hne
  exact Bool.false_ne_true hne

-- Installing a hook again takes one name away and puts it back.
theorem length_le_moveLast {names : List String} (h : names.Nodup) (name : String) :
    names.length ≤ (moveLast names name).length := by
  have hsub : names.toFinset ⊆ (moveLast names name).toFinset := by
    intro n hn
    rw [List.mem_toFinset] at hn ⊢
    exact mem_moveLast.2 (Or.inl hn)
  rw [← List.toFinset_card_of_nodup h, ← List.toFinset_card_of_nodup (nodup_moveLast h name)]
  exact Finset.card_le_card hsub

theorem mem_foldl_moveLast {moved names : List String} {n : String} :
    n ∈ moved.foldl moveLast names ↔ n ∈ names ∨ n ∈ moved := by
  induction moved generalizing names with
  | nil => simp
  | cons name rest ih =>
      rw [List.foldl_cons, ih, mem_moveLast, List.mem_cons, or_assoc]

namespace Course

variable {may : Activity H → Prop} {s t : State H}

theorem chain_nodup (h : Course may s t) (hs : s.container.chain.names.Nodup) :
    t.container.chain.names.Nodup := by
  rw [h.chain_names]
  generalize s.container.chain.names = names at hs
  induction installs (since s t) generalizing names with
  | nil => exact hs
  | cons name rest ih => exact ih _ (nodup_moveLast hs name)

/-- The chain never becomes shorter. -/
theorem size_le (h : Course may s t) (hs : s.container.chain.names.Nodup) :
    s.container.chain.size ≤ t.container.chain.size := by
  rw [← HookChain.length_names, ← HookChain.length_names, h.chain_names]
  generalize s.container.chain.names = names at hs
  induction installs (since s t) generalizing names with
  | nil => exact Nat.le_refl _
  | cons name rest ih =>
      exact (length_le_moveLast hs name).trans (ih _ (nodup_moveLast hs name))

/-- A sentinel keeps its number and its target, whatever it notes. -/
theorem sentinel_kept (h : Course may s t) {number : Nat} {e : Sentinel}
    (he : s.sentinels[number]? = some e) :
    ∃ e', t.sentinels[number]? = some e' ∧ e'.target = e.target := by
  induction h generalizing e with
  | rest s => exact ⟨e, he, rfl⟩
  | followedBy _ _ ih1 ih2 =>
      rcases ih1 he with ⟨e', hmid, htarget⟩
      rcases ih2 hmid with ⟨e'', hlast, htarget'⟩
      exact ⟨e'', hlast, htarget'.trans htarget⟩
  | @quiet _ s _ h =>
      cases h with
      | station target =>
          have hlt := (List.getElem?_eq_some_iff.1 he).1
          exact ⟨e, (List.getElem?_append_left hlt).trans he, rfl⟩
      | watch other name =>
          dsimp only
          rw [List.getElem?_modify, he]
          refine ⟨_, rfl, ?_⟩
          dsimp only
          split
          · split <;> rfl
          · rfl
      | _ => exact ⟨e, he, rfl⟩
  | deed h _ => cases h <;> exact ⟨e, he, rfl⟩
  | call _ _ ih => exact ih he
  | request _ _ _ ih => exact ih he
  | update _ _ _ ih => exact ih he
  | build _ _ _ _ _ ih => exact ih he

/-- A sentinel whose target is reached notes nothing any more. -/
theorem silent (h : Course may s t) {number : Nat} {e : Sentinel}
    (he : s.sentinels[number]? = some e) (hs : s.container.chain.names.Nodup)
    (hfull : e.target ≤ s.container.chain.size) : t.sentinels[number]? = some e := by
  induction h with
  | rest s => exact he
  | followedBy h1 _ ih1 ih2 =>
      exact ih2 (ih1 he hs hfull) (h1.chain_nodup hs) (hfull.trans (h1.size_le hs))
  | @quiet _ s _ h =>
      cases h with
      | station target =>
          have hlt := (List.getElem?_eq_some_iff.1 he).1
          exact (List.getElem?_append_left hlt).trans he
      | watch other name =>
          -- Nothing is premature when there are enough hooks.
          have hnone : s.container.isPremature e.target name = false := by
            rw [Container.isPremature, decide_eq_false (Nat.not_lt.2 hfull), Bool.and_false]
          dsimp only
          rw [List.getElem?_modify, he]
          by_cases hother : other = number
          · simp [hother, hnone]
          · simp [hother]
      | _ => exact he
  | deed h _ => cases h <;> exact he
  | call _ _ ih => exact ih he hs hfull
  | request _ _ _ ih => exact ih he hs hfull
  | update _ _ _ ih => exact ih he hs hfull
  | build _ _ _ hk _ ih =>
      rcases Container.beginCreation_eq_ok hk with ⟨_, rfl⟩
      exact ih he hs hfull

end Course

namespace Engine

variable {E : Engine H} {shown : Facade} {config : Config}

theorem buildMarked_name {candidate : Candidate} {r : Ranked (Object H.Content × Bool)}
    {s t : State H} (h : (E.buildMarked shown candidate).run s = some (.ok r, t)) :
    r.name = candidate.1 := by
  rcases Attempt.run_bind_eq_ok_iff.1 h with ⟨ranked, u, hbuild, hrest⟩
  rcases Attempt.run_bind_eq_ok_iff.1 hrest with ⟨_, v, _, hpure⟩
  cases hpure
  rcases Attempt.run_bind_eq_ok_iff.1 hbuild with ⟨hook, w, _, hpure⟩
  cases hpure
  rfl

-- The tiers of an installation are what it found.
theorem tiers_perm {names : List String} {division : Division (Object H.Content × Bool)}
    {ordered plain : List (Ranked (Object H.Content × Bool))} {s s' u u' v v' : State H}
    (hdivide : (divide shown (E.buildMarked shown) names).run s = some (.ok division, s'))
    (hordered : (buildEach (E.buildMarked shown) division.ordered).run u = some (.ok ordered, u'))
    (hplain : (buildEach (E.buildMarked shown) division.plain).run v = some (.ok plain, v')) :
    ((division.highest ++ ordered ++ plain).map Ranked.name).Perm names := by
  rw [List.map_append, List.map_append, buildEach_names buildMarked_name hordered,
    buildEach_names buildMarked_name hplain]
  exact divide_perm buildMarked_name hdivide

theorem mem_sortedNames_marked {hooks : List (Ranked (Object H.Content × Bool))} {n : String} :
    n ∈ sortedNames (hooks.map Ranked.marked) ↔ n ∈ hooks.map Ranked.name := by
  rw [mem_sortedNames, List.map_map]
  rfl

/-- After an installation the chain holds what it held before, the sentinel, the listener detector,
    and all that was found. -/
theorem installationPhase_holds (hE : E.Lawful) {s t : State H} {inst : Installation}
    (h : (E.installationPhase shown config).run s = some (.ok inst, t)) {n : String}
    (hn : n ∈ s.container.chain.names ++ sentinelName :: listenerDetectorName ::
      (s.container.namesFor config.interceptorQuery).1) :
    n ∈ t.container.chain.names := by
  rcases run_installationPhase_parts h with ⟨division, ordered, plain, u1, u2, u3, u4, u5, u6, u7,
    hdivide, hhighest, hbuildOrdered, hordered, hbuildPlain, hplain, hmergers, hlast, _⟩
  have hmarked : ∀ candidate, Attempt.Follows Activity.OfBuild (E.buildMarked shown candidate) :=
    buildMarked_follows hE (fun _ => id) shown
  have hwhole := (Adds.of_builds (.quiet (.search s config.interceptorQuery))).followedBy
    ((Adds.of_post _ inst.target).followedBy
    ((Adds.of_builds (divide_follows hmarked _ _ _ _ hdivide)).followedBy
    ((Adds.of_tier hhighest).followedBy
    ((Adds.of_builds (buildEach_follows hmarked _ _ _ _ hbuildOrdered)).followedBy
    ((Adds.of_tier hordered).followedBy
    ((Adds.of_builds (buildEach_follows hmarked _ _ _ _ hbuildPlain)).followedBy
    ((Adds.of_tier hplain).followedBy
    ((Adds.of_tier hmergers).followedBy (Adds.of_install hlast)))))))))
  have htiers := (tiers_perm hdivide hbuildOrdered hbuildPlain).mem_iff (a := n)
  -- What the phase installs itself is installed, whatever is installed in calls.
  have hall : ∀ m ∈ tierInstalls (since s t), m ∈ installs (since s t) := by
    intro m hm
    rcases List.mem_filterMap.1 hm with ⟨activity, hactivity, hinstalled⟩
    rcases List.mem_map.1 hactivity with ⟨entry, hentry, rfl⟩
    have hmem := List.mem_map_of_mem (f := Prod.snd) (List.mem_of_mem_filter hentry)
    rw [map_snd_tagged] at hmem
    exact List.mem_filterMap.2 ⟨_, hmem, hinstalled⟩
  rw [hwhole.course.chain_names, mem_foldl_moveLast]
  refine (List.mem_append.1 hn).imp id fun hnew => hall n ?_
  rw [hwhole.installs_eq]
  simp only [List.mem_append, mem_sortedNames_marked, List.map_append] at htiers ⊢
  rw [List.mem_cons, List.mem_cons, ← htiers] at hnew
  simp only [List.not_mem_nil, List.mem_singleton, false_or]
  tauto

/-- The sentinel of an installation is there in the end, with the target that was worked out for
    it. -/
theorem installationPhase_sentinel (hE : E.Lawful) {s t : State H} {inst : Installation}
    (h : (E.installationPhase shown config).run s = some (.ok inst, t)) :
    inst.target = s.container.chain.size + 1
        + (s.container.namesFor config.interceptorQuery).1.length ∧
      ∃ e, t.sentinels[inst.sentinel]? = some e ∧ e.target = inst.target := by
  rcases run_installationPhase_parts h with ⟨division, ordered, plain, u1, u2, u3, u4, u5, u6, u7,
    hdivide, hhighest, hbuildOrdered, hordered, hbuildPlain, hplain, hmergers, hlast, hinst⟩
  have hmarked : ∀ candidate, Attempt.Follows Anything (E.buildMarked shown candidate) :=
    buildMarked_follows hE (fun _ _ => trivial) shown
  have hways := installation_ways hE hhighest hbuildOrdered hordered hbuildPlain hplain hmergers
  have hrest : Course Anything
      ((s.withContainer (s.container.namesFor config.interceptorQuery).2).post inst.target) t :=
    .followedBy (divide_follows hmarked _ _ _ _ hdivide) <|
    .followedBy hways.1 (Run.follows_install _ trivial _ _ _ hlast)
  have hposted : ((s.withContainer (s.container.namesFor config.interceptorQuery).2).post
      inst.target).sentinels[inst.sentinel]? = some ⟨inst.target, []⟩ := by
    rw [congrArg Installation.sentinel hinst]
    exact List.getElem?_concat_length
  exact ⟨congrArg Installation.target hinst, hrest.sentinel_kept hposted⟩

end Engine

/-- The sentinel of an installation is silent from its end on if the names that the chain holds by
    then, each counted once, are as many as the sentinel counts on: no later program of whatever
    embedding makes it note an object. -/
theorem sentinel_silent (behaviour behaviour' : Behaviour H) (facade facade' shown shown' : Facade)
    (depth depth' : Nat) (config : Config) {s t u : State H} {inst : Installation}
    (hs : s.container.chain.names.Nodup)
    (hroom : s.container.chain.size + 1
        + (s.container.namesFor config.interceptorQuery).1.length
      ≤ (s.container.chain.names ++ sentinelName :: listenerDetectorName ::
        (s.container.namesFor config.interceptorQuery).1).toFinset.card)
    (h : ((Engine.ofDepth behaviour facade depth).installationPhase shown config).run s
      = some (.ok inst, t)) {α : Type} {later : Prog H α} {a : α}
    (hlater : (Engine.ofDepth behaviour' facade' depth').run shown' later t = some (a, u)) :
    ∃ e, t.sentinels[inst.sentinel]? = some e ∧ e.target = inst.target ∧
      u.sentinels[inst.sentinel]? = some e := by
  have hE : (Engine.ofDepth behaviour facade depth).Lawful :=
    Engine.lawful_ofDepth behaviour facade depth
  have hcourse : Course Anything s t :=
    Engine.installationPhase_follows hE (fun _ _ => trivial) shown config (fun _ => trivial) _ _ _ h
  have hnodup := hcourse.chain_nodup hs
  rcases Engine.installationPhase_sentinel hE h with ⟨htarget, e, he, hetarget⟩
  -- Each of the names is in the chain, and the chain holds no name twice.
  have hfull : inst.target ≤ t.container.chain.size := by
    rw [htarget, ← t.container.chain.length_names, ← List.toFinset_card_of_nodup hnodup]
    refine hroom.trans (Finset.card_le_card fun n hn => ?_)
    rw [List.mem_toFinset] at hn ⊢
    exact Engine.installationPhase_holds hE h hn
  have hafter : Course Anything t u :=
    Engine.lawful_ofDepth behaviour' facade' depth' shown' later _ _ _ hlater
  exact ⟨e, he, hetarget, hafter.silent he hnodup (hetarget ▸ hfull)⟩

namespace Scenarios

def service : Definition Bool where
  name := "service"
  typeName := "service"
  maker := .hosted false

/-- The chain holds two hooks already. One of them is to be installed again. -/
def withEarlierHooks : State host :=
  (stateOf [interceptor "reinstalled" {} false, service]).withContainer
    { (stateOf [interceptor "reinstalled" {} false, service]).container with
      chain := ⟨[⟨"reinstalled", .listenerDetector⟩, ⟨"earlier", .listenerDetector⟩]⟩ }

theorem withEarlierHooks_nodup : withEarlierHooks.container.chain.names.Nodup := by
  decide

/-- The chain comes to hold the two hooks, the sentinel and the listener detector, which are as many
    as the sentinel counts on. -/
theorem withEarlierHooks_room : withEarlierHooks.container.chain.size + 1
      + (withEarlierHooks.container.namesFor Config.standard.interceptorQuery).1.length
    ≤ (withEarlierHooks.container.chain.names ++ sentinelName :: listenerDetectorName ::
      (withEarlierHooks.container.namesFor Config.standard.interceptorQuery).1).toFinset.card := by
  decide +kernel

abbrev plainEngine : Engine host := Engine.ofDepth behaviour .direct 3

def getService : Prog host (Except Error (Object Bool)) := Prog.request (.getOrBuild "service")

/-- An installation, and what its sentinel noted by then and after the service was built. -/
def installThenGet : Attempt host (Option Sentinel × Option Sentinel) := do
  let inst ← plainEngine.installationPhase .direct .standard
  let s ← get
  let _ ← Attempt.step (plainEngine.run .direct getService)
  let t ← get
  return (s.sentinels[inst.sentinel]?, t.sentinels[inst.sentinel]?)

theorem report_of_installThenGet : (answer? (installThenGet.run withEarlierHooks)).map (fun r =>
    (r.1.map Sentinel.premature, r.2.map Sentinel.premature)) = some (some [], some []) := by
  decide +kernel

-- The runs of the two steps.
theorem runs_of_installThenGet {s : State host} {r : Option Sentinel × Option Sentinel}
    {u : State host}
    (h : installThenGet.run s = some (.ok r, u)) :
    ∃ inst t a, (plainEngine.installationPhase .direct .standard).run s = some (.ok inst, t) ∧
      plainEngine.run .direct getService t = some (a, u) ∧
      r = (t.sentinels[inst.sentinel]?, u.sentinels[inst.sentinel]?) := by
  rcases Attempt.run_bind_eq_ok_iff.1 h with ⟨inst, t, hphase, h⟩
  rcases Attempt.run_bind_eq_ok_iff.1 h with ⟨_, _, hstate, h⟩
  cases hstate
  rcases Attempt.run_bind_eq_ok_iff.1 h with ⟨a, v, hget, h⟩
  rcases Attempt.run_bind_eq_ok_iff.1 h with ⟨_, _, hstate, h⟩
  cases hstate
  cases h
  exact ⟨inst, t, a, hphase, Attempt.run_step_eq_ok_iff.1 hget, rfl⟩

/-- One hook was installed already, and still the sentinel is silent when the service is built. -/
theorem reinstalled_hook_silent : ∃ (inst : Installation) (t u : State host)
    (a : Except Error (Object Bool)) (e : Sentinel),
    (plainEngine.installationPhase .direct .standard).run withEarlierHooks = some (.ok inst, t) ∧
    plainEngine.run .direct getService t = some (a, u) ∧
    withEarlierHooks.container.chain.names = ["reinstalled", "earlier"] ∧
    t.sentinels[inst.sentinel]? = some e ∧ u.sentinels[inst.sentinel]? = some e ∧
    e.premature = [] := by
  rcases Option.map_eq_some_iff.1 report_of_installThenGet with ⟨r, hr, hnoted⟩
  rcases exists_of_answer? hr with ⟨u, hrun⟩
  rcases runs_of_installThenGet hrun with ⟨inst, t, a, hphase, hget, rfl⟩
  rcases sentinel_silent behaviour behaviour .direct .direct .direct .direct 3 3 .standard
    withEarlierHooks_nodup withEarlierHooks_room hphase hget with ⟨e, he, _, he'⟩
  refine ⟨inst, t, u, a, e, hphase, hget, rfl, he, he', ?_⟩
  have hnone := congrArg Prod.fst hnoted
  rw [he] at hnone
  exact Option.some.inj hnone

/-- The same behind another installation. -/
def installTwiceThenGet : Attempt host (Option Sentinel × Option Sentinel) := do
  let _ ← plainEngine.installationPhase .direct .standard
  installThenGet

theorem report_of_installTwiceThenGet :
    (answer? (installTwiceThenGet.run (stateOf [service]))).map (fun r =>
    (r.1.map Sentinel.premature, r.2.map Sentinel.premature))
      = some (some [], some ["service"]) := by
  decide +kernel

/-- The sentinel of a second installation counts on the sentinel and the listener detector of the
    first one, whose places its own take. So it notes the service, which is built long after the
    installation is over. -/
theorem second_sentinel_not_silent : ∃ (first second : Installation) (s t u : State host)
    (a : Except Error (Object Bool)),
    (plainEngine.installationPhase .direct .standard).run (stateOf [service])
      = some (.ok first, s) ∧
    (plainEngine.installationPhase .direct .standard).run s = some (.ok second, t) ∧
    plainEngine.run .direct getService t = some (a, u) ∧
    t.sentinels[second.sentinel]?.map Sentinel.premature = some [] ∧
    u.sentinels[second.sentinel]?.map Sentinel.premature = some ["service"] := by
  rcases Option.map_eq_some_iff.1 report_of_installTwiceThenGet with ⟨r, hr, hnoted⟩
  rcases exists_of_answer? hr with ⟨u, hrun⟩
  rcases Attempt.run_bind_eq_ok_iff.1 hrun with ⟨first, s, hfirst, hinstalled⟩
  rcases runs_of_installThenGet hinstalled with ⟨second, t, a, hphase, hget, rfl⟩
  exact ⟨first, second, s, t, u, a, hfirst, hphase, hget, congrArg Prod.fst hnoted,
    congrArg Prod.snd hnoted⟩

end Scenarios

end ObjectBootstrap
