import ObjectBootstrap.Proofs.Building.Passing

/-!
# How caches grow

What a build that succeeds does to a wired container: it adds singletons, and nothing else remains
of it. `Growth` says so for the states before and behind any number of such builds, and it says what
the added singletons are owed to. Each of them could be built before, all that it depends on is done
now, and its factory was called exactly once, a call that went on until every dependency had been
answered. So growth counts factory calls without looking at any single build: together with the
singletons that were kept before they are the singletons that are kept now.

Growth is transitive, and it is all that is known of the builds inside of a factory. `Stages` is the
build around such a factory, from the copy of its definition to the object that is answered.

## Main definitions

* `factoryCalls`: The names whose factories are called.
* `BuiltUpon`: A factory is called, and all its dependencies are answered in the call.
* `Growth`: Singletons were added, each by one call of its factory.
* `Resolved`: The object of a name was asked for and answered.
* `Stages`: The stages of a build that succeeds.

## Theorems

* `Growth.refl`, `Growth.trans`, `Passing.growth`: Growth is put together.
* `Growth.reaches`: Everything reached from a name that is done is done.
* `Stages.growth`: A build grows by what its factory asked for, and by its own singleton.
-/

namespace ObjectBootstrap

variable {H : Host}

/-- The name whose factory an entry tells to be called. -/
def Activity.called? : Activity H → Option String
  | .entered (.make name _) => some name
  | _ => none

/-- The names whose factories are called, as often as they are. -/
def factoryCalls (chronicle : List (Activity H)) : List String :=
  chronicle.filterMap Activity.called?

/-- The factory of a name is called, and it returns when the objects of all its dependencies have
    been answered. -/
def BuiltUpon (deps : String → List String) (chronicle : List (Activity H)) (name : String) :
    Prop :=
  ∃ before body behind d,
    chronicle = before ++ .entered (.make name d) :: body ++ .left (.make name d) none :: behind ∧
      ∀ next ∈ deps name, ∃ object, .answered next (some object) ∈ body

/-- Singletons were added, each by one call of its factory. -/
structure Growth (deps : String → List String) (s t : State H) : Prop where
  log_suffix : s.log <:+ t.log
  definitions_eq : t.container.definitions = s.container.definitions
  chain_eq : t.container.chain = s.container.chain
  inCreation_eq : t.container.inCreation = s.container.inCreation
  kept : ∀ name object, s.container.singletons.get? name = some object →
    t.container.singletons.get? name = some object
  /-- The names that are under way wait for the ends of their builds. -/
  underway : ∀ name ∈ s.container.inCreation,
    t.container.singletons.get? name = s.container.singletons.get? name
  buildable : ∀ name object, t.container.singletons.get? name = some object →
    Buildable deps s.container name
  fresh : ∀ name object, s.container.singletons.get? name = none →
    t.container.singletons.get? name = some object →
      (∀ next ∈ deps name, Done deps t.container next) ∧ BuiltUpon deps (since s t) name
  calls : ∀ name d, s.container.definitions.get? name = some d → d.isSingleton = true →
    (factoryCalls (since s t)).count name + (s.container.containsSingleton name).toNat
      = (t.container.containsSingleton name).toNat

/-- The object of a name was asked for on the way and is answered, because the name could be built
    and is done now. -/
structure Resolved (deps : String → List String) (s t : State H) (name : String) : Prop where
  buildable : Buildable deps s.container name
  done : Done deps t.container name
  answered : ∃ object, .answered name (some object) ∈ since s t

theorem factoryCalls_append (early late : List (Activity H)) :
    factoryCalls (early ++ late) = factoryCalls early ++ factoryCalls late :=
  List.filterMap_append

-- Where no factory is mentioned, none is called.
theorem factoryCalls_eq_nil {chronicle : List (Activity H)}
    (h : ∀ activity ∈ chronicle, activity.factory? = none) : factoryCalls chronicle = [] := by
  refine List.filterMap_eq_nil_iff.2 ?_
  intro activity hmem
  have hnone := h activity hmem
  unfold Activity.called?
  split
  · cases hnone
  · rfl

theorem BuiltUpon.append {deps : String → List String} {chronicle : List (Activity H)}
    {name : String} (h : BuiltUpon deps chronicle name) (early late : List (Activity H)) :
    BuiltUpon deps (early ++ chronicle ++ late) name := by
  rcases h with ⟨before, body, behind, d, rfl, hdeps⟩
  refine ⟨early ++ before, body, behind ++ late, d, ?_, hdeps⟩
  simp only [List.append_assoc, List.cons_append]

-- A chronicle with two entries in it, and what happened before, between and behind them.
theorem since_around {s u v w : State H} {first last : Activity H} (hsu : s.log <:+ u.log)
    (huv : (u.note first).log <:+ v.log) (hvw : (v.note last).log <:+ w.log) :
    since s w = since s u ++ first :: since (u.note first) v
      ++ last :: since (v.note last) w := by
  have hsu' : s.log <:+ (u.note first).log := hsu.trans (List.suffix_cons _ _)
  have hsv : s.log <:+ v.log := hsu'.trans huv
  rw [since_append (hsv.trans (List.suffix_cons _ _)) hvw, since_note hsv, since_append hsu' huv,
    since_note hsu]
  simp only [List.append_assoc, List.cons_append, List.nil_append]

/-- Objects that pass through hooks make nothing grow. -/
theorem Passing.growth {deps : String → List String} {s t : State H} (h : Passing s t) :
    Growth deps s t := by
  have hcontainer := h.container_eq
  refine ⟨h.log_suffix, ?_, ?_, ?_, ?_, ?_, ?_, ?_, ?_⟩
  · rw [hcontainer]
  · rw [hcontainer]
  · rw [hcontainer]
  · rw [hcontainer]
    exact fun _ _ hkept => hkept
  · rw [hcontainer]
    exact fun _ _ => rfl
  · rw [hcontainer]
    exact fun _ _ hkept => .kept hkept
  · rw [hcontainer]
    intro name object hnone hkept
    rw [hnone] at hkept
    cases hkept
  · intro name d _ _
    rw [hcontainer, factoryCalls_eq_nil h.no_factory, List.count_nil, Nat.zero_add]

namespace Growth

variable {deps : String → List String} {s t u : State H}

theorem refl (s : State H) : Growth deps s s := (Passing.refl s).growth

theorem unkept (h : Growth deps s t) (name : String)
    (hname : t.container.singletons.get? name = none) :
    s.container.singletons.get? name = none := by
  cases hs : s.container.singletons.get? name with
  | none => rfl
  | some object =>
      rw [h.kept name object hs] at hname
      cases hname

theorem buildable_of (h : Growth deps s t) {name : String}
    (hname : Buildable deps t.container name) : Buildable deps s.container name :=
  hname.of_grown h.definitions_eq h.buildable

theorem done_of (h : Growth deps s t) {name : String} (hname : Done deps s.container name) :
    Done deps t.container name :=
  hname.mono h.definitions_eq h.kept

theorem trans (h1 : Growth deps s t) (h2 : Growth deps t u) : Growth deps s u := by
  refine ⟨h1.log_suffix.trans h2.log_suffix, h2.definitions_eq.trans h1.definitions_eq,
    h2.chain_eq.trans h1.chain_eq, h2.inCreation_eq.trans h1.inCreation_eq, ?_, ?_, ?_, ?_, ?_⟩
  · exact fun name object hkept => h2.kept name object (h1.kept name object hkept)
  · intro name hname
    exact (h2.underway name (h1.inCreation_eq ▸ hname)).trans (h1.underway name hname)
  · exact fun name object hkept => h1.buildable_of (h2.buildable name object hkept)
  · intro name object hnone hkept
    have hsince := since_append h1.log_suffix h2.log_suffix
    -- The singleton was added on the first part of the way or on the second.
    cases ht : t.container.singletons.get? name with
    | none =>
        rcases h2.fresh name object ht hkept with ⟨hdeps, hbuilt⟩
        refine ⟨hdeps, ?_⟩
        have hlate := hbuilt.append (since s t) []
        rwa [List.append_nil, ← hsince] at hlate
    | some middle =>
        rcases h1.fresh name middle hnone ht with ⟨hdeps, hbuilt⟩
        refine ⟨fun next hnext => h2.done_of (hdeps next hnext), ?_⟩
        have hearly := hbuilt.append [] (since t u)
        rwa [List.nil_append, ← hsince] at hearly
  · intro name d hd hsingleton
    have hfirst := h1.calls name d hd hsingleton
    have hsecond := h2.calls name d (h1.definitions_eq ▸ hd) hsingleton
    rw [since_append h1.log_suffix h2.log_suffix, factoryCalls_append, List.count_append]
    omega

/-- Everything that was reached from a name is done once the name is done. -/
theorem reaches (h : Growth deps s t) {name last : String} (hname : Done deps t.container name)
    (hlast : Reaches deps s.container name last) : Done deps t.container last := by
  rcases hlast with ⟨hunkept, hpath⟩
  induction hpath with
  | refl => exact hname
  | @tail middle next hpath hstep ih =>
      cases ih with
      | kept hkept =>
          have hmiddle := Reaches.unkept ⟨hunkept, hpath⟩
          exact (h.fresh middle _ hmiddle hkept).1 next hstep.1
      | renewed _ _ hdeps => exact hdeps next hstep.1

end Growth

namespace Resolved

variable {deps : String → List String} {s t u : State H} {name : String}

-- Seen from an earlier state.
theorem earlier (h : Resolved deps t u name) (hst : Growth deps s t) (htu : t.log <:+ u.log) :
    Resolved deps s u name := by
  rcases h.answered with ⟨object, hobject⟩
  refine ⟨hst.buildable_of h.buildable, h.done, object, ?_⟩
  rw [since_append hst.log_suffix htu]
  exact List.mem_append_right _ hobject

-- Seen in a later state.
theorem later (h : Resolved deps s t name) (hst : s.log <:+ t.log) (htu : Growth deps t u) :
    Resolved deps s u name := by
  rcases h.answered with ⟨object, hobject⟩
  refine ⟨h.buildable, htu.done_of h.done, object, ?_⟩
  rw [since_append hst htu.log_suffix]
  exact List.mem_append_left _ hobject

end Resolved

/-- A container in which the build of one more name is under way. -/
def Container.begun (k : Container H) (name : String) : Container H :=
  { k with inCreation := k.inCreation ++ [name] }

/-- The stages of a build that succeeds: hooks have edited the copy of its definition, its factory
    has returned an object, and the object has passed through the hooks. -/
structure Stages (deps : String → List String) (s : State H) (name : String)
    (d copy : Definition H.Factory) (object : Object H.Content) (u v w : State H) : Prop where
  registered : s.container.definitions.get? name = some d
  concrete : d.isAbstract = false
  unkept : s.container.singletons.get? name = none
  absent : name ∉ s.container.inCreation
  edited : d.EditedTo copy
  merged : Passing (s.withContainer (s.container.begun name)) u
  made : Growth deps (u.note (.entered (.make name copy))) v
  resolved : ∀ next ∈ deps name, Resolved deps (u.note (.entered (.make name copy))) v next
  passed : Passing (((v.note (.left (.make name copy) none)).note (.made name object)).withContainer
    (v.container.keepTarget name object)) w

namespace Stages

variable {deps : String → List String} {s u v w : State H} {name : String}
  {d copy : Definition H.Factory} {object : Object H.Content}

/-- The state in which a build ends that went through these stages. -/
abbrev ended (w : State H) (name : String) (copy : Definition H.Factory)
    (object : Object H.Content) : State H :=
  w.withContainer (w.container.finishBuild name (some ⟨copy, object⟩))

variable (h : Stages deps s name d copy object u v w)
include h

-- What the container is like when the factory is called.
theorem container_called : u.container = s.container.begun name :=
  h.merged.container_eq

theorem definitions_called : u.container.definitions = s.container.definitions := by
  rw [h.container_called]
  rfl

theorem singletons_called : u.container.singletons = s.container.singletons := by
  rw [h.container_called]
  rfl

theorem unkept_made : v.container.singletons.get? name = none := by
  have hname : name ∈ (u.note (.entered (.make name copy))).container.inCreation := by
    rw [State.note_container, h.container_called]
    exact List.mem_append_right _ (List.mem_singleton_self name)
  rw [h.made.underway name hname, State.note_container, h.container_called]
  exact h.unkept

-- The singletons at the end are those of the factory, and the new one if it is kept.
theorem get?_ended (n : String) : (ended w name copy object).container.singletons.get? n
    = if d.isSingleton = true ∧ n = name then some object
      else v.container.singletons.get? n := by
  rw [State.withContainer_container, Container.finishBuild_ok_singletons, h.passed.container_eq]
  change (if copy.isSingleton = true then _ else _ : NameTable _).get? n = _
  rw [h.edited.lastsAs.isSingleton_eq]
  by_cases hsingleton : d.isSingleton = true
  · rw [if_pos hsingleton]
    refine (NameTable.get?_insert _ name n object).trans ?_
    simp only [hsingleton, true_and]
    rfl
  · rw [if_neg hsingleton, if_neg fun hboth => hsingleton hboth.1]
    rfl

theorem kept_ended (n : String) (o : Object H.Content)
    (hn : v.container.singletons.get? n = some o) :
    (ended w name copy object).container.singletons.get? n = some o := by
  have hne : n ≠ name := by
    rintro rfl
    rw [h.unkept_made] at hn
    cases hn
  rw [h.get?_ended, if_neg fun hboth => hne hboth.2, hn]

theorem definitions_ended :
    (ended w name copy object).container.definitions = s.container.definitions := by
  rw [State.withContainer_container, Container.finishBuild_definitions, h.passed.container_eq]
  exact h.made.definitions_eq.trans h.definitions_called

-- What happens up to the end, with the call of the factory in the middle of it.
theorem since_ended : ∃ early late, since s (ended w name copy object)
      = early ++ .entered (.make name copy) :: since (u.note (.entered (.make name copy))) v
        ++ .left (.make name copy) none :: late ∧
    s.log <:+ (ended w name copy object).log ∧
    factoryCalls early = [] ∧ factoryCalls late = [] := by
  have hmade : (v.note (.left (.make name copy) none)).log
      <:+ ((v.note (.left (.make name copy) none)).note (.made name object)).log :=
    List.suffix_cons _ _
  have hvw : (v.note (.left (.make name copy) none)).log <:+ w.log :=
    hmade.trans h.passed.log_suffix
  refine ⟨since s u, since (v.note (.left (.make name copy) none)) w, ?_, ?_, ?_, ?_⟩
  · exact since_around h.merged.log_suffix h.made.log_suffix hvw
  · exact h.merged.log_suffix.trans ((List.suffix_cons _ _).trans
      (h.made.log_suffix.trans ((List.suffix_cons _ _).trans hvw)))
  · exact factoryCalls_eq_nil h.merged.no_factory
  · have hlast : factoryCalls (since
        ((v.note (.left (.make name copy) none)).note (.made name object)) w) = [] :=
      factoryCalls_eq_nil h.passed.no_factory
    rw [since_append hmade h.passed.log_suffix, factoryCalls_append, hlast,
      since_note List.suffix_rfl, since_self]
    rfl

-- The factory of the build is called first, and then those below it.
theorem calls_ended : factoryCalls (since s (ended w name copy object))
    = name :: factoryCalls (since (u.note (.entered (.make name copy))) v) := by
  rcases h.since_ended with ⟨early, late, hsince, _, hearly, hlate⟩
  rw [hsince, factoryCalls_append, factoryCalls_append, hearly, List.nil_append]
  change (name :: factoryCalls (since (u.note (.entered (.make name copy))) v))
    ++ factoryCalls late = _
  rw [hlate, List.append_nil]

theorem done_ended {n : String} (hn : Done deps v.container n) :
    Done deps (ended w name copy object).container n := by
  refine hn.mono ?_ h.kept_ended
  exact h.definitions_ended.trans (h.made.definitions_eq.trans h.definitions_called).symm

-- Nothing that is said of builds looks at what is under way.
theorem buildable_called {n : String} (hn : Buildable deps u.container n) :
    Buildable deps s.container n := by
  refine hn.of_grown h.definitions_called ?_
  intro m o hkept
  exact .kept (h.singletons_called ▸ hkept)

theorem buildable : Buildable deps s.container name :=
  .built ⟨d, h.registered, h.concrete⟩
    fun next hnext => h.buildable_called (h.resolved next hnext).buildable

theorem done : Done deps (ended w name copy object).container name := by
  cases hsingleton : d.isSingleton with
  | true => exact .kept ((h.get?_ended name).trans (if_pos ⟨hsingleton, rfl⟩))
  | false =>
      refine .renewed (h.definitions_ended ▸ h.registered) hsingleton ?_
      exact fun next hnext => h.done_ended (h.resolved next hnext).done

theorem chain_ended : (ended w name copy object).container.chain = s.container.chain := by
  rw [State.withContainer_container, Container.finishBuild_chain, h.passed.container_eq]
  refine h.made.chain_eq.trans ?_
  rw [State.note_container, h.container_called]
  rfl

theorem inCreation_ended :
    (ended w name copy object).container.inCreation = s.container.inCreation := by
  have hlast : w.container.inCreation = s.container.inCreation ++ [name] := by
    rw [h.passed.container_eq]
    refine h.made.inCreation_eq.trans ?_
    rw [State.note_container, h.container_called]
    rfl
  rw [State.withContainer_container, Container.finishBuild_inCreation, hlast,
    Container.filter_begun h.absent]

-- The names that were under way before the build are left alone.
theorem underway_ended {n : String} (hn : n ∈ s.container.inCreation) :
    (ended w name copy object).container.singletons.get? n = s.container.singletons.get? n := by
  have hne : n ≠ name := fun heq => h.absent (heq ▸ hn)
  have hcalled : n ∈ (u.note (.entered (.make name copy))).container.inCreation := by
    rw [State.note_container, h.container_called]
    exact List.mem_append_left _ hn
  rw [h.get?_ended, if_neg fun hboth => hne hboth.2, h.made.underway n hcalled,
    State.note_container, h.singletons_called]

-- What a new singleton is owed to: the build itself, or one that its factory asked for.
theorem fresh_ended {n : String} {o : Object H.Content}
    (hnone : s.container.singletons.get? n = none)
    (hkept : (ended w name copy object).container.singletons.get? n = some o) :
    (∀ next ∈ deps n, Done deps (ended w name copy object).container next) ∧
      BuiltUpon deps (since s (ended w name copy object)) n := by
  rcases h.since_ended with ⟨early, late, hsince, _, _, _⟩
  rw [h.get?_ended] at hkept
  rw [hsince]
  split at hkept
  · rw [‹d.isSingleton = true ∧ n = name›.2]
    refine ⟨fun next hnext => h.done_ended (h.resolved next hnext).done, ?_⟩
    exact ⟨early, _, late, copy, rfl, fun next hnext => (h.resolved next hnext).answered⟩
  · rcases h.made.fresh n o (h.singletons_called ▸ hnone) hkept with ⟨hdeps, hbuilt⟩
    refine ⟨fun next hnext => h.done_ended (hdeps next hnext), ?_⟩
    have hinside := hbuilt.append (early ++ [.entered (.make name copy)])
      (.left (.make name copy) none :: late)
    simpa only [List.append_assoc, List.cons_append, List.nil_append] using hinside

-- The calls of factories add up to the singletons that are new.
theorem count_ended {n : String} {e : Definition H.Factory}
    (he : s.container.definitions.get? n = some e) (hsingleton : e.isSingleton = true) :
    (factoryCalls (since s (ended w name copy object))).count n
        + (s.container.containsSingleton n).toNat
      = ((ended w name copy object).container.containsSingleton n).toNat := by
  have hinside := h.made.calls n e (h.definitions_called ▸ he) hsingleton
  simp only [State.note_container, Container.containsSingleton, NameTable.contains,
    h.singletons_called] at hinside
  simp only [h.calls_ended, List.count_cons, Container.containsSingleton, NameTable.contains,
    h.get?_ended]
  by_cases hn : n = name
  · -- The name was under way all the time, so only its own build has called its factory.
    rw [hn] at he hinside ⊢
    rw [h.registered, Option.some.injEq] at he
    rw [h.unkept_made, h.unkept] at hinside
    simp only [he, hsingleton, h.unkept, beq_self_eq_true, and_self, if_true]
    simpa using hinside
  · have hne : (name == n) = false := beq_eq_false_iff_ne.2 fun heq => hn heq.symm
    simp only [hn, hne, and_false, if_false, Bool.false_eq_true, Nat.add_zero]
    exact hinside

/-- A build that goes through all stages makes the cache grow by what its factory asked for, and by
    its own object if that is a singleton. -/
theorem growth : Growth deps s (ended w name copy object) := by
  rcases h.since_ended with ⟨_, _, _, hsuffix, _, _⟩
  refine ⟨hsuffix, h.definitions_ended, h.chain_ended, h.inCreation_ended, ?_,
    fun n hn => h.underway_ended hn, ?_, fun n o hnone hkept => h.fresh_ended hnone hkept,
    fun n e he hsingleton => h.count_ended he hsingleton⟩
  · intro n o hkept
    exact h.kept_ended n o (h.made.kept n o (h.singletons_called ▸ hkept))
  · intro n o hkept
    rw [h.get?_ended] at hkept
    split at hkept
    · exact ‹d.isSingleton = true ∧ n = name›.2 ▸ h.buildable
    · exact h.buildable_called (h.made.buildable n o hkept)

end Stages

end ObjectBootstrap
