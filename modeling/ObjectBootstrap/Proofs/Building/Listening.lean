import ObjectBootstrap.Proofs.Application.Attended
import ObjectBootstrap.Proofs.Building.Facets

/-!
# Listeners are detected when they are built

The listener detector subscribes a singleton in the middle of the walk behind its initialization.
So a singleton that listens and is kept is subscribed if the detector was installed when its build
began, whatever the hooks made of it: the detector views it as the registry does. This takes that
the walk comes as far as the detector, which it does unless a hook ends it, and that nobody
unsubscribes the name afterwards or installs another hook in the detector's place.

`OnGuard` is what holds of a state in which no such singleton was missed, and `Guarding` says that
it lasts. Builds of the definition at hand bear that because of the detector, and all others because
they do not touch what is kept under its name.

## Main definitions

* `Activity.LetsListen`: An entry keeps nobody from hearing of events under a name.
* `OnGuard`: The detector is installed, and a singleton that is kept is subscribed.
* `Guarding`: The relation that all runs keep to.

## Theorems

* `Engine.intercept_detects`: The detector subscribes a singleton that it is handed.
* `Engine.heard_of_passage`: So does a walk through a chain that holds the detector.
* `Engine.keeps_guarding`: Whatever is run, the detector misses nobody.
-/

namespace ObjectBootstrap

variable {H : Host}

/-- Whether an entry keeps nobody from hearing of events under a name: the name is not registered
    anew and not put off until it is asked for, the listener is not unsubscribed, the detector stays
    in its place, and no hook ends the walk behind the initialization. -/
def Activity.LetsListen (name : String) : Activity H → Prop
  | .registered e => e.name ≠ name
  | .updated n e => n = name → e.lazyInit = false
  | .installed hook => hook ≠ listenerDetectorName
  | .unsubscribed n => n ≠ name
  | .ended .after _ n => n ≠ name
  | _ => True

instance (name : String) : DecidablePred (Activity.LetsListen (H := H) name)
  | .registered e => inferInstanceAs (Decidable (e.name ≠ name))
  | .updated n e => inferInstanceAs (Decidable (n = name → e.lazyInit = false))
  | .installed hook => inferInstanceAs (Decidable (hook ≠ listenerDetectorName))
  | .unsubscribed n => inferInstanceAs (Decidable (n ≠ name))
  | .ended .after _ n => inferInstanceAs (Decidable (n ≠ name))
  | .ended .before _ _ => .isTrue trivial
  | .entered _ => .isTrue trivial
  | .left _ _ => .isTrue trivial
  | .made _ _ => .isTrue trivial
  | .walked _ _ _ => .isTrue trivial
  | .requested _ => .isTrue trivial
  | .answered _ _ => .isTrue trivial
  | .published _ _ => .isTrue trivial

theorem Activity.LetsListen.spares {name : String} {activity : Activity H}
    (h : activity.LetsListen name) : activity.Spares name := by
  cases activity with
  | registered e => exact h
  | _ => trivial

/-- The entry of the chain that stands for the listener detector. -/
def listenerDetector (C : Type) : ChainEntry C := ⟨listenerDetectorName, .listenerDetector⟩

section Definitions

variable (d : Definition H.Factory)

/-- The detector is installed, and the singleton of a definition is subscribed if it is kept. -/
structure OnGuard (s : State H) : Prop where
  definition : ∃ e, s.container.definitions.get? d.name = some e ∧ d.LastsAs e
  detector : listenerDetector H.Content ∈ s.container.chain.entries
  heard : (s.container.singletons.get? d.name).isSome = true → d.name ∈ s.listeners.names

/-- Whether an entry keeps nobody from hearing of events under the name of a definition, which it
    leaves in place up to an edit of its details, in the registry and for a build. -/
def Activity.Guards (activity : Activity H) : Prop :=
  activity.LetsListen d.name ∧ activity.Upholds d

instance [DecidableEq H.Factory] (d : Definition H.Factory) (activity : Activity H) :
    Decidable (activity.Guards d) :=
  inferInstanceAs (Decidable (activity.LetsListen d.name ∧ activity.Upholds d))

/-- Who is subscribed stays so, and the detector stays on guard. -/
structure Guarding (s t : State H) : Prop where
  listening : (∀ activity ∈ since s t, activity.Guards d) → d.name ∈ s.listeners.names →
    d.name ∈ t.listeners.names
  onGuard : (∀ activity ∈ since s t, activity.Guards d) → OnGuard d s → OnGuard d t

end Definitions

variable {d : Definition H.Factory} {s t u : State H}

namespace OnGuard

theorem of_same (h : OnGuard d s)
    (hdefinition : ∃ e, t.container.definitions.get? d.name = some e ∧ d.LastsAs e)
    (hchain : listenerDetector H.Content ∈ t.container.chain.entries)
    (hkept : t.container.singletons.get? d.name = s.container.singletons.get? d.name)
    (hlisteners : d.name ∈ s.listeners.names → d.name ∈ t.listeners.names) : OnGuard d t :=
  ⟨hdefinition, hchain, fun hsome => hlisteners (h.heard (hkept ▸ hsome))⟩

end OnGuard

namespace Guarding

-- Nothing happens to the definition, the chain, what is kept and who is subscribed.
theorem of_same (hcontainer : t.container.definitions = s.container.definitions)
    (hchain : t.container.chain = s.container.chain)
    (hkept : t.container.singletons.get? d.name = s.container.singletons.get? d.name)
    (hlisteners : d.name ∈ s.listeners.names → d.name ∈ t.listeners.names) : Guarding d s t :=
  ⟨fun _ => hlisteners, fun _ h =>
    h.of_same (hcontainer ▸ h.definition) (hchain ▸ h.detector) hkept hlisteners⟩

theorem followedBy (hst : Onward s t) (htu : Onward t u) (h1 : Guarding d s t)
    (h2 : Guarding d t u) : Guarding d s u := by
  have hparts : (∀ activity ∈ since s u, activity.Guards d) →
      (∀ activity ∈ since s t, activity.Guards d) ∧ ∀ activity ∈ since t u, activity.Guards d := by
    intro hall
    rw [since_append hst.suffix htu.suffix] at hall
    exact ⟨fun a ha => hall a (List.mem_append_left _ ha),
      fun a ha => hall a (List.mem_append_right _ ha)⟩
  refine ⟨fun hall => ?_, fun hall => ?_⟩
  · exact h2.listening (hparts hall).2 ∘ h1.listening (hparts hall).1
  · exact h2.onGuard (hparts hall).2 ∘ h1.onGuard (hparts hall).1

theorem gradual (d : Definition H.Factory) : Gradual (Guarding d) where
  rest s := of_same rfl rfl rfl id
  followedBy hst htu h1 h2 := followedBy hst htu h1 h2
  quiet {s t} h _ := by
    cases h with
    | search query =>
        exact of_same (Container.namesFor_definitions _ _) (Container.namesFor_chain _ _)
          (Container.SameFor.of_quiet (.search s query) d.name).singleton id
    | subscribe name listener =>
        refine of_same rfl rfl rfl fun hmem => ?_
        rw [NameTable.names_insert]
        split
        · exact hmem
        · exact List.mem_append_left _ hmem
    | _ => exact of_same rfl rfl rfl id
  note s _ := of_same rfl rfl rfl id
  register {s e k} hk := by
    refine ⟨fun _ => id, fun hall h => ?_⟩
    rw [Course.since_deed (.register hk)] at hall
    have hother : e.name ≠ d.name := (hall _ (List.mem_singleton_self _)).1
    refine h.of_same ?_ ?_ (Container.SameFor.of_register hk hother).singleton id
    · rw [State.note_container, State.withContainer_container, (Container.register_eq_ok hk).1,
        NameTable.get?_insert, if_neg (Ne.symm hother)]
      exact h.definition
    · rw [State.note_container, State.withContainer_container, (Container.register_eq_ok hk).2.2]
      exact h.detector
  update s name e := by
    refine ⟨fun _ => id, fun hall h => ?_⟩
    have hlog : ((s.withContainer (s.container.writeBack name e)).note (.updated name e)).log
        = [.updated name e] ++ s.log := rfl
    rw [since_of_log hlog, List.reverse_singleton] at hall
    have hedited := (hall _ (List.mem_singleton_self _)).2
    refine h.of_same ?_ h.detector rfl id
    rw [State.note_container, State.withContainer_container, Container.writeBack,
      NameTable.get?_insert]
    split
    · exact ⟨e, rfl, hedited ‹d.name = name›.symm⟩
    · exact h.definition
  install s name hook := by
    refine ⟨fun _ => id, fun hall h => ?_⟩
    rw [Course.since_deed (.install s name hook)] at hall
    have hother : name ≠ listenerDetectorName := (hall _ (List.mem_singleton_self _)).1
    refine h.of_same h.definition ?_ rfl id
    refine List.mem_append_left _ (List.mem_filter.2 ⟨h.detector, ?_⟩)
    exact bne_iff_ne.2 (Ne.symm hother)
  unsubscribe s name := by
    have hkeeps : (∀ activity ∈ since s
        ({ s with listeners := s.listeners.erase name }.note (.unsubscribed name)),
          activity.Guards d) → d.name ∈ s.listeners.names →
            d.name ∈ (s.listeners.erase name).names := by
      intro hall hmem
      rw [Course.since_deed (.unsubscribe s name)] at hall
      have hother : name ≠ d.name := (hall _ (List.mem_singleton_self _)).1
      rw [NameTable.names_erase, List.mem_filter]
      exact ⟨hmem, bne_iff_ne.2 (Ne.symm hother)⟩
    exact ⟨hkeeps, fun hall h => h.of_same h.definition h.detector rfl (hkeeps hall)⟩

-- The object of a factory becomes the target, which is nothing that the detector is about.
theorem of_bear (s : State H) (name : String) (object : Object H.Content) :
    Guarding d s (s.bear name object) :=
  of_same rfl rfl rfl id

end Guarding

namespace Engine

variable {E : Engine H}

/-- A hook without an answer is written down. -/
theorem ended_of_intercept (hE : E.Lawful) {stage : Stage} {entry : ChainEntry H.Content}
    {name : String} {object : Object H.Content}
    (h : E.intercept stage entry name object s = some (.ok none, t)) :
    .ended stage entry.name name ∈ since s t := by
  rcases run_enter_eq_some_iff.1 h with ⟨u, hcall, rfl⟩
  rcases entry with ⟨hook, self⟩
  -- Only hooks of the embedding program can be without an answer.
  cases self with
  | object self =>
      rcases self with ⟨typeName, serial, substance⟩
      cases substance with
      | placeholderConfigurer => cases hcall
      | hosted content =>
          rcases Run.bind_eq_some_iff.1 hcall with ⟨answer, v, hrun, hanswered⟩
          have hsuffix : s.log <:+ v.log :=
            (List.suffix_cons _ _).trans (hE _ _ _ _ _ hrun).log_suffix
          match answer with
          | .error failure => cases hanswered
          | .ok (some next) => cases hanswered
          | .ok none =>
              cases hanswered
              change _ ∈ since s ((v.note (.ended stage hook name)).note (.left _ _))
              rw [since_note (hsuffix.trans (List.suffix_cons _ _)), since_note hsuffix]
              exact List.mem_append_left _ (List.mem_append_right _ (List.mem_singleton_self _))
  | sentinel number =>
      cases stage with
      | before => cases hcall
      | after =>
          rcases Run.bind_eq_some_iff.1 hcall with ⟨_, _, _, hpure⟩
          cases hpure
  | listenerDetector =>
      cases stage with
      | before => cases hcall
      | after =>
          rcases Run.bind_eq_some_iff.1 hcall with ⟨_, _, _, hpure⟩
          cases hpure

theorem facade_ofDepth (behaviour : Behaviour H) (facade : Facade) (depth : Nat) :
    (ofDepth behaviour facade depth).facade = facade := by
  cases depth <;> rfl

/-- The detector hands on what it is handed. -/
theorem answer_of_detector {name : String} {object : Object H.Content}
    {answer : Except Failure (Option (Object H.Content))}
    (h : E.intercept .after (listenerDetector H.Content) name object s = some (answer, t)) :
    answer = .ok (some object) := by
  rcases run_enter_eq_some_iff.1 h with ⟨_, hcall, _⟩
  rcases Run.bind_eq_some_iff.1 hcall with ⟨_, _, _, hpure⟩
  cases hpure
  rfl

/-- The detector subscribes a singleton that listens, viewed as the registry views it, and no other
    object that listens. -/
theorem intercept_detects (hfacade : E.facade = .direct) {made object : Object H.Content}
    {answer : Except Failure (Option (Object H.Content))}
    (hd : ∃ e, s.container.definitions.get? d.name = some e ∧ d.LastsAs e)
    (htarget : s.container.targets.get? d.name = some made) (hmade : made.typeName = d.typeName)
    (hlistens : d.hasCapability .listens = true)
    (h : E.intercept .after (listenerDetector H.Content) d.name object s = some (answer, t)) :
    t.listeners = if d.isSingleton then s.listeners.insert d.name (d.viewed made object)
      else s.listeners := by
  rcases hd with ⟨e, hd, hlasts⟩
  rcases run_enter_eq_some_iff.1 h with ⟨u, hcall, rfl⟩
  rcases Run.bind_eq_some_iff.1 hcall with ⟨_, v, hdetect, hpure⟩
  cases hpure
  cases hdetect
  have hview : Facade.direct.facet? s.container d.name object .listens
      = some ⟨.listener, d.viewed made object⟩ :=
    Container.facet_of_target hd hlasts (fun _ => htarget) hmade hlistens rfl
  have hregistered : (s.container.definitions.get? d.name).any Definition.isSingleton
      = d.isSingleton := by
    rw [hd, Option.any_some, hlasts.isSingleton_eq]
  dsimp only
  rw [hfacade, hview]
  dsimp only
  rw [hregistered]
  split <;> rfl

end Engine

-- What is borne by programs is borne by each call of a hook, and so by a whole passage.
theorem Gradual.hands_along {R : State H → State H → Prop} (hR : Gradual R) {E : Engine H}
    (hE : E.Keeps (AlongCourses R)) {stage : Stage} {entry : ChainEntry H.Content} {name : String}
    {object : Object H.Content} {answer : Except Failure (Option (Object H.Content))}
    (h : E.Hands stage entry name object s answer t) : AlongCourses R s t :=
  Engine.intercept_along hE hR.trail (fun number _ _ => hR.watch_along number name)
    (fun _ => trivial) object _ _ _ (Engine.run_intercept_iff.2 h)

theorem Gradual.passage_along {R : State H → State H → Prop} (hR : Gradual R) {E : Engine H}
    (hE : E.Keeps (AlongCourses R)) {stage : Stage} {name : String}
    {entries : List (ChainEntry H.Content)} {object : Object H.Content}
    {result : Except Error (Object H.Content)}
    (h : Passage E stage name entries object s result t) : AlongCourses R s t := by
  induction h with
  | all object s => exact hR.trail.rest s
  | stops h => exact hR.hands_along hE h
  | fails h => exact hR.hands_along hE h
  | goesOn h _ ih => exact hR.trail.followedBy (hR.hands_along hE h) ih

section Listener

variable {behaviour : Behaviour H} {depth : Nat}
  (hE : (Engine.ofDepth behaviour .direct depth).Keeps (AlongCourses (Guarding d)))
  (hsingleton : d.isSingleton = true) (hlistens : d.hasCapability .listens = true)
include hE hsingleton hlistens

namespace Engine

/-- A walk that comes to its end behind the initialization of a singleton that listens subscribes
    the singleton, if the detector is among the hooks. -/
theorem heard_of_passage {made object : Object H.Content} {entries : List (ChainEntry H.Content)}
    {result : Except Error (Object H.Content)} (hmade : made.typeName = d.typeName)
    (h : Passage (ofDepth behaviour .direct depth) .after d.name entries object s result t)
    (hresult : result.toBool = true) (hdetector : listenerDetector H.Content ∈ entries)
    (hd : ∃ e, s.container.definitions.get? d.name = some e ∧ d.LastsAs e)
    (hname : d.name ∈ s.container.inCreation)
    (htarget : s.container.targets.get? d.name = some made)
    (hall : ∀ activity ∈ since s t, activity.Guards d) : d.name ∈ t.listeners.names := by
  have hspare := keeps_spared behaviour .direct depth
  induction h with
  | all object s => exact absurd hdetector List.not_mem_nil
  | fails _ => cases hresult
  | @stops entry _ _ _ _ h =>
      -- A hook that ends the walk is written down.
      have hended := ended_of_intercept (lawful_ofDepth behaviour .direct depth)
        (run_intercept_iff.2 h)
      exact absurd rfl (hall _ hended).1
  | @goesOn entry rest object next result s t u h hrest ih =>
      have hst := (Spared.gradual AnyName).hands_along hspare h
      have htu := (Guarding.gradual d).passage_along hE hrest
      rw [hst.1.since_followedBy htu.1] at hall
      have hearly := fun a ha => hall a (List.mem_append_left _ ha)
      have hlate := fun a ha => hall a (List.mem_append_right _ ha)
      rcases List.mem_cons.1 hdetector with rfl | hdetector
      · refine htu.2.listening hlate ?_
        rw [intercept_detects (facade_ofDepth _ _ _) hd htarget hmade hlistens
          (run_intercept_iff.2 h), if_pos hsingleton, ← NameTable.get?_isSome_iff,
          NameTable.get?_insert, if_pos rfl]
        rfl
      · -- Another hook leaves what is under way alone.
        have hspares : ∀ activity ∈ since s t, activity.Spares d.name :=
          fun a ha => (hearly a ha).1.spares
        have hsame := hst.2 d.name trivial (Or.inl hname) hspares
        exact ih hresult hdetector (hst.1.edited hd fun a ha => (hearly a ha).2)
          (hst.1.inCreation_eq ▸ hname) (hsame.target.trans htarget) hlate

/-- A build that succeeds subscribes a singleton that listens, if the detector is on guard when the
    build begins. -/
theorem heard_of_steps {built : Built H} {e : Definition H.Factory}
    (hname : d.name ∈ s.container.inCreation) (hs : OnGuard d s)
    (h : (ofDepth behaviour .direct depth).Steps (AlongCourses (Guarding d)) d.name e s (.ok built)
      t)
    (hall : ∀ activity ∈ since s t, activity.Guards d) : d.name ∈ t.listeners.names := by
  cases h with
  | @finished copy made _ u v _ hmerge hsu hmake huv hrun _ =>
      rcases Attempt.run_bind_eq_ok_iff.1 (run_finish_walks hrun) with ⟨next, w, hbefore, hafter⟩
      have hborne : d.name ∈ (v.bear d.name made).container.inCreation := by
        have hsv := hsu.1.onward.followedBy huv.1.onward
        exact hsv.underway ▸ hname
      have hbear := Onward.of_bear (s := v) hborne made
      -- The detector is still on guard, and the target is still there, when the second walk begins.
      have hguarding := (Guarding.gradual d).walk_along hE _ _ _ _ _ _ hbefore
      have hspared := (Spared.gradual AnyName).walk_along (keeps_spared behaviour .direct depth)
        _ _ _ _ _ _ hbefore
      have hpassage := run_walk_passage hafter
      have hwt := (Guarding.gradual d).passage_along hE hpassage
      have hvw := hbear.followedBy hguarding.1.onward
      have hsw := (hsu.1.onward.followedBy huv.1.onward).followedBy hvw
      have hset : w.log <:+ (w.setOut .after d.name).log := List.suffix_cons _ _
      have hend := hset.trans hwt.1.log_suffix
      have hw : OnGuard d w := by
        refine (Guarding.followedBy (hsu.1.onward.followedBy huv.1.onward) hvw
          (.followedBy hsu.1.onward huv.1.onward hsu.2 huv.2)
          (.followedBy hbear hguarding.1.onward (.of_bear v d.name made) hguarding.2)).onGuard
          (fun activity hmem => hall activity ?_) hs
        exact since_subset List.suffix_rfl hsw.suffix hend hmem
      have htarget : w.container.targets.get? d.name = some made := by
        have hsame := hspared.2 d.name trivial (Or.inl hborne) fun activity hmem =>
          (hall activity (since_subset ((hsu.1.onward.followedBy huv.1.onward).followedBy
            hbear).suffix hguarding.1.log_suffix hend hmem)).1.spares
        exact hsame.target.trans ((NameTable.get?_insert _ _ _ _).trans (if_pos rfl))
      -- The factory is called with a copy of the definition.
      have hcopy : d.LastsAs copy := (hall _ (since_subset hsu.1.log_suffix huv.1.log_suffix
        (hvw.suffix.trans hend) (entered_of_make (lawful_ofDepth behaviour .direct depth)
          hmake))).2 rfl
      have hmade := (make_typeName hmake).trans hcopy.typeName_eq
      exact heard_of_passage hE hsingleton hlistens hmade hpassage rfl hw.detector hw.definition
        (hsw.underway ▸ hname) htarget fun activity hmem =>
          hall activity (since_subset (hsw.suffix.trans hset) hwt.1.log_suffix List.suffix_rfl hmem)

-- A request that is answered by a build.
theorem guarding_of_build {name : String} {e : Definition H.Factory} {k : Container H}
    {result : Except Error (Built H)} (hk : s.container.beginCreation name = .ok k)
    (h : (ofDepth behaviour .direct depth).Steps (AlongCourses (Guarding d)) name e
      ((s.note (.requested name)).withContainer k) result t) :
    Guarding d s (t.conclude name result) := by
  rcases Container.beginCreation_eq_ok hk with ⟨_, rfl⟩
  change (ofDepth behaviour .direct depth).Steps _ name e (s.begin name) result t at h
  have hname : name ∈ (s.begin name).container.inCreation :=
    List.mem_append_right _ (List.mem_singleton_self name)
  rcases h.through hname Guarding.followedBy id
    (fun u object _ => .of_bear u name object) with ⟨honward, hguarding⟩
  have hpart : since (s.begin name) t ⊆ since s (t.conclude name result) :=
    since_subset (List.suffix_cons _ _) honward.suffix (List.suffix_cons _ _)
  refine ⟨fun hall hmem => ?_, fun hall hs => ?_⟩
  · exact hguarding.listening (fun activity ha => hall activity (hpart ha)) hmem
  · have hinside := fun activity ha => hall activity (hpart ha)
    have hbegun : OnGuard d (s.begin name) := ⟨hs.definition, hs.detector, hs.heard⟩
    have ht := hguarding.onGuard hinside hbegun
    have hdefinition : ∃ e, (t.conclude name result).container.definitions.get? d.name = some e ∧
        d.LastsAs e := by
      rw [State.conclude, State.note_container, State.withContainer_container,
        Container.finishBuild_definitions]
      exact ht.definition
    have hdetector : listenerDetector H.Content
        ∈ (t.conclude name result).container.chain.entries := by
      rw [State.conclude, State.note_container, State.withContainer_container,
        Container.finishBuild_chain]
      exact ht.detector
    by_cases hown : d.name = name
    · subst hown
      cases result with
      | error failure =>
          refine ht.of_same hdefinition hdetector ?_ id
          rw [State.conclude, State.note_container, State.withContainer_container, Except.toOption,
            Container.finishBuild_none]
      | ok built =>
          have hheard := heard_of_steps hE hsingleton hlistens hname hbegun h hinside
          exact ⟨hdefinition, hdetector, fun _ => hheard⟩
    · exact ht.of_same hdefinition hdetector
        (Container.SameFor.of_finishBuild hown _ _).singleton id

theorem builds_guarding : (ofDepth behaviour .direct depth).Builds Anything
    (AlongCourses (Guarding d)) :=
  (Guarding.gradual d).builds hE (fun _ _ _ _ => .of_same rfl rfl rfl id)
    fun _ _ _ hk h => guarding_of_build hE hsingleton hlistens hk h

end Engine

end Listener

/-- Whatever is run, the detector misses no singleton that listens. -/
theorem Engine.keeps_guarding (behaviour : Behaviour H) (depth : Nat)
    (hsingleton : d.isSingleton = true) (hlistens : d.hasCapability .listens = true) :
    (ofDepth behaviour .direct depth).Keeps (AlongCourses (Guarding d)) :=
  keeps_ofDepth behaviour .direct (Guarding.gradual d).trail
    (fun _ hE => builds_guarding hE hsingleton hlistens) depth

end ObjectBootstrap
