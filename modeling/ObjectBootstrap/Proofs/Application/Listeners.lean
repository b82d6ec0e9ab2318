import ObjectBootstrap.Proofs.Application.Interception
import ObjectBootstrap.Proofs.Building.Listening
import ObjectBootstrap.Proofs.Installation.Wrapping

/-!
# No eager listener is missed

When a bring-up publishes its event, who hears of it? Every singleton that listens and is built in
advance, at whatever depth of nested builds, because by then the listener detector is installed. A
singleton that is built earlier, as a hook or because a hook asked for it, is not walked past the
detector, and it is never walked again. So there is no more to promise than this, and even this
takes that nobody interferes: a factory may install another hook in the detector's place, or put a
listener off by an edit, and a hook may put another definition in the place of the copy of a
listener.

## Main definitions

* `Engine.prepare`: What a bring-up does before it builds in advance.
* `Scenarios.Unheard`: A bring-up that publishes its event to nobody although a listener is there.

## Theorems

* `Engine.preInstantiateAll_kept`: What is built in advance is kept.
* `bringUp_detects`: Who hears of the end of a bring-up.
-/

namespace ObjectBootstrap

variable {H : Host} {d : Definition H.Factory}

-- Only laziness is a detail of what makes a definition one that is built in advance.
theorem Definition.LastsAs.isEager {e : Definition H.Factory} (h : d.LastsAs e)
    (heager : d.isEager = true) (hprompt : e.lazyInit = false) : e.isEager = true := by
  rw [Definition.isEager, Bool.and_eq_true] at heager
  rw [Definition.isEager, h.isSingleton_eq, h.isAbstract_eq, heager.1, hprompt]
  rfl

/-- A definition that is built in advance stays one, whatever else is edited of it. -/
theorem Course.stays_prompt {may : Activity H → Prop} {s t : State H} (h : Course may s t)
    (hd : ∃ e, s.container.definitions.get? d.name = some e ∧ d.LastsAs e ∧ e.lazyInit = false)
    (hall : ∀ activity ∈ since s t, activity.Guards d) :
    ∃ e, t.container.definitions.get? d.name = some e ∧ d.LastsAs e ∧ e.lazyInit = false := by
  rcases hd with ⟨first, hfirst, hlasts, hprompt⟩
  rcases h.edited ⟨first, hfirst, hlasts⟩ fun a ha => (hall a ha).2 with ⟨e, he, hedited⟩
  refine ⟨e, he, hedited, ?_⟩
  rcases h.definition_of_stores he with hthere | hstored
  · rw [Option.some.inj (hthere.symm.trans hfirst)]
    exact hprompt
  · -- What is stored on the way is an edit.
    rcases List.mem_filterMap.1 hstored with ⟨activity, hmem, hactivity⟩
    have hlets := (hall activity hmem).1
    cases activity with
    | registered e =>
        rcases Prod.mk.inj (Option.some.inj hactivity) with ⟨hname, _⟩
        exact absurd hname hlets
    | updated n e =>
        rcases Prod.mk.inj (Option.some.inj hactivity) with ⟨hname, rfl⟩
        exact hlets hname
    | _ => cases hactivity

namespace Engine

variable {behaviour : Behaviour H} {facade : Facade} {depth : Nat}

/-- Of the names that are to be built in advance, those that are eager singletons are kept when that
    is done. -/
theorem preInstantiateAll_kept (heager : d.isEager = true) : ∀ {names : List String}
    {count total : Nat} {s t : State H},
    ((ofDepth behaviour facade depth).preInstantiateAll names count).run s = some (.ok total, t) →
    d.name ∈ names →
    (∃ e, s.container.definitions.get? d.name = some e ∧ d.LastsAs e ∧ e.lazyInit = false) →
    (∀ activity ∈ since s t, activity.Guards d) →
      (t.container.singletons.get? d.name).isSome = true := by
  have hE : (ofDepth behaviour facade depth).Lawful := lawful_ofDepth behaviour facade depth
  have hT := (Spared.gradual (H := H) AnyName).trail
  have hget := getOrBuild_spared behaviour facade depth
  -- What is kept at some point stays until the end.
  have hstays : ∀ {names : List String} {count : Nat} {result : Except Error Nat} {u t : State H},
      ((ofDepth behaviour facade depth).preInstantiateAll names count).run u = some (result, t) →
      (u.container.singletons.get? d.name).isSome = true →
      (∀ activity ∈ since u t, activity.Guards d) →
        (t.container.singletons.get? d.name).isSome = true := by
    intro names count result u t h hkept hall
    have hspared := preInstantiateAll_along hT hget (fun _ _ => trivial) count _ _ _ h
    rw [(hspared.2 d.name trivial (Or.inr hkept) fun a ha => (hall a ha).1.spares).singleton]
    exact hkept
  intro names
  induction names with
  | nil =>
      intro count total s t _ hmem
      exact absurd hmem List.not_mem_nil
  | cons name rest ih =>
      intro count total s t h hmem hd hall
      by_cases hkept : (s.container.singletons.get? d.name).isSome = true
      · exact hstays h hkept hall
      rcases Attempt.run_bind_eq_ok_iff.1 h with ⟨k, _, hcontainer, hgoes⟩
      cases hcontainer
      split at hgoes
      · rcases Attempt.run_bind_eq_ok_iff.1 hgoes with ⟨object, u, hbuilt, hrest⟩
        have hsu := hget name trivial _ _ _ hbuilt
        have hut := preInstantiateAll_along hT hget (fun _ _ => trivial) _ _ _ _ hrest
        rw [hsu.1.since_followedBy hut.1] at hall
        have hlate := fun a ha => hall a (List.mem_append_right _ ha)
        rcases List.mem_cons.1 hmem with rfl | hmem
        · have hsingleton : d.isSingleton = true := Definition.isSingleton_of_isEager heager
          have hbuilt := kept_of_getOrBuild hE hbuilt fun copy hmem => by
            have hcopy := (hall _ (List.mem_append_left _ hmem)).2 rfl
            rw [hcopy.isSingleton_eq, hsingleton]
          exact hstays hrest (Option.isSome_of_eq_some hbuilt) hlate
        · exact ih hrest hmem (hsu.1.stays_prompt hd fun a ha =>
            hall a (List.mem_append_left _ ha)) hlate
      · rcases List.mem_cons.1 hmem with rfl | hmem
        · -- It is to be built now.
          refine absurd ?_ ‹¬_›
          rcases hd with ⟨e, he, hlasts, hprompt⟩
          rw [he, Container.containsSingleton, NameTable.contains, Bool.eq_false_iff.2 hkept,
            Option.any_some, hlasts.isEager heager hprompt]
          rfl
        · exact ih hgoes hmem hd hall

/-- What happens on a publication begins with an entry that says who is told. -/
theorem since_publish {E : Engine H} (hE : E.Lawful) {event : Event} {count : Nat} {s t : State H}
    (h : E.publish event s = some (count, t)) :
    ∃ later, since s t = .published event s.listeners.names :: later := by
  rcases Run.bind_eq_some_iff.1 h with ⟨_, _, hget, hrest⟩
  cases hget
  rcases Run.bind_eq_some_iff.1 hrest with ⟨_, u, hnote, hlast⟩
  cases hnote
  rcases Run.bind_eq_some_iff.1 hlast with ⟨_, _, hnotified, hpure⟩
  cases hpure
  have hpublished : Course Anything s (s.note (.published event s.listeners.names)) :=
    .deed (.publish s event) trivial
  have htold : Course Anything (s.note (.published event s.listeners.names)) t :=
    notifyAll_along hE.keeps (Course.trail _) (fun _ _ => trivial) _ _ _ _ hnotified
  refine ⟨since (s.note (.published event s.listeners.names)) t, ?_⟩
  rw [hpublished.since_followedBy htold, Course.since_deed (.publish s event)]
  rfl

end Engine

/-- What a bring-up does before it builds in advance. -/
def Engine.prepare (E : Engine H) (setup : Setup H) : Attempt H Installation := do
  E.registerSetup setup
  let mutation ← E.mutationPhase E.facade setup.config setup.externals
  let _ ← E.customizationPhase E.facade setup.config mutation.processed
  E.installationPhase E.facade setup.config

/-- A bring-up that builds in advance, and that succeeds. The last that it does before is to install
    the listener detector. Let a definition be there at that moment that is to be built in advance
    and listens, and whose singleton is not built yet. Unless a factory or a hook keeps it from
    hearing while it is built in advance, or puts another definition in its place or in that of a
    copy that is built, it is among those that are told of the end of the bring-up. -/
theorem bringUp_detects (behaviour : Behaviour H) (depth : Nat) (setup : Setup H) {s t : State H}
    {report : Report} {number : Nat} (hs : s.container.InStep)
    (hpre : setup.config.preInstantiateSingletons = true)
    (h : ((Engine.ofDepth behaviour .direct depth).bringUp setup).run s
      = some (.ok (report, number), t)) :
    ∃ inst u v later,
      ((Engine.ofDepth behaviour .direct depth).prepare setup).run s = some (.ok inst, u) ∧
      (since s u).getLast? = some (.installed listenerDetectorName) ∧
      (Engine.ofDepth behaviour .direct depth).preInstantiate.run u
        = some (.ok report.preInstantiated, v) ∧
      since s t = since s u ++ since u v ++
        .published setup.stamp.refreshed v.listeners.names :: later ∧
      ∀ (name : String) (d : Definition H.Factory), u.container.definitions.get? name = some d →
        d.isEager = true → d.hasCapability .listens = true →
        u.container.singletons.get? name = none →
        (∀ activity ∈ since u v, activity.Guards (d.renamed name)) →
          name ∈ v.listeners.names := by
  have hE : (Engine.ofDepth behaviour .direct depth).Lawful :=
    Engine.lawful_ofDepth behaviour .direct depth
  have hcourses : ∀ name, AnyName name →
      Attempt.Along (Course Anything) ((Engine.ofDepth behaviour .direct depth).getOrBuild name) :=
    Engine.asked_follows hE fun _ _ => trivial
  rcases Engine.run_bringUp_parts h with ⟨mutation, order, inst, count, listeners, u1, u2, u3, u,
    v, hsetup, hmutation, hcustomization, hinstallation, hbuilt, hpublish, rfl, rfl⟩
  rw [if_pos hpre] at hbuilt
  -- The ways of the parts.
  have hbefore : Course Anything s u3 :=
    .followedBy (Engine.registerSetup_follows hE setup _ _ _ hsetup) <| .followedBy
      (Engine.mutationPhase_along hE.keeps (Course.trail _) hcourses (fun _ _ => trivial) _ _
        (fun _ _ => trivial) _ _ _ _ hmutation)
      (Engine.customizationPhase_along hE.keeps (Course.trail _) hcourses _ _ (fun _ _ => trivial)
        _ _ _ _ hcustomization)
  have hinstalled : Course Anything u3 u := Engine.installationPhase_follows hE
    (fun _ _ => trivial) _ _ (fun _ => trivial) _ _ _ hinstallation
  have hbuilds : Course Anything u v :=
    Engine.preInstantiate_along (Course.trail _) hcourses _ _ _ hbuilt
  have hlast : Course Anything v t := Engine.publish_along hE.keeps (Course.trail _)
    (fun _ => trivial) (fun _ _ => trivial) _ _ _ hpublish
  rcases Engine.installationPhase_last hE hinstallation with ⟨_, hdetector, hend⟩
  rcases Engine.since_publish hE hpublish with ⟨later, hpublished⟩
  refine ⟨inst, u, v, later, ?_, ?_, hbuilt, ?_, ?_⟩
  · refine Attempt.run_bind_eq_ok_iff.2 ⟨(), u1, hsetup, ?_⟩
    refine Attempt.run_bind_eq_ok_iff.2 ⟨mutation, u2, hmutation, ?_⟩
    exact Attempt.run_bind_eq_ok_iff.2 ⟨order, u3, hcustomization, hinstallation⟩
  · rw [hbefore.since_followedBy hinstalled, List.getLast?_append, hend]
    rfl
  · rw [← hpublished, ((hbefore.followedBy hinstalled).followedBy hbuilds).since_followedBy hlast,
      (hbefore.followedBy hinstalled).since_followedBy hbuilds]
  · intro name d hd heager hlistens hunbuilt hguards
    have hsingleton : d.isSingleton = true := Definition.isSingleton_of_isEager heager
    have hprompt : d.lazyInit = false := by
      rw [Definition.isEager, Bool.and_eq_true, Bool.not_eq_true'] at heager
      exact heager.2
    -- The detector is on guard when the building begins, and so it is when that is over.
    have hu : OnGuard (d.renamed name) u := by
      refine ⟨⟨d, hd, d.lastsAs_renamed name⟩, List.mem_of_getLast? hdetector, fun hkept => ?_⟩
      have hnone : u.container.singletons.get? (d.renamed name).name = none := hunbuilt
      rw [hnone] at hkept
      cases hkept
    have hkeeps := Engine.keeps_guarding (d := d.renamed name) behaviour depth hsingleton hlistens
    have hguarding : AlongCourses (Guarding (d.renamed name)) u v := Engine.preInstantiate_along
      (Guarding.gradual _).trail
      (Engine.asked_along hkeeps (Engine.builds_guarding hkeeps hsingleton hlistens)) _ _ _ hbuilt
    have hv := hguarding.2.onGuard hguards hu
    rcases Attempt.run_bind_eq_ok_iff.1 hbuilt with ⟨k, _, hcontainer, hall⟩
    cases hcontainer
    have hlisted : name ∈ u.container.names :=
      ((hbefore.followedBy hinstalled).inStep hs).mem_names_of_some hd
    exact hv.heard (Engine.preInstantiateAll_kept (d := d.renamed name) heager hall hlisted
      ⟨d, hd, d.lastsAs_renamed name, hprompt⟩ hguards)

namespace Scenarios

def listener : Definition Bool := { service with
  name := "listener", typeName := "listener", capabilities := [.listens] }

/-- What is registered before the bring-up begins. -/
def listenerAndWrapper : State host := stateOf [listener, wrapper]

abbrev wrappingEngine : Engine host := Engine.ofDepth wrapping .direct 3

theorem listeners_of_bringUp :
    (answer? ((wrappingEngine.bringUp (setupOf .standard [])).run listenerAndWrapper)).map
    (fun r => r.1.listeners) = some ["listener"] := by
  decide +kernel

/-- The state in which all hooks are installed, and the one in which the rest is built. -/
def installThenAdvance : Option (State host × State host) :=
  ((wrappingEngine.prepare (setupOf .standard [])).run listenerAndWrapper).bind fun r =>
    (wrappingEngine.preInstantiate.run r.2).map fun q => (r.2, q.2)

theorem report_of_installThenAdvance : installThenAdvance.map (fun r =>
    (r.1.container.definitions.get? "listener",
      (r.1.container.singletons.get? "listener").isNone,
      (r.2.container.singletons.get? "listener").map Object.typeName,
      (since r.1 r.2).all fun activity => decide (activity.Guards listener)))
      = some (some listener, true, some "wrapped", true) := by
  decide +kernel

/-- The listener is wrapped when it is built in advance, and still it hears of the end of the
    bring-up. -/
theorem wrapped_listener_detected : ∃ (report : Report) (number : Nat) (t u v : State host)
    (later : List (Activity host)),
    (wrappingEngine.bringUp (setupOf .standard [])).run listenerAndWrapper
      = some (.ok (report, number), t) ∧
    since listenerAndWrapper t = since listenerAndWrapper u ++ since u v ++
      .published (setupOf .standard []).stamp.refreshed v.listeners.names :: later ∧
    (v.container.singletons.get? "listener").map Object.typeName = some "wrapped" ∧
    "listener" ∈ v.listeners.names := by
  rcases Option.map_eq_some_iff.1 listeners_of_bringUp with ⟨⟨report, number⟩, hanswer, _⟩
  rcases exists_of_answer? hanswer with ⟨t, hrun⟩
  have hinStep : listenerAndWrapper.container.InStep := (stateOf_consistent (by decide)).toInStep
  rcases bringUp_detects wrapping 3 (setupOf .standard []) hinStep rfl hrun with
    ⟨inst, u, v, later, hprepare, _, hbuilt, hparts, hdetects⟩
  -- There is only one such pair of states.
  have hreport := report_of_installThenAdvance
  rw [installThenAdvance, hprepare, Option.bind_some, hbuilt, Option.map_some,
    Option.map_some] at hreport
  simp only [Option.some.injEq, Prod.mk.injEq, List.all_eq_true, decide_eq_true_eq] at hreport
  rcases hreport with ⟨hregistered, hunbuilt, hkept, hguards⟩
  exact ⟨report, number, t, u, v, later, hrun, hparts, hkept,
    hdetects "listener" listener hregistered rfl rfl (Option.isNone_iff_eq_none.1 hunbuilt) hguards⟩

/-- A bring-up that publishes its event to nobody, although it succeeds, ends no walk and registers
    nothing, and although a listener is there from the beginning that is to be built in advance. -/
def Unheard (behaviour : Behaviour host) (s : State host) (listener : String) : Prop :=
  ∃ (report : Report) (number : Nat) (t : State host) (d : Definition Bool) (event : Event),
    ((Engine.ofDepth behaviour .direct 3).bringUp (setupOf .standard [])).run s
      = some (.ok (report, number), t) ∧
    s.container.definitions.get? listener = some d ∧ d.isEager = true ∧
    d.hasCapability .listens = true ∧
    (∀ activity ∈ since s t, ∀ e, activity ≠ .registered e) ∧
    (∀ activity ∈ since s t, ∀ stage hook name, activity ≠ .ended stage hook name) ∧
    event.name = contextRefreshed ∧ .published event [] ∈ since s t

/-- Whether an entry registers a definition or ends a walk. -/
def registersOrEnds : Activity host → Bool
  | .registered _ => true
  | .ended _ _ _ => true
  | _ => false

/-- Whether an entry tells the end of a bring-up to nobody. -/
def tellsNobody : Activity host → Bool
  | .published event listeners => event.name == contextRefreshed && listeners.isEmpty
  | _ => false

/-- What is to be checked to see that somebody is unheard. -/
def unheard (behaviour : Behaviour host) (s : State host) (listener : String) : Bool :=
  match ((Engine.ofDepth behaviour .direct 3).bringUp (setupOf .standard [])).run s with
  | some (.ok _, t) =>
    (s.container.definitions.get? listener).any (fun d => d.isEager && d.hasCapability .listens) &&
      (since s t).all (fun activity => !registersOrEnds activity) && (since s t).any tellsNobody
  | _ => false

theorem of_unheard {behaviour : Behaviour host} {s : State host} {listener : String}
    (h : unheard behaviour s listener = true) : Unheard behaviour s listener := by
  unfold unheard at h
  split at h
  · rename_i r t hrun
    simp only [Bool.and_eq_true, Option.any_eq_true, List.all_eq_true, List.any_eq_true] at h
    rcases h with ⟨⟨⟨d, hd, heager, hlistens⟩, hquiet⟩, published, hmem, htells⟩
    refine ⟨r.1, r.2, t, d, ?_⟩
    cases published with
    | published event listeners =>
        rw [tellsNobody, Bool.and_eq_true, beq_iff_eq, List.isEmpty_iff] at htells
        rcases htells with ⟨hname, rfl⟩
        refine ⟨event, hrun, hd, heager, hlistens, ?_, ?_, hname, hmem⟩
        · rintro activity hactivity e rfl
          cases hquiet _ hactivity
        · rintro activity hactivity stage hook name rfl
          cases hquiet _ hactivity
    | _ => cases htells
  · cases h

/-- As `behaviour`, except that one factory installs another hook in the place of the listener
    detector, that another one makes the listener lazy, and that hooks change the type of the copy
    of the listener. -/
def disturbing : Behaviour host := { behaviour with
  make := fun content d => do
    if d.name = "detectorReplacer" then
      Prog.request (.install listenerDetectorName ⟨"detectorReplacer", 100, .hosted false⟩)
    if d.name = "listenerEditor" then
      let _ ← Prog.update "listener" (fun e => .done ((), { e with lazyInit := true })) .done
    return .ok content
  merge := fun _ name d =>
    .done (.ok (if name = "listener" then { d with typeName := "otherType" } else d)) }

def disturber (name : String) : Definition Bool := { service with name := name, typeName := name }

/-- A hook that listens. -/
def listeningHook : Definition Bool := { interceptor "listeningHook" {} false with
  capabilities := [.interceptsInstance, .listens] }

/-- Four ways to be missed: to be built as a hook, to be built when the detector is gone, to be
    edited at the wrong time, and to be built of another definition. -/
theorem listeners_missed : Unheard behaviour (stateOf [listeningHook]) "listeningHook" ∧
    Unheard disturbing (stateOf [disturber "detectorReplacer", listener]) "listener" ∧
    Unheard disturbing (stateOf [disturber "listenerEditor", listener]) "listener" ∧
    Unheard disturbing (stateOf [interceptor "otherHook" {} false, listener]) "listener" :=
  ⟨of_unheard (by decide +kernel), of_unheard (by decide +kernel), of_unheard (by decide +kernel),
    of_unheard (by decide +kernel)⟩

end Scenarios

end ObjectBootstrap
