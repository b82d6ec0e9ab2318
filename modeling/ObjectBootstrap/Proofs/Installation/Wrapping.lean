import ObjectBootstrap.Proofs.Building.Facets
import ObjectBootstrap.Proofs.Building.Success
import ObjectBootstrap.Proofs.Installation.Silence

/-!
# Installations whose hooks wrap

An interceptor of a lower tier is built through those of the higher tiers, and these may put another
object in its place, one that does not intercept. For a singleton the registry keeps what the
factory made, and so it finds the interceptor behind whatever it was wrapped in. Of other objects it
keeps nothing when their build is over. So an interceptor that is not a singleton ends the
installation if it comes out of its build as an object of another type, although no hook and no
factory failed. But for that the tiers and the wrapping do not matter: an installation succeeds.

## Main definitions

* `Activity.Unwraps`: An entry does not tell of an object of another type.
* `Smooth`: Nothing keeps an installation from success.
* `Engine.Promises`: What is asked for of an interceptor that is found.
* `Reached`: A state that an installation comes by.

## Theorems

* `Reached.facet`: What a request for an interceptor is answered with can be viewed as one.
* `Engine.buildMarked_prevails`: An interceptor is built unless something keeps it from that.
* `Engine.installationPhase_prevails`: So is the whole chain put together, part by part.
* `installationPhase_succeeds`: Installations succeed whatever the hooks wrap.
-/

namespace ObjectBootstrap

variable {H : Host} {β : Type} {behaviour : Behaviour H} {facade : Facade} {depth : Nat}
  {names : List String} {s t u : State H} {d : Definition H.Factory}

/-- Whether an entry does not tell that a request for one of some names is answered with an object
    of another type than the definition names. Singletons may be of any type. -/
def Activity.Unwraps (names : List String) (k : Container H) : Activity H → Prop
  | .answered name (some object) => name ∈ names → ∀ d ∈ k.definitions.get? name,
    d.isSingleton = false → object.typeName = d.typeName
  | _ => True

instance (names : List String) (k : Container H) : DecidablePred (Activity.Unwraps names k)
  | .answered name (some object) => inferInstanceAs (Decidable (name ∈ names →
    ∀ d ∈ k.definitions.get? name, d.isSingleton = false → object.typeName = d.typeName))
  | .answered _ none | .entered _ | .left _ _ | .registered _ | .updated _ _ | .installed _
  | .made _ _ | .walked _ _ _ | .requested _ | .ended _ _ _ | .unsubscribed _
  | .published _ _ => isTrue trivial

/-- Whether an entry does not tell that the factory of another definition is called for the build of
    one of some names. -/
def Activity.Copies (names : List String) (k : Container H) : Activity H → Prop
  | .entered (.make name copy) => name ∈ names → ∀ d ∈ k.definitions.get? name, d.LastsAs copy
  | _ => True

instance [DecidableEq H.Factory] (names : List String) (k : Container H) :
    (activity : Activity H) → Decidable (activity.Copies names k)
  | .entered (.make name copy) =>
    inferInstanceAs (Decidable (name ∈ names → ∀ d ∈ k.definitions.get? name, d.LastsAs copy))
  | .entered (.mutate _ _) | .entered (.customize _ _) | .entered (.merge _ _ _)
  | .entered (.intercept _ _ _ _) | .entered (.notify _ _ _) | .answered _ _ | .left _ _
  | .registered _ | .updated _ _ | .installed _ | .made _ _ | .walked _ _ _ | .requested _
  | .ended _ _ _ | .unsubscribed _ | .published _ _ => isTrue trivial

/-- Nothing keeps an installation of some names from success: no hook fails and none of their
    factories, no hook puts another definition in the place of a copy, and the objects that the
    installation asks for come unwrapped if they are no singletons. -/
structure Smooth (names : List String) (s t : State H) : Prop where
  unfailing : ¬Failed names s t
  copied : ∀ activity ∈ since s t, activity.Copies names s.container
  unwrapped : ∀ activity ∈ outer (since s t), activity.Unwraps names s.container

/-- What is asked for of an interceptor that an installation finds. No build of it is under way, and
    if its singleton is built it can be viewed as an interceptor. -/
structure Engine.Promises (E : Engine H) (s : State H) (name : String) (d : Definition H.Factory) :
    Prop where
  stored : s.container.definitions.get? name = some d
  concrete : d.isAbstract = false
  intercepts : d.hasCapability .interceptsInstance = true
  idle : name ∉ s.container.inCreation
  kept : ∀ object, s.container.singletons.get? name = some object →
    (s.container.facet? name object .interceptsInstance).isSome = true
  returns : E.Returns s name d

/-- A state that an installation comes by while no definition changes. -/
structure Reached (behaviour : Behaviour H) (facade : Facade) (s u : State H) : Prop where
  renewing : AlongCourses (Renewing behaviour facade) s u
  spared : AlongCourses (Spared AnyName) s u
  unchanged : stores (since s u) = []

-- A view is of the kind that its capability opens.
theorem Container.facet?_kind {k : Container H} {name : String} {object : Object H.Content}
    {c : Capability} {view : Facet H.Content} (h : k.facet? name object c = some view) :
    c.facetKind? = some view.kind := by
  have hcast : ∀ {d : Definition H.Factory} {o : Object H.Content},
      d.cast? o c = some view → c.facetKind? = some view.kind := by
    intro d o hview
    rw [Definition.cast?] at hview
    split at hview
    · rcases Option.map_eq_some_iff.1 hview with ⟨kind, hkind, rfl⟩
      exact hkind
    · cases hview
  rw [facet?] at h
  cases hd : k.definitions.get? name with
  | none =>
      rw [hd] at h
      cases h
  | some d =>
      rw [hd] at h
      cases hobject : d.cast? object c with
      | some view' =>
          simp only [hobject] at h
          exact hcast (hobject.trans h)
      | none =>
          simp only [hobject] at h
          rcases Option.bind_eq_some_iff.1 h with ⟨_, _, htarget⟩
          exact hcast htarget

namespace Reached

theorem rest (s : State H) : Reached behaviour facade s s :=
  ⟨(Renewing.gradual behaviour facade).trail.rest s, (Spared.gradual AnyName).trail.rest s, by
    rw [since_self]
    rfl⟩

theorem followedBy (h : Reached behaviour facade s u)
    (hrenewing : AlongCourses (Renewing behaviour facade) u t)
    (hspared : AlongCourses (Spared AnyName) u t) (hnone : stores (since s t) = []) :
    Reached behaviour facade s t :=
  ⟨(Renewing.gradual behaviour facade).trail.followedBy h.renewing hrenewing,
    (Spared.gradual AnyName).trail.followedBy h.spared hspared, hnone⟩

theorem quiet (h : Reached behaviour facade s u) (hut : Quiet u t)
    (hallow : t.container.allowOverriding = u.container.allowOverriding) :
    Reached behaviour facade s t := by
  have hcourse : Course Anything u t := .quiet hut
  refine h.followedBy ⟨hcourse, (Renewing.gradual behaviour facade).quiet hut hallow⟩
    ⟨hcourse, (Spared.gradual AnyName).quiet hut hallow⟩ ?_
  rw [h.spared.1.since_followedBy hcourse, Course.since_quiet hut, List.append_nil]
  exact h.unchanged

theorem install (h : Reached behaviour facade s u) (name : String) (hook : Hook H.Content) :
    Reached behaviour facade s
      ((u.withContainer (u.container.install name hook)).note (.installed name)) := by
  have hdeed : Deed u (.installed name)
      ((u.withContainer (u.container.install name hook)).note (.installed name)) :=
    .install u name hook
  have hcourse : Course Anything u _ := .deed hdeed trivial
  refine h.followedBy ⟨hcourse, (Renewing.gradual behaviour facade).install u name hook⟩
    ⟨hcourse, (Spared.gradual AnyName).install u name hook⟩ ?_
  rw [h.spared.1.since_followedBy hcourse, Course.since_deed hdeed, stores_append, h.unchanged]
  rfl

theorem installEach : ∀ {hooks : List (Ranked (Object H.Content × Bool))} {u : State H},
    Reached behaviour facade s u →
      ∃ t, Engine.installEach hooks u = some ((), t) ∧ Reached behaviour facade s t := by
  intro hooks
  induction hooks with
  | nil =>
      intro u hu
      exact ⟨u, rfl, hu⟩
  | cons ranked rest ih =>
      intro u hu
      rcases ih (hu.install ranked.name (.object ranked.hook.1)) with ⟨t, hrun, ht⟩
      exact ⟨t, Run.bind_eq_some_iff.2 ⟨(), _, rfl, hrun⟩, ht⟩

/-- What a request for an interceptor is answered with can be viewed as one, unless it is no
    singleton and not of its type, or another definition takes the place of a copy. -/
theorem facet {name : String} (hu : Reached behaviour facade s u)
    (ht : Reached behaviour facade s t) (hs : s.container.Coherent)
    (hd : (Engine.ofDepth behaviour facade depth).Promises s name d)
    {object : Object H.Content}
    (h : ((Engine.ofDepth behaviour facade depth).getOrBuild name).run u = some (.ok object, t))
    (hcopied : ∀ copy, .entered (.make name copy) ∈ since s t → d.LastsAs copy)
    (hunwrapped : d.isSingleton = false → object.typeName = d.typeName) :
    (t.container.facet? name object .interceptsInstance).isSome = true := by
  have hE : (Engine.ofDepth behaviour facade depth).Lawful :=
    Engine.lawful_ofDepth behaviour facade depth
  have hthere : t.container.definitions.get? name = some d :=
    ht.spared.1.definition_kept ht.unchanged hd.stored
  -- What the definition is called does not matter, as long as it stands under the name.
  let own : Definition H.Factory := { d with name := name }
  have hown : own.LastsAs d := d.lastsAs_renamed name
  have hown' : d.LastsAs own := ⟨d.toDetails, name, rfl⟩
  have hupholds : ∀ activity ∈ since s t, activity.Upholds own := by
    intro activity hmem
    have hunstored : activity.stored? = none :=
      List.filterMap_eq_nil_iff.1 ht.unchanged activity hmem
    cases activity with
    | registered e => cases hunstored
    | updated n e => cases hunstored
    | entered point =>
        cases point with
        | make n copy =>
            rintro rfl
            exact hown'.of_lastsAs (hcopied copy hmem)
        | _ => exact trivial
    | _ => exact trivial
  have hcourse : Course Anything u t :=
    Engine.getOrBuild_follows hE (fun _ _ => trivial) name u _ t h
  cases hkept : s.container.singletons.get? name with
  | some kept =>
      -- The singleton was there at first, and with it what is viewed of it.
      have hsame : ∀ {w : State H}, Reached behaviour facade s w →
          s.container.SameFor name w.container := fun hw =>
        hw.spared.2 name trivial (Or.inr (by rw [hkept]; rfl)) (spares_of_stores (by
          rw [hw.unchanged]
          exact List.not_mem_nil))
      have hrun := Engine.run_getOrBuild_kept (Engine.ofDepth behaviour facade depth)
        ((hsame hu).singleton.trans hkept)
      obtain rfl : kept = object := by
        rw [hrun] at h
        cases h
        rfl
      have hview := hd.kept kept hkept
      rw [Container.facet?, hd.stored] at hview
      rw [Container.facet?, hthere, (hsame ht).target]
      exact hview
  | none =>
      cases hsingleton : d.isSingleton with
      | true =>
          -- The singleton was built on the way, and what its factory made is kept beside it.
          have hknown : Renewed behaviour facade own s.log s :=
            .of_unbuilt ⟨d, hd.stored, hown⟩ hkept
          have hrenewed := hknown.lasts hs ht.renewing hupholds
          have hcached := Engine.kept_of_getOrBuild hE h fun copy hmem => by
            have hcopy := hcopied copy (since_subset hu.spared.1.log_suffix hcourse.log_suffix
              List.suffix_rfl hmem)
            rw [hcopy.isSingleton_eq, hsingleton]
          rcases hrenewed.facet hcached hd.intercepts rfl with ⟨made, _, hview⟩
          rw [hview t.container d hthere hown rfl]
          rfl
      | false =>
          have htype := hunwrapped hsingleton
          rw [Container.facet_of_target (d := own) hthere hown (fun hother => absurd htype hother)
            htype hd.intercepts rfl]
          rfl

end Reached

-- The answer of a request that is made outside of calls stands outside of calls.
theorem Engine.answered_outer {E : Engine H} (hE : E.Lawful) {name : String}
    {result : Except Error (Object H.Content)} (hsu : Course Anything s u)
    (h : (E.getOrBuild name).run u = some (result, t)) :
    .answered name result.toOption ∈ outer (since s t) := by
  rcases run_getOrBuild_eq_some h with ⟨v, hobtain, rfl⟩
  have huv : Course Anything (u.note (.requested name)) v :=
    obtain_follows hE (fun _ _ => trivial) name _ _ _ hobtain
  have hrequest : Course Anything u (v.note (.answered name result.toOption)) :=
    .request trivial trivial huv
  have hfirst : (Activity.requested (H := H) name).IsRemark := trivial
  have hlast : (Activity.answered name result.toOption).IsRemark := trivial
  have hbefore : Nested (.requested name :: since (u.note (.requested name)) v) :=
    .append (.remark hfirst) huv.nested
  rw [hsu.since_followedBy hrequest, outer_append hsu.nested, huv.since_between,
    outer_append hbefore, outer_remark hlast]
  exact List.mem_append_right _ (List.mem_append_right _ (List.mem_singleton_self _))

namespace Engine

/-- The interceptors that are found keep what is asked for of them. -/
def Ready (E : Engine H) (names : List String) (s : State H) : Prop :=
  ∀ name ∈ names, ∃ d, E.Promises s name d

section Phase

variable (hs : s.container.Coherent) (hready : (ofDepth behaviour facade depth).Ready names s)
include hs hready

theorem buildFacet_prevails {name : String} (hname : name ∈ names)
    (hu : Reached behaviour facade s u) :
    ((ofDepth behaviour facade depth).buildFacet .direct name .interceptsInstance).Prevails u
      (fun t => ¬Smooth names s t)
      fun view t => view.kind = .interceptor ∧ Reached behaviour facade s t := by
  have hE : (ofDepth behaviour facade depth).Lawful := lawful_ofDepth behaviour facade depth
  rcases hready name hname with ⟨d, hd⟩
  have hrequest : ((ofDepth behaviour facade depth).getOrBuild name).Prevails u
      (fun t => ¬Smooth names s t) fun object t => Reached behaviour facade s t ∧
        (Smooth names s t →
          (t.container.facet? name object .interceptsInstance).isSome = true) := by
    rcases getOrBuild_prevails hE hd.returns hname hd.stored hd.concrete hd.idle hu.spared.1
      hu.unchanged with ⟨object, t, hrun, hnone⟩ | ⟨e, t, hrun, hfailed⟩
    · have ht : Reached behaviour facade s t :=
        hu.followedBy (getOrBuild_renewing behaviour facade depth name u _ t hrun)
          (getOrBuild_spared behaviour facade depth name trivial u _ t hrun) hnone
      refine Or.inl ⟨object, t, hrun, ht, fun hsmooth => ?_⟩
      exact hu.facet ht hs hd hrun
        (fun copy hmem => hsmooth.copied _ hmem hname d hd.stored) fun hprototype =>
          hsmooth.unwrapped _ (answered_outer hE hu.spared.1 hrun) hname d hd.stored hprototype
    · exact Or.inr ⟨e, t, hrun, fun hsmooth => hsmooth.unfailing hfailed⟩
  refine hrequest.bind fun object t ht => .step_bind rfl ?_
  have hdirect : Facade.direct.facet? t.container name object .interceptsInstance
      = t.container.facet? name object .interceptsInstance := rfl
  rw [hdirect]
  cases hview : t.container.facet? name object .interceptsInstance with
  | some view => exact .pure ⟨(Option.some.inj (Container.facet?_kind hview)).symm, ht.1⟩
  | none =>
      refine .throw _ fun hsmooth => ?_
      have hsome := ht.2 hsmooth
      rw [hview] at hsome
      cases hsome

theorem buildMarked_prevails {candidate : Candidate} (hname : candidate.1 ∈ names)
    (hu : Reached behaviour facade s u) :
    ((ofDepth behaviour facade depth).buildMarked .direct candidate).Prevails u
      (fun t => ¬Smooth names s t) fun _ t => Reached behaviour facade s t := by
  have hhook : ((ofDepth behaviour facade depth).buildHook .direct .instanceHookRegistration
      .interceptsInstance .interceptor candidate.1).Prevails u (fun t => ¬Smooth names s t)
      fun _ t => Reached behaviour facade s t := by
    rcases buildFacet_prevails hs hready hname hu with
      ⟨view, t, hrun, hkind, ht⟩ | ⟨e, t, hrun, hrough⟩
    · refine .step_bind hrun ?_
      dsimp only
      rw [if_pos hkind]
      exact .pure ht
    · exact .step_bind hrun (.throw _ hrough)
  have hbuilt : ((ofDepth behaviour facade depth).buildInterceptor .direct candidate).Prevails u
      (fun t => ¬Smooth names s t) fun _ t => Reached behaviour facade s t :=
    hhook.bind fun hook t ht => .pure ht
  exact hbuilt.bind fun ranked t ht => .step_bind rfl (.pure ht)

theorem divide_prevails : ∀ {found : List String} {u : State H}, (∀ name ∈ found, name ∈ names) →
    Reached behaviour facade s u →
      (divide .direct ((ofDepth behaviour facade depth).buildMarked .direct) found).Prevails u
        (fun t => ¬Smooth names s t)
        fun division t => Reached behaviour facade s t ∧
          (∀ candidate ∈ division.ordered, candidate.1 ∈ names) ∧
          ∀ candidate ∈ division.plain, candidate.1 ∈ names := by
  intro found
  induction found with
  | nil =>
      intro u _ hu
      exact .pure ⟨hu, fun _ h => absurd h List.not_mem_nil, fun _ h => absurd h List.not_mem_nil⟩
  | cons name rest ih =>
      intro u hfound hu
      have hname := hfound name List.mem_cons_self
      have hrest := fun n hn => hfound n (List.mem_cons_of_mem name hn)
      -- A name that is put off is one of those that are found.
      have hmore : ∀ {candidates : List Candidate} {placement : Placement},
          (∀ candidate ∈ candidates, candidate.1 ∈ names) →
            ∀ candidate ∈ (name, placement) :: candidates, candidate.1 ∈ names := by
        intro candidates placement hall candidate hmem
        rcases List.mem_cons.1 hmem with rfl | hmem
        · exact hname
        · exact hall candidate hmem
      refine .step_bind rfl ?_
      dsimp only
      split
      · refine .bind (buildMarked_prevails hs hready hname hu) fun hook v hv => ?_
        exact .bind (ih hrest hv) fun division t ht => .pure ht
      · exact .bind (ih hrest hu) fun division t ht => .pure ⟨ht.1, hmore ht.2.1, ht.2.2⟩
      · exact .bind (ih hrest hu) fun division t ht => .pure ⟨ht.1, ht.2.1, hmore ht.2.2⟩

theorem buildEach_prevails : ∀ {candidates : List Candidate} {u : State H},
    (∀ candidate ∈ candidates, candidate.1 ∈ names) → Reached behaviour facade s u →
      (buildEach ((ofDepth behaviour facade depth).buildMarked .direct) candidates).Prevails u
        (fun t => ¬Smooth names s t) fun _ t => Reached behaviour facade s t := by
  intro candidates
  induction candidates with
  | nil =>
      intro u _ hu
      exact .pure hu
  | cons candidate rest ih =>
      intro u hall hu
      refine .bind (buildMarked_prevails hs hready (hall candidate List.mem_cons_self) hu)
        fun hook v hv => ?_
      have hrest := ih (fun c hc => hall c (List.mem_cons_of_mem _ hc)) hv
      exact .bind hrest fun hooks t ht => .pure ht

end Phase

-- A tier is installed whatever it holds.
theorem installTier_prevails {good : β → State H → Prop} {wrong : State H → Prop}
    {hooks : List (Ranked (Object H.Content × Bool))} {next : Unit → Attempt H β}
    (hu : Reached behaviour facade s u)
    (hnext : ∀ t, Reached behaviour facade s t → (next ()).Prevails t wrong good) :
    (Attempt.step (installTier hooks) >>= next).Prevails u wrong good := by
  have hinstalled : ∃ t, installTier hooks u = some ((), t) ∧ Reached behaviour facade s t :=
    hu.installEach
  rcases hinstalled with ⟨t, hrun, ht⟩
  exact .step_bind hrun (hnext t ht)

/-- An installation comes to an end, and it succeeds unless something keeps it from that. -/
theorem installationPhase_prevails {config : Config} (hs : s.container.Coherent)
    (hready : (ofDepth behaviour facade depth).Ready
      (s.container.namesFor config.interceptorQuery).1 s) :
    ((ofDepth behaviour facade depth).installationPhase .direct config).Prevails s
      (fun t => ¬Smooth (s.container.namesFor config.interceptorQuery).1 s t)
      fun _ t => Reached behaviour facade s t := by
  have hfound : Reached behaviour facade s
      (s.withContainer (s.container.namesFor config.interceptorQuery).2) :=
    (Reached.rest s).quiet (.search s config.interceptorQuery)
      (Container.namesFor_allowOverriding _ _)
  refine .step_bind rfl <| .step_bind rfl <| .step_bind rfl <| .step_bind rfl ?_
  refine .bind (divide_prevails hs hready (fun _ => id)
    ((hfound.quiet (.station _ _) rfl).install _ _)) ?_
  rintro division u1 ⟨hu1, hordered, hplain⟩
  refine installTier_prevails hu1 fun u2 hu2 => ?_
  refine .bind (buildEach_prevails hs hready hordered hu2) fun ordered u3 hu3 => ?_
  refine installTier_prevails hu3 fun u4 hu4 => ?_
  refine .bind (buildEach_prevails hs hready hplain hu4) fun plain u5 hu5 => ?_
  refine installTier_prevails hu5 fun u6 hu6 => ?_
  refine installTier_prevails hu6 fun u7 hu7 => ?_
  exact .step_bind rfl <| .step_bind rfl <| .pure (hu7.install _ _)

end Engine

/-- Let nothing that an installation finds be under way, let what is built of it already be there as
    interceptors, and let all calls that their builds make come to an end and change no definition.
    If no hook fails and none of their factories does, and no hook puts another definition in the
    place of a copy, then the installation succeeds and installs all that it found, in whatever
    tiers these are and however their objects are wrapped. Of those that are not singletons this is
    only so if they come out of their builds as objects of their type, because nothing else is kept
    of them. -/
theorem installationPhase_succeeds (behaviour : Behaviour H) (facade : Facade) (depth : Nat)
    (config : Config) {s : State H} (hs : s.container.Consistent)
    (hcoherent : s.container.Coherent)
    (hidle : ∀ name ∈ s.container.search config.interceptorQuery,
      name ∉ s.container.inCreation)
    (hkept : ∀ name ∈ s.container.search config.interceptorQuery, ∀ object,
      s.container.singletons.get? name = some object →
        (s.container.facet? name object .interceptsInstance).isSome = true)
    (hreturns : ∀ name ∈ s.container.search config.interceptorQuery, ∀ d,
      s.container.definitions.get? name = some d →
        (Engine.ofDepth behaviour facade depth).Returns s name d)
    (hsmooth : ∀ result t, ((Engine.ofDepth behaviour facade depth).installationPhase .direct
      config).run s = some (result, t) → Smooth (s.container.search config.interceptorQuery) s t) :
    ∃ inst t, ((Engine.ofDepth behaviour facade depth).installationPhase .direct config).run s
        = some (.ok inst, t) ∧
      ∀ name ∈ s.container.search config.interceptorQuery,
        name ∈ tierInstalls (since s t) ∧ name ∈ inst.chain := by
  have hE : (Engine.ofDepth behaviour facade depth).Lawful :=
    Engine.lawful_ofDepth behaviour facade depth
  have hready : (Engine.ofDepth behaviour facade depth).Ready
      (s.container.namesFor config.interceptorQuery).1 s := by
    intro name hmem
    rcases hs.mem_namesFor_iff.1 hmem with ⟨d, hd, hadmits⟩
    rw [hs.namesFor_eq] at hmem
    simp only [CapabilityQuery.admits, Bool.and_eq_true, Bool.not_eq_true'] at hadmits
    exact ⟨d, hd, hadmits.1.1, hadmits.2, hidle _ hmem, hkept _ hmem, hreturns _ hmem d hd⟩
  have hprevails := Engine.installationPhase_prevails hcoherent hready
  rw [hs.namesFor_eq] at hprevails
  rcases hprevails with ⟨inst, t, hrun, ht⟩ | ⟨e, t, hrun, hrough⟩
  · have hun : Unmoved config.interceptorQuery Definition.station s t := by
      intro entry hentry
      rw [ht.unchanged] at hentry
      exact absurd hentry List.not_mem_nil
    rcases Engine.installationPhase_installs hE hs hun hrun with ⟨hchain, hinstalls⟩
    refine ⟨inst, t, hrun, fun name hmem => ⟨?_, ?_⟩⟩
    · have hsorted : name ∈ sortedNames (s.container.marking config.interceptorQuery) := by
        rw [mem_sortedNames, marking_names]
        exact hmem
      rw [hinstalls]
      exact List.mem_append_left _ (List.mem_cons_of_mem _ hsorted)
    · rw [hchain]
      refine Engine.installationPhase_holds hE hrun (List.mem_append_right _ ?_)
      rw [hs.namesFor_eq]
      exact List.mem_cons_of_mem _ (List.mem_cons_of_mem _ hmem)
  · exact absurd (hsmooth _ _ hrun) hrough

namespace Scenarios

theorem stateOf_coherent {definitions : List (Definition Bool)}
    (h : (definitions.map fun d => d.name).Nodup) :
    (stateOf definitions).container.Coherent := by
  refine ⟨(stateOf_consistent h).toInStep, List.nodup_nil, ?_, ?_, ?_⟩
  · intro name object hkept
    cases hkept
  · exact fun name hmem => absurd hmem List.not_mem_nil
  · intro name target htarget
    cases htarget

/-- As `behaviour`, except that a wrapper wraps whatever comes past it. -/
def wrapping : Behaviour host := { Scenarios.behaviour with
  intercept := fun stage wraps object _ => do
    if wraps && stage = .after then
      return .ok (some (← Prog.request (.create "wrapped" false)))
    else return .ok (some object) }

theorem wrapping_private : wrapping.IsPrivate := by
  refine ⟨fun _ _ d => .done ?_, fun _ _ => .done trivial, fun stage wraps object _ => ?_⟩
  · rintro _ ⟨⟩
    exact .refl d
  dsimp only [wrapping]
  split
  · exact .ask trivial fun _ => .done trivial
  · exact .done trivial

def wrapper : Definition Bool := { interceptor "wrapper" {} false with maker := .hosted true }

/-- An installation with such hooks. -/
def installWrapped (definitions : List (Definition Bool)) :
    Option (Except Error Installation × State host) :=
  ((Engine.ofDepth wrapping .direct 3).installationPhase .direct .standard).run
    (stateOf definitions)

def prototypeHook : Definition Bool := { interceptor "prototype" {} false with scope := .prototype }

/-- A hook that is no singleton but comes before the wrapper, and another one behind it. -/
def wrapperBetween : List (Definition Bool) :=
  [{ prototypeHook with placement := ⟨.highest, none⟩ },
    { wrapper with placement := ⟨.ordered, none⟩ },
    interceptor "later" {} false]

theorem search_of_wrapperBetween :
    (stateOf wrapperBetween).container.search Config.standard.interceptorQuery
    = ["prototype", "wrapper", "later"] := by
  decide +kernel

theorem report_of_wrapperBetween : (installWrapped wrapperBetween).map
    (fun (r : Except Error Installation × State host) => ((answer? (some r)).map Installation.chain,
      (r.2.container.singletons.get? "later").map Object.typeName,
      decide (∃ activity ∈ since (stateOf wrapperBetween) r.2,
        activity.Fails ["prototype", "wrapper", "later"]),
      (since (stateOf wrapperBetween) r.2).all fun activity =>
        decide (activity.Copies ["prototype", "wrapper", "later"]
          (stateOf wrapperBetween).container),
      decide (∀ activity ∈ outer (since (stateOf wrapperBetween) r.2),
        activity.Unwraps ["prototype", "wrapper", "later"] (stateOf wrapperBetween).container)))
      = some (some [sentinelName, "prototype", "wrapper", "later", listenerDetectorName],
        some "wrapped", false, true, true) := by
  decide +kernel

/-- The last hook is wrapped when it is built, and all the same it is installed. -/
theorem wrapped_hook_installed : ∃ (inst : Installation) (t : State host),
    installWrapped wrapperBetween = some (.ok inst, t) ∧
    (t.container.singletons.get? "later").map Object.typeName = some "wrapped" ∧
    ∀ name ∈ ["prototype", "wrapper", "later"],
      name ∈ tierInstalls (since (stateOf wrapperBetween) t) ∧
      name ∈ inst.chain := by
  rcases Option.map_eq_some_iff.1 report_of_wrapperBetween with ⟨⟨result, t⟩, hrun, hreport⟩
  simp only [Prod.mk.injEq, decide_eq_false_iff_not, decide_eq_true_eq, List.all_eq_true]
    at hreport
  rcases hreport with ⟨_, hwrapped, hworks, hcopies, hunwraps⟩
  have hnames : (wrapperBetween.map fun d => d.name).Nodup := by decide
  have hsucceeds := installationPhase_succeeds wrapping .direct 3 .standard
    (stateOf_consistent hnames) (stateOf_coherent hnames) (fun _ _ => List.not_mem_nil)
    (fun _ _ object hkept => by cases hkept)
    (fun name _ d _ => Engine.returns_of_private wrapping_private .direct 2 _ name d)
    (fun result' t' hrun' => by
      rw [search_of_wrapperBetween]
      obtain ⟨-, rfl⟩ := Prod.mk.inj (Option.some.inj (hrun'.symm.trans hrun))
      exact ⟨hworks, hcopies, hunwraps⟩)
  rw [search_of_wrapperBetween] at hsucceeds
  rcases hsucceeds with ⟨inst, t', hrun', hinstalled⟩
  obtain ⟨-, rfl⟩ := Prod.mk.inj (Option.some.inj (hrun'.symm.trans hrun))
  exact ⟨inst, t', hrun', hwrapped, hinstalled⟩

/-- An installation that ends in an error although no definition changes and no call fails, neither
    of a hook nor of a factory. -/
def Foiled (E : Engine host) (s : State host) : Prop :=
  ∃ e t, (E.installationPhase .direct .standard).run s = some (.error e, t) ∧
    stores (since s t) = [] ∧
    ∀ point failure, .left point (some failure) ∉ since s t

/-- Whether an entry tells of a failure. -/
def tellsFailure : Activity host → Bool
  | .left _ (some _) => true
  | _ => false

/-- What is to be checked to see that an installation is foiled. -/
def foiled (E : Engine host) (s : State host) : Bool :=
  match (E.installationPhase .direct .standard).run s with
  | some (.error _, t) =>
    (stores (since s t)).isEmpty && !(since s t).any tellsFailure
  | _ => false

theorem of_foiled {E : Engine host} {s : State host} (h : foiled E s = true) : Foiled E s := by
  unfold foiled at h
  split at h
  · rename_i e t hrun
    rw [Bool.and_eq_true, List.isEmpty_iff, Bool.not_eq_true', List.any_eq_false] at h
    exact ⟨e, t, hrun, h.1, fun point failure hmem => h.2 _ hmem rfl⟩
  · cases h

/-- As `behaviour`, except that a name is registered anew as an interceptor by its own factory. -/
def reregisteringItself : Behaviour host := { Scenarios.behaviour with
  make := fun content d => do
    if d.typeName = "original" then
      let _ ← Prog.request (.register (interceptor "reregistered" {} false))
    return .ok content }

def reregistered : Definition Bool :=
  { service with name := "reregistered", typeName := "original" }

/-- A registry in which this may happen. -/
def withReregistered : State host :=
  (stateOf [reregistered]).withContainer
    { (stateOf [reregistered]).container with allowOverriding := true }

/-- The singleton that is kept under this name was made of the old definition. -/
def afterReregistering : Option (State host) :=
  (((Engine.ofDepth reregisteringItself .direct 3).getOrBuild "reregistered").run
    withReregistered).map Prod.snd

/-- Three installations that are foiled: by a hook that is no singleton and is wrapped, by a
    singleton that is no interceptor although its definition says so, and by a hook whose build is
    under way. -/
theorem installations_foiled :
    Foiled (Engine.ofDepth wrapping .direct 3)
      (stateOf [{ wrapper with placement := ⟨.highest, none⟩ }, prototypeHook]) ∧
    (∃ s, afterReregistering = some s ∧ Foiled (Engine.ofDepth reregisteringItself .direct 3) s) ∧
    Foiled (Engine.ofDepth wrapping .direct 3) ((stateOf [wrapper]).begin "wrapper") := by
  have hreregistered :
      afterReregistering.map (foiled (Engine.ofDepth reregisteringItself .direct 3))
        = some true := by
    decide +kernel
  rcases Option.map_eq_some_iff.1 hreregistered with ⟨s, hs, hfoiled⟩
  exact ⟨of_foiled (by decide +kernel), ⟨s, hs, of_foiled hfoiled⟩, of_foiled (by decide +kernel)⟩

end Scenarios

end ObjectBootstrap
