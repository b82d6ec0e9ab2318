import Mathlib.Logic.Relation
import ObjectBootstrap.Proofs.Building.Pipeline
import ObjectBootstrap.Proofs.Course.Asking
import ObjectBootstrap.Proofs.Course.Endings

/-!
# Root causes

The factory of a name may ask for other names, and when one of them cannot be built it may pass the
error on, under any number of notes. Its own build then fails with the error that it was told, and
so an error goes out through all builds that lie around the one in which it came up, as it is. What
it says is what happened there: a hook of the chain failed, the factory did, or there is nothing
that could be built. A note is a text. If a factory puts an error of the registry on a failure for a
note, its build fails with that one, and so it does not pass on what is below.

A phase that builds a hook passes the error on as well, except that it takes the failure of the
hook's own factory for its own. It tells that failure by the name of the hook. The builds around
another one have other names than that one, because no build is begun while it is under way, so the
failure of a factory further in is never mistaken for that of the hook's own.

## Main definitions

* `Engine.Prepares`, `Engine.FactoryFails`: A factory is to be called, and it fails.
* `Engine.Cause`: Why a request for an object fails.
* `Inquiry`, `PassesOn`: Requests for objects, and factories that pass on the errors of theirs.
* `Engine.HookPhase`: The phases that build hooks.

## Theorems

* `Engine.cause_of_failure`: Each request that fails has a cause.
* `PassesOn.outcome`, `PassesOn.underWay`: What goes out through a build, and what lies around one.
* `Engine.HookPhase.blames`: A phase fails as the hook does that it cannot build.
* `root_cause`: Nested builds and phases answer the error of the innermost build.
-/

namespace ObjectBootstrap

variable {H : Host}

/-- The build of a name is begun for a request, and its factory is to be called with the copy of the
    definition that the hooks have edited. -/
inductive Engine.Prepares (E : Engine H) (name : String) (s : State H) (d' : Definition H.Factory)
    (u : State H) : Prop
  | intro {d : Definition H.Factory} :
    s.container.singletons.get? name = none → s.container.definitions.get? name = some d →
      d.isAbstract = false → name ∉ s.container.inCreation →
      (E.mergeThrough name s.container.chain.entries d).run (s.begin name) = some (.ok d', u) →
      Engine.Prepares E name s d' u

/-- The factory fails in the build of a name. -/
def Engine.FactoryFails (E : Engine H) (name : String) (s : State H) (failure : Failure) : Prop :=
  ∃ d' u v, E.Prepares name s d' u ∧ E.make name d' u = some (.error failure, v)

/-- Why a request for the object of a name fails with an error. -/
inductive Engine.Cause (E : Engine H) (name : String) (s : State H) : Error → Prop
  /-- The name is not registered, or only as a template. -/
  | refused (message : String) :
    (∀ d, s.container.definitions.get? name = some d → d.isAbstract = true) →
      Engine.Cause E name s (.definition name message)
  | circular : name ∈ s.container.inCreation →
    Engine.Cause E name s (.circularDependency (s.container.inCreation ++ [name]))
  /-- A hook fails on the copy of the definition. -/
  | merging {entry : ChainEntry H.Content} {d : Definition H.Factory} {source : Failure}
    {u v : State H} :
    entry ∈ s.container.chain.entries → Course Anything (s.begin name) u →
      E.merge entry name d u = some (.error source, v) →
      Engine.Cause E name s (.hookExecution entry.name .definitionMerge source)
  /-- The factory fails by itself. -/
  | making {failure : Failure} : E.FactoryFails name s failure → failure.error? = none →
    Engine.Cause E name s (.hookExecution name .instantiation failure)
  /-- The factory passes an error on. -/
  | passing {failure : Failure} {e : Error} : E.FactoryFails name s failure →
    failure.error? = some e → Engine.Cause E name s e
  /-- A hook fails on the object, before or after its initialization. -/
  | walking {stage : Stage} {entry : ChainEntry H.Content} {object : Object H.Content}
    {source : Failure} {u v w : State H} :
    Course Anything (s.begin name) u → entry ∈ u.container.chain.entries → Course Anything u v →
      E.intercept stage entry name object v = some (.error source, w) →
      Engine.Cause E name s (.hookExecution entry.name stage.phase source)

/-- A hook of those that are offered a definition is to blame if the offers come to an error. -/
theorem Offers.cause {E : Engine H} (hE : E.Lawful) {name : String}
    {entries : List (ChainEntry H.Content)} {d : Definition H.Factory} {e : Error}
    {result : Except Error (Definition H.Factory)} {s t : State H}
    (h : Offers E name entries d s result t) (hresult : result = .error e) :
    ∃ entry ∈ entries, ∃ d' source u, Course Anything s u ∧
      E.merge entry name d' u = some (.error source, t) ∧
      e = .hookExecution entry.name .definitionMerge source := by
  induction h with
  | all d s => cases hresult
  | fails hcalled =>
      cases hresult
      exact ⟨_, List.mem_cons_self, _, _, _, .rest _, Engine.run_merge_iff.2 hcalled, rfl⟩
  | goesOn hcalled _ ih =>
      rcases ih hresult with ⟨entry, hentry, d', source, u, hcourse, hfails, rfl⟩
      have hfirst := Engine.merge_along hE.keeps (Course.trail Anything) trivial _ _ _
        (Engine.run_merge_iff.2 hcalled)
      exact ⟨entry, List.mem_cons_of_mem _ hentry, d', source, u, .followedBy hfirst hcourse,
        hfails, rfl⟩

/-- A hook of those that are handed an object is to blame if the passage comes to an error. -/
theorem Passage.cause {E : Engine H} (hE : E.Lawful) {stage : Stage} {name : String}
    {entries : List (ChainEntry H.Content)} {object : Object H.Content} {e : Error}
    {result : Except Error (Object H.Content)} {s t : State H}
    (h : Passage E stage name entries object s result t) (hresult : result = .error e) :
    ∃ entry ∈ entries, ∃ object' source u, Course Anything s u ∧
      E.intercept stage entry name object' u = some (.error source, t) ∧
      e = .hookExecution entry.name stage.phase source := by
  induction h with
  | all object s => cases hresult
  | stops _ => cases hresult
  | fails hcalled =>
      cases hresult
      exact ⟨_, List.mem_cons_self, _, _, _, .rest _, Engine.run_intercept_iff.2 hcalled, rfl⟩
  | goesOn hcalled _ ih =>
      rcases ih hresult with ⟨entry, hentry, object', source, u, hcourse, hfails, rfl⟩
      have hfirst := Engine.intercept_along hE.keeps (Course.trail Anything)
        (fun number _ _ => Run.follows_watch number name) (fun _ => trivial) _ _ _ _
        (Engine.run_intercept_iff.2 hcalled)
      exact ⟨entry, List.mem_cons_of_mem _ hentry, object', source, u, .followedBy hfirst hcourse,
        hfails, rfl⟩

namespace Engine

variable {E : Engine H} {name : String} {s : State H}

/-- A request fails if the factory does. -/
theorem FactoryFails.getOrBuild {failure : Failure} (h : E.FactoryFails name s failure) :
    ∃ t, (E.getOrBuild name).run s = some (.error (makeError name failure), t) := by
  rcases h with ⟨d', u, v, ⟨hkept, hd, hconcrete, hidle, hmerged⟩, hmake⟩
  rw [run_getOrBuild_construct hkept hd hconcrete hidle]
  refine ⟨_, Option.map_eq_some_iff.2 ⟨(.error (makeError name failure), v), ?_, rfl⟩⟩
  refine Attempt.run_bind_eq_some_iff.2 (Or.inr ⟨_, s.begin name, rfl, ?_⟩)
  refine Attempt.run_bind_eq_some_iff.2 (Or.inr ⟨d', u, hmerged, ?_⟩)
  exact Attempt.run_bind_eq_some_iff.2 (Or.inr ⟨_, _, Attempt.run_step_eq_ok_iff.2 hmake, rfl⟩)

-- The failure of a factory is reported as what it is, or as the error that it passes on.
theorem FactoryFails.cause {failure : Failure} (h : E.FactoryFails name s failure) :
    E.Cause name s (makeError name failure) := by
  cases herror : failure.error? with
  | none =>
      rw [makeError, herror]
      exact .making h herror
  | some e =>
      rw [makeError, herror]
      exact .passing h herror

-- Only the failure of a factory is told as one.
theorem Cause.ne_instantiation {e : Error} (h : E.Cause name s e)
    (hnone : ∀ failure, ¬ E.FactoryFails name s failure) {hook : String} (source : Failure) :
    e ≠ .hookExecution hook .instantiation source := by
  cases h with
  | making hfails _ => exact absurd hfails (hnone _)
  | passing hfails _ => exact absurd hfails (hnone _)
  | @walking stage _ _ _ _ _ _ _ _ _ _ => cases stage <;> nofun
  | _ => nofun

/-- Each request that fails has a cause. -/
theorem cause_of_failure (hE : E.Lawful) {e : Error} {t : State H}
    (h : (E.getOrBuild name).run s = some (.error e, t)) : E.Cause name s e := by
  rcases run_getOrBuild_eq_some h with ⟨u, hobtain, _⟩
  rcases run_obtain_cases hobtain with ⟨⟨_, _, hok⟩, _⟩ | ⟨_, hnone, ⟨message, herror⟩, _⟩ |
    ⟨hkept, d, hd, ⟨habs, ⟨message, herror⟩, _⟩ | ⟨hconcrete, hbuild⟩⟩
  · cases hok
  · cases herror
    refine .refused message fun d hd => ?_
    rw [State.note_container] at hnone
    rw [hnone] at hd
    cases hd
  · cases herror
    refine .refused message fun d' hd' => ?_
    cases hd.symm.trans hd'
    exact habs
  rcases run_build_cases hbuild with
    ⟨e', hbegun, herror, _⟩ | ⟨k, built, v, hk, hconstruct, hbuilt, _⟩
  · cases herror
    rw [State.note_container, Container.beginCreation] at hbegun
    split at hbegun
    · cases hbegun
      exact .circular ‹_›
    · cases hbegun
  rcases Container.beginCreation_eq_ok hk with ⟨hidle, rfl⟩
  have hname : name ∈ (s.begin name).container.inCreation :=
    List.mem_append_right _ (List.mem_singleton_self name)
  -- Each step that may fail has its own cause.
  obtain rfl : built = .error e := by
    cases built with
    | error cause =>
        cases hbuilt
        rfl
    | ok b => cases hbuilt
  generalize hresult : (Except.error e : Except Error (Built H)) = result at hconstruct
  have hsteps : E.Steps (Course Anything) name d (s.begin name) result v :=
    construct_steps hE.keeps (Course.trail Anything) (fun _ _ => trivial)
      (fun stage object => hE.walk (fun _ _ => trivial) stage object) (fun _ => trivial) hconstruct
  cases hsteps with
  | unmerged hmerge _ =>
      cases hresult
      rcases (run_mergeThrough_iff.1 hmerge).cause hE rfl with
        ⟨entry, hentry, d', source, w, hcourse, hfails, rfl⟩
      exact .merging hentry hcourse hfails
  | unmade hmerge _ hmake _ =>
      cases hresult
      exact FactoryFails.cause ⟨_, _, _, ⟨hkept, hd, hconcrete, hidle, hmerge⟩, hmake⟩
  | finished _ _ _ _ _ _ => cases hresult
  | @unfinished _ object _ w x _ _ hsw hmake hwx hrun _ =>
      cases hresult
      have hborne : Course Anything (s.begin name) (x.bear name object) :=
        .followedBy (.followedBy hsw hwx)
          (.deed (.make object ((hsw.followedBy hwx).inCreation_eq ▸ hname)) trivial)
      rcases Attempt.run_bind_eq_some_iff.1 (run_finish_walks hrun) with
        ⟨e', herror, hcontra⟩ | ⟨next, y, hbefore, hafter⟩
      · cases hcontra
        rcases (run_walk_passage herror).cause hE rfl with
          ⟨entry, hentry, object', source, z, hcourse, hfails, rfl⟩
        exact .walking hborne hentry (.followedBy (.deed (.walk _ _ _) trivial) hcourse) hfails
      · have hwalked := hborne.followedBy (hE.walk (fun _ _ => trivial) _ _ _ _ _ hbefore)
        rcases (run_walk_passage hafter).cause hE rfl with
          ⟨entry, hentry, object', source, z, hcourse, hfails, rfl⟩
        exact .walking hwalked hentry (.followedBy (.deed (.walk _ _ _) trivial) hcourse) hfails

end Engine

/-- A request for an object, as it is made of the engine of a depth. -/
structure Inquiry (H : Host) where
  depth : Nat
  state : State H
  name : String

section Nestings

variable (behaviour : Behaviour H) (facade : Facade)

/-- What a request comes to. -/
def Inquiry.outcome (i : Inquiry H) : Option (Except Error (Object H.Content) × State H) :=
  ((Engine.ofDepth behaviour facade i.depth).getOrBuild i.name).run i.state

/-- The factory fails in the build that a request begins. -/
def Inquiry.FactoryFails (i : Inquiry H) (failure : Failure) : Prop :=
  (Engine.ofDepth behaviour facade i.depth).FactoryFails i.name i.state failure

/-- The factory of a name makes a request for another one, which fails, and it passes the error on
    under any number of notes, none of which is another error of the registry. -/
inductive PassesOn : Inquiry H → Inquiry H → Prop
  | intro {depth : Nat} {name next : String} {d' : Definition H.Factory} {factory : H.Factory}
    {e : Error} {failure : Failure} {s u v w w' : State H} :
    (Engine.ofDepth behaviour facade (depth + 1)).Prepares name s d' u →
      d'.maker = .hosted factory →
      (behaviour.make factory d').Asks ((Engine.ofDepth behaviour facade depth).answer .direct)
        (.getOrBuild next) w (.error e) w' (u.note (.entered (.make name d'))) →
      (Engine.ofDepth behaviour facade (depth + 1)).make name d' u = some (.error failure, v) →
      failure.error? = some e →
      PassesOn ⟨depth + 1, s, name⟩ ⟨depth, w, next⟩

variable {behaviour facade} {i j : Inquiry H}

/-- The error of a request goes out through the build around it. -/
theorem PassesOn.outcome {e : Error} {t : State H} (h : PassesOn behaviour facade i j)
    (hfails : j.outcome behaviour facade = some (.error e, t)) :
    ∃ t', i.outcome behaviour facade = some (.error e, t') := by
  rcases h with ⟨hprepares, _, hasks, hmake, hpassed⟩
  have hanswered := (hasks.courses
    (Engine.answer_follows (Engine.lawful_ofDepth behaviour facade _) .direct)).1
  cases hanswered.symm.trans hfails
  have herror := Engine.FactoryFails.getOrBuild ⟨_, _, _, hprepares, hmake⟩
  rw [Engine.makeError, hpassed] at herror
  exact herror

/-- The build around a request is under way, and so are all builds around that one. -/
theorem PassesOn.underWay (h : PassesOn behaviour facade i j) :
    i.name ∈ j.state.container.inCreation ∧
      i.state.container.inCreation ⊆ j.state.container.inCreation := by
  rcases h with @⟨depth, name, next, d', factory, e, failure, s, u, v, w, w',
    ⟨_, _, _, _, hmerged⟩, _, hasks, _, _⟩
  have hE : (Engine.ofDepth behaviour facade (depth + 1)).Lawful :=
    Engine.lawful_ofDepth behaviour facade (depth + 1)
  have hcourse := (hasks.courses
    (Engine.answer_follows (Engine.lawful_ofDepth behaviour facade depth) .direct)).2.1
  have hoffered := Engine.mergeThrough_along hE.keeps (Course.trail Anything) (fun _ _ => trivial)
    _ _ _ _ _ hmerged
  have hsame : w.container.inCreation = (s.begin name).container.inCreation :=
    hcourse.inCreation_eq.trans hoffered.inCreation_eq
  rw [hsame]
  exact ⟨List.mem_append_right _ (List.mem_singleton_self name), List.subset_append_left _ _⟩

-- The error of the innermost request goes out through all builds around it.
theorem outcome_of_nesting {e : Error} {t : State H}
    (h : Relation.ReflTransGen (PassesOn behaviour facade) i j)
    (hfails : j.outcome behaviour facade = some (.error e, t)) :
    ∃ t', i.outcome behaviour facade = some (.error e, t') := by
  induction h using Relation.ReflTransGen.head_induction_on with
  | refl => exact ⟨t, hfails⟩
  | head hfirst _ ih =>
      rcases ih with ⟨t', hnext⟩
      exact hfirst.outcome hnext

-- All builds around the innermost one are under way.
theorem underWay_of_nesting (h : Relation.ReflTransGen (PassesOn behaviour facade) i j)
    (hinside : j ≠ i) : i.name ∈ j.state.container.inCreation := by
  rcases Relation.ReflTransGen.cases_head h with rfl | ⟨next, hfirst, hrest⟩
  · exact absurd rfl hinside
  · have hkept : next.state.container.inCreation ⊆ j.state.container.inCreation := by
      clear h hfirst hinside
      induction hrest with
      | refl => exact List.Subset.refl _
      | tail _ hlast ih => exact List.Subset.trans ih hlast.underWay.2
    exact hkept hfirst.underWay.1

end Nestings

/-- A request is not answered. -/
abbrev Unanswering : Activity H → Prop :=
  fun activity => ∀ name object, activity ≠ .answered name object

theorem Course.unanswering {s t : State H} (h : Course Unanswering s t) (name : String)
    (object : Option (Object H.Content)) : .answered name object ∉ outer (since s t) :=
  h.not_mem_outer (fun hmay => hmay _ _ rfl) trivial

namespace Engine

variable {E : Engine H}

/-- Outside of calls, a request for an object answers itself and no other one. -/
theorem getOrBuild_answers (hE : E.Lawful) {name : String} {s t : State H}
    {result : Except Error (Object H.Content)}
    (h : (E.getOrBuild name).run s = some (result, t)) {name' : String}
    {object : Option (Object H.Content)} (hmem : .answered name' object ∈ outer (since s t)) :
    name' = name ∧ object = result.toOption := by
  rcases run_getOrBuild_eq_some h with ⟨u, hobtain, rfl⟩
  have hcourse : Course Unanswering (s.note (.requested name)) u := by
    refine obtain_follows hE (fun activity hstep => ?_) name _ _ _ hobtain
    rintro _ _ rfl
    exact hstep
  rw [Course.since_between hcourse, outer_between (.requested name)
    (.answered name result.toOption) trivial trivial hcourse.nested, List.cons_append,
    List.mem_cons, List.mem_append, List.mem_singleton] at hmem
  rcases hmem with hcontra | hinside | hself
  · cases hcontra
  · exact absurd hinside (hcourse.unanswering name' object)
  · cases hself
    exact ⟨rfl, rfl⟩

/-- The phases that build hooks. -/
inductive HookPhase (E : Engine H) (shown : Facade) : Phase → {α : Type} → Attempt H α → Prop
  | mutation (config : Config) (externals : List (ExternalHook H.Content)) :
    HookPhase E shown .registryMutation (E.mutationPhase shown config externals)
  | customization (config : Config) (processed : Processed) :
    HookPhase E shown .factoryCustomization (E.customizationPhase shown config processed)
  | installation (config : Config) :
    HookPhase E shown .instanceHookRegistration (E.installationPhase shown config)

/-- No request of its own fails on the way. -/
def Unfailing (s t : State H) : Prop :=
  Course Anything s t ∧ ∀ name, .answered name none ∉ outer (since s t)

/-- If a request for a hook fails on the way, that is the end of it, and the error is that of the
    request as the phase tells it. -/
def Blames (E : Engine H) (phase : Phase) (s : State H) (e : Error) (t : State H) : Prop :=
  Course Anything s t ∧ ∀ name, .answered name none ∈ outer (since s t) →
    ∃ u cause, Course Anything s u ∧ (E.getOrBuild name).run u = some (.error cause, t) ∧
      e = cause.during name phase

theorem blames_endings (phase : Phase) : Endings Unfailing (E.Blames phase) where
  rest s := by
    refine ⟨.rest s, fun name hmem => ?_⟩
    rw [since_self] at hmem
    exact absurd hmem List.not_mem_nil
  followedBy h1 h2 := by
    refine ⟨h1.1.followedBy h2.1, fun name hmem => ?_⟩
    rw [h1.1.since_followedBy h2.1, outer_append h1.1.nested, List.mem_append] at hmem
    exact hmem.elim (h1.2 name) (h2.2 name)
  refused s e := by
    refine ⟨.rest s, fun name hmem => ?_⟩
    rw [since_self] at hmem
    exact absurd hmem List.not_mem_nil
  failed h1 h2 := by
    refine ⟨h1.1.followedBy h2.1, fun name hmem => ?_⟩
    rw [h1.1.since_followedBy h2.1, outer_append h1.1.nested, List.mem_append] at hmem
    rcases hmem with hfirst | hlater
    · exact absurd hfirst (h1.2 name)
    · rcases h2.2 name hlater with ⟨u, cause, hcourse, hrun, rfl⟩
      exact ⟨u, cause, h1.1.followedBy hcourse, hrun, rfl⟩

-- What answers no request has none that fails.
theorem unfailing_of_follows {α : Type} {run : Run H α} (h : Run.Follows Unanswering run) :
    Run.Along Unfailing run :=
  fun _ _ _ hrun =>
    ⟨(h _ _ _ hrun).anything, fun name => (h _ _ _ hrun).unanswering name none⟩

theorem blames_of_follows {α : Type} {attempt : Attempt H α} (phase : Phase)
    (h : Attempt.Follows Unanswering attempt) :
    Attempt.Ends Unfailing (E.Blames phase) attempt where
  well hrun := unfailing_of_follows h _ _ _ hrun
  badly hrun := ⟨(h _ _ _ hrun).anything, fun name hmem =>
    absurd hmem ((h _ _ _ hrun).unanswering name none)⟩

variable (hE : E.Lawful)
include hE

/-- A hook that cannot be built is to blame for it. -/
theorem buildHook_blames (shown : Facade) (phase : Phase) (c : Capability) (kind : FacetKind)
    (name : String) :
    Attempt.Ends Unfailing (E.Blames phase) (E.buildHook shown phase c kind name) := by
  have hcourse : Attempt.Follows Anything (E.buildHook shown phase c kind name) :=
    buildHook_follows hE (fun _ _ => trivial) shown phase c kind name
  refine ⟨fun {s t object} hrun => ?_, fun {s t e} hrun => ?_⟩
  · refine ⟨hcourse _ _ _ hrun, fun name' hmem => ?_⟩
    rcases run_buildHook_cases hrun with ⟨_, _, herror⟩ | ⟨_, hbuilt⟩
    · cases herror
    · cases (getOrBuild_answers hE hbuilt hmem).2
  · refine ⟨hcourse _ _ _ hrun, fun name' hmem => ?_⟩
    rcases run_buildHook_cases hrun with ⟨cause, hfails, herror⟩ | ⟨_, hbuilt⟩
    · cases herror
      obtain rfl := (getOrBuild_answers hE hfails hmem).1
      exact ⟨s, cause, .rest s, hfails, rfl⟩
    · cases (getOrBuild_answers hE hbuilt hmem).2

/-- A phase fails as the hook does that it cannot build. -/
theorem HookPhase.blames {shown : Facade} {phase : Phase} {α : Type} {attempt : Attempt H α}
    (h : E.HookPhase shown phase attempt) : Attempt.Ends Unfailing (E.Blames phase) attempt := by
  have hR := E.blames_endings phase
  have hmutate : ∀ name hook, Attempt.Ends Unfailing (E.Blames phase) (E.mutate shown name hook) :=
    fun name hook => blames_of_follows phase (mutate_follows hE shown fun _ _ => nofun)
  have hcustomize : ∀ name hook,
      Attempt.Ends Unfailing (E.Blames phase) (E.customize shown name hook) :=
    fun name hook => blames_of_follows phase (customize_follows hE shown fun _ _ => nofun)
  have hsearch : ∀ query, Run.Along Unfailing (Run.namesFor query : Run H (List String)) :=
    fun query => unfailing_of_follows (Run.follows_namesFor query)
  cases h with
  | mutation config externals =>
      exact mutationPhase_ends hR (buildHook_blames hE shown _ _ _) hmutate hsearch hcustomize
        externals
  | customization config processed =>
      exact customizationPhase_ends hR (buildHook_blames hE shown _ _ _) hcustomize hsearch
        (unfailing_of_follows (Run.along_invalidate (Course.trail Unanswering))) processed
  | installation config =>
      refine installationPhase_ends hR (buildHook_blames hE shown _ _ _) hsearch
        (fun target => unfailing_of_follows fun s a t hrun => ?_)
        fun name hook => unfailing_of_follows (Run.follows_install hook fun _ _ => nofun)
      cases hrun
      exact .quiet (.station s target)

end Engine

-- A phase takes only the failure of a hook's own factory for its own.
theorem Error.during_eq_self {name : String} {phase : Phase} {e : Error}
    (h : ∀ failure, e ≠ .hookExecution name .instantiation failure) : e.during name phase = e := by
  cases e with
  | hookExecution hook p failure =>
      cases p with
      | instantiation =>
          have hname : hook ≠ name := fun heq => h failure (by rw [heq])
          rw [Error.during, if_neg hname]
      | _ => rfl
  | _ => rfl

/-- Requests within requests, each of whose factories passes on the error of the next one, all come
    to the error of the innermost one, and that has its cause in the innermost build. If a phase
    cannot build a hook, it answers the error of the innermost request as well, however deep that
    lies, except that the failure of the hook's own factory is told as a failure of the phase. What
    a factory passes on is the outermost error of the registry in its failure, and without one the
    failure is told as its own. -/
theorem root_cause (behaviour : Behaviour H) (facade : Facade) :
    (∀ (i j : Inquiry H) (e : Error) (t : State H),
      Relation.ReflTransGen (PassesOn behaviour facade) i j →
      j.outcome behaviour facade = some (.error e, t) →
      (∃ t', i.outcome behaviour facade = some (.error e, t')) ∧
        (Engine.ofDepth behaviour facade j.depth).Cause j.name j.state e) ∧
    (∀ (depth : Nat) (shown : Facade) (phase : Phase) {α : Type} (attempt : Attempt H α)
      (s t : State H) (result : Except Error α) (name : String),
      (Engine.ofDepth behaviour facade depth).HookPhase shown phase attempt →
      attempt.run s = some (result, t) → .answered name none ∈ outer (since s t) →
      ∃ i : Inquiry H, i.depth = depth ∧ i.name = name ∧ Course Anything s i.state ∧
        (∃ e, i.outcome behaviour facade = some (.error e, t)) ∧
        ∀ (j : Inquiry H) (e : Error) (t' : State H),
          Relation.ReflTransGen (PassesOn behaviour facade) i j →
          j.outcome behaviour facade = some (.error e, t') →
          result = .error (e.during name phase) ∧
          (∀ failure, j.FactoryFails behaviour facade failure → failure.error? = none →
            (j = i → result = .error (.hookExecution name phase failure)) ∧
            (j ≠ i → result = .error e)) ∧
          ((∀ failure, ¬ j.FactoryFails behaviour facade failure) → result = .error e) ∧
          ((∀ failure, e ≠ .hookExecution name .instantiation failure) → result = .error e)) ∧
    ∀ (i : Inquiry H) (failure : Failure), i.FactoryFails behaviour facade failure →
      ∃ t, i.outcome behaviour facade = some (.error
        (failure.error?.getD (.hookExecution i.name .instantiation failure)), t) := by
  have hlawful : ∀ depth, (Engine.ofDepth behaviour facade depth).Lawful :=
    fun depth => Engine.lawful_ofDepth behaviour facade depth
  refine ⟨fun i j e t hnest hfails => ?_, ?_, fun i failure hfails => hfails.getOrBuild⟩
  · exact ⟨outcome_of_nesting hnest hfails, Engine.cause_of_failure (hlawful j.depth) hfails⟩
  intro depth shown phase α attempt s t result name hphase hrun hmem
  have hends := hphase.blames (hlawful depth)
  match result with
  | .ok a => exact absurd hmem ((hends.well hrun).2 name)
  | .error told =>
    rcases (hends.badly hrun).2 name hmem with ⟨u, cause, hcourse, hfailed, rfl⟩
    refine ⟨⟨depth, u, name⟩, rfl, rfl, hcourse, ⟨cause, hfailed⟩, fun j e t' hnest hfails => ?_⟩
    rcases outcome_of_nesting hnest hfails with ⟨_, hsame⟩
    cases hfailed.symm.trans hsame
    refine ⟨rfl, fun failure hfactory hplain => ?_, fun hnone => ?_, fun hother => ?_⟩
    · rcases hfactory.getOrBuild with ⟨_, hown⟩
      rw [Engine.makeError, hplain] at hown
      cases hfails.symm.trans hown
      refine ⟨?_, fun hinside => ?_⟩
      · rintro rfl
        change Except.error (Error.during name phase (.hookExecution name .instantiation failure))
          = _
        rw [Error.during, if_pos rfl]
      · -- The builds around the innermost one are under way, and it is none of these.
        have hunder := underWay_of_nesting hnest hinside
        rcases hfactory with ⟨_, _, _, ⟨_, _, _, hidle, _⟩, _⟩
        refine congrArg _ (Error.during_eq_self fun failure' heq => ?_)
        cases heq
        exact hidle hunder
    · have hcause := Engine.cause_of_failure (hlawful j.depth) hfails
      exact congrArg _ (Error.during_eq_self (hcause.ne_instantiation hnone))
    · exact congrArg _ (Error.during_eq_self hother)

namespace Scenarios

/-- As `behaviour`, except that the factory of the service fails, and that of a dependent hook
    because of it. -/
def failingService : Behaviour host := { Scenarios.behaviour with
  make := fun dependent _ => do
    if dependent then
      match ← Prog.request (.getOrBuild "service") with
      | .error e => return .error (.noted "no service" (.registry e))
      | .ok _ => return .ok true
    else return .error (.plain "broken") }

/-- A hook that is to be installed, and that asks for the service. -/
def dependentHook : Definition Bool :=
  { interceptor "dependent" {} false with maker := .hosted true }

def hookAndService : State host := stateOf [dependentHook, service]

/-- The state in which the hook asks for the service. -/
def askingForService : State host :=
  (hookAndService.begin "dependent").note (.entered (.make "dependent" dependentHook))

theorem service_fails :
    (⟨0, askingForService, "service"⟩ : Inquiry host).FactoryFails failingService .direct
      (.plain "broken") :=
  ⟨service, askingForService.begin "service", _, ⟨rfl, rfl, rfl, by decide, rfl⟩, rfl⟩

theorem hook_passes_on :
    PassesOn failingService .direct ⟨1, hookAndService, "dependent"⟩
      ⟨0, askingForService, "service"⟩ :=
  .intro ⟨rfl, rfl, rfl, by decide, rfl⟩ rfl (.here rfl) rfl rfl

/-- The texts of an error, if a run ended in one. -/
def reported {α : Type} : Except Error α → List String
  | .error e => e.texts
  | .ok _ => []

/-- Whether a request for a name is written down to have failed. -/
def unanswered (name : String) : Activity host → Bool
  | .answered name' none => name' = name
  | _ => false

theorem eq_of_unanswered {name : String} {activity : Activity host}
    (h : unanswered name activity = true) :
    activity = .answered name none := by
  cases activity with
  | answered name' object =>
      cases object with
      | none => rw [of_decide_eq_true (show decide (name' = name) = true from h)]
      | some object => cases h
  | _ => cases h

/-- The installation of what is to be installed. -/
def installing : Attempt host Installation :=
  (Engine.ofDepth failingService .direct 2).installationPhase .direct .standard

theorem report_of_installing : (installing.run hookAndService).map (fun r =>
    (reported r.1, (outer (since hookAndService r.2)).any (unanswered "dependent")))
      = some (["Hook 'service' failed during instantiation: broken", "broken"], true) := by
  decide +kernel

/-- The service fails in the build of the hook. The request for the hook answers just that, and so
    does the installation that needs the hook. -/
theorem failing_service_is_cause : ∃ (e told : Error) (i : Inquiry host) (t u : State host),
    (⟨1, hookAndService, "dependent"⟩ : Inquiry host).outcome failingService .direct
      = some (.error e, t) ∧
    (Engine.ofDepth failingService .direct 0).Cause "service" askingForService e ∧
    i.name = "dependent" ∧ i.outcome failingService .direct = some (.error told, u) ∧
    installing.run hookAndService
      = some (.error (told.during "dependent" .instanceHookRegistration), u) ∧
    (told.during "dependent" .instanceHookRegistration).texts
      = ["Hook 'service' failed during instantiation: broken", "broken"] := by
  rcases service_fails.getOrBuild with ⟨_, hfailed⟩
  rcases (root_cause failingService .direct).1 _ _ _ _ (.single hook_passes_on) hfailed with
    ⟨⟨t, hpassed⟩, hcause⟩
  rcases Option.map_eq_some_iff.1 report_of_installing with ⟨⟨result, u⟩, hrun, hreport⟩
  have hunanswered : .answered "dependent" none ∈ outer (since hookAndService u) := by
    rcases List.any_eq_true.1 (congrArg Prod.snd hreport) with ⟨activity, hmem, hactivity⟩
    exact eq_of_unanswered hactivity ▸ hmem
  rcases (root_cause failingService .direct).2.1 2 .direct .instanceHookRegistration installing
    hookAndService u result "dependent" (.installation _) hrun hunanswered with
    ⟨i, _, hname, _, ⟨told, houtcome⟩, hblamed⟩
  rcases hblamed i told u .refl houtcome with ⟨rfl, _⟩
  exact ⟨_, told, i, t, u, hpassed, hcause, hname, houtcome, hrun, congrArg Prod.fst hreport⟩

end Scenarios

end ObjectBootstrap
