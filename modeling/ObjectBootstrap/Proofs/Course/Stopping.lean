import ObjectBootstrap.Proofs.Course.Endings

/-!
# Failing calls are the last ones

Whatever the registry does for a request, it stops when a hook or a factory fails: the call that
fails is the last one that the registry makes for that request. A request that is answered without
an error has no failing call at all.

Only the calls that the registry makes itself are meant. What the programs do that are called is
their own affair: they may go on after an error that they are told, and ask for something else.

## Main definitions

* `Activity.Failed`: A call ends in a failure.
* `Spotless`: No call fails.
* `Stops`: No call is begun behind one that fails.

## Theorems

* `Nested.entered_outer`: Calls that are begun are begun inside of others that are not.
* `Engine.getOrBuild_stops`: A build stops at the first failure.
* `Engine.answer_stops`: So does whatever answers a request of a program.
-/

namespace ObjectBootstrap

variable {H : Host} {α β : Type}

/-- A call ends in a failure. -/
def Activity.Failed : Activity H → Prop
  | .left _ (some _) => True
  | _ => False

/-- The news of a log in which no call is left open and none of the outermost ones fails. -/
structure Spotless (s t : State H) : Prop where
  suffix : s.log <:+ t.log
  nested : Nested (since s t)
  clean : ∀ activity ∈ outer (since s t), ¬ activity.Failed

/-- The news of a log in which no call is left open and none is begun behind an outermost one that
    fails. -/
structure Stops (s t : State H) : Prop where
  suffix : s.log <:+ t.log
  nested : Nested (since s t)
  last : (outer (since s t)).Pairwise fun earlier later => earlier.Failed → later.entered? = none

-- If calls are begun at all, some of them are begun outside of all others.
theorem Nested.entered_outer {chronicle : List (Activity H)} (h : Nested chronicle)
    {point : EntryPoint H} (hmem : .entered point ∈ chronicle) :
    ∃ first, .entered first ∈ outer chronicle := by
  induction h with
  | nil => exact absurd hmem List.not_mem_nil
  | remark hremark =>
      cases List.mem_singleton.1 hmem
      exact absurd hremark id
  | append hearly _ ihearly ihlate =>
      rw [outer_append hearly]
      rcases List.mem_append.1 hmem with hmem | hmem
      · rcases ihearly hmem with ⟨first, hfirst⟩
        exact ⟨first, List.mem_append_left _ hfirst⟩
      · rcases ihlate hmem with ⟨first, hfirst⟩
        exact ⟨first, List.mem_append_right _ hfirst⟩
  | @call first _ _ hbody _ =>
      rw [outer_call hbody]
      exact ⟨first, List.mem_cons_self⟩

namespace Spotless

theorem of_log_eq {s t : State H} (h : t.log = s.log) : Spotless s t := by
  have hnone : since s t = [] := since_of_log (show t.log = [] ++ s.log from h)
  refine ⟨h ▸ List.suffix_rfl, hnone ▸ .nil, fun activity hmem => ?_⟩
  rw [hnone] at hmem
  exact absurd hmem List.not_mem_nil

theorem rest (s : State H) : Spotless s s :=
  of_log_eq rfl

theorem followedBy {s t u : State H} (h1 : Spotless s t) (h2 : Spotless t u) : Spotless s u := by
  have hsince := since_append h1.suffix h2.suffix
  refine ⟨h1.suffix.trans h2.suffix, hsince ▸ .append h1.nested h2.nested, fun activity hmem => ?_⟩
  rw [hsince, outer_append h1.nested, List.mem_append] at hmem
  exact hmem.elim (h1.clean activity) (h2.clean activity)

-- Only the end of a call can tell of a failure.
theorem of_log_cons {s t : State H} {activity : Activity H} (hlog : t.log = activity :: s.log)
    (hremark : activity.IsRemark) : Spotless s t := by
  have hsince : since s t = [activity] :=
    since_of_log (show t.log = [activity] ++ s.log from hlog)
  refine ⟨hlog ▸ List.suffix_cons _ _, hsince ▸ .remark hremark, fun last hmem hfailed => ?_⟩
  rw [hsince, outer_remark hremark, List.mem_singleton] at hmem
  cases hmem
  cases activity with
  | left point failure => exact hremark
  | _ => exact hfailed

theorem note (s : State H) (activity : Activity H) (hremark : activity.IsRemark) :
    Spotless s (s.note activity) :=
  of_log_cons rfl hremark

theorem stops {s t : State H} (h : Spotless s t) : Stops s t :=
  ⟨h.suffix, h.nested, List.pairwise_of_forall_mem_list fun earlier hmem _ _ hfailed =>
    absurd hfailed (h.clean earlier hmem)⟩

end Spotless

/-- Behind calls that do not fail, a failing one may be the last. -/
theorem Spotless.followedByStop {s t u : State H} (h1 : Spotless s t) (h2 : Stops t u) :
    Stops s u := by
  have hsince := since_append h1.suffix h2.suffix
  refine ⟨h1.suffix.trans h2.suffix, hsince ▸ .append h1.nested h2.nested, ?_⟩
  rw [hsince, outer_append h1.nested, List.pairwise_append]
  exact ⟨h1.stops.last, h2.last, fun earlier hmem _ _ hfailed =>
    absurd hfailed (h1.clean earlier hmem)⟩

-- What is no call may follow a failing one.
theorem Stops.note {s t : State H} (h : Stops s t) (activity : Activity H)
    (hremark : activity.IsRemark) : Stops s (t.note activity) := by
  have hsince := since_note h.suffix activity
  refine ⟨h.suffix.trans (List.suffix_cons _ _), hsince ▸ .append h.nested (.remark hremark), ?_⟩
  rw [hsince, outer_append h.nested, outer_remark hremark, List.pairwise_append]
  refine ⟨h.last, List.pairwise_singleton _ _, fun _ _ later hmem _ => ?_⟩
  cases List.mem_singleton.1 hmem
  cases activity with
  | entered point => exact absurd hremark id
  | _ => rfl

/-- What stops at failures may fail wherever nothing failed. -/
theorem stops_endings : Endings (H := H) Spotless fun s _ t => Stops s t where
  rest := Spotless.rest
  followedBy := Spotless.followedBy
  refused s _ := (Spotless.rest s).stops
  failed := Spotless.followedByStop

/-- An attempt that stops at the first failure. -/
abbrev Attempt.StopsAtFailure (attempt : Attempt H α) : Prop :=
  Attempt.Ends Spotless (fun s _ t => Stops s t) attempt

-- An attempt either way, from what it comes to.
theorem Attempt.StopsAtFailure.stops {attempt : Attempt H α} (h : attempt.StopsAtFailure)
    {s t : State H} {result : Except Error α} (hrun : attempt.run s = some (result, t)) :
    Stops s t :=
  match result with
  | .ok _ => (h.well hrun).stops
  | .error _ => h.badly hrun

section Calls

-- A call without a failure is spotless.
theorem spotless_of_called {point : EntryPoint H} {s u : State H}
    (h : Course Anything (s.note (.entered point)) u) : Spotless s (u.note (.left point none)) := by
  have hsince : since s (u.note (.left point none))
      = .entered point :: since (s.note (.entered point)) u ++ [.left point none] :=
    Course.since_between h
  refine ⟨((List.suffix_cons _ _).trans h.log_suffix).trans (List.suffix_cons _ _),
    hsince ▸ .call h.nested, fun activity hmem hfailed => ?_⟩
  rw [hsince, outer_call h.nested] at hmem
  simp only [List.mem_cons, List.not_mem_nil, or_false] at hmem
  rcases hmem with rfl | rfl
  · exact hfailed
  · exact hfailed

-- Nothing follows a call with a failure.
theorem stops_of_called {point : EntryPoint H} {failure : Option Failure} {s u : State H}
    (h : Course Anything (s.note (.entered point)) u) :
    Stops s (u.note (.left point failure)) := by
  have hsince : since s (u.note (.left point failure))
      = .entered point :: since (s.note (.entered point)) u ++ [.left point failure] :=
    Course.since_between h
  refine ⟨((List.suffix_cons _ _).trans h.log_suffix).trans (List.suffix_cons _ _),
    hsince ▸ .call h.nested, ?_⟩
  rw [hsince, outer_call h.nested]
  exact List.pairwise_pair.2 fun hfailed => absurd hfailed id

/-- A call that an attempt goes on behind if it does not fail, and ends with if it does. -/
theorem Attempt.StopsAtFailure.call {point : EntryPoint H} {call : Run H (Except Failure α)}
    {next : Except Failure α → Attempt H β}
    (hcall : ∀ {s t : State H} {result : Except Failure α}, call s = some (result, t) →
      ∃ u, Course Anything (s.note (.entered point)) u ∧
        t = u.note (.left point (failure? result)))
    (hnext : ∀ a, (next (.ok a)).StopsAtFailure)
    (hfails : ∀ failure, ∃ e, next (.error failure) = throw e) :
    (Attempt.step call >>= next).StopsAtFailure := by
  refine ⟨fun {s t b} h => ?_, fun {s t e} h => ?_⟩
  · rcases Attempt.run_bind_eq_ok_iff.1 h with ⟨answer, u, hanswer, hrest⟩
    rcases hcall (Attempt.run_step_eq_ok_iff.1 hanswer) with ⟨v, hinside, rfl⟩
    match answer with
    | .ok a => exact (spotless_of_called hinside).followedBy ((hnext a).well hrest)
    | .error failure =>
      rcases hfails failure with ⟨e, hthrow⟩
      rw [hthrow] at hrest
      cases hrest
  · rcases Attempt.run_bind_eq_some_iff.1 h with ⟨_, herror, _⟩ | ⟨answer, u, hanswer, hrest⟩
    · rcases Attempt.run_step_eq_some_iff.1 herror with ⟨_, _, hcontra⟩
      cases hcontra
    rcases hcall (Attempt.run_step_eq_ok_iff.1 hanswer) with ⟨v, hinside, rfl⟩
    match answer with
    | .ok a => exact (spotless_of_called hinside).followedByStop ((hnext a).badly hrest)
    | .error failure =>
      rcases hfails failure with ⟨e, hthrow⟩
      rw [hthrow] at hrest
      cases hrest
      exact stops_of_called hinside

end Calls

namespace Engine

variable {E : Engine H} (hE : E.Lawful)

section Builds

include hE

theorem mergeThrough_stops (name : String) :
    ∀ (entries : List (ChainEntry H.Content)) (d : Definition H.Factory),
      (E.mergeThrough name entries d).StopsAtFailure
  | [], _ => .pure stops_endings _
  | _ :: rest, _ => .call (merge_called hE.keeps) (fun _ => mergeThrough_stops name rest _)
      fun _ => ⟨_, rfl⟩

theorem walkThrough_stops {stage : Stage} {name : String} :
    ∀ (entries : List (ChainEntry H.Content)) (object : Object H.Content),
      (E.walkThrough stage name entries object).StopsAtFailure
  | [], _ => .pure stops_endings _
  | _ :: rest, object => by
    refine .call (intercept_called hE.keeps fun number _ _ => Run.follows_watch number name)
      (fun answer => ?_) fun _ => ⟨_, rfl⟩
    match answer with
    | none => exact .pure stops_endings _
    | some next => exact walkThrough_stops rest next

-- Writing down what is no call.
omit hE in
theorem record_spotless {activity : Activity H} (h : activity.IsRemark) :
    Run.Along Spotless (Run.record activity) := by
  intro s a t hrun
  cases hrun
  exact .note s _ h

omit hE in
theorem modifyContainer_spotless (f : Container H → Container H) :
    Run.Along Spotless (Run.modifyContainer f) := by
  intro s a t hrun
  cases hrun
  exact .of_log_eq rfl

theorem walk_stops (stage : Stage) (name : String) (object : Object H.Content) :
    (E.walk stage name object).StopsAtFailure := by
  refine .bind stops_endings (.container stops_endings) fun k => ?_
  exact .bind stops_endings (.step (record_spotless trivial)) fun _ => walkThrough_stops hE _ _

theorem construct_stops (name : String) (d : Definition H.Factory) :
    (E.construct name d).StopsAtFailure := by
  refine .bind stops_endings (.container stops_endings) fun k => ?_
  refine .bind stops_endings (mergeThrough_stops hE name _ d) fun copy => ?_
  refine Attempt.StopsAtFailure.call (make_called hE.keeps) (fun object => ?_) fun _ => ⟨_, rfl⟩
  refine .bind stops_endings (.step (record_spotless trivial)) fun _ => ?_
  refine .bind stops_endings (.step (modifyContainer_spotless _)) fun _ => ?_
  refine .bind stops_endings (walk_stops hE _ _ _) fun _ => ?_
  exact .bind stops_endings (walk_stops hE _ _ _) fun _ => .pure stops_endings _

theorem build_stops (name : String) (d : Definition H.Factory) :
    (E.build name d).StopsAtFailure := by
  have hconstruct := construct_stops hE name d
  refine ⟨fun {s t object} h => ?_, fun {s t e} h => ?_⟩
  · rcases run_build_cases h with ⟨_, _, herror, _⟩ | ⟨k, built, u, _, hrun, hbuilt, rfl⟩
    · cases herror
    cases built with
    | error _ => cases hbuilt
    | ok b =>
      have hspotless := hconstruct.well hrun
      exact ⟨hspotless.suffix, hspotless.nested, hspotless.clean⟩
  · rcases run_build_cases h with ⟨_, _, _, rfl⟩ | ⟨k, built, u, _, hrun, hbuilt, rfl⟩
    · exact (Spotless.rest _).stops
    cases built with
    | ok _ => cases hbuilt
    | error e =>
      have hstops := hconstruct.badly hrun
      exact ⟨hstops.suffix, hstops.nested, hstops.last⟩

theorem obtain_stops (name : String) : (E.obtain name).StopsAtFailure := by
  refine ⟨fun {s t object} h => ?_, fun {s t e} h => ?_⟩
  · rcases run_obtain_cases h with ⟨_, rfl⟩ | ⟨_, _, _, rfl⟩ |
      ⟨_, d, _, ⟨_, _, rfl⟩ | ⟨_, hbuild⟩⟩
    · exact .rest _
    · exact .rest _
    · exact .rest _
    · exact (build_stops hE name d).well hbuild
  · rcases run_obtain_cases h with ⟨_, rfl⟩ | ⟨_, _, _, rfl⟩ |
      ⟨_, d, _, ⟨_, _, rfl⟩ | ⟨_, hbuild⟩⟩
    · exact (Spotless.rest _).stops
    · exact (Spotless.rest _).stops
    · exact (Spotless.rest _).stops
    · exact (build_stops hE name d).badly hbuild

/-- A build stops at the first failure. -/
theorem getOrBuild_stops (name : String) : (E.getOrBuild name).StopsAtFailure := by
  have hobtain := obtain_stops hE name
  refine ⟨fun {s t object} h => ?_, fun {s t e} h => ?_⟩
  · rcases run_getOrBuild_eq_some h with ⟨u, hrun, rfl⟩
    exact ((Spotless.note s (.requested name) trivial).followedBy (hobtain.well hrun)).followedBy
      (.note u _ trivial)
  · rcases run_getOrBuild_eq_some h with ⟨u, hrun, rfl⟩
    exact ((Spotless.note s (.requested name) trivial).followedByStop (hobtain.badly hrun)).note _
      trivial

theorem buildHook_stops (shown : Facade) (phase : Phase) (c : Capability) (kind : FacetKind)
    (name : String) : (E.buildHook shown phase c kind name).StopsAtFailure := by
  have hget := getOrBuild_stops hE name
  refine ⟨fun {s t object} h => ?_, fun {s t e} h => ?_⟩
  · rcases run_buildHook_cases h with ⟨_, _, herror⟩ | ⟨_, hbuilt⟩
    · cases herror
    · exact hget.well hbuilt
  · rcases run_buildHook_cases h with ⟨_, hfails, _⟩ | ⟨_, hbuilt⟩
    · exact hget.badly hfails
    · exact (hget.well hbuilt).stops

end Builds

section Phases

variable {shown : Facade} {config : Config}

theorem namesFor_spotless (query : CapabilityQuery) :
    Run.Along Spotless (Run.namesFor query : Run H (List String)) := by
  intro s a t hrun
  cases hrun
  exact .of_log_eq rfl

theorem install_spotless (name : String) (hook : Hook H.Content) :
    Run.Along Spotless (Run.install name hook) := by
  intro s a t hrun
  cases hrun
  exact .of_log_cons rfl trivial

include hE

theorem mutate_stops (name : String) (hook : Object H.Content) :
    (E.mutate shown name hook).StopsAtFailure := by
  refine .call (enter_called ?_) (fun _ => .pure stops_endings _) fun _ => ⟨_, rfl⟩
  split
  · exact hE _ _
  · exact Run.follows_pure _

theorem customize_stops (name : String) (hook : Object H.Content) :
    (E.customize shown name hook).StopsAtFailure := by
  refine .call (enter_called ?_) (fun _ => .pure stops_endings _) fun _ => ⟨_, rfl⟩
  split
  · exact hE _ _
  · exact hE _ _

theorem mutationPhase_stops (externals : List (ExternalHook H.Content)) :
    (E.mutationPhase shown config externals).StopsAtFailure :=
  mutationPhase_ends stops_endings (buildHook_stops hE shown _ _ _) (mutate_stops hE)
    namesFor_spotless (customize_stops hE) externals

theorem customizationPhase_stops (processed : Processed) :
    (E.customizationPhase shown config processed).StopsAtFailure :=
  customizationPhase_ends stops_endings (buildHook_stops hE shown _ _ _) (customize_stops hE)
    namesFor_spotless (modifyContainer_spotless _) processed

theorem installationPhase_stops : (E.installationPhase shown config).StopsAtFailure := by
  refine installationPhase_ends stops_endings (buildHook_stops hE shown _ _ _) namesFor_spotless
    (fun target s a t hrun => ?_) install_spotless
  cases hrun
  exact .of_log_eq rfl

theorem preInstantiate_stops : E.preInstantiate.StopsAtFailure :=
  preInstantiate_ends stops_endings (getOrBuild_stops hE)

-- A listener cannot fail.
theorem notifyAll_spotless (event : Event) : ∀ listeners : List (String × Object H.Content),
    Run.Along Spotless (E.notifyAll event listeners)
  | [] => by
    intro s a t hrun
    cases hrun
    exact .rest s
  | (name, listener) :: rest => by
    intro s a t hrun
    rcases Run.bind_eq_some_iff.1 hrun with ⟨answer, u, hcall, hrest⟩
    rcases run_enter_eq_some_iff.1 hcall with ⟨v, hinside, rfl⟩
    refine Spotless.followedBy ?_ (notifyAll_spotless event rest _ _ _ hrest)
    match listener with
    | ⟨_, _, .hosted content⟩ =>
      rcases Run.bind_eq_some_iff.1 hinside with ⟨_, _, htold, hend⟩
      cases hend
      exact spotless_of_called (hE _ _ _ _ _ htold)
    | ⟨_, _, .placeholderConfigurer⟩ =>
      cases hinside
      exact spotless_of_called (.rest _)

theorem publish_spotless (event : Event) : Run.Along Spotless (E.publish event) := by
  intro s a t hrun
  rcases Run.bind_eq_some_iff.1 hrun with ⟨_, _, hget, hrun⟩
  cases hget
  rcases Run.bind_eq_some_iff.1 hrun with ⟨_, _, hnote, hrun⟩
  cases hnote
  rcases Run.bind_eq_some_iff.1 hrun with ⟨_, u, hnotify, hrun⟩
  cases hrun
  exact (Spotless.note s (.published event _) trivial).followedBy
    (notifyAll_spotless hE event _ _ _ _ hnotify)

/-- Whatever answers a request of a program stops at the first failure. -/
theorem answer_stops (shown : Facade) {r : Request H α} {s t : State H} {reply : α}
    (h : E.answer shown r s = some (reply, t)) : Stops s t := by
  cases r with
  | getOrBuild name => exact (getOrBuild_stops hE name).stops h
  | preInstantiate => exact (preInstantiate_stops hE).stops h
  | walk stage name object => exact (walk_stops hE stage name object).stops h
  | mutationPhase config externals => exact (mutationPhase_stops hE externals).stops h
  | customizationPhase config processed => exact (customizationPhase_stops hE processed).stops h
  | installationPhase config => exact (installationPhase_stops hE).stops h
  | publish event => exact (publish_spotless hE event _ _ _ h).stops
  | namesFor query => exact (namesFor_spotless query _ _ _ h).stops
  | install name hook => exact (install_spotless name _ _ _ _ h).stops
  | invalidate => exact (modifyContainer_spotless _ _ _ _ h).stops
  | register d =>
      change (Attempt.register d).run s = some (reply, t) at h
      rw [Attempt.run_register_apply] at h
      split at h
      · cases h
        exact (Spotless.rest s).stops
      · cases h
        exact (@Spotless.of_log_cons H s _ (.registered d) rfl trivial).stops
  | detectListener name object =>
      cases h
      dsimp only
      split
      · split <;> exact Spotless.stops (.of_log_eq rfl)
      · exact Spotless.stops (.of_log_eq rfl)
  | removeListener name =>
      cases h
      exact (@Spotless.of_log_cons H s _ (.unsubscribed name) rfl trivial).stops
  | _ =>
      cases h
      refine Spotless.stops (.of_log_eq ?_)
      rfl

end Phases

end Engine

end ObjectBootstrap
