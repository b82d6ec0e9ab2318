import ObjectBootstrap.Proofs.Building.Passing

/-!
# When builds succeed

A run has no result when it is out of depth, so that a build comes to one at all is something to
show. It does if every call that it makes comes to one. And if it ends in an error although it could
begin, then a hook failed or the factory did, and the log tells so.

Whether a call comes to an end depends on the state it starts from. What can be asked for of the
calls of a build is that they do from any state in which that build can be while no definition has
changed. The hooks may edit the details of the copy that the build uses.

## Main definitions

* `Attempt.Prevails`: An attempt succeeds or something has gone wrong.
* `Failed`: A hook failed, or the factory of one of some names.
* `Midway`: A state in the middle of a build.
* `Engine.Returns`: The calls of a build come to an end and change no definition.
* `Behaviour.IsPrivate`: Programs that keep to themselves.

## Theorems

* `Course.definition_kept`: If nothing is stored, definitions stay.
* `Engine.returns_of_private`: Programs that keep to themselves come to an end.
* `Engine.construct_prevails`: The steps of a build succeed, or something failed.
* `Engine.getOrBuild_prevails`: So do requests that may be answered by a build.
-/

namespace ObjectBootstrap

variable {H : Host} {α β : Type}

/-- An attempt comes to a result: it succeeds with what is asked for, or something has gone wrong by
    the time it ends. -/
def Attempt.Prevails (attempt : Attempt H α) (s : State H) (wrong : State H → Prop)
    (good : α → State H → Prop) : Prop :=
  (∃ a t, attempt.run s = some (.ok a, t) ∧ good a t) ∨
    ∃ e t, attempt.run s = some (.error e, t) ∧ wrong t

namespace Attempt.Prevails

variable {first : Attempt H α} {s u : State H} {wrong : State H → Prop} {good : α → State H → Prop}
  {good' : β → State H → Prop}

theorem bind {second : α → Attempt H β} (h : first.Prevails s wrong good)
    (hnext : ∀ a u, good a u → (second a).Prevails u wrong good') :
    (first >>= second).Prevails s wrong good' := by
  rcases h with ⟨a, u, hfirst, hgood⟩ | ⟨e, t, hfirst, hwrong⟩
  · rcases hnext a u hgood with ⟨b, t, hsecond, hgood'⟩ | ⟨e, t, hsecond, hwrong⟩
    · exact Or.inl ⟨b, t, run_bind_eq_ok_iff.2 ⟨a, u, hfirst, hsecond⟩, hgood'⟩
    · exact Or.inr ⟨e, t, run_bind_eq_some_iff.2 (Or.inr ⟨a, u, hfirst, hsecond⟩), hwrong⟩
  · exact Or.inr ⟨e, t, run_bind_eq_some_iff.2 (Or.inl ⟨e, hfirst, rfl⟩), hwrong⟩

-- A run that cannot end in an error comes first.
theorem step_bind {run : Run H α} {a : α} {second : α → Attempt H β} (hrun : run s = some (a, u))
    (hnext : (second a).Prevails u wrong good') :
    (Attempt.step run >>= second).Prevails s wrong good' := by
  have hfirst : (Attempt.step run).Prevails s wrong fun b t => b = a ∧ t = u :=
    Or.inl ⟨a, u, run_step_eq_ok_iff.2 hrun, rfl, rfl⟩
  refine hfirst.bind ?_
  rintro _ _ ⟨rfl, rfl⟩
  exact hnext

theorem pure {a : α} (h : good a s) : (Pure.pure a : Attempt H α).Prevails s wrong good :=
  Or.inl ⟨a, s, rfl, h⟩

theorem throw (e : Error) (h : wrong s) :
    (MonadExcept.throw e : Attempt H α).Prevails s wrong good :=
  Or.inr ⟨e, s, rfl, h⟩

end Attempt.Prevails

/-- Whether a hook is called in a build, or the factory of one of some names. -/
def EntryPoint.Builds (names : List String) : EntryPoint H → Prop
  | .merge _ _ _ => True
  | .make name _ => name ∈ names
  | .intercept _ _ _ _ => True
  | .mutate _ _ | .customize _ _ | .notify _ _ _ => False

instance (names : List String) : DecidablePred (EntryPoint.Builds (H := H) names)
  | .merge _ _ _ | .intercept _ _ _ _ => isTrue trivial
  | .make name _ => inferInstanceAs (Decidable (name ∈ names))
  | .mutate _ _ | .customize _ _ | .notify _ _ _ => isFalse id

/-- Whether an entry tells that a hook fails in a build, or the factory of one of some names. -/
def Activity.Fails (names : List String) : Activity H → Prop
  | .left point (some _) => point.Builds names
  | _ => False

instance (names : List String) : DecidablePred (Activity.Fails (H := H) names)
  | .left point (some _) => inferInstanceAs (Decidable (point.Builds names))
  | .left _ none | .entered _ | .registered _ | .updated _ _ | .installed _ | .made _ _
  | .walked _ _ _ | .requested _ | .answered _ _ | .ended _ _ _ | .unsubscribed _
  | .published _ _ => isFalse id

/-- Between two states a hook failed, or the factory of one of some names. -/
def Failed (names : List String) (s t : State H) : Prop :=
  ∃ activity ∈ since s t, activity.Fails names

/-- A state in the middle of a build of a name. The build begins some time after a first state, and
    no definition changes in the meantime. -/
structure Midway (s : State H) (name : String) (w : State H) : Prop where
  unchanged : stores (since s w) = []
  begun : ∃ u, Course Anything s u ∧ Course Anything (u.begin name) w

/-- A call comes to an end with an answer that is good, and changes no definition. -/
def Run.Returns (call : Run H α) (good : α → Prop) (w : State H) : Prop :=
  ∃ a t, call w = some (a, t) ∧ good a ∧ stores (since w t) = []

/-- A hook that is offered a copy of a definition edits its details at most. -/
def Definition.KeptBy (d : Definition H.Factory)
    (answer : Except Failure (Definition H.Factory)) : Prop :=
  ∀ copy, answer = .ok copy → d.EditedTo copy

/-- All calls that a build of a definition makes come to an end and change no definition, whatever
    happens between a first state and the call. -/
structure Engine.Returns (E : Engine H) (s : State H) (name : String) (d : Definition H.Factory) :
    Prop where
  merge {w : State H} {copy : Definition H.Factory} (entry : ChainEntry H.Content) :
    Midway s name w → d.EditedTo copy → (E.merge entry name copy).Returns d.KeptBy w
  make {w : State H} {copy : Definition H.Factory} :
    Midway s name w → d.EditedTo copy → (E.make name copy).Returns (fun _ => True) w
  intercept {w : State H} (stage : Stage) (entry : ChainEntry H.Content)
    (object : Object H.Content) :
    Midway s name w → (E.intercept stage entry name object).Returns (fun _ => True) w

-- A definition stays if nothing is stored.
theorem Course.definition_kept {may : Activity H → Prop} {s t : State H} (h : Course may s t)
    (hnone : stores (since s t) = []) {name : String} {d : Definition H.Factory}
    (hd : s.container.definitions.get? name = some d) :
    t.container.definitions.get? name = some d := by
  rw [h.definitions_kept hnone, hd]

namespace Failed

variable {names : List String} {s t u w : State H}

theorem later (h : Failed names s t) (hst : s.log <:+ t.log) (htu : t.log <:+ u.log) :
    Failed names s u := by
  rcases h with ⟨activity, hmem, hfails⟩
  exact ⟨activity, since_subset List.suffix_rfl hst htu hmem, hfails⟩

-- A call is left with a failure.
theorem of_call {point : EntryPoint H} {failure : Failure} (hsw : s.log <:+ w.log)
    (h : Course Anything (w.note (.entered point)) u)
    (hfails : (Activity.left point (some failure)).Fails names) :
    Failed names s (u.note (.left point (some failure))) := by
  refine ⟨_, ?_, hfails⟩
  rw [since_note ((hsw.trans (List.suffix_cons _ _)).trans h.log_suffix)]
  exact List.mem_append_right _ (List.mem_singleton_self _)

end Failed

namespace Midway

variable {s t w : State H} {name : String}

theorem suffix (h : Midway s name w) : s.log <:+ w.log := by
  rcases h.begun with ⟨u, hsu, huw⟩
  exact hsu.log_suffix.trans ((List.suffix_cons _ _).trans huw.log_suffix)

theorem underway (h : Midway s name w) : name ∈ w.container.inCreation := by
  rcases h.begun with ⟨u, _, huw⟩
  rw [huw.inCreation_eq]
  exact List.mem_append_right _ (List.mem_singleton_self name)

theorem later (h : Midway s name w) (hwt : Course Anything w t) (hnone : stores (since w t) = []) :
    Midway s name t := by
  refine ⟨?_, ?_⟩
  · rw [since_append h.suffix hwt.log_suffix, stores_append, h.unchanged, hnone]
    rfl
  · rcases h.begun with ⟨u, hsu, huw⟩
    exact ⟨u, hsu, huw.followedBy hwt⟩

theorem deed (h : Midway s name w) {activity : Activity H} (hdeed : Deed w activity t)
    (hstored : activity.stored? = none) : Midway s name t := by
  refine h.later (.deed hdeed trivial) ?_
  rw [Course.since_deed hdeed, stores, List.filterMap_cons_none hstored]
  rfl

-- A build begins.
theorem begin (h : Course Anything s w) (hnone : stores (since s w) = []) (name : String) :
    Midway s name (w.begin name) := by
  refine ⟨?_, w, h, .rest _⟩
  have hsince : since s (w.begin name) = since s w ++ [.requested name] :=
    since_note h.log_suffix (.requested name)
  rw [hsince, stores_append, hnone]
  rfl

end Midway

/-- The programs of hooks and factories keep to themselves. -/
structure Behaviour.IsPrivate (behaviour : Behaviour H) : Prop where
  merge (content : H.Content) (name : String) (d : Definition H.Factory) :
    (behaviour.merge content name d).Answers d.KeptBy
  make (factory : H.Factory) (d : Definition H.Factory) :
    (behaviour.make factory d).Answers fun _ => True
  intercept (stage : Stage) (content : H.Content) (object : Object H.Content) (name : String) :
    (behaviour.intercept stage content object name).Answers fun _ => True

namespace Engine

-- A call whose program comes to an end and writes down nothing of what it stores.
theorem returns_of_enter {point : EntryPoint H} {body : Run H (Except Failure α)} {w u : State H}
    {result : Except Failure α} {good : Except Failure α → Prop} (news : List (Activity H))
    (hbody : body (w.note (.entered point)) = some (result, u)) (hgood : good result)
    (hlog : u.log = news ++ (w.note (.entered point)).log) (hnews : stores news = []) :
    (enter point body).Returns good w := by
  refine ⟨result, _, run_enter_eq_some_iff.2 ⟨u, hbody, rfl⟩, hgood, ?_⟩
  have hall : (u.note (.left point (failure? result))).log
      = (.left point (failure? result) :: news ++ [.entered point]) ++ w.log := by
    rw [State.note_log, hlog, State.note_log, List.cons_append, List.cons_append,
      List.append_assoc]
    rfl
  change stores (since w (u.note (.left point (failure? result)))) = []
  rw [since_of_log hall, stores, List.filterMap_reverse, List.cons_append,
    List.filterMap_cons_none rfl, List.filterMap_append]
  change ((stores news) ++ []).reverse = []
  rw [hnews]
  rfl

/-- Programs that keep to themselves come to an end, whenever they are called. -/
theorem returns_of_private {behaviour : Behaviour H} (h : behaviour.IsPrivate) (facade : Facade)
    (depth : Nat) (s : State H) (name : String) (d : Definition H.Factory) :
    (ofDepth behaviour facade (depth + 1)).Returns s name d := by
  have hunchanged : ∀ {copy : Definition H.Factory}, d.EditedTo copy → d.KeptBy (.ok copy) := by
    rintro copy hcopy _ ⟨⟩
    exact hcopy
  refine ⟨?_, ?_, ?_⟩
  · rintro w copy ⟨hook, ⟨_, _, content | _⟩ | _ | _⟩ _ hcopy
    · rcases (h.merge content name copy).run (ofDepth behaviour facade depth) facade
        (w.note (.entered (.merge hook name copy))) with ⟨result, u, hrun, hkept, _, hlog⟩
      exact returns_of_enter [] hrun (fun next hnext => hcopy.trans (hkept next hnext)) hlog rfl
    all_goals exact returns_of_enter [] rfl (hunchanged hcopy) rfl rfl
  · intro w copy _ _
    unfold make
    cases hmaker : copy.maker with
    | placeholderConfigurer => exact returns_of_enter [] rfl trivial rfl rfl
    | hosted factory =>
        rcases (h.make factory copy).run (ofDepth behaviour facade depth) .direct
          (w.note (.entered (.make name copy))) with ⟨result, u, hrun, _, _, hlog⟩
        cases result with
        | error failure =>
            exact returns_of_enter [] (Run.bind_eq_some_iff.2 ⟨_, u, hrun, rfl⟩) trivial hlog rfl
        | ok content =>
            exact returns_of_enter [] (Run.bind_eq_some_iff.2 ⟨_, u, hrun, rfl⟩) trivial hlog rfl
  · rintro w stage ⟨hook, ⟨_, _, content | _⟩ | number | _⟩ object _
    · rcases (h.intercept stage content object name).run (ofDepth behaviour facade depth) facade
        (w.note (.entered (.intercept stage hook object name))) with ⟨result, u, hrun, _, _, hlog⟩
      match result with
      | .error failure =>
        exact returns_of_enter [] (Run.bind_eq_some_iff.2 ⟨_, u, hrun, rfl⟩) trivial hlog rfl
      | .ok (some next) =>
        exact returns_of_enter [] (Run.bind_eq_some_iff.2 ⟨_, u, hrun, rfl⟩) trivial hlog rfl
      | .ok none =>
        have hended : (u.note (.ended stage hook name)).log
            = [.ended stage hook name] ++ (w.note (.entered (.intercept stage hook object
              name))).log := congrArg _ hlog
        exact returns_of_enter _ (Run.bind_eq_some_iff.2 ⟨_, u, hrun, rfl⟩) trivial hended rfl
    · exact returns_of_enter [] rfl trivial rfl rfl
    · cases stage <;> exact returns_of_enter [] rfl trivial rfl rfl
    · cases stage with
      | before => exact returns_of_enter [] rfl trivial rfl rfl
      | after =>
          refine returns_of_enter [] (Run.bind_eq_some_iff.2 ⟨(), _, rfl, rfl⟩) trivial ?_ rfl
          -- The detector changes at most who is subscribed.
          dsimp only
          split
          · split <;> rfl
          · rfl

section Builds

variable {E : Engine H} (hE : E.Lawful) {names : List String} {s : State H} {name : String}
  {d : Definition H.Factory} (hreturns : E.Returns s name d)
include hE hreturns

theorem mergeThrough_prevails : ∀ (entries : List (ChainEntry H.Content))
    {copy : Definition H.Factory} {w : State H}, d.EditedTo copy → Midway s name w →
      (E.mergeThrough name entries copy).Prevails w (Failed names s)
        fun e t => Midway s name t ∧ d.EditedTo e := by
  intro entries
  induction entries with
  | nil =>
      intro copy w hcopy hw
      exact .pure ⟨hw, hcopy⟩
  | cons entry rest ih =>
      intro copy w hcopy hw
      rcases hreturns.merge entry hw hcopy with ⟨answer, u, hcall, hkept, hnone⟩
      have hwu : Course Anything w u :=
        merge_along hE.keeps (Course.trail Anything) trivial _ _ _ hcall
      refine .step_bind hcall ?_
      match answer with
      | .error failure =>
        rcases merge_called hE.keeps hcall with ⟨v, hinside, rfl⟩
        exact .throw _ (.of_call hw.suffix hinside trivial)
      | .ok next => exact ih (hkept next rfl) (hw.later hwu hnone)

theorem walkThrough_prevails (stage : Stage) : ∀ (entries : List (ChainEntry H.Content))
    (object : Object H.Content) {w : State H}, Midway s name w →
      (E.walkThrough stage name entries object).Prevails w (Failed names s)
        fun _ t => Midway s name t := by
  have hwatch : ∀ number, Run.Follows Anything (watch number name : Run H Unit) :=
    fun number => Run.follows_watch number name
  intro entries
  induction entries with
  | nil =>
      intro object w hw
      exact .pure hw
  | cons entry rest ih =>
      intro object w hw
      rcases hreturns.intercept stage entry object hw with ⟨answer, u, hcall, _, hnone⟩
      have hwu : Course Anything w u := intercept_along hE.keeps (Course.trail Anything)
        (fun number _ _ => hwatch number) (fun _ => trivial) object _ _ _ hcall
      refine .step_bind hcall ?_
      match answer with
      | .error failure =>
        rcases intercept_called hE.keeps (fun number _ _ => hwatch number) hcall with
          ⟨v, hinside, rfl⟩
        exact .throw _ (.of_call hw.suffix hinside trivial)
      | .ok none => exact .pure (hw.later hwu hnone)
      | .ok (some next) => exact ih next (hw.later hwu hnone)

theorem walk_prevails (stage : Stage) (object : Object H.Content) {w : State H}
    (hw : Midway s name w) :
    (E.walk stage name object).Prevails w (Failed names s) fun _ t => Midway s name t :=
  .step_bind rfl <| .step_bind rfl <|
    walkThrough_prevails hE hreturns stage _ object (hw.deed (.walk w stage name) rfl)

/-- The steps of a build succeed, or something failed. -/
theorem construct_prevails (hname : name ∈ names) {w : State H} (hw : Midway s name w) :
    (E.construct name d).Prevails w (Failed names s) fun _ t => Midway s name t := by
  refine .step_bind rfl ?_
  refine .bind (mergeThrough_prevails hE hreturns _ (.refl d) hw) ?_
  rintro copy u ⟨hu, hcopy⟩
  rcases hreturns.make hu hcopy with ⟨answer, v, hcall, _, hnone⟩
  have huv : Course Anything u v :=
    make_along hE.keeps (Course.trail Anything) trivial _ _ _ hcall
  refine .step_bind hcall ?_
  match answer with
  | .error failure =>
    rcases make_called hE.keeps hcall with ⟨v, hinside, rfl⟩
    exact .throw _ (.of_call hu.suffix hinside hname)
  | .ok object =>
    have hv : Midway s name v := hu.later huv hnone
    have hborne : Midway s name (v.bear name object) := hv.deed (.make object hv.underway) rfl
    refine .step_bind rfl <| .step_bind rfl ?_
    refine .bind (walk_prevails hE hreturns .before object hborne) fun object t ht => ?_
    exact .bind (walk_prevails hE hreturns .after object ht) fun object t ht => .pure ht

/-- A request that may be answered by a build succeeds, or something failed. -/
theorem getOrBuild_prevails (hname : name ∈ names)
    (hd : s.container.definitions.get? name = some d) (hconcrete : d.isAbstract = false)
    (hidle : name ∉ s.container.inCreation) {u : State H} (hsu : Course Anything s u)
    (hnone : stores (since s u) = []) :
    (E.getOrBuild name).Prevails u (Failed names s) fun _ t => stores (since s t) = [] := by
  have hasked : s.log <:+ (u.note (.requested name)).log :=
    hsu.log_suffix.trans (List.suffix_cons _ _)
  -- What the request comes to before its answer is written down.
  have hobtain : (E.obtain name).Prevails (u.note (.requested name))
      (fun t => s.log <:+ t.log ∧ Failed names s t)
      fun _ t => s.log <:+ t.log ∧ stores (since s t) = [] := by
    unfold Attempt.Prevails
    rw [run_obtain_apply, State.note_container]
    cases hkept : u.container.singletons.get? name with
    | some object =>
        refine Or.inl ⟨object, _, rfl, hasked, ?_⟩
        rw [since_note hsu.log_suffix, stores_append, hnone]
        rfl
    | none =>
        have hbegins : u.container.beginCreation name = .ok
            { u.container with inCreation := u.container.inCreation ++ [name] } :=
          if_neg (hsu.inCreation_eq ▸ hidle)
        simp only [Container.definition, hsu.definition_kept hnone hd, hconcrete,
          Bool.false_eq_true, if_false, run_build_apply, State.note_container, hbegins]
        rcases construct_prevails hE hreturns hname (.begin hsu hnone name) with
          ⟨built, t, hrun, ht⟩ | ⟨e, t, hrun, hfailed⟩
        · exact Or.inl ⟨built.object, _, Option.map_eq_some_iff.2 ⟨_, hrun, rfl⟩, ht.suffix,
            ht.unchanged⟩
        · have hcourse : Course Anything (u.begin name) t := construct_follows hE
            (fun _ _ => trivial) (Midway.begin hsu hnone name).underway hrun
          exact Or.inr ⟨e, _, Option.map_eq_some_iff.2 ⟨_, hrun, rfl⟩,
            hasked.trans hcourse.log_suffix, hfailed⟩
  rcases hobtain with ⟨object, t, hrun, hsuffix, ht⟩ | ⟨e, t, hrun, hsuffix, hfailed⟩
  · refine Or.inl ⟨object, t.note (.answered name (some object)), ?_, ?_⟩
    · rw [run_getOrBuild_apply, hrun]
      rfl
    · dsimp only
      rw [since_note hsuffix, stores_append, ht]
      rfl
  · refine Or.inr ⟨e, t.note (.answered name none), ?_,
      hfailed.later hsuffix (List.suffix_cons _ _)⟩
    rw [run_getOrBuild_apply, hrun]
    rfl

end Builds

end Engine

end ObjectBootstrap
