import ObjectBootstrap.Proofs.Course.Runs

/-!
# What happens inside of calls

An entry of the log tells that a hook or a factory is called, and what is handed over. It does not
tell what comes of it. Inside of the call the program is run that the embedding program supplies for
this entry point, and the call is answered as the program answers. So the calls of a run are more
than a list of entries, and what is said of them here is said of these programs.

The registry has hooks of its own, and they are no programs. The resolver of placeholders is one of
them, and as a customizer it does what the registry has it do.

## Main definitions

* `Called`: A call, with the two entries about it.
* `Engine.Edits`, `Engine.Makes`, `Engine.Handles`: What happens inside of the calls of a build.
* `Engine.Mutates`, `Engine.Customizes`: What happens inside of the calls of a phase.

## Theorems

* `Engine.run_merge_iff`, `Engine.run_make_iff`, `Engine.run_intercept_iff`: The calls of a build
  are these and nothing else.
* `Engine.run_mutate_iff`, `Engine.run_customize_iff`: So are those of a phase.
-/

namespace ObjectBootstrap

variable {H : Host} {α : Type}

/-- A call. What happens inside of it stands between two entries that tell of it. -/
def Called (point : EntryPoint H) (inside : State H → Except Failure α → State H → Prop)
    (s : State H) (answer : Except Failure α) (t : State H) : Prop :=
  ∃ u, inside (s.note (.entered point)) answer u ∧ t = u.note (.left point (failure? answer))

namespace Engine

section Inside

variable (E : Engine H) (s : State H)

/-- A hook is offered the copy of a definition: its program is run. The hooks of the registry leave
    the copy as it is. -/
def Edits (hook : Hook H.Content) (name : String) (d : Definition H.Factory)
    (answer : Except Failure (Definition H.Factory)) (t : State H) : Prop :=
  match hook with
  | .object ⟨_, _, .hosted content⟩ =>
    E.run E.facade (E.behaviour.merge content name d) s = some (answer, t)
  | _ => answer = .ok d ∧ t = s

/-- The factory of a copy is called with the copy: its program is run, and what it makes is held by
    a new object of the type that the copy names. -/
def Makes (copy : Definition H.Factory) (answer : Except Failure (Object H.Content))
    (t : State H) : Prop :=
  match copy.maker with
  | .hosted factory => ∃ made u,
    E.run .direct (E.behaviour.make factory copy) s = some (made, u) ∧
      match made with
      | .ok content => answer = .ok ⟨copy.typeName, u.created, .hosted content⟩ ∧
        t = { u with created := u.created + 1 }
      | .error failure => answer = .error failure ∧ t = u
  | .placeholderConfigurer => answer = .ok ⟨copy.typeName, s.created, .placeholderConfigurer⟩ ∧
    t = { s with created := s.created + 1 }

/-- A hook is handed an object: its program is run, and it is written down if the program has no
    answer. The sentinel and the listener detector look at the object when it is initialized. -/
def Handles (stage : Stage) (entry : ChainEntry H.Content) (name : String)
    (object : Object H.Content) (answer : Except Failure (Option (Object H.Content)))
    (t : State H) : Prop :=
  match entry.hook, stage with
  | .object ⟨_, _, .hosted content⟩, stage => ∃ u,
    E.run E.facade (E.behaviour.intercept stage content object name) s = some (answer, u) ∧
      t = match answer with
        | .ok none => u.note (.ended stage entry.name name)
        | _ => u
  | .sentinel number, .after => watch number name s = some ((), t) ∧ answer = .ok (some object)
  | .listenerDetector, .after =>
    detectListener E.facade name object s = some ((), t) ∧ answer = .ok (some object)
  | _, _ => answer = .ok (some object) ∧ t = s

/-- A mutator is called: its program is run, with the registry behind a facade. -/
def Mutates (shown : Facade) (hook : Object H.Content) (answer : Except Failure Unit)
    (t : State H) : Prop :=
  match hook.substance with
  | .hosted content => E.run shown (E.behaviour.mutate content) s = some (answer, t)
  | .placeholderConfigurer => answer = .ok () ∧ t = s

/-- A customizer is called: its program is run, with the registry behind a facade. -/
def Customizes (shown : Facade) (hook : Object H.Content) (answer : Except Failure Unit)
    (t : State H) : Prop :=
  match hook.substance with
  | .hosted content => E.run shown (E.behaviour.customize content) s = some (answer, t)
  | .placeholderConfigurer => E.run shown Placeholder.customizeDefinitions s = some (answer, t)

end Inside

variable {E : Engine H} {s t : State H}

/-- A call is entered, something happens inside of it, and it is left. -/
theorem run_enter_iff {point : EntryPoint H} {call : Run H (Except Failure α)}
    {inside : State H → Except Failure α → State H → Prop} {answer : Except Failure α}
    (h : ∀ s t, call s = some (answer, t) ↔ inside s answer t) :
    enter point call s = some (answer, t) ↔ Called point inside s answer t := by
  rw [run_enter_eq_some_iff]
  exact exists_congr fun u => and_congr_left fun _ => h _ u

-- A run that does nothing.
theorem run_idle_iff {β : Type} {a b : β} :
    (pure a : Run H β) s = some (b, t) ↔ b = a ∧ t = s := by
  rw [Run.pure_eq_some_iff]
  constructor <;> rintro ⟨rfl, rfl⟩ <;> exact ⟨rfl, rfl⟩

theorem run_merge_iff {entry : ChainEntry H.Content} {name : String} {d : Definition H.Factory}
    {answer : Except Failure (Definition H.Factory)} :
    E.merge entry name d s = some (answer, t) ↔
      Called (.merge entry.name name d) (E.Edits · entry.hook name d) s answer t := by
  refine run_enter_iff fun s t => ?_
  rcases entry with ⟨_, ⟨_, _, content | _⟩ | _ | _⟩
  · exact Iff.rfl
  all_goals exact run_idle_iff

theorem run_make_iff {name : String} {copy : Definition H.Factory}
    {answer : Except Failure (Object H.Content)} :
    E.make name copy s = some (answer, t) ↔
      Called (.make name copy) (E.Makes · copy) s answer t := by
  refine run_enter_iff fun s t => ?_
  unfold Makes
  cases copy.maker with
  | placeholderConfigurer =>
      simp only [Run.bind_eq_some_iff, run_idle_iff]
      constructor
      · rintro ⟨object, u, hcreate, rfl, rfl⟩
        cases hcreate
        exact ⟨rfl, rfl⟩
      · rintro ⟨rfl, rfl⟩
        exact ⟨_, _, rfl, rfl, rfl⟩
  | hosted factory =>
      rw [Run.bind_eq_some_iff]
      refine exists_congr fun made => exists_congr fun u => and_congr_right fun _ => ?_
      cases made with
      | error failure => exact run_idle_iff
      | ok content =>
          rw [Run.bind_eq_some_iff]
          constructor
          · rintro ⟨object, v, hcreate, hanswer⟩
            cases hcreate
            exact run_idle_iff.1 hanswer
          · intro hanswer
            exact ⟨_, _, rfl, run_idle_iff.2 hanswer⟩

theorem run_intercept_iff {stage : Stage} {entry : ChainEntry H.Content} {name : String}
    {object : Object H.Content} {answer : Except Failure (Option (Object H.Content))} :
    E.intercept stage entry name object s = some (answer, t) ↔
      Called (.intercept stage entry.name object name) (E.Handles · stage entry name object) s
        answer t := by
  refine run_enter_iff fun s t => ?_
  -- What the sentinel and the detector do ends with the object that they are handed.
  have hlook : ∀ {look : Run H Unit}, (do
        look
        return .ok (some object) : Run H (Except Failure (Option (Object H.Content)))) s
          = some (answer, t) ↔ look s = some ((), t) ∧ answer = .ok (some object) := by
    intro look
    rw [Run.bind_eq_some_iff]
    constructor
    · rintro ⟨⟨⟩, u, hlook, hanswer⟩
      rcases run_idle_iff.1 hanswer with ⟨rfl, rfl⟩
      exact ⟨hlook, rfl⟩
    · rintro ⟨hlook, rfl⟩
      exact ⟨(), t, hlook, rfl⟩
  rcases entry with ⟨hook, ⟨_, _, content | _⟩ | number | _⟩
  · refine Run.bind_eq_some_iff.trans ?_
    constructor
    · rintro ⟨answer', u, hrun, hend⟩
      match answer' with
      | .error failure =>
        cases hend
        exact ⟨_, hrun, rfl⟩
      | .ok (some next) =>
        cases hend
        exact ⟨_, hrun, rfl⟩
      | .ok none =>
        cases hend
        exact ⟨_, hrun, rfl⟩
    · rintro ⟨u, hrun, rfl⟩
      refine ⟨answer, u, hrun, ?_⟩
      match answer with
      | .error _ => rfl
      | .ok (some _) => rfl
      | .ok none => rfl
  · exact run_idle_iff
  · cases stage with
    | before => exact run_idle_iff
    | after => exact hlook
  · cases stage with
    | before => exact run_idle_iff
    | after => exact hlook

section Phases

variable {shown : Facade} {name : String} {hook : Object H.Content}

theorem enter_mutate_iff {answer : Except Failure Unit} :
    (enter (.mutate name hook) (match hook.substance with
      | .hosted content => E.run shown (E.behaviour.mutate content)
      | .placeholderConfigurer => pure (.ok ()))) s = some (answer, t) ↔
    Called (.mutate name hook) (E.Mutates · shown hook) s answer t := by
  refine run_enter_iff fun s t => ?_
  unfold Mutates
  cases hook.substance with
  | hosted content => exact Iff.rfl
  | placeholderConfigurer => exact run_idle_iff

theorem enter_customize_iff {answer : Except Failure Unit} :
    (enter (.customize name hook) (match hook.substance with
      | .hosted content => E.run shown (E.behaviour.customize content)
      | .placeholderConfigurer => E.run shown Placeholder.customizeDefinitions)) s
        = some (answer, t) ↔
    Called (.customize name hook) (E.Customizes · shown hook) s answer t := by
  refine run_enter_iff fun s t => ?_
  unfold Customizes
  cases hook.substance <;> exact Iff.rfl

-- A phase reports the failure of a hook as its own.
theorem run_report_iff {call : Run H (Except Failure Unit)} {report : Failure → Error}
    {result : Except Error Unit} :
    (do
      match ← Attempt.step call with
      | .ok () => return
      | .error source => throw (report source) : Attempt H Unit).run s = some (result, t) ↔
    ∃ answer, call s = some (answer, t) ∧ result = answer.mapError report := by
  rw [Attempt.run_bind_eq_some_iff]
  constructor
  · rintro (⟨e, herror, _⟩ | ⟨answer, u, hcall, hend⟩)
    · rcases Attempt.run_step_eq_some_iff.1 herror with ⟨_, _, hcontra⟩
      cases hcontra
    · refine ⟨answer, ?_, ?_⟩ <;> cases answer <;> cases hend
      · exact Attempt.run_step_eq_ok_iff.1 hcall
      · exact Attempt.run_step_eq_ok_iff.1 hcall
      · rfl
      · rfl
  · rintro ⟨answer, hcall, rfl⟩
    refine Or.inr ⟨answer, t, Attempt.run_step_eq_ok_iff.2 hcall, ?_⟩
    cases answer <;> rfl

/-- A mutator is called, and the failure of its program is reported against the phase. -/
theorem run_mutate_iff {result : Except Error Unit} :
    (E.mutate shown name hook).run s = some (result, t) ↔
      ∃ answer, Called (.mutate name hook) (E.Mutates · shown hook) s answer t ∧
        result = answer.mapError (.hookExecution name .registryMutation) :=
  run_report_iff.trans (exists_congr fun _ => and_congr_left fun _ => enter_mutate_iff)

/-- A customizer is called, and the failure of its program is reported against the phase. -/
theorem run_customize_iff {result : Except Error Unit} :
    (E.customize shown name hook).run s = some (result, t) ↔
      ∃ answer, Called (.customize name hook) (E.Customizes · shown hook) s answer t ∧
        result = answer.mapError (.hookExecution name .factoryCustomization) :=
  run_report_iff.trans (exists_congr fun _ => and_congr_left fun _ => enter_customize_iff)

end Phases

end Engine

end ObjectBootstrap
