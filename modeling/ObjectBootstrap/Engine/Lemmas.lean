import ObjectBootstrap.Interpreter

/-!
# Runs taken apart

What it means that a run made of parts has a result: each part has one, and the state goes from part
to part. An attempt either goes on after its first part or ends in the error of it. Programs put
together run one after the other.

## Theorems

* `Run.bind_eq_some_iff`: a run of two parts.
* `Attempt.run_bind_eq_some_iff`: an attempt of two parts.
* `Attempt.run_bind_eq_ok_iff`: an attempt of two parts that succeeds.
* `Prog.interpret_bind`: programs that are put together run one after the other.
* `Prog.interpret_update_eq_some_iff`: an edit is over when its outcome is stored.
-/

namespace ObjectBootstrap

variable {H : Host} {α β : Type}

namespace Run

/-- A run of two parts has a result when both have one. -/
theorem bind_eq_some_iff {first : Run H α} {second : α → Run H β} {s t : State H} {b : β} :
    (first >>= second) s = some (b, t) ↔
      ∃ a u, first s = some (a, u) ∧ second a u = some (b, t) := by
  change (first s).bind (fun r => second r.1 r.2) = some (b, t) ↔ _
  rw [Option.bind_eq_some_iff]
  exact ⟨fun ⟨⟨a, u⟩, h⟩ => ⟨a, u, h⟩, fun ⟨a, u, h⟩ => ⟨(a, u), h⟩⟩

/-- A run that does nothing answers and keeps the state. -/
theorem pure_eq_some_iff {a b : α} {s t : State H} :
    (pure a : Run H α) s = some (b, t) ↔ a = b ∧ s = t := by
  change some (a, s) = some (b, t) ↔ _
  simp

/-- A run that is out of depth has no result. -/
theorem exhausted_apply (s : State H) : (exhausted : Run H α) s = none := rfl

/-- The log after something was written down. -/
theorem record_apply (activity : Activity H) (s : State H) :
    record activity s = some ((), { s with log := activity :: s.log }) := rfl

end Run

namespace Attempt

/-- An attempt of two parts ends in the error of the first or goes on with the second. -/
theorem run_bind_eq_some_iff {first : Attempt H α} {second : α → Attempt H β} {s t : State H}
    {result : Except Error β} :
    (first >>= second).run s = some (result, t) ↔
      (∃ e, first.run s = some (.error e, t) ∧ result = .error e) ∨
        ∃ a u, first.run s = some (.ok a, u) ∧ (second a).run u = some (result, t) := by
  rw [ExceptT.run_bind, Run.bind_eq_some_iff]
  constructor
  · rintro ⟨r, u, hfirst, hsecond⟩
    cases r with
    | error e =>
      obtain ⟨rfl, rfl⟩ := Run.pure_eq_some_iff.1 hsecond
      exact Or.inl ⟨e, hfirst, rfl⟩
    | ok a => exact Or.inr ⟨a, u, hfirst, hsecond⟩
  · rintro (⟨e, hfirst, rfl⟩ | ⟨a, u, hfirst, hsecond⟩)
    · exact ⟨.error e, t, hfirst, rfl⟩
    · exact ⟨.ok a, u, hfirst, hsecond⟩

/-- An attempt of two parts succeeds when both do. -/
theorem run_bind_eq_ok_iff {first : Attempt H α} {second : α → Attempt H β} {s t : State H}
    {b : β} :
    (first >>= second).run s = some (.ok b, t) ↔
      ∃ a u, first.run s = some (.ok a, u) ∧ (second a).run u = some (.ok b, t) := by
  rw [run_bind_eq_some_iff]
  constructor
  · rintro (⟨_, _, herror⟩ | hok)
    · cases herror
    · exact hok
  · exact Or.inr

/-- A run that cannot end in an error succeeds as an attempt. -/
theorem run_step_eq_some_iff {run : Run H α} {s t : State H} {result : Except Error α} :
    (step run).run s = some (result, t) ↔ ∃ a, run s = some (a, t) ∧ result = .ok a := by
  change (run >>= fun a => pure (Except.ok a)) s = some (result, t) ↔ _
  rw [Run.bind_eq_some_iff]
  constructor
  · rintro ⟨a, u, hrun, hpure⟩
    obtain ⟨rfl, rfl⟩ := Run.pure_eq_some_iff.1 hpure
    exact ⟨a, hrun, rfl⟩
  · rintro ⟨a, hrun, rfl⟩
    exact ⟨a, t, hrun, rfl⟩

/-- A run that cannot end in an error has the same results as an attempt. -/
theorem run_step_eq_ok_iff {run : Run H α} {s t : State H} {a : α} :
    (step run).run s = some (.ok a, t) ↔ run s = some (a, t) := by
  rw [run_step_eq_some_iff]
  constructor
  · rintro ⟨b, hrun, hok⟩
    cases hok
    exact hrun
  · intro h
    exact ⟨a, h, rfl⟩

/-- A change of the container that is an error leaves the state as it is. -/
theorem run_changeContainer_apply (f : Container H → Except Error (Container H)) (s : State H) :
    (changeContainer f).run s = match f s.container with
      | .error e => some (.error e, s)
      | .ok k => some (.ok (), { s with container := k }) := by
  change (ofExcept (f s.container) >>= fun k => _ : Attempt H Unit).run s = _
  cases f s.container <;> rfl

/-- A registration is written down unless it is refused. -/
theorem run_register_apply (d : Definition H.Factory) (s : State H) :
    (register d).run s = match s.container.register d with
      | .error e => some (.error e, s)
      | .ok k => some (.ok (), { s with container := k, log := .registered d :: s.log }) := by
  change ((ofExcept (s.container.register d) >>= fun k => _) >>= fun _ => _ : Attempt H Unit).run s
    = _
  cases s.container.register d <;> rfl

end Attempt

namespace Engine

/-- A call is written down before and behind it. -/
theorem run_enter_eq_some_iff {point : EntryPoint H} {call : Run H (Except Failure α)}
    {s t : State H} {result : Except Failure α} :
    enter point call s = some (result, t) ↔
      ∃ u, call { s with log := .entered point :: s.log } = some (result, u) ∧
        t = { u with log := .left point (failure? result) :: u.log } := by
  unfold enter
  simp only [Run.bind_eq_some_iff, Run.record_apply, Run.pure_eq_some_iff]
  constructor
  · rintro ⟨_, _, hfirst, r, u, hcall, _, _, hlast, rfl, rfl⟩
    cases hfirst
    cases hlast
    exact ⟨u, hcall, rfl⟩
  · rintro ⟨u, hcall, rfl⟩
    exact ⟨(), _, rfl, result, u, hcall, (), _, rfl, rfl, rfl⟩

/-- Asking for the object of a name comes to the singleton, to a refusal, or to a build. -/
theorem run_obtain_apply (E : Engine H) (name : String) (s : State H) :
    (E.obtain name).run s = match s.container.singletons.get? name with
      | some object => some (.ok object, s)
      | none => match s.container.definition name with
        | .error e => some (.error e, s)
        | .ok d =>
          if d.isAbstract then
            some (.error (.definition name "abstract definitions cannot be built"), s)
          else (E.build name d).run s := by
  change (match s.container.singletons.get? name with
    | some object => _
    | none => _ : Attempt H (Object H.Content)).run s = _
  cases s.container.singletons.get? name with
  | some object => rfl
  | none =>
      change (Attempt.ofExcept (s.container.definition name) >>= fun d => _ :
        Attempt H (Object H.Content)).run s = _
      cases s.container.definition name with
      | error e => rfl
      | ok d =>
          change (if d.isAbstract then _ else _ : Attempt H (Object H.Content)).run s = _
          cases habs : d.isAbstract with
          | true =>
              simp only [habs]
              rfl
          | false =>
              simp only [habs]
              rfl

end Engine

/-- Programs that are put together run one after the other. -/
theorem Prog.interpret_bind (answer : {γ : Type} → Request H γ → Run H γ) (p : Prog H α)
    (f : α → Prog H β) :
    (p.bind f).interpret answer = p.interpret answer >>= fun a => (f a).interpret answer := by
  induction p with
  | done result => simp only [Prog.bind, Prog.interpret, LawfulMonad.pure_bind]
  | ask request next ih =>
    simp only [Prog.bind, Prog.interpret, LawfulMonad.bind_assoc]
    exact congrArg _ (funext fun reply => ih reply f)
  | update name edit next _ ih =>
    simp only [Prog.bind, Prog.interpret, LawfulMonad.bind_assoc]
    refine congrArg _ (funext fun k => ?_)
    cases k.definition name with
    | error e => exact ih (.error e) f
    | ok d =>
      simp only [LawfulMonad.bind_assoc]
      refine congrArg _ (funext fun r => ?_)
      exact congrArg _ (funext fun _ => congrArg _ (funext fun _ => ih (.ok r.1) f))

/-- A request by itself is answered. -/
theorem Prog.interpret_request (answer : {γ : Type} → Request H γ → Run H γ)
    (r : Request H β) : (Prog.request r).interpret answer = answer r := by
  change (answer r >>= pure) = answer r
  rw [bind_pure]

section Update

variable {answer : {γ : Type} → Request H γ → Run H γ} {γ : Type} {name : String}
  {edit : Definition H.Factory → Prog H (γ × Definition H.Factory)}
  {next : Except Error γ → Prog H α} {s t : State H}

/-- An edit begins by looking for the definition. -/
theorem Prog.interpret_update_apply (name : String)
    (edit : Definition H.Factory → Prog H (γ × Definition H.Factory))
    (next : Except Error γ → Prog H α)
    (s : State H) :
    (Prog.update name edit next).interpret answer s = match s.container.definition name with
      | .error e => (next (.error e)).interpret answer s
      | .ok d => ((edit d).interpret answer s).bind fun edited =>
          (next (.ok edited.1.1)).interpret answer { edited.2 with
            container := edited.2.container.writeBack name edited.1.2
            log := .updated name edited.1.2 :: edited.2.log } := by
  have hlook : ∀ run : Container H → Run H α, (Run.container >>= run) s = run s.container s :=
    fun _ => rfl
  rw [Prog.interpret, hlook]
  cases s.container.definition name <;> rfl

/-- A program that finds no definition to edit goes on at once. -/
theorem Prog.interpret_update_of_error {e : Error} (hd : s.container.definition name = .error e) :
    (Prog.update name edit next).interpret answer s = (next (.error e)).interpret answer s := by
  rw [Prog.interpret_update_apply, hd]

/-- A program that edits a definition goes on when the edit is done and its outcome is stored. -/
theorem Prog.interpret_update_eq_some_iff {d : Definition H.Factory} {a : α}
    (hd : s.container.definition name = .ok d) :
    (Prog.update name edit next).interpret answer s = some (a, t) ↔
      ∃ result e u, (edit d).interpret answer s = some ((result, e), u) ∧
        (next (.ok result)).interpret answer { u with
          container := u.container.writeBack name e
          log := .updated name e :: u.log } = some (a, t) := by
  rw [Prog.interpret_update_apply, hd]
  change Option.bind _ _ = _ ↔ _
  rw [Option.bind_eq_some_iff]
  exact ⟨fun ⟨⟨⟨result, e⟩, u⟩, h⟩ => ⟨result, e, u, h⟩,
    fun ⟨result, e, u, h⟩ => ⟨((result, e), u), h⟩⟩

end Update

end ObjectBootstrap
