import ObjectBootstrap.Proofs.Building.Renewal
import ObjectBootstrap.Proofs.Installation.Silence

/-!
# Overriding takes effect

Registering a definition over an older one forgets what was built of the older one. So from then on
requests for the name are answered with objects of the new definition, in its scope and never if it
is a template, whoever asks and at whatever depth of nested builds. This takes two things. At the
moment of the registration no request for the name is open: a build of the older definition that is
still under way ends by keeping its object, and nobody looks whether the definition is still there.
And no edit of the older definition ends later, for it stores the definition that it has read.

## Main definitions

* `Scenarios.overrideAndGet`, `Scenarios.selfOverriding`: A registration when nothing is built, and
  one in the middle of a build.

## Theorems

* `registered_takes_effect`: What is answered and kept after a registration.
-/

namespace ObjectBootstrap

variable {H : Host}

/-- Let a definition be registered somewhere in the run of a program, while no request for its name
    is open that the program came across. As long as the name is not registered anew, and only
    details are edited of what is stored under it and of the copies that its builds use, all
    requests for it that succeed are answered with an object that was made, since the registration,
    by the factory of the definition and passed through the hooks. The definition is no template. If
    it is a singleton all answers are the same object, and otherwise each is built for its request.
    And what is kept under the name when the run is over is a singleton of the definition, with what
    the factory made as its target if the hooks replaced it. -/
theorem registered_takes_effect (behaviour : Behaviour H) (facade shown : Facade) (depth : Nat)
    {α : Type} (program : Prog H α) {s t : State H} {a : α} {d : Definition H.Factory}
    {earlier : List (Activity H)} (hs : s.container.Coherent)
    (h : (Engine.ofDepth behaviour facade depth).run shown program s = some (a, t))
    (hregistered : .registered d :: earlier <:+ t.log) (hearlier : s.log <:+ earlier)
    (hopen : openRequests d.name earlier = openRequests d.name s.log) :
    (∀ object news,
      .answered d.name (some object) :: (news ++ .registered d :: earlier) <:+ t.log →
      (∀ activity ∈ news, activity.Upholds d) →
        Answer behaviour facade d object (.registered d :: earlier)
          (news ++ .registered d :: earlier)) ∧
    ∀ news, t.log = news ++ .registered d :: earlier →
      (∀ activity ∈ news, activity.Upholds d) →
        Renewed behaviour facade d (.registered d :: earlier) t := by
  have hrun := (Engine.keeps_renewing behaviour facade depth).runs shown program s a t h
  rcases hrun.2.begins hs d earlier hregistered hearlier hopen with ⟨u, hu, _, hupheld⟩
  rw [hu] at hupheld
  refine ⟨fun object news hentry hall => ?_, fun news hnews hall => ?_⟩
  · have hanswer := hupheld.answers object news
    rw [hu] at hanswer
    exact hanswer hentry hall
  · exact hupheld.renewed news (hu ▸ hnews) hall

namespace Scenarios

/-- A registry in which whatever is there may be registered anew. -/
def overridable : State host := State.withContainer { store := () } { allowOverriding := true }

/-- The service with another factory. -/
def newService : Definition Bool := { service with maker := .hosted true }

def registerAndGet : Prog host (Except Error (Object Bool)) :=
  (Prog.request (.register service)).bind fun _ => getService

/-- The service is registered anew and asked for. -/
def overrideAndGet : Prog host (Except Error Unit × Except Error (Object Bool)) :=
  (Prog.request (.register newService)).bind fun registered =>
    getService.bind fun answered => .done (registered, answered)

/-- What an object holds. -/
def content? (object : Object Bool) : Option Bool :=
  match object.substance with
  | .hosted active => some active
  | .placeholderConfigurer => none

/-- The state in which the service is built, the service, the one that is built after it was
    registered anew, and the state after that. -/
def overridden : Option (State host × Object Bool × Object Bool × State host) :=
  match plainEngine.run .direct registerAndGet overridable with
  | some (.ok old, u) =>
    match plainEngine.run .direct overrideAndGet u with
    | some ((.ok (), .ok new), t) => some (u, old, new, t)
    | _ => none
  | _ => none

theorem report_of_overridden : overridden.map (fun r =>
    (content? r.2.1, content? r.2.2.1,
      (since r.1 r.2.2.2).tail.all fun activity => decide (activity.Upholds newService)))
      = some (some false, some true, true) := by
  decide +kernel

-- The runs of the two programs.
theorem runs_of_overridden {u t : State host} {old new : Object Bool}
    (h : overridden = some (u, old, new, t)) :
    plainEngine.run .direct registerAndGet overridable = some (.ok old, u) ∧
      plainEngine.run .direct overrideAndGet u = some ((.ok (), .ok new), t) := by
  unfold overridden at h
  split at h
  · split at h
    · cases h
      exact ⟨‹_›, ‹_›⟩
    · cases h
  · cases h

-- The registration is written down first, and the answer last.
theorem log_of_overrideAndGet {u t : State host} {new : Object Bool}
    (h : plainEngine.run .direct overrideAndGet u = some ((.ok (), .ok new), t)) :
    ∃ news,
      t.log = .answered "service" (some new) :: (news ++ .registered newService :: u.log) := by
  change (Prog.bind _ _).interpret _ u = _ at h
  rw [Prog.interpret_bind, Prog.interpret_request] at h
  rcases Run.bind_eq_some_iff.1 h with ⟨_, v, hregister, h⟩
  rw [Prog.interpret_bind] at h
  rcases Run.bind_eq_some_iff.1 h with ⟨_, _, hget, h⟩
  cases h
  change (Attempt.register newService).run u = _ at hregister
  rw [Attempt.run_register_apply] at hregister
  have hcourse : Course Anything v t :=
    Engine.lawful_ofDepth behaviour .direct 3 .direct getService _ _ _ hget
  rw [getService, Prog.interpret_request] at hget
  rcases Engine.run_getOrBuild_eq_some hget with ⟨w, _, rfl⟩
  cases hk : u.container.register newService with
  | error e =>
      rw [hk] at hregister
      cases hregister
  | ok k =>
      rw [hk] at hregister
      cases hregister
      have hwithin := (List.suffix_cons_iff.1 hcourse.log_suffix).resolve_left fun heq => by
        cases heq
      rcases hwithin with ⟨news, hnews⟩
      exact ⟨news, congrArg _ hnews.symm⟩

/-- What is built behind the new registration is made by the new factory, and it is kept. -/
theorem override_takes_effect : ∃ (u t : State host) (old new : Object Bool)
    (news : List (Activity host)),
    plainEngine.run .direct registerAndGet overridable = some (.ok old, u) ∧
    plainEngine.run .direct overrideAndGet u = some ((.ok (), .ok new), t) ∧
    content? old = some false ∧ content? new = some true ∧
    Answer behaviour .direct newService new (.registered newService :: u.log)
      (news ++ .registered newService :: u.log) ∧
    Renewed behaviour .direct newService (.registered newService :: u.log) t := by
  rcases Option.map_eq_some_iff.1 report_of_overridden with ⟨⟨u, old, new, t⟩, hruns, hreport⟩
  simp only [Prod.mk.injEq, List.all_eq_true, decide_eq_true_eq] at hreport
  rcases hreport with ⟨hold, hnew, hlater⟩
  rcases runs_of_overridden hruns with ⟨hfirst, hsecond⟩
  rcases log_of_overrideAndGet hsecond with ⟨news, hnews⟩
  have hu : u.container.Coherent := by
    have hcourse : Course Anything overridable u :=
      Engine.lawful_ofDepth behaviour .direct 3 .direct registerAndGet _ _ _ hfirst
    exact hcourse.coherent (Container.coherent_empty true)
  have hregistered : .registered newService :: u.log <:+ t.log :=
    ⟨.answered "service" (some new) :: news, hnews.symm⟩
  have hupholds : ∀ activity ∈ .answered "service" (some new) :: news,
      activity.Upholds newService := by
    intro activity hmem
    have hlog : t.log
        = (.answered "service" (some new) :: news ++ [.registered newService]) ++ u.log := by
      rw [hnews, List.append_assoc]
      rfl
    refine hlater activity ?_
    rw [since_of_log hlog, List.reverse_append]
    exact List.mem_reverse.2 hmem
  rcases registered_takes_effect behaviour .direct .direct 3 overrideAndGet hu hsecond hregistered
    (List.suffix_refl u.log) rfl with ⟨hanswers, hrenewed⟩
  exact ⟨u, t, old, new, news, hfirst, hsecond, hold, hnew,
    hanswers new news (hnews ▸ List.suffix_refl _) fun activity hmem =>
      hupholds activity (List.mem_cons_of_mem _ hmem),
    hrenewed _ hnews hupholds⟩

/-- As `behaviour`, except that the service registers itself anew while it is built. -/
def selfOverriding : Behaviour host := { behaviour with
  make := fun active _ => do
    if !active then
      let _ ← Prog.request (.register newService)
    return .ok active }

/-- The service that is built first, and the answer to a later request. -/
def overriddenInBuild : Option (State host × Object Bool × Object Bool × State host) :=
  match (Engine.ofDepth selfOverriding .direct 3).run .direct registerAndGet overridable with
  | some (.ok old, u) =>
    match (Engine.ofDepth selfOverriding .direct 3).run .direct getService u with
    | some (.ok new, t) => some (u, old, new, t)
    | _ => none
  | _ => none

/-- What the registered factory of the service makes. -/
def registeredContent? (s : State host) : Option Bool :=
  match (s.container.definitions.get? "service").map Definition.maker with
  | some (.hosted active) => some active
  | _ => none

theorem report_of_overriddenInBuild : overriddenInBuild.map (fun r =>
    (registeredContent? r.1, registeredContent? r.2.2.2, content? r.2.2.1,
      (stores (since r.1 r.2.2.2)).map Prod.fst, r.1.container.chain.names))
      = some (some true, some true, some false, [], []) := by
  decide +kernel

/-- The service is registered anew while it is built. When it is asked for later only the new
    definition is registered, whose factory makes something else, and no hook is installed. And yet
    the answer is the old object. -/
theorem override_in_build_ignored : ∃ (u t : State host) (old new : Object Bool),
    (Engine.ofDepth selfOverriding .direct 3).run .direct registerAndGet overridable
      = some (.ok old, u) ∧
    (Engine.ofDepth selfOverriding .direct 3).run .direct getService u = some (.ok new, t) ∧
    (∀ d, selfOverriding.make true d = .done (.ok true)) ∧
    registeredContent? u = some true ∧ registeredContent? t = some true ∧ stores (since u t) = [] ∧
    u.container.chain.names = [] ∧ content? new = some false := by
  rcases Option.map_eq_some_iff.1 report_of_overriddenInBuild with
    ⟨⟨u, old, new, t⟩, hruns, hreport⟩
  simp only [Prod.mk.injEq, List.map_eq_nil_iff] at hreport
  rcases hreport with ⟨hbefore, hafter, hnew, hstores, hchain⟩
  unfold overriddenInBuild at hruns
  split at hruns
  · split at hruns
    · cases hruns
      exact ⟨u, t, old, new, ‹_›, ‹_›, fun _ => rfl, hbefore, hafter, hstores, hchain, hnew⟩
    · cases hruns
  · cases hruns

end Scenarios

end ObjectBootstrap
