import ObjectBootstrap.Engine.Lemmas
import ObjectBootstrap.Proofs.Container.Consistency

/-!
# Relations that runs go along

Much of what is said of a run is a relation between its first state and its last one. To show that
every run keeps to such a relation one would go through all functions of an engine, and it would be
the same way each time. Here it is gone once, for any relation: `Trail` and `Engine.Builds` list
what the relation has to bear, and each function of an engine has its lemma. The list is that of
what can happen to a state, so a relation is checked against it case by case.
`Engine.keeps_ofDepth` closes the circle, by induction on the depth: the programs that hooks and
factories run keep to the relation because their requests are answered one level less deep.

The list has a relation for the inside of calls, and one for the outside. Outside of calls the
registry acts of its own accord, and only some entries may be written down there.

Two things are left to each relation. A walk calls sentinels, which are not programs, and what they
note depends on the walk; so a walk is one piece, and so is all that follows a factory. The other
pieces are taken apart as the functions are.

## Main definitions

* `Run.Along`, `Attempt.Along`: Every result of a run is reached along a relation.
* `Trail`: What a relation has to bear of the operations.
* `Engine.Keeps`, `Engine.KeepsWith`: The programs that an engine runs keep to a relation.
* `Engine.Builds`: What a relation has to bear of builds.

## Theorems

* `Engine.run_build_apply`, `Engine.run_getOrBuild_apply`: What a build and a request come to.
* `Engine.getOrBuild_along`: Builds go along the relation.
* `Engine.mutationPhase_along`, `Engine.customizationPhase_along`,
  `Engine.installationPhase_along`: So do the phases.
* `Prog.interpret_along`: A program goes along the relation if its requests do.
* `Engine.keeps_ofDepth`, `Engine.keepsWith_ofDepth`: What every engine of a depth keeps to.
-/

namespace ObjectBootstrap

variable {H : Host} {α β : Type}

/-- No restriction on names. -/
abbrev AnyName : String → Prop := fun _ => True

/-- Every result of a run is reached along a relation. -/
def Run.Along (along : State H → State H → Prop) (run : Run H α) : Prop :=
  ∀ s a t, run s = some (a, t) → along s t

/-- Every result of an attempt, an error too, is reached along a relation. -/
def Attempt.Along (along : State H → State H → Prop) (attempt : Attempt H α) : Prop :=
  Run.Along along attempt.run

/-- The state in which a new sentinel is installed. -/
def State.post (s : State H) (target : Nat) : State H :=
  { s with
    sentinels := s.sentinels ++ [⟨target, []⟩]
    container := s.container.install sentinelName (.sentinel s.sentinels.length)
    log := .installed sentinelName :: s.log }

/-- What a relation has to bear of the operations. The first argument says which entries may be
    written down outside of calls, and the second one is the relation that holds inside of them. -/
structure Trail (may : Activity H → Prop) (inside along : State H → State H → Prop) : Prop where
  course {s t : State H} : along s t → Course Anything s t
  rest (s : State H) : along s s
  followedBy {s t u : State H} : along s t → along t u → along s u
  /-- A program makes no change of these that lets definitions be overridden. -/
  quiet {s t : State H} : Quiet s t → t.sentinels = s.sentinels →
    t.container.allowOverriding = s.container.allowOverriding → along s t
  register {s : State H} {d : Definition H.Factory} {k : Container H} :
    s.container.register d = .ok k → may (.registered d) →
      along s ((s.withContainer k).note (.registered d))
  install (s : State H) (name : String) {hook : Hook H.Content} :
    (∀ number, hook ≠ .sentinel number) → may (.installed name) →
      along s ((s.withContainer (s.container.install name hook)).note (.installed name))
  /-- A new sentinel is installed. -/
  post (s : State H) (target : Nat) : may (.installed sentinelName) → along s (s.post target)
  publish (s : State H) (event : Event) : may (.published event s.listeners.names) →
    along s (s.note (.published event s.listeners.names))
  unsubscribe (s : State H) (name : String) : may (.unsubscribed name) →
    along s ({ s with listeners := s.listeners.erase name }.note (.unsubscribed name))
  /-- A hook has no answer for an object that is walked. -/
  stop (s : State H) (stage : Stage) (hook name : String) : may (.ended stage hook name) →
    along s (s.note (.ended stage hook name))
  call {s t : State H} {point : EntryPoint H} {failure : Option Failure} :
    may (.entered point) → inside (s.note (.entered point)) t →
      along s (t.note (.left point failure))
  update {s t : State H} {name : String} {d e : Definition H.Factory} :
    may (.updated name e) → s.container.definition name = .ok d → along s t →
      along s ((t.withContainer (t.container.writeBack name e)).note (.updated name e))

/-- The programs that an engine runs keep to a relation that does not bear every entry outside of
    calls. The last argument says which ones it bears while a program is run. It rules out some
    calls of factories at most. -/
structure Engine.KeepsWith (E : Engine H) (inside : State H → State H → Prop)
    (own : Activity H → Prop) : Prop where
  trail : Trail own inside inside
  runs : ∀ {α : Type} (shown : Facade) (program : Prog H α), Run.Along inside (E.run shown program)
  owns : ∀ activity : Activity H, (∀ name d, activity ≠ .entered (.make name d)) → own activity

/-- The programs that an engine runs keep to a relation. -/
abbrev Engine.Keeps (E : Engine H) (inside : State H → State H → Prop) : Prop :=
  E.KeepsWith inside Anything

/-- What follows the factory in a build: its object becomes the target and sets out on both
    walks. -/
def Engine.finish (E : Engine H) (name : String) (object : Object H.Content) :
    Attempt H (Object H.Content) := do
  Attempt.step (Run.record (.made name object))
  Attempt.step (Run.modifyContainer fun k => k.keepTarget name object)
  let object ← E.walk .before name object
  E.walk .after name object

/-- The state in which the object of a factory has become the target of its name. -/
def State.bear (s : State H) (name : String) (object : Object H.Content) : State H :=
  (s.note (.made name object)).withContainer (s.container.keepTarget name object)

/-- The state in which a build begins for a request. -/
def State.begin (s : State H) (name : String) : State H :=
  (s.note (.requested name)).withContainer
    { s.container with inCreation := s.container.inCreation ++ [name] }

/-- The state in which the build of a name is over and its request is answered. -/
def State.conclude (s : State H) (name : String) (result : Except Error (Built H)) : State H :=
  (s.withContainer (s.container.finishBuild name result.toOption)).note
    (.answered name (result.map Built.object).toOption)

/-- The state in which an object of a name sets out on a walk. -/
def State.setOut (s : State H) (stage : Stage) (name : String) : State H :=
  s.note (.walked stage name (s.container.definitions.get? name))

/-- The steps of a build go along a relation, except for the one in which the object of the factory
    becomes the target. A failure of the hooks ends the build in front of the factory, a failure of
    the factory in front of the walks, and only a build that comes through the walks has an
    object. -/
inductive Engine.Steps (E : Engine H) (along : State H → State H → Prop) (name : String)
    (d : Definition H.Factory) (s : State H) : Except Error (Built H) → State H → Prop
  | unmerged {e : Error} {t : State H} :
    (E.mergeThrough name s.container.chain.entries d).run s = some (.error e, t) → along s t →
      Engine.Steps E along name d s (.error e) t
  | unmade {copy : Definition H.Factory} {failure : Failure} {u t : State H} :
    (E.mergeThrough name s.container.chain.entries d).run s = some (.ok copy, u) → along s u →
      E.make name copy u = some (.error failure, t) → along u t →
      Engine.Steps E along name d s (.error (makeError name failure)) t
  | unfinished {copy : Definition H.Factory} {made : Object H.Content} {e : Error}
    {u v t : State H} :
    (E.mergeThrough name s.container.chain.entries d).run s = some (.ok copy, u) → along s u →
      E.make name copy u = some (.ok made, v) → along u v →
      (E.finish name made).run v = some (.error e, t) → along (v.bear name made) t →
      Engine.Steps E along name d s (.error e) t
  | finished {copy : Definition H.Factory} {made object : Object H.Content} {u v t : State H} :
    (E.mergeThrough name s.container.chain.entries d).run s = some (.ok copy, u) → along s u →
      E.make name copy u = some (.ok made, v) → along u v →
      (E.finish name made).run v = some (.ok object, t) → along (v.bear name made) t →
      Engine.Steps E along name d s (.ok ⟨copy, object⟩) t

-- The steps go along any wider relation.
theorem Engine.Steps.imp {E : Engine H} {along along' : State H → State H → Prop} {name : String}
    {d : Definition H.Factory} {s t : State H} {result : Except Error (Built H)}
    (h : E.Steps along name d s result t) (hwider : ∀ {s t : State H}, along s t → along' s t) :
    E.Steps along' name d s result t := by
  cases h with
  | unmerged hmerge hst => exact .unmerged hmerge (hwider hst)
  | unmade hmerge hsu hmake hut => exact .unmade hmerge (hwider hsu) hmake (hwider hut)
  | unfinished hmerge hsu hmake huv hrun hvt =>
      exact .unfinished hmerge (hwider hsu) hmake (hwider huv) hrun (hwider hvt)
  | finished hmerge hsu hmake huv hrun hvt =>
      exact .finished hmerge (hwider hsu) hmake (hwider huv) hrun (hwider hvt)

/-- What a relation has to bear of builds. -/
structure Engine.Builds (E : Engine H) (may : Activity H → Prop)
    (along : State H → State H → Prop) : Prop where
  /-- A request is answered without a build. -/
  answer {s : State H} {name : String} {result : Except Error (Object H.Content)} :
    may (.requested name) → may (.answered name result.toOption) →
      (∀ object, result = .ok object ↔ s.container.singletons.get? name = some object) →
      along s ((s.note (.requested name)).note (.answered name result.toOption))
  /-- A request is answered by a build. -/
  build {s t : State H} {name : String} {d : Definition H.Factory} {k : Container H}
    {result : Except Error (Built H)} :
    may (.requested name) → may (.answered name (result.map Built.object).toOption) →
      s.container.singletons.get? name = none → s.container.definitions.get? name = some d →
      d.isAbstract = false → s.container.beginCreation name = .ok k →
      E.Steps along name d ((s.note (.requested name)).withContainer k) result t →
      along s (t.conclude name result)
  walk (stage : Stage) (name : String) (object : Object H.Content) : may (.requested name) →
    Attempt.Along along (E.walk stage name object)

section Rules

variable {may : Activity H → Prop} {inside along : State H → State H → Prop}
  (hT : Trail may inside along)
include hT

namespace Run

theorem along_pure (a : α) : Run.Along along (pure a : Run H α) := by
  intro s b t h
  rcases Run.pure_eq_some_iff.1 h with ⟨_, rfl⟩
  exact hT.rest s

theorem along_bind {run : Run H α} {next : α → Run H β} (hrun : Run.Along along run)
    (hnext : ∀ a, Run.Along along (next a)) : Run.Along along (run >>= next) := by
  intro s b t h
  rcases Run.bind_eq_some_iff.1 h with ⟨a, u, hfirst, hsecond⟩
  exact hT.followedBy (hrun s a u hfirst) (hnext a u b t hsecond)

-- A run that only looks at the state.
theorem along_get : Run.Along along (get : Run H (State H)) := by
  intro s a t h
  cases h
  exact hT.rest s

theorem along_container : Run.Along along (Run.container : Run H (Container H)) :=
  along_bind hT (along_get hT) fun _ => along_pure hT _

-- A run that answers what it sees of the container.
theorem along_look (f : Container H → α) :
    Run.Along along (do return f (← Run.container) : Run H α) :=
  along_bind hT (along_container hT) fun _ => along_pure hT _

theorem along_namesFor (query : CapabilityQuery) :
    Run.Along along (Run.namesFor query : Run H (List String)) := by
  intro s a t h
  cases h
  exact hT.quiet (.search s query) rfl (Container.namesFor_allowOverriding _ _)

theorem along_create (typeName : String) (substance : Substance H.Content) :
    Run.Along along (Run.create typeName substance) := by
  intro s a t h
  cases h
  exact hT.quiet (.create s) rfl rfl

theorem along_invalidate :
    Run.Along along (Run.modifyContainer Container.invalidate : Run H Unit) := by
  intro s a t h
  cases h
  exact hT.quiet (.invalidate s) rfl rfl

theorem along_install {name : String} {hook : Hook H.Content}
    (hhook : ∀ number, hook ≠ .sentinel number) (hmay : may (.installed name)) :
    Run.Along along (Run.install name hook) := by
  intro s a t h
  cases h
  exact hT.install s name hhook hmay

end Run

namespace Attempt

theorem along_pure (a : α) : Attempt.Along along (pure a : Attempt H α) :=
  Run.along_pure hT _

theorem along_throw (e : Error) : Attempt.Along along (throw e : Attempt H α) :=
  Run.along_pure hT _

omit hT in
theorem along_step {run : Run H α} (h : Run.Along along run) :
    Attempt.Along along (Attempt.step run) := by
  intro s result t hrun
  rcases Attempt.run_step_eq_some_iff.1 hrun with ⟨a, ha, _⟩
  exact h s a t ha

theorem along_bind {first : Attempt H α} {second : α → Attempt H β}
    (hfirst : Attempt.Along along first) (hsecond : ∀ a, Attempt.Along along (second a)) :
    Attempt.Along along (first >>= second) := by
  intro s result t h
  rcases Attempt.run_bind_eq_some_iff.1 h with ⟨e, herror, _⟩ | ⟨a, u, hok, hrest⟩
  · exact hfirst s _ t herror
  · exact hT.followedBy (hfirst s _ u hok) (hsecond a u result t hrest)

theorem along_container :
    Attempt.Along along (Attempt.step Run.container : Attempt H (Container H)) :=
  along_step (Run.along_container hT)

theorem along_register {d : Definition H.Factory} (hmay : may (.registered d)) :
    Attempt.Along along (Attempt.register d) := by
  intro s result t h
  rw [Attempt.run_register_apply] at h
  cases hk : s.container.register d with
  | error e =>
      rw [hk] at h
      cases h
      exact hT.rest s
  | ok k =>
      rw [hk] at h
      cases h
      exact hT.register hk hmay

end Attempt

omit hT in
-- What happens in a call stands between the entries about it.
theorem enter_called {point : EntryPoint H} {body : Run H (Except Failure α)} {s t : State H}
    {result : Except Failure α} (hbody : Run.Along inside body)
    (h : Engine.enter point body s = some (result, t)) :
    ∃ u, inside (s.note (.entered point)) u ∧ t = u.note (.left point (failure? result)) := by
  rcases Engine.run_enter_eq_some_iff.1 h with ⟨u, hcall, rfl⟩
  exact ⟨u, hbody _ _ _ hcall, rfl⟩

theorem enter_along {point : EntryPoint H} {body : Run H (Except Failure α)}
    (hbody : Run.Along inside body) (hmay : may (.entered point)) :
    Run.Along along (Engine.enter point body) := by
  intro s result t h
  rcases enter_called hbody h with ⟨u, hinside, rfl⟩
  exact hT.call hmay hinside

omit hT in
-- Out of depth there is no result that would have to be reached.
theorem exhausted_along : Run.Along along (Run.exhausted : Run H α) := by
  intro s a t h
  rw [Run.exhausted_apply] at h
  exact absurd h (by simp only [reduceCtorEq, not_false_eq_true])

theorem detectListener_along (facade : Facade) (name : String) (object : Object H.Content) :
    Run.Along along (Engine.detectListener facade name object) := by
  intro s a t h
  cases h
  dsimp only
  split
  · split
    · exact hT.quiet (.subscribe s name _) rfl rfl
    · exact hT.rest s
  · exact hT.rest s

end Rules

namespace Engine

variable {E : Engine H}

/-- A build is refused because it is under way already, or it takes its four steps and comes to its
    end with their result. -/
theorem run_build_apply (E : Engine H) (name : String) (d : Definition H.Factory) (s : State H) :
    (E.build name d).run s = match s.container.beginCreation name with
      | .error e => some (.error e, s)
      | .ok k => ((E.construct name d).run (s.withContainer k)).map fun r =>
        (r.1.map Built.object,
          r.2.withContainer (r.2.container.finishBuild name r.1.toOption)) := by
  change ((Attempt.ofExcept (s.container.beginCreation name) >>= fun k => _) >>= fun _ => _ :
    Attempt H (Object H.Content)).run s = _
  cases s.container.beginCreation name with
  | error e => rfl
  | ok k =>
      change (((E.construct name d).run (s.withContainer k)).bind _).bind _
        = ((E.construct name d).run (s.withContainer k)).map _
      cases (E.construct name d).run (s.withContainer k) with
      | none => rfl
      | some r =>
          rcases r with ⟨built, u⟩
          -- The end of a build depends on what was built and on whether it is kept.
          cases built with
          | error e => rfl
          | ok built =>
              change (if built.copy.isSingleton then _ else _ : Attempt H _).run _
                = some (.ok built.object,
                  u.withContainer (u.container.finishBuild name (some built)))
              rw [Container.finishBuild]
              dsimp only
              cases built.copy.isSingleton <;> rfl

theorem run_build_cases {s t : State H} {name : String} {d : Definition H.Factory}
    {result : Except Error (Object H.Content)}
    (h : (E.build name d).run s = some (result, t)) :
    (∃ e, s.container.beginCreation name = .error e ∧ result = .error e ∧ t = s) ∨
      ∃ k built u, s.container.beginCreation name = .ok k ∧
        (E.construct name d).run (s.withContainer k) = some (built, u) ∧
        result = built.map Built.object ∧
        t = u.withContainer (u.container.finishBuild name built.toOption) := by
  rw [run_build_apply] at h
  cases hk : s.container.beginCreation name with
  | error e =>
      simp only [hk] at h
      cases h
      exact Or.inl ⟨e, rfl, rfl, rfl⟩
  | ok k =>
      simp only [hk] at h
      rcases Option.map_eq_some_iff.1 h with ⟨⟨built, u⟩, hconstruct, hend⟩
      cases hend
      exact Or.inr ⟨k, built, u, rfl, hconstruct, rfl, rfl⟩

/-- Asking for the object of a name comes to the singleton, to a refusal because the name is not
    registered or is a template, or to a build. -/
theorem run_obtain_cases {s t : State H} {name : String}
    {result : Except Error (Object H.Content)} (h : (E.obtain name).run s = some (result, t)) :
    ((∃ object, s.container.singletons.get? name = some object ∧ result = .ok object) ∧ t = s) ∨
    (s.container.singletons.get? name = none ∧ s.container.definitions.get? name = none ∧
      (∃ message, result = .error (.definition name message)) ∧ t = s) ∨
    (s.container.singletons.get? name = none ∧
      ∃ d, s.container.definitions.get? name = some d ∧
        (d.isAbstract = true ∧ (∃ message, result = .error (.definition name message)) ∧ t = s ∨
          d.isAbstract = false ∧ (E.build name d).run s = some (result, t))) := by
  rw [run_obtain_apply] at h
  cases hkept : s.container.singletons.get? name with
  | some object =>
      simp only [hkept] at h
      cases h
      exact Or.inl ⟨⟨object, rfl, rfl⟩, rfl⟩
  | none =>
      simp only [hkept] at h
      cases hd : s.container.definitions.get? name with
      | none =>
          simp only [Container.definition, hd] at h
          cases h
          exact Or.inr (Or.inl ⟨rfl, rfl, ⟨_, rfl⟩, rfl⟩)
      | some d =>
          simp only [Container.definition, hd] at h
          refine Or.inr (Or.inr ⟨rfl, d, rfl, ?_⟩)
          cases habs : d.isAbstract with
          | true =>
              rw [habs, if_pos rfl] at h
              cases h
              exact Or.inl ⟨rfl, ⟨_, rfl⟩, rfl⟩
          | false =>
              rw [habs, if_neg Bool.false_ne_true] at h
              exact Or.inr ⟨rfl, h⟩

/-- A request for an object is written down in front of what it comes to, and its answer behind. -/
theorem run_getOrBuild_apply (E : Engine H) (name : String) (s : State H) :
    (E.getOrBuild name).run s
      = ((E.obtain name).run (s.note (.requested name))).map fun r =>
        (r.1, r.2.note (.answered name r.1.toOption)) := by
  change ((E.obtain name).run (s.note (.requested name))).bind _ = _
  cases (E.obtain name).run (s.note (.requested name)) <;> rfl

theorem run_getOrBuild_eq_some {s t : State H} {name : String}
    {result : Except Error (Object H.Content)}
    (h : (E.getOrBuild name).run s = some (result, t)) :
    ∃ u, (E.obtain name).run (s.note (.requested name)) = some (result, u) ∧
      t = u.note (.answered name result.toOption) := by
  rw [run_getOrBuild_apply] at h
  rcases Option.map_eq_some_iff.1 h with ⟨⟨answer, u⟩, hobtain, hend⟩
  cases hend
  exact ⟨u, hobtain, rfl⟩

/-- A singleton that is kept answers all requests. -/
theorem run_getOrBuild_kept (E : Engine H) {s : State H} {name : String} {object : Object H.Content}
    (h : s.container.singletons.get? name = some object) :
    (E.getOrBuild name).run s
      = some (.ok object, (s.note (.requested name)).note (.answered name (some object))) := by
  rw [run_getOrBuild_apply, run_obtain_apply, State.note_container, h]
  rfl

/-- A request that succeeds for an object that is not kept is answered by the steps of a build. -/
theorem run_getOrBuild_built {s t : State H} {name : String} {object : Object H.Content}
    (hkept : s.container.singletons.get? name = none)
    (h : (E.getOrBuild name).run s = some (.ok object, t)) :
    ∃ d copy x, s.container.definitions.get? name = some d ∧
      (E.construct name d).run (s.begin name) = some (.ok ⟨copy, object⟩, x) ∧
      t = x.conclude name (.ok ⟨copy, object⟩) := by
  rcases run_getOrBuild_eq_some h with ⟨u, hobtain, rfl⟩
  rcases run_obtain_cases hobtain with ⟨⟨_, hsome, _⟩, _⟩ | ⟨_, _, ⟨_, herror⟩, _⟩ |
    ⟨_, d, hd, ⟨_, ⟨_, herror⟩, _⟩ | ⟨_, hbuild⟩⟩
  · cases hkept.symm.trans hsome
  · cases herror
  · cases herror
  · rcases run_build_cases hbuild with
      ⟨_, _, herror, _⟩ | ⟨k, built, x, hk, hconstruct, hbuilt, rfl⟩
    · cases herror
    · rcases Container.beginCreation_eq_ok hk with ⟨_, rfl⟩
      cases built with
      | error e => cases hbuilt
      | ok b =>
          cases hbuilt
          exact ⟨d, b.copy, x, hd, hconstruct, rfl⟩

/-- A walk is written down, and then it goes through the hooks that are installed. -/
theorem run_walk_apply (E : Engine H) (stage : Stage) (name : String) (object : Object H.Content)
    (s : State H) :
    (E.walk stage name object).run s
      = (E.walkThrough stage name s.container.chain.entries object).run (s.setOut stage name) :=
  rfl

/-- Once the object of a factory is the target it sets out on both walks. -/
theorem run_finish_walks {s t : State H} {name : String} {object : Object H.Content}
    {result : Except Error (Object H.Content)}
    (h : (E.finish name object).run s = some (result, t)) :
    (do
      let object ← E.walk .before name object
      E.walk .after name object : Attempt H (Object H.Content)).run (s.bear name object)
        = some (result, t) := by
  rcases Attempt.run_bind_eq_some_iff.1 h with ⟨_, herror, _⟩ | ⟨_, u, hnote, hrest⟩
  · cases herror
  cases hnote
  rcases Attempt.run_bind_eq_some_iff.1 hrest with ⟨_, herror, _⟩ | ⟨_, v, hkeep, hrest⟩
  · cases herror
  cases hkeep
  exact hrest

-- The walks behind a factory go along a relation if each of them does.
theorem finish_walks_along {may : Activity H → Prop} {inside along : State H → State H → Prop}
    (hT : Trail may inside along) {s t : State H} {name : String} {object : Object H.Content}
    {result : Except Error (Object H.Content)}
    (hwalk : ∀ stage object, Attempt.Along along (E.walk stage name object))
    (h : (E.finish name object).run s = some (result, t)) : along (s.bear name object) t :=
  Attempt.along_bind hT (hwalk .before object) (fun object => hwalk .after object) _ _ _
    (run_finish_walks h)

section Building

variable {may own : Activity H → Prop} {inside along : State H → State H → Prop}
  (hE : E.KeepsWith inside own) (hT : Trail may inside along)
include hE hT

omit hT in
-- A sentinel is asked after the initialization of an object only.
theorem intercept_called {stage : Stage} {entry : ChainEntry H.Content} {name : String}
    (hwatch : ∀ number, stage = .after → entry.hook = .sentinel number →
      Run.Along inside (watch number name : Run H Unit)) {object : Object H.Content} {s t : State H}
    {result : Except Failure (Option (Object H.Content))}
    (h : E.intercept stage entry name object s = some (result, t)) :
    ∃ u, inside (s.note (.entered (.intercept stage entry.name object name))) u ∧
      t = u.note (.left (.intercept stage entry.name object name) (failure? result)) := by
  refine enter_called ?_ h
  split
  · refine Run.along_bind hE.trail (hE.runs _ _) fun answer => ?_
    match answer with
    | .error source => exact Run.along_pure hE.trail _
    | .ok (some next) => exact Run.along_pure hE.trail _
    | .ok none =>
      refine Run.along_bind hE.trail (fun s a t h => ?_) fun _ => Run.along_pure hE.trail _
      cases h
      exact hE.trail.stop _ _ _ _ (hE.owns _ nofun)
  · exact Run.along_bind hE.trail (hwatch _ rfl ‹_›) fun _ => Run.along_pure hE.trail _
  · exact Run.along_bind hE.trail (detectListener_along hE.trail _ _ _) fun _ =>
      Run.along_pure hE.trail _
  · exact Run.along_pure hE.trail _

theorem intercept_along {stage : Stage} {entry : ChainEntry H.Content} {name : String}
    (hwatch : ∀ number, stage = .after → entry.hook = .sentinel number →
      Run.Along inside (watch number name : Run H Unit))
    (hmay : ∀ object, may (.entered (.intercept stage entry.name object name)))
    (object : Object H.Content) : Run.Along along (E.intercept stage entry name object) := by
  intro s result t h
  rcases intercept_called hE hwatch h with ⟨u, hinside, rfl⟩
  exact hT.call (hmay object) hinside

theorem walkThrough_along {stage : Stage} {name : String}
    (hmay : ∀ hook object, may (.entered (.intercept stage hook object name))) :
    ∀ {entries : List (ChainEntry H.Content)},
      (∀ entry ∈ entries, ∀ number, stage = .after → entry.hook = .sentinel number →
        Run.Along inside (watch number name : Run H Unit)) →
      ∀ object : Object H.Content,
        Attempt.Along along (E.walkThrough stage name entries object) := by
  intro entries
  induction entries with
  | nil =>
      intro _ object
      exact Attempt.along_pure hT _
  | cons entry rest ih =>
      intro hwatch object
      refine Attempt.along_bind hT (Attempt.along_step (intercept_along hE hT
        (hwatch entry List.mem_cons_self) (hmay _) object)) fun answer => ?_
      match answer with
      | .error source => exact Attempt.along_throw hT _
      | .ok none => exact Attempt.along_pure hT _
      | .ok (some next) => exact ih (fun e he => hwatch e (List.mem_cons_of_mem _ he)) next

/-- A walk goes along the relation if it may be written down, and if the relation bears that
    sentinels watch. -/
theorem walk_along {stage : Stage} {name : String}
    (hset : ∀ s : State H, along s (s.setOut stage name))
    (hmay : ∀ hook object, may (.entered (.intercept stage hook object name)))
    (hwatch : ∀ number, Run.Along inside (watch number name : Run H Unit))
    (object : Object H.Content) : Attempt.Along along (E.walk stage name object) := by
  intro s result t h
  rw [run_walk_apply] at h
  exact hT.followedBy (hset s) (walkThrough_along hE hT hmay (fun _ _ number _ _ => hwatch number)
    object _ _ _ h)

omit hE in
-- What follows the factory, if the relation bears that its object becomes the target.
theorem finish_along {s t : State H} {name : String} {object : Object H.Content}
    {result : Except Error (Object H.Content)} (hmade : along s (s.bear name object))
    (hwalk : ∀ stage object, Attempt.Along along (E.walk stage name object))
    (h : (E.finish name object).run s = some (result, t)) : along s t :=
  hT.followedBy hmade (finish_walks_along hT hwalk h)

omit hT in
theorem merge_called {entry : ChainEntry H.Content} {name : String} {d : Definition H.Factory}
    {s t : State H} {result : Except Failure (Definition H.Factory)}
    (h : E.merge entry name d s = some (result, t)) :
    ∃ u, inside (s.note (.entered (.merge entry.name name d))) u ∧
      t = u.note (.left (.merge entry.name name d) (failure? result)) := by
  refine enter_called ?_ h
  split
  · exact hE.runs _ _
  · exact Run.along_pure hE.trail _

theorem merge_along {entry : ChainEntry H.Content} {name : String} {d : Definition H.Factory}
    (hmay : may (.entered (.merge entry.name name d))) :
    Run.Along along (E.merge entry name d) := by
  intro s result t h
  rcases merge_called hE h with ⟨u, hinside, rfl⟩
  exact hT.call hmay hinside

theorem mergeThrough_along {name : String} (hmay : ∀ hook d, may (.entered (.merge hook name d))) :
    ∀ (entries : List (ChainEntry H.Content)) (d : Definition H.Factory),
      Attempt.Along along (E.mergeThrough name entries d) := by
  intro entries
  induction entries with
  | nil =>
      intro d
      exact Attempt.along_pure hT _
  | cons entry rest ih =>
      intro d
      refine Attempt.along_bind hT
        (Attempt.along_step (merge_along hE hT (hmay _ _))) fun answer => ?_
      match answer with
      | .error source => exact Attempt.along_throw hT _
      | .ok edited => exact ih _

omit hT in
theorem make_called {name : String} {d : Definition H.Factory} {s t : State H}
    {result : Except Failure (Object H.Content)} (h : E.make name d s = some (result, t)) :
    ∃ u, inside (s.note (.entered (.make name d))) u ∧
      t = u.note (.left (.make name d) (failure? result)) := by
  refine enter_called ?_ h
  split
  · exact Run.along_bind hE.trail (Run.along_create hE.trail _ _) fun _ =>
      Run.along_pure hE.trail _
  · refine Run.along_bind hE.trail (hE.runs _ _) fun answer => ?_
    match answer with
    | .error failure => exact Run.along_pure hE.trail _
    | .ok content =>
      exact Run.along_bind hE.trail (Run.along_create hE.trail _ _) fun _ =>
        Run.along_pure hE.trail _

theorem make_along {name : String} {d : Definition H.Factory}
    (hmay : may (.entered (.make name d))) : Run.Along along (E.make name d) := by
  intro s result t h
  rcases make_called hE h with ⟨u, hinside, rfl⟩
  exact hT.call hmay hinside

omit hE hT in
-- What follows the factory in a build is told apart from the copy that the build ends with.
theorem run_finish_built_iff {copy : Definition H.Factory} {name : String}
    {made : Object H.Content} {result : Except Error (Built H)} {s t : State H} :
    (do
      Attempt.step (Run.record (.made name made))
      Attempt.step (Run.modifyContainer fun k => k.keepTarget name made)
      let object ← E.walk .before name made
      let object ← E.walk .after name object
      return ⟨copy, object⟩ : Attempt H (Built H)).run s = some (result, t) ↔
    ∃ answer, (E.finish name made).run s = some (answer, t) ∧
      result = answer.map (Built.mk copy) := by
  have hfinish : (do
      Attempt.step (Run.record (.made name made))
      Attempt.step (Run.modifyContainer fun k => k.keepTarget name made)
      let object ← E.walk .before name made
      let object ← E.walk .after name object
      return ⟨copy, object⟩ : Attempt H (Built H))
        = E.finish name made >>= fun object => pure ⟨copy, object⟩ := by
    simp only [finish, bind_assoc]
  rw [hfinish, Attempt.run_bind_eq_some_iff]
  constructor
  · rintro (⟨e, herror, rfl⟩ | ⟨object, u, hok, hpure⟩)
    · exact ⟨.error e, herror, rfl⟩
    · cases hpure
      exact ⟨.ok object, hok, rfl⟩
  · rintro ⟨answer, hrun, rfl⟩
    cases answer with
    | error e => exact Or.inl ⟨e, hrun, rfl⟩
    | ok object => exact Or.inr ⟨object, t, hrun, rfl⟩

/-- A build takes its steps along the relation. -/
theorem construct_steps {name : String} (hmerge : ∀ hook d, may (.entered (.merge hook name d)))
    {s t : State H} {d : Definition H.Factory} {result : Except Error (Built H)}
    (hwalk : ∀ stage object, Attempt.Along along (E.walk stage name object))
    (hmake : ∀ copy, may (.entered (.make name copy)))
    (h : (E.construct name d).run s = some (result, t)) : E.Steps along name d s result t := by
  rcases Attempt.run_bind_eq_some_iff.1 h with ⟨_, herror, _⟩ | ⟨k, _, hlook, hrest⟩
  · cases herror
  cases hlook
  have hmerged := mergeThrough_along hE hT hmerge s.container.chain.entries d
  rcases Attempt.run_bind_eq_some_iff.1 hrest with ⟨e, herror, rfl⟩ | ⟨copy, u, hcopy, hrest⟩
  · exact .unmerged herror (hmerged _ _ _ herror)
  have hsu : along s u := hmerged _ _ _ hcopy
  have hmade := make_along hE hT (hmake copy)
  rcases Attempt.run_bind_eq_some_iff.1 hrest with ⟨_, herror, _⟩ | ⟨answer, v, hanswer, hrest⟩
  · rcases Attempt.run_step_eq_some_iff.1 herror with ⟨_, _, hcontra⟩
    cases hcontra
  have hanswer := Attempt.run_step_eq_ok_iff.1 hanswer
  match answer with
  | .error failure =>
      cases hrest
      exact .unmade hcopy hsu hanswer (hmade _ _ _ hanswer)
  | .ok object =>
      rcases run_finish_built_iff.1 hrest with ⟨result, hrun, rfl⟩
      have hwalked := finish_walks_along hT hwalk hrun
      cases result with
      | error e => exact .unfinished hcopy hsu hanswer (hmade _ _ _ hanswer) hrun hwalked
      | ok next => exact .finished hcopy hsu hanswer (hmade _ _ _ hanswer) hrun hwalked

omit hE in
-- The whole way of a build, if the relation bears what follows the factory.
theorem Steps.whole {s t : State H} {name : String} {d : Definition H.Factory}
    {result : Except Error (Built H)} (h : E.Steps along name d s result t)
    (hname : name ∈ s.container.inCreation)
    (hfinish : ∀ {u : State H} {object : Object H.Content}
      {answer : Except Error (Object H.Content)}, name ∈ u.container.inCreation →
      (E.finish name object).run u = some (answer, t) → along u t) : along s t := by
  cases h with
  | unmerged _ hst => exact hst
  | unmade _ hsu _ hut => exact hT.followedBy hsu hut
  | unfinished _ hsu _ huv hrun _ | finished _ hsu _ huv hrun _ =>
      have hsv := hT.followedBy hsu huv
      -- The name is still under way, whatever the hooks and the factory did.
      exact hT.followedBy hsv (hfinish ((hT.course hsv).inCreation_eq ▸ hname) hrun)

omit hE in
/-- A relation bears builds if it bears their brackets, the walks, and what follows a factory. -/
theorem Builds.of_finish
    (hrequest : ∀ {s t : State H} {name : String} {object : Option (Object H.Content)},
      may (.requested name) → may (.answered name object) →
        along (s.note (.requested name)) t → along s (t.note (.answered name object)))
    (hbuild : ∀ {s t : State H} {name : String} {d : Definition H.Factory} {k : Container H}
      {built : Option (Built H)},
      s.container.singletons.get? name = none → s.container.definitions.get? name = some d →
        d.isAbstract = false → s.container.beginCreation name = .ok k →
        along (s.withContainer k) t →
        along s (t.withContainer (t.container.finishBuild name built)))
    (hwalk : ∀ stage name object, may (.requested name) →
      Attempt.Along along (E.walk stage name object))
    (hfinish : ∀ {s t : State H} {name : String} {object : Object H.Content}
      {result : Except Error (Object H.Content)}, may (.requested name) →
        name ∈ s.container.inCreation → (E.finish name object).run s = some (result, t) →
        along s t) : E.Builds may along where
  answer hrequested hanswered _ := hrequest hrequested hanswered (hT.rest _)
  build {s t name d k result} hrequested hanswered hget hd habs hk h := by
    have hname : name ∈ ((s.note (.requested name)).withContainer k).container.inCreation := by
      rcases Container.beginCreation_eq_ok hk with ⟨_, rfl⟩
      exact List.mem_append_right _ (List.mem_singleton_self name)
    exact hrequest hrequested hanswered (hbuild (s := s.note (.requested name)) hget hd habs hk
      (h.whole hT hname fun hunder hrun => hfinish hrequested hunder hrun))
  walk := hwalk

variable (hB : E.Builds may along)
include hB

/-- A request for an object goes along the relation if a factory may be called for it. -/
theorem getOrBuild_along {name : String} (hmerge : ∀ hook d, may (.entered (.merge hook name d)))
    {s t : State H} {result : Except Error (Object H.Content)} (hrequested : may (.requested name))
    (hanswered : ∀ object, may (.answered name object))
    (hmake : ∀ copy, may (.entered (.make name copy)))
    (h : (E.getOrBuild name).run s = some (result, t)) : along s t := by
  rcases run_getOrBuild_eq_some h with ⟨u, hobtain, rfl⟩
  have hrefused : ∀ {e : Error}, s.container.singletons.get? name = none → result = .error e →
      along s ((s.note (.requested name)).note (.answered name result.toOption)) := by
    rintro e hunkept rfl
    refine hB.answer hrequested (hanswered _) fun o => ⟨fun hok => ?_, fun hkept => ?_⟩
    · cases hok
    · cases hunkept.symm.trans hkept
  rcases run_obtain_cases hobtain with ⟨⟨object, hobject, rfl⟩, rfl⟩ |
    ⟨hunkept, _, ⟨_, herror⟩, rfl⟩ | ⟨hkept, d, hd, ⟨_, ⟨_, herror⟩, rfl⟩ | ⟨habs, hbuild⟩⟩
  · refine hB.answer hrequested (hanswered _) fun o => ⟨fun hok => ?_, fun hkept => ?_⟩
    · cases hok
      exact hobject
    · exact congrArg Except.ok (Option.some.inj (hobject.symm.trans hkept))
  · exact hrefused hunkept herror
  · exact hrefused hkept herror
  · rcases run_build_cases hbuild with ⟨_, _, herror, rfl⟩ | ⟨k, built, w, hk, hconstruct, rfl, rfl⟩
    · exact hrefused hkept herror
    · exact hB.build hrequested (hanswered _) hkept hd habs hk
        (construct_steps hE hT hmerge (fun stage object => hB.walk stage name object hrequested)
          hmake hconstruct)

end Building

section Hooks

variable {may : Activity H → Prop} {inside along : State H → State H → Prop}
  (hT : Trail may inside along) {ask : String → Prop}
  (hget : ∀ name, ask name → Attempt.Along along (E.getOrBuild name))
include hT hget

theorem buildFacet_along (facade : Facade) {name : String} (hname : ask name) (c : Capability) :
    Attempt.Along along (E.buildFacet facade name c) := by
  refine Attempt.along_bind hT (hget name hname) fun object => ?_
  refine Attempt.along_bind hT (Attempt.along_container hT) fun k => ?_
  cases facade.facet? k name object c with
  | some facet => exact Attempt.along_pure hT _
  | none => exact Attempt.along_throw hT _

theorem buildHook_along (facade : Facade) (phase : Phase) (c : Capability) (kind : FacetKind)
    {name : String} (hname : ask name) :
    Attempt.Along along (E.buildHook facade phase c kind name) := by
  refine Attempt.along_bind hT
    (Attempt.along_step (buildFacet_along hT hget facade hname c)) fun answer => ?_
  match answer with
  | .error e => exact Attempt.along_throw hT _
  | .ok facet =>
    change Attempt.Along along (if facet.kind = kind then _ else _)
    by_cases hkind : facet.kind = kind
    · rw [if_pos hkind]
      exact Attempt.along_pure hT _
    · rw [if_neg hkind]
      exact Attempt.along_throw hT _

theorem preInstantiateAll_along : ∀ {names : List String}, (∀ name ∈ names, ask name) →
    ∀ count, Attempt.Along along (E.preInstantiateAll names count) := by
  intro names
  induction names with
  | nil =>
      intro _ count
      exact Attempt.along_pure hT _
  | cons name rest ih =>
      intro hnames count
      have hrest := ih fun n hn => hnames n (List.mem_cons_of_mem _ hn)
      refine Attempt.along_bind hT (Attempt.along_container hT) fun k => ?_
      split
      · exact Attempt.along_bind hT (hget name (hnames name List.mem_cons_self)) fun _ => hrest _
      · exact hrest _

theorem take_along (facade : Facade) (pass : DiscoveryPass) :
    ∀ {names : List String}, (∀ name ∈ names, ask name) → ∀ processed,
      Attempt.Along along (E.take facade pass names processed) := by
  intro names
  induction names with
  | nil =>
      intro _ processed
      exact Attempt.along_pure hT _
  | cons name rest ih =>
      intro hnames processed
      have hrest := ih fun n hn => hnames n (List.mem_cons_of_mem _ hn)
      unfold take
      split
      · exact hrest processed
      · refine Attempt.along_bind hT (Attempt.along_container hT) fun k => ?_
        dsimp only
        split
        · refine Attempt.along_bind hT (buildHook_along hT hget facade _ _ _
            (hnames name List.mem_cons_self)) fun hook => ?_
          exact Attempt.along_bind hT (hrest _) fun _ => Attempt.along_pure hT _
        · exact hrest processed

theorem buildCustomizer_along (facade : Facade) {candidate : Candidate}
    (hname : ask candidate.1) : Attempt.Along along (E.buildCustomizer facade candidate) :=
  Attempt.along_bind hT (buildHook_along hT hget facade _ _ _ hname) fun _ =>
    Attempt.along_pure hT _

theorem buildInterceptor_along (facade : Facade) {candidate : Candidate}
    (hname : ask candidate.1) : Attempt.Along along (E.buildInterceptor facade candidate) :=
  Attempt.along_bind hT (buildHook_along hT hget facade _ _ _ hname) fun _ =>
    Attempt.along_pure hT _

theorem buildMarked_along (facade : Facade) {candidate : Candidate} (hname : ask candidate.1) :
    Attempt.Along along (E.buildMarked facade candidate) := by
  refine Attempt.along_bind hT (buildInterceptor_along hT hget facade hname) fun ranked => ?_
  exact Attempt.along_bind hT (Attempt.along_container hT) fun _ => Attempt.along_pure hT _

end Hooks

section Tiers

variable {may : Activity H → Prop} {inside along : State H → State H → Prop}
  (hT : Trail may inside along) {build : Candidate → Attempt H (Ranked α)} {ask : String → Prop}
  (hbuild : ∀ {candidate}, ask candidate.1 → Attempt.Along along (build candidate))
include hT hbuild

theorem divide_along {facade : Facade} : ∀ {names : List String}, (∀ name ∈ names, ask name) →
    Attempt.Along along (divide facade build names) := by
  intro names
  induction names with
  | nil =>
      intro _
      exact Attempt.along_pure hT _
  | cons name rest ih =>
      intro hnames
      refine Attempt.along_bind hT (Attempt.along_container hT) fun k => ?_
      have hrest : ∀ f : Division α → Division α,
          Attempt.Along along (do return f (← divide facade build rest)) :=
        fun f => Attempt.along_bind hT (ih fun n hn => hnames n (List.mem_cons_of_mem _ hn))
          fun _ => Attempt.along_pure hT _
      cases htier : (facade.classify k name).tier with
      | highest =>
          simp only [htier]
          exact Attempt.along_bind hT (hbuild (hnames name List.mem_cons_self)) fun hook =>
            hrest _
      | ordered =>
          simp only [htier]
          exact hrest _
      | plain =>
          simp only [htier]
          exact hrest _

theorem buildEach_along : ∀ {candidates : List Candidate},
    (∀ candidate ∈ candidates, ask candidate.1) →
      Attempt.Along along (buildEach build candidates) := by
  intro candidates
  induction candidates with
  | nil =>
      intro _
      exact Attempt.along_pure hT _
  | cons candidate rest ih =>
      intro hnames
      refine Attempt.along_bind hT (hbuild (hnames candidate List.mem_cons_self)) fun hook => ?_
      exact Attempt.along_bind hT (ih fun c hc => hnames c (List.mem_cons_of_mem _ hc)) fun _ =>
        Attempt.along_pure hT _

end Tiers

section Calls

variable {may own : Activity H → Prop} {inside along : State H → State H → Prop}
  (hE : E.KeepsWith inside own) (hT : Trail may inside along)
include hE hT

theorem mutate_along (facade : Facade) {name : String} {hook : Object H.Content}
    (hmay : may (.entered (.mutate name hook))) :
    Attempt.Along along (E.mutate facade name hook) := by
  refine Attempt.along_bind hT (Attempt.along_step (enter_along hT ?_ hmay)) fun answer => ?_
  · split
    · exact hE.runs _ _
    · exact Run.along_pure hE.trail _
  · match answer with
    | .ok () => exact Attempt.along_pure hT _
    | .error source => exact Attempt.along_throw hT _

theorem mutateEach_along (facade : Facade)
    (hmay : ∀ name (hook : Object H.Content), may (.entered (.mutate name hook))) :
    ∀ hooks : List (String × Object H.Content),
      Attempt.Along along (E.mutateEach facade hooks) := by
  intro hooks
  induction hooks with
  | nil => exact Attempt.along_pure hT _
  | cons entry rest ih =>
      exact Attempt.along_bind hT (mutate_along hE hT facade (hmay _ _)) fun _ => ih

theorem customize_along (facade : Facade) {name : String} {hook : Object H.Content}
    (hmay : may (.entered (.customize name hook))) :
    Attempt.Along along (E.customize facade name hook) := by
  refine Attempt.along_bind hT (Attempt.along_step (enter_along hT ?_ hmay)) fun answer => ?_
  · split <;> exact hE.runs _ _
  · match answer with
    | .ok () => exact Attempt.along_pure hT _
    | .error source => exact Attempt.along_throw hT _

theorem customizeEach_along (facade : Facade)
    (hmay : ∀ name (hook : Object H.Content), may (.entered (.customize name hook))) :
    ∀ hooks : List (String × Object H.Content),
      Attempt.Along along (E.customizeEach facade hooks) := by
  intro hooks
  induction hooks with
  | nil => exact Attempt.along_pure hT _
  | cons entry rest ih =>
      exact Attempt.along_bind hT (customize_along hE hT facade (hmay _ _)) fun _ => ih

theorem customizeTier_along (facade : Facade)
    (hmay : ∀ name (hook : Object H.Content), may (.entered (.customize name hook)))
    (tier : List (Ranked (Object H.Content))) :
    Attempt.Along along (E.customizeTier facade tier) :=
  Attempt.along_bind hT (customizeEach_along hE hT facade hmay _) fun _ =>
    Attempt.along_pure hT _

theorem notifyAll_along {event : Event}
    (hmay : ∀ name listener, may (.entered (.notify name listener event))) :
    ∀ listeners : List (String × Object H.Content),
      Run.Along along (E.notifyAll event listeners) := by
  intro listeners
  induction listeners with
  | nil => exact Run.along_pure hT _
  | cons entry rest ih =>
      refine Run.along_bind hT (enter_along hT ?_ (hmay _ _)) fun _ => ih
      split
      · exact Run.along_bind hE.trail (hE.runs _ _) fun _ => Run.along_pure hE.trail _
      · exact Run.along_pure hE.trail _

-- A publication is written down before the listeners are told.
theorem publish_along {event : Event} (hpublish : ∀ names, may (.published event names))
    (hnotify : ∀ name listener, may (.entered (.notify name listener event))) :
    Run.Along along (E.publish event) := by
  intro s count t h
  rcases Run.bind_eq_some_iff.1 h with ⟨_, u, hget, hrest⟩
  cases hget
  rcases Run.bind_eq_some_iff.1 hrest with ⟨_, v, hnote, hlast⟩
  cases hnote
  rcases Run.bind_eq_some_iff.1 hlast with ⟨_, w, hnotified, hpure⟩
  cases hpure
  exact hT.followedBy (hT.publish s event (hpublish _))
    (notifyAll_along hE hT hnotify _ _ _ _ hnotified)

end Calls

section Phases

variable {may own : Activity H → Prop} {inside along : State H → State H → Prop}
  (hE : E.KeepsWith inside own) (hT : Trail may inside along)
  (hget : ∀ name, AnyName name → Attempt.Along along (E.getOrBuild name))

include hT hget in
theorem preInstantiate_along : Attempt.Along along E.preInstantiate :=
  Attempt.along_bind hT (Attempt.along_container hT) fun _ =>
    preInstantiateAll_along hT hget (fun _ _ => trivial) _

section Mutation

include hE hT hget

variable (hmutate : ∀ name (hook : Object H.Content), may (.entered (.mutate name hook)))
include hmutate

theorem discover_along (facade : Facade) (config : Config) (pass : DiscoveryPass)
    (progress : Progress H) :
    Attempt.Along along (E.discover facade config pass progress) := by
  refine Attempt.along_bind hT (Attempt.along_step (Run.along_namesFor hT _)) fun names => ?_
  refine Attempt.along_bind hT
    (take_along hT hget facade pass (fun _ _ => trivial) _) fun taken => ?_
  exact Attempt.along_bind hT (mutateEach_along hE hT facade hmutate _) fun _ =>
    Attempt.along_pure hT _

theorem reiterate_along (facade : Facade) (config : Config) :
    ∀ (limit number : Nat) (progress : Progress H),
      Attempt.Along along (E.reiterate facade config limit number progress) := by
  intro limit
  induction limit with
  | zero =>
      intro number progress
      exact Attempt.along_step exhausted_along
  | succ limit ih =>
      intro number progress
      refine Attempt.along_bind hT
        (discover_along hE hT hget hmutate facade config _ progress) fun next => ?_
      split
      · exact Attempt.along_pure hT _
      · exact ih _ _

theorem mutateAll_along (facade : Facade) (config : Config)
    (externals : List (ExternalHook H.Content)) :
    Attempt.Along along (E.mutateAll facade config externals) := by
  have hdiscover := discover_along hE hT hget hmutate facade config
  refine Attempt.along_bind hT (mutateEach_along hE hT facade hmutate _) fun _ => ?_
  refine Attempt.along_bind hT (hdiscover _ _) fun _ => ?_
  refine Attempt.along_bind hT (hdiscover _ _) fun _ => ?_
  exact reiterate_along hE hT hget hmutate facade config _ _ _

theorem mutationPhase_along (facade : Facade) (config : Config)
    (hcustomize : ∀ name (hook : Object H.Content), may (.entered (.customize name hook)))
    (externals : List (ExternalHook H.Content)) :
    Attempt.Along along (E.mutationPhase facade config externals) := by
  refine Attempt.along_bind hT
    (mutateAll_along hE hT hget hmutate facade config externals) fun progress => ?_
  exact Attempt.along_bind hT (customizeEach_along hE hT facade hcustomize _) fun _ =>
    Attempt.along_pure hT _

end Mutation

include hE hT hget in
theorem customizationPhase_along (facade : Facade) (config : Config)
    (hcustomize : ∀ name (hook : Object H.Content), may (.entered (.customize name hook)))
    (processed : Processed) :
    Attempt.Along along (E.customizationPhase facade config processed) := by
  have hcustomizer : ∀ {candidate : Candidate}, AnyName candidate.1 →
      Attempt.Along along (E.buildCustomizer facade candidate) :=
    fun hname => buildCustomizer_along hT hget facade hname
  have htier := customizeTier_along hE hT facade hcustomize
  have heach :
      ∀ candidates, Attempt.Along along (buildEach (E.buildCustomizer facade) candidates) :=
    fun candidates => buildEach_along hT hcustomizer fun _ _ => trivial
  refine Attempt.along_bind hT (Attempt.along_step (Run.along_namesFor hT _)) fun names => ?_
  refine Attempt.along_bind hT (divide_along hT hcustomizer fun _ _ => trivial)
    fun division => ?_
  refine Attempt.along_bind hT (htier _) fun _ => ?_
  refine Attempt.along_bind hT (heach _) fun _ => ?_
  refine Attempt.along_bind hT (htier _) fun _ => ?_
  refine Attempt.along_bind hT (heach _) fun _ => ?_
  refine Attempt.along_bind hT (htier _) fun _ => ?_
  exact Attempt.along_bind hT (Attempt.along_step (Run.along_invalidate hT)) fun _ =>
    Attempt.along_pure hT _

section Installation

variable (hinstall : ∀ name, may (.installed name))

include hT hinstall

theorem installEach_along :
    ∀ hooks : List (Ranked (Object H.Content × Bool)), Run.Along along (installEach hooks) := by
  intro hooks
  induction hooks with
  | nil => exact Run.along_pure hT _
  | cons ranked rest ih =>
      exact Run.along_bind hT
        (Run.along_install hT (fun _ => by simp only [ne_eq, reduceCtorEq, not_false_eq_true])
          (hinstall _)) fun _ => ih

theorem installTier_along (hooks : List (Ranked (Object H.Content × Bool))) :
    Run.Along along (installTier hooks) :=
  installEach_along hT hinstall _

-- A sentinel is installed as soon as it is there.
theorem post_along {target : Nat} {next : Nat → Attempt H α}
    (hnext : ∀ number, Attempt.Along along (next number)) :
    Attempt.Along along (do
      let sentinel ← Attempt.step (addSentinel target)
      Attempt.step (Run.install sentinelName (.sentinel sentinel))
      next sentinel) := by
  intro s result t h
  rcases Attempt.run_bind_eq_some_iff.1 h with ⟨_, herror, _⟩ | ⟨number, u, hadd, hrest⟩
  · cases herror
  cases hadd
  rcases Attempt.run_bind_eq_some_iff.1 hrest with ⟨_, herror, _⟩ | ⟨_, v, hput, hlast⟩
  · cases herror
  cases hput
  exact hT.followedBy (hT.post s target (hinstall _)) (hnext _ _ _ _ hlast)

include hget

theorem installationPhase_along (facade : Facade) (config : Config) :
    Attempt.Along along (E.installationPhase facade config) := by
  have hmarked : ∀ {candidate : Candidate}, AnyName candidate.1 →
      Attempt.Along along (E.buildMarked facade candidate) :=
    fun hname => buildMarked_along hT hget facade hname
  have htier : ∀ hooks, Attempt.Along along (Attempt.step (installTier hooks)) :=
    fun hooks => Attempt.along_step (installTier_along hT hinstall hooks)
  have heach : ∀ candidates, Attempt.Along along (buildEach (E.buildMarked facade) candidates) :=
    fun candidates => buildEach_along hT hmarked fun _ _ => trivial
  refine Attempt.along_bind hT (Attempt.along_step (Run.along_namesFor hT _)) fun names => ?_
  refine Attempt.along_bind hT (Attempt.along_container hT) fun k => ?_
  refine post_along hT hinstall fun number => ?_
  refine Attempt.along_bind hT (divide_along hT hmarked fun _ _ => trivial) fun division => ?_
  refine Attempt.along_bind hT (htier _) fun _ => ?_
  refine Attempt.along_bind hT (heach _) fun _ => ?_
  refine Attempt.along_bind hT (htier _) fun _ => ?_
  refine Attempt.along_bind hT (heach _) fun _ => ?_
  refine Attempt.along_bind hT (htier _) fun _ => ?_
  refine Attempt.along_bind hT (htier _) fun _ => ?_
  refine Attempt.along_bind hT (Attempt.along_step (Run.along_install hT
    (fun _ => by simp only [ne_eq, reduceCtorEq, not_false_eq_true]) (hinstall _))) fun _ => ?_
  exact Attempt.along_bind hT (Attempt.along_container hT) fun _ => Attempt.along_pure hT _

end Installation

end Phases

end Engine

/-- A program goes along a relation if its requests do. -/
theorem Prog.interpret_along {own : Activity H → Prop} {R : State H → State H → Prop}
    (hT : Trail own R R) (hupdate : ∀ name d, own (.updated name d))
    {answer : {γ : Type} → Request H γ → Run H γ}
    (hanswer : ∀ {γ : Type} (r : Request H γ), Run.Along R (answer r)) (p : Prog H α) :
    Run.Along R (p.interpret answer) := by
  induction p with
  | done result => exact Run.along_pure hT result
  | ask request next ih => exact Run.along_bind hT (hanswer request) ih
  | update name edit next ihedit ih =>
      intro s a t h
      cases hd : s.container.definition name with
      | error e =>
          rw [Prog.interpret_update_of_error hd] at h
          exact ih _ _ _ _ h
      | ok d =>
          -- The edit runs to its end before the definition is stored and the entry is written.
          rcases (Prog.interpret_update_eq_some_iff hd).1 h with ⟨result, e, u, hedit, hgo⟩
          exact hT.followedBy (hT.update (hupdate _ _) hd (ihedit d _ _ _ hedit)) (ih _ _ _ _ hgo)

namespace Engine

theorem asked_along {E : Engine H} {R : State H → State H → Prop} (hE : E.Keeps R)
    (hB : E.Builds Anything R) (name : String) (_ : AnyName name) :
    Attempt.Along R (E.getOrBuild name) :=
  fun _ _ _ h => getOrBuild_along hE hE.trail hB (fun _ _ => trivial) trivial (fun _ => trivial)
    (fun _ => trivial) h

/-- Requests are answered along a relation that bears programs, requests for objects and walks. -/
theorem answer_along {own : Activity H → Prop} {E : Engine H} {R : State H → State H → Prop}
    (hE : E.KeepsWith R own) (hget : ∀ name, AnyName name → Attempt.Along R (E.getOrBuild name))
    (hwalk : ∀ stage name object, Attempt.Along R (E.walk stage name object)) (facade : Facade)
    (r : Request H α) : Run.Along R (E.answer facade r) := by
  have hT := hE.trail
  cases r with
  | namesFor query => exact Run.along_namesFor hT query
  | typeMatch name c => exact Run.along_look hT _
  | placement name => exact Run.along_look hT _
  | getOrBuild name => exact hget name trivial
  | facet name object c => exact Run.along_look hT _
  | definition name => exact Run.along_look hT _
  | contains name => exact Run.along_look hT _
  | definitionNames => exact Run.along_look hT _
  | register d => exact Attempt.along_register hT (hE.owns _ nofun)
  | install name hook =>
      exact Run.along_install hT (fun _ => by simp only [ne_eq, reduceCtorEq, not_false_eq_true])
        (hE.owns _ nofun)
  | installedNames => exact Run.along_look hT _
  | invalidate => exact Run.along_invalidate hT
  | containsSingleton name => exact Run.along_look hT _
  | preInstantiate => exact preInstantiate_along hT hget
  | walk stage name object => exact hwalk stage name object
  | mutationPhase config externals =>
      exact mutationPhase_along hE hT hget (fun _ _ => hE.owns _ nofun) facade config
        (fun _ _ => hE.owns _ nofun) externals
  | customizationPhase config processed =>
      exact customizationPhase_along hE hT hget facade config (fun _ _ => hE.owns _ nofun) processed
  | installationPhase config =>
      exact installationPhase_along hT hget (fun _ => hE.owns _ nofun) E.facade config
  | sentinel number => exact Run.along_bind hT (Run.along_get hT) fun _ => Run.along_pure hT _
  | isPremature target name => exact Run.along_look hT _
  | detectListener name object => exact detectListener_along hT E.facade name object
  | addListener name listener =>
      intro s a t h
      cases h
      exact hT.quiet (.subscribe s name listener) rfl rfl
  | removeListener name =>
      intro s a t h
      cases h
      exact hT.unsubscribe s name (hE.owns _ nofun)
  | listenerNames => exact Run.along_bind hT (Run.along_get hT) fun _ => Run.along_pure hT _
  | publish event =>
      exact publish_along hE hT (fun _ => hE.owns _ nofun) fun _ _ => hE.owns _ nofun
  | settings => exact Run.along_bind hT (Run.along_get hT) fun _ => Run.along_pure hT _
  | setSetting key text =>
      intro s a t h
      cases h
      exact hT.quiet (.configure s _) rfl rfl
  | create typeName content => exact Run.along_create hT _ _
  | «recall» => exact Run.along_bind hT (Run.along_get hT) fun _ => Run.along_pure hT _
  | remember store =>
      intro s a t h
      cases h
      exact hT.quiet (.remember s store) rfl rfl

/-- Every engine of a depth keeps to a relation that bears the operations, and the requests for
    objects and walks of each engine that keeps to it. -/
theorem keepsWith_ofDepth (behaviour : Behaviour H) (facade : Facade)
    {own : Activity H → Prop} {R : State H → State H → Prop} (hT : Trail own R R)
    (hown : ∀ activity : Activity H, (∀ name d, activity ≠ .entered (.make name d)) → own activity)
    (hasked : ∀ depth, (ofDepth behaviour facade depth).KeepsWith R own →
      (∀ name, Attempt.Along R ((ofDepth behaviour facade depth).getOrBuild name)) ∧
        ∀ stage name object,
          Attempt.Along R ((ofDepth behaviour facade depth).walk stage name object))
    (depth : Nat) : (ofDepth behaviour facade depth).KeepsWith R own := by
  have hupdate : ∀ name d, own (.updated name d) := fun _ _ => hown _ nofun
  refine ⟨hT, ?_, hown⟩
  induction depth with
  | zero =>
      intro α shown program
      exact Prog.interpret_along hT hupdate (fun _ => exhausted_along) program
  | succ depth ih =>
      intro α shown program
      have hE : (ofDepth behaviour facade depth).KeepsWith R own := ⟨hT, ih, hown⟩
      rcases hasked depth hE with ⟨hget, hwalk⟩
      exact Prog.interpret_along hT hupdate
        (fun r => answer_along hE (fun name _ => hget name) hwalk shown r) program

/-- Every engine of a depth keeps to a relation that bears the operations, and the builds of each
    engine that keeps to it. -/
theorem keeps_ofDepth (behaviour : Behaviour H) (facade : Facade) {R : State H → State H → Prop}
    (hT : Trail Anything R R)
    (hB : ∀ depth, (ofDepth behaviour facade depth).Keeps R →
      (ofDepth behaviour facade depth).Builds Anything R) (depth : Nat) :
    (ofDepth behaviour facade depth).Keeps R :=
  keepsWith_ofDepth behaviour facade hT (fun _ _ => trivial) (fun depth hE =>
    ⟨fun name => asked_along hE (hB depth hE) name trivial,
      fun stage name object => (hB depth hE).walk stage name object trivial⟩) depth

end Engine

end ObjectBootstrap
