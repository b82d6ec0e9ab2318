import ObjectBootstrap.Proofs.Course.Runs

/-!
# Runs under watch

What hooks and factories see lies in the middle of other operations: a build has begun, an edit is
not stored yet, a phase has called half of its hooks. A statement about the results of runs says
nothing about these states. So the engine of this module looks at each of them. It runs programs as
the engine of its depth does, and before it answers any request it looks at the state; a state that
does not pass the test ends the run without a result. This goes for the programs that are run on
behalf of a request as well, down to the last depth.

A property is *lasting* when no single change takes it away. Operations only move by single changes,
and a build that has begun is one of them, so a lasting property holds in the middle of things too.
The watching engine then runs everything as the engine that does not look.

That the two engines agree is shown from the inside to the outside, one lemma for each function that
runs programs. What matters of such a function is only that it hands the state on from part to part.

## Main definitions

* `Change`: A single change of the state.
* `Lasting`: A property that no change takes away.
* `Run.Agrees`: Two runs that do the same where a property holds, and keep it.
* `Engine.watched`: The engine that looks at each state in which a program asks for something.

## Theorems

* `Run.agrees_bind`, `Attempt.agrees_bind`: The rule for runs that are put together.
* `Prog.interpret_agrees`: A program is run alike if its requests are answered alike.
* `Engine.watched_agrees`: Watching for a lasting property changes nothing.
-/

namespace ObjectBootstrap

variable {H : Host} {α β : Type}

/-- A single change of the state. Operations are made of such changes, and a program may be at work
    between any two of them. -/
inductive Change : State H → State H → Prop
  | quiet {s t : State H} : Quiet s t → Change s t
  | note (s : State H) {activity : Activity H} (hstored : activity.stored? = none) :
    Change s (s.note activity)
  | register {s : State H} {d : Definition H.Factory} {k : Container H}
    (hk : s.container.register d = .ok k) :
    Change s ((s.withContainer k).note (.registered d))
  /-- An edited definition is stored under a name that is registered. -/
  | update {s : State H} {name : String} (d : Definition H.Factory)
    (hname : s.container.contains name = true) :
    Change s ((s.withContainer (s.container.writeBack name d)).note (.updated name d))
  | install (s : State H) (name : String) (hook : Hook H.Content) :
    Change s (s.withContainer (s.container.install name hook))
  | beginCreation {s : State H} {name : String} {k : Container H}
    (hk : s.container.beginCreation name = .ok k) : Change s (s.withContainer k)
  /-- A listener is unsubscribed, if there is one of that name. -/
  | unsubscribe (s : State H) (name : String) :
    Change s { s with listeners := s.listeners.erase name }
  | keepTarget (s : State H) (name : String) (object : Object H.Content) :
    Change s (s.withContainer (s.container.keepTarget name object))
  | settle (s : State H) (name : String) (built : Option (Object H.Content)) (singleton : Bool) :
    Change s
      (s.withContainer ((s.container.endCreation name).settleTarget name built singleton))
  | keepSingleton (s : State H) (name : String) (object : Object H.Content) :
    Change s (s.withContainer (s.container.keepSingleton name object))

/-- A property that no change takes away. -/
def Lasting (P : State H → Prop) : Prop := ∀ s t, Change s t → P s → P t

/-- Two runs do the same in a state, and a property holds where they end. -/
def Run.AgreesAt (P : State H → Prop) (s : State H) (run run' : Run H α) : Prop :=
  run s = run' s ∧ ∀ a t, run s = some (a, t) → P t

/-- Two runs do the same where a property holds, and it holds where they end again. -/
def Run.Agrees (P : State H → Prop) (run run' : Run H α) : Prop :=
  ∀ s, P s → Run.AgreesAt P s run run'

/-- Two attempts do the same where a property holds, whether they succeed or not. -/
def Attempt.Agrees (P : State H → Prop) (attempt attempt' : Attempt H α) : Prop :=
  Run.Agrees P attempt.run attempt'.run

variable {P : State H → Prop}

namespace Run

theorem agrees_pure (a : α) : Run.Agrees P (pure a : Run H α) (pure a) := by
  intro s hs
  refine ⟨rfl, ?_⟩
  intro b t h
  rcases Run.pure_eq_some_iff.1 h with ⟨_, rfl⟩
  exact hs

-- The second part starts where the first one ended.
theorem AgreesAt.bind {s : State H} {run run' : Run H α} {next next' : α → Run H β}
    (hrun : Run.AgreesAt P s run run')
    (hnext : ∀ a t, run s = some (a, t) → Run.AgreesAt P t (next a) (next' a)) :
    Run.AgreesAt P s (run >>= next) (run' >>= next') := by
  change (run s).bind (fun r => next r.1 r.2) = (run' s).bind (fun r => next' r.1 r.2) ∧
    ∀ b t, (run s).bind (fun r => next r.1 r.2) = some (b, t) → P t
  rw [← hrun.1]
  cases hfirst : run s with
  | none =>
      refine ⟨rfl, ?_⟩
      intro b t h
      cases h
  | some r => exact hnext r.1 r.2 hfirst

theorem agrees_bind {run run' : Run H α} {next next' : α → Run H β}
    (hrun : Run.Agrees P run run') (hnext : ∀ a, Run.Agrees P (next a) (next' a)) :
    Run.Agrees P (run >>= next) (run' >>= next') :=
  fun s hs => (hrun s hs).bind fun a t h => hnext a t ((hrun s hs).2 a t h)

theorem agrees_exhausted : Run.Agrees P (Run.exhausted : Run H α) Run.exhausted := by
  intro s hs
  refine ⟨rfl, ?_⟩
  intro a t h
  cases h

theorem agrees_get : Run.Agrees P (get : Run H (State H)) get := by
  intro s hs
  refine ⟨rfl, ?_⟩
  intro a t h
  cases h
  exact hs

theorem agrees_container :
    Run.Agrees P (Run.container : Run H (Container H)) Run.container :=
  agrees_bind agrees_get fun _ => agrees_pure _

theorem agrees_look (f : Container H → α) :
    Run.Agrees P (do return f (← Run.container) : Run H α) (do return f (← Run.container)) :=
  agrees_bind agrees_container fun _ => agrees_pure _

theorem agrees_modifyGet {f : State H → α × State H} (h : ∀ s, P s → P (f s).2) :
    Run.Agrees P (modifyGet f : Run H α) (modifyGet f) := by
  intro s hs
  refine ⟨rfl, ?_⟩
  intro a t hrun
  have hf : f s = (a, t) := Option.some.inj hrun
  have hkept := h s hs
  rwa [hf] at hkept

theorem agrees_modify {f : State H → State H} (h : ∀ s, P s → P (f s)) :
    Run.Agrees P (modify f : Run H Unit) (modify f) :=
  agrees_modifyGet h

end Run

namespace Attempt

theorem agrees_pure (a : α) : Attempt.Agrees P (pure a : Attempt H α) (pure a) :=
  Run.agrees_pure _

theorem agrees_throw (e : Error) : Attempt.Agrees P (throw e : Attempt H α) (throw e) :=
  Run.agrees_pure _

theorem agrees_ofExcept (result : Except Error α) :
    Attempt.Agrees P (Attempt.ofExcept result : Attempt H α) (Attempt.ofExcept result) :=
  Run.agrees_pure _

theorem agrees_bind {first first' : Attempt H α} {second second' : α → Attempt H β}
    (hfirst : Attempt.Agrees P first first')
    (hsecond : ∀ a, Attempt.Agrees P (second a) (second' a)) :
    Attempt.Agrees P (first >>= second) (first' >>= second') := by
  unfold Attempt.Agrees
  rw [ExceptT.run_bind, ExceptT.run_bind]
  refine Run.agrees_bind hfirst fun result => ?_
  match result with
  | .error e => exact Run.agrees_pure _
  | .ok a => exact hsecond a

theorem agrees_step {run run' : Run H α} (h : Run.Agrees P run run') :
    Attempt.Agrees P (Attempt.step run) (Attempt.step run') :=
  Run.agrees_bind h fun _ => Run.agrees_pure _

theorem agrees_container :
    Attempt.Agrees P (Attempt.step Run.container : Attempt H (Container H))
      (Attempt.step Run.container) :=
  agrees_step Run.agrees_container

end Attempt

section Changes

variable (hP : Lasting P)
include hP

namespace Run

theorem agrees_change {f : State H → State H} (h : ∀ s, Change s (f s)) :
    Run.Agrees P (modify f : Run H Unit) (modify f) :=
  agrees_modify fun s => hP s _ (h s)

theorem agrees_record {activity : Activity H} (hstored : activity.stored? = none) :
    Run.Agrees P (Run.record activity) (Run.record activity) :=
  agrees_change hP fun s => .note s hstored

theorem agrees_namesFor (query : CapabilityQuery) :
    Run.Agrees P (Run.namesFor query : Run H (List String)) (Run.namesFor query) :=
  agrees_modifyGet fun s => hP s _ (.quiet (.search s query))

theorem agrees_create (typeName : String) (substance : Substance H.Content) :
    Run.Agrees P (Run.create typeName substance) (Run.create typeName substance) :=
  agrees_modifyGet fun s => hP s _ (.quiet (.create s))

theorem agrees_invalidate :
    Run.Agrees P (Run.modifyContainer Container.invalidate : Run H Unit)
      (Run.modifyContainer Container.invalidate) :=
  agrees_change hP fun s => .quiet (.invalidate s)

theorem agrees_install (name : String) (hook : Hook H.Content) :
    Run.Agrees P (Run.install name hook) (Run.install name hook) :=
  agrees_bind (agrees_change hP fun s => .install s name hook) fun _ => agrees_record hP rfl

end Run

theorem Attempt.agrees_register (d : Definition H.Factory) :
    Attempt.Agrees P (Attempt.register d) (Attempt.register d) := by
  intro s hs
  refine ⟨rfl, ?_⟩
  intro result t h
  rw [Attempt.run_register_apply] at h
  cases hk : s.container.register d with
  | error e =>
      rw [hk] at h
      cases h
      exact hs
  | ok k =>
      rw [hk] at h
      cases h
      exact hP s _ (.register hk) hs

-- A build that is refused changes nothing.
theorem Attempt.agrees_beginCreation (name : String) :
    Attempt.Agrees P (Attempt.changeContainer fun k : Container H => k.beginCreation name)
      (Attempt.changeContainer fun k => k.beginCreation name) := by
  intro s hs
  refine ⟨rfl, ?_⟩
  intro result t h
  rw [Attempt.run_changeContainer_apply] at h
  cases hk : s.container.beginCreation name with
  | error e =>
      simp only [hk] at h
      cases h
      exact hs
  | ok k =>
      simp only [hk] at h
      cases h
      exact hP s _ (.beginCreation hk) hs

end Changes

namespace Engine

/-- An engine with another way to run programs. -/
def withRun (E : Engine H) (run : {α : Type} → Facade → Prog H α → Run H α) : Engine H :=
  { E with run }

theorem enter_agrees (hP : Lasting P) (point : EntryPoint H)
    {call call' : Run H (Except Failure α)} (hcall : Run.Agrees P call call') :
    Run.Agrees P (enter point call) (enter point call') := by
  refine Run.agrees_bind (Run.agrees_record hP rfl) fun _ => ?_
  refine Run.agrees_bind hcall fun result => ?_
  exact Run.agrees_bind (Run.agrees_record hP rfl) fun _ => Run.agrees_pure _

theorem detectListener_agrees (hP : Lasting P) (facade : Facade) (name : String)
    (object : Object H.Content) :
    Run.Agrees P (detectListener facade name object) (detectListener facade name object) := by
  refine Run.agrees_modify fun s hs => ?_
  split
  · split
    · exact hP s _ (.quiet (.subscribe s name _)) hs
    · exact hs
  · exact hs

theorem divide_agrees {facade : Facade} {build build' : Candidate → Attempt H (Ranked α)}
    (hbuild : ∀ candidate, Attempt.Agrees P (build candidate) (build' candidate)) :
    ∀ names : List String,
      Attempt.Agrees P (divide facade build names) (divide facade build' names) := by
  intro names
  induction names with
  | nil => exact Attempt.agrees_pure _
  | cons name rest ih =>
      refine Attempt.agrees_bind Attempt.agrees_container fun k => ?_
      have hrest : ∀ f : Division α → Division α,
          Attempt.Agrees P (do return f (← divide facade build rest))
            (do return f (← divide facade build' rest)) :=
        fun f => Attempt.agrees_bind ih fun _ => Attempt.agrees_pure _
      cases htier : (facade.classify k name).tier with
      | highest =>
          simp only [htier]
          exact Attempt.agrees_bind (hbuild _) fun hook => hrest _
      | ordered =>
          simp only [htier]
          exact hrest _
      | plain =>
          simp only [htier]
          exact hrest _

theorem buildEach_agrees {build build' : Candidate → Attempt H (Ranked α)}
    (hbuild : ∀ candidate, Attempt.Agrees P (build candidate) (build' candidate)) :
    ∀ candidates : List Candidate,
      Attempt.Agrees P (buildEach build candidates) (buildEach build' candidates) := by
  intro candidates
  induction candidates with
  | nil => exact Attempt.agrees_pure _
  | cons candidate rest ih =>
      refine Attempt.agrees_bind (hbuild candidate) fun hook => ?_
      exact Attempt.agrees_bind ih fun _ => Attempt.agrees_pure _

theorem addSentinel_agrees (hP : Lasting P) (target : Nat) :
    Run.Agrees P (addSentinel target : Run H Nat) (addSentinel target) :=
  Run.agrees_modifyGet fun s => hP s _ (.quiet (.station s target))

theorem installTier_agrees (hP : Lasting P) (hooks : List (Ranked (Object H.Content × Bool))) :
    Attempt.Agrees P (Attempt.step (installTier hooks)) (Attempt.step (installTier hooks)) := by
  refine Attempt.agrees_step ?_
  unfold installTier
  induction sortRanked hooks with
  | nil => exact Run.agrees_pure _
  | cons ranked rest ih =>
      exact Run.agrees_bind (Run.agrees_install hP ranked.name _) fun _ => ih

section Functions

variable {E : Engine H} {run' : {α : Type} → Facade → Prog H α → Run H α} (hP : Lasting P)
  (hrun : ∀ {α : Type} (shown : Facade) (program : Prog H α),
    Run.Agrees P (E.run shown program) (run' shown program))
include hP hrun

theorem intercept_agrees (stage : Stage) (entry : ChainEntry H.Content) (name : String)
    (object : Object H.Content) :
    Run.Agrees P (E.intercept stage entry name object)
      ((E.withRun run').intercept stage entry name object) := by
  refine enter_agrees hP _ ?_
  rcases entry with ⟨_, ⟨_, _, content⟩ | number | _⟩
  · cases content with
    | hosted content =>
        refine Run.agrees_bind (hrun _ _) fun answer => ?_
        match answer with
        | .error source => exact Run.agrees_pure _
        | .ok (some next) => exact Run.agrees_pure _
        | .ok none => exact Run.agrees_bind (Run.agrees_record hP rfl) fun _ => Run.agrees_pure _
    | placeholderConfigurer => exact Run.agrees_pure _
  · cases stage with
    | before => exact Run.agrees_pure _
    | after =>
        exact Run.agrees_bind (Run.agrees_change hP fun s => .quiet (.watch s number name))
          fun _ => Run.agrees_pure _
  · cases stage with
    | before => exact Run.agrees_pure _
    | after =>
        exact Run.agrees_bind (detectListener_agrees hP _ name object) fun _ => Run.agrees_pure _

theorem walkThrough_agrees (stage : Stage) (name : String) :
    ∀ (entries : List (ChainEntry H.Content)) (object : Object H.Content),
      Attempt.Agrees P (E.walkThrough stage name entries object)
        ((E.withRun run').walkThrough stage name entries object) := by
  intro entries
  induction entries with
  | nil =>
      intro object
      exact Attempt.agrees_pure _
  | cons entry rest ih =>
      intro object
      refine Attempt.agrees_bind
        (Attempt.agrees_step (intercept_agrees hP hrun stage entry name object)) fun answer => ?_
      match answer with
      | .error source => exact Attempt.agrees_throw _
      | .ok none => exact Attempt.agrees_pure _
      | .ok (some next) => exact ih next

theorem walk_agrees (stage : Stage) (name : String) (object : Object H.Content) :
    Attempt.Agrees P (E.walk stage name object) ((E.withRun run').walk stage name object) := by
  refine Attempt.agrees_bind Attempt.agrees_container fun k => ?_
  refine Attempt.agrees_bind (Attempt.agrees_step (Run.agrees_record hP rfl)) fun _ => ?_
  exact walkThrough_agrees hP hrun stage name _ object

theorem mergeThrough_agrees (name : String) :
    ∀ (entries : List (ChainEntry H.Content)) (d : Definition H.Factory),
      Attempt.Agrees P (E.mergeThrough name entries d)
        ((E.withRun run').mergeThrough name entries d) := by
  intro entries
  induction entries with
  | nil =>
      intro d
      exact Attempt.agrees_pure _
  | cons entry rest ih =>
      intro d
      have hmerge : Run.Agrees P (E.merge entry name d)
          ((E.withRun run').merge entry name d) := by
        refine enter_agrees hP _ ?_
        rcases entry with ⟨_, ⟨_, _, content⟩ | number | _⟩
        · cases content with
          | hosted content => exact hrun _ _
          | placeholderConfigurer => exact Run.agrees_pure _
        · exact Run.agrees_pure _
        · exact Run.agrees_pure _
      refine Attempt.agrees_bind (Attempt.agrees_step hmerge) fun answer => ?_
      match answer with
      | .error source => exact Attempt.agrees_throw _
      | .ok edited => exact ih _

theorem make_agrees (name : String) (d : Definition H.Factory) :
    Run.Agrees P (E.make name d) ((E.withRun run').make name d) := by
  refine enter_agrees hP _ ?_
  cases d.maker with
  | placeholderConfigurer =>
      exact Run.agrees_bind (Run.agrees_create hP _ _) fun _ => Run.agrees_pure _
  | hosted factory =>
      refine Run.agrees_bind (hrun _ _) fun answer => ?_
      match answer with
      | .error failure => exact Run.agrees_pure _
      | .ok content =>
        exact Run.agrees_bind (Run.agrees_create hP _ _) fun _ => Run.agrees_pure _

theorem construct_agrees (name : String) (d : Definition H.Factory) :
    Attempt.Agrees P (E.construct name d) ((E.withRun run').construct name d) := by
  refine Attempt.agrees_bind Attempt.agrees_container fun k => ?_
  refine Attempt.agrees_bind (mergeThrough_agrees hP hrun name _ d) fun copy => ?_
  refine Attempt.agrees_bind (Attempt.agrees_step (make_agrees hP hrun name copy)) fun answer => ?_
  match answer with
  | .error failure => exact Attempt.agrees_throw _
  | .ok object =>
    refine Attempt.agrees_bind (Attempt.agrees_step (Run.agrees_record hP rfl)) fun _ => ?_
    refine Attempt.agrees_bind (Attempt.agrees_step
      (Run.agrees_change hP fun s => .keepTarget s name object)) fun _ => ?_
    refine Attempt.agrees_bind (walk_agrees hP hrun .before name object) fun object => ?_
    exact Attempt.agrees_bind (walk_agrees hP hrun .after name object) fun _ =>
      Attempt.agrees_pure _

theorem build_agrees (name : String) (d : Definition H.Factory) :
    Attempt.Agrees P (E.build name d) ((E.withRun run').build name d) := by
  refine Attempt.agrees_bind (Attempt.agrees_beginCreation hP name) fun _ => ?_
  refine Attempt.agrees_bind (Attempt.agrees_step (construct_agrees hP hrun name d))
    fun built => ?_
  refine Attempt.agrees_bind (Attempt.agrees_step
    (Run.agrees_change hP fun s => .settle s name _ _)) fun _ => ?_
  refine Attempt.agrees_bind (Attempt.agrees_ofExcept built) fun b => ?_
  cases b.copy.isSingleton with
  | false => exact Attempt.agrees_pure _
  | true =>
      exact Attempt.agrees_bind (Attempt.agrees_step
        (Run.agrees_change hP fun s => .keepSingleton s name b.object)) fun _ =>
          Attempt.agrees_pure _

theorem obtain_agrees (name : String) :
    Attempt.Agrees P (E.obtain name) ((E.withRun run').obtain name) := by
  refine Attempt.agrees_bind Attempt.agrees_container fun k => ?_
  cases k.singletons.get? name with
  | some object => exact Attempt.agrees_pure _
  | none =>
      refine Attempt.agrees_bind (Attempt.agrees_ofExcept _) fun d => ?_
      cases d.isAbstract with
      | true => exact Attempt.agrees_bind (Attempt.agrees_throw _) fun _ => build_agrees hP hrun _ _
      | false => exact build_agrees hP hrun name d

theorem getOrBuild_agrees (name : String) :
    Attempt.Agrees P (E.getOrBuild name) ((E.withRun run').getOrBuild name) := by
  refine Run.agrees_bind (Run.agrees_record hP rfl) fun _ => ?_
  refine Run.agrees_bind (obtain_agrees hP hrun name) fun answer => ?_
  exact Run.agrees_bind (Run.agrees_record hP rfl) fun _ => Run.agrees_pure _

theorem buildHook_agrees (facade : Facade) (phase : Phase) (c : Capability) (kind : FacetKind)
    (name : String) :
    Attempt.Agrees P (E.buildHook facade phase c kind name)
      ((E.withRun run').buildHook facade phase c kind name) := by
  have hfacet : Attempt.Agrees P (E.buildFacet facade name c)
      ((E.withRun run').buildFacet facade name c) := by
    refine Attempt.agrees_bind (getOrBuild_agrees hP hrun name) fun object => ?_
    refine Attempt.agrees_bind Attempt.agrees_container fun k => ?_
    cases facade.facet? k name object c with
    | some facet => exact Attempt.agrees_pure _
    | none => exact Attempt.agrees_throw _
  refine Attempt.agrees_bind (Attempt.agrees_step hfacet) fun answer => ?_
  match answer with
  | .error e => exact Attempt.agrees_throw _
  | .ok facet =>
    change Attempt.Agrees P (if facet.kind = kind then _ else _)
      (if facet.kind = kind then _ else _)
    by_cases hkind : facet.kind = kind
    · rw [if_pos hkind]
      exact Attempt.agrees_pure _
    · rw [if_neg hkind]
      exact Attempt.agrees_throw _

theorem preInstantiate_agrees :
    Attempt.Agrees P E.preInstantiate (E.withRun run').preInstantiate := by
  have hall : ∀ (names : List String) (count : Nat),
      Attempt.Agrees P (E.preInstantiateAll names count)
        ((E.withRun run').preInstantiateAll names count) := by
    intro names
    induction names with
    | nil =>
        intro count
        exact Attempt.agrees_pure _
    | cons name rest ih =>
        intro count
        refine Attempt.agrees_bind Attempt.agrees_container fun k => ?_
        cases (k.definitions.get? name).any Definition.isEager && !k.containsSingleton name with
        | true => exact Attempt.agrees_bind (getOrBuild_agrees hP hrun name) fun _ => ih _
        | false => exact ih _
  exact Attempt.agrees_bind Attempt.agrees_container fun k => hall _ _

theorem take_agrees (facade : Facade) (pass : DiscoveryPass) :
    ∀ (names : List String) (processed : Processed),
      Attempt.Agrees P (E.take facade pass names processed)
        ((E.withRun run').take facade pass names processed) := by
  intro names
  induction names with
  | nil =>
      intro processed
      exact Attempt.agrees_pure _
  | cons name rest ih =>
      intro processed
      unfold take
      cases processed.contains name with
      | true => exact ih processed
      | false =>
          refine Attempt.agrees_bind Attempt.agrees_container fun k => ?_
          cases hadmits : pass.admits (facade.classify k name).tier with
          | true =>
              simp only [hadmits]
              refine Attempt.agrees_bind (buildHook_agrees hP hrun facade _ _ _ name)
                fun hook => ?_
              exact Attempt.agrees_bind (ih _) fun _ => Attempt.agrees_pure _
          | false =>
              simp only [hadmits]
              exact ih processed

theorem mutateEach_agrees (facade : Facade) : ∀ hooks : List (String × Object H.Content),
    Attempt.Agrees P (E.mutateEach facade hooks) ((E.withRun run').mutateEach facade hooks) := by
  intro hooks
  induction hooks with
  | nil => exact Attempt.agrees_pure _
  | cons entry rest ih =>
      rcases entry with ⟨name, _, _, substance⟩
      refine Attempt.agrees_bind ?_ fun _ => ih
      refine Attempt.agrees_bind (Attempt.agrees_step (enter_agrees hP _ ?_)) fun answer => ?_
      · cases substance with
        | hosted content => exact hrun _ _
        | placeholderConfigurer => exact Run.agrees_pure _
      · match answer with
        | .ok () => exact Attempt.agrees_pure _
        | .error source => exact Attempt.agrees_throw _

theorem customizeEach_agrees (facade : Facade) : ∀ hooks : List (String × Object H.Content),
    Attempt.Agrees P (E.customizeEach facade hooks)
      ((E.withRun run').customizeEach facade hooks) := by
  intro hooks
  induction hooks with
  | nil => exact Attempt.agrees_pure _
  | cons entry rest ih =>
      rcases entry with ⟨name, _, _, substance⟩
      refine Attempt.agrees_bind ?_ fun _ => ih
      refine Attempt.agrees_bind (Attempt.agrees_step (enter_agrees hP _ ?_)) fun answer => ?_
      · cases substance with
        | hosted content => exact hrun _ _
        | placeholderConfigurer => exact hrun _ _
      · match answer with
        | .ok () => exact Attempt.agrees_pure _
        | .error source => exact Attempt.agrees_throw _

theorem publish_agrees (event : Event) :
    Run.Agrees P (E.publish event) ((E.withRun run').publish event) := by
  have hall : ∀ listeners : List (String × Object H.Content),
      Run.Agrees P (E.notifyAll event listeners)
        ((E.withRun run').notifyAll event listeners) := by
    intro listeners
    induction listeners with
    | nil => exact Run.agrees_pure _
    | cons entry rest ih =>
        rcases entry with ⟨name, _, _, substance⟩
        refine Run.agrees_bind (enter_agrees hP _ ?_) fun _ => ih
        cases substance with
        | hosted content => exact Run.agrees_bind (hrun _ _) fun _ => Run.agrees_pure _
        | placeholderConfigurer => exact Run.agrees_pure _
  refine Run.agrees_bind Run.agrees_get fun s => ?_
  refine Run.agrees_bind (Run.agrees_record hP rfl) fun _ => ?_
  exact Run.agrees_bind (hall _) fun _ => Run.agrees_pure _

theorem discover_agrees (facade : Facade) (config : Config) (pass : DiscoveryPass)
    (progress : Progress H) :
    Attempt.Agrees P (E.discover facade config pass progress)
      ((E.withRun run').discover facade config pass progress) := by
  refine Attempt.agrees_bind (Attempt.agrees_step (Run.agrees_namesFor hP _)) fun names => ?_
  refine Attempt.agrees_bind (take_agrees hP hrun facade pass _ _) fun taken => ?_
  exact Attempt.agrees_bind (mutateEach_agrees hP hrun facade _) fun _ => Attempt.agrees_pure _

theorem mutationPhase_agrees (facade : Facade) (config : Config)
    (externals : List (ExternalHook H.Content)) :
    Attempt.Agrees P (E.mutationPhase facade config externals)
      ((E.withRun run').mutationPhase facade config externals) := by
  have hreiterate : ∀ (limit number : Nat) (progress : Progress H),
      Attempt.Agrees P (E.reiterate facade config limit number progress)
        ((E.withRun run').reiterate facade config limit number progress) := by
    intro limit
    induction limit with
    | zero =>
        intro number progress
        exact Attempt.agrees_step Run.agrees_exhausted
    | succ limit ih =>
        intro number progress
        refine Attempt.agrees_bind (discover_agrees hP hrun facade config _ progress)
          fun next => ?_
        by_cases hlast : next.mutators.length = progress.mutators.length
        · rw [if_pos hlast, if_pos hlast]
          exact Attempt.agrees_pure _
        · rw [if_neg hlast, if_neg hlast]
          exact ih _ _
  refine Attempt.agrees_bind ?_ fun progress => ?_
  · refine Attempt.agrees_bind (mutateEach_agrees hP hrun facade _) fun _ => ?_
    refine Attempt.agrees_bind (discover_agrees hP hrun facade config _ _) fun _ => ?_
    refine Attempt.agrees_bind (discover_agrees hP hrun facade config _ _) fun _ => ?_
    exact hreiterate _ _ _
  · exact Attempt.agrees_bind (customizeEach_agrees hP hrun facade _) fun _ =>
      Attempt.agrees_pure _

theorem customizationPhase_agrees (facade : Facade) (config : Config) (processed : Processed) :
    Attempt.Agrees P (E.customizationPhase facade config processed)
      ((E.withRun run').customizationPhase facade config processed) := by
  have hbuild : ∀ candidate, Attempt.Agrees P (E.buildCustomizer facade candidate)
      ((E.withRun run').buildCustomizer facade candidate) :=
    fun candidate => Attempt.agrees_bind (buildHook_agrees hP hrun facade _ _ _ _) fun _ =>
      Attempt.agrees_pure _
  have htier : ∀ tier, Attempt.Agrees P (E.customizeTier facade tier)
      ((E.withRun run').customizeTier facade tier) :=
    fun tier => Attempt.agrees_bind (customizeEach_agrees hP hrun facade _) fun _ =>
      Attempt.agrees_pure _
  refine Attempt.agrees_bind (Attempt.agrees_step (Run.agrees_namesFor hP _)) fun names => ?_
  refine Attempt.agrees_bind (divide_agrees hbuild _) fun division => ?_
  refine Attempt.agrees_bind (htier _) fun _ => ?_
  refine Attempt.agrees_bind (buildEach_agrees hbuild _) fun _ => ?_
  refine Attempt.agrees_bind (htier _) fun _ => ?_
  refine Attempt.agrees_bind (buildEach_agrees hbuild _) fun _ => ?_
  refine Attempt.agrees_bind (htier _) fun _ => ?_
  exact Attempt.agrees_bind (Attempt.agrees_step (Run.agrees_invalidate hP)) fun _ =>
    Attempt.agrees_pure _

theorem installationPhase_agrees (facade : Facade) (config : Config) :
    Attempt.Agrees P (E.installationPhase facade config)
      ((E.withRun run').installationPhase facade config) := by
  have hbuild : ∀ candidate, Attempt.Agrees P (E.buildMarked facade candidate)
      ((E.withRun run').buildMarked facade candidate) := by
    intro candidate
    refine Attempt.agrees_bind ?_ fun ranked => ?_
    · exact Attempt.agrees_bind (buildHook_agrees hP hrun facade _ _ _ _) fun _ =>
        Attempt.agrees_pure _
    · exact Attempt.agrees_bind Attempt.agrees_container fun _ => Attempt.agrees_pure _
  have hinstall : ∀ name hook, Attempt.Agrees P (Attempt.step (Run.install name hook))
      (Attempt.step (Run.install name hook)) :=
    fun name hook => Attempt.agrees_step (Run.agrees_install hP name hook)
  refine Attempt.agrees_bind (Attempt.agrees_step (Run.agrees_namesFor hP _)) fun names => ?_
  refine Attempt.agrees_bind Attempt.agrees_container fun k => ?_
  refine Attempt.agrees_bind (Attempt.agrees_step (addSentinel_agrees hP _)) fun number => ?_
  refine Attempt.agrees_bind (hinstall _ _) fun _ => ?_
  refine Attempt.agrees_bind (divide_agrees hbuild _) fun division => ?_
  refine Attempt.agrees_bind (installTier_agrees hP _) fun _ => ?_
  refine Attempt.agrees_bind (buildEach_agrees hbuild _) fun _ => ?_
  refine Attempt.agrees_bind (installTier_agrees hP _) fun _ => ?_
  refine Attempt.agrees_bind (buildEach_agrees hbuild _) fun _ => ?_
  refine Attempt.agrees_bind (installTier_agrees hP _) fun _ => ?_
  refine Attempt.agrees_bind (installTier_agrees hP _) fun _ => ?_
  refine Attempt.agrees_bind (hinstall _ _) fun _ => ?_
  exact Attempt.agrees_bind Attempt.agrees_container fun _ => Attempt.agrees_pure _

/-- Requests are answered alike by engines that run programs alike. -/
theorem answer_agrees (shown : Facade) (r : Request H α) :
    Run.Agrees P (E.answer shown r) ((E.withRun run').answer shown r) := by
  cases r with
  | namesFor query => exact Run.agrees_namesFor hP query
  | typeMatch name c => exact Run.agrees_look _
  | placement name => exact Run.agrees_look _
  | getOrBuild name => exact getOrBuild_agrees hP hrun name
  | facet name object c => exact Run.agrees_look _
  | definition name => exact Run.agrees_look _
  | contains name => exact Run.agrees_look _
  | definitionNames => exact Run.agrees_look _
  | register d => exact Attempt.agrees_register hP d
  | install name hook => exact Run.agrees_install hP _ _
  | installedNames => exact Run.agrees_look _
  | invalidate => exact Run.agrees_invalidate hP
  | containsSingleton name => exact Run.agrees_look _
  | preInstantiate => exact preInstantiate_agrees hP hrun
  | walk stage name object => exact walk_agrees hP hrun stage name object
  | mutationPhase config externals =>
      exact mutationPhase_agrees hP hrun shown config externals
  | customizationPhase config processed =>
      exact customizationPhase_agrees hP hrun shown config processed
  | installationPhase config => exact installationPhase_agrees hP hrun E.facade config
  | sentinel number => exact Run.agrees_bind Run.agrees_get fun _ => Run.agrees_pure _
  | isPremature target name => exact Run.agrees_look _
  | detectListener name object => exact detectListener_agrees hP E.facade name object
  | addListener name listener =>
      exact Run.agrees_change hP fun s => .quiet (.subscribe s name listener)
  | removeListener name =>
      refine Run.agrees_bind (Run.agrees_modifyGet fun s => hP s _ (.unsubscribe s name))
        fun found => ?_
      exact Run.agrees_bind (Run.agrees_record hP rfl) fun _ => Run.agrees_pure _
  | listenerNames => exact Run.agrees_bind Run.agrees_get fun _ => Run.agrees_pure _
  | publish event => exact publish_agrees hP hrun event
  | settings => exact Run.agrees_bind Run.agrees_get fun _ => Run.agrees_pure _
  | setSetting key text => exact Run.agrees_change hP fun s => .quiet (.configure s _)
  | create typeName content => exact Run.agrees_create hP _ _
  | «recall» => exact Run.agrees_bind Run.agrees_get fun _ => Run.agrees_pure _
  | remember store => exact Run.agrees_change hP fun s => .quiet (.remember s store)

end Functions

end Engine

/-- A program is run alike if its requests are answered alike. -/
theorem Prog.interpret_agrees (hP : Lasting P)
    {answer answer' : {γ : Type} → Request H γ → Run H γ}
    (hanswer : ∀ {γ : Type} (r : Request H γ), Run.Agrees P (answer r) (answer' r))
    (hfollows : ∀ {γ : Type} (r : Request H γ), Run.Follows Anything (answer r))
    (p : Prog H α) : Run.Agrees P (p.interpret answer) (p.interpret answer') := by
  induction p with
  | done result => exact Run.agrees_pure result
  | ask request next ih => exact Run.agrees_bind (hanswer request) ih
  | update name edit next ihedit ih =>
      intro s hs
      rw [Prog.interpret, Prog.interpret]
      refine (Run.agrees_container s hs).bind fun k t hk => ?_
      cases hk
      cases hd : s.container.definition name with
      | error e => exact ih (.error e) s hs
      | ok d =>
          refine (ihedit d s hs).bind fun edited u hedit => ?_
          -- The name is still registered when the edit is done, whatever the edit asked for.
          have hname : u.container.contains name = true :=
            (Prog.interpret_follows hfollows (edit d) s edited u hedit).contains_kept
              (Option.isSome_of_eq_some (Container.definitions_of_ok hd))
          have hstored := hP u _ (.update edited.2 hname) ((ihedit d s hs).2 edited u hedit)
          exact ih (.ok edited.1) _ hstored

namespace Engine

/-- The engine of a depth that looks at each state in which a program asks for something, whether
    the program was called from outside or by another one. A state that does not pass the test ends
    the run without a result. -/
def watched (test : State H → Prop) [DecidablePred test] (behaviour : Behaviour H)
    (facade : Facade) : Nat → Engine H
  | 0 => ofDepth behaviour facade 0
  | depth + 1 =>
    (ofDepth behaviour facade (depth + 1)).withRun fun shown program =>
      program.interpret fun request s =>
        if test s then (watched test behaviour facade depth).answer shown request s else none

variable {test : State H → Prop} [DecidablePred test]

-- The engines of a depth differ at most in how they run programs.
theorem watched_eq_withRun (behaviour : Behaviour H) (facade : Facade) (depth : Nat) :
    watched test behaviour facade depth
      = (ofDepth behaviour facade depth).withRun (watched test behaviour facade depth).run := by
  cases depth <;> rfl

/-- Where a lasting property holds that passes the test, watching changes nothing. -/
theorem watched_agrees (hP : Lasting P) (htest : ∀ s, P s → test s) (behaviour : Behaviour H)
    (facade : Facade) : ∀ (depth : Nat) {α : Type} (shown : Facade) (program : Prog H α),
      Run.Agrees P ((ofDepth behaviour facade depth).run shown program)
        ((watched test behaviour facade depth).run shown program) := by
  intro depth
  induction depth with
  | zero =>
      intro α shown program
      exact Prog.interpret_agrees hP (fun _ => Run.agrees_exhausted)
        (fun _ => exhausted_along) program
  | succ depth ih =>
      intro α shown program
      refine Prog.interpret_agrees hP (fun request s hs => ?_)
        (fun request => answer_follows (lawful_ofDepth behaviour facade depth) shown request)
        program
      have hanswer := answer_agrees hP ih shown request s hs
      rw [← watched_eq_withRun] at hanswer
      exact ⟨hanswer.1.trans (if_pos (htest s hs)).symm, hanswer.2⟩

end Engine

end ObjectBootstrap
