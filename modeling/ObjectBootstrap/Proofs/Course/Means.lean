import ObjectBootstrap.Proofs.Course.Runs

/-!
# Runs put together of programs

An engine is the behaviour of the embedding program along with the means to run its programs. The
functions of engines do not look at these means. They hand programs to them, and they put the runs
of programs together one behind the other, with runs in between that always return. So what holds
of these three kinds of run holds of every function of an engine, whatever it is that is said of how
a run depends on the means (`Compositional`).

The one exception is the repetition of passes in registry mutation, which the means bound. It is
left out here, and with it the phase.

## Main definitions

* `Means`: The means to run programs.
* `Run.Total`: A run that has a result in every state.
* `Compositional`: A property of runs that depend on the means, kept when runs are put together.

## Theorems

* `Compositional.attempt`: Attempts one behind the other.
* `Engine.construct_composed`, `Engine.getOrBuild_composed`, and so on: One lemma for each function.
-/

namespace ObjectBootstrap

variable {H : Host} {α β : Type}

/-- The means to run programs, with the number of reiterations that registry mutation may take. -/
structure Means (H : Host) where
  limit : Nat
  run : {α : Type} → Facade → Prog H α → Run H α

/-- The engine that has some means. -/
def Means.engine (m : Means H) (behaviour : Behaviour H) (facade : Facade) : Engine H :=
  ⟨behaviour, facade, m.limit, m.run⟩

/-- A run has a result in every state. -/
def Run.Total (run : Run H α) : Prop := ∀ s, ∃ r, run s = some r

theorem Run.total_pure (a : α) : Run.Total (pure a : Run H α) := fun _ => ⟨_, rfl⟩

theorem Run.total_modifyGet (f : State H → α × State H) :
    Run.Total (modifyGet f : Run H α) := fun _ => ⟨_, rfl⟩

theorem Run.Total.bind {first : Run H α} {next : α → Run H β} (hfirst : first.Total)
    (hnext : ∀ a, (next a).Total) : Run.Total (first >>= next) := by
  intro s
  rcases hfirst s with ⟨⟨a, t⟩, ha⟩
  rcases hnext a t with ⟨r, hr⟩
  exact ⟨r, (congrArg (fun r => r.bind fun r => next r.1 r.2) ha).trans hr⟩

theorem Attempt.total_changeContainer (f : Container H → Except Error (Container H)) :
    Run.Total (Attempt.changeContainer f).run := by
  intro s
  rw [Attempt.run_changeContainer_apply]
  cases f s.container <;> exact ⟨_, rfl⟩

theorem Attempt.total_register (d : Definition H.Factory) :
    Run.Total (Attempt.register d).run := by
  intro s
  rw [Attempt.run_register_apply]
  cases s.container.register d <;> exact ⟨_, rfl⟩

theorem Engine.installTier_total (hooks : List (Ranked (Object H.Content × Bool))) :
    Run.Total (installTier hooks) := by
  unfold installTier
  induction sortRanked hooks with
  | nil => exact Run.total_pure _
  | cons ranked rest ih => exact Run.Total.bind (fun _ => ⟨_, rfl⟩) fun _ => ih

/-- A property of runs that depend on the means. It holds of runs that return whatever the means are
    and of the runs of programs, and it is kept when runs are put together. -/
structure Compositional (C : {α : Type} → (Means H → Run H α) → Prop) : Prop where
  fixed {α : Type} {run : Run H α} : run.Total → C fun _ => run
  bind {α β : Type} {first : Means H → Run H α} {next : α → Means H → Run H β} :
    C first → (∀ a, C (next a)) → C fun m => first m >>= fun a => next a m
  program {α : Type} (shown : Facade) (p : Prog H α) : C fun m => m.run shown p

namespace Compositional

variable {C : {α : Type} → (Means H → Run H α) → Prop} (hC : Compositional C)
include hC

theorem pure (a : α) : C fun _ => (Pure.pure a : Run H α) := hC.fixed (Run.total_pure a)

theorem modifyGet (f : State H → α × State H) : C fun _ => (MonadState.modifyGet f : Run H α) :=
  hC.fixed (Run.total_modifyGet f)

/-- Attempts one behind the other: an error passes by what follows. -/
theorem attempt {first : Means H → Attempt H α} {next : α → Means H → Attempt H β}
    (hfirst : C fun m => (first m).run) (hnext : ∀ a, C fun m => (next a m).run) :
    C fun m => (first m >>= fun a => next a m).run := by
  simp only [ExceptT.run_bind]
  refine hC.bind hfirst fun result => ?_
  match result with
  | .error e => exact hC.pure _
  | .ok a => exact hnext a

theorem step {run : Means H → Run H α} (h : C run) : C fun m => (Attempt.step (run m)).run :=
  hC.bind h fun _ => hC.pure _

theorem container : C fun _ => (Attempt.step Run.container : Attempt H (Container H)).run :=
  hC.step (hC.fixed fun _ => ⟨_, rfl⟩)

end Compositional

namespace Engine

variable {C : {α : Type} → (Means H → Run H α) → Prop} (hC : Compositional C)
  {behaviour : Behaviour H} {facade : Facade}
include hC

theorem enter_composed (point : EntryPoint H) {call : Means H → Run H (Except Failure α)}
    (hcall : C call) : C fun m => enter point (call m) := by
  refine hC.bind (hC.modifyGet _) fun _ => ?_
  refine hC.bind hcall fun result => ?_
  exact hC.bind (hC.modifyGet _) fun _ => hC.pure _

theorem intercept_composed (stage : Stage) (entry : ChainEntry H.Content) (name : String)
    (object : Object H.Content) :
    C fun m => (m.engine behaviour facade).intercept stage entry name object := by
  refine enter_composed hC _ ?_
  rcases entry with ⟨_, ⟨_, _, content⟩ | number | _⟩
  · cases content with
    | hosted content =>
        refine hC.bind (hC.program facade (behaviour.intercept stage content object name))
          fun answer => ?_
        match answer with
        | .error source => exact hC.pure _
        | .ok (some next) => exact hC.pure _
        | .ok none => exact hC.bind (hC.modifyGet _) fun _ => hC.pure _
    | placeholderConfigurer => exact hC.pure _
  · cases stage with
    | before => exact hC.pure _
    | after => exact hC.bind (hC.modifyGet _) fun _ => hC.pure _
  · cases stage with
    | before => exact hC.pure _
    | after =>
        have hdetect : C fun _ => detectListener facade name object := hC.fixed fun _ => ⟨_, rfl⟩
        exact hC.bind hdetect fun _ => hC.pure _

theorem walkThrough_composed (stage : Stage) (name : String) :
    ∀ (entries : List (ChainEntry H.Content)) (object : Object H.Content),
      C fun m => ((m.engine behaviour facade).walkThrough stage name entries object).run := by
  intro entries
  induction entries with
  | nil => exact fun object => hC.pure _
  | cons entry rest ih =>
      intro object
      refine hC.attempt (hC.step (intercept_composed hC stage entry name object)) fun answer => ?_
      match answer with
      | .error source => exact hC.pure _
      | .ok none => exact hC.pure _
      | .ok (some next) => exact ih next

theorem walk_composed (stage : Stage) (name : String) (object : Object H.Content) :
    C fun m => ((m.engine behaviour facade).walk stage name object).run := by
  refine hC.attempt hC.container fun k => ?_
  refine hC.attempt (hC.step (hC.modifyGet _)) fun _ => ?_
  exact walkThrough_composed hC stage name _ object

theorem mergeThrough_composed (name : String) :
    ∀ (entries : List (ChainEntry H.Content)) (d : Definition H.Factory),
      C fun m => ((m.engine behaviour facade).mergeThrough name entries d).run := by
  intro entries
  induction entries with
  | nil => exact fun d => hC.pure _
  | cons entry rest ih =>
      intro d
      have hmerge : C fun m => (m.engine behaviour facade).merge entry name d := by
        refine enter_composed hC _ ?_
        rcases entry with ⟨_, ⟨_, _, content⟩ | number | _⟩
        · cases content with
          | hosted content => exact hC.program facade (behaviour.merge content name d)
          | placeholderConfigurer => exact hC.pure _
        · exact hC.pure _
        · exact hC.pure _
      refine hC.attempt (hC.step hmerge) fun answer => ?_
      match answer with
      | .error source => exact hC.pure _
      | .ok edited => exact ih _

theorem make_composed (name : String) (d : Definition H.Factory) :
    C fun m => (m.engine behaviour facade).make name d := by
  refine enter_composed hC _ ?_
  cases d.maker with
  | placeholderConfigurer => exact hC.bind (hC.modifyGet _) fun _ => hC.pure _
  | hosted factory =>
      refine hC.bind (hC.program .direct (behaviour.make factory d)) fun answer => ?_
      match answer with
      | .error failure => exact hC.pure _
      | .ok content => exact hC.bind (hC.modifyGet _) fun _ => hC.pure _

theorem construct_composed (name : String) (d : Definition H.Factory) :
    C fun m => ((m.engine behaviour facade).construct name d).run := by
  refine hC.attempt hC.container fun k => ?_
  refine hC.attempt (mergeThrough_composed hC name _ d) fun copy => ?_
  refine hC.attempt (hC.step (make_composed hC name copy)) fun answer => ?_
  match answer with
  | .error failure => exact hC.pure _
  | .ok object =>
    refine hC.attempt (hC.step (hC.modifyGet _)) fun _ => ?_
    refine hC.attempt (hC.step (hC.modifyGet _)) fun _ => ?_
    refine hC.attempt (walk_composed hC .before name object) fun object => ?_
    exact hC.attempt (walk_composed hC .after name object) fun _ => hC.pure _

theorem build_composed (name : String) (d : Definition H.Factory) :
    C fun m => ((m.engine behaviour facade).build name d).run := by
  refine hC.attempt (hC.fixed (Attempt.total_changeContainer _)) fun _ => ?_
  refine hC.attempt (hC.step (construct_composed hC name d)) fun built => ?_
  refine hC.attempt (hC.step (hC.modifyGet _)) fun _ => ?_
  refine hC.attempt (hC.pure built) fun b => ?_
  cases b.copy.isSingleton with
  | false => exact hC.pure _
  | true => exact hC.attempt (hC.step (hC.modifyGet _)) fun _ => hC.pure _

theorem obtain_composed (name : String) :
    C fun m => ((m.engine behaviour facade).obtain name).run := by
  refine hC.attempt hC.container fun k => ?_
  cases k.singletons.get? name with
  | some object => exact hC.pure _
  | none =>
      refine hC.attempt (hC.pure (k.definition name)) fun d => ?_
      cases d.isAbstract with
      | true => exact hC.attempt (hC.pure _) fun _ => build_composed hC _ _
      | false => exact build_composed hC name d

theorem getOrBuild_composed (name : String) :
    C fun m => ((m.engine behaviour facade).getOrBuild name).run := by
  refine hC.bind (hC.modifyGet _) fun _ => ?_
  refine hC.bind (obtain_composed hC name) fun answer => ?_
  exact hC.bind (hC.modifyGet _) fun _ => hC.pure _

theorem buildHook_composed (shown : Facade) (phase : Phase) (c : Capability) (kind : FacetKind)
    (name : String) :
    C fun m => ((m.engine behaviour facade).buildHook shown phase c kind name).run := by
  have hfacet : C fun m => ((m.engine behaviour facade).buildFacet shown name c).run := by
    refine hC.attempt (getOrBuild_composed hC name) fun object => ?_
    refine hC.attempt hC.container fun k => ?_
    cases shown.facet? k name object c with
    | some facet => exact hC.pure _
    | none => exact hC.pure _
  refine hC.attempt (hC.step hfacet) fun answer => ?_
  match answer with
  | .error e => exact hC.pure _
  | .ok facet =>
    change C fun _ => (if facet.kind = kind then _ else _ : Attempt H (Object H.Content)).run
    by_cases hkind : facet.kind = kind
    · rw [if_pos hkind]
      exact hC.pure _
    · rw [if_neg hkind]
      exact hC.pure _

theorem preInstantiate_composed : C fun m => (m.engine behaviour facade).preInstantiate.run := by
  have hall : ∀ (names : List String) (count : Nat),
      C fun m => ((m.engine behaviour facade).preInstantiateAll names count).run := by
    intro names
    induction names with
    | nil => exact fun count => hC.pure _
    | cons name rest ih =>
        intro count
        refine hC.attempt hC.container fun k => ?_
        cases (k.definitions.get? name).any Definition.isEager && !k.containsSingleton name with
        | true => exact hC.attempt (getOrBuild_composed hC name) fun _ => ih _
        | false => exact ih _
  exact hC.attempt hC.container fun k => hall _ _

theorem take_composed (shown : Facade) (pass : DiscoveryPass) :
    ∀ (names : List String) (processed : Processed),
      C fun m => ((m.engine behaviour facade).take shown pass names processed).run := by
  intro names
  induction names with
  | nil => exact fun processed => hC.pure _
  | cons name rest ih =>
      intro processed
      unfold take
      cases processed.contains name with
      | true => exact ih processed
      | false =>
          refine hC.attempt hC.container fun k => ?_
          cases hadmits : pass.admits (shown.classify k name).tier with
          | true =>
              simp only [hadmits]
              refine hC.attempt (buildHook_composed hC shown _ _ _ name) fun hook => ?_
              exact hC.attempt (ih _) fun _ => hC.pure _
          | false =>
              simp only [hadmits]
              exact ih processed

theorem mutateEach_composed (shown : Facade) : ∀ hooks : List (String × Object H.Content),
    C fun m => ((m.engine behaviour facade).mutateEach shown hooks).run := by
  intro hooks
  induction hooks with
  | nil => exact hC.pure _
  | cons entry rest ih =>
      rcases entry with ⟨name, _, _, substance⟩
      refine hC.attempt ?_ fun _ => ih
      refine hC.attempt (hC.step (enter_composed hC _ ?_)) fun answer => ?_
      · cases substance with
        | hosted content => exact hC.program shown (behaviour.mutate content)
        | placeholderConfigurer => exact hC.pure _
      · match answer with
        | .ok () => exact hC.pure _
        | .error source => exact hC.pure _

theorem customizeEach_composed (shown : Facade) : ∀ hooks : List (String × Object H.Content),
    C fun m => ((m.engine behaviour facade).customizeEach shown hooks).run := by
  intro hooks
  induction hooks with
  | nil => exact hC.pure _
  | cons entry rest ih =>
      rcases entry with ⟨name, _, _, substance⟩
      refine hC.attempt ?_ fun _ => ih
      refine hC.attempt (hC.step (enter_composed hC _ ?_)) fun answer => ?_
      · cases substance with
        | hosted content => exact hC.program shown (behaviour.customize content)
        | placeholderConfigurer => exact hC.program shown Placeholder.customizeDefinitions
      · match answer with
        | .ok () => exact hC.pure _
        | .error source => exact hC.pure _

theorem discover_composed (shown : Facade) (config : Config) (pass : DiscoveryPass)
    (progress : Progress H) :
    C fun m => ((m.engine behaviour facade).discover shown config pass progress).run := by
  refine hC.attempt (hC.step (hC.modifyGet _)) fun names => ?_
  refine hC.attempt (take_composed hC shown pass _ _) fun taken => ?_
  exact hC.attempt (mutateEach_composed hC shown _) fun _ => hC.pure _

theorem publish_composed (event : Event) :
    C fun m => (m.engine behaviour facade).publish event := by
  have hall : ∀ listeners : List (String × Object H.Content),
      C fun m => (m.engine behaviour facade).notifyAll event listeners := by
    intro listeners
    induction listeners with
    | nil => exact hC.pure _
    | cons entry rest ih =>
        rcases entry with ⟨name, _, _, substance⟩
        refine hC.bind (enter_composed hC _ ?_) fun _ => ih
        cases substance with
        | hosted content =>
            exact hC.bind (hC.program facade (behaviour.notify content event)) fun _ => hC.pure _
        | placeholderConfigurer => exact hC.pure _
  refine hC.bind (hC.fixed fun s => ⟨(s, s), rfl⟩) fun s => ?_
  refine hC.bind (hC.modifyGet _) fun _ => ?_
  exact hC.bind (hall _) fun _ => hC.pure _

theorem divide_composed {shown : Facade} {build : Means H → Candidate → Attempt H (Ranked α)}
    (hbuild : ∀ candidate, C fun m => (build m candidate).run) :
    ∀ names : List String, C fun m => (divide shown (build m) names).run := by
  intro names
  induction names with
  | nil => exact hC.pure _
  | cons name rest ih =>
      refine hC.attempt hC.container fun k => ?_
      have hrest : ∀ f : Division α → Division α,
          C fun m => (do return f (← divide shown (build m) rest) : Attempt H _).run :=
        fun f => hC.attempt ih fun _ => hC.pure _
      cases htier : (shown.classify k name).tier with
      | highest =>
          simp only [htier]
          exact hC.attempt (hbuild _) fun hook => hrest _
      | ordered =>
          simp only [htier]
          exact hrest _
      | plain =>
          simp only [htier]
          exact hrest _

theorem buildEach_composed {build : Means H → Candidate → Attempt H (Ranked α)}
    (hbuild : ∀ candidate, C fun m => (build m candidate).run) :
    ∀ candidates : List Candidate, C fun m => (buildEach (build m) candidates).run := by
  intro candidates
  induction candidates with
  | nil => exact hC.pure _
  | cons candidate rest ih =>
      refine hC.attempt (hbuild candidate) fun hook => ?_
      exact hC.attempt ih fun _ => hC.pure _

theorem customizationPhase_composed (shown : Facade) (config : Config) (processed : Processed) :
    C fun m => ((m.engine behaviour facade).customizationPhase shown config processed).run := by
  have hbuild : ∀ candidate,
      C fun m => ((m.engine behaviour facade).buildCustomizer shown candidate).run :=
    fun candidate => hC.attempt (buildHook_composed hC shown _ _ _ _) fun _ => hC.pure _
  have htier : ∀ tier, C fun m => ((m.engine behaviour facade).customizeTier shown tier).run :=
    fun tier => hC.attempt (customizeEach_composed hC shown _) fun _ => hC.pure _
  refine hC.attempt (hC.step (hC.modifyGet _)) fun names => ?_
  refine hC.attempt (divide_composed hC hbuild _) fun division => ?_
  refine hC.attempt (htier _) fun _ => ?_
  refine hC.attempt (buildEach_composed hC hbuild _) fun _ => ?_
  refine hC.attempt (htier _) fun _ => ?_
  refine hC.attempt (buildEach_composed hC hbuild _) fun _ => ?_
  refine hC.attempt (htier _) fun _ => ?_
  exact hC.attempt (hC.step (hC.modifyGet _)) fun _ => hC.pure _

theorem installationPhase_composed (shown : Facade) (config : Config) :
    C fun m => ((m.engine behaviour facade).installationPhase shown config).run := by
  have hbuild : ∀ candidate,
      C fun m => ((m.engine behaviour facade).buildMarked shown candidate).run := by
    intro candidate
    refine hC.attempt ?_ fun ranked => ?_
    · exact hC.attempt (buildHook_composed hC shown _ _ _ _) fun _ => hC.pure _
    · exact hC.attempt hC.container fun _ => hC.pure _
  have hinstall : ∀ name hook, C fun _ => (Attempt.step (Run.install name hook)).run :=
    fun name hook => hC.step (hC.fixed fun _ => ⟨_, rfl⟩)
  have htier : ∀ hooks, C fun _ => (Attempt.step (installTier hooks)).run :=
    fun hooks => hC.step (hC.fixed (installTier_total hooks))
  refine hC.attempt (hC.step (hC.modifyGet _)) fun names => ?_
  refine hC.attempt hC.container fun k => ?_
  refine hC.attempt (hC.step (hC.modifyGet _)) fun number => ?_
  refine hC.attempt (hinstall _ _) fun _ => ?_
  refine hC.attempt (divide_composed hC hbuild _) fun division => ?_
  refine hC.attempt (htier _) fun _ => ?_
  refine hC.attempt (buildEach_composed hC hbuild _) fun _ => ?_
  refine hC.attempt (htier _) fun _ => ?_
  refine hC.attempt (buildEach_composed hC hbuild _) fun _ => ?_
  refine hC.attempt (htier _) fun _ => ?_
  refine hC.attempt (htier _) fun _ => ?_
  refine hC.attempt (hinstall _ _) fun _ => ?_
  exact hC.attempt hC.container fun _ => hC.pure _

/-- Requests are answered by runs that are put together, if registry mutation is one. -/
theorem answer_composed (shown : Facade)
    (hmutation : ∀ config externals,
      C fun m => ((m.engine behaviour facade).mutationPhase shown config externals).run)
    (r : Request H α) : C fun m => (m.engine behaviour facade).answer shown r := by
  cases r with
  | namesFor query => exact hC.modifyGet _
  | typeMatch name c => exact hC.fixed fun _ => ⟨_, rfl⟩
  | placement name => exact hC.fixed fun _ => ⟨_, rfl⟩
  | getOrBuild name => exact getOrBuild_composed hC name
  | facet name object c => exact hC.fixed fun _ => ⟨_, rfl⟩
  | definition name => exact hC.fixed fun _ => ⟨_, rfl⟩
  | contains name => exact hC.fixed fun _ => ⟨_, rfl⟩
  | definitionNames => exact hC.fixed fun _ => ⟨_, rfl⟩
  | register d => exact hC.fixed (Attempt.total_register d)
  | install name hook => exact hC.fixed fun _ => ⟨_, rfl⟩
  | installedNames => exact hC.fixed fun _ => ⟨_, rfl⟩
  | invalidate => exact hC.fixed fun _ => ⟨_, rfl⟩
  | containsSingleton name => exact hC.fixed fun _ => ⟨_, rfl⟩
  | preInstantiate => exact preInstantiate_composed hC
  | walk stage name object => exact walk_composed hC stage name object
  | mutationPhase config externals => exact hmutation config externals
  | customizationPhase config processed =>
      exact customizationPhase_composed hC shown config processed
  | installationPhase config => exact installationPhase_composed hC facade config
  | sentinel number => exact hC.fixed fun _ => ⟨_, rfl⟩
  | isPremature target name => exact hC.fixed fun _ => ⟨_, rfl⟩
  | detectListener name object =>
      have hdetect : C fun _ => detectListener facade name object := hC.fixed fun _ => ⟨_, rfl⟩
      exact hdetect
  | addListener name listener => exact hC.modifyGet _
  | removeListener name => exact hC.fixed fun _ => ⟨_, rfl⟩
  | listenerNames => exact hC.fixed fun _ => ⟨_, rfl⟩
  | publish event => exact publish_composed hC event
  | settings => exact hC.fixed fun _ => ⟨_, rfl⟩
  | setSetting key text => exact hC.modifyGet _
  | create typeName content => exact hC.modifyGet _
  | «recall» => exact hC.fixed fun _ => ⟨_, rfl⟩
  | remember store => exact hC.modifyGet _

end Engine

end ObjectBootstrap
