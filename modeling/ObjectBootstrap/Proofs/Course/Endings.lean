import ObjectBootstrap.Proofs.Course.Runs

/-!
# How attempts end

A relation that runs go along says the same of an attempt that succeeds and of one that ends in an
error. Some things are only true of the one or the other: an error that comes up is the last thing
that happens, for example, and so nothing can be said of what follows it, because nothing does. Here
are two relations, one for attempts that succeed and one for attempts that do not. They go together
if an attempt may fail behind any part that succeeds (`Endings`), and then the functions of an
engine are taken apart once and for all, down to the requests for hooks and the calls that a phase
makes.

## Main definitions

* `Attempt.Ends`: An attempt that succeeds keeps to one relation, and one that does not to another.
* `Endings`: Two relations that go together.

## Theorems

* `Engine.run_buildHook_cases`: How a hook is built.
* `Attempt.Ends.bind`: Attempts one behind the other.
* `Engine.mutationPhase_ends`, `Engine.customizationPhase_ends`,
  `Engine.installationPhase_ends`: The phases, if their parts do.
-/

namespace ObjectBootstrap

variable {H : Host} {α β : Type}

/-- An attempt that succeeds keeps to one relation, and one that ends in an error to another. -/
structure Attempt.Ends (good : State H → State H → Prop) (bad : State H → Error → State H → Prop)
    (attempt : Attempt H α) : Prop where
  well {s t : State H} {a : α} : attempt.run s = some (.ok a, t) → good s t
  badly {s t : State H} {e : Error} : attempt.run s = some (.error e, t) → bad s e t

/-- Two relations, of which the second one may begin wherever the first one leads. -/
structure Endings (good : State H → State H → Prop) (bad : State H → Error → State H → Prop) :
    Prop where
  rest (s : State H) : good s s
  followedBy {s t u : State H} : good s t → good t u → good s u
  refused (s : State H) (e : Error) : bad s e s
  failed {s t u : State H} {e : Error} : good s t → bad t e u → bad s e u

/-- A request for a hook fails, and the phase tells the error in its own way, or the object is there
    and it is seen whether it will do. -/
theorem Engine.run_buildHook_cases {E : Engine H} {shown : Facade} {phase : Phase} {c : Capability}
    {kind : FacetKind} {name : String} {s t : State H} {result : Except Error (Object H.Content)}
    (h : (E.buildHook shown phase c kind name).run s = some (result, t)) :
    (∃ cause, (E.getOrBuild name).run s = some (.error cause, t) ∧
      result = .error (cause.during name phase)) ∨
    ∃ object, (E.getOrBuild name).run s = some (.ok object, t) := by
  rcases Attempt.run_bind_eq_some_iff.1 h with ⟨_, herror, _⟩ | ⟨answer, u, hanswer, hrest⟩
  · rcases Attempt.run_step_eq_some_iff.1 herror with ⟨_, _, hcontra⟩
    cases hcontra
  have hfacet := Attempt.run_step_eq_ok_iff.1 hanswer
  -- Neither a look at the object nor what is told of it changes the state.
  have hend : t = u := by
    match answer with
    | .error e =>
      cases hrest
      rfl
    | .ok facet =>
      change
        ((if facet.kind = kind then _ else _ : Attempt H (Object H.Content))).run u = _ at hrest
      split at hrest
      · cases hrest
        rfl
      · cases hrest
        rfl
  subst hend
  rcases Attempt.run_bind_eq_some_iff.1 hfacet with ⟨cause, hrun, rfl⟩ | ⟨object, v, hrun, hlook⟩
  · cases hrest
    exact Or.inl ⟨cause, hrun, rfl⟩
  · refine Or.inr ⟨object, ?_⟩
    rcases Attempt.run_bind_eq_some_iff.1 hlook with ⟨_, herror, _⟩ | ⟨k, _, hcontainer, hview⟩
    · cases herror
    cases hcontainer
    split at hview
    · cases hview
      exact hrun
    · cases hview
      exact hrun

section Rules

variable {good : State H → State H → Prop} {bad : State H → Error → State H → Prop}
  (hR : Endings good bad)
include hR

namespace Attempt.Ends

theorem pure (a : α) : Ends good bad (Pure.pure a : Attempt H α) := by
  refine ⟨fun h => ?_, fun h => ?_⟩
  · cases h
    exact hR.rest _
  · cases h

theorem throw (e : Error) : Ends good bad (MonadExcept.throw e : Attempt H α) := by
  refine ⟨fun h => ?_, fun h => ?_⟩
  · cases h
  · cases h
    exact hR.refused _ _

omit hR in
theorem step {run : Run H α} (h : Run.Along good run) : Ends good bad (Attempt.step run) := by
  refine ⟨fun hrun => h _ _ _ (run_step_eq_ok_iff.1 hrun), fun hrun => ?_⟩
  rcases run_step_eq_some_iff.1 hrun with ⟨_, _, herror⟩
  cases herror

/-- Attempts one behind the other. -/
theorem bind {first : Attempt H α} {second : α → Attempt H β} (hfirst : Ends good bad first)
    (hsecond : ∀ a, Ends good bad (second a)) : Ends good bad (first >>= second) := by
  refine ⟨fun h => ?_, fun h => ?_⟩
  · rcases run_bind_eq_ok_iff.1 h with ⟨a, u, hrun, hrest⟩
    exact hR.followedBy (hfirst.well hrun) ((hsecond a).well hrest)
  · rcases run_bind_eq_some_iff.1 h with ⟨e, hrun, herror⟩ | ⟨a, u, hrun, hrest⟩
    · cases herror
      exact hfirst.badly hrun
    · exact hR.failed (hfirst.well hrun) ((hsecond a).badly hrest)

-- What an attempt answers does not matter.
theorem map {first : Attempt H α} (hfirst : Ends good bad first) (f : α → β) :
    Ends good bad (do return f (← first)) :=
  bind hR hfirst fun _ => pure hR _

theorem container : Ends good bad (Attempt.step Run.container : Attempt H (Container H)) := by
  refine step fun s k t h => ?_
  cases h
  exact hR.rest _

end Attempt.Ends

namespace Engine

open Attempt (Ends)

variable {E : Engine H} {facade : Facade} {config : Config}

theorem mutateEach_ends (hmutate : ∀ name hook, Ends good bad (E.mutate facade name hook)) :
    ∀ hooks : List (String × Object H.Content), Ends good bad (E.mutateEach facade hooks)
  | [] => .pure hR _
  | _ :: rest => .bind hR (hmutate _ _) fun _ => mutateEach_ends hmutate rest

theorem customizeEach_ends
    (hcustomize : ∀ name hook, Ends good bad (E.customize facade name hook)) :
    ∀ hooks : List (String × Object H.Content), Ends good bad (E.customizeEach facade hooks)
  | [] => .pure hR _
  | _ :: rest => .bind hR (hcustomize _ _) fun _ => customizeEach_ends hcustomize rest

theorem preInstantiateAll_ends (hget : ∀ name, Ends good bad (E.getOrBuild name)) :
    ∀ (names : List String) (count : Nat), Ends good bad (E.preInstantiateAll names count)
  | [], _ => .pure hR _
  | name :: rest, count => by
    refine .bind hR (.container hR) fun k => ?_
    split
    · exact .bind hR (hget name) fun _ => preInstantiateAll_ends hget rest _
    · exact preInstantiateAll_ends hget rest _

theorem preInstantiate_ends (hget : ∀ name, Ends good bad (E.getOrBuild name)) :
    Ends good bad E.preInstantiate :=
  .bind hR (.container hR) fun _ => preInstantiateAll_ends hR hget _ _

section Mutation

variable (hhook : ∀ name,
    Ends good bad (E.buildHook facade .registryMutation .mutatesRegistry .mutator name))
  (hmutate : ∀ name hook, Ends good bad (E.mutate facade name hook))
  (hsearch : ∀ query, Run.Along good (Run.namesFor query : Run H (List String)))
include hhook

theorem take_ends (pass : DiscoveryPass) : ∀ (names : List String) (processed : Processed),
    Ends good bad (E.take facade pass names processed)
  | [], _ => .pure hR _
  | name :: rest, processed => by
    unfold take
    split
    · exact take_ends pass rest processed
    · refine .bind hR (.container hR) fun k => ?_
      dsimp only
      split
      · refine .bind hR (hhook name) fun hook => ?_
        exact .bind hR (take_ends pass rest _) fun _ => .pure hR _
      · exact take_ends pass rest processed

include hmutate hsearch

theorem discover_ends (pass : DiscoveryPass) (progress : Progress H) :
    Ends good bad (E.discover facade config pass progress) := by
  refine .bind hR (.step (hsearch _)) fun names => ?_
  refine .bind hR (take_ends hR hhook pass names _) fun taken => ?_
  exact .bind hR (mutateEach_ends hR hmutate _) fun _ => .pure hR _

theorem reiterate_ends : ∀ (limit number : Nat) (progress : Progress H),
    Ends good bad (E.reiterate facade config limit number progress)
  | 0, _, _ => .step exhausted_along
  | limit + 1, number, progress => by
    refine .bind hR (discover_ends hR hhook hmutate hsearch _ progress) fun next => ?_
    split
    · exact .pure hR _
    · exact reiterate_ends limit _ _

theorem mutationPhase_ends
    (hcustomize : ∀ name hook, Ends good bad (E.customize facade name hook))
    (externals : List (ExternalHook H.Content)) :
    Ends good bad (E.mutationPhase facade config externals) := by
  have hdiscover : ∀ pass progress, Ends good bad (E.discover facade config pass progress) :=
    discover_ends hR hhook hmutate hsearch
  have hall : Ends good bad (E.mutateAll facade config externals) := by
    refine .bind hR (mutateEach_ends hR hmutate _) fun _ => ?_
    refine .bind hR (hdiscover _ _) fun _ => ?_
    refine .bind hR (hdiscover _ _) fun _ => ?_
    exact reiterate_ends hR hhook hmutate hsearch _ _ _
  refine .bind hR hall fun progress => ?_
  exact .bind hR (customizeEach_ends hR hcustomize _) fun _ => .pure hR _

end Mutation

section Tiers

variable {build : Candidate → Attempt H (Ranked α)}
  (hbuild : ∀ candidate, Ends good bad (build candidate))
include hbuild

theorem divide_ends : ∀ names : List String, Ends good bad (divide facade build names)
  | [] => .pure hR _
  | name :: rest => by
    have hrest := divide_ends rest
    refine .bind hR (.container hR) fun k => ?_
    dsimp only
    split
    · refine .bind hR (hbuild _) fun hook => ?_
      exact .bind hR hrest fun _ => .pure hR _
    · exact .bind hR hrest fun _ => .pure hR _
    · exact .bind hR hrest fun _ => .pure hR _

theorem buildEach_ends : ∀ candidates : List Candidate, Ends good bad (buildEach build candidates)
  | [] => .pure hR _
  | candidate :: rest =>
    .bind hR (hbuild candidate) fun _ => .bind hR (buildEach_ends rest) fun _ => .pure hR _

end Tiers

section Customization

variable (hhook : ∀ name,
    Ends good bad (E.buildHook facade .factoryCustomization .customizesFactory .customizer name))
  (hcustomize : ∀ name hook, Ends good bad (E.customize facade name hook))
  (hsearch : ∀ query, Run.Along good (Run.namesFor query : Run H (List String)))
  (hforget : Run.Along good (Run.modifyContainer Container.invalidate : Run H Unit))
include hhook hcustomize hsearch hforget

theorem customizationPhase_ends (processed : Processed) :
    Ends good bad (E.customizationPhase facade config processed) := by
  have hbuild : ∀ candidate, Ends good bad (E.buildCustomizer facade candidate) :=
    fun candidate => .bind hR (hhook candidate.1) fun _ => .pure hR _
  have htier : ∀ tier, Ends good bad (E.customizeTier facade tier) :=
    fun tier => .bind hR (customizeEach_ends hR hcustomize _) fun _ => .pure hR _
  have heach := buildEach_ends hR hbuild
  refine .bind hR (.step (hsearch _)) fun names => ?_
  refine .bind hR (divide_ends hR hbuild _) fun division => ?_
  refine .bind hR (htier _) fun _ => ?_
  refine .bind hR (heach _) fun _ => ?_
  refine .bind hR (htier _) fun _ => ?_
  refine .bind hR (heach _) fun _ => ?_
  refine .bind hR (htier _) fun _ => ?_
  exact .bind hR (.step hforget) fun _ => .pure hR _

end Customization

section Installation

variable (hhook : ∀ name, Ends good bad
    (E.buildHook facade .instanceHookRegistration .interceptsInstance .interceptor name))
  (hsearch : ∀ query, Run.Along good (Run.namesFor query : Run H (List String)))
  (hstation : ∀ target, Run.Along good (addSentinel target : Run H Nat))
  (hinstall : ∀ name (hook : Hook H.Content), Run.Along good (Run.install name hook))

include hinstall in
theorem installEach_ends :
    ∀ hooks : List (Ranked (Object H.Content × Bool)), Run.Along good (installEach hooks)
  | [] => by
    intro s a t h
    cases h
    exact hR.rest s
  | ranked :: rest => by
    intro s a t h
    rcases Run.bind_eq_some_iff.1 h with ⟨_, u, hfirst, hrest⟩
    exact hR.followedBy (hinstall _ _ _ _ _ hfirst) (installEach_ends rest _ _ _ hrest)

include hhook hsearch hstation hinstall

theorem installationPhase_ends : Ends good bad (E.installationPhase facade config) := by
  have hbuild : ∀ candidate, Ends good bad (E.buildMarked facade candidate) := by
    intro candidate
    refine .bind hR (.bind hR (hhook candidate.1) fun _ => .pure hR _) fun ranked => ?_
    exact .bind hR (.container hR) fun _ => .pure hR _
  have htier : ∀ hooks, Ends good bad (Attempt.step (installTier hooks)) :=
    fun hooks => .step (installEach_ends hR hinstall _)
  have heach := buildEach_ends hR hbuild
  refine .bind hR (.step (hsearch _)) fun names => ?_
  refine .bind hR (.container hR) fun k => ?_
  refine .bind hR (.step (hstation _)) fun number => ?_
  refine .bind hR (.step (hinstall _ _)) fun _ => ?_
  refine .bind hR (divide_ends hR hbuild _) fun division => ?_
  refine .bind hR (htier _) fun _ => ?_
  refine .bind hR (heach _) fun _ => ?_
  refine .bind hR (htier _) fun _ => ?_
  refine .bind hR (heach _) fun _ => ?_
  refine .bind hR (htier _) fun _ => ?_
  refine .bind hR (htier _) fun _ => ?_
  refine .bind hR (.step (hinstall _ _)) fun _ => ?_
  exact .bind hR (.container hR) fun _ => .pure hR _

end Installation

end Engine

end Rules

end ObjectBootstrap
