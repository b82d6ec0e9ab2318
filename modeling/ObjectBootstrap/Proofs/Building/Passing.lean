import ObjectBootstrap.Proofs.Building.Dependencies
import ObjectBootstrap.Proofs.Course.Runs

/-!
# Wired containers

A container is wired when its factories ask for what they depend on and for nothing else, and when
its hooks pass on the objects that they are handed. Factories and hooks may keep books all the same:
create objects of their own, and remember something from one call to the next.

What such hooks do can be told without looking at them. A walk through a wired chain ends with the
object it began with. The container stays as it is, and all that is written down are calls of hooks.
`Passing` is the relation between the states in front of such a walk and behind it. The same goes
for the calls in which hooks edit the copy of a definition, except that nothing is known of the
edits.

## Main definitions

* `Prog.Answers`: A program that keeps to itself, and answers something good.
* `Prog.Resolves`: A program that asks for the objects of some names in turn, and passes on errors.
* `Wired`: The factories of a container resolve their dependencies, and its hooks pass objects on.
* `Passing`: What remains of a state when objects pass through hooks.

## Theorems

* `Prog.Answers.run`: A program that keeps to itself comes to its answer.
* `Engine.walk_passes`, `Engine.mergeThrough_passes`: Walks through wired chains come to their ends.
* `Engine.construct_passes`: The steps of a build in front of the factory and behind it.
-/

namespace ObjectBootstrap

variable {H : Host} {α β : Type}

/-- A request that neither looks at the registry nor changes it. -/
def Request.IsPrivate : {β : Type} → Request H β → Prop
  | _, .create _ _ => True
  | _, .recall => True
  | _, .remember _ => True
  | _, _ => False

/-- A program that keeps to itself, and answers something good whatever it is told. -/
inductive Prog.Answers (good : α → Prop) : Prog H α → Prop
  | done {result : α} : good result → Prog.Answers good (.done result)
  | ask {β : Type} {request : Request H β} {next : β → Prog H α} : request.IsPrivate →
    (∀ reply, Prog.Answers good (next reply)) → Prog.Answers good (.ask request next)

/-- A program that asks for the objects of some names in turn, passes on the first error, and
    succeeds if there is none. In between it may keep books. -/
inductive Prog.Resolves : List String → Prog H (Except Failure α) → Prop
  | done (result : α) : Prog.Resolves [] (.done (.ok result))
  | ask {β : Type} {names : List String} {request : Request H β}
    {next : β → Prog H (Except Failure α)} : request.IsPrivate →
    (∀ reply, Prog.Resolves names (next reply)) → Prog.Resolves names (.ask request next)
  | resolve {name : String} {names : List String}
    {next : Except Error (Object H.Content) → Prog H (Except Failure α)} :
    (∀ object, Prog.Resolves names (next (.ok object))) →
    (∀ e, (next (.error e)).Answers fun result =>
      ∃ failure, result = .error failure ∧ failure.error? = some e) →
    Prog.Resolves (name :: names) (.ask (.getOrBuild name) next)

/-- A hook that passes on the objects that it is handed. It may edit the details of copies of
    definitions. -/
def Hook.PassesOn (behaviour : Behaviour H) : Hook H.Content → Prop
  | .object ⟨_, _, .hosted content⟩ =>
    (∀ name d, (behaviour.merge content name d).Answers fun result =>
      ∃ copy, result = .ok copy ∧ d.EditedTo copy) ∧
      ∀ stage object name,
        (behaviour.intercept stage content object name).Answers (· = .ok (some object))
  | _ => True

/-- The factories of a container ask for what they depend on, and its hooks pass objects on. -/
structure Wired (behaviour : Behaviour H) (deps : String → List String) (k : Container H) :
    Prop where
  /-- Whatever details the copy has that the factory is called with. -/
  resolves : ∀ name d copy, k.definitions.get? name = some d → d.EditedTo copy →
    match copy.maker with
    | .hosted factory => (behaviour.make factory copy).Resolves (deps name)
    | .placeholderConfigurer => deps name = []
  passes : ∀ entry ∈ k.chain.entries, entry.hook.PassesOn behaviour

-- To be wired is a matter of definitions and hooks.
theorem Wired.congr {behaviour : Behaviour H} {deps : String → List String} {k k' : Container H}
    (hk : Wired behaviour deps k) (hdefinitions : k'.definitions = k.definitions)
    (hchain : k'.chain = k.chain) : Wired behaviour deps k' := by
  refine ⟨?_, ?_⟩
  · rw [hdefinitions]
    exact hk.resolves
  · rw [hchain]
    exact hk.passes

/-- The name for which an entry tells a factory to be called, or to be done. -/
def Activity.factory? : Activity H → Option String
  | .entered (.make name _) => some name
  | .left (.make name _) _ => some name
  | _ => none

/-- What remains of a state when objects pass through hooks: the container is the same, and no
    factory was called. -/
structure Passing (s t : State H) : Prop where
  container_eq : t.container = s.container
  log_suffix : s.log <:+ t.log
  no_factory : ∀ activity ∈ since s t, activity.factory? = none

namespace Passing

variable {s t u : State H}

theorem of_eq (hcontainer : t.container = s.container) (hlog : t.log = s.log) : Passing s t := by
  refine ⟨hcontainer, hlog ▸ List.suffix_rfl, ?_⟩
  rw [since_of_log (show t.log = [] ++ s.log from hlog)]
  intro activity h
  exact absurd h List.not_mem_nil

theorem refl (s : State H) : Passing s s := of_eq rfl rfl

theorem trans (h1 : Passing s t) (h2 : Passing t u) : Passing s u := by
  refine ⟨h2.container_eq.trans h1.container_eq, h1.log_suffix.trans h2.log_suffix, ?_⟩
  intro activity h
  rw [since_append h1.log_suffix h2.log_suffix, List.mem_append] at h
  exact h.elim (h1.no_factory activity) (h2.no_factory activity)

theorem note (h : Passing s t) {activity : Activity H} (hactivity : activity.factory? = none) :
    Passing s (t.note activity) := by
  refine ⟨h.container_eq, h.log_suffix.trans (List.suffix_cons _ _), ?_⟩
  intro a ha
  rw [since_note h.log_suffix, List.mem_append, List.mem_singleton] at ha
  rcases ha with ha | rfl
  · exact h.no_factory a ha
  · exact hactivity

end Passing

-- A private request is answered at once.
theorem Request.IsPrivate.answer {r : Request H β} (hr : r.IsPrivate) (E : Engine H)
    (shown : Facade) (s : State H) :
    ∃ reply t, E.answer shown r s = some (reply, t) ∧ t.container = s.container ∧
      t.log = s.log := by
  cases r with
  | create typeName content => exact ⟨_, _, rfl, rfl, rfl⟩
  | «recall» => exact ⟨_, _, rfl, rfl, rfl⟩
  | remember store => exact ⟨_, _, rfl, rfl, rfl⟩
  | _ => exact hr.elim

/-- A program that keeps to itself comes to a good answer, and leaves the registry alone. -/
theorem Prog.Answers.run {good : α → Prop} {p : Prog H α} (hp : p.Answers good) (E : Engine H)
    (shown : Facade) :
    ∀ s, ∃ result t, p.interpret (E.answer shown) s = some (result, t) ∧ good result ∧
      t.container = s.container ∧ t.log = s.log := by
  induction hp with
  | done hgood =>
      intro s
      exact ⟨_, s, rfl, hgood, rfl, rfl⟩
  | ask hrequest _ ih =>
      intro s
      rcases hrequest.answer E shown s with ⟨reply, u, hanswer, hcontainer, hlog⟩
      rcases ih reply u with ⟨result, t, hrun, hgood, hcontainer', hlog'⟩
      exact ⟨result, t, Run.bind_eq_some_iff.2 ⟨reply, u, hanswer, hrun⟩, hgood,
        hcontainer'.trans hcontainer, hlog'.trans hlog⟩

namespace Engine

variable {E : Engine H}

/-- An engine that answers requests. -/
def Answering (E : Engine H) : Prop :=
  ∃ below : Engine H, ∀ {α : Type} (shown : Facade) (program : Prog H α),
    E.run shown program = program.interpret (below.answer shown)

-- A call of a hook in which nothing more than that happens.
theorem enter_passes {point : EntryPoint H} (hpoint : ∀ name d, point ≠ .make name d)
    {call : Run H (Except Failure α)} {result : Except Failure α} {s u : State H}
    (hcall : call (s.note (.entered point)) = some (result, u))
    (hpass : Passing (s.note (.entered point)) u) :
    ∃ t, enter point call s = some (result, t) ∧ Passing s t := by
  have hentered : (Activity.entered point).factory? = none := by
    cases point with
    | make name d => exact absurd rfl (hpoint name d)
    | _ => rfl
  have hleft : (Activity.left point (failure? result)).factory? = none := by
    cases point with
    | make name d => exact absurd rfl (hpoint name d)
    | _ => rfl
  exact ⟨_, run_enter_eq_some_iff.2 ⟨u, hcall, rfl⟩,
    (((Passing.refl s).note hentered).trans hpass).note hleft⟩

-- The listener detector changes at most who is subscribed.
theorem detectListener_passes (facade : Facade) (name : String) (object : Object H.Content)
    (s : State H) : ∃ t, detectListener facade name object s = some ((), t) ∧ Passing s t := by
  refine ⟨_, rfl, ?_⟩
  dsimp only
  split
  · split
    · exact .of_eq rfl rfl
    · exact .refl s
  · exact .refl s

section Walks

variable (hE : E.Answering)
include hE

-- A program that keeps to itself is run to its answer.
theorem run_passes {good : α → Prop} {p : Prog H α} (hp : p.Answers good) (shown : Facade)
    (s : State H) : ∃ result t, E.run shown p s = some (result, t) ∧ good result ∧ Passing s t := by
  rcases hE with ⟨below, hbelow⟩
  rcases hp.run below shown s with ⟨result, t, hrun, hgood, hcontainer, hlog⟩
  exact ⟨result, t, (congrFun (hbelow shown p) s).trans hrun, hgood, .of_eq hcontainer hlog⟩

theorem intercept_passes (stage : Stage) {entry : ChainEntry H.Content}
    (hentry : entry.hook.PassesOn E.behaviour) (name : String) (object : Object H.Content)
    (s : State H) :
    ∃ t, E.intercept stage entry name object s = some (.ok (some object), t) ∧ Passing s t := by
  have hpoint : ∀ n d, EntryPoint.intercept stage entry.name object name ≠ .make n d :=
    fun n d h => by cases h
  rcases entry with ⟨_, ⟨_, _, content⟩ | number | _⟩
  · cases content with
    | hosted content =>
        rcases run_passes hE (hentry.2 stage object name) E.facade _ with ⟨_, u, hrun, rfl, hpass⟩
        exact enter_passes hpoint (Run.bind_eq_some_iff.2 ⟨_, u, hrun, rfl⟩) hpass
    | placeholderConfigurer => exact enter_passes hpoint rfl (.refl _)
  · cases stage with
    | before => exact enter_passes hpoint rfl (.refl _)
    | after => exact enter_passes hpoint rfl (.of_eq rfl rfl)
  · cases stage with
    | before => exact enter_passes hpoint rfl (.refl _)
    | after =>
        rcases detectListener_passes E.facade name object _ with ⟨u, hrun, hpass⟩
        exact enter_passes hpoint (Run.bind_eq_some_iff.2 ⟨(), u, hrun, rfl⟩) hpass

theorem walkThrough_passes (stage : Stage) (name : String) (object : Object H.Content) :
    ∀ entries : List (ChainEntry H.Content),
      (∀ entry ∈ entries, entry.hook.PassesOn E.behaviour) → ∀ s,
        ∃ t, (E.walkThrough stage name entries object).run s = some (.ok object, t) ∧
          Passing s t := by
  intro entries
  induction entries with
  | nil =>
      intro _ s
      exact ⟨s, rfl, .refl s⟩
  | cons entry rest ih =>
      intro hentries s
      rcases intercept_passes hE stage (hentries entry List.mem_cons_self) name object s with
        ⟨u, hfirst, hsu⟩
      rcases ih (fun e he => hentries e (List.mem_cons_of_mem _ he)) u with ⟨t, hrest, hut⟩
      refine ⟨t, ?_, hsu.trans hut⟩
      exact Attempt.run_bind_eq_some_iff.2
        (Or.inr ⟨_, u, Attempt.run_step_eq_ok_iff.2 hfirst, hrest⟩)

/-- A walk through hooks that pass on what they are handed ends with the object it began with. -/
theorem walk_passes (stage : Stage) (name : String) (object : Object H.Content) (s : State H)
    (hchain : ∀ entry ∈ s.container.chain.entries, entry.hook.PassesOn E.behaviour) :
    ∃ t, (E.walk stage name object).run s = some (.ok object, t) ∧ Passing s t := by
  rcases walkThrough_passes hE stage name object _ hchain
    (s.note (.walked stage name (s.container.definitions.get? name))) with ⟨t, hrun, hpass⟩
  exact ⟨t, hrun, ((Passing.refl s).note rfl).trans hpass⟩

theorem merge_passes {entry : ChainEntry H.Content} (hentry : entry.hook.PassesOn E.behaviour)
    (name : String) (d : Definition H.Factory) (s : State H) :
    ∃ copy t, E.merge entry name d s = some (.ok copy, t) ∧ d.EditedTo copy ∧ Passing s t := by
  have hpoint : ∀ n d', EntryPoint.merge entry.name name d ≠ .make n d' :=
    fun n d' h => by cases h
  -- A hook that is no hosted object leaves the copy as it is.
  have hidle : ∀ {call : Run H (Except Failure (Definition H.Factory))} {u : State H},
      call u = some (.ok d, u) → u = s.note (.entered (.merge entry.name name d)) →
      ∃ copy t, enter (.merge entry.name name d) call s = some (.ok copy, t) ∧
        d.EditedTo copy ∧ Passing s t := by
    rintro call _ hcall rfl
    rcases enter_passes hpoint hcall (.refl _) with ⟨t, ht, hpass⟩
    exact ⟨d, t, ht, .refl d, hpass⟩
  rcases entry with ⟨_, ⟨_, _, content⟩ | number | _⟩
  · cases content with
    | hosted content =>
        rcases run_passes hE (hentry.1 name d) E.facade _ with
          ⟨_, u, hrun, ⟨copy, rfl, hedited⟩, hpass⟩
        rcases enter_passes hpoint hrun hpass with ⟨t, ht, hst⟩
        exact ⟨copy, t, ht, hedited, hst⟩
    | placeholderConfigurer => exact hidle rfl rfl
  · exact hidle rfl rfl
  · exact hidle rfl rfl

/-- The hooks make a copy of a definition that has the same fixed parts. -/
theorem mergeThrough_passes (name : String) : ∀ entries : List (ChainEntry H.Content),
    (∀ entry ∈ entries, entry.hook.PassesOn E.behaviour) → ∀ (d : Definition H.Factory) (s),
      ∃ copy t, (E.mergeThrough name entries d).run s = some (.ok copy, t) ∧ d.EditedTo copy ∧
        Passing s t := by
  intro entries
  induction entries with
  | nil =>
      intro _ d s
      exact ⟨d, s, rfl, .refl d, .refl s⟩
  | cons entry rest ih =>
      intro hentries d s
      rcases merge_passes hE (hentries entry List.mem_cons_self) name d s with
        ⟨edited, u, hfirst, hde, hsu⟩
      rcases ih (fun e he => hentries e (List.mem_cons_of_mem _ he)) edited u with
        ⟨copy, t, hrest, hec, hut⟩
      refine ⟨copy, t, ?_, hde.trans hec, hsu.trans hut⟩
      exact Attempt.run_bind_eq_some_iff.2
        (Or.inr ⟨_, u, Attempt.run_step_eq_ok_iff.2 hfirst, hrest⟩)

/-- What a build does in front of the factory and behind it, when the factory leaves the chain as
    it is. -/
theorem construct_passes (name : String) (d : Definition H.Factory) (s : State H)
    (hchain : ∀ entry ∈ s.container.chain.entries, entry.hook.PassesOn E.behaviour) :
    ∃ copy u, d.EditedTo copy ∧ Passing s u ∧
      (∀ failure v, E.make name copy u = some (.error failure, v) →
        (E.construct name d).run s = some (.error (makeError name failure), v)) ∧
      ∀ object v, E.make name copy u = some (.ok object, v) →
        v.container.chain = s.container.chain →
        ∃ w, (E.construct name d).run s = some (.ok ⟨copy, object⟩, w) ∧
          Passing ((v.note (.made name object)).withContainer
            (v.container.keepTarget name object)) w := by
  rcases mergeThrough_passes hE name _ hchain d s with ⟨copy, u, hmerge, hedited, hsu⟩
  refine ⟨copy, u, hedited, hsu, ?_, ?_⟩
  · intro failure v hmake
    refine Attempt.run_bind_eq_some_iff.2 (Or.inr ⟨s.container, s, rfl, ?_⟩)
    refine Attempt.run_bind_eq_some_iff.2 (Or.inr ⟨_, u, hmerge, ?_⟩)
    exact Attempt.run_bind_eq_some_iff.2
      (Or.inr ⟨_, v, Attempt.run_step_eq_ok_iff.2 hmake, rfl⟩)
  · intro object v hmake hkept
    have hchain' : ∀ entry ∈ v.container.chain.entries, entry.hook.PassesOn E.behaviour :=
      hkept ▸ hchain
    rcases walk_passes hE .before name object ((v.note (.made name object)).withContainer
      (v.container.keepTarget name object)) hchain' with ⟨x, hbefore, hvx⟩
    have hchainx : ∀ entry ∈ x.container.chain.entries, entry.hook.PassesOn E.behaviour := by
      rw [hvx.container_eq]
      exact hchain'
    rcases walk_passes hE .after name object x hchainx with ⟨w, hafter, hxw⟩
    refine ⟨w, ?_, hvx.trans hxw⟩
    refine Attempt.run_bind_eq_some_iff.2 (Or.inr ⟨s.container, s, rfl, ?_⟩)
    refine Attempt.run_bind_eq_some_iff.2 (Or.inr ⟨_, u, hmerge, ?_⟩)
    refine Attempt.run_bind_eq_some_iff.2
      (Or.inr ⟨_, v, Attempt.run_step_eq_ok_iff.2 hmake, ?_⟩)
    refine Attempt.run_bind_eq_some_iff.2 (Or.inr ⟨(), v.note (.made name object), rfl, ?_⟩)
    refine Attempt.run_bind_eq_some_iff.2 (Or.inr ⟨(), _, rfl, ?_⟩)
    refine Attempt.run_bind_eq_some_iff.2 (Or.inr ⟨object, x, hbefore, ?_⟩)
    exact Attempt.run_bind_eq_some_iff.2 (Or.inr ⟨object, w, hafter, rfl⟩)

end Walks

end Engine

end ObjectBootstrap
