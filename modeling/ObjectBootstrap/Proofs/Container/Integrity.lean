import Mathlib.Data.List.Nodup
import ObjectBootstrap.Proofs.Course.Runs

/-!
# Integrity of the container

The parts of a container are changed at different moments, with hooks and factories at work in
between that may ask for anything, even for changes of the very definition that is being built. In
the middle of a build a target is held whose singleton is not there yet, so what is promised of a
container at rest does not hold at every moment. `Coherent` is what does: a target belongs to a name
whose build is under way or to a singleton that took its place, and a name whose build is under way
has no singleton. Every change keeps a container coherent, and a coherent container in which no
build is under way is at rest.

An operation that is called from outside starts in a container at rest. The builds that it begins
come to their ends, whether they succeed or not, and so it leaves a container at rest behind.

## Main definitions

* `Container.Coherent`: The parts of a container fit together, also while builds are under way.
* `Container.AtRest`: What is promised of a container between two operations.
* `Operation`, `Engine.performAll`: What may be asked of a container from outside, in turn.

## Theorems

* `Container.Coherent.finishBuild`: The end of a build keeps a container coherent.
* `Course.coherent`: A container stays coherent.
* `Engine.getOrBuild_error`: A build that fails leaves nothing of its object behind.
* `performAll_atRest`: Operations leave a container at rest.
-/

namespace ObjectBootstrap

variable {H : Host}

namespace Container

/-- The parts of a container fit together, also while builds are under way. -/
structure Coherent (k : Container H) : Prop extends k.InStep where
  hooks_nodup : k.chain.names.Nodup
  kept_registered : ∀ name object, k.singletons.get? name = some object → name ∈ k.names
  underway_unkept : ∀ name ∈ k.inCreation, k.singletons.get? name = none
  /-- A target waits for the end of its build, or the hooks put another object in its place. -/
  target_owned : ∀ name target, k.targets.get? name = some target →
    name ∈ k.inCreation ∨
      ∃ object, k.singletons.get? name = some object ∧ target.same object = false

/-- What is promised of a container between two operations. -/
structure AtRest (k : Container H) : Prop where
  /-- The order of registration lists every registered name once and no other name. -/
  order_exact : ∀ name, k.names.count name = if k.contains name then 1 else 0
  nothing_underway : k.inCreation = []
  kept_registered : ∀ name, k.containsSingleton name = true → k.contains name = true
  target_owned : ∀ name target, k.targets.get? name = some target →
    ∃ object, k.singletons.get? name = some object ∧ target.same object = false
  hooks_nodup : k.chain.names.Nodup

theorem coherent_empty (overriding : Bool) :
    ({ allowOverriding := overriding } : Container H).Coherent := by
  refine ⟨inStep_empty overriding, List.nodup_nil, ?_, ?_, ?_⟩
  · intro name object h
    cases h
  · intro name h
    exact absurd h List.not_mem_nil
  · intro name target h
    cases h

/-- A coherent container is at rest when no build is under way. -/
theorem Coherent.atRest {k : Container H} (hk : k.Coherent) (hnone : k.inCreation = []) :
    k.AtRest := by
  refine ⟨?_, hnone, ?_, ?_, hk.hooks_nodup⟩
  · intro name
    by_cases hname : name ∈ k.names
    · rw [if_pos ((hk.mem_names_iff name).1 hname), List.count_eq_one_of_mem hk.names_nodup hname]
    · rw [if_neg (mt (hk.mem_names_iff name).2 hname), List.count_eq_zero_of_not_mem hname]
  · intro name h
    rcases Option.isSome_iff_exists.1 h with ⟨object, hobject⟩
    exact (hk.mem_names_iff name).1 (hk.kept_registered name object hobject)
  · intro name target h
    refine (hk.target_owned name target h).resolve_left ?_
    rw [hnone]
    exact List.not_mem_nil

namespace Coherent

variable {k : Container H}

-- Neither the answers nor the permission to override have a part in it.
theorem congr {k' : Container H} (hk : k.Coherent) (hdefinitions : k'.definitions = k.definitions)
    (hnames : k'.names = k.names) (hchain : k'.chain = k.chain)
    (hsingletons : k'.singletons = k.singletons) (htargets : k'.targets = k.targets)
    (hcreation : k'.inCreation = k.inCreation) : k'.Coherent := by
  refine ⟨hk.toInStep.congr hdefinitions hnames, hchain ▸ hk.hooks_nodup, ?_, ?_, ?_⟩
  · rw [hsingletons, hnames]
    exact hk.kept_registered
  · rw [hsingletons, hcreation]
    exact hk.underway_unkept
  · rw [hsingletons, htargets, hcreation]
    exact hk.target_owned

theorem writeBack (hk : k.Coherent) {name : String} (hname : name ∈ k.names)
    (d : Definition H.Factory) : (k.writeBack name d).Coherent :=
  ⟨hk.toInStep.stored hname rfl rfl, hk.hooks_nodup, hk.kept_registered, hk.underway_unkept,
    hk.target_owned⟩

/-- A registration keeps a container coherent. What was built of an overridden definition is
    forgotten, singleton and target together. -/
theorem register (hk : k.Coherent) {k' : Container H} {d : Definition H.Factory}
    (h : k.register d = .ok k') : k'.Coherent := by
  have hstep : k'.InStep := hk.toInStep.register h
  rcases register_cases h with ⟨_, rfl⟩ | ⟨_, rfl⟩
  · refine ⟨hstep, hk.hooks_nodup, ?_, ?_, ?_⟩
    · intro n object hget
      rw [NameTable.get?_erase] at hget
      split at hget
      · cases hget
      · exact hk.kept_registered n object hget
    · intro n hn
      rw [NameTable.get?_erase]
      split
      · rfl
      · exact hk.underway_unkept n hn
    · intro n target hget
      rw [NameTable.get?_erase] at hget ⊢
      split at hget
      · cases hget
      · rw [if_neg ‹_›]
        exact hk.target_owned n target hget
  · exact ⟨hstep, hk.hooks_nodup,
      fun n object hget => List.mem_append_left _ (hk.kept_registered n object hget),
      hk.underway_unkept, hk.target_owned⟩

theorem install (hk : k.Coherent) (name : String) (hook : Hook H.Content) :
    (k.install name hook).Coherent :=
  ⟨hk.toInStep.congr rfl rfl, HookChain.nodup_names_add hk.hooks_nodup name hook,
    hk.kept_registered, hk.underway_unkept, hk.target_owned⟩

-- A factory leaves its object behind while the build of the name is under way.
theorem keepTarget (hk : k.Coherent) {name : String} (hname : name ∈ k.inCreation)
    (object : Object H.Content) : (k.keepTarget name object).Coherent := by
  refine ⟨hk.toInStep.congr rfl rfl, hk.hooks_nodup, hk.kept_registered, hk.underway_unkept, ?_⟩
  intro n target hget
  rw [Container.keepTarget, NameTable.get?_insert] at hget
  split at hget
  · exact Or.inl (‹n = name› ▸ hname)
  · exact hk.target_owned n target hget

-- A build begins for a name that has no singleton.
theorem beginCreation (hk : k.Coherent) {k' : Container H} {name : String}
    (hkept : k.singletons.get? name = none) (h : k.beginCreation name = .ok k') :
    k'.Coherent := by
  rcases beginCreation_eq_ok h with ⟨_, rfl⟩
  refine ⟨hk.toInStep.congr rfl rfl, hk.hooks_nodup, hk.kept_registered, ?_, ?_⟩
  · intro n hn
    rcases List.mem_append.1 hn with hn | hn
    · exact hk.underway_unkept n hn
    · rw [List.mem_singleton.1 hn]
      exact hkept
  · intro n target hget
    exact (hk.target_owned n target hget).imp (List.mem_append_left _) id

-- The names that are still under way at the end of a build.
theorem mem_others {names : List String} {name n : String} :
    n ∈ names.filter (fun n => n != name) ↔ n ∈ names ∧ n ≠ name := by
  rw [List.mem_filter, bne_iff_ne]

/-- The end of a build keeps a container coherent. Its name has a singleton from now on or is back
    to where it was before, and its target stays only beside a singleton that took its place. -/
theorem finishBuild (hk : k.Coherent) {name : String} (hname : name ∈ k.names)
    (built : Option (Built H)) : (k.finishBuild name built).Coherent := by
  have hframe := finishBuild_frame k name built
  have hstep : (k.finishBuild name built).InStep := hk.toInStep.congr hframe.1 hframe.2.1
  -- Whatever is kept under the name, the other names keep what they have.
  have hkept : ∀ object n o, (k.singletons.insert name object).get? n = some o → n ∈ k.names := by
    intro object n o hget
    rw [NameTable.get?_insert] at hget
    split at hget
    · exact ‹n = name› ▸ hname
    · exact hk.kept_registered n o hget
  have hunderway : ∀ object, ∀ n ∈ k.inCreation.filter (fun n => n != name),
      (k.singletons.insert name object).get? n = none := by
    intro object n hn
    rcases mem_others.1 hn with ⟨hn, hne⟩
    rw [NameTable.get?_insert, if_neg hne]
    exact hk.underway_unkept n hn
  have howned : ∀ n target, n ≠ name → k.targets.get? n = some target →
      n ∈ k.inCreation.filter (fun n => n != name) ∨
        ∃ o, k.singletons.get? n = some o ∧ target.same o = false :=
    fun n target hne hget =>
      (hk.target_owned n target hget).imp (fun hn => mem_others.2 ⟨hn, hne⟩) id
  rcases finishBuild_cases k name built with
    ⟨b, target, _, _, htarget, hsame, heq⟩ | ⟨b, _, _, heq⟩ | heq
  · rw [heq] at hstep ⊢
    refine ⟨hstep, hk.hooks_nodup, hkept b.object, hunderway b.object, ?_⟩
    intro n found hget
    simp only [NameTable.get?_insert]
    by_cases hn : n = name
    · rw [if_pos hn]
      rw [hn, htarget, Option.some.injEq] at hget
      exact Or.inr ⟨b.object, rfl, hget ▸ hsame⟩
    · rw [if_neg hn]
      exact howned n found hn hget
  · rw [heq] at hstep ⊢
    refine ⟨hstep, hk.hooks_nodup, hkept b.object, hunderway b.object, ?_⟩
    intro n found hget
    simp only [NameTable.get?_erase] at hget
    by_cases hn : n = name
    · rw [if_pos hn] at hget
      cases hget
    · rw [if_neg hn] at hget
      simp only [NameTable.get?_insert, if_neg hn]
      exact howned n found hn hget
  · rw [heq] at hstep ⊢
    refine ⟨hstep, hk.hooks_nodup, hk.kept_registered, ?_, ?_⟩
    · intro n hn
      exact hk.underway_unkept n (mem_others.1 hn).1
    · intro n found hget
      simp only [NameTable.get?_erase] at hget
      by_cases hn : n = name
      · rw [if_pos hn] at hget
        cases hget
      · rw [if_neg hn] at hget
        exact howned n found hn hget

end Coherent

end Container

/-- A container stays coherent, whatever happens. -/
theorem Course.coherent {may : Activity H → Prop} {s t : State H} (h : Course may s t)
    (hs : s.container.Coherent) : t.container.Coherent := by
  induction h with
  | rest s => exact hs
  | followedBy _ _ ih1 ih2 => exact ih2 (ih1 hs)
  | quiet h =>
      cases h with
      | search query =>
          unfold Container.namesFor
          split
          · exact hs
          · exact hs.congr rfl rfl rfl rfl rfl rfl
      | invalidate => exact hs.congr rfl rfl rfl rfl rfl rfl
      | allowOverriding => exact hs.congr rfl rfl rfl rfl rfl rfl
      | _ => exact hs
  | deed h _ =>
      cases h with
      | register hk => exact hs.register hk
      | install name hook => exact hs.install name hook
      | make object hname => exact hs.keepTarget hname object
      | _ => exact hs
  | call _ _ ih => exact ih hs
  | request _ _ _ ih => exact ih hs
  | update _ hd h ih =>
      exact (ih hs).writeBack (h.names_grow.subset (hs.mem_names_of_ok hd)) _
  | @build _ s t name d k built hkept hd _ hk hinside ih =>
      -- The definition was there at the beginning of the build, and names are never lost.
      have hname : name ∈ s.container.names := hs.mem_names_of_some hd
      have hgrow : (s.withContainer k).container.names <+: t.container.names :=
        hinside.names_grow
      have hbegun := hs.beginCreation hkept hk
      rcases Container.beginCreation_eq_ok hk with ⟨_, rfl⟩
      exact (ih hbegun).finishBuild (hgrow.subset hname) built

/-- What may be asked of a container from outside. -/
inductive Operation (H : Host) where
  /-- Register a definition, over another one if that is allowed. -/
  | register (definition : Definition H.Factory)
  | update (name : String) (edit : Definition H.Factory → Prog H (Unit × Definition H.Factory))
  | install (name : String) (hook : Object H.Content)
  | namesFor (query : CapabilityQuery)
  | getOrBuild (name : String)
  | buildFacet (name : String) (capability : Capability)
  | preInstantiate

namespace Engine

/-- Performs an operation. Its answer, if it has one, is the caller's. -/
def perform (E : Engine H) (shown : Facade) : Operation H → Attempt H Unit
  | .register d => Attempt.register d
  | .update name edit => Attempt.raise (E.run shown (.update name edit .done))
  | .install name hook => Attempt.step (Run.install name (.object hook))
  | .namesFor query => do
    let _ ← Attempt.step (Run.namesFor query)
  | .getOrBuild name => do
    let _ ← E.getOrBuild name
  | .buildFacet name c => do
    let _ ← E.buildFacet shown name c
  | .preInstantiate => do
    let _ ← E.preInstantiate

/-- Performs operations in turn, each of them whether the ones before it succeeded or not. -/
def performAll (E : Engine H) (shown : Facade) : List (Operation H) → Run H Unit
  | [] => return
  | operation :: rest => do
    let _ ← (E.perform shown operation).run
    E.performAll shown rest

variable {E : Engine H} {shown : Facade}

theorem perform_follows (hE : E.Lawful) (operation : Operation H) :
    Attempt.Follows Anything (E.perform shown operation) := by
  have hmay : ∀ activity : Activity H, activity.OfBuild → Anything activity :=
    fun _ _ => trivial
  cases operation with
  | register d => exact Attempt.follows_register trivial
  | update name edit => exact hE shown _
  | install name hook => exact Attempt.follows_step (Run.follows_install _ trivial)
  | namesFor query =>
      exact Attempt.follows_bind (Attempt.follows_step (Run.follows_namesFor query))
        fun _ => Attempt.follows_pure _
  | getOrBuild name =>
      exact Attempt.follows_bind (getOrBuild_follows hE hmay name) fun _ => Attempt.follows_pure _
  | buildFacet name c =>
      exact Attempt.follows_bind (buildFacet_follows hE hmay shown name c)
        fun _ => Attempt.follows_pure _
  | preInstantiate =>
      exact Attempt.follows_bind (preInstantiate_follows hE hmay) fun _ => Attempt.follows_pure _

theorem performAll_follows (hE : E.Lawful) (operations : List (Operation H)) :
    Run.Follows Anything (E.performAll shown operations) := by
  induction operations with
  | nil => exact Run.follows_pure _
  | cons operation rest ih => exact Run.follows_bind (perform_follows hE operation) fun _ => ih

/-- A build that fails leaves neither a singleton nor a target behind, if none was under way before
    it. -/
theorem getOrBuild_error (hE : E.Lawful) {name : String} {e : Error} {s t : State H}
    (hs : s.container.Coherent) (hnone : s.container.inCreation = [])
    (h : (E.getOrBuild name).run s = some (.error e, t)) :
    t.container.singletons.get? name = none ∧ t.container.targets.get? name = none := by
  rcases run_getOrBuild_eq_some h with ⟨u, hobtain, rfl⟩
  -- Under a name that has no singleton there is no target either, as long as nothing is built.
  have hunowned : s.container.singletons.get? name = none →
      s.container.targets.get? name = none := by
    intro hkept
    rw [← Option.not_isSome_iff_eq_none, Option.isSome_iff_exists]
    rintro ⟨target, htarget⟩
    rcases hs.target_owned name target htarget with hunderway | ⟨object, hobject, _⟩
    · rw [hnone] at hunderway
      exact absurd hunderway List.not_mem_nil
    · rw [hkept] at hobject
      cases hobject
  rcases run_obtain_cases hobtain with
    ⟨⟨_, _, hok⟩, _⟩ | ⟨hkept, _, _, rfl⟩ | ⟨hkept, d, hd, ⟨_, _, rfl⟩ | ⟨habs, hbuild⟩⟩
  · cases hok
  · exact ⟨hkept, hunowned hkept⟩
  · exact ⟨hkept, hunowned hkept⟩
  rcases run_build_cases hbuild with ⟨_, hbegin, _, _⟩ |
    ⟨k, built, v, hk, hconstruct, hbuilt, rfl⟩
  · -- A build that is refused was under way already.
    change s.container.beginCreation name = _ at hbegin
    rw [Container.beginCreation, hnone, if_neg List.not_mem_nil] at hbegin
    cases hbegin
  · have hbegun := hs.beginCreation hkept hk
    rcases Container.beginCreation_eq_ok hk with ⟨_, rfl⟩
    have hname : name ∈ s.container.inCreation ++ [name] :=
      List.mem_append_right _ (List.mem_singleton_self name)
    have hcourse : Course Anything _ v :=
      construct_follows hE (fun _ _ => trivial) hname hconstruct
    -- The name is under way up to the end of its build, so nobody can have built it meanwhile.
    have hunkept : v.container.singletons.get? name = none :=
      (hcourse.coherent hbegun).underway_unkept name (hcourse.inCreation_eq ▸ hname)
    cases built with
    | ok b => cases hbuilt
    | error _ =>
    change (v.container.finishBuild name none).singletons.get? name = none ∧
      (v.container.finishBuild name none).targets.get? name = none
    rw [Container.finishBuild_none]
    exact ⟨hunkept, by rw [NameTable.get?_erase, if_pos rfl]⟩

end Engine

/-- Operations on a new container, in turn and whether they succeed or not, leave it at rest: its
    order of registration lists each registered name once and nothing else, no build is under way,
    every singleton is registered, every target belongs to a singleton that is another object, and
    no hook is installed twice. And a build that fails then leaves neither a singleton nor a target
    behind. Hooks and factories may do whatever they like in between. -/
theorem performAll_atRest (behaviour : Behaviour H) (facade shown : Facade) (depth : Nat)
    (overriding : Bool) (operations : List (Operation H)) (s : State H) {t : State H}
    (h : (Engine.ofDepth behaviour facade depth).performAll shown operations
      (s.withContainer { allowOverriding := overriding }) = some ((), t)) :
    t.container.AtRest ∧
    ∀ name e u, ((Engine.ofDepth behaviour facade depth).getOrBuild name).run t
        = some (.error e, u) →
      u.container.singletons.get? name = none ∧ u.container.targets.get? name = none := by
  have hE : (Engine.ofDepth behaviour facade depth).Lawful :=
    Engine.lawful_ofDepth behaviour facade depth
  have hcourse : Course Anything _ t := Engine.performAll_follows hE operations _ _ _ h
  have hcoherent : t.container.Coherent := hcourse.coherent (Container.coherent_empty overriding)
  have hnone : t.container.inCreation = [] := hcourse.inCreation_eq
  refine ⟨hcoherent.atRest hnone, ?_⟩
  intro name e u hget
  exact Engine.getOrBuild_error hE hcoherent hnone hget

namespace BuildScenarios

-- A factory makes an object, or fails, or needs a part and makes an object whether there is one or
-- not. An object that holds `true` is a wrapper, which wraps what comes past it.
inductive Plan where
  | plain
  | failing
  | needing (part : String)
  deriving DecidableEq

abbrev host : Host := ⟨Bool, Plan, Unit⟩

def component (name : String) (plan : Plan) : Definition Plan where
  name := name
  typeName := name
  maker := .hosted plan

def behaviour : Behaviour host where
  make plan _ :=
    match plan with
    | .plain => .done (.ok false)
    | .failing => .done (.error (.plain "broken"))
    | .needing part => do
      let _ ← Prog.request (.getOrBuild part)
      return .ok false
  mutate _ := .done (.ok ())
  customize _ := .done (.ok ())
  merge _ _ d := .done (.ok d)
  intercept stage wraps object _ :=
    if wraps && stage = .after then do
      let wrapped ← Prog.request (.create "wrapped" false)
      return .ok (some wrapped)
    else .done (.ok (some object))
  notify _ _ := .done ()

def mixedOperations : List (Operation host) :=
  [.register (component "dependent" (.needing "part")), .register (component "part" .failing),
    .install "wrapping" ⟨"wrapper", 100, .hosted true⟩, .getOrBuild "dependent", .preInstantiate]

/-- The state when the operations are done. -/
def afterOperations : Option (State host) :=
  ((Engine.ofDepth behaviour .direct 3).performAll .direct mixedOperations
    (State.withContainer { store := () } {})).map Prod.snd

theorem targets_afterOperations :
    afterOperations.map (fun t => (t.container.targets.names, t.container.singletons.names))
      = some (["dependent"], ["dependent"]) := by
  decide +kernel

theorem failing_part_fails :
    afterOperations.bind (fun t => ((Engine.ofDepth behaviour .direct 3).getOrBuild "part").run t
      |>.map fun r => r.1.toBool) = some false := by
  decide +kernel

/-- The dependent is wrapped and keeps its target. The part, which the dependent does without, is
    not there, neither as a singleton nor as a target. -/
theorem afterOperations_atRest : ∃ (t : State host) (e : Error) (u : State host),
    afterOperations = some t ∧ t.container.AtRest ∧ t.container.targets.names = ["dependent"] ∧
    ((Engine.ofDepth behaviour .direct 3).getOrBuild "part").run t = some (.error e, u) ∧
    u.container.singletons.get? "part" = none ∧ u.container.targets.get? "part" = none := by
  rcases Option.map_eq_some_iff.1 targets_afterOperations with ⟨t, ht, htargets⟩
  rcases Option.map_eq_some_iff.1 ht with ⟨⟨_, _⟩, hrun, rfl⟩
  have hpart := failing_part_fails
  rw [ht, Option.bind_some] at hpart
  rcases Option.map_eq_some_iff.1 hpart with ⟨⟨result, u⟩, hget, hresult⟩
  cases result with
  | ok object => cases hresult
  | error e =>
      rcases performAll_atRest behaviour .direct .direct 3 false mixedOperations
        { store := () } hrun with
        ⟨hrest, hfailed⟩
      exact ⟨_, e, u, ht, hrest, congrArg Prod.fst htargets, hget, hfailed "part" e u hget⟩

end BuildScenarios

end ObjectBootstrap
