import ObjectBootstrap.Proofs.Application.Phases
import ObjectBootstrap.Proofs.Course.Asking
import ObjectBootstrap.Proofs.Course.Stopping

/-!
# A bring-up ends at a failure

The call of a hook or a factory that fails ends a bring-up, unless one of the programs around it
makes something else of the error. A program that is told an error may do as it likes, but when all
that are told of this one start nothing anymore and fail in turn, then nothing is started anymore at
all: what the registry does for each of their requests ends with the call that fails.

`PassedOn` tells this of one call, which lies at some depth in a stretch of the run. Between the
stretch and the call there are calls that fail and, inside of each of these, a request of its
program on whose way the call lies.

## Main definitions

* `PassedOn`: A call fails and the programs around it pass that on.

## Theorems

* `PassedOn.stops`: Nothing is started behind such a call.
* `Engine.run_bringUp_module`: A module that fails ends the registrations, and so the bring-up.
* `bringUp_fails_fast`: A bring-up fails behind such a call and starts nothing anymore.
-/

namespace ObjectBootstrap

variable {H : Host}

/-- Between two moments of a run, every call that is begun is ended. -/
structure Level (s t : State H) : Prop where
  suffix : s.log <:+ t.log
  nested : Nested (since s t)

theorem Spotless.level {s t : State H} (h : Spotless s t) : Level s t :=
  ⟨h.suffix, h.nested⟩

theorem Course.level {may : Activity H → Prop} {s t : State H} (h : Course may s t) : Level s t :=
  ⟨h.log_suffix, h.nested⟩

/-- In a stretch of a run, a call that ends in the given state fails. Either the registry makes it
    in this stretch, or it is made on the way of a request that the program of another call makes;
    then the program starts nothing behind the answer, and its own call fails as well. -/
inductive PassedOn (behaviour : Behaviour H) (facade : Facade) (c : State H) :
    Nat → State H → State H → Prop
  | here {depth : Nat} {s t a v : State H} {point : EntryPoint H} {failure : Failure} :
    Level s a → Level (a.note (.entered point)) v → c = v.note (.left point (some failure)) →
      Level c t → PassedOn behaviour facade c depth s t
  | within {depth : Nat} {s t a v w w' : State H} {point : EntryPoint H} {failure : Failure}
    {β γ : Type} {shown : Facade} {program : Prog H γ} {result : γ} {r : Request H β} {reply : β} :
    Level s a →
      program.interpret ((Engine.ofDepth behaviour facade depth).answer shown)
        (a.note (.entered point)) = some (result, v) →
      program.Asks ((Engine.ofDepth behaviour facade depth).answer shown) r w reply w'
        (a.note (.entered point)) →
      PassedOn behaviour facade c depth w w' → (∀ later, .entered later ∉ since w' v) →
      Level (v.note (.left point (some failure))) t →
      PassedOn behaviour facade c (depth + 1) s t

-- What happens from the beginning of a call to its end, and what stands outside of calls.
theorem Level.call {point : EntryPoint H} {a v : State H}
    (h : Level (a.note (.entered point)) v)
    (failure : Option Failure) :
    Level a (v.note (.left point failure)) ∧
      outer (since a (v.note (.left point failure))) = [.entered point, .left point failure] := by
  have hbegun : a.log <:+ (a.note (.entered point)).log := List.suffix_cons _ _
  have hparts : since a (v.note (.left point failure))
      = .entered point :: since (a.note (.entered point)) v ++ [.left point failure] := by
    rw [since_note (hbegun.trans h.suffix), since_append hbegun h.suffix,
      since_note List.suffix_rfl, since_self]
    rfl
  refine ⟨⟨(hbegun.trans h.suffix).trans (List.suffix_cons _ _), ?_⟩, ?_⟩
  · rw [hparts]
    exact .call h.nested
  · rw [hparts, outer_call h.nested]

-- Nothing is begun behind an outermost call that fails.
theorem Stops.behind {point : EntryPoint H} {failure : Failure} {s a v t : State H}
    (h : Stops s t) (hfront : Level s a)
    (hinside : Level (a.note (.entered point)) v)
    (hbehind : Level (v.note (.left point (some failure))) t) :
    (∀ later, .entered later ∉ since (v.note (.left point (some failure))) t) ∧
      .left point (some failure) ∈ outer (since s t) := by
  rcases hinside.call (some failure) with ⟨hcall, hpair⟩
  have hparts : outer (since s t) = outer (since s a)
      ++ ([.entered point, .left point (some failure)]
        ++ outer (since (v.note (.left point (some failure))) t)) := by
    rw [since_append hfront.suffix (hcall.suffix.trans hbehind.suffix), outer_append hfront.nested,
      since_append hcall.suffix hbehind.suffix, outer_append hcall.nested, hpair]
  refine ⟨fun later hmem => ?_, ?_⟩
  · rcases hbehind.nested.entered_outer hmem with ⟨first, hfirst⟩
    have hlast := h.last
    rw [hparts, List.pairwise_append, List.pairwise_append] at hlast
    have hnone := hlast.2.1.2.2 (.left point (some failure)) (by simp) _ hfirst trivial
    cases hnone
  · rw [hparts]
    simp

/-- Nothing is started behind a call that fails and whose failure is passed on, if the registry
    stops at failures. -/
theorem PassedOn.stops {behaviour : Behaviour H} {facade : Facade} {c s t : State H} {depth : Nat}
    (h : PassedOn behaviour facade c depth s t) (hstops : Stops s t) :
    c.log <:+ t.log ∧ (∀ point, .entered point ∉ since c t) ∧
      ∃ activity ∈ outer (since s t), activity.Failed := by
  induction h with
  | here hfront hinside hc hbehind =>
      subst hc
      rcases hstops.behind hfront hinside hbehind with ⟨hnone, hfailed⟩
      exact ⟨hbehind.suffix, hnone, _, hfailed, trivial⟩
  | @within depth s t a v w w' point failure _ _ shown program result r reply hfront hrun hasks _
      hquiet hbehind ih =>
      have hE : (Engine.ofDepth behaviour facade depth).Lawful :=
        Engine.lawful_ofDepth behaviour facade depth
      have hanswer := fun {γ : Type} (r : Request H γ) => Engine.answer_follows hE shown r
      rcases hasks.courses hanswer with ⟨hreply, hasked, hrest⟩
      have hinside : Level (a.note (.entered point)) v :=
        (program.interpret_follows hanswer _ _ _ hrun).level
      rcases hstops.behind hfront hinside hbehind with ⟨hnone, hfailed⟩
      rcases ih (Engine.answer_stops hE shown hreply) with ⟨hsuffix, hanswered, _⟩
      have hleft : v.log <:+ (v.note (.left point (some failure))).log := List.suffix_cons _ _
      have hv : c.log <:+ v.log := hsuffix.trans (hrest hrun)
      refine ⟨(hv.trans hleft).trans hbehind.suffix, fun later hmem => ?_, _, hfailed, trivial⟩
      -- What is written down behind the call: up to the answer, up to the end of the program, and
      -- behind the call of the program.
      rw [since_append (hv.trans hleft) hbehind.suffix, since_note hv,
        since_append hsuffix (hrest hrun), List.mem_append, List.mem_append, List.mem_append,
        List.mem_singleton] at hmem
      rcases hmem with ((hfirst | hsecond) | hthird) | hlast
      · exact hanswered later hfirst
      · exact hquiet later hsecond
      · cases hthird
      · exact hnone later hlast

/-- Nothing is published. -/
abbrev Unpublishing : Activity H → Prop :=
  fun activity => ∀ event listeners, activity ≠ .published event listeners

namespace Engine

/-- The objects that a bring-up builds in advance, if it is to. -/
def inAdvance (E : Engine H) (setup : Setup H) : Attempt H Nat :=
  if setup.config.preInstantiateSingletons then E.preInstantiate else pure 0

/-- What a bring-up does between the registrations and its end. -/
def carryOut (E : Engine H) (setup : Setup H) :
    Attempt H (Mutation × List String × Installation × Nat) := do
  let mutation ← E.mutationPhase E.facade setup.config setup.externals
  let order ← E.customizationPhase E.facade setup.config mutation.processed
  let inst ← E.installationPhase E.facade setup.config
  let count ← E.inAdvance setup
  return (mutation, order, inst, count)

/-- What a bring-up reports when it is done. -/
def summary (setup : Setup H) (mutation : Mutation) (order : List String) (inst : Installation)
    (count : Nat) (s : State H) : Report where
  stamp := setup.stamp
  rounds := mutation.rounds
  mutationOrder := mutation.mutationOrder
  customizationOrder := mutation.customizationOrder ++ order
  hookChain := inst.chain
  target := inst.target
  premature := (s.sentinels[inst.sentinel]?.map Sentinel.premature).getD []
  preInstantiated := count
  listeners := s.listeners.names

theorem bringUp_eq (E : Engine H) (setup : Setup H) :
    E.bringUp setup = (do
      E.registerSetup setup
      let (mutation, order, inst, count) ← E.carryOut setup
      let _ ← Attempt.step (E.publish setup.stamp.refreshed)
      let s ← get
      return (summary setup mutation order inst count s, inst.sentinel)) := by
  unfold bringUp carryOut inAdvance
  simp only [bind_assoc, pure_bind]
  split <;> rfl

variable {E : Engine H}

/-- Behind the registrations, a bring-up ends with an error of what it carries out, or it publishes
    its end and succeeds. -/
theorem run_bringUp_cases {setup : Setup H} {result : Except Error (Report × Nat)} {s t u : State H}
    (h : (E.bringUp setup).run s = some (result, t))
    (hsetup : (E.registerSetup setup).run s = some (.ok (), u)) :
    (∃ e, (E.carryOut setup).run u = some (.error e, t) ∧ result = .error e) ∨
      ∃ done v listeners report, (E.carryOut setup).run u = some (.ok done, v) ∧
        E.publish setup.stamp.refreshed v = some (listeners, t) ∧ result = .ok report := by
  rw [bringUp_eq] at h
  rcases Attempt.run_bind_eq_some_iff.1 h with ⟨_, herror, _⟩ | ⟨_, _, hsetup', h⟩
  · cases hsetup.symm.trans herror
  cases hsetup.symm.trans hsetup'
  rcases Attempt.run_bind_eq_some_iff.1 h with ⟨e, herror, rfl⟩ | ⟨done, v, hdone, h⟩
  · exact Or.inl ⟨e, herror, rfl⟩
  rcases Attempt.run_bind_eq_some_iff.1 h with ⟨_, herror, _⟩ | ⟨listeners, w, hpublish, h⟩
  · rcases Attempt.run_step_eq_some_iff.1 herror with ⟨_, _, hcontra⟩
    cases hcontra
  cases h
  exact Or.inr ⟨done, v, listeners, _, hdone, Attempt.run_step_eq_ok_iff.1 hpublish, rfl⟩

variable (hE : E.Lawful)
include hE

theorem carryOut_stops (setup : Setup H) : (E.carryOut setup).StopsAtFailure := by
  refine .bind stops_endings (mutationPhase_stops hE _) fun mutation => ?_
  refine .bind stops_endings (customizationPhase_stops hE _) fun order => ?_
  refine .bind stops_endings (installationPhase_stops hE) fun inst => ?_
  refine .bind stops_endings ?_ fun count => .pure stops_endings _
  unfold inAdvance
  split
  · exact preInstantiate_stops hE
  · exact .pure stops_endings 0

/-- The phases publish nothing. -/
theorem carryOut_unpublished (setup : Setup H) :
    Attempt.Along (Course Unpublishing) (E.carryOut setup) := by
  have hT := Course.trail (H := H) Unpublishing
  have hget : ∀ name, AnyName name → Attempt.Along (Course Unpublishing) (E.getOrBuild name) := by
    refine asked_follows hE fun activity hbuild => ?_
    rintro _ _ rfl
    exact hbuild
  refine Attempt.along_bind hT (mutationPhase_along hE.keeps hT hget (fun _ _ _ _ => nofun) _ _
    (fun _ _ _ _ => nofun) _) fun mutation => ?_
  refine Attempt.along_bind hT (customizationPhase_along hE.keeps hT hget _ _
    (fun _ _ _ _ => nofun) _) fun order => ?_
  refine Attempt.along_bind hT (installationPhase_along hT hget (fun _ _ _ => nofun) _ _)
    fun inst => ?_
  refine Attempt.along_bind hT ?_ fun count => Attempt.along_pure hT _
  unfold inAdvance
  split
  · exact preInstantiate_along hT hget
  · exact Attempt.along_pure hT 0

omit hE

theorem runEach_append (before after : List (Prog H (Except Error Unit))) :
    E.runEach (before ++ after) = E.runEach before >>= fun _ => E.runEach after := by
  induction before with
  | nil => rfl
  | cons program rest ih => simp only [List.cons_append, runEach, ih, bind_assoc]

theorem registerSetup_eq (setup : Setup H) :
    E.registerSetup setup
      = E.registerSetup { setup with modules := [] } >>= fun _ => E.runEach setup.modules := by
  rcases setup with ⟨config, placeholders, definitions, modules, externals, stamp⟩
  unfold registerSetup
  cases placeholders <;> cases hallow : config.allowDefinitionOverriding <;>
    simp only [if_true, if_false, Bool.false_eq_true, bind_assoc, pure_bind, runEach]

/-- A module that fails ends the registrations. -/
theorem run_registerSetup_module {setup : Setup H}
    {before after : List (Prog H (Except Error Unit))}
    {program : Prog H (Except Error Unit)} {s u v : State H} {e : Error}
    (hmodules : setup.modules = before ++ program :: after)
    (hbefore : (E.registerSetup { setup with modules := before }).run s = some (.ok (), u))
    (hfails : E.run E.facade program u = some (.error e, v)) :
    (E.registerSetup setup).run s = some (.error e, v) := by
  rw [registerSetup_eq] at hbefore ⊢
  rcases Attempt.run_bind_eq_ok_iff.1 hbefore with ⟨_, w, hfirst, hmodules'⟩
  refine Attempt.run_bind_eq_some_iff.2 (Or.inr ⟨(), w, hfirst, ?_⟩)
  rw [hmodules, runEach_append]
  refine Attempt.run_bind_eq_some_iff.2 (Or.inr ⟨(), u, hmodules', ?_⟩)
  exact Attempt.run_bind_eq_some_iff.2 (Or.inl ⟨e, hfails, rfl⟩)

/-- A module that fails ends the bring-up. -/
theorem run_bringUp_module {setup : Setup H} {before after : List (Prog H (Except Error Unit))}
    {program : Prog H (Except Error Unit)} {result : Except Error (Report × Nat)}
    {s t u v : State H} {e : Error} (hmodules : setup.modules = before ++ program :: after)
    (hbefore : (E.registerSetup { setup with modules := before }).run s = some (.ok (), u))
    (hfails : E.run E.facade program u = some (.error e, v))
    (hrun : (E.bringUp setup).run s = some (result, t)) :
    result = .error e ∧ t = v ∧ ∀ w, (E.registerSetup setup).run s ≠ some (.ok (), w) := by
  have hended := run_registerSetup_module hmodules hbefore hfails
  have hunset : ∀ w, (E.registerSetup setup).run s ≠ some (.ok (), w) := by
    intro w hsetup
    cases hended.symm.trans hsetup
  rcases Attempt.run_bind_eq_some_iff.1 hrun with ⟨e', herror, rfl⟩ | ⟨_, _, hsetup, _⟩
  · cases hended.symm.trans herror
    exact ⟨rfl, rfl, hunset⟩
  · exact absurd hsetup (hunset _)

end Engine

/-- A bring-up comes upon a call that ends in the given state and fails, and that is passed on:
    either behind the registrations or on the way of a request that a module makes, which then
    starts nothing anymore and fails as well. Or a module fails on its own and ends in that
    state. -/
inductive Upset (behaviour : Behaviour H) (facade : Facade) (c : State H) (setup : Setup H)
    (s t : State H) : Nat → Prop
  | carryingOut {depth : Nat} {u : State H} :
    ((Engine.ofDepth behaviour facade depth).registerSetup setup).run s = some (.ok (), u) →
      PassedOn behaviour facade c depth u t → Upset behaviour facade c setup s t depth
  | registering {depth : Nat} {before after : List (Prog H (Except Error Unit))}
    {program : Prog H (Except Error Unit)} {e : Error} {u w w' : State H} {β : Type}
    {r : Request H β} {reply : β} :
    setup.modules = before ++ program :: after →
      ((Engine.ofDepth behaviour facade (depth + 1)).registerSetup
        { setup with modules := before }).run s = some (.ok (), u) →
      program.interpret ((Engine.ofDepth behaviour facade depth).answer facade) u
        = some (.error e, t) →
      program.Asks ((Engine.ofDepth behaviour facade depth).answer facade) r w reply w' u →
      PassedOn behaviour facade c depth w w' → (∀ later, .entered later ∉ since w' t) →
      Upset behaviour facade c setup s t (depth + 1)
  | failing {depth : Nat} {before after : List (Prog H (Except Error Unit))}
    {program : Prog H (Except Error Unit)} {e : Error} {u : State H} :
    setup.modules = before ++ program :: after →
      ((Engine.ofDepth behaviour facade (depth + 1)).registerSetup
        { setup with modules := before }).run s = some (.ok (), u) →
      program.interpret ((Engine.ofDepth behaviour facade depth).answer facade) u
        = some (.error e, c) →
      Upset behaviour facade c setup s t (depth + 1)

/-- A bring-up fails if it comes upon a call that fails and that all programs around it pass on, or
    upon a module that fails. No hook, factory or listener is called anymore when that call or that
    module has ended, and the bring-up does not publish its end. -/
theorem bringUp_fails_fast (behaviour : Behaviour H) (facade : Facade) (depth : Nat)
    {setup : Setup H} {result : Except Error (Report × Nat)} {s t c : State H}
    (hrun : ((Engine.ofDepth behaviour facade depth).bringUp setup).run s = some (result, t))
    (hupset : Upset behaviour facade c setup s t depth) :
    (∃ e, result = .error e) ∧ c.log <:+ t.log ∧ (∀ point, .entered point ∉ since c t) ∧
      ∀ u, ((Engine.ofDepth behaviour facade depth).registerSetup setup).run s = some (.ok (), u) →
        ∀ event listeners, .published event listeners ∉ outer (since u t) := by
  cases hupset with
  | @carryingOut _ u hsetup hpassed =>
      have hE : (Engine.ofDepth behaviour facade depth).Lawful :=
        Engine.lawful_ofDepth behaviour facade depth
      have hends := Engine.carryOut_stops hE setup
      rcases Engine.run_bringUp_cases hrun hsetup with
        ⟨e, herror, rfl⟩ | ⟨done, v, listeners, report, hdone, hpublish, rfl⟩
      · rcases hpassed.stops (hends.badly herror) with ⟨hsuffix, hnone, _⟩
        refine ⟨⟨e, rfl⟩, hsuffix, hnone, fun u' hsetup' event listeners => ?_⟩
        cases hsetup.symm.trans hsetup'
        have hsilent := Engine.carryOut_unpublished hE setup _ _ _ herror
        exact hsilent.not_mem_outer (fun hmay => hmay _ _ rfl) trivial
      · -- A bring-up that succeeds comes upon no failing call of its own.
        have hspotless := (hends.well hdone).followedBy
          (Engine.publish_spotless hE _ _ _ _ hpublish)
        rcases hpassed.stops hspotless.stops with ⟨_, _, activity, hmem, hfailed⟩
        exact absurd hfailed (hspotless.clean activity hmem)
  | @registering depth before after program e u w w' _ r reply hmodules hbefore hfails hasks hpassed
      hquiet =>
      have hE : (Engine.ofDepth behaviour facade depth).Lawful :=
        Engine.lawful_ofDepth behaviour facade depth
      rcases hasks.courses fun r => Engine.answer_follows hE facade r with ⟨hreply, _, hrest⟩
      rcases hpassed.stops (Engine.answer_stops hE facade hreply) with ⟨hsuffix, hnone, _⟩
      rcases Engine.run_bringUp_module hmodules hbefore hfails hrun with ⟨rfl, -, hunset⟩
      refine ⟨⟨e, rfl⟩, hsuffix.trans (hrest hfails), fun point hmem => ?_,
        fun u' hsetup => absurd hsetup (hunset u')⟩
      rw [since_append hsuffix (hrest hfails), List.mem_append] at hmem
      exact hmem.elim (hnone point) (hquiet point)
  | failing hmodules hbefore hfails =>
      -- The bring-up ends where the module does.
      rcases Engine.run_bringUp_module hmodules hbefore hfails hrun with ⟨rfl, rfl, hunset⟩
      refine ⟨⟨_, rfl⟩, List.suffix_rfl, fun point hmem => ?_,
        fun u' hsetup => absurd hsetup (hunset u')⟩
      rw [since_self] at hmem
      exact absurd hmem List.not_mem_nil

namespace Scenarios

/-- As `behaviour`, except that one factory fails and all but one of the others need what it makes.
    They fail for that reason, and one of them asks for a fallback before it does. -/
def failingDependency : Behaviour host := { Scenarios.behaviour with
  make := fun content d => do
    if d.name = "failing" then return .error (.plain "broken")
    if d.name = "fallback" then return .ok content
    match ← Prog.request (.getOrBuild "failing") with
    | .ok _ => return .ok content
    | .error e =>
      if d.name = "retrying" then
        let _ ← Prog.request (.getOrBuild "fallback")
      return .error (.registry e) }

def lazyService (name : String) : Definition Bool := { service with
  name := name, typeName := name, lazyInit := true }

/-- A module that asks for an object. -/
def requestingModule : Prog host (Except Error Unit) :=
  .ask (.getOrBuild "dependent") fun answer => .done (answer.map fun _ => ())

def moduleSetup : Setup host where
  modules := [requestingModule]
  stamp := ⟨"", "", "", ""⟩

def dependencyEngine (depth : Nat) : Engine host := Engine.ofDepth failingDependency .direct depth

def threeServices : State host :=
  stateOf [lazyService "failing", lazyService "fallback", lazyService "dependent"]

def cause : Error := .hookExecution "failing" .instantiation (.plain "broken")

/-- The state in which the dependent asks for what it needs. -/
def askingForFailing : State host :=
  (threeServices.begin "dependent").note (.entered (.make "dependent" (lazyService "dependent")))

/-- The state in which the factory has failed. -/
def afterFailure : State host :=
  ((askingForFailing.begin "failing").note
      (.entered (.make "failing" (lazyService "failing")))).note
    (.left (.make "failing" (lazyService "failing")) (some (.plain "broken")))

/-- The state in which the dependent is told so. -/
def withoutFailing : State host := afterFailure.conclude "failing" (.error cause)

/-- The state in which the module is told so. -/
def withoutDependent : State host :=
  (withoutFailing.note
      (.left (.make "dependent" (lazyService "dependent")) (some (.registry cause)))).conclude
    "dependent" (.error cause)

-- What is asked for or answered is no call.
theorem level_of_log_cons {s t : State host} (activity : Activity host)
    (hlog : t.log = activity :: s.log) (hremark : activity.IsRemark) : Level s t :=
  (Spotless.of_log_cons hlog hremark).level

theorem not_entered_self {s : State host} (point : EntryPoint host) :
    .entered point ∉ since s s := by
  rw [since_self]
  exact List.not_mem_nil

theorem failing_passes_on :
    PassedOn failingDependency .direct afterFailure 0 askingForFailing withoutFailing :=
  .here (level_of_log_cons (.requested "failing") rfl trivial) (Spotless.rest _).level rfl
    (level_of_log_cons (.answered "failing" none) rfl trivial)

theorem dependent_passes_on :
    PassedOn failingDependency .direct afterFailure 1 threeServices withoutDependent :=
  @PassedOn.within _ _ _ _ 0 _ _ (threeServices.begin "dependent") withoutFailing
    _ _ _ _ _ _ .direct (failingDependency.make false (lazyService "dependent"))
    (.error (.registry cause)) (.getOrBuild "failing") _
    (level_of_log_cons (.requested "dependent") rfl trivial) rfl (.here rfl) failing_passes_on
    not_entered_self (level_of_log_cons (.answered "dependent" none) rfl trivial)

/-- The module asks for the dependent, which asks for what it needs, and the factory of that
    fails. -/
theorem module_request_fails_fast : ∃ (t : State host),
    ((dependencyEngine 2).bringUp moduleSetup).run threeServices = some (.error cause, t) ∧
    Upset failingDependency .direct afterFailure moduleSetup threeServices t 2 ∧
    ∀ point, .entered point ∉ since afterFailure t := by
  have hrun : ((dependencyEngine 2).bringUp moduleSetup).run threeServices
      = some (.error cause, withoutDependent) := rfl
  have hupset :
      Upset failingDependency .direct afterFailure moduleSetup threeServices withoutDependent 2 :=
    @Upset.registering _ _ _ _ _ _ _ 1 [] [] requestingModule cause threeServices threeServices
      withoutDependent _ (.getOrBuild "dependent") (.error cause) rfl rfl rfl (.here rfl)
      dependent_passes_on not_entered_self
  exact ⟨withoutDependent, hrun, hupset,
    (bringUp_fails_fast failingDependency .direct 2 hrun hupset).2.2.1⟩

/-- The one that asks for a fallback is to be built in advance. -/
def withRetrying : State host :=
  stateOf
    [lazyService "failing", lazyService "fallback",
      { lazyService "retrying" with lazyInit := false }]

/-- The factory that an entry is about, and at its end whether it fails. -/
def factory? : Activity host → Option (String × Option Bool)
  | .entered (.make name _) => some (name, none)
  | .left (.make name _) failure => some (name, some failure.isSome)
  | _ => none

theorem report_of_withRetrying :
    (((dependencyEngine 3).bringUp { moduleSetup with modules := [] }).run withRetrying).map
      (fun r =>
    (match r.1 with
      | .error e => e.hook?
      | .ok _ => none,
      (since withRetrying r.2).filterMap factory?))
      = some (some "failing",
        [("retrying", none), ("failing", none), ("failing", some true), ("fallback", none),
        ("fallback", some false), ("retrying", some true)]) := by
  decide +kernel

/-- The failure is passed on, and the bring-up fails for that reason. Still the factory of the
    fallback is called behind the one that failed. -/
theorem fallback_called_late : ∃ (e : Error) (t : State host),
    ((dependencyEngine 3).bringUp { moduleSetup with modules := [] }).run withRetrying
      = some (.error e, t) ∧
    e.hook? = some "failing" ∧
    (since withRetrying t).filterMap factory?
      = [("retrying", none), ("failing", none), ("failing", some true),
      ("fallback", none), ("fallback", some false), ("retrying", some true)] := by
  rcases Option.map_eq_some_iff.1 report_of_withRetrying with ⟨⟨result, t⟩, hrun, hreport⟩
  simp only [Prod.mk.injEq] at hreport
  match result with
  | .ok _ => cases hreport.1
  | .error e => exact ⟨e, t, hrun, hreport.1, hreport.2⟩

end Scenarios

end ObjectBootstrap
