import ObjectBootstrap.Proofs.Application.Attended
import ObjectBootstrap.Proofs.Application.Phases
import ObjectBootstrap.Proofs.Course.Within
import ObjectBootstrap.Proofs.Installation.Blank

/-!
# No object escapes the interceptors

What a bring-up is for: when the first object is built that is not a hook, all interceptors are
installed. This is not a matter of the phases alone. A module that builds an object builds it too
early, and so does a hook that asks for one, and a hook whose definition is replaced by that of an
ordinary object, in the registry or for one build, is an ordinary object that is built too early
itself. `Restrained` says that none of this happens. Then up to the end of the installation only
factories of hooks are called, the sentinel notes nothing, and all that is built in advance passes
through the whole chain.

## Main definitions

* `Activity.buildsOrInstalls`: Whether an entry tells that something is built or installed.
* `Restrained`: A bring-up in which nobody but the registry acts too early.

## Theorems

* `Restrained.made_of_hooks`: Which factories are called up to the end of the installation.
* `Restrained.overlooked_eq_nil`: Nothing is overlooked by the installation.
* `Restrained.record_blank`: The sentinel notes nothing.
* `bringUp_intercepts`: What a restrained bring-up comes to.
-/

namespace ObjectBootstrap

variable {H : Host}

/-- Whether an entry tells that something is built or installed. -/
def Activity.buildsOrInstalls : Activity H → Bool
  | .entered (.make _ _) => true
  | .made _ _ => true
  | .walked _ _ _ => true
  | .installed _ => true
  | _ => false

theorem Activity.installed?_of_not {activity : Activity H}
    (h : activity.buildsOrInstalls = false) : activity.installed? = none := by
  cases activity with
  | installed name => cases h
  | _ => rfl

theorem Activity.OfBuild.installed?_eq_none {activity : Activity H} (h : activity.OfBuild) :
    activity.installed? = none := by
  cases activity with
  | installed name => exact absurd h id
  | _ => rfl

-- What a build calls are hooks and factories.
theorem EntryPoint.isHook_or_isMake (point : EntryPoint H)
    (h : (Activity.entered point).OfBuild) : (point.isHook || point.isMake) = true := by
  cases point with
  | merge hook name d => rfl
  | make name copy => exact Bool.or_true _
  | intercept stage hook object name => rfl
  | _ => exact absurd h id

-- Nothing is installed if nothing is installed outside of calls and inside of them.
theorem Course.installs_eq_nil {may : Activity H → Prop} {s t : State H} (h : Course may s t)
    (hmay : ∀ activity, may activity → activity.installed? = none)
    (hinner : ∀ activity ∈ inner (since s t), activity.installed? = none) :
    installs (since s t) = [] := by
  rw [installs, ← filterMap_outer Activity.installed? _ hinner, List.filterMap_eq_nil_iff]
  intro activity hmem
  rcases h.outer_may activity hmem with hactivity | ⟨_, _, rfl⟩
  · exact hmay activity hactivity
  · rfl

/-- A bring-up in which nobody but the registry acts too early. Up to a state in the middle only
    modules are run. They neither build nor install anything, and neither do the hooks and their
    factories. The other factories install nothing. And no definition that declares a capability of
    hooks is replaced by one that does not, be it in the registry or for a build. -/
structure Restrained (s mid t : State H) : Prop where
  modules : ∀ activity ∈ since s mid, activity.buildsOrInstalls = false
  hooks : ∀ activity ∈ within EntryPoint.isHook (since s t), activity.buildsOrInstalls = false
  factories : ∀ activity ∈ within EntryPoint.isMake (since s t), activity.installed? = none
  keeps : KeepsHooks s t

namespace Restrained

variable {s mid t u v : State H} (h : Restrained s mid t)
include h

-- What stands inside of calls on a part of the way that only calls hooks.
theorem hooks_on_part {may may' : Activity H → Prop} (h1 : Course may s u) (h2 : Course may' u v)
    (h3 : Course Anything v t) {activity : Activity H}
    (hmem : activity ∈ within EntryPoint.isHook (since u v)) : activity.buildsOrInstalls = false :=
  h.hooks activity (h1.within_subset h2 h3 hmem)

theorem keeps_on_part {may may' : Activity H → Prop} (h1 : Course may s u) (h2 : Course may' u v)
    (h3 : Course Anything v t) : KeepsHooks u v :=
  (h.keeps.left (h1.anything.followedBy h2.anything) h3).right h1 h2

/-- As long as the registry builds what it needs, all factories that are called are those of
    hooks. -/
theorem made_of_hooks (h1 : Course Anything s mid) (hs : s.container.Consistent)
    (h2 : MeetingNeeds mid u) (h3 : Course Anything u t) {name : String}
    {copy : Definition H.Factory} (hmem : .entered (.make name copy) ∈ since s u) :
    copy.isHook = true := by
  have hcourse := h2.2 ⟨h1.consistent hs, h.keeps_on_part h1 h2.1 h3⟩
  rw [h1.since_followedBy h2.1, List.mem_append] at hmem
  rcases hmem with hearly | hlate
  · cases h.modules _ hearly
  · rcases hcourse.mem_may_or_within EntryPoint.isHook_of_ofNeeds hlate with
      hmay | ⟨_, _, hleft⟩ | hinside
    · exact hmay.2
    · cases hleft
    · cases h.hooks_on_part h1 hcourse h3 hinside

/-- If an installation only asks for what it found, nothing is overlooked by it, and the hooks and
    factories that it calls install nothing. -/
theorem overlooked_eq_nil (query : CapabilityQuery)
    (hquery : query.capability = .interceptsInstance) (h1 : Course Anything s u)
    (hs : s.container.Consistent)
    (h2 : AskingFor (fun name => name ∈ (u.container.namesFor query).1) .interceptsInstance u v)
    (h3 : Course Anything v t) :
    overlooked (since u v) = [] ∧ ∀ activity ∈ inner (since u v), activity.installed? = none := by
  have hkeeps := h.keeps_on_part h1 h2.1 h3
  have hlossless : Lossless u v := ⟨h1.consistent hs, hkeeps⟩
  have hasked := hlossless.askedFor query
  rw [hquery] at hasked
  have hcourse := h2.2 hasked
  have hkind : ∀ point : EntryPoint H, (Activity.entered point).Needed
      (fun name => name ∈ (u.container.namesFor query).1)
      (fun d => d.hasCapability .interceptsInstance = true) → point.isHook = true :=
    EntryPoint.isHook_of_needed rfl
  refine ⟨List.filterMap_eq_nil_iff.2 fun activity hmem => ?_, fun activity hmem =>
    Activity.installed?_of_not (h.hooks_on_part h1 hcourse h3 (hcourse.inner_subset hkind hmem))⟩
  rcases hcourse.mem_may_or_within hkind hmem with hmay | ⟨_, _, rfl⟩ | hinside
  · cases activity with
    | walked stage name registration =>
        cases stage with
        | before => rfl
        | after =>
            -- The object is that of an interceptor that was found, and it is one still.
            rcases hasked.declares name hmay with ⟨old, hold, hdeclares⟩
            rcases hcourse.registration_walked hmem with ⟨hnone, hsome⟩
            cases registration with
            | none =>
                rw [hnone rfl] at hold
                cases hold
            | some d =>
                have hintercepts : d.hasCapability .interceptsInstance = true := by
                  rcases hsome d rfl with hthere | hstored
                  · rw [hthere] at hold
                    cases hold
                    exact hdeclares
                  · exact hkeeps.remains_of_stored hold hstored _ rfl hdeclares
                rw [Activity.overlooked?, Option.any_some, Definition.isExempt, hintercepts,
                  Bool.true_or, if_pos rfl]
    | _ => rfl
  · rfl
  · have hnot := h.hooks_on_part h1 hcourse h3 hinside
    cases activity with
    | walked stage name registration => cases hnot
    | _ => rfl

-- Where only hooks are called nothing is installed inside of calls.
theorem installs_of_needs (h1 : Course Anything s mid) (hs : s.container.Consistent)
    (h2 : MeetingNeeds mid u)
    (hnone : Course (fun activity => activity.installed? = none) mid u)
    (h3 : Course Anything u t) : installs (since s u) = [] := by
  have hcourse := h2.2 ⟨h1.consistent hs, h.keeps_on_part h1 h2.1 h3⟩
  have hlate : installs (since mid u) = [] := hnone.installs_eq_nil (fun _ => id)
    fun activity hmem => Activity.installed?_of_not (h.hooks_on_part h1 hcourse h3
      (hcourse.inner_subset EntryPoint.isHook_of_ofNeeds hmem))
  have hearly : installs (since s mid) = [] := List.filterMap_eq_nil_iff.2 fun activity hmem =>
    Activity.installed?_of_not (h.modules activity hmem)
  rw [h1.since_followedBy h2.1, installs_append, hearly, hlate, List.append_nil]

-- Builds install nothing.
theorem installs_of_builds (h1 : Course Anything s u) (h2 : Course Activity.OfBuild u v)
    (h3 : Course Anything v t) : installs (since u v) = [] := by
  refine h2.installs_eq_nil (fun _ => Activity.OfBuild.installed?_eq_none) fun activity hmem => ?_
  rcases mem_within_or (h1.within_subset h2 h3
    (h2.inner_subset EntryPoint.isHook_or_isMake hmem)) with hhook | hmake
  · exact Activity.installed?_of_not (h.hooks activity hhook)
  · exact h.factories activity hmake

end Restrained

namespace Engine

variable {E : Engine H} {shown : Facade} {config : Config}

-- What is built in advance, if anything is.
theorem preBuilt_along {may : Activity H → Prop} {inside along : State H → State H → Prop}
    (hT : Trail may inside along)
    (hget : ∀ name, AnyName name → Attempt.Along along (E.getOrBuild name)) (eager : Bool) :
    Attempt.Along along (if eager then E.preInstantiate else pure 0) := by
  split
  · exact preInstantiate_along hT hget
  · exact Attempt.along_pure hT 0

/-- At the end of an installation the listener detector is installed behind all others. -/
theorem installationPhase_last (hE : E.Lawful) {inst : Installation} {s t : State H}
    (h : (E.installationPhase shown config).run s = some (.ok inst, t)) :
    inst.chain = t.container.chain.names ∧
      t.container.chain.entries.getLast? = some ⟨listenerDetectorName, .listenerDetector⟩ ∧
      (since s t).getLast? = some (.installed listenerDetectorName) := by
  rcases run_installationPhase_parts h with ⟨division, ordered, plain, u1, u2, u3, u4, u5, u6, w,
    hdivide, hhighest, hbuildOrdered, hordered, hbuildPlain, hplain, hmergers, hlast, hinst⟩
  have hmarked : ∀ candidate, Attempt.Follows Anything (E.buildMarked shown candidate) :=
    buildMarked_follows hE (fun _ _ => trivial) shown
  have hway : Course Anything s w :=
    .followedBy (.quiet (.search s config.interceptorQuery)) <|
    .followedBy ((Course.trail Anything).post _ inst.target trivial) <|
    .followedBy (divide_follows hmarked _ _ _ _ hdivide)
      (installation_ways hE hhighest hbuildOrdered hordered hbuildPlain hplain hmergers).1
  cases hlast
  refine ⟨congrArg Installation.chain hinst, ?_, ?_⟩
  · exact List.getLast?_concat
  · rcases hway.log_suffix with ⟨news, hnews⟩
    rw [since_of_log (show _ = (.installed listenerDetectorName :: news) ++ s.log from
      congrArg (List.cons _) hnews.symm), List.reverse_cons]
    exact List.getLast?_concat

end Engine

namespace Restrained

variable {behaviour : Behaviour H} {facade : Facade} {depth : Nat} {s mid t u1 u2 u v : State H}
  (h : Restrained s mid t) (hs : s.container.Consistent)
include h hs

/-- The chain of a fresh container is empty when the installation begins. -/
theorem chain_before_installation {shown : Facade} {config : Config}
    {externals : List (ExternalHook H.Content)} {mutation : Mutation} {order : List String}
    (hempty : s.container.chain.entries = []) (hregistered : Course Anything s mid)
    (hneeds : MeetingNeeds mid u2)
    (hmutation : ((Engine.ofDepth behaviour facade depth).mutationPhase shown config externals).run
      mid = some (.ok mutation, u1))
    (hcustomization : ((Engine.ofDepth behaviour facade depth).customizationPhase shown config
      mutation.processed).run u1 = some (.ok order, u2))
    (hafter : Course Anything u2 t) : u2.container.chain.entries = [] := by
  have hE : (Engine.ofDepth behaviour facade depth).Lawful :=
    Engine.lawful_ofDepth behaviour facade depth
  -- Both phases build and call hooks, and nothing else.
  have hnone : Course (fun activity => activity.installed? = none) mid u2 :=
    .followedBy (Engine.mutationPhase_along hE.keeps (Course.trail _)
      (Engine.asked_follows hE fun _ => Activity.OfBuild.installed?_eq_none) (fun _ _ => rfl) _ _
      (fun _ _ => rfl) _ _ _ _ hmutation)
    (Engine.customizationPhase_along hE.keeps (Course.trail _)
      (Engine.asked_follows hE fun _ => Activity.OfBuild.installed?_eq_none) _ _ (fun _ _ => rfl) _
      _ _ _ hcustomization)
  rw [(hregistered.followedBy hneeds.1).chain_eq
    (h.installs_of_needs hregistered hs hneeds hnone hafter), hempty]

/-- The sentinel notes nothing, neither during the installation nor later. -/
theorem record_blank {shown : Facade} {config : Config} {inst : Installation}
    {count listeners : Nat} {event : Event} {eager : Bool} (hbefore : Course Anything s u1)
    (hempty : u1.container.chain.entries = [])
    (hinstallation : ((Engine.ofDepth behaviour facade depth).installationPhase shown config).run u1
      = some (.ok inst, u))
    (hbuilt : (if eager then (Engine.ofDepth behaviour facade depth).preInstantiate
      else pure 0).run u = some (.ok count, v))
    (hpublish : (Engine.ofDepth behaviour facade depth).publish event v = some (listeners, t)) :
    t.sentinels[inst.sentinel]? = some ⟨inst.target, []⟩ := by
  have hE : (Engine.ofDepth behaviour facade depth).Lawful :=
    Engine.lawful_ofDepth behaviour facade depth
  have hT := Engine.keeps_tracks behaviour facade depth inst.sentinel
  have hlater := hT.trail.followedBy
    (Engine.preBuilt_along hT.trail (Engine.asked_along hT (Engine.builds_tracks hT)) _ _ _ _
      hbuilt)
    (Engine.publish_along hT hT.trail (fun _ => trivial) (fun _ _ => trivial) _ _ _ hpublish)
  rcases h.overlooked_eq_nil config.interceptorQuery rfl hbefore hs
    (Engine.installationPhase_asks hE hinstallation) hlater.1 with ⟨hover, hquiet⟩
  rcases Engine.installationPhase_blank (Engine.keeps_tracks behaviour facade depth _) hempty
    hquiet hover hinstallation with ⟨installed, hall, hblank⟩
  exact Engine.blank_later hE (hbefore.consistent hs) hempty hinstallation hall hblank hlater

end Restrained

/-- A successful bring-up of a fresh container, if it is restrained. Up to the moment in which the
    listener detector is installed only factories of hooks are called. The report tells of no
    premature objects. And what is built in advance, and whatever is built for that, is walked
    through the hooks of the report before and after its initialization, in the order of the report
    and up to the first one that has no answer or fails. -/
theorem bringUp_intercepts (behaviour : Behaviour H) (facade : Facade) (depth : Nat)
    (setup : Setup H) {s mid t : State H} {overriding : Bool} {report : Report} {number : Nat}
    (hfresh : s.container = { allowOverriding := overriding })
    (hsetup : ((Engine.ofDepth behaviour facade depth).registerSetup setup).run s
      = some (.ok (), mid))
    (hrestrained : Restrained s mid t)
    (h : ((Engine.ofDepth behaviour facade depth).bringUp setup).run s
      = some (.ok (report, number), t)) :
    ∃ u v,
      since s t = since s u ++ since u v ++ since v t ∧
      (since s u).getLast? = some (.installed listenerDetectorName) ∧
      u.container.chain.entries.getLast? = some ⟨listenerDetectorName, .listenerDetector⟩ ∧
      u.container.chain.names = report.hookChain ∧
      (∀ name copy, .entered (.make name copy) ∈ since s u → copy.isHook = true) ∧
      report.premature = [] ∧
      (if setup.config.preInstantiateSingletons then
          (Engine.ofDepth behaviour facade depth).preInstantiate else pure 0).run u
        = some (.ok report.preInstantiated, v) ∧
      ∀ name object earlier, .made name object :: earlier <:+ v.log → u.log <:+ earlier →
        ∃ depth' w, w.log = .made name object :: earlier ∧
          (Engine.ofDepth behaviour facade depth').WalksBoth u.container.chain.entries name object
            w v := by
  have hE : (Engine.ofDepth behaviour facade depth).Lawful :=
    Engine.lawful_ofDepth behaviour facade depth
  have hs : s.container.Consistent := by
    rw [hfresh]
    exact Container.consistent_empty overriding
  rcases Engine.run_bringUp_parts h with ⟨mutation, order, inst, count, listeners, u1, u2, u3, u,
    v, hsetup', hmutation, hcustomization, hinstallation, hbuilt, hpublish, rfl, rfl⟩
  obtain rfl : mid = u1 := by
    rw [hsetup] at hsetup'
    cases hsetup'
    rfl
  -- The ways of the parts.
  have hregistered := Engine.registerSetup_follows hE setup _ _ _ hsetup
  have hneeds : MeetingNeeds mid u3 := MeetingNeeds.trail.followedBy
    (Engine.mutationPhase_needs hE hmutation) (Engine.customizationPhase_needs hE hcustomization)
  have hasks := Engine.installationPhase_asks hE hinstallation
  have hinstalled : MeetingNeeds mid u := MeetingNeeds.trail.followedBy hneeds
    (CourseIf.meetingNeeds setup.config.interceptorQuery rfl hasks)
  have hbuilds : Course Activity.OfBuild u v := Engine.preBuilt_along (Course.trail _)
    (Engine.asked_follows hE fun _ => id) _ _ _ _ hbuilt
  have hlast : Course Anything v t := Engine.publish_along hE.keeps (Course.trail _)
    (fun _ => trivial) (fun _ _ => trivial) _ _ _ hpublish
  have hafter : Course Anything u t := hbuilds.anything.followedBy hlast
  have hbefore : Course Anything s u3 := hregistered.followedBy hneeds.1
  have hwhole : Course Anything s u := hregistered.followedBy hinstalled.1
  have hempty : u3.container.chain.entries = [] :=
    hrestrained.chain_before_installation hs (by rw [hfresh]; rfl) hregistered hneeds hmutation
      hcustomization (hasks.1.followedBy hafter)
  have hblank := hrestrained.record_blank hs hbefore hempty hinstallation hbuilt hpublish
  -- What is built in advance finds the chain as the installation left it.
  have hlater := hrestrained.installs_of_builds hwhole hbuilds hlast
  have hattended : AlongCourses (Attended behaviour facade) u v := by
    have hE' := Engine.keeps_attended behaviour facade depth
    exact Engine.preBuilt_along hE'.trail (Engine.asked_along hE' (Engine.builds_attended hE')) _ _
      _ _ hbuilt
  rcases Engine.installationPhase_last hE hinstallation with ⟨hchain, hdetector, hend⟩
  refine ⟨u, v, ?_, ?_, hdetector, hchain.symm, ?_, ?_, hbuilt, hattended.2.attended hlater⟩
  · rw [(hwhole.followedBy hbuilds.anything).since_followedBy hlast,
      hwhole.since_followedBy hbuilds.anything]
  · rw [hbefore.since_followedBy hasks.1, List.getLast?_append, hend]
    rfl
  · exact fun _ _ hmem => hrestrained.made_of_hooks hregistered hs hinstalled hafter hmem
  · change (t.sentinels[inst.sentinel]?.map Sentinel.premature).getD [] = []
    rw [hblank]
    rfl

namespace Scenarios

/-- A state in which nothing is registered. -/
def blank : State host := { store := () }

def setupOf (config : Config) (definitions : List (Definition Bool)) : Setup host where
  config := config
  definitions := definitions
  stamp := ⟨"", "", "", ""⟩

/-- A bring-up from the beginning, with the state in which its modules are done. -/
def bringUpBlank (behaviour : Behaviour host) (setup : Setup host) :
    Option (State host × Report × State host) :=
  match ((Engine.ofDepth behaviour .direct 5).registerSetup setup).run blank,
      ((Engine.ofDepth behaviour .direct 5).bringUp setup).run blank with
  | some (.ok (), mid), some (.ok (report, _), t) => some (mid, report, t)
  | _, _ => none

-- The run of the modules and the whole one.
theorem runs_of_bringUpBlank {behaviour : Behaviour host} {setup : Setup host} {mid t : State host}
    {report : Report} (h : bringUpBlank behaviour setup = some (mid, report, t)) :
    ((Engine.ofDepth behaviour .direct 5).registerSetup setup).run blank = some (.ok (), mid) ∧
    ∃ number, ((Engine.ofDepth behaviour .direct 5).bringUp setup).run blank
      = some (.ok (report, number), t) := by
  unfold bringUpBlank at h
  split at h
  · rename_i hsetup hrun
    cases h
    exact ⟨hsetup, _, hrun⟩
  · cases h

/-- Whether hooks and their factories build and install nothing, and factories install nothing. -/
def modest (s t : State host) : Bool :=
  (within EntryPoint.isHook (since s t)).all (fun activity => !activity.buildsOrInstalls) &&
    (within EntryPoint.isMake (since s t)).all fun activity => activity.installed?.isNone

theorem of_modest {s t : State host} (h : modest s t = true) :
    (∀ activity ∈ within EntryPoint.isHook (since s t), activity.buildsOrInstalls = false) ∧
    ∀ activity ∈ within EntryPoint.isMake (since s t), activity.installed? = none := by
  rcases (Bool.and_eq_true _ _ ▸ h : _ ∧ _) with ⟨hhooks, hfactories⟩
  rw [List.all_eq_true] at hhooks hfactories
  exact ⟨fun activity hmem => Bool.not_eq_true' _ ▸ hhooks activity hmem,
    fun activity hmem => Option.isNone_iff_eq_none.1 (hfactories activity hmem)⟩

/-- Whether what is used according to a later entry declares all that was declared by what an
    earlier one stored under the same name. -/
def honoured (early late : Activity host) : Bool :=
  match early.stored?, late.used? with
  | some (name, old), some (other, new) => name != other || old.capabilities.all new.hasCapability
  | _, _ => true

-- There is no definition at first.
theorem keepsHooks_of_honoured {t : State host}
    (h : (since blank t).Pairwise fun early late => honoured early late = true) :
    KeepsHooks blank t := by
  refine ⟨fun name old hold => ?_, h.imp fun hhonoured name old hstored new hused c _ hc => ?_⟩
  · cases hold
  · simp only [honoured, hstored, hused, bne_self_eq_false, Bool.false_or,
      List.all_eq_true] at hhonoured
    exact hhonoured c (List.contains_iff_mem.1 hc)

/-- As `behaviour`, except that a dependent asks for the service, and that a stopping hook ends the
    walks of the service. -/
def stoppingWalks : Behaviour host := { behaviour with
  make := fun content d => do
    if d.name = "dependent" then
      let _ ← Prog.request (.getOrBuild "service")
    return .ok content
  intercept := fun _ stops object name =>
    return .ok (if stops && name = "service" then none else some object) }

def stoppingHook : Definition Bool := { interceptor "stopping" {} false with maker := .hosted true }

def dependent : Definition Bool := { service with name := "dependent", typeName := "dependent" }

def dependentSetup : Setup host :=
  setupOf .standard
    [dependent, stoppingHook, interceptor "highest" ⟨.highest, none⟩ false, service]

theorem report_of_dependentSetup : (bringUpBlank stoppingWalks dependentSetup).map (fun r =>
    ((since blank r.1).all (fun activity => !activity.buildsOrInstalls), modest blank r.2.2,
      decide ((since blank r.2.2).Pairwise fun early late => honoured early late = true),
      r.2.1.hookChain, r.2.1.preInstantiated))
      = some (true, true, true,
        ["meshestra.bootstrapSentinel", "highest", "stopping", "meshestra.listenerDetector"],
        1) := by
  decide +kernel

/-- The dependent is not built before both hooks are installed, and neither is the service. -/
theorem dependent_intercepted : ∃ (mid t u v : State host) (report : Report) (number : Nat),
    ((Engine.ofDepth stoppingWalks .direct 5).registerSetup dependentSetup).run blank
      = some (.ok (), mid) ∧
    ((Engine.ofDepth stoppingWalks .direct 5).bringUp dependentSetup).run blank
      = some (.ok (report, number), t) ∧
    Restrained blank mid t ∧
    since blank t = since blank u ++ since u v ++ since v t ∧
    u.container.chain.names
      = ["meshestra.bootstrapSentinel", "highest", "stopping", "meshestra.listenerDetector"] ∧
    (∀ name copy, .entered (.make name copy) ∈ since blank u → copy.isHook = true) ∧
    report.premature = [] ∧
    ∀ object earlier, .made "service" object :: earlier <:+ v.log → u.log <:+ earlier →
      ∃ depth w, w.log = .made "service" object :: earlier ∧
        (Engine.ofDepth stoppingWalks .direct depth).WalksBoth u.container.chain.entries
          "service" object w v := by
  rcases Option.map_eq_some_iff.1 report_of_dependentSetup with ⟨⟨mid, report, t⟩, hrun, hreport⟩
  simp only [Prod.mk.injEq, decide_eq_true_eq] at hreport
  rcases hreport with ⟨hmodules, hmodest, hhonoured, hchain, _⟩
  rcases runs_of_bringUpBlank hrun with ⟨hsetup, number, hbringUp⟩
  have hrestrained : Restrained blank mid t :=
    ⟨fun activity hmem => Bool.not_eq_true' _ ▸ List.all_eq_true.1 hmodules activity hmem,
      (of_modest hmodest).1, (of_modest hmodest).2, keepsHooks_of_honoured hhonoured⟩
  have hfresh : blank.container = { allowOverriding := false } := rfl
  rcases bringUp_intercepts stoppingWalks .direct 5 dependentSetup hfresh hsetup hrestrained
    hbringUp with
    ⟨u, v, hparts, _, _, hnames, hmakes, hpremature, _, hwalks⟩
  exact ⟨mid, t, u, v, report, number, hsetup, hbringUp, hrestrained, hparts, hnames.trans hchain,
    hmakes, hpremature, hwalks "service"⟩

/-- As `behaviour`, except that definitions are replaced by factories: a replacer puts an ordinary
    object in the place of a hook, a restorer puts the hook back, and the ordinary object asks for
    the restorer. -/
def replacingHooks : Behaviour host := { behaviour with
  make := fun replaced d => do
    if d.name = "replacer" then
      let _ ← Prog.request (.register { service with
        name := "highest", typeName := "highest", maker := .hosted true })
    if d.name = "restorer" then
      let _ ← Prog.request (.register (interceptor "highest" {} false))
    if replaced then
      let _ ← Prog.request (.getOrBuild "restorer")
    return .ok replaced }

def restorer : Definition Bool where
  name := "restorer"
  typeName := "restorer"
  scope := .prototype
  capabilities := [.customizesFactory]
  maker := .hosted false

def replacingSetup : Setup host :=
  setupOf { Config.standard with allowDefinitionOverriding := true }
    [restorer, interceptor "replacer" ⟨.highest, none⟩ false, interceptor "highest" {} false]

theorem report_of_replacingSetup : (bringUpBlank replacingHooks replacingSetup).map (fun r =>
    ((since blank r.1).all (fun activity => !activity.buildsOrInstalls), modest blank r.2.2,
      r.2.1.premature))
      = some (true, true, ["restorer"]) := by
  decide +kernel

/-- A module that builds the service as soon as it is registered. -/
def buildingModule : Setup host := { setupOf .standard [service] with
  modules := [do
    let _ ← Prog.request (.getOrBuild "service")
    return .ok ()] }

/-- As `behaviour`, except that a hook puts the definition of the service in the place of the copy
    of another hook. -/
def hookSwapping : Behaviour host := { behaviour with
  merge := fun _ name d =>
    return .ok (if name = "swapped" then { service with typeName := name } else d) }

def swappedSetup : Setup host := setupOf .standard [interceptor "highest" ⟨.highest, none⟩ false,
  interceptor "swapped" {} false]

/-- The name for which an entry tells a factory to be called that is not that of a hook. -/
def ordinary? : Activity host → Option String
  | .entered (.make name copy) => if copy.isHook then none else some name
  | _ => none

/-- What happens in front of the installation of the listener detector. -/
def untilDetector (chronicle : List (Activity host)) : List (Activity host) :=
  chronicle.takeWhile fun activity => activity.installed? != some listenerDetectorName

theorem report_of_buildingModule : (bringUpBlank behaviour buildingModule).map (fun r =>
    (modest blank r.2.2,
      decide ((since blank r.2.2).Pairwise fun early late => honoured early late = true),
      (untilDetector (since blank r.2.2)).filterMap ordinary?))
      = some (true, true, ["service"]) := by
  decide +kernel

theorem report_of_swappedSetup : (bringUpBlank hookSwapping swappedSetup).map (fun r =>
    ((since blank r.1).all (fun activity => !activity.buildsOrInstalls), modest blank r.2.2,
      decide ((stores (since blank r.2.2)).map Prod.fst).Nodup,
      (untilDetector (since blank r.2.2)).filterMap ordinary?))
      = some (true, true, true, ["swapped"]) := by
  decide +kernel

theorem mem_of_ordinary {chronicle : List (Activity host)} {name : String}
    (h : name ∈ chronicle.filterMap ordinary?) :
    ∃ copy, .entered (.make name copy) ∈ chronicle ∧ copy.isHook = false := by
  rcases List.mem_filterMap.1 h with ⟨activity, hmem, hordinary⟩
  unfold ordinary? at hordinary
  split at hordinary
  · split at hordinary
    · cases hordinary
    · cases hordinary
      exact ⟨_, hmem, Bool.eq_false_iff.2 ‹_›⟩
  · cases hordinary

/-- In these three bring-ups the hooks and factories build and install nothing but what they may,
    and objects escape the interceptors. In the first one the definition of a hook is replaced for a
    while. In the second one nothing is replaced, but a module builds an object when nothing is
    installed yet. In the third one no definition is stored twice, but a hook puts another
    definition in the place of the copy that the build of a hook uses. -/
theorem replaced_hooks_not_intercepted :
    (∃ (mid t : State host) (report : Report) (number : Nat),
      ((Engine.ofDepth replacingHooks .direct 5).registerSetup replacingSetup).run blank
        = some (.ok (), mid) ∧
      ((Engine.ofDepth replacingHooks .direct 5).bringUp replacingSetup).run blank
        = some (.ok (report, number), t) ∧
      (∀ activity ∈ since blank mid, activity.buildsOrInstalls = false) ∧
      (∀ activity ∈ within EntryPoint.isHook (since blank t),
        activity.buildsOrInstalls = false) ∧
      (∀ activity ∈ within EntryPoint.isMake (since blank t), activity.installed? = none) ∧
      report.premature = ["restorer"]) ∧
    (∃ (mid t : State host) (report : Report) (number : Nat),
      ((Engine.ofDepth behaviour .direct 5).registerSetup buildingModule).run blank
        = some (.ok (), mid) ∧
      ((Engine.ofDepth behaviour .direct 5).bringUp buildingModule).run blank
        = some (.ok (report, number), t) ∧
      (∀ activity ∈ within EntryPoint.isHook (since blank t),
        activity.buildsOrInstalls = false) ∧
      (∀ activity ∈ within EntryPoint.isMake (since blank t), activity.installed? = none) ∧
      KeepsHooks blank t ∧
      ∃ copy, .entered (.make "service" copy) ∈ untilDetector (since blank t) ∧
        copy.isHook = false) ∧
    ∃ (mid t : State host) (report : Report) (number : Nat),
      ((Engine.ofDepth hookSwapping .direct 5).registerSetup swappedSetup).run blank
        = some (.ok (), mid) ∧
      ((Engine.ofDepth hookSwapping .direct 5).bringUp swappedSetup).run blank
        = some (.ok (report, number), t) ∧
      (∀ activity ∈ since blank mid, activity.buildsOrInstalls = false) ∧
      (∀ activity ∈ within EntryPoint.isHook (since blank t),
        activity.buildsOrInstalls = false) ∧
      (∀ activity ∈ within EntryPoint.isMake (since blank t), activity.installed? = none) ∧
      ((stores (since blank t)).map Prod.fst).Nodup ∧
      ∃ copy, .entered (.make "swapped" copy) ∈ untilDetector (since blank t) ∧
        copy.isHook = false := by
  refine ⟨?_, ?_, ?_⟩
  · rcases Option.map_eq_some_iff.1 report_of_replacingSetup with ⟨⟨mid, report, t⟩, hrun, hreport⟩
    simp only [Prod.mk.injEq] at hreport
    rcases hreport with ⟨hmodules, hmodest, hpremature⟩
    rcases runs_of_bringUpBlank hrun with ⟨hsetup, number, hbringUp⟩
    exact ⟨mid, t, report, number, hsetup, hbringUp,
      fun activity hmem => Bool.not_eq_true' _ ▸ List.all_eq_true.1 hmodules activity hmem,
      (of_modest hmodest).1, (of_modest hmodest).2, hpremature⟩
  · rcases Option.map_eq_some_iff.1 report_of_buildingModule with ⟨⟨mid, report, t⟩, hrun, hreport⟩
    simp only [Prod.mk.injEq, decide_eq_true_eq] at hreport
    rcases hreport with ⟨hmodest, hhonoured, hordinary⟩
    rcases runs_of_bringUpBlank hrun with ⟨hsetup, number, hbringUp⟩
    exact ⟨mid, t, report, number, hsetup, hbringUp, (of_modest hmodest).1, (of_modest hmodest).2,
      keepsHooks_of_honoured hhonoured,
      mem_of_ordinary (hordinary ▸ List.mem_singleton_self "service")⟩
  · rcases Option.map_eq_some_iff.1 report_of_swappedSetup with ⟨⟨mid, report, t⟩, hrun, hreport⟩
    simp only [Prod.mk.injEq, decide_eq_true_eq] at hreport
    rcases hreport with ⟨hmodules, hmodest, hstores, hordinary⟩
    rcases runs_of_bringUpBlank hrun with ⟨hsetup, number, hbringUp⟩
    exact ⟨mid, t, report, number, hsetup, hbringUp,
      fun activity hmem => Bool.not_eq_true' _ ▸ List.all_eq_true.1 hmodules activity hmem,
      (of_modest hmodest).1, (of_modest hmodest).2, hstores,
      mem_of_ordinary (hordinary ▸ List.mem_singleton_self "swapped")⟩

end Scenarios

end ObjectBootstrap
