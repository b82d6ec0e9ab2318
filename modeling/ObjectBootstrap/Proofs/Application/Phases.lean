import ObjectBootstrap.Application
import ObjectBootstrap.Proofs.Application.Needs
import ObjectBootstrap.Proofs.Installation.Silence

/-!
# The phases build what they need

Each phase asks for the names that a query answered, and for no others. The mutation phase makes a
query in each of its passes; the other phases make one at their beginning and build what it answered
tier by tier. So each stretch of a phase from one query to the next asks for names of one kind, and
all phases together build what is needed.

## Theorems

* `Engine.mutationPhase_needs`, `Engine.customizationPhase_needs`: What the phases write down.
* `Engine.installationPhase_asks`: The installation asks for what it found and for nothing else.
* `Engine.run_bringUp_parts`: A bring-up, part by part.
-/

namespace ObjectBootstrap

variable {H : Host}

namespace Engine

-- The lower tiers are among the names that were divided.
theorem mem_of_mem_division {α : Type} {division : Division α} {names : List String}
    (h : (division.highest.map Ranked.name ++ division.ordered.map Prod.fst
      ++ division.plain.map Prod.fst).Perm names) :
    (∀ candidate ∈ division.ordered, candidate.1 ∈ names) ∧
      ∀ candidate ∈ division.plain, candidate.1 ∈ names := by
  refine ⟨fun candidate hmem => h.mem_iff.1 ?_, fun candidate hmem => h.mem_iff.1 ?_⟩
  · exact List.mem_append_left _ (List.mem_append_right _ (List.mem_map_of_mem hmem))
  · exact List.mem_append_right _ (List.mem_map_of_mem hmem)

variable {E : Engine H} (hE : E.Lawful) {shown : Facade} {config : Config}
include hE

-- A pass asks for what its query answered.
theorem discover_needs {pass : DiscoveryPass} {progress next : Progress H} {s t : State H}
    (h : (E.discover shown config pass progress).run s = some (.ok next, t)) :
    MeetingNeeds s t := by
  have hT := AskingFor.trail (H := H) (c := .mutatesRegistry)
    (fun name => name ∈ (s.container.namesFor config.mutatorQuery).1) rfl
  rcases run_discover_eq_ok h with ⟨batch, processed, u, htake, hcall, rfl⟩
  have hbuilt := take_along hT (getOrBuild_needed hE .mutatesRegistry rfl) shown pass
    (fun _ hname => hname) _ _ _ _ htake
  have hcalled := mutateEach_along hE.keeps hT shown (fun _ _ => trivial) _ _ _ _ hcall
  exact CourseIf.meetingNeeds config.mutatorQuery rfl
    (hT.followedBy (hT.quiet (.search s config.mutatorQuery) rfl
      (Container.namesFor_allowOverriding _ _)) (hT.followedBy hbuilt hcalled))

theorem sweeps_needs {s t : State H} {progress last : Progress H} {sweeps : List (Sweep H)}
    (h : Sweeps E shown config s progress sweeps t last) : MeetingNeeds s t := by
  have hT := MeetingNeeds.trail (H := H)
  induction h with
  | done s progress => exact hT.rest s
  | sweep hrun _ _ ih => exact hT.followedBy (discover_needs hE hrun) ih

theorem mutationPhase_needs {externals : List (ExternalHook H.Content)} {s t : State H}
    {m : Mutation} (h : (E.mutationPhase shown config externals).run s = some (.ok m, t)) :
    MeetingNeeds s t := by
  have hT := MeetingNeeds.trail (H := H)
  rcases mutationPhase_run h with ⟨progress, u, hsearch, hcustomize, _⟩
  rcases mutateAll_sweeps hsearch with ⟨v, sweeps, hexternals, hsweeps, _⟩
  have hmutated := mutateEach_along hE.keeps hT shown (fun _ _ => trivial) _ _ _ _ hexternals
  have hcustomized := customizeEach_along hE.keeps hT shown (fun _ _ => trivial) _ _ _ _ hcustomize
  exact hT.followedBy hmutated (hT.followedBy (sweeps_needs hE hsweeps) hcustomized)

theorem customizationPhase_needs {processed : Processed} {order : List String} {s t : State H}
    (h : (E.customizationPhase shown config processed).run s = some (.ok order, t)) :
    MeetingNeeds s t := by
  have hT := AskingFor.trail (H := H) (c := .customizesFactory)
    (fun name => name ∈ (s.container.namesFor config.customizerQuery).1) rfl
  have hbuild := fun {candidate : Candidate} (hname : candidate.1 ∈ _) =>
    buildCustomizer_along hT (getOrBuild_needed hE .customizesFactory rfl) shown hname
  have htier := customizeTier_along hE.keeps hT shown fun _ _ => trivial
  rcases run_customizationPhase_parts h with ⟨division, ordered, plain, _, _, _, u1, u2, u3, u4, u5,
    u6, hdivide, hhighest, hbuildOrdered, hordered, hbuildPlain, hplain, rfl, _⟩
  have hanswers := mem_of_mem_division (divide_perm buildCustomizer_name hdivide)
  refine CourseIf.meetingNeeds config.customizerQuery rfl ?_
  refine hT.followedBy (hT.quiet (.search s config.customizerQuery) rfl
    (Container.namesFor_allowOverriding _ _)) ?_
  refine hT.followedBy (divide_along hT hbuild (fun _ hname => List.mem_of_mem_filter hname) _ _ _
    hdivide) ?_
  refine hT.followedBy (htier _ _ _ _ hhighest) ?_
  refine hT.followedBy (buildEach_along hT hbuild (fun candidate hmem =>
    List.mem_of_mem_filter (hanswers.1 candidate hmem)) _ _ _ hbuildOrdered) ?_
  refine hT.followedBy (htier _ _ _ _ hordered) ?_
  refine hT.followedBy (buildEach_along hT hbuild (fun candidate hmem =>
    List.mem_of_mem_filter (hanswers.2 candidate hmem)) _ _ _ hbuildPlain) ?_
  exact hT.followedBy (htier _ _ _ _ hplain) (hT.quiet (.invalidate u6) rfl rfl)

/-- The installation asks for what it found and for nothing else. -/
theorem installationPhase_asks {inst : Installation} {s t : State H}
    (h : (E.installationPhase shown config).run s = some (.ok inst, t)) :
    AskingFor (fun name => name ∈ (s.container.namesFor config.interceptorQuery).1)
      .interceptsInstance s t := by
  have hT := AskingFor.trail (H := H) (c := .interceptsInstance)
    (fun name => name ∈ (s.container.namesFor config.interceptorQuery).1) rfl
  have hbuild := fun {candidate : Candidate} (hname : candidate.1 ∈ _) =>
    buildMarked_along hT (getOrBuild_needed hE .interceptsInstance rfl) shown hname
  have htier := installTier_along hT (fun _ => trivial)
  rcases run_installationPhase_parts h with ⟨division, ordered, plain, u1, u2, u3, u4, u5, u6, u7,
    hdivide, hhighest, hbuildOrdered, hordered, hbuildPlain, hplain, hmergers, hlast, _⟩
  have hanswers := mem_of_mem_division (divide_perm buildMarked_name hdivide)
  refine hT.followedBy (hT.quiet (.search s config.interceptorQuery) rfl
    (Container.namesFor_allowOverriding _ _)) ?_
  refine hT.followedBy (hT.post _ inst.target trivial) ?_
  refine hT.followedBy (divide_along hT hbuild (fun _ hname => hname) _ _ _ hdivide) ?_
  refine hT.followedBy (htier _ _ _ _ hhighest) ?_
  refine hT.followedBy (buildEach_along hT hbuild hanswers.1 _ _ _ hbuildOrdered) ?_
  refine hT.followedBy (htier _ _ _ _ hordered) ?_
  refine hT.followedBy (buildEach_along hT hbuild hanswers.2 _ _ _ hbuildPlain) ?_
  refine hT.followedBy (htier _ _ _ _ hplain) (hT.followedBy (htier _ _ _ _ hmergers) ?_)
  exact Run.along_install hT (fun _ => by simp only [ne_eq, reduceCtorEq, not_false_eq_true])
    trivial _ _ _ hlast

omit hE in
theorem registerEach_follows : ∀ definitions : List (Definition H.Factory),
    Attempt.Follows Anything (registerEach definitions) := by
  intro definitions
  induction definitions with
  | nil => exact Attempt.follows_pure _
  | cons d rest ih => exact Attempt.follows_bind (Attempt.follows_register trivial) fun _ => ih

theorem runEach_follows : ∀ programs : List (Prog H (Except Error Unit)),
    Attempt.Follows Anything (E.runEach programs) := by
  intro programs
  induction programs with
  | nil => exact Attempt.follows_pure _
  | cons program rest ih => exact Attempt.follows_bind (hE E.facade program) fun _ => ih

theorem registerSetup_follows (setup : Setup H) :
    Attempt.Follows Anything (E.registerSetup setup) := by
  have hrest : Attempt.Follows Anything (do
      registerEach setup.definitions
      E.runEach setup.modules : Attempt H Unit) :=
    Attempt.follows_bind (registerEach_follows _) fun _ => runEach_follows hE _
  have hallow : Run.Follows Anything
      (Run.modifyContainer fun k => { k with allowOverriding := true } : Run H Unit) := by
    intro s a t h
    cases h
    exact .quiet (.allowOverriding s)
  have hconfigured : ∀ settings : Settings, Attempt.Follows Anything (do
      modify fun s => { s with settings }
      Attempt.register placeholderConfigurerDefinition
      registerEach setup.definitions
      E.runEach setup.modules : Attempt H Unit) := by
    intro settings
    refine Attempt.follows_bind (fun s a t h => ?_) fun _ =>
      Attempt.follows_bind (Attempt.follows_register trivial) fun _ => hrest
    cases h
    exact .quiet (.configure s _)
  unfold registerSetup
  dsimp only
  split
  · refine Attempt.follows_bind (Attempt.follows_step hallow) fun _ => ?_
    split
    · exact hconfigured _
    · exact hrest
  · split
    · exact hconfigured _
    · exact hrest

omit hE in
/-- A successful bring-up, part by part. -/
theorem run_bringUp_parts {setup : Setup H} {report : Report} {number : Nat} {s t : State H}
    (h : (E.bringUp setup).run s = some (.ok (report, number), t)) :
    ∃ mutation order inst count listeners u1 u2 u3 u4 v,
      (E.registerSetup setup).run s = some (.ok (), u1) ∧
      (E.mutationPhase E.facade setup.config setup.externals).run u1
        = some (.ok mutation, u2) ∧
      (E.customizationPhase E.facade setup.config mutation.processed).run u2
        = some (.ok order, u3) ∧
      (E.installationPhase E.facade setup.config).run u3 = some (.ok inst, u4) ∧
      (if setup.config.preInstantiateSingletons then E.preInstantiate else pure 0).run u4
        = some (.ok count, v) ∧
      E.publish setup.stamp.refreshed v = some (listeners, t) ∧
      number = inst.sentinel ∧
      report = {
        stamp := setup.stamp
        rounds := mutation.rounds
        mutationOrder := mutation.mutationOrder
        customizationOrder := mutation.customizationOrder ++ order
        hookChain := inst.chain
        target := inst.target
        premature := (t.sentinels[inst.sentinel]?.map Sentinel.premature).getD []
        preInstantiated := count
        listeners := t.listeners.names } := by
  rcases Attempt.run_bind_eq_ok_iff.1 h with ⟨_, u1, hsetup, h⟩
  rcases Attempt.run_bind_eq_ok_iff.1 h with ⟨mutation, u2, hmutation, h⟩
  rcases Attempt.run_bind_eq_ok_iff.1 h with ⟨order, u3, hcustomization, h⟩
  rcases Attempt.run_bind_eq_ok_iff.1 h with ⟨inst, u4, hinstallation, h⟩
  -- The objects that are built in advance, if any, stand in front of the rest in both cases.
  obtain ⟨count, v, hbuild, h⟩ : ∃ count v,
      (if setup.config.preInstantiateSingletons then E.preInstantiate else pure 0).run u4
        = some (.ok count, v) ∧ _ := by
    by_cases hpre : setup.config.preInstantiateSingletons = true
    · simp only [hpre, if_true] at h ⊢
      exact Attempt.run_bind_eq_ok_iff.1 h
    · simp only [hpre] at h ⊢
      exact Attempt.run_bind_eq_ok_iff.1 h
  rcases Attempt.run_bind_eq_ok_iff.1 h with ⟨listeners, w, hpublish, h⟩
  rcases Attempt.run_bind_eq_ok_iff.1 h with ⟨_, _, hget, h⟩
  cases hget
  cases h
  exact ⟨mutation, order, inst, count, listeners, u1, u2, u3, u4, v, hsetup, hmutation,
    hcustomization, hinstallation, hbuild, Attempt.run_step_eq_ok_iff.1 hpublish, rfl, rfl⟩

end Engine

end ObjectBootstrap
