import ObjectBootstrap.Proofs.Course.Endings
import ObjectBootstrap.Proofs.Customization.ExactlyOnce

/-!
# The schedule of a customization phase

A customization phase looks up its customizers once. It divides them among the tiers, and where each
of them stands is settled when its turn comes, after the customizers of the highest tier in front of
it were built. From then on the phase goes by this roster alone: what the customizers and the
factories do to the registry in the meantime changes what is built, but not who is called or when.

The phase takes two kinds of steps of its own accord: it has a customizer built, and it calls one.
`agenda` lists them for a roster, tier by tier, each tier being built in registration order and
called in running order. A phase that succeeds takes all steps of its agenda. One that fails takes
the first ones, and if it fails because a customizer does, then the call of this customizer is its
last step.

The roster of a phase that fails while it still divides the names is the part that was divided. That
part too is an agenda of its own, so nothing has to be said of such a phase that is not said of
others.

## Main definitions

* `PhaseStep`, `phaseSteps`: The steps that a customization phase takes itself.
* `agenda`: The steps that a roster comes to.
* `Surveyed`: Every candidate of a roster stands where it stood when its turn came.
* `Performs`: A part of a phase takes the steps of a plan, or the first ones up to its failure.

## Theorems

* `calls_of_agenda`: The calls of an agenda are in the order of a single sort.
* `Engine.divide_performs`: What a division of names does, whether it fails or not.
* `Engine.divided_performs`: What the phase does behind the division.
* `customizationPhase_schedule`: A customization phase goes by the agenda of its roster.
-/

namespace ObjectBootstrap

variable {H : Host} {α β : Type}

-- An attempt of which the answer is only made into another one.
theorem Attempt.run_map_eq_some {first : Attempt H α} {f : α → β} {s t : State H}
    {result : Except Error β}
    (h : (first >>= fun a => pure (f a)).run s = some (result, t)) :
    ∃ answer, first.run s = some (answer, t) ∧ result = answer.map f := by
  rcases Attempt.run_bind_eq_some_iff.1 h with ⟨e, herror, rfl⟩ | ⟨a, u, hok, hpure⟩
  · exact ⟨.error e, herror, rfl⟩
  · cases hpure
    exact ⟨.ok a, hok, rfl⟩

/-- A step that a customization phase takes itself. -/
inductive PhaseStep where
  | build (name : String)
  | call (name : String)
  deriving DecidableEq

namespace PhaseStep

/-- The customizer that a step calls. -/
def called? : PhaseStep → Option String
  | build _ => none
  | call name => some name

end PhaseStep

/-- The step that an entry outside of calls is the beginning of. -/
def Activity.phaseStep? : Activity H → Option PhaseStep
  | .requested name => some (.build name)
  | .entered (.customize name _) => some (.call name)
  | _ => none

/-- The steps that a customization phase takes itself, first to last. -/
def phaseSteps (chronicle : List (Activity H)) : List PhaseStep :=
  (outer chronicle).filterMap Activity.phaseStep?

/-- The customizers that a phase calls itself, first to last. -/
def customized (chronicle : List (Activity H)) : List String :=
  (phaseSteps chronicle).filterMap PhaseStep.called?

/-- The customizers of a tier are built in the order of the roster. -/
def buildsOf (tier : Tier) (roster : List (Ranked Unit)) : List PhaseStep :=
  (ofTier tier roster).map fun candidate => .build candidate.name

/-- The customizers of a tier are called in running order. -/
def callsOf (tier : Tier) (roster : List (Ranked Unit)) : List PhaseStep :=
  (sortRanked (ofTier tier roster)).map fun candidate => .call candidate.name

/-- A hook without what it is. -/
def Ranked.bare (r : Ranked α) : Ranked Unit := ⟨r.name, r.placement, ()⟩

/-- The entry of a roster that a candidate is. -/
def entryOf (candidate : Engine.Candidate) : Ranked Unit := ⟨candidate.1, candidate.2, ()⟩

/-- A roster is divided into its tiers. -/
structure Engine.Division.Of (division : Engine.Division α) (roster : List (Ranked Unit)) :
    Prop where
  highest : division.highest.map Ranked.bare = ofTier .highest roster
  ordered : division.ordered.map entryOf = ofTier .ordered roster
  plain : division.plain.map entryOf = ofTier .plain roster

/-- The steps that a roster comes to: tier by tier it is built and then called. -/
def agenda (roster : List (Ranked Unit)) : List PhaseStep :=
  Tier.all.flatMap fun tier => buildsOf tier roster ++ callsOf tier roster

/-- The customizers that a phase finds in a registry, in registration order: those that answer its
    query and were not taken before. -/
def Config.customizers (config : Config) (k : Container H) (processed : Processed) : List String :=
  (k.namesFor config.customizerQuery).1.filter fun name => !processed.contains name

/-- Every candidate of a roster stands where the registry says when its turn comes: behind the
    builds of the candidates of the highest tier in front of it, and in front of all other steps. -/
def Surveyed (shown : Facade) (s t : State H) (roster : List (Ranked Unit)) : Prop :=
  ∀ early candidate late, roster = early ++ candidate :: late →
    ∃ u, Course Anything s u ∧ Course Anything u t ∧
      phaseSteps (since s u) = buildsOf .highest early ∧
      candidate.placement = shown.classify u.container candidate.name

theorem agenda_eq (roster : List (Ranked Unit)) :
    agenda roster = buildsOf .highest roster ++ (callsOf .highest roster
      ++ (buildsOf .ordered roster ++ (callsOf .ordered roster
        ++ (buildsOf .plain roster ++ callsOf .plain roster)))) := by
  simp only [agenda, Tier.all, List.flatMap_cons, List.flatMap_nil, List.append_nil,
    List.append_assoc]

theorem called_buildsOf (tier : Tier) (roster : List (Ranked Unit)) :
    (buildsOf tier roster).filterMap PhaseStep.called? = [] := by
  rw [buildsOf, List.filterMap_map, List.filterMap_eq_nil_iff]
  exact fun _ _ => rfl

theorem called_callsOf (tier : Tier) (roster : List (Ranked Unit)) :
    (callsOf tier roster).filterMap PhaseStep.called?
      = (sortRanked (ofTier tier roster)).map Ranked.name := by
  rw [callsOf, List.filterMap_map, ← List.filterMap_eq_map]
  rfl

/-- The calls of an agenda are those of its roster in the order of a single sort. -/
theorem calls_of_agenda (roster : List (Ranked Unit)) :
    (agenda roster).filterMap PhaseStep.called? = (sortRanked roster).map Ranked.name := by
  simp only [agenda_eq, List.filterMap_append, called_buildsOf, called_callsOf, List.nil_append]
  rw [← sortRanked_tiers roster, List.map_append, List.map_append, List.append_assoc]

theorem ofTier_cons_self {candidate : Ranked Unit} {tier : Tier}
    (h : candidate.placement.tier = tier) (roster : List (Ranked Unit)) :
    ofTier tier (candidate :: roster) = candidate :: ofTier tier roster :=
  List.filter_cons_of_pos (decide_eq_true h)

theorem ofTier_cons_other {candidate : Ranked Unit} {tier : Tier}
    (h : candidate.placement.tier ≠ tier) (roster : List (Ranked Unit)) :
    ofTier tier (candidate :: roster) = ofTier tier roster :=
  List.filter_cons_of_neg (by rwa [decide_eq_true_eq])

-- The calls of a tier are those of the hooks that were built for it, in their running order.
theorem callsOf_eq {tier : Tier} {roster : List (Ranked Unit)} {hooks : List (Ranked α)}
    (h : hooks.map Ranked.bare = ofTier tier roster) :
    callsOf tier roster = (sortRanked hooks).map fun hook => .call hook.name := by
  have hsorted : (sortRanked hooks).map Ranked.bare = sortRanked (hooks.map Ranked.bare) :=
    sortRanked_map (f := Ranked.bare) (fun _ : Ranked α => rfl) hooks
  rw [callsOf, ← h, ← hsorted, List.map_map]
  rfl

theorem buildsOf_eq {tier : Tier} {roster : List (Ranked Unit)} {candidates : List Engine.Candidate}
    (h : candidates.map entryOf = ofTier tier roster) :
    buildsOf tier roster = candidates.map fun candidate => .build candidate.1 := by
  rw [buildsOf, ← h, List.map_map]
  rfl

theorem phaseSteps_followedBy {may may' : Activity H → Prop} {s t u : State H}
    (h1 : Course may s t) (h2 : Course may' t u) :
    phaseSteps (since s u) = phaseSteps (since s t) ++ phaseSteps (since t u) := by
  rw [h1.since_followedBy h2, phaseSteps, outer_append h1.nested, List.filterMap_append]
  rfl

-- What builds something writes down neither a request nor the call of a customizer.
theorem phaseSteps_of_steps {s t : State H} (h : Course Activity.OfSteps s t) :
    phaseSteps (since s t) = [] := by
  refine List.filterMap_eq_nil_iff.2 fun activity hmem => ?_
  rcases h.outer_may activity hmem with hstep | ⟨point, failure, rfl⟩
  · cases activity with
    | entered point =>
        cases point with
        | customize name hook => exact absurd hstep id
        | _ => rfl
    | requested name => exact absurd hstep id
    | _ => rfl
  · rfl

namespace Surveyed

variable {shown : Facade} {s t u : State H} {candidate : Ranked Unit} {roster : List (Ranked Unit)}

theorem nil (shown : Facade) (s t : State H) : Surveyed shown s t [] := fun early _ _ heq =>
  absurd heq.symm (List.append_ne_nil_of_right_ne_nil early (List.cons_ne_nil _ _))

theorem single (hplace : candidate.placement = shown.classify s.container candidate.name)
    (h : Course Anything s t) : Surveyed shown s t [candidate] := by
  intro early other late heq
  cases early with
  | nil =>
      cases heq
      exact ⟨s, .rest s, h, by rw [since_self]; rfl, hplace⟩
  | cons first early =>
      exact absurd (List.cons.inj heq).2.symm
        (List.append_ne_nil_of_right_ne_nil early (List.cons_ne_nil other late))

-- A candidate whose turn comes first, in front of the rest of a roster.
theorem cons (hplace : candidate.placement = shown.classify s.container candidate.name)
    (hsu : Course Anything s u) (hsteps : phaseSteps (since s u) = buildsOf .highest [candidate])
    (hut : Course Anything u t) (h : Surveyed shown u t roster) :
    Surveyed shown s t (candidate :: roster) := by
  intro early other late heq
  cases early with
  | nil =>
      cases heq
      exact ⟨s, .rest s, hsu.followedBy hut, by rw [since_self]; rfl, hplace⟩
  | cons first early =>
      cases heq
      rcases h early other late rfl with ⟨v, huv, hvt, hlater, hplaced⟩
      refine ⟨v, hsu.followedBy huv, hvt, ?_, hplaced⟩
      rw [phaseSteps_followedBy hsu huv, hsteps, hlater, buildsOf, buildsOf, buildsOf,
        ← List.map_append, ofTier, ofTier, ofTier, ← List.filter_append]
      rfl

theorem onward (h : Surveyed shown s t roster) (htu : Course Anything t u) :
    Surveyed shown s u roster := by
  intro early candidate late heq
  rcases h early candidate late heq with ⟨v, hsv, hvt, hsteps, hplace⟩
  exact ⟨v, hsv, hvt.followedBy htu, hsteps, hplace⟩

-- Looking for the names of a roster is no step.
theorem earlier (h : Surveyed shown t u roster) (hst : Course Activity.OfSteps s t) :
    Surveyed shown s u roster := by
  intro early candidate late heq
  rcases h early candidate late heq with ⟨v, htv, hvu, hsteps, hplace⟩
  refine ⟨v, hst.anything.followedBy htv, hvu, ?_, hplace⟩
  rw [phaseSteps_followedBy hst htv, phaseSteps_of_steps hst, hsteps, List.nil_append]

end Surveyed

/-- The customizer that an entry point calls. -/
def EntryPoint.customized? : EntryPoint H → Option String
  | .customize name _ => some name
  | _ => none

-- The customizers that are called are told in the same order by the calls of the phase.
theorem customized_eq (chronicle : List (Activity H)) :
    customized chronicle = (phaseCalls chronicle).filterMap EntryPoint.customized? := by
  rw [customized, phaseSteps, phaseCalls, calls, List.filterMap_filterMap, List.filterMap_filter,
    List.filterMap_filterMap]
  refine List.filterMap_congr fun activity _ => ?_
  cases activity with
  | entered point => cases point <;> rfl
  | _ => rfl

theorem Engine.Turns.customized_eq {E : Engine H} (hE : E.Lawful) {shown : Facade} {s t : State H}
    {hooks : List (String × Object H.Content)} {answer : Except Failure Unit}
    (h : E.Turns shown (customizations hooks) s answer t) :
    customized (since s t) = hooks.map Prod.fst := by
  rw [ObjectBootstrap.customized_eq, h.calls hE, customizations, List.filterMap_map,
    ← List.filterMap_eq_map]
  rfl

/-- What a part of a phase reports of the customizers that it calls: if the program of one fails
    then this is the last one, and the part fails with its failure. -/
def Reported (called : List (String × Object H.Content)) (answer : Except Failure Unit)
    (result : Except Error α) : Prop :=
  ∀ failure, answer = .error failure → ∃ before name hook, called = before ++ [(name, hook)] ∧
    result = .error (.hookExecution name .factoryCustomization failure)

/-- A part of a phase takes the steps of a plan, or the first ones up to its failure. The
    customizers among these steps are called in turn, and the failure of one is reported. -/
structure Performs (E : Engine H) (shown : Facade) (plan : List PhaseStep) (s : State H)
    (result : Except Error α) (t : State H) : Prop where
  course : Course Anything s t
  begun : phaseSteps (since s t) <+: plan
  ended : ∀ a, result = .ok a → phaseSteps (since s t) = plan
  turns : ∃ called answer, E.Turns shown (customizations called) s answer t ∧
    Reported called answer result

namespace Reported

variable {called : List (String × Object H.Content)} {answer : Except Failure Unit}

-- There is nothing to report if no program failed.
theorem of_ok (result : Except Error α) : Reported called (.ok ()) result :=
  fun _ hfailure => by cases hfailure

theorem ok {a : α} (h : Reported called answer (.ok a)) : answer = .ok () := by
  match answer with
  | .ok () => rfl
  | .error failure =>
    rcases h failure rfl with ⟨_, _, _, _, hcontra⟩
    cases hcontra

theorem error {e : Error} (h : Reported called answer (.error e : Except Error α)) :
    Reported called answer (.error e : Except Error β) := by
  intro failure hfailure
  rcases h failure hfailure with ⟨before, name, hook, hcalled, herror⟩
  cases herror
  exact ⟨before, name, hook, hcalled, rfl⟩

theorem behind (early : List (String × Object H.Content)) {result : Except Error α}
    (h : Reported called answer result) : Reported (early ++ called) answer result := by
  intro failure hfailure
  rcases h failure hfailure with ⟨before, name, hook, rfl, herror⟩
  exact ⟨early ++ before, name, hook, (List.append_assoc _ _ _).symm, herror⟩

end Reported

namespace Performs

variable {E : Engine H} {shown : Facade} {plan more : List PhaseStep} {s t u : State H}

/-- A part that succeeds is followed by another one. -/
theorem followedBy {a : α} {result : Except Error β} (h1 : Performs E shown plan s (.ok a) u)
    (h2 : Performs E shown more u result t) : Performs E shown (plan ++ more) s result t := by
  have hsteps : phaseSteps (since s t) = plan ++ phaseSteps (since u t) := by
    rw [phaseSteps_followedBy h1.course h2.course, h1.ended a rfl]
  refine ⟨h1.course.followedBy h2.course, ?_, fun b hb => ?_, ?_⟩
  · rw [hsteps]
    exact (List.prefix_append_right_inj plan).2 h2.begun
  · rw [hsteps, h2.ended b hb]
  · rcases h1.turns with ⟨early, first, hearly, hfirst⟩
    rcases h2.turns with ⟨late, answer, hlate, hanswer⟩
    cases hfirst.ok
    exact ⟨early ++ late, answer, customizations_append early late ▸ hearly.followedBy hlate,
      hanswer.behind early⟩

/-- A part that fails is not followed by what else was planned. -/
theorem stopped {e : Error} (h : Performs E shown plan s (.error e : Except Error α) t)
    (more : List PhaseStep) :
    Performs E shown (plan ++ more) s (.error e : Except Error β) t := by
  rcases h.turns with ⟨called, answer, hturns, hanswer⟩
  refine ⟨h.course, h.begun.trans (List.prefix_append plan more), fun b hb => ?_, called, answer,
    hturns, hanswer.error⟩
  cases hb

/-- Two parts one behind the other. -/
theorem bind {first : Attempt H α} {second : α → Attempt H β} {result : Except Error β}
    (h : (first >>= second).run s = some (result, t))
    (hfirst : ∀ {answer u}, first.run s = some (answer, u) → Performs E shown plan s answer u)
    (hsecond : ∀ {a u}, first.run s = some (.ok a, u) → (second a).run u = some (result, t) →
      Performs E shown more u result t) : Performs E shown (plan ++ more) s result t := by
  rcases Attempt.run_bind_eq_some_iff.1 h with ⟨e, herror, rfl⟩ | ⟨a, u, hok, hrest⟩
  · exact (hfirst herror).stopped more
  · exact (hfirst hok).followedBy (hsecond hok hrest)

-- A part that takes all steps of a plan, whatever it comes to.
theorem of_whole (hE : E.Lawful) {result : Except Error α}
    (called : List (String × Object H.Content)) {answer : Except Failure Unit}
    (hsteps : phaseSteps (since s t) = plan)
    (hturns : E.Turns shown (customizations called) s answer t)
    (hreported : Reported called answer result) : Performs E shown plan s result t :=
  ⟨hturns.course hE, hsteps ▸ List.prefix_rfl, fun _ _ => hsteps, called, answer, hturns,
    hreported⟩

-- The steps of a build are no steps of the phase.
theorem of_steps {result : Except Error α} (h : Course Activity.OfSteps s t) :
    Performs E shown [] s result t := by
  have hsteps := phaseSteps_of_steps h
  exact ⟨h.anything, hsteps ▸ List.prefix_rfl, fun _ _ => hsteps, [], .ok (),
    .done (h.weaken fun _ => Activity.OfSteps.ofBuild), .of_ok result⟩

theorem rest (s : State H) (result : Except Error α) : Performs E shown [] s result s :=
  of_steps (.rest s)

-- What is made of the answer does not matter for the steps.
theorem map {answer : Except Error α} (h : Performs E shown plan s answer t) (f : α → β) :
    Performs E shown plan s (answer.map f) t := by
  cases answer with
  | error e => exact List.append_nil plan ▸ h.stopped []
  | ok a =>
      rcases h.turns with ⟨called, answer, hturns, hanswer⟩
      cases hanswer.ok
      exact ⟨h.course, h.begun, fun _ _ => h.ended a rfl, called, .ok (), hturns, .of_ok _⟩

-- A plan of builds calls no customizer.
theorem customized_eq_nil {result : Except Error α} (h : Performs E shown plan s result t)
    (hplan : plan.filterMap PhaseStep.called? = []) : customized (since s t) = [] := by
  have hcalls := h.begun.filterMap PhaseStep.called?
  rw [hplan] at hcalls
  exact List.prefix_nil.1 hcalls

end Performs

namespace Engine

variable {E : Engine H} {shown : Facade}

/-- A customizer is built by one request, whatever it comes to. -/
theorem buildCustomizer_performs (hE : E.Lawful) {candidate : Candidate} {s t : State H}
    {result : Except Error (Ranked (Object H.Content))}
    (h : (E.buildCustomizer shown candidate).run s = some (result, t)) :
    Performs E shown [.build candidate.1] s result t := by
  have hrequest : ∃ answer, (E.getOrBuild candidate.1).run s = some (answer, t) := by
    have hhook : ∃ answer, (E.buildHook shown .factoryCustomization .customizesFactory .customizer
        candidate.1).run s = some (answer, t) := by
      rcases Attempt.run_bind_eq_some_iff.1 h with ⟨e, herror, _⟩ | ⟨hook, u, hok, hpure⟩
      · exact ⟨_, herror⟩
      · cases hpure
        exact ⟨_, hok⟩
    rcases hhook with ⟨answer, hhook⟩
    rcases run_buildHook_cases hhook with ⟨cause, hrun, _⟩ | ⟨object, hrun⟩
    · exact ⟨_, hrun⟩
    · exact ⟨_, hrun⟩
  rcases hrequest with ⟨answer, hrequest⟩
  rcases run_getOrBuild_eq_some hrequest with ⟨u, hobtain, rfl⟩
  have hcourse : Course Activity.OfSteps (s.note (.requested candidate.1)) u :=
    obtain_follows hE (fun _ => id) candidate.1 _ _ _ hobtain
  have hsteps : phaseSteps (since s (u.note (.answered candidate.1 answer.toOption)))
      = [.build candidate.1] := by
    have hnone := phaseSteps_of_steps hcourse
    rw [phaseSteps] at hnone
    rw [hcourse.since_between, phaseSteps, outer_between (.requested candidate.1)
      (.answered candidate.1 answer.toOption) trivial trivial hcourse.nested, List.cons_append,
      List.filterMap_cons, List.filterMap_append, hnone]
    rfl
  have hbuild : Course Activity.OfBuild s (u.note (.answered candidate.1 answer.toOption)) :=
    .request trivial trivial (hcourse.weaken fun _ => Activity.OfSteps.ofBuild)
  exact .of_whole hE [] hsteps (.done hbuild) (.of_ok result)

theorem buildEach_performs (hE : E.Lawful) : ∀ {candidates : List Candidate} {s t : State H}
    {result : Except Error (List (Ranked (Object H.Content)))},
    (buildEach (E.buildCustomizer shown) candidates).run s = some (result, t) →
      Performs E shown (candidates.map fun candidate => .build candidate.1) s result t := by
  intro candidates
  induction candidates with
  | nil =>
      intro s t result h
      cases h
      exact .rest s _
  | cons candidate rest ih =>
      intro s t result h
      refine Performs.bind h (fun hfirst => buildCustomizer_performs hE hfirst)
        fun _ hrest => ?_
      have := Performs.bind hrest (fun hmore => ih hmore) fun _ hpure => by
        cases hpure
        exact .rest _ _
      rwa [List.append_nil] at this

/-- A customizer that fails fails the attempt to call it. -/
theorem customize_performs (hE : E.Lawful) {name : String} {hook : Object H.Content} {s t : State H}
    {result : Except Error Unit} (h : (E.customize shown name hook).run s = some (result, t)) :
    Performs E shown [.call name] s result t := by
  rcases run_customize_iff.1 h with ⟨answer, hcalled, rfl⟩
  have hturn : E.Turn shown (.customize name hook) s answer t := .customize hcalled
  have hsteps : phaseSteps (since s t) = [.call name] := by
    rw [phaseSteps, hturn.outer_eq hE]
    rfl
  refine .of_whole hE [(name, hook)] hsteps (.single hturn) fun failure hfailure => ?_
  rw [hfailure]
  exact ⟨[], name, hook, rfl, rfl⟩

theorem customizeEach_performs (hE : E.Lawful) :
    ∀ {hooks : List (String × Object H.Content)} {s t : State H} {result : Except Error Unit},
      (E.customizeEach shown hooks).run s = some (result, t) →
        Performs E shown (hooks.map fun hook => .call hook.1) s result t := by
  intro hooks
  induction hooks with
  | nil =>
      intro s t result h
      cases h
      exact .rest s _
  | cons hook rest ih =>
      intro s t result h
      exact Performs.bind h (fun hfirst => customize_performs hE hfirst) fun _ hrest => ih hrest

theorem customizeTier_performs (hE : E.Lawful) {hooks : List (Ranked (Object H.Content))}
    {s t : State H} {result : Except Error (List String)}
    (h : (E.customizeTier shown hooks).run s = some (result, t)) :
    Performs E shown ((sortRanked hooks).map fun hook => .call hook.name) s result t := by
  have := Performs.bind h (fun heach => customizeEach_performs hE heach) fun _ hpure => by
    cases hpure
    exact .rest _ _
  rwa [List.append_nil, List.map_map] at this

-- A built customizer stands where its candidate does.
theorem buildCustomizer_bare {candidate : Candidate} {r : Ranked (Object H.Content)}
    {s t : State H} (h : (E.buildCustomizer shown candidate).run s = some (.ok r, t)) :
    r.bare = entryOf candidate := by
  rcases Attempt.run_bind_eq_ok_iff.1 h with ⟨hook, u, _, hpure⟩
  cases hpure
  rfl

/-- Of some names the first one is looked up before the others are divided. It is built at once if
    it belongs to the highest tier, and either way it goes to the front of its tier. -/
theorem run_divide_cons {build : Candidate → Attempt H (Ranked α)}
    (hbuild : ∀ {candidate r s t}, (build candidate).run s = some (.ok r, t) →
      r.bare = entryOf candidate)
    {name : String} {rest : List String} {s t : State H} {result : Except Error (Division α)}
    (h : (divide shown build (name :: rest)).run s = some (result, t)) :
    ∃ candidate : Candidate, candidate = (name, shown.classify s.container name) ∧
      ((∃ e, candidate.2.tier = .highest ∧ (build candidate).run s = some (.error e, t) ∧
          result = .error e) ∨
        ∃ u answer, (candidate.2.tier = .highest ∧
            (∃ hook, (build candidate).run s = some (.ok hook, u)) ∨
          candidate.2.tier ≠ .highest ∧ u = s) ∧
        (divide shown build rest).run u = some (answer, t) ∧
        ∃ more : Division α → Division α, result = answer.map more ∧
          ∀ roster division, division.Of roster →
            (more division).Of (entryOf candidate :: roster)) := by
  rcases Attempt.run_bind_eq_some_iff.1 h with ⟨_, herror, _⟩ | ⟨k, _, hlook, hrest⟩
  · cases herror
  cases hlook
  refine ⟨_, rfl, ?_⟩
  cases htier : (shown.classify s.container name).tier with
  | highest =>
      simp only [htier] at hrest
      rcases Attempt.run_bind_eq_some_iff.1 hrest with ⟨e, herror, rfl⟩ | ⟨hook, u, hfirst, hrest⟩
      · exact Or.inl ⟨e, rfl, herror, rfl⟩
      · rcases Attempt.run_map_eq_some hrest with ⟨answer, hmore, rfl⟩
        refine Or.inr ⟨u, answer, Or.inl ⟨rfl, hook, hfirst⟩, hmore, _, rfl, ?_⟩
        intro roster division hdivision
        refine ⟨?_, ?_, ?_⟩
        · rw [ofTier_cons_self htier, List.map_cons, hbuild hfirst, hdivision.highest]
        · rw [ofTier_cons_other (ne_of_eq_of_ne htier (by decide)), hdivision.ordered]
        · rw [ofTier_cons_other (ne_of_eq_of_ne htier (by decide)), hdivision.plain]
  | ordered =>
      simp only [htier] at hrest
      rcases Attempt.run_map_eq_some hrest with ⟨answer, hmore, rfl⟩
      refine Or.inr ⟨s, answer, Or.inr ⟨by decide, rfl⟩, hmore, _, rfl, ?_⟩
      intro roster division hdivision
      refine ⟨?_, ?_, ?_⟩
      · rw [ofTier_cons_other (ne_of_eq_of_ne htier (by decide)), hdivision.highest]
      · rw [ofTier_cons_self htier, List.map_cons, hdivision.ordered]
      · rw [ofTier_cons_other (ne_of_eq_of_ne htier (by decide)), hdivision.plain]
  | plain =>
      simp only [htier] at hrest
      rcases Attempt.run_map_eq_some hrest with ⟨answer, hmore, rfl⟩
      refine Or.inr ⟨s, answer, Or.inr ⟨by decide, rfl⟩, hmore, _, rfl, ?_⟩
      intro roster division hdivision
      refine ⟨?_, ?_, ?_⟩
      · rw [ofTier_cons_other (ne_of_eq_of_ne htier (by decide)), hdivision.highest]
      · rw [ofTier_cons_other (ne_of_eq_of_ne htier (by decide)), hdivision.ordered]
      · rw [ofTier_cons_self htier, List.map_cons, hdivision.plain]

/-- A division of names, whether it fails or not: the names that it comes to are looked up in turn,
    and those of the highest tier are built on the way. -/
theorem divide_performs (hE : E.Lawful) :
    ∀ {names : List String} {s t : State H}
      {result : Except Error (Division (Object H.Content))},
      (divide shown (E.buildCustomizer shown) names).run s = some (result, t) →
        ∃ roster : List (Ranked Unit), roster.map Ranked.name <+: names ∧
          Surveyed shown s t roster ∧ Performs E shown (buildsOf .highest roster) s result t ∧
          ∀ division, result = .ok division →
            roster.map Ranked.name = names ∧ division.Of roster := by
  intro names
  induction names with
  | nil =>
      intro s t result h
      cases h
      refine ⟨[], List.prefix_rfl, .nil shown s s, .rest s _, fun division hdivision => ?_⟩
      cases hdivision
      exact ⟨rfl, rfl, rfl, rfl⟩
  | cons name rest ih =>
      intro s t result h
      rcases run_divide_cons buildCustomizer_bare h with ⟨candidate, hcandidate, hcases⟩
      have hplace : candidate.2 = shown.classify s.container candidate.1 := by rw [hcandidate]
      have hname : candidate.1 = name := by rw [hcandidate]
      -- What is done for the first name depends on its tier only.
      have hbuilt : candidate.2.tier = .highest →
          buildsOf .highest [entryOf candidate] = [.build candidate.1] := fun htier =>
        congrArg (List.map _) (ofTier_cons_self htier [])
      have hfront : ∀ roster, buildsOf .highest (entryOf candidate :: roster)
          = buildsOf .highest [entryOf candidate] ++ buildsOf .highest roster := by
        intro roster
        rw [buildsOf, buildsOf, buildsOf, ← List.map_append, ofTier, ofTier, ofTier,
          ← List.filter_append, List.singleton_append]
      rcases hcases with ⟨e, htier, herror, rfl⟩ | ⟨u, answer, hfirst, hmore, more, rfl, hdivided⟩
      · have hbuild := buildCustomizer_performs hE herror
        refine ⟨[entryOf candidate], ?_, .single hplace hbuild.course, ?_, fun _ hok => ?_⟩
        · rw [← hname]
          exact List.prefix_append [candidate.1] rest
        · rw [hbuilt htier]
          exact hbuild.stopped []
        · cases hok
      · have hbegin : Performs E shown (buildsOf .highest [entryOf candidate]) s
            (.ok () : Except Error Unit) u := by
          rcases hfirst with ⟨htier, hook, hbuild⟩ | ⟨htier, rfl⟩
          · rw [hbuilt htier]
            exact (buildCustomizer_performs hE hbuild).map fun _ => ()
          · rw [buildsOf, ofTier_cons_other htier]
            exact .rest u _
        rcases ih hmore with ⟨roster, hnames, hsurveyed, hperforms, hroster⟩
        refine ⟨entryOf candidate :: roster, ?_, ?_, ?_, fun division hok => ?_⟩
        · rw [← hname]
          exact (List.prefix_append_right_inj [candidate.1]).2 hnames
        · exact .cons hplace hbegin.course (hbegin.ended () rfl) hperforms.course hsurveyed
        · rw [hfront]
          exact hbegin.followedBy (hperforms.map more)
        · cases answer with
          | error e => cases hok
          | ok rest' =>
              cases hok
              rcases hroster rest' rfl with ⟨hwhole, hof⟩
              refine ⟨?_, hdivided roster rest' hof⟩
              rw [List.map_cons, hwhole, ← hname]
              rfl

/-- What the phase does behind the division of its names: each tier is built, if that is not done
    already, and called before the next one is built. -/
theorem divided_performs (hE : E.Lawful) {division : Division (Object H.Content)}
    {roster : List (Ranked Unit)} (hdivision : division.Of roster) {s t : State H}
    {result : Except Error (List String)}
    (h : (do
      let highest ← E.customizeTier shown division.highest
      let ordered ← E.customizeTier shown
        (← buildEach (E.buildCustomizer shown) division.ordered)
      let plain ← E.customizeTier shown (← buildEach (E.buildCustomizer shown) division.plain)
      Attempt.step (Run.modifyContainer Container.invalidate)
      return highest ++ ordered ++ plain : Attempt H (List String)).run s = some (result, t)) :
    Performs E shown (callsOf .highest roster ++ (buildsOf .ordered roster
      ++ (callsOf .ordered roster ++ (buildsOf .plain roster ++ callsOf .plain roster))))
      s result t := by
  have hcalls : ∀ {tier : Tier} {hooks : List (Ranked (Object H.Content))} {s t : State H}
      {result : Except Error (List String)}, hooks.map Ranked.bare = ofTier tier roster →
        (E.customizeTier shown hooks).run s = some (result, t) →
          Performs E shown (callsOf tier roster) s result t := by
    intro tier hooks s t result hhooks hrun
    rw [callsOf_eq hhooks]
    exact customizeTier_performs hE hrun
  have hbuilds : ∀ {tier : Tier} {candidates : List Candidate} {s t : State H}
      {result : Except Error (List (Ranked (Object H.Content)))},
        candidates.map entryOf = ofTier tier roster →
          (buildEach (E.buildCustomizer shown) candidates).run s = some (result, t) →
            Performs E shown (buildsOf tier roster) s result t := by
    intro tier candidates s t result hcandidates hrun
    rw [buildsOf_eq hcandidates]
    exact buildEach_performs hE hrun
  have hbuilt : ∀ {tier : Tier} {candidates : List Candidate}
      {hooks : List (Ranked (Object H.Content))} {s t : State H},
        candidates.map entryOf = ofTier tier roster →
          (buildEach (E.buildCustomizer shown) candidates).run s = some (.ok hooks, t) →
            hooks.map Ranked.bare = ofTier tier roster := fun hcandidates hrun =>
    (buildEach_map buildCustomizer_bare hrun).trans hcandidates
  refine .bind h (hcalls hdivision.highest) fun _ h => ?_
  refine .bind h (hbuilds hdivision.ordered) fun hordered h => ?_
  refine .bind h (hcalls (hbuilt hdivision.ordered hordered)) fun _ h => ?_
  refine .bind h (hbuilds hdivision.plain) fun hplain h => ?_
  rw [← List.append_nil (callsOf .plain roster)]
  refine .bind h (hcalls (hbuilt hdivision.plain hplain)) fun {_ u} _ h => ?_
  cases h
  exact .of_steps (.quiet (.invalidate u))

/-- A customization phase, whether it fails or not, takes the steps of a roster. A phase that fails
    before the roster is whole calls no customizer. -/
theorem customizationPhase_performs (hE : E.Lawful) {config : Config} {processed : Processed}
    {s t : State H} {result : Except Error (List String)}
    (h : (E.customizationPhase shown config processed).run s = some (result, t)) :
    ∃ roster : List (Ranked Unit),
      roster.map Ranked.name <+: config.customizers s.container processed ∧
      Surveyed shown s t roster ∧ Performs E shown (agenda roster) s result t ∧
      (roster.map Ranked.name = config.customizers s.container processed ∨
        (∀ order, result ≠ .ok order) ∧ customized (since s t) = []) := by
  rcases Attempt.run_bind_eq_some_iff.1 h with ⟨_, herror, _⟩ | ⟨names, v, hnames, hrest⟩
  · cases herror
  cases hnames
  have hsearch : Course Activity.OfSteps s
      (s.withContainer (s.container.namesFor config.customizerQuery).2) := .quiet (.search s _)
  have hbegin : Performs E shown [] s (.ok () : Except Error Unit) _ := .of_steps hsearch
  rcases Attempt.run_bind_eq_some_iff.1 hrest with ⟨e, herror, rfl⟩ | ⟨division, u, hok, hrest⟩
  · rcases divide_performs hE herror with ⟨roster, hfirst, hsurveyed, hperforms, _⟩
    have hstopped : Performs E shown (buildsOf .highest roster) s
        (.error e : Except Error (List String)) t := by
      rw [← List.append_nil (buildsOf .highest roster)]
      exact hbegin.followedBy (hperforms.stopped [])
    refine ⟨roster, hfirst, hsurveyed.earlier hsearch, ?_, Or.inr ⟨?_, ?_⟩⟩
    · rw [agenda_eq]
      exact hstopped.stopped _
    · intro order hok
      cases hok
    · exact hstopped.customized_eq_nil (called_buildsOf .highest roster)
  · rcases divide_performs hE hok with ⟨roster, hfirst, hsurveyed, hperforms, hdivided⟩
    rcases hdivided division rfl with ⟨hnames, hof⟩
    have hlater := divided_performs hE hof hrest
    refine ⟨roster, hfirst, (hsurveyed.onward hlater.course).earlier hsearch, ?_, Or.inl hnames⟩
    rw [agenda_eq]
    exact hbegin.followedBy (hperforms.followedBy hlater)

end Engine

/-- A customization phase goes by a roster, which names the customizers that a query answers at its
    beginning and that were not taken before, in registration order and with the placements that
    they have when they are divided among the tiers. The steps that the phase takes itself are the
    first ones of the agenda of this roster: each tier is built in registration order and then
    called in running order before the next one is built. The customizers among these steps are
    called in turn, and in each call the program of the customizer is run. A phase that succeeds
    takes all steps for the whole roster, no program having failed, and its order is that of a
    single sort. If a program fails then the phase fails with its failure, and it called the first
    customizers of this order, the one that failed being the last. A call that ends with a failure
    in the log is such a one. -/
theorem customizationPhase_schedule (behaviour : Behaviour H) (facade shown : Facade) (depth : Nat)
    (config : Config) (processed : Processed) {s t : State H} {result : Except Error (List String)}
    (hs : s.container.Consistent)
    (h : ((Engine.ofDepth behaviour facade depth).customizationPhase shown config processed).run s
      = some (result, t)) :
    (config.customizers s.container processed).Sublist s.container.names ∧
    ∃ (roster : List (Ranked Unit)) (called : List (String × Object H.Content))
      (answer : Except Failure Unit),
      roster.map Ranked.name <+: config.customizers s.container processed ∧
      Surveyed shown s t roster ∧
      phaseSteps (since s t) <+: agenda roster ∧
      customized (since s t) = called.map Prod.fst ∧
      (Engine.ofDepth behaviour facade depth).Turns shown (customizations called) s answer t ∧
      (∀ order, result = .ok order →
        roster.map Ranked.name = config.customizers s.container processed ∧
        phaseSteps (since s t) = agenda roster ∧
        order = (sortRanked roster).map Ranked.name ∧ answer = .ok ()) ∧
      (∀ failure, answer = .error failure →
        roster.map Ranked.name = config.customizers s.container processed ∧
        called.map Prod.fst <+: (sortRanked roster).map Ranked.name ∧
        ∃ before name hook, called = before ++ [(name, hook)] ∧
          result = .error (.hookExecution name .factoryCustomization failure)) ∧
      ∀ name hook failure, .left (.customize name hook) (some failure) ∈ outer (since s t) →
        answer = .error failure ∧ ∃ before, called = before ++ [(name, hook)] := by
  have hE : (Engine.ofDepth behaviour facade depth).Lawful :=
    Engine.lawful_ofDepth behaviour facade depth
  refine ⟨List.filter_sublist.trans (hs.namesFor_sublist _), ?_⟩
  rcases Engine.customizationPhase_performs hE h with
    ⟨roster, hfirst, hsurveyed, hperforms, hwhole⟩
  rcases hperforms.turns with ⟨called, answer, hturns, hreported⟩
  have hcalled : customized (since s t) = called.map Prod.fst := hturns.customized_eq hE
  refine ⟨roster, called, answer, hfirst, hsurveyed, hperforms.begun, hcalled, hturns, ?_, ?_, ?_⟩
  · rintro order rfl
    have hsteps : phaseSteps (since s t) = agenda roster := hperforms.ended order rfl
    rcases hwhole with hnames | ⟨hfails, _⟩
    · refine ⟨hnames, hsteps, ?_, hreported.ok⟩
      rcases (Engine.customizationPhase_perm hE h).2 with ⟨hooks, rfl, hcalls⟩
      rw [← calls_of_agenda, ← hsteps, ← hcalls.customized_eq hE]
      rfl
    · exact absurd rfl (hfails order)
  · intro failure hfailure
    rcases hreported failure hfailure with ⟨before, name, hook, rfl, herror⟩
    rcases hwhole with hnames | ⟨_, hnone⟩
    · refine ⟨hnames, ?_, before, name, hook, rfl, herror⟩
      rw [← hcalled, ← calls_of_agenda]
      exact hperforms.begun.filterMap PhaseStep.called?
    -- A phase that fails before its roster is whole calls nobody.
    · rw [hcalled, List.map_append] at hnone
      exact absurd hnone (List.append_ne_nil_of_right_ne_nil _ (List.cons_ne_nil name []))
  · intro name hook failure hleft
    rcases hturns.failed hE rfl hleft with ⟨hanswer, before, hpoints⟩
    refine ⟨hanswer, ?_⟩
    rcases List.map_eq_append_iff.1 hpoints with ⟨early, late, rfl, _, hlast⟩
    rcases List.map_eq_singleton_iff.1 hlast with ⟨entry, rfl, hentry⟩
    cases hentry
    exact ⟨early, rfl⟩

namespace Scenarios

/-- As `behaviour`, except that an active customizer registers another one, and puts a third one in
    another place. -/
def meddling : Behaviour host := { behaviour with
  customize := fun active =>
    if active then do
      let _ ← Prog.request (.register (customizer "late" ⟨.ordered, none⟩))
      let _ ← Prog.request (.register (customizer "plain" ⟨.highest, none⟩))
      return .ok ()
    else return .ok () }

/-- As `behaviour`, except that an active customizer fails. -/
def failingCustomizer : Behaviour host := { behaviour with
  customize := fun active => return if active then .error (.plain "broken") else .ok () }

/-- Customizers of all tiers, of which one is active. -/
def threeTiers (active : String) : List (Definition Bool) :=
  [customizer "plain" {}, customizer "highest" ⟨.highest, none⟩,
    customizer "ordered" ⟨.ordered, some 2⟩].map fun d =>
      { d with maker := .hosted (d.name = active) }

/-- The same, where each of them may be registered anew. -/
def overridableTiers (active : String) : State host :=
  (stateOf (threeTiers active)).withContainer
    { (stateOf (threeTiers active)).container with allowOverriding := true }

theorem overridableTiers_consistent (active : String) :
    (overridableTiers active).container.Consistent := by
  have hconsistent : (stateOf (threeTiers active)).container.Consistent := by
    refine stateOf_consistent ?_
    change ["plain", "highest", "ordered"].Nodup
    decide
  exact hconsistent.congr rfl rfl rfl

theorem customizers_of_overridableTiers (active : String) :
    Config.standard.customizers (overridableTiers active).container {}
      = ["plain", "highest", "ordered"] :=
  rfl

abbrev meddlers : Engine host := Engine.ofDepth meddling .direct 3

abbrev failingCustomizers : Engine host := Engine.ofDepth failingCustomizer .direct 3

theorem steps_of_meddling :
    ((meddlers.customizationPhase .direct .standard {}).run (overridableTiers "highest")).map
      (fun r => (r.1.toOption, phaseSteps (since (overridableTiers "highest") r.2),
        r.2.container.contains "late"))
      = some (some ["highest", "ordered", "plain"], [.build "highest", .call "highest",
        .build "ordered", .call "ordered", .build "plain", .call "plain"], true) := by
  decide +kernel

/-- The customizer that an entry tells to have failed with a plain text. -/
def brokenCustomizer? : Activity host → Option (String × String)
  | .left (.customize name _) (some (.plain text)) => some (name, text)
  | _ => none

theorem report_of_failingCustomizer :
    ((failingCustomizers.customizationPhase .direct .standard {}).run
      (overridableTiers "ordered")).map (fun r =>
        ((outer (since (overridableTiers "ordered") r.2)).filterMap brokenCustomizer?,
          customized (since (overridableTiers "ordered") r.2)))
      = some ([("ordered", "broken")], ["highest", "ordered"]) := by
  decide +kernel

-- The entry that tells of a broken customizer.
theorem left_of_broken {chronicle : List (Activity host)} {name text : String}
    (h : (name, text) ∈ chronicle.filterMap brokenCustomizer?) :
    ∃ hook, .left (.customize name hook) (some (.plain text)) ∈ chronicle := by
  rcases List.mem_filterMap.1 h with ⟨activity, hmem, hbroken⟩
  unfold brokenCustomizer? at hbroken
  split at hbroken
  · cases hbroken
    exact ⟨_, hmem⟩
  · cases hbroken

/-- The highest customizer is called first. The one that it registers is not called, and the one
    that it puts in front is still built and called last, since that is where it stood when the
    names were divided. If the ordered customizer fails then the plain one is not called. -/
theorem meddling_scheduled :
    (∀ active, (overridableTiers active).container.Consistent) ∧
    (∃ t, ∃ (roster : List (Ranked Unit)) (called : List (String × Object Bool)),
      (meddlers.customizationPhase .direct .standard {}).run (overridableTiers "highest")
        = some (.ok ["highest", "ordered", "plain"], t) ∧
      Surveyed .direct (overridableTiers "highest") t roster ∧
      roster.map Ranked.name = ["plain", "highest", "ordered"] ∧
      (sortRanked roster).map Ranked.name = ["highest", "ordered", "plain"] ∧
      agenda roster = [.build "highest", .call "highest", .build "ordered", .call "ordered",
        .build "plain", .call "plain"] ∧
      meddlers.Turns .direct (customizations called) (overridableTiers "highest") (.ok ()) t ∧
      called.map Prod.fst = ["highest", "ordered", "plain"] ∧
      t.container.contains "late" = true) ∧
    ∃ t, ∃ called : List (String × Object Bool),
      (failingCustomizers.customizationPhase .direct .standard {}).run (overridableTiers "ordered")
        = some (.error (.hookExecution "ordered" .factoryCustomization (.plain "broken")), t) ∧
      failingCustomizers.Turns .direct (customizations called) (overridableTiers "ordered")
        (.error (.plain "broken")) t ∧
      called.map Prod.fst = ["highest", "ordered"] := by
  refine ⟨overridableTiers_consistent, ?_, ?_⟩
  · rcases Option.map_eq_some_iff.1 steps_of_meddling with ⟨⟨result, t⟩, hphase, hreport⟩
    simp only [Prod.mk.injEq] at hreport
    rcases hreport with ⟨hresult, hsteps, hlate⟩
    cases result with
    | error e => cases hresult
    | ok order =>
        cases hresult
        rcases (customizationPhase_schedule meddling .direct .direct 3 .standard {}
          (overridableTiers_consistent "highest") hphase).2 with
          ⟨roster, called, answer, _, hsurveyed, _, hcalled, hturns, hok, _⟩
        rcases hok _ rfl with ⟨hnames, hagenda, horder, rfl⟩
        have hcustomized : called.map Prod.fst = ["highest", "ordered", "plain"] := by
          rw [← hcalled, customized, hsteps]
          rfl
        exact ⟨t, roster, called, hphase, hsurveyed,
          hnames.trans (customizers_of_overridableTiers "highest"), horder.symm,
          hagenda.symm.trans hsteps, hturns, hcustomized, hlate⟩
  · rcases Option.map_eq_some_iff.1 report_of_failingCustomizer with
      ⟨⟨result, t⟩, hphase, hreport⟩
    rcases Prod.mk.inj hreport with ⟨hbroken, hcustomized⟩
    rcases left_of_broken (hbroken ▸ List.mem_singleton_self _) with ⟨hook, hleft⟩
    rcases (customizationPhase_schedule failingCustomizer .direct .direct 3 .standard {}
      (overridableTiers_consistent "ordered") hphase).2 with
      ⟨roster, called, answer, _, _, _, hcalled, hturns, _, hfailed, hlast⟩
    rcases hlast "ordered" hook (.plain "broken") hleft with ⟨rfl, front, hends⟩
    rcases hfailed _ rfl with ⟨_, _, before, name, other, hcalls, rfl⟩
    -- Both ends of the list of calls are the same.
    have hname : [(name, other)] = [("ordered", hook)] :=
      (List.append_inj' (hcalls.symm.trans hends) rfl).2
    cases hname
    exact ⟨t, called, hphase, hturns, hcalled.symm.trans hcustomized⟩

end Scenarios

end ObjectBootstrap
