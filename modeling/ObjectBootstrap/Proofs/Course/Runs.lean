import ObjectBootstrap.Proofs.Course.Trails

/-!
# Runs follow courses

Whatever a run answers, it leads from its first state to its last one along a course: courses are a
relation that runs go along. The lemmas assume of the engine only that the programs it runs follow
courses, and `Engine.lawful_ofDepth` discharges that for the engine of every depth.

What a function may write down outside of calls stands in its lemma as a condition. A build only
does what `Activity.OfBuild` lists, and a phase names the calls that it makes itself.

## Main definitions

* `Run.Follows`, `Attempt.Follows`: Every result of a run is reached along a course.
* `Engine.Lawful`: The programs that an engine runs follow courses.
* `Activity.OfWalks`, `Activity.OfSteps`: What the walks of an object and the steps of a build write
  down outside of calls.

## Theorems

* `Course.trail`, `Engine.Lawful.builds`: Courses are a relation that runs go along.
* `Engine.getOrBuild_course`: A request for an object, if it may call its own factory.
* `Engine.getOrBuild_follows`, `Engine.buildHook_follows`: Builds follow courses of builds.
* `Engine.installationPhase_follows`: So does a phase, with what it does itself.
* `Engine.lawful_ofDepth`: Every engine of a depth is lawful.
-/

namespace ObjectBootstrap

variable {H : Host} {α β : Type} {may : Activity H → Prop}

/-- Every result of a run is reached along a course. -/
def Run.Follows (may : Activity H → Prop) (run : Run H α) : Prop :=
  ∀ s a t, run s = some (a, t) → Course may s t

/-- Every result of an attempt, an error too, is reached along a course. -/
def Attempt.Follows (may : Activity H → Prop) (attempt : Attempt H α) : Prop :=
  Run.Follows may attempt.run

/-- The programs that an engine runs follow courses on which anything may happen. -/
def Engine.Lawful (E : Engine H) : Prop :=
  ∀ {α : Type} (shown : Facade) (program : Prog H α),
    Run.Follows Anything (E.run shown program)

/-- What the walks of an object of a name write down outside of calls. -/
def Activity.OfWalks (name : String) : Activity H → Prop
  | .entered (.intercept _ _ _ n) => n = name
  | .made n _ => n = name
  | .walked _ n _ => n = name
  | _ => False

/-- What the steps of a build write down outside of calls. -/
def Activity.OfSteps : Activity H → Prop
  | .entered (.merge _ _ _) => True
  | .entered (.make _ _) => True
  | .entered (.intercept _ _ _ _) => True
  | .made _ _ => True
  | .walked _ _ _ => True
  | _ => False

theorem Activity.OfWalks.ofSteps {name : String} {activity : Activity H}
    (h : activity.OfWalks name) : activity.OfSteps := by
  cases activity with
  | entered point =>
      cases point with
      | intercept stage hook object n => exact trivial
      | _ => exact absurd h id
  | made n object => exact trivial
  | walked stage n registration => exact trivial
  | _ => exact absurd h id

-- A build takes its steps.
theorem Activity.OfSteps.ofBuild {activity : Activity H} (h : activity.OfSteps) :
    activity.OfBuild := by
  cases activity with
  | entered point =>
      cases point with
      | merge hook n d => exact trivial
      | make n d => exact trivial
      | intercept stage hook object n => exact trivial
      | _ => exact absurd h id
  | made n object => exact trivial
  | walked stage n registration => exact trivial
  | _ => exact absurd h id

/-- A course inside of calls, where anything may happen, and one outside. -/
theorem Course.trail (may : Activity H → Prop) : Trail may (Course Anything) (Course may) where
  course h := h.anything
  rest := .rest
  followedBy := .followedBy
  quiet h _ _ := .quiet h
  register hk hmay := .deed (.register hk) hmay
  install s name hook _ hmay := .deed (.install s name hook) hmay
  post s target hmay := .followedBy (.quiet (.station s target)) (.deed (.install _ _ _) hmay)
  publish s event hmay := .deed (.publish s event) hmay
  unsubscribe s name hmay := .deed (.unsubscribe s name) hmay
  stop s stage hook name hmay := .deed (.stop s stage hook name) hmay
  call hmay h := .call hmay h
  update hmay hd h := .update hmay hd h

theorem Run.follows_watch (number : Nat) (name : String) :
    Run.Follows may (Engine.watch number name : Run H Unit) := by
  intro s a t h
  cases h
  exact .quiet (.watch s number name)

namespace Engine

variable {E : Engine H}

theorem Lawful.keeps (hE : E.Lawful) : E.Keeps (Course Anything) :=
  ⟨Course.trail _, hE, fun _ _ => trivial⟩

-- A factory that is called is written down.
theorem entered_of_make (hE : E.Lawful) {name : String} {d : Definition H.Factory} {s t : State H}
    {result : Except Failure (Object H.Content)} (h : E.make name d s = some (result, t)) :
    .entered (.make name d) ∈ since s t := by
  rcases make_called hE.keeps h with ⟨u, hinside, rfl⟩
  rw [Course.since_between hinside]
  exact List.mem_cons_self

-- A walk is written down before it sets out.
theorem Lawful.walk (hE : E.Lawful) {name : String}
    (hmay : ∀ activity : Activity H, activity.OfWalks name → may activity) (stage : Stage)
    (object : Object H.Content) : Attempt.Follows may (E.walk stage name object) :=
  walk_along hE.keeps (Course.trail may) (fun s => .deed (.walk s stage name) (hmay _ rfl))
    (fun _ _ => hmay _ rfl) (fun number => Run.follows_watch number name) object

/-- Courses bear builds if the walks of the names that may be asked for may be written down. -/
theorem Lawful.builds (hE : E.Lawful)
    (hmay : ∀ name, may (.requested name) →
      ∀ activity : Activity H, activity.OfWalks name → may activity) :
    E.Builds may (Course may) :=
  Builds.of_finish (Course.trail may)
    (fun hrequested hanswered h => .request hrequested hanswered h)
    (fun hget hd habs hk h => .build hget hd habs hk h)
    (fun stage name object hname => hE.walk (hmay name hname) stage object)
    fun {_ _ name object _} hrequested hname h =>
      have hwalks := hmay name hrequested
      finish_along (Course.trail may) (.deed (.make object hname) (hwalks _ rfl))
        (fun stage object => hE.walk hwalks stage object) h

/-- A request for the object of a name follows a course if its own factory may be called and the
    walks of the object may be written down. -/
theorem getOrBuild_course (hE : E.Lawful) {s t : State H} {name : String}
    {result : Except Error (Object H.Content)}
    (hwalks : ∀ n, may (.requested n) → ∀ activity : Activity H, activity.OfWalks n → may activity)
    (hmerge : ∀ hook d, may (.entered (.merge hook name d))) (hrequested : may (.requested name))
    (hanswered : ∀ object, may (.answered name object))
    (hmake : ∀ copy, may (.entered (.make name copy)))
    (h : (E.getOrBuild name).run s = some (result, t)) : Course may s t :=
  getOrBuild_along hE.keeps (Course.trail may) (hE.builds hwalks) hmerge hrequested hanswered
    hmake h

end Engine

namespace Run

theorem follows_pure (a : α) : Run.Follows may (pure a : Run H α) :=
  along_pure (Course.trail may) a

theorem follows_bind {run : Run H α} {next : α → Run H β} (hrun : Run.Follows may run)
    (hnext : ∀ a, Run.Follows may (next a)) : Run.Follows may (run >>= next) :=
  along_bind (Course.trail may) hrun hnext

theorem follows_namesFor (query : CapabilityQuery) :
    Run.Follows may (Run.namesFor query : Run H (List String)) :=
  along_namesFor (Course.trail may) query

theorem follows_install {name : String} (hook : Hook H.Content) (hmay : may (.installed name)) :
    Run.Follows may (Run.install name hook) := by
  intro s a t h
  cases h
  exact .deed (.install s name hook) hmay

end Run

namespace Attempt

theorem follows_pure (a : α) : Attempt.Follows may (pure a : Attempt H α) :=
  along_pure (Course.trail may) a

theorem follows_step {run : Run H α} (h : Run.Follows may run) :
    Attempt.Follows may (Attempt.step run) :=
  along_step h

theorem follows_bind {first : Attempt H α} {second : α → Attempt H β}
    (hfirst : Attempt.Follows may first) (hsecond : ∀ a, Attempt.Follows may (second a)) :
    Attempt.Follows may (first >>= second) :=
  along_bind (Course.trail may) hfirst hsecond

theorem follows_register {d : Definition H.Factory} (hmay : may (.registered d)) :
    Attempt.Follows may (Attempt.register d) :=
  along_register (Course.trail may) hmay

end Attempt

namespace Engine

variable {E : Engine H}

section Steps

variable (hE : E.Lawful) (hmay : ∀ activity : Activity H, activity.OfSteps → may activity)
include hE hmay

theorem construct_follows {s t : State H} {name : String} {d : Definition H.Factory}
    {result : Except Error (Built H)} (hname : name ∈ s.container.inCreation)
    (h : (E.construct name d).run s = some (result, t)) : Course may s t := by
  have hwalk : ∀ stage object, Attempt.Along (Course may) (E.walk stage name object) :=
    hE.walk fun activity hwalks => hmay activity hwalks.ofSteps
  exact (construct_steps hE.keeps (Course.trail may) (fun _ _ => hmay _ trivial) hwalk
    (fun _ => hmay _ trivial) h).whole (Course.trail may) hname fun hunder hrun =>
      finish_along (Course.trail may) (.deed (.make _ hunder) (hmay _ trivial)) hwalk hrun

theorem obtain_follows (name : String) : Attempt.Follows may (E.obtain name) := by
  intro s result t h
  rcases run_obtain_cases h with ⟨_, rfl⟩ | ⟨_, _, _, rfl⟩ |
    ⟨hkept, d, hd, ⟨_, _, rfl⟩ | ⟨habs, hbuild⟩⟩
  · exact .rest _
  · exact .rest _
  · exact .rest _
  · rcases run_build_cases hbuild with ⟨_, _, _, rfl⟩ | ⟨k, built, u, hk, hconstruct, _, rfl⟩
    · exact .rest _
    · have hname : name ∈ (s.withContainer k).container.inCreation := by
        rcases Container.beginCreation_eq_ok hk with ⟨_, rfl⟩
        exact List.mem_append_right _ (List.mem_singleton_self name)
      exact .build hkept hd habs hk (construct_follows hE hmay hname hconstruct)

end Steps

section Builds

variable (hE : E.Lawful) (hmay : ∀ activity : Activity H, activity.OfBuild → may activity)
include hE hmay

theorem getOrBuild_follows (name : String) : Attempt.Follows may (E.getOrBuild name) :=
  fun _ _ _ h => getOrBuild_course hE (fun _ _ activity hwalks =>
      hmay activity hwalks.ofSteps.ofBuild)
    (fun _ _ => hmay _ trivial) (hmay _ trivial) (fun _ => hmay _ trivial)
    (fun _ => hmay _ trivial) h

theorem asked_follows (name : String) (_ : AnyName name) :
    Attempt.Along (Course may) (E.getOrBuild name) :=
  getOrBuild_follows hE hmay name

theorem buildFacet_follows (facade : Facade) (name : String) (c : Capability) :
    Attempt.Follows may (E.buildFacet facade name c) :=
  buildFacet_along (Course.trail may) (asked_follows hE hmay) facade trivial c

theorem buildHook_follows (facade : Facade) (phase : Phase) (c : Capability) (kind : FacetKind)
    (name : String) : Attempt.Follows may (E.buildHook facade phase c kind name) :=
  buildHook_along (Course.trail may) (asked_follows hE hmay) facade phase c kind trivial

theorem preInstantiate_follows : Attempt.Follows may E.preInstantiate :=
  preInstantiate_along (Course.trail may) (asked_follows hE hmay)

theorem take_follows (facade : Facade) (pass : DiscoveryPass) (names : List String)
    (processed : Processed) : Attempt.Follows may (E.take facade pass names processed) :=
  take_along (Course.trail may) (asked_follows hE hmay) facade pass (fun _ _ => trivial) processed

theorem buildCustomizer_follows (facade : Facade) (candidate : Candidate) :
    Attempt.Follows may (E.buildCustomizer facade candidate) :=
  buildCustomizer_along (Course.trail may) (asked_follows hE hmay) facade trivial

theorem buildMarked_follows (facade : Facade) (candidate : Candidate) :
    Attempt.Follows may (E.buildMarked facade candidate) :=
  buildMarked_along (Course.trail may) (asked_follows hE hmay) facade trivial

theorem discover_follows (facade : Facade) (config : Config) (pass : DiscoveryPass)
    (hmutate : ∀ name (hook : Object H.Content), may (.entered (.mutate name hook)))
    (progress : Progress H) : Attempt.Follows may (E.discover facade config pass progress) :=
  discover_along hE.keeps (Course.trail may) (asked_follows hE hmay) hmutate facade config pass
    progress

theorem installationPhase_follows (facade : Facade) (config : Config)
    (hinstall : ∀ name, may (.installed name)) :
    Attempt.Follows may (E.installationPhase facade config) :=
  installationPhase_along (Course.trail may) (asked_follows hE hmay) hinstall facade config

end Builds

section Tiers

variable {build : Candidate → Attempt H (Ranked α)}
  (hbuild : ∀ candidate, Attempt.Follows may (build candidate))
include hbuild

theorem divide_follows {facade : Facade} (names : List String) :
    Attempt.Follows may (divide facade build names) :=
  have hasked : ∀ {candidate : Candidate}, AnyName candidate.1 →
      Attempt.Along (Course may) (build candidate) := fun _ => hbuild _
  divide_along (Course.trail may) hasked fun _ _ => trivial

theorem buildEach_follows (candidates : List Candidate) :
    Attempt.Follows may (buildEach build candidates) :=
  have hasked : ∀ {candidate : Candidate}, AnyName candidate.1 →
      Attempt.Along (Course may) (build candidate) := fun _ => hbuild _
  buildEach_along (Course.trail may) hasked fun _ _ => trivial

end Tiers

section Calls

variable (hE : E.Lawful) (facade : Facade)
include hE

theorem mutate_follows {name : String} {hook : Object H.Content}
    (hmay : may (.entered (.mutate name hook))) :
    Attempt.Follows may (E.mutate facade name hook) :=
  mutate_along hE.keeps (Course.trail may) facade hmay

theorem mutateEach_follows
    (hmay : ∀ name (hook : Object H.Content), may (.entered (.mutate name hook)))
    (hooks : List (String × Object H.Content)) :
    Attempt.Follows may (E.mutateEach facade hooks) :=
  mutateEach_along hE.keeps (Course.trail may) facade hmay hooks

theorem customize_follows {name : String} {hook : Object H.Content}
    (hmay : may (.entered (.customize name hook))) :
    Attempt.Follows may (E.customize facade name hook) :=
  customize_along hE.keeps (Course.trail may) facade hmay

theorem customizeEach_follows
    (hmay : ∀ name (hook : Object H.Content), may (.entered (.customize name hook)))
    (hooks : List (String × Object H.Content)) :
    Attempt.Follows may (E.customizeEach facade hooks) :=
  customizeEach_along hE.keeps (Course.trail may) facade hmay hooks

end Calls

theorem installEach_follows (hinstall : ∀ name, may (.installed name))
    (hooks : List (Ranked (Object H.Content × Bool))) : Run.Follows may (installEach hooks) :=
  installEach_along (Course.trail may) hinstall hooks

theorem installTier_follows (hinstall : ∀ name, may (.installed name))
    (hooks : List (Ranked (Object H.Content × Bool))) : Run.Follows may (installTier hooks) :=
  installTier_along (Course.trail may) hinstall hooks

/-- Every engine of a depth is lawful, since it answers requests by one that is less deep. -/
theorem lawful_ofDepth (behaviour : Behaviour H) (facade : Facade) (depth : Nat) :
    (ofDepth behaviour facade depth).Lawful :=
  (keeps_ofDepth behaviour facade (Course.trail Anything) (fun _ hE =>
    Lawful.builds (fun shown program => hE.runs shown program) fun _ _ _ _ => trivial) depth).runs

/-- Requests are answered along courses on which anything may happen. -/
theorem answer_follows (hE : E.Lawful) (facade : Facade) (r : Request H α) :
    Run.Follows Anything (E.answer facade r) :=
  have hbuilds : E.Builds Anything (Course Anything) := hE.builds fun _ _ _ _ => trivial
  answer_along hE.keeps (asked_along hE.keeps hbuilds)
    (fun stage name object => hbuilds.walk stage name object trivial) facade r

end Engine

/-- A program follows a course on which anything may happen, if its requests do. -/
theorem Prog.interpret_follows {answer : {γ : Type} → Request H γ → Run H γ}
    (hanswer : ∀ {γ : Type} (r : Request H γ), Run.Follows Anything (answer r))
    (p : Prog H α) : Run.Follows Anything (p.interpret answer) :=
  p.interpret_along (Course.trail Anything) (fun _ _ => trivial) hanswer

end ObjectBootstrap
