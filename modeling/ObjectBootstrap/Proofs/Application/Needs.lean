import ObjectBootstrap.Proofs.Course.Runs
import ObjectBootstrap.Proofs.Container.Standing

/-!
# Building what is needed

Up to the end of the installation an application builds for its own needs only: the registry asks
for a name because a query told that it declares the capability that a phase looks for. That the
factory which is called then belongs to a hook is not clear from the names. In between hooks and
factories are called, and they may store other definitions. And the copy that a build uses is
offered to the hooks that are installed already, which may put another definition in its place. It
holds if no definition loses a capability of hooks by what is stored over it or built instead of it
(`KeepsHooks`).

So what a phase writes down outside of calls depends on what happens in it. `CourseIf` is the
relation for this: a course in any case, and a course that only writes down certain entries if a
condition on its first and last states is met. As long as the condition passes to the parts of a way
(`Divides`), runs go along this relation as they go along courses.

## Main definitions

* `Definition.isHook`, `Definition.Remains`: What a definition declares of hooks' capabilities.
* `EntryPoint.isHook`: What is called of hooks.
* `Activity.used?`: The definition that is used for a name from an entry on, or for one build.
* `KeepsHooks`: No definition loses a capability of hooks.
* `CourseIf`: A course on which only certain entries are written down if a condition is met.
* `Activity.Needed`: What is written down when only certain names are asked for.

## Theorems

* `KeepsHooks.remains`: What is found later under a name remains what was found first.
* `Divides.trail`: Runs go along courses with a condition.
* `Engine.getOrBuild_needed`: A request for a name that is asked for.
* `CourseIf.meetingNeeds`: What the answers to a query need is needed.
-/

namespace ObjectBootstrap

variable {H : Host}

/-- Whether a capability is one that the phases look for. -/
def Capability.isHook : Capability → Bool
  | .mutatesRegistry => true
  | .customizesFactory => true
  | .interceptsInstance => true
  | _ => false

namespace Definition

variable {F : Type}

/-- Whether a definition declares a capability that the phases look for. -/
def isHook (d : Definition F) : Bool := d.capabilities.any Capability.isHook

theorem isHook_of_hasCapability {d : Definition F} {c : Capability} (hc : c.isHook = true)
    (h : d.hasCapability c = true) : d.isHook = true :=
  List.any_eq_true.2 ⟨c, List.contains_iff_mem.1 h, hc⟩

/-- A definition declares the capabilities of hooks that an older one declared. -/
def Remains (new old : Definition F) : Prop :=
  ∀ c : Capability, c.isHook = true → old.hasCapability c = true → new.hasCapability c = true

end Definition

namespace EntryPoint

/-- Whether an entry point is that of a hook, or of the factory of a hook. -/
def isHook : EntryPoint H → Bool
  | .make _ d => d.isHook
  | .notify _ _ _ => false
  | _ => true

/-- Whether an entry point is that of a factory. -/
def isMake : EntryPoint H → Bool
  | .make _ _ => true
  | _ => false

end EntryPoint

namespace Activity

/-- The definition that an entry tells to be used for a name: the one that is stored, or the copy
    that a factory is called with. -/
def used? : Activity H → Option (String × Definition H.Factory)
  | .entered (.make name copy) => some (name, copy)
  | activity => activity.stored?

theorem used?_of_stored {activity : Activity H} {entry : String × Definition H.Factory}
    (h : activity.stored? = some entry) : activity.used? = some entry := by
  cases activity with
  | registered d => exact h
  | updated name d => exact h
  | _ => cases h

/-- A definition of a name does not lose a capability of hooks by what is used according to an
    entry. -/
def Honours (activity : Activity H) (name : String) (old : Definition H.Factory) : Prop :=
  ∀ new, activity.used? = some (name, new) → new.Remains old

end Activity

/-- No definition loses a capability of hooks, neither one that is there at first nor one that is
    stored on the way: what is stored over it declares the same of them, and so do the copies of it
    that are built. -/
structure KeepsHooks (s t : State H) : Prop where
  first : ∀ name old, s.container.definitions.get? name = some old →
    ∀ activity ∈ since s t, activity.Honours name old
  later : (since s t).Pairwise fun early late =>
    ∀ name old, early.stored? = some (name, old) → late.Honours name old

namespace KeepsHooks

variable {may may' : Activity H → Prop} {s t u : State H}

theorem left (h1 : Course may s t) (h2 : Course may' t u) (h : KeepsHooks s u) :
    KeepsHooks s t := by
  rcases h with ⟨hfirst, hlater⟩
  rw [Course.since_followedBy h1 h2] at hfirst hlater
  exact ⟨fun name old hold activity hmem =>
      hfirst name old hold activity (List.mem_append_left _ hmem),
    (List.pairwise_append.1 hlater).1⟩

theorem right (h1 : Course may s t) (h2 : Course may' t u) (h : KeepsHooks s u) :
    KeepsHooks t u := by
  rcases h with ⟨hfirst, hlater⟩
  rw [Course.since_followedBy h1 h2] at hfirst hlater
  rcases List.pairwise_append.1 hlater with ⟨_, hright, hacross⟩
  refine ⟨fun name old hold activity hmem => ?_, hright⟩
  rcases h1.definition_of_stores hold with hthere | hstored
  · exact hfirst name old hthere activity (List.mem_append_right _ hmem)
  · rcases List.mem_filterMap.1 hstored with ⟨early, hearly, hstores⟩
    exact hacross early hearly activity hmem name old hstores

/-- What is stored over a definition remains what it was. -/
theorem remains_of_stored (h : KeepsHooks s t) {name : String} {old new : Definition H.Factory}
    (hold : s.container.definitions.get? name = some old)
    (hnew : (name, new) ∈ stores (since s t)) :
    new.Remains old := by
  rcases List.mem_filterMap.1 hnew with ⟨activity, hmem, hstored⟩
  exact h.first name old hold activity hmem new (Activity.used?_of_stored hstored)

/-- What is found later under a name remains what was found first. -/
theorem remains (h1 : Course may s t) (h : KeepsHooks s t) {name : String}
    {old : Definition H.Factory} (hold : s.container.definitions.get? name = some old) :
    ∃ new, t.container.definitions.get? name = some new ∧ new.Remains old := by
  -- Names are never lost.
  rcases Option.isSome_iff_exists.1 (h1.contains_kept (Option.isSome_of_eq_some hold)) with
    ⟨new, hnew⟩
  refine ⟨new, hnew, ?_⟩
  rcases h1.definition_of_stores hnew with hsame | hstored
  · rw [hold] at hsame
    cases hsame
    exact fun _ _ hdeclares => hdeclares
  · exact h.remains_of_stored hold hstored

-- An update stores what it edited behind all that happened during the edit.
theorem before_update (h1 : Course may s t) {name : String} {d : Definition H.Factory}
    {k : Container H} (h : KeepsHooks s ((t.withContainer k).note (.updated name d))) :
    KeepsHooks s t := by
  rcases h with ⟨hfirst, hlater⟩
  rw [Course.since_update h1] at hfirst hlater
  exact ⟨fun name old hold activity hmem =>
      hfirst name old hold activity (List.mem_append_left _ hmem),
    (List.pairwise_append.1 hlater).1⟩

end KeepsHooks

/-- A course on which only certain entries are written down outside of calls if a condition on its
    first state and its last one is met. -/
def CourseIf (cond : State H → State H → Prop) (may : Activity H → Prop) (s t : State H) : Prop :=
  Course Anything s t ∧ (cond s t → Course may s t)

/-- A condition that passes to the parts of a way. -/
structure Divides (cond : State H → State H → Prop) : Prop where
  left {s t u : State H} : Course Anything s t → Course Anything t u → cond s u → cond s t
  right {s t u : State H} : Course Anything s t → Course Anything t u → cond s u → cond t u
  before_update {s t : State H} {name : String} {d : Definition H.Factory} {k : Container H} :
    Course Anything s t → cond s ((t.withContainer k).note (.updated name d)) → cond s t

/-- Courses with a condition are a relation that runs go along. -/
theorem Divides.trail {cond : State H → State H → Prop} (hcond : Divides cond)
    (may : Activity H → Prop) : Trail may (Course Anything) (CourseIf cond may) where
  course h := h.1
  rest s := ⟨.rest s, fun _ => .rest s⟩
  followedBy h1 h2 := ⟨.followedBy h1.1 h2.1, fun h =>
    .followedBy (h1.2 (hcond.left h1.1 h2.1 h)) (h2.2 (hcond.right h1.1 h2.1 h))⟩
  quiet h _ _ := ⟨.quiet h, fun _ => .quiet h⟩
  register hk hmay := ⟨.deed (.register hk) trivial, fun _ => .deed (.register hk) hmay⟩
  install s name hook _ hmay :=
    ⟨.deed (.install s name hook) trivial, fun _ => .deed (.install s name hook) hmay⟩
  post s target hmay := ⟨(Course.trail Anything).post s target trivial,
    fun _ => (Course.trail may).post s target hmay⟩
  publish s event hmay :=
    ⟨.deed (.publish s event) trivial, fun _ => .deed (.publish s event) hmay⟩
  unsubscribe s name hmay :=
    ⟨.deed (.unsubscribe s name) trivial, fun _ => .deed (.unsubscribe s name) hmay⟩
  stop s stage hook name hmay :=
    ⟨.deed (.stop s stage hook name) trivial, fun _ => .deed (.stop s stage hook name) hmay⟩
  call hmay h := ⟨.call trivial h, fun _ => .call hmay h⟩
  update hmay hd h := ⟨.update trivial hd h.1, fun hupdated =>
    .update hmay hd (h.2 (hcond.before_update h.1 hupdated))⟩

/-- The names that are asked for declare a capability, and no definition loses one. -/
structure AskedFor (ask : String → Prop) (c : Capability) (s t : State H) : Prop where
  declares : ∀ name, ask name →
    ∃ d, s.container.definitions.get? name = some d ∧ d.hasCapability c = true
  keeps : KeepsHooks s t

theorem AskedFor.divides (ask : String → Prop) {c : Capability} (hc : c.isHook = true) :
    Divides (AskedFor (H := H) ask c) where
  left h1 h2 h := ⟨h.declares, h.keeps.left h1 h2⟩
  right h1 h2 h := by
    refine ⟨fun name hname => ?_, h.keeps.right h1 h2⟩
    rcases h.declares name hname with ⟨old, hold, hdeclares⟩
    rcases (h.keeps.left h1 h2).remains h1 hold with ⟨new, hnew, hremains⟩
    exact ⟨new, hnew, hremains c hc hdeclares⟩
  before_update h1 h := ⟨h.declares, h.keeps.before_update h1⟩

/-- The container is consistent, and no definition loses a capability of hooks. -/
structure Lossless (s t : State H) : Prop where
  consistent : s.container.Consistent
  keeps : KeepsHooks s t

theorem Lossless.divides : Divides (Lossless (H := H)) where
  left h1 h2 h := ⟨h.consistent, h.keeps.left h1 h2⟩
  right h1 h2 h := ⟨h1.consistent h.consistent, h.keeps.right h1 h2⟩
  before_update h1 h := ⟨h.consistent, h.keeps.before_update h1⟩

/-- What is written down outside of calls when only certain names are asked for, and factories are
    called for these names only and with certain copies. No listener is told of anything. -/
def Activity.Needed (ask : String → Prop) (makes : Definition H.Factory → Prop) :
    Activity H → Prop
  | .entered (.make name copy) => ask name ∧ makes copy
  | .entered (.notify _ _ _) => False
  | .made name _ => ask name
  | .walked _ name _ => ask name
  | .requested name => ask name
  | .answered name _ => ask name
  | _ => True

/-- What the registry needs: whatever it asks for, it only calls factories of hooks for that. -/
abbrev Activity.OfNeeds : Activity H → Prop := Activity.Needed AnyName fun d => d.isHook = true

theorem Activity.Needed.ofNeeds {ask : String → Prop} {c : Capability} (hc : c.isHook = true)
    {activity : Activity H} (h : activity.Needed ask fun d => d.hasCapability c = true) :
    activity.OfNeeds := by
  cases activity with
  | entered point =>
      cases point with
      | make name copy => exact ⟨trivial, Definition.isHook_of_hasCapability hc h.2⟩
      | notify listener self event => exact h
      | _ => exact trivial
  | _ => exact trivial

-- What the registry calls for its needs are hooks and their factories.
theorem EntryPoint.isHook_of_needed {ask : String → Prop} {c : Capability} (hc : c.isHook = true)
    (point : EntryPoint H)
    (h : (Activity.entered point).Needed ask fun d => d.hasCapability c = true) :
    point.isHook = true := by
  cases point with
  | make name copy => exact Definition.isHook_of_hasCapability hc h.2
  | notify listener self event => exact absurd h id
  | _ => rfl

theorem EntryPoint.isHook_of_ofNeeds (point : EntryPoint H) (h : (Activity.entered point).OfNeeds) :
    point.isHook = true := by
  cases point with
  | make name copy => exact h.2
  | notify listener self event => exact absurd h id
  | _ => rfl

theorem Activity.OfWalks.needed {ask : String → Prop} {makes : Definition H.Factory → Prop}
    {name : String} (hname : ask name) {activity : Activity H} (h : activity.OfWalks name) :
    activity.Needed ask makes := by
  cases activity with
  | entered point =>
      cases point with
      | intercept stage hook object n => exact trivial
      | _ => exact absurd h id
  | made n object => exact (h : n = name) ▸ hname
  | walked stage n registration => exact (h : n = name) ▸ hname
  | _ => exact absurd h id

/-- A course that writes down what it needs if its names are asked for. -/
abbrev AskingFor (ask : String → Prop) (c : Capability) : State H → State H → Prop :=
  CourseIf (AskedFor ask c) (Activity.Needed ask fun d => d.hasCapability c = true)

/-- A course that writes down what the registry needs if no definition loses a capability. -/
abbrev MeetingNeeds : State H → State H → Prop := CourseIf Lossless Activity.OfNeeds

theorem AskingFor.trail (ask : String → Prop) {c : Capability} (hc : c.isHook = true) :
    Trail (Activity.Needed (H := H) ask fun d => d.hasCapability c = true) (Course Anything)
      (AskingFor ask c) :=
  (AskedFor.divides ask hc).trail _

theorem MeetingNeeds.trail :
    Trail (Activity.OfNeeds (H := H)) (Course Anything) MeetingNeeds :=
  Lossless.divides.trail _

namespace Engine

variable {E : Engine H}

/-- A request for a name that is asked for. The copy that its factory is called with declares the
    capability. -/
theorem getOrBuild_needed (hE : E.Lawful) (c : Capability) (hc : c.isHook = true)
    {ask : String → Prop} (name : String) (hname : ask name) :
    Attempt.Along (AskingFor ask c) (E.getOrBuild name) := by
  intro s result t h
  refine ⟨getOrBuild_follows hE (fun _ _ => trivial) name _ _ _ h, fun hasked => ?_⟩
  have hcourse : Course (Activity.Needed ask fun _ => True) s t :=
    getOrBuild_course hE (fun n hn activity hwalks => hwalks.needed hn) (fun _ _ => trivial) hname
      (fun _ => hname) (fun _ => ⟨hname, trivial⟩) h
  refine hcourse.sharpen fun activity hmem hneeded => ?_
  cases activity with
  | entered point =>
      cases point with
      | make n copy =>
          -- Its name was registered with the capability, and the copy has not lost it.
          rcases hasked.declares n hneeded.1 with ⟨d, hd, hdeclares⟩
          exact ⟨hneeded.1, hasked.keeps.first n d hd _ hmem copy rfl c hc hdeclares⟩
      | _ => exact hneeded
  | _ => exact hneeded

end Engine

/-- The answers to a query declare the capability that the query asks for. -/
theorem Lossless.askedFor {s t : State H} (h : Lossless s t) (query : CapabilityQuery) :
    AskedFor (fun name => name ∈ (s.container.namesFor query).1) query.capability s t := by
  refine ⟨fun name hname => ?_, h.keeps⟩
  rcases h.consistent.mem_namesFor_iff.1 hname with ⟨d, hd, hadmits⟩
  unfold CapabilityQuery.admits at hadmits
  exact ⟨d, hd, (Bool.and_eq_true _ _ ▸ hadmits).2⟩

/-- What the answers to a query need is what the registry needs. -/
theorem CourseIf.meetingNeeds {s t : State H} (query : CapabilityQuery)
    (hc : query.capability.isHook = true)
    (h : AskingFor (fun name => name ∈ (s.container.namesFor query).1) query.capability s t) :
    MeetingNeeds s t :=
  ⟨h.1, fun hlossless => (h.2 (hlossless.askedFor query)).weaken
    fun _ hneeded => hneeded.ofNeeds hc⟩

end ObjectBootstrap
