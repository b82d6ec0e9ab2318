import ObjectBootstrap.Proofs.Container.Integrity
import ObjectBootstrap.Proofs.Course.Stepwise

/-!
# Relations that bear what is written down

A relation that looks at definitions and at what is kept of objects cannot bear every change of a
state. It bears a change together with the entry that is written down of it: a definition that is
stored with the entry about the store, a hook that is installed with the entry about that. Edits are
such changes too, because an edit stores the definition in one moment, at its end.

Builds are different. Between its beginning and its end a build leaves the container in a condition
that only the whole of it accounts for. So what is left to show of such a relation is that it bears
requests, each with all that belongs to it.

The parts of a call or of a build are no courses by themselves. What every part does have is that it
loses no entry, ends the builds that it begins, and keeps the container coherent; `Onward` says so,
and a relation may rely on it where parts are put together.

## Main definitions

* `Onward`: What every part of a run does.
* `Activity.IsAside`: Whether an entry is about a call, a walk, or a publication.
* `Gradual`: A relation that bears changes together with their entries.

## Theorems

* `Course.onward`: Courses lead onward.
* `Gradual.trail`: A gradual relation bears the operations.
* `Gradual.walk_along`: It bears walks.
* `Gradual.builds`: It bears builds if it bears requests.
* `Engine.Steps.through`: What the steps of a build come to for a relation.
-/

namespace ObjectBootstrap

variable {H : Host} {R : State H → State H → Prop}

/-- What every part of a run does: no entry is lost, the same builds are under way at the end, and
    the container stays coherent. -/
structure Onward (s t : State H) : Prop where
  suffix : s.log <:+ t.log
  underway : t.container.inCreation = s.container.inCreation
  coherent : s.container.Coherent → t.container.Coherent

/-- Courses lead onward. -/
theorem Course.onward {may : Activity H → Prop} {s t : State H} (h : Course may s t) :
    Onward s t :=
  ⟨h.log_suffix, h.inCreation_eq, h.coherent⟩

theorem Onward.followedBy {s t u : State H} (h1 : Onward s t) (h2 : Onward t u) : Onward s u :=
  ⟨h1.suffix.trans h2.suffix, h2.underway.trans h1.underway,
    fun hs => h2.coherent (h1.coherent hs)⟩

-- The object of a factory becomes the target while its build is under way.
theorem Onward.of_bear {s : State H} {name : String} (hname : name ∈ s.container.inCreation)
    (object : Object H.Content) : Onward s (s.bear name object) :=
  ⟨List.suffix_cons _ _, rfl, fun hs => hs.keepTarget hname object⟩

theorem Onward.of_note (s : State H) (activity : Activity H) : Onward s (s.note activity) :=
  ⟨List.suffix_cons _ _, rfl, id⟩

/-- Whether an entry is about a call, a walk, or a publication, and so about no change of the
    container. -/
def Activity.IsAside : Activity H → Prop
  | .entered _ => True
  | .left _ _ => True
  | .walked _ _ _ => True
  | .ended _ _ _ => True
  | .published _ _ => True
  | _ => False

/-- A relation that bears changes together with their entries. -/
structure Gradual (R : State H → State H → Prop) : Prop where
  rest (s : State H) : R s s
  followedBy {s t u : State H} : Onward s t → Onward t u → R s t → R t u → R s u
  quiet {s t : State H} : Quiet s t →
    t.container.allowOverriding = s.container.allowOverriding → R s t
  note {activity : Activity H} (s : State H) : activity.IsAside → R s (s.note activity)
  register {s : State H} {d : Definition H.Factory} {k : Container H} :
    s.container.register d = .ok k → R s ((s.withContainer k).note (.registered d))
  update (s : State H) (name : String) (d : Definition H.Factory) :
    R s ((s.withContainer (s.container.writeBack name d)).note (.updated name d))
  install (s : State H) (name : String) (hook : Hook H.Content) :
    R s ((s.withContainer (s.container.install name hook)).note (.installed name))
  unsubscribe (s : State H) (name : String) :
    R s ({ s with listeners := s.listeners.erase name }.note (.unsubscribed name))

namespace Gradual

variable (hR : Gradual R)
include hR

-- An entry that is no change may stand at either side.
theorem note_before {s t : State H} {activity : Activity H} (haside : activity.IsAside)
    (honward : Onward (s.note activity) t) (h : R (s.note activity) t) : R s t :=
  hR.followedBy (.of_note s activity) honward (hR.note s haside) h

theorem note_behind {s t : State H} {activity : Activity H} (haside : activity.IsAside)
    (honward : Onward s t) (h : R s t) : R s (t.note activity) :=
  hR.followedBy honward (.of_note t activity) h (hR.note t haside)

/-- A relation that bears changes together with their entries bears the operations. -/
theorem trail : Trail Anything (AlongCourses R) (AlongCourses R) where
  course h := h.1
  rest s := ⟨.rest s, hR.rest s⟩
  followedBy h1 h2 := ⟨h1.1.followedBy h2.1, hR.followedBy h1.1.onward h2.1.onward h1.2 h2.2⟩
  quiet h _ hallow := ⟨.quiet h, hR.quiet h hallow⟩
  register hk _ := ⟨.deed (.register hk) trivial, hR.register hk⟩
  install s name hook _ _ := ⟨.deed (.install s name hook) trivial, hR.install s name hook⟩
  post s target _ := by
    have hposted : Course Anything s (s.post target) :=
      (Course.trail Anything).post s target trivial
    have hstationed : Quiet s { s with sentinels := s.sentinels ++ [⟨target, []⟩] } :=
      .station s target
    have hwaiting : Course Anything s { s with sentinels := s.sentinels ++ [⟨target, []⟩] } :=
      .quiet hstationed
    have hinstalled : Course Anything { s with sentinels := s.sentinels ++ [⟨target, []⟩] }
        (s.post target) := .deed (.install _ _ _) trivial
    exact ⟨hposted, hR.followedBy hwaiting.onward
      hinstalled.onward (hR.quiet hstationed rfl) (hR.install _ _ _)⟩
  publish s event _ := ⟨.deed (.publish s event) trivial, hR.note s trivial⟩
  unsubscribe s name _ := ⟨.deed (.unsubscribe s name) trivial, hR.unsubscribe s name⟩
  stop s stage hook name _ := ⟨.deed (.stop s stage hook name) trivial, hR.note s trivial⟩
  call {s t point failure} _ h := by
    have hentered : (Activity.entered point).IsAside := trivial
    have hleft : (Activity.left point failure).IsAside := trivial
    exact ⟨.call trivial h.1, hR.note_before hentered (h.1.onward.followedBy (.of_note _ _))
      (hR.note_behind hleft h.1.onward h.2)⟩
  update {s t name d e} _ hd h := by
    have hname : t.container.contains name = true :=
      h.1.contains_kept (Option.isSome_of_eq_some (Container.definitions_of_ok hd))
    -- What is stored at the end of the edit keeps the container coherent by itself.
    exact ⟨.update trivial hd h.1, hR.followedBy h.1.onward
      ⟨List.suffix_cons _ _, rfl, fun ht => ht.writeBack ((ht.mem_names_iff name).2 hname) _⟩
      h.2 (hR.update t name e)⟩

theorem watch_along (number : Nat) (name : String) :
    Run.Along (AlongCourses R) (Engine.watch number name : Run H Unit) := by
  intro s a t h
  cases h
  exact ⟨.quiet (.watch s number name), hR.quiet (.watch s number name) rfl⟩

/-- A relation that bears changes together with their entries bears walks. -/
theorem walk_along {E : Engine H} (hE : E.Keeps (AlongCourses R)) (stage : Stage) (name : String)
    (object : Object H.Content) : Attempt.Along (AlongCourses R) (E.walk stage name object) :=
  Engine.walk_along hE hR.trail
    (fun s => ⟨.deed (.walk s stage name) trivial, hR.note s trivial⟩) (fun _ _ => trivial)
    (fun number => hR.watch_along number name) object

/-- What is left to show of such a relation to know that it bears builds: that it bears requests,
    those that are answered without a build and those that are answered by one. -/
theorem builds {E : Engine H} (hE : E.Keeps (AlongCourses R))
    (hanswer : ∀ (s : State H) (name : String) (result : Except Error (Object H.Content)),
      (∀ object, result = .ok object ↔ s.container.singletons.get? name = some object) →
        R s ((s.note (.requested name)).note (.answered name result.toOption)))
    (hbuild : ∀ {s t : State H} {name : String} {d : Definition H.Factory} {k : Container H}
      {result : Except Error (Built H)},
      s.container.singletons.get? name = none → s.container.definitions.get? name = some d →
        d.isAbstract = false → s.container.beginCreation name = .ok k →
        E.Steps (AlongCourses R) name d ((s.note (.requested name)).withContainer k) result t →
        R s (t.conclude name result)) : E.Builds Anything (AlongCourses R) := by
  have hcourse : E.Builds Anything (Course Anything) :=
    Engine.Lawful.builds (fun shown program s a t h => (hE.runs shown program s a t h).1)
      fun _ _ _ _ => trivial
  refine ⟨?_, ?_, fun stage name object _ => hR.walk_along hE stage name object⟩
  · intro s name result _ _ hkept
    exact ⟨hcourse.answer trivial trivial hkept, hanswer s name result hkept⟩
  · intro s t name d k result _ _ hkept hd habs hk h
    exact ⟨hcourse.build trivial trivial hkept hd habs hk (h.imp fun hst => hst.1),
      hbuild hkept hd habs hk h⟩

end Gradual

/-- The steps of a build lead onward, and they keep to any relation that also bears the one in which
    the object of the factory becomes the target. -/
theorem Engine.Steps.through {E : Engine H} {Q : State H → State H → Prop} {s t : State H}
    {name : String} {d : Definition H.Factory} {result : Except Error (Built H)}
    (h : E.Steps (AlongCourses R) name d s result t) (hname : name ∈ s.container.inCreation)
    (hjoin : ∀ {s t u : State H}, Onward s t → Onward t u → Q s t → Q t u → Q s u)
    (hpart : ∀ {s t : State H}, R s t → Q s t)
    (hbear : ∀ (u : State H) (object : Object H.Content), name ∈ u.container.inCreation →
      Q u (u.bear name object)) : Onward s t ∧ Q s t := by
  cases h with
  | unmerged _ hst => exact ⟨hst.1.onward, hpart hst.2⟩
  | unmade _ hsu _ hut =>
      exact ⟨hsu.1.onward.followedBy hut.1.onward,
        hjoin hsu.1.onward hut.1.onward (hpart hsu.2) (hpart hut.2)⟩
  | @unfinished _ object _ u v _ _ hsu _ huv _ hvt | @finished _ object _ u v _ _ hsu _ huv _ hvt =>
      have hmade := hsu.1.onward.followedBy huv.1.onward
      have hunder : name ∈ v.container.inCreation := hmade.underway ▸ hname
      have hborne := Onward.of_bear hunder object
      refine ⟨hmade.followedBy (hborne.followedBy hvt.1.onward), ?_⟩
      exact hjoin hmade (hborne.followedBy hvt.1.onward)
        (hjoin hsu.1.onward huv.1.onward (hpart hsu.2) (hpart huv.2))
        (hjoin hborne hvt.1.onward (hbear v object hunder) (hpart hvt.2))

end ObjectBootstrap
