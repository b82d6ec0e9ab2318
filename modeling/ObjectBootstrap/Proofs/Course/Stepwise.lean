import ObjectBootstrap.Proofs.Course.Runs

/-!
# Relations that bear single changes

A course has brackets: a call that is entered is left again, and a build that begins comes to its
end. Many relations do not look at brackets. They look at the chain, at the sentinels, and at some
entries of the log, and they bear each single change by itself. Such a relation bears the brackets
too, and holds along runs if it holds along walks and what follows a factory.

## Main definitions

* `Activity.IsPlain`: Whether an entry is about anything else than installing, making and walking.
* `Stepwise`: A relation that bears single changes.
* `AlongCourses`: Such a relation on courses.

## Theorems

* `Stepwise.trail`, `Stepwise.builds`: Such a relation bears the operations and builds.
-/

namespace ObjectBootstrap

variable {H : Host} {R : State H → State H → Prop}

/-- Whether an entry is about anything else than installing, making and walking. -/
def Activity.IsPlain : Activity H → Prop
  | .installed _ => False
  | .made _ _ => False
  | .walked _ _ _ => False
  | _ => True

/-- A relation that bears single changes. As long as the chain and the sentinels stay as they are,
    only some entries of the log matter. -/
structure Stepwise (R : State H → State H → Prop) : Prop where
  followedBy {s t u : State H} : R s t → R t u → R s u
  still {s t : State H} : t.container.chain = s.container.chain → t.sentinels = s.sentinels →
    t.log = s.log → R s t
  note {activity : Activity H} (s : State H) : activity.IsPlain → R s (s.note activity)
  install (s : State H) (name : String) {hook : Hook H.Content} :
    (∀ number, hook ≠ .sentinel number) →
      R s ((s.withContainer (s.container.install name hook)).note (.installed name))
  post (s : State H) (target : Nat) : R s (s.post target)

/-- Two states of a course that are related. -/
def AlongCourses (R : State H → State H → Prop) (s t : State H) : Prop :=
  Course Anything s t ∧ R s t

namespace Stepwise

variable (hR : Stepwise R)
include hR

-- Between two entries nothing else changes than what the relation bears.
theorem between {s t : State H} (first last : Activity H) (hfirst : first.IsPlain)
    (hlast : last.IsPlain) (h : R (s.note first) t) : R s (t.note last) :=
  hR.followedBy (hR.note s hfirst) (hR.followedBy h (hR.note t hlast))

-- What is stored changes neither the chain nor the sentinels.
theorem noted {s t : State H} {k : Container H} {activity : Activity H} (h : R s t)
    (hk : k.chain = t.container.chain) (hplain : activity.IsPlain) :
    R s ((t.withContainer k).note activity) := by
  have hstored : R t (t.withContainer k) := hR.still hk rfl rfl
  exact hR.followedBy h (hR.followedBy hstored (hR.note _ hplain))

theorem quiet {s t : State H} (h : Quiet s t) (hsentinels : t.sentinels = s.sentinels) : R s t := by
  refine hR.still ?_ hsentinels h.log_eq
  cases h with
  | search query => exact Container.namesFor_chain _ _
  | _ => rfl

theorem trail : Trail Anything (AlongCourses R) (AlongCourses R) where
  course h := h.1
  rest s := ⟨.rest s, hR.still rfl rfl rfl⟩
  followedBy h1 h2 := ⟨.followedBy h1.1 h2.1, hR.followedBy h1.2 h2.2⟩
  quiet h hsentinels _ := ⟨.quiet h, hR.quiet h hsentinels⟩
  register hk _ := ⟨.deed (.register hk) trivial,
    hR.noted (hR.still rfl rfl rfl) (Container.register_eq_ok hk).2.2 trivial⟩
  install s name hook hhook _ := ⟨.deed (.install s name hook) trivial, hR.install s name hhook⟩
  post s target _ := ⟨(Course.trail Anything).post s target trivial, hR.post s target⟩
  publish s event _ := ⟨.deed (.publish s event) trivial, hR.note s trivial⟩
  unsubscribe s name _ := by
    have hstill : R s { s with listeners := s.listeners.erase name } := hR.still rfl rfl rfl
    exact ⟨.deed (.unsubscribe s name) trivial, hR.followedBy hstill (hR.note _ trivial)⟩
  stop s stage hook name _ := ⟨.deed (.stop s stage hook name) trivial, hR.note s trivial⟩
  call {_ _ point failure} _ h :=
    ⟨.call trivial h.1, hR.between (.entered point) (.left point failure) trivial trivial h.2⟩
  update _ hd h := ⟨.update trivial hd h.1, hR.noted h.2 rfl trivial⟩

omit hR in
-- A walk follows a course too.
theorem walk {E : Engine H} (hE : E.Keeps (AlongCourses R))
    (hwalk : ∀ stage name object, Attempt.Along R (E.walk stage name object)) (stage : Stage)
    (name : String) (object : Object H.Content) :
    Attempt.Along (AlongCourses R) (E.walk stage name object) := by
  have hlawful : E.Lawful := fun shown program s a t h => (hE.runs shown program s a t h).1
  exact fun s result t h => ⟨hlawful.walk (fun _ _ => trivial) stage object s result t h,
    hwalk stage name object s result t h⟩

-- What follows a factory, if the relation bears the entry about its object.
theorem finish {E : Engine H} (hE : E.Keeps (AlongCourses R))
    (hwalk : ∀ stage name object, Attempt.Along R (E.walk stage name object)) {s t : State H}
    {name : String} {object : Object H.Content} {result : Except Error (Object H.Content)}
    (hname : name ∈ s.container.inCreation) (hmade : R s (s.note (.made name object)))
    (h : (E.finish name object).run s = some (result, t)) : R s t := by
  have hkept : R (s.note (.made name object)) ((s.note (.made name object)).withContainer
      (s.container.keepTarget name object)) := hR.still rfl rfl rfl
  exact (Engine.finish_along hR.trail ⟨.deed (.make object hname) trivial,
    hR.followedBy hmade hkept⟩ (fun stage object => walk hE hwalk stage name object) h).2

/-- A relation that bears single changes, walks and the end of a creation bears builds. -/
theorem builds {E : Engine H} (hE : E.Keeps (AlongCourses R))
    (hwalk : ∀ stage name object, Attempt.Along R (E.walk stage name object))
    (hfinish : ∀ {s t : State H} {name object result}, name ∈ s.container.inCreation →
      (E.finish name object).run s = some (result, t) → R s t) :
    E.Builds Anything (AlongCourses R) := by
  have hlawful : E.Lawful := fun shown program s a t h => (hE.runs shown program s a t h).1
  refine Engine.Builds.of_finish hR.trail ?_ ?_ ?_ ?_
  · intro s t name object _ _ h
    exact ⟨.request trivial trivial h.1,
      hR.between (.requested name) (.answered name object) trivial trivial h.2⟩
  · intro s t name d k built hget hd habs hk h
    refine ⟨.build hget hd habs hk h.1, ?_⟩
    have hbegun : (s.withContainer k).container.chain = s.container.chain := by
      rcases Container.beginCreation_eq_ok hk with ⟨_, rfl⟩
      rfl
    have hended : R t (t.withContainer (t.container.finishBuild name built)) :=
      hR.still (Container.finishBuild_chain _ _ _) rfl rfl
    exact hR.followedBy (hR.still hbegun rfl rfl) (hR.followedBy h.2 hended)
  · exact fun stage name object _ => walk hE hwalk stage name object
  · intro s t name object result _ hname h
    have hcourse : Course Anything s t :=
      Engine.finish_along (Course.trail Anything) (.deed (.make object hname) trivial)
        (fun stage object => hlawful.walk (fun _ _ => trivial) stage object) h
    exact ⟨hcourse, hfinish hname h⟩

end Stepwise

end ObjectBootstrap
