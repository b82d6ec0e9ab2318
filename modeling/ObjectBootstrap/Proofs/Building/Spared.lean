import ObjectBootstrap.Proofs.Course.Gradual

/-!
# What builds leave alone

A build does not begin for a name whose build is under way already, and neither for one whose
singleton is built. So whatever hooks and factories ask for, nothing happens to what is kept under
such a name, as long as the name is not registered anew: its singleton stays or is missing as
before, and so does its target. In particular the object that a factory made is still the target of
its name when its walks are over.

## Main definitions

* `Container.Engaged`: No build of a name can begin.
* `Container.SameFor`: The same is kept under a name.
* `Spared`: What is kept under engaged names stays the same.

## Theorems

* `Engine.keeps_spared`: Whatever is run, engaged names are spared.
-/

namespace ObjectBootstrap

variable {H : Host}

/-- No build of a name can begin: one is under way, or the singleton is built. -/
def Container.Engaged (k : Container H) (name : String) : Prop :=
  name ∈ k.inCreation ∨ (k.singletons.get? name).isSome = true

/-- The same singleton and the same target are kept under a name, or the same is missing. -/
structure Container.SameFor (name : String) (k k' : Container H) : Prop where
  singleton : k'.singletons.get? name = k.singletons.get? name
  target : k'.targets.get? name = k.targets.get? name

/-- Whether an entry does not tell that a name is registered. -/
def Activity.Spares (name : String) : Activity H → Prop
  | .registered d => d.name ≠ name
  | _ => True

instance (name : String) : DecidablePred (Activity.Spares (H := H) name)
  | .registered d => inferInstanceAs (Decidable (d.name ≠ name))
  | .entered _ => .isTrue trivial
  | .left _ _ => .isTrue trivial
  | .updated _ _ => .isTrue trivial
  | .installed _ => .isTrue trivial
  | .made _ _ => .isTrue trivial
  | .walked _ _ _ => .isTrue trivial
  | .requested _ => .isTrue trivial
  | .answered _ _ => .isTrue trivial
  | .ended _ _ _ => .isTrue trivial
  | .unsubscribed _ => .isTrue trivial
  | .published _ _ => .isTrue trivial

-- A name that is not stored is not registered.
theorem spares_of_stores {name : String} {chronicle : List (Activity H)}
    (h : name ∉ (stores chronicle).map Prod.fst) :
    ∀ activity ∈ chronicle, activity.Spares name := by
  intro activity hmem
  cases activity with
  | registered d =>
      rintro rfl
      exact h (List.mem_map.2 ⟨(d.name, d), List.mem_filterMap.2 ⟨_, hmem, rfl⟩, rfl⟩)
  | _ => trivial

/-- What is kept under engaged names stays the same, unless they are registered anew. The first
    argument says which names this is about. -/
def Spared (p : String → Prop) (s t : State H) : Prop :=
  ∀ name, p name → s.container.Engaged name → (∀ activity ∈ since s t, activity.Spares name) →
    s.container.SameFor name t.container

namespace Container

variable {name : String} {k k' : Container H}

theorem SameFor.refl (name : String) (k : Container H) : k.SameFor name k := ⟨rfl, rfl⟩

theorem SameFor.trans {k'' : Container H} (h1 : k.SameFor name k') (h2 : k'.SameFor name k'') :
    k.SameFor name k'' :=
  ⟨h2.singleton.trans h1.singleton, h2.target.trans h1.target⟩

theorem Engaged.congr (h : k.Engaged name) (hcreation : k'.inCreation = k.inCreation)
    (hsame : k.SameFor name k') : k'.Engaged name := by
  unfold Engaged
  rw [hcreation, hsame.singleton]
  exact h

-- A change that is not written down keeps all objects.
theorem SameFor.of_quiet {s t : State H} (h : Quiet s t) (name : String) :
    s.container.SameFor name t.container := by
  cases h with
  | search query =>
      rw [State.withContainer_container]
      unfold namesFor
      split
      · exact .refl name _
      · exact ⟨rfl, rfl⟩
  | _ => exact ⟨rfl, rfl⟩

-- A registration is about its own name only.
theorem SameFor.of_register {d : Definition H.Factory} (h : k.register d = .ok k')
    (hname : d.name ≠ name) : k.SameFor name k' := by
  rcases register_cases h with ⟨_, rfl⟩ | ⟨_, rfl⟩
  · exact ⟨(NameTable.get?_erase _ _ _).trans (if_neg hname.symm),
      (NameTable.get?_erase _ _ _).trans (if_neg hname.symm)⟩
  · exact ⟨rfl, rfl⟩

-- The end of a build is about its own name only.
theorem SameFor.of_finishBuild {built : String} (hname : name ≠ built) (k : Container H)
    (b : Option (Built H)) : k.SameFor name (k.finishBuild built b) := by
  rcases finishBuild_cases k built b with ⟨_, _, _, _, _, _, h⟩ | ⟨_, _, _, h⟩ | h
  · rw [h]
    exact ⟨(NameTable.get?_insert _ _ _ _).trans (if_neg hname), rfl⟩
  · rw [h]
    exact ⟨(NameTable.get?_insert _ _ _ _).trans (if_neg hname),
      (NameTable.get?_erase _ _ _).trans (if_neg hname)⟩
  · rw [h]
    exact ⟨rfl, (NameTable.get?_erase _ _ _).trans (if_neg hname)⟩

end Container

namespace Spared

variable {p : String → Prop} {s t u : State H}

-- The container keeps all singletons and targets.
theorem of_kept (hsingletons : t.container.singletons = s.container.singletons)
    (htargets : t.container.targets = s.container.targets) : Spared p s t := by
  intro name _ _ _
  exact ⟨by rw [hsingletons], by rw [htargets]⟩

theorem followedBy (hst : Onward s t) (htu : Onward t u) (h1 : Spared p s t) (h2 : Spared p t u) :
    Spared p s u := by
  intro name hname hengaged hspares
  rw [since_append hst.suffix htu.suffix] at hspares
  have hsame := h1 name hname hengaged fun a ha => hspares a (List.mem_append_left _ ha)
  exact hsame.trans (h2 name hname (hengaged.congr hst.underway hsame)
    fun a ha => hspares a (List.mem_append_right _ ha))

theorem weaken {q : String → Prop} (h : Spared p s t) (hq : ∀ name, q name → p name) :
    Spared q s t :=
  fun name hname => h name (hq name hname)

theorem gradual (p : String → Prop) : Gradual (Spared (H := H) p) where
  rest s := of_kept rfl rfl
  followedBy hst htu h1 h2 := followedBy hst htu h1 h2
  quiet h _ := fun name _ _ _ => .of_quiet h name
  note s _ := of_kept rfl rfl
  register {s d k} hk := by
    intro name _ _ hspares
    rw [Course.since_deed (.register hk)] at hspares
    exact .of_register hk (hspares _ (List.mem_singleton_self _))
  update s name d := of_kept rfl rfl
  install s name hook := of_kept rfl rfl
  unsubscribe s name := of_kept rfl rfl

end Spared

namespace Engine

variable {E : Engine H}

/-- Between its beginning and its end a build spares all other names. -/
theorem Steps.spares {name : String} {d : Definition H.Factory} {s t : State H}
    {result : Except Error (Built H)}
    (h : E.Steps (AlongCourses (Spared AnyName)) name d s result t)
    (hname : name ∈ s.container.inCreation) :
    Onward s t ∧ Spared (fun n => n ≠ name) s t := by
  refine h.through hname Spared.followedBy (fun h => h.weaken fun _ _ => trivial) ?_
  intro u object _ n hn _ _
  exact ⟨rfl, (NameTable.get?_insert _ _ _ _).trans (if_neg hn)⟩

theorem builds_spared (hE : E.Keeps (AlongCourses (Spared AnyName))) :
    E.Builds Anything (AlongCourses (Spared AnyName)) := by
  refine (Spared.gradual AnyName).builds hE (fun s name result _ => .of_kept rfl rfl) ?_
  intro s t name d k result hkept _ _ hk h n _ hengaged hspares
  rcases Container.beginCreation_eq_ok hk with ⟨hnew, rfl⟩
  -- The name that is built is neither under way nor built, so it is not this one.
  have hne : n ≠ name := by
    rintro rfl
    rcases hengaged with hunder | hbuilt
    · exact hnew hunder
    · rw [hkept] at hbuilt
      cases hbuilt
  rcases h.spares (List.mem_append_right _ (List.mem_singleton_self name)) with ⟨honward, hspared⟩
  have hinside := hspared n hne (hengaged.imp_left (List.mem_append_left _)) fun activity hmem =>
    hspares activity
      (since_subset (List.suffix_cons _ _) honward.suffix (List.suffix_cons _ _) hmem)
  have hended := Container.SameFor.of_finishBuild hne t.container result.toOption
  exact ⟨hended.singleton.trans hinside.singleton, hended.target.trans hinside.target⟩

/-- Whatever is run, engaged names are spared. -/
theorem keeps_spared (behaviour : Behaviour H) (facade : Facade) (depth : Nat) :
    (ofDepth behaviour facade depth).Keeps (AlongCourses (Spared AnyName)) :=
  keeps_ofDepth behaviour facade (Spared.gradual AnyName).trail (fun _ hE => builds_spared hE) depth

theorem getOrBuild_spared (behaviour : Behaviour H) (facade : Facade) (depth : Nat) (name : String)
    (_ : AnyName name) : Attempt.Along (AlongCourses (Spared AnyName))
      ((ofDepth behaviour facade depth).getOrBuild name) :=
  asked_along (keeps_spared behaviour facade depth)
    (builds_spared (keeps_spared behaviour facade depth)) name trivial

end Engine

end ObjectBootstrap
