import ObjectBootstrap.Proofs.Course.Gradual

/-!
# What stays when definitions may not be overridden

If a registry refuses to override definitions, whatever is run only adds to it. A name that is
registered is not registered again, and a singleton that is built is not forgotten, because
overriding is what forgets singletons. Programs cannot let definitions be overridden, so it is
enough that the registry refuses at the beginning.

A build that ends keeps its own singleton and no other. The name had none when the build began, so
this takes no singleton away either.

Nothing is built of its own accord: an object that is made for a name, or kept under one, goes back
to a request for this name.

## Main definitions

* `Additive`: The relation that all runs keep to while definitions may not be overridden.
* `Prompted`: What is made and what is kept was asked for.

## Theorems

* `Engine.keeps_additive`, `Engine.keeps_prompted`: Whatever is run keeps to these relations.
* `Additive.definition_eq`: Definitions that are not edited stay.
-/

namespace ObjectBootstrap

variable {H : Host}

/-- Definitions may be overridden later as they may be now, and while they may not, no name is
    registered again and no singleton is forgotten. -/
structure Additive (s t : State H) : Prop where
  overriding_eq : t.container.allowOverriding = s.container.allowOverriding
  contained : ∀ name, s.container.contains name = true → t.container.contains name = true
  fresh : s.container.allowOverriding = false →
    ∀ d, .registered d ∈ since s t → s.container.contains d.name = false
  kept : s.container.allowOverriding = false → ∀ name object,
    s.container.singletons.get? name = some object →
      t.container.singletons.get? name = some object

/-- What is made was asked for, and so was what is kept later and was not before. The first argument
    says which names this is about. -/
structure Prompted (p : String → Prop) (s t : State H) : Prop where
  made : ∀ name object, p name → .made name object ∈ since s t → .requested name ∈ since s t
  kept : ∀ name, p name → s.container.containsSingleton name = false →
    t.container.containsSingleton name = true → .requested name ∈ since s t

namespace Container

-- If definitions may not be overridden, a registration only adds a new name.
theorem register_fresh {k k' : Container H} {d : Definition H.Factory} (h : k.register d = .ok k')
    (hforbids : k.allowOverriding = false) :
    k.contains d.name = false ∧ k'.singletons = k.singletons := by
  have hnew : k.contains d.name = false := by
    unfold register at h
    rw [hforbids] at h
    split at h
    · cases h
    · split at h
      · cases h
      · exact Bool.eq_false_iff.2 ‹_›
  rcases register_cases h with ⟨hold, _⟩ | ⟨_, rfl⟩
  · rw [hnew] at hold
    cases hold
  · exact ⟨hnew, rfl⟩

-- What a name is not the one of is kept and not kept as before when a build ends.
theorem finishBuild_kept {k : Container H} {name other : String} {built : Option (Built H)}
    (hother : other ≠ name) :
    (k.finishBuild name built).singletons.get? other = k.singletons.get? other := by
  rcases finishBuild_cases k name built with ⟨_, _, _, _, _, _, h⟩ | ⟨_, _, _, h⟩ | h
  · rw [h]
    exact (NameTable.get?_insert _ _ _ _).trans (if_neg hother)
  · rw [h]
    exact (NameTable.get?_insert _ _ _ _).trans (if_neg hother)
  · rw [h]

@[simp] theorem finishBuild_allowOverriding (k : Container H) (name : String)
    (built : Option (Built H)) :
    (k.finishBuild name built).allowOverriding = k.allowOverriding := by
  rcases finishBuild_cases k name built with ⟨_, _, _, _, _, _, h⟩ | ⟨_, _, _, h⟩ | h <;> rw [h]

end Container

-- A change that is not written down is about neither definitions nor singletons.
theorem Quiet.definitions_eq {s t : State H} (h : Quiet s t) :
    t.container.definitions = s.container.definitions ∧
      t.container.singletons = s.container.singletons := by
  cases h with
  | search query =>
      refine ⟨Container.namesFor_definitions _ _, ?_⟩
      rw [State.withContainer_container]
      unfold Container.namesFor
      split <;> rfl
  | _ => exact ⟨rfl, rfl⟩

-- The names that are there stay there when a definition is stored.
theorem NameTable.contains_insert {α : Type} {table : NameTable α} {other : String}
    (h : table.contains other = true) (name : String) (value : α) :
    (table.insert name value).contains other = true := by
  rw [contains, get?_insert]
  split
  · rfl
  · exact h

namespace Additive

variable {s t u : State H}

-- A change of anything else, with entries that tell of no registration.
theorem of_same (news : List (Activity H)) (hlog : t.log = news ++ s.log)
    (hnews : ∀ d, .registered d ∉ news)
    (hoverriding : t.container.allowOverriding = s.container.allowOverriding)
    (hcontained : ∀ name, s.container.contains name = true → t.container.contains name = true)
    (hsingletons : t.container.singletons = s.container.singletons) : Additive s t := by
  refine ⟨hoverriding, hcontained, fun _ d hmem => ?_, fun _ name object h => hsingletons ▸ h⟩
  rw [since_of_log hlog, List.mem_reverse] at hmem
  exact absurd hmem (hnews d)

theorem of_entry (activity : Activity H) (hlog : t.log = activity :: s.log)
    (hentry : ∀ d, activity ≠ .registered d)
    (hoverriding : t.container.allowOverriding = s.container.allowOverriding)
    (hcontained : ∀ name, s.container.contains name = true → t.container.contains name = true)
    (hsingletons : t.container.singletons = s.container.singletons) : Additive s t :=
  of_same [activity] hlog (fun d hmem => hentry d (List.mem_singleton.1 hmem).symm)
    hoverriding hcontained hsingletons

theorem followedBy (hst : s.log <:+ t.log) (htu : t.log <:+ u.log) (h1 : Additive s t)
    (h2 : Additive t u) : Additive s u := by
  refine ⟨h2.overriding_eq.trans h1.overriding_eq,
    fun name hname => h2.contained name (h1.contained name hname), fun hforbids d hmem => ?_,
    fun hforbids name object hkept => ?_⟩
  · rw [since_append hst htu] at hmem
    rcases List.mem_append.1 hmem with hmem | hmem
    · exact h1.fresh hforbids d hmem
    · have hnew := h2.fresh (h1.overriding_eq.trans hforbids) d hmem
      exact Bool.eq_false_iff.2 fun hold => Bool.eq_false_iff.1 hnew (h1.contained d.name hold)
  · exact h2.kept (h1.overriding_eq.trans hforbids) name object (h1.kept hforbids name object hkept)

-- The end of a build keeps the singleton of a name that had none, and no other.
theorem conclude (h : Additive s t) (hst : s.log <:+ t.log) {name : String}
    (hunkept : s.container.singletons.get? name = none) (result : Except Error (Built H)) :
    Additive s (t.conclude name result) := by
  refine ⟨(Container.finishBuild_allowOverriding _ _ _).trans h.overriding_eq, fun n hn => ?_,
    fun hforbids d hmem => ?_, fun hforbids n object hkept => ?_⟩
  · change (t.container.finishBuild name _).contains n = true
    rw [Container.contains, Container.finishBuild_definitions]
    exact h.contained n hn
  · have hlast : since s (t.conclude name result)
        = since s t ++ [.answered name (result.map Built.object).toOption] := since_note hst _
    rw [hlast, List.mem_append, List.mem_singleton] at hmem
    rcases hmem with hmem | hmem
    · exact h.fresh hforbids d hmem
    · cases hmem
  · have hother : n ≠ name := by
      rintro rfl
      cases hunkept.symm.trans hkept
    exact (Container.finishBuild_kept hother).trans (h.kept hforbids n object hkept)

theorem gradual : Gradual (Additive (H := H)) where
  rest s := of_same [] rfl (fun _ => List.not_mem_nil) rfl (fun _ h => h) rfl
  followedBy hst htu := followedBy hst.suffix htu.suffix
  quiet {s t} h hoverriding := by
    refine of_same [] h.log_eq (fun _ => List.not_mem_nil) hoverriding (fun name hname => ?_)
      h.definitions_eq.2
    rw [Container.contains, h.definitions_eq.1]
    exact hname
  note {activity} s haside := by
    refine of_entry activity rfl ?_ rfl (fun _ h => h) rfl
    rintro d rfl
    exact haside
  register {s d k} hk := by
    have hcontained : ∀ name, s.container.contains name = true → k.contains name = true := by
      intro name hname
      rw [Container.contains, (Container.register_eq_ok hk).1]
      exact NameTable.contains_insert hname d.name d
    have hoverriding : k.allowOverriding = s.container.allowOverriding := by
      rcases Container.register_cases hk with ⟨_, rfl⟩ | ⟨_, rfl⟩ <;> rfl
    refine ⟨hoverriding, hcontained, fun hforbids e hmem => ?_,
      fun hforbids name object hkept => ?_⟩
    · rw [Course.since_deed (.register hk), List.mem_singleton] at hmem
      cases hmem
      exact (Container.register_fresh hk hforbids).1
    · change k.singletons.get? name = some object
      rw [(Container.register_fresh hk hforbids).2]
      exact hkept
  update s name d :=
    of_entry (.updated name d) rfl nofun rfl
      (fun _ hname => NameTable.contains_insert hname name d) rfl
  install s name hook := of_entry (.installed name) rfl nofun rfl (fun _ h => h) rfl
  unsubscribe s name := of_entry (.unsubscribed name) rfl nofun rfl (fun _ h => h) rfl

/-- If definitions may not be overridden, a definition stays unless it is edited. -/
theorem definition_eq (h : AlongCourses Additive s t)
    (hforbids : s.container.allowOverriding = false) {name : String}
    (hname : s.container.contains name = true) (hnone : ∀ d, .updated name d ∉ since s t) :
    t.container.definitions.get? name = s.container.definitions.get? name := by
  have hunstored : under name (stores (since s t)) = [] := by
    refine List.eq_nil_iff_forall_not_mem.2 fun d hd => ?_
    rcases List.mem_filterMap.1 (mem_under.1 hd) with ⟨activity, hmem, hactivity⟩
    cases activity with
    | registered e =>
        rcases Prod.mk.inj (Option.some.inj hactivity) with ⟨rfl, _⟩
        rw [h.2.fresh hforbids e hmem] at hname
        cases hname
    | updated n e =>
        rcases Prod.mk.inj (Option.some.inj hactivity) with ⟨rfl, rfl⟩
        exact absurd hmem (hnone e)
    | _ => cases hactivity
  rw [h.1.definition_eq, hunstored]
  rfl

end Additive

namespace Prompted

variable {p : String → Prop} {s t u : State H}

-- A change of anything else, with entries that tell of no object that is made.
theorem of_entries (news : List (Activity H)) (hlog : t.log = news ++ s.log)
    (hnews : ∀ name object, p name → .made name object ∉ news)
    (hsingletons : ∀ name, s.container.containsSingleton name = false →
      t.container.containsSingleton name = false) : Prompted p s t := by
  refine ⟨fun name object hname hmem => ?_, fun name _ hnone hkept => ?_⟩
  · rw [since_of_log hlog, List.mem_reverse] at hmem
    exact absurd hmem (hnews name object hname)
  · rw [hsingletons name hnone] at hkept
    cases hkept

theorem of_entry (activity : Activity H) (hlog : t.log = activity :: s.log)
    (hentry : ∀ name object, p name → activity ≠ .made name object)
    (hsingletons : t.container.singletons = s.container.singletons) : Prompted p s t :=
  of_entries [activity] hlog
    (fun name object hname hmem => hentry name object hname (List.mem_singleton.1 hmem).symm)
    fun name => (congrArg (NameTable.contains · name) hsingletons).trans

theorem weaken {q : String → Prop} (h : Prompted p s t) (hq : ∀ name, q name → p name) :
    Prompted q s t :=
  ⟨fun name object hname => h.made name object (hq name hname),
    fun name hname => h.kept name (hq name hname)⟩

theorem followedBy (hst : s.log <:+ t.log) (htu : t.log <:+ u.log) (h1 : Prompted p s t)
    (h2 : Prompted p t u) : Prompted p s u := by
  have hsince := since_append hst htu
  refine ⟨fun name object hname hmem => ?_, fun name hname hnone hkept => ?_⟩
  · rw [hsince] at hmem ⊢
    rcases List.mem_append.1 hmem with hmem | hmem
    · exact List.mem_append_left _ (h1.made name object hname hmem)
    · exact List.mem_append_right _ (h2.made name object hname hmem)
  · rw [hsince]
    cases hmid : t.container.containsSingleton name with
    | true => exact List.mem_append_left _ (h1.kept name hname hnone hmid)
    | false => exact List.mem_append_right _ (h2.kept name hname hmid hkept)

theorem gradual (p : String → Prop) : Gradual (Prompted (H := H) p) where
  rest s := of_entries [] rfl (fun _ _ _ => List.not_mem_nil) fun _ => id
  followedBy hst htu := followedBy hst.suffix htu.suffix
  quiet h _ := of_entries [] h.log_eq (fun _ _ _ => List.not_mem_nil) fun name =>
    (congrArg (NameTable.contains · name) h.definitions_eq.2).trans
  note {activity} s haside := by
    refine of_entry activity rfl ?_ rfl
    rintro name object _ rfl
    exact haside
  register {s d k} hk := by
    refine of_entries [.registered d] rfl (fun _ _ _ => ?_) fun name hnone => ?_
    · rw [List.mem_singleton]
      exact nofun
    · change k.containsSingleton name = false
      rcases Container.register_cases hk with ⟨_, rfl⟩ | ⟨_, rfl⟩
      · unfold Container.containsSingleton NameTable.contains at hnone ⊢
        rw [NameTable.get?_erase]
        split
        · rfl
        · exact hnone
      · exact hnone
  update s name d := of_entry (.updated name d) rfl nofun rfl
  install s name hook := of_entry (.installed name) rfl nofun rfl
  unsubscribe s name := of_entry (.unsubscribed name) rfl nofun rfl

end Prompted

namespace Engine

variable {E : Engine H}

theorem builds_additive (hE : E.Keeps (AlongCourses Additive)) :
    E.Builds Anything (AlongCourses Additive) := by
  refine Additive.gradual.builds hE (fun s name result _ => ?_) ?_
  · exact .of_same [.answered name result.toOption, .requested name] rfl
      (fun d hmem => by simp at hmem) rfl (fun _ h => h) rfl
  intro s t name d k result hunkept _ _ hk h
  rcases Container.beginCreation_eq_ok hk with ⟨_, rfl⟩
  change E.Steps _ name d (s.begin name) result t at h
  have hname : name ∈ (s.begin name).container.inCreation :=
    List.mem_append_right _ (List.mem_singleton_self name)
  rcases h.through (Q := Additive) hname
    (fun hst htu => Additive.followedBy hst.suffix htu.suffix) id
    (fun u object _ => .of_entry (.made name object) rfl nofun rfl (fun _ h => h) rfl) with
    ⟨honward, hsteps⟩
  have hbegun : Additive s (s.begin name) :=
    .of_entry (.requested name) rfl nofun rfl (fun _ h => h) rfl
  have hsuffix : s.log <:+ (s.begin name).log := List.suffix_cons _ _
  exact (hbegun.followedBy hsuffix honward.suffix hsteps).conclude
    (hsuffix.trans honward.suffix) hunkept result

/-- Whatever is run only adds to a registry that refuses to override definitions. -/
theorem keeps_additive (behaviour : Behaviour H) (facade : Facade) (depth : Nat) :
    (ofDepth behaviour facade depth).Keeps (AlongCourses Additive) :=
  keeps_ofDepth behaviour facade Additive.gradual.trail (fun _ hE => builds_additive hE) depth

theorem builds_prompted (hE : E.Keeps (AlongCourses (Prompted AnyName))) :
    E.Builds Anything (AlongCourses (Prompted AnyName)) := by
  refine (Prompted.gradual AnyName).builds hE (fun s name result _ => ?_) ?_
  · exact .of_entries [.answered name result.toOption, .requested name] rfl
      (fun _ _ _ hmem => by simp at hmem) fun _ => id
  intro s t name d k result _ _ _ hk h
  rcases Container.beginCreation_eq_ok hk with ⟨_, rfl⟩
  change E.Steps _ name d (s.begin name) result t at h
  have hname : name ∈ (s.begin name).container.inCreation :=
    List.mem_append_right _ (List.mem_singleton_self name)
  -- Other names are asked for in the steps, and this one is asked for in front of them.
  rcases h.through (Q := Prompted fun n => n ≠ name) hname
    (fun hst htu => Prompted.followedBy hst.suffix htu.suffix)
    (fun h => h.weaken fun _ _ => trivial)
    (fun u object _ => .of_entry (.made name object) rfl
      (fun n _ hn heq => hn (by cases heq; rfl)) rfl) with ⟨honward, hsteps⟩
  have hsuffix : s.log <:+ (s.begin name).log := List.suffix_cons _ _
  have hsince : since s (t.conclude name result) = .requested name ::
      since (s.begin name) t ++ [.answered name (result.map Built.object).toOption] := by
    have hlast : since s (t.conclude name result)
        = since s t ++ [.answered name (result.map Built.object).toOption] :=
      since_note (hsuffix.trans honward.suffix) _
    rw [hlast, since_append hsuffix honward.suffix,
      since_of_log (show (s.begin name).log = [.requested name] ++ s.log from rfl)]
    rfl
  refine ⟨fun n object _ hmem => ?_, fun n _ hnone hkept => ?_⟩
  · rw [hsince] at hmem ⊢
    by_cases hn : n = name
    · exact hn ▸ List.mem_cons_self
    · have hmade : .made n object ∈ since (s.begin name) t := by simpa using hmem
      exact List.mem_cons_of_mem _ (List.mem_append_left _ (hsteps.made n object hn hmade))
  · rw [hsince]
    by_cases hn : n = name
    · exact hn ▸ List.mem_cons_self
    · have hlater : t.container.containsSingleton n = true := by
        rw [← hkept]
        exact congrArg Option.isSome (Container.finishBuild_kept hn).symm
      exact List.mem_cons_of_mem _ (List.mem_append_left _ (hsteps.kept n hn hnone hlater))

/-- Whatever is run, what is made and what is kept was asked for. -/
theorem keeps_prompted (behaviour : Behaviour H) (facade : Facade) (depth : Nat) :
    (ofDepth behaviour facade depth).Keeps (AlongCourses (Prompted AnyName)) :=
  keeps_ofDepth behaviour facade (Prompted.gradual AnyName).trail (fun _ hE => builds_prompted hE)
    depth

theorem getOrBuild_additive (behaviour : Behaviour H) (facade : Facade) (depth : Nat)
    (name : String) (_ : AnyName name) : Attempt.Along (AlongCourses Additive)
      ((ofDepth behaviour facade depth).getOrBuild name) :=
  asked_along (keeps_additive behaviour facade depth)
    (builds_additive (keeps_additive behaviour facade depth)) name trivial

theorem getOrBuild_prompted (behaviour : Behaviour H) (facade : Facade) (depth : Nat)
    (name : String) (_ : AnyName name) : Attempt.Along (AlongCourses (Prompted AnyName))
      ((ofDepth behaviour facade depth).getOrBuild name) :=
  asked_along (keeps_prompted behaviour facade depth)
    (builds_prompted (keeps_prompted behaviour facade depth)) name trivial

end Engine

end ObjectBootstrap
