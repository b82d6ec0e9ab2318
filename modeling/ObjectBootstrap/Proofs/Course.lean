import ObjectBootstrap.Build
import ObjectBootstrap.Proofs.Chronicle

/-!
# Courses

How the state of a registry moves, whatever hooks and factories do. A course leads from one state to
a later one through the changes that operations make, in any order and any number, and around them
the brackets in which other things happen: calls of entry points, requests for objects, edits of
definitions, and builds.

Programs of hooks and factories may make any change. What the registry does on its own, outside of
their calls, is much less, and which entries may be written down there is the first argument of a
course. It is dropped inside of a call, where a program is at work.

A course says nothing about results. It is what remains of a run when one forgets why it took the
way it took, and so a property that holds along all courses holds of every run. Such a property is
proved once, by induction on courses; that runs follow courses is in
`ObjectBootstrap.Proofs.Course.Runs`.

## Main definitions

* `Quiet`: A change that is not written down.
* `Deed`: A change that is written down as one entry.
* `Course`: Any number of changes, with the brackets around them.

## Theorems

* `Course.weaken`, `Course.sharpen`: What may be written down may be more, and less if nothing else
  is.
* `Course.log_suffix`: No entry of the log is lost.
* `Course.nested`: Every call that is entered is left again.
* `Course.since_between`: What happens between two entries.
* `Course.outer_may`: What stands outside of calls is what may be written down there.
-/

namespace ObjectBootstrap

variable {H : Host}

/-- The state with another container. -/
def State.withContainer (s : State H) (k : Container H) : State H := { s with container := k }

@[simp] theorem State.withContainer_container (s : State H) (k : Container H) :
    (s.withContainer k).container = k := rfl

@[simp] theorem State.withContainer_log (s : State H) (k : Container H) :
    (s.withContainer k).log = s.log := rfl

/-- What becomes of the container at the end of a build, with what was built if there is such. -/
def Container.finishBuild (k : Container H) (name : String) (built : Option (Built H)) :
    Container H :=
  let settled := (k.endCreation name).settleTarget name (built.map Built.object)
    (Built.isSingleton built)
  match built with
  | some b => if b.copy.isSingleton then settled.keepSingleton name b.object else settled
  | none => settled

/-- A change that is not written down. -/
inductive Quiet : State H → State H → Prop
  | search (s : State H) (query : CapabilityQuery) :
    Quiet s (s.withContainer (s.container.namesFor query).2)
  | invalidate (s : State H) : Quiet s (s.withContainer s.container.invalidate)
  | create (s : State H) : Quiet s { s with created := s.created + 1 }
  | allowOverriding (s : State H) :
    Quiet s (s.withContainer { s.container with allowOverriding := true })
  | subscribe (s : State H) (name : String) (listener : Object H.Content) :
    Quiet s { s with listeners := s.listeners.insert name listener }
  | station (s : State H) (target : Nat) :
    Quiet s { s with sentinels := s.sentinels ++ [⟨target, []⟩] }
  | watch (s : State H) (number : Nat) (name : String) :
    Quiet s { s with sentinels := s.sentinels.modify number fun sentinel =>
      if s.container.isPremature sentinel.target name then
        { sentinel with premature := sentinel.premature ++ [name] }
      else sentinel }
  | configure (s : State H) (settings : Settings) : Quiet s { s with settings }
  | remember (s : State H) (store : H.Store) : Quiet s { s with store }

/-- A change that is written down as one entry. -/
inductive Deed : State H → Activity H → State H → Prop
  | register {s : State H} {d : Definition H.Factory} {k : Container H}
    (hk : s.container.register d = .ok k) :
    Deed s (.registered d) ((s.withContainer k).note (.registered d))
  | install (s : State H) (name : String) (hook : Hook H.Content) :
    Deed s (.installed name)
      ((s.withContainer (s.container.install name hook)).note (.installed name))
  /-- A factory has made an object for a name whose build is under way. -/
  | make {s : State H} {name : String} (object : Object H.Content)
    (hname : name ∈ s.container.inCreation) :
    Deed s (.made name object)
      ((s.note (.made name object)).withContainer (s.container.keepTarget name object))
  | walk (s : State H) (stage : Stage) (name : String) :
    Deed s (.walked stage name (s.container.definitions.get? name))
      (s.note (.walked stage name (s.container.definitions.get? name)))
  | publish (s : State H) (event : Event) :
    Deed s (.published event s.listeners.names) (s.note (.published event s.listeners.names))
  | unsubscribe (s : State H) (name : String) :
    Deed s (.unsubscribed name)
      ({ s with listeners := s.listeners.erase name }.note (.unsubscribed name))
  /-- A hook has no answer for an object that is walked. -/
  | stop (s : State H) (stage : Stage) (hook name : String) :
    Deed s (.ended stage hook name) (s.note (.ended stage hook name))

/-- What may be written down outside of calls when a program is at work: anything. -/
abbrev Anything : Activity H → Prop := fun _ => True

/-- Any number of changes, with the brackets around them. The first argument says which entries may
    be written down outside of calls. -/
inductive Course : (Activity H → Prop) → State H → State H → Prop
  | rest {may : Activity H → Prop} (s : State H) : Course may s s
  | followedBy {may : Activity H → Prop} {s t u : State H} :
    Course may s t → Course may t u → Course may s u
  | quiet {may : Activity H → Prop} {s t : State H} : Quiet s t → Course may s t
  | deed {may : Activity H → Prop} {s t : State H} {activity : Activity H} :
    Deed s activity t → may activity → Course may s t
  /-- A hook or a factory is called. Inside of the call anything may happen. -/
  | call {may : Activity H → Prop} {s t : State H} {point : EntryPoint H}
    {failure : Option Failure} :
    may (.entered point) → Course Anything (s.note (.entered point)) t →
      Course may s (t.note (.left point failure))
  /-- The object of a name is asked for. -/
  | request {may : Activity H → Prop} {s t : State H} {name : String}
    {object : Option (Object H.Content)} :
    may (.requested name) → may (.answered name object) →
      Course may (s.note (.requested name)) t → Course may s (t.note (.answered name object))
  /-- A definition is edited, and what has become of it is stored when the edit is done. -/
  | update {may : Activity H → Prop} {s t : State H} {name : String}
    {d e : Definition H.Factory} :
    may (.updated name e) → s.container.definition name = .ok d → Course may s t →
      Course may s ((t.withContainer (t.container.writeBack name e)).note (.updated name e))
  /-- An object is built. -/
  | build {may : Activity H → Prop} {s t : State H} {name : String} {d : Definition H.Factory}
    {k : Container H} {built : Option (Built H)} :
    s.container.singletons.get? name = none → s.container.definitions.get? name = some d →
      d.isAbstract = false → s.container.beginCreation name = .ok k →
      Course may (s.withContainer k) t →
      Course may s (t.withContainer (t.container.finishBuild name built))

/-- What a build writes down outside of calls: neither a phase nor a change of a definition. -/
def Activity.OfBuild : Activity H → Prop
  | .entered (.merge _ _ _) => True
  | .entered (.make _ _) => True
  | .entered (.intercept _ _ _ _) => True
  | .made _ _ => True
  | .walked _ _ _ => True
  | .requested _ => True
  | .answered _ _ => True
  | _ => False

-- What stands between two entries of a log, and the same read from the earlier one on.
theorem State.log_between {s t : State H} {first : Activity H} (last : Activity H)
    {body : List (Activity H)} (h : t.log = body ++ (s.note first).log) :
    ∃ news, (t.note last).log = news ++ s.log ∧
      news.reverse = first :: body.reverse ++ [last] := by
  refine ⟨last :: body ++ [first], ?_, ?_⟩
  · rw [State.note_log, h, State.note_log, List.cons_append, List.cons_append, List.append_assoc]
    rfl
  · rw [List.cons_append, List.reverse_cons, List.reverse_append]
    rfl

-- A quiet change leaves the log as it is.
theorem Quiet.log_eq {s t : State H} (h : Quiet s t) : t.log = s.log := by
  cases h <;> rfl

-- A deed adds its entry to the log.
theorem Deed.log_eq {s t : State H} {activity : Activity H} (h : Deed s activity t) :
    t.log = activity :: s.log := by
  cases h <;> rfl

-- A deed is neither the beginning nor the end of a call.
theorem Deed.isRemark {s t : State H} {activity : Activity H} (h : Deed s activity t) :
    activity.IsRemark := by
  cases h <;> exact trivial

namespace Course

variable {may : Activity H → Prop} {s t u : State H}

/-- What may be written down may be more. -/
theorem weaken {may' : Activity H → Prop} (h : Course may s t)
    (hmay : ∀ activity, may activity → may' activity) : Course may' s t := by
  induction h with
  | rest s => exact .rest s
  | followedBy _ _ ih1 ih2 => exact .followedBy (ih1 hmay) (ih2 hmay)
  | quiet h => exact .quiet h
  | deed h ha => exact .deed h (hmay _ ha)
  | call ha h _ => exact .call (hmay _ ha) h
  | request hr ha _ ih => exact .request (hmay _ hr) (hmay _ ha) (ih hmay)
  | update ha hd _ ih => exact .update (hmay _ ha) hd (ih hmay)
  | build hs hd habs hk _ ih => exact .build hs hd habs hk (ih hmay)

-- A course of builds is one of anything that may do what a build does.
theorem anything (h : Course may s t) : Course Anything s t :=
  h.weaken fun _ _ => trivial

/-- The entries of the log are news in front of the old ones, and every call among the news that is
    entered is left again. -/
theorem log_nested (h : Course may s t) :
    ∃ news, t.log = news ++ s.log ∧ Nested news.reverse := by
  induction h with
  | rest s => exact ⟨[], rfl, .nil⟩
  | followedBy _ _ ih1 ih2 =>
      rcases ih1 with ⟨early, hearly, nearly⟩
      rcases ih2 with ⟨late, hlate, nlate⟩
      -- A log grows at its front, so the later news come first.
      refine ⟨late ++ early, ?_, ?_⟩
      · rw [hlate, hearly, List.append_assoc]
      · rw [List.reverse_append]
        exact .append nearly nlate
  | quiet h => exact ⟨[], h.log_eq, .nil⟩
  | @deed _ _ _ activity h _ => exact ⟨[activity], h.log_eq, .remark h.isRemark⟩
  | @call _ _ _ point failure _ _ ih =>
      rcases ih with ⟨body, hbody, nbody⟩
      rcases State.log_between (.left point failure) hbody with ⟨news, hnews, hreverse⟩
      refine ⟨news, hnews, ?_⟩
      rw [hreverse]
      exact .call nbody
  | @request _ _ _ name object _ _ _ ih =>
      rcases ih with ⟨body, hbody, nbody⟩
      rcases State.log_between (.answered name object) hbody with ⟨news, hnews, hreverse⟩
      refine ⟨news, hnews, ?_⟩
      have hfirst : (Activity.requested (H := H) name).IsRemark := trivial
      rw [hreverse]
      exact .append (.append (.remark hfirst) nbody) (.remark trivial)
  | @update _ _ _ name d e _ _ _ ih =>
      rcases ih with ⟨body, hbody, nbody⟩
      refine ⟨.updated name e :: body, ?_, ?_⟩
      · rw [State.note_log, State.withContainer_log, hbody, List.cons_append]
      · rw [List.reverse_cons]
        exact .append nbody (.remark trivial)
  | build _ _ _ _ _ ih => exact ih

/-- No entry of the log is lost. -/
theorem log_suffix (h : Course may s t) : s.log <:+ t.log := by
  rcases h.log_nested with ⟨news, hnews, _⟩
  exact ⟨news, hnews.symm⟩

/-- Every call that is entered in a course is left again. -/
theorem nested (h : Course may s t) : Nested (since s t) := by
  rcases h.log_nested with ⟨news, hnews, hnested⟩
  rw [since_of_log hnews]
  exact hnested

-- What happened in two courses, one behind the other.
theorem since_followedBy {may' : Activity H → Prop} (h1 : Course may s t)
    (h2 : Course may' t u) : since s u = since s t ++ since t u :=
  since_append h1.log_suffix h2.log_suffix

-- A deed is all that happens in it.
theorem since_deed {activity : Activity H} (h : Deed s activity t) : since s t = [activity] := by
  rw [since_of_log (show t.log = [activity] ++ s.log from h.log_eq)]
  rfl

theorem since_quiet (h : Quiet s t) : since s t = [] := by
  rw [since_of_log (show t.log = [] ++ s.log from h.log_eq)]
  rfl

/-- What happens between two entries stands between them: in a call, or while an object is asked
    for. -/
theorem since_between {first last : Activity H} (h : Course may (s.note first) t) :
    since s (t.note last) = first :: since (s.note first) t ++ [last] := by
  have hsuffix : s.log <:+ (s.note first).log := List.suffix_cons _ _
  rw [since_note (hsuffix.trans h.log_suffix), since_append hsuffix h.log_suffix,
    since_note List.suffix_rfl, since_self]
  rfl

-- What happens while a definition is edited stands in front of the entry about it.
theorem since_update {name : String} {d : Definition H.Factory} {k : Container H}
    (h : Course may s t) :
    since s ((t.withContainer k).note (.updated name d)) = since s t ++ [.updated name d] := by
  have hsuffix : s.log <:+ (t.withContainer k).log := h.log_suffix
  rw [since_note hsuffix]
  rfl

/-- What may be written down may be less if nothing else is. -/
theorem sharpen {may' : Activity H → Prop} (h : Course may s t)
    (hmay : ∀ activity ∈ since s t, may activity → may' activity) : Course may' s t := by
  induction h with
  | rest s => exact .rest s
  | followedBy h1 h2 ih1 ih2 =>
      rw [since_followedBy h1 h2, List.forall_mem_append] at hmay
      exact .followedBy (ih1 hmay.1) (ih2 hmay.2)
  | quiet h => exact .quiet h
  | deed h ha => exact .deed h (hmay _ (since_deed h ▸ List.mem_singleton_self _) ha)
  | call ha h _ =>
      rw [since_between h] at hmay
      exact .call (hmay _ List.mem_cons_self ha) h
  | request hr ha h ih =>
      rw [since_between h, List.forall_mem_append, List.forall_mem_cons] at hmay
      exact .request (hmay.1.1 hr) (hmay.2 _ (List.mem_singleton_self _) ha) (ih hmay.1.2)
  | update ha hd h ih =>
      rw [since_update h, List.forall_mem_append] at hmay
      exact .update (hmay.2 _ (List.mem_singleton_self _) ha) hd (ih hmay.1)
  | build hs hd habs hk _ ih => exact .build hs hd habs hk (ih hmay)

/-- What stands outside of calls is what may be written down there, and the ends of the calls that
    may be made. -/
theorem outer_may_or_left (h : Course may s t) :
    ∀ activity ∈ outer (since s t),
      may activity ∨ ∃ point failure, may (.entered point) ∧ activity = .left point failure := by
  induction h with
  | rest s =>
      intro activity hmem
      rw [since_self] at hmem
      exact absurd hmem List.not_mem_nil
  | followedBy h1 h2 ih1 ih2 =>
      intro activity hmem
      rw [since_followedBy h1 h2, outer_append h1.nested, List.mem_append] at hmem
      exact hmem.elim (ih1 activity) (ih2 activity)
  | quiet h =>
      intro activity hmem
      rw [since_quiet h] at hmem
      exact absurd hmem List.not_mem_nil
  | deed h ha =>
      intro activity hmem
      rw [since_deed h, outer_remark h.isRemark, List.mem_singleton] at hmem
      exact Or.inl (hmem ▸ ha)
  | @call _ _ _ point failure ha h _ =>
      intro activity hmem
      -- What a program does inside of the call is not seen from outside, so anything may happen
      -- there.
      rw [since_between h, outer_call h.nested] at hmem
      simp only [List.mem_cons, List.not_mem_nil, or_false] at hmem
      rcases hmem with rfl | rfl
      · exact Or.inl ha
      · exact Or.inr ⟨point, failure, ha, rfl⟩
  | @request _ _ _ name object hr ha h ih =>
      intro activity hmem
      rw [since_between h, outer_between (.requested name) (.answered name object) trivial trivial
        h.nested] at hmem
      simp only [List.cons_append, List.mem_cons, List.mem_append, List.not_mem_nil,
        or_false] at hmem
      rcases hmem with rfl | hmem | rfl
      · exact Or.inl hr
      · exact ih activity hmem
      · exact Or.inl ha
  | @update _ _ _ name d e ha _ h ih =>
      intro activity hmem
      have hlast : (Activity.updated name e).IsRemark := trivial
      rw [since_update h, outer_append h.nested, outer_remark hlast, List.mem_append,
        List.mem_singleton] at hmem
      rcases hmem with hmem | rfl
      · exact ih activity hmem
      · exact Or.inl ha
  | build _ _ _ _ _ ih => exact ih

/-- What stands outside of calls is what may be written down there, and the ends of calls. -/
theorem outer_may (h : Course may s t) :
    ∀ activity ∈ outer (since s t),
      may activity ∨ ∃ point failure, activity = .left point failure := by
  intro activity hmem
  exact (h.outer_may_or_left activity hmem).imp_right fun ⟨point, failure, _, heq⟩ =>
    ⟨point, failure, heq⟩

-- The calls that end outside of calls are those that may be made.
theorem may_of_left (h : Course may s t) {point : EntryPoint H} {failure : Option Failure}
    (hleft : ¬ may (.left point failure)) (hmem : .left point failure ∈ outer (since s t)) :
    may (.entered point) := by
  rcases h.outer_may_or_left _ hmem with hmay | ⟨_, _, hmay, heq⟩
  · exact absurd hmay hleft
  · cases heq
    exact hmay

-- What may not be written down outside of calls does not stand there.
theorem not_mem_outer {activity : Activity H} (h : Course may s t) (hnot : ¬ may activity)
    (hremark : activity.IsRemark) : activity ∉ outer (since s t) := by
  intro hmem
  rcases h.outer_may _ hmem with hmay | ⟨_, _, rfl⟩
  · exact hnot hmay
  · exact hremark

end Course

end ObjectBootstrap
