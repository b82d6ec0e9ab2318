import ObjectBootstrap.Proofs.Building.Additive
import ObjectBootstrap.Proofs.Building.Facets
import ObjectBootstrap.Proofs.Building.Pipeline
import ObjectBootstrap.Proofs.Course.Within

/-!
# Building in advance

The loop that builds the eager singletons goes through the names that are registered when it begins.
When it comes to a name it looks whether there is something to build, and if there is it asks for
the object. By then any name may have been built for another one, and other names may have been
registered. `Advance` is the loop with the names that it asks for, up to the first one that fails.

As long as definitions are neither overridden nor edited, a name is eager when the loop comes to it
if it was at the beginning, and a singleton that is built stays. So behind a name that the loop has
passed there is nothing left to build, unless an interceptor put a prototype in the place of the
copy that the build used: what is built of that is not kept. The loop counts the names that it asked
for; what was built for another name and was built when the loop came to it is not among them.

## Main definitions

* `Container.isDue`, `Container.eagerNames`: What there is to build.
* `requests`: The names that are asked for outside of calls.
* `Advance`: The loop with the names that it asks for.

## Theorems

* `Engine.run_preInstantiateAll_advance`: What building in advance comes to.
* `Advance.requests_eq`: Nothing else is asked for outside of calls.
* `Advance.complete`, `Advance.stops`: Eager names are built, up to the first failure.
-/

namespace ObjectBootstrap

variable {H : Host}

namespace Container

/-- Whether a name is that of an eager singleton. -/
def isEager (k : Container H) (name : String) : Bool :=
  (k.definitions.get? name).any Definition.isEager

/-- Whether a name is that of an eager singleton that is not built yet. -/
def isDue (k : Container H) (name : String) : Bool :=
  k.isEager name && !k.containsSingleton name

/-- The names of eager singletons, in the order of their registration. -/
def eagerNames (k : Container H) : List String := k.names.filter k.isEager

/-- Those of the eager names that are not built in a registry and are built in a later one. -/
def newlyBuilt (k later : Container H) : List String :=
  k.eagerNames.filter fun name => !k.containsSingleton name && later.containsSingleton name

end Container

/-- The name whose object an entry tells to be asked for. -/
def Activity.requested? : Activity H → Option String
  | .requested name => some name
  | _ => none

/-- The names that are asked for outside of calls. -/
def requests (chronicle : List (Activity H)) : List String :=
  (outer chronicle).filterMap Activity.requested?

theorem requests_append {early : List (Activity H)} (h : Nested early) (late : List (Activity H)) :
    requests (early ++ late) = requests early ++ requests late := by
  rw [requests, outer_append h, List.filterMap_append]
  rfl

-- What is asked for is asked for outside of calls or inside of one.
theorem mem_requests_or_inner {chronicle : List (Activity H)} {name : String}
    (h : .requested name ∈ chronicle) :
    name ∈ requests chronicle ∨ .requested name ∈ inner chronicle :=
  (mem_outer_or_inner h).imp_left fun hout => List.mem_filterMap.2 ⟨_, hout, rfl⟩

-- If nothing was stored, nothing was edited and nothing was registered.
theorem not_mem_of_stores {chronicle : List (Activity H)} (h : stores chronicle = []) :
    (∀ name d, .updated name d ∉ chronicle) ∧ ∀ d, .registered d ∉ chronicle := by
  rw [stores, List.filterMap_eq_nil_iff] at h
  exact ⟨fun name d hmem => Option.some_ne_none _ (h _ hmem),
    fun d hmem => Option.some_ne_none _ (h _ hmem)⟩

namespace Engine

variable {E : Engine H}

/-- A request asks for nothing else outside of calls. -/
theorem requests_of_getOrBuild (hE : E.Lawful) {s t : State H} {name : String}
    {result : Except Error (Object H.Content)}
    (h : (E.getOrBuild name).run s = some (result, t)) : requests (since s t) = [name] := by
  rcases run_getOrBuild_eq_some h with ⟨u, hobtain, rfl⟩
  have hsteps : Course Activity.OfSteps (s.note (.requested name)) u :=
    obtain_follows hE (fun _ => id) name _ _ _ hobtain
  have hnone : (outer (since (s.note (.requested name)) u)).filterMap Activity.requested? = [] := by
    rw [List.filterMap_eq_nil_iff]
    intro activity hmem
    rcases hsteps.outer_may activity hmem with hmay | ⟨_, _, rfl⟩
    · cases activity with
      | requested n => exact absurd hmay id
      | _ => rfl
    · rfl
  have hfirst : (Activity.requested (H := H) name).IsRemark := trivial
  have hlast : (Activity.answered name result.toOption).IsRemark := trivial
  have hasked : (Activity.requested (H := H) name).requested? = some name := rfl
  rw [hsteps.since_between, requests, outer_between _ _ hfirst hlast hsteps.nested,
    List.filterMap_append, List.filterMap_cons_some hasked, hnone]
  rfl

end Engine

section Due

variable {k : Container H} {name : String}

theorem unkept_of_isDue (h : k.isDue name = true) : k.containsSingleton name = false :=
  (Bool.not_eq_true' _).mp (Bool.and_eq_true_iff.1 h).2

theorem eager_of_isDue (h : k.isDue name = true) : k.isEager name = true :=
  (Bool.and_eq_true_iff.1 h).1

end Due

namespace Additive

variable {s t : State H} {name : String}

theorem stays (h : Additive s t) (hforbids : s.container.allowOverriding = false)
    (hkept : s.container.containsSingleton name = true) :
    t.container.containsSingleton name = true := by
  rcases Option.isSome_iff_exists.1 hkept with ⟨object, hobject⟩
  exact Option.isSome_of_eq_some (h.kept hforbids name object hobject)

theorem unkept (h : Additive s t) (hforbids : s.container.allowOverriding = false)
    (hnone : t.container.containsSingleton name = false) :
    s.container.containsSingleton name = false := by
  rw [Bool.eq_false_iff] at hnone ⊢
  exact fun hkept => hnone (h.stays hforbids hkept)

-- A name is as eager as before unless its definition is edited.
theorem isEager_eq (h : AlongCourses Additive s t)
    (hforbids : s.container.allowOverriding = false) (hname : s.container.contains name = true)
    (hnone : ∀ d, .updated name d ∉ since s t) :
    t.container.isEager name = s.container.isEager name := by
  rw [Container.isEager, definition_eq h hforbids hname hnone, Container.isEager]

end Additive

/-- Names are gone through in turn, and of those that are due the object is asked for, up to the
    first one that fails. The list in the middle are the names that are asked for. -/
inductive Advance (E : Engine H) :
    List String → State H → List String → Except Error Unit → State H → Prop
  | done (s : State H) : Advance E [] s [] (.ok ()) s
  | passes {name : String} {rest asked : List String} {result : Except Error Unit}
    {s t : State H} :
    s.container.isDue name = false → Advance E rest s asked result t →
      Advance E (name :: rest) s asked result t
  | builds {name : String} {rest asked : List String} {object : Object H.Content}
    {result : Except Error Unit} {s t u : State H} :
    s.container.isDue name = true → (E.getOrBuild name).run s = some (.ok object, u) →
      Advance E rest u asked result t → Advance E (name :: rest) s (name :: asked) result t
  | fails {name : String} {rest : List String} {e : Error} {s t : State H} :
    s.container.isDue name = true → (E.getOrBuild name).run s = some (.error e, t) →
      Advance E (name :: rest) s [name] (.error e) t

/-- Building in advance goes through the names and counts those that it asks for. -/
theorem Engine.run_preInstantiateAll_advance {E : Engine H} {names : List String} {count : Nat}
    {result : Except Error Nat} {s t : State H}
    (h : (E.preInstantiateAll names count).run s = some (result, t)) :
    ∃ asked done, Advance E names s asked done t ∧
      result = done.map fun _ => count + asked.length := by
  induction names generalizing count s with
  | nil =>
      cases h
      exact ⟨[], .ok (), .done _, rfl⟩
  | cons name rest ih =>
      rcases Attempt.run_bind_eq_some_iff.1 h with ⟨_, herror, _⟩ | ⟨k, _, hlook, hgoes⟩
      · cases herror
      cases hlook
      change (if s.container.isDue name = true then _ else _ : Attempt H Nat).run s = _ at hgoes
      split at hgoes
      · rcases Attempt.run_bind_eq_some_iff.1 hgoes with
          ⟨e, hbuilt, rfl⟩ | ⟨object, u, hbuilt, hrest⟩
        · exact ⟨[name], .error e, .fails ‹_› hbuilt, rfl⟩
        · rcases ih hrest with ⟨asked, done, hadvance, rfl⟩
          refine ⟨name :: asked, done, .builds ‹_› hbuilt hadvance, ?_⟩
          rw [List.length_cons, Nat.add_right_comm, Nat.add_assoc]
      · rcases ih hgoes with ⟨asked, done, hadvance, hresult⟩
        exact ⟨asked, done, .passes (Bool.eq_false_iff.2 ‹_›) hadvance, hresult⟩

/-- If nothing is due, building in advance does nothing. -/
theorem Engine.run_preInstantiateAll_idle (E : Engine H) {names : List String} {s : State H}
    (h : ∀ name ∈ names, s.container.isDue name = false) (count : Nat) :
    (E.preInstantiateAll names count).run s = some (.ok count, s) := by
  induction names with
  | nil => rfl
  | cons name rest ih =>
      refine Attempt.run_bind_eq_some_iff.2 (Or.inr ⟨s.container, s, rfl, ?_⟩)
      change (if s.container.isDue name = true then _ else _ : Attempt H Nat).run s = _
      rw [h name List.mem_cons_self, if_neg Bool.false_ne_true]
      exact ih fun n hn => h n (List.mem_cons_of_mem _ hn)

namespace Advance

variable {names asked : List String} {result : Except Error Unit} {s t : State H}

section Along

variable {E : Engine H}

/-- The loop goes along any relation that requests go along. -/
theorem along {may : Activity H → Prop} {inside along : State H → State H → Prop}
    (hT : Trail may inside along)
    (hget : ∀ name, AnyName name → Attempt.Along along (E.getOrBuild name))
    (h : Advance E names s asked result t) : along s t := by
  induction h with
  | done s => exact hT.rest s
  | passes _ _ ih => exact ih
  | builds _ hbuilt _ ih => exact hT.followedBy (hget _ trivial _ _ _ hbuilt) ih
  | fails _ hbuilt => exact hget _ trivial _ _ _ hbuilt

theorem course (hE : E.Lawful) (h : Advance E names s asked result t) : Course Anything s t :=
  h.along (Course.trail Anything) fun name _ =>
    Engine.getOrBuild_follows hE (fun _ _ => trivial) name

theorem sublist (h : Advance E names s asked result t) : asked.Sublist names := by
  induction h with
  | done s => exact List.Sublist.slnil
  | passes _ _ ih => exact ih.cons _
  | builds _ _ _ ih => exact ih.cons_cons _
  | fails _ _ => exact (List.nil_sublist _).cons_cons _

/-- Outside of calls nothing else is asked for. -/
theorem requests_eq (hE : E.Lawful) (h : Advance E names s asked result t) :
    requests (since s t) = asked := by
  induction h with
  | done s =>
      rw [since_self]
      rfl
  | passes _ _ ih => exact ih
  | builds _ hbuilt hrest ih =>
      have hcourse : Course Anything _ _ :=
        Engine.getOrBuild_follows hE (fun _ _ => trivial) _ _ _ _ hbuilt
      rw [hcourse.since_followedBy (hrest.course hE), requests_append hcourse.nested,
        Engine.requests_of_getOrBuild hE hbuilt, ih]
      rfl
  | fails _ hbuilt => exact Engine.requests_of_getOrBuild hE hbuilt

/-- If the loop fails, it does so at a name that is due, and it succeeds for the names in front. -/
theorem cases_error {e : Error} (h : Advance E names s asked (.error e) t) :
    ∃ front name back early u, names = front ++ name :: back ∧ asked = early ++ [name] ∧
      Advance E front s early (.ok ()) u ∧ u.container.isDue name = true ∧
      (E.getOrBuild name).run u = some (.error e, t) := by
  generalize hresult : Except.error e = result at h
  induction h with
  | done s => cases hresult
  | @passes name _ _ _ _ _ hdue _ ih =>
      rcases ih hresult with ⟨front, m, back, early, u, rfl, rfl, hfront, hm, hfailed⟩
      exact ⟨name :: front, m, back, early, u, rfl, rfl, .passes hdue hfront, hm, hfailed⟩
  | @builds name _ _ _ _ _ _ _ hdue hbuilt _ ih =>
      rcases ih hresult with ⟨front, m, back, early, u, rfl, rfl, hfront, hm, hfailed⟩
      exact ⟨name :: front, m, back, name :: early, u, rfl, rfl, .builds hdue hbuilt hfront, hm,
        hfailed⟩
  | @fails name rest _ s _ hdue hbuilt =>
      cases hresult
      exact ⟨[], name, rest, [], s, rfl, rfl, .done s, hdue, hbuilt⟩

end Along

section Engines

variable {behaviour : Behaviour H} {facade : Facade} {depth : Nat}

theorem additive (h : Advance (Engine.ofDepth behaviour facade depth) names s asked result t) :
    AlongCourses Additive s t :=
  h.along Additive.gradual.trail (Engine.getOrBuild_additive behaviour facade depth)

theorem prompted (h : Advance (Engine.ofDepth behaviour facade depth) names s asked result t) :
    AlongCourses (Prompted AnyName) s t :=
  h.along (Prompted.gradual AnyName).trail (Engine.getOrBuild_prompted behaviour facade depth)

/-- What is made or built in the loop was asked for by it, or inside of a call. -/
theorem prompted_or_inner
    (h : Advance (Engine.ofDepth behaviour facade depth) names s asked result t) {name : String}
    (hbuilt : (∃ object, .made name object ∈ since s t) ∨
      s.container.containsSingleton name = false ∧ t.container.containsSingleton name = true) :
    name ∈ asked ∨ .requested name ∈ inner (since s t) := by
  have hasked : .requested name ∈ since s t := by
    rcases hbuilt with ⟨object, hmade⟩ | ⟨hnone, hkept⟩
    · exact h.prompted.2.made name object trivial hmade
    · exact h.prompted.2.kept name trivial hnone hkept
  have hor := mem_requests_or_inner hasked
  rwa [h.requests_eq (Engine.lawful_ofDepth behaviour facade depth)] at hor

section Forbidding

variable (hforbids : s.container.allowOverriding = false)
include hforbids

/-- What the loop asks for was not built when it began. -/
theorem unkept_of_asked
    (h : Advance (Engine.ofDepth behaviour facade depth) names s asked result t) :
    ∀ name ∈ asked, s.container.containsSingleton name = false := by
  induction h with
  | done s => exact fun name hmem => absurd hmem List.not_mem_nil
  | passes _ _ ih => exact ih hforbids
  | @builds first _ _ _ _ _ _ _ hdue hbuilt _ ih =>
      have hadds := (Engine.getOrBuild_additive behaviour facade depth first trivial _ _ _ hbuilt).2
      intro name hmem
      rcases List.mem_cons.1 hmem with rfl | hmem
      · exact (unkept_of_isDue hdue)
      · exact hadds.unkept hforbids (ih (hadds.overriding_eq.trans hforbids) name hmem)
  | fails hdue _ =>
      intro name hmem
      exact List.mem_singleton.1 hmem ▸ unkept_of_isDue hdue

/-- What the loop asks for is built when it is done, if it was built of singletons. -/
theorem kept_of_asked
    (h : Advance (Engine.ofDepth behaviour facade depth) names s asked (.ok ()) t) :
    ∀ name ∈ asked, Singular name (since s t) → t.container.containsSingleton name = true := by
  generalize hresult : Except.ok () = result at h
  induction h with
  | done s => exact fun name hmem => absurd hmem List.not_mem_nil
  | passes _ _ ih => exact ih hforbids hresult
  | @builds first _ _ _ _ _ _ _ hdue hbuilt hrest ih =>
      have hadds := Engine.getOrBuild_additive behaviour facade depth first trivial _ _ _ hbuilt
      have hforbids' := hadds.2.overriding_eq.trans hforbids
      intro name hmem hsingular
      rw [hadds.1.since_followedBy hrest.additive.1] at hsingular
      rcases List.mem_cons.1 hmem with rfl | hmem
      · have hkept := Engine.kept_of_getOrBuild
          (Engine.lawful_ofDepth behaviour facade depth) hbuilt
          (hsingular.mono (List.subset_append_left _ _))
        exact hrest.additive.2.stays hforbids' (Option.isSome_of_eq_some hkept)
      · exact ih hforbids' hresult name hmem (hsingular.mono (List.subset_append_right _ _))
  | fails _ _ => cases hresult

variable (hknown : ∀ name ∈ names, s.container.contains name = true)
include hknown

/-- If nothing is edited, what the loop asks for was eager when it began. -/
theorem eager_of_asked
    (h : Advance (Engine.ofDepth behaviour facade depth) names s asked result t)
    (hnone : ∀ name d, .updated name d ∉ since s t) :
    ∀ name ∈ asked, s.container.isEager name = true := by
  induction h with
  | done s => exact fun name hmem => absurd hmem List.not_mem_nil
  | passes _ _ ih => exact ih hforbids (fun n hn => hknown n (List.mem_cons_of_mem _ hn)) hnone
  | @builds first _ _ _ _ _ _ _ hdue hbuilt hrest ih =>
      have hadds := Engine.getOrBuild_additive behaviour facade depth first trivial _ _ _ hbuilt
      rw [hadds.1.since_followedBy hrest.additive.1] at hnone
      intro name hmem
      rcases List.mem_cons.1 hmem with rfl | hmem
      · exact eager_of_isDue hdue
      · have hname := hknown _ (List.mem_cons_of_mem _ (hrest.sublist.subset hmem))
        rw [← Additive.isEager_eq hadds hforbids hname fun d hd =>
          hnone name d (List.mem_append_left _ hd)]
        exact ih (hadds.2.overriding_eq.trans hforbids)
          (fun n hn => hadds.2.contained n (hknown n (List.mem_cons_of_mem _ hn)))
          (fun n d hd => hnone n d (List.mem_append_right _ hd)) name hmem
  | fails hdue _ =>
      intro name hmem
      exact List.mem_singleton.1 hmem ▸ eager_of_isDue hdue

/-- If nothing is edited, what was eager when the loop began and was built of singletons is kept
    when the loop is done. -/
theorem complete
    (h : Advance (Engine.ofDepth behaviour facade depth) names s asked (.ok ()) t)
    (hnone : ∀ name d, .updated name d ∉ since s t) :
    ∀ name ∈ names, s.container.isEager name = true → Singular name (since s t) →
      t.container.containsSingleton name = true := by
  generalize hresult : Except.ok () = result at h
  induction h with
  | done s => exact fun name hmem => absurd hmem List.not_mem_nil
  | @passes first _ _ _ s _ hdue hrest ih =>
      intro name hmem heager hsingular
      rcases List.mem_cons.1 hmem with rfl | hmem
      · refine hrest.additive.2.stays hforbids ?_
        rwa [Container.isDue, heager, Bool.true_and, Bool.not_eq_false'] at hdue
      · exact ih hforbids (fun n hn => hknown n (List.mem_cons_of_mem _ hn)) hnone hresult name hmem
          heager hsingular
  | @builds first _ _ _ _ _ _ _ hdue hbuilt hrest ih =>
      have hadds := Engine.getOrBuild_additive behaviour facade depth first trivial _ _ _ hbuilt
      have hforbids' := hadds.2.overriding_eq.trans hforbids
      rw [hadds.1.since_followedBy hrest.additive.1] at hnone
      intro name hmem heager hsingular
      rw [hadds.1.since_followedBy hrest.additive.1] at hsingular
      rcases List.mem_cons.1 hmem with rfl | hmem
      · have hkept := Engine.kept_of_getOrBuild
          (Engine.lawful_ofDepth behaviour facade depth) hbuilt
          (hsingular.mono (List.subset_append_left _ _))
        exact hrest.additive.2.stays hforbids' (Option.isSome_of_eq_some hkept)
      · rw [← Additive.isEager_eq hadds hforbids
          (hknown _ (List.mem_cons_of_mem _ hmem)) fun d hd =>
          hnone name d (List.mem_append_left _ hd)] at heager
        exact ih hforbids'
          (fun n hn => hadds.2.contained n (hknown n (List.mem_cons_of_mem _ hn)))
          (fun n d hd => hnone n d (List.mem_append_right _ hd)) hresult name hmem heager
          (hsingular.mono (List.subset_append_right _ _))
  | fails _ _ => cases hresult

/-- If the loop fails, what was eager in front of the name at which it fails and was built of
    singletons is kept, and what is behind the name was not asked for. -/
theorem stops {e : Error}
    (h : Advance (Engine.ofDepth behaviour facade depth) names s asked (.error e) t)
    (hnames : names.Nodup) (hnone : ∀ name d, .updated name d ∉ since s t) :
    ∃ front name back u, names = front ++ name :: back ∧ asked.getLast? = some name ∧
      Course Anything s u ∧
      ((Engine.ofDepth behaviour facade depth).getOrBuild name).run u = some (.error e, t) ∧
      (∀ earlier ∈ front, s.container.isEager earlier = true → Singular earlier (since s t) →
        t.container.containsSingleton earlier = true) ∧
      ∀ later ∈ back, later ∉ asked := by
  rcases h.cases_error with ⟨front, name, back, early, u, rfl, rfl, hfront, _, hfailed⟩
  have hsu := hfront.additive
  have hut := Engine.getOrBuild_additive behaviour facade depth name trivial _ _ _ hfailed
  have hearly : ∀ n d, .updated n d ∉ since s u := fun n d hmem =>
    hnone n d (hsu.1.since_followedBy hut.1 ▸ List.mem_append_left _ hmem)
  refine ⟨front, name, back, u, rfl, ?_, hsu.1, hfailed, fun earlier hmem heager hsingular => ?_,
    fun later hmem hasked => ?_⟩
  · rw [List.getLast?_append, List.getLast?_singleton, Option.some_or]
  · refine hut.2.stays (hsu.2.overriding_eq.trans hforbids) ?_
    rw [hsu.1.since_followedBy hut.1] at hsingular
    exact hfront.complete hforbids (fun n hn => hknown n (List.mem_append_left _ hn)) hearly
      earlier hmem heager (hsingular.mono (List.subset_append_left _ _))
  · -- The names that the loop asked for stand in front, and no name stands there twice.
    rw [List.append_cons] at hnames
    refine List.disjoint_of_nodup_append hnames ?_ hmem
    exact (hfront.sublist.append (List.Sublist.refl [name])).subset hasked

end Forbidding

end Engines

end Advance

-- The names of a registry, gone through from its present state on.
theorem Engine.run_preInstantiate_advance {E : Engine H} {result : Except Error Nat}
    {s t : State H} (h : E.preInstantiate.run s = some (result, t)) :
    ∃ asked done, Advance E s.container.names s asked done t ∧
      result = done.map fun _ => asked.length := by
  rcases Attempt.run_bind_eq_some_iff.1 h with ⟨_, herror, _⟩ | ⟨k, _, hlook, hrest⟩
  · cases herror
  cases hlook
  rcases run_preInstantiateAll_advance hrest with ⟨asked, done, hadvance, rfl⟩
  refine ⟨asked, done, hadvance, ?_⟩
  rw [Nat.zero_add]

/-- If nothing was stored since the eager names were built, building in advance does nothing. -/
theorem Engine.run_preInstantiate_again {s t : State H} (hs : s.container.InStep)
    (hcourse : Course Anything s t) (hnone : stores (since s t) = [])
    (hall : ∀ name ∈ s.container.eagerNames, t.container.containsSingleton name = true)
    (E : Engine H) : E.preInstantiate.run t = some (.ok 0, t) := by
  refine Attempt.run_bind_eq_some_iff.2 (Or.inr ⟨t.container, t, rfl, ?_⟩)
  refine run_preInstantiateAll_idle E (fun name _ => ?_) 0
  have hsame : t.container.isEager name = s.container.isEager name := by
    rw [Container.isEager, hcourse.definitions_kept hnone name, Container.isEager]
  cases heager : s.container.isEager name with
  | false => rw [Container.isDue, hsame, heager, Bool.false_and]
  | true =>
      rcases (Option.any_eq_true _ _).1 heager with ⟨d, hd, _⟩
      have hname := (hs.mem_names_iff name).2 (Option.isSome_of_eq_some hd)
      have hkept := hall name (List.mem_filter.2 ⟨hname, heager⟩)
      rw [Container.isDue, hkept, Bool.not_true, Bool.and_false]

/-- Let a registry that refuses to override definitions build in advance, and let nothing be edited
    meanwhile. Outside of calls only eager names are asked for, in the order of their registration,
    and everything else that is made was asked for inside of a call. If this succeeds, a name that
    was eager at the beginning is built, unless an interceptor put a prototype in the place of the
    copy that its factory was called with, and if that happened to none of them and nothing was
    registered meanwhile there is nothing to do any more. If it fails, it does so at an eager name:
    the eager names in front of it are built, under the same proviso, and the names behind it were
    only made when they were asked for inside of a call. -/
theorem preInstantiate_complete (behaviour : Behaviour H) (facade : Facade) (depth : Nat)
    {s t : State H} {result : Except Error Nat} (hs : s.container.InStep)
    (hforbids : s.container.allowOverriding = false)
    (h : (Engine.ofDepth behaviour facade depth).preInstantiate.run s = some (result, t))
    (hnone : ∀ name d, .updated name d ∉ since s t) :
    (requests (since s t)).Sublist s.container.eagerNames ∧
    (∀ name object, .made name object ∈ since s t →
      name ∈ s.container.eagerNames ∨ .requested name ∈ inner (since s t)) ∧
    (∀ count, result = .ok count →
      (∀ name ∈ s.container.eagerNames, Singular name (since s t) →
        t.container.containsSingleton name = true) ∧
      ((∀ d, .registered d ∉ since s t) →
        (∀ name ∈ s.container.eagerNames, Singular name (since s t)) →
          ∀ E : Engine H, E.preInstantiate.run t = some (.ok 0, t))) ∧
    ∀ e, result = .error e → ∃ front name back u,
      s.container.names = front ++ name :: back ∧ name ∈ s.container.eagerNames ∧
      (requests (since s t)).getLast? = some name ∧ Course Anything s u ∧
      ((Engine.ofDepth behaviour facade depth).getOrBuild name).run u = some (.error e, t) ∧
      (∀ earlier ∈ front, earlier ∈ s.container.eagerNames → Singular earlier (since s t) →
        t.container.containsSingleton earlier = true) ∧
      ∀ later ∈ back, ∀ object, .made later object ∈ since s t →
        .requested later ∈ inner (since s t) := by
  have hE : (Engine.ofDepth behaviour facade depth).Lawful :=
    Engine.lawful_ofDepth behaviour facade depth
  rcases Engine.run_preInstantiate_advance h with ⟨asked, done, hadvance, hresult⟩
  have hknown : ∀ name ∈ s.container.names, s.container.contains name = true :=
    fun name => (hs.mem_names_iff name).1
  have heager : ∀ name ∈ asked, s.container.isEager name = true :=
    hadvance.eager_of_asked hforbids hknown hnone
  have hordered : asked.Sublist s.container.eagerNames := by
    rw [← List.filter_eq_self.2 heager]
    exact hadvance.sublist.filter _
  have hprompted : ∀ name object, .made name object ∈ since s t →
      name ∈ asked ∨ .requested name ∈ inner (since s t) :=
    fun name object hmade => hadvance.prompted_or_inner (Or.inl ⟨object, hmade⟩)
  refine ⟨?_, fun name object hmade => ?_, ?_, ?_⟩
  · rw [hadvance.requests_eq hE]
    exact hordered
  · exact (hprompted name object hmade).imp_left fun hasked => hordered.subset hasked
  · rintro count rfl
    cases done with
    | error e => cases hresult
    | ok done =>
        have hall : ∀ name ∈ s.container.eagerNames, Singular name (since s t) →
            t.container.containsSingleton name = true := fun name hname =>
          hadvance.complete hforbids hknown hnone name (List.mem_filter.1 hname).1
            (List.mem_filter.1 hname).2
        refine ⟨hall, fun hfresh hsingular E => Engine.run_preInstantiate_again hs
          (hadvance.course hE) ?_ (fun name hname => hall name hname (hsingular name hname)) E⟩
        rw [stores, List.filterMap_eq_nil_iff]
        intro activity hmem
        cases activity with
        | registered d => exact absurd hmem (hfresh d)
        | updated name d => exact absurd hmem (hnone name d)
        | _ => rfl
  · rintro e rfl
    cases done with
    | ok done => cases hresult
    | error failure =>
        cases hresult
        rcases hadvance.stops hforbids hknown hs.names_nodup hnone with
          ⟨front, name, back, u, hsplit, hlast, hcourse, hfailed, hfront, hback⟩
        refine ⟨front, name, back, u, hsplit, ?_, ?_, hcourse, hfailed, ?_, ?_⟩
        · exact hordered.subset (List.mem_of_getLast? hlast)
        · rw [hadvance.requests_eq hE]
          exact hlast
        · exact fun earlier hmem hname => hfront earlier hmem (List.mem_filter.1 hname).2
        · exact fun later hmem object hmade =>
            (hprompted later object hmade).resolve_left (hback later hmem)

namespace BuildScenarios

/-- Some definitions. Those in the second list are lazy. -/
def eagerAndLazy (eager lazy : List (Definition Plan)) : State host where
  container := { definitions :=
    ⟨eager.map (fun d => (d.name, d)) ++ lazy.map fun d => (d.name, { d with lazyInit := true })⟩ }
  store := ()

-- No factory is called with anything but the copy of a singleton.
def makesSingleton : Activity host → Bool
  | .entered (.make _ copy) => copy.isSingleton
  | _ => true

theorem singular_of_all {chronicle : List (Activity host)}
    (h : chronicle.all makesSingleton = true) (name : String) : Singular name chronicle :=
  fun _ hmem => List.all_eq_true.1 h _ hmem

/-- What building in advance comes to: the answer, what is built and what was asked for by then,
    what was stored meanwhile, and whether only singletons were made. -/
def account (s : State host) :
    Option (Option Nat × List String × List String × List String × Bool) :=
  (buildEngine.preInstantiate.run s).map fun r => (r.1.toOption, r.2.container.singletons.names,
    requests (since s r.2), (stores (since s r.2)).map Prod.fst,
    (since s r.2).all makesSingleton)

/-- An eager singleton needs a part, and the part and another singleton are lazy. -/
def withNeededPart : State host :=
  eagerAndLazy [component "dependent" (.needing "part"), component "plain" .plain]
    [component "unneeded" .plain, component "part" .plain]

/-- The factory of the second eager singleton fails. -/
def withFailing : State host :=
  eagerAndLazy
    [component "first" .plain, component "failing" .failing, component "plain" .plain] []

theorem account_of_withNeededPart :
    account withNeededPart
      = some (some 2, ["part", "dependent", "plain"], ["dependent", "plain"], [], true) := by
  decide +kernel

theorem account_of_withFailing :
    account withFailing = some (none, ["first"], ["first", "failing"], [], true) := by
  decide +kernel

/-- The part is built because it is needed, and the other lazy singleton is not. Where a factory
    fails the singleton in front of it is built, and the one behind it is not begun. -/
theorem needed_part_and_failing :
    (∃ t, buildEngine.preInstantiate.run withNeededPart = some (.ok 2, t) ∧
      withNeededPart.container.eagerNames = ["dependent", "plain"] ∧
      (∀ name ∈ ["dependent", "plain"], t.container.containsSingleton name = true) ∧
      (∀ object, .made "part" object ∈ since withNeededPart t →
        .requested "part" ∈ inner (since withNeededPart t)) ∧
      t.container.containsSingleton "unneeded" = false ∧
      buildEngine.preInstantiate.run t = some (.ok 0, t)) ∧
    ∃ (e : Error) (t u : State host),
      buildEngine.preInstantiate.run withFailing = some (.error e, t) ∧
      (buildEngine.getOrBuild "failing").run u = some (.error e, t) ∧
      t.container.containsSingleton "first" = true ∧
      ∀ object, .made "plain" object ∈ since withFailing t →
        .requested "plain" ∈ inner (since withFailing t) := by
  refine ⟨?_, ?_⟩
  · rcases Option.map_eq_some_iff.1 account_of_withNeededPart with ⟨⟨result, t⟩, hrun, hreport⟩
    simp only [Prod.mk.injEq] at hreport
    rcases hreport with ⟨hresult, hbuilt, _, hstores, hsingular⟩
    have hinStep : withNeededPart.container.InStep := Container.inStep_of_eq rfl (by decide)
    cases result with
    | error e => cases hresult
    | ok count =>
        cases hresult
        rcases preInstantiate_complete behaviour .direct 2 hinStep rfl hrun
          (not_mem_of_stores (List.map_eq_nil_iff.1 hstores)).1 with ⟨_, hprompted, hok, _⟩
        rcases hok 2 rfl with ⟨hall, hagain⟩
        have heager : withNeededPart.container.eagerNames = ["dependent", "plain"] := by decide
        rw [heager] at hall hprompted
        refine ⟨t, hrun, heager, fun name hname => hall name hname (singular_of_all hsingular name),
          fun object hmade => ?_, ?_, hagain (not_mem_of_stores (List.map_eq_nil_iff.1 hstores)).2
            (fun name _ => singular_of_all hsingular name) buildEngine⟩
        · exact (hprompted "part" object hmade).resolve_left (by decide)
        · rw [Container.containsSingleton, Bool.eq_false_iff, ne_eq, NameTable.contains_iff, hbuilt]
          decide
  · rcases Option.map_eq_some_iff.1 account_of_withFailing with ⟨⟨result, t⟩, hrun, hreport⟩
    simp only [Prod.mk.injEq] at hreport
    rcases hreport with ⟨hresult, hbuilt, hasked, hstores, hsingular⟩
    have hinStep : withFailing.container.InStep := Container.inStep_of_eq rfl (by decide)
    cases result with
    | ok count => cases hresult
    | error e =>
        rcases preInstantiate_complete behaviour .direct 2 hinStep rfl hrun
          (not_mem_of_stores (List.map_eq_nil_iff.1 hstores)).1 with ⟨_, _, _, herror⟩
        rcases herror e rfl with ⟨front, name, back, u, hsplit, _, hlast, _, hfailed, hfront, hback⟩
        rw [hasked] at hlast
        cases hlast
        have hplaces : front = ["first"] ∧ back = ["plain"] := by
          change ["first", "failing", "plain"] = front ++ "failing" :: back at hsplit
          rcases front with _ | ⟨first, _ | ⟨second, rest⟩⟩
          · simp at hsplit
          · simp at hsplit
            exact ⟨congrArg (fun n => [n]) hsplit.1.symm, hsplit.2.symm⟩
          · simp [List.cons_eq_append_iff] at hsplit
        exact ⟨e, t, u, hrun, hfailed,
          hfront "first" (hplaces.1 ▸ List.mem_singleton_self _) (by decide)
            (singular_of_all hsingular "first"),
          hback "plain" (hplaces.2 ▸ List.mem_singleton_self _)⟩

def copySwappers : Engine host := Engine.ofDepth copySwapping .direct 2

/-- One eager singleton, and one hook. -/
def plainWithHook : State host :=
  (eagerAndLazy [component "plain" .plain] []).withContainer
    { (eagerAndLazy [component "plain" .plain] []).container with
      chain := ⟨[⟨"swap", .object ⟨"swap", 100, .hosted false⟩⟩]⟩ }

/-- What building in advance twice comes to: both answers, what is built by then, and what was
    stored meanwhile. -/
def accountOfTwice : Option (Option Nat × Option Nat × List String × List String) :=
  (copySwappers.preInstantiate.run plainWithHook).bind fun r =>
    (copySwappers.preInstantiate.run r.2).map fun q => (r.1.toOption, q.1.toOption,
      r.2.container.singletons.names, (stores (since plainWithHook r.2)).map Prod.fst)

theorem accountOfTwice_eq : accountOfTwice = some (some 1, some 1, [], []) := by
  decide +kernel

/-- Building in advance succeeds, and all the same the eager singleton is not kept, because a hook
    put a prototype in the place of the copy. So the next time there is as much to do. -/
theorem swapped_copies_built_again : ∃ t u : State host,
    plainWithHook.container.allowOverriding = false ∧
    plainWithHook.container.eagerNames = ["plain"] ∧
    copySwappers.preInstantiate.run plainWithHook = some (.ok 1, t) ∧
    stores (since plainWithHook t) = [] ∧ t.container.containsSingleton "plain" = false ∧
    copySwappers.preInstantiate.run t = some (.ok 1, u) := by
  rcases Option.bind_eq_some_iff.1 accountOfTwice_eq with ⟨⟨first, t⟩, hfirst, hsecond⟩
  rcases Option.map_eq_some_iff.1 hsecond with ⟨⟨second, u⟩, hsecond, hreport⟩
  simp only [Prod.mk.injEq, List.map_eq_nil_iff] at hreport
  rcases hreport with ⟨hone, htwo, hkept, hstores⟩
  obtain rfl : first = .ok 1 := by
    rcases first with e | count <;> cases hone
    rfl
  obtain rfl : second = .ok 1 := by
    rcases second with e | count <;> cases htwo
    rfl
  refine ⟨t, u, rfl, by decide, hfirst, hstores, ?_, hsecond⟩
  rw [Container.containsSingleton, Bool.eq_false_iff, ne_eq, NameTable.contains_iff, hkept]
  exact List.not_mem_nil

end BuildScenarios

-- Of some names without repetitions others are left when a part of them is taken away.
theorem length_add_filter {asked newly : List String} (hasked : asked.Nodup) (hnewly : newly.Nodup)
    (hpart : asked ⊆ newly) :
    asked.length + (newly.filter (· ∉ asked)).length = newly.length := by
  have hperm : (newly.filter (· ∈ asked)).Perm asked := by
    rw [List.perm_ext_iff_of_nodup (hnewly.filter _) hasked]
    intro name
    rw [List.mem_filter, decide_eq_true_eq]
    exact ⟨And.right, fun h => ⟨hpart h, h⟩⟩
  have hsplit := List.length_eq_length_filter_add (l := newly) (· ∈ asked)
  rw [hsplit, hperm.length_eq]
  simp only [decide_not]

/-- Let a registry that refuses to override definitions build in advance, and let it succeed. The
    answer counts the names that were asked for outside of calls, none of which was built at the
    beginning. What of the eager names was built meanwhile but was not asked for there was asked for
    inside of a call. If nothing was edited, neither a definition in the registry nor the scope of
    the copy that a factory was called with for an eager name, these names are left out of the count
    and all others that were built are in it. -/
theorem preInstantiate_count (behaviour : Behaviour H) (facade : Facade) (depth : Nat)
    {s t : State H} {count : Nat} (hs : s.container.InStep)
    (hforbids : s.container.allowOverriding = false)
    (h : (Engine.ofDepth behaviour facade depth).preInstantiate.run s = some (.ok count, t)) :
    count = (requests (since s t)).length ∧
    (requests (since s t)).Sublist s.container.names ∧
    (∀ name ∈ requests (since s t), s.container.containsSingleton name = false ∧
      (Singular name (since s t) → t.container.containsSingleton name = true)) ∧
    (∀ name ∈ s.container.newlyBuilt t.container, name ∉ requests (since s t) →
      .requested name ∈ inner (since s t)) ∧
    ((∀ name d, .updated name d ∉ since s t) →
      (∀ name ∈ s.container.eagerNames, Singular name (since s t)) →
        count + ((s.container.newlyBuilt t.container).filter (· ∉ requests (since s t))).length
          = (s.container.newlyBuilt t.container).length) := by
  rcases Engine.run_preInstantiate_advance h with ⟨asked, done, hadvance, hresult⟩
  rw [hadvance.requests_eq (Engine.lawful_ofDepth behaviour facade depth)]
  cases done with
  | error e => cases hresult
  | ok done =>
      cases hresult
      have hnew : ∀ name ∈ asked, s.container.containsSingleton name = false ∧
          (Singular name (since s t) → t.container.containsSingleton name = true) :=
        fun name hmem => ⟨hadvance.unkept_of_asked hforbids name hmem,
          hadvance.kept_of_asked hforbids name hmem⟩
      refine ⟨rfl, hadvance.sublist, hnew, fun name hname hother => ?_, fun hnone hsingular => ?_⟩
      · rcases List.mem_filter.1 hname with ⟨_, hbuilt⟩
        rw [Bool.and_eq_true, Bool.not_eq_true'] at hbuilt
        exact (hadvance.prompted_or_inner (Or.inr hbuilt)).resolve_left hother
      · have heager :=
          hadvance.eager_of_asked hforbids (fun name => (hs.mem_names_iff name).1) hnone
        refine length_add_filter (hadvance.sublist.nodup hs.names_nodup)
          ((hs.names_nodup.filter _).filter _) fun name hmem => ?_
        have hname : name ∈ s.container.eagerNames :=
          List.mem_filter.2 ⟨hadvance.sublist.subset hmem, heager name hmem⟩
        refine List.mem_filter.2 ⟨hname, ?_⟩
        rw [(hnew name hmem).1, (hnew name hmem).2 (hsingular name hname)]
        rfl

namespace BuildScenarios

/-- A singleton in front of the part that it needs. -/
def dependentFirst : State host :=
  eagerAndLazy [component "dependent" (.needing "part"), component "part" .plain] []

def partFirst : State host :=
  eagerAndLazy [component "part" .plain, component "dependent" (.needing "part")] []

theorem account_of_dependentFirst :
    account dependentFirst = some (some 1, ["part", "dependent"], ["dependent"], [], true) := by
  decide +kernel

theorem account_of_partFirst :
    account partFirst = some (some 2, ["part", "dependent"], ["part", "dependent"], [], true) := by
  decide +kernel

-- What is built when building in advance comes to an end.
theorem newlyBuilt_of_account {s : State host} {count : Nat} {built asked : List String}
    (h : account s = some (some count, built, asked, [], true)) :
    ∃ t, buildEngine.preInstantiate.run s = some (.ok count, t) ∧ requests (since s t) = asked ∧
      (∀ name d, .updated name d ∉ since s t) ∧ (∀ name, Singular name (since s t)) ∧
      s.container.newlyBuilt t.container
        = s.container.eagerNames.filter fun name =>
          !s.container.containsSingleton name && decide (name ∈ built) := by
  rcases Option.map_eq_some_iff.1 h with ⟨⟨result, t⟩, hrun, hreport⟩
  simp only [Prod.mk.injEq] at hreport
  rcases hreport with ⟨hresult, hbuilt, hasked, hstores, hsingular⟩
  cases result with
  | error e => cases hresult
  | ok answer =>
      cases hresult
      refine ⟨t, hrun, hasked, (not_mem_of_stores (List.map_eq_nil_iff.1 hstores)).1,
        singular_of_all hsingular, List.filter_congr fun name _ => ?_⟩
      congr 1
      rw [Bool.eq_iff_iff, decide_eq_true_eq, ← hbuilt]
      exact NameTable.contains_iff _ _

/-- With the dependent in front the part is built for it, and the count leaves it out. -/
theorem dependentFirst_count : ∃ t,
    buildEngine.preInstantiate.run dependentFirst = some (.ok 1, t) ∧
    requests (since dependentFirst t) = ["dependent"] ∧
    dependentFirst.container.newlyBuilt t.container = ["dependent", "part"] ∧
    1 + ((dependentFirst.container.newlyBuilt t.container).filter
      (· ∉ requests (since dependentFirst t))).length = 2 ∧
    .requested "part" ∈ inner (since dependentFirst t) := by
  rcases newlyBuilt_of_account account_of_dependentFirst with
    ⟨t, hrun, hasked, hnone, hsingular, hnewly⟩
  have hbuilt : dependentFirst.container.newlyBuilt t.container = ["dependent", "part"] := by
    rw [hnewly]
    decide
  rcases preInstantiate_count behaviour .direct 2 (Container.inStep_of_eq rfl (by decide)) rfl
    hrun with ⟨_, _, _, hinner, hcounts⟩
  have hcount := hcounts hnone fun name _ => hsingular name
  rw [hbuilt] at hcount hinner
  refine ⟨t, hrun, hasked, hbuilt, hbuilt ▸ hcount, hinner "part" (by decide) ?_⟩
  rw [hasked]
  decide

/-- The same two singletons are built in both cases, but both are counted only when the part stands
    in front. -/
theorem counts_differ :
    (∃ t, buildEngine.preInstantiate.run dependentFirst = some (.ok 1, t) ∧
      dependentFirst.container.allowOverriding = false ∧
      (dependentFirst.container.newlyBuilt t.container).length = 2) ∧
    ∃ t, buildEngine.preInstantiate.run partFirst = some (.ok 2, t) ∧
      partFirst.container.allowOverriding = false ∧
      (partFirst.container.newlyBuilt t.container).length = 2 := by
  refine ⟨?_, ?_⟩
  · rcases newlyBuilt_of_account account_of_dependentFirst with ⟨t, hrun, _, _, _, hnewly⟩
    exact ⟨t, hrun, rfl, by rw [hnewly]; decide⟩
  · rcases newlyBuilt_of_account account_of_partFirst with ⟨t, hrun, _, _, _, hnewly⟩
    exact ⟨t, hrun, rfl, by rw [hnewly]; decide⟩

end BuildScenarios

end ObjectBootstrap
