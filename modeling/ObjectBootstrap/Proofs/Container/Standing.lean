import ObjectBootstrap.Proofs.Container.Consistency
import ObjectBootstrap.Proofs.Order

/-!
# Standing among the answers to a query

A phase asks once which names answer its query and reads the definitions behind them later, when
hooks and factories had time to store others. What it relies on is how a definition stands among
the answers: whether it is one, and the parts of it that the phase reads. If every stored definition
stands as the one that was there first, or as nothing where there was none, then the query finds the
same names in the same order, and each of them stands as it did.

## Main definitions

* `CapabilityQuery.standing`: How a definition stands among the answers to a query.
* `Unmoved`: Every stored definition stands as what was there first.
* `KeepsPlacement`: A name has one placement, whatever is stored under it.
* `Container.ranking`: The answers to a query with their placements, in registration order.

## Theorems

* `Course.registration_walked`: How an object is registered when it sets out on a walk.
* `Course.standing_eq`, `Course.search_eq`: What stays if nothing is moved.
* `KeepsPlacement.classify`: What a name is classified as if it keeps its placement.
-/

namespace ObjectBootstrap

variable {H : Host} {α : Type}

/-- How a definition stands among the answers to a query, in some respect. -/
def CapabilityQuery.standing {F : Type} (q : CapabilityQuery) (view : Definition F → α)
    (d : Definition F) : Option α :=
  if q.admits d then some (view d) else none

namespace Container

/-- How the definition of a name stands among the answers to a query. -/
def standing (k : Container H) (q : CapabilityQuery) (view : Definition H.Factory → α)
    (name : String) : Option α :=
  (k.definitions.get? name).bind (q.standing view)

theorem any_admits_eq_isSome (k : Container H) (q : CapabilityQuery)
    (view : Definition H.Factory → α) (name : String) :
    (k.definitions.get? name).any q.admits = (k.standing q view name).isSome := by
  unfold standing CapabilityQuery.standing
  cases k.definitions.get? name with
  | none => rfl
  | some d =>
      rw [Option.any_some, Option.bind_some]
      cases q.admits d <;> rfl

-- A name answers a query when its definition stands among the answers.
theorem InStep.mem_search_iff {k : Container H} (hk : k.InStep) (q : CapabilityQuery)
    (view : Definition H.Factory → α) (name : String) :
    name ∈ k.search q ↔ (k.standing q view name).isSome = true := by
  rw [search, List.mem_filter, any_admits_eq_isSome k q view]
  refine and_iff_right_of_imp fun h => ?_
  cases hget : k.definitions.get? name with
  | none =>
      rw [standing, hget] at h
      cases h
  | some d => exact hk.mem_names_of_some hget

-- An answer is a name with a definition that the query admits.
theorem Consistent.mem_namesFor_iff {k : Container H} (hk : k.Consistent) {q : CapabilityQuery}
    {name : String} :
    name ∈ (k.namesFor q).1 ↔ ∃ d, k.definitions.get? name = some d ∧ q.admits d = true := by
  rw [hk.namesFor_eq, search, List.mem_filter, Option.any_eq_true]
  exact and_iff_right_of_imp fun h => h.elim fun _ hd => hk.mem_names_of_some hd.1

theorem nodup_search {k : Container H} (hk : k.names.Nodup) (q : CapabilityQuery) :
    (k.search q).Nodup :=
  hk.filter _

/-- The answers to a query with their placements, in registration order. -/
def ranking (k : Container H) (q : CapabilityQuery) : List (Ranked Unit) :=
  (k.search q).map fun name => ⟨name, Facade.direct.classify k name, ()⟩

end Container

-- A registry that shows itself as it is classifies a name by its definition.
theorem Facade.classify_direct {k : Container H} {name : String} {d : Definition H.Factory}
    (h : k.definitions.get? name = some d) : Facade.direct.classify k name = d.placement := by
  have hplacement : Facade.direct.placement k name = .ok d.placement := by
    change k.placement name = _
    rw [Container.placement, h]
  rw [classify, hplacement]

/-- Every stored definition stands as what was there first under its name. -/
def Unmoved (q : CapabilityQuery) (view : Definition H.Factory → α) (s t : State H) : Prop :=
  ∀ entry ∈ stores (since s t), q.standing view entry.2 = s.container.standing q view entry.1

/-- A name has this placement, whatever is stored under it. -/
structure KeepsPlacement (s t : State H) (name : String) (p : Placement) : Prop where
  at_start : ∀ d, s.container.definitions.get? name = some d → d.placement = p
  when_stored : ∀ d, (name, d) ∈ stores (since s t) → d.placement = p

section Courses

variable {may may' : Activity H → Prop} {s u t : State H}

theorem stores_followedBy (h1 : Course may s u) (h2 : Course may' u t) :
    stores (since s t) = stores (since s u) ++ stores (since u t) := by
  rw [h1.since_followedBy h2, stores_append]

-- A definition on the way was there first or is stored.
theorem Course.definition_on_the_way (h1 : Course may s u) (h2 : Course may' u t)
    {name : String} {d : Definition H.Factory}
    (hd : u.container.definitions.get? name = some d) :
    s.container.definitions.get? name = some d ∨ (name, d) ∈ stores (since s t) := by
  rcases h1.definition_of_stores hd with hfirst | hstored
  · exact Or.inl hfirst
  · rw [stores_followedBy h1 h2]
    exact Or.inr (List.mem_append_left _ hstored)

/-- An object that sets out on a walk is registered as it was at first or as it is stored on the
    way, and it is not registered only if it was not at first. -/
theorem Course.registration_walked (h : Course may s t) {stage : Stage} {name : String}
    {registration : Option (Definition H.Factory)}
    (hmem : .walked stage name registration ∈ since s t) :
    (registration = none → s.container.definitions.get? name = none) ∧
      ∀ d, registration = some d →
        s.container.definitions.get? name = some d ∨ (name, d) ∈ stores (since s t) := by
  -- What stands between two entries that are about something else.
  have hbetween : ∀ {first last : Activity H} {body : List (Activity H)},
      .walked stage name registration ∈ first :: body ++ [last] →
        first ≠ .walked stage name registration → last ≠ .walked stage name registration →
          .walked stage name registration ∈ body := by
    intro first last body hmem hfirst hlast
    simp only [List.cons_append, List.mem_cons, List.mem_append, List.not_mem_nil, or_false] at hmem
    rcases hmem with heq | hbody | heq
    · exact absurd heq.symm hfirst
    · exact hbody
    · exact absurd heq.symm hlast
  have hstores : ∀ {first last : Activity H} {body : List (Activity H)} {d : Definition H.Factory},
      (name, d) ∈ stores body → (name, d) ∈ stores (first :: body ++ [last]) := by
    intro first last body d hstored
    rw [← List.singleton_append, List.append_assoc, stores_append, stores_append]
    exact List.mem_append_right _ (List.mem_append_left _ hstored)
  induction h with
  | rest s =>
      rw [since_self] at hmem
      exact absurd hmem List.not_mem_nil
  | followedBy h1 h2 ih1 ih2 =>
      rw [h1.since_followedBy h2, List.mem_append] at hmem
      rw [h1.since_followedBy h2, stores_append]
      rcases hmem with hmem | hmem
      · exact ⟨(ih1 hmem).1, fun d hd => ((ih1 hmem).2 d hd).imp_right (List.mem_append_left _)⟩
      · refine ⟨fun hnone => h1.undefined_before ((ih2 hmem).1 hnone), fun d hd => ?_⟩
        · rcases (ih2 hmem).2 d hd with hthere | hstored
          · exact (h1.definition_of_stores hthere).imp_right (List.mem_append_left _)
          · exact Or.inr (List.mem_append_right _ hstored)
  | quiet h =>
      rw [since_quiet h] at hmem
      exact absurd hmem List.not_mem_nil
  | deed h _ =>
      rw [since_deed h, List.mem_singleton] at hmem
      cases h with
      | walk other n =>
          cases hmem
          exact ⟨id, fun d hd => Or.inl hd⟩
      | _ => cases hmem
  | @call _ s _ point failure _ hbody ih =>
      rw [hbody.since_between] at hmem ⊢
      have hinside := ih (hbetween hmem (by simp) (by simp))
      exact ⟨hinside.1, fun d hd => (hinside.2 d hd).imp_right hstores⟩
  | @request _ s _ n object _ _ hbody ih =>
      rw [hbody.since_between] at hmem ⊢
      have hinside := ih (hbetween hmem (by simp) (by simp))
      exact ⟨hinside.1, fun d hd => (hinside.2 d hd).imp_right hstores⟩
  | @update _ s _ n d e _ _ hbody ih =>
      rw [Course.since_update hbody] at hmem ⊢
      rcases List.mem_append.1 hmem with hmem | hmem
      · rw [stores_append]
        exact ⟨(ih hmem).1, fun d hd => ((ih hmem).2 d hd).imp_right (List.mem_append_left _)⟩
      · cases List.mem_singleton.1 hmem
  | @build _ s _ n d k built _ _ _ hk _ ih =>
      rcases Container.beginCreation_eq_ok hk with ⟨_, rfl⟩
      exact ih hmem

/-- If nothing is moved, every name stands as it did. -/
theorem Course.standing_eq (h1 : Course may s u) (h2 : Course may' u t) {q : CapabilityQuery}
    {view : Definition H.Factory → α} (hun : Unmoved q view s t) (name : String) :
    u.container.standing q view name = s.container.standing q view name := by
  cases hu : u.container.definitions.get? name with
  | none =>
      rw [Container.standing, Container.standing, hu, h1.undefined_before hu]
  | some d =>
      rw [Container.standing, hu, Option.bind_some]
      rcases h1.definition_on_the_way h2 hu with hfirst | hstored
      · rw [Container.standing, hfirst, Option.bind_some]
      · exact hun (name, d) hstored

/-- If nothing is moved, the query finds the same names in the same order. -/
theorem Course.search_eq (h1 : Course may s u) (h2 : Course may' u t)
    (hs : s.container.Consistent) {q : CapabilityQuery} {view : Definition H.Factory → α}
    (hun : Unmoved q view s t) : u.container.search q = s.container.search q := by
  have hu := (h1.consistent hs).names_nodup
  -- The names are the old ones in their order and more behind them.
  have hstanding := h1.standing_eq h2 hun
  rcases h1.names_grow with ⟨more, hmore⟩
  -- No name that came later stands among the answers.
  have hlater : more.filter (fun name => (u.container.definitions.get? name).any q.admits)
      = [] := by
    rw [List.filter_eq_nil_iff]
    intro name hmem
    have hnew : name ∉ s.container.names := by
      rw [← hmore, List.nodup_append] at hu
      exact fun hold => hu.2.2 name hold name hmem rfl
    have hget : s.container.definitions.get? name = none :=
      Option.not_isSome_iff_eq_none.1 fun hsome => hnew ((hs.mem_names_iff name).2 hsome)
    rw [Container.any_admits_eq_isSome _ _ view, hstanding, Container.standing, hget]
    exact Bool.false_ne_true
  rw [Container.search, Container.search, ← hmore, List.filter_append, hlater, List.append_nil]
  refine List.filter_congr fun name _ => ?_
  rw [Container.any_admits_eq_isSome _ _ view, Container.any_admits_eq_isSome _ _ view,
    hstanding]

/-- A registered name that keeps its placement is classified by it at any time. -/
theorem KeepsPlacement.classify {name : String} {p : Placement}
    (h : KeepsPlacement s t name p) (h1 : Course may s u) (h2 : Course may' u t)
    (hthere : u.container.contains name = true) :
    Facade.direct.classify u.container name = p := by
  rcases Option.isSome_iff_exists.1 hthere with ⟨d, hd⟩
  rw [Facade.classify_direct hd]
  rcases h1.definition_on_the_way h2 hd with hfirst | hstored
  · exact h.at_start d hfirst
  · exact h.when_stored d hstored

/-- An answer to the query keeps its placement if no placement is moved. -/
theorem Unmoved.keepsPlacement {q : CapabilityQuery}
    (h : Unmoved q (fun d => d.placement) s t) (hs : s.container.Consistent) {name : String}
    (hmem : name ∈ s.container.search q) :
    KeepsPlacement s t name (Facade.direct.classify s.container name) := by
  rw [hs.mem_search_iff q fun d => d.placement] at hmem
  cases hget : s.container.definitions.get? name with
  | none =>
      rw [Container.standing, hget] at hmem
      cases hmem
  | some d =>
      rw [Container.standing, hget, Option.bind_some] at hmem
      have hstanding : q.standing (fun d => d.placement) d = some d.placement := by
        rw [CapabilityQuery.standing] at hmem ⊢
        split
        · rfl
        · rw [if_neg ‹_›] at hmem
          cases hmem
      rw [Facade.classify_direct hget]
      refine ⟨?_, ?_⟩
      · intro e he
        rw [hget, Option.some.injEq] at he
        rw [he]
      · intro e he
        have hmoved := h (name, e) he
        rw [Container.standing, hget, Option.bind_some, hstanding,
          CapabilityQuery.standing] at hmoved
        split at hmoved
        · exact Option.some.inj hmoved
        · cases hmoved

end Courses

end ObjectBootstrap
