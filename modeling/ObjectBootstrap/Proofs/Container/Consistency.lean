import ObjectBootstrap.Proofs.Course

/-!
# Consistency of the container

The definitions and the order of their registration are two things, and a container is in step when
the order lists every registered name once and nothing else. It stays so because a name that is
registered for the first time is put behind the others, and whatever else stores a definition does
so under a name that is there.

What a query for a capability answers is decided by the definitions and their order alone. A
container that is in step is consistent when each answer that it keeps is the one that a search
would give now. The empty container is consistent, and no change makes a consistent container
inconsistent, because whatever stores a definition also forgets all answers.

Courses also say where definitions come from. A name that is registered stays so at its place, so
the names of an earlier state are the first of the later ones. And a definition that is found later
was there before or was stored in the meantime.

## Main definitions

* `Container.InStep`: Every registered name is listed once, and nothing else is.
* `Container.holding`: A container that holds some definitions.
* `Container.Consistent`: It is in step, and kept answers are right.
* `moveLast`: What an installation makes of the installed names.
* `HookChain.addAll`: Installs hooks one after the other.

## Theorems

* `finishBuild_cases`, `register_cases`: What the end of a build and a registration come to.
* `Course.inStep`, `Course.consistent`: A container stays in step, and consistent.
* `Course.inCreation_eq`: Builds that begin in a course come to their ends in it.
* `Course.names_grow`: The order of registration is kept, and new names come last.
* `Course.definition_eq`: What is found is what was stored last.
* `Course.definition_of_stores`: Definitions come from stores.
* `Course.definitions_kept`: If nothing is stored, definitions stay.
* `Course.chain_addAll`: The chain moves by installations alone.
* `Course.chain_names`, `Course.chain_eq`: What becomes of the installed names.
-/

namespace ObjectBootstrap

variable {H : Host}

namespace Container

/-- The order of registration lists every registered name once, and nothing else. -/
structure InStep (k : Container H) : Prop where
  names_nodup : k.names.Nodup
  mem_names_iff : ∀ name, name ∈ k.names ↔ k.contains name = true

/-- The container is in step, and the answers that are kept are right. -/
structure Consistent (k : Container H) : Prop extends k.InStep where
  answers_exact : ∀ query names, k.answers.lookup query = some names → names = k.search query

-- A container that lists its definitions as they stand there.
theorem inStep_of_eq {k : Container H} (h : k.names = k.definitions.names)
    (hnodup : k.definitions.names.Nodup) : k.InStep := by
  refine ⟨h ▸ hnodup, fun name => ?_⟩
  rw [h]
  exact (k.definitions.contains_iff name).symm

theorem inStep_empty (overriding : Bool) :
    ({ allowOverriding := overriding } : Container H).InStep :=
  inStep_of_eq rfl List.nodup_nil

theorem consistent_empty (overriding : Bool) :
    ({ allowOverriding := overriding } : Container H).Consistent := by
  refine ⟨inStep_empty overriding, ?_⟩
  intro query names h
  cases h

/-- A container that holds some definitions, each under its own name. -/
def holding (definitions : List (Definition H.Factory)) : Container H where
  definitions := ⟨definitions.map fun d => (d.name, d)⟩
  names := definitions.map fun d => d.name

-- What no container keeps yet cannot be wrong.
theorem consistent_holding {definitions : List (Definition H.Factory)}
    (h : (definitions.map fun d => d.name).Nodup) : (holding definitions).Consistent := by
  have hnames : (holding definitions).definitions.names = (holding definitions).names :=
    List.map_map
  refine ⟨inStep_of_eq hnames.symm (hnames ▸ h), ?_⟩
  intro query names hanswer
  cases hanswer

-- A name with a definition is one of the names.
theorem InStep.mem_names_of_some {k : Container H} (hk : k.InStep) {name : String}
    {d : Definition H.Factory} (h : k.definitions.get? name = some d) : name ∈ k.names :=
  (hk.mem_names_iff name).2 (Option.isSome_of_eq_some h)

-- Each of the names has a definition.
theorem InStep.exists_of_mem_names {k : Container H} (hk : k.InStep) {name : String}
    (h : name ∈ k.names) : ∃ d, k.definitions.get? name = some d :=
  Option.isSome_iff_exists.1 ((hk.mem_names_iff name).1 h)

theorem definitions_of_ok {k : Container H} {name : String} {d : Definition H.Factory}
    (h : k.definition name = .ok d) : k.definitions.get? name = some d := by
  unfold definition at h
  split at h
  · cases h
    assumption
  · cases h

theorem definition_of_some {k : Container H} {name : String} {d : Definition H.Factory}
    (h : k.definitions.get? name = some d) : k.definition name = .ok d := by
  rw [definition, h]

theorem InStep.mem_names_of_ok {k : Container H} (hk : k.InStep) {name : String}
    {d : Definition H.Factory} (h : k.definition name = .ok d) : name ∈ k.names :=
  hk.mem_names_of_some (definitions_of_ok h)

-- A consistent container answers a query by what a search finds.
theorem Consistent.namesFor_eq {k : Container H} (hk : k.Consistent) (query : CapabilityQuery) :
    (k.namesFor query).1 = k.search query := by
  unfold namesFor
  split
  · exact hk.answers_exact query _ ‹_›
  · rfl

-- An answer is kept, so the same question is answered alike.
theorem namesFor_namesFor (k : Container H) (query : CapabilityQuery) :
    ((k.namesFor query).2.namesFor query).1 = (k.namesFor query).1 := by
  cases h : k.answers.lookup query with
  | some names => simp only [namesFor, h]
  | none => simp only [namesFor, h, List.lookup_cons_self]

@[simp] theorem namesFor_definitions (k : Container H) (query : CapabilityQuery) :
    (k.namesFor query).2.definitions = k.definitions := by
  unfold namesFor
  split <;> rfl

@[simp] theorem namesFor_names (k : Container H) (query : CapabilityQuery) :
    (k.namesFor query).2.names = k.names := by
  unfold namesFor
  split <;> rfl

@[simp] theorem namesFor_chain (k : Container H) (query : CapabilityQuery) :
    (k.namesFor query).2.chain = k.chain := by
  unfold namesFor
  split <;> rfl

theorem settleTarget_frame (k : Container H) (name : String)
    (built : Option (Object H.Content)) (singleton : Bool) :
    (k.settleTarget name built singleton).definitions = k.definitions ∧
      (k.settleTarget name built singleton).names = k.names ∧
      (k.settleTarget name built singleton).chain = k.chain ∧
      (k.settleTarget name built singleton).answers = k.answers := by
  unfold settleTarget
  dsimp only
  split
  · split <;> exact ⟨rfl, rfl, rfl, rfl⟩
  · split <;> exact ⟨rfl, rfl, rfl, rfl⟩

-- The end of a build touches neither the definitions nor the chain nor the answers.
theorem finishBuild_frame (k : Container H) (name : String) (built : Option (Built H)) :
    (k.finishBuild name built).definitions = k.definitions ∧
      (k.finishBuild name built).names = k.names ∧
      (k.finishBuild name built).chain = k.chain ∧
      (k.finishBuild name built).answers = k.answers := by
  have hsettled := settleTarget_frame (k.endCreation name) name (built.map Built.object)
    (Built.isSingleton built)
  unfold finishBuild
  dsimp only
  split
  · split
    · exact hsettled
    · exact hsettled
  · exact hsettled

@[simp] theorem finishBuild_definitions (k : Container H) (name : String)
    (built : Option (Built H)) : (k.finishBuild name built).definitions = k.definitions :=
  (finishBuild_frame k name built).1

@[simp] theorem finishBuild_names (k : Container H) (name : String) (built : Option (Built H)) :
    (k.finishBuild name built).names = k.names :=
  (finishBuild_frame k name built).2.1

@[simp] theorem finishBuild_chain (k : Container H) (name : String) (built : Option (Built H)) :
    (k.finishBuild name built).chain = k.chain :=
  (finishBuild_frame k name built).2.2.1

@[simp] theorem namesFor_allowOverriding (k : Container H) (query : CapabilityQuery) :
    (k.namesFor query).2.allowOverriding = k.allowOverriding := by
  unfold namesFor
  split <;> rfl

@[simp] theorem namesFor_inCreation (k : Container H) (query : CapabilityQuery) :
    (k.namesFor query).2.inCreation = k.inCreation := by
  unfold namesFor
  split <;> rfl

-- A build that failed is only taken from the list, and its target is forgotten.
theorem finishBuild_none (k : Container H) (name : String) :
    k.finishBuild name none = { k with
      inCreation := k.inCreation.filter fun n => n != name
      targets := k.targets.erase name } := by
  simp [finishBuild, settleTarget, endCreation]

-- So is a build that ended with the copy of a prototype.
theorem finishBuild_prototype (k : Container H) (name : String) {built : Built H}
    (h : built.copy.isSingleton = false) : k.finishBuild name (some built) = { k with
      inCreation := k.inCreation.filter fun n => n != name
      targets := k.targets.erase name } := by
  simp [finishBuild, settleTarget, endCreation, Built.isSingleton, h]

/-- At the end of a build its name is no longer under way. If the build ended with the copy of a
    singleton its object is kept, and the target is kept along with it if the hooks replaced it by
    another object. -/
theorem finishBuild_cases (k : Container H) (name : String) (built : Option (Built H)) :
    (∃ b target, built = some b ∧ b.copy.isSingleton = true ∧
      k.targets.get? name = some target ∧ target.same b.object = false ∧
      k.finishBuild name built = { k with
        inCreation := k.inCreation.filter fun n => n != name
        singletons := k.singletons.insert name b.object }) ∨
    (∃ b, built = some b ∧ b.copy.isSingleton = true ∧ k.finishBuild name built = { k with
        inCreation := k.inCreation.filter fun n => n != name
        targets := k.targets.erase name
        singletons := k.singletons.insert name b.object }) ∨
    k.finishBuild name built = { k with
      inCreation := k.inCreation.filter fun n => n != name
      targets := k.targets.erase name } := by
  cases built with
  | none => exact Or.inr (Or.inr (finishBuild_none k name))
  | some b =>
      cases hscope : b.copy.isSingleton with
      | false => exact Or.inr (Or.inr (finishBuild_prototype k name hscope))
      | true =>
          cases htarget : k.targets.get? name with
          | none =>
              refine Or.inr (Or.inl ⟨b, rfl, hscope, ?_⟩)
              simp [finishBuild, settleTarget, endCreation, keepSingleton, htarget,
                Built.isSingleton, hscope]
          | some target =>
              cases hsame : target.same b.object with
              | true =>
                  refine Or.inr (Or.inl ⟨b, rfl, hscope, ?_⟩)
                  simp [finishBuild, settleTarget, endCreation, keepSingleton, htarget, hsame,
                    Built.isSingleton, hscope]
              | false =>
                  refine Or.inl ⟨b, target, rfl, hscope, rfl, hsame, ?_⟩
                  simp [finishBuild, settleTarget, endCreation, keepSingleton, htarget, hsame,
                    Built.isSingleton, hscope]

@[simp] theorem finishBuild_inCreation (k : Container H) (name : String)
    (built : Option (Built H)) : (k.finishBuild name built).inCreation
      = k.inCreation.filter fun n => n != name := by
  rcases finishBuild_cases k name built with ⟨_, _, _, _, _, _, h⟩ | ⟨_, _, _, h⟩ | h <;> rw [h]

-- A build that succeeds adds at most its own singleton.
theorem finishBuild_ok_singletons (k : Container H) (name : String) (built : Built H) :
    (k.finishBuild name (some built)).singletons
      = if built.copy.isSingleton = true then k.singletons.insert name built.object
        else k.singletons := by
  have hsettled : ∀ object singleton,
      ((k.endCreation name).settleTarget name object singleton).singletons = k.singletons := by
    intro object singleton
    unfold settleTarget
    dsimp only
    split
    · split <;> rfl
    · split <;> rfl
  unfold finishBuild
  dsimp only
  split
  · rw [keepSingleton, hsettled]
  · exact hsettled _ _

-- A name that was put behind the others is all that is taken away again.
theorem filter_begun {names : List String} {name : String} (hnew : name ∉ names) :
    (names ++ [name]).filter (fun n => n != name) = names := by
  rw [List.filter_append, List.filter_cons_of_neg (by simp), List.filter_nil, List.append_nil,
    List.filter_eq_self]
  intro n hmem
  exact bne_iff_ne.2 fun heq => hnew (heq ▸ hmem)

-- A build that begins is only noted.
theorem beginCreation_eq_ok {k k' : Container H} {name : String}
    (h : k.beginCreation name = .ok k') :
    name ∉ k.inCreation ∧ k' = { k with inCreation := k.inCreation ++ [name] } := by
  unfold beginCreation at h
  split at h
  · cases h
  · cases h
    exact ⟨‹_›, rfl⟩

/-- A registration that is not refused takes the place of what was there under the name, or it is
    the first one under it. -/
theorem register_cases {k k' : Container H} {d : Definition H.Factory}
    (h : k.register d = .ok k') :
    k.contains d.name = true ∧ k' = { k with
        definitions := k.definitions.insert d.name d
        singletons := k.singletons.erase d.name
        targets := k.targets.erase d.name
        answers := [] } ∨
      k.contains d.name = false ∧ k' = { k with
        definitions := k.definitions.insert d.name d
        names := k.names ++ [d.name]
        answers := [] } := by
  unfold register at h
  split at h
  · cases h
  split at h
  · split at h
    · cases h
      exact Or.inl ⟨‹_›, rfl⟩
    · cases h
  · cases h
    exact Or.inr ⟨Bool.eq_false_iff.2 ‹_›, rfl⟩

-- A registration that is not refused stores the definition, forgets all answers, and leaves the
-- chain as it is.
theorem register_eq_ok {k k' : Container H} {d : Definition H.Factory}
    (h : k.register d = .ok k') :
    k'.definitions = k.definitions.insert d.name d ∧ k'.answers = [] ∧ k'.chain = k.chain := by
  rcases register_cases h with ⟨_, rfl⟩ | ⟨_, rfl⟩ <;> exact ⟨rfl, rfl, rfl⟩

theorem InStep.congr {k k' : Container H} (hk : k.InStep)
    (hdefinitions : k'.definitions = k.definitions) (hnames : k'.names = k.names) :
    k'.InStep := by
  refine ⟨hnames ▸ hk.names_nodup, fun name => ?_⟩
  rw [hnames, Container.contains, hdefinitions]
  exact hk.mem_names_iff name

-- A definition is stored under a name that is there.
theorem InStep.stored {k k' : Container H} (hk : k.InStep) {name : String}
    {d : Definition H.Factory} (hname : name ∈ k.names)
    (hdefinitions : k'.definitions = k.definitions.insert name d) (hnames : k'.names = k.names) :
    k'.InStep := by
  refine ⟨hnames ▸ hk.names_nodup, fun n => ?_⟩
  rw [hnames, hk.mem_names_iff, Container.contains, Container.contains, NameTable.contains,
    NameTable.contains, hdefinitions, NameTable.get?_insert]
  by_cases hn : n = name
  · rw [if_pos hn, hn]
    exact iff_of_true ((hk.mem_names_iff name).1 hname) rfl
  · rw [if_neg hn]

/-- A registration puts a name that is new behind the others. -/
theorem InStep.register {k k' : Container H} (hk : k.InStep) {d : Definition H.Factory}
    (h : k.register d = .ok k') : k'.InStep := by
  rcases register_cases h with ⟨hthere, rfl⟩ | ⟨hnew, rfl⟩
  · exact hk.stored ((hk.mem_names_iff d.name).2 hthere) rfl rfl
  · have hmem : d.name ∉ k.names := fun hmem =>
      Bool.false_ne_true (hnew.symm.trans ((hk.mem_names_iff d.name).1 hmem))
    refine ⟨?_, fun n => ?_⟩
    · refine List.nodup_append.2 ⟨hk.names_nodup, List.pairwise_singleton _ _, ?_⟩
      intro a ha b hb hab
      exact hmem (List.mem_singleton.1 hb ▸ hab ▸ ha)
    · rw [List.mem_append, List.mem_singleton, hk.mem_names_iff, Container.contains,
        Container.contains, NameTable.contains, NameTable.contains, NameTable.get?_insert]
      by_cases hn : n = d.name
      · rw [if_pos hn]
        exact iff_of_true (Or.inr hn) rfl
      · rw [if_neg hn]
        exact or_iff_left hn

-- What a search finds is decided by the definitions and their order.
theorem search_congr {k k' : Container H} (hdefinitions : k'.definitions = k.definitions)
    (hnames : k'.names = k.names) (query : CapabilityQuery) :
    k'.search query = k.search query := by
  rw [search, hdefinitions, hnames, search]

-- Consistency only looks at the definitions, their order, and the answers.
theorem Consistent.congr {k k' : Container H} (hk : k.Consistent)
    (hdefinitions : k'.definitions = k.definitions) (hnames : k'.names = k.names)
    (hanswers : k'.answers = k.answers) : k'.Consistent := by
  refine ⟨hk.toInStep.congr hdefinitions hnames, ?_⟩
  intro query names h
  rw [hanswers] at h
  rw [search_congr hdefinitions hnames]
  exact hk.answers_exact query names h

-- Whoever forgets all answers has none that could be wrong.
theorem InStep.consistent {k : Container H} (hk : k.InStep) (hanswers : k.answers = []) :
    k.Consistent := by
  refine ⟨hk, ?_⟩
  intro query names h
  rw [hanswers] at h
  cases h

theorem Consistent.namesFor {k : Container H} (hk : k.Consistent) (query : CapabilityQuery) :
    (k.namesFor query).2.Consistent := by
  refine ⟨hk.toInStep.congr (namesFor_definitions k query) (namesFor_names k query), ?_⟩
  intro query' names h
  rw [search_congr (namesFor_definitions k query) (namesFor_names k query)]
  cases hquery : k.answers.lookup query with
  | some found =>
      simp only [Container.namesFor, hquery] at h
      exact hk.answers_exact query' names h
  | none =>
      simp only [Container.namesFor, hquery] at h
      -- The kept answers are the old ones and the new one in front of them.
      by_cases heq : query' = query
      · rw [heq, List.lookup_cons_self, Option.some.injEq] at h
        rw [heq, h]
      · rw [List.lookup_cons, beq_eq_false_iff_ne.2 heq] at h
        exact hk.answers_exact query' names h

-- The names that a query answers are registered, in this order.
theorem Consistent.namesFor_sublist {k : Container H} (hk : k.Consistent)
    (query : CapabilityQuery) : (k.namesFor query).1.Sublist k.names := by
  rw [hk.namesFor_eq]
  exact List.filter_sublist

end Container

/-- The installed names once a hook is installed under one of them: it stands at the end. -/
def moveLast (names : List String) (name : String) : List String :=
  names.filter (fun n => n != name) ++ [name]

namespace HookChain

variable {C : Type}

/-- Installs hooks one after the other. -/
def addAll (chain : HookChain C) (added : List (ChainEntry C)) : HookChain C :=
  added.foldl (fun chain entry => chain.add entry.name entry.hook) chain

theorem addAll_append (chain : HookChain C) (early late : List (ChainEntry C)) :
    chain.addAll (early ++ late) = (chain.addAll early).addAll late :=
  List.foldl_append

theorem names_addAll (chain : HookChain C) (added : List (ChainEntry C)) :
    (chain.addAll added).names = (added.map ChainEntry.name).foldl moveLast chain.names := by
  induction added generalizing chain with
  | nil => rfl
  | cons entry later ih =>
      rw [List.map_cons, List.foldl_cons, moveLast, ← names_add chain entry.name entry.hook]
      exact ih _

end HookChain

namespace Course

variable {may : Activity H → Prop} {s t : State H}

/-- The same builds are under way again, since each of them that begins comes to its end. -/
theorem inCreation_eq (h : Course may s t) :
    t.container.inCreation = s.container.inCreation := by
  induction h with
  | rest s => rfl
  | followedBy _ _ ih1 ih2 => exact ih2.trans ih1
  | @quiet _ s _ h =>
      cases h with
      | search query => exact Container.namesFor_inCreation s.container query
      | _ => rfl
  | deed h _ =>
      cases h with
      | register hk => rcases Container.register_cases hk with ⟨_, rfl⟩ | ⟨_, rfl⟩ <;> rfl
      | _ => rfl
  | call _ _ ih => exact ih
  | request _ _ _ ih => exact ih
  | update _ _ _ ih => exact ih
  | @build _ s t name d k built _ _ _ hk _ ih =>
      rcases Container.beginCreation_eq_ok hk with ⟨hnew, rfl⟩
      have hinside : t.container.inCreation = s.container.inCreation ++ [name] := ih
      rw [State.withContainer_container, Container.finishBuild_inCreation, hinside,
        Container.filter_begun hnew]

/-- The order of registration is kept, and new names come last. -/
theorem names_grow (h : Course may s t) : s.container.names <+: t.container.names := by
  induction h with
  | rest s => exact List.prefix_rfl
  | followedBy _ _ ih1 ih2 => exact ih1.trans ih2
  | @quiet _ s _ h =>
      cases h with
      | search query =>
          simp only [State.withContainer_container, Container.namesFor_names, List.prefix_rfl]
      | _ => exact List.prefix_rfl
  | deed h _ =>
      cases h with
      | register hk =>
          rcases Container.register_cases hk with ⟨_, rfl⟩ | ⟨_, rfl⟩
          · exact List.prefix_rfl
          · exact List.prefix_append _ _
      | _ => exact List.prefix_rfl
  | call _ _ ih => exact ih
  | request _ _ _ ih => exact ih
  | update _ _ _ ih => exact ih
  | build _ _ _ hk _ ih =>
      rcases Container.beginCreation_eq_ok hk with ⟨_, rfl⟩
      rw [State.withContainer_container, Container.finishBuild_names]
      exact ih

/-- A container stays in step, since no name is taken away and a definition is edited under a name
    that is there. -/
theorem inStep (h : Course may s t) (hs : s.container.InStep) : t.container.InStep := by
  induction h with
  | rest s => exact hs
  | followedBy _ _ ih1 ih2 => exact ih2 (ih1 hs)
  | @quiet _ s _ h =>
      cases h with
      | search query =>
          exact hs.congr (Container.namesFor_definitions s.container query)
            (Container.namesFor_names s.container query)
      | _ => exact hs.congr rfl rfl
  | deed h _ =>
      cases h with
      | register hk => exact hs.register hk
      | _ => exact hs.congr rfl rfl
  | call _ _ ih => exact ih hs
  | request _ _ _ ih => exact ih hs
  | update _ hd h ih =>
      exact (ih hs).stored (h.names_grow.subset (hs.mem_names_of_ok hd)) rfl rfl
  | @build _ s t name d k built _ _ _ hk _ ih =>
      rcases Container.beginCreation_eq_ok hk with ⟨_, rfl⟩
      have hinside := ih (hs.congr rfl rfl)
      have hframe := Container.finishBuild_frame t.container name built
      exact hinside.congr hframe.1 hframe.2.1

/-- A container stays consistent, whatever happens. -/
theorem consistent (h : Course may s t) (hs : s.container.Consistent) :
    t.container.Consistent := by
  induction h with
  | rest s => exact hs
  | followedBy _ _ ih1 ih2 => exact ih2 (ih1 hs)
  | @quiet _ s _ h =>
      cases h with
      | search query => exact hs.namesFor query
      | invalidate =>
          have hkept : s.container.invalidate.InStep := hs.toInStep.congr rfl rfl
          exact hkept.consistent rfl
      | _ => exact hs.congr rfl rfl rfl
  | deed h _ =>
      cases h with
      | register hk =>
          exact (hs.toInStep.register hk).consistent (Container.register_eq_ok hk).2.1
      | _ => exact hs.congr rfl rfl rfl
  | call _ _ ih => exact ih hs
  | request _ _ _ ih => exact ih hs
  | update ha hd h ih => exact ((Course.update ha hd h).inStep hs.toInStep).consistent rfl
  | @build _ s t name d k built _ _ _ hk _ ih =>
      rcases Container.beginCreation_eq_ok hk with ⟨_, rfl⟩
      have hinside := ih (hs.congr rfl rfl rfl)
      have hframe := Container.finishBuild_frame t.container name built
      exact hinside.congr hframe.1 hframe.2.1 hframe.2.2.2

/-- The definition of a name is the one that was stored under it last, or it is still the same. -/
theorem definition_eq (h : Course may s t) (name : String) :
    t.container.definitions.get? name
      = (under name (stores (since s t))).getLast?.or (s.container.definitions.get? name) := by
  -- What is stored is found under its own name, and what was found before under the others.
  have hinsert : ∀ {table : NameTable (Definition H.Factory)} {stored : String}
      {d : Definition H.Factory},
      (table.insert stored d).get? name
        = (under name [(stored, d)]).getLast?.or (table.get? name) := by
    intro table stored d
    rw [NameTable.get?_insert, under_single]
    by_cases hname : name = stored
    · rw [if_pos hname, if_pos hname.symm]
      rfl
    · rw [if_neg hname, if_neg (Ne.symm hname)]
      rfl
  have hbehind : ∀ {activity : Activity H} {chronicle : List (Activity H)},
      activity.stored? = none →
        under name (stores (chronicle ++ [activity])) = under name (stores chronicle) := by
    intro activity chronicle hnone
    rw [stores_append, under_append, stores, stores, List.filterMap_cons_none hnone]
    exact List.append_nil _
  induction h with
  | rest s => rw [since_self]; rfl
  | followedBy h1 h2 ih1 ih2 =>
      rw [since_followedBy h1 h2, stores_append, under_append, List.getLast?_append,
        Option.or_assoc, ← ih1, ih2]
  | quiet h =>
      rw [since_quiet h]
      cases h with
      | search query =>
          rw [State.withContainer_container, Container.namesFor_definitions]
          rfl
      | _ => rfl
  | deed h _ =>
      rw [since_deed h]
      cases h with
      | @register e k hk =>
          rw [State.note_container, State.withContainer_container,
            (Container.register_eq_ok hk).1]
          exact hinsert
      | _ => rfl
  | call _ h ih =>
      rw [since_between h, hbehind rfl]
      exact ih
  | request _ _ h ih =>
      rw [since_between h, hbehind rfl]
      exact ih
  | update _ _ h ih =>
      rw [since_update h, stores_append, under_append, List.getLast?_append, Option.or_assoc, ← ih]
      exact hinsert
  | build _ _ _ hk _ ih =>
      rcases Container.beginCreation_eq_ok hk with ⟨_, rfl⟩
      rw [State.withContainer_container, Container.finishBuild_definitions]
      exact ih

-- No definition is taken away.
theorem undefined_before (h : Course may s t) {name : String}
    (ht : t.container.definitions.get? name = none) :
    s.container.definitions.get? name = none := by
  rw [h.definition_eq, Option.or_eq_none_iff] at ht
  exact ht.2

theorem contains_kept (h : Course may s t) {name : String}
    (hname : s.container.contains name = true) : t.container.contains name = true := by
  rw [Container.contains, NameTable.contains, h.definition_eq, Option.isSome_or, Bool.or_eq_true]
  exact Or.inr hname

/-- A definition that is found later was there before, or it was stored in the meantime. -/
theorem definition_of_stores (h : Course may s t) {name : String} {d : Definition H.Factory}
    (hd : t.container.definitions.get? name = some d) :
    s.container.definitions.get? name = some d ∨ (name, d) ∈ stores (since s t) := by
  rw [h.definition_eq, Option.or_eq_some_iff] at hd
  rcases hd with hstored | ⟨_, hthere⟩
  · exact Or.inr (mem_under.1 (List.mem_of_getLast? hstored))
  · exact Or.inl hthere

/-- If nothing is stored, there are the same definitions. -/
theorem definitions_kept (h : Course may s t) (hnone : stores (since s t) = []) (name : String) :
    t.container.definitions.get? name = s.container.definitions.get? name := by
  rw [h.definition_eq, hnone]
  rfl

/-- The chain moves by installations alone: what is installed is added to it, one hook after the
    other. -/
theorem chain_addAll (h : Course may s t) :
    ∃ added : List (ChainEntry H.Content), added.map ChainEntry.name = installs (since s t) ∧
      t.container.chain = s.container.chain.addAll added := by
  induction h with
  | rest s => exact ⟨[], by rw [since_self]; rfl, rfl⟩
  | followedBy h1 h2 ih1 ih2 =>
      rcases ih1 with ⟨early, hearly, hmid⟩
      rcases ih2 with ⟨late, hlate, hlast⟩
      refine ⟨early ++ late, ?_, ?_⟩
      · rw [List.map_append, since_followedBy h1 h2, installs_append, hearly, hlate]
      · rw [HookChain.addAll_append, ← hmid, hlast]
  | quiet h =>
      refine ⟨[], by rw [since_quiet h]; rfl, ?_⟩
      cases h with
      | search query => exact Container.namesFor_chain _ _
      | _ => rfl
  | deed h _ =>
      rw [since_deed h]
      cases h with
      | register hk => exact ⟨[], rfl, (Container.register_eq_ok hk).2.2⟩
      | install name hook => exact ⟨[⟨name, hook⟩], rfl, rfl⟩
      | _ => exact ⟨[], rfl, rfl⟩
  | call _ h ih =>
      -- Neither end of a call is an installation, so those of the body are all.
      rw [since_between h, installs_between rfl rfl]
      exact ih
  | request _ _ h ih =>
      rw [since_between h, installs_between rfl rfl]
      exact ih
  | update _ _ h ih =>
      rcases ih with ⟨added, hadded, hchain⟩
      refine ⟨added, ?_, hchain⟩
      rw [since_update h, installs_append, hadded]
      exact (List.append_nil _).symm
  | build _ _ _ hk _ ih =>
      rcases Container.beginCreation_eq_ok hk with ⟨_, rfl⟩
      rw [State.withContainer_container, Container.finishBuild_chain]
      exact ih

/-- Each installation takes its name to the end of the installed names. -/
theorem chain_names (h : Course may s t) :
    t.container.chain.names = (installs (since s t)).foldl moveLast s.container.chain.names := by
  rcases h.chain_addAll with ⟨added, hadded, hchain⟩
  rw [hchain, HookChain.names_addAll, hadded]

/-- If nothing is installed, the chain stays as it is. -/
theorem chain_eq (h : Course may s t) (hnone : installs (since s t) = []) :
    t.container.chain = s.container.chain := by
  rcases h.chain_addAll with ⟨added, hadded, hchain⟩
  rw [hnone, List.map_eq_nil_iff] at hadded
  rw [hchain, hadded]
  rfl

end Course

end ObjectBootstrap
