import Mathlib.Data.List.Forall2
import ObjectBootstrap.Engine.Lemmas
import ObjectBootstrap.Proofs.Container.Consistency
import ObjectBootstrap.Proofs.Mutation.FixedPoint
import ObjectBootstrap.Proofs.Placeholder.Seams

/-!
# Properties without placeholders

The resolver of placeholders goes through the definitions in registration order. When it succeeds,
every property of every definition has become what its text is resolved to, and nothing else of a
definition has changed (`customizeEach_resolves`). A property without an opening is resolved to
itself, so the resolver need not look at it.

A change reaches one entry only. This is enough because no name is listed twice, and because the
keys of properties ascend.

What is left of placeholders afterwards lies on seams. Where there are none, the resolver finds
nothing to do when it is called again.

## Main definitions

* `Properties.storeAll`: Entries in which several texts have been stored.
* `Definition.ResolvedTo`: The properties of a definition have been resolved, and nothing else.
* `Placeholder.Resolution`: Some definitions have been resolved, and nothing else.
* `Container.HasProperty`: A definition has a property with a text.

## Theorems

* `changes_resolves`: The changes of properties make each text what it is resolved to.
* `interpret_customizeEach_cons`: How the resolver goes on from one definition to the next.
* `customizeEach_resolves`: What the resolver leaves behind.
* `customizeDefinitions_again`: The resolver leaves properties without an opening alone.
* `resolution_settles`: Resolving twice is resolving once, except for seams.
-/

namespace ObjectBootstrap

namespace Properties

/-- Stores several texts among entries, one after the other. -/
def storeAll (entries changes : List (String × String)) : List (String × String) :=
  changes.foldl (fun entries change => insertEntry change.1 change.2 entries) entries

theorem setAll_entries (p : Properties) (changes : List (String × String)) :
    (p.setAll changes).entries = storeAll p.entries changes := by
  induction changes generalizing p with
  | nil => rfl
  | cons change changes ih => exact ih (p.set change.1 change.2)

-- A text that is stored under a later key goes to the entries behind the first one.
theorem insertEntry_cons {key k : String} (text t : String) (rest : List (String × String))
    (h : k < key) :
    insertEntry key text ((k, t) :: rest) = (k, t) :: insertEntry key text rest := by
  have hne : key ≠ k := fun heq => String.lt_irrefl k (heq ▸ h)
  have hlt : ¬key < k := fun hlt => String.lt_irrefl k (String.lt_trans h hlt)
  rw [insertEntry, if_neg hne, if_neg hlt]

theorem storeAll_cons {k : String} (t : String) {changes : List (String × String)}
    (h : ∀ change ∈ changes, k < change.1) (rest : List (String × String)) :
    storeAll ((k, t) :: rest) changes = (k, t) :: storeAll rest changes := by
  induction changes generalizing rest with
  | nil => rfl
  | cons change changes ih =>
      rcases List.forall_mem_cons.1 h with ⟨hfirst, hchanges⟩
      change storeAll (insertEntry change.1 change.2 ((k, t) :: rest)) changes = _
      rw [insertEntry_cons change.2 t rest hfirst, ih hchanges]
      rfl

end Properties

namespace Placeholder

open Properties

/-- A property has become what its text is resolved to. -/
def ResolvedEntry (settings : Settings) (entry entry' : String × String) : Prop :=
  entry'.1 = entry.1 ∧ resolve settings entry.2 = .ok entry'.2

/-- The changes of properties make each text what it is resolved to. -/
theorem changes_resolves {settings : Settings} {name : String} {entries : List (String × String)} :
    ∀ {cs : List (String × String)}, (entries.map Prod.fst).Pairwise (· < ·) →
      changes settings name entries = .ok cs →
        (∀ change ∈ cs, change.1 ∈ entries.map Prod.fst) ∧
          List.Forall₂ (ResolvedEntry settings) entries (storeAll entries cs) := by
  induction entries with
  | nil =>
      intro cs _ h
      cases h
      exact ⟨List.forall_mem_nil _, .nil⟩
  | cons entry rest ih =>
      rcases entry with ⟨key, text⟩
      intro cs hascending h
      rcases List.pairwise_cons.1 hascending with ⟨hfirst, hrest⟩
      -- Once the first property is what it becomes, the others are changed behind it.
      have hbehind : ∀ {more : List (String × String)} {text' : String},
          changes settings name rest = .ok more → resolve settings text = .ok text' →
            (∀ change ∈ more, change.1 ∈ rest.map Prod.fst) ∧
              List.Forall₂ (ResolvedEntry settings) ((key, text) :: rest)
                (storeAll ((key, text') :: rest) more) := by
        intro more text' hmore hresolve
        rcases ih hrest hmore with ⟨hkeys, hresolved⟩
        rw [storeAll_cons text' (fun change hchange => hfirst _ (hkeys change hchange)) rest]
        exact ⟨hkeys, .cons ⟨rfl, hresolve⟩ hresolved⟩
      rw [changes] at h
      split at h
      · split at h
        · cases h
        · next resolved hresolve =>
            rcases map_eq_ok_iff.1 h with ⟨more, hmore, rfl⟩
            rcases hbehind hmore hresolve with ⟨hkeys, hresolved⟩
            split
            · next heq =>
                rw [heq] at hresolved
                exact ⟨fun change hchange => List.mem_cons_of_mem _ (hkeys change hchange),
                  hresolved⟩
            · refine ⟨List.forall_mem_cons.2 ⟨List.mem_cons_self, fun change hchange =>
                List.mem_cons_of_mem _ (hkeys change hchange)⟩, ?_⟩
              change List.Forall₂ _ _
                (storeAll (insertEntry key resolved ((key, text) :: rest)) more)
              rw [insertEntry, if_pos rfl]
              exact hresolved
      · next hopening =>
          rcases hbehind h (resolve_unopened settings (Bool.eq_false_iff.2 hopening))
            with ⟨hkeys, hresolved⟩
          exact ⟨fun change hchange => List.mem_cons_of_mem _ (hkeys change hchange), hresolved⟩

-- Properties without an opening are not changed.
theorem changes_unopened (settings : Settings) (name : String) {entries : List (String × String)}
    (h : ∀ entry ∈ entries, hasOpening entry.2.toList = false) :
    changes settings name entries = .ok [] := by
  induction entries with
  | nil => rfl
  | cons entry rest ih =>
      rcases List.forall_mem_cons.1 h with ⟨hfirst, hrest⟩
      rw [changes, if_neg (Bool.eq_false_iff.1 hfirst), ih hrest]

end Placeholder

/-- The properties of a definition have become what their texts are resolved to, and nothing else
    of it has changed. -/
def Definition.ResolvedTo {F : Type} (settings : Settings) (d d' : Definition F) : Prop :=
  ∃ properties, d' = d.withDetails { d.toDetails with properties } ∧
    List.Forall₂ (Placeholder.ResolvedEntry settings) d.properties.entries properties.entries

variable {H : Host}

theorem Run.bind_apply {α β : Type} (first : Run H α) (second : α → Run H β) (s : State H) :
    (first >>= second) s = (first s).bind fun r => second r.1 r.2 := rfl

theorem Prog.bind_eq_bind {α β : Type} (p : Prog H α) (f : α → Prog H β) :
    (p >>= f) = p.bind f := rfl

/-- The state behind a definition whose properties are to be changed. -/
def State.customized (s : State H) (name : String) (d : Definition H.Factory) :
    List (String × String) → State H
  | [] => s
  | changes =>
    let edited := d.withDetails { d.toDetails with properties := d.properties.setAll changes }
    (s.withContainer (s.container.writeBack name edited)).note (.updated name edited)

theorem State.customized_settings (s : State H) (name : String) (d : Definition H.Factory)
    (changes : List (String × String)) :
    (s.customized name d changes).settings = s.settings := by
  cases changes <;> rfl

theorem Container.definition_writeBack (k : Container H) (name query : String)
    (d : Definition H.Factory) :
    (k.writeBack name d).definition query = if query = name then .ok d else k.definition query := by
  unfold Container.definition Container.writeBack
  rw [NameTable.get?_insert]
  by_cases hquery : query = name
  · rw [if_pos hquery, if_pos hquery]
  · rw [if_neg hquery, if_neg hquery]

theorem State.customized_definition {s : State H} {name : String} {d : Definition H.Factory}
    (hd : s.container.definition name = .ok d) (changes : List (String × String))
    (query : String) :
    (s.customized name d changes).container.definition query
      = if query = name then
          .ok (d.withDetails { d.toDetails with properties := d.properties.setAll changes })
        else s.container.definition query := by
  cases changes with
  | nil =>
      by_cases hquery : query = name
      · rw [if_pos hquery, hquery]
        exact hd
      · rw [if_neg hquery]
        rfl
  | cons change changes => exact Container.definition_writeBack _ _ _ _

namespace Placeholder

variable (E : Engine H) (shown : Facade)

/-- How the resolver goes on from one definition to the next. -/
theorem interpret_customizeEach_cons (settings : Settings) (name : String) (rest : List String)
    (s : State H) :
    (customizeEach settings (name :: rest)).interpret (E.answer shown) s =
      match s.container.definition name with
      | .error e => some (.error (.registry e), s)
      | .ok d =>
        match changes settings name d.properties.entries with
        | .error failure => some (.error failure, s)
        | .ok changes =>
          (customizeEach settings rest).interpret (E.answer shown)
            (s.customized name d changes) := by
  have hrequest : (Prog.request (.definition name)).interpret (E.answer shown) s
      = some (s.container.definition name, s) := by
    rw [Prog.interpret_request]
    rfl
  have hcontainer : Run.container s = some (s.container, s) := rfl
  rw [customizeEach, Prog.bind_eq_bind, Prog.interpret_bind, Run.bind_apply, hrequest,
    Option.bind_some]
  cases hd : s.container.definition name with
  | error e => rfl
  | ok d =>
      dsimp only
      cases hchanges : changes settings name d.properties.entries with
      | error failure => rfl
      | ok changes =>
          cases changes with
          | nil => rfl
          | cons change more =>
              dsimp only
              rw [Prog.bind_eq_bind, Prog.interpret_bind, Run.bind_apply, Prog.interpret,
                Run.bind_apply, hcontainer, Option.bind_some]
              dsimp only
              rw [hd]
              rfl

-- The resolver looks at the definitions that it finds at first.
theorem interpret_customizeDefinitions (s : State H) :
    customizeDefinitions.interpret (E.answer shown) s
      = (customizeEach s.settings s.container.names).interpret (E.answer shown) s :=
  rfl

/-- The definitions of some names have their properties resolved, and nothing else has changed. -/
structure Resolution (settings : Settings) (names : List String) (s t : State H) : Prop where
  settings_eq : t.settings = s.settings
  resolved : ∀ name ∈ names, ∃ d d', s.container.definition name = .ok d ∧
    t.container.definition name = .ok d' ∧ d.ResolvedTo settings d'
  kept : ∀ name, name ∉ names → t.container.definition name = s.container.definition name

variable {E shown}

/-- A definition is resolved, and behind it some others are. -/
theorem Resolution.cons {settings : Settings} {name : String} {names : List String} {s t : State H}
    {d : Definition H.Factory} {cs : List (String × String)}
    (hd : s.container.definition name = .ok d)
    (hchanges : changes settings name d.properties.entries = .ok cs) (hname : name ∉ names)
    (h : Resolution settings names (s.customized name d cs) t) :
    Resolution settings (name :: names) s t := by
  have hu := State.customized_definition hd cs
  -- The other names find what was there before.
  have hother : ∀ query, query ≠ name →
      (s.customized name d cs).container.definition query = s.container.definition query := by
    intro query hquery
    rw [hu, if_neg hquery]
  refine ⟨h.settings_eq.trans (s.customized_settings name d cs), ?_, ?_⟩
  · refine List.forall_mem_cons.2 ⟨⟨d, _, hd, ?_, d.properties.setAll cs, rfl, ?_⟩, ?_⟩
    · rw [h.kept name hname, hu, if_pos rfl]
    · rw [Properties.setAll_entries]
      exact (changes_resolves d.properties.ascending hchanges).2
    · intro query hquery
      rw [← hother query fun heq => hname (heq ▸ hquery)]
      exact h.resolved query hquery
  · intro query hquery
    rcases not_or.1 (fun h => hquery (List.mem_cons.2 h)) with ⟨hne, hquery⟩
    rw [h.kept query hquery, hother query hne]

/-- What the resolver leaves behind when it succeeds. -/
theorem customizeEach_resolves {settings : Settings} {names : List String} (hnodup : names.Nodup) :
    ∀ {s t : State H},
      (customizeEach settings names).interpret (E.answer shown) s = some (.ok (), t) →
        Resolution settings names s t := by
  induction names with
  | nil =>
      intro s t h
      cases h
      exact ⟨rfl, List.forall_mem_nil _, fun _ _ => rfl⟩
  | cons name rest ih =>
      intro s t h
      rcases List.nodup_cons.1 hnodup with ⟨hname, hrest⟩
      rw [interpret_customizeEach_cons] at h
      cases hd : s.container.definition name with
      | error e => rw [hd] at h; cases h
      | ok d =>
          rw [hd] at h
          dsimp only at h
          cases hchanges : changes settings name d.properties.entries with
          | error failure => rw [hchanges] at h; cases h
          | ok cs =>
              rw [hchanges] at h
              exact .cons hd hchanges hname (ih hrest h)

/-- The resolver leaves definitions alone whose properties have no opening. -/
theorem customizeEach_unopened (settings : Settings) {names : List String} {s : State H}
    (h : ∀ name ∈ names, ∃ d, s.container.definition name = .ok d ∧
      ∀ entry ∈ d.properties.entries, hasOpening entry.2.toList = false) :
    (customizeEach settings names).interpret (E.answer shown) s = some (.ok (), s) := by
  induction names with
  | nil => rfl
  | cons name rest ih =>
      rcases List.forall_mem_cons.1 h with ⟨⟨d, hd, hclean⟩, hrest⟩
      rw [interpret_customizeEach_cons, hd]
      dsimp only
      rw [changes_unopened settings name hclean]
      exact ih hrest

end Placeholder

/-- A definition has a property with a text. -/
def Container.HasProperty (k : Container H) (name key text : String) : Prop :=
  ∃ d, k.definition name = .ok d ∧ (key, text) ∈ d.properties.entries

namespace Placeholder

theorem exists_of_mem_right {α β : Type} {R : α → β → Prop} {early : List α} {late : List β}
    (h : List.Forall₂ R early late) {b : β} (hb : b ∈ late) : ∃ a ∈ early, R a b := by
  induction h with
  | nil => cases hb
  | cons hfirst _ ih =>
      rcases List.mem_cons.1 hb with rfl | hb
      · exact ⟨_, List.mem_cons_self, hfirst⟩
      · rcases ih hb with ⟨a, ha, hab⟩
        exact ⟨a, List.mem_cons_of_mem _ ha, hab⟩

-- Every property was there before, with the text that it is resolved from.
theorem Resolution.property {settings : Settings} {s t : State H} (hs : s.container.InStep)
    (h : Resolution settings s.container.names s t) {name key text : String}
    (hproperty : t.container.HasProperty name key text) :
    ∃ text', s.container.HasProperty name key text' ∧ resolve settings text' = .ok text := by
  rcases hproperty with ⟨d', hd', hmem⟩
  have hname : name ∈ s.container.names := by
    by_contra hname
    rw [h.kept name hname] at hd'
    exact hname (hs.mem_names_of_ok hd')
  rcases h.resolved name hname with ⟨d, d'', hd, hd'', properties, rfl, hentries⟩
  cases hd'.symm.trans hd''
  rcases exists_of_mem_right hentries hmem with ⟨⟨key', text'⟩, hmem', hkey, hresolve⟩
  dsimp only at hkey hresolve
  rw [hkey]
  exact ⟨text', ⟨d, hd, hmem'⟩, hresolve⟩

/-- The resolver leaves properties without an opening alone. -/
theorem customizeDefinitions_again {E : Engine H} {shown : Facade} {s : State H}
    (hs : s.container.InStep) (h : ∀ name key text, s.container.HasProperty name key text →
      hasOpening text.toList = false) :
    customizeDefinitions.interpret (E.answer shown) s = some (.ok (), s) := by
  rw [interpret_customizeDefinitions]
  refine customizeEach_unopened _ fun name hname => ?_
  rcases hs.exists_of_mem_names hname with ⟨d, hd⟩
  have hd := Container.definition_of_some hd
  exact ⟨d, hd, fun entry hentry => h name entry.1 entry.2 ⟨d, hd, hentry⟩⟩

/-- Resolving twice is resolving once, except for seams. What a text is resolved to is put together
    of the pieces of the text. It has an opening exactly when pieces meet in one, and otherwise it
    is resolved to itself.

    So when the resolver of placeholders succeeds, each property is what an earlier text is resolved
    to, and it has an opening exactly when pieces of that text meet in one. If those of no text do,
    no property has an opening, and the resolver succeeds again and changes nothing. -/
theorem resolution_settles :
    (∀ settings text result, resolve settings text = .ok result →
      (∃ parts, piecesOf settings [] text = .ok parts ∧ String.ofList parts.flatten = result) ∧
      (hasOpening result.toList = true ↔ Seamed settings text) ∧
      (¬Seamed settings text → resolve settings result = .ok result)) ∧
    ∀ {H : Host} (behaviour : Behaviour H) (facade shown : Facade) (depth : Nat) (s t : State H),
      s.container.InStep →
      (Engine.ofDepth behaviour facade depth).run shown customizeDefinitions s
        = some (.ok (), t) →
      (∀ name key text, t.container.HasProperty name key text →
        ∃ text', s.container.HasProperty name key text' ∧ resolve s.settings text' = .ok text ∧
          (hasOpening text.toList = true ↔ Seamed s.settings text')) ∧
      ((∀ name key text, s.container.HasProperty name key text → ¬Seamed s.settings text) →
        (∀ name key text, t.container.HasProperty name key text →
          hasOpening text.toList = false) ∧
        (Engine.ofDepth behaviour facade depth).run shown customizeDefinitions t
          = some (.ok (), t)) := by
  refine ⟨fun settings text result h => ⟨resolve_eq_ok_iff.1 h, hasOpening_resolved_iff h,
    fun hseam => ?_⟩, ?_⟩
  · refine resolve_unopened settings (Bool.eq_false_iff.2 fun hopening => hseam ?_)
    exact (hasOpening_resolved_iff h).1 hopening
  · intro H behaviour facade shown depth s t hs hrun
    have ht : t.container.InStep :=
      (Engine.lawful_ofDepth behaviour facade depth shown _ _ _ _ hrun).inStep hs
    cases depth with
    | zero => cases hrun
    | succ depth =>
        have hresolution : Resolution s.settings s.container.names s t :=
          customizeEach_resolves hs.names_nodup hrun
        refine ⟨fun name key text hproperty => ?_, fun hseams => ?_⟩
        · rcases hresolution.property hs hproperty with ⟨text', hproperty', hresolve⟩
          exact ⟨text', hproperty', hresolve, hasOpening_resolved_iff hresolve⟩
        · have hclean : ∀ name key text, t.container.HasProperty name key text →
              hasOpening text.toList = false := by
            intro name key text hproperty
            rcases hresolution.property hs hproperty with ⟨text', hproperty', hresolve⟩
            refine Bool.eq_false_iff.2 fun hopening => hseams name key text' hproperty' ?_
            exact (hasOpening_resolved_iff hresolve).1 hopening
          exact ⟨hclean, customizeDefinitions_again ht hclean⟩

end Placeholder

namespace Scenarios

open Placeholder

def resolvable (label : String) : Definition Bool where
  name := "resolvable"
  typeName := "resolvable"
  properties := .ofList [("label", label)]
  maker := .hosted false

theorem inStep_resolvable (label : String) : (stateOf [resolvable label]).container.InStep :=
  (stateOf_consistent (by simp [resolvable])).toInStep

-- There is no other definition.
theorem eq_resolvable {label name : String} {d : Definition Bool}
    (h : (stateOf [resolvable label]).container.definition name = .ok d) :
    d = resolvable label := by
  have hname : name = "resolvable" :=
    List.mem_singleton.1 ((inStep_resolvable label).mem_names_of_ok h)
  subst hname
  cases h
  rfl

def defaultedKey : Template :=
  .placeholder (.literal ['h', 'u', 'e', ':', 'r', 'e', 'd'] .empty) .empty

theorem resolve_defaulted : resolve .empty "$\x7bhue:red\x7d" = .ok "red" := by
  have hwf : defaultedKey.WellFormed false := by
    simp only [defaultedKey, Template.WellFormed]
    decide
  rw [resolve_of_render .empty hwf
      (show String.ofList defaultedKey.render = "$\x7bhue:red\x7d" from rfl),
    defaultedKey, pieces_placeholder]
  simp only [pieces]
  rfl

theorem label_settled :
    resolve .empty "red" = .ok "red" ∧
    ∃ t, (Engine.ofDepth behaviour .direct 1).run .direct customizeDefinitions
        (stateOf [resolvable "$\x7bhue:red\x7d"]) = some (.ok (), t) ∧
      t.container.HasProperty "resolvable" "label" "red" ∧
      (Engine.ofDepth behaviour .direct 1).run .direct customizeDefinitions t
        = some (.ok (), t) := by
  have hseam : ¬Seamed .empty "$\x7bhue:red\x7d" := fun hseam =>
    absurd ((hasOpening_resolved_iff resolve_defaulted).2 hseam) (by decide)
  have hchanges : changes .empty "resolvable" (resolvable "$\x7bhue:red\x7d").properties.entries
      = .ok [("label", "red")] := by
    change changes .empty "resolvable" [("label", "$\x7bhue:red\x7d")] = _
    rw [changes, if_pos (by decide), resolve_defaulted]
    rfl
  have hrun : (Engine.ofDepth behaviour .direct 1).run .direct customizeDefinitions
      (stateOf [resolvable "$\x7bhue:red\x7d"])
        = some (.ok (), (stateOf [resolvable "$\x7bhue:red\x7d"]).customized "resolvable"
            (resolvable "$\x7bhue:red\x7d") [("label", "red")]) := by
    change (customizeEach .empty ["resolvable"]).interpret
      ((Engine.ofDepth behaviour .direct 0).answer .direct) _ = _
    rw [interpret_customizeEach_cons]
    change (match
        changes .empty "resolvable" (resolvable "$\x7bhue:red\x7d").properties.entries with
      | .error failure => _
      | .ok changes => _) = _
    rw [hchanges]
    rfl
  refine ⟨(resolution_settles.1 _ _ _ resolve_defaulted).2.2 hseam, _, hrun,
    ⟨_, rfl, List.mem_singleton.2 rfl⟩, ?_⟩
  refine ((resolution_settles.2 behaviour .direct .direct 1 _ _ (inStep_resolvable _) hrun).2 ?_).2
  rintro name key text ⟨d, hd, hmem⟩
  rw [eq_resolvable hd] at hmem
  cases List.mem_singleton.1 hmem
  exact hseam

def splitOpening : Template :=
  .placeholder (.literal ['a', ':', '$'] .empty) (.literal ['\x7b', 'b', '\x7d'] .empty)

def unset : Template := .placeholder (.literal ['b'] .empty) .empty

/-- The default ends in a dollar sign, and the literal behind it begins with a brace. The opening
    that they form is left, and resolving once more fails. -/
theorem label_reopened :
    resolve .empty "$\x7ba:$\x7d\x7bb\x7d" = .ok "$\x7bb\x7d" ∧
    hasOpening "$\x7bb\x7d".toList = true ∧
    resolve .empty "$\x7bb\x7d" = .error (.unresolved "b") ∧
    ¬∀ settings text result, resolve settings text = .ok result →
      hasOpening result.toList = false ∧ resolve settings result = .ok result := by
  have hsplit : splitOpening.WellFormed false := by
    simp only [splitOpening, Template.WellFormed]
    decide
  have hunset : unset.WellFormed false := by
    simp only [unset, Template.WellFormed]
    decide
  have hresolve : resolve .empty "$\x7ba:$\x7d\x7bb\x7d" = .ok "$\x7bb\x7d" := by
    rw [resolve_of_render .empty hsplit
        (show String.ofList splitOpening.render = "$\x7ba:$\x7d\x7bb\x7d" from rfl),
      splitOpening, pieces_placeholder]
    simp only [pieces]
    rfl
  have hagain : resolve .empty "$\x7bb\x7d" = .error (.unresolved "b") := by
    rw [resolve_of_render .empty hunset
        (show String.ofList unset.render = "$\x7bb\x7d" from rfl),
      unset, pieces_placeholder]
    simp only [pieces]
    rfl
  refine ⟨hresolve, by decide, hagain, fun h => ?_⟩
  exact absurd (h _ _ _ hresolve).1 (by decide)

end Scenarios

end ObjectBootstrap
