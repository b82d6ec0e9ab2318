import ObjectBootstrap.Proofs.Customization.Placeholders

/-!
# Definitions resolved as a whole

The resolver of placeholders writes a definition back when all of its properties are resolved. A
property that cannot be resolved stops it in front of that. The definitions up to there are resolved
then, and this one and those behind it are as they were, along with the properties of this one that
could have been resolved.

A definition either has changes that resolve its properties, or one of them is the first that fails
(`changes_cases`). In the first case the resolver goes on behind the definition, and in the second
one it is over (`customizeEach_stops`).

## Main definitions

* `Definition.FailsAt`: The first property of a definition that cannot be resolved.
* `OnlyDefinitions`: The names are the same, and nothing but their definitions differs.
* `Placeholder.Passes`: How far the resolver comes, and what it answers.

## Theorems

* `changes_cases`: The changes of a definition, or why there are none.
* `customizeEach_stops`: The resolver passes some definitions and comes to an end.
* `customizeDefinitions_whole`: It resolves all definitions, or those in front of the first one that
  it cannot resolve.
-/

namespace ObjectBootstrap

variable {H : Host}

/-- The property under a key is the first one that cannot be resolved. -/
def Definition.FailsAt {F : Type} (settings : Settings) (d : Definition F) (key : String)
    (e : PlaceholderError) : Prop :=
  ∃ early text late, d.properties.entries = early ++ (key, text) :: late ∧
    (∀ entry ∈ early, ∃ text, Placeholder.resolve settings entry.2 = .ok text) ∧
    Placeholder.resolve settings text = .error e

/-- The names are the same, and nothing but their definitions differs. -/
structure OnlyDefinitions (s t : State H) : Prop where
  names_eq : t.container.names = s.container.names
  singletons_eq : t.container.singletons = s.container.singletons
  targets_eq : t.container.targets = s.container.targets
  inCreation_eq : t.container.inCreation = s.container.inCreation
  chain_eq : t.container.chain = s.container.chain
  allowOverriding_eq : t.container.allowOverriding = s.container.allowOverriding
  listeners_eq : t.listeners = s.listeners
  sentinels_eq : t.sentinels = s.sentinels
  settings_eq : t.settings = s.settings
  store_eq : t.store = s.store
  created_eq : t.created = s.created

namespace OnlyDefinitions

variable {s t u : State H}

theorem refl (s : State H) : OnlyDefinitions s s := by
  constructor <;> rfl

theorem trans (h : OnlyDefinitions s t) (h' : OnlyDefinitions t u) : OnlyDefinitions s u where
  names_eq := h'.names_eq.trans h.names_eq
  singletons_eq := h'.singletons_eq.trans h.singletons_eq
  targets_eq := h'.targets_eq.trans h.targets_eq
  inCreation_eq := h'.inCreation_eq.trans h.inCreation_eq
  chain_eq := h'.chain_eq.trans h.chain_eq
  allowOverriding_eq := h'.allowOverriding_eq.trans h.allowOverriding_eq
  listeners_eq := h'.listeners_eq.trans h.listeners_eq
  sentinels_eq := h'.sentinels_eq.trans h.sentinels_eq
  settings_eq := h'.settings_eq.trans h.settings_eq
  store_eq := h'.store_eq.trans h.store_eq
  created_eq := h'.created_eq.trans h.created_eq

/-- Resolving the properties of a definition changes nothing else. -/
theorem customized (s : State H) (name : String) (d : Definition H.Factory)
    (changes : List (String × String)) : OnlyDefinitions s (s.customized name d changes) := by
  cases changes with
  | nil => exact refl s
  | cons change changes => constructor <;> rfl

end OnlyDefinitions

namespace Placeholder

open Properties

-- A text with an opening is among the changes unless it is resolved to itself.
theorem changes_cons_of_ok {settings : Settings} {text resolved : String} (name key : String)
    (rest : List (String × String)) (h : resolve settings text = .ok resolved) :
    changes settings name ((key, text) :: rest)
      = (changes settings name rest).map fun more =>
          if resolved = text then more else (key, resolved) :: more := by
  rw [changes]
  split
  · rw [h]
  · next hopening =>
      rw [resolve_unopened settings (Bool.eq_false_iff.2 hopening)] at h
      cases h
      simp only [if_true]
      cases changes settings name rest <;> rfl

/-- The changes of properties, or the first property that cannot be resolved. -/
theorem changes_cases (settings : Settings) (name : String) (entries : List (String × String)) :
    (∃ cs, changes settings name entries = .ok cs) ∨
    ∃ early key text late e, entries = early ++ (key, text) :: late ∧
      (∀ entry ∈ early, ∃ text, resolve settings entry.2 = .ok text) ∧
      resolve settings text = .error e ∧
      changes settings name entries
        = .error (.noted ("property '" ++ key ++ "' of '" ++ name ++ "'") (.plain e.message)) := by
  induction entries with
  | nil => exact Or.inl ⟨[], rfl⟩
  | cons entry rest ih =>
      rcases entry with ⟨key, text⟩
      cases hresolve : resolve settings text with
      | error e =>
          refine Or.inr ⟨[], key, text, rest, e, rfl, List.forall_mem_nil _, hresolve, ?_⟩
          -- A text without an opening is resolved to itself.
          have hopening : hasOpening text.toList = true := by
            by_contra hopening
            rw [resolve_unopened settings (Bool.eq_false_iff.2 hopening)] at hresolve
            cases hresolve
          rw [changes, if_pos hopening, hresolve]
      | ok resolved =>
          rw [changes_cons_of_ok name key rest hresolve]
          rcases ih with ⟨cs, hcs⟩ | ⟨early, key', text', late, e, rfl, hearly, herror, hcs⟩
          · rw [hcs]
            exact Or.inl ⟨_, rfl⟩
          · rw [hcs]
            exact Or.inr ⟨(key, text) :: early, key', text', late, e, rfl,
              List.forall_mem_cons.2 ⟨⟨resolved, hresolve⟩, hearly⟩, herror, rfl⟩

/-- The resolver resolves the definitions of some names, and no others. Either these are all, or the
    definition of the next name has a property that cannot be resolved, and the answer tells which
    one. -/
def Passes (settings : Settings) (names : List String) (s t : State H) :
    Except Failure Unit → Prop
  | .ok () => Resolution settings names s t
  | .error failure => ∃ early name late d key e, names = early ++ name :: late ∧
      s.container.definition name = .ok d ∧ d.FailsAt settings key e ∧
      failure = .noted ("property '" ++ key ++ "' of '" ++ name ++ "'") (.plain e.message) ∧
      Resolution settings early s t

/-- A definition is resolved, and the resolver goes on behind it. -/
theorem Passes.cons {settings : Settings} {name : String} {names : List String} {s t : State H}
    {d : Definition H.Factory} {cs : List (String × String)} {result : Except Failure Unit}
    (hd : s.container.definition name = .ok d)
    (hchanges : changes settings name d.properties.entries = .ok cs) (hname : name ∉ names)
    (h : Passes settings names (s.customized name d cs) t result) :
    Passes settings (name :: names) s t result := by
  cases result with
  | ok => exact Resolution.cons hd hchanges hname h
  | error failure =>
      rcases h with ⟨early, stuck, late, d', key, e, rfl, hd', hfails, hfailure, hresolution⟩
      have hstuck : stuck ≠ name := fun heq =>
        hname (heq ▸ List.mem_append_right early List.mem_cons_self)
      rw [State.customized_definition hd, if_neg hstuck] at hd'
      exact ⟨name :: early, stuck, late, d', key, e, rfl, hd', hfails, hfailure,
        .cons hd hchanges (fun hmem => hname (List.mem_append_left _ hmem)) hresolution⟩

section Steps

variable {E : Engine H} {shown : Facade} {settings : Settings} {name : String} {rest : List String}
  {s : State H} {d : Definition H.Factory}

theorem interpret_customizeEach_of_ok {cs : List (String × String)}
    (hd : s.container.definition name = .ok d)
    (hcs : changes settings name d.properties.entries = .ok cs) :
    (customizeEach settings (name :: rest)).interpret (E.answer shown) s
      = (customizeEach settings rest).interpret (E.answer shown) (s.customized name d cs) := by
  rw [interpret_customizeEach_cons, hd]
  dsimp only
  rw [hcs]

theorem interpret_customizeEach_of_error {failure : Failure}
    (hd : s.container.definition name = .ok d)
    (hcs : changes settings name d.properties.entries = .error failure) :
    (customizeEach settings (name :: rest)).interpret (E.answer shown) s
      = some (.error failure, s) := by
  rw [interpret_customizeEach_cons, hd]
  dsimp only
  rw [hcs]

end Steps

/-- The resolver comes to an end behind the last name, or at the first definition that has a
    property that cannot be resolved. -/
theorem customizeEach_stops (E : Engine H) (shown : Facade) (settings : Settings)
    {names : List String} (hnodup : names.Nodup) :
    ∀ s : State H, (∀ name ∈ names, ∃ d, s.container.definition name = .ok d) →
      ∃ result t, (customizeEach settings names).interpret (E.answer shown) s = some (result, t) ∧
        OnlyDefinitions s t ∧ Passes settings names s t result := by
  induction names with
  | nil =>
      intro s _
      exact ⟨.ok (), s, rfl, .refl s, rfl, List.forall_mem_nil _, fun _ _ => rfl⟩
  | cons name rest ih =>
      intro s hnames
      rcases List.nodup_cons.1 hnodup with ⟨hname, hrest⟩
      rcases List.forall_mem_cons.1 hnames with ⟨⟨d, hd⟩, hothers⟩
      rcases changes_cases settings name d.properties.entries with
        ⟨cs, hcs⟩ | ⟨early, key, text, late, e, hentries, hearly, herror, hcs⟩
      · rw [interpret_customizeEach_of_ok hd hcs]
        have hothers' : ∀ other ∈ rest, ∃ d',
            (s.customized name d cs).container.definition other = .ok d' := by
          intro other hother
          rw [State.customized_definition hd, if_neg (ne_of_mem_of_not_mem hother hname)]
          exact hothers other hother
        rcases ih hrest (s.customized name d cs) hothers' with ⟨result, t, hrun, hlater, hpasses⟩
        exact ⟨result, t, hrun, (OnlyDefinitions.customized s name d cs).trans hlater,
          .cons hd hcs hname hpasses⟩
      · rw [interpret_customizeEach_of_error hd hcs]
        exact ⟨_, s, rfl, .refl s, [], name, rest, d, key, e, rfl, hd,
          ⟨early, text, late, hentries, hearly, herror⟩, rfl, rfl, List.forall_mem_nil _,
          fun _ _ => rfl⟩

/-- **Definitions resolved as a whole.** The resolver of placeholders comes to an end. If it
    succeeds, the properties of all definitions are what their texts are resolved to. Otherwise this
    is so up to the first definition in registration order that has a property that cannot be
    resolved, and the answer tells the first such property. That definition and those behind it are
    as they were. Nothing else has changed in either case, and a text without an opening is resolved
    to itself. -/
theorem customizeDefinitions_whole (behaviour : Behaviour H) (facade shown : Facade) (depth : Nat)
    (s : State H) (hs : s.container.InStep) :
    (∃ result t, (Engine.ofDepth behaviour facade (depth + 1)).run shown customizeDefinitions s
        = some (result, t) ∧ OnlyDefinitions s t ∧
      match result with
      | .ok () => ∀ name ∈ s.container.names, ∃ d d', s.container.definition name = .ok d ∧
          t.container.definition name = .ok d' ∧ d.ResolvedTo s.settings d'
      | .error failure => ∃ early name late d key e, s.container.names = early ++ name :: late ∧
          (∀ name ∈ early, ∃ d d', s.container.definition name = .ok d ∧
            t.container.definition name = .ok d' ∧ d.ResolvedTo s.settings d') ∧
          s.container.definition name = .ok d ∧ d.FailsAt s.settings key e ∧
          failure = .noted ("property '" ++ key ++ "' of '" ++ name ++ "'") (.plain e.message) ∧
          ∀ other ∈ name :: late, t.container.definition other = s.container.definition other) ∧
    ∀ text, hasOpening text.toList = false → resolve s.settings text = .ok text := by
  refine ⟨?_, fun text => resolve_unopened s.settings⟩
  rcases customizeEach_stops (Engine.ofDepth behaviour facade depth) shown s.settings hs.names_nodup
    s (fun _ hname => (hs.exists_of_mem_names hname).imp fun _ => Container.definition_of_some) with
    ⟨result, t, hrun, honly, hpasses⟩
  refine ⟨result, t, hrun, honly, ?_⟩
  cases result with
  | ok => exact hpasses.resolved
  | error failure =>
      rcases hpasses with ⟨early, name, late, d, key, e, hsplit, hd, hfails, hfailure, hresolution⟩
      refine ⟨early, name, late, d, key, e, hsplit, hresolution.resolved, hd, hfails, hfailure, ?_⟩
      -- No name is listed twice.
      have hdisjoint := (List.nodup_append.1 (hsplit ▸ hs.names_nodup)).2.2
      exact fun other hother => hresolution.kept other fun hmem =>
        hdisjoint other hmem other hother rfl

end Placeholder

namespace Scenarios

open Placeholder

def unresolvable : Definition Bool where
  name := "unresolvable"
  typeName := "unresolvable"
  properties := .ofList [("label", "$\x7bhue:red\x7d"), ("place", "$\x7bmissing\x7d")]
  maker := .hosted false

def resolvableFirst : State host := stateOf [resolvable "$\x7bhue:red\x7d", unresolvable]

theorem changes_resolvable :
    changes .empty "resolvable" (resolvable "$\x7bhue:red\x7d").properties.entries
    = .ok [("label", "red")] := by
  change changes .empty "resolvable" [("label", "$\x7bhue:red\x7d")] = _
  rw [changes, if_pos (by decide), resolve_defaulted]
  rfl

def missingKey : Template :=
  .placeholder (.literal ['m', 'i', 's', 's', 'i', 'n', 'g'] .empty) .empty

theorem resolve_missing : resolve .empty "$\x7bmissing\x7d" = .error (.unresolved "missing") := by
  have hwf : missingKey.WellFormed false := by
    simp only [missingKey, Template.WellFormed]
    decide
  rw [resolve_of_render .empty hwf
      (show String.ofList missingKey.render = "$\x7bmissing\x7d" from rfl),
    missingKey, pieces_placeholder]
  simp only [pieces]
  rfl

theorem changes_unresolvable : changes .empty "unresolvable" unresolvable.properties.entries
    = .error (.noted "property 'place' of 'unresolvable'"
        (.plain "could not resolve placeholder 'missing'")) := by
  change changes .empty "unresolvable"
    [("label", "$\x7bhue:red\x7d"), ("place", "$\x7bmissing\x7d")] = _
  rw [changes_cons_of_ok "unresolvable" "label" _ resolve_defaulted, changes, if_pos (by decide),
    resolve_missing]
  rfl

theorem run_resolvableFirst :
    (Engine.ofDepth behaviour .direct 1).run .direct customizeDefinitions resolvableFirst
    = some (.error (.noted "property 'place' of 'unresolvable'"
        (.plain "could not resolve placeholder 'missing'")),
      resolvableFirst.customized "resolvable"
        (resolvable "$\x7bhue:red\x7d") [("label", "red")]) := by
  change (customizeEach .empty ["resolvable", "unresolvable"]).interpret
    ((Engine.ofDepth behaviour .direct 0).answer .direct) resolvableFirst = _
  rw [interpret_customizeEach_of_ok rfl changes_resolvable]
  exact interpret_customizeEach_of_error rfl changes_unresolvable

/-- One property of the second definition could have been resolved, but the other one cannot. -/
theorem unresolvable_left :
    resolvableFirst.container.InStep ∧
    ∃ t, (Engine.ofDepth behaviour .direct 1).run .direct customizeDefinitions resolvableFirst
        = some (.error (.noted "property 'place' of 'unresolvable'"
            (.plain "could not resolve placeholder 'missing'")), t) ∧
      OnlyDefinitions resolvableFirst t ∧ t.container.HasProperty "resolvable" "label" "red" ∧
      t.container.definition "unresolvable"
        = resolvableFirst.container.definition "unresolvable" := by
  have hs : resolvableFirst.container.InStep := (stateOf_consistent (by decide)).toInStep
  refine ⟨hs, ?_⟩
  rcases (customizeDefinitions_whole behaviour .direct .direct 0 resolvableFirst hs).1 with
    ⟨result, t, hrun, honly, hwhole⟩
  cases run_resolvableFirst.symm.trans hrun
  rcases hwhole with ⟨early, name, late, d, key, e, hsplit, hearly, hd, hfails, hfailure, hkept⟩
  have hlast := congrArg List.getLast? hsplit
  rw [List.getLast?_append_cons] at hlast
  exact ⟨_, hrun, honly, ⟨_, rfl, List.mem_singleton.2 rfl⟩,
    hkept "unresolvable" (List.mem_of_getLast? hlast.symm)⟩

end Scenarios

end ObjectBootstrap
