import ObjectBootstrap.Mutation
import ObjectBootstrap.Placeholder.Resolve

/-!
# Factory customization

Customizers look at the definitions once these have reached their final shape. The mutators are
called as customizers at the end of the registry mutation phase. The other registered customizers
are called in a phase of their own, once and tier by tier: the highest tier is built while the names
are divided among the tiers, and each lower tier only after the tier above was called. A customizer
that is registered during this phase is not called.

The resolver of placeholders is a customizer. It replaces the properties of one definition after the
other, those of a definition all together or not at all.

## Main definitions

* `Placeholder.customizeDefinitions`: the program of the resolver of placeholders.
* `Engine.mutationPhase`: registry mutation with the customization by the same hooks.
* `Engine.customizationPhase`: customization by the others.
-/

namespace ObjectBootstrap

namespace Placeholder

variable {H : Host}

/-- The properties of a definition that placeholders change, with their new texts. -/
def changes (settings : Settings) (name : String) :
    List (String × String) → Except Failure (List (String × String))
  | [] => .ok []
  | (key, text) :: rest =>
    if hasOpening text.toList then
      match resolve settings text with
      | .error e =>
        .error (.noted ("property '" ++ key ++ "' of '" ++ name ++ "'") (.plain e.message))
      | .ok resolved =>
        (changes settings name rest).map fun more =>
          if resolved = text then more else (key, resolved) :: more
    else changes settings name rest

/-- Replaces the placeholders in the properties of some definitions. -/
def customizeEach (settings : Settings) : List String → Prog H (Except Failure Unit)
  | [] => return .ok ()
  | name :: rest => do
    match ← Prog.request (.definition name) with
    | .error e => return .error (.registry e)
    | .ok d =>
      match changes settings name d.properties.entries with
      | .error failure => return .error failure
      | .ok [] => customizeEach settings rest
      | .ok changes =>
        let edit (d : Definition H.Factory) : Prog H (Unit × Definition H.Factory) :=
          return ((), { d with properties := d.properties.setAll changes })
        match ← Prog.update name edit .done with
        | .error e => return .error (.registry e)
        | .ok () => customizeEach settings rest

/-- Replaces the placeholders in the properties of all definitions, in registration order. -/
def customizeDefinitions : Prog H (Except Failure Unit) := do
  let settings ← Prog.request .settings
  let names ← Prog.request .definitionNames
  customizeEach settings names

end Placeholder

namespace Engine

variable {H : Host}

/-- Calls a customizer. -/
def customize (E : Engine H) (facade : Facade) (name : String) (hook : Object H.Content) :
    Attempt H Unit := do
  let result ← Attempt.step <| enter (.customize name hook) <|
    match hook.substance with
    | .hosted content => E.run facade (E.behaviour.customize content)
    | .placeholderConfigurer => E.run facade Placeholder.customizeDefinitions
  match result with
  | .ok () => return
  | .error source => throw (.hookExecution name .factoryCustomization source)

/-- Calls customizers in turn. -/
def customizeEach (E : Engine H) (facade : Facade) :
    List (String × Object H.Content) → Attempt H Unit
  | [] => return
  | (name, hook) :: rest => do
    E.customize facade name hook
    E.customizeEach facade rest

/-- Registry mutation, then customization by the mutators and the external customizers. -/
def mutationPhase (E : Engine H) (facade : Facade) (config : Config)
    (externals : List (ExternalHook H.Content)) : Attempt H Mutation := do
  let progress ← E.mutateAll facade config externals
  let customizers := (externals.filter fun e => !e.mutates).map fun e => (e.name, e.hook)
  let hooks := progress.mutators ++ customizers
  E.customizeEach facade hooks
  return {
    processed := progress.processed
    rounds := progress.rounds
    mutationOrder := progress.mutationOrder
    customizationOrder := hooks.map Prod.fst
  }

/-- A name with the placement it was sorted by. -/
abbrev Candidate := String × Placement

/-- The candidates of the three tiers. Those of the highest tier are built already. -/
structure Division (α : Type) where
  highest : List (Ranked α) := []
  ordered : List Candidate := []
  plain : List Candidate := []

/-- Divides names among the tiers and builds those of the highest tier on the way. -/
def divide {α : Type} (facade : Facade) (build : Candidate → Attempt H (Ranked α)) :
    List String → Attempt H (Division α)
  | [] => return {}
  | name :: rest => do
    let k ← Attempt.step Run.container
    let placement := facade.classify k name
    match placement.tier with
    | .highest =>
      let hook ← build (name, placement)
      let division ← divide facade build rest
      return { division with highest := hook :: division.highest }
    | .ordered =>
      let division ← divide facade build rest
      return { division with ordered := (name, placement) :: division.ordered }
    | .plain =>
      let division ← divide facade build rest
      return { division with plain := (name, placement) :: division.plain }

/-- Builds candidates in turn. -/
def buildEach {α : Type} (build : Candidate → Attempt H (Ranked α)) :
    List Candidate → Attempt H (List (Ranked α))
  | [] => return []
  | candidate :: rest => do
    let hook ← build candidate
    let hooks ← buildEach build rest
    return hook :: hooks

/-- Sorts a tier of customizers and calls them; the answer tells the order. -/
def customizeTier (E : Engine H) (facade : Facade) (tier : List (Ranked (Object H.Content))) :
    Attempt H (List String) := do
  let hooks := (sortRanked tier).map fun ranked => (ranked.name, ranked.hook)
  E.customizeEach facade hooks
  return hooks.map Prod.fst

/-- Builds a customizer. -/
def buildCustomizer (E : Engine H) (facade : Facade) (candidate : Candidate) :
    Attempt H (Ranked (Object H.Content)) := do
  let hook ← E.buildHook facade .factoryCustomization .customizesFactory .customizer candidate.1
  return ⟨candidate.1, candidate.2, hook⟩

/-- Customization by the registered customizers that did not mutate; the answer tells the order. -/
def customizationPhase (E : Engine H) (facade : Facade) (config : Config)
    (processed : Processed) : Attempt H (List String) := do
  let names ← Attempt.step (Run.namesFor
    ⟨.customizesFactory, config.includeNonSingletons, config.allowEagerInit⟩)
  let build := E.buildCustomizer facade
  let division ← divide facade build (names.filter fun name => !processed.contains name)
  let highest ← E.customizeTier facade division.highest
  let ordered ← E.customizeTier facade (← buildEach build division.ordered)
  let plain ← E.customizeTier facade (← buildEach build division.plain)
  Attempt.step (Run.modifyContainer Container.invalidate)
  return highest ++ ordered ++ plain

end Engine

end ObjectBootstrap
