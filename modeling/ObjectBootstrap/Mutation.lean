import ObjectBootstrap.Build

/-!
# Registry mutation

Mutators add and edit definitions before any ordinary object is built. External mutators are called
first, as supplied. Registered ones are looked for in passes, since each of them may register more:
a pass for the highest tier, one for all ordered tiers, and then passes for the rest until one finds
nothing. A pass builds what it takes, sorts it, and calls it. When nothing is left, every mutator is
called once more to customize the factory, in the order in which they mutated, and then the
external customizers.

A mutator that cannot be built because its own factory failed is reported against this phase.

## Main definitions

* `Engine.discover`: one pass.
* `Engine.mutateAll`: the passes, up to the one that finds nothing.
* `Engine.mutationPhase`: the whole phase.
-/

namespace ObjectBootstrap

/-- Reports a hook whose own factory failed against the phase that needed it. Failures of what the
    factory asked for keep their own name and phase. -/
def Error.during (name : String) (phase : Phase) : Error → Error
  | .hookExecution hook .instantiation source =>
    .hookExecution hook (if hook = name then phase else .instantiation) source
  | e => e

/-- How far the search for registry mutators has come. -/
structure Progress (H : Host) where
  processed : Processed := {}
  rounds : List Round := []
  mutationOrder : List String := []
  /-- The mutators that were called, in that order. -/
  mutators : List (String × Object H.Content) := []

namespace Engine

variable {H : Host}

/-- Builds a hook for a phase and views it as what the phase needs. -/
def buildHook (E : Engine H) (facade : Facade) (phase : Phase) (c : Capability) (kind : FacetKind)
    (name : String) : Attempt H (Object H.Content) := do
  match ← Attempt.step (E.buildFacet facade name c).run with
  | .error e => throw (e.during name phase)
  | .ok facet =>
    if facet.kind = kind then return facet.object
    else throw (.definition name ("registry returned the wrong facet for " ++ c.label))

/-- Calls a mutator. -/
def mutate (E : Engine H) (facade : Facade) (name : String) (hook : Object H.Content) :
    Attempt H Unit := do
  let result ← Attempt.step <| enter (.mutate name hook) <|
    match hook.substance with
    | .hosted content => E.run facade (E.behaviour.mutate content)
    | .placeholderConfigurer => return .ok ()
  match result with
  | .ok () => return
  | .error source => throw (.hookExecution name .registryMutation source)

/-- Builds the mutators that a pass takes among some names, in that order. -/
def take (E : Engine H) (facade : Facade) (pass : DiscoveryPass) :
    List String → Processed → Attempt H (List (Ranked (Object H.Content)) × Processed)
  | [], processed => return ([], processed)
  | name :: rest, processed => do
    if processed.contains name then E.take facade pass rest processed
    else
      let k ← Attempt.step Run.container
      let placement := facade.classify k name
      if pass.admits placement.tier then
        let hook ← E.buildHook facade .registryMutation .mutatesRegistry .mutator name
        let (batch, processed) ← E.take facade pass rest (processed.insert name).2
        return (⟨name, placement, hook⟩ :: batch, processed)
      else E.take facade pass rest processed

/-- Calls mutators in turn. -/
def mutateEach (E : Engine H) (facade : Facade) :
    List (String × Object H.Content) → Attempt H Unit
  | [] => return
  | (name, hook) :: rest => do
    E.mutate facade name hook
    E.mutateEach facade rest

/-- One pass: takes what is left and admitted, sorts it, and calls it. -/
def discover (E : Engine H) (facade : Facade) (config : Config) (pass : DiscoveryPass)
    (progress : Progress H) : Attempt H (Progress H) := do
  let names ← Attempt.step (Run.namesFor
    ⟨.mutatesRegistry, config.includeNonSingletons, config.allowEagerInit⟩)
  let (batch, processed) ← E.take facade pass names progress.processed
  let hooks := (sortRanked batch).map fun ranked => (ranked.name, ranked.hook)
  E.mutateEach facade hooks
  let invoked := hooks.map Prod.fst
  return {
    processed
    rounds := progress.rounds ++ [⟨pass, invoked⟩]
    mutationOrder := progress.mutationOrder ++ invoked
    mutators := progress.mutators ++ hooks
  }

/-- Repeats passes until one finds nothing. The first number bounds them, the second one counts
    them. -/
def reiterate (E : Engine H) (facade : Facade) (config : Config) :
    Nat → Nat → Progress H → Attempt H (Progress H)
  | 0, _, _ => Attempt.step Run.exhausted
  | limit + 1, number, progress => do
    let next ← E.discover facade config (.reiteration number) progress
    if next.mutators.length = progress.mutators.length then return next
    else E.reiterate facade config limit (number + 1) next

/-- Calls the external mutators and then all registered ones. -/
def mutateAll (E : Engine H) (facade : Facade) (config : Config)
    (externals : List (ExternalHook H.Content)) : Attempt H (Progress H) := do
  let mutators := (externals.filter ExternalHook.mutates).map fun e => (e.name, e.hook)
  E.mutateEach facade mutators
  let progress ← E.discover facade config .highest
    { mutationOrder := mutators.map Prod.fst, mutators }
  let progress ← E.discover facade config .ordered progress
  E.reiterate facade config E.limit 1 progress

end Engine

end ObjectBootstrap
