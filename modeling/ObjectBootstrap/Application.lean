import ObjectBootstrap.Installation

/-!
# Bringing an application up

A bring-up registers what it is given, lets the registry be mutated, lets the factory be customized,
installs the interceptors, builds the singletons, and tells the listeners that it is done. The first
error ends it. What it did is summed up in a report. Identities and times come from outside: they
are part of the report and of nothing else.

## Main definitions

* `Setup`: what a bring-up is given.
* `Report`: what a bring-up did, and its JSON form.
* `Engine.bringUp`: the bring-up.
-/

namespace ObjectBootstrap

/-- The resolver of placeholders is registered as infrastructure, last in the highest tier. -/
def placeholderConfigurerDefinition {F : Type} : Definition F :=
  { name := "meshestra.placeholderConfigurer"
    typeName := "meshestra_bootstrap::config::placeholder::PlaceholderConfigurer"
    role := .infrastructure
    placement := ⟨.highest, some Int32.maxValue⟩
    capabilities := [.customizesFactory]
    maker := .placeholderConfigurer }

/-- Identities and times of one bring-up. -/
structure Stamp where
  runId : String
  contextId : String
  startedAt : String
  completedAt : String

/-- What a bring-up is given. The container it starts from is that of the state. -/
structure Setup (H : Host) where
  config : Config := Config.standard
  /-- Settings to resolve placeholders in definitions with. -/
  placeholders : Option Settings := none
  definitions : List (Definition H.Factory) := []
  /-- Programs that register the definitions of one feature each. -/
  modules : List (Prog H (Except Error Unit)) := []
  externals : List (ExternalHook H.Content) := []
  stamp : Stamp

/-- What a bring-up did. -/
structure Report where
  stamp : Stamp
  rounds : List Round
  mutationOrder : List String
  /-- The customizations of both phases. -/
  customizationOrder : List String
  hookChain : List String
  target : Nat
  /-- The objects that were built before the chain was complete. -/
  premature : List String
  preInstantiated : Nat
  listeners : List String

/-- The JSON form of a pass. -/
def DiscoveryPass.toJson : DiscoveryPass → Json
  | .reiteration number => .object [("reiteration", .ofNat number)]
  | .highest => .string "highest"
  | .ordered => .string "ordered"

/-- The JSON form of a round. -/
def Round.toJson (r : Round) : Json :=
  .object [("pass", r.pass.toJson), ("invoked", .ofTexts r.invoked)]

/-- The JSON form of a report. -/
def Report.toJson (r : Report) : Json :=
  .object [
    ("run_id", .string r.stamp.runId),
    ("context_id", .string r.stamp.contextId),
    ("started_at", .string r.stamp.startedAt),
    ("completed_at", .string r.stamp.completedAt),
    ("rounds", .array (r.rounds.map Round.toJson)),
    ("mutation_order", .ofTexts r.mutationOrder),
    ("customization_order", .ofTexts r.customizationOrder),
    ("hook_chain", .ofTexts r.hookChain),
    ("target_count", .ofNat r.target),
    ("premature_objects", .ofTexts r.premature),
    ("pre_instantiated", .ofNat r.preInstantiated),
    ("listeners", .ofTexts r.listeners)]

/-- The event that ends a bring-up. -/
def Stamp.refreshed (stamp : Stamp) : Event :=
  ⟨contextRefreshed,
    .object [("run_id", .string stamp.runId), ("context_id", .string stamp.contextId)]⟩

namespace Engine

variable {H : Host}

/-- Registers definitions in turn. -/
def registerEach : List (Definition H.Factory) → Attempt H Unit
  | [] => return
  | d :: rest => do
    Attempt.register d
    registerEach rest

/-- Runs modules in turn. -/
def runEach (E : Engine H) : List (Prog H (Except Error Unit)) → Attempt H Unit
  | [] => return
  | program :: rest => do
    Attempt.raise (E.run E.facade program)
    E.runEach rest

/-- Registers everything that a bring-up is given, the resolver of placeholders first. -/
def registerSetup (E : Engine H) (setup : Setup H) : Attempt H Unit := do
  if setup.config.allowDefinitionOverriding then
    Attempt.step (Run.modifyContainer fun k => { k with allowOverriding := true })
  if let some settings := setup.placeholders then
    modify fun s => { s with settings }
    Attempt.register placeholderConfigurerDefinition
  registerEach setup.definitions
  E.runEach setup.modules

/-- Brings an application up; the answer is the report and the number of the sentinel. -/
def bringUp (E : Engine H) (setup : Setup H) : Attempt H (Report × Nat) := do
  E.registerSetup setup
  let mutation ← E.mutationPhase E.facade setup.config setup.externals
  let customizationOrder ← E.customizationPhase E.facade setup.config mutation.processed
  let installation ← E.installationPhase E.facade setup.config
  let preInstantiated ←
    if setup.config.preInstantiateSingletons then E.preInstantiate else pure 0
  let _ ← Attempt.step (E.publish setup.stamp.refreshed)
  let s ← get
  let report := {
    stamp := setup.stamp
    rounds := mutation.rounds
    mutationOrder := mutation.mutationOrder
    customizationOrder := mutation.customizationOrder ++ customizationOrder
    hookChain := installation.chain
    target := installation.target
    premature := (s.sentinels[installation.sentinel]?.map Sentinel.premature).getD []
    preInstantiated
    listeners := s.listeners.names
  }
  return (report, installation.sentinel)

end Engine

end ObjectBootstrap
