import ObjectBootstrap.Interpreter
import ObjectBootstrap.Script.Behaviour

/-!
# Sessions

Steps that drive a registry of scripted objects from outside. Each step is an action, and its answer
comes with what was journalled meanwhile and with a view of the registry after it. A session acts on
a container of its own, or on that of an application that was brought up before.

## Main definitions

* `StepAnswer`: what is told about a step.
* `runSteps`: takes steps one after the other.
* `runSession`: a session on a new container.
* `runApplication`: brings an application up and then takes steps.
-/

namespace ObjectBootstrap

namespace Script

/-- A view of a registry. -/
structure Snapshot where
  names : List String
  /-- The names whose singletons are built. -/
  built : List String
  hooks : List String

/-- What is told about a step. -/
structure StepAnswer where
  outcome : Except Failure Outcome
  entries : List Entry
  snapshot : Snapshot

/-- Takes the journal away, earliest entry first. -/
def drain : Prog host (List Entry) := do
  let desk : Desk ← Prog.request .recall
  Prog.request (.remember { desk with entries := [] })
  return desk.entries.reverse

/-- Those of some names whose singletons are built. -/
def builtAmong : List String → Prog host (List String)
  | [] => return []
  | name :: rest => do
    let isBuilt ← Prog.request (.containsSingleton name)
    let more ← builtAmong rest
    return if isBuilt then name :: more else more

/-- Views the registry. -/
def snapshot : Prog host Snapshot := do
  let names ← Prog.request .definitionNames
  let built ← builtAmong names
  let hooks ← Prog.request .installedNames
  return { names, built, hooks }

/-- Takes steps one after the other. A step that fails does not keep the others from being taken. -/
def runSteps : List Action → Prog host (List StepAnswer)
  | [] => return []
  | action :: rest => do
    let outcome ← action.perform.run
    let entries ← drain
    let snapshot ← snapshot
    let answers ← runSteps rest
    return { outcome, entries, snapshot } :: answers

/-- What a session starts from. -/
structure SessionScript where
  library : List (String × Spec Action) := []
  specs : List (Spec Action) := []
  overriding : Bool := false
  facade : Facade := Facade.direct
  steps : List Action := []

/-- The definition that a description stands for once it is filled in. -/
def definitionOf (library : List (String × Spec Action)) (spec : Spec Action) :
    Definition (Spec Action) :=
  (spec.resolve library).definition

/-- A container with the definitions that descriptions stand for. -/
def container (library : List (String × Spec Action)) (overriding : Bool)
    (specs : List (Spec Action)) : Except Error (Container host) :=
  Container.registerAll { allowOverriding := overriding } (specs.map (definitionOf library))

/-- Runs a session on a new container. Without an answer the depth was too small. -/
def runSession (depth : Nat) (script : SessionScript) :
    Except Error (Option (List StepAnswer)) :=
  (container script.library script.overriding script.specs).map fun container =>
    let engine := Engine.ofDepth behaviour script.facade depth
    let state : State host := { container, store := { library := script.library } }
    ((engine.run script.facade (runSteps script.steps)).run state).map Prod.fst

/-- What an application starts from. -/
structure ApplicationScript where
  library : List (String × Spec Action) := []
  /-- Whether the container that is handed over allows overriding, and what it holds. -/
  container : Option (Bool × List (Spec Action)) := none
  config : Except Error Config := .ok Config.standard
  specs : List (Spec Action) := []
  modules : List (List (Spec Action)) := []
  externals : List (Spec Action) := []
  placeholders : Option (List (String × String)) := none
  steps : List Action := []
  /-- Names to look up in the end. -/
  lookups : List String := []
  /-- Names of events to publish in the end. -/
  events : List String := []
  stamp : Stamp

/-- What is told about an application that was brought up. -/
structure Aftermath where
  report : Report
  entries : List Entry
  steps : List StepAnswer
  found : List (Except Failure (Object Content))
  told : List Nat
  premature : List String
  finalEntries : List Entry

/-- A module that registers definitions in turn, up to the first that is refused. -/
def registerModule (library : List (String × Spec Action)) :
    List (Spec Action) → Prog host (Except Error Unit)
  | [] => return .ok ()
  | spec :: rest => do
    match ← Prog.request (.register (definitionOf library spec)) with
    | .error e => return .error e
    | .ok () => registerModule library rest

/-- Looks names up one after the other. -/
def lookUpEach : List String → Prog host (List (Except Failure (Object Content)))
  | [] => return []
  | name :: rest => do
    let found ← (resolve name .scripted).run
    let more ← lookUpEach rest
    return found :: more

/-- Publishes events one after the other. -/
def publishEach : List String → Prog host (List Nat)
  | [] => return []
  | name :: rest => do
    let told ← Prog.request (.publish ⟨name, .null⟩)
    let more ← publishEach rest
    return told :: more

/-- Opens the session, for which the interceptors and listeners have been waiting. -/
def openSession : Prog host Unit :=
  Prog.modifyStore fun (desk : Desk) => { desk with isOpen := true }

/-- What happens once an application is up. -/
def runAftermath (script : ApplicationScript) (report : Report) (sentinel : Nat) :
    Prog host Aftermath := do
  openSession
  let entries ← drain
  let steps ← runSteps script.steps
  let found ← lookUpEach script.lookups
  let told ← publishEach script.events
  let watched ← Prog.request (.sentinel sentinel)
  let finalEntries ← drain
  return { report, entries, steps, found, told
           premature := (watched.map Sentinel.premature).getD [], finalEntries }

/-- Brings an application up and drives it; a failed bring-up leaves its error and the journal. -/
def bringUpAndDrive (engine : Engine host) (script : ApplicationScript) (config : Config) :
    Run host (Except (Error × List Entry) Aftermath) := do
  let externals ← engine.run Facade.direct (createExternals script.externals).run
  let setup : Setup host :=
    { config
      placeholders := script.placeholders.map Settings.ofList
      definitions := script.specs.map (definitionOf script.library)
      modules := script.modules.map (registerModule script.library)
      externals := externals.toOption.getD []
      stamp := script.stamp }
  match ← (engine.bringUp setup).run with
  | .error e =>
    let entries ← engine.run Facade.direct drain
    return .error (e, entries)
  | .ok (report, sentinel) =>
    let aftermath ← engine.run Facade.direct (runAftermath script report sentinel)
    return .ok aftermath

/-- Runs an application script. The outer error is one of the container that is handed over. Without
    an answer the depth was too small. -/
def runApplication (depth : Nat) (script : ApplicationScript) :
    Except Error (Option (Except (Error × List Entry) Aftermath)) := do
  let container ← match script.container with
    | some (overriding, specs) => container script.library overriding specs
    | none => .ok {}
  let engine := Engine.ofDepth behaviour Facade.direct depth
  let state : State host := { container, store := { isOpen := false, library := script.library } }
  match script.config with
  | .error e => return some (.error (e, []))
  | .ok config => return ((bringUpAndDrive engine script config).run state).map Prod.fst

end Script

end ObjectBootstrap
