import ObjectBootstrap.Application
import ObjectBootstrap.Definition.Description
import ObjectBootstrap.Script.Action

/-!
# Scripted objects

The embedding program whose hooks and factories run scripts. What its objects do is journalled. Most
deeds answer something; inside a hook an answer is journalled and the next action follows, and a
failure ends the list unless it is put up with.

Interceptors and listeners act on the session, which is closed while an application is still being
brought up: then the actions of a stage and of an event are left out, and the rest is done.

## Main definitions

* `Content`: what scripted objects hold.
* `Desk`: the journal and what else is kept between calls.
* `Deed.perform`, `runAll`: do a deed, and run a list of actions inside a hook.
* `behaviour`: the entry points of scripted objects.
-/

namespace ObjectBootstrap

namespace Script

/-- What an object holds. -/
inductive Content where
  | scripted (label : String) (number : Nat) (properties : Properties) (hooks : Hooks Action)
  | text (text : String)
  | int (value : Int)
  | plain
  | service (dependency : Object Content) (table : String)
  | wrapper (wrappedBy : String) (inner : Object Content)

/-- The kind of what an object holds. -/
def Content.kind : Content → Kind
  | scripted _ _ _ _ => .scripted
  | text _ => .text
  | int _ => .int
  | plain => .plain
  | service _ _ => .service
  | wrapper _ _ => .wrapper

/-- What a deed answers. -/
inductive Outcome where
  | nothing
  | flag (value : Bool)
  | count (value : Nat)
  | text (text : String)
  | names (names : List String)
  | placement (placement : Placement)
  | object (object : Object Content)
  | facet (kind : Option FacetKind)
  | definition (definition : Definition (Spec Action))
  | property (text : Option String)
  | hooks (names : List String)
  | size (definitions chain : List String)
  | walked (object : Object Content) (same : Bool)
  | mutation (mutation : Mutation)
  | processed (inserted found : List Bool) (processed : Processed)
  | order (names : List String)
  | installation (installation : Installation)
  | sentinel (sentinel : Option Sentinel)
  | detected (same : Bool) (listeners : List String)

/-- What is journalled. -/
inductive Entry where
  | line (text : String)
  /-- A deed inside a hook, and its answer. -/
  | did (word : String) (outcome : Outcome)
  /-- A failure that was put up with, and the deed it came from if it was one. -/
  | failed (word : Option String) (failure : Failure)
  | notified (listener : String) (event : Event)

/-- What is kept between calls. -/
structure Desk where
  /-- The journal, latest entry first. -/
  entries : List Entry := []
  /-- How many scripted objects were made. -/
  made : Nat := 0
  /-- Whether there is a session to act on. -/
  isOpen : Bool := true
  processed : Processed := {}
  /-- The sentinel of the last installation. -/
  sentinel : Option Nat := none
  /-- Descriptions that others are based on. -/
  library : List (String × Spec Action) := []

/-- The embedding program of scripted objects. -/
def host : Host := ⟨Content, Spec Action, Desk⟩

/-- Code of a scripted object that may fail. -/
abbrev Act := ExceptT Failure (Prog host)

/-- Makes a request. -/
def ask {α : Type} (r : Request host α) : Act α := ExceptT.lift (Prog.request r)

/-- Makes a request whose error is a failure. -/
def demand {α : Type} (r : Request host (Except Error α)) : Act α :=
  ExceptT.mk do
    match ← Prog.request r with
    | .ok answer => return .ok answer
    | .error e => return .error (.registry e)

/-- Passes an error of the registry on. -/
def pass {α : Type} : Except Error α → Act α
  | .ok value => pure value
  | .error e => throw (.registry e)

/-- Changes what is kept between calls. -/
def modifyDesk (f : Desk → Desk) : Act Unit := ExceptT.lift (Prog.modifyStore f)

/-- What is kept between calls. -/
def desk : Act Desk := ask .recall

/-- Journals an entry. -/
def journal (entry : Entry) : Act Unit :=
  modifyDesk fun desk => { desk with entries := entry :: desk.entries }

/-- Makes an object. -/
def create (content : Content) : Act (Object Content) :=
  ask (.create content.kind.typeName content)

/-- Counts one more scripted object; the answer is its number. -/
def nextNumber : Act Nat := do
  let number := (← desk).made + 1
  modifyDesk fun desk => { desk with made := number }
  return number

/-- Fills a description in. -/
def fillIn (spec : Spec Action) : Act (Spec Action) := do
  return spec.resolve (← desk).library

/-- Makes a scripted object without properties, labelled by its description if that has a name. -/
def createScripted (label : String) (spec : Spec Action) : Act (Object Content) := do
  let number ← nextNumber
  create (.scripted (spec.givenName.getD label) number Properties.empty spec.hooks)

/-- Makes the external hooks of a list. -/
def createExternals : List (Spec Action) → Act (List (ExternalHook Content))
  | [] => return []
  | spec :: rest => do
    let spec ← fillIn spec
    let hook ← createScripted "" spec
    let hooks ← createExternals rest
    return ⟨spec.givenName.getD "", !spec.onlyCustomizes.getD false, hook⟩ :: hooks

/-- The definition that a description stands for. -/
def Spec.definition (spec : Spec Action) : Definition (Spec Action) :=
  let kind := spec.kind.getD .scripted
  let d : Definition (Spec Action) :=
    { name := spec.givenName.getD ""
      typeName := kind.typeName
      role := spec.role.getD .application
      scope := spec.scope.getD .singleton
      placement := spec.placement
      lazyInit := spec.lazyInit.getD false
      isAbstract := spec.isAbstract.getD false
      properties := Properties.ofList (spec.properties.getD [])
      maker := .hosted spec }
  if kind = .scripted then (spec.capabilities.getD []).foldl Definition.declare d else d

/-- The object of a name, which has to be of a kind. -/
def resolve (name : String) (kind : Kind) : Act (Object Content) := do
  let object ← demand (.getOrBuild name)
  if object.typeName = kind.typeName then return object
  else throw (.registry (.downcastFailed name kind.typeName))

/-- An object of a name viewed through a capability. -/
def buildFacet (name : String) (capability : Capability) : Act FacetKind := do
  let object ← demand (.getOrBuild name)
  match ← ask (.facet name object capability) with
  | some facet => return facet.kind
  | none =>
    throw (.registry (.definition name ("built object does not expose " ++ capability.label)))

/-- Takes names one after the other; the answers tell which were new. -/
def insertEach : List String → Processed → List Bool × Processed
  | [], processed => ([], processed)
  | name :: rest, processed =>
    let (new, processed) := processed.insert name
    let (news, processed) := insertEach rest processed
    (new :: news, processed)

/-- The names that a sentinel of a target would note, were objects built under all of them. -/
def watchEach (target : Nat) : List String → Act (List String)
  | [] => return []
  | name :: rest => do
    let _ ← create (.text "")
    let early ← ask (.isPremature target name)
    let names ← watchEach target rest
    return if early then name :: names else names

mutual

/-- Does a deed. -/
def Deed.perform : Deed Action → Act Outcome
  | .register spec => do
    let spec ← fillIn spec
    demand (.register spec.definition)
    return .nothing
  | .update name run edits => do
    let edit (d : Definition (Spec Action)) :
        Prog host (Except Failure Unit × Definition (Spec Action)) := do
      let result ← (runAll run).run
      return (result, d.withDetails (edits.apply d.toDetails))
    let result ← ExceptT.lift (Prog.update name edit .done)
    match result with
    | .error e => throw (.registry e)
    | .ok (.error failure) => throw failure
    | .ok (.ok ()) => return .nothing
  | .names query => return .names (← ask (.namesFor query))
  | .typeMatch name capability => return .flag (← ask (.typeMatch name capability))
  | .placement name => return .placement (← demand (.placement name))
  | .classify name => do
    match ← ask (.placement name) with
    | .ok placement => return .placement placement
    | .error _ => return .placement {}
  | .get name => return .object (← demand (.getOrBuild name))
  | .resolve name kind => return .object (← resolve name kind)
  | .facet name capability => return .facet (some (← buildFacet name capability))
  | .facetOf name object capability => do
    let object ← demand (.getOrBuild object)
    let facet ← ask (.facet name object capability)
    return .facet (facet.map Facet.kind)
  | .definition name => return .definition (← demand (.definition name))
  | .describe name => return .text (← demand (.definition name)).describe
  | .property name key => do
    let d ← demand (.definition name)
    return .property (d.properties.get? key)
  | .contains name => return .flag (← ask (.contains name))
  | .definitionNames => return .names (← ask .definitionNames)
  | .invalidate => do
    ask .invalidate
    return .nothing
  | .addHook name spec => do
    let hook ← createScripted name (← fillIn spec)
    ask (.install name hook)
    return .nothing
  | .hooks => return .hooks (← ask .installedNames)
  | .preInstantiate => return .count (← demand .preInstantiate)
  | .built name => return .flag (← ask (.containsSingleton name))
  | .size => return .size (← ask .definitionNames) (← ask .installedNames)
  | .walk stage name text => do
    let object ← create (.text text)
    let result ← demand (.walk stage name object)
    return .walked result (result.same object)
  | .mutationPhase externals config => do
    let config ← pass config
    let externals ← createExternals externals
    let mutation ← demand (.mutationPhase config externals)
    modifyDesk fun desk => { desk with processed := mutation.processed }
    return .mutation mutation
  | .processed clear insert query => do
    let kept ← desk
    let processed := if clear then {} else kept.processed
    let (inserted, processed) := insertEach insert processed
    modifyDesk fun desk => { desk with processed }
    return .processed inserted (query.map processed.contains) processed
  | .customizationPhase config => do
    let config ← pass config
    return .order (← demand (.customizationPhase config (← desk).processed))
  | .installationPhase config => do
    let config ← pass config
    let installation ← demand (.installationPhase config)
    modifyDesk fun desk => { desk with sentinel := some installation.sentinel }
    return .installation installation
  | .sentinel => do
    match (← desk).sentinel with
    | none => return .sentinel none
    | some number => return .sentinel (← ask (.sentinel number))
  | .sentinelOn target dead names => do
    let premature ← if dead then pure [] else watchEach target names
    return .sentinel (some ⟨target, premature⟩)
  | .detect name object text dead => do
    let object ← match object with
      | some object => demand (.getOrBuild object)
      | none => create (.text text)
    if !dead then ask (.detectListener name object)
    return .detected true (← ask .listenerNames)
  | .publish event => return .count (← ask (.publish event))
  | .addListener name spec => do
    let listener ← createScripted name (← fillIn spec)
    ask (.addListener name listener)
    return .nothing
  | .removeListener name => return .flag (← ask (.removeListener name))
  | .listeners => return .names (← ask .listenerNames)
  | .setConfig key text => do
    ask (.setSetting key text)
    return .nothing
  | .placeholders => do
    demand (.register placeholderConfigurerDefinition)
    return .nothing
  | .customizePlaceholders => do
    ExceptT.mk Placeholder.customizeDefinitions
    return .nothing
  | .fail message => throw (.plain message)
  | .raise error => throw (.registry error)

/-- Does the deed of an action; its failure carries the note of the action. -/
def Action.perform : Action → Act Outcome
  | .mk deed note _ =>
    ExceptT.mk do
      match ← deed.perform.run, note with
      | .error failure, some note => return .error (.noted note failure)
      | result, _ => return result

/-- Runs actions inside a hook. -/
def runAll : List Action → Act Unit
  | [] => return
  | action :: rest => do
    let .mk deed _ lenient := action
    match ← ExceptT.lift action.perform.run with
    | .ok .nothing => pure ()
    | .ok outcome => journal (.did deed.word outcome)
    | .error failure =>
      if lenient then journal (.failed (some deed.word) failure) else throw failure
    runAll rest

end

end Script

end ObjectBootstrap
