import ObjectBootstrap.Program

/-!
# Scripts

Hooks and factories whose behaviour is data: lists of actions. An action is a deed, a note to put on
its failure, and whether its failure is put up with. The same actions serve as the steps that drive
a registry from outside.

Actions hold descriptions of definitions, which hold actions in turn; the types are written over the
type of actions and tied together by `Action`.

## Main definitions

* `Spec`: the description of a definition with scripted behaviour.
* `Hooks`: what a scripted object does at each entry point.
* `Deed`, `Action`: what can be done.
-/

namespace ObjectBootstrap

namespace Script

/-- The kinds of scripted objects. -/
inductive Kind where
  | scripted
  | text
  | int
  | plain
  | service
  | wrapper
  deriving DecidableEq

/-- The type name of the objects of a kind. -/
def Kind.typeName : Kind → String
  | scripted => "oracle_driver::scripted::Scripted"
  | text => "alloc::string::String"
  | int => "i64"
  | plain => "oracle_driver::scripted::Plain"
  | service => "oracle_driver::scripted::Service"
  | wrapper => "oracle_driver::scripted::Wrapper"

/-- Edits of the details of a definition, made in the order of the fields. -/
structure Edits where
  set : List (String × String) := []
  /-- Texts to add at the end of properties; an absent property counts as empty. -/
  append : List (String × String) := []
  role : Option Role := none
  placement : Option Placement := none
  lazyInit : Option Bool := none

/-- Makes the edits. -/
def Edits.apply (edits : Edits) (d : Details) : Details :=
  let properties := d.properties.setAll edits.set
  let properties := edits.append.foldl
    (fun p entry => p.set entry.1 ((p.get? entry.1).getD "" ++ entry.2)) properties
  { role := edits.role.getD d.role
    placement := edits.placement.getD d.placement
    lazyInit := edits.lazyInit.getD d.lazyInit
    properties }

/-- What an interceptor does with the object it is handed. -/
inductive Handling where
  | pass
  | stop
  | fail
  | wrap
  | unwrap
  | text
  deriving DecidableEq

/-- What an interceptor does at one stage. -/
structure StageScript (A : Type) where
  /-- The names that the stage is confined to. -/
  only : Option (List String) := none
  /-- The names that the stage leaves out. -/
  skip : List String := []
  run : List A := []
  handling : Handling := .pass
  message : String := "refused"
  edits : Edits := {}

/-- Whether a stage has anything to do with an object of this name. -/
def StageScript.applies {A : Type} (stage : StageScript A) (name : String) : Bool :=
  stage.only.all (fun names => names.contains name) && !stage.skip.contains name

/-- What a scripted object does at each entry point. -/
structure Hooks (A : Type) where
  mutate : List A := []
  customize : List A := []
  event : List A := []
  before : Option (StageScript A) := none
  after : Option (StageScript A) := none
  merge : Option (StageScript A) := none

/-- The description of a definition with scripted behaviour, or of a scripted hook without one. What
    it leaves open is taken from the entry of the library that it is based on, and stands at its
    default if there is no such entry. What it settles is settled, also where it settles that there
    is no name, no rank or no script for a stage. -/
structure Spec (A : Type) where
  base : Option String := none
  name : Option (Option String) := none
  kind : Option Kind := none
  capabilities : Option (List Capability) := none
  tier : Option Tier := none
  rank : Option (Option Int32) := none
  scope : Option Scope := none
  role : Option Role := none
  lazyInit : Option Bool := none
  isAbstract : Option Bool := none
  properties : Option (List (String × String)) := none
  factory : Option (List A) := none
  mutate : Option (List A) := none
  customize : Option (List A) := none
  event : Option (List A) := none
  before : Option (Option (StageScript A)) := none
  after : Option (Option (StageScript A)) := none
  merge : Option (Option (StageScript A)) := none
  /-- Whether a hook without a definition only customizes the factory. -/
  onlyCustomizes : Option Bool := none

namespace Spec

variable {A : Type}

/-- What one description says, and what another one says where the first leaves it open. -/
def layeredOn (top bottom : Spec A) : Spec A :=
  { base := bottom.base
    name := top.name <|> bottom.name
    kind := top.kind <|> bottom.kind
    capabilities := top.capabilities <|> bottom.capabilities
    tier := top.tier <|> bottom.tier
    rank := top.rank <|> bottom.rank
    scope := top.scope <|> bottom.scope
    role := top.role <|> bottom.role
    lazyInit := top.lazyInit <|> bottom.lazyInit
    isAbstract := top.isAbstract <|> bottom.isAbstract
    properties := top.properties <|> bottom.properties
    factory := top.factory <|> bottom.factory
    mutate := top.mutate <|> bottom.mutate
    customize := top.customize <|> bottom.customize
    event := top.event <|> bottom.event
    before := top.before <|> bottom.before
    after := top.after <|> bottom.after
    merge := top.merge <|> bottom.merge
    onlyCustomizes := top.onlyCustomizes <|> bottom.onlyCustomizes }

/-- Fills a description in from the entries that it is based on, each of which may be based on
    another one. Chains of entries are followed as far as the first number says. -/
def fillIn (library : List (String × Spec A)) : Nat → Spec A → Spec A
  | 0, spec => spec
  | depth + 1, spec =>
    match spec.base.bind fun key => library.lookup key with
    | some entry => fillIn library depth (spec.layeredOn entry)
    | none => spec

/-- Fills a description in from a library. No chain without a repetition is longer than that. -/
def resolve (library : List (String × Spec A)) (spec : Spec A) : Spec A :=
  spec.fillIn library library.length

/-- The name that the description gives, if it gives one. -/
def givenName (spec : Spec A) : Option String := spec.name.getD none

/-- The placement that the description gives. -/
def placement (spec : Spec A) : Placement :=
  ⟨spec.tier.getD .plain, spec.rank.getD none⟩

/-- The hooks that the description gives. -/
def hooks (spec : Spec A) : Hooks A :=
  { mutate := spec.mutate.getD []
    customize := spec.customize.getD []
    event := spec.event.getD []
    before := spec.before.getD none
    after := spec.after.getD none
    merge := spec.merge.getD none }

end Spec

/-- What can be done. -/
inductive Deed (A : Type) where
  | register (spec : Spec A)
  | update (name : String) (run : List A) (edits : Edits)
  | names (query : CapabilityQuery)
  | typeMatch (name : String) (capability : Capability)
  | placement (name : String)
  | classify (name : String)
  | get (name : String)
  | resolve (name : String) (kind : Kind)
  | facet (name : String) (capability : Capability)
  | facetOf (name object : String) (capability : Capability)
  | definition (name : String)
  | describe (name : String)
  | property (name key : String)
  | contains (name : String)
  | definitionNames
  | invalidate
  | addHook (name : String) (hook : Spec A)
  | hooks
  | preInstantiate
  | built (name : String)
  | size
  | walk (stage : Stage) (name text : String)
  | mutationPhase (externals : List (Spec A)) (config : Except Error Config)
  | processed (clear : Bool) (insert query : List String)
  | customizationPhase (config : Except Error Config)
  | installationPhase (config : Except Error Config)
  | sentinel
  | sentinelOn (target : Nat) (dead : Bool) (names : List String)
  | detect (name : String) (object : Option String) (text : String) (dead : Bool)
  | publish (event : Event)
  | addListener (name : String) (listener : Spec A)
  | removeListener (name : String)
  | listeners
  | setConfig (key text : String)
  | placeholders
  | customizePlaceholders
  | fail (message : String)
  | raise (error : Error)

/-- The name of a deed. -/
def Deed.word {A : Type} : Deed A → String
  | register _ => "register"
  | update _ _ _ => "update"
  | names _ => "names"
  | typeMatch _ _ => "type_match"
  | placement _ => "placement"
  | classify _ => "classify"
  | get _ => "get"
  | resolve _ _ => "resolve"
  | facet _ _ => "facet"
  | facetOf _ _ _ => "facet_of"
  | definition _ => "definition"
  | describe _ => "debug"
  | property _ _ => "property"
  | contains _ => "contains"
  | definitionNames => "definition_names"
  | invalidate => "invalidate"
  | addHook _ _ => "add_hook"
  | hooks => "hooks"
  | preInstantiate => "preinstantiate"
  | built _ => "built"
  | size => "size"
  | walk _ _ _ => "apply"
  | mutationPhase _ _ => "registry_phase"
  | processed _ _ _ => "processed"
  | customizationPhase _ => "factory_phase"
  | installationPhase _ => "instance_phase"
  | sentinel => "sentinel"
  | sentinelOn _ _ _ => "sentinel_on"
  | detect _ _ _ _ => "detect"
  | publish _ => "publish"
  | addListener _ _ => "add_listener"
  | removeListener _ => "remove_listener"
  | listeners => "listeners"
  | setConfig _ _ => "set_config"
  | placeholders => "placeholders"
  | customizePlaceholders => "customize_placeholders"
  | fail _ => "fail"
  | raise _ => "raise"

/-- A deed, the note to put on its failure, and whether its failure is put up with. -/
inductive Action where
  | mk (deed : Deed Action) (note : Option String) (lenient : Bool)

end Script

end ObjectBootstrap
