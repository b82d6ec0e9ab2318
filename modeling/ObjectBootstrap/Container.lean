import ObjectBootstrap.Definition
import ObjectBootstrap.Error
import ObjectBootstrap.HookChain
import ObjectBootstrap.NameTable

/-!
# The container

What the registry holds: the definitions, the order in which their names were registered first, the
singletons built so far, the names whose builds are under way, and the chain of interceptors. This
module has the operations that run no code of the embedding program. Building, which does, is in
`ObjectBootstrap.Build`.

A build leaves the object that a factory returned behind as the *target* of its name until the build
is over, and for good when the interceptors replaced a singleton by another object. A capability of
a replaced object is then found on its target.

Answers to queries for a capability are kept until a definition changes. They are part of the state,
and no answer depends on them.

## Main definitions

* `Host`: the types that an embedding program supplies.
* `Container`: the state of a registry.
* `Container.register`, `Container.writeBack`: the two ways in which definitions change.
* `Container.namesFor`: the names that declare a capability.
* `Container.facet?`: an object viewed through a capability of its name.
-/

namespace ObjectBootstrap

/-- The types that an embedding program supplies. -/
structure Host where
  /-- What its objects hold. -/
  Content : Type
  /-- What its definitions are made by. -/
  Factory : Type
  /-- What its hooks and factories keep from one call to the next. -/
  Store : Type

/-- A query for the names that declare a capability. -/
structure CapabilityQuery where
  capability : Capability
  includeNonSingletons : Bool := true
  allowEagerInit : Bool := false
  deriving DecidableEq

/-- Whether a definition answers a query. -/
def CapabilityQuery.admits {F : Type} (q : CapabilityQuery) (d : Definition F) : Bool :=
  !d.isAbstract && (q.includeNonSingletons || d.isSingleton) && d.hasCapability q.capability

/-- The state of a registry. -/
structure Container (H : Host) where
  definitions : NameTable (Definition H.Factory) := NameTable.empty
  /-- The registered names, in the order of their first registration. -/
  names : List String := definitions.names
  singletons : NameTable (Object H.Content) := NameTable.empty
  /-- Objects as their factories returned them. -/
  targets : NameTable (Object H.Content) := NameTable.empty
  /-- The names whose builds are under way, outermost first. -/
  inCreation : List String := []
  chain : HookChain H.Content := HookChain.empty
  /-- Answers to earlier queries. -/
  answers : List (CapabilityQuery × List String) := []
  allowOverriding : Bool := false

namespace Container

variable {H : Host}

/-- The definition of a name. -/
def definition (k : Container H) (name : String) : Except Error (Definition H.Factory) :=
  match k.definitions.get? name with
  | some d => .ok d
  | none => .error (.definition name "no definition registered under this name")

/-- Whether a name is registered. -/
def contains (k : Container H) (name : String) : Bool := k.definitions.contains name

/-- Whether the singleton of a name is built. -/
def containsSingleton (k : Container H) (name : String) : Bool := k.singletons.contains name

/-- Whether a name is registered with a capability. -/
def typeMatch (k : Container H) (name : String) (c : Capability) : Bool :=
  (k.definitions.get? name).any fun d => d.hasCapability c

/-- The placement of a registration. -/
def placement (k : Container H) (name : String) : Except Error Placement :=
  match k.definitions.get? name with
  | some d => .ok d.placement
  | none => .error (.classification name)

/-- Forgets the answers to earlier queries. -/
def invalidate (k : Container H) : Container H := { k with answers := [] }

/-- The names whose definitions answer a query, in registration order. -/
def search (k : Container H) (q : CapabilityQuery) : List String :=
  k.names.filter fun name => (k.definitions.get? name).any q.admits

/-- Answers a query, from an earlier answer if there is one, and keeps the answer. -/
def namesFor (k : Container H) (q : CapabilityQuery) : List String × Container H :=
  match k.answers.lookup q with
  | some names => (names, k)
  | none => (k.search q, { k with answers := (q, k.search q) :: k.answers })

/-- Registers a definition. A name that is taken is an error unless overriding is allowed; then the
    definition takes the place of the old one, and what was built of the old one is forgotten. -/
def register (k : Container H) (d : Definition H.Factory) : Except Error (Container H) :=
  if d.name = "" then .error (.definition d.name "definition name must not be empty")
  else if k.contains d.name then
    if k.allowOverriding then
      .ok { k with
        definitions := k.definitions.insert d.name d
        singletons := k.singletons.erase d.name
        targets := k.targets.erase d.name
        answers := [] }
    else .error (.definition d.name "a definition with this name is already registered")
  else .ok { k with
    definitions := k.definitions.insert d.name d
    names := k.names ++ [d.name]
    answers := [] }

/-- Registers definitions one after the other, up to the first that is refused. -/
def registerAll (k : Container H) : List (Definition H.Factory) → Except Error (Container H)
  | [] => .ok k
  | d :: rest => (k.register d).bind fun k => k.registerAll rest

/-- Stores the edited copy of a definition under the name it was read from. -/
def writeBack (k : Container H) (name : String) (d : Definition H.Factory) : Container H :=
  { k with definitions := k.definitions.insert name d, answers := [] }

/-- Installs an interceptor. -/
def install (k : Container H) (name : String) (hook : Hook H.Content) : Container H :=
  { k with chain := k.chain.add name hook }

/-- Notes that the build of a name is under way, unless it already is. -/
def beginCreation (k : Container H) (name : String) : Except Error (Container H) :=
  if name ∈ k.inCreation then .error (.circularDependency (k.inCreation ++ [name]))
  else .ok { k with inCreation := k.inCreation ++ [name] }

/-- Notes that the build of a name is over. -/
def endCreation (k : Container H) (name : String) : Container H :=
  { k with inCreation := k.inCreation.filter fun n => n != name }

/-- Keeps an object as its factory returned it. -/
def keepTarget (k : Container H) (name : String) (object : Object H.Content) : Container H :=
  { k with targets := k.targets.insert name object }

/-- Forgets the target of a name unless the build made a singleton and replaced the target. -/
def settleTarget (k : Container H) (name : String) (built : Option (Object H.Content))
    (singleton : Bool) : Container H :=
  let replaced := match built, k.targets.get? name with
    | some object, some target => !target.same object
    | _, _ => false
  if singleton && replaced then k else { k with targets := k.targets.erase name }

/-- Keeps a built singleton. -/
def keepSingleton (k : Container H) (name : String) (object : Object H.Content) : Container H :=
  { k with singletons := k.singletons.insert name object }

/-- Views an object through a capability of the definition of a name; when the object cannot be
    viewed so, the target of the name is. -/
def facet? (k : Container H) (name : String) (object : Object H.Content) (c : Capability) :
    Option (Facet H.Content) :=
  match k.definitions.get? name with
  | none => none
  | some d =>
    match d.cast? object c with
    | some facet => some facet
    | none => (k.targets.get? name).bind fun target => d.cast? target c

/-- Whether an object built under a name misses interceptors while fewer than `target` are
    installed. Interceptors and infrastructure are not meant to be intercepted. -/
def isPremature (k : Container H) (target : Nat) (name : String) : Bool :=
  let infrastructure := (k.definitions.get? name).any fun d => d.role == .infrastructure
  !k.typeMatch name .interceptsInstance && !infrastructure && decide (k.chain.size < target)

end Container

/-- A definition that pre-instantiation builds. -/
def Definition.isEager {F : Type} (d : Definition F) : Bool :=
  d.isSingleton && !d.isAbstract && !d.lazyInit

end ObjectBootstrap
