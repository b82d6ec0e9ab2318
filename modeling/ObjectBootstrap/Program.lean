import ObjectBootstrap.Config
import ObjectBootstrap.Container
import ObjectBootstrap.Discovery
import ObjectBootstrap.Event

/-!
# Programs of hooks and factories

Hooks and factories are code of the embedding program. What they may do to the registry is a fixed
set of requests, so their code is a tree: it either is done, or asks for something and goes on in a
way that depends on the answer. An answer that reports an error is an answer like any other, so a
program may go on after it.

A request to update a definition holds a program itself: the edit is handed a copy of the
definition, may make requests of its own, and only when it is done what has become of the copy is
written back. That may be another definition altogether.

Making programs data is what lets statements speak about every behaviour of hooks and factories:
they quantify over programs.

## Main definitions

* `Request`: what can be asked for, indexed by the type of the answer.
* `Prog`: a program, with its `Monad` instance.
* `Behaviour`: the code of the embedding program at each of its entry points.
* `Facade`: how a registry shows itself to programs.

## Theorems

* `Prog.bind_assoc`: how programs are put together in turn does not matter.
-/

namespace ObjectBootstrap

/-- The two points at which interceptors are handed an object. -/
inductive Stage where
  | before
  | after
  deriving DecidableEq

/-- The phase that a failure at a stage is reported against. -/
def Stage.phase : Stage → Phase
  | before => .beforeInitialization
  | after => .afterInitialization

/-- A hook that the embedding program supplies for one bring-up, without a definition. -/
structure ExternalHook (C : Type) where
  name : String
  /-- Whether the hook mutates the registry; otherwise it only customizes the factory. -/
  mutates : Bool
  hook : Object C

/-- What the registry mutation phase did. -/
structure Mutation where
  processed : Processed := {}
  rounds : List Round := []
  mutationOrder : List String := []
  customizationOrder : List String := []

/-- What the installation of the interceptors did. -/
structure Installation where
  /-- How many hooks the chain has once it is complete. -/
  target : Nat
  chain : List String
  /-- The number of the sentinel that watches for the completion. -/
  sentinel : Nat

/-- Notes which objects are built before as many hooks as its target are installed. -/
structure Sentinel where
  target : Nat
  /-- The names of these objects, in build order. -/
  premature : List String := []

/-- What a program can ask for. -/
inductive Request (H : Host) : Type → Type where
  /-- The names that declare a capability. -/
  | namesFor (query : CapabilityQuery) : Request H (List String)
  | typeMatch (name : String) (capability : Capability) : Request H Bool
  | placement (name : String) : Request H (Except Error Placement)
  /-- The object of a name, built if need be. -/
  | getOrBuild (name : String) : Request H (Except Error (Object H.Content))
  | facet (name : String) (object : Object H.Content) (capability : Capability) :
    Request H (Option (Facet H.Content))
  | definition (name : String) : Request H (Except Error (Definition H.Factory))
  | contains (name : String) : Request H Bool
  | definitionNames : Request H (List String)
  | register (definition : Definition H.Factory) : Request H (Except Error Unit)
  | install (name : String) (hook : Object H.Content) : Request H Unit
  | installedNames : Request H (List String)
  /-- Forget the answers to earlier queries for capabilities. -/
  | invalidate : Request H Unit
  | containsSingleton (name : String) : Request H Bool
  /-- Build every eager singleton that is not built yet; the answer counts them. -/
  | preInstantiate : Request H (Except Error Nat)
  /-- Pass an object through the installed hooks. -/
  | walk (stage : Stage) (name : String) (object : Object H.Content) :
    Request H (Except Error (Object H.Content))
  | mutationPhase (config : Config) (externals : List (ExternalHook H.Content)) :
    Request H (Except Error Mutation)
  | customizationPhase (config : Config) (processed : Processed) :
    Request H (Except Error (List String))
  | installationPhase (config : Config) : Request H (Except Error Installation)
  /-- The sentinel of a number. -/
  | sentinel (number : Nat) : Request H (Option Sentinel)
  /-- Whether a sentinel of this target would note an object built under this name. -/
  | isPremature (target : Nat) (name : String) : Request H Bool
  /-- Subscribe an object built under a name if it listens. -/
  | detectListener (name : String) (object : Object H.Content) : Request H Unit
  | addListener (name : String) (listener : Object H.Content) : Request H Unit
  | removeListener (name : String) : Request H Bool
  | listenerNames : Request H (List String)
  /-- Tell every listener; the answer counts them. -/
  | publish (event : Event) : Request H Nat
  | settings : Request H Settings
  | setSetting (key text : String) : Request H Unit
  /-- Make an object that no other object is the same as. -/
  | create (typeName : String) (content : H.Content) : Request H (Object H.Content)
  /-- What the hooks and factories have kept. -/
  | recall : Request H H.Store
  | remember (store : H.Store) : Request H Unit

/-- A program of a hook or a factory. -/
inductive Prog (H : Host) : Type → Type 1 where
  | done {α : Type} (result : α) : Prog H α
  | ask {α β : Type} (request : Request H β) (next : β → Prog H α) : Prog H α
  /-- Edit the definition of a name. The edit answers the new definition along with a result. -/
  | update {α β : Type} (name : String)
    (edit : Definition H.Factory → Prog H (β × Definition H.Factory))
    (next : Except Error β → Prog H α) : Prog H α

namespace Prog

variable {H : Host}

/-- Runs one program and then another that depends on its result. -/
def bind {α β : Type} : Prog H α → (α → Prog H β) → Prog H β
  | .done result, f => f result
  | .ask request next, f => .ask request fun answer => (next answer).bind f
  | .update name edit next, f => .update name edit fun answer => (next answer).bind f

instance : Monad (Prog H) where
  pure := .done
  bind := .bind

/-- Running a program and then nothing is running the program. -/
theorem bind_done {α : Type} (p : Prog H α) : p.bind .done = p := by
  induction p with
  | done result => rfl
  | ask request next ih => exact congrArg _ (funext ih)
  | update name edit next _ ih => exact congrArg _ (funext ih)

/-- How programs are put together in turn does not matter. -/
theorem bind_assoc {α β γ : Type} (p : Prog H α) (f : α → Prog H β) (g : β → Prog H γ) :
    (p.bind f).bind g = p.bind fun a => (f a).bind g := by
  induction p with
  | done result => rfl
  | ask request next ih => exact congrArg _ (funext fun answer => ih answer f)
  | update name edit next _ ih => exact congrArg _ (funext fun answer => ih answer f)

instance : LawfulMonad (Prog H) :=
  LawfulMonad.mk' (Prog H) bind_done (fun _ _ => rfl) bind_assoc

/-- Makes a request. -/
def request {β : Type} (r : Request H β) : Prog H β := .ask r .done

/-- Changes what the hooks and factories keep. -/
def modifyStore (f : H.Store → H.Store) : Prog H Unit := do
  let store ← request .recall
  request (.remember (f store))

end Prog

/-- The code of the embedding program. An object that is handed to an entry point as itself is told
    by what it holds. -/
structure Behaviour (H : Host) where
  /-- A factory makes what an object of a definition holds. -/
  make : H.Factory → Definition H.Factory → Prog H (Except Failure H.Content)
  /-- A registry mutator is called once before any ordinary object is built. -/
  mutate : H.Content → Prog H (Except Failure Unit)
  /-- A factory customizer is called once all definitions are there. -/
  customize : H.Content → Prog H (Except Failure Unit)
  /-- An interceptor edits the copy of a definition that the build of a name uses, or puts another
      definition in its place. -/
  merge : H.Content → String → Definition H.Factory →
    Prog H (Except Failure (Definition H.Factory))
  /-- An interceptor is handed an object twice. Without an answer the walk ends and the object
      stays as it was handed over. -/
  intercept : Stage → H.Content → Object H.Content → String →
    Prog H (Except Failure (Option (Object H.Content)))
  /-- A listener is told of an event. -/
  notify : H.Content → Event → Prog H Unit

/-- How a registry shows itself to programs. A registry may be shown through a facade that refuses
    to classify some names and answers for some names as if another capability was asked for. -/
structure Facade where
  classifies : String → Bool
  capabilityFor : String → Capability → Capability

namespace Facade

/-- A registry that shows itself as it is. -/
def direct : Facade := ⟨fun _ => true, fun _ capability => capability⟩

variable {H : Host}

/-- The placement of a registration as the facade tells it. -/
def placement (f : Facade) (k : Container H) (name : String) : Except Error Placement :=
  if f.classifies name then k.placement name else .error (.classification name)

/-- The placement to sort a hook by. A name without one is sorted as a plain hook. -/
def classify (f : Facade) (k : Container H) (name : String) : Placement :=
  match f.placement k name with
  | .ok placement => placement
  | .error _ => {}

/-- An object viewed through a capability as the facade tells it. -/
def facet? (f : Facade) (k : Container H) (name : String) (object : Object H.Content)
    (c : Capability) : Option (Facet H.Content) :=
  k.facet? name object (f.capabilityFor name c)

end Facade

end ObjectBootstrap
