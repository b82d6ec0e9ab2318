import ObjectBootstrap.Program

/-!
# Engines

The state that programs act on, and the engine that runs them. Everything that calls hooks and
factories is written against an engine, and the engine that runs requests in turn is made of these
functions one level deeper, in `ObjectBootstrap.Interpreter`. So a run has a depth, and it may run
out of it; no program can notice that, because then there is no result at all. A failure that
programs can notice is a result of the run instead.

Every call of an entry point is written down along with what happens to the registry. No operation
reads this log: it is there to say in which order and how often things happened.

## Main definitions

* `EntryPoint`, `Activity`: what is written down.
* `State`: what a run acts on.
* `Run`, `Attempt`: a run, and a run that may end in an error of the registry.
* `Engine`: the behaviour of the embedding program and the means to run its programs.
* `Engine.enter`: calls an entry point.
-/

namespace ObjectBootstrap

/-- A point at which a hook or a factory is called. -/
inductive EntryPoint (H : Host) where
  | mutate (hook : String) (self : Object H.Content)
  | customize (hook : String) (self : Object H.Content)
  /-- An interceptor is offered the copy of a definition that the build of a name uses. -/
  | merge (hook name : String) (definition : Definition H.Factory)
  /-- The factory of this copy is called with it for the build of a name. -/
  | make (name : String) (definition : Definition H.Factory)
  | intercept (stage : Stage) (hook : String) (object : Object H.Content) (name : String)
  | notify (listener : String) (self : Object H.Content) (event : Event)

/-- What is written down of a run. -/
inductive Activity (H : Host) where
  | entered (point : EntryPoint H)
  | left (point : EntryPoint H) (failure : Option Failure)
  | registered (definition : Definition H.Factory)
  /-- The edited definition is stored under the name it was read from. -/
  | updated (name : String) (definition : Definition H.Factory)
  | installed (hook : String)
  /-- A factory made an object for a name. -/
  | made (name : String) (object : Object H.Content)
  /-- An object sets out to pass through the installed hooks, while its name is registered so. -/
  | walked (stage : Stage) (name : String) (registration : Option (Definition H.Factory))
  /-- The object of a name is asked for. -/
  | requested (name : String)
  /-- The request for the object of a name is answered; without an object it failed. -/
  | answered (name : String) (object : Option (Object H.Content))
  /-- A hook has no answer, and so the walk of the object of a name ends. -/
  | ended (stage : Stage) (hook name : String)
  /-- The listener of a name is unsubscribed, if there is one. -/
  | unsubscribed (name : String)
  /-- An event is published to the listeners of these names. -/
  | published (event : Event) (listeners : List String)

/-- What a run acts on. -/
structure State (H : Host) where
  container : Container H := {}
  /-- The subscribed listeners. -/
  listeners : NameTable (Object H.Content) := NameTable.empty
  /-- The sentinels, by number. -/
  sentinels : List Sentinel := []
  settings : Settings := Settings.empty
  /-- What the hooks and factories keep. -/
  store : H.Store
  /-- How many objects were created. -/
  created : Nat := 0
  /-- What happened so far, latest first. -/
  log : List (Activity H) := []

/-- A run. It has no result when it runs out of depth. -/
abbrev Run (H : Host) := StateT (State H) Option

/-- A run that may end in an error of the registry. -/
abbrev Attempt (H : Host) := ExceptT Error (Run H)

namespace Run

variable {H : Host}

/-- The run that is out of depth. -/
def exhausted {α : Type} : Run H α := fun _ => none

/-- Writes down what happens. -/
def record (activity : Activity H) : Run H Unit :=
  modify fun s => { s with log := activity :: s.log }

/-- The container as it is now. -/
def container : Run H (Container H) := do
  return (← get).container

/-- Changes the container. -/
def modifyContainer (f : Container H → Container H) : Run H Unit :=
  modify fun s => { s with container := f s.container }

/-- Makes an object that no other object is the same as. -/
def create (typeName : String) (substance : Substance H.Content) : Run H (Object H.Content) :=
  modifyGet fun s => (⟨typeName, s.created, substance⟩, { s with created := s.created + 1 })

/-- The names that answer a query; the container keeps the answer. -/
def namesFor (query : CapabilityQuery) : Run H (List String) :=
  modifyGet fun s =>
    let (names, container) := s.container.namesFor query
    (names, { s with container })

/-- Installs an interceptor. -/
def install (name : String) (hook : Hook H.Content) : Run H Unit := do
  modifyContainer fun k => k.install name hook
  record (.installed name)

end Run

namespace Attempt

variable {H : Host}

/-- A run that cannot end in an error, as one that could. -/
def step {α : Type} (run : Run H α) : Attempt H α := ExceptT.lift run

/-- A run that answers an error, as one that ends in it. -/
def raise {α : Type} (run : Run H (Except Error α)) : Attempt H α := ExceptT.mk run

/-- Ends in an error if there is one. -/
def ofExcept {α : Type} (result : Except Error α) : Attempt H α := ExceptT.mk (pure result)

/-- Changes the container unless that is an error. -/
def changeContainer (f : Container H → Except Error (Container H)) : Attempt H Unit := do
  let container ← ofExcept (f (← get).container)
  modify fun s => { s with container }

/-- Registers a definition. -/
def register (d : Definition H.Factory) : Attempt H Unit := do
  changeContainer fun k => k.register d
  step (Run.record (.registered d))

end Attempt

/-- What running programs takes. -/
structure Engine (H : Host) where
  behaviour : Behaviour H
  /-- How the registry shows itself to hooks. Factories are handed the registry as it is. -/
  facade : Facade
  /-- How many reiterations the registry mutation phase may take. -/
  limit : Nat
  /-- Runs a program that is handed the registry behind a facade. -/
  run : {α : Type} → Facade → Prog H α → Run H α

/-- The failure in the result of an entry point. -/
def failure? {α : Type} : Except Failure α → Option Failure
  | .ok _ => none
  | .error failure => some failure

/-- Calls an entry point, and writes down that it is entered and left. -/
def Engine.enter {H : Host} {α : Type} (point : EntryPoint H) (call : Run H (Except Failure α)) :
    Run H (Except Failure α) := do
  Run.record (.entered point)
  let result ← call
  Run.record (.left point (failure? result))
  return result

end ObjectBootstrap
