import ObjectBootstrap.Engine

/-!
# Building objects

The object of a name is built once if its definition has singleton scope, and anew on each request
otherwise. A build goes through four steps. The installed interceptors edit a copy of the
definition, each seeing the edits of those before it; the factory makes an object of the copy; and
the object is passed through the interceptors twice, before and after its initialization. An
interceptor without an answer ends the walk with the object it was handed. The first failure ends
the build. Each step uses the hooks that are installed when it starts.

An interceptor may put another definition in the place of the copy. The build then goes on with that
one to its end: its factory is called, and its scope decides whether the object is kept. Whoever
asks for the object later is told by the registered definition what it is.

The failure of a factory that passes on an error of the registry is reported as that very error, so
an error deep inside nested builds keeps the name of the hook or definition that raised it.

## Main definitions

* `Engine.walk`: passes an object through the installed hooks.
* `Engine.getOrBuild`: the object of a name.
* `Engine.buildFacet`: the object of a name, viewed through a capability.
* `Engine.preInstantiate`: builds the singletons that are not built yet.
-/

namespace ObjectBootstrap

variable {H : Host}

/-- What a build comes to: an object, and what has become of the copy of the definition. -/
structure Built (H : Host) where
  copy : Definition H.Factory
  object : Object H.Content

/-- Whether the object of a build is to be kept, if there is one. -/
def Built.isSingleton (built : Option (Built H)) : Bool :=
  built.any fun b => b.copy.isSingleton

namespace Engine

/-- A sentinel notes an object that is built too early. -/
def watch (number : Nat) (name : String) : Run H Unit :=
  modify fun s =>
    { s with sentinels := s.sentinels.modify number fun sentinel =>
        if s.container.isPremature sentinel.target name then
          { sentinel with premature := sentinel.premature ++ [name] }
        else sentinel }

/-- The listener detector subscribes a singleton that listens. It sees the object through the
    facade, and a listener that was replaced by another object as its factory returned it. -/
def detectListener (facade : Facade) (name : String) (object : Object H.Content) : Run H Unit :=
  modify fun s =>
    match facade.facet? s.container name object .listens with
    | some ⟨.listener, listener⟩ =>
      if (s.container.definitions.get? name).any Definition.isSingleton then
        { s with listeners := s.listeners.insert name listener }
      else s
    | _ => s

/-- Hands an object to a hook of the chain. -/
def intercept (E : Engine H) (stage : Stage) (entry : ChainEntry H.Content) (name : String)
    (object : Object H.Content) : Run H (Except Failure (Option (Object H.Content))) :=
  enter (.intercept stage entry.name object name) <|
    match entry.hook, stage with
    | .object ⟨_, _, .hosted content⟩, stage => do
      let answer ← E.run E.facade (E.behaviour.intercept stage content object name)
      if let .ok none := answer then
        Run.record (.ended stage entry.name name)
      return answer
    | .sentinel number, .after => do
      watch number name
      return .ok (some object)
    | .listenerDetector, .after => do
      detectListener E.facade name object
      return .ok (some object)
    | _, _ => return .ok (some object)

/-- Hands an object to hooks in turn. Each is handed the answer of the one before. -/
def walkThrough (E : Engine H) (stage : Stage) (name : String) :
    List (ChainEntry H.Content) → Object H.Content → Attempt H (Object H.Content)
  | [], object => return object
  | entry :: rest, object => do
    match ← Attempt.step (E.intercept stage entry name object) with
    | .error source => throw (.hookExecution entry.name stage.phase source)
    | .ok none => return object
    | .ok (some next) => E.walkThrough stage name rest next

/-- Passes an object through the hooks that are installed now. -/
def walk (E : Engine H) (stage : Stage) (name : String) (object : Object H.Content) :
    Attempt H (Object H.Content) := do
  let k ← Attempt.step Run.container
  Attempt.step (Run.record (.walked stage name (k.definitions.get? name)))
  E.walkThrough stage name k.chain.entries object

/-- Offers the copy of a definition that the build of a name uses to a hook of the chain. -/
def merge (E : Engine H) (entry : ChainEntry H.Content) (name : String)
    (d : Definition H.Factory) : Run H (Except Failure (Definition H.Factory)) :=
  enter (.merge entry.name name d) <|
    match entry.hook with
    | .object ⟨_, _, .hosted content⟩ => E.run E.facade (E.behaviour.merge content name d)
    | _ => return .ok d

/-- Offers the copy of a definition to hooks in turn. Each sees the edits of those before. -/
def mergeThrough (E : Engine H) (name : String) :
    List (ChainEntry H.Content) → Definition H.Factory → Attempt H (Definition H.Factory)
  | [], d => return d
  | entry :: rest, d => do
    match ← Attempt.step (E.merge entry name d) with
    | .error source => throw (.hookExecution entry.name .definitionMerge source)
    | .ok edited => E.mergeThrough name rest edited

/-- Calls the factory of a definition for the build of a name. It is handed the registry as it
    is. -/
def make (E : Engine H) (name : String) (d : Definition H.Factory) :
    Run H (Except Failure (Object H.Content)) :=
  enter (.make name d) <|
    match d.maker with
    | .placeholderConfigurer => return .ok (← Run.create d.typeName .placeholderConfigurer)
    | .hosted factory => do
      match ← E.run Facade.direct (E.behaviour.make factory d) with
      | .error failure => return .error failure
      | .ok content => return .ok (← Run.create d.typeName (.hosted content))

/-- The error that the failure of a factory is reported as. -/
def makeError (name : String) (failure : Failure) : Error :=
  failure.error?.getD (.hookExecution name .instantiation failure)

/-- The four steps of a build. -/
def construct (E : Engine H) (name : String) (d : Definition H.Factory) : Attempt H (Built H) := do
  let k ← Attempt.step Run.container
  let copy ← E.mergeThrough name k.chain.entries d
  match ← Attempt.step (E.make name copy) with
  | .error failure => throw (makeError name failure)
  | .ok object =>
    Attempt.step (Run.record (.made name object))
    Attempt.step (Run.modifyContainer fun k => k.keepTarget name object)
    let object ← E.walk .before name object
    let object ← E.walk .after name object
    return ⟨copy, object⟩

/-- Builds an object of a definition. The build counts as under way until its last step is done, and
    the target is settled whether the build succeeds or not. The scope that counts is that of the
    copy. -/
def build (E : Engine H) (name : String) (d : Definition H.Factory) :
    Attempt H (Object H.Content) := do
  Attempt.changeContainer fun k => k.beginCreation name
  let result ← Attempt.step (E.construct name d).run
  let built := result.toOption
  Attempt.step (Run.modifyContainer fun k =>
    (k.endCreation name).settleTarget name (built.map Built.object) (Built.isSingleton built))
  let built ← Attempt.ofExcept result
  if built.copy.isSingleton then
    Attempt.step (Run.modifyContainer fun k => k.keepSingleton name built.object)
  return built.object

/-- The singleton of a name if it is built, and a new object otherwise. -/
def obtain (E : Engine H) (name : String) : Attempt H (Object H.Content) := do
  let k ← Attempt.step Run.container
  match k.singletons.get? name with
  | some object => return object
  | none =>
    let d ← Attempt.ofExcept (k.definition name)
    if d.isAbstract then throw (.definition name "abstract definitions cannot be built")
    E.build name d

/-- The object of a name, built unless it is a singleton that is built already. -/
def getOrBuild (E : Engine H) (name : String) : Attempt H (Object H.Content) :=
  Attempt.raise do
    Run.record (.requested name)
    let answer ← (E.obtain name).run
    Run.record (.answered name answer.toOption)
    return answer

/-- The object of a name, viewed through a capability as the facade tells it. -/
def buildFacet (E : Engine H) (facade : Facade) (name : String) (c : Capability) :
    Attempt H (Facet H.Content) := do
  let object ← E.getOrBuild name
  let k ← Attempt.step Run.container
  match facade.facet? k name object c with
  | some facet => return facet
  | none => throw (.definition name ("built object does not expose " ++ c.label))

/-- Builds those of some names that are eager singletons and not built yet, and counts them. -/
def preInstantiateAll (E : Engine H) : List String → Nat → Attempt H Nat
  | [], count => return count
  | name :: rest, count => do
    let k ← Attempt.step Run.container
    if (k.definitions.get? name).any Definition.isEager && !k.containsSingleton name then
      let _ ← E.getOrBuild name
      E.preInstantiateAll rest (count + 1)
    else E.preInstantiateAll rest count

/-- Builds every eager singleton that is not built yet, in registration order, and counts them. -/
def preInstantiate (E : Engine H) : Attempt H Nat := do
  let k ← Attempt.step Run.container
  E.preInstantiateAll k.names 0

/-- Tells listeners of an event, one after the other. -/
def notifyAll (E : Engine H) (event : Event) : List (String × Object H.Content) → Run H Unit
  | [] => return
  | (name, listener) :: rest => do
    let _ ← enter (.notify name listener event) <|
      match listener.substance with
      | .hosted content => do
        E.run E.facade (E.behaviour.notify content event)
        return .ok ()
      | .placeholderConfigurer => return .ok ()
    E.notifyAll event rest

/-- Tells the listeners that are subscribed now of an event, and counts them. -/
def publish (E : Engine H) (event : Event) : Run H Nat := do
  let listeners := (← get).listeners
  Run.record (.published event listeners.names)
  E.notifyAll event listeners.entries
  return listeners.size

end Engine

end ObjectBootstrap
