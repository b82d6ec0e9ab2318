import ObjectBootstrap.Installation

/-!
# Running programs

A program is run request by request. A request that calls hooks or factories in turn is answered
with an engine one level less deep, so an engine of depth zero runs only programs that ask for
nothing but edits. Any program that needs no more than some depth runs alike at every greater depth.

## Main definitions

* `Prog.interpret`: runs a program, given how requests are answered.
* `Engine.answer`: answers a request.
* `Engine.ofDepth`: the engine of a depth.
-/

namespace ObjectBootstrap

variable {H : Host}

/-- Runs a program, given how requests are answered. -/
def Prog.interpret (answer : {β : Type} → Request H β → Run H β) {α : Type} :
    Prog H α → Run H α
  | .done result => return result
  | .ask request next => do
    let reply ← answer request
    (next reply).interpret answer
  | .update name edit next => do
    match (← Run.container).definition name with
    | .error e => (next (.error e)).interpret answer
    | .ok d =>
      let (result, edited) ← (edit d).interpret answer
      Run.modifyContainer fun k => k.writeBack name edited
      Run.record (.updated name edited)
      (next (.ok result)).interpret answer

namespace Engine

/-- Answers a request of a program that is handed the registry behind a facade. -/
def answer (E : Engine H) (facade : Facade) : {β : Type} → Request H β → Run H β
  | _, .namesFor query => Run.namesFor query
  | _, .typeMatch name c => return (← Run.container).typeMatch name c
  | _, .placement name => return facade.placement (← Run.container) name
  | _, .getOrBuild name => (E.getOrBuild name).run
  | _, .facet name object c => return facade.facet? (← Run.container) name object c
  | _, .definition name => return (← Run.container).definition name
  | _, .contains name => return (← Run.container).contains name
  | _, .definitionNames => return (← Run.container).names
  | _, .register d => (Attempt.register d).run
  | _, .install name hook => Run.install name (.object hook)
  | _, .installedNames => return (← Run.container).chain.names
  | _, .invalidate => Run.modifyContainer Container.invalidate
  | _, .containsSingleton name => return (← Run.container).containsSingleton name
  | _, .preInstantiate => E.preInstantiate.run
  | _, .walk stage name object => (E.walk stage name object).run
  | _, .mutationPhase config externals => (E.mutationPhase facade config externals).run
  | _, .customizationPhase config processed => (E.customizationPhase facade config processed).run
  | _, .installationPhase config => (E.installationPhase E.facade config).run
  | _, .sentinel number => return (← get).sentinels[number]?
  | _, .isPremature target name => return (← Run.container).isPremature target name
  | _, .detectListener name object => detectListener E.facade name object
  | _, .addListener name listener =>
    modify fun s => { s with listeners := s.listeners.insert name listener }
  | _, .removeListener name => do
    let found ← modifyGet fun s =>
      (s.listeners.contains name, { s with listeners := s.listeners.erase name })
    Run.record (.unsubscribed name)
    return found
  | _, .listenerNames => return (← get).listeners.names
  | _, .publish event => E.publish event
  | _, .settings => return (← get).settings
  | _, .setSetting key text => modify fun s => { s with settings := s.settings.set key text }
  | _, .create typeName content => Run.create typeName (.hosted content)
  | _, .recall => return (← get).store
  | _, .remember store => modify fun s => { s with store }

/-- The engine of a depth, which also bounds the reiterations of the registry mutation phase. -/
def ofDepth (behaviour : Behaviour H) (facade : Facade) : Nat → Engine H
  | 0 => ⟨behaviour, facade, 0, fun _ program => program.interpret fun _ => Run.exhausted⟩
  | depth + 1 =>
    ⟨behaviour, facade, depth + 1, fun shown program =>
      program.interpret ((ofDepth behaviour facade depth).answer shown)⟩

end Engine

end ObjectBootstrap
