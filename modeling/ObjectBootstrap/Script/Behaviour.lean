import ObjectBootstrap.Script.Host
import ObjectBootstrap.Text.Decimal

/-!
# The entry points of scripted objects

A scripted object journals each call and runs the actions of its script for that entry point. What
it holds tells its label; objects of other kinds have no entry points and let everything pass.

Factories of scripted objects, texts and numbers journal their call and run actions before they make
anything. A text is made of a property, a number is read from one, and a service asks for the
object that it depends on.

## Main definitions

* `makeContent`: the factories.
* `handle`: what an interceptor does with an object.
* `behaviour`: all entry points.
-/

namespace ObjectBootstrap

namespace Script

/-- Makes what an object of a definition holds. -/
def makeContent (spec : Spec Action) (d : Definition (Spec Action)) : Act Content := do
  match spec.kind.getD .scripted with
  | .service => do
    let dependency ← resolve ((d.properties.get? "dep").getD "dep") .scripted
    return .service dependency ((d.properties.get? "table").getD "users")
  | .text => do
    called
    return .text ((d.properties.get? "text").getD "none")
  | .int => do
    called
    let raw := (d.properties.get? "n").getD "0"
    match signedDecimal? raw with
    | some value => return .int value
    | none => throw (.plain ("not an integer: '" ++ raw ++ "'"))
  | .scripted => do
    called
    return .scripted d.name (← nextNumber) d.properties spec.hooks
  | _ => return .plain
where
  /-- Journals the call of the factory and runs its actions. -/
  called : Act Unit := do
    journal (.line ("factory:" ++ d.name))
    runAll (spec.factory.getD [])

/-- Runs the actions of a stage or an event, if there is a session to run them on. -/
def runOnSession (actions : List Action) : Act Unit := do
  let kept ← desk
  if kept.isOpen then runAll actions

/-- The word for a stage in the journal. -/
def stageWord : Stage → String
  | .before => "before"
  | .after => "after"

/-- What an interceptor does with an object. -/
def handle (label : String) (handling : Handling) (message : String) (object : Object Content)
    (name : String) : Act (Option (Object Content)) := do
  match handling with
  | .pass => return some object
  | .stop => return none
  | .fail => throw (.plain message)
  | .wrap => return some (← create (.wrapper label object))
  | .unwrap =>
    match object.substance with
    | .hosted (.wrapper _ inner) => return some inner
    | _ => return some object
  | .text => return some (← create (.text (name ++ " by " ++ label)))

/-- A stage of an interceptor. -/
def runStage (word label : String) (script : Option (StageScript Action)) (name : String)
    {α : Type} (idle : α) (act : StageScript Action → Act α) : Act α := do
  match script with
  | none => return idle
  | some script =>
    if script.applies name then
      journal (.line (word ++ ":" ++ label ++ ":" ++ name))
      runOnSession script.run
      act script
    else return idle

/-- The entry points of scripted objects. -/
def behaviour : Behaviour host where
  make spec d := (makeContent spec d).run
  mutate content := ExceptT.run do
    if let .scripted label _ _ hooks := content then
      journal (.line ("mutate:" ++ label))
      runAll hooks.mutate
  customize content := ExceptT.run do
    if let .scripted label _ _ hooks := content then
      journal (.line ("customize:" ++ label))
      runAll hooks.customize
  merge content name d := ExceptT.run do
    match content with
    | .scripted label _ _ hooks =>
      runStage "merge" label hooks.merge name d fun script => do
        if script.handling = .fail then throw (.plain script.message)
        return d.withDetails (script.edits.apply d.toDetails)
    | _ => return d
  intercept stage content object name := ExceptT.run do
    match content with
    | .scripted label _ _ hooks =>
      let script := match stage with
        | .before => hooks.before
        | .after => hooks.after
      runStage (stageWord stage) label script name (some object) fun script =>
        handle label script.handling script.message object name
    | _ => return some object
  notify content event := do
    if let .scripted label _ _ hooks := content then
      let result ← ExceptT.run (do
        journal (.notified label event)
        runOnSession hooks.event : Act Unit)
      if let .error failure := result then
        Prog.modifyStore (fun (desk : Desk) =>
          { desk with entries := .failed none failure :: desk.entries })

end Script

end ObjectBootstrap
