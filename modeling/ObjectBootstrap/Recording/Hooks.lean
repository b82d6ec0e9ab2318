import ObjectBootstrap.Application
import ObjectBootstrap.Recording.Journal

/-!
# Recording hooks

Hooks that record their calls in a journal, for finding out in which order a bring-up calls hooks.
Besides that a mutator may register more parts or else fail, and an interceptor passes objects,
stops the walk, or wraps objects after their initialization.

## Main definitions

* `Part`: the description of a definition with a recording hook.
* `Content`: what the objects hold, wrappers included.
* `layers`: the wrappers around an object.
* `behaviour`: the entry points of recording hooks.
-/

namespace ObjectBootstrap

namespace Recording

/-- What a recording interceptor does with the objects it sees. -/
inductive Reaction where
  | pass
  /-- Ends the walk, before and after initialization. -/
  | stop
  /-- Puts a wrapper around the object after its initialization. -/
  | wrap
  deriving DecidableEq

/-- The description of a definition with a recording hook. -/
inductive Part where
  /-- A mutator that registers parts. -/
  | mutator (name : String) (placement : Placement) (registers : List Part)
  /-- A mutator that fails with a text. -/
  | failingMutator (name : String) (placement : Placement) (message : String)
  | customizer (name : String) (placement : Placement)
  | interceptor (name : String) (placement : Placement) (reaction : Reaction) (merges : Bool)
  | listener (name : String) (isPrototype : Bool)
  | plain (name : String)

/-- The name of a part, which is also the label of its hook. -/
def Part.name : Part → String
  | mutator name _ _ => name
  | failingMutator name _ _ => name
  | customizer name _ => name
  | interceptor name _ _ _ => name
  | listener name _ => name
  | plain name => name

/-- Whether the hook of a part is a mutator. -/
def Part.isMutator : Part → Bool
  | mutator _ _ _ => true
  | failingMutator _ _ _ => true
  | _ => false

/-- The type name of the object of a part. -/
def Part.typeName : Part → String
  | mutator _ _ _ => "mutator"
  | failingMutator _ _ _ => "mutator"
  | customizer _ _ => "customizer"
  | interceptor _ _ _ _ => "interceptor"
  | listener _ _ => "listener"
  | plain _ => "plain"

/-- What an object holds. -/
inductive Content where
  | part (part : Part)
  | wrapper (wrappedBy : String) (inner : Object Content)

/-- The embedding program of recording hooks. -/
def host : Host := ⟨Content, Part, Journal⟩

/-- The type name of wrappers. -/
def wrapperType : String := "wrapper"

mutual

/-- The wrappers around an object by their labels, outermost first. -/
def layers : Object Content → List String
  | ⟨_, _, substance⟩ => layersOf substance

/-- The wrappers that an object is made of. -/
def layersOf : Substance Content → List String
  | .hosted content => Content.layers content
  | .placeholderConfigurer => []

/-- The wrappers in what an object holds. -/
def Content.layers : Content → List String
  | .part _ => []
  | .wrapper wrappedBy inner => wrappedBy :: layers inner

end

/-- The definition that a part stands for. -/
def Part.definition (part : Part) : Definition Part :=
  let d : Definition Part :=
    { name := part.name, typeName := part.typeName, maker := .hosted part }
  match part with
  | .mutator _ placement _ => { d with placement }.declare .mutatesRegistry
  | .failingMutator _ placement _ => { d with placement }.declare .mutatesRegistry
  | .customizer _ placement => { d with placement }.declare .customizesFactory
  | .interceptor _ placement _ merges =>
    { d with placement }.declare
      (if merges then .mergesDefinitionMetadata else .interceptsInstance)
  | .listener _ isPrototype =>
    { d with scope := if isPrototype then .prototype else .singleton }.declare .listens
  | .plain _ => d

/-- Records a call. -/
def record (note : Note) : Prog host Unit :=
  Prog.modifyStore fun (journal : Journal) => journal.record note

/-- Registers parts in turn, up to the first that is refused. -/
def registerParts : List Part → Prog host (Except Failure Unit)
  | [] => return .ok ()
  | part :: rest => do
    match ← Prog.request (.register part.definition) with
    | .error e => return .error (.registry e)
    | .ok () => registerParts rest

/-- A recording interceptor records the call and reacts. -/
def react (stage : Stage) (hook : String) (reaction : Reaction) (object : Object Content)
    (name : String) : Prog host (Except Failure (Option (Object Content))) := do
  record (.intercepted stage hook name)
  match reaction, stage with
  | .stop, _ => return .ok none
  | .wrap, .after =>
    let wrapped ← Prog.request (H := host) (.create wrapperType (.wrapper hook object))
    return .ok (some wrapped)
  | _, _ => return .ok (some object)

/-- The entry points of recording hooks. -/
def behaviour : Behaviour host where
  make part _ := return .ok (.part part)
  mutate content :=
    match content with
    | .part (.mutator name _ registers) => do
      record (.mutated name)
      registerParts registers
    | .part (.failingMutator name _ message) => do
      record (.mutated name)
      return .error (.plain message)
    | _ => return .ok ()
  customize content :=
    match content with
    | .part (.mutator name _ _) | .part (.failingMutator name _ _)
    | .part (.customizer name _) => do
      record (.customized name)
      return .ok ()
    | _ => return .ok ()
  merge _ _ d := return .ok d
  intercept stage content object name :=
    match content with
    | .part (.interceptor hook _ reaction _) => react stage hook reaction object name
    | _ => return .ok (some object)
  notify content event :=
    match content with
    | .part (.listener name _) => record (.told name event.name)
    | _ => return

end Recording

end ObjectBootstrap
