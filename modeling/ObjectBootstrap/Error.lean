/-!
# Errors

Why a bring-up or a build fails. An `Error` is a failure that the registry itself reports, with a
cause. A `Failure` is what a hook or a factory raises: a plain text, or a registry error that it
met and passed on, under any number of notes that were put on it along the way. A note may be a
registry error itself, and then it is the one that the failure is taken for. A hook that fails turns
its failure into the source of a registry error, so the two kinds contain each other.

## Main definitions

* `Phase`: where in the bring-up or in a build something happened.
* `Error`, `Failure`: the two kinds of failure.
* `Error.message`, `Error.texts`: the wording, alone and with everything below it.
* `Failure.error?`: the registry error that a failure passes on.
-/

namespace ObjectBootstrap

/-- Where in the bring-up or in a build something happened. -/
inductive Phase where
  | registryMutation
  | factoryCustomization
  | instanceHookRegistration
  | instantiation
  | definitionMerge
  | beforeInitialization
  | afterInitialization
  deriving DecidableEq

namespace Phase

/-- Every phase, in declaration order. -/
def all : List Phase :=
  [registryMutation, factoryCustomization, instanceHookRegistration, instantiation,
    definitionMerge, beforeInitialization, afterInitialization]

/-- The written form of a phase. -/
def label : Phase → String
  | registryMutation => "registry-mutation"
  | factoryCustomization => "factory-customization"
  | instanceHookRegistration => "instance-hook-registration"
  | instantiation => "instantiation"
  | definitionMerge => "definition-merge"
  | beforeInitialization => "before-initialization"
  | afterInitialization => "after-initialization"

end Phase

mutual

/-- A failure that the registry reports. -/
inductive Error where
  /-- The definition of this name cannot be used as asked. -/
  | definition (name message : String)
  /-- A hook, or the factory of a definition, raised a failure. -/
  | hookExecution (hook : String) (phase : Phase) (source : Failure)
  /-- The registry has no placement for this name. -/
  | classification (name : String)
  /-- The build of the last name on the path was asked for inside its own build. -/
  | circularDependency (path : List String)
  /-- The built object is of another type than the one asked for. -/
  | downcastFailed (name typeName : String)
  | internal (message : String)

/-- What a hook or a factory raises. -/
inductive Failure where
  | plain (message : String)
  /-- A registry error that was met and passed on. -/
  | registry (reported : Error)
  /-- A note put on a failure while it was passed on. -/
  | noted (note : String) (failure : Failure)
  /-- A registry error put on a failure as a note. -/
  | restated (reported : Error) (failure : Failure)

end

mutual

/-- The text of a registry error. It quotes only the outermost text of a source. -/
def Error.message : Error → String
  | .definition name message => "Invalid definition '" ++ name ++ "': " ++ message
  | .hookExecution hook phase source =>
    "Hook '" ++ hook ++ "' failed during " ++ phase.label ++ ": " ++ source.message
  | .classification name => "Could not classify hook '" ++ name ++ "'"
  | .circularDependency path => "Circular dependency detected: " ++ " -> ".intercalate path
  | .downcastFailed name typeName => "Failed to downcast '" ++ name ++ "' to " ++ typeName
  | .internal message => "Internal error: " ++ message

/-- The outermost text of a failure. -/
def Failure.message : Failure → String
  | .plain message => message
  | .registry reported => reported.message
  | .noted note _ => note
  | .restated reported _ => reported.message

end

mutual

/-- The text of a registry error, then the texts of what caused it, outermost first. -/
def Error.texts : Error → List String
  | .hookExecution hook phase source =>
    (Error.hookExecution hook phase source).message :: source.texts
  | .definition name message => [(Error.definition name message).message]
  | .classification name => [(Error.classification name).message]
  | .circularDependency path => [(Error.circularDependency path).message]
  | .downcastFailed name typeName => [(Error.downcastFailed name typeName).message]
  | .internal message => [(Error.internal message).message]

/-- The texts of a failure, outermost first. -/
def Failure.texts : Failure → List String
  | .plain message => [message]
  | .registry reported => reported.texts
  | .noted note failure => note :: failure.texts
  | .restated reported failure => reported.message :: failure.texts

end

/-- The registry error that a failure passes on, whatever plain notes were put on it. -/
def Failure.error? : Failure → Option Error
  | .plain _ => none
  | .registry reported => some reported
  | .noted _ failure => failure.error?
  | .restated reported _ => some reported

/-- The hook that raised the failure, when a hook did. -/
def Error.hook? : Error → Option String
  | .hookExecution hook _ _ => some hook
  | _ => none

/-- The phase in which a hook failed, when a hook did. -/
def Error.phase? : Error → Option Phase
  | .hookExecution _ phase _ => some phase
  | _ => none

/-- The name of the kind of an error. -/
def Error.kind : Error → String
  | .definition _ _ => "Definition"
  | .hookExecution _ _ _ => "HookExecution"
  | .classification _ => "Classification"
  | .circularDependency _ => "CircularDependency"
  | .downcastFailed _ _ => "DowncastFailed"
  | .internal _ => "Internal"

end ObjectBootstrap
