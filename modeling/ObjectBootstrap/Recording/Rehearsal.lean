import ObjectBootstrap.Interpreter
import ObjectBootstrap.Recording.Hooks

/-!
# Rehearsals

An application of recording hooks is brought up; then more interceptors are installed and objects
are asked for; and the journal tells what was called.

## Main definitions

* `Rehearsal`: what a rehearsal starts from.
* `Playback`: what it tells.
* `Rehearsal.run`: the rehearsal.
-/

namespace ObjectBootstrap

namespace Recording

/-- What a rehearsal starts from. -/
structure Rehearsal where
  parts : List Part := []
  /-- Mutators and customizers that have no definition. -/
  externals : List Part := []
  /-- Interceptors that are installed once the application is up. -/
  late : List (String × Reaction) := []
  /-- The names that are asked for in the end. -/
  names : List String := []
  stamp : Stamp

/-- What a rehearsal tells. -/
structure Playback where
  report : Report
  /-- The wrappers around the objects that were asked for. -/
  found : List (Except Error (List String))
  journal : Journal

/-- Makes the external hooks of a list. -/
def createExternals : List Part → Prog host (List (ExternalHook Content))
  | [] => return []
  | part :: rest => do
    let hook ← Prog.request (H := host) (.create part.typeName (.part part))
    let hooks ← createExternals rest
    return ⟨part.name, part.isMutator, hook⟩ :: hooks

/-- Installs interceptors in turn. -/
def installLate : List (String × Reaction) → Prog host Unit
  | [] => return
  | (name, reaction) :: rest => do
    let part : Part := .interceptor name {} reaction false
    let hook ← Prog.request (H := host) (.create part.typeName (.part part))
    Prog.request (H := host) (.install name hook)
    installLate rest

/-- Asks for names one after the other, and looks at the wrappers around their objects. -/
def findEach : List String → Prog host (List (Except Error (List String)))
  | [] => return []
  | name :: rest => do
    let found : Except Error (Object Content) ← Prog.request (H := host) (.getOrBuild name)
    let more ← findEach rest
    return found.map layers :: more

/-- What happens once the application is up. -/
def playBack (r : Rehearsal) (report : Report) : Prog host Playback := do
  installLate r.late
  let found ← findEach r.names
  let journal : Journal ← Prog.request .recall
  return { report, found, journal }

/-- Brings the application up and goes on; a failed bring-up leaves its error and the journal. -/
def Rehearsal.perform (r : Rehearsal) (engine : Engine host) :
    Run host (Except (Error × Journal) Playback) := do
  let externals ← engine.run Facade.direct (createExternals r.externals)
  let setup : Setup host :=
    { definitions := r.parts.map Part.definition, externals, stamp := r.stamp }
  match ← (engine.bringUp setup).run with
  | .error e => return .error (e, (← get).store)
  | .ok (report, _) => return .ok (← engine.run Facade.direct (playBack r report))

/-- Runs a rehearsal. Without an answer the depth was too small. -/
def Rehearsal.run (r : Rehearsal) (depth : Nat) : Option (Except (Error × Journal) Playback) :=
  let engine := Engine.ofDepth behaviour Facade.direct depth
  let journal : Journal := {}
  ((r.perform engine).run { store := journal }).map Prod.fst

end Recording

end ObjectBootstrap
