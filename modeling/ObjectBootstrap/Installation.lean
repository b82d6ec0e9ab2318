import ObjectBootstrap.Customization

/-!
# Installation of interceptors

The chain is put together once: a sentinel first, then the registered interceptors tier by tier,
then those that finalize definition metadata once more, which moves them behind the others, and at
last the listener detector. Each tier is built when the tiers above it are installed, so the objects
that its factories ask for pass through an incomplete chain. The sentinel notes these objects. It
takes the chain to be complete when it holds as many hooks as were installed before, plus itself,
plus the registered interceptors.

## Main definitions

* `Engine.installationPhase`: puts the chain together.
-/

namespace ObjectBootstrap

namespace Engine

variable {H : Host}

/-- Builds an interceptor. -/
def buildInterceptor (E : Engine H) (facade : Facade) (candidate : Candidate) :
    Attempt H (Ranked (Object H.Content)) := do
  let hook ←
    E.buildHook facade .instanceHookRegistration .interceptsInstance .interceptor candidate.1
  return ⟨candidate.1, candidate.2, hook⟩

/-- Builds an interceptor, and tells whether it finalizes definition metadata by the time it is
    built. -/
def buildMarked (E : Engine H) (facade : Facade) (candidate : Candidate) :
    Attempt H (Ranked (Object H.Content × Bool)) := do
  let ranked ← E.buildInterceptor facade candidate
  let k ← Attempt.step Run.container
  return ⟨ranked.name, ranked.placement,
    (ranked.hook, k.typeMatch candidate.1 .mergesDefinitionMetadata)⟩

/-- Installs hooks in turn. -/
def installEach : List (Ranked (Object H.Content × Bool)) → Run H Unit
  | [] => return
  | ranked :: rest => do
    Run.install ranked.name (.object ranked.hook.1)
    installEach rest

/-- Sorts hooks and installs them. -/
def installTier (hooks : List (Ranked (Object H.Content × Bool))) : Run H Unit :=
  installEach (sortRanked hooks)

/-- Makes a sentinel; the answer is its number. -/
def addSentinel (target : Nat) : Run H Nat :=
  modifyGet fun s => (s.sentinels.length, { s with sentinels := s.sentinels ++ [⟨target, []⟩] })

/-- Puts the chain of interceptors together. -/
def installationPhase (E : Engine H) (facade : Facade) (config : Config) :
    Attempt H Installation := do
  let names ← Attempt.step (Run.namesFor
    ⟨.interceptsInstance, config.includeNonSingletons, config.allowEagerInit⟩)
  let k ← Attempt.step Run.container
  let target := k.chain.size + 1 + names.length
  let sentinel ← Attempt.step (addSentinel target)
  Attempt.step (Run.install sentinelName (.sentinel sentinel))
  let build := E.buildMarked facade
  let division ← divide facade build names
  Attempt.step (installTier division.highest)
  let ordered ← buildEach build division.ordered
  Attempt.step (installTier ordered)
  let plain ← buildEach build division.plain
  Attempt.step (installTier plain)
  let mergers := (division.highest ++ ordered ++ plain).filter fun ranked => ranked.hook.2
  Attempt.step (installTier mergers)
  Attempt.step (Run.install listenerDetectorName .listenerDetector)
  let k ← Attempt.step Run.container
  return { target, chain := k.chain.names, sentinel }

end Engine

end ObjectBootstrap
