import ObjectBootstrap.Placement

/-!
# Discovery passes

Registry mutators are looked for again and again, because mutators may register mutators. The first
pass takes the highest tier, the second one everything ordered, and the passes after that take
whatever is left, until one of them finds nothing. A name that was taken is never taken again in the
same bring-up.

## Main definitions

* `DiscoveryPass`: a pass, and which tiers it admits.
* `Round`: what was invoked in a pass.
* `Processed`: the names that were taken.
-/

namespace ObjectBootstrap

/-- One pass of the search for registry mutators. -/
inductive DiscoveryPass where
  | highest
  | ordered
  /-- Repeated until a pass finds nothing; numbered from one. -/
  | reiteration (number : Nat)
  deriving DecidableEq

namespace DiscoveryPass

/-- Whether the pass takes hooks of a tier. -/
def admits : DiscoveryPass → Tier → Bool
  | highest, tier => tier == .highest
  | ordered, tier => tier.isOrdered
  | reiteration _, _ => true

/-- The written form of a pass. -/
def label : DiscoveryPass → String
  | highest => "highest"
  | ordered => "ordered"
  | reiteration number => "reiteration-" ++ toString number

end DiscoveryPass

/-- The hooks that were invoked in a pass, in invocation order. -/
structure Round where
  pass : DiscoveryPass
  invoked : List String
  deriving DecidableEq

/-- The names of the registry mutators that were taken in one bring-up, in the order in which they
    were taken. -/
structure Processed where
  names : List String := []
  deriving DecidableEq

namespace Processed

/-- Whether a name was taken. -/
def contains (p : Processed) (name : String) : Bool := p.names.contains name

/-- Takes a name; the answer tells whether it is new. -/
def insert (p : Processed) (name : String) : Bool × Processed :=
  if p.contains name then (false, p) else (true, ⟨p.names ++ [name]⟩)

/-- The names in ascending order. -/
def sorted (p : Processed) : List String := p.names.mergeSort fun a b => decide (a ≤ b)

end Processed

end ObjectBootstrap
