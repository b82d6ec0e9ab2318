/-!
# Placement

Where a hook stands among the hooks of its batch. A placement is a tier and, inside the tier, an
optional rank. The tier decides first; a lower rank comes first inside a tier; and hooks that tie
keep the order in which they were discovered. A hook without a rank is compared as if it carried
the largest rank there is, so it can tie with a hook that carries that rank explicitly.

## Main definitions

* `Tier`, `Placement`: the two parts of a position.
* `Placement.sortKey`: what two positions are compared by.
* `Ranked`, `sortRanked`: a hook with its position, and a batch of them put in order.
-/

namespace ObjectBootstrap

/-- Coarse priority of a hook; the tiers are listed in the order in which they run. -/
inductive Tier where
  | highest
  | ordered
  | plain
  deriving DecidableEq

namespace Tier

/-- Every tier, first to last. -/
def all : List Tier := [highest, ordered, plain]

/-- Position of the tier in the running order. -/
def level : Tier → Nat
  | highest => 0
  | ordered => 1
  | plain => 2

/-- The two upper tiers count as ordered: a hook of the highest tier that turns up late is still
    taken in the pass after its own. -/
def isOrdered : Tier → Bool
  | highest => true
  | ordered => true
  | plain => false

/-- The written form of a tier. -/
def label : Tier → String
  | highest => "highest"
  | ordered => "ordered"
  | plain => "plain"

end Tier

/-- Tier and rank carried by a registration. -/
structure Placement where
  tier : Tier := .plain
  rank : Option Int32 := none
  deriving DecidableEq

/-- What batches are sorted by: the tier, then the rank. -/
structure SortKey where
  tier : Tier
  rank : Int32
  deriving DecidableEq

/-- Lexicographic comparison of sort keys. -/
def SortKey.le (a b : SortKey) : Bool :=
  decide (a.tier.level < b.tier.level) || (a.tier == b.tier && decide (a.rank ≤ b.rank))

/-- A missing rank is compared as the largest rank. -/
def Placement.sortKey (p : Placement) : SortKey :=
  ⟨p.tier, p.rank.getD Int32.maxValue⟩

/-- A hook with the name and the position it was discovered under. -/
structure Ranked (α : Type) where
  name : String
  placement : Placement
  hook : α

/-- Puts a batch in running order; hooks with equal keys keep their order of discovery. -/
def sortRanked {α : Type} (hooks : List (Ranked α)) : List (Ranked α) :=
  hooks.mergeSort fun a b => a.placement.sortKey.le b.placement.sortKey

end ObjectBootstrap
