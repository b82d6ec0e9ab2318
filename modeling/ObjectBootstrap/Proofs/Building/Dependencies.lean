import Mathlib.Data.List.Chain
import Mathlib.Logic.Relation
import ObjectBootstrap.Container

/-!
# Dependencies

Which builds the build of a name entails, when each factory asks for a fixed list of names. A
singleton that is kept already is handed out and not built, so it asks for nothing: it cuts every
path that leads through it.

There are two ways to tell whether a name can be built. `Buildable` follows the builds, each of
which needs those below it, and so it is what comes out of a search that goes depth first.
`Faulty` looks at the graph: some name that is reached is not registered, or only a template, or
lies on a cycle. No name is both. A build that succeeds is a proof of the first and a build that
fails of the second, so the two are complements wherever builds come to an end.

Caches only grow in the course of builds, and what is said of a container with a larger cache is
true of the one with the smaller cache as well, as long as what was added could be built.

## Main definitions

* `DependsOn`, `Reaches`: The builds that a build entails, at once and in the end.
* `Buildable`: The names that can be built along with all they need.
* `Faulty`: The names whose builds come upon a name that cannot be built, or upon a cycle.
* `Done`: The names that need no build anymore, or none whose object is kept.

## Theorems

* `Buildable.of_reaches`, `Buildable.acyclic`: What is reached from a name that can be built.
* `Buildable.not_faulty`: No name is both.
* `not_faulty_iff`: What it means that a name has no fault.
* `DependsOn.mono`, `Faulty.mono`, `Buildable.of_grown`: The two ways under a growing cache.
-/

namespace ObjectBootstrap

variable {H : Host}

/-- The build of one name asks for another one that is not kept yet. -/
def DependsOn (deps : String → List String) (k : Container H) (name next : String) : Prop :=
  next ∈ deps name ∧ k.singletons.get? next = none

/-- One name is reached from another along dependencies, and neither it nor any name on the way is
    kept already. -/
def Reaches (deps : String → List String) (k : Container H) (name last : String) : Prop :=
  k.singletons.get? name = none ∧ Relation.ReflTransGen (DependsOn deps k) name last

/-- The name lies on a cycle of dependencies. -/
abbrev OnCycle (deps : String → List String) (k : Container H) (name : String) : Prop :=
  Relation.TransGen (DependsOn deps k) name name

/-- A definition of the name can be built. -/
def Container.Concrete (k : Container H) (name : String) : Prop :=
  ∃ d, k.definitions.get? name = some d ∧ d.isAbstract = false

/-- The singleton of the name is there, or it can be built along with all that its build needs. -/
inductive Buildable (deps : String → List String) (k : Container H) : String → Prop
  | kept {name : String} {object : Object H.Content} :
    k.singletons.get? name = some object → Buildable deps k name
  | built {name : String} : k.Concrete name → (∀ next ∈ deps name, Buildable deps k next) →
    Buildable deps k name

/-- The build of the name comes upon a name that cannot be built, or upon a cycle. -/
def Faulty (deps : String → List String) (k : Container H) (name : String) : Prop :=
  ∃ last, Reaches deps k name last ∧ (¬k.Concrete last ∨ OnCycle deps k last)

/-- The singleton of the name is there, or the name stands for ever new objects and this holds of
    all that they need. -/
inductive Done (deps : String → List String) (k : Container H) : String → Prop
  | kept {name : String} {object : Object H.Content} :
    k.singletons.get? name = some object → Done deps k name
  | renewed {name : String} {d : Definition H.Factory} :
    k.definitions.get? name = some d → d.isSingleton = false →
      (∀ next ∈ deps name, Done deps k next) → Done deps k name

variable {deps : String → List String} {k k' : Container H} {name last : String}

-- Every name that is reached is still to be built.
theorem Reaches.unkept (h : Reaches deps k name last) : k.singletons.get? last = none := by
  rcases Relation.ReflTransGen.cases_tail h.2 with rfl | ⟨_, _, hlast⟩
  · exact h.1
  · exact hlast.2

theorem Reaches.refl (h : k.singletons.get? name = none) : Reaches deps k name name :=
  ⟨h, .refl⟩

theorem Reaches.head {next : String} (hname : k.singletons.get? name = none)
    (hnext : next ∈ deps name) (h : Reaches deps k next last) : Reaches deps k name last :=
  ⟨hname, .head ⟨hnext, h.1⟩ h.2⟩

namespace Buildable

-- A name that can be built and is not kept has all that it needs.
theorem of_unkept (h : Buildable deps k name) (hname : k.singletons.get? name = none) :
    k.Concrete name ∧ ∀ next ∈ deps name, Buildable deps k next := by
  cases h with
  | kept hkept =>
      rw [hname] at hkept
      cases hkept
  | built hconcrete hdeps => exact ⟨hconcrete, hdeps⟩

/-- Whatever is reached from a name that can be built can be built. -/
theorem of_reaches (h : Buildable deps k name) (hlast : Reaches deps k name last) :
    Buildable deps k last := by
  rcases hlast with ⟨hname, hpath⟩
  induction hpath with
  | refl => exact h
  | tail hpath hstep ih =>
      have hmid := Reaches.unkept ⟨hname, hpath⟩
      exact (ih.of_unkept hmid).2 _ hstep.1

/-- No name that can be built lies on a cycle. -/
theorem acyclic (h : Buildable deps k name) (hname : k.singletons.get? name = none) :
    ¬OnCycle deps k name := by
  induction h with
  | kept hkept =>
      rw [hname] at hkept
      cases hkept
  | built _ _ ih =>
      intro hcycle
      -- A cycle through the name leads through the name behind it as well.
      rcases Relation.TransGen.head'_iff.1 hcycle with ⟨next, hnext, hback⟩
      exact ih next hnext.1 hnext.2 (Relation.TransGen.tail' hback hnext)

theorem not_faulty (h : Buildable deps k name) : ¬Faulty deps k name := by
  rintro ⟨last, hlast, hconcrete | hcycle⟩
  · exact hconcrete ((h.of_reaches hlast).of_unkept hlast.unkept).1
  · exact (h.of_reaches hlast).acyclic hlast.unkept hcycle

/-- What can be built with a larger cache can be built, if what was added to the cache could. -/
theorem of_grown (h : Buildable deps k' name)
    (hdefinitions : k'.definitions = k.definitions)
    (hadded : ∀ name object, k'.singletons.get? name = some object → Buildable deps k name) :
    Buildable deps k name := by
  induction h with
  | kept hkept => exact hadded _ _ hkept
  | built hconcrete _ ih =>
      refine .built ?_ ih
      unfold Container.Concrete at *
      rwa [← hdefinitions]

end Buildable

/-- A name without faults reaches only names that can be built, and none that lies on a cycle. -/
theorem not_faulty_iff : ¬Faulty deps k name ↔
    (∀ last, Reaches deps k name last → k.Concrete last) ∧
      ∀ last, Reaches deps k name last → ¬OnCycle deps k last := by
  constructor
  · intro h
    refine ⟨fun last hlast => ?_, fun last hlast hcycle => h ⟨last, hlast, Or.inr hcycle⟩⟩
    by_contra hnot
    exact h ⟨last, hlast, Or.inl hnot⟩
  · rintro ⟨hconcrete, hacyclic⟩ ⟨last, hlast, hnot | hcycle⟩
    · exact hnot (hconcrete last hlast)
    · exact hacyclic last hlast hcycle

section Growing

variable (hkeeps : ∀ name, k'.singletons.get? name = none → k.singletons.get? name = none)
include hkeeps

theorem DependsOn.mono : DependsOn deps k' ≤ DependsOn deps k :=
  fun _ next h => ⟨h.1, hkeeps next h.2⟩

theorem Reaches.mono (h : Reaches deps k' name last) : Reaches deps k name last :=
  ⟨hkeeps name h.1, Relation.ReflTransGen.mono (DependsOn.mono hkeeps) _ _ h.2⟩

/-- A fault that is met with a larger cache is there with the smaller cache too. -/
theorem Faulty.mono (h : Faulty deps k' name) (hdefinitions : k'.definitions = k.definitions) :
    Faulty deps k name := by
  rcases h with ⟨last, hlast, hfault⟩
  refine ⟨last, hlast.mono hkeeps, hfault.imp ?_ ?_⟩
  · unfold Container.Concrete
    rw [hdefinitions]
    exact id
  · exact Relation.TransGen.mono (DependsOn.mono hkeeps) _ _

end Growing

-- What is done stays done when singletons are added.
theorem Done.mono (h : Done deps k name) (hdefinitions : k'.definitions = k.definitions)
    (hkept : ∀ name object, k.singletons.get? name = some object →
      k'.singletons.get? name = some object) : Done deps k' name := by
  induction h with
  | kept hobject => exact .kept (hkept _ _ hobject)
  | renewed hd hsingleton _ ih => exact .renewed (hdefinitions ▸ hd) hsingleton ih

-- A singleton that is done is kept.
theorem Done.kept_of_singleton (h : Done deps k name) {d : Definition H.Factory}
    (hd : k.definitions.get? name = some d) (hsingleton : d.isSingleton = true) :
    ∃ object, k.singletons.get? name = some object := by
  cases h with
  | kept hobject => exact ⟨_, hobject⟩
  | renewed hd' hnot _ =>
      rw [hd, Option.some.injEq] at hd'
      rw [← hd', hsingleton] at hnot
      cases hnot

end ObjectBootstrap
