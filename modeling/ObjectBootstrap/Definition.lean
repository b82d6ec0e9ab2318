import ObjectBootstrap.Object
import ObjectBootstrap.Placement
import ObjectBootstrap.Properties

/-!
# Definitions

How one object is built, in declarative form. Some parts of a definition are fixed when it is made:
its name, the type of its objects, its scope, its capabilities and its factory. The others, its
details, may be edited later, in the registry or for a single build. Whoever edits a definition may
also put another one in its place as a whole, and then nothing is left of the fixed parts either.

## Main definitions

* `Details`: the parts of a definition that may be edited.
* `Definition`: a whole definition.
* `Definition.declare`: adds a capability with those it implies.
* `Definition.cast?`: views an object through a declared capability.
* `Definition.EditedTo`: a definition of which only details were edited.
* `Definition.LastsAs`: the same for what stands under its name.
-/

namespace ObjectBootstrap

/-- Whom a definition is for. -/
inductive Role where
  | application
  | support
  | infrastructure
  deriving DecidableEq

namespace Role

/-- Every role, in declaration order. -/
def all : List Role := [application, support, infrastructure]

/-- The written form of a role. -/
def label : Role → String
  | application => "application"
  | support => "support"
  | infrastructure => "infrastructure"

end Role

/-- How long a built object lives. -/
inductive Scope where
  /-- Built once and kept by the registry. -/
  | singleton
  /-- Built anew on each request. -/
  | prototype
  deriving DecidableEq

namespace Scope

/-- Every scope, in declaration order. -/
def all : List Scope := [singleton, prototype]

/-- The written form of a scope. -/
def label : Scope → String
  | singleton => "singleton"
  | prototype => "prototype"

end Scope

/-- The parts of a definition that may be edited after it was made. -/
structure Details where
  role : Role := .application
  placement : Placement := {}
  lazyInit : Bool := false
  properties : Properties := Properties.empty
  deriving DecidableEq

/-- Sets a property. -/
def Details.setProperty (d : Details) (key text : String) : Details :=
  { d with properties := d.properties.set key text }

/-- What makes the objects of a definition. -/
inductive Maker (F : Type) where
  /-- A factory of the embedding program. -/
  | hosted (factory : F)
  /-- Makes a resolver of placeholders. -/
  | placeholderConfigurer
  deriving DecidableEq

/-- How one object is built. -/
structure Definition (F : Type) extends Details where
  name : String
  typeName : String
  scope : Scope := .singleton
  /-- A template, which is never built. -/
  isAbstract : Bool := false
  capabilities : List Capability := []
  maker : Maker F
  deriving DecidableEq

namespace Definition

variable {F C : Type}

/-- Whether the object is built once and kept. -/
def isSingleton (d : Definition F) : Bool := d.scope == .singleton

/-- Whether the definition declares a capability. -/
def hasCapability (d : Definition F) (c : Capability) : Bool := d.capabilities.contains c

/-- The declared capabilities in declaration order of `Capability`. -/
def declared (d : Definition F) : List Capability := Capability.all.filter d.hasCapability

/-- Declares a capability and those it implies. -/
def declare (d : Definition F) (c : Capability) : Definition F :=
  { d with capabilities := d.capabilities ++ c :: c.implied }

/-- Views an object through a capability. The capability has to be declared and to open a view, and
    the object has to be of the type that the definition names. -/
def cast? (d : Definition F) (object : Object C) (c : Capability) : Option (Facet C) :=
  if d.hasCapability c && object.typeName == d.typeName then
    c.facetKind?.map fun kind => ⟨kind, object⟩
  else none

/-- Replaces the details of a definition and keeps its fixed parts. -/
def withDetails (d : Definition F) (details : Details) : Definition F :=
  { d with toDetails := details }

/-- Only details of a definition were edited, and no other definition was put in its place. -/
def EditedTo (d e : Definition F) : Prop := ∃ details, e = d.withDetails details

/-- What stands under the name of a definition is the definition, up to its details. The name that
    it carries does not count, because it is found under the one that it was registered with. -/
def LastsAs (d e : Definition F) : Prop :=
  ∃ details name, e = { d with toDetails := details, name := name }

instance [DecidableEq F] (d e : Definition F) : Decidable (d.LastsAs e) :=
  decidable_of_iff (e = { d with toDetails := e.toDetails, name := e.name })
    ⟨fun h => ⟨_, _, h⟩, fun ⟨_, _, h⟩ => by rw [h]⟩

/-- A definition that carries another name. -/
def renamed (d : Definition F) (name : String) : Definition F := { d with name := name }

theorem lastsAs_renamed (d : Definition F) (name : String) : (d.renamed name).LastsAs d :=
  ⟨d.toDetails, d.name, rfl⟩

/-- A definition that was not edited at all. -/
theorem EditedTo.refl (d : Definition F) : d.EditedTo d := ⟨d.toDetails, rfl⟩

theorem EditedTo.trans {d e f : Definition F} (hde : d.EditedTo e) (hef : e.EditedTo f) :
    d.EditedTo f := by
  rcases hde with ⟨_, rfl⟩
  rcases hef with ⟨details, rfl⟩
  exact ⟨details, rfl⟩

theorem EditedTo.lastsAs {d e : Definition F} (h : d.EditedTo e) : d.LastsAs e := by
  rcases h with ⟨details, rfl⟩
  exact ⟨details, d.name, rfl⟩

theorem LastsAs.refl (d : Definition F) : d.LastsAs d := ⟨d.toDetails, d.name, rfl⟩

section Fixed

variable {d e : Definition F} (h : d.LastsAs e)
include h

theorem LastsAs.isSingleton_eq : e.isSingleton = d.isSingleton := by
  rcases h with ⟨_, _, rfl⟩
  rfl

theorem LastsAs.isAbstract_eq : e.isAbstract = d.isAbstract := by
  rcases h with ⟨_, _, rfl⟩
  rfl

theorem LastsAs.typeName_eq : e.typeName = d.typeName := by
  rcases h with ⟨_, _, rfl⟩
  rfl

theorem LastsAs.maker_eq : e.maker = d.maker := by
  rcases h with ⟨_, _, rfl⟩
  rfl

-- What is left of the same definition lasts as each other.
theorem LastsAs.of_lastsAs {f : Definition F} (hf : d.LastsAs f) : e.LastsAs f := by
  rcases h with ⟨_, _, rfl⟩
  rcases hf with ⟨details, name, rfl⟩
  exact ⟨details, name, rfl⟩

end Fixed

end Definition

end ObjectBootstrap
