import ObjectBootstrap.Capability

/-!
# Objects

What the registry builds and hands around. The registry sees of an object only its type name and a
serial number; what it holds is the business of the embedding program, which supplies the type of
contents. The one exception is an object that the registry brings along, the resolver of
placeholders.

Two objects are the same when type name and serial number agree. Serial numbers are given out once,
so objects that were created apart are never the same.

## Main definitions

* `Object`: a built object.
* `Object.same`: identity of objects.
* `Facet`: an object viewed through a capability.
-/

namespace ObjectBootstrap

/-- What an object is made of. -/
inductive Substance (C : Type) where
  /-- Something of the embedding program. -/
  | hosted (content : C)
  /-- The resolver of placeholders in definition properties. -/
  | placeholderConfigurer

/-- An object as the registry handles it. -/
structure Object (C : Type) where
  typeName : String
  serial : Nat
  substance : Substance C

/-- Whether two objects are one and the same. -/
def Object.same {C : Type} (a b : Object C) : Bool :=
  a.serial == b.serial && a.typeName == b.typeName

/-- An object viewed through a capability. -/
structure Facet (C : Type) where
  kind : FacetKind
  object : Object C

end ObjectBootstrap
