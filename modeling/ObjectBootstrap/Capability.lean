/-!
# Capability

What an object can do, as its definition declares it, and the views that a capability opens onto a
built object. Every capability but one has a view. The exception marks interceptors that finalize
definition metadata: it is a mark for the bring-up, and the object is used as an interceptor.

## Main definitions

* `Capability`: what a definition can declare.
* `FacetKind`: the ways in which a built object can be used.
* `Capability.facetKind?`: the view a capability opens.
-/

namespace ObjectBootstrap

/-- What a definition can declare about its objects. -/
inductive Capability where
  | mutatesRegistry
  | customizesFactory
  | interceptsInstance
  | mergesDefinitionMetadata
  | listens
  deriving DecidableEq

/-- The ways in which a built object can be used. -/
inductive FacetKind where
  | mutator
  | customizer
  | interceptor
  | listener
  deriving DecidableEq

namespace Capability

/-- Every capability, in declaration order. -/
def all : List Capability :=
  [mutatesRegistry, customizesFactory, interceptsInstance, mergesDefinitionMetadata, listens]

/-- The written form of a capability. -/
def label : Capability → String
  | mutatesRegistry => "mutates-registry"
  | customizesFactory => "customizes-factory"
  | interceptsInstance => "intercepts-instance"
  | mergesDefinitionMetadata => "merges-definition-metadata"
  | listens => "listens"

/-- The name of a capability as a single word. -/
def word : Capability → String
  | mutatesRegistry => "MutatesRegistry"
  | customizesFactory => "CustomizesFactory"
  | interceptsInstance => "InterceptsInstance"
  | mergesDefinitionMetadata => "MergesDefinitionMetadata"
  | listens => "Listens"

/-- Declaring a capability declares these along with it. -/
def implied : Capability → List Capability
  | mutatesRegistry => [customizesFactory]
  | mergesDefinitionMetadata => [interceptsInstance]
  | _ => []

/-- The view that the capability opens onto an object; the metadata mark opens none. -/
def facetKind? : Capability → Option FacetKind
  | mutatesRegistry => some .mutator
  | customizesFactory => some .customizer
  | interceptsInstance => some .interceptor
  | mergesDefinitionMetadata => none
  | listens => some .listener

end Capability

end ObjectBootstrap
