import ObjectBootstrap.Object

/-!
# The chain of interceptors

The hooks that every build passes through, in the order in which they were installed last. A hook
that is installed again under a name that the chain holds moves to the end, so a chain never holds a
name twice.

Two hooks are not objects of the embedding program. A sentinel notes which objects are built while
the chain is still incomplete, and the listener detector subscribes listeners as they are built.

## Main definitions

* `Hook`: an installed hook.
* `HookChain`: the chain, with `add` and `names`.

## Theorems

* `names_add`: which names there are after an installation, and in which order.
* `nodup_names_add`: a chain never comes to hold a name twice.
-/

namespace ObjectBootstrap

/-- A hook of the chain. -/
inductive Hook (C : Type) where
  /-- An object of the embedding program, or one that the registry brings along. -/
  | object (self : Object C)
  /-- The sentinel of this number. -/
  | sentinel (number : Nat)
  | listenerDetector

/-- An installed hook and the name it was installed under. -/
structure ChainEntry (C : Type) where
  name : String
  hook : Hook C

/-- The installed hooks, in the order in which builds pass through them. -/
structure HookChain (C : Type) where
  entries : List (ChainEntry C) := []

namespace HookChain

variable {C : Type}

/-- The chain without any hook. -/
def empty : HookChain C := ⟨[]⟩

/-- The names of the installed hooks, in order. -/
def names (chain : HookChain C) : List String := chain.entries.map ChainEntry.name

/-- The number of installed hooks. -/
def size (chain : HookChain C) : Nat := chain.entries.length

/-- Installs a hook at the end; a hook of the same name makes way for it. -/
def add (chain : HookChain C) (name : String) (hook : Hook C) : HookChain C :=
  ⟨chain.entries.filter (fun entry => entry.name != name) ++ [⟨name, hook⟩]⟩

/-- The installed name stands at the end, and the others keep their order. -/
theorem names_add (chain : HookChain C) (name : String) (hook : Hook C) :
    (chain.add name hook).names = chain.names.filter (fun n => n != name) ++ [name] := by
  simp only [names, add, List.map_append, List.filter_map, List.map_cons, List.map_nil]
  rfl

/-- No name is installed twice after an installation if none was before. -/
theorem nodup_names_add {chain : HookChain C} (h : chain.names.Nodup) (name : String)
    (hook : Hook C) : (chain.add name hook).names.Nodup := by
  rw [names_add, List.nodup_append]
  refine ⟨h.filter _, by simp, ?_⟩
  intro a ha b hb
  rw [List.mem_singleton] at hb
  have := (List.mem_filter.1 ha).2
  simpa [hb] using this

/-- There are as many hooks as names. -/
theorem length_names (chain : HookChain C) : chain.names.length = chain.size := by
  simp [names, size]

end HookChain

/-- The name that sentinels are installed under. -/
def sentinelName : String := "meshestra.bootstrapSentinel"

/-- The name that the listener detector is installed under. -/
def listenerDetectorName : String := "meshestra.listenerDetector"

end ObjectBootstrap
