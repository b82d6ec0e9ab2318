import ObjectBootstrap.Settings

/-!
# Configuration of a bring-up

Four switches. They can be read from settings under fixed keys; a key that is absent leaves its
switch as it is by default, and the first key that holds no flag is the error.

## Main definitions

* `Config`: the switches and their defaults.
* `Config.ofSettings`: the switches as settings give them.
-/

namespace ObjectBootstrap

/-- The switches of one bring-up. -/
structure Config where
  /-- Definitions that are built anew on each request are discovered as hooks too. -/
  includeNonSingletons : Bool := true
  /-- Handed on with each query for a capability; the answer does not depend on it. -/
  allowEagerInit : Bool := false
  /-- Every singleton that is not lazy is built once the hooks are installed. -/
  preInstantiateSingletons : Bool := true
  /-- A definition may replace one of the same name. -/
  allowDefinitionOverriding : Bool := false
  deriving DecidableEq

namespace Config

/-- Every switch in its initial position. -/
def standard : Config := {}

/-- What the keys of the switches start with. -/
def keyStart : String := "MESHESTRA_BOOTSTRAP_"

/-- The switches as settings give them, read in declaration order of the keys. -/
def ofSettings (s : Settings) : Except Error Config := do
  let includeNonSingletons ← s.flag? (keyStart ++ "INCLUDE_NON_SINGLETONS")
  let allowEagerInit ← s.flag? (keyStart ++ "ALLOW_EAGER_INIT")
  let preInstantiateSingletons ← s.flag? (keyStart ++ "PRE_INSTANTIATE_SINGLETONS")
  let allowDefinitionOverriding ← s.flag? (keyStart ++ "ALLOW_DEFINITION_OVERRIDING")
  return {
    includeNonSingletons := includeNonSingletons.getD standard.includeNonSingletons
    allowEagerInit := allowEagerInit.getD standard.allowEagerInit
    preInstantiateSingletons :=
      preInstantiateSingletons.getD standard.preInstantiateSingletons
    allowDefinitionOverriding :=
      allowDefinitionOverriding.getD standard.allowDefinitionOverriding
  }

end Config

end ObjectBootstrap
