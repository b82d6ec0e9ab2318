import ObjectBootstrap.Json.Value

/-!
# Application events

What listeners are told.
-/

namespace ObjectBootstrap

/-- An event that is published to listeners. -/
structure Event where
  name : String
  payload : Json := .null

/-- The name of the event that ends a bring-up. -/
def contextRefreshed : String := "context-refreshed"

end ObjectBootstrap
