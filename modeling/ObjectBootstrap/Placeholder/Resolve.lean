import ObjectBootstrap.Placeholder.Scan
import ObjectBootstrap.Settings

/-!
# Resolving placeholders

A placeholder holds a key and, behind the first colon, an optional default. What stands between its
braces is resolved first, so keys and defaults may be made of placeholders. A key with a setting
stands for the resolved setting; otherwise the default stands for itself; a key with neither is an
error. While the setting of a key is being resolved the key is being visited, and meeting it again
is an error. Every visit is to a key that has a setting and is not being visited yet, which is why
resolving ends whatever the settings say.

## Main definitions

* `PlaceholderError`: why a text cannot be resolved.
* `Placeholder.resolveFrom`: resolves a text while some keys are being visited.
* `Placeholder.resolve`: resolves a text.
-/

namespace ObjectBootstrap

/-- Why a text cannot be resolved. -/
inductive PlaceholderError where
  /-- A placeholder in this text is not closed. -/
  | unterminated (text : String)
  /-- The key is met while its own setting is being resolved. -/
  | circular (key : String)
  /-- The key has neither a setting nor a default. -/
  | unresolved (key : String)
  /-- A cut was asked for inside a character. -/
  | brokenCharacter
  deriving DecidableEq

/-- The wording of the reasons. -/
def PlaceholderError.message : PlaceholderError → String
  | .unterminated text => "unterminated placeholder in '" ++ text ++ "'"
  | .circular key => "circular placeholder reference '" ++ key ++ "'"
  | .unresolved key => "could not resolve placeholder '" ++ key ++ "'"
  | .brokenCharacter => "cut inside a character"

namespace Placeholder

/-- The key before the first colon, and the default behind it if there is a colon. -/
def splitDefault (body : List Char) : String × Option (List Char) :=
  match body.dropWhile (· != ':') with
  | [] => (String.ofList body, none)
  | _ :: default => (String.ofList (body.takeWhile (· != ':')), some default)

/-- How many keys with a setting are not being visited. -/
def unvisited (settings : Settings) (visiting : List String) : Nat :=
  (settings.table.names.filter fun key => !visiting.contains key).length

/-- Of a list that holds a new key, fewer names are left once that key is left out too. -/
theorem length_filter_lt {visiting names : List String} {key : String}
    (hmem : key ∈ names) (hnew : key ∉ visiting) :
    (names.filter fun name => !(key :: visiting).contains name).length
      < (names.filter fun name => !visiting.contains name).length := by
  have hle : ∀ names : List String,
      (names.filter fun name => !(key :: visiting).contains name).length
        ≤ (names.filter fun name => !visiting.contains name).length := by
    intro names
    induction names with
    | nil => simp
    | cons name rest ih => simp only [List.filter_cons]; grind
  induction names with
  | nil => simp at hmem
  | cons name rest ih =>
    have := hle rest
    simp only [List.filter_cons]
    grind

/-- Visiting one more key with a setting leaves fewer to visit. -/
theorem unvisited_lt {settings : Settings} {visiting : List String} {key text : String}
    (hget : settings.get? key = some text) (hnew : key ∉ visiting) :
    unvisited settings (key :: visiting) < unvisited settings visiting :=
  length_filter_lt ((settings.table.get?_isSome_iff key).1 (Option.isSome_of_eq_some hget)) hnew

/-- Resolves the rest of a text while the settings of some keys are being resolved. The whole text
    is what an error about a placeholder that is not closed quotes. -/
def resolveFrom (settings : Settings) (visiting : List String) (whole : String)
    (rest : List Char) : Except PlaceholderError (List Char) :=
  match hopen : splitAtOpening rest with
  | none => .ok rest
  | some (literal, behind) =>
    match closingOffset 0 behind with
    | none => .error (.unterminated whole)
    | some offset =>
      match hcut : cutAtByte offset behind with
      | none => .error .brokenCharacter
      | some (body, tail) =>
        (resolveFrom settings visiting (String.ofList body) body).bind fun body =>
          let (key, default) := splitDefault body
          if _hkey : key ∈ visiting then .error (.circular key)
          else
            let replacement := match _hget : settings.get? key with
              | some text => resolveFrom settings (key :: visiting) text text.toList
              | none =>
                match default with
                | some default => .ok default
                | none => .error (.unresolved key)
            replacement.bind fun replacement =>
              (resolveFrom settings visiting whole (tail.drop 1)).map
                (literal ++ replacement ++ ·)
termination_by (unvisited settings visiting, rest.length)
decreasing_by
  · have h1 := splitAtOpening_length hopen
    have h2 := congrArg List.length (cutAtByte_append hcut)
    simp only [List.length_append] at h2
    exact Prod.Lex.right _ (by omega)
  · exact Prod.Lex.left _ _ (unvisited_lt _hget _hkey)
  · have h1 := splitAtOpening_length hopen
    have h2 := congrArg List.length (cutAtByte_append hcut)
    simp only [List.length_append] at h2
    exact Prod.Lex.right _ (by simp only [List.length_drop]; omega)

/-- Resolves the placeholders of a text. -/
def resolve (settings : Settings) (text : String) : Except PlaceholderError String :=
  (resolveFrom settings [] text text.toList).map String.ofList

end Placeholder

end ObjectBootstrap
