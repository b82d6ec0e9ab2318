import ObjectBootstrap.NameTable

/-!
# Properties

The free-form settings of a definition: texts under keys, listed by ascending key. Keys are compared
character by character, by code point. Whoever walks over the properties of a definition meets them
in this order, so of two faulty properties the one with the smaller key is reported.

## Main definitions

* `Properties`: the properties of one definition, with `get?`, `set` and `ofList`.

## Theorems

* `pairwise_insertEntry`: a key that is put at its place leaves the keys ascending.
* `get?_set`: what is found after a change.
-/

namespace ObjectBootstrap

/-- Texts under keys, listed by ascending key. -/
structure Properties where
  entries : List (String × String)
  ascending : (entries.map Prod.fst).Pairwise (· < ·)
  deriving DecidableEq

namespace Properties

open NameTable (lookup_entry)

/-- No property at all. -/
def empty : Properties := ⟨[], .nil⟩

/-- The text under a key. -/
def get? (p : Properties) (key : String) : Option String := p.entries.lookup key

/-- Puts a key at its place among ascending keys, or replaces its text. -/
def insertEntry (key text : String) : List (String × String) → List (String × String)
  | [] => [(key, text)]
  | (k, t) :: rest =>
    if key = k then (key, text) :: rest
    else if key < k then (key, text) :: (k, t) :: rest
    else (k, t) :: insertEntry key text rest

/-- No key is there afterwards but those from before and the new one. -/
theorem keys_insertEntry (key text : String) (entries : List (String × String)) :
    ∀ k ∈ (insertEntry key text entries).map Prod.fst, k = key ∨ k ∈ entries.map Prod.fst := by
  induction entries with
  | nil => exact fun k hk => Or.inl (List.mem_singleton.1 hk)
  | cons entry rest ih =>
      rcases entry with ⟨first, t⟩
      intro k hk
      rw [insertEntry] at hk
      split at hk
      · exact (List.mem_cons.1 hk).imp_right (List.mem_cons_of_mem _)
      · split at hk
        · exact List.mem_cons.1 hk
        · rcases List.mem_cons.1 hk with rfl | hk
          · exact Or.inr List.mem_cons_self
          · exact (ih k hk).imp_right (List.mem_cons_of_mem _)

/-- A key that is put at its place leaves the keys ascending. -/
theorem pairwise_insertEntry (key text : String) {entries : List (String × String)}
    (h : (entries.map Prod.fst).Pairwise (· < ·)) :
    ((insertEntry key text entries).map Prod.fst).Pairwise (· < ·) := by
  induction entries with
  | nil => exact List.pairwise_singleton _ _
  | cons entry rest ih =>
      rcases entry with ⟨first, t⟩
      rcases List.pairwise_cons.1 h with ⟨hfirst, hrest⟩
      rw [insertEntry]
      by_cases heq : key = first
      · rw [if_pos heq, heq]
        exact List.pairwise_cons.2 ⟨hfirst, hrest⟩
      · rw [if_neg heq]
        by_cases hlt : key < first
        · rw [if_pos hlt]
          refine List.pairwise_cons.2 ⟨fun k hk => ?_, h⟩
          rcases List.mem_cons.1 hk with rfl | hk
          · exact hlt
          · exact String.lt_trans hlt (hfirst k hk)
        · rw [if_neg hlt]
          refine List.pairwise_cons.2 ⟨fun k hk => ?_, ih hrest⟩
          rcases keys_insertEntry key text rest k hk with rfl | hk
          · exact String.not_le.1 fun hle => heq (String.le_antisymm hle (String.not_lt.1 hlt))
          · exact hfirst k hk

/-- Stores a text under a key. -/
def set (p : Properties) (key text : String) : Properties :=
  ⟨insertEntry key text p.entries, pairwise_insertEntry key text p.ascending⟩

/-- Stores several texts, one after the other. -/
def setAll (p : Properties) (changes : List (String × String)) : Properties :=
  changes.foldl (fun p change => p.set change.1 change.2) p

/-- The properties given as a list; of two texts under one key the later one counts. -/
def ofList (entries : List (String × String)) : Properties := empty.setAll entries

/-- What is found in a list of entries after a key was put at its place. -/
theorem lookup_insertEntry (key query text : String) (entries : List (String × String)) :
    (insertEntry key text entries).lookup query =
      if query = key then some text else entries.lookup query := by
  induction entries with
  | nil => exact lookup_entry key query text []
  | cons entry rest ih =>
    obtain ⟨k, t⟩ := entry
    by_cases hk : key = k
    · rw [insertEntry, if_pos hk, lookup_entry, lookup_entry, hk]
      split <;> rfl
    · rw [insertEntry, if_neg hk]
      split
      · rw [lookup_entry]
      · rw [lookup_entry, lookup_entry, ih]
        by_cases h : query = k
        · rw [if_pos h, if_pos h, if_neg fun hq => hk (hq.symm.trans h)]
        · rw [if_neg h, if_neg h]

/-- A text is found under the key it was stored under, and nothing changes elsewhere. -/
theorem get?_set (p : Properties) (key query text : String) :
    (p.set key text).get? query = if query = key then some text else p.get? query :=
  lookup_insertEntry key query text p.entries

end Properties

end ObjectBootstrap
