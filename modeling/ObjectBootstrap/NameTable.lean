/-!
# Tables by name

Values kept under names, in the order in which the names were first added. Storing under a name that
is taken replaces the value and keeps the position; a name that was erased and is stored again goes
to the end. The order is part of what a table says: names are listed in it and values are met in it.

## Main definitions

* `NameTable`: the table, with `get?`, `contains`, `insert`, `erase` and `names`.

## Theorems

* `get?_insert`, `get?_erase`: what is found after a change.
* `names_insert`, `names_erase`: which names there are after a change, and in which order.
* `get?_isSome_iff`: a value is found exactly under the names of the table.
-/

namespace ObjectBootstrap

/-- Values under names, in the order in which the names were first added. -/
structure NameTable (α : Type) where
  entries : List (String × α) := []

namespace NameTable

variable {α : Type}

/-- The table without any name. -/
def empty : NameTable α := ⟨[]⟩

instance : Inhabited (NameTable α) := ⟨empty⟩

/-- The names of the table, in order. -/
def names (t : NameTable α) : List String := t.entries.map Prod.fst

/-- The value under a name. -/
def get? (t : NameTable α) (name : String) : Option α :=
  t.entries.lookup name

/-- Whether the table holds a value under the name. -/
def contains (t : NameTable α) (name : String) : Bool := (t.get? name).isSome

/-- Replaces the value of the first entry of this name, or adds an entry at the end. -/
def insertEntry (name : String) (value : α) : List (String × α) → List (String × α)
  | [] => [(name, value)]
  | (n, v) :: rest => if n = name then (n, value) :: rest else (n, v) :: insertEntry name value rest

/-- Stores a value; a name that is taken keeps its position. -/
def insert (t : NameTable α) (name : String) (value : α) : NameTable α :=
  ⟨insertEntry name value t.entries⟩

/-- Forgets a name. -/
def erase (t : NameTable α) (name : String) : NameTable α :=
  ⟨t.entries.filter fun entry => entry.1 != name⟩

/-- The number of names. -/
def size (t : NameTable α) : Nat := t.entries.length

@[simp] theorem get?_empty (name : String) : (empty : NameTable α).get? name = none := rfl

@[simp] theorem names_empty : (empty : NameTable α).names = [] := rfl

/-- The first entry of a list decides what is found under its own name only. -/
theorem lookup_entry (name query : String) (value : α) (entries : List (String × α)) :
    ((name, value) :: entries).lookup query =
      if query = name then some value else entries.lookup query := by
  by_cases h : query = name
  · simp [h]
  · rw [List.lookup_cons, beq_eq_false_iff_ne.2 h, if_neg h]

/-- What is found in a list of entries after an insertion. -/
theorem lookup_insertEntry (name query : String) (value : α) (entries : List (String × α)) :
    (insertEntry name value entries).lookup query =
      if query = name then some value else entries.lookup query := by
  induction entries with
  | nil => exact lookup_entry name query value []
  | cons entry rest ih =>
    obtain ⟨n, v⟩ := entry
    by_cases hn : n = name
    · rw [insertEntry, if_pos hn, lookup_entry, lookup_entry, hn]
      split <;> rfl
    · rw [insertEntry, if_neg hn, lookup_entry, lookup_entry, ih]
      by_cases h : query = n
      · rw [if_pos h, if_pos h, if_neg fun hq => hn (h.symm.trans hq)]
      · rw [if_neg h, if_neg h]

/-- A value is found under the name it was stored under, and nothing changes elsewhere. -/
theorem get?_insert (t : NameTable α) (name query : String) (value : α) :
    (t.insert name value).get? query = if query = name then some value else t.get? query :=
  lookup_insertEntry name query value t.entries

/-- An erased name is not found, and nothing changes elsewhere. -/
theorem get?_erase (t : NameTable α) (name query : String) :
    (t.erase name).get? query = if query = name then none else t.get? query := by
  unfold get? erase
  induction t.entries with
  | nil => exact (ite_self _).symm
  | cons entry rest ih =>
    obtain ⟨n, v⟩ := entry
    rw [lookup_entry]
    by_cases hn : n = name
    · rw [List.filter_cons_of_neg (by simp [hn]), ih]
      by_cases h : query = name
      · rw [if_pos h, if_pos h]
      · rw [if_neg h, if_neg h, if_neg fun hq => h (hq.trans hn)]
    · rw [List.filter_cons_of_pos (by simp [hn]), lookup_entry, ih]
      by_cases h : query = n
      · rw [if_pos h, if_pos h, if_neg fun hq => hn (h.symm.trans hq)]
      · rw [if_neg h, if_neg h]

/-- The keys of a list of entries after an insertion. -/
theorem keys_insertEntry (name : String) (value : α) (entries : List (String × α)) :
    (insertEntry name value entries).map Prod.fst =
      if name ∈ entries.map Prod.fst then entries.map Prod.fst
      else entries.map Prod.fst ++ [name] := by
  induction entries with
  | nil => simp [insertEntry]
  | cons entry rest ih =>
    obtain ⟨n, v⟩ := entry
    by_cases hn : n = name
    · simp [insertEntry, hn]
    · rw [insertEntry, if_neg hn, List.map_cons, ih]
      have hne : ¬name = n := fun h => hn h.symm
      by_cases h : name ∈ rest.map Prod.fst
      · rw [if_pos h, if_pos (by simp only [List.map_cons, List.mem_cons]; exact Or.inr h)]
        rfl
      · rw [if_neg h, if_neg (by simp only [List.map_cons, List.mem_cons, hne, h, or_self,
          not_false_eq_true])]
        rfl

/-- Storing under a new name adds it at the end; the position of a name that is taken stays. -/
theorem names_insert (t : NameTable α) (name : String) (value : α) :
    (t.insert name value).names = if name ∈ t.names then t.names else t.names ++ [name] :=
  keys_insertEntry name value t.entries

/-- Erasing a name keeps the order of the others. -/
theorem names_erase (t : NameTable α) (name : String) :
    (t.erase name).names = t.names.filter fun n => n != name := by
  simp only [names, erase, List.filter_map]
  rfl

/-- No name is listed twice after an insertion if none was before. -/
theorem nodup_names_insert {t : NameTable α} (h : t.names.Nodup) (name : String) (value : α) :
    (t.insert name value).names.Nodup := by
  rw [names_insert]
  by_cases hmem : name ∈ t.names
  · rwa [if_pos hmem]
  · rw [if_neg hmem, List.nodup_append]
    refine ⟨h, by simp, ?_⟩
    intro a ha b hb
    simp only [List.mem_singleton] at hb
    exact fun hab => hmem (hb ▸ hab ▸ ha)

/-- No name is listed twice after an erasure if none was before. -/
theorem nodup_names_erase {t : NameTable α} (h : t.names.Nodup) (name : String) :
    (t.erase name).names.Nodup := by
  rw [names_erase]
  exact h.filter _

/-- A value is found exactly under the names of the table. -/
theorem get?_isSome_iff (t : NameTable α) (name : String) :
    (t.get? name).isSome ↔ name ∈ t.names := by
  unfold get? names
  induction t.entries with
  | nil => simp
  | cons entry rest ih =>
    obtain ⟨n, v⟩ := entry
    rw [lookup_entry, List.map_cons, List.mem_cons, ← ih]
    by_cases h : name = n <;> simp [h]

/-- The names of a table are those that it holds. -/
theorem contains_iff (t : NameTable α) (name : String) :
    t.contains name = true ↔ name ∈ t.names :=
  t.get?_isSome_iff name

end NameTable

end ObjectBootstrap
