import Mathlib.Data.List.Basic
import ObjectBootstrap.Placement

/-!
# The order of batches

A batch is put in order by a stable sort. What that means is said without the algorithm: the sorted
batch is in ascending order of keys, and for every key it holds the same hooks as before, in the
same order. `eq_of_sorted_of_filter` says that these two properties leave one list only, and so each
statement that a list is the sorted form of another one comes down to them.

Sorting a batch is the same as sorting its tiers one by one, because the tier decides first
(`sortRanked_tiers`). That is why a phase may build and call one tier after the other and still
come to the order of a single sort.

A hook without a rank stands behind the ranked hooks of its tier, with one exception: it is compared
by the largest rank there is, so a hook that carries this rank is not put before it.

## Main definitions

* `SortKey.lt`: One key comes strictly before another one.
* `Before`: One element stands before another one in a list.
* `Ranked.key`: The key that a hook is sorted by.

## Theorems

* `SortKey.le_trans`, `SortKey.le_total`, `SortKey.le_antisymm`: Keys are ordered.
* `sortRanked_sorted`, `filter_sortRanked`: The two properties of a sorted batch.
* `eq_of_sorted_of_filter`: There is one list only with these properties.
* `key_lt_or_before_of_sorted`: How two hooks of a sorted batch come to stand as they do.
* `eq_sortRanked_names`: Names of which each two stand right are sorted.
* `sortRanked_tiers`: The tiers of a batch may be sorted one by one.
* `sortRanked_map`: What hooks are does not matter for their order.
* `sortRanked_filter`: A selection from a batch is sorted as the batch is.
* `sortRanked_ranks`: How the ranks of a batch come to stand, whatever they are.
* `Scenarios.unranked_before_ranked`: A hook without a rank may stand before one of the largest
  rank.
-/

namespace ObjectBootstrap

namespace Tier

theorem level_injective {a b : Tier} (h : a.level = b.level) : a = b := by
  cases a <;> cases b <;> first | rfl | exact absurd h (by decide)

end Tier

namespace SortKey

/-- One key comes strictly before another one. -/
def lt (a b : SortKey) : Bool :=
  decide (a.tier.level < b.tier.level) || (a.tier == b.tier && decide (a.rank < b.rank))

theorem le_iff (a b : SortKey) :
    a.le b = true ↔ a.tier.level < b.tier.level ∨ a.tier = b.tier ∧ a.rank ≤ b.rank := by
  simp only [le, Bool.or_eq_true, Bool.and_eq_true, decide_eq_true_eq, beq_iff_eq]

theorem lt_iff (a b : SortKey) :
    a.lt b = true ↔ a.tier.level < b.tier.level ∨ a.tier = b.tier ∧ a.rank < b.rank := by
  simp only [lt, Bool.or_eq_true, Bool.and_eq_true, decide_eq_true_eq, beq_iff_eq]

theorem le_refl (a : SortKey) : a.le a = true :=
  (le_iff a a).2 (Or.inr ⟨rfl, Int32.le_refl a.rank⟩)

theorem le_trans {a b c : SortKey} (hab : a.le b = true) (hbc : b.le c = true) :
    a.le c = true := by
  rw [le_iff] at *
  rcases hab with hab | ⟨htier, hrank⟩
  · rcases hbc with hbc | ⟨htier', _⟩
    · exact Or.inl (by omega)
    · exact Or.inl (htier' ▸ hab)
  · rcases hbc with hbc | ⟨htier', hrank'⟩
    · exact Or.inl (htier ▸ hbc)
    · exact Or.inr ⟨htier.trans htier', Int32.le_trans hrank hrank'⟩

theorem le_total (a b : SortKey) : a.le b = true ∨ b.le a = true := by
  rw [le_iff, le_iff]
  rcases Nat.lt_trichotomy a.tier.level b.tier.level with h | h | h
  · exact Or.inl (Or.inl h)
  · have htier := Tier.level_injective h
    rcases Int32.le_total a.rank b.rank with hrank | hrank
    · exact Or.inl (Or.inr ⟨htier, hrank⟩)
    · exact Or.inr (Or.inr ⟨htier.symm, hrank⟩)
  · exact Or.inr (Or.inl h)

theorem le_antisymm {a b : SortKey} (hab : a.le b = true) (hba : b.le a = true) : a = b := by
  rw [le_iff] at *
  -- Two tiers cannot be above each other, so it is the ranks that are compared.
  rcases hab with hab | ⟨htier, hrank⟩
  · rcases hba with hba | ⟨htier, _⟩
    · exact absurd hba (by omega)
    · exact absurd hab (by rw [htier]; omega)
  · rcases hba with hba | ⟨_, hrank'⟩
    · exact absurd hba (by rw [htier]; omega)
    · cases a
      cases b
      simp only at htier hrank hrank'
      rw [htier, Int32.le_antisymm hrank hrank']

theorem lt_irrefl (a : SortKey) : ¬a.lt a = true := by
  rw [lt_iff]
  rintro (h | ⟨_, h⟩)
  · exact Nat.lt_irrefl _ h
  · exact Int32.lt_irrefl h

theorem lt_asymm {a b : SortKey} (hab : a.lt b = true) : ¬b.lt a = true := by
  rw [lt_iff] at *
  rcases hab with hab | ⟨htier, hrank⟩
  · rintro (hba | ⟨htier, _⟩)
    · omega
    · rw [htier] at hab
      omega
  · rintro (hba | ⟨_, hrank'⟩)
    · rw [htier] at hba
      omega
    · exact Int32.lt_asymm hrank hrank'

-- A key that does not come strictly before another one is that one, or comes behind it.
theorem lt_or_eq_of_le {a b : SortKey} (h : a.le b = true) : a.lt b = true ∨ a = b := by
  rw [le_iff] at h
  rw [lt_iff]
  rcases h with h | ⟨htier, hrank⟩
  · exact Or.inl (Or.inl h)
  · by_cases heq : a.rank = b.rank
    · refine Or.inr ?_
      cases a
      cases b
      simp only at htier heq
      rw [htier, heq]
    · exact Or.inl (Or.inr ⟨htier, Int32.lt_of_le_of_ne hrank heq⟩)

end SortKey

variable {α β : Type}

/-- One element stands before another one in a list. -/
def Before (l : List α) (a b : α) : Prop := [a, b].Sublist l

namespace Before

variable {l : List α} {a b : α}

theorem left_mem (h : Before l a b) : a ∈ l := h.subset List.mem_cons_self

theorem right_mem (h : Before l a b) : b ∈ l :=
  h.subset (List.mem_cons_of_mem a List.mem_cons_self)

-- In a list without repetition only one of two elements stands before the other one.
theorem not_symm (hl : l.Nodup) (hab : Before l a b) : ¬Before l b a := by
  unfold Before at *
  induction l with
  | nil => cases hab
  | cons c l ih =>
      rw [List.nodup_cons] at hl
      intro hba
      -- The first element of the list stands before others only, and only once.
      rw [List.sublist_cons_iff] at hab hba
      rcases hab with hab | ⟨r, hr, hab⟩
      · rcases hba with hba | ⟨r, hr, hba⟩
        · exact ih hl.2 hab hba
        · cases hr
          exact hl.1 (right_mem hab)
      · cases hr
        rcases hba with hba | ⟨r, hr, hba⟩
        · exact hl.1 (right_mem hba)
        · cases hr
          exact hl.1 (List.singleton_sublist.1 hab)

-- Of two elements one stands before the other one.
theorem total (hne : a ≠ b) (ha : a ∈ l) (hb : b ∈ l) : Before l a b ∨ Before l b a := by
  unfold Before
  induction l with
  | nil => exact absurd ha List.not_mem_nil
  | cons c l ih =>
      rcases List.mem_cons.1 ha with rfl | hal
      · rcases List.mem_cons.1 hb with rfl | hbl
        · exact absurd rfl hne
        · exact Or.inl ((List.singleton_sublist.2 hbl).cons_cons a)
      · rcases List.mem_cons.1 hb with rfl | hbl
        · exact Or.inr ((List.singleton_sublist.2 hal).cons_cons b)
        · exact (ih hal hbl).imp (fun h => h.cons c) (fun h => h.cons c)

-- The images of two elements stand in their order.
theorem map (f : α → β) (h : Before l a b) : Before (l.map f) (f a) (f b) :=
  List.Sublist.map f h

-- Two images stand as the elements that they are images of.
theorem of_map {f : α → β} {x y : β} (h : Before (l.map f) x y) :
    ∃ a b, Before l a b ∧ f a = x ∧ f b = y := by
  rcases List.sublist_map_iff.1 h with ⟨pair, hpair, heq⟩
  match pair, heq with
  | [a, b], heq =>
    simp only [List.map_cons, List.map_nil, List.cons.injEq, and_true] at heq
    exact ⟨a, b, hpair, heq.1.symm, heq.2.symm⟩

-- An element of an earlier part stands before one of a later part.
theorem append {early late : List α} (ha : a ∈ early) (hb : b ∈ late) :
    Before (early ++ late) a b :=
  (List.singleton_sublist.2 ha).append (List.singleton_sublist.2 hb)

theorem filter (p : α → Bool) (h : Before l a b) (ha : p a = true) (hb : p b = true) :
    Before (l.filter p) a b := by
  have := List.Sublist.filter p h
  rwa [List.filter_cons_of_pos ha, List.filter_cons_of_pos hb, List.filter_nil] at this

end Before

/-- The key that a hook is sorted by. -/
def Ranked.key (r : Ranked α) : SortKey := r.placement.sortKey

/-- The comparison that batches are sorted by. -/
def Ranked.le (a b : Ranked α) : Bool := a.key.le b.key

theorem Ranked.le_trans (a b c : Ranked α) (hab : a.le b = true) (hbc : b.le c = true) :
    a.le c = true :=
  SortKey.le_trans hab hbc

theorem Ranked.le_total (a b : Ranked α) : (a.le b || b.le a) = true := by
  rw [Bool.or_eq_true]
  exact SortKey.le_total a.key b.key

/-- A batch that is in ascending order of keys. -/
def Sorted (batch : List (Ranked α)) : Prop :=
  batch.Pairwise fun a b => a.le b = true

theorem sortRanked_perm (batch : List (Ranked α)) : (sortRanked batch).Perm batch :=
  List.mergeSort_perm batch _

theorem sortRanked_mem {batch : List (Ranked α)} {r : Ranked α} :
    r ∈ sortRanked batch ↔ r ∈ batch :=
  (sortRanked_perm batch).mem_iff

theorem sortRanked_sorted (batch : List (Ranked α)) : Sorted (sortRanked batch) :=
  List.pairwise_mergeSort Ranked.le_trans Ranked.le_total batch

/-- Hooks of one key keep their order. -/
theorem filter_sortRanked (batch : List (Ranked α)) (key : SortKey) :
    (sortRanked batch).filter (fun r => r.key = key) = batch.filter fun r => r.key = key := by
  have hties : Sorted (batch.filter fun r => r.key = key) := by
    unfold Sorted
    rw [List.pairwise_iff_forall_sublist]
    intro a b hab
    have hmem : ∀ r ∈ [a, b], r.key = key := by
      intro r hr
      have := List.mem_filter.1 (hab.subset hr)
      exact of_decide_eq_true this.2
    unfold Ranked.le
    rw [hmem a (by simp), hmem b (by simp)]
    exact SortKey.le_refl key
  have hsublist : (batch.filter fun r => r.key = key).Sublist (sortRanked batch) :=
    List.sublist_mergeSort Ranked.le_trans Ranked.le_total hties List.filter_sublist
  have hfiltered := hsublist.filter fun r => r.key = key
  rw [List.filter_filter] at hfiltered
  simp only [Bool.and_self] at hfiltered
  -- The sorted batch is a rearrangement, so it holds as many hooks of the key.
  exact (hfiltered.eq_of_length ((sortRanked_perm batch).filter _).length_eq.symm).symm

/-- Ascending order and the hooks of each key in their order leave one list only. -/
theorem eq_of_sorted_of_filter : ∀ {left right : List (Ranked α)}, Sorted left → Sorted right →
    (∀ key, left.filter (fun r => r.key = key) = right.filter fun r => r.key = key) →
      left = right := by
  intro left
  induction left with
  | nil =>
      intro right _ _ h
      cases right with
      | nil => rfl
      | cons b right =>
          have := h b.key
          rw [List.filter_nil, List.filter_cons_of_pos (by simp)] at this
          exact absurd this (List.cons_ne_nil _ _).symm
  | cons a left ih =>
      intro right hleft hright h
      cases right with
      | nil =>
          have := h a.key
          rw [List.filter_nil, List.filter_cons_of_pos (by simp)] at this
          exact absurd this (List.cons_ne_nil _ _)
      | cons b right =>
          have hleft' := List.pairwise_cons.1 hleft
          have hright' := List.pairwise_cons.1 hright
          -- Each first hook is found in the other list, so neither key comes first.
          have hmem : ∀ {x : Ranked α} {l m : List (Ranked α)}, x ∈ l →
              l.filter (fun r => r.key = x.key) = m.filter (fun r => r.key = x.key) →
                x ∈ m := by
            intro x l m hx heq
            have : x ∈ l.filter fun r => r.key = x.key := List.mem_filter.2 ⟨hx, by simp⟩
            rw [heq] at this
            exact (List.mem_filter.1 this).1
          have hab : a.le b = true := by
            rcases List.mem_cons.1 (hmem List.mem_cons_self (h b.key).symm) with heq | hb
            · rw [heq]
              exact SortKey.le_refl a.key
            · exact hleft'.1 b hb
          have hba : b.le a = true := by
            rcases List.mem_cons.1 (hmem List.mem_cons_self (h a.key)) with heq | ha
            · rw [heq]
              exact SortKey.le_refl b.key
            · exact hright'.1 a ha
          have hkey : a.key = b.key := SortKey.le_antisymm hab hba
          have hfirst := h a.key
          rw [List.filter_cons_of_pos (by simp), List.filter_cons_of_pos (by simp [hkey]),
            List.cons.injEq] at hfirst
          rw [hfirst.1]
          refine congrArg _ (ih hleft'.2 hright'.2 fun key => ?_)
          have hkeys := h key
          by_cases hk : a.key = key
          · rw [List.filter_cons_of_pos (by simp [hk]),
              List.filter_cons_of_pos (by simp [← hkey, hk]), List.cons.injEq] at hkeys
            exact hkeys.2
          · rwa [List.filter_cons_of_neg (by simp [hk]),
              List.filter_cons_of_neg (by simp [← hkey, hk])] at hkeys

-- A list is the sorted form of a batch if it is ascending and holds the same hooks of each key in
-- the same order.
theorem eq_sortRanked {batch sorted : List (Ranked α)} (hsorted : Sorted sorted)
    (h : ∀ key, sorted.filter (fun r => r.key = key) = batch.filter fun r => r.key = key) :
    sorted = sortRanked batch :=
  eq_of_sorted_of_filter hsorted (sortRanked_sorted batch) fun key =>
    (h key).trans (filter_sortRanked batch key).symm

/-- What hooks are does not matter for their order. -/
theorem sortRanked_map {f : Ranked α → Ranked β} (hf : ∀ r, (f r).placement = r.placement)
    (batch : List (Ranked α)) : (sortRanked batch).map f = sortRanked (batch.map f) := by
  refine List.map_mergeSort fun a _ b _ => ?_
  rw [hf, hf]

/-- A selection from a sorted batch is the sorted selection from the batch. -/
theorem sortRanked_filter (p : Ranked α → Bool) (batch : List (Ranked α)) :
    (sortRanked batch).filter p = sortRanked (batch.filter p) := by
  refine eq_sortRanked ?_ fun key => ?_
  · exact (sortRanked_sorted batch).sublist List.filter_sublist
  · rw [List.filter_comm, filter_sortRanked, List.filter_comm]

/-- Of two hooks of a sorted batch the first one has the smaller key, or it has the same key and
    came first before. -/
theorem key_lt_or_before_of_sorted {batch : List (Ranked α)} {a b : Ranked α}
    (h : Before (sortRanked batch) a b) :
    a.key.lt b.key = true ∨ a.key = b.key ∧ Before batch a b := by
  have hle : a.key.le b.key = true :=
    List.pairwise_iff_forall_sublist.1 (sortRanked_sorted batch) h
  rcases SortKey.lt_or_eq_of_le hle with hlt | heq
  · exact Or.inl hlt
  · refine Or.inr ⟨heq, ?_⟩
    -- The two are left when only their key is kept, and these hooks stand as before.
    have hties := h.filter (fun r => r.key = a.key) (by simp) (by simp [heq])
    rw [filter_sortRanked] at hties
    exact List.Sublist.trans hties List.filter_sublist

/-- Names of which each two stand as their keys say, and with the same key as they stand in a list,
    are the names of that list in the order of a single sort. -/
theorem eq_sortRanked_names {called names : List String} (place : String → Placement)
    (hnames : names.Nodup) (hperm : called.Perm names)
    (h : ∀ a b, Before called a b → (place a).sortKey.lt (place b).sortKey = true ∨
      (place a).sortKey = (place b).sortKey ∧ Before names a b) :
    called = (sortRanked (names.map fun name => ⟨name, place name, ()⟩)).map Ranked.name := by
  have hranked : (names.map fun name => (⟨name, place name, ()⟩ : Ranked Unit)).map Ranked.name
      = names := by
    rw [List.map_map]
    exact List.map_id _
  have hsorted : ∀ a b, Before ((sortRanked (names.map fun name =>
      (⟨name, place name, ()⟩ : Ranked Unit))).map Ranked.name) a b →
        (place a).sortKey.lt (place b).sortKey = true ∨
          (place a).sortKey = (place b).sortKey ∧ Before names a b := by
    intro a b hab
    rcases hab.of_map with ⟨ra, rb, hpair, rfl, rfl⟩
    have hplace : ∀ r ∈ sortRanked (names.map fun name =>
        (⟨name, place name, ()⟩ : Ranked Unit)), r.key = (place r.name).sortKey := by
      intro r hr
      rcases List.mem_map.1 (sortRanked_mem.1 hr) with ⟨name, _, rfl⟩
      rfl
    have hkeys := key_lt_or_before_of_sorted hpair
    rw [hplace ra hpair.left_mem, hplace rb hpair.right_mem] at hkeys
    refine hkeys.imp id fun ⟨hkey, hfirst⟩ => ⟨hkey, ?_⟩
    have := hfirst.map Ranked.name
    rwa [hranked] at this
  -- Two names that each stand before the other one are one name.
  refine List.Perm.eq_of_pairwise (fun a b _ _ hab hba => ?_)
    (List.pairwise_iff_forall_sublist.2 fun hab => h _ _ hab)
    (List.pairwise_iff_forall_sublist.2 fun hab => hsorted _ _ hab) ?_
  · rcases hab with hlt | ⟨hkey, hfirst⟩
    · rcases hba with hlt' | ⟨hkey, _⟩
      · exact absurd hlt' (SortKey.lt_asymm hlt)
      · rw [hkey] at hlt
        exact absurd hlt (SortKey.lt_irrefl _)
    · rcases hba with hlt | ⟨_, hsecond⟩
      · rw [hkey] at hlt
        exact absurd hlt (SortKey.lt_irrefl _)
      · exact absurd hsecond (hfirst.not_symm hnames)
  · refine hperm.trans ?_
    have := (sortRanked_perm (names.map fun name =>
      (⟨name, place name, ()⟩ : Ranked Unit))).map Ranked.name
    rw [hranked] at this
    exact this.symm

/-- The hooks of a tier. -/
def ofTier (tier : Tier) (batch : List (Ranked α)) : List (Ranked α) :=
  batch.filter fun r => r.placement.tier = tier

theorem sorted_append {upper lower : List (Ranked α)} (hupper : Sorted upper)
    (hlower : Sorted lower) (h : ∀ a ∈ upper, ∀ b ∈ lower, a.le b = true) :
    Sorted (upper ++ lower) :=
  List.pairwise_append.2 ⟨hupper, hlower, h⟩

-- Batches that hold the same hooks of each key in the same order are sorted alike.
theorem sortRanked_congr {batch other : List (Ranked α)}
    (h : ∀ key, batch.filter (fun r => r.key = key) = other.filter fun r => r.key = key) :
    sortRanked batch = sortRanked other :=
  eq_sortRanked (sortRanked_sorted batch) fun key => (filter_sortRanked batch key).trans (h key)

-- A tier holds the hooks of the keys of this tier, and of no other ones.
theorem filter_ofTier (tier : Tier) (batch : List (Ranked α)) (key : SortKey) :
    (ofTier tier batch).filter (fun r => r.key = key)
      = if key.tier = tier then batch.filter (fun r => r.key = key) else [] := by
  unfold ofTier
  rw [List.filter_filter]
  split
  · refine List.filter_congr fun r _ => ?_
    by_cases hkey : r.key = key
    · have htier : r.placement.tier = tier := by
        rw [← ‹key.tier = tier›, ← hkey]
        rfl
      simp only [hkey, htier, decide_true, Bool.and_self]
    · simp only [hkey, decide_false, Bool.false_and]
  · rw [List.filter_eq_nil_iff]
    intro r _
    rw [Bool.and_eq_true, decide_eq_true_eq, decide_eq_true_eq]
    rintro ⟨hkey, htier⟩
    refine ‹¬key.tier = tier› ?_
    rw [← hkey, ← htier]
    rfl

-- Divided into tiers and joined again, a batch holds the same hooks of each key.
theorem filter_tiers (batch : List (Ranked α)) (key : SortKey) :
    (ofTier .highest batch ++ ofTier .ordered batch ++ ofTier .plain batch).filter
        (fun r => r.key = key)
      = batch.filter fun r => r.key = key := by
  rw [List.filter_append, List.filter_append, filter_ofTier, filter_ofTier, filter_ofTier]
  cases key.tier <;> simp

-- The hooks of an upper tier come before those of a lower one.
theorem le_of_tiers {upper lower : Tier} (h : upper.level < lower.level)
    {batch : List (Ranked α)} :
    ∀ a ∈ sortRanked (ofTier upper batch), ∀ b ∈ sortRanked (ofTier lower batch),
      a.le b = true := by
  intro a ha b hb
  have hupper := of_decide_eq_true (List.mem_filter.1 (sortRanked_mem.1 ha)).2
  have hlower := of_decide_eq_true (List.mem_filter.1 (sortRanked_mem.1 hb)).2
  refine (SortKey.le_iff _ _).2 (Or.inl ?_)
  change a.placement.tier.level < b.placement.tier.level
  rw [hupper, hlower]
  exact h

/-- The tiers of a batch may be sorted one by one. -/
theorem sortRanked_tiers (batch : List (Ranked α)) :
    sortRanked (ofTier .highest batch) ++ sortRanked (ofTier .ordered batch)
        ++ sortRanked (ofTier .plain batch)
      = sortRanked batch := by
  refine eq_sortRanked ?_ fun key => ?_
  -- Each tier is ascending, and the upper ones come first.
  · refine sorted_append (sorted_append (sortRanked_sorted _) (sortRanked_sorted _)
      (le_of_tiers (by decide))) (sortRanked_sorted _) ?_
    intro a ha
    rcases List.mem_append.1 ha with ha | ha
    · exact le_of_tiers (by decide) a ha
    · exact le_of_tiers (by decide) a ha
  · rw [List.filter_append, List.filter_append, filter_sortRanked, filter_sortRanked,
      filter_sortRanked, ← List.filter_append, ← List.filter_append, filter_tiers]

-- Hooks that are selected by their keys keep their order if they have one key only.
theorem filter_sortRanked_of_key {p : Ranked α → Bool} (key : SortKey)
    (h : ∀ r, p r = true → r.key = key) (batch : List (Ranked α)) :
    (sortRanked batch).filter p = batch.filter p := by
  have hsplit : ∀ hooks : List (Ranked α),
      hooks.filter p = (hooks.filter fun r => r.key = key).filter p := by
    intro hooks
    rw [List.filter_filter]
    refine List.filter_congr fun r _ => ?_
    cases hp : p r with
    | false => rw [Bool.false_and]
    | true =>
        rw [Bool.true_and]
        exact (decide_eq_true (h r hp)).symm
  rw [hsplit, filter_sortRanked, ← hsplit]

/-- A sorted batch holds the hooks that it was made of, those of a higher tier before those of a
    lower one. Inside a tier a hook of a rank below the largest one has hooks of smaller or equal
    ranks before it, and none without a rank. Hooks of one placement keep their order, and so do,
    taken together, the hooks of a tier that are without a rank or of the largest one. -/
theorem sortRanked_ranks (batch : List (Ranked α)) :
    (sortRanked batch).Perm batch ∧
    (sortRanked batch).Pairwise
      (fun a b => a.placement.tier.level ≤ b.placement.tier.level) ∧
    (sortRanked batch).Pairwise (fun a b => a.placement.tier = b.placement.tier →
      ∀ rank, b.placement.rank = some rank → rank < Int32.maxValue →
        ∃ earlier, a.placement.rank = some earlier ∧ earlier ≤ rank) ∧
    (∀ placement, (sortRanked batch).filter (fun r => r.placement = placement)
      = batch.filter fun r => r.placement = placement) ∧
    ∀ tier, (sortRanked batch).filter (fun r => r.placement.tier = tier ∧
        (r.placement.rank = none ∨ r.placement.rank = some Int32.maxValue))
      = batch.filter fun r => r.placement.tier = tier ∧
        (r.placement.rank = none ∨ r.placement.rank = some Int32.maxValue) := by
  refine ⟨sortRanked_perm batch, (sortRanked_sorted batch).imp ?_,
    (sortRanked_sorted batch).imp ?_, fun placement => ?_, fun tier => ?_⟩
  · intro a b hle
    rcases (SortKey.le_iff _ _).1 hle with hlt | ⟨htier, _⟩
    · exact Nat.le_of_lt hlt
    · exact Nat.le_of_eq (congrArg Tier.level htier)
  · intro a b hle htier rank hrank hlt
    have hkeys : a.key.rank ≤ b.key.rank := by
      rcases (SortKey.le_iff _ _).1 hle with hlevel | ⟨_, hranks⟩
      · exact absurd (congrArg Tier.level htier) (Nat.ne_of_lt hlevel)
      · exact hranks
    have hb : b.key.rank = rank := congrArg (·.getD Int32.maxValue) hrank
    rw [hb] at hkeys
    cases ha : a.placement.rank with
    | none =>
        -- A missing rank counts as the largest one, and nothing of a smaller rank follows it.
        have hmax : a.key.rank = Int32.maxValue := congrArg (·.getD Int32.maxValue) ha
        rw [hmax] at hkeys
        exact absurd (Int32.lt_of_lt_of_le hlt hkeys) Int32.lt_irrefl
    | some earlier =>
        have hearlier : a.key.rank = earlier := congrArg (·.getD Int32.maxValue) ha
        exact ⟨earlier, rfl, hearlier ▸ hkeys⟩
  · refine filter_sortRanked_of_key placement.sortKey (fun r hr => ?_) batch
    exact congrArg Placement.sortKey (of_decide_eq_true hr)
  · refine filter_sortRanked_of_key ⟨tier, Int32.maxValue⟩ (fun r hr => ?_) batch
    rcases of_decide_eq_true hr with ⟨htier, hrank | hrank⟩
    · exact congr (congrArg SortKey.mk htier) (congrArg (·.getD Int32.maxValue) hrank)
    · exact congr (congrArg SortKey.mk htier) (congrArg (·.getD Int32.maxValue) hrank)

namespace Scenarios

/-- A hook without a rank, and behind it one that is to be the last of the ranked ones. -/
def unrankedFirst : List (Ranked Unit) :=
  [⟨"unranked", ⟨.ordered, none⟩, ()⟩, ⟨"ranked", ⟨.ordered, some Int32.maxValue⟩, ()⟩]

/-- A hook without a rank is left before a ranked hook of its tier if that one carries the largest
    rank and came later. -/
theorem unranked_before_ranked :
    sortRanked unrankedFirst = unrankedFirst ∧
    ¬(sortRanked unrankedFirst).Pairwise fun a b => a.placement.tier = b.placement.tier →
      a.placement.rank = none → b.placement.rank = none := by
  have hsorted : sortRanked unrankedFirst = unrankedFirst := List.mergeSort_of_pairwise (by decide)
  refine ⟨hsorted, ?_⟩
  rw [hsorted]
  decide

end Scenarios

end ObjectBootstrap
