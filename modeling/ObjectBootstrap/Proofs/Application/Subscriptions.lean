import Mathlib.Data.List.Induction
import Mathlib.Data.List.Nodup
import ObjectBootstrap.NameTable

/-!
# What subscriptions make of a table

Listeners are added and removed under names, over and over again. Three things are read off such a
history, without looking at any table in between: which names remain, that is were added and not
removed since; which listener a name holds, namely the one that was added last; and in which order
the names joined. A name joins when it is added while it does not remain from before. It keeps its
place when it is added once more, and it loses it when it is removed.

`Listed` says that a table tells the same as a history, and each addition and removal keeps it so.

## Main definitions

* `Subscription`: A listener is added or removed under a name.
* `Remains`, `Holds`, `JoinedBefore`: What a history says of names.
* `Listed`: A table tells the same as a history.

## Theorems

* `listed_empty`, `Listed.insert`, `Listed.erase`: Tables that are made by a history.
-/

namespace ObjectBootstrap

/-- A listener is added or removed under a name. -/
inductive Subscription (α : Type) where
  | added (name : String) (listener : α)
  | removed (name : String)

/-- The name that a subscription is about. -/
def Subscription.name {α : Type} : Subscription α → String
  | added name _ => name
  | removed name => name

section Histories

variable {α : Type}

/-- A name was added and not removed since. -/
def Remains (history : List (Subscription α)) (name : String) : Prop :=
  ∃ earlier listener later, history = earlier ++ .added name listener :: later ∧
    .removed name ∉ later

/-- A listener was added under a name, and since then there was nothing else under this name. -/
def Holds (history : List (Subscription α)) (name : String) (listener : α) : Prop :=
  ∃ earlier later, history = earlier ++ .added name listener :: later ∧
    ∀ subscription ∈ later, subscription.name ≠ name

/-- A name that remains joined behind some earlier history: it did not remain then, was added, and
    was not removed since. -/
def JoinedAt (history : List (Subscription α)) (name : String)
    (earlier : List (Subscription α)) : Prop :=
  ∃ listener later, history = earlier ++ .added name listener :: later ∧
    ¬Remains earlier name ∧ .removed name ∉ later

/-- Two names remain, and the first one joined before the second one. -/
def JoinedBefore (history : List (Subscription α)) (first second : String) : Prop :=
  ∃ early late, JoinedAt history first early ∧ JoinedAt history second late ∧
    early.length < late.length

variable {history earlier : List (Subscription α)} {last : Subscription α} {n name : String}
  {listener l : α}

/-- Something stands at the end of a list, or in front of its last element. -/
theorem append_singleton_eq_append_cons {β : Type} {list front behind : List β} {a b : β} :
    list ++ [b] = front ++ a :: behind ↔
      (front = list ∧ a = b ∧ behind = []) ∨
        ∃ between, behind = between ++ [b] ∧ list = front ++ a :: between := by
  constructor
  · intro h
    rcases List.eq_nil_or_concat behind with rfl | ⟨between, c, rfl⟩
    · obtain ⟨hlist, hlast⟩ := List.append_inj' h rfl
      exact Or.inl ⟨hlist.symm, (List.cons.inj hlast).1.symm, rfl⟩
    · rw [List.concat_eq_append, ← List.cons_append, ← List.append_assoc] at h
      obtain ⟨hlist, hlast⟩ := List.append_inj' h rfl
      obtain rfl := (List.cons.inj hlast).1
      exact Or.inr ⟨between, List.concat_eq_append, hlist⟩
  · rintro (⟨rfl, rfl, rfl⟩ | ⟨between, rfl, rfl⟩)
    · rfl
    · rw [List.append_assoc, List.cons_append]

theorem remains_added :
    Remains (history ++ [.added n listener]) name ↔ name = n ∨ Remains history name := by
  constructor
  · rintro ⟨earlier, l, later, h, hlater⟩
    rcases append_singleton_eq_append_cons.1 h with ⟨-, hlast, -⟩ | ⟨between, rfl, rfl⟩
    · exact Or.inl (Subscription.added.inj hlast).1
    · exact Or.inr ⟨earlier, l, between, rfl, fun h => hlater (List.mem_append_left _ h)⟩
  · rintro (rfl | ⟨earlier, l, later, rfl, hlater⟩)
    · exact ⟨history, listener, [], rfl, List.not_mem_nil⟩
    · refine ⟨earlier, l, later ++ [.added n listener], by simp, ?_⟩
      simpa using hlater

theorem remains_removed :
    Remains (history ++ [.removed n]) name ↔ name ≠ n ∧ Remains history name := by
  constructor
  · rintro ⟨earlier, l, later, h, hlater⟩
    rcases append_singleton_eq_append_cons.1 h with ⟨-, hlast, -⟩ | ⟨between, rfl, rfl⟩
    · cases hlast
    · refine ⟨?_, earlier, l, between, rfl, fun h => hlater (List.mem_append_left _ h)⟩
      rintro rfl
      exact hlater (List.mem_append_right _ List.mem_cons_self)
  · rintro ⟨hother, earlier, l, later, rfl, hlater⟩
    refine ⟨earlier, l, later ++ [.removed n], by simp, ?_⟩
    simpa using ⟨hlater, hother⟩

theorem holds_append :
    Holds (history ++ [last]) name l ↔
      last = .added name l ∨ (last.name ≠ name ∧ Holds history name l) := by
  constructor
  · rintro ⟨earlier, later, h, hlater⟩
    rcases append_singleton_eq_append_cons.1 h with ⟨-, hlast, -⟩ | ⟨between, rfl, rfl⟩
    · exact Or.inl hlast.symm
    · refine Or.inr ⟨hlater last (List.mem_append_right _ List.mem_cons_self), earlier, between,
        rfl, fun subscription h => hlater subscription (List.mem_append_left _ h)⟩
  · rintro (rfl | ⟨hother, earlier, later, rfl, hlater⟩)
    · exact ⟨history, [], rfl, fun _ h => absurd h List.not_mem_nil⟩
    · refine ⟨earlier, later ++ [last], by simp, fun subscription h => ?_⟩
      rcases List.mem_append.1 h with h | h
      · exact hlater subscription h
      · exact List.mem_singleton.1 h ▸ hother

-- A name that is added while it remains does not join once more.
theorem joinedAt_added :
    JoinedAt (history ++ [.added n listener]) name earlier ↔
      JoinedAt history name earlier ∨ (name = n ∧ earlier = history ∧ ¬Remains history n) := by
  constructor
  · rintro ⟨l, later, h, hearlier, hlater⟩
    rcases append_singleton_eq_append_cons.1 h with ⟨rfl, hlast, -⟩ | ⟨between, rfl, rfl⟩
    · obtain ⟨rfl, -⟩ := Subscription.added.inj hlast
      exact Or.inr ⟨rfl, rfl, hearlier⟩
    · exact Or.inl ⟨l, between, rfl, hearlier, fun h => hlater (List.mem_append_left _ h)⟩
  · rintro (⟨l, later, rfl, hearlier, hlater⟩ | ⟨rfl, rfl, hearlier⟩)
    · refine ⟨l, later ++ [.added n listener], by simp, hearlier, ?_⟩
      simpa using hlater
    · exact ⟨listener, [], rfl, hearlier, List.not_mem_nil⟩

theorem joinedAt_removed :
    JoinedAt (history ++ [.removed n]) name earlier ↔
      name ≠ n ∧ JoinedAt history name earlier := by
  constructor
  · rintro ⟨l, later, h, hearlier, hlater⟩
    rcases append_singleton_eq_append_cons.1 h with ⟨-, hlast, -⟩ | ⟨between, rfl, rfl⟩
    · cases hlast
    · refine ⟨?_, l, between, rfl, hearlier, fun h => hlater (List.mem_append_left _ h)⟩
      rintro rfl
      exact hlater (List.mem_append_right _ List.mem_cons_self)
  · rintro ⟨hother, l, later, rfl, hearlier, hlater⟩
    refine ⟨l, later ++ [.removed n], by simp, hearlier, ?_⟩
    simpa using ⟨hlater, hother⟩

theorem JoinedAt.length_lt (h : JoinedAt history name earlier) :
    earlier.length < history.length := by
  rcases h with ⟨l, later, rfl, -, -⟩
  simp

/-- The names that remain are those that joined at some time. -/
theorem remains_iff_joinedAt : Remains history name ↔ ∃ earlier, JoinedAt history name earlier := by
  constructor
  · intro h
    induction history using List.reverseRecOn with
    | nil =>
        rcases h with ⟨earlier, l, later, h, -⟩
        exact absurd h.symm (by simp)
    | append_singleton history last ih =>
        cases last with
        | added n listener =>
            by_cases hremains : Remains history name
            · exact (ih hremains).imp fun _ h => joinedAt_added.2 (Or.inl h)
            · obtain rfl := (remains_added.1 h).resolve_right hremains
              exact ⟨history, joinedAt_added.2 (Or.inr ⟨rfl, rfl, hremains⟩)⟩
        | removed n =>
            obtain ⟨hother, hremains⟩ := remains_removed.1 h
            exact (ih hremains).imp fun _ h => joinedAt_removed.2 ⟨hother, h⟩
  · rintro ⟨earlier, l, later, h, -, hlater⟩
    exact ⟨earlier, l, later, h, hlater⟩

-- What is added is behind all that joined before.
theorem joinedBefore_added {first second : String} :
    JoinedBefore (history ++ [.added n listener]) first second ↔
      JoinedBefore history first second ∨
        (Remains history first ∧ second = n ∧ ¬Remains history n) := by
  constructor
  · rintro ⟨early, late, hfirst, hsecond, hbefore⟩
    rcases joinedAt_added.1 hsecond with hlate | ⟨rfl, rfl, hnew⟩
    · rcases joinedAt_added.1 hfirst with hearly | ⟨-, rfl, -⟩
      · exact Or.inl ⟨early, late, hearly, hlate, hbefore⟩
      · exact absurd hlate.length_lt (by omega)
    · rcases joinedAt_added.1 hfirst with hearly | ⟨-, rfl, -⟩
      · exact Or.inr ⟨remains_iff_joinedAt.2 ⟨early, hearly⟩, rfl, hnew⟩
      · exact absurd hbefore (by omega)
  · rintro (⟨early, late, hfirst, hsecond, hbefore⟩ | ⟨hfirst, rfl, hnew⟩)
    · exact ⟨early, late, joinedAt_added.2 (Or.inl hfirst), joinedAt_added.2 (Or.inl hsecond),
        hbefore⟩
    · obtain ⟨early, hfirst⟩ := remains_iff_joinedAt.1 hfirst
      exact ⟨early, history, joinedAt_added.2 (Or.inl hfirst),
        joinedAt_added.2 (Or.inr ⟨rfl, rfl, hnew⟩), hfirst.length_lt⟩

theorem joinedBefore_removed {first second : String} :
    JoinedBefore (history ++ [.removed n]) first second ↔
      (first ≠ n ∧ second ≠ n) ∧ JoinedBefore history first second := by
  constructor
  · rintro ⟨early, late, hfirst, hsecond, hbefore⟩
    obtain ⟨hfirst, hearly⟩ := joinedAt_removed.1 hfirst
    obtain ⟨hsecond, hlate⟩ := joinedAt_removed.1 hsecond
    exact ⟨⟨hfirst, hsecond⟩, early, late, hearly, hlate, hbefore⟩
  · rintro ⟨⟨hfirst, hsecond⟩, early, late, hearly, hlate, hbefore⟩
    exact ⟨early, late, joinedAt_removed.2 ⟨hfirst, hearly⟩, joinedAt_removed.2 ⟨hsecond, hlate⟩,
      hbefore⟩

end Histories

namespace NameTable

variable {α : Type}

/-- In a table without repeated names the entries are what is found under the names. -/
theorem mem_entries_iff {t : NameTable α} (h : t.names.Nodup) {name : String} {value : α} :
    (name, value) ∈ t.entries ↔ t.get? name = some value := by
  rw [get?, List.lookup_eq_some_iff]
  constructor
  · intro hmem
    obtain ⟨front, behind, hentries⟩ := List.append_of_mem hmem
    rw [names, hentries, List.map_append, List.map_cons, List.nodup_middle, List.nodup_cons] at h
    refine ⟨front, behind, hentries, fun entry hentry => bne_iff_ne.2 fun hname => h.1 ?_⟩
    change name ∈ _
    exact hname ▸ List.mem_append_left _ (List.mem_map_of_mem hentry)
  · rintro ⟨front, behind, hentries, -⟩
    rw [hentries]
    exact List.mem_append_right _ List.mem_cons_self

end NameTable

section Tables

variable {α : Type}

/-- A table tells the same as a history: it has the names that remain, each once, in the order in
    which they joined, and under each name the listener that was added last. -/
structure Listed (history : List (Subscription α)) (t : NameTable α) : Prop where
  nodup : t.names.Nodup
  mem_names : ∀ name, name ∈ t.names ↔ Remains history name
  mem_entries : ∀ name listener, (name, listener) ∈ t.entries ↔ Holds history name listener
  ordered : ∀ first second, [first, second].Sublist t.names ↔ JoinedBefore history first second

/-- A pair stands in front of the last element of a list, or that is the second one. -/
theorem pair_sublist_append_singleton {β : Type} {a b c : β} {list : List β} :
    [a, b].Sublist (list ++ [c]) ↔ [a, b].Sublist list ∨ (a ∈ list ∧ b = c) := by
  rw [List.sublist_append_iff]
  constructor
  · rintro ⟨front, behind, hpair, hfront, hbehind⟩
    rcases List.sublist_singleton.1 hbehind with rfl | rfl
    · rw [List.append_nil] at hpair
      exact Or.inl (hpair ▸ hfront)
    · rw [← List.singleton_append] at hpair
      obtain ⟨hfirst, hsecond⟩ := List.append_inj' hpair rfl
      exact Or.inr ⟨List.singleton_sublist.1 (hfirst ▸ hfront), (List.cons.inj hsecond).1⟩
  · rintro (h | ⟨hmem, rfl⟩)
    · exact ⟨[a, b], [], rfl, h, List.nil_sublist _⟩
    · exact ⟨[a], [b], rfl, List.singleton_sublist.2 hmem, List.Sublist.refl _⟩

variable {history : List (Subscription α)} {t : NameTable α}

theorem listed_empty : Listed ([] : List (Subscription α)) NameTable.empty := by
  have hnothing : ∀ {front behind : List (Subscription α)} {s : Subscription α},
      [] ≠ front ++ s :: behind := by simp
  refine ⟨List.nodup_nil, fun name => ⟨?_, ?_⟩, fun name listener => ⟨?_, ?_⟩,
    fun first second => ⟨?_, ?_⟩⟩
  · exact fun h => absurd h List.not_mem_nil
  · exact fun ⟨_, _, _, h, _⟩ => absurd h hnothing
  · exact fun h => absurd h List.not_mem_nil
  · exact fun ⟨_, _, h, _⟩ => absurd h hnothing
  · exact fun h => absurd h (by simp)
  · exact fun ⟨_, _, ⟨_, _, h, _⟩, _⟩ => absurd h hnothing

/-- What is added under a new name is listed behind all others. A name that remains keeps its place,
    and its listener makes way. -/
theorem Listed.insert (h : Listed history t) (name : String) (listener : α) :
    Listed (history ++ [.added name listener]) (t.insert name listener) := by
  have hnodup := NameTable.nodup_names_insert h.nodup name listener
  refine ⟨hnodup, fun n => ?_, fun n l => ?_, fun first second => ?_⟩
  · rw [remains_added, ← h.mem_names, ← NameTable.get?_isSome_iff, NameTable.get?_insert,
      ← NameTable.get?_isSome_iff]
    by_cases hn : n = name <;> simp [hn]
  · rw [NameTable.mem_entries_iff hnodup, NameTable.get?_insert, holds_append, ← h.mem_entries,
      NameTable.mem_entries_iff h.nodup, Subscription.added.injEq, Subscription.name]
    by_cases hn : n = name
    · simp [hn]
    · simp [hn, Ne.symm hn]
  · rw [joinedBefore_added, ← h.mem_names, ← h.mem_names, ← h.ordered, NameTable.names_insert]
    split
    · simp [*]
    · rw [pair_sublist_append_singleton]
      simp [*]

/-- What is removed is listed no more, and the others keep their order. -/
theorem Listed.erase (h : Listed history t) (name : String) :
    Listed (history ++ [.removed name]) (t.erase name) := by
  have hnodup := NameTable.nodup_names_erase h.nodup name
  refine ⟨hnodup, fun n => ?_, fun n l => ?_, fun first second => ?_⟩
  · rw [remains_removed, ← h.mem_names, NameTable.names_erase, List.mem_filter, bne_iff_ne,
      and_comm]
  · rw [NameTable.mem_entries_iff hnodup, NameTable.get?_erase, holds_append, ← h.mem_entries,
      NameTable.mem_entries_iff h.nodup, Subscription.name]
    by_cases hn : n = name
    · simp [hn]
    · simp [hn, Ne.symm hn]
  · rw [joinedBefore_removed, ← h.ordered, NameTable.names_erase]
    constructor
    · intro hsub
      have hmem : ∀ n ∈ [first, second], n ≠ name :=
        fun n hn => bne_iff_ne.1 (List.mem_filter.1 (hsub.subset hn)).2
      exact ⟨⟨hmem first (by simp), hmem second (by simp)⟩, hsub.trans List.filter_sublist⟩
    · rintro ⟨⟨hfirst, hsecond⟩, hsub⟩
      have hpair : [first, second].filter (fun n => n != name) = [first, second] := by
        simp [hfirst, hsecond]
      exact hpair ▸ hsub.filter _

end Tables

end ObjectBootstrap
