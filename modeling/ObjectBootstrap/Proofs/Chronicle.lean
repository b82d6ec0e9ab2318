import ObjectBootstrap.Engine

/-!
# Chronicles

The log of a state holds everything that happened, so what happened between two states is the part
of the later log that the earlier one lacks. Read from its earliest entry on, that part is a
chronicle.

Calls of entry points are written down when they are entered and when they are left. What happens
in between is the doing of the hook or factory that was called, and everything else is what the
registry does of its own accord. `outer` and `inner` tell the two apart, by counting the calls that
are open. The count is only right for a chronicle in which every call that was entered is left
again, and where calls lie inside one another. `Nested` says so. It is an inductive predicate
because the lemmas about depths go by the way in which a chronicle is put together, and not by its
entries one after the other.

## Main definitions

* `State.note`: A state with one more entry in its log.
* `since`: What happened from one state to a later one.
* `tagged`: A chronicle with the number of open calls beside each entry.
* `outer`, `inner`: The entries outside of all calls, and those inside of one.
* `calls`: The calls that are not made inside of another one.
* `stores`: The definitions that were stored, each with its name.
* `under`: Those of them that were stored under a name.
* `installs`: The names of the hooks that were installed.
* `Nested`: A chronicle in which every call is left again.

## Theorems

* `since_self`, `since_note`, `since_append`: How chronicles grow and how they are joined.
* `outer_append`, `inner_append`: Joined chronicles are told apart one by one.
* `outer_call`, `inner_call`: What a single call contributes.
* `filterMap_outer`: What does not happen inside of calls is found outside of them.
-/

namespace ObjectBootstrap

variable {H : Host}

/-- The state with one more entry in its log. -/
def State.note (s : State H) (activity : Activity H) : State H :=
  { s with log := activity :: s.log }

@[simp] theorem State.note_container (s : State H) (activity : Activity H) :
    (s.note activity).container = s.container := rfl

@[simp] theorem State.note_log (s : State H) (activity : Activity H) :
    (s.note activity).log = activity :: s.log := rfl

/-- What happened from one state to a later one, earliest first. -/
def since (s t : State H) : List (Activity H) :=
  (t.log.take (t.log.length - s.log.length)).reverse

theorem since_self (s : State H) : since s s = [] := by
  simp only [since, Nat.sub_self, List.take_zero, List.reverse_nil]

-- The chronicle is what the later log has in front of the earlier one.
theorem since_of_log {s t : State H} {news : List (Activity H)} (h : t.log = news ++ s.log) :
    since s t = news.reverse := by
  rw [since, h, List.length_append, Nat.add_sub_cancel, List.take_left]

theorem since_note {s t : State H} (h : s.log <:+ t.log) (activity : Activity H) :
    since s (t.note activity) = since s t ++ [activity] := by
  rcases h with ⟨news, hnews⟩
  have hlog : (t.note activity).log = (activity :: news) ++ s.log := by
    rw [State.note_log, ← hnews, List.cons_append]
  rw [since_of_log hlog, since_of_log hnews.symm, List.reverse_cons]

/-- Two chronicles of which the second starts where the first one ends are one. -/
theorem since_append {s t u : State H} (hst : s.log <:+ t.log) (htu : t.log <:+ u.log) :
    since s u = since s t ++ since t u := by
  rcases hst with ⟨early, hearly⟩
  rcases htu with ⟨late, hlate⟩
  have hlog : u.log = (late ++ early) ++ s.log := by
    rw [← hlate, ← hearly, List.append_assoc]
  rw [since_of_log hlog, since_of_log hearly.symm, since_of_log hlate.symm, List.reverse_append]

-- An entry of a log stands in its earlier part, or all of that part stands in front of it.
theorem entry_or_later {log log' earlier : List (Activity H)} {activity : Activity H}
    (hlog : log <:+ log') (hentry : activity :: earlier <:+ log') :
    activity :: earlier <:+ log ∨ log <:+ earlier := by
  rcases List.suffix_or_suffix_of_suffix hentry hlog with hfirst | hsecond
  · exact Or.inl hfirst
  · rcases List.suffix_cons_iff.1 hsecond with heq | hsuffix
    · exact Or.inl (heq ▸ List.suffix_rfl)
    · exact Or.inr hsuffix

-- An entry that does not stand in the earlier part of a log is one of the news.
theorem mem_news {log news earlier : List (Activity H)} {activity : Activity H}
    (hentry : activity :: earlier <:+ news ++ log) (hearlier : log <:+ earlier) :
    activity ∈ news := by
  rcases hentry with ⟨later, hlater⟩
  rcases hearlier with ⟨between, rfl⟩
  have heq : later ++ activity :: between = news := by
    refine List.append_cancel_right (?_ : _ ++ log = news ++ log)
    rw [← hlater, List.append_assoc, List.cons_append]
  exact heq ▸ List.mem_append_right _ List.mem_cons_self

-- If there is one new entry, an entry that is no earlier one is that.
theorem eq_of_entry {log earlier : List (Activity H)} {activity last : Activity H}
    (hentry : activity :: earlier <:+ last :: log) (hearlier : log <:+ earlier) :
    activity = last ∧ earlier = log := by
  rcases List.suffix_cons_iff.1 hentry with heq | hwithin
  · injection heq with hactivity hlog
    exact ⟨hactivity, hlog⟩
  · have hlength := (hwithin.trans hearlier).length_le
    rw [List.length_cons] at hlength
    omega

-- What happens on a part of the way happens on the way.
theorem since_subset {s t u v : State H} (hst : s.log <:+ t.log) (htu : t.log <:+ u.log)
    (huv : u.log <:+ v.log) : since t u ⊆ since s v := by
  rw [since_append hst (htu.trans huv), since_append htu huv]
  exact List.subset_append_of_subset_right _ (List.subset_append_left _ _)

/-- The number of open calls at an entry and behind it. -/
def Activity.depths (depth : Nat) : Activity H → Nat × Nat
  | .entered _ => (depth, depth + 1)
  | .left _ _ => (depth - 1, depth - 1)
  | _ => (depth, depth)

/-- Whether an entry is neither the beginning nor the end of a call. -/
def Activity.IsRemark : Activity H → Prop
  | .entered _ => False
  | .left _ _ => False
  | _ => True

/-- A chronicle with the number of open calls beside each entry. The first argument is the number
    of calls that are open in front of it. -/
def tagged : Nat → List (Activity H) → List (Nat × Activity H)
  | _, [] => []
  | depth, activity :: rest =>
    ((activity.depths depth).1, activity) :: tagged (activity.depths depth).2 rest

/-- The entries outside of all calls, with the beginnings and ends of the outermost ones. -/
def outer (chronicle : List (Activity H)) : List (Activity H) :=
  ((tagged 0 chronicle).filter fun entry => entry.1 = 0).map Prod.snd

/-- The entries inside of calls. -/
def inner (chronicle : List (Activity H)) : List (Activity H) :=
  ((tagged 0 chronicle).filter fun entry => entry.1 ≠ 0).map Prod.snd

/-- The entry point that an entry is the beginning of a call of. -/
def Activity.entered? : Activity H → Option (EntryPoint H)
  | .entered point => some point
  | _ => none

/-- The calls that are not made inside of another one. -/
def calls (chronicle : List (Activity H)) : List (EntryPoint H) :=
  (outer chronicle).filterMap Activity.entered?

/-- The definition that an entry tells to be stored, with the name it is stored under. -/
def Activity.stored? : Activity H → Option (String × Definition H.Factory)
  | .registered d => some (d.name, d)
  | .updated name d => some (name, d)
  | _ => none

/-- The definitions that were stored, each with its name. -/
def stores (chronicle : List (Activity H)) : List (String × Definition H.Factory) :=
  chronicle.filterMap Activity.stored?

/-- The name under which an entry tells a hook to be installed. -/
def Activity.installed? : Activity H → Option String
  | .installed name => some name
  | _ => none

/-- The names of the hooks that were installed. -/
def installs (chronicle : List (Activity H)) : List String :=
  chronicle.filterMap Activity.installed?

theorem stores_append (early late : List (Activity H)) :
    stores (early ++ late) = stores early ++ stores late :=
  List.filterMap_append

/-- What was stored under a name. -/
def under {F : Type} (name : String) (stored : List (String × Definition F)) :
    List (Definition F) :=
  stored.filterMap fun entry => if entry.1 = name then some entry.2 else none

theorem under_append {F : Type} (name : String) (early late : List (String × Definition F)) :
    under name (early ++ late) = under name early ++ under name late :=
  List.filterMap_append

theorem under_single {F : Type} (name stored : String) (d : Definition F) :
    under name [(stored, d)] = if stored = name then [d] else [] := by
  by_cases h : stored = name
  · simp only [under, List.filterMap_cons, if_pos h, List.filterMap_nil]
  · simp only [under, List.filterMap_cons, if_neg h, List.filterMap_nil]

theorem under_cons {F : Type} (name stored : String) (d : Definition F)
    (later : List (String × Definition F)) :
    under name ((stored, d) :: later)
      = (if stored = name then [d] else []) ++ under name later := by
  rw [← List.singleton_append, under_append, under_single]

theorem mem_under {F : Type} {name : String} {stored : List (String × Definition F)}
    {d : Definition F} : d ∈ under name stored ↔ (name, d) ∈ stored := by
  rw [under, List.mem_filterMap]
  constructor
  · rintro ⟨⟨n, e⟩, hmem, heq⟩
    by_cases h : n = name
    · rw [if_pos h, Option.some.injEq] at heq
      exact h ▸ heq ▸ hmem
    · rw [if_neg h] at heq
      cases heq
  · exact fun hmem => ⟨(name, d), hmem, if_pos rfl⟩

theorem installs_append (early late : List (Activity H)) :
    installs (early ++ late) = installs early ++ installs late :=
  List.filterMap_append

theorem installs_between {first last : Activity H} (hfirst : first.installed? = none)
    (hlast : last.installed? = none) (body : List (Activity H)) :
    installs (first :: body ++ [last]) = installs body := by
  rw [installs_append, installs, installs, installs, List.filterMap_cons_none hfirst,
    List.filterMap_cons_none hlast, List.filterMap_nil, List.append_nil]

/-- A chronicle in which every call that is entered is left again. -/
inductive Nested : List (Activity H) → Prop
  | nil : Nested []
  | remark {activity : Activity H} : activity.IsRemark → Nested [activity]
  | append {early late : List (Activity H)} : Nested early → Nested late → Nested (early ++ late)
  | call {point : EntryPoint H} {failure : Option Failure} {body : List (Activity H)} :
    Nested body → Nested (.entered point :: body ++ [.left point failure])

theorem tagged_remark {activity : Activity H} (h : activity.IsRemark) (depth : Nat)
    (rest : List (Activity H)) :
    tagged depth (activity :: rest) = (depth, activity) :: tagged depth rest := by
  cases activity with
  | entered point => exact absurd h id
  | left point failure => exact absurd h id
  | _ => rfl

theorem tagged_append {early : List (Activity H)} (h : Nested early) :
    ∀ (depth : Nat) (late : List (Activity H)),
      tagged depth (early ++ late) = tagged depth early ++ tagged depth late := by
  induction h with
  | nil => intro depth late; rfl
  | remark hremark =>
      intro depth late
      rw [List.singleton_append, tagged_remark hremark, tagged_remark hremark]
      rfl
  | append _ _ ihearly ihlate =>
      intro depth late
      rw [List.append_assoc, ihearly, ihearly, ihlate, List.append_assoc]
  | @call point failure body _ ih =>
      intro depth late
      -- Behind the end of the call as many calls are open as in front of it.
      have hleft : ∀ rest, tagged (depth + 1) (.left point failure :: rest)
          = (depth, .left point failure) :: tagged depth rest := fun rest => rfl
      simp only [List.cons_append, List.append_assoc, List.nil_append]
      rw [tagged, tagged]
      simp only [Activity.depths]
      rw [ih, ih, hleft, hleft]
      simp only [List.cons_append, List.append_assoc, tagged, List.nil_append]

-- No entry stands outside of the calls that are open in front of the chronicle.
theorem le_of_mem_tagged {chronicle : List (Activity H)} (h : Nested chronicle) :
    ∀ (depth : Nat), ∀ entry ∈ tagged depth chronicle, depth ≤ entry.1 := by
  induction h with
  | nil =>
      intro depth entry hmem
      exact absurd hmem List.not_mem_nil
  | remark hremark =>
      intro depth entry hmem
      rw [tagged_remark hremark] at hmem
      simp only [tagged, List.mem_singleton] at hmem
      exact hmem ▸ Nat.le_refl depth
  | append hearly _ ihearly ihlate =>
      intro depth entry hmem
      rw [tagged_append hearly] at hmem
      rcases List.mem_append.1 hmem with h | h
      · exact ihearly depth entry h
      · exact ihlate depth entry h
  | @call point failure body hbody ih =>
      intro depth entry hmem
      rw [List.cons_append, tagged, List.mem_cons] at hmem
      rcases hmem with rfl | hmem
      · exact Nat.le_refl depth
      -- The body is one call deeper than the call that it is the body of.
      simp only [Activity.depths] at hmem
      rw [tagged_append hbody, List.mem_append] at hmem
      rcases hmem with hmem | hmem
      · exact Nat.le_of_succ_le (ih (depth + 1) entry hmem)
      · simp only [tagged, Activity.depths, List.mem_singleton, Nat.add_sub_cancel] at hmem
        exact hmem ▸ Nat.le_refl depth

theorem map_snd_tagged (depth : Nat) (chronicle : List (Activity H)) :
    (tagged depth chronicle).map Prod.snd = chronicle := by
  induction chronicle generalizing depth with
  | nil => rfl
  | cons activity rest ih => rw [tagged, List.map_cons, ih]

theorem outer_append {early : List (Activity H)} (h : Nested early) (late : List (Activity H)) :
    outer (early ++ late) = outer early ++ outer late := by
  rw [outer, tagged_append h, List.filter_append, List.map_append]
  rfl

theorem inner_append {early : List (Activity H)} (h : Nested early) (late : List (Activity H)) :
    inner (early ++ late) = inner early ++ inner late := by
  rw [inner, tagged_append h, List.filter_append, List.map_append]
  rfl

theorem calls_append {early : List (Activity H)} (h : Nested early) (late : List (Activity H)) :
    calls (early ++ late) = calls early ++ calls late := by
  rw [calls, outer_append h, List.filterMap_append]
  rfl

theorem outer_remark {activity : Activity H} (h : activity.IsRemark) :
    outer [activity] = [activity] := by
  rw [outer, tagged_remark h]
  rfl

theorem inner_remark {activity : Activity H} (h : activity.IsRemark) :
    inner [activity] = [] := by
  rw [inner, tagged_remark h]
  rfl

-- Remarks around a part of a chronicle stand outside of calls, as do those that the part has there.
theorem outer_between (first last : Activity H) {body : List (Activity H)}
    (hfirst : first.IsRemark) (hlast : last.IsRemark) (hbody : Nested body) :
    outer (first :: body ++ [last]) = first :: outer body ++ [last] := by
  rw [List.cons_append, ← List.singleton_append, outer_append (.remark hfirst),
    outer_append hbody, outer_remark hfirst, outer_remark hlast]
  rfl

-- The entries of a call, told apart from its beginning and its end.
theorem tagged_call {point : EntryPoint H} {failure : Option Failure}
    {body : List (Activity H)} (h : Nested body) :
    tagged 0 (.entered point :: body ++ [.left point failure])
      = (0, .entered point) :: tagged 1 body ++ [(0, .left point failure)] := by
  rw [List.cons_append, tagged]
  simp only [Activity.depths]
  rw [tagged_append h]
  rfl

/-- Of a call only its beginning and its end stand outside of calls. -/
theorem outer_call {point : EntryPoint H} {failure : Option Failure}
    {body : List (Activity H)} (h : Nested body) :
    outer (.entered point :: body ++ [.left point failure])
      = [.entered point, .left point failure] := by
  -- One call is open all through the body, so none of it stands outside.
  have hbody : (tagged 1 body).filter (fun entry => entry.1 = 0) = [] := by
    rw [List.filter_eq_nil_iff]
    intro entry hmem
    have := le_of_mem_tagged h 1 entry hmem
    simp only [decide_eq_true_eq]
    omega
  rw [outer, tagged_call h, List.filter_append, List.filter_cons_of_pos (by simp), hbody]
  rfl

/-- Inside of a call stands all that happens between its beginning and its end. -/
theorem inner_call {point : EntryPoint H} {failure : Option Failure}
    {body : List (Activity H)} (h : Nested body) :
    inner (.entered point :: body ++ [.left point failure]) = body := by
  have hbody : (tagged 1 body).filter (fun entry => entry.1 ≠ 0) = tagged 1 body := by
    rw [List.filter_eq_self]
    intro entry hmem
    have := le_of_mem_tagged h 1 entry hmem
    simp only [decide_eq_true_eq]
    omega
  rw [inner, tagged_call h, List.filter_append, List.filter_cons_of_neg (by simp), hbody,
    List.filter_cons_of_neg (by simp), List.filter_nil, List.append_nil, map_snd_tagged]

theorem calls_call {point : EntryPoint H} {failure : Option Failure}
    {body : List (Activity H)} (h : Nested body) :
    calls (.entered point :: body ++ [.left point failure]) = [point] := by
  rw [calls, outer_call h]
  rfl

/-- What does not happen inside of calls is found outside of them. -/
theorem filterMap_outer {α : Type} (f : Activity H → Option α) (chronicle : List (Activity H))
    (h : ∀ activity ∈ inner chronicle, f activity = none) :
    (outer chronicle).filterMap f = chronicle.filterMap f := by
  -- Said of any numbered entries, since the rest of a chronicle need not start outside of calls.
  have key : ∀ entries : List (Nat × Activity H),
      (∀ activity ∈ (entries.filter fun entry => entry.1 ≠ 0).map Prod.snd, f activity = none) →
        ((entries.filter fun entry => entry.1 = 0).map Prod.snd).filterMap f
          = (entries.map Prod.snd).filterMap f := by
    intro entries
    induction entries with
    | nil => intro _; rfl
    | cons entry rest ih =>
        intro hrest
        by_cases hentry : entry.1 = 0
        · rw [List.filter_cons_of_pos (by simp [hentry]), List.map_cons, List.map_cons,
            List.filterMap_cons, List.filterMap_cons, ih]
          intro activity hmem
          rw [List.filter_cons_of_neg (by simp [hentry])] at hrest
          exact hrest activity hmem
        · rw [List.filter_cons_of_pos (by simp [hentry])] at hrest
          rw [List.filter_cons_of_neg (by simp [hentry]), List.map_cons, List.filterMap_cons,
            hrest entry.2 List.mem_cons_self]
          exact ih fun activity hmem => hrest activity (List.mem_cons_of_mem _ hmem)
  have := key (tagged 0 chronicle) h
  rwa [map_snd_tagged] at this

end ObjectBootstrap
