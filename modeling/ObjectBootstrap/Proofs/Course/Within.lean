import ObjectBootstrap.Proofs.Course

/-!
# What stands inside of calls of a kind

`inner` tells what stands inside of calls, whatever is called. A promise is often about some calls
only: the hooks build nothing, say, while the other factories may. Then it matters which calls are
open at an entry, and not only how many.

If the calls that a course makes outside of others are all of one kind, then what stands in the
course stands outside of calls or inside of calls of that kind. So a promise about the kind and what
may be written down outside say together what is written down at all.

## Main definitions

* `opened`: A chronicle with the open calls beside each entry.
* `within`: The entries inside of calls of a kind.

## Theorems

* `inner_subset_within`: What stands inside of calls if all outermost calls are of a kind.
* `Course.within_subset`: What stands inside of calls on a part of the way.
* `Course.mem_may_or_within`: What stands in a course that only makes calls of a kind.
-/

namespace ObjectBootstrap

variable {H : Host}

/-- The open calls at an entry and behind it, innermost first. -/
def Activity.openCalls (calls : List (EntryPoint H)) :
    Activity H → List (EntryPoint H) × List (EntryPoint H)
  | .entered point => (calls, point :: calls)
  | .left _ _ => (calls.tail, calls.tail)
  | _ => (calls, calls)

/-- A chronicle with the open calls beside each entry. The first argument are the calls that are
    open in front of it. -/
def opened : List (EntryPoint H) → List (Activity H) → List (List (EntryPoint H) × Activity H)
  | _, [] => []
  | calls, activity :: rest =>
    ((activity.openCalls calls).1, activity) :: opened (activity.openCalls calls).2 rest

/-- The entries inside of calls of a kind. -/
def within (p : EntryPoint H → Bool) (chronicle : List (Activity H)) : List (Activity H) :=
  ((opened [] chronicle).filter fun entry => entry.1.any p).map Prod.snd

theorem opened_remark {activity : Activity H} (h : activity.IsRemark) (calls : List (EntryPoint H))
    (rest : List (Activity H)) :
    opened calls (activity :: rest) = (calls, activity) :: opened calls rest := by
  cases activity with
  | entered point => exact absurd h id
  | left point failure => exact absurd h id
  | _ => rfl

theorem opened_append {early : List (Activity H)} (h : Nested early) :
    ∀ (calls : List (EntryPoint H)) (late : List (Activity H)),
      opened calls (early ++ late) = opened calls early ++ opened calls late := by
  induction h with
  | nil => intro calls late; rfl
  | remark hremark =>
      intro calls late
      rw [List.singleton_append, opened_remark hremark, opened_remark hremark]
      rfl
  | append _ _ ihearly ihlate =>
      intro calls late
      rw [List.append_assoc, ihearly, ihearly, ihlate, List.append_assoc]
  | @call point failure body _ ih =>
      intro calls late
      -- Behind the end of the call the same calls are open as in front of it.
      have hleft : ∀ rest, opened (point :: calls) (.left point failure :: rest)
          = (calls, .left point failure) :: opened calls rest := fun rest => rfl
      simp only [List.cons_append, List.append_assoc, List.nil_append]
      rw [opened, opened]
      simp only [Activity.openCalls]
      rw [ih, ih, hleft, hleft]
      simp only [List.cons_append, List.append_assoc, opened, List.nil_append]

-- The calls that are open in front of a chronicle are open all through it.
theorem suffix_of_mem_opened {chronicle : List (Activity H)} (h : Nested chronicle) :
    ∀ (calls : List (EntryPoint H)), ∀ entry ∈ opened calls chronicle, calls <:+ entry.1 := by
  induction h with
  | nil =>
      intro calls entry hmem
      exact absurd hmem List.not_mem_nil
  | remark hremark =>
      intro calls entry hmem
      rw [opened_remark hremark] at hmem
      simp only [opened, List.mem_singleton] at hmem
      exact hmem ▸ List.suffix_rfl
  | append hearly _ ihearly ihlate =>
      intro calls entry hmem
      rw [opened_append hearly] at hmem
      rcases List.mem_append.1 hmem with h | h
      · exact ihearly calls entry h
      · exact ihlate calls entry h
  | @call point failure body hbody ih =>
      intro calls entry hmem
      rw [List.cons_append, opened, List.mem_cons] at hmem
      rcases hmem with rfl | hmem
      · exact List.suffix_rfl
      simp only [Activity.openCalls] at hmem
      rw [opened_append hbody, List.mem_append] at hmem
      rcases hmem with hmem | hmem
      · exact (List.suffix_cons point calls).trans (ih _ entry hmem)
      · simp only [opened, Activity.openCalls, List.tail_cons, List.mem_singleton] at hmem
        exact hmem ▸ List.suffix_rfl

theorem map_snd_opened (calls : List (EntryPoint H)) (chronicle : List (Activity H)) :
    (opened calls chronicle).map Prod.snd = chronicle := by
  induction chronicle generalizing calls with
  | nil => rfl
  | cons activity rest ih => rw [opened, List.map_cons, ih]

variable {p q : EntryPoint H → Bool}

theorem within_append {early : List (Activity H)} (h : Nested early) (late : List (Activity H)) :
    within p (early ++ late) = within p early ++ within p late := by
  rw [within, opened_append h, List.filter_append, List.map_append]
  rfl

/-- Inside of a call of the kind stands all that happens between its beginning and its end. -/
theorem within_call {point : EntryPoint H} {failure : Option Failure} {body : List (Activity H)}
    (h : Nested body) (hpoint : p point = true) :
    within p (.entered point :: body ++ [.left point failure]) = body := by
  have hcall : opened [] (.entered point :: body ++ [.left point failure])
      = ([], .entered point) :: opened [point] body ++ [([], .left point failure)] := by
    rw [List.cons_append, opened]
    simp only [Activity.openCalls]
    rw [opened_append h]
    rfl
  have hbody : (opened [point] body).filter (fun entry => entry.1.any p)
      = opened [point] body := by
    rw [List.filter_eq_self]
    intro entry hmem
    have hopen : point ∈ entry.1 :=
      (suffix_of_mem_opened h [point] entry hmem).subset (List.mem_singleton_self point)
    exact List.any_eq_true.2 ⟨point, hopen, hpoint⟩
  rw [within, hcall, List.filter_append, List.filter_cons_of_neg (by simp), hbody,
    List.filter_cons_of_neg (by simp), List.filter_nil, List.append_nil, map_snd_opened]

-- What stands inside of calls of one kind or another.
theorem mem_within_or {chronicle : List (Activity H)} {activity : Activity H}
    (h : activity ∈ within (fun point => p point || q point) chronicle) :
    activity ∈ within p chronicle ∨ activity ∈ within q chronicle := by
  rcases List.mem_map.1 h with ⟨entry, hentry, rfl⟩
  rcases List.mem_filter.1 hentry with ⟨hmem, hopen⟩
  rcases List.any_eq_true.1 hopen with ⟨point, hpoint, hkind⟩
  rcases (Bool.or_eq_true _ _).mp hkind with hp | hq
  · exact Or.inl (List.mem_map_of_mem
      (List.mem_filter.2 ⟨hmem, List.any_eq_true.2 ⟨point, hpoint, hp⟩⟩))
  · exact Or.inr (List.mem_map_of_mem
      (List.mem_filter.2 ⟨hmem, List.any_eq_true.2 ⟨point, hpoint, hq⟩⟩))

theorem mem_outer_or_inner {chronicle : List (Activity H)} {activity : Activity H}
    (h : activity ∈ chronicle) : activity ∈ outer chronicle ∨ activity ∈ inner chronicle := by
  rw [← map_snd_tagged 0 chronicle] at h
  rcases List.mem_map.1 h with ⟨entry, hentry, rfl⟩
  by_cases hdepth : entry.1 = 0
  · exact Or.inl (List.mem_map_of_mem (List.mem_filter.2 ⟨hentry, decide_eq_true hdepth⟩))
  · exact Or.inr (List.mem_map_of_mem (List.mem_filter.2 ⟨hentry, decide_eq_true hdepth⟩))

/-- If all calls that are not made inside of others are of a kind, what stands inside of calls
    stands inside of calls of that kind. -/
theorem inner_subset_within {chronicle : List (Activity H)} (h : Nested chronicle)
    (hkind : ∀ point, .entered point ∈ outer chronicle → p point = true) :
    inner chronicle ⊆ within p chronicle := by
  induction h with
  | nil => exact fun activity hmem => absurd hmem List.not_mem_nil
  | remark hremark =>
      rw [inner_remark hremark]
      exact List.nil_subset _
  | append hearly _ ihearly ihlate =>
      rw [outer_append hearly] at hkind
      rw [inner_append hearly, within_append hearly]
      intro activity hmem
      rcases List.mem_append.1 hmem with hmem | hmem
      · exact List.mem_append_left _
          (ihearly (fun point h => hkind point (List.mem_append_left _ h)) hmem)
      · exact List.mem_append_right _
          (ihlate (fun point h => hkind point (List.mem_append_right _ h)) hmem)
  | @call point failure body hbody _ =>
      rw [outer_call hbody] at hkind
      rw [inner_call hbody, within_call hbody (hkind point List.mem_cons_self)]
      exact List.Subset.refl body

namespace Course

variable {may may' : Activity H → Prop} {s t u v : State H}

/-- What stands inside of calls on a part of the way stands inside of calls on all of it. -/
theorem within_subset (h1 : Course may s t) (h2 : Course may' t u) (h3 : Course Anything u v) :
    within p (since t u) ⊆ within p (since s v) := by
  have hleft : Course Anything s u := h1.anything.followedBy h2.anything
  rw [hleft.since_followedBy h3, h1.since_followedBy h2,
    within_append (h1.nested.append h2.nested), within_append h1.nested]
  exact fun activity hmem => List.mem_append_left _ (List.mem_append_right _ hmem)

/-- If a course only makes calls of a kind, what stands inside of calls stands inside of calls of
    that kind. -/
theorem inner_subset (h : Course may s t)
    (hkind : ∀ point, may (.entered point) → p point = true) :
    inner (since s t) ⊆ within p (since s t) := by
  refine inner_subset_within h.nested fun point hpoint => ?_
  rcases h.outer_may _ hpoint with hmay | ⟨_, _, hleft⟩
  · exact hkind point hmay
  · cases hleft

/-- What stands in a course that only makes calls of a kind. -/
theorem mem_may_or_within (h : Course may s t)
    (hkind : ∀ point, may (.entered point) → p point = true) {activity : Activity H}
    (hmem : activity ∈ since s t) :
    may activity ∨ (∃ point failure, activity = .left point failure) ∨
      activity ∈ within p (since s t) := by
  rcases mem_outer_or_inner hmem with hout | hin
  · exact (h.outer_may activity hout).imp_right Or.inl
  · exact Or.inr (Or.inr (h.inner_subset hkind hin))

end Course

end ObjectBootstrap
