import ObjectBootstrap.Proofs.Building.Calling
import ObjectBootstrap.Proofs.Building.Renewal
import ObjectBootstrap.Proofs.Installation.Wrapping

/-!
# Singletons are one object

The cache of singletons is looked at when an object is asked for, and it is written to when the
build that the request entailed is over. In between anything may happen: hooks and factories ask for
other objects, and for the same one, they change definitions, and they fail. Nevertheless a
singleton that was answered once is the answer to all later requests, until the name is registered
anew, and each of these is answered at once.

There is one way to lose it. An interceptor may put a prototype in the place of the copy that the
build uses, and then the object that the request is answered with is not kept, whatever scope the
registered definition has. So what decides is the copy that the factory is called with.

What happened is read from the log. `Exchange` says where a request and its answer stand in it,
also if other requests and answers stand between them. `Faithful` is the relation that all runs keep
to. That the entry of a name is never overwritten comes from what is under way: while a build of the
name goes on, no request for it is answered with an object.

## Main definitions

* `Balanced`: Each request for a name is answered in a part of a log.
* `Exchange`: A request for a name and its answer.
* `Stands`: From some moment on an object answers for a name.
* `Faithful`: The relation that all runs keep to.

## Theorems

* `Exchange.eq_of_answered`: A request has one answer.
* `Engine.keeps_faithful`: Whatever is run, answers last.
* `Engine.exchange_of_getOrBuild`: A request that succeeds is an exchange.
* `Engine.kept_as_copied`: A request keeps its object exactly if that was built of a singleton.
* `singleton_identity`: A singleton is one object, and each build calls its factory once.
-/

namespace ObjectBootstrap

variable {H : Host}

/-- Each request for a name is answered in a part of a log, and each answer is one to a request in
    it. -/
def Balanced (name : String) (part : List (Activity H)) : Prop :=
  openRequests name part = 0 ∧ ∀ early, early <:+ part → 0 ≤ openRequests name early

/-- A request for a name is answered with an object. The log is told as it was before the request
    and as it is behind the answer, with what stands between the two. -/
def Exchange (name : String) (object : Object H.Content)
    (before between behind : List (Activity H)) : Prop :=
  Balanced name between ∧
    behind = .answered name (some object) :: (between ++ .requested name :: before)

/-- Since some moment an object answers for a name, as long as the name is not registered anew: it
    is kept, and each request for the name is answered with it at once. The moment is told by its
    log. -/
def Stands (name : String) (object : Object H.Content) (moment : List (Activity H))
    (t : State H) : Prop :=
  ∀ news, (∀ activity ∈ news, activity.Spares name) →
    (t.log = news ++ moment → t.container.singletons.get? name = some object) ∧
    (.requested name :: (news ++ moment) <:+ t.log →
      .answered name (some object) :: .requested name :: (news ++ moment) <:+ t.log)

/-- Answers last from one state to a later one. -/
structure Faithful (s t : State H) : Prop where
  suffix : s.log <:+ t.log
  /-- No request is answered that was open before, and none is left open. -/
  opens : StaysOpen s.log t.log
  closes : ∀ name, openRequests name t.log = openRequests name s.log
  /-- As long as the object of a name is built no request for it succeeds. -/
  refuses : s.container.Coherent → ∀ name ∈ s.container.inCreation, ∀ object earlier,
    .answered name (some object) :: earlier <:+ t.log → ¬ s.log <:+ earlier
  kept : s.container.Coherent → ∀ name object,
    s.container.singletons.get? name = some object → Stands name object s.log t
  exchanged : s.container.Coherent → ∀ name object before between behind,
    Exchange name object (before ++ s.log) between behind → behind <:+ t.log →
      Singular name between → Stands name object behind t

-- A request is open until it is answered.
theorem Balanced.opened {name : String} {between past log : List (Activity H)}
    (h : Balanced name between) (hlog : log <:+ between ++ .requested name :: past)
    (hrequest : .requested name :: past <:+ log) :
    openRequests name past < openRequests name log := by
  rcases hrequest with ⟨part, rfl⟩
  rcases hlog with ⟨rest, hrest⟩
  have hpart : rest ++ part = between := by
    refine List.append_cancel_right (?_ : _ ++ Activity.requested name :: past = _)
    rw [← hrest, List.append_assoc]
  have hopen := h.2 part ⟨rest, hpart⟩
  have hone : openRequests name (.requested name :: past) = 1 + openRequests name past := by
    rw [openRequests, Activity.opens, if_pos rfl]
  rw [openRequests_append, hone]
  omega

/-- If the entry behind a request is an answer with an object, that is the answer to the request. -/
theorem Exchange.eq_of_answered {name : String} {object other : Object H.Content}
    {before between behind log : List (Activity H)} (h : Exchange name other before between behind)
    (hbehind : behind <:+ log)
    (hentry : .answered name (some object) :: .requested name :: before <:+ log) :
    other = object := by
  rcases h with ⟨hbalanced, rfl⟩
  have hlength : (.answered name (some object) :: .requested name :: before).length
      ≤ (.answered name (some other) :: (between ++ .requested name :: before)).length := by
    simp only [List.length_cons, List.length_append]
    omega
  rcases List.suffix_cons_iff.1 (List.suffix_of_suffix_length_le hentry hbehind hlength) with
    heq | hwithin
  · injection heq with hanswer
    injection hanswer with _ hobject
    exact (Option.some.inj hobject).symm
  · -- There would be an answer in the middle that answers no request.
    rcases hwithin with ⟨rest, hrest⟩
    obtain rfl : rest ++ [.answered name (some object)] = between := by
      refine List.append_cancel_right (?_ : _ ++ Activity.requested name :: before = _)
      rw [← hrest, List.append_assoc, List.singleton_append]
    have hopen := hbalanced.2 [.answered name (some object)] (List.suffix_append _ _)
    rw [openRequests, openRequests, Activity.opens, if_pos rfl] at hopen
    omega

-- What stands between a request and its answer happens between the states in front and behind.
theorem Exchange.since_subset {name : String} {object : Object H.Content} {s t : State H}
    {between : List (Activity H)} (h : Exchange name object s.log between t.log)
    {activity : Activity H} (hmem : activity ∈ between) : activity ∈ since s t := by
  rw [since_of_log (show t.log = (.answered name (some object) :: between ++ [.requested name])
    ++ s.log by rw [h.2, List.append_assoc]; rfl), List.mem_reverse]
  exact List.mem_append_left _ (List.mem_cons_of_mem _ hmem)

/-- Whether an entry is a request or an answer. -/
def Activity.IsExchange : Activity H → Prop
  | .requested _ => True
  | .answered _ _ => True
  | _ => False

-- Only requests and answers count.
theorem Activity.opens_eq_zero {activity : Activity H} (h : ¬ activity.IsExchange) (name : String) :
    activity.opens name = 0 := by
  cases activity with
  | requested n => exact absurd trivial h
  | answered n object => exact absurd trivial h
  | _ => rfl

variable {s t u : State H} {name : String} {object : Object H.Content}
  {moment : List (Activity H)}

namespace Stands

-- There is nothing behind the present moment.
theorem of_kept (h : t.container.singletons.get? name = some object) :
    Stands name object t.log t := by
  refine fun news _ => ⟨fun _ => h, fun hentry => ?_⟩
  have hlength := hentry.length_le
  rw [List.length_cons, List.length_append] at hlength
  omega

-- What stands since an entry that is no request for the name stands since before that entry.
theorem of_cons {activity : Activity H} (h : Stands name object (activity :: moment) t)
    (hentry : activity :: moment <:+ t.log) (hother : activity ≠ .requested name) :
    Stands name object moment t := by
  -- Whatever comes behind the moment comes behind the entry.
  have hbehind : ∀ news, moment.length < (news ++ moment).length → news ++ moment <:+ t.log →
      ∃ rest, news = rest ++ [activity] := by
    intro news hlt hnews
    have hlength : (activity :: moment).length ≤ (news ++ moment).length := hlt
    rcases List.suffix_of_suffix_length_le hentry hnews hlength with ⟨rest, hrest⟩
    refine ⟨rest, List.append_cancel_right (?_ : _ ++ moment = _ ++ moment)⟩
    rw [← hrest, List.append_assoc, List.singleton_append]
  refine fun news hspares => ⟨fun hlog => ?_, fun hrequest => ?_⟩
  · have hlength := hentry.length_le
    rw [hlog, List.length_cons] at hlength
    rcases hbehind news hlength (hlog ▸ List.suffix_rfl) with ⟨rest, rfl⟩
    rw [List.append_assoc] at hlog
    exact (h rest fun a ha => hspares a (List.mem_append_left _ ha)).1 hlog
  · have hnews := (List.suffix_cons _ _).trans hrequest
    rcases Nat.lt_or_ge moment.length (news ++ moment).length with hlt | hge
    · rcases hbehind news hlt hnews with ⟨rest, rfl⟩
      rw [List.append_assoc] at hrequest ⊢
      exact (h rest fun a ha => hspares a (List.mem_append_left _ ha)).2 hrequest
    · -- The request and the entry would be in the same place.
      have hnil : news = [] := by
        rw [List.length_append] at hge
        exact List.eq_nil_of_length_eq_zero (by omega)
      subst hnil
      have heq := (List.suffix_of_suffix_length_le hentry hrequest (Nat.le_refl _)).eq_of_length rfl
      injection heq with hhead
      exact absurd hhead hother

-- What stands still stands when an entry is written down that is no request for the name.
theorem note {activity : Activity H} (h : Stands name object moment t)
    (hlog : u.log = activity :: t.log) (hother : activity ≠ .requested name)
    (hkept : activity.Spares name → t.container.singletons.get? name = some object →
      u.container.singletons.get? name = some object)
    (hmoment : moment <:+ t.log) : Stands name object moment u := by
  refine fun news hspares => ⟨fun hnews => ?_, fun hrequest => ?_⟩
  · rw [hlog] at hnews
    rcases hmoment with ⟨early, hearly⟩
    obtain rfl : news = activity :: early := by
      refine List.append_cancel_right (?_ : _ ++ moment = _ ++ moment)
      rw [← hnews, List.cons_append, hearly]
    refine hkept (hspares _ List.mem_cons_self) ?_
    exact (h early fun a ha => hspares a (List.mem_cons_of_mem _ ha)).1 hearly.symm
  · rw [hlog] at hrequest ⊢
    rcases List.suffix_cons_iff.1 hrequest with heq | hwithin
    · injection heq with hhead
      exact absurd hhead.symm hother
    · exact ((h news hspares).2 hwithin).trans (List.suffix_cons _ _)

end Stands

namespace Faithful

/-- What stands at some moment stands later. -/
theorem stands (htu : Faithful t u) (ht : t.container.Coherent) (hmoment : moment <:+ t.log)
    (h : Stands name object moment t) : Stands name object moment u := by
  rcases hmoment with ⟨early, hearly⟩
  -- What is written down after the moment, in front of what is there at the later one.
  have hsplit : ∀ news, t.log <:+ news ++ moment → ∃ rest, news = rest ++ early := by
    rintro news ⟨rest, hrest⟩
    refine ⟨rest, List.append_cancel_right (?_ : _ ++ moment = _ ++ moment)⟩
    rw [← hrest, ← hearly, List.append_assoc]
  have hlast : ∀ rest, (∀ activity ∈ rest ++ early, activity.Spares name) →
      Stands name object t.log u := fun rest hspares =>
    htu.kept ht name object ((h early fun a ha => hspares a (List.mem_append_right _ ha)).1
      hearly.symm)
  refine fun news hspares => ⟨fun hlog => ?_, fun hrequest => ?_⟩
  · rcases hsplit news (hlog ▸ htu.suffix) with ⟨rest, rfl⟩
    rw [List.append_assoc, hearly] at hlog
    exact (hlast rest hspares rest fun a ha => hspares a (List.mem_append_left _ ha)).1 hlog
  · rcases entry_or_later htu.suffix hrequest with hfirst | hlater
    · exact ((h news hspares).2 hfirst).trans htu.suffix
    · rcases hsplit news hlater with ⟨rest, rfl⟩
      rw [List.append_assoc, hearly] at hrequest ⊢
      exact (hlast rest hspares rest fun a ha => hspares a (List.mem_append_left _ ha)).2 hrequest

theorem followedBy (hst : Onward s t) (h1 : Faithful s t) (h2 : Faithful t u) : Faithful s u := by
  rcases h1.suffix with ⟨first, hfirst⟩
  refine ⟨h1.suffix.trans h2.suffix, h1.opens.trans h1.suffix h2.suffix h2.opens, fun name => ?_,
    fun hs name hunder object earlier hentry hearlier => ?_, fun hs name object hkept => ?_,
    fun hs name object before between behind hexchange hbehind hsingular => ?_⟩
  · rw [h2.closes, h1.closes]
  · rcases entry_or_later h2.suffix hentry with hearly | hlate
    · exact h1.refuses hs name hunder object earlier hearly hearlier
    · exact h2.refuses (hst.coherent hs) name (hst.underway ▸ hunder) object earlier hentry hlate
  · exact h2.stands (hst.coherent hs) h1.suffix (h1.kept hs name object hkept)
  · rcases hexchange with ⟨hbalanced, rfl⟩
    rcases entry_or_later h2.suffix hbehind with hearly | hlate
    · exact h2.stands (hst.coherent hs) hearly
        (h1.exchanged hs name object before between _ ⟨hbalanced, rfl⟩ hearly hsingular)
    · -- The middle is in front of the request, because no request is open there.
      have hrequest : .requested name :: (before ++ s.log) <:+ u.log :=
        (List.suffix_append _ _).trans ((List.suffix_cons _ _).trans hbehind)
      rcases entry_or_later h2.suffix hrequest with hopen | hclosed
      · have hless := hbalanced.opened hlate hopen
        have hpast := h1.opens name _ (List.suffix_append before s.log)
          ((List.suffix_cons _ _).trans hopen)
        have hclosed := h1.closes name
        omega
      · rcases hclosed with ⟨rest, hrest⟩
        obtain rfl : before = rest ++ first := by
          refine List.append_cancel_right (?_ : _ ++ s.log = _ ++ s.log)
          rw [← hrest, ← hfirst, List.append_assoc]
        refine h2.exchanged (hst.coherent hs) name object rest between _ ⟨hbalanced, ?_⟩ hbehind
          hsingular
        rw [hrest]

-- What happens is neither a request nor an answer.
theorem of_silent (news : List (Activity H)) (hlog : t.log = news ++ s.log)
    (hsilent : ∀ activity ∈ news, ¬ activity.IsExchange)
    (hkept : s.container.Coherent → ∀ name object, (∀ activity ∈ news, activity.Spares name) →
      s.container.singletons.get? name = some object →
        t.container.singletons.get? name = some object) : Faithful s t := by
  have hzero : ∀ activity ∈ news, ∀ name, activity.opens name = 0 := fun activity hmem =>
    Activity.opens_eq_zero (hsilent activity hmem)
  have hopens : StaysOpen s.log t.log := by
    rw [hlog]
    exact .of_news hzero
  refine ⟨⟨news, hlog.symm⟩, hopens, fun name => ?_,
    fun _ name _ object earlier hentry hearlier => ?_, fun hs name object hobject => ?_,
    fun _ name object before between behind hexchange hbehind _ => ?_⟩
  · rw [hlog, openRequests_append, openRequests_eq_zero fun a ha => hzero a ha name, Int.zero_add]
  · rw [hlog] at hentry
    exact hsilent _ (mem_news hentry hearlier) trivial
  · refine fun all hspares => ⟨fun hall => ?_, fun hrequest => ?_⟩
    · obtain rfl : all = news := List.append_cancel_right (hall.symm.trans hlog)
      exact hkept hs name object hspares hobject
    · rw [hlog] at hrequest
      exact absurd trivial (hsilent _ (mem_news hrequest (List.suffix_append _ _)))
  · rcases hexchange with ⟨_, rfl⟩
    rw [hlog] at hbehind
    refine absurd trivial (hsilent _ (mem_news hbehind ?_))
    exact (List.suffix_append before _).trans
      ((List.suffix_cons _ _).trans (List.suffix_append between _))

theorem gradual : Gradual (Faithful (H := H)) where
  rest s := of_silent [] rfl (fun _ hmem => absurd hmem List.not_mem_nil) fun _ _ _ _ => id
  followedBy hst _ h1 h2 := followedBy hst h1 h2
  quiet {s t} h _ :=
    of_silent [] h.log_eq (fun _ hmem => absurd hmem List.not_mem_nil)
      fun _ name object _ hkept => (Container.SameFor.of_quiet h name).singleton.trans hkept
  note {activity} s haside := by
    refine of_silent [activity] rfl (fun a ha hexchange => ?_) fun _ _ _ _ => id
    rw [List.mem_singleton.1 ha] at hexchange
    cases activity with
    | requested name => exact haside
    | answered name object => exact haside
    | _ => exact hexchange
  register {s d k} hk := by
    refine of_silent [.registered d] rfl (fun a ha => ?_) fun _ name object hspares hkept => ?_
    · rw [List.mem_singleton.1 ha]
      exact id
    · exact (Container.SameFor.of_register hk
        (hspares _ (List.mem_singleton_self _))).singleton.trans hkept
  update s name d := of_silent [.updated name d] rfl
    (fun a ha => by rw [List.mem_singleton.1 ha]; exact id) fun _ _ _ _ => id
  install s name hook := of_silent [.installed name] rfl
    (fun a ha => by rw [List.mem_singleton.1 ha]; exact id) fun _ _ _ _ => id
  unsubscribe s name := of_silent [.unsubscribed name] rfl
    (fun a ha => by rw [List.mem_singleton.1 ha]; exact id) fun _ _ _ _ => id

theorem of_bear (s : State H) (name : String) (object : Object H.Content) :
    Faithful s (s.bear name object) :=
  of_silent [.made name object] rfl (fun a ha => by rw [List.mem_singleton.1 ha]; exact id)
    fun _ _ _ _ => id

-- A request is answered without a build.
theorem of_answer (s : State H) (name : String) (result : Except Error (Object H.Content))
    (hkept : ∀ object, result = .ok object ↔ s.container.singletons.get? name = some object) :
    Faithful s ((s.note (.requested name)).note (.answered name result.toOption)) := by
  -- The only new entries are the request and the answer.
  have hentries : ∀ {activity : Activity H} {earlier : List (Activity H)},
      activity :: earlier <:+ .answered name result.toOption :: .requested name :: s.log →
      s.log <:+ earlier →
      activity = .answered name result.toOption ∧ earlier = .requested name :: s.log ∨
        activity = .requested name ∧ earlier = s.log := by
    intro activity earlier hentry hearlier
    rcases List.suffix_cons_iff.1 hentry with heq | hwithin
    · injection heq with hactivity hlog
      exact Or.inl ⟨hactivity, hlog⟩
    · exact Or.inr (eq_of_entry hwithin hearlier)
  have hanswer : ∀ {n : String} {object : Object H.Content} {earlier : List (Activity H)},
      .answered n (some object) :: earlier
        <:+ .answered name result.toOption :: .requested name :: s.log →
      s.log <:+ earlier → n = name ∧ s.container.singletons.get? name = some object ∧
        earlier = .requested name :: s.log := by
    intro n object earlier hentry hearlier
    rcases hentries hentry hearlier with ⟨heq, rfl⟩ | ⟨heq, _⟩
    · injection heq with hn hobject
      exact ⟨hn, (hkept object).1 (Renewing.eq_ok_of_toOption hobject.symm), rfl⟩
    · cases heq
  refine ⟨(List.suffix_cons _ _).trans (List.suffix_cons _ _),
    .answered List.suffix_rfl (.refl _) _, fun n => ?_,
    fun hs n hunder object earlier hentry hearlier => ?_,
    fun _ n object hobject news _ => ⟨fun _ => hobject, fun hrequest => ?_⟩,
    fun _ n object before between behind hexchange hbehind _ => ?_⟩
  · rw [State.note_log, State.note_log, openRequests, openRequests, Activity.opens_answered]
    omega
  · rcases hanswer hentry hearlier with ⟨rfl, hobject, _⟩
    cases (hs.underway_unkept n hunder).symm.trans hobject
  · rcases hentries hrequest (List.suffix_append _ _) with ⟨heq, _⟩ | ⟨heq, hnews⟩
    · cases heq
    · cases heq
      obtain rfl := (hkept object).2 hobject
      rw [hnews]
      exact List.suffix_rfl
  · rcases hexchange with ⟨_, rfl⟩
    have hearlier : s.log <:+ between ++ .requested n :: (before ++ s.log) :=
      (List.suffix_append before _).trans
        ((List.suffix_cons _ _).trans (List.suffix_append between _))
    rcases hanswer hbehind hearlier with ⟨rfl, hobject, hlog⟩
    obtain rfl := (hkept object).2 hobject
    rw [hlog]
    exact .of_kept hobject

section Builds

variable {behaviour : Behaviour H} {facade : Facade} {depth : Nat} {e : Definition H.Factory}
  {k : Container H} {result : Except Error (Built H)}

-- What stands when the steps of a build are over stands when its end is written down.
theorem stands_conclude {n : String} (h : Stands n object moment t) (hmoment : moment <:+ t.log)
    (hother : n ≠ name) : Stands n object moment (t.conclude name result) := by
  refine h.note rfl (fun heq => by cases heq) (fun _ hkept => ?_) hmoment
  exact (Container.SameFor.of_finishBuild hother _ _).singleton.trans hkept

-- The steps of a build keep to the relation too.
theorem of_steps (h : (Engine.ofDepth behaviour facade depth).Steps (AlongCourses Faithful)
      name e (s.begin name) result t) : Onward (s.begin name) t ∧ Faithful (s.begin name) t :=
  h.through (List.mem_append_right _ (List.mem_singleton_self name))
    (fun hst _ h1 h2 => followedBy hst h1 h2) id (fun u object _ => of_bear u name object)

section Conclude

variable (honward : Onward (s.begin name) t) (hinside : Faithful (s.begin name) t)
include honward hinside

omit honward in
-- The answer closes the request that the build is for.
theorem closes_conclude (n : String) :
    openRequests n (t.conclude name result).log = openRequests n s.log := by
  have hclosed : openRequests n t.log
      = (Activity.requested name).opens n + openRequests n s.log := hinside.closes n
  have hend : openRequests n (t.conclude name result).log
      = (Activity.answered name (result.map Built.object).toOption).opens n
        + openRequests n t.log := rfl
  rw [Activity.opens_answered] at hend
  omega

omit hinside in
-- An answer with an object that is given on the way is one to the request that the build is for, or
-- it is given in the middle of the build.
theorem answer_cases {n : String} {object : Object H.Content} {answer : Option (Object H.Content)}
    {earlier : List (Activity H)}
    (hentry : .answered n (some object) :: earlier <:+ .answered name answer :: t.log)
    (hearlier : s.log <:+ earlier) :
    (n = name ∧ answer = some object ∧ earlier = t.log) ∨
      (.answered n (some object) :: earlier <:+ t.log ∧ (s.begin name).log <:+ earlier) := by
  rcases List.suffix_cons_iff.1 hentry with heq | hwithin
  · injection heq with hanswer hlog
    injection hanswer with hn hobject
    exact Or.inl ⟨hn, hobject.symm, hlog⟩
  · rcases entry_or_later honward.suffix hwithin with hfirst | hlate
    · cases (eq_of_entry hfirst hearlier).1
    · exact Or.inr ⟨hwithin, hlate⟩

theorem kept_conclude (hbegun : (s.begin name).container.Coherent) {n : String}
    {object : Object H.Content} (hother : n ≠ name)
    (hobject : s.container.singletons.get? n = some object) :
    Stands n object s.log (t.conclude name result) := by
  have hstands : Stands n object (.requested name :: s.log) t :=
    hinside.kept hbegun n object hobject
  refine stands_conclude (hstands.of_cons honward.suffix fun heq => ?_)
    ((List.suffix_cons _ _).trans honward.suffix) hother
  injection heq with hcontra
  exact hother hcontra.symm

-- The answer at the end of a build is one to the request that the build is for, because that is
-- open all the time.
theorem own_request {between before : List (Activity H)} (hbalanced : Balanced name between)
    (hlog : t.log = between ++ .requested name :: (before ++ s.log)) : before = [] := by
  have hrequest : .requested name :: (before ++ s.log) <:+ t.log := hlog ▸ List.suffix_append _ _
  rcases entry_or_later honward.suffix hrequest with hfirst | hlater
  · exact List.self_eq_append_left.1 (eq_of_entry hfirst (List.suffix_append before _)).2.symm
  · have hless : openRequests name (before ++ s.log) < openRequests name t.log :=
      hbalanced.opened (hlog ▸ List.suffix_rfl) hrequest
    have hpast := hinside.opens name _ hlater ((List.suffix_cons _ _).trans hrequest)
    have hclosed := hinside.closes name
    omega

-- What was answered in the middle of a build stands when the build is over.
theorem exchanged_inside (hbegun : (s.begin name).container.Coherent)
    {n : String} {object : Object H.Content} {between before : List (Activity H)}
    (hother : n ≠ name) (hbalanced : Balanced n between)
    (hwithin :
      .answered n (some object) :: (between ++ .requested n :: (before ++ s.log)) <:+ t.log)
    (hsingular : Singular n between) :
    Stands n object (.answered n (some object) :: (between ++ .requested n :: (before ++ s.log)))
      (t.conclude name result) := by
  have hasked : .requested n :: (before ++ s.log) <:+ t.log :=
    (List.suffix_append _ _).trans ((List.suffix_cons _ _).trans hwithin)
  rcases entry_or_later honward.suffix hasked with hfirst | hlater
  · injection (eq_of_entry hfirst (List.suffix_append before _)).1 with hcontra
    exact absurd hcontra hother
  · rcases hlater with ⟨rest, hrest⟩
    obtain rfl : before = rest ++ [.requested name] := by
      refine List.append_cancel_right (?_ : _ ++ s.log = _ ++ s.log)
      rw [← hrest, List.append_assoc]
      rfl
    have hlog : rest ++ [.requested name] ++ s.log = rest ++ (s.begin name).log :=
      List.append_assoc _ _ _
    rw [hlog] at hwithin ⊢
    exact stands_conclude (hinside.exchanged hbegun n object rest between _ ⟨hbalanced, rfl⟩ hwithin
      hsingular) hwithin hother

end Conclude

-- A request is answered by a build.
theorem of_build (hkept : s.container.singletons.get? name = none)
    (hk : s.container.beginCreation name = .ok k)
    (h : (Engine.ofDepth behaviour facade depth).Steps (AlongCourses Faithful)
      name e ((s.note (.requested name)).withContainer k) result t) :
    Faithful s (t.conclude name result) := by
  have hbegun : s.container.Coherent → (s.begin name).container.Coherent := fun hs => by
    rcases Container.beginCreation_eq_ok hk with ⟨_, rfl⟩
    exact hs.beginCreation hkept hk
  rcases Container.beginCreation_eq_ok hk with ⟨hnew, rfl⟩
  change (Engine.ofDepth behaviour facade depth).Steps _ name e (s.begin name) result t at h
  rcases of_steps h with ⟨honward, hinside⟩
  -- In the middle of the build no request for its name is answered with an object.
  have hrefused : s.container.Coherent → ∀ {object earlier},
      .answered name (some object) :: earlier <:+ t.log → ¬ (s.begin name).log <:+ earlier :=
    fun hs _ _ => hinside.refuses (hbegun hs) name
      (List.mem_append_right _ (List.mem_singleton_self name)) _ _
  refine ⟨((List.suffix_cons _ _).trans honward.suffix).trans (List.suffix_cons _ _),
    .answered honward.suffix hinside.opens _, closes_conclude hinside,
    fun hs n hunder object earlier hentry hearlier => ?_, fun hs n object hobject => ?_,
    fun hs n object before between behind hexchange hbehind hsingular => ?_⟩
  · rcases answer_cases honward hentry hearlier with ⟨rfl, _⟩ | ⟨hwithin, hlate⟩
    · exact hnew hunder
    · exact hinside.refuses (hbegun hs) n (List.mem_append_left _ hunder) object earlier hwithin
        hlate
  · have hother : n ≠ name := by
      rintro rfl
      cases hkept.symm.trans hobject
    exact kept_conclude honward hinside (hbegun hs) hother hobject
  · rcases hexchange with ⟨hbalanced, rfl⟩
    have hearlier : s.log <:+ between ++ .requested n :: (before ++ s.log) :=
      (List.suffix_append before _).trans
        ((List.suffix_cons _ _).trans (List.suffix_append between _))
    rcases answer_cases honward hbehind hearlier with ⟨rfl, hobject, hlog⟩ | ⟨hwithin, hlate⟩
    · rcases Renewing.exists_of_answer hobject with ⟨copy, rfl⟩
      obtain rfl := own_request honward hinside hbalanced hlog.symm
      -- The copy that the build ended with is the one that the factory was called with.
      have hentry := (h.imp fun hst => hst.1).entered (Engine.lawful_ofDepth behaviour facade depth)
      rw [since_of_log hlog.symm, List.mem_reverse] at hentry
      rw [hlog]
      exact .of_kept (Renewing.singleton_of_conclude t n (hsingular _ hentry))
    · have hother : n ≠ name := by
        rintro rfl
        exact hrefused hs hwithin hlate
      exact exchanged_inside honward hinside (hbegun hs) hother hbalanced hwithin hsingular

end Builds

/-- What is written down on the way answers the requests that are made on it, and no others. -/
theorem balanced (h : Faithful s t) {between : List (Activity H)} (hlog : t.log = between ++ s.log)
    (name : String) : Balanced name between := by
  have hclosed := h.closes name
  rw [hlog, openRequests_append] at hclosed
  refine ⟨by omega, ?_⟩
  rintro early ⟨rest, rfl⟩
  have hopen := h.opens name (early ++ s.log) (List.suffix_append _ _)
    ⟨rest, by rw [hlog, List.append_assoc]⟩
  rw [openRequests_append] at hopen
  omega

end Faithful

namespace Engine

theorem builds_faithful {behaviour : Behaviour H} {facade : Facade} {depth : Nat}
    (hE : (ofDepth behaviour facade depth).Keeps (AlongCourses Faithful)) :
    (ofDepth behaviour facade depth).Builds Anything (AlongCourses Faithful) :=
  Faithful.gradual.builds hE Faithful.of_answer fun hkept _ _ hk h =>
    Faithful.of_build hkept hk h

/-- Whatever is run, answers last. -/
theorem keeps_faithful (behaviour : Behaviour H) (facade : Facade) (depth : Nat) :
    (ofDepth behaviour facade depth).Keeps (AlongCourses Faithful) :=
  keeps_ofDepth behaviour facade Faithful.gradual.trail (fun _ hE => builds_faithful hE) depth

/-- A request that succeeds is written down together with its answer. -/
theorem exchange_of_getOrBuild {behaviour : Behaviour H} {facade : Facade} {depth : Nat}
    {s t : State H} {name : String} {object : Object H.Content}
    (h : ((ofDepth behaviour facade depth).getOrBuild name).run s = some (.ok object, t)) :
    ∃ between, Exchange name object s.log between t.log := by
  cases hkept : s.container.singletons.get? name with
  | some kept =>
      cases (run_getOrBuild_kept _ hkept).symm.trans h
      exact ⟨[], ⟨rfl, fun early hearly => List.suffix_nil.1 hearly ▸ Int.le_refl _⟩, rfl⟩
  | none =>
      have hE := keeps_faithful behaviour facade depth
      rcases run_getOrBuild_built hkept h with ⟨d, copy, x, _, hconstruct, rfl⟩
      have hsteps := construct_steps hE Faithful.gradual.trail (fun _ _ => trivial)
        (fun stage object => Faithful.gradual.walk_along hE stage name object)
        (fun _ => trivial) hconstruct
      rcases Faithful.of_steps hsteps with ⟨honward, hinside⟩
      rcases honward.suffix with ⟨between, hbetween⟩
      exact ⟨between, hinside.balanced hbetween.symm name, congrArg _ hbetween.symm⟩

/-- A request that is answered by a build keeps its object exactly if the copy that the factory was
    called with is one of a singleton. -/
theorem kept_as_copied {behaviour : Behaviour H} {facade : Facade} {depth : Nat} {s t : State H}
    {name : String} {object : Object H.Content} (hs : s.container.Coherent)
    (hkept : s.container.singletons.get? name = none)
    (h : ((ofDepth behaviour facade depth).getOrBuild name).run s = some (.ok object, t)) :
    ∃ copy, .entered (.make name copy) ∈ since s t ∧
      t.container.singletons.get? name = if copy.isSingleton then some object else none := by
  have hE : (ofDepth behaviour facade depth).Lawful := lawful_ofDepth behaviour facade depth
  -- The request would not have called the factory while another build was under way.
  have hidle : name ∉ s.container.inCreation := fun hunder => by
    have hzero := (called_of_underway hunder h).count
    rw [(called_of_getOrBuild hkept h).count] at hzero
    cases hzero
  rcases run_getOrBuild_built hkept h with ⟨d, copy, x, _, hconstruct, rfl⟩
  have hname : name ∈ (s.begin name).container.inCreation :=
    List.mem_append_right _ (List.mem_singleton_self name)
  have hcourse : Course Anything (s.begin name) x :=
    construct_follows hE (fun _ _ => trivial) hname hconstruct
  refine ⟨copy, since_subset (List.suffix_cons _ _) hcourse.log_suffix (List.suffix_cons _ _)
    (entered_of_construct hE hconstruct), ?_⟩
  cases hscope : copy.isSingleton with
  | true => exact Renewing.singleton_of_conclude x name hscope
  | false =>
      have hbegun : (s.begin name).container.Coherent :=
        Container.Coherent.beginCreation (k := s.container) hs hkept (if_neg hidle)
      rw [State.conclude, State.note_container, State.withContainer_container, Except.toOption,
        Container.finishBuild_ok_singletons, hscope, if_neg Bool.false_ne_true,
        if_neg Bool.false_ne_true]
      exact (hcourse.coherent hbegun).underway_unkept name (hcourse.inCreation_eq ▸ hname)

end Engine

/-- Wherever in the run of a program a request for a name is answered with an object, also in the
    middle of other builds, and the factory of the name was called on the way for singletons only,
    if at all, all later requests for the name are answered with the same object, and at once, as
    long as the name is not registered anew. So is a request behind the run, whoever asks. And at
    whatever moment of the run a request is made for an object that is not kept, if it succeeds it
    comes with exactly one call of the factory of the name, be it for a singleton or for a
    prototype, and its object is kept exactly if that call was for a singleton. -/
theorem singleton_identity (behaviour : Behaviour H) (facade shown : Facade) (depth : Nat)
    {α : Type} (program : Prog H α) {s t : State H} {a : α} (hs : s.container.Coherent)
    (h : (Engine.ofDepth behaviour facade depth).run shown program s = some (a, t)) :
    (∀ name object before between behind,
      Exchange name object (before ++ s.log) between behind → behind <:+ t.log →
      Singular name between →
      ∀ news, (∀ activity ∈ news, activity.Spares name) →
        (.requested name :: (news ++ behind) <:+ t.log →
          .answered name (some object) :: .requested name :: (news ++ behind) <:+ t.log) ∧
        (t.log = news ++ behind → ∀ E : Engine H, (E.getOrBuild name).run t
          = some (.ok object, (t.note (.requested name)).note (.answered name (some object))))) ∧
    ∀ name object depth' u v, Amid s u → u.container.singletons.get? name = none →
      ((Engine.ofDepth behaviour facade depth').getOrBuild name).run u = some (.ok object, v) →
        (factoryCalls (since u v)).count name = 1 ∧
        ∃ copy, .entered (.make name copy) ∈ since u v ∧
          v.container.singletons.get? name = if copy.isSingleton then some object else none := by
  have hrun := (Engine.keeps_faithful behaviour facade depth).runs shown program s a t h
  refine ⟨fun name object before between behind hexchange hbehind hsingular news hspares => ?_,
    fun name object depth' u v hamid hkept hrequest => ?_⟩
  · have hstands : Stands name object behind t :=
      hrun.2.exchanged hs name object before between behind hexchange hbehind hsingular
    exact ⟨(hstands news hspares).2, fun hlog E =>
      Engine.run_getOrBuild_kept E ((hstands news hspares).1 hlog)⟩
  · exact ⟨(Engine.called_of_getOrBuild hkept hrequest).count,
      Engine.kept_as_copied (hamid.coherent hs) hkept hrequest⟩

namespace Scenarios

/-- A singleton that asks for a prototype while it is built. -/
def kept : Definition Bool where
  name := "kept"
  typeName := "kept"
  maker := .hosted false

def fresh : Definition Bool where
  name := "fresh"
  typeName := "fresh"
  scope := .prototype
  maker := .hosted true

/-- As `behaviour`, except that the factories ask for the singleton, which is refused while it is
    built. -/
def askingEachOther : Behaviour host := { behaviour with
  make := fun isFresh _ => do
    let _ ← Prog.request (.getOrBuild "kept")
    if !isFresh then
      let _ ← Prog.request (.getOrBuild "fresh")
    return .ok isFresh }

abbrev askingEngine : Engine host := Engine.ofDepth askingEachOther .direct 4

/-- A registry with nothing but the two definitions. -/
def keptAndFresh : State host := stateOf [kept, fresh]

def getKept : Prog host (Except Error (Object Bool)) := Prog.request (.getOrBuild "kept")

/-- The definition of the singleton is edited. -/
def editKept : Prog host (Except Error Unit) :=
  .update "kept" (fun d => .done ((), { d with lazyInit := true })) .done

def getFresh : Prog host (Except Error (Object Bool)) := Prog.request (.getOrBuild "fresh")

/-- The singleton is asked for, is edited, and is asked for again behind a prototype. -/
def getEditGet : Prog host (Except Error (Object Bool)) :=
  getKept.bind fun _ => editKept.bind fun _ => getFresh.bind fun _ => getKept

/-- Whether an entry is no call of the factory of the singleton, or one for the copy of a
    singleton. -/
def keptSingular : Activity host → Bool
  | .entered (.make name copy) => name != "kept" || copy.isSingleton
  | _ => true

/-- What the four steps come to. -/
def stepsOfGetEditGet :
    Option ((Except Error (Object Bool) × State host) × (Except Error Unit × State host) ×
      (Except Error (Object Bool) × State host) × (Except Error (Object Bool) × State host)) :=
  (askingEngine.run .direct getKept keptAndFresh).bind fun r =>
    (askingEngine.run .direct editKept r.2).bind fun q =>
      (askingEngine.run .direct getFresh q.2).bind fun p =>
        (askingEngine.run .direct getKept p.2).map fun o => (r, q, p, o)

theorem report_of_getEditGet : stepsOfGetEditGet.map (fun r =>
    (([r.1, r.2.2.1, r.2.2.2].map fun a => (answer? (some a)).isSome),
      (r.2.1.2.container.singletons.get? "fresh").isNone,
      decide (∀ activity ∈ since r.1.2 r.2.2.2.2, activity.Spares "kept"),
      factoryCalls (since keptAndFresh r.1.2), (since keptAndFresh r.1.2).all keptSingular))
      = some ([true, true, true], true, true, ["kept", "fresh"], true) := by
  decide +kernel

-- The steps are those of the whole.
theorem runs_of_getEditGet
    {r : (Except Error (Object Bool) × State host) × (Except Error Unit × State host) ×
      (Except Error (Object Bool) × State host) × (Except Error (Object Bool) × State host)}
    (h : stepsOfGetEditGet = some r) :
    askingEngine.run .direct getKept keptAndFresh = some r.1 ∧
    askingEngine.run .direct editKept r.1.2 = some r.2.1 ∧
    askingEngine.run .direct getFresh r.2.1.2 = some r.2.2.1 ∧
    askingEngine.run .direct getKept r.2.2.1.2 = some r.2.2.2 ∧
    askingEngine.run .direct getEditGet keptAndFresh = some r.2.2.2 := by
  rcases Option.bind_eq_some_iff.1 h with ⟨_, hfirst, h⟩
  rcases Option.bind_eq_some_iff.1 h with ⟨_, hedit, h⟩
  rcases Option.bind_eq_some_iff.1 h with ⟨_, hmiddle, h⟩
  rcases Option.map_eq_some_iff.1 h with ⟨_, hlast, rfl⟩
  refine ⟨hfirst, hedit, hmiddle, hlast, ?_⟩
  change (Prog.bind _ _).interpret _ keptAndFresh = _
  rw [Prog.interpret_bind]
  refine Run.bind_eq_some_iff.2 ⟨_, _, hfirst, ?_⟩
  rw [Prog.interpret_bind]
  refine Run.bind_eq_some_iff.2 ⟨_, _, hedit, ?_⟩
  rw [Prog.interpret_bind]
  exact Run.bind_eq_some_iff.2 ⟨_, _, hmiddle, hlast⟩

-- What a program asks for is answered one level less deep.
theorem run_asking (name : String) (s : State host) :
    askingEngine.run .direct (Prog.request (.getOrBuild name)) s
      = ((Engine.ofDepth askingEachOther .direct 3).getOrBuild name).run s :=
  congrFun (Prog.interpret_request _ _) s

/-- The singleton that was built first answers the last request too and any request behind that, and
    one factory is called for the prototype in between. -/
theorem kept_singleton_stands : ∃ (u v w t : State host) (old object : Object Bool),
    askingEngine.run .direct getKept keptAndFresh = some (.ok old, u) ∧
    factoryCalls (since keptAndFresh u) = ["kept", "fresh"] ∧
    askingEngine.run .direct getFresh v = some (.ok object, w) ∧
    (factoryCalls (since v w)).count "fresh" = 1 ∧
    askingEngine.run .direct getKept w = some (.ok old, t) ∧
    ∀ E : Engine host, ((E.getOrBuild "kept").run t).map Prod.fst = some (.ok old) := by
  rcases Option.map_eq_some_iff.1 report_of_getEditGet with
    ⟨⟨⟨a, u⟩, ⟨c, v⟩, ⟨b, w⟩, ⟨e, t⟩⟩, hruns, hreport⟩
  simp only [Prod.mk.injEq, decide_eq_true_eq, List.map_cons, List.map_nil, List.cons.injEq,
    and_true] at hreport
  rcases hreport with ⟨⟨hfirst, hbetween, hagain⟩, hunkept, hspares, hcalls, hall⟩
  rcases runs_of_getEditGet hruns with ⟨hkept, hedit, hmiddle, hlast, hwhole⟩
  rcases exists_ok_of_answer? hfirst with ⟨old, rfl⟩
  rcases exists_ok_of_answer? hbetween with ⟨object, rfl⟩
  rcases exists_ok_of_answer? hagain with ⟨new, rfl⟩
  have hlawful : askingEngine.Lawful := Engine.lawful_ofDepth askingEachOther .direct 4
  have hbegin : Course Anything keptAndFresh u := hlawful .direct getKept _ _ _ hkept
  have huv : Course Anything u v := hlawful .direct editKept _ _ _ hedit
  have hvw : Course Anything v w := hlawful .direct getFresh _ _ _ hmiddle
  have hwt : Course Anything w t := hlawful .direct getKept _ _ _ hlast
  have huw := huv.followedBy hvw
  have hcoherent : keptAndFresh.container.Coherent := stateOf_coherent (by decide)
  rcases singleton_identity askingEachOther .direct .direct 4 getEditGet hcoherent hwhole with
    ⟨hstands, honce⟩
  rcases Engine.exchange_of_getOrBuild ((run_asking "kept" keptAndFresh).symm.trans hkept) with
    ⟨between, hexchange⟩
  rcases Engine.exchange_of_getOrBuild ((run_asking "kept" w).symm.trans hlast) with
    ⟨meanwhile, hlater⟩
  have hsingular : Singular "kept" between := by
    intro copy hcopy
    have hentry : .entered (.make "kept" copy) ∈ since keptAndFresh u :=
      hexchange.since_subset hcopy
    simpa [keptSingular] using List.all_eq_true.1 hall _ hentry
  have hut := huw.followedBy hwt
  -- Neither up to the last request nor behind it is the singleton registered anew.
  have hfrom : ∀ {x : State host}, Course Anything u x → Course Anything x t → ∃ news,
      x.log = news ++ u.log ∧ ∀ activity ∈ news, activity.Spares "kept" := by
    intro x hux hxt
    rcases hux.log_suffix with ⟨news, hnews⟩
    refine ⟨news, hnews.symm, fun activity hmem => hspares activity ?_⟩
    refine since_subset List.suffix_rfl hux.log_suffix hxt.log_suffix ?_
    exact since_of_log hnews.symm ▸ List.mem_reverse.2 hmem
  have hpersists := hstands "kept" old [] between u.log hexchange hut.log_suffix hsingular
  rcases hfrom huw hwt with ⟨news, hnews, hspared⟩
  have hentry : .answered "kept" (some old) :: .requested "kept" :: w.log <:+ t.log := by
    have hnext := (hpersists news hspared).1
    rw [← hnews] at hnext
    exact hnext (hlater.2 ▸ (List.suffix_append _ _).trans (List.suffix_cons _ _))
  obtain rfl := hlater.eq_of_answered List.suffix_rfl hentry
  refine ⟨u, v, w, t, _, object, hkept, hcalls, hmiddle,
    (honce "fresh" object 3 v w (.goesOn .rest (hbegin.followedBy huv))
      (Option.isNone_iff_eq_none.1 hunkept) ((run_asking "fresh" v).symm.trans hmiddle)).1, hlast,
    fun E => ?_⟩
  rcases hfrom hut (.rest t) with ⟨later, hlog, hnever⟩
  rw [(hpersists later hnever).2 hlog E]
  rfl

/-- As `behaviour`, except that a hook puts a prototype in the place of the copy that a build
    uses. -/
def copySwapping : Behaviour host := { behaviour with
  merge := fun _ _ d => .done (.ok { d with scope := .prototype }) }

def copySwappers : Engine host := Engine.ofDepth copySwapping .direct 3

/-- The same registry with one hook. -/
def keptWithHook : State host :=
  keptAndFresh.withContainer { keptAndFresh.container with
    chain := ⟨[⟨"swap", .object ⟨"swap", 100, .hosted false⟩⟩]⟩ }

/-- The answers to two requests for the singleton, one right behind the other. -/
def askedTwice : Option (Object Bool × State host × Object Bool × State host) :=
  match (copySwappers.getOrBuild "kept").run keptWithHook with
  | some (.ok first, t) =>
    match (copySwappers.getOrBuild "kept").run t with
    | some (.ok second, u) => some (first, t, second, u)
    | _ => none
  | _ => none

theorem report_of_askedTwice : askedTwice.map (fun r =>
    (r.1.same r.2.2.1, (stores (since keptWithHook r.2.2.2)).map Prod.fst)) = some (false, []) := by
  decide +kernel

-- The two requests.
theorem runs_of_askedTwice {first second : Object Bool} {t u : State host}
    (h : askedTwice = some (first, t, second, u)) :
    (copySwappers.getOrBuild "kept").run keptWithHook = some (.ok first, t) ∧
      (copySwappers.getOrBuild "kept").run t = some (.ok second, u) := by
  unfold askedTwice at h
  split at h
  · split at h
    · cases h
      exact ⟨‹_›, ‹_›⟩
    · cases h
  · cases h

/-- The name is registered as a singleton all the time, and all the same the second request for it
    is answered with another object, because a hook put a prototype in the place of the copy. -/
theorem swapped_copy_not_kept : kept.isSingleton = true ∧
    ∃ (first second : Object Bool) (t u : State host),
      keptWithHook.container.definitions.get? "kept" = some kept ∧
      (copySwappers.getOrBuild "kept").run keptWithHook = some (.ok first, t) ∧
      (copySwappers.getOrBuild "kept").run t = some (.ok second, u) ∧
      first.same second = false ∧ stores (since keptWithHook u) = [] := by
  rcases Option.map_eq_some_iff.1 report_of_askedTwice with ⟨⟨first, t, second, u⟩, hruns, hreport⟩
  simp only [Prod.mk.injEq, List.map_eq_nil_iff] at hreport
  rcases runs_of_askedTwice hruns with ⟨hfirst, hsecond⟩
  exact ⟨rfl, first, second, t, u, rfl, hfirst, hsecond, hreport⟩

end Scenarios

end ObjectBootstrap
