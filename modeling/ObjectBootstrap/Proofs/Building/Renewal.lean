import ObjectBootstrap.Proofs.Building.Spared

/-!
# Names that are registered anew

When a name is registered over an older definition, builds of the older one may still be under way,
and edits of it may be. Both store what they have when they end. But if no build of the name is
under way at that moment, then everything that is built under the name from then on stems from the
new definition, at whatever depth of nested builds it is asked for.

What is there right after the registration is known: the definition, and nothing that was built.
`Renewed` says what is known of any later state as long as the definition stays in place, up to
edits of its details, and so do the copies of it that builds use. A singleton that is kept stems
from the definition, its target is what the factory made of it in the same build, and it is what all
requests have answered. That this lasts is a relation between states, `Renewing`, and it is borne by
everything that a run does. Whether a build of a name is under way is read from the log: a request
for it is open.

## Main definitions

* `openRequests`: How many requests for a name are open.
* `StaysOpen`: No request is answered that was open before.
* `Engine.Brings`: An object is made by the factory of a definition and passed through the hooks.
* `Brought`: An object was brought since some moment.
* `Renewed`: What is known of a name since it was registered.
* `Renewing`: The relation that all runs keep to.

## Theorems

* `StaysOpen.answered`: An answer closes the request that it belongs to.
* `Renewed.of_registration`: What is known right after a registration.
* `Engine.keeps_renewing`: Whatever is run, what is known of a name lasts.
-/

namespace ObjectBootstrap

variable {H : Host}

/-- By how much an entry raises the number of open requests for a name. -/
def Activity.opens (name : String) : Activity H → Int
  | .requested n => if n = name then 1 else 0
  | .answered n _ => if n = name then -1 else 0
  | _ => 0

/-- How many requests for a name a log leaves open. -/
def openRequests (name : String) : List (Activity H) → Int
  | [] => 0
  | activity :: rest => activity.opens name + openRequests name rest

theorem openRequests_append (name : String) (late early : List (Activity H)) :
    openRequests name (late ++ early) = openRequests name late + openRequests name early := by
  induction late with
  | nil => exact (Int.zero_add _).symm
  | cons activity rest ih => rw [List.cons_append, openRequests, openRequests, ih, Int.add_assoc]

theorem openRequests_eq_zero {name : String} {part : List (Activity H)}
    (h : ∀ activity ∈ part, activity.opens name = 0) : openRequests name part = 0 := by
  induction part with
  | nil => rfl
  | cons activity rest ih =>
      rw [openRequests, h activity List.mem_cons_self, Int.zero_add]
      exact ih fun a ha => h a (List.mem_cons_of_mem _ ha)

-- A request opens what its answer closes.
theorem Activity.opens_requested (n name : String) :
    0 ≤ (Activity.requested (H := H) name).opens n := by
  dsimp only [Activity.opens]
  split <;> omega

theorem Activity.opens_answered (n name : String) (answer : Option (Object H.Content)) :
    (Activity.answered name answer).opens n = -(Activity.requested (H := H) name).opens n := by
  dsimp only [Activity.opens]
  split <;> rfl

/-- From an earlier log to a later one no request is answered that was open before. -/
def StaysOpen (early late : List (Activity H)) : Prop :=
  ∀ name log, early <:+ log → log <:+ late → openRequests name early ≤ openRequests name log

namespace StaysOpen

variable {early mid late : List (Activity H)}

-- Logs that extend each other are the same.
theorem refl (log : List (Activity H)) : StaysOpen log log := fun name _ h h' =>
  Int.le_of_eq (congrArg (openRequests name) (h.eq_of_length_le h'.length_le))

theorem trans (hearly : early <:+ mid) (hlate : mid <:+ late) (h1 : StaysOpen early mid)
    (h2 : StaysOpen mid late) : StaysOpen early late := by
  intro name log hlog hend
  rcases List.suffix_or_suffix_of_suffix hend hlate with hfirst | hsecond
  · exact h1 name log hlog hfirst
  · exact Int.le_trans (h1 name mid hearly List.suffix_rfl) (h2 name log hsecond hend)

-- Entries that are no answers leave requests open.
theorem of_news {news : List (Activity H)}
    (h : ∀ activity ∈ news, ∀ name, activity.opens name = 0) :
    StaysOpen early (news ++ early) := by
  rintro name log ⟨part, rfl⟩ ⟨rest, hrest⟩
  have hpart : rest ++ part = news := by
    refine List.append_cancel_right (?_ : _ ++ early = _ ++ early)
    rw [List.append_assoc, hrest]
  have hsame : openRequests name (part ++ early) = openRequests name early := by
    rw [openRequests_append, openRequests_eq_zero fun a ha =>
      h a (hpart ▸ List.mem_append_right _ ha) name, Int.zero_add]
  exact Int.le_of_eq hsame.symm

/-- An answer closes the request that it belongs to. -/
theorem answered {name : String} (hsuffix : .requested name :: early <:+ late)
    (h : StaysOpen (.requested name :: early) late) (object : Option (Object H.Content)) :
    StaysOpen early (.answered name object :: late) := by
  intro n log hlog hend
  have hopens := Activity.opens_requested (H := H) n name
  have hasked : openRequests n (.requested name :: early)
      = (Activity.requested name).opens n + openRequests n early := rfl
  rcases List.suffix_cons_iff.1 hend with rfl | hend
  · have hlate := h n late hsuffix List.suffix_rfl
    rw [openRequests, Activity.opens_answered]
    omega
  · rcases List.suffix_or_suffix_of_suffix hend hsuffix with hfirst | hlater
    · rcases List.suffix_cons_iff.1 hfirst with rfl | hfirst
      · omega
      · exact refl early n log hlog hfirst
    · have hopen := h n log hlater hend
      omega

end StaysOpen

/-- The same singleton is kept under a name, if any, and the same target beside it. -/
structure Container.SameKept (name : String) (k k' : Container H) : Prop where
  singleton : k'.singletons.get? name = k.singletons.get? name
  target : ∀ object, k.singletons.get? name = some object →
    k'.targets.get? name = k.targets.get? name

-- At the end of a build a singleton keeps its target if the hooks replaced it.
theorem Container.finishBuild_target {k : Container H} {name : String} {made : Object H.Content}
    (h : k.targets.get? name = some made) {built : Built H}
    (hsingleton : built.copy.isSingleton = true) :
    (k.finishBuild name (some built)).targets.get? name
      = if made.same built.object then none else some made := by
  have herased : (k.targets.erase name).get? name = none :=
    (NameTable.get?_erase _ _ _).trans (if_pos rfl)
  cases hsame : made.same built.object with
  | true =>
      simpa [finishBuild, settleTarget, endCreation, keepSingleton, Built.isSingleton, h, hsame,
        hsingleton] using herased
  | false =>
      simp [finishBuild, settleTarget, endCreation, keepSingleton, Built.isSingleton, h, hsame,
        hsingleton]

theorem Container.SameFor.kept {name : String} {k k' : Container H} (h : k.SameFor name k') :
    k.SameKept name k' :=
  ⟨h.singleton, fun _ _ => h.target⟩

/-- Whether an entry leaves a definition in place, up to an edit of its details. A build of its name
    is to leave it in place as well: the factory is called with a copy of it of which only details
    were edited. -/
def Activity.Upholds (d : Definition H.Factory) : Activity H → Prop
  | .registered e => e.name ≠ d.name
  | .updated name e => name = d.name → d.LastsAs e
  | .entered (.make name copy) => name = d.name → d.LastsAs copy
  | _ => True

instance [DecidableEq H.Factory] (d : Definition H.Factory) :
    (activity : Activity H) → Decidable (activity.Upholds d)
  | .registered e => inferInstanceAs (Decidable (e.name ≠ d.name))
  | .updated name e => inferInstanceAs (Decidable (name = d.name → d.LastsAs e))
  | .entered (.make name copy) => inferInstanceAs (Decidable (name = d.name → d.LastsAs copy))
  | .entered (.mutate _ _) => .isTrue trivial
  | .entered (.customize _ _) => .isTrue trivial
  | .entered (.merge _ _ _) => .isTrue trivial
  | .entered (.intercept _ _ _ _) => .isTrue trivial
  | .entered (.notify _ _ _) => .isTrue trivial
  | .left _ _ => .isTrue trivial
  | .installed _ => .isTrue trivial
  | .made _ _ => .isTrue trivial
  | .walked _ _ _ => .isTrue trivial
  | .requested _ => .isTrue trivial
  | .answered _ _ => .isTrue trivial
  | .ended _ _ _ => .isTrue trivial
  | .unsubscribed _ => .isTrue trivial
  | .published _ _ => .isTrue trivial

theorem Activity.Upholds.spares {d : Definition H.Factory} {activity : Activity H}
    (h : activity.Upholds d) : activity.Spares d.name := by
  cases activity with
  | registered e => exact h
  | _ => trivial

namespace Engine

/-- An object is brought by the steps of a build: the hooks edit the details of a copy of the
    definition, the factory makes an object of the copy, and that object is passed through the
    hooks. -/
def Brings (E : Engine H) (name : String) (d : Definition H.Factory)
    (made object : Object H.Content) (s t : State H) : Prop :=
  ∃ copy u v,
    (E.mergeThrough name s.container.chain.entries d).run s = some (.ok copy, u) ∧
    d.LastsAs copy ∧ E.make name copy u = some (.ok made, v) ∧
    (E.finish name made).run v = some (.ok object, t)

end Engine

section Names

variable (behaviour : Behaviour H) (facade : Facade) (d : Definition H.Factory)

/-- An object was brought of a definition, up to its details, for a request that came after a
    moment. The moment and the present are given by their logs. What is not kept was brought just
    now. -/
def Brought (made object : Object H.Content) (past log : List (Activity H)) : Prop :=
  d.isAbstract = false ∧ ∃ depth e s t earlier, d.LastsAs e ∧
    (Engine.ofDepth behaviour facade depth).Brings d.name e made object s t ∧
    s.log = .requested d.name :: earlier ∧ past <:+ earlier ∧ t.log <:+ log ∧
    (d.isSingleton = false → t.log = log)

/-- What is known of a name since a moment in which it was registered and nothing was built of the
    definition. -/
structure Renewed (past : List (Activity H)) (s : State H) : Prop where
  past_suffix : past <:+ s.log
  definition : ∃ e, s.container.definitions.get? d.name = some e ∧ d.LastsAs e
  kept : ∀ object, s.container.singletons.get? d.name = some object → d.isSingleton = true ∧
    ∃ made, Brought behaviour facade d made object past s.log ∧
      s.container.targets.get? d.name = if made.same object then none else some made
  /-- All requests have answered the singleton that is kept. -/
  answered : d.isSingleton = true → ∀ news, s.log = news ++ past →
    ∀ object, .answered d.name (some object) ∈ news →
      s.container.singletons.get? d.name = some object

/-- What is known of an object that answers a request, with the log in front of the answer. -/
structure Answer (object : Object H.Content) (past log : List (Activity H)) : Prop where
  brought : ∃ made, Brought behaviour facade d made object past log
  /-- A singleton is the only one. -/
  same : d.isSingleton = true → ∀ news, log = news ++ past →
    ∀ other, .answered d.name (some other) ∈ news → other = object

/-- What is known of a name lasts from one state to a later one as long as the definition stays in
    place, and the answers that are given in the meantime are as they should be. -/
structure Upheld (past : List (Activity H)) (s t : State H) : Prop where
  renewed : ∀ news, t.log = news ++ s.log → (∀ activity ∈ news, activity.Upholds d) →
    Renewed behaviour facade d past t
  answers : ∀ object news, .answered d.name (some object) :: (news ++ s.log) <:+ t.log →
    (∀ activity ∈ news, activity.Upholds d) → Answer behaviour facade d object past (news ++ s.log)

end Names

/-- What is known of names lasts, also of those that are registered on the way while no build of
    them is under way. -/
structure Renewing (behaviour : Behaviour H) (facade : Facade) (s t : State H) : Prop where
  suffix : s.log <:+ t.log
  /-- No request is answered that was open before. -/
  opens : ∀ name log, s.log <:+ log → log <:+ t.log →
    openRequests name s.log ≤ openRequests name log
  lasts : s.container.Coherent → ∀ d past, Renewed behaviour facade d past s →
    Upheld behaviour facade d past s t
  begins : s.container.Coherent → ∀ d earlier, .registered d :: earlier <:+ t.log →
    s.log <:+ earlier → openRequests d.name earlier = openRequests d.name s.log →
    ∃ u, u.log = .registered d :: earlier ∧ Renewed behaviour facade d u.log u ∧
      Upheld behaviour facade d u.log u t

variable {behaviour : Behaviour H} {facade : Facade} {d : Definition H.Factory}
  {past : List (Activity H)} {s t u : State H}

-- A singleton that was brought stays what it is.
theorem Brought.later {made object : Object H.Content} {log log' : List (Activity H)}
    (h : Brought behaviour facade d made object past log) (hsingleton : d.isSingleton = true)
    (hlog : log <:+ log') : Brought behaviour facade d made object past log' := by
  rcases h with ⟨habs, depth, e, s, t, earlier, hedited, hbrings, hs, hpast, ht, _⟩
  refine ⟨habs, depth, e, s, t, earlier, hedited, hbrings, hs, hpast, ht.trans hlog,
    fun hnot => ?_⟩
  rw [hsingleton] at hnot
  cases hnot

namespace Renewed

/-- What is known when nothing is kept under the name. -/
theorem of_unbuilt
    (hd : ∃ e, s.container.definitions.get? d.name = some e ∧ d.LastsAs e)
    (hunbuilt : s.container.singletons.get? d.name = none) :
    Renewed behaviour facade d s.log s := by
  refine ⟨List.suffix_rfl, hd, fun object hobject => ?_, fun _ news hnews _ hmem => ?_⟩
  · rw [hunbuilt] at hobject
    cases hobject
  · rw [List.self_eq_append_left.1 hnews] at hmem
    exact absurd hmem List.not_mem_nil

/-- What is known right after a registration: nothing is kept under the name. -/
theorem of_registration {k : Container H} (hk : s.container.register d = .ok k)
    (hs : s.container.Coherent) :
    Renewed behaviour facade d ((s.withContainer k).note (.registered d)).log
      ((s.withContainer k).note (.registered d)) := by
  have hnone : k.singletons.get? d.name = none := by
    rcases Container.register_cases hk with ⟨_, rfl⟩ | ⟨hnew, rfl⟩
    · exact (NameTable.get?_erase _ _ _).trans (if_pos rfl)
    · -- What is kept is registered.
      cases hkept : s.container.singletons.get? d.name with
      | none => rfl
      | some object =>
          have hcontains : s.container.contains d.name = true :=
            (hs.mem_names_iff d.name).1 (hs.kept_registered _ _ hkept)
          rw [hcontains] at hnew
          cases hnew
  refine of_unbuilt ⟨d, ?_, .refl d⟩ hnone
  rw [State.note_container, State.withContainer_container, (Container.register_eq_ok hk).1,
    NameTable.get?_insert, if_pos rfl]

-- What is known stays known if nothing happens to the name.
theorem of_same (news : List (Activity H)) (h : Renewed behaviour facade d past s)
    (hlog : t.log = news ++ s.log) (hnews : ∀ object, .answered d.name (some object) ∉ news)
    (hdefinition : ∃ e, t.container.definitions.get? d.name = some e ∧ d.LastsAs e)
    (hsame : s.container.SameKept d.name t.container) : Renewed behaviour facade d past t := by
  have hsuffix : s.log <:+ t.log := ⟨news, hlog.symm⟩
  refine ⟨h.past_suffix.trans hsuffix, hdefinition, fun object hobject => ?_, ?_⟩
  · rw [hsame.singleton] at hobject
    rcases h.kept object hobject with ⟨hsingleton, made, hbrought, htarget⟩
    exact ⟨hsingleton, made, hbrought.later hsingleton hsuffix,
      (hsame.target object hobject).trans htarget⟩
  · intro hsingleton all hall object hmem
    rcases h.past_suffix with ⟨old, hold⟩
    have heq : all = news ++ old := by
      refine List.append_cancel_right (?_ : _ ++ past = _ ++ past)
      rw [← hall, hlog, ← hold, List.append_assoc]
    rw [heq, List.mem_append] at hmem
    rw [hsame.singleton]
    exact h.answered hsingleton old hold.symm object (hmem.resolve_left (hnews object))

end Renewed

namespace Upheld

theorem followedBy (hst : s.log <:+ t.log) (h1 : Upheld behaviour facade d past s t)
    (h2 : Renewed behaviour facade d past t → Upheld behaviour facade d past t u)
    (htu : t.log <:+ u.log) :
    Upheld behaviour facade d past s u := by
  rcases hst with ⟨early, hearly⟩
  rcases htu with ⟨late, hlate⟩
  -- What happened since the first state happened early or late.
  have hparts : ∀ news rest, news ++ s.log = rest ++ t.log → news = rest ++ early := by
    intro news rest heq
    refine List.append_cancel_right (?_ : _ ++ s.log = _ ++ s.log)
    rw [heq, ← hearly, List.append_assoc]
  have hmid : ∀ rest, (∀ activity ∈ rest ++ early, activity.Upholds d) →
      Renewed behaviour facade d past t := fun rest hall =>
    h1.renewed early hearly.symm fun activity hmem => hall activity (List.mem_append_right _ hmem)
  refine ⟨fun news hnews hall => ?_, fun object news hentry hall => ?_⟩
  · obtain rfl : news = late ++ early := hparts news late (by rw [← hnews, hlate])
    exact (h2 (hmid late hall)).renewed late hlate.symm fun activity hmem =>
      hall activity (List.mem_append_left _ hmem)
  · rcases entry_or_later ⟨late, hlate⟩ hentry with hfirst | ⟨rest, hrest⟩
    · exact h1.answers object news hfirst hall
    · obtain rfl := hparts news rest hrest.symm
      rw [List.append_assoc, hearly] at hentry ⊢
      exact (h2 (hmid rest hall)).answers object rest hentry fun activity hmem =>
        hall activity (List.mem_append_left _ hmem)

-- No request for the name is answered.
theorem of_silent (news : List (Activity H)) (hlog : t.log = news ++ s.log)
    (hnews : ∀ object, .answered d.name (some object) ∉ news)
    (hrenewed : (∀ activity ∈ news, activity.Upholds d) → Renewed behaviour facade d past t) :
    Upheld behaviour facade d past s t := by
  refine ⟨fun all hall hupholds => ?_, fun object all hentry _ => ?_⟩
  · obtain rfl : all = news := List.append_cancel_right (hall.symm.trans hlog)
    exact hrenewed hupholds
  · rw [hlog] at hentry
    exact absurd (mem_news hentry (List.suffix_append _ _)) (hnews object)

end Upheld

/-- Whether an entry is about no name of a definition. -/
def Activity.IsNameless : Activity H → Prop
  | .registered _ => False
  | .updated _ _ => False
  | .requested _ => False
  | .answered _ _ => False
  | _ => True

theorem Activity.IsNameless.opens {activity : Activity H} (h : activity.IsNameless)
    (name : String) : activity.opens name = 0 := by
  cases activity with
  | requested n => exact absurd h id
  | answered n object => exact absurd h id
  | _ => rfl

namespace Renewing

theorem followedBy (hst : Onward s t) (h1 : Renewing behaviour facade s t)
    (h2 : Renewing behaviour facade t u) : Renewing behaviour facade s u := by
  refine ⟨h1.suffix.trans h2.suffix, StaysOpen.trans h1.suffix h2.suffix h1.opens h2.opens,
    fun hs d past hknown => ?_, fun hs d earlier hentry hearlier hopen => ?_⟩
  · exact (h1.lasts hs d past hknown).followedBy h1.suffix (h2.lasts (hst.coherent hs) d past)
      h2.suffix
  · rcases entry_or_later h2.suffix hentry with hearly | hlate
    · rcases h1.begins hs d earlier hearly hearlier hopen with ⟨w, hw, hknown, hupheld⟩
      exact ⟨w, hw, hknown, hupheld.followedBy (hw ▸ hearly) (h2.lasts (hst.coherent hs) d w.log)
        h2.suffix⟩
    · -- A request that is open in the middle is open at the registration.
      have hmid := h1.opens d.name t.log h1.suffix List.suffix_rfl
      have hlast := h2.opens d.name earlier hlate ((List.suffix_cons _ _).trans hentry)
      exact h2.begins (hst.coherent hs) d earlier hentry hlate (by omega)

-- Nothing happens to any name.
theorem of_nameless (news : List (Activity H)) (hlog : t.log = news ++ s.log)
    (hnews : ∀ activity ∈ news, activity.IsNameless)
    (hdefinitions : t.container.definitions = s.container.definitions)
    (hsame : s.container.Coherent → ∀ name, s.container.SameKept name t.container) :
    Renewing behaviour facade s t := by
  have hnot : ∀ name object, .answered name (some object) ∉ news := fun name object hmem =>
    hnews _ hmem
  have hopens : StaysOpen s.log t.log := by
    rw [hlog]
    exact .of_news fun activity hmem name => (hnews activity hmem).opens name
  refine ⟨⟨news, hlog.symm⟩, hopens, fun hs d past hknown => ?_,
    fun _ d earlier hentry hearlier _ => ?_⟩
  · refine .of_silent news hlog (hnot d.name) fun _ => hknown.of_same news hlog (hnot d.name) ?_
      (hsame hs d.name)
    rw [hdefinitions]
    exact hknown.definition
  · rw [hlog] at hentry
    exact absurd (hnews _ (mem_news hentry hearlier)) id

-- A definition is stored, and that is the last entry.
theorem of_stored {activity : Activity H} (hlog : t.log = activity :: s.log)
    (hopens : ∀ name, activity.opens name = 0)
    (hnot : ∀ name object, activity ≠ .answered name object)
    (hsame : ∀ d : Definition H.Factory, activity.Upholds d →
      s.container.SameKept d.name t.container ∧
        ((∃ e, s.container.definitions.get? d.name = some e ∧ d.LastsAs e) →
          ∃ e, t.container.definitions.get? d.name = some e ∧ d.LastsAs e))
    (hbegins : s.container.Coherent → ∀ d, activity = .registered d →
      Renewed behaviour facade d t.log t) : Renewing behaviour facade s t := by
  have hsilent : ∀ name object, .answered name (some object) ∉ [activity] :=
    fun name object hmem => hnot name (some object) (List.mem_singleton.1 hmem).symm
  have hstays : StaysOpen s.log t.log := by
    have hnews : ∀ a ∈ [activity], ∀ name, a.opens name = 0 := fun a ha name =>
      List.mem_singleton.1 ha ▸ hopens name
    rw [hlog]
    exact .of_news hnews
  refine ⟨hlog ▸ List.suffix_cons _ _, hstays, fun _ d past hknown => ?_,
    fun hs d earlier hentry hearlier _ => ?_⟩
  · refine .of_silent [activity] hlog (hsilent d.name) fun hall => ?_
    rcases hsame d (hall _ (List.mem_singleton_self _)) with ⟨hsame, hdefinition⟩
    exact hknown.of_same [activity] hlog (hsilent d.name) (hdefinition hknown.definition)
      hsame
  · rw [hlog] at hentry
    rcases eq_of_entry hentry hearlier with ⟨rfl, rfl⟩
    exact ⟨t, hlog, hbegins hs d rfl, .of_silent [] rfl (fun _ => List.not_mem_nil)
      fun _ => hbegins hs d rfl⟩

theorem gradual (behaviour : Behaviour H) (facade : Facade) :
    Gradual (Renewing behaviour facade) where
  rest s := of_nameless [] rfl (fun _ hmem => absurd hmem List.not_mem_nil) rfl
    fun _ _ => ⟨rfl, fun _ _ => rfl⟩
  followedBy hst _ h1 h2 := followedBy hst h1 h2
  quiet {s t} h _ := by
    refine of_nameless [] h.log_eq (fun _ hmem => absurd hmem List.not_mem_nil) ?_
      fun _ name => (Container.SameFor.of_quiet h name).kept
    cases h with
    | search query => exact Container.namesFor_definitions _ _
    | _ => rfl
  note {activity} s haside := by
    refine of_nameless [activity] rfl (fun a ha => ?_) rfl
      fun _ _ => ⟨rfl, fun _ _ => rfl⟩
    rw [List.mem_singleton.1 ha]
    cases activity with
    | registered d => exact absurd haside id
    | updated name d => exact absurd haside id
    | requested name => exact absurd haside id
    | answered name object => exact absurd haside id
    | _ => trivial
  register {s d k} hk := by
    refine of_stored rfl (fun _ => rfl) (fun _ _ h => by cases h) (fun e hupholds => ?_) ?_
    · refine ⟨(Container.SameFor.of_register hk hupholds).kept, ?_⟩
      rw [State.note_container, State.withContainer_container, (Container.register_eq_ok hk).1,
        NameTable.get?_insert, if_neg (Ne.symm hupholds)]
      exact id
    · intro hs e heq
      cases heq
      exact .of_registration hk hs
  update s name d := by
    refine of_stored rfl (fun _ => rfl) (fun _ _ h => by cases h) (fun e hupholds => ?_) ?_
    · refine ⟨⟨rfl, fun _ _ => rfl⟩, fun hthere => ?_⟩
      rw [State.note_container, State.withContainer_container, Container.writeBack,
        NameTable.get?_insert]
      split
      · exact ⟨d, rfl, hupholds ‹e.name = name›.symm⟩
      · exact hthere
    · intro _ e heq
      cases heq
  install s name hook := of_nameless [.installed name] rfl
    (fun a ha => by rw [List.mem_singleton.1 ha]; trivial) rfl fun _ _ => ⟨rfl, fun _ _ => rfl⟩
  unsubscribe s name := of_nameless [.unsubscribed name] rfl
    (fun a ha => by rw [List.mem_singleton.1 ha]; trivial) rfl fun _ _ => ⟨rfl, fun _ _ => rfl⟩

-- The object of a factory becomes the target. Nothing is kept under the name then.
theorem of_bear {name : String} (hname : name ∈ s.container.inCreation)
    (object : Object H.Content) :
    Renewing behaviour facade s (s.bear name object) := by
  refine of_nameless [.made name object] rfl
    (fun a ha => by rw [List.mem_singleton.1 ha]; trivial) rfl fun hs n => ⟨rfl, fun o ho => ?_⟩
  have hne : n ≠ name := by
    rintro rfl
    rw [hs.underway_unkept n hname] at ho
    cases ho
  exact (NameTable.get?_insert _ _ _ _).trans (if_neg hne)

-- An answer is about an object that was asked for.
theorem eq_ok_of_toOption {result : Except Error (Object H.Content)} {object : Object H.Content}
    (h : result.toOption = some object) : result = .ok object := by
  cases result with
  | error e => cases h
  | ok o => rw [Option.some.inj h]

-- What is known of a name lasts through a request that is answered without a build.
theorem lasts_answer {name : String} {result : Except Error (Object H.Content)}
    (hkept : ∀ object, result = .ok object → s.container.singletons.get? name = some object)
    (hknown : Renewed behaviour facade d past s) :
    Upheld behaviour facade d past s
      ((s.note (.requested name)).note (.answered name result.toOption)) := by
  by_cases hname : d.name = name
  · subst hname
    rcases hknown.past_suffix with ⟨old, hold⟩
    refine ⟨fun _ _ _ => ?_, fun object news hentry _ => ?_⟩
    · refine ⟨(hknown.past_suffix.trans (List.suffix_cons _ _)).trans (List.suffix_cons _ _),
        hknown.definition, fun object hobject => ?_, fun hsingleton all hall object hmem => ?_⟩
      · rcases hknown.kept object hobject with ⟨hsingleton, made, hbrought, htarget⟩
        exact ⟨hsingleton, made, hbrought.later hsingleton
          ((List.suffix_cons _ _).trans (List.suffix_cons _ _)), htarget⟩
      · have heq : all = .answered d.name result.toOption :: .requested d.name :: old := by
          refine List.append_cancel_right (?_ : _ ++ past = _ ++ past)
          rw [← hall, List.cons_append, List.cons_append, hold]
          rfl
        rw [heq] at hmem
        rcases List.mem_cons.1 hmem with hlast | hmem
        · injection hlast with _ hobject
          exact hkept object (eq_ok_of_toOption hobject.symm)
        · refine hknown.answered hsingleton old hold.symm object ?_
          exact (List.mem_cons.1 hmem).resolve_left fun h => by cases h
    · -- The only answer that is new is the last entry.
      rcases List.suffix_cons_iff.1 hentry with heq | hwithin
      · injection heq with hhead htail
        injection hhead with _ hobject
        rw [show news ++ s.log = .requested d.name :: s.log from htail]
        have hobject := hkept object (eq_ok_of_toOption hobject.symm)
        rcases hknown.kept object hobject with ⟨hsingleton, made, hbrought, _⟩
        refine ⟨⟨made, hbrought.later hsingleton (List.suffix_cons _ _)⟩,
          fun _ all hall other hmem => ?_⟩
        have heq : all = .requested d.name :: old := by
          refine List.append_cancel_right (?_ : _ ++ past = _ ++ past)
          rw [← hall, List.cons_append, hold]
        rw [heq] at hmem
        have hother := hknown.answered hsingleton old hold.symm other
          ((List.mem_cons.1 hmem).resolve_left fun h => by cases h)
        exact Option.some.inj (hother.symm.trans hobject)
      · have hlength := hwithin.length_le
        rcases List.suffix_cons_iff.1 hwithin with heq | hwithin
        · cases heq
        · have hlength := hwithin.length_le
          rw [List.length_cons, List.length_append] at hlength
          omega
  · have hsilent : ∀ object, .answered d.name (some object) ∉
        [Activity.answered name result.toOption, .requested name] := by
      intro object hmem
      rcases List.mem_cons.1 hmem with h | h
      · injection h with hcontra
        exact hname hcontra
      · cases List.mem_singleton.1 h
    exact .of_silent [_, _] rfl hsilent fun _ =>
      hknown.of_same [_, _] rfl hsilent hknown.definition ⟨rfl, fun _ _ => rfl⟩

-- A request is answered without a build.
theorem of_answer (s : State H) (name : String) (result : Except Error (Object H.Content))
    (hkept : ∀ object, result = .ok object → s.container.singletons.get? name = some object) :
    Renewing behaviour facade s
      ((s.note (.requested name)).note (.answered name result.toOption)) := by
  refine ⟨(List.suffix_cons _ _).trans (List.suffix_cons _ _),
    StaysOpen.answered List.suffix_rfl (.refl _) _,
    fun _ d past hknown => lasts_answer hkept hknown, fun _ d earlier hentry hearlier _ => ?_⟩
  · have hmem : Activity.registered d ∈
        [Activity.answered name result.toOption, .requested name] := mem_news hentry hearlier
    rcases List.mem_cons.1 hmem with h | h
    · cases h
    · cases List.mem_singleton.1 h

section Builds

variable {depth : Nat} {name : String} {e : Definition H.Factory} {k : Container H}
  {result : Except Error (Built H)}

-- An object that the steps of a build made was brought, and what the factory made is its target.
theorem brought_of_steps {built : Built H} (habs : d.isAbstract = false)
    (hpast : past <:+ s.log) (hlog : u.log = .requested d.name :: s.log)
    (hname : d.name ∈ u.container.inCreation) (he : d.LastsAs e)
    (h : (Engine.ofDepth behaviour facade depth).Steps (AlongCourses (Renewing behaviour facade))
      d.name e u (.ok built) t)
    (hupholds : ∀ activity ∈ since s t, activity.Upholds d) :
    d.LastsAs built.copy ∧ ∃ made, Brought behaviour facade d made built.object past t.log ∧
      t.container.targets.get? d.name = some made := by
  cases h with
  | @finished copy made object v w _ hmerge huv hmake hvw hrun hwt =>
      have hsu : s.log <:+ u.log := hlog ▸ List.suffix_cons _ _
      have hmade := huv.1.onward.followedBy hvw.1.onward
      have hborne : w.log <:+ (w.bear d.name made).log := List.suffix_cons _ _
      -- The factory is called on the way, so the copy is one of the definition.
      have hcalled : d.LastsAs copy := by
        have hentry := Engine.entered_of_make (Engine.lawful_ofDepth behaviour facade depth) hmake
        exact hupholds _ (since_subset (hsu.trans huv.1.log_suffix) hvw.1.log_suffix
          (hborne.trans hwt.1.log_suffix) hentry) rfl
      refine ⟨hcalled, made, ⟨habs, depth, e, u, t, s.log, he,
        ⟨copy, v, w, hmerge, he.of_lastsAs hcalled, hmake, hrun⟩, hlog, hpast, List.suffix_rfl,
        fun _ => rfl⟩, ?_⟩
      -- Nobody else puts a target there while the build is under way.
      have hspared := Engine.finish_walks_along (Spared.gradual AnyName).trail
        ((Spared.gradual AnyName).walk_along (Engine.keeps_spared behaviour facade depth) · _) hrun
      have hunder : d.name ∈ (w.bear d.name made).container.inCreation := hmade.underway ▸ hname
      have hsame := hspared.2 d.name trivial (Or.inl hunder) fun activity hmem =>
        (hupholds activity (since_subset (hsu.trans (hmade.suffix.trans hborne)) hwt.1.log_suffix
          List.suffix_rfl hmem)).spares
      exact hsame.target.trans ((NameTable.get?_insert _ _ _ _).trans (if_pos rfl))

-- What is kept at the end of a build was built of the copy of a singleton.
theorem kept_of_conclude {object : Object H.Content}
    (hunkept : t.container.singletons.get? name = none)
    (h : (t.conclude name result).container.singletons.get? name = some object) :
    ∃ copy, result = .ok ⟨copy, object⟩ ∧ copy.isSingleton = true := by
  rw [State.conclude, State.note_container, State.withContainer_container] at h
  cases result with
  | error e =>
      rw [Except.toOption, Container.finishBuild_none] at h
      rw [hunkept] at h
      cases h
  | ok built =>
      rw [Except.toOption, Container.finishBuild_ok_singletons] at h
      cases hsingleton : built.copy.isSingleton with
      | false =>
          rw [hsingleton, if_neg Bool.false_ne_true, hunkept] at h
          cases h
      | true =>
          rw [hsingleton, if_pos rfl, NameTable.get?_insert, if_pos rfl] at h
          cases h
          exact ⟨built.copy, rfl, hsingleton⟩

theorem singleton_of_conclude (t : State H) (name : String) {built : Built H}
    (hsingleton : built.copy.isSingleton = true) :
    (t.conclude name (.ok built)).container.singletons.get? name = some built.object := by
  rw [State.conclude, State.note_container, State.withContainer_container, Except.toOption,
    Container.finishBuild_ok_singletons, if_pos hsingleton, NameTable.get?_insert, if_pos rfl]

-- What a build answers is the object that it comes to.
theorem exists_of_answer {object : Object H.Content}
    (h : (result.map Built.object).toOption = some object) :
    ∃ copy, result = .ok ⟨copy, object⟩ := by
  cases result with
  | error e => cases h
  | ok built =>
      cases h
      exact ⟨built.copy, rfl⟩

-- What is known of a name lasts through a request that is answered by a build of it.
theorem lasts_own (hd : s.container.definitions.get? d.name = some e) (habs : e.isAbstract = false)
    (h : (Engine.ofDepth behaviour facade depth).Steps (AlongCourses (Renewing behaviour facade))
      d.name e (s.begin d.name) result t)
    (hbegun : (s.begin d.name).container.Coherent) (honward : Onward (s.begin d.name) t)
    (hst : Upheld behaviour facade d past s t) (hknown : Renewed behaviour facade d past s) :
    Upheld behaviour facade d past s (t.conclude d.name result) := by
  have hedited : d.LastsAs e := by
    rcases hknown.definition with ⟨stored, hstored, hedited⟩
    obtain rfl : stored = e := Option.some.inj (hstored.symm.trans hd)
    exact hedited
  have hname : d.name ∈ (s.begin d.name).container.inCreation :=
    List.mem_append_right _ (List.mem_singleton_self d.name)
  have hunkept : t.container.singletons.get? d.name = none :=
    (honward.coherent hbegun).underway_unkept d.name (honward.underway ▸ hname)
  have hsuffix : s.log <:+ t.log := (List.suffix_cons _ _).trans honward.suffix
  -- As long as the definition stays in place, the object of the build stems from it.
  have hbrought : ∀ built news, result = .ok built → t.log = news ++ s.log →
      (∀ activity ∈ news, activity.Upholds d) → d.LastsAs built.copy ∧
        ∃ made, Brought behaviour facade d made built.object past t.log ∧
          t.container.targets.get? d.name = some made := by
    rintro built news rfl hnews hall
    refine brought_of_steps (hedited.isAbstract_eq ▸ habs) hknown.past_suffix rfl hname hedited h
      fun activity hmem => ?_
    rw [since_of_log hnews, List.mem_reverse] at hmem
    exact hall activity hmem
  -- If a singleton was answered before, it would be kept.
  have hfirst : Renewed behaviour facade d past t → d.isSingleton = true →
      ∀ news, t.log = news ++ past → ∀ object, .answered d.name (some object) ∉ news := by
    intro hthere hsingleton news hnews object hmem
    rw [hthere.answered hsingleton news hnews object hmem] at hunkept
    cases hunkept
  refine ⟨fun news hnews hall => ?_, fun object news hentry hall => ?_⟩
  · rcases hsuffix with ⟨early, hearly⟩
    obtain rfl : news = .answered d.name (result.map Built.object).toOption :: early := by
      refine List.append_cancel_right (?_ : _ ++ s.log = _ ++ s.log)
      rw [← hnews, List.cons_append, hearly]
      rfl
    have hinside : ∀ activity ∈ early, activity.Upholds d :=
      fun activity hmem => hall activity (List.mem_cons_of_mem _ hmem)
    have hthere := hst.renewed early hearly.symm hinside
    refine ⟨hthere.past_suffix.trans (List.suffix_cons _ _), ?_, fun object hobject => ?_, ?_⟩
    · rw [State.conclude, State.note_container, State.withContainer_container,
        Container.finishBuild_definitions]
      exact hthere.definition
    · rcases kept_of_conclude hunkept hobject with ⟨copy, rfl, hcopy⟩
      rcases hbrought _ early rfl hearly.symm hinside with ⟨hsame, made, hmade, htarget⟩
      have hsingleton : d.isSingleton = true := hsame.isSingleton_eq ▸ hcopy
      exact ⟨hsingleton, made, hmade.later hsingleton (List.suffix_cons _ _),
        Container.finishBuild_target htarget hcopy⟩
    · intro hsingleton rest hrest object hmem
      rcases hthere.past_suffix with ⟨mid, hmid⟩
      obtain rfl : rest = .answered d.name (result.map Built.object).toOption :: mid := by
        refine List.append_cancel_right (?_ : _ ++ past = _ ++ past)
        rw [← hrest, List.cons_append, hmid]
        rfl
      rcases List.mem_cons.1 hmem with hlast | hmem
      · injection hlast with _ hobject
        rcases exists_of_answer hobject.symm with ⟨copy, rfl⟩
        have hcopy := (hbrought _ early rfl hearly.symm hinside).1.isSingleton_eq.trans hsingleton
        exact singleton_of_conclude t d.name hcopy
      · exact absurd hmem (hfirst hthere hsingleton mid hmid.symm object)
  · rcases List.suffix_cons_iff.1 hentry with heq | hwithin
    · injection heq with hhead htail
      injection hhead with _ hobject
      rcases exists_of_answer hobject.symm with ⟨copy, hresult⟩
      rcases hbrought _ news hresult htail.symm hall with ⟨_, made, hmade, _⟩
      refine ⟨⟨made, htail ▸ hmade⟩, fun hsingleton rest hrest other hmem => ?_⟩
      rw [htail] at hrest
      exact absurd hmem (hfirst (hst.renewed news htail.symm hall) hsingleton rest hrest other)
    · exact hst.answers object news hwithin hall

-- What is known of a name lasts when the build of another one is over.
theorem lasts_conclude (hname : d.name ≠ name) (hknown : Renewed behaviour facade d past t) :
    Upheld behaviour facade d past t (t.conclude name result) := by
  have hsilent : ∀ object, .answered d.name (some object) ∉
      [Activity.answered name (result.map Built.object).toOption] := by
    intro object hmem
    injection List.mem_singleton.1 hmem with hcontra
    exact hname hcontra
  refine .of_silent [_] rfl hsilent fun _ => hknown.of_same [_] rfl hsilent ?_ ?_
  · rw [State.conclude, State.note_container, State.withContainer_container,
      Container.finishBuild_definitions]
    exact hknown.definition
  · exact (Container.SameFor.of_finishBuild hname _ _).kept

-- A request is answered by a build.
theorem of_build (hkept : s.container.singletons.get? name = none)
    (hd : s.container.definitions.get? name = some e) (habs : e.isAbstract = false)
    (hk : s.container.beginCreation name = .ok k)
    (h : (Engine.ofDepth behaviour facade depth).Steps (AlongCourses (Renewing behaviour facade))
      name e ((s.note (.requested name)).withContainer k) result t) :
    Renewing behaviour facade s (t.conclude name result) := by
  have hbegun : s.container.Coherent → (s.begin name).container.Coherent := fun hs => by
    rcases Container.beginCreation_eq_ok hk with ⟨_, rfl⟩
    exact hs.beginCreation hkept hk
  rcases Container.beginCreation_eq_ok hk with ⟨hnew, rfl⟩
  change (Engine.ofDepth behaviour facade depth).Steps _ name e (s.begin name) result t at h
  have hname : name ∈ (s.begin name).container.inCreation :=
    List.mem_append_right _ (List.mem_singleton_self name)
  rcases h.through hname (fun hst _ h1 h2 => followedBy hst h1 h2) id
    (fun u object hu => of_bear hu object) with ⟨honward, hrenewing⟩
  have hsuffix : s.log <:+ t.log := (List.suffix_cons _ _).trans honward.suffix
  refine ⟨hsuffix.trans (List.suffix_cons _ _),
    StaysOpen.answered honward.suffix hrenewing.opens _,
    fun hs d past hknown => ?_, fun hs d earlier hentry hearlier hopen => ?_⟩
  · have hrequested : ∀ object, .answered d.name (some object) ∉
        [Activity.requested (H := H) name] := fun object hmem => by cases List.mem_singleton.1 hmem
    have hasked : Upheld behaviour facade d past s (s.begin name) :=
      .of_silent [.requested name] rfl hrequested fun _ =>
        hknown.of_same [.requested name] rfl hrequested hknown.definition ⟨rfl, fun _ _ => rfl⟩
    have hst : Upheld behaviour facade d past s t :=
      hasked.followedBy (List.suffix_cons _ _) (hrenewing.lasts (hbegun hs) d past) honward.suffix
    by_cases hown : d.name = name
    · subst hown
      exact lasts_own hd habs h (hbegun hs) honward hst hknown
    · exact hst.followedBy hsuffix (lasts_conclude hown) (List.suffix_cons _ _)
  · have hmiddle := (List.suffix_cons_iff.1 hentry).resolve_left fun heq => by cases heq
    have hlate : (s.begin name).log <:+ earlier := by
      refine (entry_or_later honward.suffix hmiddle).resolve_left fun hearly => ?_
      cases (eq_of_entry hearly hearlier).1
    have hasked : openRequests d.name (s.begin name).log
        = (if name = d.name then 1 else 0) + openRequests d.name s.log :=
      rfl
    have hopens := hrenewing.opens d.name earlier hlate ((List.suffix_cons _ _).trans hmiddle)
    -- In the middle of its own build a request for the name is open.
    have hother : ¬name = d.name := fun hown => by
      rw [if_pos hown] at hasked
      omega
    rw [if_neg hother, Int.zero_add] at hasked
    rcases hrenewing.begins (hbegun hs) d earlier hmiddle hlate (hopen.trans hasked.symm) with
      ⟨w, hw, hknown, hupheld⟩
    exact ⟨w, hw, hknown, hupheld.followedBy (hw ▸ hmiddle)
      (lasts_conclude (Ne.symm hother)) (List.suffix_cons _ _)⟩

end Builds

end Renewing

namespace Engine

theorem builds_renewing {depth : Nat}
    (hE : (ofDepth behaviour facade depth).Keeps (AlongCourses (Renewing behaviour facade))) :
    (ofDepth behaviour facade depth).Builds Anything (AlongCourses (Renewing behaviour facade)) :=
  (Renewing.gradual behaviour facade).builds hE
    (fun s name result hkept => Renewing.of_answer s name result fun o => (hkept o).1)
    Renewing.of_build

/-- Whatever is run, what is known of a name lasts. -/
theorem keeps_renewing (behaviour : Behaviour H) (facade : Facade) (depth : Nat) :
    (ofDepth behaviour facade depth).Keeps (AlongCourses (Renewing behaviour facade)) :=
  keeps_ofDepth behaviour facade (Renewing.gradual behaviour facade).trail
    (fun _ hE => builds_renewing hE) depth

theorem getOrBuild_renewing (behaviour : Behaviour H) (facade : Facade) (depth : Nat)
    (name : String) :
    Attempt.Along (AlongCourses (Renewing behaviour facade))
      ((ofDepth behaviour facade depth).getOrBuild name) :=
  asked_along (keeps_renewing behaviour facade depth)
    (builds_renewing (keeps_renewing behaviour facade depth)) name trivial

end Engine

end ObjectBootstrap
