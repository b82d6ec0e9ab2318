import ObjectBootstrap.Proofs.Application.Listeners
import ObjectBootstrap.Proofs.Application.Subscriptions
import ObjectBootstrap.Proofs.Course.Moments

/-!
# Who is told of an event

Listeners are programs. What one of them does when it is told of an event may change who is told of
the next one: it may add and remove listeners itself, and when it asks for an object that listens,
the listener detector adds that one. So nothing can be said of the table of listeners by looking at
requests alone. `Turnover` reads from any part of a run which listeners were added and removed in
it, in order, whoever did it and however deep inside of other calls. The table is at every moment
what this history makes of it.

An event is delivered to those who were subscribed when it was published. Each of them is called
once, in the order of the table, whatever the calls before it made of the table.

## Main definitions

* `Turnover`: Which listeners are added and removed from one state to another.
* `Engine.Hears`, `Engine.Tells`: What happens when listeners are told of an event.
* `Engine.Delivers`: What a publication does.

## Theorems

* `Course.turnover`, `Amid.turnover`: Every moment of a run has a history.
* `Turnover.listed`: The table is what its history makes of it.
* `Engine.run_publish_iff`: A publication delivers the event, and that is all.
* `listeners_keep_to_history`: The table and the requests about it, put together.
-/

namespace ObjectBootstrap

variable {H : Host}

/-- The name of a removal. -/
def Subscription.removed? {α : Type} : Subscription α → Option String
  | removed name => some name
  | added _ _ => none

/-- The name that an entry tells to be unsubscribed. -/
def Activity.unsubscribed? : Activity H → Option String
  | .unsubscribed name => some name
  | _ => none

/-- Which listeners are added and removed from one state to another, in order. -/
inductive Turnover : State H → List (Subscription (Object H.Content)) → State H → Prop
  | added (s : State H) (name : String) (listener : Object H.Content) :
    Turnover s [.added name listener] { s with listeners := s.listeners.insert name listener }
  | removed (s : State H) (name : String) :
    Turnover s [.removed name]
      ({ s with listeners := s.listeners.erase name }.note (.unsubscribed name))
  /-- Anything else happens that is not written down. -/
  | quiet {s t : State H} : t.listeners = s.listeners → t.log = s.log → Turnover s [] t
  /-- Anything else happens, and it is written down as one entry. -/
  | deed {s t : State H} {activity : Activity H} :
    t.listeners = s.listeners → t.log = activity :: s.log → activity.unsubscribed? = none →
      Turnover s [] t
  | followedBy {s t u : State H} {early late : List (Subscription (Object H.Content))} :
    Turnover s early t → Turnover t late u → Turnover s (early ++ late) u

namespace Turnover

variable {s t u : State H} {history early late : List (Subscription (Object H.Content))}

theorem rest (s : State H) : Turnover s [] s := .quiet rfl rfl

-- What is no subscription may stand at either side.
theorem quiet_behind (h : Turnover s history t) (hlisteners : u.listeners = t.listeners)
    (hlog : u.log = t.log) : Turnover s history u := by
  have hwhole := h.followedBy (.quiet hlisteners hlog)
  rwa [List.append_nil] at hwhole

theorem note_before {activity : Activity H} (hother : activity.unsubscribed? = none)
    (h : Turnover (s.note activity) history u) : Turnover s history u := by
  have hnoted : Turnover s [] (s.note activity) := .deed rfl rfl hother
  exact hnoted.followedBy h

theorem deed_behind {activity : Activity H} (h : Turnover s history t)
    (hlisteners : u.listeners = t.listeners) (hlog : u.log = activity :: t.log)
    (hother : activity.unsubscribed? = none) : Turnover s history u := by
  have hwhole := h.followedBy (.deed hlisteners hlog hother)
  rwa [List.append_nil] at hwhole

theorem suffix (h : Turnover s history t) : s.log <:+ t.log := by
  induction h with
  | added s name listener => exact List.suffix_rfl
  | removed s name => exact List.suffix_cons _ _
  | quiet _ hlog => exact hlog ▸ List.suffix_rfl
  | deed _ hlog _ => exact hlog ▸ List.suffix_cons _ _
  | followedBy _ _ ih1 ih2 => exact ih1.trans ih2

/-- The removals are those that are written down. -/
theorem removals (h : Turnover s history t) :
    history.filterMap Subscription.removed? = (since s t).filterMap Activity.unsubscribed? := by
  induction h with
  | added s name listener => rw [Course.since_quiet (.subscribe s name listener)]; rfl
  | removed s name => rw [Course.since_deed (.unsubscribe s name)]; rfl
  | quiet _ hlog => rw [since_of_log (hlog.trans (List.nil_append _).symm)]; rfl
  | @deed s t activity _ hlog hother =>
      rw [since_of_log (hlog.trans (List.singleton_append).symm), List.reverse_singleton,
        List.filterMap_cons_none hother]
      rfl
  | followedBy h1 h2 ih1 ih2 =>
      rw [since_append h1.suffix h2.suffix, List.filterMap_append, List.filterMap_append, ih1, ih2]

/-- The table is what its history makes of it. -/
theorem listed {before : List (Subscription (Object H.Content))} (h : Turnover s history t)
    (hs : Listed before s.listeners) : Listed (before ++ history) t.listeners := by
  induction h generalizing before with
  | added s name listener => exact hs.insert name listener
  | removed s name => exact hs.erase name
  | quiet hlisteners _ =>
      rw [List.append_nil, hlisteners]
      exact hs
  | deed hlisteners _ _ =>
      rw [List.append_nil, hlisteners]
      exact hs
  | followedBy _ _ ih1 ih2 =>
      rw [← List.append_assoc]
      exact ih2 (ih1 hs)

end Turnover

/-- Each course has a history. -/
theorem Course.turnover {may : Activity H → Prop} {s t : State H} (h : Course may s t) :
    ∃ history, Turnover s history t := by
  induction h with
  | rest s => exact ⟨[], .rest s⟩
  | followedBy _ _ ih1 ih2 =>
      rcases ih1 with ⟨early, hearly⟩
      rcases ih2 with ⟨late, hlate⟩
      exact ⟨early ++ late, hearly.followedBy hlate⟩
  | quiet h =>
      cases h with
      | subscribe name listener => exact ⟨_, .added _ name listener⟩
      | _ => exact ⟨[], .quiet rfl rfl⟩
  | deed h _ =>
      cases h with
      | unsubscribe name => exact ⟨_, .removed _ name⟩
      | _ => exact ⟨[], .deed rfl rfl rfl⟩
  | call _ _ ih =>
      rcases ih with ⟨history, h⟩
      exact ⟨history, (Turnover.note_before rfl h).deed_behind rfl rfl rfl⟩
  | request _ _ _ ih =>
      rcases ih with ⟨history, h⟩
      exact ⟨history, (Turnover.note_before rfl h).deed_behind rfl rfl rfl⟩
  | update _ _ _ ih =>
      rcases ih with ⟨history, h⟩
      exact ⟨history, h.deed_behind rfl rfl rfl⟩
  | @build _ s t _ _ k _ _ _ _ _ _ ih =>
      rcases ih with ⟨history, h⟩
      have hbegun : Turnover s [] (s.withContainer k) := .quiet rfl rfl
      exact ⟨history, (hbegun.followedBy h).quiet_behind rfl rfl⟩

/-- Each moment of a run has a history, also in the middle of a delivery. -/
theorem Amid.turnover {s t : State H} (h : Amid s t) : ∃ history, Turnover s history t := by
  induction h with
  | rest => exact ⟨[], .rest s⟩
  | goesOn _ h ih =>
      rcases ih with ⟨early, hearly⟩
      rcases h.turnover with ⟨late, hlate⟩
      exact ⟨early ++ late, hearly.followedBy hlate⟩
  | enters point _ ih =>
      rcases ih with ⟨history, h⟩
      exact ⟨history, h.deed_behind rfl rfl rfl⟩
  | asks name _ ih =>
      rcases ih with ⟨history, h⟩
      exact ⟨history, h.deed_behind rfl rfl rfl⟩
  | begins _ _ _ ih =>
      rcases ih with ⟨history, h⟩
      exact ⟨history, h.quiet_behind rfl rfl⟩

namespace Engine

/-- What happens inside of a call of a listener: its program is run. The resolver of placeholders is
    no program of the embedding program and hears nothing. -/
def Hears (E : Engine H) (event : Event) (listener : Object H.Content) (s t : State H) : Prop :=
  match listener.substance with
  | .hosted content => E.run E.facade (E.behaviour.notify content event) s = some ((), t)
  | .placeholderConfigurer => t = s

/-- Listeners are told of an event, one after the other. -/
inductive Tells (E : Engine H) (event : Event) :
    List (String × Object H.Content) → State H → State H → Prop
  | all (s : State H) : Tells E event [] s s
  | next {name : String} {listener : Object H.Content} {rest : List (String × Object H.Content)}
    {s t u : State H} :
    E.Hears event listener (s.note (.entered (.notify name listener event))) t →
      Tells E event rest (t.note (.left (.notify name listener event) none)) u →
      Tells E event ((name, listener) :: rest) s u

/-- What a publication does: it is answered with the number of those who are subscribed, and each of
    them is called once, in order, and told of the event. -/
structure Delivers (E : Engine H) (event : Event) (s : State H) (count : Nat) (t : State H) :
    Prop where
  count_eq : count = s.listeners.names.length
  tells : E.Tells event s.listeners.entries (s.note (.published event s.listeners.names)) t
  calls_eq : calls (since s t)
    = s.listeners.entries.map fun entry => .notify entry.1 entry.2 event
  /-- What the listeners make of the table meanwhile. -/
  meanwhile : ∃ history, Turnover s history t

variable {E : Engine H} {event : Event} {s t u : State H}

theorem Hears.course (hE : E.Lawful) {listener : Object H.Content}
    (h : E.Hears event listener s t) : Course Anything s t := by
  unfold Hears at h
  split at h
  · exact hE _ _ _ _ _ h
  · cases h
    exact .rest _

theorem Tells.course (hE : E.Lawful) {listeners : List (String × Object H.Content)}
    (h : E.Tells event listeners s t) : Course Anything s t := by
  induction h with
  | all s => exact .rest s
  | next hhears _ ih => exact .followedBy (.call trivial (hhears.course hE)) ih

/-- Those who are told are called in order, and nobody else is called meanwhile but by them. -/
theorem Tells.calls_eq (hE : E.Lawful) {listeners : List (String × Object H.Content)}
    (h : E.Tells event listeners s t) :
    calls (since s t) = listeners.map fun entry => .notify entry.1 entry.2 event := by
  induction h with
  | all s =>
      rw [since_self]
      rfl
  | @next name listener rest s t u hhears hrest ih =>
      have hinside := hhears.course hE
      have hcalled : Course Anything s (t.note (.left (.notify name listener event) none)) :=
        .call trivial hinside
      rw [hcalled.since_followedBy (hrest.course hE), calls_append hcalled.nested,
        Course.since_between hinside, calls_call hinside.nested, ih]
      rfl

/-- A listener is called with its program. -/
theorem run_call_iff {listener : Object H.Content} {answer : Except Failure Unit} :
    (match listener.substance with
      | .hosted content => do
        E.run E.facade (E.behaviour.notify content event)
        return .ok ()
      | .placeholderConfigurer => return .ok () : Run H (Except Failure Unit)) s = some (answer, t)
      ↔ answer = .ok () ∧ E.Hears event listener s t := by
  rcases listener with ⟨typeName, serial, substance⟩
  cases substance with
  | hosted content =>
      constructor
      · intro h
        rcases Run.bind_eq_some_iff.1 h with ⟨⟨⟩, u, hrun, hpure⟩
        cases hpure
        exact ⟨rfl, hrun⟩
      · rintro ⟨rfl, hrun⟩
        exact Run.bind_eq_some_iff.2 ⟨(), t, hrun, rfl⟩
  | placeholderConfigurer =>
      constructor
      · rintro ⟨⟩
        exact ⟨rfl, rfl⟩
      · rintro ⟨rfl, rfl⟩
        rfl

theorem run_notifyAll_iff {listeners : List (String × Object H.Content)} :
    E.notifyAll event listeners s = some ((), t) ↔ E.Tells event listeners s t := by
  induction listeners generalizing s with
  | nil =>
      constructor
      · rintro ⟨⟩
        exact .all _
      · rintro ⟨⟩
        rfl
  | cons entry rest ih =>
      rcases entry with ⟨name, listener⟩
      constructor
      · intro h
        rcases Run.bind_eq_some_iff.1 h with ⟨_, _, hfirst, hrest⟩
        rcases run_enter_eq_some_iff.1 hfirst with ⟨u, hcalled, rfl⟩
        obtain ⟨rfl, hhears⟩ := run_call_iff.1 hcalled
        exact .next hhears (ih.1 hrest)
      · rintro ⟨⟩
        rename_i hhears hrest
        refine Run.bind_eq_some_iff.2 ⟨.ok (), _, run_enter_eq_some_iff.2 ⟨_, ?_, rfl⟩, ih.2 hrest⟩
        exact run_call_iff.2 ⟨rfl, hhears⟩

/-- A publication delivers the event, and that is all. -/
theorem run_publish_iff (hE : E.Lawful) {count : Nat} :
    E.publish event s = some (count, t) ↔ E.Delivers event s count t := by
  have hsize : s.listeners.size = s.listeners.names.length := (List.length_map _).symm
  constructor
  · intro h
    rcases Run.bind_eq_some_iff.1 h with ⟨_, _, hget, hrest⟩
    cases hget
    rcases Run.bind_eq_some_iff.1 hrest with ⟨_, u, hnote, hlast⟩
    cases hnote
    rcases Run.bind_eq_some_iff.1 hlast with ⟨⟨⟩, _, hnotified, hpure⟩
    cases hpure
    have htells : E.Tells event s.listeners.entries
        (s.note (.published event s.listeners.names)) t := run_notifyAll_iff.1 hnotified
    have hpublished : Course Anything s (s.note (.published event s.listeners.names)) :=
      .deed (.publish s event) trivial
    have hcourse := hpublished.followedBy (htells.course hE)
    refine ⟨hsize, htells, ?_, hcourse.turnover⟩
    rw [hpublished.since_followedBy (htells.course hE), Course.since_deed (.publish s event),
      calls_append (.remark (Deed.publish s event).isRemark), htells.calls_eq hE, calls,
      outer_remark (Deed.publish s event).isRemark]
    rfl
  · rintro ⟨rfl, htells, -, -⟩
    rw [← hsize]
    refine Run.bind_eq_some_iff.2 ⟨s, s, rfl, Run.bind_eq_some_iff.2 ⟨(), _, rfl, ?_⟩⟩
    exact Run.bind_eq_some_iff.2 ⟨(), t, run_notifyAll_iff.2 htells, rfl⟩

/-- The listener detector adds at most the listener that it sees. -/
theorem run_detectListener_cases {facade : Facade} {name : String} {object : Object H.Content}
    (h : (detectListener facade name object : Run H Unit) s = some ((), t)) :
    t = s ∨ ∃ listener,
      facade.facet? s.container name object .listens = some ⟨.listener, listener⟩ ∧
        t = { s with listeners := s.listeners.insert name listener } := by
  cases h
  dsimp only
  split
  · split
    · exact Or.inr ⟨_, ‹_›, rfl⟩
    · exact Or.inl rfl
  · exact Or.inl rfl

end Engine

/-- Let the table of listeners be what some history makes of it when a run begins. Then each moment
    of the run, be it between requests or in the middle of a delivery, has a history of its own
    since then, and the table is what both histories make of it: the names that remain, each once,
    in the order in which they joined, each with the listener that was added last. A removal is
    answered by whether the name remained, and a publication with the number of those who are
    subscribed. They, and nobody else, are called once each, in the order of the table, and whoever
    is added or removed meanwhile makes no difference to that. -/
theorem listeners_keep_to_history (behaviour : Behaviour H) (facade shown : Facade) (depth : Nat)
    {before : List (Subscription (Object H.Content))} {s : State H}
    (hs : Listed before s.listeners) :
    (∀ u, Amid s u → ∃ history, Turnover s history u) ∧
    ∀ history u, Turnover s history u →
      Listed (before ++ history) u.listeners ∧
      history.filterMap Subscription.removed?
        = (since s u).filterMap Activity.unsubscribed? ∧
      (∀ name listener, ∃ v, (Engine.ofDepth behaviour facade depth).answer shown
          (.addListener name listener) u = some ((), v) ∧
        Turnover u [.added name listener] v) ∧
      (∀ name, ∃ found v, (Engine.ofDepth behaviour facade depth).answer shown
          (.removeListener name) u = some (found, v) ∧
        (found = true ↔ Remains (before ++ history) name) ∧ Turnover u [.removed name] v) ∧
      (∀ name object, ∃ v, (Engine.ofDepth behaviour facade depth).answer shown
          (.detectListener name object) u = some ((), v) ∧
        (v = u ∨ ∃ listener, Turnover u [.added name listener] v)) ∧
      ∀ event count v, (Engine.ofDepth behaviour facade depth).answer shown (.publish event) u
          = some (count, v) ↔
        (Engine.ofDepth behaviour facade depth).Delivers event u count v := by
  have hE : (Engine.ofDepth behaviour facade depth).Lawful :=
    Engine.lawful_ofDepth behaviour facade depth
  refine ⟨fun u h => h.turnover, fun history u h => ?_⟩
  have hlisted := h.listed hs
  refine ⟨hlisted, h.removals, fun name listener => ⟨_, rfl, .added u name listener⟩,
    fun name => ⟨_, _, rfl, ?_, .removed u name⟩, fun name object => ?_,
    fun event count v => Engine.run_publish_iff hE⟩
  · rw [NameTable.contains_iff, hlisted.mem_names]
  · obtain ⟨v, hdetect⟩ : ∃ v, (Engine.ofDepth behaviour facade depth).answer shown
        (.detectListener name object) u = some ((), v) := ⟨_, rfl⟩
    rcases Engine.run_detectListener_cases hdetect with rfl | ⟨listener, -, rfl⟩
    · exact ⟨v, hdetect, Or.inl rfl⟩
    · exact ⟨_, hdetect, Or.inr ⟨listener, .added u name listener⟩⟩

namespace Scenarios

/-- As `behaviour`, except that a requester asks for another listener whenever it is told of
    anything. -/
def requesting : Behaviour host := { Scenarios.behaviour with
  notify := fun requests _ => do
    if requests then
      let _ ← Prog.request (.getOrBuild "listener")
      return () }

abbrev requestingEngine : Engine host := Engine.ofDepth requesting .direct 2

def requester (serial : Nat) : Object Bool := ⟨"requester", serial, .hosted true⟩

def bystander (serial : Nat) : Object Bool := ⟨"bystander", serial, .hosted false⟩

/-- The bystander came and went, and came again behind the requester, which was replaced
    meanwhile. -/
def subscriptions : List (Subscription (Object Bool)) :=
  [.added "bystander" (bystander 200), .added "requester" (requester 201), .removed "bystander",
    .added "requester" (requester 202), .added "bystander" (bystander 203)]

/-- A registry in which both are subscribed, and where the detector is installed. -/
def twoListeners : State host where
  container := { (stateOf [listener]).container with chain := ⟨[listenerDetector Bool]⟩ }
  listeners := ⟨[("requester", requester 202), ("bystander", bystander 203)]⟩
  store := ()

theorem subscriptions_listed : Listed subscriptions twoListeners.listeners := by
  have hnobody : Listed [] (NameTable.empty : NameTable (Object Bool)) := listed_empty
  have hearly := (hnobody.insert "bystander" (bystander 200)).insert "requester" (requester 201)
  have hreplaced := (hearly.erase "bystander").insert "requester" (requester 202)
  exact hreplaced.insert "bystander" (bystander 203)

theorem publish_to_twoListeners :
    (requestingEngine.answer .direct (.publish ⟨"event", .null⟩) twoListeners).map
      (fun r => (r.1, r.2.listeners.names)) = some (2, ["requester", "bystander", "listener"]) := by
  decide +kernel

/-- The requester and the bystander are told of the event, the requester first. The listener that it
    asks for is there when all is over, but too late to be told. -/
theorem twoListeners_told : Listed subscriptions twoListeners.listeners ∧
    ∃ (v : State host) (meanwhile : List (Subscription (Object Bool))),
      requestingEngine.answer .direct (.publish ⟨"event", .null⟩) twoListeners = some (2, v) ∧
      requestingEngine.Delivers ⟨"event", .null⟩ twoListeners 2 v ∧
      Turnover twoListeners meanwhile v ∧ Listed (subscriptions ++ meanwhile) v.listeners ∧
      v.listeners.names = ["requester", "bystander", "listener"] := by
  have hhistory := listeners_keep_to_history requesting .direct .direct 2 subscriptions_listed
  rcases Option.map_eq_some_iff.1 publish_to_twoListeners with ⟨⟨count, v⟩, hpublish, hreport⟩
  obtain ⟨rfl, hnames⟩ := Prod.mk.injEq _ _ _ _ ▸ hreport
  rcases hhistory.2 [] twoListeners (.rest twoListeners) with ⟨-, -, -, -, -, hdelivers⟩
  have hdelivered := (hdelivers _ _ _).1 hpublish
  rcases hdelivered.meanwhile with ⟨meanwhile, hmeanwhile⟩
  exact ⟨subscriptions_listed, v, meanwhile, hpublish, hdelivered, hmeanwhile,
    (hhistory.2 meanwhile v hmeanwhile).1, hnames⟩

end Scenarios

end ObjectBootstrap
