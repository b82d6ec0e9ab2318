import ObjectBootstrap.Proofs.Course.Watched

/-!
# Queries for capabilities

A container keeps the answers to queries and forgets them when a definition is stored. None of this
can be noticed. In every state of a run, whatever is under way there, each query is answered by the
names that were registered since the start, in the order of their first registrations, as far as
their definitions of that moment are no templates, declare the capability, and have the scope that
is asked for. It makes no difference whether an answer is kept or found by a search, which queries
were asked before, and whether eager initialization is allowed.

The states in question are those in which anybody asks for something: between two operations, in a
factory that is half done, in a hook, or in an edit whose definition is not stored yet. The engine
that watches looks at all of them, so it is enough that no single change breaks the promise.

## Main definitions

* `registrations`: The names that a chronicle tells to be registered.
* `Container.AnswersExactly`: Each query is answered by what the definitions say.
* `CacheInvisible`: No kept answer can be noticed in a state.
* `RegisteredSince`: The names of a container are those that were registered since the start.

## Theorems

* `RegisteredSince.cacheInvisible`: Where the names are right and the answers are consistent, no
  kept answer can be noticed.
* `lasting_registeredSince`: No change breaks that.
* `namesFor_exact`: In every state that a run shows, no kept answer can be noticed.
-/

namespace ObjectBootstrap

variable {H : Host} {α : Type}

/-- The name that an entry tells to be registered. -/
def Activity.registered? : Activity H → Option String
  | .registered d => some d.name
  | _ => none

/-- The names that a chronicle tells to be registered, as often as it does. -/
def registrations (chronicle : List (Activity H)) : List String :=
  chronicle.filterMap Activity.registered?

-- Who is registered is stored.
theorem Activity.registered?_eq_none {activity : Activity H} (h : activity.stored? = none) :
    activity.registered? = none := by
  cases activity with
  | registered d => cases h
  | _ => rfl

/-- Each query is answered by the definitions as they are now, in this order of their names. -/
def Container.AnswersExactly (k : Container H) (order : List String) : Prop :=
  ∀ c includeNonSingletons allowEagerInit,
    (k.namesFor ⟨c, includeNonSingletons, allowEagerInit⟩).1 = order.filter fun name =>
      (k.definitions.get? name).any fun d =>
        !d.isAbstract && d.hasCapability c && (includeNonSingletons || d.isSingleton)

/-- No kept answer can be noticed in a state of a run from a given start. -/
structure CacheInvisible (start s : State H) : Prop where
  exact : s.container.AnswersExactly (registrations (since start s)).eraseDups
  /-- A search answers alike. -/
  searched : s.container.invalidate.AnswersExactly (registrations (since start s)).eraseDups
  /-- So does a container that was asked something else before. -/
  asked : ∀ c includeNonSingletons allowEagerInit,
    (s.container.namesFor ⟨c, includeNonSingletons, allowEagerInit⟩).2.AnswersExactly
      (registrations (since start s)).eraseDups

theorem Capability.mem_all (c : Capability) : c ∈ Capability.all := by
  cases c <;> decide

-- There are only so many queries.
instance Capability.decidableForall {p : Capability → Prop} [DecidablePred p] :
    Decidable (∀ c, p c) :=
  decidable_of_iff (∀ c ∈ Capability.all, p c) ⟨fun h c => h c c.mem_all, fun h c _ => h c⟩

instance Container.decidableAnswersExactly (k : Container H) (order : List String) :
    Decidable (k.AnswersExactly order) :=
  inferInstanceAs (Decidable (∀ _ _ _, _ = _))

instance CacheInvisible.decidable (start s : State H) : Decidable (CacheInvisible start s) :=
  decidable_of_iff
    (s.container.AnswersExactly (registrations (since start s)).eraseDups ∧
      s.container.invalidate.AnswersExactly (registrations (since start s)).eraseDups ∧
      ∀ c includeNonSingletons allowEagerInit,
        (s.container.namesFor ⟨c, includeNonSingletons, allowEagerInit⟩).2.AnswersExactly
          (registrations (since start s)).eraseDups)
    ⟨fun h => ⟨h.1, h.2.1, h.2.2⟩, fun h => ⟨h.exact, h.searched, h.asked⟩⟩

/-- The names of a container are those that were registered since the start, in the order of their
    first registrations, and what it keeps is right. -/
structure RegisteredSince (start s : State H) : Prop where
  log_suffix : start.log <:+ s.log
  names_eq : s.container.names = (registrations (since start s)).eraseDups
  consistent : s.container.Consistent

/-- A consistent container answers by the definitions of its names. -/
theorem Container.Consistent.answersExactly {k : Container H} (hk : k.Consistent) :
    k.AnswersExactly k.names := by
  intro c includeNonSingletons allowEagerInit
  rw [hk.namesFor_eq, search]
  refine congrArg (fun admits => k.names.filter fun name => (k.definitions.get? name).any admits) ?_
  funext d
  rw [CapabilityQuery.admits, Bool.and_assoc, Bool.and_assoc, Bool.and_comm (d.hasCapability c)]

-- A container that lists the same names answers by these.
theorem Container.Consistent.answersExactly_of_eq {k k' : Container H} (hk : k'.Consistent)
    (hnames : k'.names = k.names) : k'.AnswersExactly k.names :=
  hnames ▸ hk.answersExactly

namespace RegisteredSince

variable {start s : State H}

/-- Where the names are right and the answers are consistent, no kept answer can be noticed. -/
theorem cacheInvisible (h : RegisteredSince start s) : CacheInvisible start s := by
  refine ⟨?_, ?_, ?_⟩
  · rw [← h.names_eq]
    exact h.consistent.answersExactly
  · rw [← h.names_eq]
    have hforgets : Course Anything s (s.withContainer s.container.invalidate) :=
      .quiet (.invalidate s)
    exact (hforgets.consistent h.consistent).answersExactly_of_eq rfl
  · intro c includeNonSingletons allowEagerInit
    rw [← h.names_eq]
    exact (h.consistent.namesFor _).answersExactly_of_eq (Container.namesFor_names _ _)

-- A container that is new has no names, and nothing was registered yet.
theorem new (s : State H) (overriding : Bool) :
    RegisteredSince (s.withContainer { allowOverriding := overriding })
      (s.withContainer { allowOverriding := overriding }) := by
  refine ⟨List.suffix_rfl, ?_, Container.consistent_empty overriding⟩
  rw [since_self]
  rfl

-- What the names and the answers do not depend on.
theorem frame (h : RegisteredSince start s) {t : State H} (hlog : t.log = s.log)
    (hdefinitions : t.container.definitions = s.container.definitions)
    (hnames : t.container.names = s.container.names)
    (hanswers : t.container.answers = s.container.answers) : RegisteredSince start t := by
  have hsince : since start t = since start s := by
    rw [since, since, hlog]
  refine ⟨hlog ▸ h.log_suffix, ?_, h.consistent.congr hdefinitions hnames hanswers⟩
  rw [hsince, ← h.names_eq]
  exact hnames

-- An entry that tells of no registration.
theorem note (h : RegisteredSince start s) {activity : Activity H}
    (hactivity : activity.registered? = none) : RegisteredSince start (s.note activity) := by
  refine ⟨h.log_suffix.trans (List.suffix_cons _ _), ?_, h.consistent⟩
  rw [since_note h.log_suffix, registrations, List.filterMap_append,
    List.filterMap_cons_none hactivity, List.filterMap_nil, List.append_nil]
  exact h.names_eq

/-- A registration puts its name behind the others, unless it was registered before. -/
theorem register (h : RegisteredSince start s) {d : Definition H.Factory} {k : Container H}
    (hk : s.container.register d = .ok k) :
    RegisteredSince start ((s.withContainer k).note (.registered d)) := by
  have hcourse : Course Anything s ((s.withContainer k).note (.registered d)) :=
    .deed (.register hk) trivial
  refine ⟨h.log_suffix.trans hcourse.log_suffix, ?_, hcourse.consistent h.consistent⟩
  have hlast : registrations (since start ((s.withContainer k).note (.registered d)))
      = registrations (since start s) ++ [d.name] := by
    rw [since_note (show start.log <:+ (s.withContainer k).log from h.log_suffix), registrations,
      List.filterMap_append]
    rfl
  have hmem : d.name ∈ registrations (since start s) ↔ d.name ∈ s.container.names := by
    rw [← List.mem_eraseDups, ← h.names_eq]
  change k.names = _
  rw [hlast, List.eraseDups_append, ← h.names_eq]
  rcases Container.register_cases hk with ⟨hthere, rfl⟩ | ⟨hnew, rfl⟩
  · have hname := (h.consistent.mem_names_iff d.name).2 hthere
    rw [List.removeAll, List.filter_cons_of_neg (by simp [hmem.2 hname])]
    exact (List.append_nil _).symm
  · have hname : d.name ∉ s.container.names := fun hname =>
      Bool.false_ne_true (hnew.symm.trans ((h.consistent.mem_names_iff d.name).1 hname))
    rw [List.removeAll, List.filter_cons_of_pos (by simp [mt hmem.1 hname])]
    rfl

end RegisteredSince

/-- No change makes a name appear that was not registered, or leaves an answer that is out of
    date. -/
theorem lasting_registeredSince (start : State H) : Lasting (RegisteredSince start) := by
  intro s t h hs
  cases h with
  | quiet h =>
      cases h with
      | search query =>
          refine ⟨hs.log_suffix, ?_, hs.consistent.namesFor query⟩
          rw [State.withContainer_container, Container.namesFor_names]
          exact hs.names_eq
      | invalidate =>
          have hcourse : Course Anything s (s.withContainer s.container.invalidate) :=
            .quiet (.invalidate s)
          exact ⟨hs.log_suffix, hs.names_eq, hcourse.consistent hs.consistent⟩
      | _ => exact hs.frame rfl rfl rfl rfl
  | note hstored => exact hs.note (Activity.registered?_eq_none hstored)
  | register hk => exact hs.register hk
  | @update name d hname =>
      have hkept : (s.container.writeBack name d).InStep :=
        hs.consistent.toInStep.stored ((hs.consistent.mem_names_iff name).2 hname) rfl rfl
      have hstored : RegisteredSince start (s.withContainer (s.container.writeBack name d)) :=
        ⟨hs.log_suffix, hs.names_eq, hkept.consistent rfl⟩
      exact hstored.note rfl
  | install name hook => exact hs.frame rfl rfl rfl rfl
  | beginCreation hk =>
      rcases Container.beginCreation_eq_ok hk with ⟨_, rfl⟩
      exact hs.frame rfl rfl rfl rfl
  | unsubscribe name => exact hs.frame rfl rfl rfl rfl
  | keepTarget name object => exact hs.frame rfl rfl rfl rfl
  | settle name built singleton =>
      have hframe :=
        Container.settleTarget_frame (s.container.endCreation name) name built singleton
      exact hs.frame rfl hframe.1 hframe.2.1 hframe.2.2.2
  | keepSingleton name object => exact hs.frame rfl rfl rfl rfl

/-- In every state that a run from a new container shows to a program, be it between two operations
    or in the middle of some, each query is answered by the definitions as they are at that moment,
    and no kept answer can be noticed. The same holds where the run ends. -/
theorem namesFor_exact (behaviour : Behaviour H) (facade shown : Facade) (depth : Nat)
    (overriding : Bool) (s : State H) (program : Prog H α) :
    let start := s.withContainer { allowOverriding := overriding }
    (Engine.watched (CacheInvisible start) behaviour facade depth).run shown program start
        = (Engine.ofDepth behaviour facade depth).run shown program start ∧
      ∀ a t, (Engine.ofDepth behaviour facade depth).run shown program start = some (a, t) →
        CacheInvisible start t := by
  intro start
  have hagrees : Run.AgreesAt (RegisteredSince start) start
      ((Engine.ofDepth behaviour facade depth).run shown program)
      ((Engine.watched (CacheInvisible start) behaviour facade depth).run shown program) :=
    Engine.watched_agrees (lasting_registeredSince start) (fun _ h => h.cacheInvisible) behaviour
      facade depth shown program start (.new s overriding)
  refine ⟨hagrees.1.symm, ?_⟩
  intro a t h
  exact (hagrees.2 a t h).cacheInvisible

namespace QueryScenarios

-- A registrar registers a late listener while it is built, and asks for all listeners before and
-- after.
abbrev host : Host := ⟨Unit, Bool, List String⟩

def listener (name : String) : Definition Bool where
  name := name
  typeName := name
  capabilities := [.listens]
  maker := .hosted false

def registrar : Definition Bool where
  name := "registrar"
  typeName := "registrar"
  maker := .hosted true

def listenerNames : Prog host (List String) := Prog.request (.namesFor ⟨.listens, true, true⟩)

def behaviour : Behaviour host where
  make registers _ :=
    if registers then do
      let _ ← listenerNames
      let _ ← Prog.request (.register (listener "late"))
      Prog.request (.remember (← listenerNames))
      return .ok ()
    else return .ok ()
  mutate _ := .done (.ok ())
  customize _ := .done (.ok ())
  merge _ _ d := .done (.ok d)
  intercept _ _ object _ := .done (.ok (some object))
  notify _ _ := .done ()

-- The edit asks for the listeners in front of the change that it makes.
def queries : Prog host (List (List String)) := do
  let _ ← Prog.request (.register (listener "early"))
  let _ ← Prog.request (.register registrar)
  let first ← listenerNames
  let edit (d : Definition Bool) : Prog host (List String × Definition Bool) := do
    return (← listenerNames, { d with lazyInit := true })
  let _ ← Prog.update "early" edit .done
  let _ ← Prog.request (.getOrBuild "registrar")
  return [first, ← Prog.request .recall, ← listenerNames]

def overridableEmpty : State host := State.withContainer { store := [] } { allowOverriding := true }

theorem answers_of_queries :
    ((Engine.ofDepth behaviour .direct 2).run .direct queries overridableEmpty).map Prod.fst
      = some [["early"], ["early", "late"], ["early", "late"]] := by
  decide +kernel

/-- The late listener is there at once, although the query was answered without it before. -/
theorem queries_exact : ∃ t : State host,
    (Engine.watched (CacheInvisible overridableEmpty) behaviour .direct 2).run .direct
      queries overridableEmpty
      = some ([["early"], ["early", "late"], ["early", "late"]], t) ∧
    CacheInvisible overridableEmpty t := by
  rcases Option.map_eq_some_iff.1 answers_of_queries with ⟨⟨answers, t⟩, hrun, rfl⟩
  rcases namesFor_exact behaviour .direct .direct 2 true { store := [] } queries with
    ⟨hwatched, hend⟩
  exact ⟨t, hwatched.trans hrun, hend _ t hrun⟩

end QueryScenarios

end ObjectBootstrap
