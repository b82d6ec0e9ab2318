import ObjectBootstrap.Proofs.Course.Inside

/-!
# Calls of the phases

The registry calls hooks of its own accord at two entry points only: a phase lets them mutate the
registry, and it lets them customize the factory. The steps of a build are calls too, but it takes
a build to make them, and a hook that runs a phase of its own does so inside of a call. So of the
calls that a phase makes itself the ones at these two points are what it does beside building.

A phase calls its hooks in turn. `Engine.Turns` is such a sequence of calls, each of which is a run
of the program of its hook, with nothing but builds in front of it and behind it. It ends with the
first program that fails. What stands in the log of these calls is a consequence
(`Engine.Turns.calls`): an entry about a call is not what the call is.

## Main definitions

* `EntryPoint.isPhase`: Whether an entry point is one of the two.
* `phaseCalls`: The calls that a phase makes itself at these two points.
* `mutations`, `customizations`: The calls of some hooks in turn.
* `Engine.Turn`, `Engine.Turns`: A call of a phase, and calls in turn.

## Theorems

* `phaseCalls_of_builds`: Builds make none of these calls.
* `Engine.Turns.calls`: Calls that are made in turn are the calls of the way.
* `Engine.Turns.failed`: A call that fails is the last one.
* `Engine.turns_of_each`: Hooks of which each is called once are called in turn.
* `Engine.mutateEach_turns`, `Engine.customizeEach_turns`: A phase calls its hooks in turn.
-/

namespace ObjectBootstrap

variable {H : Host}

/-- Whether an entry point is called by a phase itself, and not by a build. -/
def EntryPoint.isPhase : EntryPoint H → Bool
  | .mutate _ _ => true
  | .customize _ _ => true
  | _ => false

/-- The calls that a phase makes itself at its own entry points. -/
def phaseCalls (chronicle : List (Activity H)) : List (EntryPoint H) :=
  (calls chronicle).filter EntryPoint.isPhase

/-- Hooks that are called in turn to mutate the registry. -/
def mutations (hooks : List (String × Object H.Content)) : List (EntryPoint H) :=
  hooks.map fun entry => .mutate entry.1 entry.2

/-- Hooks that are called in turn to customize the factory. -/
def customizations (hooks : List (String × Object H.Content)) : List (EntryPoint H) :=
  hooks.map fun entry => .customize entry.1 entry.2

theorem mutations_append (early late : List (String × Object H.Content)) :
    mutations (early ++ late) = mutations early ++ mutations late :=
  List.map_append

theorem customizations_append (early late : List (String × Object H.Content)) :
    customizations (early ++ late) = customizations early ++ customizations late :=
  List.map_append

theorem phaseCalls_append {early : List (Activity H)} (h : Nested early)
    (late : List (Activity H)) :
    phaseCalls (early ++ late) = phaseCalls early ++ phaseCalls late := by
  rw [phaseCalls, calls_append h, List.filter_append]
  rfl

/-- Builds make no call that is a phase's own. -/
theorem phaseCalls_of_builds {s t : State H} (h : Course Activity.OfBuild s t) :
    phaseCalls (since s t) = [] := by
  rw [phaseCalls, List.filter_eq_nil_iff]
  intro point hpoint
  rcases List.mem_filterMap.1 hpoint with ⟨activity, hmem, hentered⟩
  rcases h.outer_may activity hmem with hbuild | ⟨point', failure, rfl⟩
  · cases activity with
    | entered point' =>
        cases Option.some.inj hentered
        cases point with
        | mutate => exact absurd hbuild id
        | customize => exact absurd hbuild id
        | _ => exact Bool.false_ne_true
    | _ => cases hentered
  · cases hentered

-- The calls of two courses, one behind the other.
theorem phaseCalls_followedBy {may may' : Activity H → Prop} {s t u : State H}
    (h1 : Course may s t) (h2 : Course may' t u) :
    phaseCalls (since s u) = phaseCalls (since s t) ++ phaseCalls (since t u) := by
  rw [h1.since_followedBy h2, phaseCalls_append h1.nested]

namespace Engine

variable {E : Engine H} {shown : Facade} {s t u : State H} {answer : Except Failure Unit}

/-- A phase calls a hook: what happens inside of the call is a run of the hook's program. -/
inductive Turn (E : Engine H) (shown : Facade) :
    EntryPoint H → State H → Except Failure Unit → State H → Prop
  | mutate {name : String} {hook : Object H.Content} {s t : State H}
    {answer : Except Failure Unit} :
    Called (.mutate name hook) (E.Mutates · shown hook) s answer t →
      Turn E shown (.mutate name hook) s answer t
  | customize {name : String} {hook : Object H.Content} {s t : State H}
    {answer : Except Failure Unit} :
    Called (.customize name hook) (E.Customizes · shown hook) s answer t →
      Turn E shown (.customize name hook) s answer t

/-- A phase makes some calls in turn and comes to an answer. Each call is made if the one before it
    did not fail, and beside the calls there are only builds. -/
inductive Turns (E : Engine H) (shown : Facade) :
    List (EntryPoint H) → State H → Except Failure Unit → State H → Prop
  | done {s t : State H} : Course Activity.OfBuild s t → Turns E shown [] s (.ok ()) t
  | stops {s t u : State H} {point : EntryPoint H} {failure : Failure} :
    Course Activity.OfBuild s u → Turn E shown point u (.error failure) t →
      Turns E shown [point] s (.error failure) t
  | goesOn {s t u v : State H} {point : EntryPoint H} {rest : List (EntryPoint H)}
    {answer : Except Failure Unit} :
    Course Activity.OfBuild s u → Turn E shown point u (.ok ()) v →
      Turns E shown rest v answer t → Turns E shown (point :: rest) s answer t

namespace Turn

variable {point : EntryPoint H}

theorem isPhase (h : E.Turn shown point s answer t) : point.isPhase = true := by
  cases h <;> rfl

-- The programs of hooks follow courses, and the resolver of placeholders is one too.
theorem inside (hE : E.Lawful) (h : E.Turn shown point s answer t) :
    ∃ u, Course Anything (s.note (.entered point)) u ∧
      t = u.note (.left point (failure? answer)) := by
  cases h with
  | @mutate _ hook _ _ _ h =>
      rcases h with ⟨u, hinside, rfl⟩
      refine ⟨u, ?_, rfl⟩
      unfold Mutates at hinside
      split at hinside
      · exact hE _ _ _ _ _ hinside
      · rcases hinside with ⟨_, rfl⟩
        exact .rest _
  | @customize _ hook _ _ _ h =>
      rcases h with ⟨u, hinside, rfl⟩
      refine ⟨u, ?_, rfl⟩
      unfold Customizes at hinside
      split at hinside
      · exact hE _ _ _ _ _ hinside
      · exact hE _ _ _ _ _ hinside

theorem course (hE : E.Lawful) (h : E.Turn shown point s answer t) : Course Anything s t := by
  rcases h.inside hE with ⟨u, hinside, rfl⟩
  exact .call trivial hinside

-- From outside nothing is seen of a call but that it is made and how it ends.
theorem outer_eq (hE : E.Lawful) (h : E.Turn shown point s answer t) :
    outer (since s t) = [.entered point, .left point (failure? answer)] := by
  rcases h.inside hE with ⟨u, hinside, rfl⟩
  rw [Course.since_between hinside, outer_call hinside.nested]

theorem calls (hE : E.Lawful) (h : E.Turn shown point s answer t) :
    phaseCalls (since s t) = [point] := by
  rw [phaseCalls, ObjectBootstrap.calls, h.outer_eq hE]
  exact List.filter_cons_of_pos h.isPhase

end Turn

namespace Turns

variable {points : List (EntryPoint H)}

theorem single {point : EntryPoint H} (h : E.Turn shown point s answer t) :
    E.Turns shown [point] s answer t := by
  match answer with
  | .error _ => exact .stops (.rest s) h
  | .ok () => exact .goesOn (.rest s) h (.done (.rest t))

-- Builds in front of calls that are made in turn.
theorem behind (h1 : Course Activity.OfBuild s u) (h2 : E.Turns shown points u answer t) :
    E.Turns shown points s answer t := by
  cases h2 with
  | done hbuild => exact .done (h1.followedBy hbuild)
  | stops hbuild hturn => exact .stops (h1.followedBy hbuild) hturn
  | goesOn hbuild hturn hrest => exact .goesOn (h1.followedBy hbuild) hturn hrest

-- The induction is on the calls in front, of which none failed.
theorem followedBy {more : List (EntryPoint H)} (h1 : E.Turns shown points s (.ok ()) u)
    (h2 : E.Turns shown more u answer t) : E.Turns shown (points ++ more) s answer t := by
  generalize hok : (.ok () : Except Failure Unit) = early at h1
  induction h1 with
  | done hbuild => exact h2.behind hbuild
  | stops _ _ => cases hok
  | goesOn hbuild hturn _ ih => exact .goesOn hbuild hturn (ih h2 hok)

theorem course (hE : E.Lawful) (h : E.Turns shown points s answer t) : Course Anything s t := by
  induction h with
  | done hbuild => exact hbuild.anything
  | stops hbuild hturn => exact hbuild.anything.followedBy (hturn.course hE)
  | goesOn hbuild hturn _ ih =>
      exact hbuild.anything.followedBy ((hturn.course hE).followedBy ih)

/-- The calls that are made in turn are the calls of the way. -/
theorem calls (hE : E.Lawful) (h : E.Turns shown points s answer t) :
    phaseCalls (since s t) = points := by
  induction h with
  | done hbuild => exact phaseCalls_of_builds hbuild
  | stops hbuild hturn =>
      rw [phaseCalls_followedBy hbuild (hturn.course hE), phaseCalls_of_builds hbuild,
        hturn.calls hE, List.nil_append]
  | goesOn hbuild hturn hrest ih =>
      rw [phaseCalls_followedBy hbuild ((hturn.course hE).followedBy (hrest.course hE)),
        phaseCalls_followedBy (hturn.course hE) (hrest.course hE), phaseCalls_of_builds hbuild,
        hturn.calls hE, ih, List.nil_append, List.singleton_append]

/-- A call of a phase that fails is the last one, and the answer is its failure. -/
theorem failed (hE : E.Lawful) (h : E.Turns shown points s answer t) {point : EntryPoint H}
    {failure : Failure} (hpoint : point.isPhase = true)
    (hleft : .left point (some failure) ∈ outer (since s t)) :
    answer = .error failure ∧ ∃ before, points = before ++ [point] := by
  -- What ends in a build is not a call of a phase.
  have hbuilt : ∀ {s t : State H}, Course Activity.OfBuild s t →
      .left point (some failure) ∉ outer (since s t) := by
    intro s t hbuild hmem
    have hmay : Activity.OfBuild (.entered point) := hbuild.may_of_left id hmem
    cases point with
    | mutate => exact hmay
    | customize => exact hmay
    | _ => cases hpoint
  induction h with
  | done hbuild => exact absurd hleft (hbuilt hbuild)
  | stops hbuild hturn =>
      rw [hbuild.since_followedBy (hturn.course hE), outer_append hbuild.nested,
        hturn.outer_eq hE] at hleft
      rcases List.mem_append.1 hleft with hmem | hmem
      · exact absurd hmem (hbuilt hbuild)
      · simp only [List.mem_cons, List.not_mem_nil, or_false, reduceCtorEq, false_or,
          failure?, Activity.left.injEq, Option.some.injEq] at hmem
        rcases hmem with ⟨rfl, rfl⟩
        exact ⟨rfl, [], rfl⟩
  | goesOn hbuild hturn hrest ih =>
      rw [hbuild.since_followedBy ((hturn.course hE).followedBy (hrest.course hE)),
        outer_append hbuild.nested, (hturn.course hE).since_followedBy (hrest.course hE),
        outer_append (hturn.course hE).nested, hturn.outer_eq hE] at hleft
      rcases List.mem_append.1 hleft with hmem | hmem
      · exact absurd hmem (hbuilt hbuild)
      · -- A call that goes on did not fail, so it is one of the later ones.
        simp only [List.cons_append, List.nil_append, List.mem_cons, reduceCtorEq, false_or,
          failure?, Activity.left.injEq, and_false] at hmem
        rcases ih hmem with ⟨hanswer, before, rfl⟩
        exact ⟨hanswer, _ :: before, rfl⟩

end Turns

/-- If each of some hooks is called once, they are called in turn. -/
theorem turns_of_each {each : List (String × Object H.Content) → Attempt H Unit}
    {one : String × Object H.Content → Attempt H Unit}
    {point : String × Object H.Content → EntryPoint H} (hnil : each [] = pure ())
    (hcons : ∀ entry rest, each (entry :: rest) = one entry >>= fun _ => each rest)
    (hturn : ∀ {entry s t}, (one entry).run s = some (.ok (), t) →
      E.Turn shown (point entry) s (.ok ()) t) :
    ∀ {hooks : List (String × Object H.Content)} {s t : State H},
      (each hooks).run s = some (.ok (), t) → E.Turns shown (hooks.map point) s (.ok ()) t := by
  intro hooks
  induction hooks with
  | nil =>
      intro s t h
      rw [hnil] at h
      cases h
      exact .done (.rest s)
  | cons entry rest ih =>
      intro s t h
      rw [hcons] at h
      rcases Attempt.run_bind_eq_ok_iff.1 h with ⟨_, u, hfirst, hrest⟩
      exact .goesOn (.rest s) (hturn hfirst) (ih hrest)

-- An answer that is reported as a success is one.
theorem ok_of_mapError {α : Type} {report : Failure → Error} {a : α} {answer : Except Failure α}
    (h : .ok a = answer.mapError report) : answer = .ok a := by
  cases answer with
  | error failure => cases h
  | ok b =>
      cases h
      rfl

/-- A phase calls its mutators in turn. -/
theorem mutateEach_turns {hooks : List (String × Object H.Content)}
    (h : (E.mutateEach shown hooks).run s = some (.ok (), t)) :
    E.Turns shown (mutations hooks) s (.ok ()) t := by
  refine turns_of_each rfl (fun _ _ => rfl) (fun {entry s t} hrun => ?_) h
  rcases run_mutate_iff.1 hrun with ⟨answer, hcalled, hresult⟩
  cases ok_of_mapError hresult
  exact .mutate hcalled

/-- A phase calls its customizers in turn. -/
theorem customizeEach_turns {hooks : List (String × Object H.Content)}
    (h : (E.customizeEach shown hooks).run s = some (.ok (), t)) :
    E.Turns shown (customizations hooks) s (.ok ()) t := by
  refine turns_of_each rfl (fun _ _ => rfl) (fun {entry s t} hrun => ?_) h
  rcases run_customize_iff.1 hrun with ⟨answer, hcalled, hresult⟩
  cases ok_of_mapError hresult
  exact .customize hcalled

end Engine

end ObjectBootstrap
