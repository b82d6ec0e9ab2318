import ObjectBootstrap.Proofs.Application.Attended
import ObjectBootstrap.Proofs.Building.Success
import ObjectBootstrap.Proofs.Installation.Silence

/-!
# The steps of a build

A build is told by what is handed from call to call. One copy of the registered definition goes from
hook to hook and gathers their edits; the factory is handed what has become of it; the object of the
factory goes from hook to hook before its initialization, and what has become of that goes through
all hooks again afterwards. `Offers` and `Passage` are the three ways through the hooks, and
`Pipeline` puts them together. It speaks of one list of hooks, although a build looks up the chain
anew in front of each way: as long as nothing is installed it finds the same hooks.

A build is its pipeline and nothing else, in both directions: whatever a build comes to is reached
through these steps, and when all calls of the steps come to an end, so does the build. A call is
told by the run of the program that is called.

## Main definitions

* `Offers`: The copy of a definition is offered to hooks in turn.
* `Pipeline`: The steps of a build.

## Theorems

* `Engine.run_mergeThrough_iff`, `Engine.run_walk_iff`: The ways through the hooks.
* `Engine.run_construct_iff`: The steps of a build that installs nothing.
* `build_pipeline`: What a request for an object that is not kept comes to.
-/

namespace ObjectBootstrap

variable {H : Host}

/-- A hook is called and offered the copy of a definition that the build of a name uses. -/
abbrev Engine.Presents (E : Engine H) (entry : ChainEntry H.Content) (name : String)
    (copy : Definition H.Factory) (s : State H) (answer : Except Failure (Definition H.Factory))
    (t : State H) : Prop :=
  Called (.merge entry.name name copy) (E.Edits · entry.hook name copy) s answer t

/-- The factory of a copy is called with the copy for the build of a name. -/
abbrev Engine.Produces (E : Engine H) (name : String) (copy : Definition H.Factory) (s : State H)
    (answer : Except Failure (Object H.Content)) (t : State H) : Prop :=
  Called (.make name copy) (E.Makes · copy) s answer t

/-- The copy of a definition is offered to hook after hook, each being offered the edits of those
    before, up to the first one that fails. -/
inductive Offers (E : Engine H) (name : String) :
    List (ChainEntry H.Content) → Definition H.Factory → State H →
      Except Error (Definition H.Factory) → State H → Prop
  | all (copy : Definition H.Factory) (s : State H) : Offers E name [] copy s (.ok copy) s
  /-- A hook fails. -/
  | fails {entry : ChainEntry H.Content} {rest : List (ChainEntry H.Content)}
    {copy : Definition H.Factory} {source : Failure} {s t : State H} :
    E.Presents entry name copy s (.error source) t →
      Offers E name (entry :: rest) copy s
        (.error (.hookExecution entry.name .definitionMerge source)) t
  /-- A hook answers what it has made of the copy, and the next one is offered that. -/
  | goesOn {entry : ChainEntry H.Content} {rest : List (ChainEntry H.Content)}
    {copy edited : Definition H.Factory} {result : Except Error (Definition H.Factory)}
    {s t u : State H} :
    E.Presents entry name copy s (.ok edited) t →
      Offers E name rest edited t result u → Offers E name (entry :: rest) copy s result u

/-- The steps of a build with the hooks of a chain. The first failure ends the build. A build that
    succeeds comes to an object and to what the hooks have made of the copy. -/
inductive Pipeline (E : Engine H) (entries : List (ChainEntry H.Content)) (name : String)
    (d : Definition H.Factory) (s : State H) : Except Error (Built H) → State H → Prop
  /-- A hook fails on the copy of the definition. -/
  | unmerged {e : Error} {t : State H} :
    Offers E name entries d s (.error e) t → Pipeline E entries name d s (.error e) t
  /-- The factory fails on the copy with all edits. -/
  | unmade {copy : Definition H.Factory} {failure : Failure} {t u : State H} :
    Offers E name entries d s (.ok copy) t → E.Produces name copy t (.error failure) u →
      Pipeline E entries name d s (.error (Engine.makeError name failure)) u
  /-- A hook fails before the initialization. -/
  | unready {copy : Definition H.Factory} {object : Object H.Content} {e : Error}
    {t u v : State H} :
    Offers E name entries d s (.ok copy) t → E.Produces name copy t (.ok object) u →
      Passage E .before name entries object ((u.bear name object).setOut .before name)
        (.error e) v →
      Pipeline E entries name d s (.error e) v
  /-- What the first walk comes to sets out on the second one. -/
  | walked {copy : Definition H.Factory} {object next : Object H.Content}
    {result : Except Error (Object H.Content)} {t u v w : State H} :
    Offers E name entries d s (.ok copy) t → E.Produces name copy t (.ok object) u →
      Passage E .before name entries object ((u.bear name object).setOut .before name)
        (.ok next) v →
      Passage E .after name entries next (v.setOut .after name) result w →
      Pipeline E entries name d s (result.map (Built.mk copy)) w

/-- A call of a build, without what is handed over in it. -/
inductive BuildCall where
  | merge (hook : String)
  | make
  | intercept (stage : Stage) (hook : String)
  deriving DecidableEq

/-- The call of a build that an entry point belongs to. -/
def EntryPoint.buildCall? : EntryPoint H → Option BuildCall
  | .merge hook _ _ => some (.merge hook)
  | .make _ _ => some .make
  | .intercept stage hook _ _ => some (.intercept stage hook)
  | .mutate _ _ | .customize _ _ | .notify _ _ _ => none

/-- The calls that are not made inside of another one, as calls of a build. -/
def buildCalls (chronicle : List (Activity H)) : List (Option BuildCall) :=
  (calls chronicle).map EntryPoint.buildCall?

/-- In which order a build calls its hooks and its factory. Each way through the hooks may end
    early, and only if all of them were offered the copy of the definition is the factory called. -/
inductive Schedule (hooks : List String) : List BuildCall → Prop
  | offering {offered : List String} :
    offered <+: hooks → Schedule hooks (offered.map .merge)
  | making : Schedule hooks (hooks.map .merge ++ [.make])
  | preparing {before : List String} :
    before <+: hooks →
      Schedule hooks (hooks.map .merge ++ [.make] ++ before.map (.intercept .before))
  | finishing {before after : List String} :
    before <+: hooks → after <+: hooks →
      Schedule hooks (hooks.map .merge ++ [.make] ++ before.map (.intercept .before) ++
        after.map (.intercept .after))

namespace Engine

variable {E : Engine H}

/-- The copy of a definition is offered to hooks in turn. -/
theorem run_mergeThrough_iff {name : String} {entries : List (ChainEntry H.Content)}
    {d : Definition H.Factory} {result : Except Error (Definition H.Factory)} {s t : State H} :
    (E.mergeThrough name entries d).run s = some (result, t) ↔
      Offers E name entries d s result t := by
  constructor
  · intro h
    induction entries generalizing d s with
    | nil =>
        cases h
        exact .all _ _
    | cons entry rest ih =>
        rcases Attempt.run_bind_eq_some_iff.1 h with ⟨_, herror, _⟩ | ⟨answer, u, hfirst, hrest⟩
        · rcases Attempt.run_step_eq_some_iff.1 herror with ⟨_, _, hcontra⟩
          cases hcontra
        have hcalled := run_merge_iff.1 (Attempt.run_step_eq_ok_iff.1 hfirst)
        match answer with
        | .error source =>
            cases hrest
            exact .fails hcalled
        | .ok edited => exact .goesOn hcalled (ih hrest)
  · intro h
    induction h with
    | all d s => rfl
    | fails hcalled =>
        exact Attempt.run_bind_eq_some_iff.2
          (Or.inr ⟨_, _, Attempt.run_step_eq_ok_iff.2 (run_merge_iff.2 hcalled), rfl⟩)
    | goesOn hcalled _ ih =>
        exact Attempt.run_bind_eq_some_iff.2
          (Or.inr ⟨_, _, Attempt.run_step_eq_ok_iff.2 (run_merge_iff.2 hcalled), ih⟩)

/-- A passage is a walk through hooks. -/
theorem run_walkThrough_of_passage {stage : Stage} {name : String}
    {entries : List (ChainEntry H.Content)} {object : Object H.Content}
    {result : Except Error (Object H.Content)} {s t : State H}
    (h : Passage E stage name entries object s result t) :
    (E.walkThrough stage name entries object).run s = some (result, t) := by
  induction h with
  | all object s => rfl
  | stops hcalled =>
      exact Attempt.run_bind_eq_some_iff.2
        (Or.inr ⟨_, _, Attempt.run_step_eq_ok_iff.2 (run_intercept_iff.2 hcalled), rfl⟩)
  | fails hcalled =>
      exact Attempt.run_bind_eq_some_iff.2
        (Or.inr ⟨_, _, Attempt.run_step_eq_ok_iff.2 (run_intercept_iff.2 hcalled), rfl⟩)
  | goesOn hcalled _ ih =>
      exact Attempt.run_bind_eq_some_iff.2
        (Or.inr ⟨_, _, Attempt.run_step_eq_ok_iff.2 (run_intercept_iff.2 hcalled), ih⟩)

-- Once the object of a factory is the target, the walks are all that is left.
theorem run_finish_of_walks {s t : State H} {name : String} {object : Object H.Content}
    {result : Except Error (Object H.Content)}
    (h : (do
      let object ← E.walk .before name object
      E.walk .after name object : Attempt H (Object H.Content)).run (s.bear name object)
        = some (result, t)) :
    (E.finish name object).run s = some (result, t) :=
  Attempt.run_bind_eq_some_iff.2 (Or.inr ⟨(), _, rfl,
    Attempt.run_bind_eq_some_iff.2 (Or.inr ⟨(), _, rfl, h⟩)⟩)

/-- A walk is a passage through the hooks that are installed when it sets out. -/
theorem run_walk_iff {stage : Stage} {name : String} {object : Object H.Content}
    {result : Except Error (Object H.Content)} {s t : State H} :
    (E.walk stage name object).run s = some (result, t) ↔
      Passage E stage name s.container.chain.entries object (s.setOut stage name) result t :=
  ⟨run_walk_passage, fun h => run_walkThrough_of_passage h⟩

end Engine

section Courses

variable {E : Engine H} (hE : E.Lawful) {entries : List (ChainEntry H.Content)} {name : String}
  {d copy : Definition H.Factory} {s t u : State H}
include hE

theorem Engine.Presents.course {entry : ChainEntry H.Content}
    {answer : Except Failure (Definition H.Factory)} (h : E.Presents entry name d s answer t) :
    Course Anything s t :=
  Engine.merge_along hE.keeps (Course.trail Anything) trivial _ _ _ (Engine.run_merge_iff.2 h)

theorem Engine.Produces.course {answer : Except Failure (Object H.Content)}
    (h : E.Produces name copy s answer t) : Course Anything s t :=
  Engine.make_along hE.keeps (Course.trail Anything) trivial _ _ _ (Engine.run_make_iff.2 h)

theorem Engine.Hands.course {stage : Stage} {entry : ChainEntry H.Content}
    {object : Object H.Content} {answer : Except Failure (Option (Object H.Content))}
    (h : E.Hands stage entry name object s answer t) : Course Anything s t :=
  Engine.intercept_along hE.keeps (Course.trail Anything)
    (fun number _ _ => Run.follows_watch number name) (fun _ => trivial) object _ _ _
    (Engine.run_intercept_iff.2 h)

theorem Offers.course {result : Except Error (Definition H.Factory)}
    (h : Offers E name entries d s result t) : Course Anything s t :=
  Engine.mergeThrough_along hE.keeps (Course.trail Anything) (fun _ _ => trivial) _ _ _ _ _
    (Engine.run_mergeThrough_iff.2 h)

theorem Passage.course {stage : Stage} {object : Object H.Content}
    {result : Except Error (Object H.Content)}
    (h : Passage E stage name entries object s result t) : Course Anything s t :=
  Engine.walkThrough_along hE.keeps (Course.trail Anything) (fun _ _ => trivial)
    (fun _ _ number _ _ => Run.follows_watch number name) object _ _ _
    (Engine.run_walkThrough_of_passage h)

theorem Passage.course_setOut {stage : Stage} {object : Object H.Content}
    {result : Except Error (Object H.Content)}
    (h : Passage E stage name entries object (s.setOut stage name) result t) :
    Course Anything s t :=
  .followedBy (.deed (.walk s stage name) trivial) (h.course hE)

-- The factory is called on the merged copy, and its object becomes the target.
theorem Offers.borne {object : Object H.Content} (hname : name ∈ s.container.inCreation)
    (h : Offers E name entries d s (.ok copy) t) (hmake : E.Produces name copy t (.ok object) u) :
    Course Anything s (u.bear name object) := by
  have hsu : Course Anything s u := (h.course hE).followedBy (hmake.course hE)
  exact hsu.followedBy (.deed (.make object (hsu.inCreation_eq ▸ hname)) trivial)

theorem Pipeline.course {result : Except Error (Built H)} (hname : name ∈ s.container.inCreation)
    (h : Pipeline E entries name d s result t) : Course Anything s t := by
  cases h with
  | unmerged hoffers => exact hoffers.course hE
  | unmade hoffers hmake => exact (hoffers.course hE).followedBy (hmake.course hE)
  | unready hoffers hmake hbefore =>
      exact (hoffers.borne hE hname hmake).followedBy (hbefore.course_setOut hE)
  | walked hoffers hmake hbefore hafter =>
      exact ((hoffers.borne hE hname hmake).followedBy (hbefore.course_setOut hE)).followedBy
        (hafter.course_setOut hE)

end Courses

section Calls

theorem buildCalls_append {early : List (Activity H)} (h : Nested early)
    (late : List (Activity H)) :
    buildCalls (early ++ late) = buildCalls early ++ buildCalls late := by
  rw [buildCalls, calls_append h, List.map_append]
  rfl

-- One call, with the entries about it.
theorem buildCalls_between {point : EntryPoint H} {failure : Option Failure} {s u : State H}
    (h : Course Anything (s.note (.entered point)) u) :
    buildCalls (since s (u.note (.left point failure))) = [point.buildCall?] := by
  rw [Course.since_between h, buildCalls, calls_call h.nested]
  rfl

-- What is written down as one entry is no call.
theorem buildCalls_deed {s t : State H} {activity : Activity H} (h : Deed s activity t) :
    buildCalls (since s t) = [] := by
  rw [Course.since_deed h, buildCalls, calls, outer_remark h.isRemark]
  cases h <;> rfl

variable {E : Engine H} (hE : E.Lawful) {entries : List (ChainEntry H.Content)} {name : String}
  {d copy : Definition H.Factory} {s t u : State H}
include hE

theorem Engine.Presents.calls {entry : ChainEntry H.Content}
    {answer : Except Failure (Definition H.Factory)} (h : E.Presents entry name d s answer t) :
    buildCalls (since s t) = [some (.merge entry.name)] := by
  rcases Engine.merge_called hE.keeps (Engine.run_merge_iff.2 h) with ⟨v, hinside, rfl⟩
  exact buildCalls_between hinside

theorem Engine.Produces.calls {answer : Except Failure (Object H.Content)}
    (h : E.Produces name copy s answer t) : buildCalls (since s t) = [some .make] := by
  rcases Engine.make_called hE.keeps (Engine.run_make_iff.2 h) with ⟨v, hinside, rfl⟩
  exact buildCalls_between hinside

theorem Engine.Hands.calls {stage : Stage} {entry : ChainEntry H.Content}
    {object : Object H.Content} {answer : Except Failure (Option (Object H.Content))}
    (h : E.Hands stage entry name object s answer t) :
    buildCalls (since s t) = [some (.intercept stage entry.name)] := by
  rcases Engine.intercept_called hE.keeps (fun number _ _ => Run.follows_watch number name)
    (Engine.run_intercept_iff.2 h) with ⟨v, hinside, rfl⟩
  exact buildCalls_between hinside

/-- The hooks that are offered a definition are the first ones, and all of them unless one fails. -/
theorem Offers.calls {result : Except Error (Definition H.Factory)}
    (h : Offers E name entries d s result t) :
    ∃ offered : List String, offered <+: entries.map ChainEntry.name ∧
      buildCalls (since s t) = (offered.map .merge).map some ∧
      ∀ copy, result = .ok copy → offered = entries.map ChainEntry.name := by
  induction h with
  | all d s =>
      refine ⟨[], List.nil_prefix, ?_, fun _ _ => rfl⟩
      rw [since_self]
      rfl
  | @fails entry rest d source s t hcalled =>
      refine ⟨[entry.name], ?_, hcalled.calls hE, fun copy hok => by cases hok⟩
      exact List.prefix_append [entry.name] (rest.map ChainEntry.name)
  | @goesOn entry rest d edited result s t u hcalled hrest ih =>
      have hst : Course Anything s t := hcalled.course hE
      rcases ih with ⟨offered, hprefix, hcalls, hall⟩
      refine ⟨entry.name :: offered, (List.prefix_cons_inj _).2 hprefix, ?_, fun copy hok => ?_⟩
      · rw [hst.since_followedBy (hrest.course hE), buildCalls_append hst.nested, hcalls,
          hcalled.calls hE]
        rfl
      · rw [hall copy hok, List.map_cons]

/-- The hooks that are handed an object are the first ones. -/
theorem Passage.calls {stage : Stage} {object : Object H.Content}
    {result : Except Error (Object H.Content)}
    (h : Passage E stage name entries object s result t) :
    ∃ handed : List String, handed <+: entries.map ChainEntry.name ∧
      buildCalls (since s t) = (handed.map (.intercept stage)).map some := by
  -- A hook that ends the walk, or fails, is the last one that is called.
  have hlast : ∀ {entry : ChainEntry H.Content} {rest : List (ChainEntry H.Content)}
      {object answer s t}, E.Hands stage entry name object s answer t →
      ∃ handed : List String, handed <+: (entry :: rest).map ChainEntry.name ∧
        buildCalls (since s t) = (handed.map (.intercept stage)).map some := by
    intro entry rest object answer s t hcalled
    exact ⟨[entry.name], List.prefix_append [entry.name] (rest.map ChainEntry.name),
      hcalled.calls hE⟩
  induction h with
  | all object s =>
      refine ⟨[], List.nil_prefix, ?_⟩
      rw [since_self]
      rfl
  | stops hcalled => exact hlast hcalled
  | fails hcalled => exact hlast hcalled
  | @goesOn entry rest object next result s t u hcalled hrest ih =>
      have hst : Course Anything s t := hcalled.course hE
      rcases ih with ⟨handed, hprefix, hcalls⟩
      refine ⟨entry.name :: handed, (List.prefix_cons_inj _).2 hprefix, ?_⟩
      rw [hst.since_followedBy (hrest.course hE), buildCalls_append hst.nested, hcalls,
        hcalled.calls hE]
      rfl

-- A walk makes the calls of its passage.
theorem Passage.calls_setOut {stage : Stage} {object : Object H.Content}
    {result : Except Error (Object H.Content)}
    (h : Passage E stage name entries object (s.setOut stage name) result t) :
    ∃ handed : List String, handed <+: entries.map ChainEntry.name ∧
      buildCalls (since s t) = (handed.map (.intercept stage)).map some := by
  have hdeed : Deed s _ (s.setOut stage name) := .walk s stage name
  have hset : Course Anything s (s.setOut stage name) := .deed hdeed trivial
  rcases h.calls hE with ⟨handed, hprefix, hcalls⟩
  refine ⟨handed, hprefix, ?_⟩
  rw [hset.since_followedBy (h.course hE), buildCalls_append hset.nested, buildCalls_deed hdeed,
    hcalls, List.nil_append]

-- The calls up to the end of the factory.
theorem Offers.calls_make {answer : Except Failure (Object H.Content)}
    (h : Offers E name entries d s (.ok copy) t) (hmake : E.Produces name copy t answer u) :
    buildCalls (since s u)
      = ((entries.map ChainEntry.name).map BuildCall.merge ++ [BuildCall.make]).map some := by
  rcases h.calls hE with ⟨offered, _, hcalls, hall⟩
  rw [(h.course hE).since_followedBy (hmake.course hE), buildCalls_append (h.course hE).nested,
    hcalls, hall copy rfl, hmake.calls hE, List.map_append]
  rfl

-- The object of the factory becomes the target without a call.
theorem Offers.calls_bear {object : Object H.Content} (hname : name ∈ s.container.inCreation)
    (h : Offers E name entries d s (.ok copy) t) (hmake : E.Produces name copy t (.ok object) u) :
    buildCalls (since s (u.bear name object))
      = ((entries.map ChainEntry.name).map BuildCall.merge ++ [BuildCall.make]).map some := by
  have hsu : Course Anything s u := (h.course hE).followedBy (hmake.course hE)
  have hdeed : Deed u _ (u.bear name object) := .make object (hsu.inCreation_eq ▸ hname)
  have hborne : Course Anything u (u.bear name object) := .deed hdeed trivial
  rw [hsu.since_followedBy hborne, buildCalls_append hsu.nested, h.calls_make hE hmake,
    buildCalls_deed hdeed, List.append_nil]

/-- The calls of a build come in the order of its steps. -/
theorem Pipeline.calls {result : Except Error (Built H)}
    (hname : name ∈ s.container.inCreation) (h : Pipeline E entries name d s result t) :
    ∃ schedule, Schedule (entries.map ChainEntry.name) schedule ∧
      buildCalls (since s t) = schedule.map some := by
  cases h with
  | unmerged hoffers =>
      rcases hoffers.calls hE with ⟨offered, hprefix, hcalls, _⟩
      exact ⟨_, .offering hprefix, hcalls⟩
  | unmade hoffers hmake => exact ⟨_, .making, hoffers.calls_make hE hmake⟩
  | unready hoffers hmake hbefore =>
      have hborne := hoffers.borne hE hname hmake
      rcases hbefore.calls_setOut hE with ⟨before, hprefix, hhanded⟩
      refine ⟨_, .preparing hprefix, ?_⟩
      rw [hborne.since_followedBy (hbefore.course_setOut hE), buildCalls_append hborne.nested,
        hoffers.calls_bear hE hname hmake, hhanded, ← List.map_append]
  | walked hoffers hmake hbefore hafter =>
      have hborne := hoffers.borne hE hname hmake
      have hready := hborne.followedBy (hbefore.course_setOut hE)
      rcases hbefore.calls_setOut hE with ⟨before, hprefix, hhanded⟩
      rcases hafter.calls_setOut hE with ⟨after, hprefix', hhanded'⟩
      refine ⟨_, .finishing hprefix hprefix', ?_⟩
      rw [hready.since_followedBy (hafter.course_setOut hE), buildCalls_append hready.nested,
        hborne.since_followedBy (hbefore.course_setOut hE), buildCalls_append hborne.nested,
        hoffers.calls_bear hE hname hmake, hhanded, hhanded', ← List.map_append,
        ← List.map_append]

end Calls

/-- If nothing is installed on a way, the chain is the same at each moment of it. -/
theorem Course.chain_between {s t u : State H} (hsu : Course Anything s u)
    (hut : Course Anything u t) (hstill : installs (since s t) = []) :
    u.container.chain.entries = s.container.chain.entries := by
  rw [hsu.since_followedBy hut, installs_append, List.append_eq_nil_iff] at hstill
  rw [hsu.chain_eq hstill.1]

namespace Engine

variable {E : Engine H}

/-- The steps of a build that installs nothing are a pipeline. -/
theorem run_construct_iff (hE : E.Lawful) {s t : State H} {name : String}
    {d : Definition H.Factory} {result : Except Error (Built H)}
    (hname : name ∈ s.container.inCreation) (hstill : installs (since s t) = []) :
    (E.construct name d).run s = some (result, t) ↔
      Pipeline E s.container.chain.entries name d s result t := by
  constructor
  · intro h
    rcases Attempt.run_bind_eq_some_iff.1 h with ⟨_, herror, _⟩ | ⟨k, _, hlook, hrest⟩
    · cases herror
    cases hlook
    rcases Attempt.run_bind_eq_some_iff.1 hrest with ⟨e, herror, rfl⟩ | ⟨copy, u, hcopy, hrest⟩
    · exact .unmerged (run_mergeThrough_iff.1 herror)
    have hoffers := run_mergeThrough_iff.1 hcopy
    rcases Attempt.run_bind_eq_some_iff.1 hrest with ⟨_, herror, _⟩ | ⟨answer, v, hanswer, hrest⟩
    · rcases Attempt.run_step_eq_some_iff.1 herror with ⟨_, _, hcontra⟩
      cases hcontra
    have hmake := run_make_iff.1 (Attempt.run_step_eq_ok_iff.1 hanswer)
    match answer with
    | .error failure =>
      cases hrest
      exact .unmade hoffers hmake
    | .ok object =>
      have hborne := hoffers.borne hE hname hmake
      rcases run_finish_built_iff.1 hrest with ⟨last, hfinish, rfl⟩
      rcases Attempt.run_bind_eq_some_iff.1 (run_finish_walks hfinish) with
        ⟨e, herror, rfl⟩ | ⟨next, w, hnext, hlast⟩
      · have hbefore := run_walk_iff.1 herror
        rw [hborne.chain_between (hbefore.course_setOut hE) hstill] at hbefore
        exact .unready hoffers hmake hbefore
      · have hbefore := run_walk_iff.1 hnext
        have hafter := run_walk_iff.1 hlast
        have hrest := (hbefore.course_setOut hE).followedBy (hafter.course_setOut hE)
        rw [(hborne.followedBy (hbefore.course_setOut hE)).chain_between (hafter.course_setOut hE)
          hstill] at hafter
        rw [hborne.chain_between hrest hstill] at hbefore
        exact .walked hoffers hmake hbefore hafter
  · intro h
    -- Each step is run in turn; the walks find the chain that the build began with.
    refine Attempt.run_bind_eq_some_iff.2 (Or.inr ⟨s.container, s, rfl, ?_⟩)
    cases h with
    | unmerged hoffers =>
        exact Attempt.run_bind_eq_some_iff.2
          (Or.inl ⟨_, run_mergeThrough_iff.2 hoffers, rfl⟩)
    | unmade hoffers hmake =>
        refine Attempt.run_bind_eq_some_iff.2 (Or.inr ⟨_, _, run_mergeThrough_iff.2 hoffers, ?_⟩)
        exact Attempt.run_bind_eq_some_iff.2
          (Or.inr ⟨_, _, Attempt.run_step_eq_ok_iff.2 (run_make_iff.2 hmake), rfl⟩)
    | unready hoffers hmake hbefore =>
        refine Attempt.run_bind_eq_some_iff.2 (Or.inr ⟨_, _, run_mergeThrough_iff.2 hoffers, ?_⟩)
        refine Attempt.run_bind_eq_some_iff.2
          (Or.inr ⟨_, _, Attempt.run_step_eq_ok_iff.2 (run_make_iff.2 hmake), ?_⟩)
        rw [← (hoffers.borne hE hname hmake).chain_between (hbefore.course_setOut hE) hstill]
          at hbefore
        exact run_finish_built_iff.2 ⟨_, run_finish_of_walks (Attempt.run_bind_eq_some_iff.2
          (Or.inl ⟨_, run_walk_iff.2 hbefore, rfl⟩)), rfl⟩
    | walked hoffers hmake hbefore hafter =>
        refine Attempt.run_bind_eq_some_iff.2 (Or.inr ⟨_, _, run_mergeThrough_iff.2 hoffers, ?_⟩)
        refine Attempt.run_bind_eq_some_iff.2
          (Or.inr ⟨_, _, Attempt.run_step_eq_ok_iff.2 (run_make_iff.2 hmake), ?_⟩)
        have hborne := hoffers.borne hE hname hmake
        rw [← (hborne.followedBy (hbefore.course_setOut hE)).chain_between
          (hafter.course_setOut hE) hstill] at hafter
        rw [← hborne.chain_between
          ((hbefore.course_setOut hE).followedBy (hafter.course_setOut hE)) hstill] at hbefore
        exact run_finish_built_iff.2 ⟨_, run_finish_of_walks (Attempt.run_bind_eq_some_iff.2
          (Or.inr ⟨_, _, run_walk_iff.2 hbefore, run_walk_iff.2 hafter⟩)), rfl⟩

/-- A request for an object that is not kept takes the steps of a build if the build may begin. -/
theorem run_getOrBuild_construct {s : State H} {name : String} {d : Definition H.Factory}
    (hkept : s.container.singletons.get? name = none)
    (hd : s.container.definitions.get? name = some d) (hconcrete : d.isAbstract = false)
    (hidle : name ∉ s.container.inCreation) :
    (E.getOrBuild name).run s = ((E.construct name d).run (s.begin name)).map fun r =>
      (r.1.map Built.object, r.2.conclude name r.1) := by
  have hbegins : s.container.beginCreation name
      = .ok { s.container with inCreation := s.container.inCreation ++ [name] } := if_neg hidle
  rw [run_getOrBuild_apply, run_obtain_apply, State.note_container]
  simp only [hkept, Container.definition, hd, hconcrete, Bool.false_eq_true, if_false,
    run_build_apply, State.note_container, hbegins]
  rw [Option.map_map]
  rfl

end Engine

-- What is written down from a request to its answer, with a build in between.
theorem since_conclude {s u : State H} {name : String} {result : Except Error (Built H)}
    (h : Course Anything (s.begin name) u) :
    since s (u.conclude name result) = .requested name ::
      since (s.begin name) u ++ [.answered name (result.map Built.object).toOption] := by
  have hbegun : since s (s.begin name) = [.requested name] :=
    since_of_log (show (s.begin name).log = [.requested name] ++ s.log from rfl)
  have hended : since (s.begin name) (u.conclude name result)
      = since (s.begin name) u ++ [.answered name (result.map Built.object).toOption] :=
    since_note h.log_suffix _
  rw [since_append (List.suffix_cons _ _) (h.log_suffix.trans (List.suffix_cons _ _)), hbegun,
    hended]
  rfl

/-- Let an object be asked for that is registered, is not kept, and may be built, and let nothing be
    stored and nothing be installed until the request is answered. Then the request comes to what
    the pipeline of the registered definition comes to with the hooks of the chain, and it comes to
    something whenever the pipeline does. Each call of the pipeline is a run of the program of the
    hook or of the factory. When it is over, an object is kept if what the hooks have made of the
    copy is the definition of a singleton. The definitions are the same afterwards. -/
theorem build_pipeline (behaviour : Behaviour H) (facade : Facade) (depth : Nat) {s t : State H}
    {name : String} {d : Definition H.Factory} {result : Except Error (Object H.Content)}
    (hkept : s.container.singletons.get? name = none)
    (hd : s.container.definitions.get? name = some d) (hconcrete : d.isAbstract = false)
    (hidle : name ∉ s.container.inCreation) (hnone : stores (since s t) = [])
    (hstill : installs (since s t) = []) :
    (((Engine.ofDepth behaviour facade depth).getOrBuild name).run s = some (result, t) ↔
      ∃ built u, Pipeline (Engine.ofDepth behaviour facade depth) s.container.chain.entries name d
          (s.begin name) built u ∧
        result = built.map Built.object ∧ t = u.conclude name built) ∧
    (((Engine.ofDepth behaviour facade depth).getOrBuild name).run s = some (result, t) →
      (∃ schedule, Schedule s.container.chain.names schedule ∧
        buildCalls (since s t) = schedule.map some) ∧
      t.container.definitions.get? name = some d ∧
      ∀ other, t.container.definitions.get? other = s.container.definitions.get? other) := by
  have hE : (Engine.ofDepth behaviour facade depth).Lawful :=
    Engine.lawful_ofDepth behaviour facade depth
  have hname : name ∈ (s.begin name).container.inCreation :=
    List.mem_append_right _ (List.mem_singleton_self name)
  refine ⟨?_, fun hrun => ?_⟩
  · rw [Engine.run_getOrBuild_construct hkept hd hconcrete hidle, Option.map_eq_some_iff]
    constructor
    · rintro ⟨⟨built, u⟩, hconstruct, hend⟩
      cases hend
      have hcourse := Engine.construct_follows hE (fun _ _ => trivial) hname hconstruct
      rw [since_conclude hcourse, installs_between rfl rfl] at hstill
      exact ⟨built, u, (Engine.run_construct_iff hE hname hstill).1 hconstruct, rfl, rfl⟩
    · rintro ⟨built, u, hpipeline, rfl, rfl⟩
      rw [since_conclude (hpipeline.course hE hname), installs_between rfl rfl] at hstill
      exact ⟨(built, u), (Engine.run_construct_iff hE hname hstill).2 hpipeline, rfl⟩
  · have hcourse : Course Anything s t :=
      Engine.getOrBuild_follows hE (fun _ _ => trivial) name _ _ _ hrun
    refine ⟨?_, hcourse.definition_kept hnone hd, hcourse.definitions_kept hnone⟩
    rw [Engine.run_getOrBuild_construct hkept hd hconcrete hidle, Option.map_eq_some_iff] at hrun
    rcases hrun with ⟨⟨built, u⟩, hconstruct, hend⟩
    cases hend
    have hsteps := Engine.construct_follows hE (fun _ _ => trivial) hname hconstruct
    rw [since_conclude hsteps, installs_between rfl rfl] at hstill
    rcases ((Engine.run_construct_iff hE hname hstill).1 hconstruct).calls hE hname with
      ⟨schedule, hschedule, hcalls⟩
    refine ⟨schedule, hschedule, ?_⟩
    have hasked : (Activity.requested (H := H) name).IsRemark := trivial
    rw [since_conclude hsteps, List.cons_append, ← List.singleton_append,
      buildCalls_append (.remark hasked), buildCalls_append hsteps.nested, hcalls]
    exact List.append_nil _

namespace Scenarios

/-- The marks that a copy has gathered. -/
def marks (d : Definition Bool) : String := (d.properties.get? "marks").getD ""

/-- As `behaviour`, except that each hook leaves a mark in the copy that it is offered, and that
    what a factory makes tells whether the copy has marks. A stopper makes a prototype of the copy,
    and it keeps an object from all further hooks before its initialization. A wrapper wraps it
    behind that. -/
def marking : Behaviour host := { Scenarios.behaviour with
  make := fun _ copy => .done (.ok (decide (marks copy ≠ "")))
  merge := fun stops _ d => do
    let marked := d.withDetails (d.setProperty "marks" (marks d ++ if stops then "s" else "w"))
    return .ok (if stops then { marked with scope := .prototype } else marked)
  intercept := fun stage stops object _ =>
    match stage with
    | .before => return .ok (if stops then none else some object)
    | .after => do
      if stops then return .ok (some object)
      return .ok (some (← Prog.request (.create "wrapped" false))) }

def markers : Engine host := Engine.ofDepth marking .direct 3

/-- A registry with two wrappers and a stopper between them. -/
def threeHooks : State host :=
  (stateOf [service]).withContainer { (stateOf [service]).container with
    chain := ⟨[⟨"firstWrapper", .object ⟨"wrapper", 100, .hosted false⟩⟩,
      ⟨"stopper", .object ⟨"stopper", 101, .hosted true⟩⟩,
      ⟨"secondWrapper", .object ⟨"wrapper", 102, .hosted false⟩⟩]⟩ }

/-- What is handed over in a call of a build: the marks of the copy, or the object with a sign of
    what it holds. -/
def handedOver : EntryPoint host → String
  | .merge _ _ d => marks d
  | .make _ d => marks d
  | .intercept _ _ ⟨typeName, _, .hosted content⟩ _ => typeName ++ if content then "+" else "-"
  | _ => ""

theorem report_of_threeHooks : ((markers.getOrBuild "service").run threeHooks).map (fun r =>
    ((answer? (some r)).map Object.typeName, (stores (since threeHooks r.2)).map Prod.fst,
      installs (since threeHooks r.2), (calls (since threeHooks r.2)).map handedOver,
      r.2.container.singletons.names))
      = some (some "wrapped", [], [],
        ["", "w", "ws", "wsw", "service+", "service+", "service+", "wrapped-", "wrapped-"],
        []) := by
  decide +kernel

/-- The marks gather from hook to hook, and what the factory makes of them is what the first walk
    sets out with. The stopper ends that walk but not the second one, and it has seen to it that the
    object is not kept. -/
theorem marks_through_pipeline : ∃ (object : Object Bool) (built : Except Error (Built host))
    (t u : State host),
    (markers.getOrBuild "service").run threeHooks = some (.ok object, t) ∧
    object.typeName = "wrapped" ∧
    Pipeline markers threeHooks.container.chain.entries "service" service
      (threeHooks.begin "service") built u ∧
    t = u.conclude "service" built ∧
    (calls (since threeHooks t)).map handedOver
      = ["", "w", "ws", "wsw", "service+", "service+", "service+", "wrapped-", "wrapped-"] ∧
    t.container.definitions.get? "service" = some service ∧ service.isSingleton = true ∧
    t.container.singletons.names = [] := by
  rcases Option.map_eq_some_iff.1 report_of_threeHooks with ⟨⟨result, t⟩, hrun, hreport⟩
  simp only [Prod.mk.injEq, List.map_eq_nil_iff] at hreport
  rcases hreport with ⟨hobject, hnone, hstill, hhanded, hkept⟩
  rcases Option.map_eq_some_iff.1 hobject with ⟨object, hanswer, htype⟩
  rcases exists_of_answer? hanswer with ⟨t', ht'⟩
  cases ht'
  have hservice : threeHooks.container.definitions.get? "service" = some service := rfl
  rcases build_pipeline marking .direct 3 rfl hservice rfl List.not_mem_nil hnone hstill with
    ⟨hpipeline, hafter⟩
  rcases hpipeline.1 hrun with ⟨built, u, hsteps, _, hend⟩
  exact ⟨object, built, t, u, hrun, htype, hsteps, hend, hhanded, (hafter hrun).2.1, rfl, hkept⟩

end Scenarios

end ObjectBootstrap
