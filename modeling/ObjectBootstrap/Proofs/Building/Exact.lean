import Mathlib.Data.List.Nodup
import ObjectBootstrap.Proofs.Building.Growth

/-!
# Builds are exact

In a wired container a request for an object is a search that goes depth first. What the search has
finished are the singletons that are kept, and what it is in the middle of are the names that are
under way. Names that stand for ever new objects leave no trace and are searched again.

Each nested build puts a name under way that was not, so builds lie inside of one another at most as
deep as there are names, and the search comes to an end. `Outcome` says what it comes to. When it
succeeds the cache has grown by what was needed. When it fails, then because of a fault that can be
reached, or because it came back to a name that is under way. At the outermost request nothing is
under way, so only the fault remains.

## Main definitions

* `pending`: The number of names whose builds could still begin.
* `Refusal`: Why the object of a name is not built, and what is reported of a cycle.
* `Outcome`: What a request for an object comes to.
* `Engine.Concludes`: The engine is deep enough for the names that are pending.

## Theorems

* `Refusal.outward`: What a dependency is refused for goes for the name itself.
* `Prog.Resolves.outcome`: Factories come to an end if the requests that they make do.
* `Engine.concludes_ofDepth`: So does every request, if the engine is deep enough.
* `getOrBuild_exact`: What a request for an object comes to when nothing is under way.
-/

namespace ObjectBootstrap

variable {H : Host} {α : Type}

/-- The number of names whose builds could still begin. -/
def pending (k : Container H) : Nat :=
  (k.definitions.names.filter fun name => !k.inCreation.contains name).length

/-- Why the object of a name is not built. A cycle is reported as the way that leads into it. -/
structure Refusal (deps : String → List String) (k : Container H) (name : String) (e : Error) :
    Prop where
  unkept : k.singletons.get? name = none
  /-- There is a fault that can be reached, or a name that is under way already. -/
  reason : Faulty deps k name ∨
    ∃ first ∈ k.inCreation, Relation.ReflTransGen (DependsOn deps k) name first
  circle : ∀ path, e = .circularDependency path →
    (∃ rest, path = k.inCreation ++ name :: rest ∧ List.IsChain (DependsOn deps k) (name :: rest)) ∧
      ∃ front last, path = front ++ [last] ∧ front.count last = 1

/-- What a request for the object of a name comes to. -/
inductive Outcome (deps : String → List String) (s : State H) (name : String) :
    Except Error (Object H.Content) → State H → Prop
  | ok {object : Object H.Content} {t : State H} : Growth deps s t → Resolved deps s t name →
    Outcome deps s name (.ok object) t
  | error {e : Error} {t : State H} : Refusal deps s.container name e →
    Outcome deps s name (.error e) t

/-- What obtaining the object of a name comes to, apart from what is written down of the request. -/
inductive Completion (deps : String → List String) (s : State H) (name : String) :
    Except Error (Object H.Content) → State H → Prop
  | ok {object : Object H.Content} {t : State H} : Growth deps s t →
    Buildable deps s.container name → Done deps t.container name →
    Completion deps s name (.ok object) t
  | error {e : Error} {t : State H} : Refusal deps s.container name e →
    Completion deps s name (.error e) t

/-- What the requests for the objects of some names in turn come to. -/
inductive Resolution (deps : String → List String) (s : State H) (names : List String) :
    Except Failure α → State H → Prop
  | ok {result : α} {t : State H} : Growth deps s t →
    (∀ name ∈ names, Resolved deps s t name) → Resolution deps s names (.ok result) t
  | error {failure : Failure} {e : Error} {name : String} {t : State H} :
    failure.error? = some e → name ∈ names → Refusal deps s.container name e →
    Resolution deps s names (.error failure) t

variable {deps : String → List String} {k k' : Container H} {name : String} {e : Error}

-- A name that begins to be built is not pending anymore.
theorem pending_lt (hname : (k.definitions.get? name).isSome = true)
    (hnew : name ∉ k.inCreation) : pending (k.begun name) < pending k := by
  have hfewer := Placeholder.length_filter_lt ((k.definitions.get?_isSome_iff name).1 hname) hnew
  have hsame : ∀ n, (k.inCreation ++ [name]).contains n = (name :: k.inCreation).contains n := by
    intro n
    rw [Bool.eq_iff_iff, List.contains_iff_mem, List.contains_iff_mem, List.mem_append,
      List.mem_singleton, List.mem_cons, or_comm]
  change (k.definitions.names.filter fun n => !(k.inCreation ++ [name]).contains n).length < _
  simp only [hsame]
  exact hfewer

theorem Faulty.head {next : String} (hname : k.singletons.get? name = none)
    (hnext : next ∈ deps name) (h : Faulty deps k next) : Faulty deps k name := by
  rcases h with ⟨last, hlast, hfault⟩
  exact ⟨last, hlast.head hname hnext, hfault⟩

namespace Refusal

/-- What a name is refused for with a larger cache it is refused for with the smaller one. -/
theorem mono (h : Refusal deps k' name e)
    (hkeeps : ∀ n, k'.singletons.get? n = none → k.singletons.get? n = none)
    (hdefinitions : k'.definitions = k.definitions) (hcreation : k'.inCreation = k.inCreation) :
    Refusal deps k name e := by
  refine ⟨hkeeps name h.unkept, ?_, ?_⟩
  · refine h.reason.imp (fun hfaulty => hfaulty.mono hkeeps hdefinitions) ?_
    rintro ⟨first, hfirst, hpath⟩
    exact ⟨first, hcreation ▸ hfirst, Relation.ReflTransGen.mono (DependsOn.mono hkeeps) _ _ hpath⟩
  · intro path hpath
    rcases h.circle path hpath with ⟨⟨rest, hrest, hchain⟩, hlast⟩
    exact ⟨⟨rest, hcreation ▸ hrest, hchain.imp fun a b => DependsOn.mono hkeeps a b⟩, hlast⟩

/-- What a dependency is refused for goes for the name itself. If the way led back to the name, the
    name lies on a cycle. -/
theorem outward {next : String} (hname : k.singletons.get? name = none)
    (hnext : next ∈ deps name)
    (h : Refusal deps (k.begun name) next e) :
    Refusal deps k name e := by
  have hstep : DependsOn deps k name next := ⟨hnext, h.unkept⟩
  refine ⟨hname, ?_, ?_⟩
  · rcases h.reason with hfaulty | ⟨first, hfirst, hpath⟩
    · exact Or.inl ((hfaulty.mono (fun _ hunkept => hunkept) rfl).head hname hnext)
    · rcases List.mem_append.1 hfirst with hfirst | hfirst
      · exact Or.inr ⟨first, hfirst, .head hstep hpath⟩
      · rw [List.mem_singleton.1 hfirst] at hpath
        exact Or.inl ⟨name, .refl hname, Or.inr (.head' hstep hpath)⟩
  · intro path hpath
    rcases h.circle path hpath with ⟨⟨rest, hrest, hchain⟩, hlast⟩
    refine ⟨⟨next :: rest, ?_, List.isChain_cons_cons.2 ⟨hstep, hchain⟩⟩, hlast⟩
    exact hrest.trans (List.append_assoc k.inCreation [name] (next :: rest))

-- A name whose definition cannot be built is refused.
theorem of_not_concrete (hname : k.singletons.get? name = none) (hconcrete : ¬k.Concrete name)
    (n message : String) : Refusal deps k name (.definition n message) := by
  refine ⟨hname, Or.inl ⟨name, .refl hname, Or.inl hconcrete⟩, ?_⟩
  intro path hpath
  cases hpath

-- A name that is under way is refused, and it stands in front of itself once.
theorem of_underway (hname : k.singletons.get? name = none) (hunderway : name ∈ k.inCreation)
    (hnodup : k.inCreation.Nodup) :
    Refusal deps k name (.circularDependency (k.inCreation ++ [name])) := by
  refine ⟨hname, Or.inr ⟨name, hunderway, .refl⟩, ?_⟩
  intro path hpath
  cases hpath
  exact ⟨⟨[], rfl, List.isChain_singleton name⟩, k.inCreation, name, rfl,
    List.count_eq_one_of_mem hnodup hunderway⟩

end Refusal

/-- A state in which builds of a wired container may begin. -/
structure Ready (behaviour : Behaviour H) (deps : String → List String) (depth : Nat)
    (s : State H) : Prop where
  wired : Wired behaviour deps s.container
  nodup : s.container.inCreation.Nodup
  depth_le : pending s.container ≤ depth

theorem Ready.of_growth {behaviour : Behaviour H} {depth : Nat} {s t : State H}
    (hs : Ready behaviour deps depth s) (h : Growth deps s t) : Ready behaviour deps depth t := by
  refine ⟨hs.wired.congr h.definitions_eq h.chain_eq, h.inCreation_eq ▸ hs.nodup, ?_⟩
  unfold pending
  rw [h.definitions_eq, h.inCreation_eq]
  exact hs.depth_le

-- What requests come to seen from an earlier state.
theorem Resolution.earlier {s t u : State H} {names : List String} {result : Except Failure α}
    (h : Resolution deps t names result u) (hst : Growth deps s t) :
    Resolution deps s names result u := by
  cases h with
  | ok htu hnames =>
      exact .ok (hst.trans htu) fun name hname => (hnames name hname).earlier hst htu.log_suffix
  | error he hname hrefusal =>
      exact .error he hname (hrefusal.mono hst.unkept hst.definitions_eq hst.inCreation_eq)

-- The build of a name that may begin takes one name from those that are pending.
theorem Ready.begun {behaviour : Behaviour H} {depth : Nat} {s : State H}
    (hs : Ready behaviour deps (depth + 1) s)
    (hname : (s.container.definitions.get? name).isSome = true)
    (habsent : name ∉ s.container.inCreation) :
    Ready behaviour deps depth (s.withContainer (s.container.begun name)) := by
  refine ⟨hs.wired.congr rfl rfl, ?_, ?_⟩
  · have hmore := hs.nodup.concat habsent
    rwa [List.concat_eq_append] at hmore
  · exact Nat.le_of_lt_succ (Nat.lt_of_lt_of_le (pending_lt hname habsent) hs.depth_le)

/-- Requests come to an end as long as not more than so many names are pending. -/
def Engine.Concludes (E : Engine H) (behaviour : Behaviour H) (deps : String → List String)
    (depth : Nat) : Prop :=
  ∀ s name, Ready behaviour deps depth s →
    ∃ result t, (E.getOrBuild name).run s = some (result, t) ∧ Outcome deps s name result t

/-- A factory comes to an end if the requests that it makes do. -/
theorem Prog.Resolves.outcome {E : Engine H} {behaviour : Behaviour H} {depth : Nat}
    (hE : E.Concludes behaviour deps depth) (shown : Facade) {names : List String}
    {p : Prog H (Except Failure α)} (hp : p.Resolves names) :
    ∀ s, Ready behaviour deps depth s → ∃ result t,
      p.interpret (E.answer shown) s = some (result, t) ∧ Resolution deps s names result t := by
  induction hp with
  | done result =>
      intro s _
      exact ⟨_, s, rfl, .ok (.refl s) fun name h => absurd h List.not_mem_nil⟩
  | ask hrequest _ ih =>
      intro s hs
      rcases hrequest.answer E shown s with ⟨reply, u, hanswer, hcontainer, hlog⟩
      have hsu : Growth deps s u := (Passing.of_eq hcontainer hlog).growth
      rcases ih reply u (hs.of_growth hsu) with ⟨result, t, hrun, hresolution⟩
      exact ⟨result, t, Run.bind_eq_some_iff.2 ⟨reply, u, hanswer, hrun⟩, hresolution.earlier hsu⟩
  | @resolve name names next _ hfails ih =>
      intro s hs
      rcases hE s name hs with ⟨answer, u, hget, houtcome⟩
      cases houtcome with
      | @ok object _ hsu hname =>
          rcases ih object u (hs.of_growth hsu) with ⟨result, t, hrun, hresolution⟩
          refine ⟨result, t, Run.bind_eq_some_iff.2 ⟨_, u, hget, hrun⟩, ?_⟩
          cases hresolution with
          | ok hut hnames =>
              refine .ok (hsu.trans hut) fun n hn => ?_
              rcases List.mem_cons.1 hn with rfl | hn
              · exact hname.later hsu.log_suffix hut
              · exact (hnames n hn).earlier hsu hut.log_suffix
          | error he hn hrefusal =>
              exact .error he (List.mem_cons_of_mem _ hn)
                (hrefusal.mono hsu.unkept hsu.definitions_eq hsu.inCreation_eq)
      | @error e _ hrefusal =>
          -- Whatever the factory does with the error, it ends up passing it on.
          rcases (hfails e).run E shown u with ⟨_, t, hrun, ⟨failure, rfl, he⟩, _, _⟩
          exact ⟨_, t, Run.bind_eq_some_iff.2 ⟨_, u, hget, hrun⟩,
            .error he List.mem_cons_self hrefusal⟩

namespace Engine

variable {behaviour : Behaviour H} {facade : Facade} {depth : Nat}

theorem answering_ofDepth : (ofDepth behaviour facade (depth + 1)).Answering :=
  ⟨ofDepth behaviour facade depth, fun _ _ => rfl⟩

/-- The factory of a definition comes to an end, and to an object unless a dependency is refused. -/
theorem make_outcome
    (hE : (ofDepth behaviour facade depth).Concludes behaviour deps depth)
    {u : State H} (hu : Ready behaviour deps depth u) {d : Definition H.Factory}
    {copy : Definition H.Factory} (hd : u.container.definitions.get? name = some d)
    (hedited : d.EditedTo copy) :
    ∃ result v, (ofDepth behaviour facade (depth + 1)).make name copy u
        = some (result, v.note (.left (.make name copy) (failure? result))) ∧
      Resolution deps (u.note (.entered (.make name copy))) (deps name) result v := by
  have hresolves := hu.wired.resolves name d copy hd hedited
  have hcalled : Ready behaviour deps depth (u.note (.entered (.make name copy))) :=
    ⟨hu.wired, hu.nodup, hu.depth_le⟩
  have hcreated : ∀ v : State H, Growth deps v { v with created := v.created + 1 } := by
    intro v
    have hpass : Passing v { v with created := v.created + 1 } := .of_eq rfl rfl
    exact hpass.growth
  cases hmaker : copy.maker with
  | placeholderConfigurer =>
      rw [hmaker] at hresolves
      refine ⟨.ok ⟨copy.typeName, u.created, .placeholderConfigurer⟩, _,
        run_enter_eq_some_iff.2 ⟨_, ?_, rfl⟩, .ok (hcreated _) ?_⟩
      · rw [hmaker]
        rfl
      · intro next hnext
        rw [hresolves] at hnext
        exact absurd hnext List.not_mem_nil
  | hosted factory =>
      rw [hmaker] at hresolves
      rcases hresolves.outcome hE Facade.direct _ hcalled with ⟨answer, v, hrun, hresolution⟩
      cases hresolution with
      | error he hnext hrefusal =>
          refine ⟨_, v, run_enter_eq_some_iff.2 ⟨v, ?_, rfl⟩, .error he hnext hrefusal⟩
          rw [hmaker]
          exact Run.bind_eq_some_iff.2 ⟨_, v, hrun, rfl⟩
      | @ok content _ hgrowth hnexts =>
          refine ⟨.ok ⟨copy.typeName, v.created, .hosted content⟩, _,
            run_enter_eq_some_iff.2 ⟨{ v with created := v.created + 1 }, ?_, rfl⟩,
            .ok (hgrowth.trans (hcreated v))
              fun next hnext => (hnexts next hnext).later hgrowth.log_suffix (hcreated v)⟩
          rw [hmaker]
          exact Run.bind_eq_some_iff.2 ⟨_, v, hrun, rfl⟩

-- What a build comes to that may begin.
theorem build_outcome
    (hE : (ofDepth behaviour facade depth).Concludes behaviour deps depth)
    {s : State H} (hs : Ready behaviour deps (depth + 1) s) {d : Definition H.Factory}
    (hunkept : s.container.singletons.get? name = none)
    (hd : s.container.definitions.get? name = some d) (hconcrete : d.isAbstract = false)
    (habsent : name ∉ s.container.inCreation) :
    ∃ result t, ((ofDepth behaviour facade (depth + 1)).build name d).run s = some (result, t) ∧
      Completion deps s name result t := by
  have hbegins : s.container.beginCreation name = .ok (s.container.begun name) := if_neg habsent
  have hanswering : (ofDepth behaviour facade (depth + 1)).Answering := answering_ofDepth
  rcases construct_passes hanswering name d (s.withContainer (s.container.begun name))
    hs.wired.passes with ⟨copy, u, hedited, hsu, herror, hok⟩
  have hcontainer := hsu.container_eq
  have hu : Ready behaviour deps depth u :=
    (hs.begun (Option.isSome_of_eq_some hd) habsent).of_growth hsu.growth
  have hdu : u.container.definitions.get? name = some d := by
    rw [hcontainer]
    exact hd
  rcases make_outcome hE hu hdu hedited with ⟨result, v, hmake, hresolution⟩
  cases hresolution with
  | @error failure e next _ he hnext hrefusal =>
      have hrun := herror failure _ hmake
      rw [makeError, he, Option.getD_some] at hrun
      have hbuild : ∃ t, ((ofDepth behaviour facade (depth + 1)).build name d).run s
          = some (.error e, t) := by
        rw [run_build_apply, hbegins]
        exact ⟨_, Option.map_eq_some_iff.2 ⟨_, hrun, rfl⟩⟩
      rcases hbuild with ⟨t, ht⟩
      refine ⟨.error e, t, ht, .error (Refusal.outward hunkept hnext ?_)⟩
      rw [State.note_container, hcontainer] at hrefusal
      exact hrefusal
  | @ok object _ hgrowth hnexts =>
      have hchain : v.container.chain = s.container.chain := by
        refine hgrowth.chain_eq.trans ?_
        rw [State.note_container, hcontainer]
        rfl
      rcases hok object _ hmake hchain with ⟨w, hrun, hvw⟩
      have hstages : Stages deps s name d copy object u v w :=
        ⟨hd, hconcrete, hunkept, habsent, hedited, hsu, hgrowth, hnexts, hvw⟩
      refine ⟨.ok object, _, ?_, .ok hstages.growth hstages.buildable hstages.done⟩
      rw [run_build_apply, hbegins]
      exact Option.map_eq_some_iff.2 ⟨_, hrun, rfl⟩

/-- Obtaining an object comes to an end if a build does that may begin. -/
theorem obtain_outcome {E : Engine H} {s : State H} (hnodup : s.container.inCreation.Nodup)
    (hbuild : ∀ d, s.container.singletons.get? name = none →
      s.container.definitions.get? name = some d → d.isAbstract = false →
      name ∉ s.container.inCreation →
        ∃ result t, (E.build name d).run s = some (result, t) ∧
          Completion deps s name result t) :
    ∃ result t, (E.obtain name).run s = some (result, t) ∧ Completion deps s name result t := by
  rw [run_obtain_apply]
  cases hkept : s.container.singletons.get? name with
  | some object => exact ⟨_, s, rfl, .ok (.refl s) (.kept hkept) (.kept hkept)⟩
  | none =>
      cases hd : s.container.definitions.get? name with
      | none =>
          simp only [Container.definition, hd]
          refine ⟨_, s, rfl, .error (.of_not_concrete hkept ?_ _ _)⟩
          rintro ⟨d, hsome, _⟩
          rw [hd] at hsome
          cases hsome
      | some d =>
          simp only [Container.definition, hd]
          cases habstract : d.isAbstract with
          | true =>
              refine ⟨_, s, rfl, .error (.of_not_concrete hkept ?_ _ _)⟩
              rintro ⟨d', hsome, hconcrete⟩
              rw [hd, Option.some.injEq] at hsome
              rw [← hsome, habstract] at hconcrete
              cases hconcrete
          | false =>
              by_cases hunderway : name ∈ s.container.inCreation
              · -- The search has come back to a name that it is in the middle of.
                have hbegins : s.container.beginCreation name
                    = .error (.circularDependency (s.container.inCreation ++ [name])) :=
                  if_pos hunderway
                refine ⟨_, s, ?_, .error (.of_underway hkept hunderway hnodup)⟩
                rw [if_neg Bool.false_ne_true, run_build_apply, hbegins]
              · exact hbuild d hkept hd habstract hunderway

-- A request comes to what obtaining the object comes to, with its marks around it.
theorem getOrBuild_of_obtain {E : Engine H} {s : State H}
    (h : ∃ result u, (E.obtain name).run (s.note (.requested name)) = some (result, u) ∧
      Completion deps (s.note (.requested name)) name result u) :
    ∃ result t, (E.getOrBuild name).run s = some (result, t) ∧ Outcome deps s name result t := by
  rcases h with ⟨result, u, hrun, hcompletion⟩
  refine ⟨result, u.note (.answered name result.toOption), ?_, ?_⟩
  · rw [run_getOrBuild_apply, hrun]
    rfl
  · cases hcompletion with
    | @ok object _ hgrowth hbuildable hdone =>
        have hfirst : Growth deps s (s.note (.requested name)) :=
          ((Passing.refl s).note rfl).growth
        have hlast : Growth deps u (u.note (.answered name (some object))) :=
          ((Passing.refl u).note rfl).growth
        have hsu : Growth deps s u := hfirst.trans hgrowth
        refine .ok (hsu.trans hlast) ⟨hbuildable, hdone, object, ?_⟩
        rw [Except.toOption, since_note hsu.log_suffix]
        exact List.mem_append_right _ (List.mem_singleton_self _)
    | error hrefusal => exact .error hrefusal

/-- Every request in a wired container comes to an end, if the engine is deep enough for the names
    whose builds could still begin. -/
theorem concludes_ofDepth (depth : Nat) :
    (ofDepth behaviour facade depth).Concludes behaviour deps depth := by
  -- A build takes one level of depth for the programs that it runs, and one name from the pending.
  induction depth with
  | zero =>
      intro s name hs
      refine getOrBuild_of_obtain (obtain_outcome hs.nodup fun d _ hd _ habsent => ?_)
      have hfewer := pending_lt (Option.isSome_of_eq_some hd) habsent
      exact absurd (Nat.lt_of_lt_of_le hfewer hs.depth_le) (Nat.not_lt_zero _)
  | succ depth ih =>
      intro s name hs
      have hnoted : Ready behaviour deps (depth + 1) (s.note (.requested name)) :=
        ⟨hs.wired, hs.nodup, hs.depth_le⟩
      exact getOrBuild_of_obtain (obtain_outcome hs.nodup fun d hunkept hd hconcrete habsent =>
        build_outcome ih hnoted hunkept hd hconcrete habsent)

end Engine

/-- When nothing is under way in a wired container, a request for the object of a name always comes
    to an end. It succeeds exactly if every name that is reached from it, without passing through a
    singleton that is kept already, is registered and no template, and none of them lies on a cycle.

    If it succeeds, every singleton that was reached is kept, and its factory was called exactly
    once, a call that did not return before all its dependencies had been answered. And a cycle is
    reported as a path of dependencies that starts at the name and ends with a name that stands on
    it once before. -/
theorem getOrBuild_exact (behaviour : Behaviour H) (facade : Facade) (deps : String → List String)
    (depth : Nat) (s : State H) (name : String) (hwired : Wired behaviour deps s.container)
    (hidle : s.container.inCreation = []) (hdepth : s.container.definitions.size ≤ depth) :
    ∃ result t,
      ((Engine.ofDepth behaviour facade depth).getOrBuild name).run s = some (result, t) ∧
      ((∃ object, result = .ok object) ↔
        (∀ last, Reaches deps s.container name last → s.container.Concrete last) ∧
          ∀ last, Reaches deps s.container name last → ¬OnCycle deps s.container last) ∧
      ((∃ object, result = .ok object) → ∀ last d, Reaches deps s.container name last →
        s.container.definitions.get? last = some d → d.isSingleton = true →
          t.container.containsSingleton last = true ∧
          (factoryCalls (since s t)).count last = 1 ∧ BuiltUpon deps (since s t) last) ∧
      ∀ path, result = .error (.circularDependency path) →
        (Error.circularDependency path).message
            = "Circular dependency detected: " ++ " -> ".intercalate path ∧
          path.head? = some name ∧ path.IsChain (fun a b => b ∈ deps a) ∧
          ∃ front last, path = front ++ [last] ∧ front.count last = 1 := by
  have hready : Ready behaviour deps depth s := by
    refine ⟨hwired, hidle ▸ List.nodup_nil, ?_⟩
    refine (List.length_filter_le _ _).trans ?_
    rwa [NameTable.names, List.length_map]
  rcases Engine.concludes_ofDepth depth s name hready with ⟨result, t, hrun, houtcome⟩
  refine ⟨result, t, hrun, ?_⟩
  rw [← not_faulty_iff]
  cases houtcome with
  | @ok object _ hgrowth hresolved =>
      refine ⟨⟨fun _ => hresolved.buildable.not_faulty, fun _ => ⟨object, rfl⟩⟩, fun _ => ?_, ?_⟩
      · intro last d hlast hd hsingleton
        have hdone := hgrowth.reaches hresolved.done hlast
        rcases hdone.kept_of_singleton (hgrowth.definitions_eq ▸ hd) hsingleton with ⟨o, hkept⟩
        have hafter : t.container.containsSingleton last = true := Option.isSome_of_eq_some hkept
        have hbefore : s.container.containsSingleton last = false := by
          rw [Container.containsSingleton, NameTable.contains, hlast.unkept]
          rfl
        have hcalls := hgrowth.calls last d hd hsingleton
        rw [hbefore, hafter] at hcalls
        exact ⟨hafter, hcalls, (hgrowth.fresh last o hlast.unkept hkept).2⟩
      · intro path hpath
        cases hpath
  | @error e _ hrefusal =>
      -- Nothing was under way at the start, so there is a fault.
      have hfaulty : Faulty deps s.container name := by
        refine hrefusal.reason.resolve_right ?_
        rintro ⟨first, hfirst, _⟩
        rw [hidle] at hfirst
        exact absurd hfirst List.not_mem_nil
      refine ⟨⟨?_, fun hnot => absurd hfaulty hnot⟩, ?_, ?_⟩
      · rintro ⟨object, hok⟩
        cases hok
      · rintro ⟨object, hok⟩
        cases hok
      · intro path hpath
        cases hpath
        rcases hrefusal.circle path rfl with ⟨⟨rest, hrest, hchain⟩, hlast⟩
        rw [hidle, List.nil_append] at hrest
        refine ⟨rfl, ?_, ?_, hlast⟩
        · rw [hrest]
          rfl
        · rw [hrest]
          exact hchain.imp fun a b hstep => hstep.1

namespace WiringScenarios

-- A component needs others, which its factory asks for. An observer is handed whatever is made.
abbrev host : Host := ⟨Unit, List String, Unit⟩

def wiring : List (String × List String) :=
  [("root", ["left", "right"]), ("left", ["shared"]), ("right", ["shared"]), ("shared", []),
    ("cycleA", ["cycleB"]), ("cycleB", ["cycleA"])]

def needs (name : String) : List String := (wiring.lookup name).getD []

def component (name : String) (parts : List String) : Definition (List String) where
  name := name
  typeName := name
  maker := .hosted parts

def resolveEach : List String → Prog host (Except Failure Unit)
  | [] => .done (.ok ())
  | name :: rest => .ask (.getOrBuild name) fun
    | .ok _ => resolveEach rest
    | .error e => .done (.error (.registry e))

def behaviour : Behaviour host where
  make parts _ := resolveEach parts
  mutate _ := .done (.ok ())
  customize _ := .done (.ok ())
  merge _ _ d := .done (.ok d)
  intercept _ _ object _ := .done (.ok (some object))
  notify _ _ := .done ()

def components : State host where
  container := { Container.holding (wiring.map fun entry => component entry.1 entry.2) with
    chain := ⟨[⟨"observer", .object ⟨"observer", 0, .hosted ()⟩⟩]⟩ }
  store := ()

theorem resolveEach_resolves (parts : List String) : (resolveEach parts).Resolves parts := by
  induction parts with
  | nil => exact .done ()
  | cons name rest ih => exact .resolve (fun _ => ih) fun e => .done ⟨_, rfl, rfl⟩

-- The definition of a component is its entry in the wiring.
theorem eq_component {name : String} {d : Definition (List String)}
    (h : components.container.definitions.get? name = some d) :
    d = component name (needs name) := by
  have hall : ∀ wiring : List (String × List String),
      ((wiring.map fun entry => component entry.1 entry.2).map fun d => (d.name, d)).lookup name
        = (wiring.lookup name).map (component name) := by
    intro wiring
    induction wiring with
    | nil => rfl
    | cons entry rest ih =>
        rw [List.map_cons, List.map_cons, NameTable.lookup_entry, NameTable.lookup_entry, ih,
          component]
        split
        · rw [‹name = entry.1›]
          rfl
        · rfl
  rcases Option.map_eq_some_iff.1 ((hall wiring).symm.trans h) with ⟨parts, hparts, rfl⟩
  rw [needs, hparts, Option.getD_some]

theorem components_wired : Wired behaviour needs components.container := by
  refine ⟨?_, ?_⟩
  · intro name d copy h hedited
    rw [hedited.lastsAs.maker_eq, eq_component h]
    exact resolveEach_resolves (needs name)
  · intro entry h
    rw [List.mem_singleton.1 h]
    exact ⟨fun _ d => .done ⟨d, rfl, .refl d⟩, fun _ _ _ => .done rfl⟩

theorem diamond_succeeds :
    (((Engine.ofDepth behaviour .direct 6).getOrBuild "root").run components).map
      (fun r => r.1.toBool) = some true := by
  decide +kernel

theorem cycle_fails :
    (((Engine.ofDepth behaviour .direct 6).getOrBuild "cycleA").run components).map
      (fun r => match r.1 with
        | .error (.circularDependency path) => path
        | _ => []) = some ["cycleA", "cycleB", "cycleA"] := by
  decide +kernel

theorem root_reaches_shared : Reaches needs components.container "root" "shared" := by
  have hleft : DependsOn needs components.container "root" "left" := ⟨by decide, by decide⟩
  have hshared : DependsOn needs components.container "left" "shared" := ⟨by decide, by decide⟩
  exact ⟨by decide, .tail (.single hleft) hshared⟩

/-- The shared component is needed twice and is made once. Two other components need each other, and
    the request for one of them fails with the cycle. -/
theorem diamond_and_cycle_exact :
    (∃ object t, ((Engine.ofDepth behaviour .direct 6).getOrBuild "root").run components
        = some (.ok object, t) ∧ t.container.containsSingleton "shared" = true ∧
      (factoryCalls (since components t)).count "shared" = 1 ∧
      BuiltUpon needs (since components t) "shared") ∧
    ∃ t, ((Engine.ofDepth behaviour .direct 6).getOrBuild "cycleA").run components
        = some (.error (.circularDependency ["cycleA", "cycleB", "cycleA"]), t) ∧
      ["cycleA", "cycleB", "cycleA"].IsChain (fun a b => b ∈ needs a) ∧
      ∃ front last, ["cycleA", "cycleB", "cycleA"] = front ++ [last] ∧ front.count last = 1 := by
  refine ⟨?_, ?_⟩
  · rcases getOrBuild_exact behaviour .direct needs 6 components "root" components_wired rfl
      (by decide) with ⟨result, t, hrun, _, hok, _⟩
    have hsucceeds := diamond_succeeds
    rw [hrun] at hsucceeds
    cases result with
    | error e => cases hsucceeds
    | ok object =>
        have hshared :
            components.container.definitions.get? "shared" = some (component "shared" []) := rfl
        exact ⟨object, t, hrun, hok ⟨object, rfl⟩ "shared" _ root_reaches_shared hshared rfl⟩
  · rcases getOrBuild_exact behaviour .direct needs 6 components "cycleA" components_wired rfl
      (by decide) with ⟨result, t, hrun, _, _, hcycle⟩
    have hfails := cycle_fails
    rw [hrun, Option.map_some, Option.some.injEq] at hfails
    split at hfails
    · rename_i path hpath
      change result = _ at hpath
      rcases hcycle path hpath with ⟨_, _, hchain, hlast⟩
      rw [hpath, hfails] at hrun
      rw [hfails] at hchain hlast
      exact ⟨t, hrun, hchain, hlast⟩
    · cases hfails

end WiringScenarios

end ObjectBootstrap
