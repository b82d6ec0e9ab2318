import ObjectBootstrap.Proofs.Course.Inside
import ObjectBootstrap.Proofs.Course.Stepwise

/-!
# Objects pass through the chain

An object that a factory has made is walked through the chain twice. A walk is a `Passage`: each
hook is called and handed the answer of the one before, up to the first one that has no answer or
fails. Which hooks these are is settled when the walk sets out, by the chain as it is then.

As long as nothing is installed the chain stays the same, and so all objects that are made, at
whatever depth of nested builds, are walked through the same hooks in the same order (`Attended`).

## Main definitions

* `Passage`: An object is handed from hook to hook.
* `Engine.WalksBoth`: An object that was just made is walked through hooks twice.
* `Attended`: All objects that are made while nothing is installed are walked twice.

## Theorems

* `Engine.run_walk_passage`: A walk is a passage through the hooks that are installed when it sets
  out.
* `Engine.keeps_attended`: Whatever is run, objects are attended.
-/

namespace ObjectBootstrap

variable {H : Host}

/-- A hook is called and handed an object of a name. -/
abbrev Engine.Hands (E : Engine H) (stage : Stage) (entry : ChainEntry H.Content) (name : String)
    (object : Object H.Content) (s : State H)
    (answer : Except Failure (Option (Object H.Content))) (t : State H) : Prop :=
  Called (.intercept stage entry.name object name) (E.Handles · stage entry name object) s answer t

/-- An object of a name is handed from hook to hook, each being handed the answer of the one before,
    up to the first one that has no answer or fails. -/
inductive Passage (E : Engine H) (stage : Stage) (name : String) :
    List (ChainEntry H.Content) → Object H.Content → State H →
      Except Error (Object H.Content) → State H → Prop
  | all (object : Object H.Content) (s : State H) :
    Passage E stage name [] object s (.ok object) s
  /-- A hook has no answer. The walk ends with the object that it was handed. -/
  | stops {entry : ChainEntry H.Content} {rest : List (ChainEntry H.Content)}
    {object : Object H.Content} {s t : State H} :
    E.Hands stage entry name object s (.ok none) t →
      Passage E stage name (entry :: rest) object s (.ok object) t
  /-- A hook fails. -/
  | fails {entry : ChainEntry H.Content} {rest : List (ChainEntry H.Content)}
    {object : Object H.Content} {source : Failure} {s t : State H} :
    E.Hands stage entry name object s (.error source) t →
      Passage E stage name (entry :: rest) object s
        (.error (.hookExecution entry.name stage.phase source)) t
  /-- A hook has an answer, and the walk goes on with it. -/
  | goesOn {entry : ChainEntry H.Content} {rest : List (ChainEntry H.Content)}
    {object next : Object H.Content} {result : Except Error (Object H.Content)} {s t u : State H} :
    E.Hands stage entry name object s (.ok (some next)) t →
      Passage E stage name rest next t result u →
        Passage E stage name (entry :: rest) object s result u

namespace Engine

variable {E : Engine H}

/-- A walk through hooks is a passage. -/
theorem run_walkThrough_passage {stage : Stage} {name : String} :
    ∀ {entries : List (ChainEntry H.Content)} {object : Object H.Content}
      {result : Except Error (Object H.Content)} {s t : State H},
      (E.walkThrough stage name entries object).run s = some (result, t) →
        Passage E stage name entries object s result t := by
  intro entries
  induction entries with
  | nil =>
      intro object result s t h
      cases h
      exact .all object s
  | cons entry rest ih =>
      intro object result s t h
      rcases Attempt.run_bind_eq_some_iff.1 h with ⟨_, herror, _⟩ | ⟨answer, u, hfirst, hrest⟩
      · rcases Attempt.run_step_eq_some_iff.1 herror with ⟨_, _, hcontra⟩
        cases hcontra
      have hcalled := run_intercept_iff.1 (Attempt.run_step_eq_ok_iff.1 hfirst)
      match answer with
      | .error source =>
          cases hrest
          exact .fails hcalled
      | .ok none =>
          cases hrest
          exact .stops hcalled
      | .ok (some next) => exact .goesOn hcalled (ih hrest)

/-- A walk is a passage through the hooks that are installed when it sets out. -/
theorem run_walk_passage {stage : Stage} {name : String} {object : Object H.Content}
    {result : Except Error (Object H.Content)} {s t : State H}
    (h : (E.walk stage name object).run s = some (result, t)) :
    Passage E stage name s.container.chain.entries object (s.setOut stage name) result t := by
  rw [run_walk_apply] at h
  exact run_walkThrough_passage h

/-- An object that was just made is walked through hooks before its initialization, and if that
    succeeds, what becomes of it is walked through the same hooks afterwards. -/
def WalksBoth (E : Engine H) (entries : List (ChainEntry H.Content)) (name : String)
    (object : Object H.Content) (s t : State H) : Prop :=
  ∃ u passed, Passage E .before name entries object (s.setOut .before name) passed u ∧
    u.log <:+ t.log ∧
    ∀ next, passed = .ok next → ∃ v result,
      Passage E .after name entries next (u.setOut .after name) result v ∧ v.log <:+ t.log

theorem WalksBoth.later {entries : List (ChainEntry H.Content)} {name : String}
    {object : Object H.Content} {s t t' : State H} (h : E.WalksBoth entries name object s t)
    (hlog : t.log <:+ t'.log) : E.WalksBoth entries name object s t' := by
  rcases h with ⟨u, passed, hbefore, hu, hafter⟩
  refine ⟨u, passed, hbefore, hu.trans hlog, fun next hnext => ?_⟩
  rcases hafter next hnext with ⟨v, result, hpassage, hv⟩
  exact ⟨v, result, hpassage, hv.trans hlog⟩

end Engine

/-- If nothing is installed on the way, all objects that are made on it are walked through the chain
    as it is, twice each, by an engine of some depth. -/
structure Attended (behaviour : Behaviour H) (facade : Facade) (s t : State H) : Prop where
  suffix : s.log <:+ t.log
  chain_eq : installs (since s t) = [] → t.container.chain = s.container.chain
  attended : installs (since s t) = [] → ∀ name object earlier,
    .made name object :: earlier <:+ t.log → s.log <:+ earlier →
      ∃ depth u, u.log = .made name object :: earlier ∧
        (Engine.ofDepth behaviour facade depth).WalksBoth s.container.chain.entries name object u t

namespace Attended

variable {behaviour : Behaviour H} {facade : Facade} {s t u : State H}

theorem followedBy (h1 : Attended behaviour facade s t) (h2 : Attended behaviour facade t u) :
    Attended behaviour facade s u := by
  have hsince := since_append h1.suffix h2.suffix
  have hparts : installs (since s u) = [] →
      installs (since s t) = [] ∧ installs (since t u) = [] := by
    intro hnone
    rwa [hsince, installs_append, List.append_eq_nil_iff] at hnone
  refine ⟨h1.suffix.trans h2.suffix, ?_, ?_⟩
  · intro hnone
    exact (h2.chain_eq (hparts hnone).2).trans (h1.chain_eq (hparts hnone).1)
  · intro hnone name object earlier hmade hearlier
    rcases entry_or_later h2.suffix hmade with hfirst | hsecond
    · rcases h1.attended (hparts hnone).1 name object earlier hfirst hearlier with
        ⟨depth, w, hw, hwalks⟩
      exact ⟨depth, w, hw, hwalks.later h2.suffix⟩
    · rcases h2.attended (hparts hnone).2 name object earlier hmade hsecond with
        ⟨depth, w, hw, hwalks⟩
      rw [h1.chain_eq (hparts hnone).1] at hwalks
      exact ⟨depth, w, hw, hwalks⟩

-- Nothing is made.
theorem of_news (news : List (Activity H)) (hlog : t.log = news ++ s.log)
    (hnews : ∀ name object, .made name object ∉ news)
    (hchain : installs (since s t) = [] → t.container.chain = s.container.chain) :
    Attended behaviour facade s t := by
  refine ⟨⟨news, hlog.symm⟩, hchain, fun _ name object earlier hmade hearlier => ?_⟩
  rw [hlog] at hmade
  exact absurd (mem_news hmade hearlier) (hnews name object)

-- A hook is installed.
theorem of_install {name : String} (hlog : t.log = .installed name :: s.log) :
    Attended behaviour facade s t := by
  refine of_news [.installed name] hlog (fun _ _ hmem => by cases List.mem_singleton.1 hmem)
    fun hnone => ?_
  rw [since_of_log (show t.log = [.installed name] ++ s.log from hlog)] at hnone
  exact absurd hnone (List.cons_ne_nil _ _)

theorem stepwise (behaviour : Behaviour H) (facade : Facade) :
    Stepwise (Attended behaviour facade) where
  followedBy h1 h2 := h1.followedBy h2
  still hchain _ hlog := of_news [] hlog (fun _ _ => List.not_mem_nil) fun _ => hchain
  note {activity} s hplain := by
    refine of_news [activity] rfl (fun name object hmem => ?_) fun _ => rfl
    cases List.mem_singleton.1 hmem
    exact hplain
  install s name hook _ := of_install rfl
  post s target := of_install rfl

theorem watch (number : Nat) (name : String) :
    Run.Along (AlongCourses (Attended behaviour facade)) (Engine.watch number name) := by
  intro s a t h
  cases h
  exact ⟨.quiet (.watch s number name), of_news [] rfl (fun _ _ => List.not_mem_nil) fun _ => rfl⟩

end Attended

namespace Engine

variable {behaviour : Behaviour H} {facade : Facade}

-- A walk does not end before the objects that are made on it are walked themselves.
theorem walk_attended {E : Engine H} (hE : E.Keeps (AlongCourses (Attended behaviour facade)))
    (stage : Stage) (name : String) (object : Object H.Content) :
    Attempt.Along (Attended behaviour facade) (E.walk stage name object) := by
  have hset : ∀ s : State H, AlongCourses (Attended behaviour facade) s (s.setOut stage name) :=
    fun s => ⟨.deed (.walk s stage name) trivial,
      .of_news [.walked stage name (s.container.definitions.get? name)] rfl
        (fun _ _ hmem => by cases List.mem_singleton.1 hmem) fun _ => rfl⟩
  exact fun s result t h => (walk_along hE hE.trail hset (fun _ _ => trivial)
    (fun number => Attended.watch number name) object s result t h).2

-- Both walks of an object that was just made.
theorem walks_both {E : Engine H} (hE : E.Keeps (AlongCourses (Attended behaviour facade)))
    {s t : State H} {name : String} {object : Object H.Content}
    {result : Except Error (Object H.Content)}
    (h : (do
      let object ← E.walk .before name object
      E.walk .after name object : Attempt H (Object H.Content)).run s = some (result, t)) :
    Attended behaviour facade s t ∧
      (installs (since s t) = [] → E.WalksBoth s.container.chain.entries name object s t) := by
  have hwalk := walk_attended hE
  rcases Attempt.run_bind_eq_some_iff.1 h with ⟨e, herror, rfl⟩ | ⟨next, u, hbefore, hafter⟩
  · refine ⟨hwalk _ _ _ _ _ _ herror, fun _ => ⟨t, .error e, run_walk_passage herror,
      List.suffix_rfl, fun next hnext => ?_⟩⟩
    cases hnext
  · have hsu := hwalk _ _ _ _ _ _ hbefore
    have hut := hwalk _ _ _ _ _ _ hafter
    refine ⟨hsu.followedBy hut, fun hnone => ⟨u, .ok next, run_walk_passage hbefore, hut.suffix,
      fun next' hnext => ?_⟩⟩
    cases hnext
    -- Nothing was installed on the first walk, so the second one finds the same chain.
    rw [since_append hsu.suffix hut.suffix, installs_append, List.append_eq_nil_iff] at hnone
    rw [← hsu.chain_eq hnone.1]
    exact ⟨t, result, run_walk_passage hafter, List.suffix_rfl⟩

-- The object of a factory is walked twice, and so is what is made on its walks.
theorem finish_attended {depth : Nat}
    (hE : (ofDepth behaviour facade depth).Keeps (AlongCourses (Attended behaviour facade)))
    {s t : State H} {name : String} {object : Object H.Content}
    {result : Except Error (Object H.Content)}
    (h : ((ofDepth behaviour facade depth).finish name object).run s = some (result, t)) :
    Attended behaviour facade s t := by
  rcases Attempt.run_bind_eq_some_iff.1 h with ⟨_, herror, _⟩ | ⟨_, u, hnote, hrest⟩
  · cases herror
  cases hnote
  rcases Attempt.run_bind_eq_some_iff.1 hrest with ⟨_, herror, _⟩ | ⟨_, v, hkeep, hrest⟩
  · cases herror
  obtain ⟨hlog, hchain⟩ : v.log = .made name object :: s.log ∧
      v.container.chain = s.container.chain := by
    cases hkeep
    exact ⟨rfl, rfl⟩
  rcases walks_both hE hrest with ⟨hvt, hboth⟩
  have hsv : s.log <:+ v.log := hlog ▸ List.suffix_cons _ _
  have hnews : since s v = [.made name object] :=
    since_of_log (show v.log = [.made name object] ++ s.log from hlog)
  have hinstalls : installs (since s t) = [] → installs (since v t) = [] := by
    intro hnone
    rwa [since_append hsv hvt.suffix, installs_append, hnews] at hnone
  refine ⟨hsv.trans hvt.suffix, fun hnone => (hvt.chain_eq (hinstalls hnone)).trans hchain, ?_⟩
  intro hnone n made earlier hmade hearlier
  rcases entry_or_later hvt.suffix hmade with hfirst | hlater
  · -- The only object that was made before the walks is the one that sets out on them.
    rw [hlog] at hfirst
    rcases eq_of_entry hfirst hearlier with ⟨hentry, rfl⟩
    cases hentry
    exact ⟨depth, v, hlog, hchain ▸ hboth (hinstalls hnone)⟩
  · exact hchain ▸ hvt.attended (hinstalls hnone) n made earlier hmade hlater

theorem builds_attended {depth : Nat}
    (hE : (ofDepth behaviour facade depth).Keeps (AlongCourses (Attended behaviour facade))) :
    (ofDepth behaviour facade depth).Builds Anything
      (AlongCourses (Attended behaviour facade)) :=
  (Attended.stepwise behaviour facade).builds hE (fun _ _ _ => walk_attended hE _ _ _)
    fun _ h => finish_attended hE h

/-- Whatever is run, the objects that are made are attended. -/
theorem keeps_attended (behaviour : Behaviour H) (facade : Facade) (depth : Nat) :
    (ofDepth behaviour facade depth).Keeps (AlongCourses (Attended behaviour facade)) :=
  keeps_ofDepth behaviour facade (Attended.stepwise behaviour facade).trail
    (fun _ hE => builds_attended hE) depth

end Engine

end ObjectBootstrap
