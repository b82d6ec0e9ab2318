import ObjectBootstrap.Proofs.Building.Growth
import ObjectBootstrap.Proofs.Course.Moments
import ObjectBootstrap.Proofs.Course.Stepwise

/-!
# How often factories are called

A build calls the factory of its definition once. But in between anything may be asked for, and a
request for the same name would call the factory again if it led to a build. It does not: as long as
a build of a name is under way, another one is refused, and builds of other names call factories for
those names. `Idle` is the relation that says so for the states before and behind whatever hooks and
factories do.

The relation does not bear that the factory itself is called, and the only place where it is called
is the build. So the entries that the relation bears are those that tell of no such call.

## Main definitions

* `CalledTimes`: The factory of a name is called so often on the way from one state to another.
* `Idle`: As long as a build of a name is under way, its factory is not called.

## Theorems

* `CalledTimes.trans`: Calls on two parts of the way add up.
* `Engine.keeps_idle`: Whatever is run, a build that is under way is not begun again.
* `Engine.called_of_getOrBuild`: A request that leads to a build calls the factory once.
-/

namespace ObjectBootstrap

variable {H : Host}

/-- The factory of a name is called so often on the way from one state to another. -/
structure CalledTimes (name : String) (times : Nat) (s t : State H) : Prop where
  suffix : s.log <:+ t.log
  count : (factoryCalls (since s t)).count name = times

namespace CalledTimes

variable {name : String} {times more : Nat} {s t u : State H}

/-- The calls on two parts of the way add up. -/
theorem trans (h1 : CalledTimes name times s t) (h2 : CalledTimes name more t u) :
    CalledTimes name (times + more) s u := by
  refine ⟨h1.suffix.trans h2.suffix, ?_⟩
  rw [since_append h1.suffix h2.suffix, factoryCalls_append, List.count_append, h1.count, h2.count]

theorem of_log (h : t.log = s.log) : CalledTimes name 0 s t := by
  refine ⟨h ▸ List.suffix_rfl, ?_⟩
  rw [since_of_log (show t.log = [] ++ s.log from h)]
  rfl

-- One entry is one call at most.
theorem of_entry {activity : Activity H} (h : t.log = activity :: s.log) :
    CalledTimes name (if activity.called? = some name then 1 else 0) s t := by
  refine ⟨h ▸ List.suffix_cons _ _, ?_⟩
  rw [since_of_log (show t.log = [activity] ++ s.log from h), List.reverse_singleton, factoryCalls,
    List.filterMap_cons]
  cases activity.called? with
  | none => rfl
  | some n => simp [List.count_cons]

theorem of_other {activity : Activity H} (h : t.log = activity :: s.log)
    (hother : activity.called? ≠ some name) : CalledTimes name 0 s t := by
  have hentry : CalledTimes name _ s t := of_entry h
  rwa [if_neg hother] at hentry

theorem note {activity : Activity H} (h : CalledTimes name times s t)
    (hother : activity.called? ≠ some name) : CalledTimes name times s (t.note activity) :=
  h.trans (.of_other rfl hother)

end CalledTimes

/-- As long as a build of a name is under way, its factory is not called. -/
def Idle (name : String) (s t : State H) : Prop :=
  name ∈ s.container.inCreation → CalledTimes name 0 s t

namespace Idle

variable {name : String} {s t u : State H}

theorem of_log (h : t.log = s.log) : Idle name s t := fun _ => .of_log h

theorem of_other {activity : Activity H} (h : t.log = activity :: s.log)
    (hother : activity.called? ≠ some name) : Idle name s t := fun _ => .of_other h hother

theorem followedBy (h1 : AlongCourses (Idle name) s t) (h2 : AlongCourses (Idle name) t u) :
    AlongCourses (Idle name) s u :=
  ⟨h1.1.followedBy h2.1, fun hname =>
    (h1.2 hname).trans (h2.2 (h1.1.inCreation_eq ▸ hname))⟩

-- What happens between two entries that tell of no call.
theorem between {first last : Activity H} (hfirst : first.called? ≠ some name)
    (hlast : last.called? ≠ some name) (h : Idle name (s.note first) t) :
    Idle name s (t.note last) := fun hname =>
  ((CalledTimes.of_other rfl hfirst).trans (h hname)).note hlast

/-- The relation bears the operations, and all entries but those that tell of a call of the
    factory. -/
theorem trail (name : String) :
    Trail (fun activity : Activity H => activity.called? ≠ some name) (AlongCourses (Idle name))
      (AlongCourses (Idle name)) where
  course h := h.1
  rest s := ⟨.rest s, of_log rfl⟩
  followedBy := followedBy
  quiet h _ _ := ⟨.quiet h, of_log h.log_eq⟩
  register hk hmay := ⟨.deed (.register hk) trivial, of_other rfl hmay⟩
  install s n hook _ hmay := ⟨.deed (.install s n hook) trivial, of_other rfl hmay⟩
  post s target hmay := ⟨(Course.trail Anything).post s target trivial, of_other rfl hmay⟩
  publish s event hmay := ⟨.deed (.publish s event) trivial, of_other rfl hmay⟩
  unsubscribe s n hmay := ⟨.deed (.unsubscribe s n) trivial, of_other rfl hmay⟩
  stop s stage hook n hmay := ⟨.deed (.stop s stage hook n) trivial, of_other rfl hmay⟩
  call hmay h := ⟨.call trivial h.1, between hmay nofun h.2⟩
  update hmay hd h := ⟨.update trivial hd h.1, fun hname =>
    (h.2 hname).trans (.of_other rfl hmay)⟩

theorem watch (number : Nat) (n : String) :
    Run.Along (AlongCourses (Idle name)) (Engine.watch number n : Run H Unit) := by
  intro s a t h
  cases h
  exact ⟨.quiet (.watch s number n), of_log rfl⟩

end Idle

namespace Engine

-- While a build of a name is under way, a request for it leads to no other build.
theorem called_of_underway {E : Engine H} {name : String} {s t : State H}
    {result : Except Error (Object H.Content)}
    (hname : name ∈ s.container.inCreation) (h : (E.getOrBuild name).run s = some (result, t)) :
    CalledTimes name 0 s t := by
  rcases run_getOrBuild_eq_some h with ⟨u, hobtain, rfl⟩
  have hsame : u = s.note (.requested name) := by
    rcases run_obtain_cases hobtain with ⟨_, rfl⟩ | ⟨_, _, _, rfl⟩ | ⟨_, d, _, ⟨_, _, rfl⟩ |
      ⟨_, hbuild⟩⟩
    · rfl
    · rfl
    · rfl
    · rcases run_build_cases hbuild with ⟨_, _, _, rfl⟩ | ⟨k, _, _, hk, _⟩
      · rfl
      · exact absurd hname (Container.beginCreation_eq_ok hk).1
  subst hsame
  have hasked : CalledTimes name 0 s (s.note (.requested name)) := .of_other rfl nofun
  exact hasked.note nofun

section Requests

variable {E : Engine H} {name : String}
  (hE : E.KeepsWith (AlongCourses (Idle name)) fun activity => activity.called? ≠ some name)
include hE

theorem lawful_of_idle : E.Lawful := fun shown program s a t h => (hE.runs shown program s a t h).1

theorem walk_idle (stage : Stage) (n : String) (object : Object H.Content) :
    Attempt.Along (AlongCourses (Idle name)) (E.walk stage n object) :=
  walk_along hE (Idle.trail name)
    (fun s => ⟨.deed (.walk s stage n) trivial, .of_other rfl nofun⟩) (fun _ _ => nofun)
    (fun number => Idle.watch number n) object

theorem builds_idle :
    E.Builds (fun activity => activity.called? ≠ some name) (AlongCourses (Idle name)) := by
  refine Builds.of_finish (Idle.trail name) (fun hrequested hanswered h => ?_)
    (fun hkept hd habs hk h => ?_) (fun stage n object _ => walk_idle hE stage n object)
    fun {_ _ n object _} _ hunder h => ?_
  · exact ⟨.request trivial trivial h.1, .between hrequested hanswered h.2⟩
  · refine ⟨.build hkept hd habs hk h.1, fun hname => ?_⟩
    rcases Container.beginCreation_eq_ok hk with ⟨_, rfl⟩
    rcases h.2 (List.mem_append_left _ hname) with ⟨hsuffix, hcount⟩
    exact ⟨hsuffix, hcount⟩
  · exact finish_along (Idle.trail name) ⟨.deed (.make object hunder) trivial, .of_other rfl nofun⟩
      (fun stage object => walk_idle hE stage n object) h

theorem getOrBuild_idle (n : String) :
    Attempt.Along (AlongCourses (Idle name)) (E.getOrBuild n) := by
  intro s result t h
  have hcourse : Course Anything s t :=
    getOrBuild_follows (lawful_of_idle hE) (fun _ _ => trivial) n s result t h
  refine ⟨hcourse, fun hname => ?_⟩
  by_cases hn : n = name
  · subst hn
    exact called_of_underway hname h
  · -- The factory that is called is that of another name.
    exact (getOrBuild_along hE (Idle.trail name) (builds_idle hE) (fun _ _ => nofun) nofun
      (fun _ => nofun) (fun _ hcalled => hn (Option.some.inj hcalled)) h).2 hname

-- A call of the factory of a name whose build is under way is the only one as long as it goes on.
theorem called_of_make {s t : State H} {d : Definition H.Factory}
    {result : Except Failure (Object H.Content)} (hname : name ∈ s.container.inCreation)
    (h : E.make name d s = some (result, t)) : CalledTimes name 1 s t := by
  rcases make_called hE h with ⟨u, hinside, rfl⟩
  have hentered : CalledTimes name _ s (s.note (.entered (.make name d))) := .of_entry rfl
  rw [if_pos (show (Activity.entered (.make name d)).called? = some name from rfl)] at hentered
  exact (hentered.trans (hinside.2 hname)).note nofun

end Requests

/-- Whatever is run, the factory of a name is not called as long as a build of the name is under
    way. -/
theorem keeps_idle (behaviour : Behaviour H) (facade : Facade) (depth : Nat) (name : String) :
    (ofDepth behaviour facade depth).KeepsWith (AlongCourses (Idle name))
      fun activity => activity.called? ≠ some name := by
  refine keepsWith_ofDepth behaviour facade (Idle.trail name) (fun activity hnot => ?_)
    (fun _ hE => ⟨getOrBuild_idle hE, walk_idle hE⟩) depth
  cases activity with
  | entered point =>
      cases point with
      | make name d => exact absurd rfl (hnot name d)
      | _ => nofun
  | _ => nofun

/-- A request for an object that is not kept calls the factory of the name once if it succeeds,
    whatever the hooks and the factory ask for in turn. -/
theorem called_of_getOrBuild {behaviour : Behaviour H} {facade : Facade} {depth : Nat}
    {s t : State H} {name : String} {object : Object H.Content}
    (hkept : s.container.singletons.get? name = none)
    (h : ((ofDepth behaviour facade depth).getOrBuild name).run s = some (.ok object, t)) :
    CalledTimes name 1 s t := by
  have hE := keeps_idle behaviour facade depth name
  have hlawful : (ofDepth behaviour facade depth).Lawful := lawful_of_idle hE
  have hT := Idle.trail (H := H) name
  rcases run_getOrBuild_built hkept h with ⟨d, copy, x, hd, hconstruct, rfl⟩
  have hname : name ∈ (s.begin name).container.inCreation :=
    List.mem_append_right _ (List.mem_singleton_self name)
  -- Only the call in the middle of the steps is one of the factory.
  cases construct_steps hlawful.keeps (Course.trail Anything) (fun _ _ => trivial)
    (hlawful.walk fun _ _ => trivial) (fun _ => trivial) hconstruct with
  | @finished _ made _ a b _ hmerge _ hmake _ hrun _ =>
      have hmerged : AlongCourses (Idle name) (s.begin name) a :=
        mergeThrough_along hE hT (fun _ _ => nofun) _ _ _ _ _ hmerge
      have hmade : CalledTimes name 1 a b :=
        called_of_make hE (hmerged.1.inCreation_eq ▸ hname) hmake
      have hsb : Course Anything (s.begin name) b :=
        hmerged.1.followedBy (make_along hlawful.keeps (Course.trail Anything) trivial _ _ _ hmake)
      have hfinished : AlongCourses (Idle name) (b.bear name made) x :=
        finish_walks_along hT (fun stage object => walk_idle hE stage name object) hrun
      have hbegun : CalledTimes name 0 s (s.begin name) := .of_other rfl nofun
      have hborne : CalledTimes name 0 b (b.bear name made) := .of_other rfl nofun
      have hend : CalledTimes name 0 x (x.conclude name (.ok ⟨copy, object⟩)) := .of_other rfl nofun
      have hlast := hfinished.2 (hsb.inCreation_eq ▸ hname)
      exact ((((hbegun.trans (hmerged.2 hname)).trans hmade).trans hborne).trans hlast).trans hend

end Engine

end ObjectBootstrap
