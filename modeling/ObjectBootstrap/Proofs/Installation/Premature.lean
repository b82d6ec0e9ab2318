import ObjectBootstrap.Proofs.Course.Stepwise
import ObjectBootstrap.Proofs.Installation.Silence

/-!
# What a sentinel notes

A sentinel is asked about each object that comes by on its last walk, and all it does is to compare
the length of the chain with a number. Which objects it notes can be told without it, from the log:
those that set out on their last walk and are meant to be intercepted (`overlooked`). For this it
takes that the sentinel is the first hook of the chain, so that nothing happens between the
beginning of the walk and its turn (`Posted`).

While nothing is installed and the chain is too short, the two agree at any depth of nested builds
(`Tracks`). An installation alternates between building, when nothing is installed, and installing,
when nothing is built. And the chain is too short whenever something is built: at the least the hook
that is being built is not installed yet. So the record of a sentinel is exact at the end of its
installation.

## Main definitions

* `overlooked`: The objects that miss interceptors if the chain is not complete.
* `Posted`, `Away`: The sentinel is the first hook of the chain, or no hook of it.
* `Tracks`: What becomes of the record of a sentinel.
* `OnWatch`: A sentinel in the middle of its installation.

## Theorems

* `Tracks.stepwise`, `Engine.walk_tracks`: The record follows the log.
* `premature_exact`: The record at the end of an installation.
-/

namespace ObjectBootstrap

variable {H : Host}

/-- Whether objects are not meant to be intercepted. -/
def Definition.isExempt {F : Type} (d : Definition F) : Bool :=
  d.hasCapability .interceptsInstance || d.role == .infrastructure

/-- The name of an object that sets out on its last walk and is meant to be intercepted. -/
def Activity.overlooked? : Activity H → Option String
  | .walked .after name registration =>
    if registration.any Definition.isExempt then none else some name
  | _ => none

/-- The names of the objects that set out on their last walk and are meant to be intercepted, in the
    order of their walks. -/
def overlooked (chronicle : List (Activity H)) : List String :=
  chronicle.filterMap Activity.overlooked?

theorem overlooked_append (early late : List (Activity H)) :
    overlooked (early ++ late) = overlooked early ++ overlooked late :=
  List.filterMap_append

-- An object is premature if it is overlooked while the chain is too short.
theorem Container.noted_eq (k : Container H) (target : Nat) (name : String) :
    (if k.isPremature target name then [name] else [])
      = if k.chain.size < target then
          overlooked [.walked .after name (k.definitions.get? name)] else [] := by
  have hpremature : k.isPremature target name
      = (!(k.definitions.get? name).any Definition.isExempt && decide (k.chain.size < target)) := by
    rw [isPremature, typeMatch]
    cases k.definitions.get? name with
    | none => rfl
    | some d => simp only [Option.any_some, Definition.isExempt, Bool.not_or]
  have hwalked : overlooked [Activity.walked .after name (k.definitions.get? name)]
      = if (k.definitions.get? name).any Definition.isExempt then [] else [name] := by
    unfold overlooked
    cases h : (k.definitions.get? name).any Definition.isExempt with
    | true => simp [Activity.overlooked?, h]
    | false => simp [Activity.overlooked?, h]
  rw [hpremature, hwalked]
  cases (k.definitions.get? name).any Definition.isExempt <;> simp

/-- The sentinel of a number is the first hook of the chain, and no other hook of it. -/
def Posted (number : Nat) (s : State H) : Prop :=
  ∃ rest, s.container.chain.entries = ⟨sentinelName, .sentinel number⟩ :: rest ∧
    ∀ entry ∈ rest, entry.hook ≠ .sentinel number

/-- The sentinel of a number was made and is no hook of the chain. -/
def Away (number : Nat) (s : State H) : Prop :=
  (∃ e, s.sentinels[number]? = some e) ∧
    ∀ entry ∈ s.container.chain.entries, entry.hook ≠ .sentinel number

/-- What becomes of the record of a sentinel. If it is no hook of the chain, the record stays. If it
    is the first hook and nothing is installed, it notes what is overlooked as long as the chain is
    too short. -/
structure Tracks (number : Nat) (s t : State H) : Prop where
  suffix : s.log <:+ t.log
  chain_eq : installs (since s t) = [] → t.container.chain = s.container.chain
  away : Away number s → Away number t ∧ t.sentinels[number]? = s.sentinels[number]?
  posted : Posted number s → installs (since s t) = [] → ∀ e, s.sentinels[number]? = some e →
    t.sentinels[number]? = some ⟨e.target, e.premature ++
      if s.container.chain.size < e.target then overlooked (since s t) else []⟩

namespace Tracks

variable {number : Nat} {s t : State H}

theorem followedBy {u : State H} (h1 : Tracks number s t) (h2 : Tracks number t u) :
    Tracks number s u := by
  have hsince := since_append h1.suffix h2.suffix
  have hparts : installs (since s u) = [] →
      installs (since s t) = [] ∧ installs (since t u) = [] := by
    intro hnone
    rwa [hsince, installs_append, List.append_eq_nil_iff] at hnone
  refine ⟨h1.suffix.trans h2.suffix, ?_, ?_, ?_⟩
  · intro hnone
    exact (h2.chain_eq (hparts hnone).2).trans (h1.chain_eq (hparts hnone).1)
  · intro haway
    rcases h1.away haway with ⟨hmid, hkept⟩
    exact ⟨(h2.away hmid).1, (h2.away hmid).2.trans hkept⟩
  · intro hposted hnone e he
    have hchain := h1.chain_eq (hparts hnone).1
    have hmid : Posted number t := by
      unfold Posted
      rw [hchain]
      exact hposted
    rw [h2.posted hmid (hparts hnone).2 _ (h1.posted hposted (hparts hnone).1 e he), hchain, hsince,
      overlooked_append]
    dsimp only
    split
    · rw [List.append_assoc]
    · rw [List.append_nil]

-- Nothing happens to the chain and to this sentinel, and the log has at most one entry more.
theorem of_eq (news : List (Activity H)) (hlog : t.log = news ++ s.log)
    (hnews : overlooked news.reverse = [])
    (hchain : t.container.chain = s.container.chain)
    (hsentinel : t.sentinels[number]? = s.sentinels[number]?) : Tracks number s t := by
  refine ⟨⟨news, hlog.symm⟩, fun _ => hchain, ?_, ?_⟩
  · rintro ⟨hmade, haway⟩
    exact ⟨⟨hsentinel ▸ hmade, hchain ▸ haway⟩, hsentinel⟩
  · intro _ _ e he
    rw [hsentinel, he, since_of_log hlog, hnews, ite_self, List.append_nil]

-- A hook other than this sentinel is installed.
theorem of_install {name : String} {hook : Hook H.Content}
    (hhook : ∀ e, s.sentinels[number]? = some e → hook ≠ .sentinel number)
    (hlog : t.log = .installed name :: s.log)
    (hchain : t.container.chain = s.container.chain.add name hook)
    (hsentinel : ∀ e, s.sentinels[number]? = some e → t.sentinels[number]? = some e) :
    Tracks number s t := by
  have hsome : installs (since s t) ≠ [] := by
    rw [since_of_log (show t.log = [.installed name] ++ s.log from hlog)]
    exact List.cons_ne_nil _ _
  refine ⟨⟨[.installed name], hlog.symm⟩, fun hnone => absurd hnone hsome, ?_,
    fun _ hnone => absurd hnone hsome⟩
  rintro ⟨⟨e, he⟩, haway⟩
  refine ⟨⟨⟨e, hsentinel e he⟩, ?_⟩, (hsentinel e he).trans he.symm⟩
  intro entry hmem
  rw [hchain, HookChain.add, List.mem_append, List.mem_singleton] at hmem
  rcases hmem with hmem | rfl
  · exact haway entry (List.mem_of_mem_filter hmem)
  · exact hhook e he

theorem stepwise (number : Nat) : Stepwise (Tracks (H := H) number) where
  followedBy h1 h2 := h1.followedBy h2
  still hchain hsentinels hlog := of_eq [] hlog rfl hchain (by rw [hsentinels])
  note {activity} s hplain := by
    refine of_eq [activity] rfl ?_ rfl rfl
    cases activity with
    | walked stage name registration => exact absurd hplain id
    | _ => rfl
  install s name hook hhook := of_install (fun _ _ => hhook number) rfl rfl fun _ he => he
  post s target := by
    -- The new sentinel has a number of its own.
    have hlt : ∀ e, s.sentinels[number]? = some e → number < s.sentinels.length :=
      fun e he => (List.getElem?_eq_some_iff.1 he).1
    refine of_install (fun e he hsame => ?_) rfl rfl fun e he => ?_
    · rw [Hook.sentinel.injEq] at hsame
      exact absurd (hlt e he) (hsame ▸ Nat.lt_irrefl _)
    · exact (List.getElem?_append_left (hlt e he)).trans he

-- Any other sentinel may note what it likes.
theorem of_watch {other : Nat} (hother : other ≠ number) (name : String) :
    Run.Along (AlongCourses (Tracks number)) (Engine.watch other name : Run H Unit) := by
  intro s a t h
  cases h
  refine ⟨.quiet (.watch s other name), of_eq [] rfl rfl rfl ?_⟩
  simp [hother]

end Tracks

namespace Engine

variable {E : Engine H} {number : Nat}

-- What the first hook of the chain does if it is this sentinel.
theorem run_intercept_sentinel {name : String} {object : Object H.Content} {s t : State H}
    {answer : Except Failure (Option (Object H.Content))}
    (h : E.intercept .after ⟨sentinelName, .sentinel number⟩ name object s = some (answer, t)) :
    answer = .ok (some object) ∧ ∃ u,
      watch number name (s.note (.entered (.intercept .after sentinelName object name)))
        = some ((), u) ∧
      t = u.note (.left (.intercept .after sentinelName object name) none) := by
  rcases run_enter_eq_some_iff.1 h with ⟨u, hbody, rfl⟩
  rcases Run.bind_eq_some_iff.1 hbody with ⟨_, v, hwatch, hpure⟩
  cases hpure
  exact ⟨rfl, u, hwatch, rfl⟩

-- The sentinel notes an object that sets out on its last walk if it is overlooked.
theorem tracks_first {name : String} {object : Object H.Content} {s t : State H}
    {answer : Except Failure (Option (Object H.Content))} (hposted : Posted number s)
    (h : E.intercept .after ⟨sentinelName, .sentinel number⟩ name object
      (s.note (.walked .after name (s.container.definitions.get? name))) = some (answer, t)) :
    answer = .ok (some object) ∧ Tracks number s t := by
  rcases run_intercept_sentinel h with ⟨hanswer, u, hwatch, rfl⟩
  cases hwatch
  -- Behind the beginning of the walk stands the call of the sentinel and nothing else.
  have hnews : overlooked [.walked .after name (s.container.definitions.get? name),
        .entered (.intercept .after sentinelName object name),
        .left (.intercept .after sentinelName object name) none]
      = overlooked [.walked .after name (s.container.definitions.get? name)] := rfl
  refine ⟨hanswer, ⟨⟨[_, _, _], rfl⟩, fun _ => rfl, ?_, ?_⟩⟩
  · rintro ⟨_, haway⟩
    rcases hposted with ⟨rest, hrest, _⟩
    exact absurd rfl (haway ⟨sentinelName, .sentinel number⟩ (hrest ▸ List.mem_cons_self))
  · intro _ _ e he
    have hnoted := s.container.noted_eq e.target name
    rw [since_of_log (show _ = [_, _, _] ++ s.log from rfl)]
    simp only [List.reverse_cons, List.reverse_nil, List.nil_append, List.cons_append]
    rw [hnews, ← hnoted]
    dsimp only [State.note]
    rw [List.getElem?_modify, he]
    by_cases hpremature : s.container.isPremature e.target name = true
    · simp [hpremature]
    · simp [hpremature]

section Walks

variable (hE : E.Keeps (AlongCourses (Tracks number)))
include hE

-- Hooks other than this sentinel leave it to note what it likes.
theorem walkThrough_tracks {stage : Stage} {name : String}
    {entries : List (ChainEntry H.Content)}
    (hentries : stage = .after → ∀ entry ∈ entries, entry.hook ≠ .sentinel number)
    (object : Object H.Content) :
    Attempt.Along (AlongCourses (Tracks number)) (E.walkThrough stage name entries object) := by
  refine walkThrough_along hE hE.trail (fun _ _ => trivial)
    (fun entry hmem other hstage hhook => ?_) object
  have hother : other ≠ number := by
    rintro rfl
    exact hentries hstage entry hmem hhook
  exact Tracks.of_watch hother name

theorem walk_tracks (stage : Stage) (name : String) (object : Object H.Content) :
    Attempt.Along (Tracks number) (E.walk stage name object) := by
  intro s result t h
  have hcourse : Course Anything s t :=
    Lawful.walk (fun shown program s a t h => (hE.runs shown program s a t h).1)
      (fun _ _ => trivial) stage object s result t h
  rw [run_walk_apply] at h
  cases stage with
  | before =>
      have hset : Tracks number s (s.setOut .before name) :=
        .of_eq [.walked .before name (s.container.definitions.get? name)] rfl rfl rfl rfl
      exact hset.followedBy (walkThrough_tracks hE (fun hstage => absurd hstage (by decide)) object
        _ _ _ h).2
  | after =>
      by_cases hposted : Posted number s
      · rcases hposted with ⟨rest, hrest, hothers⟩
        rw [hrest] at h
        rcases Attempt.run_bind_eq_some_iff.1 h with ⟨_, herror, _⟩ | ⟨answer, w, hfirst, hlast⟩
        · rcases Attempt.run_step_eq_some_iff.1 herror with ⟨_, _, hcontra⟩
          cases hcontra
        rcases tracks_first ⟨rest, hrest, hothers⟩ (Attempt.run_step_eq_ok_iff.1 hfirst) with
          ⟨rfl, hnoted⟩
        exact hnoted.followedBy (walkThrough_tracks hE (fun _ => hothers) object _ _ _ hlast).2
      · refine ⟨hcourse.log_suffix, hcourse.chain_eq, ?_, fun hfirst => absurd hfirst hposted⟩
        intro haway
        exact (walkThrough_tracks hE (fun _ => haway.2) object _ _ _ h).2.away haway

theorem builds_tracks : E.Builds Anything (AlongCourses (Tracks number)) := by
  have hwalk : ∀ stage name object, Attempt.Along (Tracks number) (E.walk stage name object) :=
    fun stage name object => walk_tracks hE stage name object
  exact (Tracks.stepwise number).builds hE hwalk fun {_ _ name object _} hname h =>
    (Tracks.stepwise number).finish hE hwalk hname
      (.of_eq [.made name object] rfl rfl rfl rfl) h

end Walks

/-- The record of every sentinel follows the log, whatever is run. -/
theorem keeps_tracks (behaviour : Behaviour H) (facade : Facade) (depth number : Nat) :
    (ofDepth behaviour facade depth).Keeps (AlongCourses (Tracks number)) :=
  keeps_ofDepth behaviour facade (Tracks.stepwise number).trail (fun _ hE => builds_tracks hE) depth

end Engine

-- If the hooks and factories that are called install nothing, then nothing is installed by builds.
theorem installs_of_builds {s t u v : State H} (h1 : Course Anything s t)
    (h2 : Course Activity.OfBuild t u) (h3 : Course Anything u v)
    (hquiet : ∀ activity ∈ inner (since s v), activity.installed? = none) :
    installs (since t u) = [] := by
  have hinner : ∀ activity ∈ inner (since t u), activity.installed? = none := by
    intro activity hmem
    refine hquiet activity ?_
    rw [(h1.followedBy h2.anything).since_followedBy h3, h1.since_followedBy h2,
      inner_append (h1.nested.append h2.nested), inner_append h1.nested]
    exact List.mem_append_left _ (List.mem_append_right _ hmem)
  rw [installs, ← filterMap_outer Activity.installed? _ hinner]
  exact tierInstalls_of_builds h2

/-- A sentinel in the middle of its installation. It is the first hook of the chain, no more than
    some number of hooks are installed, and it has noted what was overlooked. -/
structure OnWatch (number target count : Nat) (s t : State H) : Prop where
  course : Course Anything s t
  posted : Posted number t
  size_le : t.container.chain.size ≤ count
  noted : t.sentinels[number]? = some ⟨target, overlooked (since s t)⟩

namespace OnWatch

variable {number target count : Nat} {s t u : State H}

-- While something is built the chain is too short, or else nothing is overlooked.
theorem built (h : OnWatch number target count s t) (hbuild : AlongCourses (Tracks number) t u)
    (hnone : installs (since t u) = [])
    (hshort : count < target ∨ overlooked (since t u) = []) : OnWatch number target count s u := by
  have hchain := hbuild.2.chain_eq hnone
  refine ⟨h.course.followedBy hbuild.1, ?_, hchain ▸ h.size_le, ?_⟩
  · unfold Posted
    rw [hchain]
    exact h.posted
  · rw [hbuild.2.posted h.posted hnone _ h.noted, h.course.since_followedBy hbuild.1,
      overlooked_append]
    rcases hshort with hshort | hnothing
    · rw [if_pos (h.size_le.trans_lt hshort)]
    · rw [hnothing, ite_self]

-- An interceptor is installed behind the sentinel.
theorem installed (h : OnWatch number target count s t) {name : String} {hook : Hook H.Content}
    (hname : name ≠ sentinelName) (hhook : hook ≠ .sentinel number)
    (hrun : Run.install name hook t = some ((), u)) : OnWatch number target (count + 1) s u := by
  obtain rfl : u = (t.withContainer (t.container.install name hook)).note (.installed name) := by
    cases hrun
    rfl
  rcases h.posted with ⟨rest, hrest, hothers⟩
  have hinstall : Course Anything t
      ((t.withContainer (t.container.install name hook)).note (.installed name)) :=
    .deed (.install t name hook) trivial
  have hchain : ((t.withContainer (t.container.install name hook)).note
        (.installed name)).container.chain.entries
      = ⟨sentinelName, .sentinel number⟩ :: (rest.filter (fun entry => entry.name != name)
        ++ [⟨name, hook⟩]) := by
    change t.container.chain.entries.filter _ ++ _ = _
    rw [hrest, List.filter_cons_of_pos (by simpa using hname.symm), List.cons_append]
  refine ⟨h.course.followedBy hinstall, ⟨_, hchain, ?_⟩, ?_, ?_⟩
  · intro entry hmem
    rcases List.mem_append.1 hmem with hmem | hmem
    · exact hothers entry (List.mem_of_mem_filter hmem)
    · rw [List.mem_singleton.1 hmem]
      exact hhook
  · have hsize := h.size_le
    have hle := List.length_filter_le (fun entry : ChainEntry H.Content => entry.name != name) rest
    unfold HookChain.size at hsize ⊢
    rw [hchain]
    rw [hrest] at hsize
    simp only [List.length_cons, List.length_append, List.length_nil] at hsize ⊢
    omega
  · rw [h.course.since_followedBy hinstall, Course.since_deed (.install t name hook),
      overlooked_append, show overlooked [Activity.installed name] = [] from rfl, List.append_nil]
    exact h.noted

theorem tier (h : OnWatch number target count s t)
    {hooks : List (Ranked (Object H.Content × Bool))}
    (hnames : ∀ ranked ∈ hooks, ranked.name ≠ sentinelName)
    (hrun : Engine.installTier hooks t = some ((), u)) :
    OnWatch number target (count + hooks.length) s u := by
  rw [← (sortRanked_perm hooks).length_eq]
  have hsorted : ∀ ranked ∈ sortRanked hooks, ranked.name ≠ sentinelName :=
    fun ranked hmem => hnames ranked ((sortRanked_perm hooks).mem_iff.1 hmem)
  unfold Engine.installTier at hrun
  generalize sortRanked hooks = sorted at hrun hsorted
  induction sorted generalizing t count with
  | nil =>
      cases hrun
      exact h
  | cons ranked rest ih =>
      rcases Run.bind_eq_some_iff.1 hrun with ⟨_, v, hfirst, hrest⟩
      have hinstalled := h.installed (hsorted ranked List.mem_cons_self)
        (by simp only [ne_eq, reduceCtorEq, not_false_eq_true]) hfirst
      have hall := ih hinstalled hrest fun r hr => hsorted r (List.mem_cons_of_mem _ hr)
      rwa [List.length_cons, Nat.add_comm rest.length, ← Nat.add_assoc]

-- A sentinel that is posted in front of an empty chain.
theorem posted_first (hempty : s.container.chain.entries = [])
    (query : CapabilityQuery) (target : Nat) :
    OnWatch s.sentinels.length target 1 s
      ((s.withContainer (s.container.namesFor query).2).post target) := by
  have hentries : ((s.withContainer (s.container.namesFor query).2).post
      target).container.chain.entries = [⟨sentinelName, .sentinel s.sentinels.length⟩] := by
    change (s.container.namesFor query).2.chain.entries.filter _ ++ _ = _
    rw [Container.namesFor_chain, hempty]
    rfl
  refine ⟨?_, ⟨[], hentries, fun entry hmem => absurd hmem List.not_mem_nil⟩, ?_, ?_⟩
  · exact .followedBy (.quiet (.search s query)) ((Course.trail Anything).post _ target trivial)
  · rw [HookChain.size, hentries]
    exact Nat.le_refl 1
  · rw [since_of_log (show _ = [Activity.installed sentinelName] ++ s.log from rfl)]
    exact List.getElem?_concat_length

section Tiers

variable {E : Engine H} (hE : E.Keeps (AlongCourses (Tracks number))) {shown : Facade}
include hE

theorem buildMarked_tracks {candidate : Engine.Candidate} (hname : AnyName candidate.1) :
    Attempt.Along (AlongCourses (Tracks number)) (E.buildMarked shown candidate) :=
  Engine.buildMarked_along hE.trail (Engine.asked_along hE (Engine.builds_tracks hE)) shown hname

variable {v : State H} (h : OnWatch number target count s t) (hlater : Course Anything u v)
  (hquiet : ∀ activity ∈ inner (since s v), activity.installed? = none)
include h hlater hquiet

-- The highest tier is built, unless there is nothing to build.
theorem divided {names : List String} {division : Engine.Division (Object H.Content × Bool)}
    (hshort : names ≠ [] → count < target)
    (hrun : (Engine.divide shown (E.buildMarked shown) names).run t = some (.ok division, u)) :
    OnWatch number target count s u := by
  have hlawful : E.Lawful := fun shown program s a t h => (hE.runs shown program s a t h).1
  have hnone := installs_of_builds h.course (Engine.divide_follows
    (Engine.buildMarked_follows hlawful (fun _ => id) shown) _ _ _ _ hrun) hlater hquiet
  refine h.built (Engine.divide_along hE.trail (buildMarked_tracks hE) (fun _ _ => trivial) _ _ _
    hrun) hnone ?_
  cases names with
  | nil =>
      cases hrun
      rw [since_self]
      exact Or.inr rfl
  | cons name rest => exact Or.inl (hshort (List.cons_ne_nil _ _))

-- A lower tier is built, unless there is nothing to build.
theorem builtEach {candidates : List Engine.Candidate}
    {hooks : List (Ranked (Object H.Content × Bool))} (hshort : candidates ≠ [] → count < target)
    (hrun : (Engine.buildEach (E.buildMarked shown) candidates).run t = some (.ok hooks, u)) :
    OnWatch number target count s u := by
  have hlawful : E.Lawful := fun shown program s a t h => (hE.runs shown program s a t h).1
  have hnone := installs_of_builds h.course (Engine.buildEach_follows
    (Engine.buildMarked_follows hlawful (fun _ => id) shown) _ _ _ _ hrun) hlater hquiet
  refine h.built (Engine.buildEach_along hE.trail (buildMarked_tracks hE) (fun _ _ => trivial) _ _ _
    hrun) hnone ?_
  cases candidates with
  | nil =>
      cases hrun
      rw [since_self]
      exact Or.inr rfl
  | cons candidate rest => exact Or.inl (hshort (List.cons_ne_nil _ _))

end Tiers

end OnWatch

/-- The record at the end of an installation that starts from an empty chain. If no hook or factory
    that is called installs hooks, and no interceptor has the name of the sentinel, then the
    sentinel has noted the objects that set out on their last walk since it was posted and are meant
    to be intercepted, in the order of their walks. -/
theorem premature_exact (behaviour : Behaviour H) (facade shown : Facade) (depth : Nat)
    (config : Config) {s t : State H} {inst : Installation}
    (hempty : s.container.chain.entries = [])
    (hreserved : sentinelName ∉ (s.container.namesFor config.interceptorQuery).1)
    (hquiet : ∀ activity ∈ inner (since s t), activity.installed? = none)
    (h : ((Engine.ofDepth behaviour facade depth).installationPhase shown config).run s
      = some (.ok inst, t)) :
    t.sentinels[inst.sentinel]? = some ⟨inst.target, overlooked (since s t)⟩ := by
  have hlawful : (Engine.ofDepth behaviour facade depth).Lawful :=
    Engine.lawful_ofDepth behaviour facade depth
  have hE := Engine.keeps_tracks behaviour facade depth s.sentinels.length
  rcases Engine.run_installationPhase_parts h with ⟨division, ordered, plain, u1, u2, u3, u4, u5,
    u6, u7, hdivide, hhighest, hbuildOrdered, hordered, hbuildPlain, hplain, hmergers, hlast, hinst⟩
  -- The ways from the tiers to the end.
  rcases Engine.installation_ways hlawful hhighest hbuildOrdered hordered hbuildPlain hplain
    hmergers with ⟨hway1, hway3, hway5⟩
  have hend : Course Anything u7 t := Run.follows_install _ trivial _ _ _ hlast
  have hfrom1 : Course Anything u1 t := hway1.followedBy hend
  have hfrom3 : Course Anything u3 t := hway3.followedBy hend
  have hfrom5 : Course Anything u5 t := hway5.followedBy hend
  -- The target counts the hooks of all tiers, and one more.
  have hperm := Engine.tiers_perm hdivide hbuildOrdered hbuildPlain
  have hlength := hperm.length_eq
  have hcandidates := congrArg List.length
    (Engine.buildEach_names Engine.buildMarked_name hbuildOrdered)
  have hcandidates' := congrArg List.length
    (Engine.buildEach_names Engine.buildMarked_name hbuildPlain)
  have htarget := congrArg Installation.target hinst
  simp only [List.length_map, List.length_append] at hlength hcandidates hcandidates'
  simp only [HookChain.size, hempty, List.length_nil, Nat.zero_add] at htarget
  have hpos : ∀ {α : Type} {l : List α}, l ≠ [] → 0 < l.length := List.length_pos_iff.2
  have hnames : ∀ ranked ∈ division.highest ++ ordered ++ plain, ranked.name ≠ sentinelName := by
    intro ranked hmem heq
    exact hreserved (heq ▸ hperm.mem_iff.1 (List.mem_map_of_mem hmem))
  simp only [List.mem_append] at hnames
  -- The sentinel is on watch from one part to the next.
  have w0 := OnWatch.posted_first hempty config.interceptorQuery inst.target
  have w1 := w0.divided hE hfrom1 hquiet (fun hsome => by have := hpos hsome; omega) hdivide
  have w2 := w1.tier (fun r hr => hnames r (Or.inl (Or.inl hr))) hhighest
  have w3 := w2.builtEach hE hfrom3 hquiet (fun hsome => by have := hpos hsome; omega) hbuildOrdered
  have w4 := w3.tier (fun r hr => hnames r (Or.inl (Or.inr hr))) hordered
  have w5 := w4.builtEach hE hfrom5 hquiet (fun hsome => by have := hpos hsome; omega) hbuildPlain
  have w6 := w5.tier (fun r hr => hnames r (Or.inr hr)) hplain
  have w7 := w6.tier (fun r hr => hnames r (by
    simpa only [List.mem_append] using List.mem_of_mem_filter hr)) hmergers
  have w8 := w7.installed (by decide) (by simp only [ne_eq, reduceCtorEq, not_false_eq_true]) hlast
  rw [congrArg Installation.sentinel hinst]
  exact w8.noted

namespace Scenarios

/-- As `behaviour`, except that the factory of a needy hook asks for the service. -/
def needingService : Behaviour host := { behaviour with
  make := fun needy _ =>
    if needy then do
      let _ ← Prog.request (.getOrBuild "service")
      return .ok needy
    else return .ok needy }

def needyHook (name : String) (placement : Placement) : Definition Bool where
  name := name
  typeName := name
  placement := placement
  capabilities := [.interceptsInstance]
  maker := .hosted true

/-- The service is built anew each time, and two hooks need it. -/
def needyHooks : State host :=
  stateOf [needyHook "needyHighest" ⟨.highest, none⟩, { service with scope := .prototype },
    needyHook "needyPlain" {}]

theorem target_of_needyHooks :
    (answer? (((Engine.ofDepth needingService .direct 3).installationPhase .direct .standard).run
      needyHooks)).map Installation.target = some 3 := by
  decide +kernel

theorem needyHooks_install_nothing :
    (((Engine.ofDepth needingService .direct 3).installationPhase .direct .standard).run
      needyHooks).map
      (fun r => (installs (inner (since needyHooks r.2)), overlooked (since needyHooks r.2)))
      = some ([], ["service", "service"]) := by
  decide +kernel

/-- Both hooks ask for the service before the chain is complete, and the sentinel notes it twice. -/
theorem needyHooks_premature : ∃ (inst : Installation) (t : State host),
    ((Engine.ofDepth needingService .direct 3).installationPhase .direct .standard).run needyHooks
      = some (.ok inst, t) ∧
    (∀ activity ∈ inner (since needyHooks t), activity.installed? = none) ∧
    t.sentinels[inst.sentinel]? = some ⟨3, ["service", "service"]⟩ := by
  rcases Option.map_eq_some_iff.1 target_of_needyHooks with ⟨inst, hinst, htarget⟩
  rcases exists_of_answer? hinst with ⟨t, ht⟩
  have hquiet := needyHooks_install_nothing
  rw [ht, Option.map_some, Option.some.injEq, Prod.mk.injEq] at hquiet
  have hnone : ∀ activity ∈ inner (since needyHooks t), activity.installed? = none :=
    List.filterMap_eq_nil_iff.1 hquiet.1
  have hrecord := premature_exact needingService .direct .direct 3 .standard
    (s := needyHooks) rfl (by decide +kernel) hnone ht
  rw [hquiet.2, htarget] at hrecord
  exact ⟨inst, t, ht, hnone, hrecord⟩

end Scenarios

end ObjectBootstrap
