import ObjectBootstrap.Proofs.Application.Interception
import ObjectBootstrap.Proofs.Application.Listeners
import ObjectBootstrap.Proofs.Building.Pipeline
import ObjectBootstrap.Proofs.Course.Moments

/-!
# What becomes of a listener that is built

The listener detector stands in the middle of a build: hooks have wrapped or replaced the object
when it is handed over, and the singleton is not kept yet. The detector tells nevertheless whether
the object listens. If the object is no longer of the type that the definition names, the target is
looked at instead, which is what the factory made; it is there as long as the build is under way,
and no nested build touches it. `Detection` tells such a build step by step.

An installation leaves the detector at the end of the chain. Hooks that are installed later stand
behind it, and no operation moves it but its own installation. That holds at any moment of any later
run, also in the middle of other calls and builds, which is what `Amid` speaks of.

## Main definitions

* `NameTable.Placed`: A value is stored in place of the old one, or at the end.
* `Detection`: The steps of the build of a listener.
* `Run.Leaves`, `Engine.Approaches`: Calls that leave the listeners alone.

## Theorems

* `Course.chain_carries`: A hook stays in the chain, and only what is installed later may come to
  stand behind it.
* `Engine.run_construct_ok`: The steps of a build that succeeds.
* `Passage.through`: A walk that no hook ends comes through each part of the chain.
* `listener_detected`: What becomes of a listener that is built.
-/

namespace ObjectBootstrap

variable {H : Host}

namespace NameTable

variable {α : Type} {name : String} {value : α}

/-- A value is stored under a name, in place of the old one if there was one and at the end
    otherwise. There is one value under the name then. -/
inductive Placed (name : String) (value : α) : NameTable α → NameTable α → Prop
  | replaced {early late : List (String × α)} (old : α) :
    name ∉ early.map Prod.fst → name ∉ late.map Prod.fst →
      Placed name value ⟨early ++ (name, old) :: late⟩ ⟨early ++ (name, value) :: late⟩
  | added {entries : List (String × α)} :
    name ∉ entries.map Prod.fst → Placed name value ⟨entries⟩ ⟨entries ++ [(name, value)]⟩

-- The entries in front of the name are passed by.
theorem insertEntry_append {early : List (String × α)} (h : name ∉ early.map Prod.fst)
    (rest : List (String × α)) :
    insertEntry name value (early ++ rest) = early ++ insertEntry name value rest := by
  induction early with
  | nil => rfl
  | cons entry early ih =>
      rw [List.map_cons, List.mem_cons, not_or] at h
      rw [List.cons_append, insertEntry, if_neg (Ne.symm h.1), ih h.2]
      rfl

theorem placed_insert {table : NameTable α} (h : table.names.Nodup) (name : String) (value : α) :
    Placed name value table (table.insert name value) := by
  rcases table with ⟨entries⟩
  change Placed name value ⟨entries⟩ ⟨insertEntry name value entries⟩
  by_cases hmem : name ∈ entries.map Prod.fst
  · rcases List.mem_map.1 hmem with ⟨⟨name, old⟩, hold, rfl⟩
    rcases List.append_of_mem hold with ⟨early, late, rfl⟩
    simp only [names, List.map_append, List.map_cons, List.nodup_append, List.nodup_cons] at h
    have hearly : name ∉ early.map Prod.fst := fun hin => h.2.2 _ hin _ List.mem_cons_self rfl
    rw [insertEntry_append hearly, insertEntry, if_pos rfl]
    exact .replaced old hearly h.2.1.1
  · have hall : insertEntry name value (entries ++ []) = entries ++ insertEntry name value [] :=
      insertEntry_append hmem []
    rw [List.append_nil] at hall
    rw [hall]
    exact .added hmem

end NameTable

namespace HookChain

variable {C : Type} {entry : ChainEntry C} {behind behind' : ChainEntry C → Prop}

/-- A hook is in a chain, and all that stand behind it are of a kind. -/
def Carries (chain : HookChain C) (entry : ChainEntry C) (behind : ChainEntry C → Prop) : Prop :=
  ∃ early late, chain.entries = early ++ entry :: late ∧ ∀ other ∈ late, behind other

theorem Carries.mono {chain : HookChain C} (h : chain.Carries entry behind)
    (hbehind : ∀ other, behind other → behind' other) : chain.Carries entry behind' := by
  rcases h with ⟨early, late, hentries, hlate⟩
  exact ⟨early, late, hentries, fun other hmem => hbehind other (hlate other hmem)⟩

-- What is installed under another name goes to the end.
theorem Carries.add {chain : HookChain C} (h : chain.Carries entry behind) {name : String}
    (hother : entry.name ≠ name) (hook : Hook C) :
    (chain.add name hook).Carries entry fun other => behind other ∨ other = ⟨name, hook⟩ := by
  rcases h with ⟨early, late, hentries, hlate⟩
  refine ⟨early.filter fun e => e.name != name,
    (late.filter fun e => e.name != name) ++ [⟨name, hook⟩], ?_, fun other hmem => ?_⟩
  · rw [HookChain.add, hentries, List.filter_append, List.filter_cons,
      if_pos (bne_iff_ne.2 hother), List.append_assoc, List.cons_append]
  · rcases List.mem_append.1 hmem with hold | hnew
    · exact Or.inl (hlate other (List.mem_of_mem_filter hold))
    · exact Or.inr (List.mem_singleton.1 hnew)

end HookChain

namespace Course

variable {may : Activity H → Prop} {s t : State H}

/-- No name is ever subscribed twice. -/
theorem listeners_nodup (h : Course may s t) (hs : s.listeners.names.Nodup) :
    t.listeners.names.Nodup := by
  induction h with
  | rest s => exact hs
  | followedBy _ _ ih1 ih2 => exact ih2 (ih1 hs)
  | quiet h =>
      cases h with
      | subscribe name listener => exact NameTable.nodup_names_insert hs name listener
      | _ => exact hs
  | deed h _ =>
      cases h with
      | unsubscribe name => exact NameTable.nodup_names_erase hs name
      | _ => exact hs
  | call _ _ ih => exact ih hs
  | request _ _ _ ih => exact ih hs
  | update _ _ _ ih => exact ih hs
  | build _ _ _ _ _ ih => exact ih hs

/-- A hook that is not installed again stays in the chain, and what is installed in the meantime
    may stand behind it. -/
theorem chain_carries (h : Course may s t) {entry : ChainEntry H.Content}
    {behind : ChainEntry H.Content → Prop} (hs : s.container.chain.Carries entry behind)
    (hnot : entry.name ∉ installs (since s t)) :
    t.container.chain.Carries entry
      fun other => behind other ∨ other.name ∈ installs (since s t) := by
  induction h generalizing behind with
  | rest s => exact hs.mono fun _ => Or.inl
  | followedBy h1 h2 ih1 ih2 =>
      rw [since_followedBy h1 h2, installs_append, List.mem_append, not_or] at hnot
      refine (ih2 (ih1 hs hnot.1) hnot.2).mono fun other hother => ?_
      rwa [since_followedBy h1 h2, installs_append, List.mem_append, ← or_assoc]
  | quiet h =>
      refine HookChain.Carries.mono ?_ fun _ => Or.inl
      cases h with
      | search query => rwa [State.withContainer_container, Container.namesFor_chain]
      | _ => exact hs
  | deed h _ =>
      rw [since_deed h] at hnot ⊢
      cases h with
      | register hk =>
          rw [State.note_container, State.withContainer_container,
            (Container.register_eq_ok hk).2.2]
          exact hs.mono fun _ => Or.inl
      | install name hook =>
          refine (hs.add (fun heq => hnot (heq ▸ List.mem_singleton_self _)) hook).mono ?_
          rintro other (hold | rfl)
          · exact Or.inl hold
          · exact Or.inr (List.mem_singleton_self _)
      | _ => exact hs.mono fun _ => Or.inl
  | call _ h ih =>
      rw [since_between h, installs_between rfl rfl] at hnot ⊢
      exact ih hs hnot
  | request _ _ h ih =>
      rw [since_between h, installs_between rfl rfl] at hnot ⊢
      exact ih hs hnot
  | update _ _ h ih =>
      rw [since_update h, installs_append] at hnot ⊢
      exact (ih hs fun hmem => hnot (List.mem_append_left _ hmem)).mono fun other =>
        Or.imp_right (List.mem_append_left _)
  | build _ _ _ hk _ ih =>
      rcases Container.beginCreation_eq_ok hk with ⟨_, rfl⟩
      rw [State.withContainer_container, Container.finishBuild_chain]
      exact ih hs hnot

end Course

namespace Amid

variable {s t : State H}

theorem listeners_nodup (h : Amid s t) (hs : s.listeners.names.Nodup) :
    t.listeners.names.Nodup := by
  induction h with
  | rest => exact hs
  | goesOn _ h ih => exact h.listeners_nodup ih
  | enters _ _ ih => exact ih
  | asks _ _ ih => exact ih
  | begins _ _ _ ih => exact ih

/-- An entry that is no installation leaves the installations as they are. -/
theorem installs_note (h : Amid s t) (activity : Activity H) (hnone : activity.installed? = none) :
    installs (since s (t.note activity)) = installs (since s t) := by
  rw [since_note h.log_suffix, installs_append, installs, installs,
    List.filterMap_cons_none hnone, List.filterMap_nil, List.append_nil]

/-- At no moment of a run is a hook moved that is not installed again. -/
theorem chain_carries (h : Amid s t) {entry : ChainEntry H.Content}
    {behind : ChainEntry H.Content → Prop} (hs : s.container.chain.Carries entry behind)
    (hnot : entry.name ∉ installs (since s t)) :
    t.container.chain.Carries entry
      fun other => behind other ∨ other.name ∈ installs (since s t) := by
  induction h with
  | rest => exact hs.mono fun _ => Or.inl
  | goesOn h1 h2 ih =>
      rw [since_append h1.log_suffix h2.log_suffix, installs_append, List.mem_append,
        not_or] at hnot
      refine (h2.chain_carries (ih hnot.1) hnot.2).mono fun other hother => ?_
      rwa [since_append h1.log_suffix h2.log_suffix, installs_append, List.mem_append, ← or_assoc]
  | enters point h ih =>
      rw [h.installs_note _ rfl] at hnot ⊢
      exact ih hnot
  | asks name h ih =>
      rw [h.installs_note _ rfl] at hnot ⊢
      exact ih hnot
  | begins _ _ hk ih =>
      rcases Container.beginCreation_eq_ok hk with ⟨_, rfl⟩
      exact ih hnot

end Amid

/-- The build of a listener, step by step. The detector stands between two parts of the chain that
    the second walk goes through. -/
inductive Detection (E : Engine H) (name : String) (d : Definition H.Factory) (s : State H)
    (made reached : Object H.Content) (early late : List (ChainEntry H.Content)) (u v : State H)
    (object : Object H.Content) : State H → Prop
  | through {copy : Definition H.Factory} {next : Object H.Content} {a b w x : State H} :
    Offers E name s.container.chain.entries d (s.begin name) (.ok copy) a →
    E.Produces name copy a (.ok made) b →
    Passage E .before name b.container.chain.entries made
      ((b.bear name made).setOut .before name) (.ok next) w →
    w.container.chain.entries = early ++ listenerDetector H.Content :: late →
    Passage E .after name early next (w.setOut .after name) (.ok reached) u →
    E.Hands .after (listenerDetector H.Content) name reached u (.ok (some reached)) v →
    Passage E .after name late reached v (.ok object) x →
      Detection E name d s made reached early late u v object
        (x.conclude name (.ok ⟨copy, object⟩))

section Leaves

variable {α β : Type} (look : NameTable (Object H.Content) → α)

/-- Whenever a call is made between two states of a run, it leaves what there is to see of the
    listeners as it is. -/
def Run.Leaves (s t : State H) (call : Run H β) : Prop :=
  ∀ w a w', Course Anything s w → w'.log <:+ t.log → call w = some (a, w') →
    look w'.listeners = look w.listeners

/-- The calls that a build makes before the detector is called leave what there is to see of the
    listeners as it is. -/
structure Engine.Approaches (E : Engine H) (name : String) (early : List (ChainEntry H.Content))
    (s t : State H) : Prop where
  merge (entry : ChainEntry H.Content) (copy : Definition H.Factory) :
    (E.merge entry name copy).Leaves look s t
  make (copy : Definition H.Factory) : (E.make name copy).Leaves look s t
  before (entry : ChainEntry H.Content) (object : Object H.Content) :
    (E.intercept .before entry name object).Leaves look s t
  after (entry : ChainEntry H.Content) (object : Object H.Content) :
    entry ∈ early → (E.intercept .after entry name object).Leaves look s t

/-- The calls that a build makes after the detector was called leave what there is to see of the
    listeners as it is. -/
def Engine.Departs (E : Engine H) (name : String) (late : List (ChainEntry H.Content))
    (s t : State H) : Prop :=
  ∀ entry ∈ late, ∀ object, (E.intercept .after entry name object).Leaves look s t

variable {look} {E : Engine H} (hE : E.Lawful) {name : String} {s t v w : State H}
include hE

theorem Offers.leaves {entries : List (ChainEntry H.Content)} {d : Definition H.Factory}
    {result : Except Error (Definition H.Factory)}
    (hleaves : ∀ entry copy, (E.merge entry name copy).Leaves look s v)
    (hsw : Course Anything s w) (htv : t.log <:+ v.log)
    (h : Offers E name entries d w result t) : look t.listeners = look w.listeners := by
  induction h with
  | all d w => rfl
  | fails hcalled => exact hleaves _ _ _ _ _ hsw htv (Engine.run_merge_iff.2 hcalled)
  | goesOn hcalled hrest ih =>
      have hlog := (hrest.course hE).log_suffix.trans htv
      refine (ih (hsw.followedBy (hcalled.course hE)) htv).trans ?_
      exact hleaves _ _ _ _ _ hsw hlog (Engine.run_merge_iff.2 hcalled)

theorem Passage.leaves {stage : Stage} {entries : List (ChainEntry H.Content)}
    {object : Object H.Content} {result : Except Error (Object H.Content)}
    (hleaves : ∀ entry ∈ entries, ∀ object,
      (E.intercept stage entry name object).Leaves look s v)
    (hsw : Course Anything s w) (htv : t.log <:+ v.log)
    (h : Passage E stage name entries object w result t) :
    look t.listeners = look w.listeners := by
  induction h with
  | all object w => rfl
  | stops hcalled | fails hcalled =>
      exact hleaves _ List.mem_cons_self _ _ _ _ hsw htv (Engine.run_intercept_iff.2 hcalled)
  | goesOn hcalled hrest ih =>
      have hlog := (hrest.course hE).log_suffix.trans htv
      refine (ih (fun entry hmem => hleaves entry (List.mem_cons_of_mem _ hmem))
        (hsw.followedBy (hcalled.course hE)) htv).trans ?_
      exact hleaves _ List.mem_cons_self _ _ _ _ hsw hlog (Engine.run_intercept_iff.2 hcalled)

end Leaves

namespace Engine

variable {E : Engine H} {s t : State H} {name : String} {d : Definition H.Factory}
  {object : Object H.Content}

/-- The steps of a build that succeeds. Each walk takes the hooks that are installed when it sets
    out. -/
theorem run_construct_ok (hE : E.Lawful) {built : Built H}
    (h : (E.construct name d).run s = some (.ok built, t)) :
    ∃ (made next : Object H.Content) (a b w : State H),
      Offers E name s.container.chain.entries d s (.ok built.copy) a ∧
      E.Produces name built.copy a (.ok made) b ∧
      Passage E .before name b.container.chain.entries made
        ((b.bear name made).setOut .before name) (.ok next) w ∧
      Passage E .after name w.container.chain.entries next (w.setOut .after name) (.ok built.object)
        t := by
  cases construct_steps hE.keeps (Course.trail Anything) (fun _ _ => trivial)
    (hE.walk fun _ _ => trivial) (fun _ => trivial) h with
  | @finished copy made object a b _ hmerge _ hmake _ hrun _ =>
      rcases Attempt.run_bind_eq_ok_iff.1 (run_finish_walks hrun) with ⟨next, w, hbefore, hafter⟩
      exact ⟨made, next, a, b, w, run_mergeThrough_iff.1 hmerge, run_make_iff.1 hmake,
        run_walk_passage hbefore, run_walk_passage hafter⟩

end Engine

/-- A walk that no hook ends comes through the first part of the chain, and sets out on the rest
    with what has become of the object. -/
theorem Passage.through {E : Engine H} (hE : E.Lawful) {stage : Stage} {name : String}
    {early rest : List (ChainEntry H.Content)} {object result : Object H.Content} {w t : State H}
    (h : Passage E stage name (early ++ rest) object w (.ok result) t)
    (hgoesOn : ∀ hook, .ended stage hook name ∉ since w t) :
    ∃ reached u, Passage E stage name early object w (.ok reached) u ∧
      Passage E stage name rest reached u (.ok result) t := by
  induction early generalizing object w with
  | nil => exact ⟨object, w, .all object w, h⟩
  | cons entry early ih =>
      cases h with
      | stops hcalled =>
          exact absurd (Engine.ended_of_intercept hE (Engine.run_intercept_iff.2 hcalled))
            (hgoesOn _)
      | goesOn hcalled hrest =>
          rcases ih hrest fun hook hmem => hgoesOn hook (since_subset
            (hcalled.course hE).log_suffix (hrest.course hE).log_suffix List.suffix_rfl hmem) with
            ⟨reached, u, hearly, hlate⟩
          exact ⟨reached, u, .goesOn hcalled hearly, hlate⟩

namespace Detection

section Listeners

variable {E : Engine H} {name : String} {d : Definition H.Factory} {s t u v : State H}
  {made reached object : Object H.Content} {early late : List (ChainEntry H.Content)}
  {α : Type} {look : NameTable (Object H.Content) → α} (hE : E.Lawful)
include hE

theorem course (h : Detection E name d s made reached early late u v object t) :
    Course Anything (s.begin name) u ∧ Course Anything u v ∧ v.log <:+ t.log := by
  cases h with
  | through hoffers hmake hbefore _ hearly hdetector hlate =>
      have hname : name ∈ (s.begin name).container.inCreation :=
        List.mem_append_right _ (List.mem_singleton_self name)
      refine ⟨?_, hdetector.course hE, (hlate.course hE).log_suffix.trans (List.suffix_cons _ _)⟩
      exact ((hoffers.borne hE hname hmake).followedBy (hbefore.course_setOut hE)).followedBy
        (hearly.course_setOut hE)

/-- If what comes in front of the detector leaves the listeners alone, the detector finds them as
    they were. -/
theorem approach (h : Detection E name d s made reached early late u v object t)
    (hleaves : E.Approaches look name early (s.begin name) u) :
    look u.listeners = look s.listeners := by
  cases h with
  | @through copy next a b w x hoffers hmake hbefore hchain hearly hdetector hlate =>
      have hname : name ∈ (s.begin name).container.inCreation :=
        List.mem_append_right _ (List.mem_singleton_self name)
      have hoffered := hoffers.course hE
      have hborne := hoffers.borne hE hname hmake
      have hwalked := hborne.followedBy (.deed (.walk (b.bear name made) .before name) trivial)
      have hready := hborne.followedBy (hbefore.course_setOut hE)
      have hset := hready.followedBy (.deed (.walk w .after name) trivial)
      -- None of the parts goes on behind the moment in which the detector is called.
      have hwu : w.log <:+ u.log := (hearly.course_setOut hE).log_suffix
      have hbu : b.log <:+ u.log :=
        (List.suffix_cons _ _).trans ((hbefore.course_setOut hE).log_suffix.trans hwu)
      have hau : a.log <:+ u.log := (hmake.course hE).log_suffix.trans hbu
      -- What happens between the parts does not concern the listeners.
      have hmerging : look a.listeners = look (s.begin name).listeners :=
        hoffers.leaves hE hleaves.merge (.rest _) hau
      have hmaking : look b.listeners = look a.listeners :=
        hleaves.make copy _ _ _ hoffered hbu (Engine.run_make_iff.2 hmake)
      have hpreparing : look w.listeners
          = look ((b.bear name made).setOut .before name).listeners :=
        hbefore.leaves hE (fun entry _ => hleaves.before entry) hwalked hwu
      have hfinishing : look u.listeners = look (w.setOut .after name).listeners :=
        hearly.leaves hE (fun entry hmem object => hleaves.after entry object hmem) hset
          List.suffix_rfl
      exact hfinishing.trans (hpreparing.trans (hmaking.trans hmerging))

/-- If the hooks behind the detector leave the listeners alone, they stay as the detector left
    them. -/
theorem departure (h : Detection E name d s made reached early late u v object t)
    (hleaves : E.Departs look name late v t) : look t.listeners = look v.listeners := by
  cases h with
  | @through copy _ _ _ _ x _ _ _ _ _ _ hlate =>
      have hend : x.log <:+ (x.conclude name (.ok ⟨copy, object⟩)).log := List.suffix_cons _ _
      have hlast := hlate.leaves hE hleaves (.rest v) hend
      exact hlast

end Listeners

/-- The detector finds the object that the factory made as the target, and the definition up to its
    details, as long as that is left in place. So it subscribes what the definition lets it view, if
    that is a singleton. -/
theorem listeners {behaviour : Behaviour H} {depth : Nat} {name : String}
    {d : Definition H.Factory} {s t u v : State H} {made reached object : Object H.Content}
    {early late : List (ChainEntry H.Content)}
    (h : Detection (Engine.ofDepth behaviour .direct depth) name d s made reached early late u v
      object t)
    (hd : s.container.definitions.get? name = some d) (hlistens : d.hasCapability .listens = true)
    (hupholds : ∀ activity ∈ since s t, activity.Upholds (d.renamed name)) :
    v.listeners = if d.isSingleton then u.listeners.insert name (d.viewed made reached)
      else u.listeners := by
  have hE : (Engine.ofDepth behaviour .direct depth).Lawful :=
    Engine.lawful_ofDepth behaviour .direct depth
  have hspare := Engine.keeps_spared behaviour .direct depth
  rcases h.course hE with ⟨hsu, huv, hvt⟩
  have hparts : ∀ activity ∈ since (s.begin name) u, activity.Upholds (d.renamed name) :=
    fun activity hmem => hupholds activity (since_subset (List.suffix_cons _ _) hsu.log_suffix
      (huv.log_suffix.trans hvt) hmem)
  have hdefinition := hsu.edited (d := d.renamed name) ⟨d, hd, d.lastsAs_renamed name⟩ hparts
  cases h with
  | @through copy next a b w x hoffers hmake hbefore hchain hearly hdetector hlate =>
      have hname : name ∈ (s.begin name).container.inCreation :=
        List.mem_append_right _ (List.mem_singleton_self name)
      have hborne := hoffers.borne hE hname hmake
      have hunder : name ∈ (b.bear name made).container.inCreation :=
        hborne.inCreation_eq ▸ hname
      -- From the factory to the detector nothing happens to the target.
      have hset : Course Anything w (w.setOut .after name) :=
        .deed (.walk w .after name) trivial
      have hbegun : Course Anything (b.bear name made) ((b.bear name made).setOut .before name) :=
        .deed (.walk _ .before name) trivial
      have hspared : AlongCourses (Spared AnyName) (b.bear name made) u := by
        have hG := Spared.gradual (H := H) AnyName
        refine hG.trail.followedBy ⟨hbegun, hG.note _ trivial⟩ ?_
        refine hG.trail.followedBy (hG.passage_along hspare hbefore) ?_
        exact hG.trail.followedBy ⟨hset, hG.note _ trivial⟩ (hG.passage_along hspare hearly)
      have hsame := hspared.2 name trivial (Or.inl hunder) fun activity hmem =>
        (hparts activity (since_subset hborne.log_suffix hspared.1.log_suffix List.suffix_rfl
          hmem)).spares
      have htarget : u.container.targets.get? name = some made :=
        hsame.target.trans ((NameTable.get?_insert _ _ _ _).trans (if_pos rfl))
      -- The copy names the type of the definition.
      have hmade : made.typeName = d.typeName := by
        have hentered : .entered (.make name copy) ∈ since (s.begin name) u := by
          refine since_subset (hoffers.course hE).log_suffix (hmake.course hE).log_suffix ?_
            (Engine.entered_of_make hE (Engine.run_make_iff.2 hmake))
          exact (List.suffix_cons _ _).trans hspared.1.log_suffix
        have hcopy : (d.renamed name).LastsAs copy := hparts _ hentered rfl
        exact (Engine.make_typeName (Engine.run_make_iff.2 hmake)).trans hcopy.typeName_eq
      exact Engine.intercept_detects (d := d.renamed name) (Engine.facade_ofDepth _ _ _)
        hdefinition htarget hmade hlistens (Engine.run_intercept_iff.2 hdetector)

end Detection

/-- A request that succeeds for a definition whose object is not kept takes the steps of a detection
    if the detector is installed and no hook ends the walk. What stands behind the detector was
    behind it when the request was made, or was installed since. -/
theorem Engine.detection_of_getOrBuild {E : Engine H} (hE : E.Lawful) {name : String}
    {d : Definition H.Factory} {s t : State H} {object : Object H.Content}
    {behind : ChainEntry H.Content → Prop}
    (hchain : s.container.chain.Carries (listenerDetector H.Content) behind)
    (hkept : s.container.singletons.get? name = none)
    (hd : s.container.definitions.get? name = some d)
    (hstays : listenerDetectorName ∉ installs (since s t))
    (hgoesOn : ∀ hook, .ended .after hook name ∉ since s t)
    (h : (E.getOrBuild name).run s = some (.ok object, t)) :
    ∃ made reached early late u v, Detection E name d s made reached early late u v object t ∧
      ∀ other ∈ late, behind other ∨ other.name ∈ installs (since s t) := by
  rcases run_getOrBuild_built hkept h with ⟨e, copy, x, he, hconstruct, rfl⟩
  obtain rfl : d = e := Option.some.inj (hd.symm.trans he)
  rcases run_construct_ok hE hconstruct with
    ⟨made, next, a, b, w, hoffers, hmake, hbefore, hafter⟩
  have hname : name ∈ (s.begin name).container.inCreation :=
    List.mem_append_right _ (List.mem_singleton_self name)
  have hready := (hoffers.borne hE hname hmake).followedBy (hbefore.course_setOut hE)
  have hset : Course Anything w (w.setOut .after name) := .deed (.walk w .after name) trivial
  have hlast := hafter.course hE
  have hend : x.log <:+ (x.conclude name (.ok ⟨copy, object⟩)).log := List.suffix_cons _ _
  have hasked : s.log <:+ (s.begin name).log := List.suffix_cons _ _
  -- The detector is where the second walk finds it.
  have hready' : since (s.begin name) w ⊆ since s (x.conclude name (.ok ⟨copy, object⟩)) :=
    since_subset hasked hready.log_suffix ((hset.followedBy hlast).log_suffix.trans hend)
  have hcarries := hready.chain_carries hchain fun hmem =>
    hstays (List.filterMap_subset _ hready' hmem)
  rcases hcarries with ⟨early, late, hentries, hlate⟩
  rw [hentries] at hafter
  have hwalk : since (w.setOut .after name) x
      ⊆ since s (x.conclude name (.ok ⟨copy, object⟩)) :=
    since_subset (hasked.trans (hready.followedBy hset).log_suffix) hlast.log_suffix hend
  rcases hafter.through hE fun hook hmem => hgoesOn hook (hwalk hmem) with
    ⟨reached, u, hearly, hrest⟩
  cases hrest with
  | stops hcalled => cases answer_of_detector (run_intercept_iff.2 hcalled)
  | goesOn hcalled hrest =>
      cases answer_of_detector (run_intercept_iff.2 hcalled)
      refine ⟨made, reached, early, late, u, _,
        .through hoffers hmake hbefore hentries hearly hcalled
        hrest, fun other hmem => ?_⟩
      exact (hlate other hmem).imp_right fun hnew => List.filterMap_subset _ hready' hnew

/-- A request that is made at some moment after an installation, for a definition that listens and
    whose object is not kept. The request succeeds, and in the meantime no hook ends the walk behind
    the initialization, no other definition takes the place of this one or of its copy, and nothing
    is installed in place of the detector. Then the detector is handed what the hooks in front of it
    have made of the object, and hands on the same. If the definition is one of a singleton, the
    detector places one listener under its name: what it is handed, if that is of the type that the
    definition names, and otherwise what the factory made. If it is one of prototypes, the detector
    leaves the listeners as they are. What it finds is what there was before the request as far as
    the calls in front of it do not change that, and what it leaves is what there is in the end as
    far as the calls behind it do not. Only hooks that were installed since the installation stand
    behind it. -/
theorem listener_detected (behaviour behaviour' : Behaviour H) (facade shown : Facade)
    (depth depth' : Nat) (config : Config) {bare ready s t : State H} {inst : Installation}
    {name : String} {d : Definition H.Factory} {object : Object H.Content}
    (hbare : bare.listeners.names.Nodup)
    (hinstallation : ((Engine.ofDepth behaviour facade depth).installationPhase shown config).run
      bare = some (.ok inst, ready))
    (hamid : Amid ready s) (hd : s.container.definitions.get? name = some d)
    (hlistens : d.hasCapability .listens = true)
    (hkept : s.container.singletons.get? name = none)
    (hstays : listenerDetectorName ∉ installs (since ready t))
    (hgoesOn : ∀ hook, .ended .after hook name ∉ since s t)
    (hupholds : ∀ activity ∈ since s t, activity.Upholds (d.renamed name))
    (h : ((Engine.ofDepth behaviour' .direct depth').getOrBuild name).run s
      = some (.ok object, t)) :
    ∃ (made reached : Object H.Content) (early late : List (ChainEntry H.Content)) (u v : State H),
      Detection (Engine.ofDepth behaviour' .direct depth') name d s made reached early late
        u v object t ∧
      (∀ entry ∈ late, entry.name ∈ installs (since ready t)) ∧
      (d.isSingleton = true →
        NameTable.Placed name (d.viewed made reached) u.listeners v.listeners) ∧
      (d.isSingleton = false → v.listeners = u.listeners) ∧
      (∀ {α : Type} (look : NameTable (Object H.Content) → α),
        ((Engine.ofDepth behaviour' .direct depth').Approaches look name early (s.begin name) u →
          look u.listeners = look s.listeners) ∧
        ((Engine.ofDepth behaviour' .direct depth').Departs look name late v t →
          look t.listeners = look v.listeners)) ∧
      (d.isSingleton = true →
        (Engine.ofDepth behaviour' .direct depth').Departs (fun table => table.get? name) name late
          v t →
        t.listeners.get? name = some (d.viewed made reached) ∧
          t.listeners.names.count name = 1) := by
  have hE : (Engine.ofDepth behaviour' .direct depth').Lawful :=
    Engine.lawful_ofDepth behaviour' .direct depth'
  have hE' : (Engine.ofDepth behaviour facade depth).Lawful :=
    Engine.lawful_ofDepth behaviour facade depth
  have hst : Course Anything s t := Engine.getOrBuild_follows hE (fun _ _ => trivial) _ _ _ _ h
  have hinstalls : installs (since ready t) = installs (since ready s) ++ installs (since s t) := by
    rw [since_append hamid.log_suffix hst.log_suffix, installs_append]
  rw [hinstalls, List.mem_append, not_or] at hstays
  -- At the end of the installation nothing stands behind the detector.
  have hready : ready.container.chain.Carries (listenerDetector H.Content) fun _ => False := by
    have hlast := (Engine.installationPhase_last hE' hinstallation).2.1
    exact ⟨_, [], (List.dropLast_append_getLast? _ hlast).symm, fun _ hmem =>
      absurd hmem List.not_mem_nil⟩
  have hinstalled : Course Anything bare ready := Engine.installationPhase_follows hE'
    (fun _ _ => trivial) _ _ (fun _ => trivial) _ _ _ hinstallation
  have hnodup := hamid.listeners_nodup (hinstalled.listeners_nodup hbare)
  rcases Engine.detection_of_getOrBuild hE (hamid.chain_carries hready hstays.1) hkept hd hstays.2
    hgoesOn h with ⟨made, reached, early, late, u, v, hdetection, hlate⟩
  rcases hdetection.course hE with ⟨hsu, huv, _⟩
  have hlisteners := hdetection.listeners hd hlistens hupholds
  refine ⟨made, reached, early, late, u, v, hdetection, fun entry hmem => ?_, fun hsingleton => ?_,
    fun hprototype => ?_, fun look => ⟨hdetection.approach hE, hdetection.departure hE⟩,
    fun hsingleton hdeparts => ?_⟩
  · rw [hinstalls, List.mem_append]
    exact (hlate entry hmem).imp_left (Or.resolve_left · id)
  · rw [hlisteners, if_pos hsingleton]
    exact NameTable.placed_insert (hsu.listeners_nodup hnodup) _ _
  · rw [hlisteners, if_neg (Bool.eq_false_iff.1 hprototype)]
  · have hget : t.listeners.get? name = some (d.viewed made reached) := by
      refine (hdetection.departure hE hdeparts).trans ?_
      rw [hlisteners, if_pos hsingleton, NameTable.get?_insert, if_pos rfl]
    refine ⟨hget, List.count_eq_one_of_mem (hst.listeners_nodup hnodup) ?_⟩
    rw [← NameTable.get?_isSome_iff, hget]
    rfl

namespace Scenarios

/-- Somebody is subscribed under the name of the listener already, and somebody else under another
    name behind it. -/
def withStaleListeners : State host := { listenerAndWrapper with
  listeners :=
    ⟨[("listener", ⟨"stale", 100, .hosted false⟩), ("other", ⟨"other", 101, .hosted false⟩)]⟩ }

/-- The hooks are installed, and then the listener is built. -/
def installThenBuild : Option ((Except Error Installation × State host) ×
    (Except Error (Object Bool) × State host)) :=
  ((wrappingEngine.installationPhase .direct .standard).run withStaleListeners).bind fun r =>
    ((wrappingEngine.getOrBuild "listener").run r.2).map fun q => (r, q)

theorem report_of_installThenBuild : installThenBuild.map (fun r =>
    ((answer? (some r.1)).map Installation.chain, (answer? (some r.2)).map Object.typeName,
      r.2.2.listeners.entries.map fun entry => (entry.1, entry.2.typeName)))
      = some (some [sentinelName, "wrapper", listenerDetectorName], some "wrapped",
        [("listener", "listener"), ("other", "other")]) := by
  decide +kernel

theorem course_of_installThenBuild : installThenBuild.map (fun r =>
    (r.1.2.container.definitions.get? "listener",
      (r.1.2.container.singletons.get? "listener").isNone,
      (since r.1.2 r.2.2).all fun activity => decide (activity.Guards listener)))
      = some (some listener, true, true) := by
  decide +kernel

/-- The listener is wrapped before the detector sees it, and so what is subscribed is what the
    factory made. It takes the place of the stale one. -/
theorem listener_placed : ∃ (inst : Installation) (ready t u v : State host)
    (object made reached : Object Bool) (early late : List (ChainEntry Bool)),
    (wrappingEngine.installationPhase .direct .standard).run withStaleListeners
      = some (.ok inst, ready) ∧
    (wrappingEngine.getOrBuild "listener").run ready = some (.ok object, t) ∧
      object.typeName = "wrapped" ∧
    Detection wrappingEngine "listener" listener ready made reached early late u v object t ∧
    NameTable.Placed "listener" (listener.viewed made reached) u.listeners v.listeners ∧
    t.listeners.entries.map (fun entry => (entry.1, entry.2.typeName))
      = [("listener", "listener"), ("other", "other")] := by
  rcases Option.map_eq_some_iff.1 report_of_installThenBuild with
    ⟨⟨⟨phase, ready⟩, built, t⟩, hruns, hreport⟩
  have hcourse := course_of_installThenBuild
  rw [hruns] at hcourse
  simp only [Prod.mk.injEq, Option.map_some, Option.some.injEq, List.all_eq_true,
    decide_eq_true_eq] at hreport hcourse
  rcases hreport with ⟨hinst, hobject, hlisteners⟩
  rcases hcourse with ⟨hregistered, hunbuilt, hguards⟩
  rcases Option.map_eq_some_iff.1 hinst with ⟨inst, hanswer, _⟩
  rcases exists_of_answer? hanswer with ⟨_, hend⟩
  cases hend
  rcases Option.map_eq_some_iff.1 hobject with ⟨object, hanswer, htype⟩
  rcases exists_of_answer? hanswer with ⟨_, hend⟩
  cases hend
  rcases Option.bind_eq_some_iff.1 hruns with ⟨_, hinstallation, hbuilding⟩
  rcases Option.map_eq_some_iff.1 hbuilding with ⟨_, hbuild, hpair⟩
  cases hpair
  have hnodup : withStaleListeners.listeners.names.Nodup := by decide
  have hstays : listenerDetectorName ∉ installs (since ready t) := by
    intro hmem
    rcases List.mem_filterMap.1 hmem with ⟨activity, hactivity, hinstalled⟩
    cases activity with
    | installed hook =>
        cases hinstalled
        exact (hguards _ hactivity).1 rfl
    | _ => cases hinstalled
  rcases listener_detected wrapping wrapping .direct .direct 3 3 .standard hnodup hinstallation
    .rest hregistered rfl (Option.isNone_iff_eq_none.1 hunbuilt) hstays
    (fun hook hmem => (hguards _ hmem).1 rfl) (fun activity hmem => (hguards activity hmem).2)
    hbuild with ⟨made, reached, early, late, u, v, hdetection, _, hplaced, _⟩
  exact ⟨inst, ready, t, u, v, object, made, reached, early, late, hinstallation, hbuild, htype,
    hdetection, hplaced rfl, hlisteners⟩

end Scenarios

end ObjectBootstrap
