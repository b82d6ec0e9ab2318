import ObjectBootstrap.Proofs.Application.Delivery
import ObjectBootstrap.Proofs.Building.Detection
import ObjectBootstrap.Proofs.Installation.Additions

/-!
# What a failed build leaves of the listeners

The listener detector subscribes an object before its build is over. If a hook behind the detector
fails, the build ends in an error and the object is not kept, but nobody takes back the
subscription. An installation puts the detector at the end of the chain, so only a hook that was
installed since then can fail behind it. All other failures come before the detector is called, and
then whatever becomes of the listeners is the doing of the hooks and factories themselves.

## Main definitions

* `Engine.Discreet`: The calls of a build leave the listeners alone, except for the detector.
* `Collapse`: The steps of a build that fails.
* `Relapse`: A failed build that came past the detector, and what is left of it.

## Theorems

* `Amid.chain_around`: At each moment after an installation the detector stands between hooks that
  were there and hooks that are new.
* `Engine.run_construct_error`: A build that fails collapses at one of its steps.
* `Passage.fails_early_or_late`: A walk that fails does so in front of a part of the chain or in it.
* `failed_build_subscribes`: What a failed build leaves of the listeners.
-/

namespace ObjectBootstrap

variable {H : Host}

namespace Amid

variable {s t : State H}

/-- At each moment of a run the chain is what the installations up to then have made of it. -/
theorem chain_addAll (h : Amid s t) :
    ∃ added : List (ChainEntry H.Content), added.map ChainEntry.name = installs (since s t) ∧
      t.container.chain = s.container.chain.addAll added := by
  induction h with
  | rest => exact ⟨[], by rw [since_self]; rfl, rfl⟩
  | goesOn h1 h2 ih =>
      rcases ih with ⟨early, hearly, hmid⟩
      rcases h2.chain_addAll with ⟨late, hlate, hlast⟩
      refine ⟨early ++ late, ?_, ?_⟩
      · rw [List.map_append, since_append h1.log_suffix h2.log_suffix, installs_append, hearly,
          hlate]
      · rw [HookChain.addAll_append, ← hmid, hlast]
  | enters point h ih =>
      rw [h.installs_note _ rfl]
      exact ih
  | asks name h ih =>
      rw [h.installs_note _ rfl]
      exact ih
  | begins _ _ hk ih =>
      rcases Container.beginCreation_eq_ok hk with ⟨_, rfl⟩
      exact ih

/-- The last hook of a chain stays there unless it is installed again. No hook is new in front of
    it, and behind it stand those that were installed in the meantime. -/
theorem chain_around (h : Amid s t) {front : List (ChainEntry H.Content)}
    {entry : ChainEntry H.Content} (hs : s.container.chain.entries = front ++ [entry])
    (hnot : entry.name ∉ installs (since s t)) :
    ∃ early late, t.container.chain.entries = early ++ entry :: late ∧ early ⊆ front ∧
      ∀ other ∈ late, other.name ∈ installs (since s t) := by
  rcases h.chain_addAll with ⟨added, hadded, hchain⟩
  rw [← hadded] at hnot ⊢
  refine ⟨front.filter fun e => e.name ∉ added.map ChainEntry.name, latest added, ?_,
    fun _ => List.mem_of_mem_filter, fun other hmem => ?_⟩
  · rw [hchain, HookChain.entries_addAll, hs, List.filter_append,
      List.filter_cons_of_pos (by simpa using hnot), List.filter_nil, List.append_assoc,
      List.singleton_append]
  · rcases mem_latest_iff.1 hmem with ⟨earlier, later, rfl, -⟩
    exact List.mem_map_of_mem (List.mem_append_right _ List.mem_cons_self)

end Amid

/-- The calls that a build makes between two states of a run leave what there is to see of the
    listeners as it is, except for those of the detector. -/
structure Engine.Discreet {α : Type} (look : NameTable (Object H.Content) → α) (E : Engine H)
    (name : String) (s t : State H) : Prop where
  merge (entry : ChainEntry H.Content) (copy : Definition H.Factory) :
    (E.merge entry name copy).Leaves look s t
  make (copy : Definition H.Factory) : (E.make name copy).Leaves look s t
  intercept (stage : Stage) (entry : ChainEntry H.Content) (object : Object H.Content) :
    (stage = .after → entry.hook ≠ .listenerDetector) →
      (E.intercept stage entry name object).Leaves look s t

/-- The steps of a build up to the walk behind the initialization. -/
inductive Prepared (E : Engine H) (name : String) (d : Definition H.Factory) (s : State H) :
    Object H.Content → State H → Prop
  | steps {copy : Definition H.Factory} {made next : Object H.Content} {a b w : State H} :
    Offers E name s.container.chain.entries d s (.ok copy) a →
      E.Produces name copy a (.ok made) b →
      Passage E .before name b.container.chain.entries made
        ((b.bear name made).setOut .before name) (.ok next) w →
      Prepared E name d s next w

/-- The steps of a build that fails. -/
inductive Collapse (E : Engine H) (name : String) (d : Definition H.Factory) (s : State H) :
    Error → State H → Prop
  /-- A hook fails on the copy of the definition. -/
  | unmerged {e : Error} {t : State H} :
    Offers E name s.container.chain.entries d s (.error e) t → Collapse E name d s e t
  /-- The factory fails. -/
  | unmade {copy : Definition H.Factory} {failure : Failure} {a t : State H} :
    Offers E name s.container.chain.entries d s (.ok copy) a →
      E.Produces name copy a (.error failure) t →
      Collapse E name d s (Engine.makeError name failure) t
  /-- A hook fails before the initialization. -/
  | unready {copy : Definition H.Factory} {made : Object H.Content} {e : Error} {a b t : State H} :
    Offers E name s.container.chain.entries d s (.ok copy) a →
      E.Produces name copy a (.ok made) b →
      Passage E .before name b.container.chain.entries made
        ((b.bear name made).setOut .before name) (.error e) t →
      Collapse E name d s e t
  /-- A hook fails behind the initialization. -/
  | unfinished {next : Object H.Content} {e : Error} {w t : State H} :
    Prepared E name d s next w →
      Passage E .after name w.container.chain.entries next (w.setOut .after name) (.error e) t →
      Collapse E name d s e t

/-- A failed build that came past the detector. The failure is that of a hook behind it. The
    detector has added at most one listener under the name of the build, which it saw in the object
    that it was handed; and it found, and left, the listeners as far as the other calls of the build
    do not change them. -/
structure Relapse (E : Engine H) (name : String) (installed : List String) (s : State H) (e : Error)
    (t : State H) : Prop where
  failure : ∃ hook source, hook ∈ installed ∧ e = .hookExecution hook .afterInitialization source
  trace : ∃ reached, ∃ late : List (ChainEntry H.Content), ∃ u v,
    (∀ entry ∈ late, entry.name ∈ installed) ∧
    E.Hands .after (listenerDetector H.Content) name reached u (.ok (some reached)) v ∧
    (v.listeners = u.listeners ∨ ∃ listener,
      E.facade.facet? u.container name reached .listens = some ⟨.listener, listener⟩ ∧
        v.listeners = u.listeners.insert name listener) ∧
    ∀ {α : Type} (look : NameTable (Object H.Content) → α),
      (E.Discreet look name (s.begin name) u → look u.listeners = look s.listeners) ∧
        (E.Departs look name late v t → look t.listeners = look v.listeners)

namespace Passage

variable {E : Engine H} {stage : Stage} {name : String} {early rest : List (ChainEntry H.Content)}
  {object : Object H.Content} {result : Except Error (Object H.Content)} {e : Error} {s t : State H}

/-- A walk that fails does so in the first part of the chain, or it comes through that. -/
theorem fails_early_or_late (h : Passage E stage name (early ++ rest) object s (.error e) t) :
    Passage E stage name early object s (.error e) t ∨
      ∃ reached u, Passage E stage name early object s (.ok reached) u ∧
        Passage E stage name rest reached u (.error e) t := by
  induction early generalizing object s with
  | nil => exact Or.inr ⟨object, s, .all object s, h⟩
  | cons entry early ih =>
      cases h with
      | fails hcalled => exact Or.inl (.fails hcalled)
      | goesOn hcalled hrest =>
          rcases ih hrest with hearly | ⟨reached, u, hearly, hlate⟩
          · exact Or.inl (.goesOn hcalled hearly)
          · exact Or.inr ⟨reached, u, .goesOn hcalled hearly, hlate⟩

/-- The failure of a walk is that of one of the hooks. -/
theorem failing_hook (h : Passage E stage name early object s result t)
    (hresult : result = .error e) :
    ∃ entry ∈ early, ∃ source, e = .hookExecution entry.name stage.phase source := by
  induction h with
  | all object s => cases hresult
  | stops _ => cases hresult
  | @fails entry _ _ source _ _ _ =>
      cases hresult
      exact ⟨entry, List.mem_cons_self, source, rfl⟩
  | goesOn _ _ ih =>
      rcases ih hresult with ⟨entry, hmem, hfailure⟩
      exact ⟨entry, List.mem_cons_of_mem _ hmem, hfailure⟩

end Passage

namespace Engine.Discreet

variable {E : Engine H} (hE : E.Lawful) {name : String} {d copy : Definition H.Factory}
  {s t u v x : State H} {α : Type} {look : NameTable (Object H.Content) → α}
  (h : E.Discreet look name s x)
include hE h

theorem offering {entries : List (ChainEntry H.Content)}
    {result : Except Error (Definition H.Factory)} (hoffers : Offers E name entries d s result t)
    (htx : t.log <:+ x.log) : look t.listeners = look s.listeners :=
  hoffers.leaves hE h.merge (.rest s) htx

theorem making {entries : List (ChainEntry H.Content)}
    {answer : Except Failure (Object H.Content)} (hoffers : Offers E name entries d s (.ok copy) t)
    (hmake : E.Produces name copy t answer u) (hux : u.log <:+ x.log) :
    look u.listeners = look s.listeners := by
  have htx : t.log <:+ x.log := (hmake.course hE).log_suffix.trans hux
  have hmade := h.make copy _ _ _ (hoffers.course hE) hux (Engine.run_make_iff.2 hmake)
  exact hmade.trans (h.offering hE hoffers htx)

theorem preparing {entries entries' : List (ChainEntry H.Content)} {made : Object H.Content}
    {result : Except Error (Object H.Content)} (hname : name ∈ s.container.inCreation)
    (hoffers : Offers E name entries d s (.ok copy) t)
    (hmake : E.Produces name copy t (.ok made) u)
    (hbefore : Passage E .before name entries' made ((u.bear name made).setOut .before name)
      result v) (hvx : v.log <:+ x.log) :
    look v.listeners = look s.listeners := by
  have hux : u.log <:+ x.log :=
    (List.suffix_cons _ _).trans ((hbefore.course_setOut hE).log_suffix.trans hvx)
  have hwalked := (hoffers.borne hE hname hmake).followedBy
    (.deed (.walk (u.bear name made) .before name) trivial)
  have hleaves := hbefore.leaves hE
    (fun entry _ object => h.intercept .before entry object nofun) hwalked hvx
  have hmade := h.making hE hoffers hmake hux
  exact hleaves.trans hmade

theorem finishing {entries : List (ChainEntry H.Content)} {object : Object H.Content}
    {result : Except Error (Object H.Content)}
    (hother : ∀ entry ∈ entries, entry.hook ≠ .listenerDetector) (hsu : Course Anything s u)
    (hafter : Passage E .after name entries object u result v) (hvx : v.log <:+ x.log) :
    look v.listeners = look u.listeners :=
  hafter.leaves hE
    (fun entry hmem object => h.intercept .after entry object fun _ => hother entry hmem) hsu hvx

end Engine.Discreet

namespace Prepared

variable {E : Engine H} (hE : E.Lawful) {name : String} {d : Definition H.Factory}
  {s w x : State H} {next : Object H.Content} (hname : name ∈ s.container.inCreation)
include hE hname

theorem course (h : Prepared E name d s next w) : Course Anything s w := by
  cases h with
  | steps hoffers hmake hbefore =>
      exact (hoffers.borne hE hname hmake).followedBy (hbefore.course_setOut hE)

theorem leaves (h : Prepared E name d s next w) {α : Type}
    {look : NameTable (Object H.Content) → α} (hlook : E.Discreet look name s x)
    (hwx : w.log <:+ x.log) : look w.listeners = look s.listeners := by
  cases h with
  | steps hoffers hmake hbefore => exact hlook.preparing hE hname hoffers hmake hbefore hwx

end Prepared

namespace Engine

variable {E : Engine H} {name : String} {d : Definition H.Factory} {s t : State H} {e : Error}

/-- A build that fails collapses at one of its steps. -/
theorem run_construct_error (hE : E.Lawful)
    (h : (E.construct name d).run s = some (.error e, t)) : Collapse E name d s e t := by
  cases construct_steps hE.keeps (Course.trail Anything) (fun _ _ => trivial)
    (hE.walk fun _ _ => trivial) (fun _ => trivial) h with
  | unmerged hmerge _ => exact .unmerged (run_mergeThrough_iff.1 hmerge)
  | unmade hmerge _ hmake _ =>
      exact .unmade (run_mergeThrough_iff.1 hmerge) (run_make_iff.1 hmake)
  | unfinished hmerge _ hmake _ hrun _ =>
      have hoffers := run_mergeThrough_iff.1 hmerge
      have hmade := run_make_iff.1 hmake
      rcases Attempt.run_bind_eq_some_iff.1 (run_finish_walks hrun) with
        ⟨_, hbefore, herror⟩ | ⟨next, w, hbefore, hafter⟩
      · cases herror
        exact .unready hoffers hmade (run_walk_passage hbefore)
      · have hprepared : Prepared E name d s next w :=
          .steps hoffers hmade (run_walk_passage hbefore)
        exact .unfinished hprepared (run_walk_passage hafter)

/-- A request that fails leaves the listeners alone, or it is the build that fails. -/
theorem collapse_of_getOrBuild (hE : E.Lawful)
    (h : (E.getOrBuild name).run s = some (.error e, t)) :
    t.listeners = s.listeners ∨ ∃ d x, s.container.singletons.get? name = none ∧
      s.container.definitions.get? name = some d ∧
      s.container.beginCreation name = .ok (s.begin name).container ∧
      Collapse E name d (s.begin name) e x ∧ t = x.conclude name (.error e) := by
  rcases run_getOrBuild_eq_some h with ⟨u, hobtain, rfl⟩
  rcases run_obtain_cases hobtain with ⟨⟨_, _, hok⟩, _⟩ | ⟨_, _, _, rfl⟩ |
    ⟨hunkept, d, hd, ⟨_, _, rfl⟩ | ⟨_, hbuild⟩⟩
  · cases hok
  · exact Or.inl rfl
  · exact Or.inl rfl
  · rcases run_build_cases hbuild with ⟨_, _, _, rfl⟩ | ⟨k, built, x, hk, hconstruct, hbuilt, rfl⟩
    · exact Or.inl rfl
    · rcases Container.beginCreation_eq_ok hk with ⟨_, rfl⟩
      cases built with
      | ok _ => cases hbuilt
      | error _ =>
          cases hbuilt
          exact Or.inr ⟨d, x, hunkept, hd, hk, run_construct_error hE hconstruct, rfl⟩

/-- The detector leaves the listeners as they are, or adds the one that it sees. -/
theorem intercept_detector_listeners {object : Object H.Content}
    {answer : Except Failure (Option (Object H.Content))}
    (h : E.Hands .after (listenerDetector H.Content) name object s answer t) :
    t.listeners = s.listeners ∨ ∃ listener,
      E.facade.facet? s.container name object .listens = some ⟨.listener, listener⟩ ∧
        t.listeners = s.listeners.insert name listener := by
  rcases h with ⟨u, ⟨hdetect, _⟩, rfl⟩
  rcases run_detectListener_cases hdetect with rfl | ⟨listener, hsees, rfl⟩
  · exact Or.inl rfl
  · exact Or.inr ⟨listener, hsees, rfl⟩

end Engine

/-- If no other detector stands in front of the one at hand, and behind it none but hooks of some
    names, a build that fails either does so before it comes to the detector, or it is one of these
    hooks that fails. -/
theorem Collapse.early_or_late {E : Engine H} (hE : E.Lawful) {name : String}
    {d : Definition H.Factory} {s x t : State H} {e : Error} {installed : List String}
    (hdetector : ∀ w, Course Anything (s.begin name) w → w.log <:+ x.log →
      ∃ early late, w.container.chain.entries = early ++ listenerDetector H.Content :: late ∧
        (∀ entry ∈ early, entry.hook ≠ .listenerDetector) ∧
        ∀ entry ∈ late, entry.name ∈ installed)
    (h : Collapse E name d (s.begin name) e x) (hend : t.listeners = x.listeners)
    (hxt : x.log <:+ t.log) :
    (∀ {α : Type} (look : NameTable (Object H.Content) → α),
      E.Discreet look name (s.begin name) t → look t.listeners = look s.listeners) ∨
    Relapse E name installed s e t := by
  have hname : name ∈ (s.begin name).container.inCreation :=
    List.mem_append_right _ (List.mem_singleton_self name)
  cases h with
  | unmerged hoffers => exact Or.inl fun look hlook => hend ▸ hlook.offering hE hoffers hxt
  | unmade hoffers hmake => exact Or.inl fun look hlook => hend ▸ hlook.making hE hoffers hmake hxt
  | unready hoffers hmake hbefore =>
      exact Or.inl fun look hlook => hend ▸ hlook.preparing hE hname hoffers hmake hbefore hxt
  | @unfinished next _ w _ hprepared hafter =>
      have hready := hprepared.course hE hname
      have hset := hready.followedBy (.deed (.walk w .after name) trivial)
      rcases hdetector w hready (hafter.course_setOut hE).log_suffix with
        ⟨early, late, hentries, hfront, hlate⟩
      have hreached : ∀ {result u},
          Passage E .after name early next (w.setOut .after name) result u →
          ∀ {α : Type} (look : NameTable (Object H.Content) → α) (y : State H),
            E.Discreet look name (s.begin name) y → u.log <:+ y.log →
              look u.listeners = look s.listeners := by
        intro result u hearly α look y hlook huy
        have hfinishing := hlook.finishing hE hfront hset hearly huy
        exact hfinishing.trans (hprepared.leaves hE hname hlook
          ((hearly.course_setOut hE).log_suffix.trans huy))
      rw [hentries] at hafter
      rcases hafter.fails_early_or_late with hfailed | ⟨reached, u, hearly, hrest⟩
      · exact Or.inl fun look hlook => hend ▸ hreached hfailed look t hlook hxt
      · cases hrest with
        | fails hcalled => cases Engine.answer_of_detector (Engine.run_intercept_iff.2 hcalled)
        | @goesOn _ _ _ _ _ _ v _ hcalled hfailed =>
            cases Engine.answer_of_detector (Engine.run_intercept_iff.2 hcalled)
            rcases hfailed.failing_hook rfl with ⟨entry, hmem, source, hfailure⟩
            have hdetected := Engine.intercept_detector_listeners hcalled
            refine Or.inr ⟨⟨entry.name, source, hlate entry hmem, hfailure⟩, reached, late, u, v,
              hlate, hcalled, hdetected, fun look => ⟨fun hlook => ?_, fun hleaves => ?_⟩⟩
            · exact hreached hearly look u hlook List.suffix_rfl
            · exact hend ▸ hfailed.leaves hE hleaves (.rest v) hxt

/-- A request is made at some moment after an installation that put the only detector at the end of
    the chain, and it fails, while nothing was installed in place of that detector. Either nobody is
    subscribed but by the calls that the build makes of its hooks and its factory, and what they
    leave as it is stays as it was. Or the failure is that of a hook that was installed since the
    installation, which is called behind the detector, and one listener may be left under the name
    of the build. -/
theorem failed_build_subscribes (behaviour behaviour' : Behaviour H) (facade facade' shown : Facade)
    (depth depth' : Nat) (config : Config) {bare ready s t : State H} {inst : Installation}
    {name : String} {e : Error}
    (hinstallation : ((Engine.ofDepth behaviour facade depth).installationPhase shown config).run
      bare = some (.ok inst, ready))
    (hsole : ∀ entry ∈ ready.container.chain.entries.dropLast, entry.hook ≠ .listenerDetector)
    (hamid : Amid ready s) (hstays : listenerDetectorName ∉ installs (since ready t))
    (h : ((Engine.ofDepth behaviour' facade' depth').getOrBuild name).run s
      = some (.error e, t)) :
    (∀ {α : Type} (look : NameTable (Object H.Content) → α),
      (Engine.ofDepth behaviour' facade' depth').Discreet look name (s.begin name) t →
      look t.listeners = look s.listeners) ∨
    (∃ d, s.container.definitions.get? name = some d) ∧
      Relapse (Engine.ofDepth behaviour' facade' depth') name (installs (since ready t)) s e t := by
  have hE : (Engine.ofDepth behaviour' facade' depth').Lawful :=
    Engine.lawful_ofDepth behaviour' facade' depth'
  have hE' : (Engine.ofDepth behaviour facade depth).Lawful :=
    Engine.lawful_ofDepth behaviour facade depth
  have hlast := (Engine.installationPhase_last hE' hinstallation).2.1
  have hready := (List.dropLast_append_getLast? _ hlast).symm
  rcases Engine.collapse_of_getOrBuild hE h with hsame | ⟨d, x, hunkept, hd, hbegins,
    hcollapse, rfl⟩
  · exact Or.inl fun look _ => congrArg look hsame
  · have hbegun : Amid ready (s.begin name) := .begins (.asks name hamid) hunkept hbegins
    have hend : (x.conclude name (.error e)).listeners = x.listeners := rfl
    have hxt : x.log <:+ (x.conclude name (.error e)).log := List.suffix_cons _ _
    have hdetector : ∀ w, Course Anything (s.begin name) w → w.log <:+ x.log →
        ∃ early late, w.container.chain.entries = early ++ listenerDetector H.Content :: late ∧
          (∀ entry ∈ early, entry.hook ≠ .listenerDetector) ∧
          ∀ entry ∈ late,
            entry.name ∈ installs (since ready (x.conclude name (.error e))) := by
      intro w hw hlog
      have hmoment := hbegun.goesOn hw
      have hpart : installs (since ready w)
          ⊆ installs (since ready (x.conclude name (.error e))) :=
        List.filterMap_subset _ (since_subset List.suffix_rfl hmoment.log_suffix
          (hlog.trans hxt))
      rcases hmoment.chain_around hready fun hmem => hstays (hpart hmem) with
        ⟨early, late, hentries, hearly, hlate⟩
      exact ⟨early, late, hentries, fun entry hmem => hsole entry (hearly hmem),
        fun entry hmem => hpart (hlate entry hmem)⟩
    exact (hcollapse.early_or_late hE hdetector hend hxt).imp_right fun hlate => ⟨⟨d, hd⟩, hlate⟩

namespace Scenarios

/-- As `behaviour`, except that a failing hook fails on what comes past it behind the
    initialization. -/
def failingAfter : Behaviour host := { Scenarios.behaviour with
  intercept := fun stage fails object _ => do
    if fails && stage = .after then return .error (.plain "broken")
    else return .ok (some object) }

abbrev failingEngine : Engine host := Engine.ofDepth failingAfter .direct 3

/-- A failing hook that is registered like any other. -/
def failingHook : Definition Bool := { interceptor "failing" {} false with maker := .hosted true }

/-- Nobody subscribes anybody but the detector. -/
theorem failingEngine_discreet {α : Type} (look : NameTable (Object Bool) → α) (name : String)
    (s t : State host) : failingEngine.Discreet look name s t := by
  refine ⟨fun entry copy w a w' _ _ h => ?_, fun copy w a w' _ _ h => ?_,
    fun stage entry object hother w a w' _ _ h => ?_⟩
  · rcases Engine.run_enter_eq_some_iff.1 h with ⟨u, hcall, rfl⟩
    rcases entry with ⟨hook, ⟨_, _, substance⟩ | _ | _⟩
    · cases substance <;> cases hcall <;> rfl
    · cases hcall
      rfl
    · cases hcall
      rfl
  · rcases Engine.run_enter_eq_some_iff.1 h with ⟨u, hcall, rfl⟩
    cases hmaker : copy.maker <;> rw [hmaker] at hcall <;> cases hcall <;> rfl
  · rcases Engine.run_enter_eq_some_iff.1 h with ⟨u, hcall, rfl⟩
    rcases entry with ⟨hook, ⟨_, _, substance⟩ | _ | _⟩
    · rcases substance with content | _
      · cases content <;> cases stage <;> cases hcall <;> rfl
      · cases hcall
        rfl
    · cases stage <;> cases hcall <;> rfl
    · cases stage
      · cases hcall
        rfl
      · exact absurd rfl (hother rfl)

/-- Whether a hook is the listener detector. -/
def detects (entry : ChainEntry Bool) : Bool :=
  match entry.hook with
  | .listenerDetector => true
  | _ => false

/-- The failing hook is installed in front of the detector, and then the listener is asked for. -/
def failingBeforeDetector : Option ((Except Error Installation × State host) ×
    (Except Error (Object Bool) × State host)) :=
  ((failingEngine.installationPhase .direct .standard).run
      (stateOf [listener, failingHook])).bind fun r =>
    ((failingEngine.getOrBuild "listener").run r.2).map fun q => (r, q)

theorem report_of_failingBeforeDetector : failingBeforeDetector.map (fun r =>
    ((answer? (some r.1)).map Installation.chain, r.2.1.toBool,
      r.1.2.container.chain.entries.dropLast.any detects, installs (since r.1.2 r.2.2)))
      = some (some [sentinelName, "failing", listenerDetectorName], false, false, []) := by
  decide +kernel

/-- A failing hook in front of the detector keeps the listener from being built, and nobody is
    subscribed. -/
theorem early_failing_hook_unsubscribed :
    ∃ (inst : Installation) (ready t : State host) (e : Error),
    (failingEngine.installationPhase .direct .standard).run (stateOf [listener, failingHook])
      = some (.ok inst, ready) ∧
    (failingEngine.getOrBuild "listener").run ready = some (.error e, t) ∧
      t.listeners = ready.listeners := by
  rcases Option.map_eq_some_iff.1 report_of_failingBeforeDetector with
    ⟨⟨⟨phase, ready⟩, built, t⟩, hruns, hreport⟩
  simp only [Prod.mk.injEq] at hreport
  rcases hreport with ⟨hinst, hfailed, hsole, hnothing⟩
  rcases Option.map_eq_some_iff.1 hinst with ⟨inst, hanswer, _⟩
  rcases exists_of_answer? hanswer with ⟨_, hend⟩
  cases hend
  rcases Option.bind_eq_some_iff.1 hruns with ⟨_, hinstallation, hbuilding⟩
  rcases Option.map_eq_some_iff.1 hbuilding with ⟨_, hbuild, hpair⟩
  cases hpair
  match built with
  | .ok object => cases hfailed
  | .error e =>
    refine ⟨inst, ready, t, e, hinstallation, hbuild, ?_⟩
    have hfront : ∀ entry ∈ ready.container.chain.entries.dropLast,
        entry.hook ≠ .listenerDetector := by
      intro entry hmem hdetector
      have hother := List.any_eq_false.1 hsole entry hmem
      rw [detects, hdetector] at hother
      exact hother rfl
    have hstays : listenerDetectorName ∉ installs (since ready t) := by
      rw [hnothing]
      exact List.not_mem_nil
    rcases failed_build_subscribes failingAfter failingAfter .direct .direct .direct 3 3 .standard
      hinstallation hfront .rest hstays hbuild with hearly | ⟨_, ⟨_, _, hmem, _⟩, _⟩
    · exact hearly id (failingEngine_discreet id "listener" _ _)
    · rw [hnothing] at hmem
      exact absurd hmem List.not_mem_nil

/-- The failing hook is installed behind the detector. Then the listener is asked for, and an event
    is published. -/
def lateFailingHook : Option ((Except Error (Object Bool) × State host) × Nat) :=
  ((failingEngine.installationPhase .direct .standard).run (stateOf [listener])).bind fun r =>
    (failingEngine.answer .direct
        (.install "failing" ⟨"failing", 300, .hosted true⟩) r.2).bind fun q =>
      ((failingEngine.getOrBuild "listener").run q.2).bind fun b =>
        (failingEngine.answer .direct (.publish ⟨"event", .null⟩) b.2).map fun p => (b, p.1)

/-- A late failing hook keeps the listener from being built as well, and nobody was subscribed
    before. But the listener that could not be built is told of the event. -/
theorem late_failing_hook_subscribes :
    ((failingEngine.installationPhase .direct .standard).run (stateOf [listener])).map
      (fun r => (r.1.toBool, r.2.listeners.names)) = some (true, []) ∧
    lateFailingHook.map (fun r => (r.1.1.toBool, r.1.2.container.containsSingleton "listener",
      r.1.2.listeners.names, r.2)) = some (false, false, ["listener"], 1) := by
  decide +kernel

end Scenarios

end ObjectBootstrap
