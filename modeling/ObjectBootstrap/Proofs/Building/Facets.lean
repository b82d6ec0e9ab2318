import ObjectBootstrap.Proofs.Building.Renewal

/-!
# Facets of replaced singletons

Hooks may put another object in the place of the one that a factory made, and the capabilities that
the definition declares were meant for the latter. So it is kept as the target of its name beside
the singleton, and a view that the singleton does not offer is a view of the target. The target has
the type that the definition names, because a factory makes nothing else, so one of the two always
offers the view. Nothing takes it away later: a name whose singleton is built is spared by all
builds, and an edit of the definition changes neither its type nor its capabilities.

A definition views an object through its capabilities alone. While it is put together there is a
caster beside each capability, and one that is declared again takes the place of the older one. The
two agree in whatever order the capabilities are declared.

## Main definitions

* `Exposure`: Capabilities and casters as they are put together.
* `Definition.viewed`: The object to look at when a singleton is to be viewed.

## Theorems

* `Course.edited`: A definition that is left in place is there later.
* `Exposure.sound_ofCalls`, `Definition.cast?_eq`: Casters agree with what is declared.
* `Renewed.lasts`: What is known of a name lasts as long as its definition is left in place.
* `Renewed.facet`: The views of a singleton that is kept.
* `singleton_facets`: They are there whenever they are asked for.
-/

namespace ObjectBootstrap

variable {H : Host}

/-- A definition that is left in place is there later, with other details at most. -/
theorem Course.edited {may : Activity H → Prop} {s t : State H} (h : Course may s t)
    {d : Definition H.Factory}
    (hd : ∃ e, s.container.definitions.get? d.name = some e ∧ d.LastsAs e)
    (hupholds : ∀ activity ∈ since s t, activity.Upholds d) :
    ∃ e, t.container.definitions.get? d.name = some e ∧ d.LastsAs e := by
  rcases hd with ⟨first, hfirst, hedited⟩
  rcases Option.isSome_iff_exists.1 (h.contains_kept (Option.isSome_of_eq_some hfirst)) with
    ⟨e, he⟩
  refine ⟨e, he, ?_⟩
  rcases h.definition_of_stores he with hthere | hstored
  · rw [Option.some.inj (hthere.symm.trans hfirst)]
    exact hedited
  -- What is stored under the name is an edit, for it is not registered anew.
  rcases List.mem_filterMap.1 hstored with ⟨activity, hmem, hactivity⟩
  have hupheld := hupholds activity hmem
  cases activity with
  | registered other =>
      rcases Prod.mk.inj (Option.some.inj hactivity) with ⟨hname, _⟩
      exact absurd hname hupheld
  | updated name other =>
      rcases Prod.mk.inj (Option.some.inj hactivity) with ⟨hname, rfl⟩
      exact hupheld hname
  | _ => cases hactivity

/-- What a definition declares while it is put together: its capabilities, and for some of them a
    caster, which turns objects of the definition's type into views of one kind. -/
structure Exposure where
  capabilities : List Capability := []
  casters : List (Capability × FacetKind) := []

namespace Exposure

variable {C : Type} {x : Exposure} {c : Capability} {kind : FacetKind}

/-- Declares a capability with its caster, in place of an older one. -/
def expose (x : Exposure) (c : Capability) (kind : FacetKind) : Exposure where
  capabilities := x.capabilities ++ [c]
  casters := (c, kind) :: x.casters

/-- Declares a capability without a caster. -/
def mark (x : Exposure) (c : Capability) : Exposure :=
  { x with capabilities := x.capabilities ++ [c] }

/-- Declares a capability, and others with it, as it is to be used. -/
def declare (x : Exposure) : Capability → Exposure
  | .mutatesRegistry =>
    (x.expose .mutatesRegistry .mutator).expose .customizesFactory .customizer
  | .customizesFactory => x.expose .customizesFactory .customizer
  | .interceptsInstance => x.expose .interceptsInstance .interceptor
  | .mergesDefinitionMetadata =>
    (x.mark .mergesDefinitionMetadata).expose .interceptsInstance .interceptor
  | .listens => x.expose .listens .listener

/-- What has been declared after some calls, in the order in which they were made. -/
def ofCalls (calls : List Capability) : Exposure := calls.foldl declare {}

/-- Views an object through the caster of a capability, which takes objects of one type. -/
def cast? (x : Exposure) (typeName : String) (object : Object C) (c : Capability) :
    Option (Facet C) :=
  (x.casters.lookup c).bind fun kind =>
    if object.typeName = typeName then some ⟨kind, object⟩ else none

/-- What has a caster is declared, and what is declared and opens a view has the caster for it. -/
def Sound (x : Exposure) : Prop :=
  ∀ c, x.casters.lookup c = if c ∈ x.capabilities then c.facetKind? else none

theorem Sound.expose (h : x.Sound) (hkind : c.facetKind? = some kind) :
    (x.expose c kind).Sound := by
  intro b
  rw [Exposure.expose, List.lookup_cons]
  cases hb : b == c with
  | true =>
      obtain rfl := eq_of_beq hb
      rw [if_pos (List.mem_append_right _ (List.mem_singleton_self b)), hkind]
  | false =>
      have hother : b ≠ c := ne_of_beq_false hb
      rw [h b]
      simp only [List.mem_append, List.mem_singleton, hother, or_false]

theorem Sound.mark (h : x.Sound) (hkind : c.facetKind? = none) : (x.mark c).Sound := by
  intro b
  rw [Exposure.mark, h b]
  by_cases hb : b = c
  · subst hb
    rw [hkind, ite_self, ite_self]
  · simp only [List.mem_append, List.mem_singleton, hb, or_false]

theorem Sound.declare (h : x.Sound) (c : Capability) : (x.declare c).Sound := by
  cases c with
  | mutatesRegistry => exact (h.expose rfl).expose rfl
  | customizesFactory => exact h.expose rfl
  | interceptsInstance => exact h.expose rfl
  | mergesDefinitionMetadata => exact (h.mark rfl).expose rfl
  | listens => exact h.expose rfl

theorem Sound.declareAll (calls : List Capability) {x : Exposure} (h : x.Sound) :
    (calls.foldl Exposure.declare x).Sound := by
  induction calls generalizing x with
  | nil => exact h
  | cons c rest ih => exact ih (h.declare c)

/-- Casters agree with what is declared, in whatever order it was declared. -/
theorem sound_ofCalls (calls : List Capability) : (ofCalls calls).Sound := by
  have hnone : Sound {} := by
    intro c
    rw [if_neg List.not_mem_nil]
    rfl
  exact hnone.declareAll calls

end Exposure

namespace Definition

variable {F C : Type}

theorem capabilities_declareAll (calls : List Capability) {d : Definition F} {x : Exposure}
    (h : d.capabilities = x.capabilities) :
    (calls.foldl declare d).capabilities = (calls.foldl Exposure.declare x).capabilities := by
  induction calls generalizing d x with
  | nil => exact h
  | cons c rest ih =>
      refine ih ?_
      rw [declare, h]
      cases c with
      | mutatesRegistry => exact (List.append_assoc x.capabilities [_] [_]).symm
      | mergesDefinitionMetadata => exact (List.append_assoc x.capabilities [_] [_]).symm
      | _ => rfl

/-- A definition that is put together by some calls views objects as the casters do. -/
theorem cast?_eq {d : Definition F} {calls : List Capability}
    (h : d.capabilities = (Exposure.ofCalls calls).capabilities) (object : Object C)
    (c : Capability) : d.cast? object c = (Exposure.ofCalls calls).cast? d.typeName object c := by
  rw [cast?, hasCapability, h, Exposure.cast?, Exposure.sound_ofCalls calls c]
  by_cases hc : c ∈ (Exposure.ofCalls calls).capabilities
  · rw [if_pos hc, List.contains_iff_mem.2 hc, Bool.true_and]
    cases c.facetKind? with
    | none => rw [Option.map_none, ite_self, Option.bind_none]
    | some kind => simp only [beq_iff_eq, Option.map_some, Option.bind_some]
  · rw [if_neg hc, Bool.eq_false_iff.2 fun h => hc (List.contains_iff_mem.1 h)]
    rfl

-- What is built in advance is a singleton.
theorem isSingleton_of_isEager {d : Definition F} (h : d.isEager = true) :
    d.isSingleton = true := by
  rw [isEager, Bool.and_eq_true, Bool.and_eq_true] at h
  exact h.1.1

end Definition

/-- All capabilities open a view but the metadata mark. -/
theorem Capability.facetKind?_isSome {c : Capability} (h : c ≠ .mergesDefinitionMetadata) :
    c.facetKind?.isSome = true := by
  cases c with
  | mergesDefinitionMetadata => exact absurd rfl h
  | _ => rfl

/-- The factory of a name is called for singletons only. -/
def Singular (name : String) (chronicle : List (Activity H)) : Prop :=
  ∀ copy, .entered (.make name copy) ∈ chronicle → copy.isSingleton = true

theorem Singular.mono {name : String} {part chronicle : List (Activity H)}
    (h : Singular name chronicle) (hpart : part ⊆ chronicle) : Singular name part :=
  fun copy hmem => h copy (hpart hmem)

namespace Engine

variable {E : Engine H}

/-- A factory makes objects of the type that the definition names. -/
theorem make_typeName {name : String} {d : Definition H.Factory} {s t : State H}
    {object : Object H.Content} (h : E.make name d s = some (.ok object, t)) :
    object.typeName = d.typeName := by
  rcases run_enter_eq_some_iff.1 h with ⟨u, hmake, _⟩
  cases hmaker : d.maker with
  | placeholderConfigurer =>
      rw [hmaker] at hmake
      cases hmake
      rfl
  | hosted factory =>
      rw [hmaker] at hmake
      rcases Run.bind_eq_some_iff.1 hmake with ⟨result, v, _, hmake⟩
      cases result with
      | error failure => cases hmake
      | ok content =>
          cases hmake
          rfl

/-- The object of a name is viewed as the registry holds it when it is there. -/
theorem run_buildFacet_eq_ok {facade : Facade} {s t : State H} {name : String} {c : Capability}
    {object : Object H.Content} {facet : Facet H.Content}
    (h : (E.getOrBuild name).run s = some (.ok object, t))
    (hfacet : facade.facet? t.container name object c = some facet) :
    (E.buildFacet facade name c).run s = some (.ok facet, t) := by
  refine Attempt.run_bind_eq_ok_iff.2 ⟨object, t, h, ?_⟩
  refine Attempt.run_bind_eq_ok_iff.2 ⟨t.container, t, rfl, ?_⟩
  rw [hfacet]
  rfl

/-- The copy that a build ends with is the one that its factory was called with. -/
theorem Steps.entered (hE : E.Lawful) {s t : State H} {name : String} {d : Definition H.Factory}
    {built : Built H} (h : E.Steps (Course Anything) name d s (.ok built) t) :
    .entered (.make name built.copy) ∈ since s t := by
  cases h with
  | @finished copy made object u v _ _ hsu hmake huv _ hvt =>
      have hborne : v.log <:+ (v.bear name made).log := List.suffix_cons _ _
      exact since_subset hsu.log_suffix huv.log_suffix (hborne.trans hvt.log_suffix)
        (entered_of_make hE hmake)

theorem entered_of_construct (hE : E.Lawful) {s t : State H} {name : String}
    {d : Definition H.Factory} {built : Built H}
    (h : (E.construct name d).run s = some (.ok built, t)) :
    .entered (.make name built.copy) ∈ since s t :=
  (construct_steps hE.keeps (Course.trail Anything) (fun _ _ => trivial)
    (hE.walk fun _ _ => trivial) (fun _ => trivial) h).entered hE

/-- A singleton that a request was answered with is kept, if its factory was called with the copy of
    a singleton. -/
theorem kept_of_getOrBuild (hE : E.Lawful) {s t : State H} {name : String}
    {object : Object H.Content} (h : (E.getOrBuild name).run s = some (.ok object, t))
    (hsingular : Singular name (since s t)) :
    t.container.singletons.get? name = some object := by
  cases hkept : s.container.singletons.get? name with
  | some kept =>
      cases (run_getOrBuild_kept E hkept).symm.trans h
      exact hkept
  | none =>
      rcases run_getOrBuild_built hkept h with ⟨d, copy, x, _, hconstruct, rfl⟩
      have hname : name ∈ (s.begin name).container.inCreation :=
        List.mem_append_right _ (List.mem_singleton_self name)
      have hentry := entered_of_construct hE hconstruct
      have hcourse : Course Anything (s.begin name) x :=
        construct_follows hE (fun _ _ => trivial) hname hconstruct
      refine Renewing.singleton_of_conclude x name (hsingular copy ?_)
      exact since_subset (List.suffix_cons _ _) hcourse.log_suffix (List.suffix_cons _ _) hentry

end Engine

theorem Brought.typeName {behaviour : Behaviour H} {facade : Facade} {d : Definition H.Factory}
    {made object : Object H.Content} {past log : List (Activity H)}
    (h : Brought behaviour facade d made object past log) : made.typeName = d.typeName := by
  rcases h with ⟨_, _, _, _, _, _, he, ⟨_, _, _, _, hcopy, hmake, _⟩, _⟩
  rw [Engine.make_typeName hmake, hcopy.typeName_eq, he.typeName_eq]

/-- The object to look at when a singleton is to be viewed: the singleton, if it is of the type that
    the definition names, and what the factory made otherwise. -/
def Definition.viewed (d : Definition H.Factory) (made object : Object H.Content) :
    Object H.Content :=
  if object.typeName = d.typeName then object else made

/-- An object is viewed as itself if it is of the right type, and as the target of the name
    otherwise. -/
theorem Container.facet_of_target {k : Container H} {d e : Definition H.Factory}
    {made object : Object H.Content} {c : Capability} {kind : FacetKind}
    (hd : k.definitions.get? d.name = some e) (hedited : d.LastsAs e)
    (htarget : object.typeName ≠ d.typeName → k.targets.get? d.name = some made)
    (hmade : made.typeName = d.typeName) (hc : d.hasCapability c = true)
    (hkind : c.facetKind? = some kind) :
    k.facet? d.name object c = some ⟨kind, d.viewed made object⟩ := by
  have hcast : ∀ o : Object H.Content, e.cast? o c
      = if o.typeName = d.typeName then some ⟨kind, o⟩ else none := by
    intro o
    rcases hedited with ⟨_, _, rfl⟩
    change (if d.hasCapability c && o.typeName == d.typeName then _ else none) = _
    rw [hc, Bool.true_and, hkind]
    simp only [beq_iff_eq, Option.map_some]
  rw [facet?, hd]
  dsimp only
  rw [hcast, Definition.viewed]
  by_cases htype : object.typeName = d.typeName
  · rw [if_pos htype, if_pos htype]
  · rw [if_neg htype, if_neg htype, htarget htype, Option.bind_some, hcast, if_pos hmade]

/-- What is known of a name lasts as long as its definition is left in place. -/
theorem Renewed.lasts {behaviour : Behaviour H} {facade : Facade} {d : Definition H.Factory}
    {past : List (Activity H)} {s t : State H} (h : Renewed behaviour facade d past s)
    (hs : s.container.Coherent) (hst : AlongCourses (Renewing behaviour facade) s t)
    (hupholds : ∀ activity ∈ since s t, activity.Upholds d) :
    Renewed behaviour facade d past t := by
  rcases hst.1.log_suffix with ⟨news, hnews⟩
  rw [since_of_log hnews.symm] at hupholds
  exact (hst.2.lasts hs d past h).renewed news hnews.symm fun activity hmem =>
    hupholds activity (List.mem_reverse.2 hmem)

/-- A singleton that stems from a definition can be viewed through all its capabilities, in any
    container in which the definition and the target of its name are still the same. -/
theorem Renewed.facet {behaviour : Behaviour H} {facade : Facade} {d : Definition H.Factory}
    {past : List (Activity H)} {s : State H} {object : Object H.Content} {c : Capability}
    {kind : FacetKind} (h : Renewed behaviour facade d past s)
    (hkept : s.container.singletons.get? d.name = some object) (hc : d.hasCapability c = true)
    (hkind : c.facetKind? = some kind) :
    ∃ made, Brought behaviour facade d made object past s.log ∧
      ∀ (k : Container H) (e : Definition H.Factory),
        k.definitions.get? d.name = some e → d.LastsAs e →
        k.targets.get? d.name = s.container.targets.get? d.name →
          k.facet? d.name object c = some ⟨kind, d.viewed made object⟩ := by
  rcases h.kept object hkept with ⟨_, made, hmade, htarget⟩
  refine ⟨made, hmade, fun k e he hedited hsame => ?_⟩
  refine Container.facet_of_target he hedited (fun htype => ?_) hmade.typeName hc hkind
  -- An object of another type is not what the factory made.
  have hother : made.same object = false := by
    rw [Object.same, Bool.and_eq_false_iff]
    exact Or.inr (beq_false_of_ne fun heq => htype (heq.symm.trans hmade.typeName))
  rw [hsame, htarget, hother, if_neg Bool.false_ne_true]

/-- Let the capabilities of a singleton be declared by any calls in any order. Let the singleton not
    be built yet, and let programs run that leave its definition in place: the name is not
    registered anew, and neither an edit of the definition nor a merge of the copy that a build of
    it uses puts another definition there. As soon as a request for the singleton succeeds, every
    capability that its definition declares, other than the metadata mark, can be viewed in the way
    of its caster: with that request itself, and whenever it is asked for after other such programs
    have run. What is viewed is the same each time: the singleton, if it is of the type that the
    definition names, and otherwise what the factory made in the build from which the singleton
    came. -/
theorem singleton_facets (behaviour : Behaviour H) (facade shown : Facade) (depth depth' : Nat)
    {d : Definition H.Factory} (calls : List Capability) {s u v : State H} {α : Type}
    (program : Prog H α) {a : α} {object : Object H.Content} {c : Capability}
    (hdeclared : d.capabilities = (Exposure.ofCalls calls).capabilities)
    (hs : s.container.Coherent) (hd : s.container.definitions.get? d.name = some d)
    (hsingleton : d.isSingleton = true)
    (hunbuilt : s.container.singletons.get? d.name = none)
    (hprogram : (Engine.ofDepth behaviour facade depth).run shown program s = some (a, u))
    (hget : ((Engine.ofDepth behaviour facade depth').getOrBuild d.name).run u
      = some (.ok object, v))
    (hupholds : ∀ activity ∈ since s v, activity.Upholds d)
    (hc : c ∈ (Exposure.ofCalls calls).capabilities) (hmark : c ≠ .mergesDefinitionMetadata) :
    ∃ kind made, c.facetKind? = some kind ∧
      (Exposure.ofCalls calls).casters.lookup c = some kind ∧
      Brought behaviour facade d made object s.log v.log ∧
      ((Engine.ofDepth behaviour facade depth').buildFacet .direct d.name c).run u
        = some (.ok ⟨kind, d.viewed made object⟩, v) ∧
      ∀ (depth shown) {β : Type} (later : Prog H β) (b w),
        (Engine.ofDepth behaviour facade depth).run shown later v = some (b, w) →
        (∀ activity ∈ since v w, activity.Upholds d) → ∀ depth,
          ((Engine.ofDepth behaviour facade depth).buildFacet .direct d.name c).run w
            = some (.ok ⟨kind, d.viewed made object⟩,
              (w.note (.requested d.name)).note (.answered d.name (some object))) := by
  have hknown : Renewed behaviour facade d s.log s := .of_unbuilt ⟨d, hd, .refl d⟩ hunbuilt
  -- What is known of the name at first is known when the request is answered.
  have hway : AlongCourses (Renewing behaviour facade) s v :=
    (Renewing.gradual behaviour facade).trail.followedBy
      ((Engine.keeps_renewing behaviour facade depth).runs shown program s a u hprogram)
      (Engine.getOrBuild_renewing behaviour facade depth' d.name u _ v hget)
  have hrenewed := hknown.lasts hs hway hupholds
  -- The request is answered with the singleton, which is kept.
  have hkept : v.container.singletons.get? d.name = some object := by
    have hbefore : Course Anything s u :=
      Engine.lawful_ofDepth behaviour facade depth shown program s a u hprogram
    have hrequest : Course Anything u v :=
      Engine.getOrBuild_follows (Engine.lawful_ofDepth behaviour facade depth')
        (fun _ _ => trivial) d.name u _ v hget
    refine Engine.kept_of_getOrBuild (Engine.lawful_ofDepth behaviour facade depth') hget ?_
    intro copy hmem
    have hcopy : d.LastsAs copy := hupholds _
      (since_subset hbefore.log_suffix hrequest.log_suffix List.suffix_rfl hmem) rfl
    rw [hcopy.isSingleton_eq, hsingleton]
  rcases Option.isSome_iff_exists.1 (Capability.facetKind?_isSome hmark) with ⟨kind, hkind⟩
  have hcaster : (Exposure.ofCalls calls).casters.lookup c = some kind := by
    rw [Exposure.sound_ofCalls calls c, if_pos hc, hkind]
  have hdeclares : d.hasCapability c = true := by
    rw [Definition.hasCapability, hdeclared]
    exact List.contains_iff_mem.2 hc
  rcases hrenewed.facet hkept hdeclares hkind with ⟨made, hmade, hview⟩
  rcases hrenewed.definition with ⟨e, he, hedited⟩
  refine ⟨kind, made, hkind, hcaster, hmade,
    Engine.run_buildFacet_eq_ok hget (hview _ e he hedited rfl), ?_⟩
  intro depth shown β later b w hlater hupholds' depth'
  -- Later the singleton, its target and the definition are still there.
  have hspared := (Engine.keeps_spared behaviour facade depth).runs shown later v b w hlater
  have hsame := hspared.2 d.name trivial (Or.inr (Option.isSome_of_eq_some hkept))
    fun activity hmem => (hupholds' activity hmem).spares
  rcases hspared.1.edited ⟨e, he, hedited⟩ hupholds' with ⟨e', he', hedited'⟩
  exact Engine.run_buildFacet_eq_ok (Engine.run_getOrBuild_kept _ (hsame.singleton.trans hkept))
    (hview _ e' he' hedited' hsame.target)

namespace BuildScenarios

/-- A singleton that declares two capabilities. -/
def twofold : Definition Plan :=
  ((component "twofold" .plain).declare .mutatesRegistry).declare .listens

/-- A registry with some definitions and a hook that wraps whatever is made. -/
def wrappingAll (definitions : List (Definition Plan)) : State host where
  container := { Container.holding definitions with
    allowOverriding := true
    chain := ⟨[⟨"wrapping", .object ⟨"wrapper", 100, .hosted true⟩⟩]⟩ }
  store := ()

theorem wrappingAll_coherent {definitions : List (Definition Plan)}
    (h : (definitions.map fun d => d.name).Nodup) :
    (wrappingAll definitions).container.Coherent := by
  have hinStep := (Container.consistent_holding (H := host) h).toInStep
  refine ⟨⟨hinStep.names_nodup, hinStep.mem_names_iff⟩, List.nodup_singleton "wrapping", ?_, ?_, ?_⟩
  · intro name object h
    cases h
  · intro name h
    exact absurd h List.not_mem_nil
  · intro name target h
    cases h

def registerPart : Prog host (Except Error Unit) :=
  Prog.request (.register (component "part" .plain))

def getBoth : Prog host (Except Error (Object Bool)) := do
  let _ ← Prog.request (.getOrBuild "part")
  Prog.request (.getOrBuild "twofold")

abbrev buildEngine : Engine host := Engine.ofDepth behaviour .direct 2

/-- The singleton, with the states before it is built, after that, and after both were asked for. -/
def facetRuns : Option (State host × Object Bool × State host × State host) :=
  match buildEngine.run .direct registerPart (wrappingAll [twofold]) with
  | some (_, u) =>
    match (buildEngine.getOrBuild "twofold").run u with
    | some (.ok object, v) =>
      match buildEngine.run .direct getBoth v with
      | some (_, w) => some (u, object, v, w)
      | none => none
    | _ => none
  | none => none

-- All entries between two states leave the definition in place.
def upholdsListener (s t : State host) : Bool :=
  (since s t).all fun activity => decide (activity.Upholds twofold)

theorem report_of_facetRuns : facetRuns.map (fun r =>
    (r.2.1.typeName, upholdsListener (wrappingAll [twofold]) r.2.2.1,
      upholdsListener r.2.2.1 r.2.2.2))
      = some ("wrapped", true, true) := by
  decide +kernel

-- The three runs.
theorem runs_of_facetRuns {u v w : State host} {object : Object Bool}
    (h : facetRuns = some (u, object, v, w)) :
    (∃ a, buildEngine.run .direct registerPart (wrappingAll [twofold]) = some (a, u)) ∧
      (buildEngine.getOrBuild "twofold").run u = some (.ok object, v) ∧
      ∃ b, buildEngine.run .direct getBoth v = some (b, w) := by
  unfold facetRuns at h
  split at h
  · split at h
    · split at h
      · cases h
        exact ⟨⟨_, ‹_›⟩, ‹_›, _, ‹_›⟩
      · cases h
    · cases h
  · cases h

/-- The singleton is wrapped, and whoever wants to use it as a customizer, which it is because it is
    a mutator, is handed what the factory made, at once and later. -/
theorem wrapped_singleton_facets : ∃ (u v w : State host) (object made : Object Bool),
    (buildEngine.getOrBuild "twofold").run u = some (.ok object, v) ∧
    object.typeName = "wrapped" ∧ made.typeName = "twofold" ∧
    Brought behaviour .direct twofold made object (wrappingAll [twofold]).log v.log ∧
    (buildEngine.buildFacet .direct "twofold" .customizesFactory).run u
      = some (.ok ⟨.customizer, made⟩, v) ∧
    (buildEngine.buildFacet .direct "twofold" .customizesFactory).run w
      = some (.ok ⟨.customizer, made⟩,
        (w.note (.requested "twofold")).note (.answered "twofold" (some object))) := by
  rcases Option.map_eq_some_iff.1 report_of_facetRuns with ⟨⟨u, object, v, w⟩, hruns, hreport⟩
  simp only [Prod.mk.injEq, upholdsListener, List.all_eq_true, decide_eq_true_eq] at hreport
  rcases hreport with ⟨htype, hfirst, hlater⟩
  rcases runs_of_facetRuns hruns with ⟨⟨a, hregister⟩, hget, b, hboth⟩
  have hdeclared : twofold.capabilities
      = (Exposure.ofCalls [.mutatesRegistry, .listens]).capabilities :=
    Definition.capabilities_declareAll [.mutatesRegistry, .listens]
      (d := component "twofold" .plain) rfl
  rcases singleton_facets behaviour .direct .direct 2 2 [.mutatesRegistry, .listens] registerPart
    (d := twofold) (c := .customizesFactory) hdeclared (wrappingAll_coherent (by decide))
    rfl rfl rfl hregister hget hfirst (by decide) (by decide) with
    ⟨kind, made, hkind, hcaster, hmade, hnow, hthen⟩
  cases hkind
  have hview : twofold.viewed made object = made := if_neg (by rw [htype]; decide)
  have hthen := hthen 2 .direct getBoth b w hboth hlater 2
  rw [hview] at hnow hthen
  exact ⟨u, v, w, object, made, hget, htype, hmade.typeName, hmade, hnow, hthen⟩

/-- The answer to a request for the singleton, and whether there is a view of it as a listener at
    once and after a request for another object. -/
def viewedTwice (behaviour : Behaviour host) (s : State host) : Option (Bool × Bool × Bool) := do
  let engine := Engine.ofDepth behaviour .direct 3
  let (object, t) ← (engine.getOrBuild "twofold").run s
  let (facet, u) ← (engine.buildFacet .direct "twofold" .listens).run t
  let (_, v) ← (engine.getOrBuild "plain").run u
  let (later, _) ← (engine.buildFacet .direct "twofold" .listens).run v
  return (object.toBool, facet.toBool, later.toBool)

/-- As `behaviour`, except that the factory of the other object registers the singleton anew,
    without its capabilities. -/
def redeclaring : Behaviour host := { behaviour with
  make := fun plan d => do
    if d.name = "plain" then
      let _ ← Prog.request (.register (component "twofold" .plain))
    behaviour.make plan d }

/-- As `behaviour`, except that a hook puts a prototype in the place of the copy that a build
    uses. -/
def copySwapping : Behaviour host := { behaviour with
  merge := fun _ _ d => .done (.ok { d with scope := .prototype }) }

/-- A singleton that listens is built and viewed as a listener, but no longer when the factory of
    another object has registered it anew. And if a hook puts a prototype in the place of its copy,
    then there is no such view at all. -/
theorem facets_lost :
    twofold.isSingleton = true ∧ twofold.hasCapability .listens = true ∧
    viewedTwice redeclaring (wrappingAll [twofold, component "plain" .plain])
      = some (true, true, false) ∧
    viewedTwice copySwapping (wrappingAll [twofold, component "plain" .plain])
      = some (true, false, false) := by
  decide +kernel

end BuildScenarios

end ObjectBootstrap
