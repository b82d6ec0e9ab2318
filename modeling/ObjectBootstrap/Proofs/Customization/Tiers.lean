import ObjectBootstrap.Proofs.Mutation.FixedPoint

/-!
# Tiers of customizers

The customization phase divides the names that it is given among the tiers, builds them tier by tier
and calls each tier in the order of its sort. Where a name goes is looked up when its turn comes,
and customizers that were called before may have moved it. But each name goes into one tier and is
built and called there, so what the phase calls is what it was given, in some order.

## Main definitions

* `Config.customizerQuery`: The query by which factory customizers are looked for.

## Theorems

* `Engine.divide_perm`: The tiers hold the names that were divided, each as often as it was given.
* `Engine.run_customizationPhase_parts`: A customization phase, part by part.
* `Engine.customizationPhase_perm`: The phase calls what a query answers and no mutator was.
-/

namespace ObjectBootstrap

variable {H : Host} {α : Type}

/-- The query by which factory customizers are looked for. -/
def Config.customizerQuery (config : Config) : CapabilityQuery :=
  ⟨.customizesFactory, config.includeNonSingletons, config.allowEagerInit⟩

namespace Engine

variable {E : Engine H} {shown : Facade}

-- A tier is called in the order of its sort.
theorem customizeTier_turns {tier : List (Ranked (Object H.Content))} {order : List String}
    {s t : State H} (h : (E.customizeTier shown tier).run s = some (.ok order, t)) :
    order = (running tier).map Prod.fst ∧
      E.Turns shown (customizations (running tier)) s (.ok ()) t := by
  rcases Attempt.run_bind_eq_ok_iff.1 h with ⟨_, u, hcall, hpure⟩
  cases hpure
  exact ⟨rfl, customizeEach_turns hcall⟩

-- A built customizer has the name of its candidate.
theorem buildCustomizer_name {candidate : Candidate} {r : Ranked (Object H.Content)}
    {s t : State H} (h : (E.buildCustomizer shown candidate).run s = some (.ok r, t)) :
    r.name = candidate.1 := by
  rcases Attempt.run_bind_eq_ok_iff.1 h with ⟨hook, u, _, hpure⟩
  cases hpure
  rfl

-- What candidates and what is built of them have in common they have in common in turn.
theorem buildEach_map {γ : Type} {build : Candidate → Attempt H (Ranked α)} {f : Ranked α → γ}
    {g : Candidate → γ}
    (hbuild : ∀ {candidate r s t}, (build candidate).run s = some (.ok r, t) →
      f r = g candidate) :
    ∀ {candidates : List Candidate} {hooks : List (Ranked α)} {s t : State H},
      (buildEach build candidates).run s = some (.ok hooks, t) →
        hooks.map f = candidates.map g := by
  intro candidates
  induction candidates with
  | nil =>
      intro hooks s t h
      cases h
      rfl
  | cons candidate rest ih =>
      intro hooks s t h
      rcases Attempt.run_bind_eq_ok_iff.1 h with ⟨hook, u, hfirst, hrest⟩
      rcases Attempt.run_bind_eq_ok_iff.1 hrest with ⟨more, v, hmore, hpure⟩
      cases hpure
      rw [List.map_cons, List.map_cons, hbuild hfirst, ih hmore]

section Build

variable {build : Candidate → Attempt H (Ranked α)}
  (hbuild : ∀ {candidate r s t}, (build candidate).run s = some (.ok r, t) →
    r.name = candidate.1)
include hbuild

-- Candidates that are built in turn keep their names.
theorem buildEach_names {candidates : List Candidate} {hooks : List (Ranked α)} {s t : State H}
    (h : (buildEach build candidates).run s = some (.ok hooks, t)) :
    hooks.map Ranked.name = candidates.map Prod.fst :=
  buildEach_map hbuild h

/-- The tiers hold the names that were divided, each as often as it was given. -/
theorem divide_perm {facade : Facade} :
    ∀ {names : List String} {division : Division α} {s t : State H},
      (divide facade build names).run s = some (.ok division, t) →
        (division.highest.map Ranked.name ++ division.ordered.map Prod.fst
          ++ division.plain.map Prod.fst).Perm names := by
  intro names
  induction names with
  | nil =>
      intro division s t h
      cases h
      exact .refl _
  | cons name rest ih =>
      intro division s t h
      rcases Attempt.run_bind_eq_ok_iff.1 h with ⟨k, _, hlook, hrest⟩
      cases hlook
      -- The name goes to the front of its tier, past the tiers above.
      cases htier : (facade.classify s.container name).tier with
      | highest =>
          simp only [htier] at hrest
          rcases Attempt.run_bind_eq_ok_iff.1 hrest with ⟨hook, u, hfirst, hrest⟩
          rcases Attempt.run_bind_eq_ok_iff.1 hrest with ⟨more, v, hmore, hpure⟩
          cases hpure
          rw [List.map_cons, hbuild hfirst]
          exact (ih hmore).cons name
      | ordered =>
          simp only [htier] at hrest
          rcases Attempt.run_bind_eq_ok_iff.1 hrest with ⟨more, v, hmore, hpure⟩
          cases hpure
          rw [List.map_cons, List.append_assoc, List.cons_append]
          refine List.perm_middle.trans ?_
          rw [← List.append_assoc]
          exact (ih hmore).cons name
      | plain =>
          simp only [htier] at hrest
          rcases Attempt.run_bind_eq_ok_iff.1 hrest with ⟨more, v, hmore, hpure⟩
          cases hpure
          rw [List.map_cons]
          exact List.perm_middle.trans ((ih hmore).cons name)

end Build

-- The names of a tier in running order.
theorem running_perm (tier : List (Ranked (Object H.Content))) :
    ((running tier).map Prod.fst).Perm (tier.map Ranked.name) := by
  rw [running_names]
  exact (sortRanked_perm tier).map Ranked.name

/-- A successful customization phase, part by part: what it found and was not taken before is
    divided and built tier by tier, and each tier is called before the next one is built. -/
theorem run_customizationPhase_parts {config : Config} {processed : Processed}
    {order : List String} {s t : State H}
    (h : (E.customizationPhase shown config processed).run s = some (.ok order, t)) :
    ∃ division ordered plain order1 order2 order3 u1 u2 u3 u4 u5 u6,
      (divide shown (E.buildCustomizer shown)
        ((s.container.namesFor config.customizerQuery).1.filter
          fun name => !processed.contains name)).run
          (s.withContainer (s.container.namesFor config.customizerQuery).2)
            = some (.ok division, u1) ∧
      (E.customizeTier shown division.highest).run u1 = some (.ok order1, u2) ∧
      (buildEach (E.buildCustomizer shown) division.ordered).run u2 = some (.ok ordered, u3) ∧
      (E.customizeTier shown ordered).run u3 = some (.ok order2, u4) ∧
      (buildEach (E.buildCustomizer shown) division.plain).run u4 = some (.ok plain, u5) ∧
      (E.customizeTier shown plain).run u5 = some (.ok order3, u6) ∧
      t = u6.withContainer u6.container.invalidate ∧ order = order1 ++ order2 ++ order3 := by
  rcases Attempt.run_bind_eq_ok_iff.1 h with ⟨names, _, hnames, h⟩
  cases hnames
  rcases Attempt.run_bind_eq_ok_iff.1 h with ⟨division, u1, hdivide, h⟩
  rcases Attempt.run_bind_eq_ok_iff.1 h with ⟨order1, u2, hhighest, h⟩
  rcases Attempt.run_bind_eq_ok_iff.1 h with ⟨ordered, u3, hbuild, h⟩
  rcases Attempt.run_bind_eq_ok_iff.1 h with ⟨order2, u4, hordered, h⟩
  rcases Attempt.run_bind_eq_ok_iff.1 h with ⟨plain, u5, hbuild', h⟩
  rcases Attempt.run_bind_eq_ok_iff.1 h with ⟨order3, u6, hplain, h⟩
  rcases Attempt.run_bind_eq_ok_iff.1 h with ⟨_, _, hinvalidate, hpure⟩
  cases hinvalidate
  cases hpure
  exact ⟨division, ordered, plain, order1, order2, order3, u1, u2, u3, u4, u5, u6, hdivide,
    hhighest, hbuild, hordered, hbuild', hplain, rfl, rfl⟩

/-- A successful customization phase calls the customizers that a query answers at its beginning and
    that were not taken before, each once. -/
theorem customizationPhase_perm (hE : E.Lawful) {config : Config} {processed : Processed}
    {order : List String} {s t : State H}
    (h : (E.customizationPhase shown config processed).run s = some (.ok order, t)) :
    order.Perm ((s.container.namesFor config.customizerQuery).1.filter
        fun name => !processed.contains name) ∧
      ∃ hooks, hooks.map Prod.fst = order ∧
        E.Turns shown (customizations hooks) s (.ok ()) t := by
  have hfollows := buildCustomizer_follows hE (fun _ => id) shown
  rcases run_customizationPhase_parts h with ⟨division, ordered, plain, _, _, _, s1, s2, s3, s4, s5,
    s6, hdivide, hhighest, hbuild, hordered, hbuild', hplain, rfl, rfl⟩
  rcases customizeTier_turns hhighest with ⟨rfl, hcalls1⟩
  rcases customizeTier_turns hordered with ⟨rfl, hcalls2⟩
  rcases customizeTier_turns hplain with ⟨rfl, hcalls3⟩
  -- The stretches in front of, between and behind the tiers only build.
  have hfirst : Course Activity.OfBuild s s1 := .followedBy (.quiet (.search s _))
    (divide_follows hfollows _ _ _ _ hdivide)
  have hsecond : Course Activity.OfBuild s2 s3 := buildEach_follows hfollows _ _ _ _ hbuild
  have hthird : Course Activity.OfBuild s4 s5 := buildEach_follows hfollows _ _ _ _ hbuild'
  have hlast : Course Activity.OfBuild s6 (s6.withContainer s6.container.invalidate) :=
    .quiet (.invalidate s6)
  refine ⟨?_, running division.highest ++ running ordered ++ running plain, ?_, ?_⟩
  · refine List.Perm.trans ?_ (divide_perm buildCustomizer_name hdivide)
    rw [← buildEach_names buildCustomizer_name hbuild,
      ← buildEach_names buildCustomizer_name hbuild']
    exact ((running_perm _).append (running_perm _)).append (running_perm _)
  · rw [List.map_append, List.map_append]
  · have hcalls := (((hcalls1.behind hfirst).followedBy (hcalls2.behind hsecond)).followedBy
      (hcalls3.behind hthird)).followedBy (.done hlast)
    rwa [List.append_nil, ← customizations_append, ← customizations_append] at hcalls

end Engine

end ObjectBootstrap
