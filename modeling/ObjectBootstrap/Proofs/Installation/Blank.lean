import ObjectBootstrap.Proofs.Installation.Premature

/-!
# A sentinel with nothing to note

If nothing is overlooked while the chain is put together, the record of the sentinel is blank at the
end, and it stays blank from then on. The first half follows from what the record tracks, but it
takes some care with names: an interceptor that is registered under the name of the sentinel takes
its place in the chain. The second half is for both cases. Either the sentinel is in the chain
still, and then no interceptor has its name and the chain is as long as the sentinel counts on; or
it is not, and then nobody asks it.

## Main definitions

* `Blank`: A sentinel that has noted nothing, with the names that were installed behind it.

## Theorems

* `Engine.installationPhase_blank`: The record at the end of an installation in which nothing is
  overlooked.
* `Engine.blank_later`: The record from the end of such an installation on.
-/

namespace ObjectBootstrap

variable {H : Host}

/-- A sentinel that has noted nothing. It is the first hook of the chain, and then its name is not
    among those that were installed since it was posted, or it is no hook of the chain. -/
structure Blank (number target : Nat) (installed : List String) (s : State H) : Prop where
  record : s.sentinels[number]? = some ⟨target, []⟩
  place : Posted number s ∧ sentinelName ∉ installed ∨ Away number s

namespace Blank

variable {number target : Nat} {installed : List String} {s t : State H}

theorem perm {other : List String} (h : Blank number target installed s)
    (hperm : other.Perm installed) : Blank number target other s :=
  ⟨h.record, h.place.imp_left fun hposted =>
    ⟨hposted.1, fun hmem => hposted.2 (hperm.mem_iff.1 hmem)⟩⟩

-- The sentinel is posted in front of an empty chain.
theorem posted (hempty : s.container.chain.entries = []) (query : CapabilityQuery) (target : Nat) :
    Blank s.sentinels.length target []
      ((s.withContainer (s.container.namesFor query).2).post target) :=
  ⟨List.getElem?_concat_length, Or.inl ⟨(OnWatch.posted_first hempty query target).posted,
    List.not_mem_nil⟩⟩

-- While nothing is installed and nothing is overlooked, nothing is noted.
theorem built (h : Blank number target installed s) (hbuild : Tracks number s t)
    (hnone : installs (since s t) = []) (hover : overlooked (since s t) = []) :
    Blank number target installed t := by
  rcases h.place with ⟨hposted, hname⟩ | haway
  · refine ⟨?_, Or.inl ⟨?_, hname⟩⟩
    · rw [hbuild.posted hposted hnone _ h.record, hover, ite_self, List.append_nil]
    · unfold Posted
      rw [hbuild.chain_eq hnone]
      exact hposted
  · exact ⟨(hbuild.away haway).2.trans h.record, Or.inr (hbuild.away haway).1⟩

-- A hook is installed. If it has the name of the sentinel, it takes the place of the sentinel.
theorem install (h : Blank number target installed s) {name : String} {hook : Hook H.Content}
    (hhook : ∀ other, hook ≠ .sentinel other) (hrun : Run.install name hook s = some ((), t)) :
    Blank number target (installed ++ [name]) t := by
  obtain rfl : t = (s.withContainer (s.container.install name hook)).note (.installed name) := by
    cases hrun
    rfl
  have htracks : Tracks number s
      ((s.withContainer (s.container.install name hook)).note (.installed name)) :=
    (Tracks.stepwise number).install s name hhook
  refine ⟨h.record, ?_⟩
  rcases h.place with ⟨⟨rest, hrest, hothers⟩, hname⟩ | haway
  · have hchain : ((s.withContainer (s.container.install name hook)).note
          (.installed name)).container.chain.entries
        = (⟨sentinelName, .sentinel number⟩ :: rest).filter (fun entry => entry.name != name)
          ++ [⟨name, hook⟩] := by
      rw [← hrest]
      rfl
    -- The new entry is not the sentinel, and neither are those behind the sentinel.
    have hnone : ∀ entry ∈ rest.filter (fun entry => entry.name != name) ++ [⟨name, hook⟩],
        entry.hook ≠ .sentinel number := by
      intro entry hmem
      rcases List.mem_append.1 hmem with hmem | hmem
      · exact hothers entry (List.mem_of_mem_filter hmem)
      · rw [List.mem_singleton.1 hmem]
        exact hhook number
    by_cases htaken : name = sentinelName
    · rw [List.filter_cons_of_neg (by simp [htaken])] at hchain
      exact Or.inr ⟨⟨_, h.record⟩, fun entry hmem => hnone entry (hchain ▸ hmem)⟩
    · rw [List.filter_cons_of_pos (by simpa using Ne.symm htaken), List.cons_append] at hchain
      refine Or.inl ⟨⟨_, hchain, hnone⟩, fun hmem => ?_⟩
      rcases List.mem_append.1 hmem with hmem | hmem
      · exact hname hmem
      · exact htaken (List.mem_singleton.1 hmem).symm
  · exact Or.inr (htracks.away haway).1

theorem tier (h : Blank number target installed s)
    {hooks : List (Ranked (Object H.Content × Bool))}
    (hrun : Engine.installTier hooks s = some ((), t)) :
    Blank number target (installed ++ hooks.map Ranked.name) t := by
  refine Blank.perm ?_ (((sortRanked_perm hooks).map Ranked.name).symm.append_left installed)
  unfold Engine.installTier at hrun
  generalize sortRanked hooks = sorted at hrun
  induction sorted generalizing s installed with
  | nil =>
      cases hrun
      rwa [List.map_nil, List.append_nil]
  | cons ranked rest ih =>
      rcases Run.bind_eq_some_iff.1 hrun with ⟨_, v, hfirst, hrest⟩
      have hall := ih (h.install (by simp only [ne_eq, reduceCtorEq, not_false_eq_true,
        implies_true]) hfirst) hrest
      rwa [List.append_assoc, List.singleton_append, ← List.map_cons] at hall

end Blank

-- If nothing is overlooked on all of a way, nothing is overlooked on a part of it.
theorem overlooked_part {may may' : Activity H → Prop} {s t u v : State H} (h1 : Course may s t)
    (h2 : Course may' t u) (h3 : Course Anything u v) (h : overlooked (since s v) = []) :
    overlooked (since t u) = [] := by
  have hleft : Course Anything s u := h1.anything.followedBy h2.anything
  rw [hleft.since_followedBy h3, h1.since_followedBy h2, overlooked_append, overlooked_append,
    List.append_eq_nil_iff, List.append_eq_nil_iff] at h
  exact h.1.2

namespace Engine

variable {E : Engine H} {shown : Facade} {config : Config} {s t : State H} {inst : Installation}

/-- An installation that starts from an empty chain, in which the hooks and factories that it calls
    install nothing, and in which nothing is overlooked: the sentinel has noted nothing at its end,
    and all that was found is installed. -/
theorem installationPhase_blank (hE : E.Keeps (AlongCourses (Tracks s.sentinels.length)))
    (hempty : s.container.chain.entries = [])
    (hquiet : ∀ activity ∈ inner (since s t), activity.installed? = none)
    (hover : overlooked (since s t) = [])
    (h : (E.installationPhase shown config).run s = some (.ok inst, t)) :
    ∃ installed, (s.container.namesFor config.interceptorQuery).1 ⊆ installed ∧
      Blank inst.sentinel inst.target installed t := by
  have hlawful : E.Lawful := fun shown program s a t h => (hE.runs shown program s a t h).1
  have hmarked : ∀ candidate, Attempt.Follows Activity.OfBuild (E.buildMarked shown candidate) :=
    buildMarked_follows hlawful (fun _ => id) shown
  have htier : ∀ hooks, Run.Follows Anything (installTier (H := H) hooks) :=
    installTier_follows fun _ => trivial
  rcases run_installationPhase_parts h with ⟨division, ordered, plain, u1, u2, u3, u4, u5, u6, u7,
    hdivide, hhighest, hbuildOrdered, hordered, hbuildPlain, hplain, hmergers, hlast, hinst⟩
  -- The ways from the beginning to the parts that build, these parts, and the ways to the end.
  have hto0 : Course Anything s
      ((s.withContainer (s.container.namesFor config.interceptorQuery).2).post inst.target) :=
    (OnWatch.posted_first hempty config.interceptorQuery inst.target).course
  have hpart1 := divide_follows hmarked _ _ _ _ hdivide
  have hpart2 := buildEach_follows hmarked _ _ _ _ hbuildOrdered
  have hpart3 := buildEach_follows hmarked _ _ _ _ hbuildPlain
  have hto2 : Course Anything s u2 :=
    (hto0.followedBy hpart1.anything).followedBy (htier _ _ _ _ hhighest)
  have hto4 : Course Anything s u4 :=
    (hto2.followedBy hpart2.anything).followedBy (htier _ _ _ _ hordered)
  rcases installation_ways hlawful hhighest hbuildOrdered hordered hbuildPlain hplain hmergers
    with ⟨hway1, hway3, hway5⟩
  have hend : Course Anything u7 t := Run.follows_install _ trivial _ _ _ hlast
  have hfrom1 : Course Anything u1 t := hway1.followedBy hend
  have hfrom3 : Course Anything u3 t := hway3.followedBy hend
  have hfrom5 : Course Anything u5 t := hway5.followedBy hend
  -- What the parts that build leave of the record.
  have htracks : ∀ {candidate : Candidate}, AnyName candidate.1 →
      Attempt.Along (AlongCourses (Tracks s.sentinels.length)) (E.buildMarked shown candidate) :=
    fun hname => OnWatch.buildMarked_tracks hE hname
  have htracks1 := (divide_along hE.trail htracks (fun _ _ => trivial) _ _ _ hdivide).2
  have htracks2 := (buildEach_along hE.trail htracks (fun _ _ => trivial) _ _ _ hbuildOrdered).2
  have htracks3 := (buildEach_along hE.trail htracks (fun _ _ => trivial) _ _ _ hbuildPlain).2
  have b0 := Blank.posted hempty config.interceptorQuery inst.target
  have b1 := b0.built htracks1 (installs_of_builds hto0 hpart1 hfrom1 hquiet)
    (overlooked_part hto0 hpart1 hfrom1 hover)
  have b2 := b1.tier hhighest
  have b3 := b2.built htracks2 (installs_of_builds hto2 hpart2 hfrom3 hquiet)
    (overlooked_part hto2 hpart2 hfrom3 hover)
  have b4 := b3.tier hordered
  have b5 := b4.built htracks3 (installs_of_builds hto4 hpart3 hfrom5 hquiet)
    (overlooked_part hto4 hpart3 hfrom5 hover)
  have b7 := (b5.tier hplain).tier hmergers
  have b8 := b7.install (by simp only [ne_eq, reduceCtorEq, not_false_eq_true, implies_true]) hlast
  rw [congrArg Installation.sentinel hinst]
  refine ⟨_, fun name hname => ?_, b8⟩
  have hfound := (tiers_perm hdivide hbuildOrdered hbuildPlain).mem_iff.2 hname
  simp only [List.map_append, List.mem_append] at hfound ⊢
  tauto

/-- The record of such a sentinel stays blank, whatever is run later. -/
theorem blank_later (hE : E.Lawful) (hs : s.container.Consistent)
    (hempty : s.container.chain.entries = [])
    (h : (E.installationPhase shown config).run s = some (.ok inst, t))
    {installed : List String} (hall : (s.container.namesFor config.interceptorQuery).1 ⊆ installed)
    (hblank : Blank inst.sentinel inst.target installed t) {u : State H}
    (hlater : AlongCourses (Tracks inst.sentinel) t u) :
    u.sentinels[inst.sentinel]? = some ⟨inst.target, []⟩ := by
  rcases hblank.place with ⟨_, hname⟩ | haway
  · have hcourse : Course Anything s t :=
      installationPhase_follows hE (fun _ _ => trivial) shown config (fun _ => trivial) _ _ _ h
    have hnodup : t.container.chain.names.Nodup := by
      refine hcourse.chain_nodup ?_
      rw [HookChain.names, hempty]
      exact List.nodup_nil
    -- The sentinel and all that was found are names of their own in the chain.
    have hfound : (sentinelName :: (s.container.namesFor config.interceptorQuery).1).Nodup :=
      List.nodup_cons.2 ⟨fun hmem => hname (hall hmem),
        (hs.namesFor_sublist _).nodup hs.names_nodup⟩
    have hheld : sentinelName :: (s.container.namesFor config.interceptorQuery).1
        ⊆ t.container.chain.names := by
      intro name hmem
      refine installationPhase_holds hE h (List.mem_append_right _ ?_)
      rcases List.mem_cons.1 hmem with rfl | hmem
      · exact List.mem_cons_self
      · exact List.mem_cons_of_mem _ (List.mem_cons_of_mem _ hmem)
    have hfull : inst.target ≤ t.container.chain.size := by
      have hnone : s.container.chain.size = 0 := congrArg List.length hempty
      have hlength := (hfound.subperm hheld).length_le
      rw [(installationPhase_sentinel hE h).1, hnone, ← t.container.chain.length_names]
      rw [List.length_cons] at hlength
      omega
    exact hlater.1.silent hblank.record hnodup hfull
  · exact (hlater.2.away haway).2.trans hblank.record

end Engine

end ObjectBootstrap
