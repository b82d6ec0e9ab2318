import Mathlib.Data.List.Dedup
import Mathlib.Data.Finset.Card
import ObjectBootstrap.Proofs.Building.Listening
import ObjectBootstrap.Proofs.Building.Pipeline

/-!
# What additions make of a chain

A hook that is installed again moves to the end, and so a chain that was made by any additions holds
the last addition of every name, in the order in which these last additions were made. `latest` is
this list. It is what one reads off the additions without looking at any chain in between.

Hooks may install hooks while they are called. That moves the chain, but not the way that an object
or the copy of a definition is on: the way goes through the hooks that were installed when it began.

## Main definitions

* `latest`: The additions with all but the last one of every name left out.
* `IsLast`, `LastBefore`: Which additions these are, and which of two is made first.
* `HookChain.Holds`: A chain holds the last additions and nothing else.
* `KeepsToChain`: A way calls the hooks that were installed when it began.

## Theorems

* `mem_latest_iff`, `pair_sublist_latest_iff`: Which additions are left, and in which order.
* `HookChain.entries_addAll`: What additions make of any chain.
* `HookChain.holds_addAll`: What they make of the empty one.
* `Passage.calls_all`: A walk that no hook ends comes past all hooks.
* `Engine.run_construct_offers`: A build offers the copy to the hooks that it finds.
* `chain_holds_additions`: Additions and the ways through hooks, put together.
-/

namespace ObjectBootstrap

section Latest

variable {C : Type}

/-- The additions with all but the last one of every name left out. -/
def latest : List (ChainEntry C) → List (ChainEntry C)
  | [] => []
  | entry :: later =>
    if entry.name ∈ later.map ChainEntry.name then latest later else entry :: latest later

/-- An addition is the last one of its name. -/
def IsLast (added : List (ChainEntry C)) (entry : ChainEntry C) : Prop :=
  ∃ earlier later, added = earlier ++ entry :: later ∧ entry.name ∉ later.map ChainEntry.name

/-- Two additions are the last ones of their names, and one is made before the other. -/
def LastBefore (added : List (ChainEntry C)) (first second : ChainEntry C) : Prop :=
  ∃ earlier later, added = earlier ++ first :: later ∧
    first.name ∉ later.map ChainEntry.name ∧ IsLast later second

theorem IsLast.cons {added : List (ChainEntry C)} {entry : ChainEntry C}
    (h : IsLast added entry) (first : ChainEntry C) : IsLast (first :: added) entry := by
  rcases h with ⟨earlier, later, rfl, hlast⟩
  exact ⟨first :: earlier, later, rfl, hlast⟩

theorem LastBefore.cons {added : List (ChainEntry C)} {first second : ChainEntry C}
    (h : LastBefore added first second) (entry : ChainEntry C) :
    LastBefore (entry :: added) first second := by
  rcases h with ⟨earlier, later, rfl, hlast⟩
  exact ⟨entry :: earlier, later, rfl, hlast⟩

theorem latest_cons_of_mem {entry : ChainEntry C} {later : List (ChainEntry C)}
    (h : entry.name ∈ later.map ChainEntry.name) : latest (entry :: later) = latest later := by
  rw [latest, if_pos h]

theorem latest_cons_of_not_mem {entry : ChainEntry C} {later : List (ChainEntry C)}
    (h : entry.name ∉ later.map ChainEntry.name) :
    latest (entry :: later) = entry :: latest later := by
  rw [latest, if_neg h]

/-- What is left has each of the names once. -/
theorem names_latest (added : List (ChainEntry C)) :
    (latest added).map ChainEntry.name = (added.map ChainEntry.name).dedup := by
  induction added with
  | nil => rfl
  | cons entry later ih =>
      rw [List.map_cons]
      by_cases h : entry.name ∈ later.map ChainEntry.name
      · rw [latest_cons_of_mem h, List.dedup_cons_of_mem h, ih]
      · rw [latest_cons_of_not_mem h, List.dedup_cons_of_notMem h, List.map_cons, ih]

/-- Later additions leave those of other names alone. -/
theorem latest_append (early late : List (ChainEntry C)) :
    latest (early ++ late)
      = (latest early).filter (fun entry => entry.name ∉ late.map ChainEntry.name)
        ++ latest late := by
  induction early with
  | nil => rfl
  | cons entry rest ih =>
      rw [List.cons_append]
      by_cases hrest : entry.name ∈ rest.map ChainEntry.name
      · have hall : entry.name ∈ (rest ++ late).map ChainEntry.name := by
          rw [List.map_append]
          exact List.mem_append_left _ hrest
        rw [latest_cons_of_mem hall, latest_cons_of_mem hrest, ih]
      · rw [latest_cons_of_not_mem hrest]
        by_cases hlate : entry.name ∈ late.map ChainEntry.name
        · have hall : entry.name ∈ (rest ++ late).map ChainEntry.name := by
            rw [List.map_append]
            exact List.mem_append_right _ hlate
          rw [latest_cons_of_mem hall, List.filter_cons_of_neg (by simpa using hlate), ih]
        · have hall : entry.name ∉ (rest ++ late).map ChainEntry.name := by
            rw [List.map_append, List.mem_append]
            exact fun h => h.elim hrest hlate
          rw [latest_cons_of_not_mem hall, List.filter_cons_of_pos (by simpa using hlate), ih,
            List.cons_append]

-- From its last addition on, a name stands in front of what is left of the later ones.
theorem latest_from (earlier : List (ChainEntry C)) {entry : ChainEntry C}
    {later : List (ChainEntry C)} (h : entry.name ∉ later.map ChainEntry.name) :
    (entry :: latest later).Sublist (latest (earlier ++ entry :: later)) := by
  rw [latest_append, latest_cons_of_not_mem h]
  exact List.sublist_append_right _ _

/-- The additions that are left are the last ones of their names. -/
theorem mem_latest_iff {added : List (ChainEntry C)} {entry : ChainEntry C} :
    entry ∈ latest added ↔ IsLast added entry := by
  constructor
  · intro h
    induction added with
    | nil => exact absurd h List.not_mem_nil
    | cons first rest ih =>
        by_cases hfirst : first.name ∈ rest.map ChainEntry.name
        · rw [latest_cons_of_mem hfirst] at h
          exact (ih h).cons first
        · rw [latest_cons_of_not_mem hfirst] at h
          rcases List.mem_cons.1 h with rfl | h
          · exact ⟨[], rest, rfl, hfirst⟩
          · exact (ih h).cons first
  · rintro ⟨earlier, later, rfl, hlast⟩
    exact (latest_from earlier hlast).subset List.mem_cons_self

/-- Of two additions that are left the one that was made first stands in front. -/
theorem pair_sublist_latest_iff {added : List (ChainEntry C)} {first second : ChainEntry C} :
    [first, second].Sublist (latest added) ↔ LastBefore added first second := by
  constructor
  · intro h
    induction added with
    | nil => exact absurd h (by simp [latest])
    | cons entry rest ih =>
        by_cases hentry : entry.name ∈ rest.map ChainEntry.name
        · rw [latest_cons_of_mem hentry] at h
          exact (ih h).cons entry
        · -- Both stand behind the addition at hand, or it is the first of them.
          rw [latest_cons_of_not_mem hentry] at h
          rcases List.sublist_cons_iff.1 h with h | ⟨tail, heq, h⟩
          · exact (ih h).cons entry
          · cases heq
            exact ⟨[], rest, rfl, hentry, mem_latest_iff.1 (List.singleton_sublist.1 h)⟩
  · rintro ⟨earlier, later, rfl, hfirst, hsecond⟩
    have hbehind : [second].Sublist (latest later) :=
      List.singleton_sublist.2 (mem_latest_iff.2 hsecond)
    exact (hbehind.cons_cons first).trans (latest_from earlier hfirst)

end Latest

namespace HookChain

variable {C : Type}

/-- Additions leave the hooks of other names where they are, and what is left of the additions
    stands behind these. -/
theorem entries_addAll (chain : HookChain C) (added : List (ChainEntry C)) :
    (chain.addAll added).entries
      = chain.entries.filter (fun entry => entry.name ∉ added.map ChainEntry.name)
        ++ latest added := by
  induction added generalizing chain with
  | nil => simp [addAll, latest]
  | cons entry later ih =>
      have hadd : (chain.addAll (entry :: later)).entries
          = (chain.entries.filter (fun e => e.name != entry.name) ++ [entry]).filter
            (fun e => e.name ∉ later.map ChainEntry.name) ++ latest later :=
        ih (chain.add entry.name entry.hook)
      have hothers : (chain.entries.filter (fun e => e.name != entry.name)).filter
            (fun e => e.name ∉ later.map ChainEntry.name)
          = chain.entries.filter
            fun e => e.name ∉ (entry :: later).map ChainEntry.name := by
        rw [List.filter_filter]
        refine List.filter_congr fun e _ => Bool.eq_iff_iff.2 ?_
        simp [and_comm]
      rw [hadd, List.filter_append, hothers, List.append_assoc]
      congr 1
      by_cases h : entry.name ∈ later.map ChainEntry.name
      · rw [latest_cons_of_mem h, List.filter_cons_of_neg (by simpa using h), List.filter_nil,
          List.nil_append]
      · rw [latest_cons_of_not_mem h, List.filter_cons_of_pos (by simpa using h), List.filter_nil,
          List.singleton_append]

/-- A chain holds the last addition of every name, in the order of these additions. -/
structure Holds (chain : HookChain C) (added : List (ChainEntry C)) : Prop where
  entries_eq : chain.entries = latest added
  names_nodup : chain.names.Nodup
  /-- Each name carries the hook of its last addition. -/
  carries : ∀ entry, entry ∈ chain.entries ↔ IsLast added entry
  /-- The order is that of the last additions. -/
  ordered : ∀ first second, [first, second].Sublist chain.entries ↔ LastBefore added first second
  size_eq : chain.size = (added.map ChainEntry.name).toFinset.card

/-- Additions to the empty chain make a chain that holds the last one of every name. -/
theorem holds_addAll (added : List (ChainEntry C)) : (empty.addAll added).Holds added := by
  have hentries : (empty.addAll added).entries = latest added := entries_addAll empty added
  have hnames : (empty.addAll added).names = (added.map ChainEntry.name).dedup := by
    rw [names, hentries, names_latest]
  refine ⟨hentries, ?_, fun entry => ?_, fun first second => ?_, ?_⟩
  · rw [hnames]
    exact List.nodup_dedup _
  · rw [hentries]
    exact mem_latest_iff
  · rw [hentries]
    exact pair_sublist_latest_iff
  · rw [← length_names, hnames, List.card_toFinset]

/-- Additions never make such a chain shorter. -/
theorem Holds.size_le {chain chain' : HookChain C} {added more : List (ChainEntry C)}
    (h : chain.Holds added) (h' : chain'.Holds (added ++ more)) : chain.size ≤ chain'.size := by
  rw [h.size_eq, h'.size_eq]
  refine Finset.card_le_card fun name hname => ?_
  rw [List.mem_toFinset] at hname ⊢
  rw [List.map_append]
  exact List.mem_append_left _ hname

end HookChain

variable {H : Host}

/-- What happens on a way through hooks. The hooks that it calls are the first ones of those that
    were installed when it began, and what is installed on the way is added to these. -/
structure KeepsToChain (call : String → BuildCall) (s t : State H) : Prop where
  called : ∃ handed : List String, handed <+: s.container.chain.names ∧
    buildCalls (since s t) = (handed.map call).map some
  added : ∃ added : List (ChainEntry H.Content),
    added.map ChainEntry.name = installs (since s t) ∧
      t.container.chain = s.container.chain.addAll added

/-- A walk that succeeds comes past all hooks unless one of them ends it. -/
theorem Passage.calls_all {E : Engine H} (hE : E.Lawful) {stage : Stage} {name : String}
    {entries : List (ChainEntry H.Content)} {object last : Object H.Content}
    {result : Except Error (Object H.Content)} {s t : State H}
    (h : Passage E stage name entries object s result t) (hok : result = .ok last)
    (hgoesOn : ∀ hook, .ended stage hook name ∉ since s t) :
    buildCalls (since s t)
      = ((entries.map ChainEntry.name).map (BuildCall.intercept stage)).map some := by
  induction h with
  | all object s =>
      rw [since_self]
      rfl
  | stops hcalled =>
      exact absurd (Engine.ended_of_intercept hE (Engine.run_intercept_iff.2 hcalled)) (hgoesOn _)
  | fails _ => cases hok
  | @goesOn entry rest object next result s t u hcalled hrest ih =>
      have hwatch : ∀ number, Run.Follows Anything (Engine.watch number name : Run H Unit) :=
        fun number => Run.follows_watch number name
      have hrun := Engine.run_intercept_iff.2 hcalled
      have hst : Course Anything s t := Engine.intercept_along hE.keeps (Course.trail Anything)
        (fun number _ _ => hwatch number) (fun _ => trivial) object _ _ _ hrun
      have hwhole := hst.since_followedBy (hrest.course hE)
      rw [hwhole] at hgoesOn
      have hbehind := ih hok fun hook hmem => hgoesOn hook (List.mem_append_right _ hmem)
      rcases Engine.intercept_called hE.keeps (fun number _ _ => hwatch number) hrun with
        ⟨v, hinside, rfl⟩
      rw [hwhole, buildCalls_append hst.nested, hbehind, buildCalls_between hinside]
      rfl

namespace Engine

variable {E : Engine H}

/-- The hooks that a build offers the copy of its definition to are those that are installed when it
    begins. -/
theorem run_construct_offers (hE : E.Lawful) {s t : State H} {name : String}
    {d : Definition H.Factory} {result : Except Error (Built H)}
    (h : (E.construct name d).run s = some (result, t)) :
    ∃ merged u, Offers E name s.container.chain.entries d s merged u ∧ u.log <:+ t.log := by
  have hwalk : ∀ stage object, Attempt.Along (Course Anything) (E.walk stage name object) :=
    hE.walk fun _ _ => trivial
  cases construct_steps hE.keeps (Course.trail Anything) (fun _ _ => trivial) hwalk
    (fun _ => trivial) h with
  | unmerged hmerge _ => exact ⟨_, t, run_mergeThrough_iff.1 hmerge, List.suffix_rfl⟩
  | unmade hmerge _ _ hut => exact ⟨_, _, run_mergeThrough_iff.1 hmerge, hut.log_suffix⟩
  | unfinished hmerge _ _ huv _ hvt | finished hmerge _ _ huv _ hvt =>
      exact ⟨_, _, run_mergeThrough_iff.1 hmerge,
        (huv.log_suffix.trans (List.suffix_cons _ _)).trans hvt.log_suffix⟩

end Engine

/-- Any additions make a chain that holds the last one of every name, and more of them never make it
    shorter. Whatever is installed while an object or the copy of a definition is on its way through
    the hooks, the way goes through those that were installed when it began: each is handed what the
    one before answered, and all of them are called unless one of them ends the way. -/
theorem chain_holds_additions (behaviour : Behaviour H) (facade : Facade) (depth : Nat) :
    (∀ added : List (ChainEntry H.Content), (HookChain.empty.addAll added).Holds added ∧
      ∀ more, (HookChain.empty.addAll added).size
        ≤ (HookChain.empty.addAll (added ++ more)).size) ∧
    (∀ {s t : State H} {stage : Stage} {name : String} {object : Object H.Content}
      {result : Except Error (Object H.Content)},
      ((Engine.ofDepth behaviour facade depth).walk stage name object).run s = some (result, t) →
        Passage (Engine.ofDepth behaviour facade depth) stage name s.container.chain.entries object
          (s.setOut stage name) result t ∧
        KeepsToChain (.intercept stage) s t ∧
        ∀ last, result = .ok last → (∀ hook, .ended stage hook name ∉ since s t) →
          buildCalls (since s t)
            = (s.container.chain.names.map (BuildCall.intercept stage)).map some) ∧
    ∀ {s t : State H} {name : String} {d : Definition H.Factory}
      {result : Except Error (Built H)},
      ((Engine.ofDepth behaviour facade depth).construct name d).run s = some (result, t) →
        ∃ merged u, Offers (Engine.ofDepth behaviour facade depth) name s.container.chain.entries d
            s merged u ∧ u.log <:+ t.log ∧
          KeepsToChain .merge s u ∧
          ∀ d', merged = .ok d' → buildCalls (since s u)
            = (s.container.chain.names.map BuildCall.merge).map some := by
  have hE : (Engine.ofDepth behaviour facade depth).Lawful :=
    Engine.lawful_ofDepth behaviour facade depth
  refine ⟨fun added => ⟨HookChain.holds_addAll added, fun more => ?_⟩, ?_, ?_⟩
  · exact (HookChain.holds_addAll added).size_le (HookChain.holds_addAll (added ++ more))
  · intro s t stage name object result hrun
    have hpassage := Engine.run_walk_iff.1 hrun
    have hdeed : Deed s _ (s.setOut stage name) := .walk s stage name
    have hset : Course Anything s (s.setOut stage name) := .deed hdeed trivial
    have hwhole := hset.since_followedBy (hpassage.course hE)
    refine ⟨hpassage, ⟨hpassage.calls_setOut hE, (hpassage.course_setOut hE).chain_addAll⟩, ?_⟩
    intro last hok hgoesOn
    rw [hwhole] at hgoesOn
    have hcalls := hpassage.calls_all hE hok fun hook hmem =>
      hgoesOn hook (List.mem_append_right _ hmem)
    rw [hwhole, buildCalls_append hset.nested, buildCalls_deed hdeed, hcalls]
    rfl
  · intro s t name d result hrun
    rcases Engine.run_construct_offers hE hrun with ⟨merged, u, hoffers, hlog⟩
    rcases hoffers.calls hE with ⟨offered, hprefix, hcalls, hall⟩
    refine ⟨merged, u, hoffers, hlog, ⟨⟨offered, hprefix, hcalls⟩,
      (hoffers.course hE).chain_addAll⟩, fun d' hmerged => ?_⟩
    rw [hcalls, hall d' hmerged]
    rfl

namespace Scenarios

/-- As `behaviour`, except that a hook installs another one whenever it is called, and installs
    itself anew behind all others. -/
def selfReinstalling : Behaviour host := { Scenarios.behaviour with
  merge := fun reinstalls _ d => do
    if reinstalls then
      Prog.request (.install "added" ⟨"added", 100, .hosted false⟩)
      Prog.request (.install "reinstalling" ⟨"reinstalling", 101, .hosted true⟩)
    return .ok d
  intercept := fun _ reinstalls object _ => do
    if reinstalls then
      Prog.request (.install "added" ⟨"added", 102, .hosted false⟩)
      Prog.request (.install "reinstalling" ⟨"reinstalling", 103, .hosted true⟩)
    return .ok (some object) }

abbrev reinstallers : Engine host := Engine.ofDepth selfReinstalling .direct 3

/-- Entries among which one name stands twice. -/
def repeatedEntries : List (ChainEntry Bool) :=
  [⟨"reinstalling", .object ⟨"reinstalling", 104, .hosted false⟩⟩,
    ⟨"first", .object ⟨"first", 105, .hosted false⟩⟩,
    ⟨"reinstalling", .object ⟨"reinstalling", 106, .hosted true⟩⟩,
    ⟨"last", .object ⟨"last", 107, .hosted false⟩⟩]

def withRepeated : State host :=
  (stateOf [service]).withContainer { (stateOf [service]).container with
    chain := HookChain.empty.addAll repeatedEntries }

theorem walk_of_withRepeated :
    ((reinstallers.walk .before "service" ⟨"service", 0, .hosted false⟩).run withRepeated).map
        (fun r =>
          ((answer? (some r)).isSome, buildCalls (since withRepeated r.2),
            r.2.container.chain.names))
      = some (true,
        ["first", "reinstalling", "last"].map fun hook => some (.intercept .before hook),
        ["first", "last", "added", "reinstalling"]) := by
  decide +kernel

/-- A build offers the copy to the old hooks. Its walks begin later and find the added one. -/
def callsOfWithRepeated : List BuildCall :=
  ["first", "reinstalling", "last"].map BuildCall.merge ++ [BuildCall.make]
    ++ ["first", "last", "added", "reinstalling"].map (BuildCall.intercept .before)
    ++ ["first", "last", "added", "reinstalling"].map (BuildCall.intercept .after)

theorem build_of_withRepeated :
    ((reinstallers.construct "service" service).run withRepeated).map (fun r =>
      buildCalls (since withRepeated r.2))
      = some (callsOfWithRepeated.map some) := by
  decide +kernel

/-- The chain holds the last of the two entries of the name that stands twice. The walk is past this
    hook when it installs itself anew, so the object meets neither the added hook nor this one once
    more. -/
theorem additions_behind_walk :
    (HookChain.empty.addAll repeatedEntries).Holds repeatedEntries ∧
    withRepeated.container.chain.names = ["first", "reinstalling", "last"] ∧
    (∃ (object : Object Bool) (t : State host),
      (reinstallers.walk .before "service" ⟨"service", 0, .hosted false⟩).run withRepeated
        = some (.ok object, t) ∧
      Passage reinstallers .before "service" withRepeated.container.chain.entries
        ⟨"service", 0, .hosted false⟩ (withRepeated.setOut .before "service") (.ok object) t ∧
      buildCalls (since withRepeated t)
        = ["first", "reinstalling", "last"].map (fun hook => some (.intercept .before hook)) ∧
      t.container.chain.names = ["first", "last", "added", "reinstalling"]) ∧
    ∃ (result : Except Error (Built host)) (merged : Except Error (Definition Bool))
      (t u : State host),
      (reinstallers.construct "service" service).run withRepeated = some (result, t) ∧
      Offers reinstallers "service" withRepeated.container.chain.entries service withRepeated
        merged u ∧
      u.log <:+ t.log ∧
      buildCalls (since withRepeated t) = callsOfWithRepeated.map some := by
  rcases chain_holds_additions selfReinstalling .direct 3 with ⟨hholds, hwalks, hbuilds⟩
  rcases Option.map_eq_some_iff.1 walk_of_withRepeated with ⟨⟨result, t⟩, hwalk, hreport⟩
  simp only [Prod.mk.injEq] at hreport
  rcases exists_ok_of_answer? hreport.1 with ⟨object, rfl⟩
  rcases Option.map_eq_some_iff.1 build_of_withRepeated with ⟨⟨built, w⟩, hbuild, hcalls⟩
  rcases hbuilds hbuild with ⟨merged, u, hoffers, hlog, _⟩
  exact ⟨(hholds repeatedEntries).1, by decide, ⟨object, t, hwalk, (hwalks hwalk).1, hreport.2⟩,
    built, merged, w, u, hbuild, hoffers, hlog, hcalls⟩

end Scenarios

end ObjectBootstrap
