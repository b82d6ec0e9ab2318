import ObjectBootstrap.Proofs.Installation.Additions
import ObjectBootstrap.Proofs.Recording.Entries

/-!
# What recording interceptors make of an object

An object that comes past recording interceptors is noted by each of them, before its initialization
and once more after it, up to the first one that ends the walk. That one takes its note as well. In
between, the wrapping ones each put a wrapper around what they are handed, but only after the
initialization, and so the last of them is the outermost one.

## Main definitions

* `Recorder`: A recording interceptor and the name that it is installed under.
* `reached`, `passed`: The interceptors up to the first one that ends a walk, with it or without.
* `Recorder.Answers`: What an interceptor answers.

## Theorems

* `Recorder.run_intercept`: One call of an interceptor.
* `passage_recorders`: A walk through interceptors.
* `recorders_note_and_wrap`: A walk before the initialization and the one after it.
-/

namespace ObjectBootstrap

section Latest

variable {C : Type}

/-- Additions under distinct names are all left. -/
theorem latest_eq_self {added : List (ChainEntry C)}
    (h : (added.map ChainEntry.name).Nodup) : latest added = added := by
  induction added with
  | nil => rfl
  | cons entry later ih =>
      rw [List.map_cons, List.nodup_cons] at h
      rw [latest_cons_of_not_mem h.1, ih h.2]

end Latest

namespace Recording

/-- A recording interceptor and the name that it is installed under. -/
structure Recorder where
  installedAs : String
  label : String
  reaction : Reaction
  placement : Placement := {}
  merges : Bool := false
  typeName : String := "interceptor"
  serial : Nat := 0

namespace Recorder

/-- What is installed. -/
def entry (recorder : Recorder) : ChainEntry Content :=
  ⟨recorder.installedAs, .object ⟨recorder.typeName, recorder.serial, .hosted (.part
    (.interceptor recorder.label recorder.placement recorder.reaction recorder.merges))⟩⟩

/-- What an interceptor answers when it is handed an object. -/
inductive Answers (recorder : Recorder) (object : Object Content) :
    Stage → Option (Object Content) → Prop
  | stops {stage : Stage} : recorder.reaction = .stop → Answers recorder object stage none
  | passes {stage : Stage} :
    recorder.reaction = .pass → Answers recorder object stage (some object)
  /-- Nothing is wrapped before its initialization. -/
  | waits : recorder.reaction = .wrap → Answers recorder object .before (some object)
  | wraps (serial : Nat) : recorder.reaction = .wrap →
    Answers recorder object .after
      (some ⟨wrapperType, serial, .hosted (.wrapper recorder.label object)⟩)

end Recorder

/-- The interceptors up to the first one that ends a walk, which is among them. -/
def reached : List Recorder → List Recorder
  | [] => []
  | hook :: rest => if hook.reaction = .stop then [hook] else hook :: reached rest

/-- The interceptors in front of the first one that ends a walk. -/
def passed (hooks : List Recorder) : List Recorder := hooks.takeWhile (·.reaction ≠ .stop)

/-- The labels of those interceptors that wrap. -/
def wrapping (hooks : List Recorder) : List String :=
  (hooks.filter (·.reaction = .wrap)).map Recorder.label

/-- The notes of interceptors about an object. -/
def noted (stage : Stage) (name : String) (hooks : List Recorder) : List Note :=
  hooks.map fun hook => .intercepted stage hook.label name

theorem reached_of_stops {hook : Recorder} (h : hook.reaction = .stop) (rest : List Recorder) :
    reached (hook :: rest) = [hook] := if_pos h

theorem reached_of_goesOn {hook : Recorder} (h : hook.reaction ≠ .stop) (rest : List Recorder) :
    reached (hook :: rest) = hook :: reached rest := if_neg h

theorem passed_of_stops {hook : Recorder} (h : hook.reaction = .stop) (rest : List Recorder) :
    passed (hook :: rest) = [] :=
  List.takeWhile_cons_of_neg (by simpa using h)

theorem passed_of_goesOn {hook : Recorder} (h : hook.reaction ≠ .stop) (rest : List Recorder) :
    passed (hook :: rest) = hook :: passed rest :=
  List.takeWhile_cons_of_pos (by simpa using h)

/-- A wrapper is the outermost one of what it is put around. -/
theorem layers_wrapper (typeName : String) (serial : Nat) (label : String)
    (inner : Object Content) :
    layers ⟨typeName, serial, .hosted (.wrapper label inner)⟩ = label :: layers inner := by
  rw [layers, layersOf, Content.layers]

section Walks

variable (facade : Facade) (depth : Nat)

/-- An interceptor takes its note and answers, and that is all. -/
theorem Recorder.run_intercept (hook : Recorder) (stage : Stage) (name : String)
    (object : Object Content) (s : State host) :
    ∃ answer t, (Engine.ofDepth behaviour facade (depth + 1)).intercept stage hook.entry name
        object s = some (.ok answer, t) ∧
      hook.Answers object stage answer ∧
      t.container = s.container ∧
      t.store = Journal.record s.store (.intercepted stage hook.label name) := by
  rcases hook with ⟨installedAs, label, reaction, placement, merges, typeName, serial⟩
  cases reaction with
  | pass => exact ⟨some object, _, rfl, .passes rfl, rfl, rfl⟩
  | stop => exact ⟨none, _, rfl, .stops rfl, rfl, rfl⟩
  | wrap =>
      cases stage with
      | before => exact ⟨some object, _, rfl, .waits rfl, rfl, rfl⟩
      | after => exact ⟨_, _, rfl, .wraps _ rfl, rfl, rfl⟩

/-- An object goes through interceptors up to the first one that ends the walk. Each of them takes
    its note, and those in front of the last one wrap what they are handed. -/
theorem passage_recorders (stage : Stage) (name : String) (hooks : List Recorder)
    (object : Object Content) (s : State host) :
    ∃ result t, Passage (Engine.ofDepth behaviour facade (depth + 1)) stage name
        (hooks.map Recorder.entry) object s (.ok result) t ∧
      t.container = s.container ∧
      t.store = Journal.recordAll s.store (noted stage name (reached hooks)) ∧
      (stage = .before → result = object) ∧
      (stage = .after → layers result = (wrapping (passed hooks)).reverse ++ layers object) := by
  induction hooks generalizing object s with
  | nil => exact ⟨object, s, .all object s, rfl, rfl, fun _ => rfl, fun _ => rfl⟩
  | cons hook rest ih =>
      obtain ⟨answer, t, hcalled, hanswer, hcontainer, hstore⟩ :=
        hook.run_intercept facade depth stage name object s
      replace hcalled := Engine.run_intercept_iff.1 hcalled
      -- What the rest of the walk does, if there is one, begins with what is answered.
      have hbehind : ∀ {next : Object Content}, answer = some next → hook.reaction ≠ .stop →
          ∃ result u, Passage (Engine.ofDepth behaviour facade (depth + 1)) stage name
              ((hook :: rest).map Recorder.entry) object s (.ok result) u ∧
            u.container = s.container ∧
            u.store = Journal.recordAll s.store (noted stage name (reached (hook :: rest))) ∧
            (stage = .before → result = next) ∧
            (stage = .after →
              layers result = (wrapping (passed rest)).reverse ++ layers next) := by
        rintro next rfl hgoesOn
        obtain ⟨result, u, hpassage, hkept, hnoted, hbefore, hafter⟩ := ih next t
        refine ⟨result, u, .goesOn hcalled hpassage, hkept.trans hcontainer, ?_, hbefore, hafter⟩
        rw [hnoted, hstore, reached_of_goesOn hgoesOn]
        rfl
      cases hanswer with
      | stops hstop =>
          refine ⟨object, t, .stops hcalled, hcontainer, ?_, fun _ => rfl, fun _ => ?_⟩
          · rw [hstore, reached_of_stops hstop]
            rfl
          · rw [passed_of_stops hstop]
            rfl
      | passes hpass =>
          have hgoesOn : hook.reaction ≠ .stop := by simp [hpass]
          obtain ⟨result, u, hpassage, hkept, hnoted, hbefore, hafter⟩ := hbehind rfl hgoesOn
          refine ⟨result, u, hpassage, hkept, hnoted, hbefore, fun h => ?_⟩
          rw [hafter h, passed_of_goesOn hgoesOn, wrapping, wrapping,
            List.filter_cons_of_neg (by simp [hpass])]
      | waits hwrap =>
          obtain ⟨result, u, hpassage, hkept, hnoted, hbefore, -⟩ :=
            hbehind rfl (by simp [hwrap])
          exact ⟨result, u, hpassage, hkept, hnoted, hbefore, nofun⟩
      | wraps serial hwrap =>
          have hgoesOn : hook.reaction ≠ .stop := by simp [hwrap]
          obtain ⟨result, u, hpassage, hkept, hnoted, -, hafter⟩ := hbehind rfl hgoesOn
          refine ⟨result, u, hpassage, hkept, hnoted, nofun, fun h => ?_⟩
          rw [hafter h, layers_wrapper, passed_of_goesOn hgoesOn, wrapping, wrapping,
            List.filter_cons_of_pos (by simp [hwrap]), List.map_cons, List.reverse_cons,
            List.append_assoc, List.singleton_append]

/-- An object that is walked through recording interceptors before its initialization, and what
    comes of it is walked through them after it. Both times the interceptors up to the first one
    that ends the walk take a note, in the order of the chain. The object comes through the first
    walk as it is, and the second one puts a wrapper around it for each of the wrapping interceptors
    in front of the one that ends the walk, the last one outermost. -/
theorem recorders_note_and_wrap (hooks : List Recorder)
    (hnames : (hooks.map Recorder.installedAs).Nodup) (name : String) (object : Object Content)
    (s : State host)
    (hchain : s.container.chain = HookChain.empty.addAll (hooks.map Recorder.entry)) :
    ∃ t result u,
      ((Engine.ofDepth behaviour facade (depth + 1)).walk .before name object).run s
        = some (.ok object, t) ∧
      ((Engine.ofDepth behaviour facade (depth + 1)).walk .after name object).run t
        = some (.ok result, u) ∧
      Journal.lines u.store = Journal.lines s.store
        ++ (reached hooks).map (fun hook => "before:" ++ hook.label ++ ":" ++ name)
        ++ (reached hooks).map (fun hook => "after:" ++ hook.label ++ ":" ++ name) ∧
      layers result = (wrapping (passed hooks)).reverse ++ layers object := by
  have hentries : s.container.chain.entries = hooks.map Recorder.entry := by
    rw [hchain, (HookChain.holds_addAll _).entries_eq]
    refine latest_eq_self ?_
    rw [List.map_map]
    exact hnames
  obtain ⟨unwrapped, t, hbefore, hkept, hnoted, hsame, -⟩ :=
    passage_recorders facade depth .before name hooks object (s.setOut .before name)
  obtain rfl : unwrapped = object := hsame rfl
  have hstands : t.container.chain.entries = hooks.map Recorder.entry := by
    rw [hkept]
    exact hentries
  obtain ⟨result, u, hafter, -, hnotedToo, -, hlayers⟩ :=
    passage_recorders facade depth .after name hooks unwrapped (t.setOut .after name)
  have hearly := (congrArg Journal.lines hnoted).trans (Journal.lines_recordAll s.store _)
  have hlate := (congrArg Journal.lines hnotedToo).trans (Journal.lines_recordAll t.store _)
  refine ⟨t, result, u, Engine.run_walk_iff.2 ?_, Engine.run_walk_iff.2 ?_, ?_, hlayers rfl⟩
  · rwa [hentries]
  · rwa [hstands]
  · rw [hlate, hearly, noted, noted, List.map_map, List.map_map]
    rfl

end Walks

end Recording

namespace Scenarios

open Recording

/-- Recorders that pass an object on, wrap it twice and stop the walk, and one behind them. -/
def fiveRecorders : List Recorder :=
  [{ installedAs := "passing", label := "passing", reaction := .pass },
    { installedAs := "second", label := "inner", reaction := .wrap },
    { installedAs := "third", label := "outer", reaction := .wrap },
    { installedAs := "stopping", label := "stopping", reaction := .stop },
    { installedAs := "last", label := "unreached", reaction := .wrap }]

def withRecorders : State Recording.host where
  container := { chain := HookChain.empty.addAll (fiveRecorders.map Recorder.entry) }
  store := ({} : Journal)

/-- An object that is wrapped before the walk. -/
def wrappedPart : Object Content :=
  ⟨wrapperType, 1, .hosted (.wrapper "earlier" ⟨"plain", 0, .hosted (.part (.plain "part"))⟩)⟩

theorem recorders_note_until_stop :
    (fiveRecorders.map Recorder.installedAs).Nodup ∧
    ∃ t result u,
      ((Engine.ofDepth Recording.behaviour .direct 1).walk .before "part" wrappedPart).run
          withRecorders
        = some (.ok wrappedPart, t) ∧
      ((Engine.ofDepth Recording.behaviour .direct 1).walk .after "part" wrappedPart).run t
        = some (.ok result, u) ∧
      Journal.lines u.store = ["before:passing:part", "before:inner:part", "before:outer:part",
        "before:stopping:part", "after:passing:part", "after:inner:part", "after:outer:part",
        "after:stopping:part"] ∧
      layers result = ["outer", "inner", "earlier"] := by
  have hnames : (fiveRecorders.map Recorder.installedAs).Nodup := by decide
  rcases recorders_note_and_wrap .direct 0 fiveRecorders hnames "part" wrappedPart
    withRecorders rfl with
    ⟨t, result, u, hbefore, hafter, hlines, hlayers⟩
  exact ⟨hnames, t, result, u, hbefore, hafter, hlines.trans (by decide +kernel),
    hlayers.trans (by decide +kernel)⟩

end Scenarios

end ObjectBootstrap
