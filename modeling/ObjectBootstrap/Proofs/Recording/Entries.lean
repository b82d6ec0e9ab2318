import ObjectBootstrap.Engine.Lemmas
import ObjectBootstrap.Recording.Hooks

/-!
# What a journal tells about an object

Each call of a recording hook is written down as one line, and the lines about an object are found
by how they end. A line is its kind, a colon, and what follows; and names may hold colons. So a line
ends with a colon and a name in one of three ways: the last name in it is that name, the last name
ends with that name behind a colon, or the name is made of more than one name of the line, which
means that it holds the colon between them itself (`isSuffix_line_iff`).

The lines of interceptors about the object are always among these, but so is the line of a mutator
that is called as the object is, and that of a listener that is told of an event of this name. The
lines that are found are those about the object exactly if no other line ends so.

## Main definitions

* `HookCall`: A call of a recording hook, and the note that is taken of it.
* `callEach`: Calls one after the other.
* `EndsWith`, `Note.EndsWith`: A text or a line ends with a name.
* `Note.IsAbout`: A note is one of an interceptor about an object.

## Theorems

* `run_callEach`: Calls are written down one by one.
* `about_recordAll`: Which lines of a journal are found.
* `about_calls`: Which lines are found after any calls, and when these are the right ones.
-/

namespace ObjectBootstrap

namespace Recording

/-- A call of a recording hook, with what is handed over in it. -/
inductive HookCall where
  | mutate (hook : Part)
  | customize (hook : Part)
  | intercept (stage : Stage) (hook : Part) (object : Object Content) (name : String)
  | notify (hook : Part) (event : Event)

namespace HookCall

/-- What is run for a call. -/
def program : HookCall → Prog host Unit
  | mutate hook => (behaviour.mutate (.part hook)).bind fun _ => .done ()
  | customize hook => (behaviour.customize (.part hook)).bind fun _ => .done ()
  | intercept stage hook object name =>
    (behaviour.intercept stage (.part hook) object name).bind fun _ => .done ()
  | notify hook event => behaviour.notify (.part hook) event

/-- The note that is taken of a call, if the hook is one of the kind that is called so. -/
def note? : HookCall → Option Note
  | mutate (.mutator label _ _) | mutate (.failingMutator label _ _) => some (.mutated label)
  | customize (.mutator label _ _) | customize (.failingMutator label _ _)
  | customize (.customizer label _) => some (.customized label)
  | intercept stage (.interceptor label _ _ _) _ name => some (.intercepted stage label name)
  | notify (.listener label _) event => some (.told label event.name)
  | _ => none

end HookCall

/-- Makes calls one after the other. -/
def callEach : List HookCall → Prog host Unit
  | [] => .done ()
  | call :: rest => call.program.bind fun _ => callEach rest

/-- The notes that are taken of calls. -/
def notes (calls : List HookCall) : List Note := calls.filterMap HookCall.note?

/-- Records several calls. -/
def Journal.recordAll (j : Journal) (notes : List Note) : Journal := notes.foldl Journal.record j

theorem Journal.lines_recordAll (j : Journal) (notes : List Note) :
    (j.recordAll notes).lines = j.lines ++ notes.map Note.line := by
  induction notes generalizing j with
  | nil => exact (List.append_nil _).symm
  | cons note rest ih =>
      change (Journal.recordAll (j.record note) rest).lines = _
      rw [ih, Journal.record, List.append_assoc, List.map_cons, List.singleton_append]

section Runs

variable (facade shown : Facade) (depth : Nat)

/-- A program that is run to its end and leaves this journal behind. -/
def Leaves {α : Type} (program : Prog host α) (s : State host) (journal : Journal) : Prop :=
  ∃ a t, (Engine.ofDepth behaviour facade (depth + 1)).run shown program s = some (a, t) ∧
    t.store = journal

variable {facade shown depth} {s : State host}

theorem Leaves.bind {α β : Type} {program : Prog host α} {next : α → Prog host β}
    {journal journal' : Journal} (h : Leaves facade shown depth program s journal)
    (hnext : ∀ a t, t.store = journal → Leaves facade shown depth (next a) t journal') :
    Leaves facade shown depth (program.bind next) s journal' := by
  rcases h with ⟨a, t, hrun, hjournal⟩
  rcases hnext a t hjournal with ⟨b, u, hrest, hlast⟩
  refine ⟨b, u, ?_, hlast⟩
  change (program.bind next).interpret _ s = some (b, u)
  rw [Prog.interpret_bind]
  exact Run.bind_eq_some_iff.2 ⟨a, t, hrun, hrest⟩

theorem leaves_done {α : Type} (a : α) : Leaves facade shown depth (.done a) s s.store :=
  ⟨a, s, rfl, rfl⟩

/-- What a program answers does not matter. -/
theorem Leaves.discard {α : Type} {program : Prog host α} {journal : Journal}
    (h : Leaves facade shown depth program s journal) :
    Leaves facade shown depth (program.bind fun _ => .done ()) s journal :=
  h.bind fun _ _ hjournal => hjournal ▸ leaves_done ()

theorem leaves_record (note : Note) :
    Leaves facade shown depth (record note) s (Journal.record s.store note) :=
  ⟨(), { s with store := Journal.record s.store note }, rfl, rfl⟩

/-- What is done after a note is taken, as long as it leaves the journal alone. -/
theorem leaves_record_bind {α : Type} (note : Note) {next : Unit → Prog host α}
    (hnext : ∀ t : State host, Leaves facade shown depth (next ()) t t.store) :
    Leaves facade shown depth ((record note).bind next) s (Journal.record s.store note) :=
  (leaves_record note).bind fun _ t hjournal => hjournal ▸ hnext t

-- A registration that is refused is answered, too, and nothing is written down either way.
theorem leaves_register (d : Definition Part) :
    Leaves facade shown depth (Prog.request (.register d)) s s.store := by
  have hanswer := Attempt.run_register_apply d s
  have hrun : (Engine.ofDepth behaviour facade (depth + 1)).run shown (Prog.request (.register d)) s
      = (Attempt.register d).run s := by
    change (Prog.request (.register d)).interpret _ s = _
    rw [Prog.interpret_request]
    rfl
  rw [← hrun] at hanswer
  cases hk : s.container.register d with
  | error e =>
      rw [hk] at hanswer
      exact ⟨_, _, hanswer, rfl⟩
  | ok k =>
      rw [hk] at hanswer
      exact ⟨_, _, hanswer, rfl⟩

theorem leaves_registerParts (parts : List Part) :
    Leaves facade shown depth (registerParts parts) s s.store := by
  induction parts generalizing s with
  | nil => exact leaves_done _
  | cons part rest ih =>
      refine (leaves_register part.definition).bind fun answer t hjournal => ?_
      match answer with
      | .error e => exact hjournal ▸ leaves_done _
      | .ok () => exact hjournal ▸ ih

-- An interceptor takes its note before it reacts.
theorem leaves_react (stage : Stage) (label : String) (reaction : Reaction)
    (object : Object Content) (name : String) :
    Leaves facade shown depth (react stage label reaction object name) s
      (Journal.record s.store (.intercepted stage label name)) := by
  refine (leaves_record _).bind fun _ t hjournal => ?_
  cases reaction <;> cases stage
  case wrap.after => exact ⟨_, _, rfl, hjournal⟩
  all_goals exact ⟨_, t, rfl, hjournal⟩

/-- A call is written down as its note. -/
theorem leaves_program (call : HookCall) :
    Leaves facade shown depth call.program s (Journal.recordAll s.store call.note?.toList) := by
  cases call with
  | mutate hook =>
      cases hook with
      | mutator label placement registers =>
          have hregistered : Leaves facade shown depth
              (behaviour.mutate (.part (.mutator label placement registers))) s
              (Journal.record s.store (.mutated label)) :=
            leaves_record_bind (.mutated label) fun _ => leaves_registerParts registers
          exact hregistered.discard
      | failingMutator label placement message =>
          exact (leaves_record_bind (.mutated label) fun _ => leaves_done _).discard
      | _ => exact leaves_done _
  | customize hook =>
      cases hook with
      | mutator label _ _ | failingMutator label _ _ | customizer label _ =>
          exact (leaves_record_bind (.customized label) fun _ => leaves_done _).discard
      | _ => exact leaves_done _
  | intercept stage hook object name =>
      cases hook with
      | interceptor label placement reaction merges =>
          exact (leaves_react stage label reaction object name).discard
      | _ => exact leaves_done _
  | notify hook event =>
      cases hook with
      | listener label isPrototype => exact leaves_record _
      | _ => exact leaves_done _

variable (facade shown depth s) in
/-- Calls are written down one by one, whatever becomes of them. -/
theorem run_callEach (calls : List HookCall) :
    Leaves facade shown depth (callEach calls) s (Journal.recordAll s.store (notes calls)) := by
  induction calls generalizing s with
  | nil => exact leaves_done _
  | cons call rest ih =>
      refine (leaves_program call).bind fun _ t hjournal => ?_
      have hnotes : Journal.recordAll s.store (notes (call :: rest))
          = Journal.recordAll t.store (notes rest) := by
        rw [hjournal, notes, List.filterMap_cons]
        cases call.note? <;> rfl
      exact hnotes ▸ ih t

end Runs

/-- A text is a name, or it ends with the name behind a colon. -/
def EndsWith (name text : String) : Prop := text = name ∨ ∃ front, text = front ++ ":" ++ name

/-- Whether a note is one that an interceptor takes of an object. -/
def Note.IsAbout (object : String) : Note → Prop
  | intercepted _ _ name => name = object
  | _ => False

instance (object : String) : DecidablePred (Note.IsAbout object)
  | .intercepted _ _ name => inferInstanceAs (Decidable (name = object))
  | .mutated _ => isFalse id
  | .customized _ => isFalse id
  | .told _ _ => isFalse id

/-- Two names with a colon between them end with a name: the second one does, or the name holds the
    colon itself. -/
def PairEndsWith (name first second : String) : Prop :=
  EndsWith name second ∨ ∃ front, name = front ++ ":" ++ second ∧ EndsWith front first

/-- The line of a note ends with a name behind a colon. -/
def Note.EndsWith (name : String) : Note → Prop
  | mutated hook => Recording.EndsWith name hook
  | customized hook => Recording.EndsWith name hook
  | intercepted _ hook object => PairEndsWith name hook object
  | told listener event => PairEndsWith name listener event

/-- Where the last name of a text begins: behind the colon in front of it or before that. -/
theorem suffix_append_iff {name front last : List Char} :
    ':' :: name <:+ front ++ ':' :: last ↔
      ':' :: name <:+ ':' :: last ∨ ∃ rest, name = rest ++ ':' :: last ∧ ':' :: rest <:+ front := by
  constructor
  · rintro ⟨before, hsplit⟩
    rcases List.append_eq_append_iff.1 hsplit with ⟨between, hfront, hname⟩ | ⟨between, -, hlast⟩
    · cases between with
      | nil => exact Or.inl ⟨[], hname⟩
      | cons letter rest =>
          obtain ⟨rfl, rfl⟩ := List.cons.inj hname
          exact Or.inr ⟨rest, rfl, before, hfront.symm⟩
    · exact Or.inl ⟨between, hlast.symm⟩
  · rintro (hlast | ⟨rest, rfl, hfront⟩)
    · exact hlast.trans (List.suffix_append _ _)
    · obtain ⟨before, rfl⟩ := hfront
      exact ⟨before, by rw [List.append_assoc, List.cons_append]⟩

/-- A kind holds no colon, so what ends a line begins behind it. -/
theorem suffix_kind_iff (kind : List Char) {name rest : List Char} (hkind : ':' ∉ kind) :
    ':' :: name <:+ kind ++ ':' :: rest ↔ ':' :: name <:+ ':' :: rest := by
  rw [suffix_append_iff, or_iff_left_iff_imp]
  rintro ⟨front, -, hfront⟩
  exact absurd (hfront.mem List.mem_cons_self) hkind

/-- What ends with a name behind a colon, in letters. -/
theorem endsWith_iff {name text : String} :
    EndsWith name text ↔ ':' :: name.toList <:+ ':' :: text.toList := by
  rw [List.suffix_cons_iff, List.cons.injEq, String.toList_inj]
  constructor
  · rintro (rfl | ⟨front, rfl⟩)
    · exact Or.inl ⟨rfl, rfl⟩
    · exact Or.inr ⟨front.toList, by simp [String.toList_append]⟩
  · rintro (⟨-, rfl⟩ | ⟨front, hfront⟩)
    · exact Or.inl rfl
    · refine Or.inr ⟨String.ofList front, String.toList_inj.1 ?_⟩
      simp [String.toList_append, hfront]

theorem pairEndsWith_iff {name first second : String} :
    PairEndsWith name first second ↔
      ':' :: name.toList <:+ ':' :: first.toList ++ ':' :: second.toList := by
  rw [suffix_append_iff, ← endsWith_iff]
  refine or_congr Iff.rfl ⟨?_, ?_⟩
  · rintro ⟨front, rfl, hfront⟩
    exact ⟨front.toList, by simp [String.toList_append], endsWith_iff.1 hfront⟩
  · rintro ⟨front, hname, hfront⟩
    refine ⟨String.ofList front, String.toList_inj.1 ?_, endsWith_iff.2 ?_⟩
    · simp [String.toList_append, hname]
    · rwa [String.toList_ofList]

/-- The test for the lines about an object, by the names in a line. -/
theorem isSuffix_line_iff {name : String} {note : Note} :
    (":" ++ name).toList <:+ note.line.toList ↔ note.EndsWith name := by
  rw [String.toList_append]
  cases note with
  | mutated hook =>
      rw [Note.line, String.toList_append, Note.EndsWith, endsWith_iff]
      exact suffix_kind_iff "mutate".toList (by decide)
  | customized hook =>
      rw [Note.line, String.toList_append, Note.EndsWith, endsWith_iff]
      exact suffix_kind_iff "customize".toList (by decide)
  | intercepted stage hook object =>
      rw [Note.EndsWith, pairEndsWith_iff]
      cases stage <;> simp only [Note.line, String.toList_append, List.append_assoc]
      · exact suffix_kind_iff "before".toList (by decide)
      · exact suffix_kind_iff "after".toList (by decide)
  | told listener event =>
      rw [Note.EndsWith, pairEndsWith_iff]
      simp only [Note.line, String.toList_append, List.append_assoc]
      exact suffix_kind_iff "event".toList (by decide)

instance (name : String) : DecidablePred (Note.EndsWith name) :=
  fun _ => decidable_of_iff _ isSuffix_line_iff

/-- The lines of interceptors about an object are always found. -/
theorem Note.IsAbout.endsWith {object : String} {note : Note} (h : note.IsAbout object) :
    note.EndsWith object := by
  cases note with
  | intercepted stage hook name => exact Or.inl (Or.inl h)
  | _ => exact h.elim

/-- The lines of a journal about an object are those of the notes that end with its name. -/
theorem about_recordAll (notes : List Note) (object : String) :
    (Journal.recordAll {} notes).about object
      = (notes.filter (·.EndsWith object)).map Note.line := by
  rw [Journal.about, Journal.lines_recordAll, List.nil_append, List.filter_map]
  refine congrArg _ (List.filter_congr fun note _ => ?_)
  rw [Bool.eq_iff_iff, Function.comp_apply, List.isSuffixOf_iff_suffix, decide_eq_true_iff]
  exact isSuffix_line_iff

theorem filter_isAbout (notes : List Note) (object : String) :
    notes.filter (·.IsAbout object)
      = (notes.filter (·.EndsWith object)).filter (·.IsAbout object) := by
  rw [List.filter_filter]
  refine List.filter_congr fun note _ => ?_
  rw [Bool.eq_iff_iff, Bool.and_eq_true, decide_eq_true_iff, decide_eq_true_iff]
  exact ⟨fun h => ⟨h, h.endsWith⟩, And.left⟩

/-- After any calls of recording hooks on an empty journal, the lines that are found for an object
    are those that end with its name. All lines of interceptors about the object are among them, in
    order, and there are no others exactly if nothing else that was written down ends so. -/
theorem about_calls (facade shown : Facade) (depth : Nat) (calls : List HookCall)
    (object : String) (s : State host) :
    ∃ t, (Engine.ofDepth behaviour facade (depth + 1)).run shown (callEach calls)
        { s with store := ({} : Journal) } = some ((), t) ∧
      Journal.about t.store object = ((notes calls).filter (·.EndsWith object)).map Note.line ∧
      (((notes calls).filter (·.IsAbout object)).map Note.line).Sublist
        (Journal.about t.store object) ∧
      (Journal.about t.store object = ((notes calls).filter (·.IsAbout object)).map Note.line ↔
        ∀ note ∈ notes calls, note.EndsWith object → note.IsAbout object) := by
  obtain ⟨⟨⟩, t, hrun, hjournal⟩ :=
    run_callEach facade shown depth { s with store := ({} : Journal) } calls
  have habout : Journal.about t.store object
      = ((notes calls).filter (·.EndsWith object)).map Note.line := by
    rw [hjournal]
    exact about_recordAll (notes calls) object
  refine ⟨t, hrun, habout, ?_, ?_⟩
  · rw [habout, filter_isAbout]
    exact List.filter_sublist.map _
  · rw [habout, filter_isAbout]
    constructor
    · intro hlines note hnote hends
      have hlength := congrArg List.length hlines
      rw [List.length_map, List.length_map, eq_comm, List.length_filter_eq_length_iff] at hlength
      exact of_decide_eq_true
        (hlength note (List.mem_filter.2 ⟨hnote, decide_eq_true hends⟩))
    · intro hall
      congr 1
      rw [eq_comm, List.filter_eq_self]
      intro note hnote
      obtain ⟨hnote, hends⟩ := List.mem_filter.1 hnote
      exact decide_eq_true (hall note hnote (of_decide_eq_true hends))

end Recording

namespace Scenarios

open Recording

/-- A mutator that mutates and is customized. -/
def mutatorCalls : List HookCall :=
  [.mutate (.mutator "mutator" {} []), .customize (.mutator "mutator" {} [])]

/-- The calls of a mutator are found as if they were about an object of its name, although no
    interceptor was ever handed one. -/
theorem mutator_found_about_itself :
    (((Engine.ofDepth Recording.behaviour .direct 1).run .direct (callEach mutatorCalls)
        { store := ({} : Journal) }).map fun r => Journal.about r.2.store "mutator")
      = some ["mutate:mutator", "customize:mutator"] ∧
    ((notes mutatorCalls).filter (·.IsAbout "mutator")).map Note.line = [] := by
  decide +kernel

end Scenarios

end ObjectBootstrap
