import Mathlib.Computability.StateTransition
import ObjectBootstrap.Proofs.Placeholder.Meaning

/-!
# Visits to keys

To resolve a placeholder takes two calls of the resolver, one for the body and one for the setting
of the key. The keys whose settings are being resolved stand in one list: a key is put into it in
front of the second call and taken away behind it, whether the call fails or not. `resolveFrom`
hands this list down from call to call, and so it says nothing about how the list moves. Here the
resolver takes one step at a time. The calls that wait for another one are frames, and the list of
visited keys is a part of the state that each step reads and writes.

A call ends as it was made: with the same frames and the same keys (`reads_returns`). That is an
induction along `resolveFrom`, with any frames below, and it gives both that the resolver halts and
what with. That only keys with a setting are visited, and none of them twice, is kept by each step
(`Sound.step`). An error goes up through all frames, so the one that the resolver ends with is the
first one that came up (`circular_met`, `error_unwinds`).

## Main definitions

* `Resolver`: The resolver at work, with its frames and the keys that are being visited.
* `Resolver.step`: One step.
* `Resolver.Meets`: A placeholder has a resolved body, and thereby a key.
* `Resolver.underway`: The keys whose settings are being resolved.
* `Resolver.Leads`: From one state to another in some steps.
* `Above`: From one state to another while some frames stay where they are.

## Theorems

* `reads_returns`: A call returns what `resolveFrom` says, with its frames and keys as they were.
* `Resolver.Sound.of_leads`: Which keys are being visited.
* `circular_met`: A key that the resolver fails for has been met while it was being visited.
* `resolver_visits`: How the resolver visits keys, and that it comes to an end.
-/

namespace ObjectBootstrap

namespace Placeholder

/-- A call of the resolver: the text it was made with, what of it is resolved, and what is left. -/
structure Reading where
  whole : String
  resolved : List Char
  rest : List Char

namespace Reading

/-- A call that has just been made. -/
def of (text : String) : Reading := ⟨text, [], text.toList⟩

/-- A call that has come past a placeholder. -/
def append (reading : Reading) (replacement : List Char) : Reading :=
  { reading with resolved := reading.resolved ++ replacement }

end Reading

/-- What a call waits for. What is left of its text begins behind the placeholder. -/
inductive Frame where
  | body (reading : Reading)
  | setting (key : String) (reading : Reading)

/-- The key whose setting is waited for. -/
def Frame.key? : Frame → Option String
  | .body _ => none
  | .setting key _ => some key

/-- What the innermost call is about to do. -/
inductive Task where
  | reads (reading : Reading)
  | returns (result : Except PlaceholderError (List Char))

/-- The resolver at work: the keys that are being visited, the calls that wait, innermost first, and
    the innermost call. -/
structure Resolver where
  visiting : List String
  frames : List Frame
  task : Task

namespace Resolver

/-- The resolver that is handed a text. -/
def start (text : String) : Resolver := ⟨[], [], .reads (.of text)⟩

/-- The keys whose settings are being resolved, as the calls that wait tell them. -/
def underway (r : Resolver) : List String := r.frames.filterMap Frame.key?

/-- A placeholder has this key now that its body is resolved. -/
def Meets (r : Resolver) (key : String) : Prop :=
  ∃ body reading frames, r.task = .returns (.ok body) ∧ r.frames = .body reading :: frames ∧
    (splitDefault body).1 = key

/-- A call goes on behind a placeholder, or it fails. -/
def resume (visiting : List String) (frames : List Frame) (reading : Reading) :
    Except PlaceholderError (List Char) → Resolver
  | .ok replacement => ⟨visiting, frames, .reads (reading.append replacement)⟩
  | .error e => ⟨visiting, frames, .returns (.error e)⟩

/-- A call looks for the next placeholder and makes a call for its body. -/
def proceed (visiting : List String) (frames : List Frame) (reading : Reading) : Resolver :=
  match splitAtOpening reading.rest with
  | none => ⟨visiting, frames, .returns (.ok (reading.resolved ++ reading.rest))⟩
  | some (literal, behind) =>
    match closingOffset 0 behind with
    | none => ⟨visiting, frames, .returns (.error (.unterminated reading.whole))⟩
    | some offset =>
      match cutAtByte offset behind with
      | none => ⟨visiting, frames, .returns (.error .brokenCharacter)⟩
      | some (body, tail) =>
        ⟨visiting, .body ⟨reading.whole, reading.resolved ++ literal, tail.drop 1⟩ :: frames,
          .reads (.of (String.ofList body))⟩

/-- A call finds the key of a placeholder in its resolved body and visits it if it has a setting. -/
def meet (settings : Settings) (visiting : List String) (frames : List Frame)
    (reading : Reading) : Except PlaceholderError (List Char) → Resolver
  | .error e => resume visiting frames reading (.error e)
  | .ok body =>
    let (key, default) := splitDefault body
    if key ∈ visiting then resume visiting frames reading (.error (.circular key))
    else
      match settings.get? key with
      | some text => ⟨key :: visiting, .setting key reading :: frames, .reads (.of text)⟩
      | none =>
        match default with
        | some default => resume visiting frames reading (.ok default)
        | none => resume visiting frames reading (.error (.unresolved key))

/-- One step. There is none once the first call has returned. -/
def step (settings : Settings) : Resolver → Option Resolver
  | ⟨visiting, frames, .reads reading⟩ => some (proceed visiting frames reading)
  | ⟨visiting, .body reading :: frames, .returns result⟩ =>
    some (meet settings visiting frames reading result)
  -- The key is visited no longer, whatever the result is.
  | ⟨visiting, .setting _ reading :: frames, .returns result⟩ =>
    some (resume visiting.tail frames reading result)
  | ⟨_, [], .returns _⟩ => none

/-- The resolver comes from one state to another. -/
abbrev Leads (settings : Settings) : Resolver → Resolver → Prop :=
  StateTransition.Reaches (step settings)

end Resolver

open Resolver

/-- The resolver comes from one state to another, and meanwhile some frames stay where they are. -/
def Above (settings : Settings) (frames : List Frame) : Resolver → Resolver → Prop :=
  Relation.ReflTransGen fun r r' => r' ∈ r.step settings ∧ frames <:+ r'.frames

namespace Above

variable {settings : Settings} {frames : List Frame} {r r' r'' : Resolver}

theorem trans (h : Above settings frames r r') (h' : Above settings frames r' r'') :
    Above settings frames r r'' :=
  Relation.ReflTransGen.trans h h'

theorem head (hstep : r.step settings = some r') (hframes : frames <:+ r'.frames)
    (h : Above settings frames r' r'') : Above settings frames r r'' :=
  Relation.ReflTransGen.head ⟨hstep, hframes⟩ h

-- What is above a frame is above the frames below it.
theorem of_cons {frame : Frame} (h : Above settings (frame :: frames) r r') :
    Above settings frames r r' :=
  Relation.ReflTransGen.mono
    (fun _ _ hstep => ⟨hstep.1, (List.suffix_cons frame frames).trans hstep.2⟩) _ _ h

theorem leads (h : Above settings frames r r') : Leads settings r r' :=
  Relation.ReflTransGen.mono (fun _ _ hstep => hstep.1) _ _ h

end Above

-- A call that has just been made has nothing to put in front of its result.
theorem map_nil_append (result : Except PlaceholderError (List Char)) :
    (result.map fun text => [] ++ text) = result := by
  cases result <;> rfl

theorem resume_frames (visiting : List String) (frames : List Frame) (reading : Reading)
    (result : Except PlaceholderError (List Char)) :
    (resume visiting frames reading result).frames = frames := by
  cases result <;> rfl

theorem suffix_meet (settings : Settings) (visiting : List String) (frames : List Frame)
    (reading : Reading) (result : Except PlaceholderError (List Char)) :
    frames <:+ (meet settings visiting frames reading result).frames := by
  cases result with
  | error e => exact List.suffix_rfl
  | ok body =>
      rcases hsplit : splitDefault body with ⟨key, default⟩
      simp only [meet, hsplit]
      by_cases hkey : key ∈ visiting
      · rw [if_pos hkey, resume_frames]
      · rw [if_neg hkey]
        cases settings.get? key with
        | some text => exact List.suffix_cons _ _
        | none => cases default <;> exact List.suffix_rfl

-- A call goes on when the one that it waits for returns.
theorem above_resume (settings : Settings) (visiting : List String) (frames : List Frame)
    (key : String) (reading : Reading) (result : Except PlaceholderError (List Char)) :
    Above settings frames ⟨key :: visiting, .setting key reading :: frames, .returns result⟩
      (resume visiting frames reading result) :=
  .head rfl (by rw [List.tail_cons, resume_frames]) .refl

-- A placeholder is replaced as `substitute` says, if the settings of keys are.
theorem meet_resumes {settings : Settings} {visiting : List String} {frames : List Frame}
    {reading : Reading} (hvalues : ∀ key text, key ∉ visiting → settings.get? key = some text →
      Above settings (.setting key reading :: frames)
        ⟨key :: visiting, .setting key reading :: frames, .reads (.of text)⟩
        ⟨key :: visiting, .setting key reading :: frames,
          .returns (resolveFrom settings (key :: visiting) text text.toList)⟩)
    (body : List Char) :
    Above settings frames (meet settings visiting frames reading (.ok body))
      (resume visiting frames reading
        (substitute (fun key text => resolveFrom settings (key :: visiting) text text.toList)
          settings visiting body)) := by
  rcases hsplit : splitDefault body with ⟨key, default⟩
  simp only [meet, substitute, hsplit]
  by_cases hkey : key ∈ visiting
  · rw [if_pos hkey, if_pos hkey]
    exact .refl
  · rw [if_neg hkey, if_neg hkey]
    cases hget : settings.get? key with
    | some text =>
        exact (hvalues key text hkey hget).of_cons.trans (above_resume _ _ _ _ _ _)
    | none =>
        cases default with
        | some default => exact .refl
        | none => exact .refl

-- A call that finds no placeholder to resolve returns at once.
theorem reads_at_once {settings : Settings} {visiting : List String} {frames : List Frame}
    {reading : Reading} {result : Except PlaceholderError (List Char)}
    (h : proceed visiting frames reading = ⟨visiting, frames, .returns result⟩) :
    Above settings frames ⟨visiting, frames, .reads reading⟩
      ⟨visiting, frames, .returns result⟩ :=
  .head (congrArg some h) List.suffix_rfl .refl

-- A placeholder is replaced and the call goes on behind it, or what went wrong is the result.
theorem meet_returns {settings : Settings} {visiting : List String} {frames : List Frame}
    {reading : Reading} {rest : Except PlaceholderError (List Char)}
    (hvalues : ∀ key text, key ∉ visiting → settings.get? key = some text →
      Above settings (.setting key reading :: frames)
        ⟨key :: visiting, .setting key reading :: frames, .reads (.of text)⟩
        ⟨key :: visiting, .setting key reading :: frames,
          .returns (resolveFrom settings (key :: visiting) text text.toList)⟩)
    (hrest : ∀ replacement, Above settings frames
      ⟨visiting, frames, .reads (reading.append replacement)⟩
      ⟨visiting, frames, .returns (rest.map (reading.resolved ++ replacement ++ ·))⟩)
    (body : List Char) :
    Above settings frames (meet settings visiting frames reading (.ok body))
      ⟨visiting, frames, .returns ((substitute (fun key text =>
        resolveFrom settings (key :: visiting) text text.toList) settings visiting body).bind
          fun replacement => rest.map (reading.resolved ++ replacement ++ ·))⟩ := by
  refine (meet_resumes hvalues body).trans ?_
  cases substitute (fun key text => resolveFrom settings (key :: visiting) text text.toList)
      settings visiting body with
  | error e => exact .refl
  | ok replacement => exact hrest replacement

/-- A call returns what `resolveFrom` says, with the frames and the keys that it was made with. The
    frames below it stay where they are in the meantime. -/
theorem reads_returns (settings : Settings) (visiting : List String) (whole : String)
    (rest : List Char) : ∀ (frames : List Frame) (resolved : List Char),
      Above settings frames ⟨visiting, frames, .reads ⟨whole, resolved, rest⟩⟩
        ⟨visiting, frames,
          .returns ((resolveFrom settings visiting whole rest).map (resolved ++ ·))⟩ := by
  induction visiting, whole, rest using resolveFrom.induct settings with
  | case1 visiting whole rest hopen =>
      intro frames resolved
      refine reads_at_once ?_
      simp only [proceed, resolveFrom_eq settings visiting whole rest, hopen]
      rfl
  | case2 visiting whole rest literal behind hopen hclose =>
      intro frames resolved
      refine reads_at_once ?_
      simp only [proceed, resolveFrom_eq settings visiting whole rest, hopen, hclose]
      rfl
  | case3 visiting whole rest literal behind hopen offset hclose hcut =>
      intro frames resolved
      refine reads_at_once ?_
      simp only [proceed, resolveFrom_eq settings visiting whole rest, hopen, hclose, hcut]
      rfl
  | case4 visiting whole rest literal behind hopen offset hclose body tail hcut ihbody ihvalue
      ihtail =>
      intro frames resolved
      let reading : Reading := ⟨whole, resolved ++ literal, tail.drop 1⟩
      have hstart : step settings ⟨visiting, frames, .reads ⟨whole, resolved, rest⟩⟩
          = some ⟨visiting, .body reading :: frames, .reads ⟨String.ofList body, [], body⟩⟩ := by
        simp only [step, proceed, hopen, hclose, hcut, Reading.of, String.toList_ofList]
        rfl
      have hvalues : ∀ key text, key ∉ visiting → settings.get? key = some text →
          Above settings (.setting key reading :: frames)
            ⟨key :: visiting, .setting key reading :: frames, .reads (.of text)⟩
            ⟨key :: visiting, .setting key reading :: frames,
              .returns (resolveFrom settings (key :: visiting) text text.toList)⟩ := by
        intro key text hkey hget
        have := ihvalue key hkey text hget (.setting key reading :: frames) []
        rwa [map_nil_append] at this
      have hresult : (resolveFrom settings visiting whole rest).map (resolved ++ ·)
          = (resolveFrom settings visiting (String.ofList body) body).bind fun body =>
            (substitute (fun key text => resolveFrom settings (key :: visiting) text text.toList)
              settings visiting body).bind fun replacement =>
                (resolveFrom settings visiting whole (tail.drop 1)).map
                  (reading.resolved ++ replacement ++ ·) := by
        simp only [resolveFrom_eq settings visiting whole rest, hopen, hclose, hcut, map_bind,
          map_map, reading, List.append_assoc]
      -- The body is resolved first, then the key is met, and the rest of the text follows.
      have hbody := ihbody (.body reading :: frames) []
      rw [map_nil_append] at hbody
      rw [hresult]
      refine .head hstart (List.suffix_cons _ _) (hbody.of_cons.trans ?_)
      cases resolveFrom settings visiting (String.ofList body) body with
      | error e => exact .head rfl List.suffix_rfl .refl
      | ok resolvedBody =>
          refine .head rfl (suffix_meet settings visiting frames reading (.ok resolvedBody)) ?_
          exact meet_returns hvalues (fun replacement =>
            ihtail frames (reading.resolved ++ replacement)) resolvedBody

/-- The keys that are being visited are those whose settings the frames wait for, each once, and
    each has a setting. -/
structure Resolver.Sound (settings : Settings) (r : Resolver) : Prop where
  visiting_eq : r.visiting = r.underway
  nodup : r.visiting.Nodup
  configured : ∀ key ∈ r.visiting, (settings.get? key).isSome

namespace Resolver.Sound

variable {settings : Settings} {visiting : List String} {frames : List Frame} {reading : Reading}
  {task : Task}

theorem start (settings : Settings) (text : String) : (start text).Sound settings where
  visiting_eq := rfl
  nodup := .nil
  configured _ hkey := absurd hkey List.not_mem_nil

-- What the innermost call is about to do says nothing about the keys that are visited.
theorem retask (h : Sound settings ⟨visiting, frames, task⟩) (task' : Task) :
    Sound settings ⟨visiting, frames, task'⟩ :=
  ⟨h.visiting_eq, h.nodup, h.configured⟩

-- A call for a body visits no key.
theorem body_iff {task' : Task} : Sound settings ⟨visiting, .body reading :: frames, task⟩
    ↔ Sound settings ⟨visiting, frames, task'⟩ :=
  ⟨fun h => ⟨h.visiting_eq, h.nodup, h.configured⟩, fun h => ⟨h.visiting_eq, h.nodup, h.configured⟩⟩

theorem visit {key text : String} (h : Sound settings ⟨visiting, frames, task⟩)
    (hkey : key ∉ visiting) (hget : settings.get? key = some text) (task' : Task) :
    Sound settings ⟨key :: visiting, .setting key reading :: frames, task'⟩ where
  visiting_eq := congrArg (key :: ·) h.visiting_eq
  nodup := List.nodup_cons.2 ⟨hkey, h.nodup⟩
  configured key' hkey' := by
    rcases List.mem_cons.1 hkey' with rfl | hkey'
    · rw [hget]
      rfl
    · exact h.configured key' hkey'

theorem leave {key : String} (h : Sound settings ⟨visiting, .setting key reading :: frames, task⟩)
    (task' : Task) : Sound settings ⟨visiting.tail, frames, task'⟩ where
  visiting_eq := congrArg List.tail h.visiting_eq
  nodup := h.nodup.tail
  configured key hkey := h.configured key (List.mem_of_mem_tail hkey)

theorem resume (h : Sound settings ⟨visiting, frames, task⟩) (reading : Reading)
    (result : Except PlaceholderError (List Char)) :
    Sound settings (resume visiting frames reading result) := by
  cases result with
  | ok replacement => exact h.retask _
  | error e => exact h.retask _

theorem proceed (h : Sound settings ⟨visiting, frames, task⟩) (reading : Reading) :
    Sound settings (proceed visiting frames reading) := by
  unfold Resolver.proceed
  split
  · exact h.retask _
  · split
    · exact h.retask _
    · split
      · exact h.retask _
      · exact body_iff.2 h

theorem meet (h : Sound settings ⟨visiting, frames, task⟩) (reading : Reading)
    (result : Except PlaceholderError (List Char)) :
    Sound settings (meet settings visiting frames reading result) := by
  cases result with
  | error e => exact h.resume reading (.error e)
  | ok body =>
      rcases hsplit : splitDefault body with ⟨key, default⟩
      simp only [Resolver.meet, hsplit]
      by_cases hkey : key ∈ visiting
      · rw [if_pos hkey]
        exact h.resume reading _
      · rw [if_neg hkey]
        cases hget : settings.get? key with
        | some text => exact h.visit hkey hget _
        | none =>
            cases default with
            | some default => exact h.resume reading _
            | none => exact h.resume reading _

/-- No step makes the resolver visit a key twice, or one that has no setting. -/
theorem step {r r' : Resolver} (h : r.Sound settings) (hstep : r.step settings = some r') :
    r'.Sound settings := by
  rcases r with ⟨visiting, frames, reading | result⟩
  · cases hstep
    exact h.proceed reading
  · cases frames with
    | nil => cases hstep
    | cons frame frames =>
        cases frame with
        | body reading =>
            cases hstep
            have hbody : Sound settings ⟨visiting, frames, .returns result⟩ := body_iff.1 h
            exact hbody.meet reading result
        | setting key reading =>
            cases hstep
            exact (h.leave (.returns result)).resume reading result

theorem of_leads {r r' : Resolver} (h : r.Sound settings)
    (hleads : Leads settings r r') : r'.Sound settings := by
  induction hleads with
  | refl => exact h
  | tail _ hstep ih => exact ih.step hstep

end Resolver.Sound

-- An error goes up through all calls that wait, and each key is left on the way.
theorem error_unwinds (settings : Settings) (e : PlaceholderError) (frames : List Frame) :
    ∀ visiting, ∃ visiting', Leads settings ⟨visiting, frames, .returns (.error e)⟩
      ⟨visiting', [], .returns (.error e)⟩ := by
  induction frames with
  | nil => exact fun visiting => ⟨visiting, .refl⟩
  | cons frame frames ih =>
      intro visiting
      cases frame with
      | body reading =>
          rcases ih visiting with ⟨visiting', hrest⟩
          exact ⟨visiting', .head rfl hrest⟩
      | setting key reading =>
          rcases ih visiting.tail with ⟨visiting', hrest⟩
          exact ⟨visiting', .head rfl hrest⟩

-- No call fails for a key while it looks for the next placeholder.
theorem proceed_not_circular (visiting : List String) (frames : List Frame) (reading : Reading)
    (key : String) :
    (proceed visiting frames reading).task ≠ .returns (.error (.circular key)) := by
  unfold proceed
  split
  · simp
  · split
    · simp
    · split <;> simp

-- The key that a call fails for is met in this step, unless the error comes from a call within.
theorem circular_of_step {settings : Settings} {key : String} {r r' : Resolver}
    (hstep : r.step settings = some r') (herror : r'.task = .returns (.error (.circular key))) :
    r.task = .returns (.error (.circular key)) ∨ r.Meets key ∧ key ∈ r.visiting := by
  rcases r with ⟨visiting, frames, reading | result⟩
  · cases hstep
    exact absurd herror (proceed_not_circular visiting frames reading key)
  · cases frames with
    | nil => cases hstep
    | cons frame frames =>
        cases frame with
        | setting other reading =>
            cases hstep
            cases result with
            | ok replacement => cases herror
            | error e => exact Or.inl herror
        | body reading =>
            cases hstep
            cases result with
            | error e => exact Or.inl herror
            | ok body =>
                right
                rcases hsplit : splitDefault body with ⟨other, default⟩
                simp only [meet, hsplit] at herror
                by_cases hother : other ∈ visiting
                · rw [if_pos hother] at herror
                  cases herror
                  exact ⟨⟨body, reading, frames, rfl, rfl, congrArg Prod.fst hsplit⟩, hother⟩
                · rw [if_neg hother] at herror
                  cases hget : settings.get? other with
                  | some text =>
                      rw [hget] at herror
                      cases herror
                  | none =>
                      rw [hget] at herror
                      cases default <;> cases herror

/-- A key that a call fails for has been met before, while its setting was being resolved. -/
theorem circular_met {settings : Settings} {text key : String} {r : Resolver}
    (hleads : Leads settings (start text) r)
    (herror : r.task = .returns (.error (.circular key))) :
    ∃ r, Leads settings (start text) r ∧ r.Meets key ∧ key ∈ r.underway := by
  induction hleads with
  | refl => cases herror
  | @tail r r' hleads hstep ih =>
      rcases circular_of_step hstep herror with herror | ⟨hmeets, hkey⟩
      · exact ih herror
      · have hsound := (Sound.start settings text).of_leads hleads
        exact ⟨r, hleads, hmeets, hsound.visiting_eq ▸ hkey⟩

/-- A key that is met while its setting is being resolved makes the resolver fail for it. -/
theorem leads_circular (settings : Settings) {key : String} {r : Resolver} (hmeets : r.Meets key)
    (hkey : key ∈ r.visiting) : ∃ visiting, Leads settings r
      ⟨visiting, [], .returns (.error (.circular key))⟩ := by
  rcases r with ⟨visiting, frames, task⟩
  rcases hmeets with ⟨body, reading, frames, rfl, rfl, rfl⟩
  rcases error_unwinds settings (.circular (splitDefault body).1) frames visiting with
    ⟨visiting', hrest⟩
  refine ⟨visiting', .head (congrArg some ?_) hrest⟩
  rcases hsplit : splitDefault body with ⟨key, default⟩
  rw [hsplit] at hkey
  simp only [meet, hsplit, if_pos hkey]
  rfl

/-- **Visits to keys.** The resolver comes to an end on every text, whatever the settings say, and
    what it ends with is the result. The keys that are being visited on the way are those whose
    settings are being resolved, none of them twice, and each has a setting. A call returns with
    the keys and the frames that it was made with. The resolver fails for a circular reference to a
    key if and only if a placeholder has this key while the setting of the key is being resolved. -/
theorem resolver_visits (settings : Settings) (text : String) :
    (∃ result, resolve settings text = result.map String.ofList ∧
      (⟨[], [], .returns result⟩ : Resolver) ∈ StateTransition.eval (step settings) (start text)) ∧
    (∀ r, Leads settings (start text) r →
      r.visiting = r.underway ∧ r.visiting.Nodup ∧
        (∀ key ∈ r.visiting, (settings.get? key).isSome) ∧
        ∀ reading, r.task = .reads reading → Above settings r.frames r
          ⟨r.visiting, r.frames,
            .returns ((resolveFrom settings r.visiting reading.whole reading.rest).map
              (reading.resolved ++ ·))⟩) ∧
    ∀ key, resolve settings text = .error (.circular key) ↔
      ∃ r, Leads settings (start text) r ∧ r.Meets key ∧ key ∈ r.underway := by
  have hend : Leads settings (start text)
      ⟨[], [], .returns (resolveFrom settings [] text text.toList)⟩ := by
    have hreturns := (reads_returns settings [] text text.toList [] []).leads
    rwa [map_nil_append] at hreturns
  have heval : (⟨[], [], .returns (resolveFrom settings [] text text.toList)⟩ : Resolver) ∈
      StateTransition.eval (step settings) (start text) :=
    StateTransition.mem_eval.2 ⟨hend, rfl⟩
  refine ⟨⟨_, rfl, heval⟩, ?_, ?_⟩
  · rintro ⟨visiting, frames, task⟩ hleads
    have hsound := (Sound.start settings text).of_leads hleads
    refine ⟨hsound.visiting_eq, hsound.nodup, hsound.configured, ?_⟩
    rintro ⟨whole, resolved, rest⟩ rfl
    exact reads_returns settings visiting whole rest frames resolved
  · intro key
    constructor
    · intro herror
      refine circular_met hend ?_
      cases hresult : resolveFrom settings [] text text.toList with
      | ok result =>
          rw [resolve, hresult] at herror
          cases herror
      | error e =>
          rw [resolve, hresult] at herror
          cases herror
          rfl
    · rintro ⟨r, hleads, hmeets, hkey⟩
      have hsound := (Sound.start settings text).of_leads hleads
      rcases leads_circular settings hmeets (hsound.visiting_eq ▸ hkey) with ⟨visiting, hfails⟩
      -- There is one end only.
      have hsame := Part.mem_unique heval (StateTransition.mem_eval.2 ⟨hleads.trans hfails, rfl⟩)
      injection hsame with _ _ htask
      injection htask with hresult
      rw [resolve, hresult]
      rfl

end Placeholder

end ObjectBootstrap
