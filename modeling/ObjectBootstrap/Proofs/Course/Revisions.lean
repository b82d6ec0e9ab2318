import ObjectBootstrap.Proofs.Container.Consistency
import ObjectBootstrap.Proofs.Course.Asking

/-!
# Revisions of definitions

A program that edits a definition is handed a copy of it. While it edits the copy it may do
anything, and when it is done the copy takes the place of what is stored. So edits lie inside of one
another, and it is by this that they get in each other's way. The log has an entry where an edit
ends and none where it begins, and so it does not tell which edits lie inside of which. `Revisions`
does. They are read off the run of a program and have the shape of programs: a program is done, or
asks for something, or edits a definition.

A request that has hooks and factories called may store definitions too. These are taken from the
log, and what the programs of the hooks and factories have done is told by their own revisions.

Seen from a name, an edit of it is the last word on all that was stored under the name meanwhile,
and an edit of another name does nothing to it. `history` and `undone` go by this. What is in the
history of a name is linked: each edit in it has read what the one before it has left behind.

## Main definitions

* `Revisions`: What a program does to definitions.
* `Prog.Revises`: A program that is run does this to definitions.
* `Revision`, `Revisions.history`: What is done to the definition of one name, one after the other.
* `Revisions.undone`: What was stored under a name and is lost when an edit of the name ends.
* `Linked`: Each edit reads what is there.

## Theorems

* `Prog.interpret_eq_some_iff`, `Prog.Revises.unique`: Each run has its revisions, and only these.
* `Prog.Revises.stores_eq`: What is written down of them.
* `Revisions.history_sublist`, `Revisions.under_perm`: What was stored under a name is in its
  history, in this order, or it was undone.
* `Prog.Revises.linked`: The history of a name leads from the first definition to the last.
* `Linked.has`: A trait stays from one revision on, if all later ones keep it.
-/

namespace ObjectBootstrap

variable {H : Host} {F : Type}

/-- What a program does to definitions, in the order in which it does it. -/
inductive Revisions (F : Type) where
  | done
  /-- A request is made, and meanwhile definitions are stored under names. -/
  | asked (stored : List (String × Definition F)) (rest : Revisions F)
  /-- A definition is read and another one is written in its place, after what is done `inside`. -/
  | edited (name : String) (read written : Definition F) (inside rest : Revisions F)

/-- What is done to the definition of one name. -/
inductive Revision (F : Type) where
  /-- A definition takes its place. -/
  | stored (d : Definition F)
  /-- What was read is edited, and what has become of it is written. -/
  | edited (read written : Definition F)

/-- The definition that is there after a revision. -/
def Revision.result : Revision F → Definition F
  | .stored d => d
  | .edited _ written => written

/-- A trait is there after a revision if it was there before. -/
def Revision.Keeps (trait : Definition F → Prop) : Revision F → Prop
  | .stored d => trait d
  | .edited read written => trait read → trait written

namespace Revisions

/-- What was stored, in the order in which it was. -/
def stored : Revisions F → List (String × Definition F)
  | .done => []
  | .asked stored rest => stored ++ rest.stored
  | .edited name _ written inside rest => inside.stored ++ (name, written) :: rest.stored

/-- What is done to the definition of a name, one after the other. -/
def history (name : String) : Revisions F → List (Revision F)
  | .done => []
  | .asked stored rest => (under name stored).map .stored ++ rest.history name
  | .edited n read written inside rest =>
    (if n = name then [.edited read written] else inside.history name) ++ rest.history name

/-- What was stored under a name while the definition of the name was edited. -/
def undone (name : String) : Revisions F → List (Definition F)
  | .done => []
  | .asked _ rest => rest.undone name
  | .edited n _ _ inside rest =>
    (if n = name then under name inside.stored else inside.undone name) ++ rest.undone name

theorem results_stored (stored : List (Definition F)) :
    (stored.map Revision.stored).map Revision.result = stored := by
  rw [List.map_map]
  exact List.map_id _

/-- The history of a name is told in the order in which definitions were stored under it. -/
theorem history_sublist (name : String) (r : Revisions F) :
    ((r.history name).map Revision.result).Sublist (under name r.stored) := by
  induction r with
  | done => exact .slnil
  | asked stored rest ih =>
      rw [Revisions.stored, history, under_append, List.map_append, results_stored]
      exact ih.append_left _
  | edited n read written inside rest ihinside ihrest =>
      rw [Revisions.stored, history, under_append, List.map_append, under_cons]
      by_cases h : n = name
      · rw [if_pos h, if_pos h]
        exact (ihrest.append_left _).trans (List.sublist_append_right _ _)
      · rw [if_neg h, if_neg h, List.nil_append]
        exact ihinside.append ihrest

/-- What was stored under a name is in its history, or it was undone, and never both. -/
theorem under_perm (name : String) (r : Revisions F) :
    (under name r.stored).Perm ((r.history name).map Revision.result ++ r.undone name) := by
  induction r with
  | done => exact .nil
  | asked stored rest ih =>
      rw [Revisions.stored, history, undone, under_append, List.map_append, results_stored,
        List.append_assoc]
      exact ih.append_left _
  | edited n read written inside rest ihinside ihrest =>
      rw [Revisions.stored, history, undone, under_append, List.map_append, under_cons]
      by_cases h : n = name
      · -- The edit stays, and what was stored inside of it goes to what was undone.
        rw [if_pos h, if_pos h, if_pos h]
        refine .trans ((ihrest.append_left _).append_left _) ?_
        refine .trans (List.perm_append_comm_assoc ..) ?_
        rw [List.append_assoc]
        exact (List.perm_append_comm_assoc ..).append_left _
      · rw [if_neg h, if_neg h, if_neg h, List.nil_append]
        refine .trans (ihinside.append ihrest) ?_
        rw [List.append_assoc, List.append_assoc]
        exact (List.perm_append_comm_assoc ..).append_left _

end Revisions

/-- Each edit of a name reads what is there. Told are the definition that is there first, what is
    done to it one after the other, and the definition that is there last. -/
inductive Linked : Option (Definition F) → List (Revision F) → Option (Definition F) → Prop
  | rest (first : Option (Definition F)) : Linked first [] first
  | stored {first last : Option (Definition F)} {d : Definition F} {later : List (Revision F)} :
    Linked (some d) later last → Linked first (.stored d :: later) last
  | edited {last : Option (Definition F)} {read written : Definition F}
    {later : List (Revision F)} :
    Linked (some written) later last → Linked (some read) (.edited read written :: later) last

namespace Linked

variable {first middle last : Option (Definition F)} {earlier later : List (Revision F)}
  {trait : Definition F → Prop}

theorem append (h1 : Linked first earlier middle) (h2 : Linked middle later last) :
    Linked first (earlier ++ later) last := by
  induction h1 with
  | rest first => exact h2
  | stored _ ih => exact .stored (ih h2)
  | edited _ ih => exact .edited (ih h2)

-- Definitions that take the place of one another.
theorem of_stored (first : Option (Definition F)) (stored : List (Definition F)) :
    Linked first (stored.map .stored) (stored.getLast?.or first) := by
  induction stored generalizing first with
  | nil => exact .rest first
  | cons d rest ih =>
      refine .stored ?_
      have hlast : (d :: rest).getLast?.or first = rest.getLast?.or (some d) := by
        rw [List.getLast?_cons]
        cases rest.getLast? <;> rfl
      exact hlast ▸ ih (some d)

-- What is done after a revision begins with what the revision leaves behind.
theorem behind {revision : Revision F} (h : Linked first (earlier ++ revision :: later) last) :
    Linked (some revision.result) later last := by
  induction earlier generalizing first with
  | nil =>
      cases h with
      | stored h => exact h
      | edited h => exact h
  | cons _ rest ih =>
      cases h with
      | stored h => exact ih h
      | edited h => exact ih h

-- A trait that is there first is there last, if each revision keeps it.
theorem keeps (h : Linked first later last) (hfirst : ∃ d, first = some d ∧ trait d)
    (hkeeps : ∀ revision ∈ later, revision.Keeps trait) : ∃ d, last = some d ∧ trait d := by
  induction h with
  | rest first => exact hfirst
  | stored _ ih =>
      rcases List.forall_mem_cons.1 hkeeps with ⟨hd, hlater⟩
      exact ih ⟨_, rfl, hd⟩ hlater
  | edited _ ih =>
      rcases List.forall_mem_cons.1 hkeeps with ⟨hedit, hlater⟩
      rcases hfirst with ⟨_, heq, hread⟩
      cases heq
      exact ih ⟨_, rfl, hedit hread⟩ hlater

/-- A trait that a definition has after a revision it has at the end, if all later ones keep it. -/
theorem has {revision : Revision F} (h : Linked first (earlier ++ revision :: later) last)
    (hrevision : trait revision.result) (hkeeps : ∀ r ∈ later, r.Keeps trait) :
    ∃ d, last = some d ∧ trait d :=
  h.behind.keeps ⟨_, rfl, hrevision⟩ hkeeps

end Linked

namespace Prog

/-- A program that is run from one state to another does this to definitions. -/
inductive Revises (answer : {γ : Type} → Request H γ → Run H γ) :
    {α : Type} → Prog H α → State H → Revisions H.Factory → α → State H → Prop
  | done {α : Type} (result : α) (s : State H) : Revises answer (.done result) s .done result s
  | asked {α γ : Type} {request : Request H γ} {next : γ → Prog H α} {s t u : State H} {reply : γ}
    {rest : Revisions H.Factory} {a : α} :
    answer request s = some (reply, u) → Revises answer (next reply) u rest a t →
      Revises answer (.ask request next) s (.asked (stores (since s u)) rest) a t
  /-- The definition that is to be edited is not there. -/
  | unedited {α γ : Type} {name : String}
    {edit : Definition H.Factory → Prog H (γ × Definition H.Factory)}
    {next : Except Error γ → Prog H α} {s t : State H} {e : Error} {r : Revisions H.Factory}
    {a : α} :
    s.container.definition name = .error e → Revises answer (next (.error e)) s r a t →
      Revises answer (.update name edit next) s r a t
  | edited {α γ : Type} {name : String}
    {edit : Definition H.Factory → Prog H (γ × Definition H.Factory)}
    {next : Except Error γ → Prog H α} {s t u : State H} {d e : Definition H.Factory} {result : γ}
    {inside rest : Revisions H.Factory} {a : α} :
    s.container.definition name = .ok d → Revises answer (edit d) s inside (result, e) u →
      Revises answer (next (.ok result))
        ((u.withContainer (u.container.writeBack name e)).note (.updated name e)) rest a t →
      Revises answer (.update name edit next) s (.edited name d e inside rest) a t

variable {answer : {γ : Type} → Request H γ → Run H γ} {α : Type}

/-- What is done to definitions is read off the runs of programs: each run has its revisions, and
    whatever has revisions is a run. -/
theorem interpret_eq_some_iff {p : Prog H α} {s t : State H} {a : α} :
    p.interpret answer s = some (a, t) ↔ ∃ r, p.Revises answer s r a t := by
  constructor
  · intro h
    induction p generalizing s t with
    | done result =>
        cases h
        exact ⟨.done, .done _ _⟩
    | ask request next ih =>
        rcases Run.bind_eq_some_iff.1 h with ⟨reply, u, hreply, hrest⟩
        rcases ih reply hrest with ⟨rest, hrest⟩
        exact ⟨_, .asked hreply hrest⟩
    | update name edit next ihedit ihnext =>
        cases hd : s.container.definition name with
        | error e =>
            rw [interpret_update_of_error hd] at h
            rcases ihnext (.error e) h with ⟨r, hr⟩
            exact ⟨r, .unedited hd hr⟩
        | ok d =>
            rcases (interpret_update_eq_some_iff hd).1 h with ⟨result, e, u, hedit, hnext⟩
            rcases ihedit d hedit with ⟨inside, hinside⟩
            rcases ihnext (.ok result) hnext with ⟨rest, hrest⟩
            exact ⟨_, .edited hd hinside hrest⟩
  · rintro ⟨r, h⟩
    induction h with
    | done result s => rfl
    | asked hreply _ ih => exact Run.bind_eq_some_iff.2 ⟨_, _, hreply, ih⟩
    | unedited hd _ ih => exact (interpret_update_of_error hd).trans ih
    | edited hd _ _ ihinside ihrest =>
        exact (interpret_update_eq_some_iff hd).2 ⟨_, _, _, ihinside, ihrest⟩

namespace Revises

variable {p : Prog H α} {s t : State H} {r : Revisions H.Factory} {a : α}

/-- A run does only one thing to definitions. -/
theorem unique (h : p.Revises answer s r a t) {r' : Revisions H.Factory} {a' : α} {t' : State H}
    (h' : p.Revises answer s r' a' t') : r' = r ∧ a' = a ∧ t' = t := by
  induction h generalizing r' t' with
  | done result s =>
      cases h'
      exact ⟨rfl, rfl, rfl⟩
  | asked hreply _ ih =>
      cases h' with
      | asked hreply' hrest =>
          cases hreply.symm.trans hreply'
          rcases ih hrest with ⟨rfl, rfl, rfl⟩
          exact ⟨rfl, rfl, rfl⟩
  | unedited hd _ ih =>
      cases h' with
      | unedited hd' hrest =>
          cases hd.symm.trans hd'
          exact ih hrest
      | edited hd' _ _ => cases hd.symm.trans hd'
  | edited hd _ _ ihinside ihrest =>
      cases h' with
      | unedited hd' _ => cases hd.symm.trans hd'
      | edited hd' hinside hrest =>
          cases hd.symm.trans hd'
          rcases ihinside hinside with ⟨rfl, hedited, rfl⟩
          cases hedited
          rcases ihrest hrest with ⟨rfl, rfl, rfl⟩
          exact ⟨rfl, rfl, rfl⟩

variable (hanswer : ∀ {γ : Type} (request : Request H γ), Run.Follows Anything (answer request))
include hanswer

theorem course (h : p.Revises answer s r a t) : Course Anything s t :=
  p.interpret_follows hanswer _ _ _ (interpret_eq_some_iff.2 ⟨r, h⟩)

/-- What is done to definitions is written down when it is stored, and nothing else is. -/
theorem stores_eq (h : p.Revises answer s r a t) : stores (since s t) = r.stored := by
  induction h with
  | done result s => rw [since_self]; rfl
  | asked hreply hrest ih =>
      have hfirst := hanswer _ _ _ _ hreply
      rw [hfirst.since_followedBy (hrest.course hanswer), stores_append, ih]
      rfl
  | unedited _ _ ih => exact ih
  | @edited _ _ name _ _ s _ u d e _ _ _ _ hd hinside hrest ihinside ihrest =>
      have hfirst := hinside.course hanswer
      have hedit : Course Anything s
          ((u.withContainer (u.container.writeBack name e)).note (.updated name e)) :=
        .update trivial hd hfirst
      rw [hedit.since_followedBy (hrest.course hanswer), stores_append, ihrest,
        Course.since_update hfirst, stores_append, ihinside, List.append_assoc]
      rfl

/-- The history of a name leads from the definition that was there before to the one that is there
    behind: each edit in it has read what was there. -/
theorem linked (h : p.Revises answer s r a t) (name : String) :
    Linked (s.container.definitions.get? name) (r.history name)
      (t.container.definitions.get? name) := by
  induction h with
  | done result s => exact .rest _
  | asked hreply _ ih =>
      refine .append ?_ ih
      rw [(hanswer _ _ _ _ hreply).definition_eq name]
      exact .of_stored _ _
  | unedited _ _ ih => exact ih
  | @edited _ _ n _ _ s _ u d e _ inside _ _ hd _ _ ihinside ihrest =>
      have hedit : Linked (s.container.definitions.get? name)
          (if n = name then [.edited d e] else inside.history name)
          ((u.container.definitions.insert n e).get? name) := by
        rw [NameTable.get?_insert]
        by_cases hname : n = name
        · -- Whatever was stored meanwhile, it is the definition as it was read that is edited.
          rw [if_pos hname, if_pos hname.symm, ← hname, Container.definitions_of_ok hd]
          exact .edited (.rest _)
        · rw [if_neg hname, if_neg (Ne.symm hname)]
          exact ihinside
      exact hedit.append ihrest

end Revises

end Prog

end ObjectBootstrap
