import ObjectBootstrap.Proofs.Building.Overriding
import ObjectBootstrap.Proofs.Course.Revisions

/-!
# Edits inside of edits

An edit works on a copy of the definition, and the copy takes the place of what is stored when the
edit is done. What becomes of what is stored meanwhile depends on the name only. Under another name
nothing is lost, however deep the edits lie inside of one another: each of them begins with what the
one before it left behind. Under the same name everything is lost, be it the outcome of an edit or a
definition that was registered anew, and although both were reported to be done.

## Theorems

* `update_undoes_own_name_only`: What becomes of all that is stored while a definition is edited.
-/

namespace ObjectBootstrap

variable {H : Host}

/-- Let a program edit the definition of a name and succeed, whatever the edit does meanwhile: it
    may ask for objects, register definitions, and edit definitions of this and of other names,
    which in turn may do the same. Behind it the definition of the name is what the edit has made of
    the copy that it was handed, which is the definition in front of it, and all that was stored
    under the name meanwhile is undone. Of what was stored under another name only what lies inside
    of an edit of that name is undone. The rest is the history of the name, in the order of the log:
    each edit in it has read what was there, and what is true of a definition after one revision is
    true at the end if the later revisions keep it. As long as the edit goes on there is such a
    history of its own name too. -/
theorem update_undoes_own_name_only (behaviour : Behaviour H) (facade shown : Facade)
    (depth : Nat) {β : Type} {name : String}
    {edit : Definition H.Factory → Prog H (β × Definition H.Factory)} {s t : State H} {result : β}
    (h : (Prog.update name edit .done).interpret
      ((Engine.ofDepth behaviour facade depth).answer shown) s = some (.ok result, t)) :
    ∃ (d e : Definition H.Factory) (inside : Revisions H.Factory) (u : State H),
      s.container.definition name = .ok d ∧
      (edit d).Revises ((Engine.ofDepth behaviour facade depth).answer shown) s inside
        (result, e) u ∧
      t.container.definition name = .ok e ∧
      stores (since s t) = inside.stored ++ [(name, e)] ∧
      ∀ other,
        ((inside.history other).map Revision.result).Sublist (under other inside.stored) ∧
        (under other inside.stored).Perm
          ((inside.history other).map Revision.result ++ inside.undone other) ∧
        Linked (s.container.definitions.get? other) (inside.history other)
          (u.container.definitions.get? other) ∧
        (other ≠ name →
          ∀ earlier revision later, inside.history other = earlier ++ revision :: later →
            ∀ trait : Definition H.Factory → Prop, trait revision.result →
              (∀ r ∈ later, r.Keeps trait) →
                ∃ e, t.container.definition other = .ok e ∧ trait e) := by
  have hanswer : ∀ {γ : Type} (r : Request H γ), Run.Follows Anything
      ((Engine.ofDepth behaviour facade depth).answer shown r) := fun r =>
    Engine.answer_follows (Engine.lawful_ofDepth behaviour facade depth) shown r
  rcases Prog.interpret_eq_some_iff.1 h with ⟨r, hr⟩
  have hstores := hr.stores_eq hanswer
  cases hr with
  | unedited hd hrest => cases hrest
  | @edited _ _ _ _ _ _ _ u d e _ inside rest _ hd hinside hrest =>
      cases hrest
      have hfound : ∀ other, (u.container.definitions.insert name e).get? other
          = if other = name then some e else u.container.definitions.get? other := fun other =>
        NameTable.get?_insert _ _ _ _
      refine ⟨d, e, inside, u, hd, hinside, ?_, hstores, fun other =>
        ⟨inside.history_sublist other, inside.under_perm other, hinside.linked hanswer other, ?_⟩⟩
      · exact Container.definition_of_some ((hfound name).trans (if_pos rfl))
      · intro hother earlier revision later hhistory trait htrait hkeeps
        have hlinked := hinside.linked hanswer other
        rw [hhistory] at hlinked
        rcases hlinked.has htrait hkeeps with ⟨last, hlast, htrait⟩
        exact ⟨last,
          Container.definition_of_some ((hfound other).trans ((if_neg hother).trans hlast)), htrait⟩

namespace Scenarios

/-- A registry with two services. -/
def twoServices : State host := stateOf [service, { service with name := "other" }]

/-- Sets a property of a definition. -/
def setProperty (name key text : String) : Prog host (Except Error Unit) :=
  .update name (fun d => .done ((), d.withDetails (d.setProperty key text))) .done

/-- While the service is edited a property is set of the other one, and of the service itself. -/
def nestedEdits : Prog host (Except Error (Except Error Unit × Except Error Unit)) :=
  .update "service" (fun d => (setProperty "other" "inner" "text").bind fun inner =>
    (setProperty "service" "inner" "text").bind fun service =>
      .done ((inner, service), d.withDetails (d.setProperty "outer" "text"))) .done

def property? (s : State host) (name key : String) : Option String :=
  (s.container.definitions.get? name).bind fun d => d.properties.get? key

/-- What becomes of a definition when a property is set, with what is done meanwhile and behind
    it. -/
def propertyEdit (name key text : String) (inside rest : Revisions Bool) : Revisions Bool :=
  .edited name { service with name }
    { service with name, toDetails := service.setProperty key text } inside rest

/-- Both services are edited inside of an edit of the first one. -/
def nestedRevisions : Revisions Bool :=
  propertyEdit "service" "outer" "text"
    (propertyEdit "other" "inner" "text" .done
      (propertyEdit "service" "inner" "text" .done .done)) .done

theorem nestedEdits_revises : ∃ t,
    nestedEdits.Revises (plainEngine.answer .direct) twoServices nestedRevisions
      (.ok (.ok (), .ok ())) t ∧
    .updated "service" (service.withDetails (service.setProperty "inner" "text"))
      ∈ since twoServices t ∧
    property? t "service" "inner" = none := by
  refine ⟨_, .edited rfl (.edited rfl (.done _ _) (.edited rfl (.done _ _) (.done _ _)))
    (.done _ _), ?_, ?_⟩
  · exact List.mem_cons_of_mem _ List.mem_cons_self
  · decide

/-- The property of the other service stays, and so does what was to be set of the first one by the
    outer edit. -/
theorem other_name_keeps_edit : ∃ t,
    nestedEdits.interpret (plainEngine.answer .direct) twoServices
      = some (.ok (.ok (), .ok ()), t) ∧
    property? t "other" "inner" = some "text" ∧ property? t "service" "outer" = some "text" := by
  rcases nestedEdits_revises with ⟨t, hrevisions, _⟩
  have hrun := Prog.interpret_eq_some_iff.2 ⟨_, hrevisions⟩
  rcases update_undoes_own_name_only behaviour .direct .direct 3 hrun with
    ⟨d, e, inside, u, hd, hinside, hservice, _, hothers⟩
  rcases hrevisions.unique (.edited hd hinside (.done _ _)) with ⟨heq, _, _⟩
  cases heq
  rcases (hothers "other").2.2.2 (by decide) [] _ [] rfl
    (fun e => e.properties.get? "inner" = some "text") (by decide)
    (fun _ hnone => absurd hnone List.not_mem_nil) with ⟨last, hother, htext⟩
  refine ⟨t, hrun, ?_, ?_⟩
  · rw [property?, Container.definitions_of_ok hother]
    exact htext
  · rw [property?, Container.definitions_of_ok hservice]
    decide

/-- A registry in which the service may be registered anew. -/
def overridableService : State host :=
  overridable.withContainer { Container.holding [service] with allowOverriding := true }

/-- While the service is edited, but nothing is changed, it is registered anew. -/
def overrideInEdit : Prog host (Except Error (Except Error Unit)) :=
  .update "service" (fun d => (Prog.request (.register newService)).bind fun registered =>
    .done (registered, d)) .done

/-- The service is edited inside of an edit that leaves this property alone, and it is registered
    anew inside of one that changes nothing. Both are reported to be done, and yet the property is
    not set, and the old definition is there. -/
theorem own_name_loses_edit :
    (∃ t, nestedEdits.interpret (plainEngine.answer .direct) twoServices
      = some (.ok (.ok (), .ok ()), t) ∧
      .updated "service" (service.withDetails (service.setProperty "inner" "text"))
        ∈ since twoServices t ∧
      property? t "service" "inner" = none) ∧
    ∃ t, overrideInEdit.interpret (plainEngine.answer .direct) overridableService
      = some (.ok (.ok ()), t) ∧
      .registered newService ∈ since overridableService t ∧ registeredContent? t = some false := by
  refine ⟨?_, _, Prog.interpret_eq_some_iff.2 ⟨_, .edited rfl (.asked rfl (.done _ _))
    (.done _ _)⟩, ?_, ?_⟩
  · rcases nestedEdits_revises with ⟨t, hrevisions, hlost⟩
    exact ⟨t, Prog.interpret_eq_some_iff.2 ⟨_, hrevisions⟩, hlost⟩
  · exact List.mem_cons_self
  · decide

end Scenarios

end ObjectBootstrap
