import ObjectBootstrap.Proofs.Container.Integrity

/-!
# Moments of a run

A hook or a factory that asks for an object does so in the middle of other operations. The states in
which it does are not at the ends of courses, because the calls, requests and builds around them
still go on. `Amid` speaks of any moment of a run, and what neither an operation nor the beginning
of one takes away holds at each of them.

## Main definitions

* `Amid`: A run comes through a state, maybe in the middle of calls and builds.

## Theorems

* `Amid.log_suffix`: No entry of the log is lost up to there.
* `Amid.coherent`: The container is coherent there.
-/

namespace ObjectBootstrap

variable {H : Host}

/-- A run that sets out in one state comes through another one, between operations or in the middle
    of calls, requests and builds that are still going on. -/
inductive Amid (s : State H) : State H → Prop
  | rest : Amid s s
  | goesOn {t u : State H} : Amid s t → Course Anything t u → Amid s u
  | enters {t : State H} (point : EntryPoint H) : Amid s t → Amid s (t.note (.entered point))
  | asks {t : State H} (name : String) : Amid s t → Amid s (t.note (.requested name))
  | begins {t : State H} {name : String} {k : Container H} :
    Amid s t → t.container.singletons.get? name = none →
      t.container.beginCreation name = .ok k → Amid s (t.withContainer k)

namespace Amid

variable {s t : State H}

/-- No entry of the log is lost, wherever a run has come to. -/
theorem log_suffix (h : Amid s t) : s.log <:+ t.log := by
  induction h with
  | rest => exact List.suffix_rfl
  | goesOn _ h ih => exact ih.trans h.log_suffix
  | enters _ _ ih => exact ih.trans (List.suffix_cons _ _)
  | asks _ _ ih => exact ih.trans (List.suffix_cons _ _)
  | begins _ _ _ ih => exact ih

/-- The container is coherent all the time. -/
theorem coherent (h : Amid s t) (hs : s.container.Coherent) : t.container.Coherent := by
  induction h with
  | rest => exact hs
  | goesOn _ h ih => exact h.coherent ih
  | enters _ _ ih => exact ih
  | asks _ _ ih => exact ih
  | begins _ hkept hk ih => exact ih.beginCreation hkept hk

end Amid

end ObjectBootstrap
