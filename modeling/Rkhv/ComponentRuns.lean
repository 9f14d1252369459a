import Rkhv.StateOutcome

/-!
# Components that do not disturb each other

A machine serves actions one after the other, and each action shows a result.
A component sees a view of the machine's state and owns some of the actions. It
is separate from the rest when the actions of others leave its view alone and
its own actions depend on the view only. A run then looks to the component like
the run in which only its own actions happen.
-/

namespace Rkhv.ComponentRuns

open StateOutcome

universe u

variable {ε σ α ω V : Type u}

/-- Perform actions in order and collect each one with what it showed. -/
def observe (step : α → EStateM ε σ ω) : List α → EStateM ε σ (List (α × ω))
  | [] => pure []
  | a :: rest => do
    let shown ← step a
    let later ← observe step rest
    return (a, shown) :: later

/-- A component with the actions `own` and the view `view`, in a machine whose
states satisfy `inv`. -/
structure Separate (step : α → EStateM ε σ ω) (inv : σ → Prop) (own : α → Bool) (view : σ → V) :
    Prop where
  /-- Every action returns and keeps the invariant. -/
  returns : ∀ a s, inv s → ∃ shown t, step a s = .ok shown t ∧ inv t
  /-- Actions of others leave the view alone. -/
  foreign : ∀ a s shown t, inv s → own a = false → step a s = .ok shown t → view t = view s
  /-- Own actions depend on the view only. -/
  owned : ∀ a s s' shown shown' t t', inv s → inv s' → view s = view s' → own a = true →
    step a s = .ok shown t → step a s' = .ok shown' t' → shown = shown' ∧ view t = view t'

variable {step : α → EStateM ε σ ω} {inv : σ → Prop} {own : α → Bool} {view : σ → V}

theorem observe_cons {a : α} {rest : List α} {s t u : σ} {shown : ω} {later : List (α × ω)}
    (ha : step a s = .ok shown t) (hrest : observe step rest t = .ok later u) :
    observe step (a :: rest) s = .ok ((a, shown) :: later) u := by
  rw [observe, bind_of_ok ha, bind_of_ok hrest]
  rfl

/-- A whole run and the run of the component's own actions, from states with the
same view, show the same at those actions and end with the same view. -/
theorem Separate.run (h : Separate step inv own view) (actions : List α) {s s' : σ}
    (hs : inv s) (hs' : inv s') (hview : view s = view s') :
    ∃ shown t shown' t', observe step actions s = .ok shown t ∧
      observe step (actions.filter own) s' = .ok shown' t' ∧
      shown.filter (fun entry => own entry.1) = shown' ∧ view t = view t' ∧ inv t := by
  induction actions generalizing s s' with
  | nil => exact ⟨[], s, [], s', rfl, rfl, rfl, hview, hs⟩
  | cons a rest ih =>
    have ha := h.returns a s hs
    obtain ⟨first, u, hfirst, hu⟩ := ha
    cases hown : own a with
    | false =>
      have hkeep := h.foreign a s first u hs hown hfirst
      have hrest := ih hu hs' (hkeep.trans hview)
      obtain ⟨later, t, later', t', hrun, hrun', hsame, hend, ht⟩ := hrest
      refine ⟨(a, first) :: later, t, later', t', observe_cons hfirst hrun, ?_, ?_, hend, ht⟩
      · rwa [List.filter_cons_of_neg (by simp only [hown, Bool.false_eq_true, not_false_eq_true])]
      · rwa [List.filter_cons_of_neg (by simp only [hown, Bool.false_eq_true, not_false_eq_true])]
    | true =>
      have ha' := h.returns a s' hs'
      obtain ⟨first', u', hfirst', hu'⟩ := ha'
      have hstep := h.owned a s s' first first' u u' hs hs' hview hown hfirst hfirst'
      have hrest := ih hu hu' hstep.2
      obtain ⟨later, t, later', t', hrun, hrun', hsame, hend, ht⟩ := hrest
      refine ⟨(a, first) :: later, t, (a, first') :: later', t', observe_cons hfirst hrun, ?_, ?_,
        hend, ht⟩
      · rw [List.filter_cons_of_pos hown]
        exact observe_cons hfirst' hrun'
      · simp only [List.filter_cons, hown, if_true, hsame, hstep.1]

end Rkhv.ComponentRuns
