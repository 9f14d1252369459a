import Mathlib

/-!
# Outcomes of stateful programs that can fail

A program over `EStateM` either returns a value or stops with a fault, and in
both cases leaves a state behind. `Ensures` states what holds of each outcome;
its rules follow the program text, so that a specification is proved by going
through the statements in order. Counted loops have an invariant rule.
-/

namespace Rkhv.StateOutcome

universe u

variable {ε σ α β : Type u}

/-- Running `m` from `s` returns with `Q` or stops with `E`. -/
def Ensures (m : EStateM ε σ α) (s : σ) (Q : α → σ → Prop) (E : ε → σ → Prop) : Prop :=
  match m s with
  | .ok a s' => Q a s'
  | .error e s' => E e s'

variable {s : σ} {Q Q' : α → σ → Prop} {R : β → σ → Prop} {E E' : ε → σ → Prop}

/-- Weaker conclusions follow from stronger ones. -/
theorem Ensures.mono {m : EStateM ε σ α} (h : Ensures m s Q E) (hq : ∀ a s', Q a s' → Q' a s')
    (he : ∀ e s', E e s' → E' e s') : Ensures m s Q' E' := by
  unfold Ensures at h ⊢
  split at h
  · exact hq _ _ h
  · exact he _ _ h

/-- Both conclusions of two specifications hold together. -/
theorem Ensures.and {m : EStateM ε σ α} (h : Ensures m s Q E) (h' : Ensures m s Q' E') :
    Ensures m s (fun a s' => Q a s' ∧ Q' a s') (fun e s' => E e s' ∧ E' e s') := by
  unfold Ensures at h h' ⊢
  split
  · rename_i he
    simp only [he] at h h'
    exact ⟨h, h'⟩
  · rename_i he
    simp only [he] at h h'
    exact ⟨h, h'⟩

/-- What a specification says of a program that returned. -/
theorem Ensures.of_ok {m : EStateM ε σ α} (h : Ensures m s Q E) {a : α} {s' : σ}
    (hm : m s = .ok a s') : Q a s' := by
  unfold Ensures at h
  rwa [hm] at h

/-- What a specification says of a program that stopped. -/
theorem Ensures.of_error {m : EStateM ε σ α} (h : Ensures m s Q E) {e : ε} {s' : σ}
    (hm : m s = .error e s') : E e s' := by
  unfold Ensures at h
  rwa [hm] at h

/-- A program that is known to return is specified by what it returns. -/
theorem Ensures.ok {m : EStateM ε σ α} {a : α} {s' : σ} (hm : m s = .ok a s') (hq : Q a s') :
    Ensures m s Q E := by
  unfold Ensures
  rwa [hm]

/-- A program that is known to stop is specified by its fault. -/
theorem Ensures.error {m : EStateM ε σ α} {e : ε} {s' : σ} (hm : m s = .error e s') (he : E e s') :
    Ensures m s Q E := by
  unfold Ensures
  rwa [hm]

/-- A specification that holds of every outcome is one of the program. -/
theorem Ensures.intro {m : EStateM ε σ α} (hq : ∀ a s', m s = .ok a s' → Q a s')
    (he : ∀ e s', m s = .error e s' → E e s') : Ensures m s Q E := by
  unfold Ensures
  split
  · exact hq _ _ ‹_›
  · exact he _ _ ‹_›

@[simp] theorem ensures_pure (a : α) :
    Ensures (pure a : EStateM ε σ α) s Q E ↔ Q a s := Iff.rfl

@[simp] theorem ensures_bind (m : EStateM ε σ α) (f : α → EStateM ε σ β) :
    Ensures (m >>= f) s R E ↔ Ensures m s (fun a s' => Ensures (f a) s' R E) E := by
  unfold Ensures
  simp only [bind, EStateM.bind]
  cases m s <;> rfl

@[simp] theorem ensures_get {T : σ → σ → Prop} :
    Ensures (get : EStateM ε σ σ) s T E ↔ T s s := Iff.rfl

@[simp] theorem ensures_modify {T : PUnit → σ → Prop} (f : σ → σ) :
    Ensures (modify f : EStateM ε σ PUnit) s T E ↔ T ⟨⟩ (f s) := Iff.rfl

@[simp] theorem ensures_throw (e : ε) :
    Ensures (throw e : EStateM ε σ α) s Q E ↔ E e s := Iff.rfl

/-- A branch is specified branch by branch. -/
theorem ensures_ite {p : Prop} [Decidable p] {m m' : EStateM ε σ α} :
    Ensures (if p then m else m') s Q E ↔
      (p → Ensures m s Q E) ∧ (¬p → Ensures m' s Q E) := by
  by_cases h : p
  · simp only [h, if_true, true_implies, not_true_eq_false, false_implies, and_true]
  · simp only [h, if_false, false_implies, not_false_eq_true, true_implies, true_and]

/-- A returned sequence splits into its two returned parts. -/
theorem bind_eq_ok {m : EStateM ε σ α} {f : α → EStateM ε σ β} {b : β} {s'' : σ} :
    (m >>= f) s = .ok b s'' ↔ ∃ a s', m s = .ok a s' ∧ f a s' = .ok b s'' := by
  simp only [bind, EStateM.bind]
  constructor
  · intro h
    split at h
    · exact ⟨_, _, ‹_›, h⟩
    · cases h
  · rintro ⟨a, s', hm, hf⟩
    rw [hm]
    exact hf

theorem pure_eq_ok {a b : α} {s' : σ} :
    (pure a : EStateM ε σ α) s = .ok b s' ↔ a = b ∧ s = s' := by
  simp only [pure, EStateM.pure, EStateM.Result.ok.injEq]

theorem get_eq_ok {t s' : σ} : (get : EStateM ε σ σ) s = .ok t s' ↔ s = t ∧ s = s' := by
  simp only [get, getThe, MonadStateOf.get, EStateM.get, EStateM.Result.ok.injEq]

theorem modify_eq_ok {f : σ → σ} {u : PUnit} {s' : σ} :
    (modify f : EStateM ε σ PUnit) s = .ok u s' ↔ f s = s' := by
  simp only [modify, modifyGet, MonadStateOf.modifyGet, EStateM.modifyGet, EStateM.Result.ok.injEq,
    true_and]

theorem throw_ne_ok {e : ε} {a : α} {s' : σ} : ¬(throw e : EStateM ε σ α) s = .ok a s' := by
  simp only [throw, throwThe, MonadExceptOf.throw, EStateM.throw, reduceCtorEq, not_false_eq_true]

/-- The rest of a sequence runs from where its first part returned. -/
theorem bind_of_ok {m : EStateM ε σ α} {f : α → EStateM ε σ β} {a : α} {s' : σ}
    (h : m s = .ok a s') : (m >>= f) s = f a s' := by
  simp only [bind, EStateM.bind, h]

/-- A fault of the first part is the fault of the sequence. -/
theorem bind_of_error {m : EStateM ε σ α} {f : α → EStateM ε σ β} {e : ε} {s' : σ}
    (h : m s = .error e s') : (m >>= f) s = .error e s' := by
  simp only [bind, EStateM.bind, h]

/-- First parts with the same outcome continue the same way. -/
theorem bind_of_eq {m m' : EStateM ε σ α} {f : α → EStateM ε σ β} (h : m s = m' s) :
    (m >>= f) s = (m' >>= f) s := by
  simp only [bind, EStateM.bind, h]

/-- Run `body i`, `body (i + 1)` and so on, `n` times. -/
def forFrom (body : ℕ → EStateM ε σ PUnit) : ℕ → ℕ → EStateM ε σ PUnit
  | _, 0 => pure ⟨⟩
  | i, n + 1 => do
    body i
    forFrom body (i + 1) n

/-- The counted loop `for (i = 0; i < n; i++)`. -/
def forRange (n : ℕ) (body : ℕ → EStateM ε σ PUnit) : EStateM ε σ PUnit := forFrom body 0 n

theorem ensures_forFrom {body : ℕ → EStateM ε σ PUnit} {I : ℕ → σ → Prop} {i n : ℕ}
    (hs : I i s) (hb : ∀ j t, i ≤ j → j < i + n → I j t →
      Ensures (body j) t (fun _ t' => I (j + 1) t') E) :
    Ensures (forFrom body i n) s (fun _ s' => I (i + n) s') E := by
  induction n generalizing i s with
  | zero => exact hs
  | succ n ih =>
    rw [forFrom, ensures_bind]
    refine (hb i s (Nat.le_refl i) (by omega) hs).mono (fun _ t ht => ?_) (fun _ _ h => h)
    have hrest := ih ht (fun j t' hij hjn => hb j t' (by omega) (by omega))
    rwa [Nat.add_right_comm i 1 n] at hrest

/-- An invariant that every round carries on holds after the last round. -/
theorem ensures_forRange {n : ℕ} {body : ℕ → EStateM ε σ PUnit} (I : ℕ → σ → Prop)
    (hs : I 0 s) (hb : ∀ j t, j < n → I j t → Ensures (body j) t (fun _ t' => I (j + 1) t') E) :
    Ensures (forRange n body) s (fun _ s' => I n s') E := by
  have h := ensures_forFrom (i := 0) (n := n) hs
    (fun j t _ hj => hb j t (by simpa only [Nat.zero_add] using hj))
  simpa only [forRange, Nat.zero_add] using h

/-- A loop that returned also returns with another body that does the same from
the states of an invariant. -/
theorem forFrom_of_ok {body body' : ℕ → EStateM ε σ PUnit} (I : ℕ → σ → Prop) {i n : ℕ} {s s' : σ}
    (hs : I i s) (hb : ∀ j t t', i ≤ j → j < i + n → I j t → body j t = .ok ⟨⟩ t' →
      body' j t = .ok ⟨⟩ t' ∧ I (j + 1) t') (hrun : forFrom body i n s = .ok ⟨⟩ s') :
    forFrom body' i n s = .ok ⟨⟩ s' ∧ I (i + n) s' := by
  induction n generalizing i s with
  | zero =>
    cases hrun
    exact ⟨rfl, hs⟩
  | succ n ih =>
    rw [forFrom, bind_eq_ok] at hrun
    obtain ⟨_, t, hfirst, hrest⟩ := hrun
    obtain ⟨hfirst', ht⟩ := hb i s t (Nat.le_refl i) (by omega) hs hfirst
    obtain ⟨hrest', hs'⟩ := ih ht (fun j t t' hij hjn => hb j t t' (by omega) (by omega)) hrest
    rw [Nat.add_right_comm i 1 n] at hs'
    exact ⟨bind_eq_ok.mpr ⟨_, t, hfirst', hrest'⟩, hs'⟩

theorem forRange_of_ok {body body' : ℕ → EStateM ε σ PUnit} {n : ℕ} (I : ℕ → σ → Prop) {s s' : σ}
    (hs : I 0 s) (hb : ∀ j t t', j < n → I j t → body j t = .ok ⟨⟩ t' →
      body' j t = .ok ⟨⟩ t' ∧ I (j + 1) t') (hrun : forRange n body s = .ok ⟨⟩ s') :
    forRange n body' s = .ok ⟨⟩ s' ∧ I n s' := by
  have h := forFrom_of_ok I hs (fun j t t' _ hj => hb j t t' (by omega)) hrun
  simpa only [forRange, Nat.zero_add] using h

end Rkhv.StateOutcome
