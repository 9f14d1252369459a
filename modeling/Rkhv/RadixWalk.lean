import Mathlib

/-!
# Walks through a radix tree of tables

A table maps each index to nothing, to a table of the next level or to a leaf
value. Following a path of indices from a root ends at a table, at the first
leaf on the way or at an empty slot. When no table is reached by two paths,
rewriting one slot only matters for the paths through that slot: linking a
fresh empty table changes no leaf, and storing a leaf in an empty slot adds
exactly that leaf. The meaning of a slot may depend on the level of its table.
-/

namespace Rkhv.RadixWalk

variable {P I V : Type*}

/-- What one slot of a table holds. -/
inductive Entry (P V : Type*) where
  /-- The slot is empty. -/
  | absent
  /-- The slot points to a table of the next level. -/
  | table (t : P)
  /-- The slot ends the walk with a value. -/
  | leaf (v : V)
  deriving DecidableEq

/-- Contents of all tables: level, table and index give an entry. -/
abbrev Tables (P I V : Type*) := ℕ → P → I → Entry P V

/-- Where following a path ends. -/
inductive End (P I V : Type*) where
  /-- An empty slot was met. -/
  | absent
  /-- The whole path was followed and leads to a table. -/
  | table (t : P)
  /-- A leaf was met; `rest` is the part of the path below it. -/
  | leaf (v : V) (rest : List I)
  deriving DecidableEq

/-- Follow a path from a table of level `d`. -/
def follow (T : Tables P I V) : ℕ → P → List I → End P I V
  | _, t, [] => .table t
  | d, t, i :: path =>
    match T d t i with
    | .table t' => follow T (d + 1) t' path
    | .leaf v => .leaf v path
    | .absent => .absent

@[simp] theorem follow_nil (T : Tables P I V) (d : ℕ) (t : P) : follow T d t [] = .table t := rfl

/-- One step through a pointing slot. -/
theorem follow_table {T : Tables P I V} {d : ℕ} {t t' : P} {i : I} (h : T d t i = .table t')
    (path : List I) : follow T d t (i :: path) = follow T (d + 1) t' path := by
  simp only [follow, h]

/-- A leaf slot ends the walk. -/
theorem follow_leaf {T : Tables P I V} {d : ℕ} {t : P} {i : I} {v : V} (h : T d t i = .leaf v)
    (path : List I) : follow T d t (i :: path) = .leaf v path := by
  simp only [follow, h]

/-- An empty slot ends the walk. -/
theorem follow_absent {T : Tables P I V} {d : ℕ} {t : P} {i : I} (h : T d t i = .absent)
    (path : List I) : follow T d t (i :: path) = .absent := by
  simp only [follow, h]

/-- Following a joined path goes through the end of its first part. -/
theorem follow_append {T : Tables P I V} {d : ℕ} {t x : P} {p : List I}
    (h : follow T d t p = .table x) (q : List I) :
    follow T d t (p ++ q) = follow T (d + p.length) x q := by
  induction p generalizing d t with
  | nil =>
    cases h
    rfl
  | cons i p ih =>
    cases he : T d t i with
    | absent =>
      rw [follow_absent he] at h
      cases h
    | leaf v =>
      rw [follow_leaf he] at h
      cases h
    | table t' =>
      rw [follow_table he] at h
      rw [List.cons_append, follow_table he, ih h, List.length_cons]
      congr 1
      omega

/-- A walk that ended stays where it ended when the path goes on. -/
theorem follow_append_absent {T : Tables P I V} {d : ℕ} {t : P} {p : List I}
    (h : follow T d t p = .absent) (q : List I) : follow T d t (p ++ q) = .absent := by
  induction p generalizing d t with
  | nil => cases h
  | cons i p ih =>
    cases he : T d t i with
    | absent => rw [List.cons_append, follow_absent he]
    | leaf v =>
      rw [follow_leaf he] at h
      cases h
    | table t' =>
      rw [follow_table he] at h
      rw [List.cons_append, follow_table he, ih h]

/-- Below a leaf the rest of the path grows. -/
theorem follow_append_leaf {T : Tables P I V} {d : ℕ} {t : P} {p rest : List I} {v : V}
    (h : follow T d t p = .leaf v rest) (q : List I) :
    follow T d t (p ++ q) = .leaf v (rest ++ q) := by
  induction p generalizing d t with
  | nil => cases h
  | cons i p ih =>
    cases he : T d t i with
    | absent =>
      rw [follow_absent he] at h
      cases h
    | leaf w =>
      rw [follow_leaf he] at h
      cases h
      rw [List.cons_append, follow_leaf he]
    | table t' =>
      rw [follow_table he] at h
      rw [List.cons_append, follow_table he, ih h]

/-- A path to a table is followed by one more step through a pointing slot. -/
theorem follow_snoc {T : Tables P I V} {t x y : P} {p : List I} {i : I}
    (h : follow T 0 t p = .table x) (hi : T p.length x i = .table y) :
    follow T 0 t (p ++ [i]) = .table y := by
  rw [follow_append h, Nat.zero_add, follow_table hi, follow_nil]

/-- A longer path leads through no part of a shorter one. -/
theorem not_prefix_of_length {p q : List I} (h : p.length < q.length) : ¬q <+: p :=
  fun hpre => absurd hpre.length_le (by omega)

/-- A table whose slots are all empty leads nowhere. -/
theorem follow_of_empty {T : Tables P I V} {t : P} (h : ∀ d i, T d t i = .absent) (d : ℕ)
    (p : List I) : follow T d t p = if p = [] then .table t else .absent := by
  cases p with
  | nil => rfl
  | cons i p => rw [follow_absent (h d i), if_neg (List.cons_ne_nil i p)]

/-- No table less than `D` levels below the root is reached by two paths. -/
def Separate (T : Tables P I V) (root : P) (D : ℕ) : Prop :=
  ∀ p q t, p.length < D → q.length < D → follow T 0 root p = .table t →
    follow T 0 root q = .table t → p = q

/-- A root whose slots are all empty is separate. -/
theorem separate_of_empty {T : Tables P I V} {root : P} (h : ∀ d i, T d root i = .absent)
    (D : ℕ) : Separate T root D := by
  intro p q t _ _ hp hq
  rw [follow_of_empty h] at hp hq
  split at hp
  · split at hq
    · simp only [*]
    · cases hq
  · cases hp

section Update

variable {T T' : Tables P I V} {root : P} {D : ℕ}

/-- Only the slots that are reached matter: two contents that agree there
along a path lead to the same end. -/
theorem follow_congr (q : List I)
    (h : ∀ p t i r, q = p ++ i :: r → follow T 0 root p = .table t →
      T' p.length t i = T p.length t i) :
    follow T' 0 root q = follow T 0 root q := by
  -- induction on the rest of the path, with the part already followed in front
  have key : ∀ (r pre : List I) (t : P), q = pre ++ r → follow T 0 root pre = .table t →
      follow T' pre.length t r = follow T pre.length t r := by
    intro r
    induction r with
    | nil => exact fun _ _ _ _ => rfl
    | cons i r ih =>
      intro pre t hq ht
      have hi := h pre t i r hq ht
      cases he : T pre.length t i with
      | absent => rw [follow_absent he, follow_absent (hi.trans he)]
      | leaf v => rw [follow_leaf he, follow_leaf (hi.trans he)]
      | table t' =>
        have hrest := ih (pre ++ [i]) t' (by rw [hq, List.append_assoc]; rfl) (follow_snoc ht he)
        rw [List.length_append] at hrest
        rw [follow_table he, follow_table (hi.trans he)]
        exact hrest
  exact key q [] root rfl rfl

/-- Contents that agree on every table less than `D` levels below the root
lead along every path of at most `D` indices to the same end. -/
theorem follow_congr_of_tables
    (h : ∀ p t, p.length < D → follow T 0 root p = .table t → ∀ d i, T' d t i = T d t i)
    {q : List I} (hq : q.length ≤ D) : follow T' 0 root q = follow T 0 root q := by
  refine follow_congr q fun p t i r hpr ht => h p t ?_ ht _ i
  rw [hpr, List.length_append, List.length_cons] at hq
  omega

/-- Contents some of whose slots were emptied lead to no other tables. -/
theorem follow_pruned
    (h : ∀ p t i, p.length < D → follow T 0 root p = .table t →
      T' p.length t i = T p.length t i ∨ T' p.length t i = .absent)
    {q : List I} {y : P} (hq : q.length ≤ D) (hy : follow T' 0 root q = .table y) :
    follow T 0 root q = .table y := by
  -- induction on the rest of the path, with the part already followed in front
  have key : ∀ (r pre : List I) (t : P), (pre ++ r).length ≤ D → follow T 0 root pre = .table t →
      follow T' pre.length t r = .table y → follow T pre.length t r = .table y := by
    intro r
    induction r with
    | nil => exact fun _ _ _ _ hr => hr
    | cons i r ih =>
      intro pre t hlen ht hr
      rw [List.length_append, List.length_cons] at hlen
      have hi := h pre t i (by omega) ht
      cases he : T' pre.length t i with
      | absent =>
        rw [follow_absent he] at hr
        cases hr
      | leaf v =>
        rw [follow_leaf he] at hr
        cases hr
      | table t' =>
        have hsame : T pre.length t i = .table t' := by
          rw [he] at hi
          exact (hi.resolve_right (by simp only [reduceCtorEq, not_false_eq_true])).symm
        rw [follow_table he] at hr
        have hnext : (pre ++ [i] ++ r).length ≤ D := by
          rw [List.length_append, List.length_append, List.length_singleton]
          omega
        have hrest := ih (pre ++ [i]) t' hnext (follow_snoc ht hsame) (by rwa [List.length_append])
        rw [List.length_append] at hrest
        rw [follow_table hsame]
        exact hrest
  exact key q [] root hq rfl hy

/-- Separateness only depends on the tables that are reached. -/
theorem Separate.congr (hs : Separate T root D)
    (h : ∀ p t, p.length < D → follow T 0 root p = .table t → ∀ d i, T' d t i = T d t i) :
    Separate T' root D := by
  intro p q t hp hq hfp hfq
  rw [follow_congr_of_tables h hp.le] at hfp
  rw [follow_congr_of_tables h hq.le] at hfq
  exact hs p q t hp hq hfp hfq

variable {x f : P} {p : List I} {i : I}

/-- Rewriting one slot of a separate tree only matters to the paths that go
through this slot. -/
theorem follow_update (hsep : Separate T root D) (hp : p.length < D)
    (hx : follow T 0 root p = .table x)
    (hother : ∀ d y j, ¬(y = x ∧ j = i) → T' d y j = T d y j)
    {q : List I} (hq : q.length ≤ D) (hne : ∀ r, q ≠ p ++ i :: r) :
    follow T' 0 root q = follow T 0 root q := by
  refine follow_congr q fun pre t j r hpr ht => hother _ t j fun ⟨hy, hj⟩ => ?_
  subst hy hj
  rw [hpr, List.length_append, List.length_cons] at hq
  have hpre : pre = p := hsep pre p t (by omega) hp ht hx
  exact hne r (hpre ▸ hpr)

/-- The rewritten slot is still reached along its own path. -/
theorem follow_update_self (hsep : Separate T root D) (hp : p.length < D)
    (hx : follow T 0 root p = .table x)
    (hother : ∀ d y j, ¬(y = x ∧ j = i) → T' d y j = T d y j) (r : List I) :
    follow T' 0 root (p ++ i :: r) = follow T' p.length x (i :: r) := by
  have h : follow T' 0 root p = .table x := by
    rw [follow_update hsep hp hx hother hp.le fun r hr => ?_, hx]
    have hl := congrArg List.length hr
    rw [List.length_append, List.length_cons] at hl
    omega
  rw [follow_append h, Nat.zero_add]

section Link

variable [DecidableEq I] (hsep : Separate T root D) (hp : p.length < D)
  (hx : follow T 0 root p = .table x) (habs : T p.length x i = .absent) (hnew : T' p.length x i = .table f)
  (hother : ∀ d y j, ¬(y = x ∧ j = i) → T' d y j = T d y j)
  (hfresh : ∀ q, q.length < D → follow T 0 root q ≠ .table f)
  (hempty : ∀ d j, T d f j = .absent)

include hsep hp hx habs hnew hother hfresh hempty

/-- Linking a fresh empty table adds one path, the one to the new table. -/
theorem follow_link {q : List I} (hq : q.length ≤ D) :
    follow T' 0 root q = if q = p ++ [i] then .table f else follow T 0 root q := by
  by_cases hthrough : ∃ r, q = p ++ i :: r
  · obtain ⟨r, rfl⟩ := hthrough
    have hfx : f ≠ x := fun h => hfresh p hp (h ▸ hx)
    have hempty' : ∀ d j, T' d f j = .absent := fun d j => by
      rw [hother d f j fun h => hfx h.1, hempty]
    rw [follow_update_self hsep hp hx hother, follow_table hnew, follow_of_empty hempty',
      follow_append hx, Nat.zero_add, follow_absent habs]
    simp only [List.append_cancel_left_eq, List.cons.injEq, true_and]
  · have hne : ∀ r, q ≠ p ++ i :: r := fun r hr => hthrough ⟨r, hr⟩
    rw [follow_update hsep hp hx hother hq hne, if_neg (hne [])]

/-- Linking a fresh empty table keeps the tree separate. -/
theorem Separate.link : Separate T' root D := by
  have hlink := fun q hq => follow_link hsep hp hx habs hnew hother hfresh hempty (q := q) hq
  intro q r t hq hr hfq hfr
  rw [hlink q hq.le] at hfq
  rw [hlink r hr.le] at hfr
  split at hfq
  · split at hfr
    · simp only [*]
    · cases hfq
      exact absurd hfr (hfresh r hr)
  · split at hfr
    · cases hfr
      exact absurd hfq (hfresh q hq)
    · exact hsep q r t hq hr hfq hfr

end Link

section Leaf

variable {v : V} (hsep : Separate T root D) (hp : p.length < D)
  (hx : follow T 0 root p = .table x)
  (hnew : T' p.length x i = .leaf v)
  (hother : ∀ d y j, ¬(y = x ∧ j = i) → T' d y j = T d y j)

include hsep hp hx hnew hother

/-- Storing a leaf gives the paths through its slot that leaf. -/
theorem follow_store_self (r : List I) : follow T' 0 root (p ++ i :: r) = .leaf v r := by
  rw [follow_update_self hsep hp hx hother, follow_leaf hnew]

/-- Storing a leaf in an empty slot keeps the tree separate. -/
theorem Separate.store : Separate T' root D := by
  have hsame : ∀ q t, q.length < D → follow T' 0 root q = .table t →
      follow T 0 root q = .table t := by
    intro q t hq ht
    by_cases hthrough : ∃ r, q = p ++ i :: r
    · obtain ⟨r, rfl⟩ := hthrough
      rw [follow_store_self hsep hp hx hnew hother] at ht
      cases ht
    · rwa [follow_update hsep hp hx hother hq.le fun r hr => hthrough ⟨r, hr⟩] at ht
  intro q r t hq hr hfq hfr
  exact hsep q r t hq hr (hsame q t hq hfq) (hsame r t hr hfr)

end Leaf

end Update

end Rkhv.RadixWalk
