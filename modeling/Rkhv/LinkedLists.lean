import Mathlib

/-!
# Doubly linked lists

Nodes carry a link to the previous and to the next node. A segment is a part of
a list that is walked along `next` and whose `prev` links lead back. Segments
join and split like lists of nodes, a new node can be put in front, and a node
is unlinked by patching the links of its two neighbours.
-/

namespace Rkhv.LinkedLists

universe u

variable {α : Type u}

/-- Links of all nodes. -/
structure Links (α : Type u) where
  prev : α → Option α
  next : α → Option α

/-- `nodes` are the nodes from `first` on, behind the node `before`, up to `after`. -/
def Segment (l : Links α) : Option α → Option α → List α → Option α → Prop
  | _, first, [], after => first = after
  | before, first, p :: rest, after =>
    first = some p ∧ l.prev p = before ∧ Segment l (some p) (l.next p) rest after

/-- A whole list, which begins at a node and ends with null links. -/
def IsList (l : Links α) (first : Option α) (nodes : List α) : Prop := Segment l none first nodes none

/-- The last of some nodes, or the node before them. -/
def lastOr : Option α → List α → Option α
  | before, [] => before
  | _, p :: rest => lastOr (some p) rest

variable {l l' : Links α} {before first after : Option α} {xs ys : List α} {p : α}

/-- Segments split where lists of nodes do. -/
theorem segment_append : Segment l before first (xs ++ ys) after ↔
    ∃ mid, Segment l before first xs mid ∧ Segment l (lastOr before xs) mid ys after := by
  induction xs generalizing before first with
  | nil =>
    constructor
    · intro h
      exact ⟨first, rfl, h⟩
    · intro h
      obtain ⟨mid, rfl, hys⟩ := h
      exact hys
  | cons p rest ih =>
    simp only [List.cons_append, Segment, lastOr, ih]
    constructor
    · intro h
      obtain ⟨hfirst, hprev, mid, hrest, hys⟩ := h
      exact ⟨mid, ⟨hfirst, hprev, hrest⟩, hys⟩
    · intro h
      obtain ⟨mid, ⟨hfirst, hprev, hrest⟩, hys⟩ := h
      exact ⟨hfirst, hprev, mid, hrest, hys⟩

/-- A segment only depends on the links of its nodes. -/
theorem Segment.congr (h : Segment l before first xs after)
    (hprev : ∀ p ∈ xs, l'.prev p = l.prev p) (hnext : ∀ p ∈ xs, l'.next p = l.next p) :
    Segment l' before first xs after := by
  induction xs generalizing before first with
  | nil => exact h
  | cons p rest ih =>
    obtain ⟨hfirst, hbefore, hrest⟩ := h
    have hp := List.mem_cons_self (a := p) (l := rest)
    refine ⟨hfirst, (hprev p hp).trans hbefore, ?_⟩
    rw [hnext p hp]
    exact ih hrest (fun q hq => hprev q (List.mem_cons_of_mem p hq))
      fun q hq => hnext q (List.mem_cons_of_mem p hq)

/-- The first node of a segment is the first of its nodes. -/
theorem Segment.first_eq (h : Segment l before first xs after) :
    first = xs.head?.or after := by
  cases xs with
  | nil => exact h
  | cons p rest => exact h.1

/-- The node before a segment is the last of the nodes in front of it. -/
theorem lastOr_eq (before : Option α) (xs : List α) : lastOr before xs = xs.getLast?.or before := by
  induction xs generalizing before with
  | nil => rfl
  | cons p rest ih =>
    rw [lastOr, ih]
    cases rest with
    | nil => rfl
    | cons p' rest =>
      rw [List.getLast?_cons_cons]
      obtain ⟨q, hq⟩ : ∃ q, (p' :: rest).getLast? = some q :=
        ⟨_, List.getLast?_eq_some_getLast (List.cons_ne_nil p' rest)⟩
      rw [hq]
      rfl

/-- The last node of a segment leads to what comes behind it. -/
theorem Segment.next_last (h : Segment l before first xs after) {q : α}
    (hq : xs.getLast? = some q) : l.next q = after := by
  induction xs generalizing before first with
  | nil => cases hq
  | cons p rest ih =>
    cases rest with
    | nil =>
      obtain rfl : p = q := Option.some.inj hq
      exact h.2.2
    | cons p' rest =>
      rw [List.getLast?_cons_cons] at hq
      exact ih h.2.2 hq

/-- The node in front of the rest of a list is the one that the first of them leads back to. -/
theorem Segment.prev_first (h : Segment l before first xs after) {q : α}
    (hq : xs.head? = some q) : first = some q ∧ l.prev q = before := by
  cases xs with
  | nil => cases hq
  | cons p rest =>
    obtain rfl : p = q := Option.some.inj hq
    exact ⟨h.1, h.2.1⟩

/-- What the links of a node of a list and of its neighbours are. -/
structure Linked (l : Links α) (first : Option α) (p : α) (xs ys : List α) : Prop where
  prev : l.prev p = xs.getLast?
  next : l.next p = ys.head?
  back : ∀ n, l.next p = some n → l.prev n = some p
  forth : ∀ q, l.prev p = some q → l.next q = some p
  first : first = some p ↔ xs = []

theorem IsList.linked (h : IsList l first (xs ++ p :: ys)) (hnodup : (xs ++ p :: ys).Nodup) :
    Linked l first p xs ys := by
  obtain ⟨mid, hxs, hmid, hprev, hys⟩ := segment_append.mp h
  subst hmid
  rw [lastOr_eq, Option.or_none] at hprev
  have hnext : l.next p = ys.head? := by rw [hys.first_eq, Option.or_none]
  refine ⟨hprev, hnext, fun n hn => ?_, fun q hq => ?_, ?_⟩
  · exact (hys.prev_first (hnext.symm.trans hn)).2
  · exact hxs.next_last (hprev.symm.trans hq)
  · have hp : p ∉ xs := fun hmem =>
      (List.nodup_append.mp hnodup).2.2 p hmem p List.mem_cons_self rfl
    constructor
    · intro hfirst
      cases xs with
      | nil => rfl
      | cons q rest =>
        obtain rfl : q = p := Option.some.inj (hxs.1.symm.trans hfirst)
        exact absurd List.mem_cons_self hp
    · intro hnil
      rw [hnil] at hxs
      exact hxs

/-- The links of a list lead back and forth. -/
theorem IsList.next_iff_prev {nodes : List α} (h : IsList l first nodes) (hnodup : nodes.Nodup)
    {q : α} (hp : p ∈ nodes) (hq : q ∈ nodes) : l.next p = some q ↔ l.prev q = some p := by
  constructor
  · intro hnext
    obtain ⟨xs, ys, rfl⟩ := List.append_of_mem hp
    exact (h.linked hnodup).back q hnext
  · intro hprev
    obtain ⟨xs, ys, rfl⟩ := List.append_of_mem hq
    exact (h.linked hnodup).forth p hprev

/-! ## Changing links -/

variable [DecidableEq α]

/-- Change the link to the next node. -/
def Links.setNext (l : Links α) (p : α) (next : Option α) : Links α :=
  { l with next := Function.update l.next p next }

/-- Change the link to the previous node. -/
def Links.setPrev (l : Links α) (p : α) (prev : Option α) : Links α :=
  { l with prev := Function.update l.prev p prev }

/-- Changing a link of another node keeps a segment. -/
theorem Segment.setNext_of_not_mem (h : Segment l before first xs after) (hp : p ∉ xs)
    (next : Option α) : Segment (l.setNext p next) before first xs after :=
  h.congr (fun _ _ => rfl) fun _ hq => Function.update_of_ne (ne_of_mem_of_not_mem hq hp) _ _

theorem Segment.setPrev_of_not_mem (h : Segment l before first xs after) (hp : p ∉ xs)
    (prev : Option α) : Segment (l.setPrev p prev) before first xs after :=
  h.congr (fun _ hq => Function.update_of_ne (ne_of_mem_of_not_mem hq hp) _ _) fun _ _ => rfl

/-- A segment goes on elsewhere when the link of its last node is changed. -/
theorem Segment.setNext_last (h : Segment l before first xs after) (hnodup : xs.Nodup) {q : α}
    (hq : xs.getLast? = some q) (next : Option α) : Segment (l.setNext q next) before first xs next := by
  induction xs generalizing before first with
  | nil => cases hq
  | cons p rest ih =>
    obtain ⟨hfirst, hprev, hrest⟩ := h
    refine ⟨hfirst, hprev, ?_⟩
    cases rest with
    | nil =>
      obtain rfl : p = q := Option.some.inj hq
      exact Function.update_self ..
    | cons p' rest =>
      rw [List.getLast?_cons_cons] at hq
      have hmem : q ∈ p' :: rest := List.mem_of_getLast? hq
      have hne : p ≠ q := fun he => (List.nodup_cons.mp hnodup).1 (he ▸ hmem)
      have hnext : (l.setNext q next).next p = l.next p := Function.update_of_ne hne _ _
      rw [hnext]
      exact ih hrest (List.nodup_cons.mp hnodup).2 hq

/-- A segment comes from elsewhere when the link of its first node is changed. -/
theorem Segment.setPrev_first (h : Segment l before first (p :: xs) after) (hp : p ∉ xs)
    (prev : Option α) : Segment (l.setPrev p prev) prev first (p :: xs) after :=
  ⟨h.1, Function.update_self .., h.2.2.setPrev_of_not_mem hp prev⟩

/-! ## A new first node -/

/-- Links with a new node in front of `first`. -/
def Links.push (l : Links α) (p : α) (first : Option α) : Links α :=
  match first with
  | none => (l.setPrev p none).setNext p none
  | some q => ((l.setPrev p none).setNext p (some q)).setPrev q (some p)

/-- A new node is put in front of a list. -/
theorem IsList.push (h : IsList l first xs) (hp : p ∉ xs) (hnodup : xs.Nodup) :
    IsList (l.push p first) (some p) (p :: xs) := by
  cases xs with
  | nil =>
    obtain rfl : first = none := h
    exact ⟨rfl, Function.update_self .., Function.update_self ..⟩
  | cons q rest =>
    obtain rfl : first = some q := h.1
    have hne : p ≠ q := fun he => hp (he ▸ List.mem_cons_self)
    have hfresh : Segment ((l.setPrev p none).setNext p (some q)) none (some q) (q :: rest) none :=
      (Segment.setPrev_of_not_mem h hp none).setNext_of_not_mem hp (some q)
    have hlinked := hfresh.setPrev_first (List.nodup_cons.mp hnodup).1 (some p)
    have hprev : (l.push p (some q)).prev p = none :=
      (Function.update_of_ne hne _ _).trans (Function.update_self ..)
    have hnext : (l.push p (some q)).next p = some q := Function.update_self ..
    refine ⟨rfl, hprev, ?_⟩
    rw [hnext]
    exact hlinked

/-! ## Unlinking -/

/-- Links after both neighbours of a node are patched. -/
def Links.unlink (l : Links α) (p : α) : Links α :=
  let patched := match l.next p with
    | none => l
    | some n => l.setPrev n (l.prev p)
  match l.prev p with
  | none => patched
  | some q => patched.setNext q (l.next p)

/-- Without the node the list is linked. -/
theorem IsList.unlink (h : IsList l first (xs ++ p :: ys)) (hnodup : (xs ++ p :: ys).Nodup) :
    IsList (l.unlink p) (if first = some p then l.next p else first) (xs ++ ys) := by
  have hlinked := h.linked hnodup
  obtain ⟨mid, hxs, hmid, hprev, hys⟩ := segment_append.mp h
  subst hmid
  obtain ⟨hnodupXs, hnodupYs, hapart⟩ := List.nodup_append.mp hnodup
  obtain ⟨hpYs, hnodupYs⟩ := List.nodup_cons.mp hnodupYs
  have hfront : ∀ n ∈ ys, n ∉ xs := fun n hn hmem =>
    hapart n hmem n (List.mem_cons_of_mem p hn) rfl
  -- the part behind the node, once its first node leads back past the node
  have hpatched : ∀ patched, patched = (match l.next p with
      | none => l
      | some n => l.setPrev n (l.prev p)) →
      Segment patched none first xs (some p) ∧ Segment patched (l.prev p) (l.next p) ys none := by
    intro patched hpatch
    cases hn : l.next p with
    | none =>
      rw [hn] at hpatch hys
      have hnil : ys = [] := by
        cases ys with
        | nil => rfl
        | cons n rest => cases hys.1
      rw [hpatch, hnil]
      exact ⟨hxs, rfl⟩
    | some n =>
      rw [hn] at hpatch hys
      cases ys with
      | nil => cases hys
      | cons n' rest =>
        obtain rfl : n = n' := Option.some.inj hys.1
        rw [hpatch]
        exact ⟨hxs.setPrev_of_not_mem (hfront n List.mem_cons_self) _,
          hys.setPrev_first (List.nodup_cons.mp hnodupYs).1 _⟩
  obtain ⟨hbefore, hbehind⟩ := hpatched _ rfl
  rw [IsList, segment_append]
  cases hq : l.prev p with
  | none =>
    have hnil : xs = [] := List.getLast?_eq_none_iff.mp (hlinked.prev.symm.trans hq)
    have hfirst := hlinked.first.mpr hnil
    rw [if_pos hfirst, hnil]
    refine ⟨l.next p, rfl, ?_⟩
    rw [Links.unlink, hq]
    rw [hq] at hbehind
    exact hbehind
  | some q =>
    have hlast : xs.getLast? = some q := hlinked.prev.symm.trans hq
    have hfirst : ¬first = some p := fun he => by
      rw [hlinked.first.mp he] at hlast
      cases hlast
    have hmem : q ∈ xs := List.mem_of_getLast? hlast
    have hqYs : q ∉ ys := fun hn => hfront q hn hmem
    rw [if_neg hfirst, lastOr_eq, hlast]
    rw [hq] at hbehind
    refine ⟨l.next p, ?_, ?_⟩
    · rw [Links.unlink, hq]
      rw [hq] at hbefore
      exact hbefore.setNext_last hnodupXs hlast _
    · rw [Links.unlink, hq]
      exact hbehind.setNext_of_not_mem hqYs _

end Rkhv.LinkedLists
