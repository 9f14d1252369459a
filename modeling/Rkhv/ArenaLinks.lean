import Rkhv.Arenas
import Rkhv.LinkedLists

/-!
# The linked list of arenas

Arena headers are linked in both directions, and `arena_head` leads to the newest
arena. `arena_create` puts a page in front, `arena_destroy` unlinks one wherever
it is, and both check links that they are about to change. As long as only live
arenas are destroyed the checks hold, and the walk that decides whether a page
is used meets each live arena once. The list is the one of the state record,
which leaves the links out.
-/

namespace Rkhv.ArenaLinks

open ByteMemory HostTypes HostState StateOutcome LinkedLists

/-! ## The links -/

/-- `arena_header_t`; arenas and sub-arenas are given by their pages. -/
structure LinkedHeader where
  prev : Option Word
  next : Option Word
  subarenas : Option Word
  usedSize : Word
  deriving DecidableEq, Inhabited

/-- `arena_head` and what the pages hold when they are read as headers. -/
structure ArenaHeap where
  arenaHead : Option Word
  header : Word → LinkedHeader
  /-- `next` of `arena_sub_header_t` -/
  subNext : Word → Option Word

/-- A function of `arena.c`. -/
abbrev ArenaM := EStateM Fault ArenaHeap

/-- `PANIC("Corrupted arena linked list")` -/
def corruptedList : Fault := .panic "Corrupted arena linked list"

/-- Change the header of an arena. -/
def setHeader (arena : Word) (f : LinkedHeader → LinkedHeader) : ArenaM Unit :=
  modify fun h => { h with header := Function.update h.header arena (f (h.header arena)) }

/-- The inner loop of `mm_page_used_by_arena`; `none` when it does not end in time. -/
def usedBySubarenas (h : ArenaHeap) (page : Word) : ℕ → Option Word → Option Bool
  | _, none => some false
  | 0, some _ => none
  | rounds + 1, some sub =>
    if page = sub then some true else usedBySubarenas h page rounds (h.subNext sub)

/-- The outer loop of `mm_page_used_by_arena`. -/
def usedByArenas (h : ArenaHeap) (page : Word) : ℕ → Option Word → Option Bool
  | _, none => some false
  | 0, some _ => none
  | rounds + 1, some arena =>
    if page = arena then some true
    else match usedBySubarenas h page rounds (h.header arena).subarenas with
      | none => none
      | some true => some true
      | some false => usedByArenas h page rounds (h.header arena).next

/-- `mm_page_used_by_arena` with a bound on the rounds of its loops. -/
def mmPageUsedByArena (h : ArenaHeap) (rounds : ℕ) (pagePhysicalAddress : Word) : Option Bool :=
  usedByArenas h (pagePhysicalAddress &&& pageMask) rounds h.arenaHead

/-- The part of `arena_destroy` for the next arena. -/
def unlinkNext (arena : Word) : ArenaM Unit := do
  let h ← get
  match (h.header arena).next with
  | none => pure ()
  | some next =>
    if (h.header next).prev ≠ some arena then throw corruptedList
    else setHeader next fun header => { header with prev := (h.header arena).prev }

/-- The part of `arena_destroy` for the previous arena. -/
def unlinkPrev (arena : Word) : ArenaM Unit := do
  let h ← get
  match (h.header arena).prev with
  | none => pure ()
  | some prev =>
    if (h.header prev).next ≠ some arena then throw corruptedList
    else setHeader prev fun header => { header with next := (h.header arena).next }

/-- The part of `arena_destroy` for the head of the list. -/
def unlinkHead (arena : Word) : ArenaM Unit := do
  let h ← get
  if h.arenaHead = some arena then
    if (h.header arena).prev ≠ none then throw corruptedList
    else modify fun h => { h with arenaHead := (h.header arena).next }
  else pure ()

/-- `arena_destroy` -/
def arenaDestroy (arena : Word) : ArenaM Unit := do
  unlinkNext arena
  unlinkPrev arena
  unlinkHead arena

/-- The part of `arena_create` for the arena that was the head. -/
def linkHead (arenaPage : Word) : ArenaM Unit := do
  let h ← get
  match h.arenaHead with
  | none => pure ()
  | some head =>
    if (h.header head).prev ≠ none then throw corruptedList
    else setHeader head fun header => { header with prev := some arenaPage }

/-- `arena_create`, on the page that `mm_get_free_page` returned. -/
def arenaCreate (arenaPage : Word) : ArenaM Word := do
  let h ← get
  setHeader arenaPage fun _ =>
    { prev := none, next := h.arenaHead, subarenas := none, usedSize := 0 }
  linkHead arenaPage
  modify fun h => { h with arenaHead := some arenaPage }
  return arenaPage

/-! ## What the links denote -/

/-- The links of the headers. -/
def links (h : ArenaHeap) : Links Word := ⟨fun p => (h.header p).prev, fun p => (h.header p).next⟩

/-- The headers link the given arenas, and none of them has sub-arenas. -/
structure Denotes (h : ArenaHeap) (arenas : List Word) : Prop where
  linked : IsList (links h) h.arenaHead arenas
  nodup : arenas.Nodup
  flat : ∀ p ∈ arenas, (h.header p).subarenas = none

variable {h h' : ArenaHeap} {arenas xs ys : List Word} {arena page : Word}

/-- A new header sets both links of its arena. -/
theorem links_setHeader (h : ArenaHeap) (arena : Word) (header : LinkedHeader) :
    links { h with header := Function.update h.header arena header } =
      ((links h).setPrev arena header.prev).setNext arena header.next := by
  simp only [links, Links.setPrev, Links.setNext, Links.mk.injEq]
  constructor
  · funext p
    by_cases hp : p = arena
    · rw [hp, Function.update_self, Function.update_self]
    · rw [Function.update_of_ne hp, Function.update_of_ne hp]
  · funext p
    by_cases hp : p = arena
    · rw [hp, Function.update_self, Function.update_self]
    · rw [Function.update_of_ne hp, Function.update_of_ne hp]

/-- A header with another previous arena. -/
theorem links_setPrev (h : ArenaHeap) (arena : Word) (prev : Option Word) :
    links { h with header := Function.update h.header arena { h.header arena with prev := prev } } =
      (links h).setPrev arena prev := by
  rw [links_setHeader]
  exact congrArg (Links.mk _) (Function.update_eq_self arena _)

/-- A header with another next arena. -/
theorem links_setNext (h : ArenaHeap) (arena : Word) (next : Option Word) :
    links { h with header := Function.update h.header arena { h.header arena with next := next } } =
      (links h).setNext arena next := by
  rw [links_setHeader]
  exact congrArg (fun prev => (Links.mk prev _).setNext arena next) (Function.update_eq_self arena _)

/-- The links of one arena are changed without its other fields. -/
theorem subarenas_update {header : Word → LinkedHeader} {arena : Word} {changed : LinkedHeader}
    (hsame : changed.subarenas = (header arena).subarenas) (p : Word) :
    (Function.update header arena changed p).subarenas = (header p).subarenas := by
  by_cases hp : p = arena
  · rw [hp, Function.update_self]
    exact hsame
  · rw [Function.update_of_ne hp]

/-- The walk meets every arena once and finds no other page. -/
theorem usedByArenas_eq {before first : Option Word} (hlinked : Segment (links h) before first xs none)
    (hflat : ∀ p ∈ xs, (h.header p).subarenas = none) {rounds : ℕ} (hrounds : xs.length ≤ rounds) :
    usedByArenas h page rounds first = some (xs.any fun arena => page == arena) := by
  induction xs generalizing before first rounds with
  | nil =>
    obtain rfl : first = none := hlinked
    cases rounds <;> rfl
  | cons arena rest ih =>
    obtain ⟨rfl, _, hrest⟩ := hlinked
    cases rounds with
    | zero => cases hrounds
    | succ rounds =>
      have hsub : usedBySubarenas h page rounds (h.header arena).subarenas = some false := by
        rw [hflat arena List.mem_cons_self]
        cases rounds <;> rfl
      have hlater := ih hrest (fun p hp => hflat p (List.mem_cons_of_mem arena hp))
        (Nat.le_of_succ_le_succ hrounds)
      rw [usedByArenas, hsub, List.any_cons]
      by_cases hpage : page = arena
      · rw [if_pos hpage, beq_iff_eq.mpr hpage, Bool.true_or]
      · rw [if_neg hpage, beq_eq_false_iff_ne.mpr hpage, Bool.false_or]
        exact hlater

/-- `mm_page_used_by_arena` answers with the membership of the page. -/
theorem Denotes.used (hd : Denotes h arenas) {rounds : ℕ} (hrounds : arenas.length ≤ rounds)
    (a : Word) : mmPageUsedByArena h rounds a =
      some (arenas.any fun arena => (a &&& pageMask) == arena) :=
  usedByArenas_eq hd.linked hd.flat hrounds

/-- The first arena has none before it. -/
theorem Denotes.head (hd : Denotes h arenas) {head : Word} (hhead : h.arenaHead = some head) :
    head ∈ arenas ∧ (h.header head).prev = none := by
  have hlinked := hd.linked
  rw [hhead] at hlinked
  cases arenas with
  | nil => cases hlinked
  | cons p rest =>
    obtain rfl : head = p := Option.some.inj hlinked.1
    exact ⟨List.mem_cons_self, hlinked.2.1⟩

/-! ## Creation -/

/-- The header of a new arena. -/
def newHeader (arenaHead : Option Word) : LinkedHeader where
  prev := none
  next := arenaHead
  subarenas := none
  usedSize := 0

/-- A page that is no arena becomes the first one. -/
theorem arenaCreate_denotes (hd : Denotes h arenas) (hpage : page ∉ arenas) :
    Ensures (arenaCreate page) h (fun arena h' => arena = page ∧ Denotes h' (page :: arenas))
      (fun _ _ => False) := by
  have hlinked := hd.linked.push hpage hd.nodup
  have hnodup : (page :: arenas).Nodup := List.nodup_cons.mpr ⟨hpage, hd.nodup⟩
  have hother : ∀ p ∈ arenas, p ≠ page := fun p hp he => hpage (he ▸ hp)
  have hnew := links_setHeader h page (newHeader h.arenaHead)
  have hkept : ∀ p ∈ arenas, (Function.update h.header page (newHeader h.arenaHead) p).subarenas = none :=
    fun p hp => (congrArg LinkedHeader.subarenas (Function.update_of_ne (hother p hp) _ _)).trans
      (hd.flat p hp)
  have hself : Function.update h.header page (newHeader h.arenaHead) page = newHeader h.arenaHead :=
    Function.update_self ..
  rw [arenaCreate, ensures_bind, ensures_get, ensures_bind, setHeader, ensures_modify, linkHead,
    ensures_bind, ensures_bind, ensures_get]
  cases hhead : h.arenaHead with
  | none =>
    rw [hhead] at hlinked hnew hkept hself
    refine ⟨rfl, ?_, hnodup, List.forall_mem_cons.mpr ⟨congrArg LinkedHeader.subarenas hself, hkept⟩⟩
    exact (congrArg (fun l => IsList l (some page) (page :: arenas)) hnew).mpr hlinked
  | some head =>
    obtain ⟨hmem, hback⟩ := hd.head hhead
    have hne := hother head hmem
    rw [hhead] at hlinked hnew hkept hself
    have hcond : ¬((Function.update h.header page (newHeader (some head)) head).prev ≠ none) := by
      rw [Function.update_of_ne hne]
      exact not_not.mpr hback
    have hsecond := links_setPrev { h with
      header := Function.update h.header page (newHeader (some head)) } head (some page)
    have hboth := hsecond.trans (congrArg (fun l => l.setPrev head (some page)) hnew)
    have hlist := (congrArg (fun l => IsList l (some page) (page :: arenas)) hboth).mpr hlinked
    have hflat : ∀ p ∈ page :: arenas,
        (Function.update h.header page (newHeader (some head)) p).subarenas = none :=
      List.forall_mem_cons.mpr ⟨congrArg LinkedHeader.subarenas hself, hkept⟩
    simp only [newHeader] at hcond
    simp only [if_neg hcond, setHeader, ensures_modify]
    exact ⟨rfl, hlist, hnodup, fun p hp => (subarenas_update (by rfl) p).trans (hflat p hp)⟩

/-! ## Destruction -/

/-- One step of `arena_destroy` changed links only, and none of the arena itself. -/
structure Relinked (arena : Word) (h h' : ArenaHeap) (l : Links Word) : Prop where
  links : links h' = l
  head : h'.arenaHead = h.arenaHead
  own : h'.header arena = h.header arena
  subarenas : ∀ p, (h'.header p).subarenas = (h.header p).subarenas

/-- The next arena leads back past the arena. -/
theorem unlinkNext_spec (hback : ∀ n, (links h).next arena = some n →
      n ≠ arena ∧ (links h).prev n = some arena) :
    Ensures (unlinkNext arena) h (fun _ h' => Relinked arena h h' (match (links h).next arena with
      | none => links h
      | some n => (links h).setPrev n ((links h).prev arena))) (fun _ _ => False) := by
  rw [unlinkNext, ensures_bind, ensures_get]
  have hnext : (links h).next arena = (h.header arena).next := rfl
  rw [hnext] at hback ⊢
  cases hn : (h.header arena).next with
  | none => exact ⟨rfl, rfl, rfl, fun _ => rfl⟩
  | some n =>
    obtain ⟨hne, hprev⟩ := hback n hn
    have hcond : ¬((h.header n).prev ≠ some arena) := not_not.mpr hprev
    simp only [if_neg hcond, setHeader, ensures_modify]
    exact ⟨links_setPrev h n (h.header arena).prev, rfl, Function.update_of_ne hne.symm _ _,
      fun p => subarenas_update (by rfl) p⟩

/-- The previous arena leads past the arena. -/
theorem unlinkPrev_spec (hforth : ∀ q, (links h).prev arena = some q →
      q ≠ arena ∧ (links h).next q = some arena) :
    Ensures (unlinkPrev arena) h (fun _ h' => Relinked arena h h' (match (links h).prev arena with
      | none => links h
      | some q => (links h).setNext q ((links h).next arena))) (fun _ _ => False) := by
  rw [unlinkPrev, ensures_bind, ensures_get]
  have hprev : (links h).prev arena = (h.header arena).prev := rfl
  rw [hprev] at hforth ⊢
  cases hq : (h.header arena).prev with
  | none => exact ⟨rfl, rfl, rfl, fun _ => rfl⟩
  | some q =>
    obtain ⟨hne, hnext⟩ := hforth q hq
    have hcond : ¬((h.header q).next ≠ some arena) := not_not.mpr hnext
    simp only [if_neg hcond, setHeader, ensures_modify]
    exact ⟨links_setNext h q (h.header arena).next, rfl, Function.update_of_ne hne.symm _ _,
      fun p => subarenas_update (by rfl) p⟩

/-- The head moves on when it is the arena. -/
theorem unlinkHead_spec (hfirst : h.arenaHead = some arena → (h.header arena).prev = none) :
    Ensures (unlinkHead arena) h (fun _ h' => h' = { h with
      arenaHead := if h.arenaHead = some arena then (h.header arena).next else h.arenaHead })
      (fun _ _ => False) := by
  rw [unlinkHead, ensures_bind, ensures_get]
  by_cases hhead : h.arenaHead = some arena
  · have hcond : ¬((h.header arena).prev ≠ none) := not_not.mpr (hfirst hhead)
    simp only [if_pos hhead, if_neg hcond, ensures_modify]
  · simp only [if_neg hhead, ensures_pure]

/-- An arena is taken out of the list, wherever it is. -/
theorem arenaDestroy_denotes (hd : Denotes h (xs ++ arena :: ys)) :
    Ensures (arenaDestroy arena) h (fun _ h' => Denotes h' (xs ++ ys)) (fun _ _ => False) := by
  have hlinked := hd.linked.linked hd.nodup
  obtain ⟨hnodupXs, hnodupTail, hapart⟩ := List.nodup_append.mp hd.nodup
  obtain ⟨harenaYs, hnodupYs⟩ := List.nodup_cons.mp hnodupTail
  have hnext : ∀ n, (links h).next arena = some n → n ≠ arena ∧ (links h).prev n = some arena := by
    intro n hn
    have hmem : n ∈ ys := List.mem_of_head? (hlinked.next.symm.trans hn)
    exact ⟨ne_of_mem_of_not_mem hmem harenaYs, hlinked.back n hn⟩
  have hprev : ∀ q, (links h).prev arena = some q → q ≠ arena ∧ (links h).next q = some arena := by
    intro q hq
    have hmem : q ∈ xs := List.mem_of_getLast? (hlinked.prev.symm.trans hq)
    exact ⟨hapart q hmem arena List.mem_cons_self, hlinked.forth q hq⟩
  rw [arenaDestroy, ensures_bind]
  refine (unlinkNext_spec hnext).mono (fun _ h₁ hfirst => ?_) fun _ _ h => h
  have hkept : (links h₁).prev arena = (links h).prev arena :=
    congrArg LinkedHeader.prev hfirst.own
  have hforth : ∀ q, (links h₁).prev arena = some q →
      q ≠ arena ∧ (links h₁).next q = some arena := by
    intro q hq
    obtain ⟨hne, hq'⟩ := hprev q (hkept.symm.trans hq)
    refine ⟨hne, ?_⟩
    rw [hfirst.links]
    cases (links h).next arena with
    | none => exact hq'
    | some n => exact hq'
  rw [ensures_bind]
  refine (unlinkPrev_spec hforth).mono (fun _ h₂ hsecond => ?_) fun _ _ h => h
  have hown : h₂.header arena = h.header arena := hsecond.own.trans hfirst.own
  have hhead : h₂.arenaHead = h.arenaHead := hsecond.head.trans hfirst.head
  have hnone : h₂.arenaHead = some arena → (h₂.header arena).prev = none := by
    intro he
    have hnil := hlinked.first.mp (hhead.symm.trans he)
    rw [hown]
    exact hlinked.prev.trans (by rw [hnil]; rfl)
  refine (unlinkHead_spec hnone).mono (fun _ h₃ hthird => ?_) fun _ _ h => h
  have hsame : links h₃ = (links h).unlink arena := by
    have hthis : links h₃ = links h₂ := by rw [hthird]; rfl
    have hkeptNext : (links h₁).next arena = (links h).next arena :=
      congrArg LinkedHeader.next hfirst.own
    rw [hthis, hsecond.links, hkept, hkeptNext, hfirst.links, Links.unlink]
    cases (links h).prev arena with
    | none => cases (links h).next arena with
      | none => rfl
      | some n => rfl
    | some q => cases (links h).next arena with
      | none => rfl
      | some n => rfl
  have hfrom : h₃.arenaHead =
      if h.arenaHead = some arena then (links h).next arena else h.arenaHead := by
    rw [hthird]
    dsimp only
    rw [hhead, hown]
    rfl
  refine ⟨?_, List.nodup_append.mpr ⟨hnodupXs, hnodupYs, fun p hp q hq =>
    hapart p hp q (List.mem_cons_of_mem arena hq)⟩, fun p hp => ?_⟩
  · rw [hsame, hfrom]
    exact hd.linked.unlink hd.nodup
  · have hmem : p ∈ xs ++ arena :: ys := by
      cases List.mem_append.mp hp with
      | inl hxs => exact List.mem_append_left _ hxs
      | inr hys => exact List.mem_append_right _ (List.mem_cons_of_mem arena hys)
    have hsub : (h₃.header p).subarenas = (h₂.header p).subarenas := by rw [hthird]
    rw [hsub, hsecond.subarenas, hfirst.subarenas]
    exact hd.flat p hmem

/-! ## Whole runs -/

/-- A call that changes the list. -/
inductive ArenaOp where
  | create (page : Word)
  | destroy (arena : Word)
  deriving DecidableEq

/-- Run one call. -/
def ArenaOp.run : ArenaOp → ArenaM Unit
  | .create page => do
    let _ ← arenaCreate page
    pure ()
  | .destroy arena => arenaDestroy arena

/-- Run calls one after the other. -/
def runOps : List ArenaOp → ArenaM Unit
  | [] => pure ()
  | op :: rest => do
    op.run
    runOps rest

/-- The live arenas after a call, the newest first. -/
def ArenaOp.live (live : List Word) : ArenaOp → List Word
  | .create page => page :: live
  | .destroy arena => live.erase arena

/-- The live arenas after some calls. -/
def liveArenas : List Word → List ArenaOp → List Word
  | live, [] => live
  | live, op :: rest => liveArenas (op.live live) rest

/-- A page that is no live arena is created, or a live arena is destroyed. -/
def ArenaOp.Valid (live : List Word) : ArenaOp → Prop
  | .create page => page ∉ live
  | .destroy arena => arena ∈ live

instance (live : List Word) : (op : ArenaOp) → Decidable (op.Valid live)
  | .create page => inferInstanceAs (Decidable (page ∉ live))
  | .destroy arena => inferInstanceAs (Decidable (arena ∈ live))

/-- Every call is valid where it is made. -/
def ValidOps : List Word → List ArenaOp → Prop
  | _, [] => True
  | live, op :: rest => op.Valid live ∧ ValidOps (op.live live) rest

instance decidableValidOps : (live : List Word) → (ops : List ArenaOp) → Decidable (ValidOps live ops)
  | _, [] => inferInstanceAs (Decidable True)
  | live, op :: rest =>
    let _ := decidableValidOps (op.live live) rest
    inferInstanceAs (Decidable (_ ∧ _))

/-- One call keeps the list of live arenas. -/
theorem ArenaOp.run_denotes (op : ArenaOp) (hd : Denotes h arenas) (hvalid : op.Valid arenas) :
    Ensures op.run h (fun _ h' => Denotes h' (op.live arenas)) (fun _ _ => False) := by
  cases op with
  | create page =>
    rw [ArenaOp.run, ensures_bind]
    exact (arenaCreate_denotes hd hvalid).mono (fun _ _ h' => h'.2) fun _ _ h' => h'
  | destroy arena =>
    obtain ⟨xs, ys, _, hsplit, herase⟩ := List.exists_erase_eq hvalid
    have hwithout : ArenaOp.live arenas (.destroy arena) = xs ++ ys := herase
    rw [ArenaOp.run, hwithout]
    rw [hsplit] at hd
    exact arenaDestroy_denotes hd

/-- Valid calls return and keep the list of live arenas. -/
theorem runOps_denotes (ops : List ArenaOp) (hd : Denotes h arenas) (hvalid : ValidOps arenas ops) :
    Ensures (runOps ops) h (fun _ h' => Denotes h' (liveArenas arenas ops)) (fun _ _ => False) := by
  induction ops generalizing h arenas with
  | nil => exact hd
  | cons op rest ih =>
    obtain ⟨hop, hrest⟩ := hvalid
    rw [runOps, ensures_bind]
    exact (op.run_denotes hd hop).mono (fun _ _ hd' => ih hd' hrest) fun _ _ h' => h'

/-- From an empty list on, all calls return, the list is walked through the live
arenas, each once, in both directions, and decides whether a page is an arena. -/
theorem runOps_wellFormed (ops : List ArenaOp) (h : ArenaHeap) (hempty : h.arenaHead = none)
    (hvalid : ValidOps [] ops) :
    ∃ h', runOps ops h = .ok () h' ∧
      IsList (links h') h'.arenaHead (liveArenas [] ops) ∧ (liveArenas [] ops).Nodup ∧
      (∀ p ∈ liveArenas [] ops, ∀ q ∈ liveArenas [] ops,
        (h'.header p).next = some q ↔ (h'.header q).prev = some p) ∧
      ∀ a rounds, (liveArenas [] ops).length ≤ rounds →
        ∃ used, mmPageUsedByArena h' rounds a = some used ∧
          (used = true ↔ a &&& pageMask ∈ liveArenas [] ops) := by
  have hnil : Denotes h [] := ⟨hempty, List.nodup_nil, fun p hp => by cases hp⟩
  have hrun := runOps_denotes ops hnil hvalid
  unfold Ensures at hrun
  cases hout : runOps ops h with
  | error e h' =>
    rw [hout] at hrun
    cases hrun
  | ok u h' =>
    rw [hout] at hrun
    have hd : Denotes h' (liveArenas [] ops) := hrun
    refine ⟨h', rfl, hd.linked, hd.nodup, fun p hp q hq => hd.linked.next_iff_prev hd.nodup hp hq,
      fun a rounds hrounds => ⟨_, hd.used hrounds a, ?_⟩⟩
    simp

/-- Two of three arenas are destroyed, the oldest and the newest. -/
def outerDestroyed : List ArenaOp :=
  [.create 0x1000, .create 0x2000, .create 0x3000, .destroy 0x1000, .destroy 0x3000]

theorem runOps_wellFormed_outer :
    ∃ h', runOps outerDestroyed ⟨none, fun _ => default, fun _ => none⟩ = .ok () h' ∧
      IsList (links h') h'.arenaHead [0x2000] := by
  have hvalid : ValidOps [] outerDestroyed := by decide
  obtain ⟨h', hrun, hlist, -⟩ := runOps_wellFormed outerDestroyed
    ⟨none, fun _ => default, fun _ => none⟩ rfl hvalid
  exact ⟨h', hrun, hlist⟩

/-! ## The list of the state record -/

/-- The links answer as the list of the state does. -/
theorem Denotes.used_state {s : Hv} (hd : Denotes h s.arenaList) {rounds : ℕ}
    (hrounds : s.arenaList.length ≤ rounds) (a : Word) :
    mmPageUsedByArena h rounds a = some (FreePages.mmPageUsedByArena s a) :=
  hd.used hrounds a

/-- Creating an arena links the page that the state lists. -/
theorem arenaCreate_state {s s' : Hv} (hd : Denotes h s.arenaList)
    (hcreate : Arenas.arenaCreate s = .ok page s') (hpage : page ∉ s.arenaList) :
    ∃ h', arenaCreate page h = .ok page h' ∧ Denotes h' s'.arenaList := by
  obtain ⟨page', s₁, hget, hput⟩ := bind_eq_ok.mp hcreate
  obtain ⟨region, index, rfl⟩ := FreePages.mmGetFreePage_returned hget
  have hlisted : page' = page ∧ s'.arenaList = page' :: s.arenaList := by
    cases hput
    exact ⟨rfl, rfl⟩
  obtain ⟨rfl, hlist⟩ := hlisted
  have hrun := arenaCreate_denotes hd hpage
  unfold Ensures at hrun
  cases hout : arenaCreate page' h with
  | error e h' =>
    rw [hout] at hrun
    cases hrun
  | ok arena h' =>
    rw [hout] at hrun
    rw [hlist]
    exact ⟨h', by rw [hrun.1], hrun.2⟩

end Rkhv.ArenaLinks
