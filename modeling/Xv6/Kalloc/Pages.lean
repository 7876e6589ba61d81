import Xv6.Kalloc.Kmem
import Mathlib.Data.List.Nodup

/-!
# Every page once

Around `kinit1` and `kinit2` the kernel calls `kalloc` and `kfree` and writes into the pages it
holds.  In every reachable state the free list and the pages handed out (the ghost list
`allocated`) are exactly the pages laid down so far, each once.
-/

namespace Xv6

namespace Kalloc

/-- How far `main` has brought the allocator. -/
inductive Phase
  /-- Before `kinit1`. -/
  | boot
  /-- After `kinit1(end, P2V(4MB))`. -/
  | early
  /-- After `kinit2(P2V(4MB), P2V(PHYSTOP))`. -/
  | running
  deriving DecidableEq, Repr

/-- The pages `kinit1` frees: from `PGROUNDUP(end)` below `P2V(4MB)`. -/
def lowPages (L : Layout) : List Nat :=
  pageAddrs (L.P2V (4 * 1024 * 1024)) (PGROUNDUP L.kernelEnd)

/-- The pages `kinit2` frees: from `PGROUNDUP(P2V(4MB))` below `P2V(PHYSTOP)`. -/
def highPages (L : Layout) : List Nat :=
  pageAddrs (L.P2V L.PHYSTOP) (PGROUNDUP (L.P2V (4 * 1024 * 1024)))

/-- The pages the init calls made so far have laid down. -/
def laidDown (L : Layout) : Phase → List Nat
  | .boot => []
  | .early => lowPages L
  | .running => lowPages L ++ highPages L

/-- The allocator and its memory, how far `main` got, and the pages handed out. -/
structure Heap where
  /-- `kmem` and memory. -/
  kmem : Kmem
  /-- The init calls made so far. -/
  phase : Phase
  /-- Ghost: the pages `kalloc` returned and `kfree` has not taken back. -/
  allocated : List Nat

/-- The kernel writes only into the pages it holds and into memory the allocator does not
manage: below `PGROUNDUP(end)` or from `P2V(PHYSTOP)` on. -/
def Writable (L : Layout) (allocated : List Nat) (a : Nat) : Prop :=
  (∃ v ∈ allocated, v ≤ a ∧ a < v + PGSIZE) ∨ a < PGROUNDUP L.kernelEnd ∨ L.P2V L.PHYSTOP ≤ a

/-- One call into the allocator, or a write of the kernel. -/
inductive Step (L : Layout) : Heap → Heap → Prop
  | kinit1 {h : Heap} {kmem : Kmem} : h.phase = .boot →
      kinit1 L L.kernelEnd (L.P2V (4 * 1024 * 1024)) h.kmem = .ok kmem →
      Step L h ⟨kmem, .early, h.allocated⟩
  | kinit2 {h : Heap} {kmem : Kmem} : h.phase = .early →
      kinit2 L (L.P2V (4 * 1024 * 1024)) (L.P2V L.PHYSTOP) h.kmem = .ok kmem →
      Step L h ⟨kmem, .running, h.allocated⟩
  | kalloc {h : Heap} :
      Step L h ⟨(kalloc h.kmem).1, h.phase,
        if (kalloc h.kmem).2 = 0 then h.allocated else (kalloc h.kmem).2 :: h.allocated⟩
  | kfree {h : Heap} {v : Nat} {kmem : Kmem} : v ∈ h.allocated → kfree L v h.kmem = .ok kmem →
      Step L h ⟨kmem, h.phase, h.allocated.erase v⟩
  | write {h : Heap} {a w : Nat} : Writable L h.allocated a →
      Step L h ⟨{ h.kmem with mem := Function.update h.kmem.mem a w }, h.phase, h.allocated⟩

/-- The states reachable from boot, where `kmem` is zero and memory holds anything. -/
inductive Reachable (L : Layout) : Heap → Prop
  | init (mem : Nat → Nat) : Reachable L ⟨⟨false, 0, mem⟩, .boot, []⟩
  | step {h h' : Heap} : Reachable L h → Step L h h' → Reachable L h'

/-- The free list in memory and the allocated pages are the pages laid down, each once. -/
structure Invariant (L : Layout) (h : Heap) : Prop where
  listed : ∃ free, Chain h.kmem.mem h.kmem.freelist free ∧
    (free ++ h.allocated).Perm (laidDown L h.phase)

section Layout

variable (L : Layout)

theorem le_PGROUNDUP (a : Nat) :
    a ≤ PGROUNDUP a ∧ PGROUNDUP a < a + PGSIZE ∧ PGROUNDUP a % PGSIZE = 0 := by
  simp only [PGROUNDUP, PGSIZE]
  omega

/-- Every page laid down passes the checks of `kfree` and lies in
`[PGROUNDUP(end), P2V(PHYSTOP))`. -/
theorem laid_passes {phase : Phase} {v : Nat} (member : v ∈ laidDown L phase) :
    Passes L v ∧ PGROUNDUP L.kernelEnd ≤ v ∧ v < L.P2V L.PHYSTOP := by
  have := L.loaded
  have := L.mapped
  have := L.physical
  have := le_PGROUNDUP L.kernelEnd
  have := le_PGROUNDUP (L.P2V (4 * 1024 * 1024))
  cases phase with
  | boot => cases member
  | early =>
      have := mem_pageAddrs.mp member
      simp only [Passes, Layout.v2p, Layout.P2V, PGSIZE] at *
      omega
  | running =>
      rcases List.mem_append.mp member with member | member <;>
      · have := mem_pageAddrs.mp member
        simp only [Passes, Layout.v2p, Layout.P2V, PGSIZE] at *
        omega

theorem laid_nodup (phase : Phase) : (laidDown L phase).Nodup := by
  cases phase with
  | boot => exact List.nodup_nil
  | early => exact pageAddrs_nodup _ _
  | running =>
      refine List.nodup_append.mpr ⟨pageAddrs_nodup _ _, pageAddrs_nodup _ _, ?_⟩
      intro v low high
      have := mem_pageAddrs.mp low
      have := mem_pageAddrs.mp high
      have := le_PGROUNDUP (L.P2V (4 * 1024 * 1024))
      simp only [Layout.P2V, PGSIZE] at *
      omega

/-! ## The pages on the two lists -/

variable {L} {free allocated : List Nat} {phase : Phase}

theorem listed_nodup (perm : (free ++ allocated).Perm (laidDown L phase)) :
    (free ++ allocated).Nodup :=
  perm.nodup_iff.mpr (laid_nodup L phase)

theorem listed_passes (perm : (free ++ allocated).Perm (laidDown L phase)) {v : Nat}
    (member : v ∈ free ++ allocated) :
    Passes L v ∧ PGROUNDUP L.kernelEnd ≤ v ∧ v < L.P2V L.PHYSTOP :=
  laid_passes L (perm.subset member)

theorem listed_apart (perm : (free ++ allocated).Perm (laidDown L phase)) {v : Nat}
    (held : v ∈ allocated) : v ∉ free :=
  fun member => List.disjoint_of_nodup_append (listed_nodup perm) member held

/-- A write the kernel may make reads back from no free page. -/
theorem writable_apart (perm : (free ++ allocated).Perm (laidDown L phase)) {a : Nat}
    (writable : Writable L allocated a) {q : Nat} (member : q ∈ free) : q ≠ a := by
  have page := listed_passes perm (List.mem_append_left _ member)
  rintro rfl
  rcases writable with ⟨v, held, inside⟩ | below | above
  · have other : q ≠ v := fun same => listed_apart perm held (same ▸ member)
    have := listed_passes perm (List.mem_append_right _ held)
    exact apart_of_aligned page.1.1 this.1.1 other inside
  · omega
  · omega

end Layout

/-! ## Each step keeps the invariant -/

section Steps

variable {L : Layout} {h : Heap}

theorem invariant_init (mem : Nat → Nat) : Invariant L ⟨⟨false, 0, mem⟩, .boot, []⟩ :=
  ⟨⟨[], .nil, .nil⟩⟩

/-- From a state at boot, `kinit1` succeeds and lays down the low pages. -/
theorem kinit1_lays (inv : Invariant L h) (boot : h.phase = .boot) :
    ∃ kmem, kinit1 L L.kernelEnd (L.P2V (4 * 1024 * 1024)) h.kmem = .ok kmem ∧
      Invariant L ⟨kmem, .early, h.allocated⟩ := by
  obtain ⟨free, chain, perm⟩ := inv.listed
  rw [boot, laidDown, List.perm_nil, List.append_eq_nil] at perm
  obtain ⟨rfl, empty⟩ := perm
  obtain ⟨kmem, folded, chain', -⟩ :=
    @foldlM_kfree L (lowPages L) [] { h.kmem with useLock := false } chain
      (fun _ absent => absurd absent (List.not_mem_nil _))
      (fun _ member => (laid_passes L (show _ ∈ laidDown L .early from member)).1)
      (by simpa using laid_nodup L .early)
  refine ⟨kmem, folded, ⟨⟨_, chain', ?_⟩⟩⟩
  rw [empty, List.append_nil, List.append_nil]
  exact List.reverse_perm _

/-- From a state after `kinit1`, `kinit2` succeeds and lays down the high pages. -/
theorem kinit2_lays (inv : Invariant L h) (early : h.phase = .early) :
    ∃ kmem, kinit2 L (L.P2V (4 * 1024 * 1024)) (L.P2V L.PHYSTOP) h.kmem = .ok kmem ∧
      Invariant L ⟨kmem, .running, h.allocated⟩ := by
  obtain ⟨free, chain, perm⟩ := inv.listed
  rw [early] at perm
  have fresh : (highPages L ++ free).Nodup :=
    List.perm_append_comm.nodup_iff.mp
      (((perm.append_right _).nodup_iff.mpr (laid_nodup L .running)).sublist
        ((List.sublist_append_left free h.allocated).append_right _))
  obtain ⟨kmem, folded, chain', -⟩ := foldlM_kfree chain
    (fun q member => (listed_passes perm (List.mem_append_left _ member)).1.1)
    (fun _ member =>
      (laid_passes L (show _ ∈ laidDown L .running from List.mem_append_right _ member)).1) fresh
  refine ⟨{ kmem with useLock := true },
    by simp only [kinit2, freerange]; rw [← highPages, folded]; rfl, ⟨⟨_, chain', ?_⟩⟩⟩
  calc List.Perm ((highPages L).reverse ++ free ++ h.allocated)
        ((highPages L).reverse ++ (free ++ h.allocated)) := by rw [List.append_assoc]
    List.Perm _ (highPages L ++ lowPages L) := (List.reverse_perm _).append perm
    List.Perm _ (laidDown L .running) := List.perm_append_comm

/-- `kfree` of an allocated page succeeds and puts it back on the free list. -/
theorem kfree_lays {v : Nat} (inv : Invariant L h) (held : v ∈ h.allocated) :
    ∃ kmem, kfree L v h.kmem = .ok kmem ∧ Invariant L ⟨kmem, h.phase, h.allocated.erase v⟩ := by
  obtain ⟨free, chain, perm⟩ := inv.listed
  have passes := (listed_passes perm (List.mem_append_right _ held)).1
  have pushed := (kfree_push chain
    (fun q member => (listed_passes perm (List.mem_append_left _ member)).1.1)
    (listed_apart perm held) passes).1
  refine ⟨_, kfree_eq h.kmem passes, ⟨⟨v :: free, pushed, ?_⟩⟩⟩
  calc List.Perm (v :: free ++ h.allocated.erase v) (free ++ v :: h.allocated.erase v) :=
        List.perm_middle.symm
    List.Perm _ (free ++ h.allocated) := (List.perm_cons_erase held).symm.append_left free
    List.Perm _ (laidDown L h.phase) := perm

theorem kinit1_preserves {kmem : Kmem} (inv : Invariant L h) (boot : h.phase = .boot)
    (ok : kinit1 L L.kernelEnd (L.P2V (4 * 1024 * 1024)) h.kmem = .ok kmem) :
    Invariant L ⟨kmem, .early, h.allocated⟩ := by
  obtain ⟨kmem', ok', inv'⟩ := kinit1_lays inv boot
  obtain rfl := Except.ok.inj (ok.symm.trans ok')
  exact inv'

theorem kinit2_preserves {kmem : Kmem} (inv : Invariant L h) (early : h.phase = .early)
    (ok : kinit2 L (L.P2V (4 * 1024 * 1024)) (L.P2V L.PHYSTOP) h.kmem = .ok kmem) :
    Invariant L ⟨kmem, .running, h.allocated⟩ := by
  obtain ⟨kmem', ok', inv'⟩ := kinit2_lays inv early
  obtain rfl := Except.ok.inj (ok.symm.trans ok')
  exact inv'

theorem kalloc_preserves (inv : Invariant L h) :
    Invariant L ⟨(kalloc h.kmem).1, h.phase,
      if (kalloc h.kmem).2 = 0 then h.allocated else (kalloc h.kmem).2 :: h.allocated⟩ := by
  obtain ⟨free, chain, perm⟩ := inv.listed
  cases free with
  | nil =>
      rw [kalloc_empty chain]
      exact ⟨⟨[], chain, perm⟩⟩
  | cons r rest =>
      obtain ⟨popped, chain'⟩ := kalloc_pop chain
      rw [popped, if_neg (chain.ne_zero (List.mem_cons_self _ _))]
      exact ⟨⟨rest, chain', List.perm_middle.trans perm⟩⟩

theorem kfree_preserves {v : Nat} {kmem : Kmem} (inv : Invariant L h) (held : v ∈ h.allocated)
    (ok : kfree L v h.kmem = .ok kmem) : Invariant L ⟨kmem, h.phase, h.allocated.erase v⟩ := by
  obtain ⟨kmem', ok', inv'⟩ := kfree_lays inv held
  obtain rfl := Except.ok.inj (ok.symm.trans ok')
  exact inv'

theorem write_preserves {a w : Nat} (inv : Invariant L h) (writable : Writable L h.allocated a) :
    Invariant L ⟨{ h.kmem with mem := Function.update h.kmem.mem a w }, h.phase, h.allocated⟩ := by
  obtain ⟨free, chain, perm⟩ := inv.listed
  exact ⟨⟨free, chain.frame fun q member =>
    Function.update_noteq (writable_apart perm writable member) _ _, perm⟩⟩

theorem Invariant.step {h' : Heap} (inv : Invariant L h) (step : Step L h h') : Invariant L h' := by
  cases step with
  | kinit1 boot ok => exact kinit1_preserves inv boot ok
  | kinit2 early ok => exact kinit2_preserves inv early ok
  | kalloc => exact kalloc_preserves inv
  | kfree held ok => exact kfree_preserves inv held ok
  | write writable => exact write_preserves inv writable

theorem reachable_invariant (reach : Reachable L h) : Invariant L h := by
  induction reach with
  | init mem => exact invariant_init mem
  | step _ step induction => exact induction.step step

end Steps

/-! ## What the allocator promises -/

/-- The allocator's contract in a state: the shape of the free list, and that no call panics or
hands out a page twice. -/
structure AllocSafe (L : Layout) (h : Heap) : Prop where
  /-- The free list is a finite walk of distinct aligned pages in `[PGROUNDUP(end), P2V(PHYSTOP))`,
  apart from the allocated pages, and with them it makes up the pages laid down. -/
  freeList : ∃ free, Chain h.kmem.mem h.kmem.freelist free ∧ free.Nodup ∧
    (∀ v ∈ free, v % PGSIZE = 0 ∧ PGROUNDUP L.kernelEnd ≤ v ∧ v < L.P2V L.PHYSTOP) ∧
    (∀ v ∈ free, v ∉ h.allocated) ∧ (∀ v, v ∈ free ∨ v ∈ h.allocated ↔ v ∈ laidDown L h.phase)
  /-- `kfree` of an allocated page does not panic. -/
  kfreeOk : ∀ v ∈ h.allocated, ∃ kmem, kfree L v h.kmem = .ok kmem
  /-- `kinit1` does not panic when `main` calls it. -/
  kinit1Ok : h.phase = .boot →
    ∃ kmem, kinit1 L L.kernelEnd (L.P2V (4 * 1024 * 1024)) h.kmem = .ok kmem
  /-- `kinit2` does not panic when `main` calls it. -/
  kinit2Ok : h.phase = .early →
    ∃ kmem, kinit2 L (L.P2V (4 * 1024 * 1024)) (L.P2V L.PHYSTOP) h.kmem = .ok kmem
  /-- `kalloc` returns no page that is still allocated. -/
  fresh : (kalloc h.kmem).2 ∉ h.allocated
  /-- `kalloc` returns `0` only when every page laid down is allocated. -/
  exhausted : (kalloc h.kmem).2 = 0 → ∀ v ∈ laidDown L h.phase, v ∈ h.allocated

section Safe

variable {L : Layout} {h : Heap}

/-- `kalloc` pops a page that is not allocated, or finds the free list empty and every page laid
down allocated. -/
theorem Invariant.kalloc_ok (inv : Invariant L h) :
    (kalloc h.kmem).2 ∉ h.allocated ∧
      ((kalloc h.kmem).2 = 0 → ∀ v ∈ laidDown L h.phase, v ∈ h.allocated) := by
  obtain ⟨free, chain, perm⟩ := inv.listed
  cases free with
  | nil =>
      rw [kalloc_empty chain]
      exact ⟨fun held => (listed_passes perm held).1.ne_zero rfl,
        fun _ _ laid => perm.symm.subset laid⟩
  | cons r rest =>
      rw [(kalloc_pop chain).1]
      exact ⟨fun held => listed_apart perm held (List.mem_cons_self _ _),
        fun zero => absurd zero (chain.ne_zero (List.mem_cons_self _ _))⟩

theorem Invariant.safe (inv : Invariant L h) : AllocSafe L h := by
  obtain ⟨free, chain, perm⟩ := inv.listed
  refine ⟨⟨free, chain, (List.nodup_append.mp (listed_nodup perm)).1,
      fun v member => ?_, fun v member held => listed_apart perm held member,
      fun v => List.mem_append.symm.trans perm.mem_iff⟩,
    fun v held => ⟨_, kfree_eq h.kmem (listed_passes perm (List.mem_append_right _ held)).1⟩,
    fun boot => (kinit1_lays inv boot).imp fun _ => And.left,
    fun early => (kinit2_lays inv early).imp fun _ => And.left, inv.kalloc_ok.1, inv.kalloc_ok.2⟩
  have page := listed_passes perm (List.mem_append_left _ member)
  exact ⟨page.1.1, page.2⟩

theorem reachable_allocSafe (reach : Reachable L h) : AllocSafe L h :=
  (reachable_invariant reach).safe

/-- The constants of the xv6 build, with an `end` a little above 1MB into the kernel's space. -/
def sampleLayout : Layout :=
  ⟨0x80000000, 0xE000000, 0x80116000, by decide, by decide, by decide⟩

/-- Two pages above the first 4MB, and a kernel that ends one page below `P2V(4MB)`. -/
private def smallLayout : Layout :=
  ⟨0x80000000, 0x402000, 0x803FF000, by decide, by decide, by decide⟩

private def orBoot : Except String Kmem → Kmem
  | .ok kmem => kmem
  | .error _ => ⟨false, 0, fun _ => 0⟩

private def earlyKmem : Kmem :=
  orBoot ([0x803FF000].foldlM (fun kmem p => kfree smallLayout p kmem) ⟨false, 0, fun _ => 0⟩)

private def runningKmem : Kmem :=
  { orBoot ([0x80400000, 0x80401000].foldlM (fun kmem p => kfree smallLayout p kmem) earlyKmem) with
    useLock := true }

/-- After `kinit1`, `kinit2` and two `kalloc` calls: the two high pages are allocated. -/
private def twoAllocated : Heap :=
  ⟨(kalloc (kalloc runningKmem).1).1, .running, [0x80400000, 0x80401000]⟩

theorem reachable_allocSafe_sample :
    Reachable smallLayout twoAllocated ∧ (kalloc twoAllocated.kmem).2 = 0x803FF000 ∧
      AllocSafe smallLayout twoAllocated := by
  have low : lowPages smallLayout = [0x803FF000] := by
    simp [lowPages, pageAddrs, smallLayout, Layout.P2V, PGROUNDUP, PGSIZE]
  have high : highPages smallLayout = [0x80400000, 0x80401000] := by
    simp [highPages, pageAddrs, smallLayout, Layout.P2V, PGROUNDUP, PGSIZE]
  have first : kinit1 smallLayout smallLayout.kernelEnd (smallLayout.P2V (4 * 1024 * 1024))
      ⟨false, 0, fun _ => 0⟩ = .ok earlyKmem := by
    rw [kinit1, freerange, ← lowPages, low]
    rfl
  have second : kinit2 smallLayout (smallLayout.P2V (4 * 1024 * 1024))
      (smallLayout.P2V smallLayout.PHYSTOP) earlyKmem = .ok runningKmem := by
    rw [kinit2, freerange, ← highPages, high]
    rfl
  have reach : Reachable smallLayout twoAllocated :=
    .step (.step (.step (.step (.init _) (.kinit1 rfl first)) (.kinit2 rfl second)) .kalloc) .kalloc
  exact ⟨reach, rfl, reachable_allocSafe reach⟩

/-! ## A page freed twice -/

/-- `kfree` does not notice a page freed twice: freeing the head of the free list again makes the
page point to itself, and from then on every `kalloc` returns that same page. -/
theorem kfree_twice {L : Layout} {v : Nat} {kmem kmem' : Kmem} (head : kmem.freelist = v)
    (ok : kfree L v kmem = .ok kmem') (n : Nat) :
    (kalloc ((fun k => (kalloc k).1)^[n] kmem')).2 = v := by
  have passes : Passes L v := by
    unfold kfree at ok
    split at ok
    · cases ok
    · exact ⟨by omega, by omega, by omega⟩
  rw [kfree_eq kmem passes, Except.ok.injEq] at ok
  have loop : ∀ n, ((fun k => (kalloc k).1)^[n] kmem').freelist = v ∧
      ((fun k => (kalloc k).1)^[n] kmem').mem v = v := by
    intro n
    induction n with
    | zero => subst ok; simp [head]
    | succ n induction =>
        rw [Function.iterate_succ_apply']
        obtain ⟨top, self⟩ := induction
        generalize (fun k => (kalloc k).1)^[n] kmem' = k at top self
        simp [kalloc, top, self, passes.ne_zero]
  rw [kalloc_snd]
  exact (loop n).1

/-- Freeing the first page of the free list on the xv6 layout a second time. -/
theorem kfree_twice_sample :
    ∃ kmem', (⟨false, 0x80116000, fun _ => 0⟩ : Kmem).freelist = 0x80116000 ∧
      kfree sampleLayout 0x80116000 ⟨false, 0x80116000, fun _ => 0⟩ = .ok kmem' ∧
      ∀ n, (kalloc ((fun k => (kalloc k).1)^[n] kmem')).2 = 0x80116000 := by
  have passes : Passes sampleLayout 0x80116000 := ⟨by decide, by decide, by decide⟩
  exact ⟨_, rfl, kfree_eq _ passes, kfree_twice rfl (kfree_eq _ passes)⟩

end Safe

end Kalloc

end Xv6
