import Xv6.Chain
import Mathlib.Data.List.Perm.Basic

/-!
# The page allocator

`kfree` checks a page, fills it with junk and pushes it on `kmem.freelist`; `kalloc` pops the
head; `kinit1` and `kinit2` free the pages below and above 4MB with `freerange`.  Memory is the
word a `struct run *` reads at each address.
-/

namespace Xv6

namespace Kalloc

/-- `PGSIZE` of `mmu.h`: the allocator "Allocates 4096-byte pages". -/
def PGSIZE : Nat := 4096

/-- `PGROUNDUP(a)`, `(a + PGSIZE - 1) & ~(PGSIZE - 1)`: `a` rounded up to a page boundary. -/
def PGROUNDUP (a : Nat) : Nat := (a + PGSIZE - 1) / PGSIZE * PGSIZE

/-- The constants of `memlayout.h` and the linker's `end`, with the facts the xv6 layout gives
them. -/
structure Layout where
  /-- `KERNBASE`: where the kernel's virtual addresses start. -/
  KERNBASE : Nat
  /-- `PHYSTOP`: the top of physical memory. -/
  PHYSTOP : Nat
  /-- `end`: the first address after the kernel. -/
  kernelEnd : Nat
  /-- The kernel is loaded above `KERNBASE`, which is not the null page. -/
  loaded : 0 < KERNBASE ∧ KERNBASE ≤ kernelEnd
  /-- `end <= P2V(4MB)`: the kernel ends within the memory that `entrypgdir` maps. -/
  mapped : kernelEnd ≤ KERNBASE + 4 * 1024 * 1024
  /-- Physical memory reaches past the first 4MB. -/
  physical : 4 * 1024 * 1024 ≤ PHYSTOP

namespace Layout

/-- `P2V(a)`. -/
def P2V (L : Layout) (a : Nat) : Nat := a + L.KERNBASE

/-- `v2p(v)`, the unsigned `v - KERNBASE`, for the addresses at or above `end` that reach it. -/
def v2p (L : Layout) (v : Nat) : Nat := v - L.KERNBASE

end Layout

/-- `kmem` without its spinlock, and the memory the free list is threaded through. -/
structure Kmem where
  /-- `kmem.use_lock`. -/
  useLock : Bool
  /-- `kmem.freelist`: the first free page, `0` for none. -/
  freelist : Nat
  /-- The word at each address: `r->next` for a free page `r`. -/
  mem : Nat → Nat

/-- `memset(dst, c, n)` as word reads see it: every word in `[dst, dst + n)` reads `c` four
times. -/
def memset (dst c n : Nat) (mem : Nat → Nat) : Nat → Nat :=
  fun a => if dst ≤ a ∧ a < dst + n then c * 0x01010101 else mem a

/-- `kfree(v)`: panic unless `v` is an aligned page between `end` and `PHYSTOP`, fill it with junk
and push it on the free list. -/
def kfree (L : Layout) (v : Nat) (kmem : Kmem) : Except String Kmem :=
  if v % PGSIZE ≠ 0 ∨ v < L.kernelEnd ∨ L.v2p v ≥ L.PHYSTOP then .error "kfree"
  else
    let mem := memset v 1 PGSIZE kmem.mem
    .ok { kmem with mem := Function.update mem v kmem.freelist, freelist := v }

/-- `kalloc()`: pop the head of the free list; `0` when it is empty. -/
def kalloc (kmem : Kmem) : Kmem × Nat :=
  let r := kmem.freelist
  (if r ≠ 0 then { kmem with freelist := kmem.mem r } else kmem, r)

/-- The values `p` takes in `for(; p + PGSIZE <= vend; p += PGSIZE)`. -/
def pageAddrs (vend p : Nat) : List Nat :=
  if p + PGSIZE ≤ vend then p :: pageAddrs vend (p + PGSIZE) else []
termination_by vend - p
decreasing_by simp only [PGSIZE] at *; omega

/-- `freerange(vstart, vend)`: `kfree` every whole page from `PGROUNDUP(vstart)` up to `vend`. -/
def freerange (L : Layout) (vstart vend : Nat) (kmem : Kmem) : Except String Kmem :=
  (pageAddrs vend (PGROUNDUP vstart)).foldlM (fun kmem p => kfree L p kmem) kmem

/-- `kinit1(vstart, vend)`: run without the lock, and free the range. -/
def kinit1 (L : Layout) (vstart vend : Nat) (kmem : Kmem) : Except String Kmem :=
  freerange L vstart vend { kmem with useLock := false }

/-- `kinit2(vstart, vend)`: free the range, then take the lock from now on. -/
def kinit2 (L : Layout) (vstart vend : Nat) (kmem : Kmem) : Except String Kmem :=
  (fun kmem => { kmem with useLock := true }) <$> freerange L vstart vend kmem

/-! ## The pages of a range -/

/-- The pages of `freerange`'s loop are the aligned steps from `p` that fit below `vend`. -/
theorem mem_pageAddrs {vend p v : Nat} :
    v ∈ pageAddrs vend p ↔ p ≤ v ∧ v + PGSIZE ≤ vend ∧ (v - p) % PGSIZE = 0 := by
  induction p using pageAddrs.induct vend with
  | case1 p fits induction =>
      rw [pageAddrs, if_pos fits, List.mem_cons, induction]
      simp only [PGSIZE] at *
      omega
  | case2 p short =>
      rw [pageAddrs, if_neg short]
      simp only [PGSIZE] at *
      simp only [List.not_mem_nil, false_iff]
      omega

theorem pageAddrs_nodup (vend p : Nat) : (pageAddrs vend p).Nodup := by
  induction p using pageAddrs.induct vend with
  | case1 p fits induction =>
      rw [pageAddrs, if_pos fits]
      refine List.nodup_cons.mpr ⟨fun member => ?_, induction⟩
      have := (mem_pageAddrs.mp member).1
      simp only [PGSIZE] at this
      omega
  | case2 p short =>
      rw [pageAddrs, if_neg short]
      exact List.nodup_nil

/-! ## `kfree` and `kalloc` -/

/-- The checks of `kfree` pass: `v` is an aligned page at or above `end` and below `PHYSTOP`. -/
def Passes (L : Layout) (v : Nat) : Prop :=
  v % PGSIZE = 0 ∧ L.kernelEnd ≤ v ∧ L.v2p v < L.PHYSTOP

theorem Passes.ne_zero {L : Layout} {v : Nat} (passes : Passes L v) : v ≠ 0 := by
  have := L.loaded
  have := passes.2.1
  omega

theorem kfree_eq {L : Layout} {v : Nat} (kmem : Kmem) (passes : Passes L v) :
    kfree L v kmem = .ok { kmem with
      mem := Function.update (memset v 1 PGSIZE kmem.mem) v kmem.freelist, freelist := v } := by
  obtain ⟨aligned, above, below⟩ := passes
  unfold kfree
  rw [if_neg (by omega)]

/-- Two distinct aligned pages do not overlap. -/
theorem apart_of_aligned {q v : Nat} (alignedQ : q % PGSIZE = 0) (alignedV : v % PGSIZE = 0)
    (other : q ≠ v) : ¬(v ≤ q ∧ q < v + PGSIZE) := by
  simp only [PGSIZE] at *
  omega

/-- `kfree` pushes `v` on a free list of other aligned pages and leaves every word outside the
page `v` alone. -/
theorem kfree_push {L : Layout} {v : Nat} {kmem : Kmem} {free : List Nat}
    (chain : Chain kmem.mem kmem.freelist free) (aligned : ∀ q ∈ free, q % PGSIZE = 0)
    (fresh : v ∉ free) (passes : Passes L v) :
    Chain (Function.update (memset v 1 PGSIZE kmem.mem) v kmem.freelist) v (v :: free) ∧
      ∀ a, ¬(v ≤ a ∧ a < v + PGSIZE) →
        Function.update (memset v 1 PGSIZE kmem.mem) v kmem.freelist a = kmem.mem a := by
  have outside : ∀ a, ¬(v ≤ a ∧ a < v + PGSIZE) →
      Function.update (memset v 1 PGSIZE kmem.mem) v kmem.freelist a = kmem.mem a := by
    intro a away
    have : a ≠ v := fun same => away ⟨same.ge, by simp only [PGSIZE]; omega⟩
    simp [Function.update, this, memset, away]
  refine ⟨.cons passes.ne_zero ?_, outside⟩
  rw [Function.update_same]
  exact chain.frame fun q member =>
    outside q (apart_of_aligned (aligned q member) passes.1 fun same => fresh (same ▸ member))

theorem kalloc_pop {kmem : Kmem} {r : Nat} {free : List Nat}
    (chain : Chain kmem.mem kmem.freelist (r :: free)) :
    (kalloc kmem).2 = r ∧ Chain (kalloc kmem).1.mem (kalloc kmem).1.freelist free := by
  obtain ⟨head, nonzero, rest⟩ := Chain.cons_cons_iff.mp chain
  have popped : kalloc kmem = ({ kmem with freelist := kmem.mem r }, r) := by
    simp [kalloc, head, nonzero]
  rw [popped]
  exact ⟨rfl, rest⟩

theorem kalloc_empty {kmem : Kmem} (chain : Chain kmem.mem kmem.freelist []) :
    kalloc kmem = (kmem, 0) := by
  simp [kalloc, Chain.nil_iff.mp chain]

/-- Freeing pages one after another pushes each on the free list, the last one first. -/
theorem foldlM_kfree {L : Layout} {ps free : List Nat} {kmem : Kmem}
    (chain : Chain kmem.mem kmem.freelist free) (aligned : ∀ q ∈ free, q % PGSIZE = 0)
    (passes : ∀ v ∈ ps, Passes L v) (distinct : (ps ++ free).Nodup) :
    ∃ kmem', ps.foldlM (fun kmem p => kfree L p kmem) kmem = .ok kmem' ∧
      Chain kmem'.mem kmem'.freelist (ps.reverse ++ free) ∧ kmem'.useLock = kmem.useLock := by
  induction ps generalizing kmem free with
  | nil => exact ⟨kmem, rfl, chain, rfl⟩
  | cons v ps induction =>
      have good := passes v (List.mem_cons_self _ _)
      have fresh : v ∉ free := fun member =>
        (List.nodup_cons.mp (List.cons_append v ps free ▸ distinct)).1
          (List.mem_append_right _ member)
      let freed : Kmem := { kmem with
        mem := Function.update (memset v 1 PGSIZE kmem.mem) v kmem.freelist, freelist := v }
      have pushed : Chain freed.mem freed.freelist (v :: free) :=
        (kfree_push chain aligned fresh good).1
      obtain ⟨kmem', folded, chain', lock⟩ := induction pushed (by simpa [good.1] using aligned)
        (fun q member => passes q (List.mem_cons_of_mem _ member))
        (List.perm_middle.nodup_iff.mpr distinct)
      refine ⟨kmem', ?_, by simpa using chain', lock⟩
      rw [List.foldlM_cons, kfree_eq kmem good]
      exact folded

/-- `kfree(v)` writes only the words of the page `v`. -/
theorem kfree_frame {L : Layout} {v : Nat} {kmem kmem' : Kmem} (ok : kfree L v kmem = .ok kmem')
    {a : Nat} (away : ¬(v ≤ a ∧ a < v + PGSIZE)) : kmem'.mem a = kmem.mem a := by
  unfold kfree at ok
  split at ok
  · cases ok
  · cases ok
    have : a ≠ v := fun same => away ⟨same.ge, by simp only [PGSIZE]; omega⟩
    simp [Function.update, this, memset, away]

/-- Freeing pages one after another writes only the words of those pages. -/
theorem foldlM_kfree_frame {L : Layout} {ps : List Nat} {kmem kmem' : Kmem}
    (ok : ps.foldlM (fun kmem p => kfree L p kmem) kmem = .ok kmem') {a : Nat}
    (away : ∀ v ∈ ps, ¬(v ≤ a ∧ a < v + PGSIZE)) : kmem'.mem a = kmem.mem a := by
  induction ps generalizing kmem with
  | nil => cases ok; rfl
  | cons v ps induction =>
      rw [List.foldlM_cons] at ok
      cases freed : kfree L v kmem with
      | error message => rw [freed] at ok; cases ok
      | ok freedKmem =>
          rw [freed] at ok
          rw [induction ok fun q member => away q (List.mem_cons_of_mem _ member),
            kfree_frame freed (away v (List.mem_cons_self _ _))]

/-- `kalloc` returns the head of the free list. -/
@[simp] theorem kalloc_snd (kmem : Kmem) : (kalloc kmem).2 = kmem.freelist := rfl

/-- After freeing pages one after another, the last one heads the free list. -/
theorem foldlM_kfree_freelist {L : Layout} {ps : List Nat} {kmem kmem' : Kmem}
    (ok : ps.foldlM (fun kmem p => kfree L p kmem) kmem = .ok kmem') :
    kmem'.freelist = ps.getLast?.getD kmem.freelist := by
  induction ps generalizing kmem with
  | nil => cases ok; rfl
  | cons v ps induction =>
      rw [List.foldlM_cons] at ok
      cases freed : kfree L v kmem with
      | error message => rw [freed] at ok; cases ok
      | ok freedKmem =>
          rw [freed] at ok
          have pushed : freedKmem.freelist = v := by
            unfold kfree at freed
            split at freed
            · cases freed
            · cases freed; rfl
          rw [induction ok, pushed]
          cases ps with
          | nil => rfl
          | cons w ws =>
              simp only [List.getLast?_cons_cons,
                List.getLast?_eq_getLast (w :: ws) (List.cons_ne_nil w ws), Option.getD_some]

end Kalloc

end Xv6
