import Xv6.Kalloc.Pages
import Mathlib.Algebra.Group.Nat.Basic

/-!
# The boot page directory

`entrypgdir` maps virtual `[0, 4MB)` and `[KERNBASE, KERNBASE + 4MB)` to physical `[0, 4MB)`.
Every word `kinit1(end, P2V(4MB))` writes is mapped by it, writable, at its `V2P` address, as the
comment of `kinit1` says; every page `kinit2` frees lies outside it.
-/

namespace Xv6

namespace Kalloc

/-- `PDXSHIFT` of `mmu.h`: bits 22 to 31 of a virtual address index the page directory. -/
def PDXSHIFT : Nat := 22

/-- `PTE_P`: the entry is present. -/
def PTE_P : Nat := 0x001

/-- `PTE_W`: the page is writable. -/
def PTE_W : Nat := 0x002

/-- `PTE_PS`: the directory entry maps a 4MB page. -/
def PTE_PS : Nat := 0x080

/-- `entrypgdir`: entries `0` and `KERNBASE >> PDXSHIFT` are `(0) | PTE_P | PTE_W | PTE_PS`, the
others zero. -/
def entrypgdir (L : Layout) (pdx : Nat) : Nat :=
  if pdx = 0 ∨ pdx = L.KERNBASE >>> PDXSHIFT then 0 ||| PTE_P ||| PTE_W ||| PTE_PS else 0

/-- The x86 MMU with 4MB pages on, for a directory whose present entries map 4MB pages: the entry
that bits 22 to 31 of `va` select must be present, and writable for a write; its bits 22 to 31
give the frame and bits 0 to 21 of `va` the offset.  `none` is a page fault.  A present entry
without `PTE_PS` would point to a page table; `entrypgdir` has none, and the model faults there. -/
def translate (pgdir : Nat → Nat) (write : Bool) (va : Nat) : Option Nat :=
  let pde := pgdir (va >>> PDXSHIFT)
  if pde &&& PTE_P ≠ 0 ∧ pde &&& PTE_PS ≠ 0 ∧ (write = false ∨ pde &&& PTE_W ≠ 0) then
    some (pde >>> PDXSHIFT <<< PDXSHIFT ||| va % 2 ^ PDXSHIFT)
  else none

/-- An entry `(0) | PTE_P | PTE_W | PTE_PS` maps `va` to its offset in the 4MB page. -/
theorem translate_large {pgdir : Nat → Nat} {va : Nat}
    (large : pgdir (va >>> PDXSHIFT) = 0 ||| PTE_P ||| PTE_W ||| PTE_PS) (write : Bool) :
    translate pgdir write va = some (va % 2 ^ 22) := by
  have frame : (0 ||| PTE_P ||| PTE_W ||| PTE_PS) >>> PDXSHIFT <<< PDXSHIFT = 0 := by decide
  simp only [translate, large]
  rw [if_pos ⟨by decide, by decide, .inr (by decide)⟩, frame, Nat.zero_or, PDXSHIFT]

/-- A zero entry faults. -/
theorem translate_absent {pgdir : Nat → Nat} {va : Nat} (absent : pgdir (va >>> PDXSHIFT) = 0)
    (write : Bool) : translate pgdir write va = none := by
  simp only [translate, absent]
  rw [if_neg fun present => present.1 (by decide)]

section Aligned

variable {L : Layout}

/-- With `KERNBASE` on a 4MB boundary, `entrypgdir` maps `[0, 4MB)` to itself and
`[KERNBASE, KERNBASE + 4MB)` down by `KERNBASE`, for reads and writes, and nothing else. -/
theorem translate_entrypgdir (aligned : L.KERNBASE % 2 ^ 22 = 0) (write : Bool) (va : Nat) :
    translate (entrypgdir L) write va =
      if va < 4 * 1024 * 1024 then some va
      else if L.KERNBASE ≤ va ∧ va < L.KERNBASE + 4 * 1024 * 1024 then some (va - L.KERNBASE)
      else none := by
  have := L.loaded.1
  have index : va >>> PDXSHIFT = va / 2 ^ 22 := Nat.shiftRight_eq_div_pow _ _
  have base : L.KERNBASE >>> PDXSHIFT = L.KERNBASE / 2 ^ 22 := Nat.shiftRight_eq_div_pow _ _
  by_cases low : va < 4 * 1024 * 1024
  · rw [translate_large (by rw [entrypgdir, if_pos (.inl (by omega))]), if_pos low]
    congr 1
    omega
  · by_cases high : L.KERNBASE ≤ va ∧ va < L.KERNBASE + 4 * 1024 * 1024
    · rw [translate_large (by rw [entrypgdir, if_pos (.inr (by omega))]), if_neg low, if_pos high]
      congr 1
      omega
    · rw [translate_absent (by rw [entrypgdir, if_neg (by omega)]), if_neg low, if_neg high]

/-- The kernel's first address above `KERNBASE` reaches physical `0x100000`, where `bootmain`
loaded it. -/
example : translate (entrypgdir sampleLayout) false 0x80100000 = some 0x100000 := by decide

/-- Every byte of the pages `kinit1` frees is mapped by `entrypgdir`, writable, at its `V2P`
address. -/
theorem lowPages_mapped (aligned : L.KERNBASE % 2 ^ 22 = 0) {v a : Nat} (member : v ∈ lowPages L)
    (inside : v ≤ a ∧ a < v + PGSIZE) : translate (entrypgdir L) true a = some (L.v2p a) := by
  have page := mem_pageAddrs.mp member
  have := L.loaded
  have := le_PGROUNDUP L.kernelEnd
  simp only [Layout.P2V, Layout.v2p, PGSIZE] at *
  rw [translate_entrypgdir aligned, if_neg (by omega), if_pos (by omega)]

/-- No byte of the pages `kinit2` frees is mapped by `entrypgdir`. -/
theorem highPages_unmapped (aligned : L.KERNBASE % 2 ^ 22 = 0) {v a : Nat}
    (member : v ∈ highPages L) (inside : v ≤ a ∧ a < v + PGSIZE) (write : Bool) :
    translate (entrypgdir L) write a = none := by
  have page := mem_pageAddrs.mp member
  have := L.loaded
  have := le_PGROUNDUP (L.P2V (4 * 1024 * 1024))
  simp only [Layout.P2V, PGSIZE] at *
  rw [translate_entrypgdir aligned, if_neg (by omega), if_neg (by omega)]

/-- The words `kinit1(end, P2V(4MB))` writes are words of the pages it frees. -/
theorem kinit1_writes {kmem kmem' : Kmem}
    (ran : kinit1 L L.kernelEnd (L.P2V (4 * 1024 * 1024)) kmem = .ok kmem') {a : Nat}
    (written : kmem'.mem a ≠ kmem.mem a) : ∃ v ∈ lowPages L, v ≤ a ∧ a < v + PGSIZE :=
  Classical.byContradiction fun away =>
    written (foldlM_kfree_frame ran fun v member inside => away ⟨v, member, inside⟩)

/-- `kinit1(end, P2V(4MB))` runs under `entrypgdir`: every word it writes is mapped, writable, at
its `V2P` address. -/
theorem kinit1_mapped (aligned : L.KERNBASE % 2 ^ 22 = 0) {kmem kmem' : Kmem}
    (ran : kinit1 L L.kernelEnd (L.P2V (4 * 1024 * 1024)) kmem = .ok kmem') {a : Nat}
    (written : kmem'.mem a ≠ kmem.mem a) : translate (entrypgdir L) true a = some (L.v2p a) :=
  let ⟨_, member, inside⟩ := kinit1_writes ran written
  lowPages_mapped aligned member inside

/-- A layout with `KERNBASE` at 4MB and one page between `end` and `P2V(4MB)`. -/
def onePageLayout : Layout := ⟨0x400000, 0x400000, 0x7FF000, by decide, by decide, by decide⟩

/-- `kinit1` on it frees the page `0x7FF000` and fills its second word with junk. -/
theorem kinit1_mapped_onePage :
    ∃ kmem', kinit1 onePageLayout onePageLayout.kernelEnd (onePageLayout.P2V (4 * 1024 * 1024))
        ⟨false, 0, fun _ => 0⟩ = .ok kmem' ∧ onePageLayout.KERNBASE % 2 ^ 22 = 0 ∧
      kmem'.mem 0x7FF004 ≠ (⟨false, 0, fun _ => 0⟩ : Kmem).mem 0x7FF004 ∧
      translate (entrypgdir onePageLayout) true 0x7FF004 = some (onePageLayout.v2p 0x7FF004) := by
  have pages : lowPages onePageLayout = [0x7FF000] := by
    rw [lowPages, pageAddrs, if_pos (by decide), pageAddrs, if_neg (by decide)]
    rfl
  have passes : Passes onePageLayout 0x7FF000 := ⟨by decide, by decide, by decide⟩
  have ran : kinit1 onePageLayout onePageLayout.kernelEnd (onePageLayout.P2V (4 * 1024 * 1024))
      ⟨false, 0, fun _ => 0⟩ = .ok ⟨false, 0x7FF000,
        Function.update (memset 0x7FF000 1 PGSIZE fun _ => 0) 0x7FF000 0⟩ := by
    rw [kinit1, freerange, ← lowPages, pages, List.foldlM_cons, kfree_eq _ passes]
    rfl
  have aligned : onePageLayout.KERNBASE % 2 ^ 22 = 0 := by decide
  have written : Function.update (memset 0x7FF000 1 PGSIZE fun _ => 0) 0x7FF000 0 0x7FF004 ≠
      (⟨false, 0, fun _ => 0⟩ : Kmem).mem 0x7FF004 := by decide
  exact ⟨_, ran, aligned, written, kinit1_mapped aligned ran written⟩

/-- Between `kinit1` and `kinit2`, the free list and the pages handed out are "just the pages
mapped by entrypgdir". -/
theorem reachable_early_mapped (aligned : L.KERNBASE % 2 ^ 22 = 0) {h : Heap}
    (reach : Reachable L h) (early : h.phase = .early) :
    ∃ free, Chain h.kmem.mem h.kmem.freelist free ∧ ∀ v ∈ free ++ h.allocated, ∀ a,
      v ≤ a → a < v + PGSIZE → translate (entrypgdir L) true a = some (L.v2p a) := by
  obtain ⟨free, chain, perm⟩ := (reachable_invariant reach).listed
  rw [early] at perm
  exact ⟨free, chain, fun v member a above below =>
    lowPages_mapped aligned (perm.subset member) ⟨above, below⟩⟩

/-- The state `kinit1` leaves on the xv6 layout. -/
theorem reachable_early_mapped_sample :
    ∃ h, sampleLayout.KERNBASE % 2 ^ 22 = 0 ∧ Reachable sampleLayout h ∧ h.phase = .early ∧
      ∃ free, Chain h.kmem.mem h.kmem.freelist free ∧ ∀ v ∈ free ++ h.allocated, ∀ a,
        v ≤ a → a < v + PGSIZE → translate (entrypgdir sampleLayout) true a =
          some (sampleLayout.v2p a) := by
  obtain ⟨kmem, ok, -⟩ := @kinit1_lays sampleLayout ⟨⟨false, 0, fun _ => 0⟩, .boot, []⟩
    (invariant_init _) rfl
  have reach : Reachable sampleLayout ⟨kmem, .early, []⟩ := .step (.init _) (.kinit1 rfl ok)
  have aligned : sampleLayout.KERNBASE % 2 ^ 22 = 0 := by decide
  exact ⟨_, aligned, reach, rfl, reachable_early_mapped aligned reach rfl⟩

end Aligned

end Kalloc

end Xv6
