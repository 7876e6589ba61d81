import Xv6.Kalloc.Entrypgdir

/-!
# Stacks for the other CPUs

`startothers`, which `main` calls between `kinit1` and `kinit2`, gives each other CPU a stack
page from `kalloc` that `entrypgdir` maps.  Had `kinit2` come first, the first stack would be the
last page `kinit2` freed, which `entrypgdir` does not map.
-/

namespace Xv6

namespace Kalloc

/-- `KSTACKSIZE` of `param.h`: a kernel stack is one page. -/
def KSTACKSIZE : Nat := 4096

/-- The three words `startothers` leaves below `code` for the CPU it starts:
`*(void**)(code-4) = stack + KSTACKSIZE`, `*(void**)(code-8) = mpenter` and
`*(int**)(code-12) = v2p(entrypgdir)`. -/
def bootWords (code stack mpenter pgdir : Nat) (mem : Nat → Nat) : Nat → Nat :=
  Function.update (Function.update (Function.update mem (code - 4) (stack + KSTACKSIZE))
    (code - 8) mpenter) (code - 12) pgdir

/-- The loop of `startothers` over the CPUs `cs`, skipping the running one `self`: the heap after
it and the stacks it handed out, in order.  `lapicstartap` and the wait for `c->started` are where
the other CPU runs; they leave the allocator alone. -/
def startLoop (code mpenter pgdir self : Nat) : List Nat → Heap → Heap × List Nat
  | [], h => (h, [])
  | c :: cs, h =>
      if c = self then startLoop code mpenter pgdir self cs h
      else
        let stack := (kalloc h.kmem).2
        let rest := startLoop code mpenter pgdir self cs
          ⟨{ (kalloc h.kmem).1 with
              mem := bootWords code stack mpenter pgdir (kalloc h.kmem).1.mem },
            h.phase, if stack = 0 then h.allocated else stack :: h.allocated⟩
        (rest.1, stack :: rest.2)

/-- `memmove(code, _binary_entryother_start, size)` as word reads see it: the words read from
`[code, code + size)` are those of `entryother`. -/
def copyCode (code size : Nat) (entryother : Nat → Nat) (mem : Nat → Nat) : Nat → Nat :=
  fun a => if code ≤ a ∧ a < code + size then entryother (a - code) else mem a

/-- `startothers()` run from CPU `self` of `ncpu`: copy `entryother` to `code = P2V(0x7000)`, then
the loop over `cpus[0..ncpu)`. -/
def startothers (L : Layout) (size : Nat) (entryother : Nat → Nat) (mpenter pgdir self ncpu : Nat)
    (h : Heap) : Heap × List Nat :=
  startLoop (L.P2V 0x7000) mpenter pgdir self (List.range ncpu)
    ⟨{ h.kmem with mem := copyCode (L.P2V 0x7000) size entryother h.kmem.mem }, h.phase,
      h.allocated⟩

section Startothers

variable {L : Layout}

/-- The first CPU the loop starts gets the head of the free list. -/
theorem startLoop_head {code mpenter pgdir self : Nat} :
    ∀ (cs : List Nat) (h : Heap), (∃ c ∈ cs, c ≠ self) →
      (startLoop code mpenter pgdir self cs h).2.head? = some h.kmem.freelist
  | [], _, ⟨_, member, _⟩ => absurd member (List.not_mem_nil _)
  | c :: cs, h, ⟨c', member, other⟩ => by
      simp only [startLoop]
      split
      · rename_i self'
        refine startLoop_head cs h ⟨c', ?_, other⟩
        rcases List.mem_cons.mp member with rfl | later
        · exact absurd self' other
        · exact later
      · rfl

/-- Had `main` called `kinit2` before `startothers`, the first CPU started would get the last page
`kinit2` freed, above 4MB, where `entrypgdir` maps nothing. -/
theorem kinit2_first_stack_unmapped (aligned : L.KERNBASE % 2 ^ 22 = 0) {kmem kmem' : Kmem}
    (ok : kinit2 L (L.P2V (4 * 1024 * 1024)) (L.P2V L.PHYSTOP) kmem = .ok kmem')
    (high : highPages L ≠ []) {self ncpu : Nat} (other : ∃ c < ncpu, c ≠ self)
    (size : Nat) (entryother : Nat → Nat) (mpenter pgdir : Nat) (allocated : List Nat) :
    ∃ stack, (startothers L size entryother mpenter pgdir self ncpu
        ⟨kmem', .running, allocated⟩).2.head? = some stack ∧ stack ∈ highPages L ∧
      ∀ a, stack ≤ a → a < stack + KSTACKSIZE → ∀ write, translate (entrypgdir L) write a = none := by
  have top : kmem'.freelist = (highPages L).getLast high := by
    unfold kinit2 at ok
    cases freed : freerange L (L.P2V (4 * 1024 * 1024)) (L.P2V L.PHYSTOP) kmem with
    | error message => rw [freed] at ok; cases ok
    | ok freedKmem =>
        rw [freed] at ok
        cases ok
        show freedKmem.freelist = _
        rw [foldlM_kfree_freelist freed, ← highPages, List.getLast?_eq_getLast _ high]
        rfl
  obtain ⟨c, short, other⟩ := other
  refine ⟨_, startLoop_head (List.range ncpu) _ ⟨c, List.mem_range.mpr short, other⟩,
    top ▸ List.getLast_mem high, fun a above below write => ?_⟩
  exact highPages_unmapped aligned (top ▸ List.getLast_mem high) ⟨above, below⟩ write

/-- On the xv6 layout, after `kinit1` and then `kinit2`, `startothers` on two CPUs. -/
theorem kinit2_first_stack_unmapped_sample :
    ∃ kmem kmem', kinit2 sampleLayout (sampleLayout.P2V (4 * 1024 * 1024))
        (sampleLayout.P2V sampleLayout.PHYSTOP) kmem = .ok kmem' ∧
      sampleLayout.KERNBASE % 2 ^ 22 = 0 ∧ highPages sampleLayout ≠ [] ∧ (∃ c < 2, c ≠ 0) ∧
      ∃ stack, (startothers sampleLayout 512 (fun _ => 0) 0 0 0 2
          ⟨kmem', .running, []⟩).2.head? = some stack ∧ stack ∈ highPages sampleLayout ∧
        ∀ a, stack ≤ a → a < stack + KSTACKSIZE → ∀ write,
          translate (entrypgdir sampleLayout) write a = none := by
  obtain ⟨kmem, ok, inv⟩ := @kinit1_lays sampleLayout ⟨⟨false, 0, fun _ => 0⟩, .boot, []⟩
    (invariant_init _) rfl
  obtain ⟨kmem', ok', -⟩ := @kinit2_lays sampleLayout ⟨kmem, .early, []⟩ inv rfl
  have aligned : sampleLayout.KERNBASE % 2 ^ 22 = 0 := by decide
  have high : highPages sampleLayout ≠ [] := List.ne_nil_of_mem (mem_pageAddrs.mpr
    ⟨le_rfl, by decide, by simp⟩)
  have other : ∃ c < 2, c ≠ 0 := ⟨1, by decide, by decide⟩
  exact ⟨kmem, kmem', ok', aligned, high, other,
    kinit2_first_stack_unmapped aligned ok' high other 512 (fun _ => 0) 0 0 []⟩

end Startothers

end Kalloc

end Xv6
