import Mathlib.Data.List.Basic
import Mathlib.Logic.Function.Basic

/-!
# Null-terminated lists

The IDE request queue and the allocator's free list are lists threaded through memory, ending at
`0`.  `Chain link p ps` says that the walk from `p` visits exactly `ps`; it is unique and never
repeats an address.
-/

namespace Xv6

/-- The walk from `p` through `link` visits the nonzero addresses `ps` and then reads `0`. -/
inductive Chain (link : Nat → Nat) : Nat → List Nat → Prop
  | nil : Chain link 0 []
  | cons {p : Nat} {ps : List Nat} : p ≠ 0 → Chain link (link p) ps → Chain link p (p :: ps)

namespace Chain

variable {link link' : Nat → Nat} {p : Nat} {ps : List Nat}

theorem eq_nil (chain : Chain link 0 ps) : ps = [] := by
  cases chain with
  | nil => rfl
  | cons nonzero => exact absurd rfl nonzero

theorem cons_iff (nonzero : p ≠ 0) :
    Chain link p ps ↔ ∃ qs, ps = p :: qs ∧ Chain link (link p) qs := by
  constructor
  · rintro (_ | ⟨_, rest⟩)
    · exact absurd rfl nonzero
    · exact ⟨_, rfl, rest⟩
  · rintro ⟨qs, rfl, rest⟩
    exact .cons nonzero rest

@[simp] theorem nil_iff : Chain link p [] ↔ p = 0 := by
  constructor
  · rintro ⟨⟩
    rfl
  · rintro rfl
    exact .nil

theorem cons_cons_iff {q : Nat} :
    Chain link p (q :: ps) ↔ p = q ∧ q ≠ 0 ∧ Chain link (link q) ps := by
  constructor
  · rintro (_ | ⟨nonzero, rest⟩)
    exact ⟨rfl, nonzero, rest⟩
  · rintro ⟨rfl, nonzero, rest⟩
    exact .cons nonzero rest

/-- The walk from an address is determined by memory. -/
theorem unique {qs : List Nat} (chain : Chain link p ps) (other : Chain link p qs) : ps = qs := by
  induction chain generalizing qs with
  | nil => exact other.eq_nil.symm
  | cons nonzero _ induction =>
      obtain ⟨qs, rfl, rest⟩ := (cons_iff nonzero).mp other
      rw [induction rest]

theorem head? (chain : Chain link p ps) : ps.head? = if p = 0 then none else some p := by
  cases chain with
  | nil => rfl
  | cons nonzero => simp [nonzero]

theorem ne_zero (chain : Chain link p ps) {q : Nat} (member : q ∈ ps) : q ≠ 0 := by
  induction chain with
  | nil => cases member
  | cons nonzero _ induction =>
      rcases List.mem_cons.mp member with rfl | later
      · exact nonzero
      · exact induction later

/-- Every address on the walk heads the rest of it. -/
theorem suffix (chain : Chain link p ps) {q : Nat} (member : q ∈ ps) :
    ∃ qs, Chain link q qs ∧ qs.length ≤ ps.length := by
  induction chain with
  | nil => cases member
  | cons nonzero rest induction =>
      rcases List.mem_cons.mp member with rfl | later
      · exact ⟨_, .cons nonzero rest, le_refl _⟩
      · obtain ⟨qs, chain, shorter⟩ := induction later
        exact ⟨qs, chain, by simp; omega⟩

/-- A finite walk never comes back to an address it visited. -/
theorem nodup (chain : Chain link p ps) : ps.Nodup := by
  induction chain with
  | nil => exact List.nodup_nil
  | cons nonzero rest induction =>
      refine List.nodup_cons.mpr ⟨fun again => ?_, induction⟩
      obtain ⟨qs, loop, shorter⟩ := rest.suffix again
      have := (Chain.cons nonzero rest).unique loop
      subst this
      simp only [List.length_cons] at shorter
      omega

/-- A walk reads only the links of the addresses it visits. -/
theorem frame (chain : Chain link p ps) (same : ∀ q ∈ ps, link' q = link q) : Chain link' p ps := by
  induction chain with
  | nil => exact .nil
  | cons nonzero _ induction =>
      refine .cons nonzero ?_
      rw [same _ (List.mem_cons_self _ _)]
      exact induction fun q member => same q (List.mem_cons_of_mem _ member)

/-- Redirecting the last link of a walk to a fresh address `b` whose link reads `0` appends `b`. -/
theorem snoc (chain : Chain link p ps) {last b : Nat} (ends : ps.getLast? = some last)
    (fresh : b ∉ ps) (nonzero : b ≠ 0) (stop : link' b = 0) (redirect : link' last = b)
    (same : ∀ q ∈ ps, q ≠ last → link' q = link q) : Chain link' p (ps ++ [b]) := by
  induction chain with
  | nil => cases ends
  | @cons p ps head rest induction =>
      cases ps with
      | nil =>
          obtain rfl : p = last := by simpa using ends
          refine .cons head ?_
          rw [redirect]
          exact .cons nonzero (by rw [stop]; exact .nil)
      | cons q qs =>
          have before : p ≠ last := by
            intro same
            subst same
            have := (Chain.cons head rest).nodup
            simp only [List.getLast?_cons_cons] at ends
            exact (List.nodup_cons.mp this).1 (List.mem_of_getLast?_eq_some ends)
          refine .cons head ?_
          rw [same p (List.mem_cons_self _ _) before]
          exact induction (by simpa using ends)
            (fun member => fresh (List.mem_cons_of_mem _ member))
            fun q member => same q (List.mem_cons_of_mem _ member)

end Chain

end Xv6
