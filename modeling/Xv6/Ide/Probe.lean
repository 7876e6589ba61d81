import Xv6.Ide.Service
import Xv6.Ide.Progress

/-!
# Without drive 1

When `ideinit` finds no drive 1, `iderw` panics on any device but 0 and no routine changes a
buffer's device, so no run of the driver reads or writes a sector of drive 1.
-/

namespace Xv6

namespace Ide

/-- `ideinit()`'s probe for drive 1, `polls i` being what its `i`-th read of the status port
`0x1f7` returns: `havedisk1` is set by the first nonzero one of the 1000 reads. -/
def ideinit (polls : Nat → Nat) : Bool :=
  (List.range 1000).any fun i => polls i != 0

theorem ideinit_eq_false {polls : Nat → Nat} : ideinit polls = false ↔ ∀ i < 1000, polls i = 0 := by
  simp [ideinit]

/-- Every request appended so far is for device 0. -/
def Drive0 (s : System) : Prop := ∀ b ∈ s.enqueued, (s.ide.bufs b).dev = 0

/-! ## No routine changes a buffer's device -/

theorem store_dev (st : Ide) (pp : Slot) (v p : Nat) :
    ((st.store pp v).bufs p).dev = (st.bufs p).dev := by
  cases pp with
  | head => rfl
  | qnext b => by_cases same : p = b <;> simp [store, Function.update, same]

theorem iderw_dev {havedisk1 : Bool} {fuel b : Nat} {st st' : Ide}
    (ok : iderw havedisk1 fuel b st = some (.ok st')) (p : Nat) :
    (st'.bufs p).dev = (st.bufs p).dev := by
  obtain ⟨-, pp, -, result⟩ := iderw_ok ok
  have kept := (store_dev _ pp b p).trans (store_dev st (.qnext b) 0 p)
  split at result
  · obtain ⟨-, rfl⟩ := idestart_ok result
    exact kept
  · cases result
    exact kept

theorem ideintr_dev {r : Nat} {st st' : Ide} (ok : ideintr r st = .ok st') (p : Nat) :
    (st'.bufs p).dev = (st.bufs p).dev := by
  by_cases idle : st.idequeue = 0
  · simp only [ideintr, idle, if_true, Except.ok.injEq] at ok
    rw [ok]
  · obtain ⟨-, -, bufs⟩ := ideintr_pop rfl idle ok
    by_cases same : p = st.idequeue
    · subst same
      simp only [bufs, Function.update_same]
      split <;> rfl
    · simp [bufs, same]

/-- `iderw` queues a buffer of a device other than 0 only when drive 1 was found. -/
theorem iderw_present {havedisk1 : Bool} {fuel b : Nat} {st st' : Ide}
    (ok : iderw havedisk1 fuel b st = some (.ok st')) (other : (st.bufs b).dev ≠ 0) :
    havedisk1 = true := by
  unfold iderw at ok
  simp only at ok
  split at ok
  · cases ok
  split at ok
  · cases ok
  split at ok
  · cases ok
  · rename_i present
    simpa [other] using present

/-- A request for device 0 is not for drive 1. -/
theorem target_ne_drive1 {b : Buf} (zero : b.dev = 0) (n : Nat) : (1, n) ≠ target b := by
  simp [target, zero]

/-! ## Runs without drive 1 -/

variable {s s' : System}

/-- One step without drive 1 queues only requests for device 0 and leaves drive 1 alone. -/
theorem Drive0.step {a : Action} (inv : Invariant s) (only : Drive0 s) (step : Step false s a s') :
    Drive0 s' ∧ ∀ n, s'.ide.disk (1, n) = s.ide.disk (1, n) := by
  cases step with
  | @iderw rest b _ ide shape ok =>
      have calling : Pc.calling b ∈ s.threads := shape ▸ Multiset.mem_cons_self _ _
      have fresh : b ∉ s.pending := fun member =>
        inv.not_enqueued calling (List.mem_of_mem_drop member)
      have zero : (s.ide.bufs b).dev = 0 := by
        by_contra other
        cases iderw_present ok other
      refine ⟨fun p member => ?_, fun n => ?_⟩
      · rw [iderw_dev ok]
        rcases List.mem_append.mp member with old | new
        · exact only p old
        · exact List.mem_singleton.mp new ▸ zero
      · rw [(iderw_disk inv.chain fresh ok).2]
        split
        · exact programmed_ne (target_ne_drive1 zero n)
        · rfl
  | @intr b _ ide issued _ ok =>
      obtain ⟨q, shape⟩ := inv.issued_head issued
      refine ⟨fun p member => (ideintr_dev ok p).trans (only p member), fun n => ?_⟩
      rw [@ideintr_programs _ b { s.ide with issued := none } ide q (shape ▸ inv.chain) ok]
      cases q with
      | nil => rfl
      | cons c q =>
          have queued : c ∈ s.enqueued := by
            rw [inv.fifo, shape]
            simp
          exact programmed_ne (target_ne_drive1 (only c queued) n)
  | wake => exact ⟨only, fun _ => rfl⟩

theorem reachable_drive0 (reach : Reachable false s) : Drive0 s := by
  induction reach with
  | init => exact fun _ member => absurd member (List.not_mem_nil _)
  | step before step induction => exact (Drive0.step (reachable_invariant before) induction step).1

/-- When `ideinit` finds no drive 1, no run of the driver, from any reachable state, queues a
request for a device other than 0 or changes a sector of drive 1. -/
theorem disk1_untouched {polls : Nat → Nat} (absent : ∀ i < 1000, polls i = 0)
    (reach : Reachable (ideinit polls) s) (run : Runs (ideinit polls) s s') :
    (∀ b ∈ s'.enqueued, (s'.ide.bufs b).dev = 0) ∧ ∀ n, s'.ide.disk (1, n) = s.ide.disk (1, n) := by
  rw [ideinit_eq_false.mpr absent] at reach run
  refine ⟨reachable_drive0 (reach.runs run), ?_⟩
  induction run with
  | refl => exact fun _ => rfl
  | tail before step induction =>
      have reach₁ := reach.runs before
      intro n
      rw [(Drive0.step (reachable_invariant reach₁) (reachable_drive0 reach₁)
        step.choose_spec).2 n, induction n]

/-- A buffer of device 0 to be written to sector 5. -/
private def dirtyBuf : Buf := ⟨⟨true, true, true⟩, 0, 5, 0, fun _ => 9⟩

private def writeCall : System := System.init (fun _ => dirtyBuf) (fun _ _ => 0) [1]

private def writeQueued : Ide :=
  match iderw false 1 1 writeCall.ide with
  | some (.ok ide) => ide
  | _ => writeCall.ide

/-- A write to sector 5 of drive 0, on a machine whose every probe read returns 0. -/
theorem disk1_untouched_write :
    (∀ i < 1000, (fun _ => 0 : Nat → Nat) i = 0) ∧ Reachable (ideinit fun _ => 0) writeCall ∧
      Runs (ideinit fun _ => 0) writeCall ⟨writeQueued, .sleeping 1 ::ₘ 0, [1], []⟩ ∧
      (∀ b ∈ [1], (writeQueued.bufs b).dev = 0) ∧
      ∀ n, writeQueued.disk (1, n) = writeCall.ide.disk (1, n) := by
  have absent : ∀ i < 1000, (fun _ => 0 : Nat → Nat) i = 0 := fun _ _ => rfl
  have reach : Reachable (ideinit fun _ => 0) writeCall := .init _ _ [1] (by decide) (by decide)
  have run : Runs (ideinit fun _ => 0) writeCall ⟨writeQueued, .sleeping 1 ::ₘ 0, [1], []⟩ := by
    rw [ideinit_eq_false.mpr absent]
    exact .single ⟨_, @Step.iderw false writeCall 0 1 1 writeQueued rfl rfl⟩
  exact ⟨absent, reach, run, disk1_untouched absent reach run⟩

end Ide

end Xv6
