import Xv6.Log.Safety
import Xv6.Log.Recovery

/-!
# Crash atomicity of the concurrent log

Group commit gives every header `commit()` writes the shape recovery needs: distinct sectors,
within `LOGSIZE` and `log.size - 1`.  So when the file system logs only sectors outside the log
region, recovery leaves exactly the committed transactions on disk after any crashes, and a
second `initlog` finds nothing to redo.
-/

namespace Xv6

namespace Log

variable {LOGSIZE MAXOPBLOCKS : Nat} {s : System}

theorem mem_of_mem_newSectors {seen writes : List Nat} {sector : Nat}
    (member : sector ∈ newSectors seen writes) : sector ∈ writes := by
  induction writes generalizing seen with
  | nil => cases member
  | cons write writes induction =>
      simp only [newSectors] at member
      split at member
      · exact List.mem_cons_of_mem _ (induction member)
      · rcases List.mem_cons.mp member with rfl | later
        · exact List.mem_cons_self _ _
        · exact List.mem_cons_of_mem _ (induction later)

/-- What one step can do to the log: the region stays, and the header stays, empties in the
commit, or absorbs one sector while it is below `log.size - 1`. -/
theorem Step.log_cases {a : Action} {s' : System} (step : Step LOGSIZE MAXOPBLOCKS s a s') :
    s'.log.start = s.log.start ∧ s'.log.size = s.log.size ∧
      (s'.log.lh = s.log.lh ∨ s'.log.lh = [] ∨
        ∃ sector, s'.log.lh = absorb s.log.lh sector ∧
          (s.log.lh.length : Int) < s.log.size - 1) := by
  cases step with
  | start _ admitted =>
      obtain ⟨-, -, rfl⟩ := beginOp_some admitted
      exact ⟨rfl, rfl, .inl rfl⟩
  | sleep => exact ⟨rfl, rfl, .inl rfl⟩
  | logWrite _ _ written =>
      obtain ⟨rfl, -, region, -⟩ := logWrite_ok written
      exact ⟨rfl, rfl, .inr (.inr ⟨_, rfl, region⟩)⟩
  | endOp _ ended =>
      obtain ⟨-, rfl, -⟩ := endOp_ok ended
      exact ⟨rfl, rfl, .inl rfl⟩
  | startCommit _ ended =>
      obtain ⟨-, rfl, -⟩ := endOp_ok ended
      exact ⟨rfl, rfl, .inl rfl⟩
  | commit => simp
  | endCommit => exact ⟨rfl, rfl, .inl rfl⟩

/-- The header never outgrows the data blocks of the log region. -/
theorem reachable_within_region (reach : Reachable LOGSIZE MAXOPBLOCKS s) :
    s.log.lh.length ≤ s.log.size - 1 := by
  induction reach with
  | init => exact Nat.zero_le _
  | step _ step induction =>
      obtain ⟨-, size, shape⟩ := step.log_cases
      rw [size]
      rcases shape with same | empty | ⟨sector, appended, region⟩
      · rwa [same]
      · rw [empty]
        exact Nat.zero_le _
      · rw [appended]
        exact (absorb_length_le _ sector).trans (by omega)

/-- In a reachable state the header fits the log region, provided the file system logged only
home sectors. -/
theorem reachable_header_fits (reach : Reachable LOGSIZE MAXOPBLOCKS s)
    (homes : ∀ sector ∈ s.logged, Home s.log.start s.log.size sector) :
    Fits LOGSIZE s.log.start s.log.size s.log.lh := by
  have inv := reachable_invariant reach
  have fits := inv.fits
  exact ⟨inv.absorbed ▸ newSectors_nil_nodup _,
    fun sector member => homes sector (mem_of_mem_newSectors (inv.absorbed ▸ member)),
    by omega, reachable_within_region reach⟩

/-- Boots of the concurrent log on the region `[start, start + size)`.  Each boot commits, in
order, transactions whose headers reachable group-commit states hand to `commit()`, and crashes
after any prefix of its disk writes.  Once a recovery completes, the on-disk header is empty and
every home sector holds the committed transactions applied in order. -/
theorem concurrent_recovery {start size : Nat} (header : (LOGSIZE + 1) * 4 < BSIZE)
    (epochs : List Epoch) (d : Disk) (empty : word (d start) 0 = 0)
    (committed : ∀ epoch ∈ epochs, ∀ txn ∈ epoch.txns, ∃ s s',
      Reachable LOGSIZE MAXOPBLOCKS s ∧ Step LOGSIZE MAXOPBLOCKS s .commit s' ∧
        s.log.start = start ∧ s.log.size = size ∧ (∀ sector ∈ s.logged, Home start size sector) ∧
        s.log.lh = txn.sectors) :
    word (recovered start (crashRun start epochs d).1 start) 0 = 0 ∧
      ∀ s, Home start size s →
        recovered start (crashRun start epochs d).1 s =
          applyAll (crashRun start epochs d).2 d s := by
  have valid : ∀ epoch ∈ epochs, ∀ txn ∈ epoch.txns, Fits LOGSIZE start size txn.sectors := by
    intro epoch member txn listed
    obtain ⟨s, -, reach, -, rfl, rfl, homes, same⟩ := committed epoch member txn listed
    exact same ▸ reachable_header_fits reach homes
  have final := recover_done
    (crashRun_recoverable (recoverable_of_empty empty fun _ _ => rfl) header epochs valid)
  exact ⟨final.empty, final.home⟩

/-- One thread logs sector 40 and commits. -/
private def loggedBuf : Buf := ⟨⟨true, true, false⟩, 1, 40, 0, fun _ => 0⟩

private theorem committing_reachable :
    Reachable 30 10 ⟨⟨2, 31, 0, true, [40]⟩, .committing ::ₘ 0, [40]⟩ := by
  have admitted : Reachable 30 10 ⟨⟨2, 31, 1, false, []⟩, .active 0 ::ₘ 0, []⟩ :=
    .step (.init 2 31 1) (.start (Multiset.replicate_succ Pc.ready 0) rfl)
  have logged : Reachable 30 10 ⟨⟨2, 31, 1, false, [40]⟩, .active 1 ::ₘ 0, [40]⟩ :=
    .step admitted (@Step.logWrite 30 10 _ 0 0 loggedBuf _ _ rfl (by decide) rfl)
  exact .step logged (.startCommit rfl rfl)

/-- A boot that commits sector 40 from a one-thread run and crashes after six events. -/
private def oneCommit : List Epoch := [⟨[⟨[40], fun _ _ => 7⟩], 6⟩]

theorem concurrent_recovery_sample :
    (30 + 1) * 4 < BSIZE ∧ word ((fun _ _ => 0 : Disk) 2) 0 = 0 ∧
      (∀ epoch ∈ oneCommit, ∀ txn ∈ epoch.txns, ∃ s s',
        Reachable 30 10 s ∧ Step 30 10 s .commit s' ∧ s.log.start = 2 ∧ s.log.size = 31 ∧
          (∀ sector ∈ s.logged, Home 2 31 sector) ∧ s.log.lh = txn.sectors) ∧
      (word (recovered 2 (crashRun 2 oneCommit fun _ _ => 0).1 2) 0 = 0 ∧
        ∀ s, Home 2 31 s → recovered 2 (crashRun 2 oneCommit fun _ _ => 0).1 s =
          applyAll (crashRun 2 oneCommit fun _ _ => 0).2 (fun _ _ => 0) s) := by
  have header : (30 + 1) * 4 < BSIZE := by decide
  have empty : word ((fun _ _ => 0 : Disk) 2) 0 = 0 := by simp [word]
  have committed : ∀ epoch ∈ oneCommit, ∀ txn ∈ epoch.txns, ∃ s s',
      Reachable 30 10 s ∧ Step 30 10 s .commit s' ∧ s.log.start = 2 ∧ s.log.size = 31 ∧
        (∀ sector ∈ s.logged, Home 2 31 sector) ∧ s.log.lh = txn.sectors := by
    simp only [oneCommit, List.mem_singleton, forall_eq]
    exact ⟨_, _, committing_reachable, @Step.commit 30 10 _ 0 rfl, rfl, rfl, by simp [Home], rfl⟩
  exact ⟨header, empty, committed, concurrent_recovery header oneCommit _ empty committed⟩

/-! ## Booting again -/

end Log

end Xv6
