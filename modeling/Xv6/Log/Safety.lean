import Xv6.Log.GroupCommit

/-!
# Safety of group commit

In every state reachable under any interleaving, `log.outstanding` counts the running operations,
`log.committing` is set exactly while one thread is in the commit, and the header with the blocks
the running operations reserved fits in `LOGSIZE`.
-/

namespace Xv6

namespace Log

/-- What every reachable state of the group-commit system satisfies. -/
structure Invariant (LOGSIZE MAXOPBLOCKS : Nat) (s : System) : Prop where
  /-- `log.outstanding` counts the running operations. -/
  counted : s.log.outstanding = running s.threads
  /-- `log.committing` is set exactly while one thread is in the commit. -/
  single : committers s.threads = if s.log.committing then 1 else 0
  /-- No operation runs during a commit. -/
  quiet : s.log.committing = true → s.log.outstanding = 0
  /-- Once `commit()` returned, the header is empty. -/
  emptied : Pc.committed ∈ s.threads → s.log.lh = []
  /-- With nothing running and no commit, the header is empty. -/
  quiescent : s.log.outstanding = 0 → s.log.committing = false → s.log.lh = []
  /-- The header is the distinct sectors logged since the last commit. -/
  absorbed : s.log.lh = newSectors [] s.logged
  /-- The header and the blocks the running operations reserved fit in `LOGSIZE`. -/
  fits : s.log.lh.length + reserved MAXOPBLOCKS s.threads ≤ LOGSIZE

section Preservation

variable {LOGSIZE MAXOPBLOCKS : Nat} {log log' : Log} {rest : Multiset Pc} {logged : List Nat}

theorem invariant_init (start size threads : Nat) :
    Invariant LOGSIZE MAXOPBLOCKS (System.init start size threads) := by
  have idle : ∀ pc ∈ Multiset.replicate threads Pc.ready, pc = .ready :=
    fun _ => Multiset.eq_of_mem_replicate
  have none : running (Multiset.replicate threads Pc.ready) = 0 :=
    Multiset.countP_eq_zero.mpr fun pc member => by simp [idle pc member, Pc.isActive]
  refine ⟨by simp [System.init, none], ?_, (fun h => by cases h), (fun h => by cases idle _ h),
    (fun _ _ => rfl), rfl, by simp [System.init, reserved, Multiset.map_replicate, Pc.reserve]⟩
  exact Multiset.countP_eq_zero.mpr fun pc member => by simp [idle pc member, Pc.isCommitter]

/-- A thread in the commit means `log.committing` is set. -/
theorem Invariant.committing_of_committer {s : System} (inv : Invariant LOGSIZE MAXOPBLOCKS s)
    (pc : Pc) (member : pc ∈ s.threads) (committer : pc.isCommitter = true) :
    s.log.committing = true := by
  have pos : 0 < committers s.threads := Multiset.countP_pos.mpr ⟨pc, member, committer⟩
  rw [inv.single] at pos
  split at pos
  · assumption
  · omega

theorem start_preserves (inv : Invariant LOGSIZE MAXOPBLOCKS ⟨log, .ready ::ₘ rest, logged⟩)
    (admitted : beginOp LOGSIZE MAXOPBLOCKS log = some log') :
    Invariant LOGSIZE MAXOPBLOCKS ⟨log', .active 0 ::ₘ rest, logged⟩ := by
  obtain ⟨idle, room, rfl⟩ := beginOp_some admitted
  obtain ⟨counted, single, -, emptied, -, absorbed, fits⟩ := inv
  simp [Pc.isActive, Pc.isCommitter, Pc.reserve] at counted single emptied fits
  have reservation := @reserved_le MAXOPBLOCKS rest
  have product : ((running rest : Int) + 1) * MAXOPBLOCKS =
      ((MAXOPBLOCKS * running rest : Nat) : Int) + MAXOPBLOCKS := by
    push_cast; rw [Int.add_mul, Int.one_mul, Int.mul_comm]
  rw [counted, product] at room
  refine ⟨?_, by simpa [Pc.isCommitter] using single, (by simp [idle]),
    (fun member => emptied (by simpa using member)), (by simp only; omega), absorbed, ?_⟩
  · simp [counted, Pc.isActive]
  · simp [Pc.reserve]
    omega

theorem sleep_preserves (inv : Invariant LOGSIZE MAXOPBLOCKS ⟨log, .ready ::ₘ rest, logged⟩) :
    Invariant LOGSIZE MAXOPBLOCKS ⟨log, .asleep ::ₘ rest, logged⟩ := by
  obtain ⟨counted, single, quiet, emptied, quiescent, absorbed, fits⟩ := inv
  exact ⟨by simpa [Pc.isActive] using counted, by simpa [Pc.isCommitter] using single, quiet,
    (fun member => emptied (by simpa using member)), quiescent, absorbed,
    by simpa [Pc.reserve] using fits⟩

theorem logWrite_preserves {writes : Nat} {b b' : Buf}
    (inv : Invariant LOGSIZE MAXOPBLOCKS ⟨log, .active writes ::ₘ rest, logged⟩)
    (within : writes < MAXOPBLOCKS) (ok : logWrite LOGSIZE log b = .ok (log', b')) :
    Invariant LOGSIZE MAXOPBLOCKS ⟨log', .active (writes + 1) ::ₘ rest, logged ++ [b.sector]⟩ := by
  obtain ⟨rfl, -, -, running⟩ := logWrite_ok ok
  have idle : log.committing = false := by
    cases committing : log.committing
    · rfl
    · have := inv.quiet committing; simp only at this; omega
  have settled : Pc.committed ∉ rest := fun member =>
    absurd (inv.committing_of_committer .committed (by simp [member]) rfl) (by simp [idle])
  obtain ⟨counted, single, quiet, -, -, absorbed, fits⟩ := inv
  have grown := absorb_length_le log.lh b.sector
  simp [Pc.reserve] at fits absorbed
  refine ⟨by simpa [Pc.isActive] using counted, by simpa [Pc.isCommitter] using single, quiet,
    (fun member => absurd (by simpa using member) settled),
    (fun zero => by simp only at zero; omega),
    by simp [absorbed, newSectors_append_singleton], ?_⟩
  · simp [Pc.reserve]
    omega

theorem endOp_preserves {writes : Nat}
    (inv : Invariant LOGSIZE MAXOPBLOCKS ⟨log, .active writes ::ₘ rest, logged⟩)
    (ended : endOp log = .ok (log', false)) :
    Invariant LOGSIZE MAXOPBLOCKS ⟨log', wakeup (.ready ::ₘ rest), logged⟩ := by
  obtain ⟨idle, rfl, others⟩ := endOp_ok ended
  obtain ⟨counted, single, -, emptied, -, absorbed, fits⟩ := inv
  simp [Pc.isActive, Pc.isCommitter, Pc.reserve] at counted single emptied fits
  refine ⟨by simp [Pc.isActive]; omega, by simpa [idle, Pc.isCommitter] using single,
    (fun h => by cases h), (fun member => emptied ?_), (fun zero => by simp at others zero; omega),
    absorbed, by simp [Pc.reserve]; omega⟩
  simpa using mem_wakeup member (by simp)

theorem startCommit_preserves {writes : Nat}
    (inv : Invariant LOGSIZE MAXOPBLOCKS ⟨log, .active writes ::ₘ rest, logged⟩)
    (ended : endOp log = .ok (log', true)) :
    Invariant LOGSIZE MAXOPBLOCKS ⟨log', .committing ::ₘ rest, logged⟩ := by
  obtain ⟨idle, rfl, last⟩ := endOp_ok ended
  obtain ⟨counted, single, -, emptied, -, absorbed, fits⟩ := inv
  simp [Pc.isActive, Pc.isCommitter, Pc.reserve] at counted single emptied fits
  refine ⟨by simp [Pc.isActive] at last ⊢; omega, by simpa [idle, Pc.isCommitter] using single,
    (fun _ => by simpa using last), (fun member => emptied (by simpa using member)),
    (fun _ h => by cases h), absorbed, by simp [Pc.reserve]; omega⟩

theorem commit_preserves
    (inv : Invariant LOGSIZE MAXOPBLOCKS ⟨log, .committing ::ₘ rest, logged⟩) :
    Invariant LOGSIZE MAXOPBLOCKS ⟨commitReset log, .committed ::ₘ rest, []⟩ := by
  obtain ⟨counted, single, quiet, -, -, -, fits⟩ := inv
  rw [commitReset_eq]
  refine ⟨by simpa [Pc.isActive] using counted, by simpa [Pc.isCommitter] using single,
    by simpa using quiet, fun _ => rfl, fun _ _ => rfl, rfl, ?_⟩
  simp [Pc.reserve] at fits ⊢
  omega

theorem endCommit_preserves
    (inv : Invariant LOGSIZE MAXOPBLOCKS ⟨log, .committed ::ₘ rest, logged⟩) :
    Invariant LOGSIZE MAXOPBLOCKS ⟨endCommit log, wakeup (.ready ::ₘ rest), logged⟩ := by
  obtain ⟨counted, single, -, emptied, -, absorbed, fits⟩ := inv
  have alone : committers rest = 0 := by
    simp [Pc.isCommitter] at single
    split at single <;> omega
  have empty : log.lh = [] := emptied (Multiset.mem_cons_self _ _)
  refine ⟨by simpa [endCommit, Pc.isActive] using counted, ?_, (fun h => by cases h),
    (fun _ => empty), (fun _ _ => empty), absorbed, by simpa [Pc.reserve] using fits⟩
  simp [endCommit, Pc.isCommitter, alone]

/-- The invariant is kept by every step of every thread. -/
theorem Invariant.step {s s' : System} {a : Action} (inv : Invariant LOGSIZE MAXOPBLOCKS s)
    (step : Step LOGSIZE MAXOPBLOCKS s a s') : Invariant LOGSIZE MAXOPBLOCKS s' := by
  obtain ⟨log, threads, logged⟩ := s
  cases step with
  | start running admitted => cases running; exact start_preserves inv admitted
  | sleep running _ => cases running; exact sleep_preserves inv
  | logWrite running within ok => cases running; exact logWrite_preserves inv within ok
  | endOp running ended => cases running; exact endOp_preserves inv ended
  | startCommit running ended => cases running; exact startCommit_preserves inv ended
  | commit running => cases running; exact commit_preserves inv
  | endCommit running => cases running; exact endCommit_preserves inv

theorem reachable_invariant {s : System} (reach : Reachable LOGSIZE MAXOPBLOCKS s) :
    Invariant LOGSIZE MAXOPBLOCKS s := by
  induction reach with
  | init start size threads => exact invariant_init start size threads
  | step _ step induction => exact induction.step step

end Preservation

/-! ## What the protocol promises -/

/-- Safety of group commit in one state: the counters, the absence of the transaction panics,
one committer per drop of `outstanding` to zero, and the header that a commit writes. -/
structure GroupCommitSafe (LOGSIZE MAXOPBLOCKS : Nat) (s : System) : Prop where
  /-- `log.outstanding` never goes negative. -/
  nonneg : 0 ≤ s.log.outstanding
  /-- No operation runs during a commit. -/
  quiet : s.log.committing = true → s.log.outstanding = 0
  /-- While `commit()` runs, no other step changes `log.lh`. -/
  stable : Pc.committing ∈ s.threads → ∀ a s', Step LOGSIZE MAXOPBLOCKS s a s' → a ≠ .commit →
    s'.log.lh = s.log.lh
  /-- A running operation's `end_op` does not panic. -/
  endSafe : ∀ writes, Pc.active writes ∈ s.threads → ∃ result, endOp s.log = .ok result
  /-- A running operation's `log_write` does not panic with "log_write outside of trans". -/
  writeSafe : ∀ writes b, Pc.active writes ∈ s.threads →
    logWrite LOGSIZE s.log b ≠ .error "log_write outside of trans"
  /-- With nothing running and no commit, the header is empty. -/
  quiescent : s.log.outstanding = 0 → s.log.committing = false → s.log.lh = []
  /-- At most one thread is in the commit. -/
  single : committers s.threads ≤ 1
  /-- A step enters the commit exactly when it drops `outstanding` from positive to zero. -/
  enter : ∀ a s', Step LOGSIZE MAXOPBLOCKS s a s' →
    (0 < s.log.outstanding ∧ s'.log.outstanding = 0 ↔
      committers s.threads = 0 ∧ committers s'.threads = 1)
  /-- The commit writes the distinct sectors logged since the previous commit, once every
  operation has ended. -/
  header : ∀ s', Step LOGSIZE MAXOPBLOCKS s .commit s' →
    s.log.lh = newSectors [] s.logged ∧ s.log.lh.Nodup ∧ running s.threads = 0

section Promises

variable {LOGSIZE MAXOPBLOCKS : Nat} {s : System}

theorem Invariant.running_pos (inv : Invariant LOGSIZE MAXOPBLOCKS s) {writes : Nat}
    (member : Pc.active writes ∈ s.threads) : 1 ≤ s.log.outstanding ∧ s.log.committing = false := by
  have pos : 0 < running s.threads := Multiset.countP_pos.mpr ⟨_, member, rfl⟩
  have counted := inv.counted
  refine ⟨by omega, ?_⟩
  cases committing : s.log.committing
  · rfl
  · have := inv.quiet committing; omega

theorem Invariant.stable (inv : Invariant LOGSIZE MAXOPBLOCKS s)
    (member : Pc.committing ∈ s.threads) {a : Action} {s' : System}
    (step : Step LOGSIZE MAXOPBLOCKS s a s') (other : a ≠ .commit) : s'.log.lh = s.log.lh := by
  have busy := inv.committing_of_committer .committing member rfl
  cases step with
  | start _ admitted => simp [(beginOp_some admitted).1] at busy
  | sleep => rfl
  | logWrite shape => simp [(inv.running_pos (shape ▸ Multiset.mem_cons_self _ _)).2] at busy
  | endOp shape => simp [(inv.running_pos (shape ▸ Multiset.mem_cons_self _ _)).2] at busy
  | startCommit shape => simp [(inv.running_pos (shape ▸ Multiset.mem_cons_self _ _)).2] at busy
  | commit => exact absurd rfl other
  | endCommit shape =>
      have single := inv.single
      have also : 0 < committers _ :=
        Multiset.countP_pos.mpr ⟨.committing, by simpa [shape] using member, rfl⟩
      simp [shape, busy, Pc.isCommitter] at single
      omega

theorem Invariant.enter (inv : Invariant LOGSIZE MAXOPBLOCKS s) {a : Action} {s' : System}
    (step : Step LOGSIZE MAXOPBLOCKS s a s') :
    (0 < s.log.outstanding ∧ s'.log.outstanding = 0 ↔
      committers s.threads = 0 ∧ committers s'.threads = 1) := by
  have counted := inv.counted
  have single := inv.single
  cases step with
  | start shape admitted =>
      obtain ⟨-, -, rfl⟩ := beginOp_some admitted
      simp [shape, Pc.isCommitter]
      omega
  | sleep shape => simp [shape, Pc.isCommitter]; omega
  | logWrite shape _ ok =>
      obtain ⟨rfl, -⟩ := logWrite_ok ok
      simp [shape, Pc.isCommitter]
      omega
  | endOp shape ended =>
      obtain ⟨-, rfl, others⟩ := endOp_ok ended
      simp [shape, Pc.isCommitter] at others ⊢
      omega
  | startCommit shape ended =>
      obtain ⟨idle, rfl, last⟩ := endOp_ok ended
      simp [shape, Pc.isActive, Pc.isCommitter, idle] at counted single last ⊢
      omega
  | commit shape => simp [shape, Pc.isCommitter]; omega
  | endCommit shape => simp [shape, Pc.isCommitter, endCommit]; omega

theorem Invariant.safe (inv : Invariant LOGSIZE MAXOPBLOCKS s) :
    GroupCommitSafe LOGSIZE MAXOPBLOCKS s where
  nonneg := by have := inv.counted; omega
  quiet := inv.quiet
  stable member _ _ step other := inv.stable member step other
  endSafe _ member := endOp_of_idle (inv.running_pos member).2
  writeSafe _ b member := logWrite_inside b (inv.running_pos member).1
  quiescent := inv.quiescent
  single := by have := inv.single; split at this <;> omega
  enter _ _ step := inv.enter step
  header s' step := by
    cases step with
    | commit shape =>
        have busy := inv.committing_of_committer .committing (by simp [shape]) rfl
        have counted := inv.counted
        refine ⟨inv.absorbed, inv.absorbed ▸ newSectors_nil_nodup _, ?_⟩
        have := inv.quiet busy
        omega

end Promises

end Log

end Xv6
