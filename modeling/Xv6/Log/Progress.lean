import Xv6.Log.Safety

/-!
# Every operation ends and every commit completes

From every reachable state, `end_op`, `commit()` and the end of the commit alone, with no
`begin_op` or `log_write` of any thread, bring the log to a settled state.
-/

namespace Xv6

namespace Log

/-- The steps that end an operation or a commit. -/
def Action.finishing : Action → Bool
  | .endOp | .commit | .endCommit => true
  | _ => false

/-- Runs of `end_op`, `commit()` and end-of-commit steps only: no thread enters the log or logs a
block. -/
def Finishing (LOGSIZE MAXOPBLOCKS : Nat) : System → System → Prop :=
  Relation.ReflTransGen fun s s' => ∃ a, a.finishing = true ∧ Step LOGSIZE MAXOPBLOCKS s a s'

/-- The log with no thread inside it. -/
structure Settled (s : System) : Prop where
  /-- No operation runs. -/
  idle : s.log.outstanding = 0
  /-- No commit is under way. -/
  free : s.log.committing = false
  /-- The header is empty. -/
  empty : s.log.lh = []
  /-- Every thread is before `begin_op` or asleep in it. -/
  outside : ∀ pc ∈ s.threads, pc = .ready ∨ pc = .asleep

variable {LOGSIZE MAXOPBLOCKS : Nat} {s : System}

/-- Beside a thread in the commit, no thread is inside the log. -/
theorem Invariant.others_outside (inv : Invariant LOGSIZE MAXOPBLOCKS s) {pc : Pc}
    {rest : Multiset Pc} (shape : s.threads = pc ::ₘ rest) (committer : pc.isCommitter = true) :
    ∀ q ∈ rest, q = .ready ∨ q = .asleep := by
  have busy := inv.committing_of_committer pc (shape ▸ Multiset.mem_cons_self _ _) committer
  have counted := inv.counted
  have single := inv.single
  have quiet := inv.quiet busy
  rw [shape, busy] at single
  rw [shape] at counted
  intro q member
  cases q with
  | ready => exact .inl rfl
  | asleep => exact .inr rfl
  | active writes =>
      have running : 0 < running rest := Multiset.countP_pos.mpr ⟨_, member, rfl⟩
      rw [running_cons] at counted
      omega
  | committing | committed =>
      have other : 0 < committers rest := Multiset.countP_pos.mpr ⟨_, member, rfl⟩
      simp [committer] at single
      omega

/-- With no thread inside the log, the log is settled. -/
theorem Invariant.settled (inv : Invariant LOGSIZE MAXOPBLOCKS s)
    (outside : ∀ pc ∈ s.threads, pc = .ready ∨ pc = .asleep) : Settled s := by
  have none (p : Pc → Bool) (ready : p .ready = false) (asleep : p .asleep = false) :
      s.threads.countP (p · = true) = 0 :=
    Multiset.countP_eq_zero.mpr fun pc member => by
      rcases outside pc member with rfl | rfl <;> simp [ready, asleep]
  have idle : s.log.outstanding = 0 := by
    rw [inv.counted]
    exact congrArg _ (none _ rfl rfl)
  have free : s.log.committing = false := by
    have single := inv.single
    rw [committers, none _ rfl rfl] at single
    cases busy : s.log.committing
    · rfl
    · simp [busy] at single
  exact ⟨idle, free, inv.quiescent idle free, outside⟩

/-- A thread whose `commit()` returned clears `log.committing` and wakes every sleeper. -/
theorem committed_settles (reach : Reachable LOGSIZE MAXOPBLOCKS s) {rest : Multiset Pc}
    (shape : s.threads = .committed ::ₘ rest) :
    ∃ s', Finishing LOGSIZE MAXOPBLOCKS s s' ∧ Settled s' ∧ ∀ pc ∈ s'.threads, pc = .ready := by
  have inv := reachable_invariant reach
  have step := @Step.endCommit LOGSIZE MAXOPBLOCKS _ _ shape
  have ready : ∀ pc ∈ wakeup (.ready ::ₘ rest), pc = .ready := by
    intro pc member
    by_contra awake
    rcases Multiset.mem_cons.mp (mem_wakeup member awake) with rfl | later
    · exact awake rfl
    · rcases inv.others_outside shape rfl pc later with rfl | rfl
      · exact awake rfl
      · exact asleep_not_mem_wakeup _ member
  have settled := (reachable_invariant (reach.step step)).settled fun pc member =>
    .inl (ready pc member)
  exact ⟨_, .single ⟨.endCommit, rfl, step⟩, settled, ready⟩

/-- A thread in `commit()` finishes it and then ends the commit. -/
theorem committing_settles (reach : Reachable LOGSIZE MAXOPBLOCKS s) {rest : Multiset Pc}
    (shape : s.threads = .committing ::ₘ rest) :
    ∃ s', Finishing LOGSIZE MAXOPBLOCKS s s' ∧ Settled s' ∧ ∀ pc ∈ s'.threads, pc = .ready := by
  have step := @Step.commit LOGSIZE MAXOPBLOCKS _ _ shape
  obtain ⟨s', run, settled, ready⟩ := committed_settles (reach.step step) rfl
  exact ⟨s', .head ⟨.commit, rfl, step⟩ run, settled, ready⟩

/-- A running operation is some thread's. -/
theorem exists_active {threads : Multiset Pc} (pos : 0 < running threads) :
    ∃ writes, Pc.active writes ∈ threads := by
  obtain ⟨pc, member, active⟩ := Multiset.countP_pos.mp pos
  cases pc with
  | active writes => exact ⟨writes, member⟩
  | _ => cases active

/-- Finishing steps settle the log, by induction on the number of running operations. -/
theorem drain_log : ∀ (k : Nat) (s : System), Reachable LOGSIZE MAXOPBLOCKS s →
    running s.threads = k → ∃ s', Finishing LOGSIZE MAXOPBLOCKS s s' ∧ Settled s' ∧
      ((∃ pc ∈ s.threads, pc ≠ .ready ∧ pc ≠ .asleep) → ∀ pc ∈ s'.threads, pc = .ready)
  | 0, s, reach, zero => by
      by_cases committing : Pc.committing ∈ s.threads
      · obtain ⟨rest, shape⟩ := Multiset.exists_cons_of_mem committing
        obtain ⟨s', run, settled, ready⟩ := committing_settles reach shape
        exact ⟨s', run, settled, fun _ => ready⟩
      by_cases committed : Pc.committed ∈ s.threads
      · obtain ⟨rest, shape⟩ := Multiset.exists_cons_of_mem committed
        obtain ⟨s', run, settled, ready⟩ := committed_settles reach shape
        exact ⟨s', run, settled, fun _ => ready⟩
      have outside : ∀ pc ∈ s.threads, pc = .ready ∨ pc = .asleep := by
        intro pc member
        cases pc with
        | ready => exact .inl rfl
        | asleep => exact .inr rfl
        | active writes =>
            exact absurd zero (show 0 < running s.threads from
              Multiset.countP_pos.mpr ⟨_, member, rfl⟩).ne'
        | committing => exact absurd member committing
        | committed => exact absurd member committed
      refine ⟨s, .refl, (reachable_invariant reach).settled outside, ?_⟩
      rintro ⟨pc, member, notReady, notAsleep⟩
      exact ((outside pc member).elim notReady notAsleep).elim
  | k + 1, s, reach, count => by
      have inv := reachable_invariant reach
      obtain ⟨writes, member⟩ := exists_active (show 0 < running s.threads by omega)
      obtain ⟨rest, shape⟩ := Multiset.exists_cons_of_mem member
      obtain ⟨⟨log, doCommit⟩, ended⟩ := endOp_of_idle (inv.running_pos member).2
      cases doCommit with
      | true =>
          have step := @Step.startCommit LOGSIZE MAXOPBLOCKS _ _ _ _ shape ended
          obtain ⟨s', run, settled, ready⟩ := committing_settles (reach.step step) rfl
          exact ⟨s', .head ⟨.endOp, rfl, step⟩ run, settled, fun _ => ready⟩
      | false =>
          have step := @Step.endOp LOGSIZE MAXOPBLOCKS _ _ _ _ shape ended
          have others : s.log.outstanding - 1 ≠ 0 := by simpa using (endOp_ok ended).2.2
          have counted := inv.counted
          rw [shape] at count counted
          simp only [running_cons, Pc.isActive, if_true] at count counted
          have left : running (wakeup (.ready ::ₘ rest)) = k := by
            simp [Pc.isActive]
            omega
          obtain ⟨s', run, settled, ready⟩ := drain_log k _ (reach.step step) left
          refine ⟨s', .head ⟨.endOp, rfl, step⟩ run, settled, fun _ => ready ?_⟩
          -- `end_op` left another operation running, which is inside the log.
          obtain ⟨_, member'⟩ :=
            exists_active (show 0 < running (wakeup (.ready ::ₘ rest)) by omega)
          exact ⟨_, member', Pc.noConfusion, Pc.noConfusion⟩

/-- From every reachable state, finishing steps alone settle the log, and wake every sleeper once a
thread was inside it. -/
theorem operations_complete (reach : Reachable LOGSIZE MAXOPBLOCKS s) :
    ∃ s', Finishing LOGSIZE MAXOPBLOCKS s s' ∧ s'.log.outstanding = 0 ∧ s'.log.committing = false ∧
      s'.log.lh = [] ∧ (∀ pc ∈ s'.threads, pc = .ready ∨ pc = .asleep) ∧
      ((∃ pc ∈ s.threads, pc ≠ .ready ∧ pc ≠ .asleep) → ∀ pc ∈ s'.threads, pc = .ready) := by
  obtain ⟨s', run, settled, ready⟩ := drain_log _ s reach rfl
  exact ⟨s', run, settled.idle, settled.free, settled.empty, settled.outside, ready⟩

/-- Two operations admitted on a log region of 31 blocks, one of which has logged sector 40. -/
private def twoRunning : System := ⟨⟨2, 31, 2, false, [40]⟩, .active 1 ::ₘ .active 0 ::ₘ 0, [40]⟩

theorem operations_complete_twoRunning :
    Reachable 30 10 twoRunning ∧ ∃ s', Finishing 30 10 twoRunning s' ∧ s'.log.outstanding = 0 ∧
      s'.log.committing = false ∧ s'.log.lh = [] ∧
      (∀ pc ∈ s'.threads, pc = .ready ∨ pc = .asleep) ∧
      ((∃ pc ∈ twoRunning.threads, pc ≠ .ready ∧ pc ≠ .asleep) →
        ∀ pc ∈ s'.threads, pc = .ready) := by
  have first : Reachable 30 10 ⟨⟨2, 31, 1, false, []⟩, .active 0 ::ₘ .ready ::ₘ 0, []⟩ :=
    .step (.init 2 31 2) (.start (Multiset.replicate_succ Pc.ready 1) rfl)
  have second : Reachable 30 10 ⟨⟨2, 31, 2, false, []⟩, .active 0 ::ₘ .active 0 ::ₘ 0, []⟩ :=
    .step first (.start (Multiset.cons_swap (Pc.active 0) Pc.ready 0) rfl)
  have reach : Reachable 30 10 twoRunning :=
    .step second (@Step.logWrite 30 10 _ _ 0 ⟨⟨true, true, false⟩, 1, 40, 0, fun _ => 0⟩ _ _
      rfl (by decide) rfl)
  exact ⟨reach, operations_complete reach⟩

end Log

end Xv6
