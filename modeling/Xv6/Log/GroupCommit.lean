import Xv6.Log.Header
import Mathlib.Algebra.BigOperators.Group.Multiset

/-!
# Group commit

Threads run `begin_op`, `log_write`s and `end_op`; `begin_op` and `end_op` run under `log.lock`,
and the `commit()` of the last `end_op` outside it.  `log_write` takes no lock in the source but
is modelled as one atomic step.  Threads are a multiset of program counters; the ghost `logged`
records the sectors logged since the last commit.
-/

namespace Xv6

namespace Log

/-- One pass of `begin_op`'s loop under `log.lock`: `none` when the caller must sleep on `&log`
because a commit is running or admitting it could exhaust the log. -/
def beginOp (LOGSIZE MAXOPBLOCKS : Nat) (log : Log) : Option Log :=
  if log.committing then none
  else if (log.lh.length : Int) + (log.outstanding + 1) * MAXOPBLOCKS > LOGSIZE then none
  else some { log with outstanding := log.outstanding + 1 }

/-- The critical section of `end_op`: decrement the count of running operations, panic if a
commit is running, and decide whether this caller commits (`do_commit`). -/
def endOp (log : Log) : Except String (Log × Bool) :=
  let log := { log with outstanding := log.outstanding - 1 }
  if log.committing then .error "log.committing"
  else if log.outstanding = 0 then .ok ({ log with committing := true }, true)
  else .ok (log, false)

/-- What `commit()` does to the in-memory log: `log.lh.n = 0` after the header was written out
and installed.  Its disk writes are the list `commit start lh`. -/
def commitReset (log : Log) : Log :=
  if 0 < log.lh.length then { log with lh := [] } else log

/-- The end of `end_op` for the committer, under `log.lock`: `log.committing = 0`. -/
def endCommit (log : Log) : Log := { log with committing := false }

/-- Where a thread is, as far as the log is concerned. -/
inductive Pc
  /-- Runnable outside `begin_op`'s sleep: its next log step is `begin_op`'s test. -/
  | ready
  /-- Asleep on `&log` in `begin_op`. -/
  | asleep
  /-- Inside an operation, after `writes` calls to `log_write`. -/
  | active (writes : Nat)
  /-- The `end_op` caller that set `log.committing`, running `commit()` outside the lock. -/
  | committing
  /-- That caller after `commit()` returned, before it clears `log.committing`. -/
  | committed
  deriving DecidableEq, Repr

namespace Pc

/-- Inside an operation: counted by `log.outstanding`. -/
def isActive : Pc → Bool
  | active _ => true
  | _ => false

/-- Inside `end_op`'s commit. -/
def isCommitter : Pc → Bool
  | committing => true
  | committed => true
  | _ => false

/-- Log blocks an operation may still add to the header. -/
def reserve (MAXOPBLOCKS : Nat) : Pc → Nat
  | active writes => MAXOPBLOCKS - writes
  | _ => 0

end Pc

/-- The log and its threads. -/
structure System where
  /-- `struct log`. -/
  log : Log
  /-- The program counters of the threads. -/
  threads : Multiset Pc
  /-- Ghost: the sectors passed to `log_write` since the last `commit()` emptied the header. -/
  logged : List Nat

/-- After `initlog`: recovery has emptied the header, no operation runs, every thread is
ready. -/
def System.init (start size threads : Nat) : System :=
  ⟨⟨start, size, 0, false, []⟩, Multiset.replicate threads .ready, []⟩

/-- `wakeup(&log)`: every thread asleep in `begin_op` becomes runnable. -/
def wakeup (threads : Multiset Pc) : Multiset Pc :=
  threads.map fun pc => if pc = .asleep then .ready else pc

/-- What a thread does in one step. -/
inductive Action
  | beginOp
  | logWrite (b : Buf)
  | endOp
  | commit
  | endCommit

/-- One step of one thread. -/
inductive Step (LOGSIZE MAXOPBLOCKS : Nat) : System → Action → System → Prop
  /-- `begin_op` admits the caller. -/
  | start {s : System} {rest : Multiset Pc} {log : Log} :
      s.threads = .ready ::ₘ rest → beginOp LOGSIZE MAXOPBLOCKS s.log = some log →
      Step LOGSIZE MAXOPBLOCKS s .beginOp { s with log, threads := .active 0 ::ₘ rest }
  /-- `begin_op` sleeps on `&log`, releasing the lock. -/
  | sleep {s : System} {rest : Multiset Pc} :
      s.threads = .ready ::ₘ rest → beginOp LOGSIZE MAXOPBLOCKS s.log = none →
      Step LOGSIZE MAXOPBLOCKS s .beginOp { s with threads := .asleep ::ₘ rest }
  /-- An operation calls `log_write`, at most `MAXOPBLOCKS` times in all. -/
  | logWrite {s : System} {rest : Multiset Pc} {writes : Nat} {b b' : Buf} {log : Log} :
      s.threads = .active writes ::ₘ rest → writes < MAXOPBLOCKS →
      logWrite LOGSIZE s.log b = .ok (log, b') →
      Step LOGSIZE MAXOPBLOCKS s (.logWrite b)
        ⟨log, .active (writes + 1) ::ₘ rest, s.logged ++ [b.sector]⟩
  /-- `end_op` while other operations run: wake the threads waiting for log space. -/
  | endOp {s : System} {rest : Multiset Pc} {writes : Nat} {log : Log} :
      s.threads = .active writes ::ₘ rest → endOp s.log = .ok (log, false) →
      Step LOGSIZE MAXOPBLOCKS s .endOp { s with log, threads := wakeup (.ready ::ₘ rest) }
  /-- `end_op` of the last running operation: its caller becomes the committer. -/
  | startCommit {s : System} {rest : Multiset Pc} {writes : Nat} {log : Log} :
      s.threads = .active writes ::ₘ rest → endOp s.log = .ok (log, true) →
      Step LOGSIZE MAXOPBLOCKS s .endOp { s with log, threads := .committing ::ₘ rest }
  /-- `commit()` outside the lock: the header is written, installed and emptied. -/
  | commit {s : System} {rest : Multiset Pc} :
      s.threads = .committing ::ₘ rest →
      Step LOGSIZE MAXOPBLOCKS s .commit ⟨commitReset s.log, .committed ::ₘ rest, []⟩
  /-- After `commit()`: clear `log.committing` and wake every waiter. -/
  | endCommit {s : System} {rest : Multiset Pc} :
      s.threads = .committed ::ₘ rest →
      Step LOGSIZE MAXOPBLOCKS s .endCommit
        { s with log := endCommit s.log, threads := wakeup (.ready ::ₘ rest) }

/-- The states reachable from `initlog` with any number of threads. -/
inductive Reachable (LOGSIZE MAXOPBLOCKS : Nat) : System → Prop
  | init (start size threads : Nat) : Reachable LOGSIZE MAXOPBLOCKS (System.init start size threads)
  | step {s : System} {a : Action} {s' : System} :
      Reachable LOGSIZE MAXOPBLOCKS s → Step LOGSIZE MAXOPBLOCKS s a s' →
      Reachable LOGSIZE MAXOPBLOCKS s'

/-! ## The routines -/

section Routines

variable {LOGSIZE MAXOPBLOCKS : Nat} {log log' : Log}

theorem beginOp_some (admitted : beginOp LOGSIZE MAXOPBLOCKS log = some log') :
    log.committing = false ∧
      (log.lh.length : Int) + (log.outstanding + 1) * MAXOPBLOCKS ≤ LOGSIZE ∧
      log' = { log with outstanding := log.outstanding + 1 } := by
  unfold beginOp at admitted
  split at admitted
  · cases admitted
  split at admitted
  · cases admitted
  cases admitted
  exact ⟨by simpa using ‹¬log.committing = true›, by omega, rfl⟩

theorem endOp_ok {doCommit : Bool} (ok : endOp log = .ok (log', doCommit)) :
    log.committing = false ∧
      log' = { log with outstanding := log.outstanding - 1, committing := doCommit } ∧
      (doCommit = true ↔ log.outstanding - 1 = 0) := by
  unfold endOp at ok
  simp only at ok
  split at ok
  · cases ok
  rename_i running
  split at ok <;> cases ok
  · exact ⟨by simpa using running, rfl, by simpa⟩
  · exact ⟨by simpa using running, by simp [running], by simpa⟩

/-- Outside a commit, `end_op` does not panic. -/
theorem endOp_of_idle (idle : log.committing = false) : ∃ result, endOp log = .ok result := by
  unfold endOp
  simp only [idle, Bool.false_eq_true, if_false]
  split <;> exact ⟨_, rfl⟩

/-- `end_op` panics exactly when a commit is running. -/
theorem endOp_error {message : String} (failed : endOp log = .error message) :
    log.committing = true := by
  unfold endOp at failed
  simp only at failed
  split at failed
  · assumption
  split at failed <;> cases failed

/-- `commit()` leaves the header empty and the rest of the log as it was. -/
@[simp] theorem commitReset_eq (log : Log) : commitReset log = { log with lh := [] } := by
  unfold commitReset
  split
  · rfl
  · obtain ⟨start, size, outstanding, committing, lh⟩ := log
    obtain rfl : lh = [] := List.eq_nil_of_length_eq_zero (by simpa using ‹¬0 < lh.length›)
    rfl

end Routines

/-! ## Counting threads -/

/-- The threads inside an operation: what `log.outstanding` counts. -/
def running (threads : Multiset Pc) : Nat := threads.countP (Pc.isActive · = true)

/-- The threads inside `end_op`'s commit. -/
def committers (threads : Multiset Pc) : Nat := threads.countP (Pc.isCommitter · = true)

/-- The log blocks the running operations may still add to the header. -/
def reserved (MAXOPBLOCKS : Nat) (threads : Multiset Pc) : Nat :=
  (threads.map (Pc.reserve MAXOPBLOCKS)).sum

section Counting

variable {MAXOPBLOCKS : Nat} {pc : Pc} {threads : Multiset Pc}

@[simp] theorem running_cons :
    running (pc ::ₘ threads) = running threads + if pc.isActive then 1 else 0 :=
  Multiset.countP_cons _ _ _

@[simp] theorem committers_cons :
    committers (pc ::ₘ threads) = committers threads + if pc.isCommitter then 1 else 0 :=
  Multiset.countP_cons _ _ _

@[simp] theorem reserved_cons :
    reserved MAXOPBLOCKS (pc ::ₘ threads) =
      pc.reserve MAXOPBLOCKS + reserved MAXOPBLOCKS threads := by
  simp [reserved]

@[simp] theorem wakeup_cons (pc : Pc) (threads : Multiset Pc) :
    wakeup (pc ::ₘ threads) = (if pc = .asleep then .ready else pc) ::ₘ wakeup threads :=
  Multiset.map_cons _ _ _

/-- `wakeup` keeps the count of any class that treats sleepers like runnable threads. -/
theorem countP_wakeup {p : Pc → Bool} (same : p .asleep = p .ready) (threads : Multiset Pc) :
    (wakeup threads).countP (p · = true) = threads.countP (p · = true) := by
  induction threads using Multiset.induction_on with
  | empty => rfl
  | cons pc threads induction =>
      rw [wakeup_cons, Multiset.countP_cons, Multiset.countP_cons, induction]
      by_cases asleep : pc = .asleep
      · rw [if_pos asleep, asleep, same]
      · rw [if_neg asleep]

@[simp] theorem running_wakeup : running (wakeup threads) = running threads :=
  countP_wakeup (rfl : Pc.isActive .asleep = Pc.isActive .ready) threads

@[simp] theorem committers_wakeup : committers (wakeup threads) = committers threads :=
  countP_wakeup (rfl : Pc.isCommitter .asleep = Pc.isCommitter .ready) threads

@[simp] theorem reserved_wakeup :
    reserved MAXOPBLOCKS (wakeup threads) = reserved MAXOPBLOCKS threads := by
  induction threads using Multiset.induction_on with
  | empty => rfl
  | cons pc threads induction =>
      rw [wakeup_cons, reserved_cons, reserved_cons, induction]
      by_cases asleep : pc = .asleep
      · rw [if_pos asleep, asleep]; rfl
      · rw [if_neg asleep]

theorem asleep_not_mem_wakeup (threads : Multiset Pc) : Pc.asleep ∉ wakeup threads := by
  simp only [wakeup, Multiset.mem_map, not_exists, not_and]
  intro pc _
  split
  · exact nofun
  · assumption

theorem mem_wakeup (member : pc ∈ wakeup threads) (awake : pc ≠ .ready) : pc ∈ threads := by
  simp only [wakeup, Multiset.mem_map] at member
  obtain ⟨original, inThreads, woken⟩ := member
  split at woken
  · exact absurd woken.symm awake
  · exact woken ▸ inThreads

/-- Each running operation reserves at most `MAXOPBLOCKS` blocks. -/
theorem reserved_le (threads : Multiset Pc) :
    reserved MAXOPBLOCKS threads ≤ MAXOPBLOCKS * running threads := by
  induction threads using Multiset.induction_on with
  | empty => simp [reserved]
  | cons pc threads induction =>
      rw [reserved_cons, running_cons, Nat.mul_add]
      cases pc <;> simp only [Pc.reserve, Pc.isActive] <;> simp <;> omega

end Counting

end Log

end Xv6
