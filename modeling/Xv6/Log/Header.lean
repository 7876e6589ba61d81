import Xv6.Buf
import Mathlib.Data.List.Basic

/-!
# The log's metadata and `log_write`

`struct log`, the in-memory `struct logheader`, and `log_write`, whose scan-then-append loop makes
the header an ordered set of sectors: a sector written again keeps its slot (log absorption).
-/

namespace Xv6

/-- `struct log` without its spinlock and device number.  The header array `lh.sector` with its
count `lh.n` is the list of its live slots `sector[0..n)`: a slot at or past `n` is never read
before `log_write` stores into it, so its stale contents are not modelled. -/
structure Log where
  /-- First sector of the log region (the header block). -/
  start : Nat
  /-- Number of sectors in the log region, header included. -/
  size : Nat
  /-- How many file-system calls are executing. -/
  outstanding : Int
  /-- Set while `commit()` runs. -/
  committing : Bool
  /-- The in-memory header: the sectors of the current transaction. -/
  lh : List Nat
  deriving DecidableEq, Repr

namespace Log

/-! ## Log absorption -/

/-- The header update of `log_write`: the scan stops at the first slot that already holds the
sector, or at `n`; `sector[i] = b->sector` is stored there, and `n` grows when the scan ran off
the end. -/
def absorb (lh : List Nat) (sector : Nat) : List Nat :=
  let i := lh.indexOf sector
  if i = lh.length then lh ++ [sector] else lh.set i sector

/-- `log_write(b)`: record `b`'s sector in the current transaction and pin `b` in the cache
with `B_DIRTY`, or panic when the header is full or no operation is running. -/
def logWrite (LOGSIZE : Nat) (log : Log) (b : Buf) : Except String (Log × Buf) :=
  if LOGSIZE ≤ log.lh.length ∨ (log.size : Int) - 1 ≤ log.lh.length then
    .error "too big a transaction"
  else if log.outstanding < 1 then
    .error "log_write outside of trans"
  else
    .ok ({ log with lh := absorb log.lh b.sector },
      { b with flags := { b.flags with dirty := true } })

/-- Successive `log_write` calls on `bufs`, stopping at the first panic. -/
def logWrites (LOGSIZE : Nat) (log : Log) : List Buf → Except String Log
  | [] => .ok log
  | b :: bufs => (logWrite LOGSIZE log b).bind fun result => logWrites LOGSIZE result.1 bufs

/-- The sectors of `writes` that `seen` does not hold, each once, in order of first
occurrence. -/
def newSectors (seen : List Nat) : List Nat → List Nat
  | [] => []
  | sector :: writes =>
      if sector ∈ seen then newSectors seen writes
      else sector :: newSectors (seen ++ [sector]) writes

private theorem set_indexOf_self {lh : List Nat} {sector : Nat} (present : sector ∈ lh) :
    lh.set (lh.indexOf sector) sector = lh := by
  apply List.ext_getElem (by simp)
  intro i _ _
  rw [List.getElem_set]
  split
  · subst i; exact (List.getElem_indexOf (List.indexOf_lt_length.mpr present)).symm
  · rfl

/-- Absorption: a sector already in the header leaves it unchanged, a new one is appended. -/
theorem absorb_eq (lh : List Nat) (sector : Nat) :
    absorb lh sector = if sector ∈ lh then lh else lh ++ [sector] := by
  by_cases present : sector ∈ lh
  · have scan : lh.indexOf sector ≠ lh.length := fun h => List.indexOf_eq_length.mp h present
    simp [absorb, present, scan, set_indexOf_self present]
  · simp [absorb, present, List.indexOf_eq_length.mpr present]

theorem absorb_nodup {lh : List Nat} (distinct : lh.Nodup) (sector : Nat) :
    (absorb lh sector).Nodup := by
  rw [absorb_eq]
  split
  · exact distinct
  · exact distinct.append (List.nodup_singleton sector) (by simpa)

theorem absorb_length_le (lh : List Nat) (sector : Nat) :
    (absorb lh sector).length ≤ lh.length + 1 := by
  rw [absorb_eq]; split <;> simp

theorem foldl_absorb_nodup {lh : List Nat} (distinct : lh.Nodup) (writes : List Nat) :
    (writes.foldl absorb lh).Nodup := by
  induction writes generalizing lh with
  | nil => exact distinct
  | cons sector writes induction => exact induction (absorb_nodup distinct sector)

/-- Absorbing the sectors of `writes` one after another appends their new sectors. -/
theorem foldl_absorb (lh writes : List Nat) :
    writes.foldl absorb lh = lh ++ newSectors lh writes := by
  induction writes generalizing lh with
  | nil => simp [newSectors]
  | cons sector writes induction =>
      by_cases present : sector ∈ lh
      · simp [newSectors, absorb_eq, present, induction]
      · simp [newSectors, absorb_eq, present, induction]

theorem logWrite_ok {LOGSIZE : Nat} {log log' : Log} {b b' : Buf}
    (ok : logWrite LOGSIZE log b = .ok (log', b')) :
    log' = { log with lh := absorb log.lh b.sector } ∧ log.lh.length < LOGSIZE ∧
      (log.lh.length : Int) < log.size - 1 ∧ 1 ≤ log.outstanding := by
  unfold logWrite at ok
  split at ok
  · cases ok
  split at ok
  · cases ok
  cases ok
  refine ⟨rfl, ?_, ?_, ?_⟩ <;> omega

/-- `log_write` succeeds while the header has room and an operation is running. -/
theorem logWrite_eq_ok {LOGSIZE : Nat} {log : Log} (b : Buf) (array : log.lh.length < LOGSIZE)
    (region : (log.lh.length : Int) < log.size - 1) (running : 1 ≤ log.outstanding) :
    logWrite LOGSIZE log b = .ok ({ log with lh := absorb log.lh b.sector },
      { b with flags := { b.flags with dirty := true } }) := by
  unfold logWrite
  rw [if_neg (by omega), if_neg (by omega)]

/-- Inside an operation, `log_write` never panics with "log_write outside of trans". -/
theorem logWrite_inside {LOGSIZE : Nat} {log : Log} (b : Buf) (running : 1 ≤ log.outstanding) :
    logWrite LOGSIZE log b ≠ .error "log_write outside of trans" := by
  unfold logWrite
  split
  · simp
  · rw [if_neg (by omega)]
    simp

theorem logWrites_lh {LOGSIZE : Nat} {log log' : Log} {bufs : List Buf}
    (ok : logWrites LOGSIZE log bufs = .ok log') :
    log'.lh = (bufs.map Buf.sector).foldl absorb log.lh := by
  induction bufs generalizing log with
  | nil => cases ok; rfl
  | cons b bufs induction =>
      simp only [logWrites] at ok
      cases written : logWrite LOGSIZE log b with
      | error message => simp [written, Except.bind] at ok
      | ok result =>
          simp only [written, Except.bind] at ok
          rw [induction ok, (logWrite_ok written).1]
          rfl

/-- The distinct sectors of a sequence of writes are their absorption into an empty header. -/
theorem newSectors_nil (writes : List Nat) : newSectors [] writes = writes.foldl absorb [] := by
  simpa using (foldl_absorb [] writes).symm

theorem newSectors_append_singleton (writes : List Nat) (sector : Nat) :
    newSectors [] (writes ++ [sector]) = absorb (newSectors [] writes) sector := by
  rw [newSectors_nil, newSectors_nil, List.foldl_append, List.foldl_cons, List.foldl_nil]

theorem newSectors_nil_nodup (writes : List Nat) : (newSectors [] writes).Nodup :=
  newSectors_nil writes ▸ foldl_absorb_nodup List.nodup_nil writes

/-- Log absorption over a whole sequence of `log_write` calls that stays within the calls'
preconditions: the header is the old header followed by the new sectors, each once, in order of
first occurrence, and it stays duplicate-free. -/
theorem logWrites_absorb {LOGSIZE : Nat} {log log' : Log} {bufs : List Buf}
    (distinct : log.lh.Nodup) (ok : logWrites LOGSIZE log bufs = .ok log') :
    log'.lh = log.lh ++ newSectors log.lh (bufs.map Buf.sector) ∧ log'.lh.Nodup := by
  have header : log'.lh = (bufs.map Buf.sector).foldl absorb log.lh := logWrites_lh ok
  exact ⟨header.trans (foldl_absorb _ _), header ▸ foldl_absorb_nodup distinct _⟩

private def sampleLog : Log := ⟨2, 31, 1, false, [3]⟩

private def sampleBuf (sector : Nat) : Buf := ⟨⟨true, true, false⟩, 1, sector, 0, fun _ => 0⟩

theorem logWrites_absorb_sample :
    sampleLog.lh.Nodup ∧
      logWrites 30 sampleLog [sampleBuf 7, sampleBuf 3, sampleBuf 7] =
        .ok { sampleLog with lh := [3, 7] } ∧
      ([3, 7] = [3] ++ newSectors [3] [7, 3, 7] ∧ [3, 7].Nodup) :=
  ⟨by decide, rfl, @logWrites_absorb 30 sampleLog { sampleLog with lh := [3, 7] }
    [sampleBuf 7, sampleBuf 3, sampleBuf 7] (by decide) rfl⟩

end Log

end Xv6
