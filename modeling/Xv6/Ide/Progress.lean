import Xv6.Ide.Queue

/-!
# Every sleeper returns

In every reachable state `ideintr` cannot fail and a completed buffer stays in sync, so interrupts
with a ready status, and then the sleeper's own wakeup, return any thread asleep in `iderw`.
-/

namespace Xv6

namespace Ide

/-- Steps one after another. -/
def Runs (havedisk1 : Bool) : System → System → Prop :=
  Relation.ReflTransGen fun s s' => ∃ a, Step havedisk1 s a s'

/-- Runs whose every step is one of the actions `allowed`. -/
def RunsOf (havedisk1 : Bool) (allowed : Action → Prop) : System → System → Prop :=
  Relation.ReflTransGen fun s s' => ∃ a, allowed a ∧ Step havedisk1 s a s'

variable {havedisk1 : Bool} {s : System}

/-- A run from a reachable state stays among the reachable states. -/
theorem Reachable.runs (reach : Reachable havedisk1 s) {s' : System} (run : Runs havedisk1 s s') :
    Reachable havedisk1 s' := by
  induction run with
  | refl => exact reach
  | tail _ step induction => exact induction.step step.choose_spec

/-- `ideintr` never panics: it starts the next request only when there is one. -/
theorem ideintr_ok (r : Nat) (st : Ide) : ∃ st', ideintr r st = .ok st' := by
  unfold ideintr
  dsimp only
  split
  · exact ⟨_, rfl⟩
  · split
    · exact ⟨_, by rw [idestart, if_neg ‹_›]⟩
    · exact ⟨_, rfl⟩

/-- A completed buffer is in sync: `ideintr` marks it valid and clean, and nothing touches its
flags after it leaves the queue. -/
theorem reachable_completed_synced (reach : Reachable havedisk1 s) :
    ∀ c ∈ s.completed, synced (s.ide.bufs c).flags = true := by
  induction reach with
  | init => exact fun _ member => absurd member (List.not_mem_nil _)
  | @step s₀ _ _ before step induction =>
      have inv := reachable_invariant before
      cases step with
      | iderw shape ok =>
          have calling : Pc.calling _ ∈ _ := shape ▸ Multiset.mem_cons_self _ _
          obtain ⟨-, -, flags, -⟩ := iderw_append inv.chain
            (fun member => inv.not_enqueued calling (List.mem_of_mem_drop member))
            (inv.nonnull _ calling) ok
          exact fun c member => by rw [synced, flags c]; exact induction c member
      | @intr b r ide issued _ ok =>
          obtain ⟨q, shape⟩ := inv.issued_head issued
          have chain : Chain s₀.ide.link s₀.ide.idequeue (b :: q) := shape ▸ inv.chain
          obtain ⟨-, -, frame⟩ := @ideintr_chain r b { s₀.ide with issued := none } ide q chain ok
          obtain ⟨head, nonzero, -⟩ := Chain.cons_cons_iff.mp chain
          obtain ⟨-, -, bufs⟩ := @ideintr_pop r b { s₀.ide with issued := none } ide head nonzero ok
          have distinct : (s₀.completed ++ b :: q).Nodup := shape ▸ inv.fifo ▸ inv.once
          intro c member
          rcases List.mem_append.mp member with old | new
          · have other : c ≠ b := fun same =>
              List.disjoint_of_nodup_append distinct old (same ▸ List.mem_cons_self b q)
            rw [frame c other]
            exact induction c old
          · obtain rfl := List.mem_singleton.mp new
            simp [bufs, synced]
      | wake => exact induction

/-- Answering the pending requests one after another completes them all, in order. -/
theorem drain {r : Nat} (answers : ready r = true) :
    ∀ (ps : List Nat) (s : System), Reachable havedisk1 s → s.pending = ps →
      ∃ s', RunsOf havedisk1 (· = .intr r) s s' ∧ Reachable havedisk1 s' ∧
        s'.completed = s.completed ++ ps ∧
        s'.threads = s.threads
  | [], s, reach, _ => ⟨s, .refl, reach, by simp, rfl⟩
  | p :: ps, s, reach, pending => by
      have inv := reachable_invariant reach
      have issued : s.ide.issued = some p := by rw [inv.issued, pending]; rfl
      obtain ⟨ide, ok⟩ := ideintr_ok r { s.ide with issued := none }
      have step : Step havedisk1 s (.intr r) ⟨ide, s.threads, s.enqueued, s.completed ++ [p]⟩ :=
        .intr issued answers ok
      have next : (⟨ide, s.threads, s.enqueued, s.completed ++ [p]⟩ : System).pending = ps := by
        show s.enqueued.drop (s.completed ++ [p]).length = ps
        rw [inv.fifo, pending, List.length_append, List.length_singleton, List.drop_append]
        rfl
      obtain ⟨s', run, reach', completed, threads⟩ := drain answers ps _ (reach.step step) next
      exact ⟨s', .head ⟨_, rfl, step⟩ run, reach', by rw [completed]; simp, threads⟩

/-- A thread asleep in `iderw(b)` returns after ready interrupts and its own wakeup. -/
theorem sleeper_returns {r : Nat} (answers : ready r = true) (reach : Reachable havedisk1 s)
    {b : Nat} (asleep : Pc.sleeping b ∈ s.threads) :
    ∃ s', RunsOf havedisk1 (fun a => a = .intr r ∨ a = .wake b) s s' ∧
      Pc.returned b ∈ s'.threads := by
  obtain ⟨s', run, reach', completed, threads⟩ := drain answers s.pending s reach rfl
  have done : b ∈ s'.completed := by
    rw [completed, ← (reachable_invariant reach).fifo]
    exact ((reachable_invariant reach).called b).mpr (.inl asleep)
  obtain ⟨rest, shape⟩ := Multiset.exists_cons_of_mem (threads ▸ asleep)
  have interrupts : RunsOf havedisk1 (fun a => a = .intr r ∨ a = .wake b) s s' :=
    Relation.ReflTransGen.mono (fun _ _ ⟨a, only, step⟩ => ⟨a, .inl only, step⟩) run
  exact ⟨_, interrupts.tail ⟨_, .inr rfl, .wake shape (reachable_completed_synced reach' b done)⟩,
    Multiset.mem_cons_self _ _⟩

/-- A buffer for sector 9 that holds no valid data. -/
private def emptyBuf : Buf := ⟨⟨true, false, false⟩, 0, 9, 0, fun _ => 0⟩

private def oneCaller : System := System.init (fun _ => emptyBuf) (fun _ _ => 3) [1]

private def oneQueued : Ide :=
  match iderw true 1 1 oneCaller.ide with
  | some (.ok ide) => ide
  | _ => oneCaller.ide

/-- One thread asleep on a read. -/
theorem sleeper_returns_read :
    ready 0x40 = true ∧ Reachable true ⟨oneQueued, .sleeping 1 ::ₘ 0, [1], []⟩ ∧
      Pc.sleeping 1 ∈ (.sleeping 1 ::ₘ 0 : Multiset Pc) ∧
      ∃ s', RunsOf true (fun a => a = .intr 0x40 ∨ a = .wake 1)
          ⟨oneQueued, .sleeping 1 ::ₘ 0, [1], []⟩ s' ∧
        Pc.returned 1 ∈ s'.threads := by
  have reach : Reachable true ⟨oneQueued, .sleeping 1 ::ₘ 0, [1], []⟩ :=
    .step (.init _ _ [1] (by decide) (by decide))
      (@Step.iderw true oneCaller 0 1 1 oneQueued rfl rfl)
  have asleep : Pc.sleeping 1 ∈ (.sleeping 1 ::ₘ 0 : Multiset Pc) := Multiset.mem_cons_self _ _
  exact ⟨by decide, reach, asleep, sleeper_returns (show ready 0x40 = true by decide) reach asleep⟩

end Ide

end Xv6
