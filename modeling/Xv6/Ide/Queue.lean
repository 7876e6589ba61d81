import Xv6.Ide.Driver
import Mathlib.Data.Multiset.Basic

/-!
# The request queue under any interleaving

Threads each call `iderw` once, on a buffer of their own, interleaved with completion interrupts.
In every reachable state the queue in memory is the list of pending requests, the controller
works on its head, and completions follow the order of the appends.
-/

namespace Xv6

namespace Ide

/-- Where a thread is in `iderw`. -/
inductive Pc
  /-- Holding `b` with `B_BUSY`, about to call `iderw(b)`. -/
  | calling (b : Nat)
  /-- Asleep on `b` after appending it. -/
  | sleeping (b : Nat)
  /-- Back from `iderw(b)`. -/
  | returned (b : Nat)
  deriving DecidableEq, Repr

/-- The buffer a thread works on. -/
def Pc.buf : Pc → Nat
  | .calling b => b
  | .sleeping b => b
  | .returned b => b

/-- The driver, the controller, the threads, and the order of appends and completions. -/
structure System where
  /-- The driver's variables and the controller. -/
  ide : Ide
  /-- The threads. -/
  threads : Multiset Pc
  /-- Ghost: the buffers in the order `iderw` appended them. -/
  enqueued : List Nat
  /-- Ghost: the buffers in the order `ideintr` completed them. -/
  completed : List Nat

/-- The requests appended and not completed. -/
def System.pending (s : System) : List Nat := s.enqueued.drop s.completed.length

/-- What happens in one step. -/
inductive Action
  | iderw (b : Nat)
  | intr (r : Nat)
  | wake (b : Nat)

/-- One step: a call of `iderw` up to its sleep, a completion interrupt, or a return.  A thread
calls `iderw` once, from `calling` only, so no buffer is requested twice. -/
inductive Step (havedisk1 : Bool) : System → Action → System → Prop
  /-- A thread appends its buffer, and starts the controller if the queue was empty. -/
  | iderw {s : System} {rest : Multiset Pc} {b fuel : Nat} {ide : Ide} :
      s.threads = .calling b ::ₘ rest → iderw havedisk1 fuel b s.ide = some (.ok ide) →
      Step havedisk1 s (.iderw b) ⟨ide, .sleeping b ::ₘ rest, s.enqueued ++ [b], s.completed⟩
  /-- The controller completes the request issued to it, with the ready status `r`. -/
  | intr {s : System} {b r : Nat} {ide : Ide} :
      s.ide.issued = some b → ready r = true → ideintr r { s.ide with issued := none } = .ok ide →
      Step havedisk1 s (.intr r) ⟨ide, s.threads, s.enqueued, s.completed ++ [b]⟩
  /-- A sleeper whose buffer is in sync leaves `iderw`. -/
  | wake {s : System} {rest : Multiset Pc} {b : Nat} :
      s.threads = .sleeping b ::ₘ rest → synced (s.ide.bufs b).flags = true →
      Step havedisk1 s (.wake b) { s with threads := .returned b ::ₘ rest }

/-- Nothing queued or issued, and one thread for each buffer of `callers`. -/
def System.init (bufs : Nat → Buf) (disk : Nat × Nat → Block) (callers : List Nat) : System :=
  ⟨⟨bufs, 0, none, disk⟩, (callers.map Pc.calling : Multiset Pc), [], []⟩

/-- The states reachable when each thread calls `iderw` on its own buffer. -/
inductive Reachable (havedisk1 : Bool) : System → Prop
  | init (bufs : Nat → Buf) (disk : Nat × Nat → Block) (callers : List Nat) :
      callers.Nodup → 0 ∉ callers → Reachable havedisk1 (System.init bufs disk callers)
  | step {s : System} {a : Action} {s' : System} :
      Reachable havedisk1 s → Step havedisk1 s a s' → Reachable havedisk1 s'

/-- What every reachable state satisfies. -/
structure Invariant (s : System) : Prop where
  /-- Completions follow the appends. -/
  ordered : s.completed <+: s.enqueued
  /-- No buffer is appended twice. -/
  once : s.enqueued.Nodup
  /-- The queue in memory is the list of pending requests. -/
  chain : Chain s.ide.link s.ide.idequeue s.pending
  /-- The controller works on the head of the queue. -/
  issued : s.ide.issued = s.pending.head?
  /-- A pending request's caller sleeps on it. -/
  owned : ∀ b ∈ s.pending, Pc.sleeping b ∈ s.threads
  /-- A pending request is out of sync with the disk. -/
  unsynced : ∀ b ∈ s.pending, synced (s.ide.bufs b).flags = false
  /-- A buffer was appended once its thread called `iderw`. -/
  called : ∀ b, b ∈ s.enqueued ↔ Pc.sleeping b ∈ s.threads ∨ Pc.returned b ∈ s.threads
  /-- A thread returns only with a completed request. -/
  returned : ∀ b, Pc.returned b ∈ s.threads → b ∈ s.completed
  /-- Each thread has its own buffer. -/
  distinct : (s.threads.map Pc.buf).Nodup
  /-- No thread works on the null pointer. -/
  nonnull : ∀ pc ∈ s.threads, pc.buf ≠ 0

section Preservation

variable {havedisk1 : Bool} {s : System}

theorem Invariant.fifo (inv : Invariant s) : s.enqueued = s.completed ++ s.pending :=
  (List.prefix_iff_eq_append.mp inv.ordered).symm

/-- Two threads never work on one buffer. -/
theorem Invariant.owner_unique (inv : Invariant s) {pc pc' : Pc} (member : pc ∈ s.threads)
    (member' : pc' ∈ s.threads) (same : pc.buf = pc'.buf) : pc = pc' := by
  by_contra differ
  obtain ⟨rest, shape⟩ := Multiset.exists_cons_of_mem member
  have other : pc' ∈ rest := by
    rw [shape] at member'
    exact (Multiset.mem_cons.mp member').resolve_left (Ne.symm differ)
  have distinct := inv.distinct
  rw [shape, Multiset.map_cons, Multiset.nodup_cons] at distinct
  exact distinct.1 (same ▸ Multiset.mem_map_of_mem _ other)

/-- The buffer of a thread about to call `iderw` was never appended. -/
theorem Invariant.not_enqueued (inv : Invariant s) {b : Nat} (calling : Pc.calling b ∈ s.threads) :
    b ∉ s.enqueued := by
  intro member
  rcases (inv.called b).mp member with asleep | back
  · cases inv.owner_unique calling asleep rfl
  · cases inv.owner_unique calling back rfl

/-- The request issued to the controller heads the pending ones. -/
theorem Invariant.issued_head (inv : Invariant s) {b : Nat} (issued : s.ide.issued = some b) :
    ∃ q, s.pending = b :: q :=
  List.head?_eq_some_iff.mp (inv.issued ▸ issued)

/-- A sleeper finds its buffer in sync only once the buffer was completed. -/
theorem Invariant.completed_of_synced (inv : Invariant s) {b : Nat}
    (asleep : Pc.sleeping b ∈ s.threads) (insync : synced (s.ide.bufs b).flags = true) :
    b ∉ s.pending ∧ b ∈ s.completed := by
  have done : b ∉ s.pending := fun member => by simp [inv.unsynced b member] at insync
  have member := (inv.called b).mpr (.inl asleep)
  rw [inv.fifo, List.mem_append] at member
  exact ⟨done, member.resolve_right done⟩

theorem invariant_init (bufs : Nat → Buf) (disk : Nat × Nat → Block) (callers : List Nat)
    (distinct : callers.Nodup) (nonnull : 0 ∉ callers) :
    Invariant (System.init bufs disk callers) := by
  refine ⟨List.nil_prefix, List.nodup_nil, .nil, rfl, (fun _ h => by cases h),
    (fun _ h => by cases h), fun b => by simp [System.init], fun b h => by simp [System.init] at h,
    by simpa [System.init, Function.comp_def, Pc.buf] using distinct, ?_⟩
  simp only [System.init, Multiset.mem_coe, List.mem_map]
  rintro _ ⟨b, member, rfl⟩
  exact fun zero => nonnull (zero ▸ member)

theorem iderw_preserves {fuel b : Nat} {rest : Multiset Pc} {ide : Ide} (inv : Invariant s)
    (shape : s.threads = .calling b ::ₘ rest) (ok : iderw havedisk1 fuel b s.ide = some (.ok ide)) :
    Invariant ⟨ide, .sleeping b ::ₘ rest, s.enqueued ++ [b], s.completed⟩ := by
  have calling : Pc.calling b ∈ s.threads := shape ▸ Multiset.mem_cons_self _ _
  have fresh := inv.not_enqueued calling
  obtain ⟨chain, issued, flags, unsynced⟩ :=
    iderw_append inv.chain (fun member => fresh (List.mem_of_mem_drop member))
      (inv.nonnull _ calling) ok
  have pending : (⟨ide, .sleeping b ::ₘ rest, s.enqueued ++ [b], s.completed⟩ : System).pending =
      s.pending ++ [b] := List.drop_append_of_le_length inv.ordered.length_le
  have sleepers (p : Nat) (member : p ∈ s.pending) : Pc.sleeping p ∈ rest := by
    simpa [shape] using inv.owned p member
  refine ⟨inv.ordered.trans (List.prefix_append _ _),
    List.nodup_append.mpr ⟨inv.once, List.nodup_singleton b, by simpa using fresh⟩, pending ▸ chain,
    ?_, ?_, ?_, fun p => ?_, fun p back => inv.returned p (by simpa [shape] using back),
    by simpa [shape, Pc.buf] using inv.distinct, by simpa [shape, Pc.buf] using inv.nonnull⟩
  · rw [pending, issued, inv.issued]
    cases s.pending <;> rfl
  · intro p member
    rw [pending, List.mem_append, List.mem_singleton] at member
    rcases member with queued | rfl
    · exact Multiset.mem_cons_of_mem (sleepers p queued)
    · exact Multiset.mem_cons_self _ _
  · intro p member
    rw [pending, List.mem_append, List.mem_singleton] at member
    rcases member with queued | rfl
    · rw [synced, flags p]; exact inv.unsynced p queued
    · rw [synced, flags p]; exact unsynced
  · have called := inv.called p
    simp only [shape, Multiset.mem_cons, reduceCtorEq, false_or] at called
    simp only [List.mem_append, List.mem_singleton, Multiset.mem_cons, Pc.sleeping.injEq,
      reduceCtorEq, false_or, called]
    tauto

theorem intr_preserves {b r : Nat} {ide : Ide} (inv : Invariant s) (issued : s.ide.issued = some b)
    (ok : ideintr r { s.ide with issued := none } = .ok ide) :
    Invariant ⟨ide, s.threads, s.enqueued, s.completed ++ [b]⟩ := by
  obtain ⟨q, shape⟩ := inv.issued_head issued
  obtain ⟨chain, issued', frame⟩ :=
    @ideintr_chain r b { s.ide with issued := none } ide q (shape ▸ inv.chain) ok
  have fifo := inv.fifo
  rw [shape] at fifo
  have pending : (⟨ide, s.threads, s.enqueued, s.completed ++ [b]⟩ : System).pending = q := by
    simp [System.pending, fifo]
  have apart : b ∉ q := (List.nodup_cons.mp (shape ▸ inv.chain.nodup)).1
  refine ⟨⟨q, by simp [fifo]⟩, inv.once, pending ▸ chain, by simp [pending, issued'],
    fun p member => inv.owned p (shape ▸ List.mem_cons_of_mem _ (pending ▸ member)), ?_, inv.called,
    fun p back => List.mem_append_left _ (inv.returned p back), inv.distinct, inv.nonnull⟩
  intro p member
  rw [pending] at member
  have other : p ≠ b := fun same => apart (same ▸ member)
  simp only [frame p other]
  exact inv.unsynced p (shape ▸ List.mem_cons_of_mem _ member)

theorem wake_preserves {b : Nat} {rest : Multiset Pc} (inv : Invariant s)
    (shape : s.threads = .sleeping b ::ₘ rest) (insync : synced (s.ide.bufs b).flags = true) :
    Invariant { s with threads := .returned b ::ₘ rest } := by
  obtain ⟨done, completed⟩ :=
    inv.completed_of_synced (shape ▸ Multiset.mem_cons_self _ _) insync
  refine ⟨inv.ordered, inv.once, inv.chain, inv.issued, fun p member => ?_, inv.unsynced,
    fun p => ?_, fun p back => ?_, by simpa [shape, Pc.buf] using inv.distinct,
    by simpa [shape, Pc.buf] using inv.nonnull⟩
  · have asleep := inv.owned p member
    have other : p ≠ b := fun same => done (same ▸ member)
    simpa [shape, other] using asleep
  · have called := inv.called p
    simp only [shape, Multiset.mem_cons, Pc.sleeping.injEq, reduceCtorEq, false_or] at called
    simp only [Multiset.mem_cons, reduceCtorEq, false_or, Pc.returned.injEq, called]
    by_cases same : p = b
    · subst same; simp
    · simp [same]
  · simp only [Multiset.mem_cons, Pc.returned.injEq] at back
    rcases back with rfl | back
    · exact completed
    · exact inv.returned p (by simp [shape, back])

/-- The invariant is kept by every step. -/
theorem Invariant.step {a : Action} {s' : System} (inv : Invariant s)
    (step : Step havedisk1 s a s') : Invariant s' := by
  cases step with
  | iderw shape ok => exact iderw_preserves inv shape ok
  | intr issued _ ok => exact intr_preserves inv issued ok
  | wake shape insync => exact wake_preserves inv shape insync

theorem reachable_invariant (reach : Reachable havedisk1 s) : Invariant s := by
  induction reach with
  | init bufs disk callers distinct nonnull =>
      exact invariant_init bufs disk callers distinct nonnull
  | step _ step induction => exact induction.step step

end Preservation

/-! ## What the driver promises -/

/-- Safety of the request queue in one state. -/
structure QueueSafe (havedisk1 : Bool) (s : System) : Prop where
  /-- The queue in memory is finite and without repetition, and it holds exactly the requests
  appended and not completed, in the order of the appends. -/
  queue : Chain s.ide.link s.ide.idequeue s.pending ∧ s.pending.Nodup
  /-- Requests complete in the order they were appended, none lost and none twice. -/
  fifo : s.enqueued = s.completed ++ s.pending ∧ s.completed.Nodup
  /-- A caller's buffer is not queued, so its `b->qnext = 0` cuts nothing off. -/
  fresh : ∀ b, Pc.calling b ∈ s.threads → b ∉ s.pending
  /-- The append loop of `iderw` ends. -/
  ends : ∀ b, Pc.calling b ∈ s.threads → (iderw havedisk1 (s.pending.length + 1) b s.ide).isSome
  /-- The controller works on the head of the queue, and on nothing when it is empty. -/
  inflight : s.ide.issued = s.pending.head?
  /-- A completion interrupt changes no buffer but the head. -/
  headOnly : ∀ r s', Step havedisk1 s (.intr r) s' → ∀ p, p ≠ s.ide.idequeue →
    s'.ide.bufs p = s.ide.bufs p
  /-- `iderw(b)` returns only after the interrupt that completed `b`. -/
  returns : ∀ b s', Step havedisk1 s (.wake b) s' → b ∈ s.completed

section Promises

variable {havedisk1 : Bool} {s : System}

theorem Invariant.safe (inv : Invariant s) : QueueSafe havedisk1 s where
  queue := ⟨inv.chain, inv.chain.nodup⟩
  fifo := ⟨inv.fifo, (inv.fifo ▸ inv.once).of_append_left⟩
  fresh _ calling member := inv.not_enqueued calling (List.mem_of_mem_drop member)
  ends _ calling := iderw_isSome inv.chain fun member =>
    inv.not_enqueued calling (List.mem_of_mem_drop member)
  inflight := inv.issued
  headOnly r s' step p other := by
    cases step with
    | intr issued _ ok =>
        obtain ⟨q, shape⟩ := inv.issued_head issued
        have chain := shape ▸ inv.chain
        have head : s.ide.idequeue = _ := (Chain.cons_cons_iff.mp chain).1
        exact (@ideintr_chain r _ { s.ide with issued := none } _ q chain ok).2.2 p (head ▸ other)
  returns b s' step := by
    cases step with
    | wake shape insync =>
        exact (inv.completed_of_synced (shape ▸ Multiset.mem_cons_self _ _) insync).2

/-- Under any interleaving of any number of threads, each calling `iderw` on its own buffer, the
request queue is safe and served in order. -/
theorem reachable_queueSafe (reach : Reachable havedisk1 s) : QueueSafe havedisk1 s :=
  (reachable_invariant reach).safe

private def staleBuf : Buf := ⟨⟨true, false, false⟩, 0, 5, 0, fun _ => 0⟩

/-- A buffer held for a read of sector `b`. -/
private def readBuf (b : Nat) : Buf := ⟨⟨true, false, false⟩, 0, b, 0, fun _ => 0⟩

private def threeReaders : System := System.init readBuf (fun _ _ => 7) [1, 2, 3]

private def enqueue (b : Nat) (ide : Ide) : Ide :=
  match iderw true 3 b ide with
  | some (.ok ide') => ide'
  | _ => ide

/-- Three readers asleep: buffer 1 issued to the controller, 2 and 3 queued behind it. -/
private def threeQueued : System :=
  ⟨enqueue 3 (enqueue 2 (enqueue 1 threeReaders.ide)),
    .sleeping 3 ::ₘ .sleeping 2 ::ₘ .sleeping 1 ::ₘ 0, [1, 2, 3], []⟩

theorem reachable_queueSafe_sample :
    Reachable true threeQueued ∧ threeQueued.ide.issued = some 1 ∧ threeQueued.pending = [1, 2, 3] ∧
      QueueSafe true threeQueued := by
  have first : Reachable true ⟨enqueue 1 threeReaders.ide,
      .sleeping 1 ::ₘ .calling 2 ::ₘ .calling 3 ::ₘ 0, [1], []⟩ :=
    .step (.init _ _ [1, 2, 3] (by decide) (by decide))
      (@Step.iderw true threeReaders _ 1 3 _ rfl rfl)
  have second : Reachable true ⟨enqueue 2 (enqueue 1 threeReaders.ide),
      .sleeping 2 ::ₘ .sleeping 1 ::ₘ .calling 3 ::ₘ 0, [1, 2], []⟩ :=
    .step first (@Step.iderw true _ _ 2 3 _ (by decide) rfl)
  have reach : Reachable true threeQueued :=
    .step second (@Step.iderw true _ _ 3 3 _ (by decide) rfl)
  exact ⟨reach, rfl, rfl, reachable_queueSafe reach⟩

private def reader : System := System.init (fun _ => staleBuf) (fun _ _ => 7) [1]

private def appended : Ide :=
  match iderw true 1 1 reader.ide with
  | some (.ok ide) => ide
  | _ => reader.ide

private def faulted : Ide :=
  match ideintr 0x41 { appended with issued := none } with
  | .ok ide => ide
  | .error _ => appended

/-- A read of sector 5 that the controller completes with `IDE_ERR` set: `ideintr` marks the
buffer valid without reading the sector, and `iderw` returns it with its stale contents. -/
theorem faultedRead_returnsValid :
    ∃ s₁ s₂ s₃, Reachable true s₁ ∧ Step true s₁ (.intr 0x41) s₂ ∧ Step true s₂ (.wake 1) s₃ ∧
      (s₁.ide.bufs 1).flags.dirty = false ∧ idewait true 0x41 = -1 ∧
      Pc.returned 1 ∈ s₃.threads ∧ (s₃.ide.bufs 1).flags.valid = true ∧
      (s₃.ide.bufs 1).data ≠ s₃.ide.disk (target (s₃.ide.bufs 1)) :=
  ⟨⟨appended, .sleeping 1 ::ₘ 0, [1], []⟩, ⟨faulted, .sleeping 1 ::ₘ 0, [1], [1]⟩,
    ⟨faulted, .returned 1 ::ₘ 0, [1], [1]⟩,
    .step (.init _ _ [1] (by decide) (by decide)) (@Step.iderw true reader 0 1 1 appended rfl rfl),
    @Step.intr true _ 1 0x41 faulted rfl rfl rfl, @Step.wake true _ 0 1 rfl rfl, rfl, rfl,
    Multiset.mem_cons_self (Pc.returned 1) 0, rfl, fun same => absurd (congrFun same 0) (by decide)⟩

end Promises

end Ide

end Xv6
