import Xv6.Ide.Queue

/-!
# `iderw` syncs a buffer with the disk

The comment of `iderw` says it syncs a buffer with the disk.  That holds when the controller
reports every completion without an error and the callers' buffers name distinct sectors: a
thread returns from `iderw(b)` with `b` valid, clean, and holding what the disk holds.
-/

namespace Xv6

namespace Ide

/-- Runs in which every completion interrupt reports no fault and no error, from callers whose
buffers name distinct sectors. -/
inductive Served (havedisk1 : Bool) : System → Prop
  | init (bufs : Nat → Buf) (disk : Nat × Nat → Block) (callers : List Nat) :
      callers.Nodup → 0 ∉ callers → (callers.map fun b => target (bufs b)).Nodup →
      Served havedisk1 (System.init bufs disk callers)
  | step {s : System} {a : Action} {s' : System} : Served havedisk1 s → Step havedisk1 s a s' →
      (∀ r, a = .intr r → idewait true r = 0) → Served havedisk1 s'

/-- The disk once `idestart(n)` has programmed the controller: a write sends `n`'s data to its
sector. -/
def programmed (st : Ide) (n : Nat) : Nat × Nat → Block :=
  if (st.bufs n).flags.dirty then Function.update st.disk (target (st.bufs n)) (st.bufs n).data
  else st.disk

variable {havedisk1 : Bool} {s : System}

theorem Served.reachable (served : Served havedisk1 s) : Reachable havedisk1 s := by
  induction served with
  | init bufs disk callers distinct nonnull _ => exact .init bufs disk callers distinct nonnull
  | step _ step _ induction => exact induction.step step

/-! ## What the routines do to the disk -/

@[simp] theorem store_disk (st : Ide) (pp : Slot) (v : Nat) : (st.store pp v).disk = st.disk := by
  cases pp <;> rfl

theorem store_data (st : Ide) (pp : Slot) (v p : Nat) :
    ((st.store pp v).bufs p).data = (st.bufs p).data := by
  cases pp with
  | head => rfl
  | qnext b => by_cases same : p = b <;> simp [store, Function.update, same]

theorem store_target (st : Ide) (pp : Slot) (v p : Nat) :
    target ((st.store pp v).bufs p) = target (st.bufs p) := by
  cases pp with
  | head => rfl
  | qnext b => by_cases same : p = b <;> simp [store, Function.update, same, target]

theorem programmed_ne {st : Ide} {n : Nat} {t : Nat × Nat} (other : t ≠ target (st.bufs n)) :
    programmed st n t = st.disk t := by
  unfold programmed
  split
  · exact Function.update_noteq other _ _
  · rfl

theorem programmed_self {st : Ide} {n : Nat} (write : (st.bufs n).flags.dirty = true) :
    programmed st n (target (st.bufs n)) = (st.bufs n).data := by
  simp [programmed, write]

/-- `iderw`'s test `idequeue == b` after the append holds exactly when the queue was empty. -/
theorem appended_head_iff {st : Ide} {b : Nat} {q : List Nat} (chain : Chain st.link st.idequeue q)
    (fresh : b ∉ q) :
    ((st.store (.qnext b) 0).store (lastSlot .head q) b).idequeue = b ↔ q = [] := by
  cases last : q.getLast? with
  | none =>
      obtain rfl : q = [] := List.getLast?_eq_none_iff.mp last
      simp [lastSlot]
  | some final =>
      have member : final ∈ q := List.mem_of_getLast?_eq_some last
      simp only [lastSlot, last, store_qnext_idequeue]
      constructor
      · intro same
        cases q with
        | nil => cases member
        | cons p ps =>
            refine absurd ?_ fresh
            rw [← same, (Chain.cons_cons_iff.mp chain).1]
            exact List.mem_cons_self p ps
      · rintro rfl
        cases member

/-- `iderw` keeps every buffer's data and sector, and programs the controller for `b` exactly
when the queue was empty. -/
theorem iderw_disk {fuel b : Nat} {st st' : Ide} {q : List Nat}
    (chain : Chain st.link st.idequeue q) (fresh : b ∉ q)
    (ok : iderw havedisk1 fuel b st = some (.ok st')) :
    (∀ p, (st'.bufs p).data = (st.bufs p).data ∧ target (st'.bufs p) = target (st.bufs p)) ∧
      st'.disk = if q = [] then programmed st b else st.disk := by
  obtain ⟨-, pp, walked, result⟩ := iderw_ok ok
  obtain ⟨-, rfl⟩ := (walk_eq_some (chain_store_qnext chain fresh)).mp walked
  have same : ∀ p,
      (((st.store (.qnext b) 0).store (lastSlot .head q) b).bufs p).data = (st.bufs p).data ∧
        target (((st.store (.qnext b) 0).store (lastSlot .head q) b).bufs p) = target (st.bufs p) :=
    fun p => ⟨by rw [store_data, store_data], by rw [store_target, store_target]⟩
  by_cases empty : q = []
  · rw [if_pos ((appended_head_iff chain fresh).mpr empty)] at result
    obtain ⟨-, rfl⟩ := idestart_ok result
    refine ⟨same, ?_⟩
    simp only [if_pos empty, programmed, store_disk, store_flags, (same b).1, (same b).2]
  · rw [if_neg (mt (appended_head_iff chain fresh).mp empty)] at result
    cases result
    exact ⟨same, by simp [empty]⟩

/-- `ideintr` programs the controller for the next request, if there is one. -/
theorem ideintr_programs {r b : Nat} {st st' : Ide} {q : List Nat}
    (chain : Chain st.link st.idequeue (b :: q)) (ok : ideintr r st = .ok st') :
    st'.disk = q.head?.elim st.disk (programmed st) := by
  obtain ⟨head, nonzero, rest⟩ := Chain.cons_cons_iff.mp chain
  have apart : b ∉ q := (List.nodup_cons.mp chain.nodup).1
  subst head
  unfold ideintr at ok
  simp only [nonzero, if_false] at ok
  split at ok
  · obtain ⟨-, rfl⟩ := idestart_ok ok
    obtain ⟨ps, rfl, -⟩ := (Chain.cons_iff ‹_›).mp rest
    have other : st.link st.idequeue ≠ st.idequeue := fun same =>
      apart (List.mem_cons.mpr (.inl same.symm))
    simp [programmed, Function.update_noteq other]
  · cases ok
    have zero : st.link st.idequeue = 0 := by simpa using ‹¬st.link st.idequeue ≠ 0›
    have stop : Chain st.link 0 q := zero ▸ rest
    rw [stop.eq_nil]
    rfl

/-- `ideintr` with a healthy status completes the head `b`: it becomes valid and clean, a read
takes the disk's sector, and the controller is programmed for the next request. -/
theorem ideintr_disk {r b : Nat} {st st' : Ide} {q : List Nat}
    (chain : Chain st.link st.idequeue (b :: q)) (healthy : idewait true r = 0)
    (ok : ideintr r st = .ok st') :
    synced (st'.bufs b).flags = true ∧
      (st'.bufs b).data =
        (if (st.bufs b).flags.dirty then (st.bufs b).data else st.disk (target (st.bufs b))) ∧
      target (st'.bufs b) = target (st.bufs b) ∧
      st'.disk = q.head?.elim st.disk (programmed st) := by
  obtain ⟨head, nonzero, -⟩ := Chain.cons_cons_iff.mp chain
  obtain ⟨-, -, bufs⟩ := ideintr_pop head nonzero ok
  exact ⟨by simp [bufs, synced],
    by cases write : (st.bufs b).flags.dirty <;> simp [bufs, healthy, write],
    by simp only [bufs, Function.update_same, target]; split <;> rfl, ideintr_programs chain ok⟩

/-! ## The invariant -/

/-- What a served state satisfies besides the queue's invariant. -/
structure Coherent (s : System) : Prop where
  /-- The threads' buffers name distinct sectors. -/
  apart : (s.threads.map fun pc => target (s.ide.bufs pc.buf)).Nodup
  /-- A completed request is valid, clean, and holds what the disk holds at its sector. -/
  completed : ∀ c ∈ s.completed, synced (s.ide.bufs c).flags = true ∧
    (s.ide.bufs c).data = s.ide.disk (target (s.ide.bufs c))
  /-- A write issued to the controller has reached the disk. -/
  issued : ∀ h, s.ide.issued = some h → (s.ide.bufs h).flags.dirty = true →
    s.ide.disk (target (s.ide.bufs h)) = (s.ide.bufs h).data

/-- Buffers of two threads name distinct sectors. -/
theorem Coherent.target_ne (coh : Coherent s) {pc pc' : Pc} (member : pc ∈ s.threads)
    (member' : pc' ∈ s.threads) (differ : pc.buf ≠ pc'.buf) :
    target (s.ide.bufs pc.buf) ≠ target (s.ide.bufs pc'.buf) := fun same =>
  differ (congrArg Pc.buf (Multiset.inj_on_of_nodup_map coh.apart pc member pc' member' same))

/-- An appended buffer has its thread. -/
theorem Invariant.owner {c : Nat} (inv : Invariant s) (member : c ∈ s.enqueued) :
    ∃ pc ∈ s.threads, pc.buf = c := by
  rcases (inv.called c).mp member with asleep | back
  · exact ⟨_, asleep, rfl⟩
  · exact ⟨_, back, rfl⟩

/-- Two distinct appended buffers name distinct sectors. -/
theorem Coherent.enqueued_apart (coh : Coherent s) (inv : Invariant s) {c c' : Nat}
    (member : c ∈ s.enqueued) (member' : c' ∈ s.enqueued) (differ : c ≠ c') :
    target (s.ide.bufs c) ≠ target (s.ide.bufs c') := by
  obtain ⟨pc, owned, rfl⟩ := inv.owner member
  obtain ⟨pc', owned', rfl⟩ := inv.owner member'
  exact coh.target_ne owned owned' differ

theorem coherent_init (bufs : Nat → Buf) (disk : Nat × Nat → Block) (callers : List Nat)
    (apart : (callers.map fun b => target (bufs b)).Nodup) :
    Coherent (System.init bufs disk callers) :=
  ⟨by simpa [System.init, Function.comp_def, Pc.buf] using apart, (fun _ member => by cases member),
    (fun _ idle => by cases idle)⟩

theorem iderw_coherent {fuel b : Nat} {rest : Multiset Pc} {ide : Ide} (inv : Invariant s)
    (coh : Coherent s) (shape : s.threads = .calling b ::ₘ rest)
    (ok : iderw havedisk1 fuel b s.ide = some (.ok ide)) :
    Coherent ⟨ide, .sleeping b ::ₘ rest, s.enqueued ++ [b], s.completed⟩ := by
  have calling : Pc.calling b ∈ s.threads := shape ▸ Multiset.mem_cons_self _ _
  have fresh := inv.not_enqueued calling
  have unqueued : b ∉ s.pending := fun member => fresh (List.mem_of_mem_drop member)
  obtain ⟨-, issued, flags, -⟩ := iderw_append inv.chain unqueued (inv.nonnull _ calling) ok
  obtain ⟨contents, disk⟩ := iderw_disk inv.chain unqueued ok
  have targets (p : Nat) : target (ide.bufs p) = target (s.ide.bufs p) := (contents p).2
  have others {c : Nat} (member : c ∈ s.enqueued) :
      target (s.ide.bufs c) ≠ target (s.ide.bufs b) := by
    obtain ⟨pc, owned, rfl⟩ := inv.owner member
    exact coh.target_ne owned calling fun same => fresh ((show pc.buf = b from same) ▸ member)
  refine ⟨by simpa [shape, Pc.buf, targets] using coh.apart, fun c member => ?_, fun h => ?_⟩
  · have enqueued : c ∈ s.enqueued := inv.fifo ▸ List.mem_append_left _ member
    obtain ⟨insync, data⟩ := coh.completed c member
    refine ⟨by rw [synced, flags]; exact insync, ?_⟩
    rw [(contents c).1, targets, data, disk]
    split
    · exact (programmed_ne (others enqueued)).symm
    · rfl
  · rw [issued]
    split
    · rintro ⟨⟩ write
      rw [flags] at write
      rw [disk, if_pos ‹_›, targets, (contents _).1, programmed_self write]
    · intro held write
      rw [flags] at write
      rw [disk, if_neg ‹_›, targets, (contents _).1, coh.issued h held write]

theorem intr_coherent {h r : Nat} {ide : Ide} (inv : Invariant s) (coh : Coherent s)
    (issued : s.ide.issued = some h) (healthy : idewait true r = 0)
    (ok : ideintr r { s.ide with issued := none } = .ok ide) :
    Coherent ⟨ide, s.threads, s.enqueued, s.completed ++ [h]⟩ := by
  obtain ⟨q, shape⟩ := inv.issued_head issued
  have chain : Chain s.ide.link s.ide.idequeue (h :: q) := shape ▸ inv.chain
  obtain ⟨-, issued', frame⟩ := @ideintr_chain r h { s.ide with issued := none } ide q chain ok
  obtain ⟨insync, data, target_h, disk⟩ :=
    @ideintr_disk r h { s.ide with issued := none } ide q chain healthy ok
  have fifo : s.enqueued = s.completed ++ h :: q := shape ▸ inv.fifo
  have fresh : h ∉ q := chain.nodup.not_mem
  have targets (p : Nat) : target (ide.bufs p) = target (s.ide.bufs p) := by
    by_cases same : p = h
    · subst same; exact target_h
    · rw [frame p same]
  -- The interrupt writes the disk only at the sector of the next request, if there is one.
  have unchanged {c : Nat} (member : c ∈ s.enqueued) (other : c ∉ q) :
      ide.disk (target (s.ide.bufs c)) = s.ide.disk (target (s.ide.bufs c)) := by
    rw [disk]
    cases q with
    | nil => rfl
    | cons n ns =>
        exact programmed_ne (coh.enqueued_apart inv member (fifo ▸ by simp)
          fun same => other (same ▸ List.mem_cons_self n ns))
  refine ⟨by simpa [targets] using coh.apart, fun c member => ?_, fun n held write => ?_⟩
  · rcases List.mem_append.mp member with old | new
    · have away : c ∉ h :: q := List.disjoint_of_nodup_append (fifo ▸ inv.once) old
      rw [frame c (List.ne_of_not_mem_cons away),
        unchanged (fifo ▸ List.mem_append_left _ old) (List.not_mem_of_not_mem_cons away)]
      exact coh.completed c old
    · obtain rfl := List.mem_singleton.mp new
      refine ⟨insync, ?_⟩
      rw [data, targets, unchanged (fifo ▸ List.mem_append_right _ (List.mem_cons_self c q)) fresh]
      split
      · exact (coh.issued c issued ‹_›).symm
      · rfl
  · rw [issued', Option.or_none] at held
    have apart : n ≠ h := fun same => fresh (same ▸ List.mem_of_mem_head? held)
    rw [frame n apart] at write ⊢
    rw [disk]
    cases q with
    | nil => cases held
    | cons m ms =>
        obtain rfl : m = n := Option.some.inj held
        exact programmed_self write

theorem wake_coherent {b : Nat} {rest : Multiset Pc} (coh : Coherent s)
    (shape : s.threads = .sleeping b ::ₘ rest) :
    Coherent { s with threads := .returned b ::ₘ rest } :=
  ⟨by simpa [shape, Pc.buf] using coh.apart, coh.completed, coh.issued⟩

/-- Every served state is coherent. -/
theorem served_coherent (served : Served havedisk1 s) : Coherent s := by
  induction served with
  | init bufs disk callers _ _ apart => exact coherent_init bufs disk callers apart
  | step before step healthy induction =>
      have inv := reachable_invariant before.reachable
      cases step with
      | iderw shape ok => exact iderw_coherent inv induction shape ok
      | intr issued _ ok => exact intr_coherent inv induction issued (healthy _ rfl) ok
      | wake shape _ => exact wake_coherent induction shape

/-- On a served run, a thread returns from `iderw(b)` with `b` valid and clean and holding what
the disk holds at its sector. -/
theorem served_synced {b : Nat} (served : Served havedisk1 s) (back : Pc.returned b ∈ s.threads) :
    synced (s.ide.bufs b).flags = true ∧ (s.ide.bufs b).data = s.ide.disk (target (s.ide.bufs b)) :=
  (served_coherent served).completed b ((reachable_invariant served.reachable).returned b back)

/-- A buffer for sector 5 that holds no valid data. -/
private def blankBuf : Buf := ⟨⟨true, false, false⟩, 0, 5, 0, fun _ => 0⟩

private def readCall : System := System.init (fun _ => blankBuf) (fun _ _ => 7) [1]

private def readQueued : Ide :=
  match iderw true 1 1 readCall.ide with
  | some (.ok ide) => ide
  | _ => readCall.ide

private def readDone : Ide :=
  match ideintr 0x40 { readQueued with issued := none } with
  | .ok ide => ide
  | .error _ => readQueued

/-- A read of sector 5 that the controller completes with only `IDE_DRDY` set returns the sector. -/
theorem served_synced_read :
    Served true ⟨readDone, .returned 1 ::ₘ 0, [1], [1]⟩ ∧
      synced (readDone.bufs 1).flags = true ∧
        (readDone.bufs 1).data = readDone.disk (target (readDone.bufs 1)) := by
  have served : Served true ⟨readDone, .returned 1 ::ₘ 0, [1], [1]⟩ :=
    .step (.step (.step (.init _ _ [1] (by decide) (by decide) (by decide))
      (@Step.iderw true readCall 0 1 1 readQueued rfl rfl) fun _ never => nomatch never)
      (@Step.intr true _ 1 0x40 readDone rfl rfl rfl) fun _ same => by cases same; rfl)
      (@Step.wake true _ 0 1 rfl rfl) fun _ never => nomatch never
  exact ⟨served, served_synced served (Multiset.mem_cons_self (Pc.returned 1) 0)⟩

end Ide

end Xv6
