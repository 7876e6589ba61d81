import Xv6.Log.Commit

/-!
# Crash atomicity of the write-ahead log

A run is a sequence of boot epochs, each running `recover_from_log`, committing transactions and
crashing after any prefix of its disk writes.  The invariant `Recoverable` carries from crash to
crash: redoing the on-disk header from the log region gives the committed image.
-/

namespace Xv6

namespace Log

/-- A sector outside the log region `[start, start + size)`: a home location. -/
def Home (start size s : Nat) : Prop := s < start ∨ start + size ≤ s

/-- The conditions on a header under which `commit()` runs: duplicate-free home sectors, at most
`LOGSIZE` of them and at most the `size - 1` data blocks of the log region. -/
structure Fits (LOGSIZE start size : Nat) (lh : List Nat) : Prop where
  nodup : lh.Nodup
  home : ∀ s ∈ lh, Home start size s
  le_logsize : lh.length ≤ LOGSIZE
  le_region : lh.length ≤ size - 1

/-- A transaction as `commit()` finds it: the header that `log_write` built, and the blocks that
the file-system operations left in the pinned buffers of those sectors. -/
structure Txn where
  /-- The in-memory header `log.lh`. -/
  sectors : List Nat
  /-- The cached block of each sector of the header. -/
  contents : Nat → Block

/-- What a transaction means: its sectors take their new contents. -/
def Txn.apply (txn : Txn) (d : Disk) : Disk := fun s =>
  if s ∈ txn.sectors then txn.contents s else d s

/-- Apply transactions in order. -/
def applyAll (txns : List Txn) (d : Disk) : Disk := txns.foldl (fun d txn => txn.apply d) d

/-- The file-system operations of a transaction leave its new contents in the cached buffers of
its sectors; they write nothing to disk. -/
def Store.update (st : Store) (txn : Txn) : Store :=
  { st with cache := fun s => if s ∈ txn.sectors then txn.contents s else st.cache s }

/-- One step of a boot epoch.  `commits` marks the write that is the commit point of a
transaction: the first `write_head` of its `commit()`. -/
inductive Event
  /-- File-system operations update the cached blocks of a transaction. -/
  | update (txn : Txn)
  /-- The log layer issues one `bwrite`. -/
  | write (w : Write) (commits : Option Txn)

/-- Perform one event. -/
def Event.run (start : Nat) (st : Store) : Event → Store
  | .update txn => st.update txn
  | .write w _ => w.run start st

/-- The transaction an event commits, if any. -/
def Event.commitPoint : Event → Option Txn
  | .update _ => none
  | .write _ commits => commits

/-- Perform events in order. -/
def runEvents (start : Nat) (es : List Event) (st : Store) : Store :=
  es.foldl (Event.run start) st

/-- The mark of `txn`'s commit point among the writes of its `commit()`: the `write_head` of its
header. -/
def commitMark (txn : Txn) (w : Write) : Option Txn :=
  if w = .head txn.sectors then some txn else none

/-- A transaction's file-system updates followed by its `commit()`, with the commit point
marked. -/
def commitEvents (start : Nat) (txn : Txn) : List Event :=
  .update txn :: (commit start txn.sectors).map fun w => .write w (commitMark txn w)

/-- The events of a boot epoch on disk `d`: `recover_from_log`, then the transactions. -/
def epochEvents (start : Nat) (d : Disk) (txns : List Txn) : List Event :=
  (recoverFromLog start (Store.boot d)).map (fun w => .write w none) ++
    txns.flatMap (commitEvents start)

/-- A boot epoch: the transactions it commits after recovery, and how many of its events happen
before the crash. -/
structure Epoch where
  /-- Transactions committed after recovery. -/
  txns : List Txn
  /-- The number of events before the crash. -/
  crashAfter : Nat

/-- The disk left by a sequence of crashed epochs, and the transactions whose commit point
reached the disk, in order. -/
def crashRun (start : Nat) : List Epoch → Disk → Disk × List Txn
  | [], d => (d, [])
  | epoch :: epochs, d =>
      let happened := (epochEvents start d epoch.txns).take epoch.crashAfter
      let rest := crashRun start epochs (runEvents start happened (Store.boot d)).disk
      (rest.1, happened.filterMap Event.commitPoint ++ rest.2)

/-- The disk once `recover_from_log` has run to completion. -/
def recovered (start : Nat) (d : Disk) : Disk :=
  (runWrites start (recoverFromLog start (Store.boot d)) (Store.boot d)).disk

/-! ## The invariant -/

/-- What `install_trans` of the header `lh` makes of sector `s`. -/
def redo (start : Nat) (lh : List Nat) (d : Disk) (s : Nat) : Block :=
  if s ∈ lh then d (start + lh.indexOf s + 1) else d s

/-- A disk from which recovery yields `image` at every home sector: the on-disk header is well
formed, and redoing it from the log region gives `image`. -/
structure Recoverable (LOGSIZE start size : Nat) (image d : Disk) : Prop where
  count : word (d start) 0 = (readHead (d start)).length
  fits : Fits LOGSIZE start size (readHead (d start))
  redo : ∀ s, Home start size s → redo start (readHead (d start)) d s = image s

/-- A store between transactions: the cache agrees with the disk, the on-disk header is empty,
and every home sector holds `image`. -/
structure Clean (start size : Nat) (image : Disk) (st : Store) : Prop where
  coherent : st.cache = st.disk
  empty : word (st.disk start) 0 = 0
  home : ∀ s, Home start size s → st.disk s = image s

section Invariant

variable {LOGSIZE start size : Nat}

theorem Fits.apart {lh : List Nat} (fits : Fits LOGSIZE start size lh) :
    ∀ s ∈ lh, s ≤ start + 0 ∨ start + 0 + lh.length < s := by
  intro s member
  have home := fits.home s member
  have region := fits.le_region
  have nonempty := List.length_pos_of_mem member
  unfold Home at home
  omega

theorem Fits.start_not_mem {lh : List Nat} (fits : Fits LOGSIZE start size lh) : start ∉ lh :=
  fun member => by
    have home := fits.home start member
    have region := fits.le_region
    have nonempty := List.length_pos_of_mem member
    unfold Home at home
    omega

theorem Fits.slot_not_mem {lh : List Nat} (fits : Fits LOGSIZE start size lh) {i : Nat}
    (slot : i < lh.length) : start + i + 1 ∉ lh :=
  fun member => by have := fits.apart _ member; omega

/-- With a non-empty header the region holds at least two blocks, so its first block, the header,
is not a home sector. -/
theorem Fits.home_ne_start {lh : List Nat} (fits : Fits LOGSIZE start size lh)
    (nonempty : 0 < lh.length) {s : Nat} (home : Home start size s) : s ≠ start := by
  have := fits.le_region
  unfold Home at home
  omega

theorem Fits.small {lh : List Nat} (fits : Fits LOGSIZE start size lh)
    (header : (LOGSIZE + 1) * 4 < BSIZE) : lh.length < 128 := by
  have := fits.le_logsize
  unfold BSIZE at header
  omega

/-- A home sector is never one of the first `n` log blocks, for `n` within the region. -/
theorem Home.not_slot {s n : Nat} (home : Home start size s) (region : n ≤ size - 1) :
    s ≤ start + 0 ∨ start + 0 + n < s := by
  unfold Home at home
  omega

theorem fits_nil : Fits LOGSIZE start size [] :=
  ⟨List.nodup_nil, by simp, by simp, by simp⟩

theorem recoverable_of_empty {image d : Disk} (empty : word (d start) 0 = 0)
    (home : ∀ s, Home start size s → d s = image s) :
    Recoverable LOGSIZE start size image d := by
  have header : readHead (d start) = [] := readHead_of_word empty
  refine ⟨?_, ?_, ?_⟩ <;> rw [header]
  · simpa using empty
  · exact fits_nil
  · intro s hs
    simpa [redo] using home s hs

theorem Clean.recoverable {image : Disk} {st : Store} (clean : Clean start size image st) :
    Recoverable LOGSIZE start size image st.disk :=
  recoverable_of_empty clean.empty clean.home

end Invariant

/-! ## Recovery -/

section Recovery

variable {LOGSIZE start size : Nat} {image d : Disk}

theorem recoverFromLog_boot (d : Disk) :
    recoverFromLog start (Store.boot d) =
      installTrans start 0 (readHead (d start)) ++ writeHead [] :=
  rfl

/-- A crash inside `install_trans` of recovery leaves a disk that recovers to the same image:
the install writes only home sectors named by the header, and redo reads only log blocks. -/
theorem recover_install_crash (recoverable : Recoverable LOGSIZE start size image d) (j : Nat) :
    Recoverable LOGSIZE start size image
      (runWrites start (installTrans start 0 ((readHead (d start)).take j))
        (Store.boot d)).disk := by
  obtain ⟨count, fits, redone⟩ := recoverable
  generalize named : readHead (d start) = lh at count fits redone ⊢
  have kept : ∀ s, s ∉ lh →
      (runWrites start (installTrans start 0 (lh.take j)) (Store.boot d)).disk s = d s :=
    fun s absent => (installTrans_frame (fun member => absent (List.mem_of_mem_take member)) _).2
  have header := kept start fits.start_not_mem
  refine ⟨?_, ?_, fun s home => ?_⟩ <;> rw [header, named]
  · exact count
  · exact fits
  · have before := redone s home
    unfold redo at before ⊢
    split
    · rw [kept _ (fits.slot_not_mem (List.indexOf_lt_length.mpr ‹s ∈ lh›))]
      simpa [‹s ∈ lh›] using before
    · rw [kept s ‹s ∉ lh›]
      simpa [‹s ∉ lh›] using before

/-- A completed recovery leaves the header empty and every home sector holding `image`. -/
theorem recover_done (recoverable : Recoverable LOGSIZE start size image d) :
    Clean start size image
      (runWrites start (recoverFromLog start (Store.boot d)) (Store.boot d)) := by
  obtain ⟨count, fits, redone⟩ := recoverable
  rw [recoverFromLog_boot, runWrites_append]
  generalize readHead (d start) = lh at count fits redone ⊢
  refine ⟨funext fun s => runWrites_coherent _ (runWrites_coherent _ rfl),
    by simp [writeHead, Write.target, Write.block, word_storeHead_zero], fun s home => ?_⟩
  have before := redone s home
  simp only [writeHead, runWrites_cons, runWrites_nil, Write.run_disk, Write.target, Write.block]
  by_cases atStart : s = start
  · -- Only when the region is empty is the header block a home sector; the header is then empty.
    subst atStart
    have empty : lh = [] := List.eq_nil_of_length_eq_zero (by
      have := fits.le_region; unfold Home at home; omega)
    subst empty
    rw [if_pos rfl, (installTrans_frame fits.start_not_mem (Store.boot d)).1,
      storeHead_nil (by simpa using count)]
    simpa [redo] using before
  · rw [if_neg atStart]
    unfold redo at before
    split at before
    · rename_i member
      obtain ⟨_, installed⟩ := installTrans_home fits.nodup fits.apart (Store.boot d)
        (List.getElem?_indexOf member)
      rw [installed, ← before]
      simp [Store.boot]
    · rw [(installTrans_frame ‹s ∉ lh› (Store.boot d)).2, ← before]
      rfl

/-- Any prefix of recovery's writes leaves a disk that recovers to the same image. -/
theorem recover_crash (recoverable : Recoverable LOGSIZE start size image d) (j : Nat) :
    Recoverable LOGSIZE start size image
      (runWrites start ((recoverFromLog start (Store.boot d)).take j) (Store.boot d)).disk := by
  rw [recoverFromLog_boot, List.take_append_eq_append_take, take_copyLoop, length_copyLoop]
  by_cases within : j ≤ (readHead (d start)).length
  · rw [Nat.sub_eq_zero_of_le within, List.take_zero, List.append_nil]
    exact recover_install_crash recoverable j
  · rw [List.take_of_length_le (by omega), List.take_of_length_le (by simp [writeHead]; omega),
      ← recoverFromLog_boot]
    exact (recover_done recoverable).recoverable

end Recovery

/-! ## Commit -/

section Commit

variable {LOGSIZE start size : Nat} {image : Disk} {st : Store} {txn : Txn}

theorem take_commit {lh : List Nat} (nonempty : 0 < lh.length) (j : Nat) :
    (commit start lh).take j =
      if j ≤ lh.length then writeLog start 0 (lh.take j)
      else if j ≤ 2 * lh.length + 1 then
        writeLog start 0 lh ++ writeHead lh ++ installTrans start 0 (lh.take (j - lh.length - 1))
      else commit start lh := by
  unfold commit
  rw [if_pos nonempty]
  split_ifs with early middle
  · rw [List.append_assoc, List.append_assoc, List.take_append_of_le_length (by simpa),
      take_copyLoop]
  · have tail : j - lh.length = (j - lh.length - 1) + 1 := by omega
    rw [List.append_assoc, List.append_assoc, List.take_append_eq_append_take,
      List.take_of_length_le (by simp; omega), length_copyLoop, tail, writeHead,
      List.singleton_append, List.take_succ_cons, List.take_append_of_le_length (by simp; omega),
      take_copyLoop]
    simp
  · exact List.take_of_length_le (by simp [writeHead]; omega)

theorem length_commit {lh : List Nat} (nonempty : 0 < lh.length) :
    (commit start lh).length = 2 * lh.length + 2 := by
  simp only [commit, if_pos nonempty, List.length_append, length_copyLoop, writeHead,
    List.length_singleton]
  omega

/-- The commit point lies after the log blocks: a prefix of `commit()` has committed exactly
when it is longer than `write_log()`. -/
theorem commitMarks_take (nonempty : 0 < txn.sectors.length) (j : Nat) :
    ((commit start txn.sectors).take j).filterMap (commitMark txn) =
      if j ≤ txn.sectors.length then [] else [txn] := by
  have copies : ∀ ws : List Write, (∀ w ∈ ws, ∃ src dst, w = .copy src dst) →
      ws.filterMap (commitMark txn) = [] := fun ws only =>
    List.filterMap_eq_nil_iff.mpr fun w member => by
      obtain ⟨src, dst, rfl⟩ := only w member
      simp [commitMark]
  have loopCopies (toLog : Bool) (lh : List Nat) :
      ∀ w ∈ copyLoop start toLog 0 lh, ∃ src dst, w = .copy src dst := fun w member => by
    obtain ⟨i, sector, _, rfl⟩ := mem_copyLoop.mp member
    cases toLog <;> exact ⟨_, _, rfl⟩
  have emptied : commitMark txn (.head []) = none := by
    simp [commitMark, List.ne_nil_of_length_pos nonempty, eq_comm]
  rw [take_commit nonempty]
  split_ifs
  · exact copies _ (loopCopies true _)
  · simp [List.filterMap_append, copies _ (loopCopies true _), copies _ (loopCopies false _),
      writeHead, commitMark]
  · simp [commit, nonempty, List.filterMap_append, copies _ (loopCopies true _),
      copies _ (loopCopies false _), writeHead, commitMark, emptied,
      List.ne_nil_of_length_pos nonempty]

/-- A crash inside `write_log()` leaves the old transaction state: the header on disk is still
empty and no home sector has been written. -/
theorem writeLog_crash (clean : Clean start size image st)
    (fits : Fits LOGSIZE start size txn.sectors) (j : Nat) :
    Recoverable LOGSIZE start size image
      (runWrites start (writeLog start 0 (txn.sectors.take j)) (st.update txn)).disk := by
  have region : (txn.sectors.take j).length ≤ size - 1 := by
    have := fits.le_region
    simp only [List.length_take]
    omega
  have kept : ∀ s, s ≤ start + 0 ∨ start + 0 + (txn.sectors.take j).length < s →
      (runWrites start (writeLog start 0 (txn.sectors.take j)) (st.update txn)).disk s =
        st.disk s :=
    fun s outside => (writeLog_frame outside _).2
  exact recoverable_of_empty (by rw [kept start (.inl (by omega))]; exact clean.empty)
    (fun s home => by rw [kept s (home.not_slot region)]; exact clean.home s home)

/-- The store at the commit point: the log blocks and then the header have been written. -/
def logged (start : Nat) (st : Store) (txn : Txn) : Store :=
  runWrites start (writeLog start 0 txn.sectors ++ writeHead txn.sectors) (st.update txn)

theorem logged_header (clean : Clean start size image st)
    (fits : Fits LOGSIZE start size txn.sectors) :
    (logged start st txn).disk start = storeHead txn.sectors (st.disk start) := by
  have cached := (@writeLog_frame start 0 start txn.sectors (.inl (by omega)) (st.update txn)).1
  simp only [logged, runWrites_append, writeHead, runWrites_cons, runWrites_nil, Write.run_disk,
    Write.target, Write.block, if_pos, cached]
  simp [Store.update, fits.start_not_mem, clean.coherent]

theorem logged_slot (fits : Fits LOGSIZE start size txn.sectors) {i s : Nat}
    (found : txn.sectors[i]? = some s) :
    (logged start st txn).cache (start + i + 1) = txn.contents s ∧
      (logged start st txn).disk (start + i + 1) = txn.contents s := by
  obtain ⟨cache, disk⟩ := writeLog_slot fits.apart (st.update txn) found
  simp only [Nat.add_zero] at cache disk
  have notHeader : start + i + 1 ≠ start := by omega
  simp only [logged, runWrites_append, writeHead, runWrites_cons, runWrites_nil, Write.run_disk,
    Write.run_cache, Write.target, if_neg notHeader, cache, disk]
  simp [Store.update, List.getElem?_mem found]

theorem logged_other {s : Nat} (notHeader : s ≠ start)
    (notSlot : s ≤ start + 0 ∨ start + 0 + txn.sectors.length < s) :
    (logged start st txn).cache s = (st.update txn).cache s ∧
      (logged start st txn).disk s = st.disk s := by
  obtain ⟨cache, disk⟩ := writeLog_frame notSlot (st.update txn)
  simp only [logged, runWrites_append, writeHead, runWrites_cons, runWrites_nil, Write.run_disk,
    Write.run_cache, Write.target, if_neg notHeader, cache, disk]
  simp [Store.update]

/-- After the commit point, a crash inside `install_trans()` leaves a disk that recovers to the
transaction applied, however many of its home sectors were installed. -/
theorem install_crash (clean : Clean start size image st)
    (fits : Fits LOGSIZE start size txn.sectors) (header : (LOGSIZE + 1) * 4 < BSIZE)
    (nonempty : 0 < txn.sectors.length) (m : Nat) :
    Recoverable LOGSIZE start size (txn.apply image)
      (runWrites start (installTrans start 0 (txn.sectors.take m)) (logged start st txn)).disk := by
  have kept : ∀ s, s ∉ txn.sectors →
      (runWrites start (installTrans start 0 (txn.sectors.take m)) (logged start st txn)).disk s =
        (logged start st txn).disk s :=
    fun s absent => (installTrans_frame (fun member => absent (List.mem_of_mem_take member)) _).2
  have headerBlock := (kept start fits.start_not_mem).trans (logged_header clean fits)
  refine ⟨?_, ?_, fun s home => ?_⟩ <;>
    rw [headerBlock, readHead_storeHead (fits.small header)]
  · exact word_storeHead_zero _ _
  · exact fits
  · unfold redo Txn.apply
    split
    · rename_i member
      rw [kept _ (fits.slot_not_mem (List.indexOf_lt_length.mpr member))]
      exact (logged_slot fits (List.getElem?_indexOf member)).2
    · rename_i absent
      rw [kept s absent,
        (logged_other (fits.home_ne_start nonempty home) (home.not_slot fits.le_region)).2,
        clean.home s home]

/-- A completed `commit()` leaves a clean store that holds the transaction applied. -/
theorem commit_clean (clean : Clean start size image st)
    (fits : Fits LOGSIZE start size txn.sectors) (nonempty : 0 < txn.sectors.length) :
    Clean start size (txn.apply image)
      (runWrites start (commit start txn.sectors) (st.update txn)) := by
  have whole : runWrites start (commit start txn.sectors) (st.update txn) =
      runWrites start (writeHead [])
        (runWrites start (installTrans start 0 txn.sectors) (logged start st txn)) := by
    rw [commit, if_pos nonempty, runWrites_append, runWrites_append, logged]
  have installed : ∀ s ∈ txn.sectors,
      (runWrites start (installTrans start 0 txn.sectors) (logged start st txn)).cache s =
          txn.contents s ∧
        (runWrites start (installTrans start 0 txn.sectors) (logged start st txn)).disk s =
          txn.contents s := fun s member => by
    obtain ⟨cache, disk⟩ := installTrans_home fits.nodup fits.apart (logged start st txn)
      (List.getElem?_indexOf member)
    have slot : (logged start st txn).cache (start + txn.sectors.indexOf s + 1) = txn.contents s ∧
        _ := logged_slot fits (List.getElem?_indexOf member)
    simp only [Nat.add_zero] at cache disk
    exact ⟨cache.trans slot.1, disk.trans slot.1⟩
  refine ⟨funext fun s => ?_, ?_, fun s home => ?_⟩
  · by_cases member : s ∈ txn.sectors
    · have notHeader : s ≠ start := fun h => fits.start_not_mem (h ▸ member)
      rw [whole]
      simp [writeHead, Write.target, notHeader, (installed s member).1, (installed s member).2]
    · exact runWrites_coherent _ (by simp [Store.update, member, clean.coherent])
  · rw [whole]
    simp [writeHead, Write.target, Write.block, word_storeHead_zero]
  · have notHeader := fits.home_ne_start nonempty home
    rw [whole]
    simp only [writeHead, runWrites_cons, runWrites_nil, Write.run_disk, Write.target,
      if_neg notHeader, Txn.apply]
    split
    · exact (installed s ‹_›).2
    · rw [(installTrans_frame ‹_› _).2,
        (logged_other notHeader (home.not_slot fits.le_region)).2, clean.home s home]

theorem runEvents_writes (ws : List Write) (mark : Write → Option Txn) (st : Store) :
    runEvents start (ws.map fun w => .write w (mark w)) st = runWrites start ws st := by
  induction ws generalizing st with
  | nil => rfl
  | cons w ws induction => exact induction _

theorem commitPoints_writes (ws : List Write) (mark : Write → Option Txn) :
    (ws.map fun w => Event.write w (mark w)).filterMap Event.commitPoint = ws.filterMap mark := by
  rw [List.filterMap_map]
  rfl

theorem update_nil (st : Store) {txn : Txn} (empty : txn.sectors = []) : st.update txn = st := by
  simp [Store.update, empty]

/-- Any prefix of a transaction's events leaves a disk that recovers to the image with the
transaction applied exactly when its commit point is in the prefix. -/
theorem commit_crash (clean : Clean start size image st)
    (fits : Fits LOGSIZE start size txn.sectors) (header : (LOGSIZE + 1) * 4 < BSIZE) (j : Nat) :
    Recoverable LOGSIZE start size
      (applyAll (((commitEvents start txn).take j).filterMap Event.commitPoint) image)
      (runEvents start ((commitEvents start txn).take j) st).disk := by
  cases j with
  | zero => exact clean.recoverable
  | succ j =>
      rw [commitEvents, List.take_succ_cons, ← List.map_take, List.filterMap_cons]
      simp only [Event.commitPoint, runEvents, List.foldl_cons, Event.run]
      rw [← runEvents, runEvents_writes, commitPoints_writes]
      by_cases nonempty : 0 < txn.sectors.length
      · rw [commitMarks_take nonempty, take_commit nonempty]
        split_ifs
        · exact writeLog_crash clean fits j
        · rw [runWrites_append, ← logged]
          exact install_crash clean fits header nonempty _
        · exact (commit_clean clean fits nonempty).recoverable
      · have empty := List.eq_nil_of_length_eq_zero (Nat.eq_zero_of_not_pos nonempty)
        simp only [commit, empty, List.length_nil, lt_irrefl, if_false, List.take_nil,
          List.filterMap_nil, runWrites_nil, update_nil st empty]
        exact clean.recoverable

/-- A completed transaction leaves a clean store holding it applied. -/
theorem commit_complete (clean : Clean start size image st)
    (fits : Fits LOGSIZE start size txn.sectors) :
    Clean start size (applyAll ((commitEvents start txn).filterMap Event.commitPoint) image)
      (runEvents start (commitEvents start txn) st) := by
  rw [commitEvents, List.filterMap_cons]
  simp only [Event.commitPoint, runEvents, List.foldl_cons, Event.run]
  rw [← runEvents, runEvents_writes, commitPoints_writes]
  by_cases nonempty : 0 < txn.sectors.length
  · have marks : ((commit start txn.sectors).take (commit start txn.sectors).length).filterMap
        (commitMark txn) = _ := commitMarks_take nonempty _
    rw [List.take_length, if_neg (by rw [length_commit nonempty]; omega)] at marks
    rw [marks]
    exact commit_clean clean fits nonempty
  · have empty := List.eq_nil_of_length_eq_zero (Nat.eq_zero_of_not_pos nonempty)
    simpa [commit, empty, update_nil st empty, applyAll] using clean

end Commit

/-! ## Runs of crashed epochs -/

section Run

variable {LOGSIZE start size : Nat}

@[simp] theorem applyAll_nil (d : Disk) : applyAll [] d = d := rfl

@[simp] theorem runEvents_nil (st : Store) : runEvents start [] st = st := rfl

theorem applyAll_append (first second : List Txn) (d : Disk) :
    applyAll (first ++ second) d = applyAll second (applyAll first d) :=
  List.foldl_append _ _ _ _

theorem runEvents_append (es es' : List Event) (st : Store) :
    runEvents start (es ++ es') st = runEvents start es' (runEvents start es st) :=
  List.foldl_append _ _ _ _

/-- Any prefix of the commits of an epoch, from a clean store, leaves a disk that recovers to
the transactions whose commit point it contains. -/
theorem commits_crash {image : Disk} {st : Store} (clean : Clean start size image st)
    (header : (LOGSIZE + 1) * 4 < BSIZE) (txns : List Txn)
    (valid : ∀ txn ∈ txns, Fits LOGSIZE start size txn.sectors) (k : Nat) :
    Recoverable LOGSIZE start size
      (applyAll (((txns.flatMap (commitEvents start)).take k).filterMap Event.commitPoint) image)
      (runEvents start ((txns.flatMap (commitEvents start)).take k) st).disk := by
  induction txns generalizing image st k with
  | nil => simpa [applyAll, runEvents] using clean.recoverable
  | cons txn txns induction =>
      have fits := valid txn (List.mem_cons_self _ _)
      rw [List.flatMap_cons, List.take_append_eq_append_take, List.filterMap_append,
        applyAll_append, runEvents_append]
      by_cases within : k ≤ (commitEvents start txn).length
      · rw [Nat.sub_eq_zero_of_le within, List.take_zero, List.filterMap_nil, applyAll_nil,
          runEvents_nil]
        exact commit_crash clean fits header k
      · rw [List.take_of_length_le (show (commitEvents start txn).length ≤ k by omega)]
        exact induction (commit_complete clean fits)
          (fun other member => valid other (List.mem_cons_of_mem _ member)) _

/-- A boot epoch that crashes after any prefix of its events leaves a disk that recovers to the
transactions whose commit point it reached. -/
theorem epoch_crash {image d : Disk} (recoverable : Recoverable LOGSIZE start size image d)
    (header : (LOGSIZE + 1) * 4 < BSIZE) (txns : List Txn)
    (valid : ∀ txn ∈ txns, Fits LOGSIZE start size txn.sectors) (k : Nat) :
    Recoverable LOGSIZE start size
      (applyAll (((epochEvents start d txns).take k).filterMap Event.commitPoint) image)
      (runEvents start ((epochEvents start d txns).take k) (Store.boot d)).disk := by
  have silent : ∀ ws : List Write, ws.filterMap (fun _ => (none : Option Txn)) = [] :=
    fun ws => List.filterMap_eq_nil_iff.mpr fun _ _ => rfl
  rw [epochEvents, List.take_append_eq_append_take, List.filterMap_append, applyAll_append,
    runEvents_append, ← List.map_take, commitPoints_writes, runEvents_writes, List.length_map,
    silent, applyAll_nil]
  by_cases within : k ≤ (recoverFromLog start (Store.boot d)).length
  · rw [Nat.sub_eq_zero_of_le within, List.take_zero, List.filterMap_nil, applyAll_nil,
      runEvents_nil]
    exact recover_crash recoverable k
  · rw [List.take_of_length_le (show (recoverFromLog start (Store.boot d)).length ≤ k by omega)]
    exact commits_crash (recover_done recoverable) header txns valid _

theorem crashRun_recoverable {image d : Disk} (recoverable : Recoverable LOGSIZE start size image d)
    (header : (LOGSIZE + 1) * 4 < BSIZE) (epochs : List Epoch)
    (valid : ∀ epoch ∈ epochs, ∀ txn ∈ epoch.txns, Fits LOGSIZE start size txn.sectors) :
    Recoverable LOGSIZE start size (applyAll (crashRun start epochs d).2 image)
      (crashRun start epochs d).1 := by
  induction epochs generalizing image d with
  | nil => exact recoverable
  | cons epoch epochs induction =>
      simp only [crashRun, applyAll_append]
      exact induction
        (epoch_crash recoverable header epoch.txns (valid epoch (List.mem_cons_self _ _)) _)
        (fun other member => valid other (List.mem_cons_of_mem _ member))

/-- After any boots and crashes, recovery leaves exactly the committed transactions on disk. -/
theorem recover_after_crashes (header : (LOGSIZE + 1) * 4 < BSIZE) (epochs : List Epoch)
    (d : Disk) (empty : word (d start) 0 = 0)
    (valid : ∀ epoch ∈ epochs, ∀ txn ∈ epoch.txns, Fits LOGSIZE start size txn.sectors) :
    word (recovered start (crashRun start epochs d).1 start) 0 = 0 ∧
      ∀ s, Home start size s →
        recovered start (crashRun start epochs d).1 s =
          applyAll (crashRun start epochs d).2 d s := by
  have initial : Recoverable LOGSIZE start size d d := recoverable_of_empty empty fun _ _ => rfl
  have final := recover_done (crashRun_recoverable initial header epochs valid)
  exact ⟨final.empty, final.home⟩

/-- A boot epoch that commits sectors 40 and 41 of a zeroed disk and crashes after installing the
first of them. -/
private def sampleEpochs : List Epoch := [⟨[⟨[40, 41], fun _ _ => 7⟩], 6⟩]

theorem recover_after_crashes_sample :
    (30 + 1) * 4 < BSIZE ∧ word ((fun _ _ => 0 : Disk) 2) 0 = 0 ∧
      (∀ epoch ∈ sampleEpochs, ∀ txn ∈ epoch.txns, Fits 30 2 31 txn.sectors) ∧
      (word (recovered 2 (crashRun 2 sampleEpochs fun _ _ => 0).1 2) 0 = 0 ∧
        ∀ s, Home 2 31 s → recovered 2 (crashRun 2 sampleEpochs fun _ _ => 0).1 s =
          applyAll (crashRun 2 sampleEpochs fun _ _ => 0).2 (fun _ _ => 0) s) := by
  have header : (30 + 1) * 4 < BSIZE := by decide
  have empty : word ((fun _ _ => 0 : Disk) 2) 0 = 0 := by simp [word]
  have valid : ∀ epoch ∈ sampleEpochs, ∀ txn ∈ epoch.txns, Fits 30 2 31 txn.sectors := by
    simp only [sampleEpochs, List.mem_singleton, forall_eq]
    exact ⟨by decide, by simp [Home], by decide, by decide⟩
  exact ⟨header, empty, valid, recover_after_crashes header sampleEpochs _ empty valid⟩

end Run

end Log

end Xv6
