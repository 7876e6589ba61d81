import Xv6.Log.Header

/-!
# Commit and recovery as sequences of sector writes

`commit()` and `recover_from_log()` are modelled as the list of sector writes they issue, each
computing its block from the cache when issued; a crash keeps any prefix of the list.
-/

namespace Xv6

namespace Log

/-- The disk: the block stored in every sector. -/
abbrev Disk := Nat → Block

/-- Word `i` of a block, read as the `int`s of `struct logheader`. -/
def word (block : Block) (i : Nat) : Int := if h : i < 128 then block ⟨i, h⟩ else 0

/-- `read_head`'s view of the header block: `n`, then `sector[0..n)`. -/
def readHead (block : Block) : List Nat :=
  (List.range (word block 0).toNat).map fun i => (word block (i + 1)).toNat

/-- `write_head`'s update of the header block: `hb->n = n` and `hb->sector[i] = sector[i]` for
`i < n`; the later words keep their old contents. -/
def storeHead (lh : List Nat) (block : Block) : Block := fun w =>
  if w.val = 0 then lh.length
  else
    match lh[w.val - 1]? with
    | some sector => sector
    | none => block w

/-- The buffer cache over the disk: `bread` returns `cache`, and `bwrite` stores a buffer in both
the cache and the disk. -/
structure Store where
  /-- The block `bread` returns for each sector. -/
  cache : Nat → Block
  /-- The blocks on the disk. -/
  disk : Disk

/-- After a boot the cache is empty, so `bread` returns what the disk holds. -/
def Store.boot (d : Disk) : Store := ⟨d, d⟩

/-- `bwrite` of a buffer for `sector` holding `block`. -/
def Store.bwrite (st : Store) (sector : Nat) (block : Block) : Store :=
  ⟨Function.update st.cache sector block, Function.update st.disk sector block⟩

/-- One `bwrite` issued by the log layer, by what the code puts into the buffer. -/
inductive Write
  /-- `memmove(to->data, from->data, BSIZE); bwrite(to)` with `from` for sector `src` and `to`
  for sector `dst`. -/
  | copy (src dst : Nat)
  /-- The `bwrite` of `write_head()` while the in-memory header is `lh`. -/
  | head (lh : List Nat)
  deriving DecidableEq, Repr

/-- The sector a write lands on. -/
def Write.target (start : Nat) : Write → Nat
  | .copy _ dst => dst
  | .head _ => start

/-- The block a write stores, computed from the cache when it is issued. -/
def Write.block (start : Nat) (st : Store) : Write → Block
  | .copy src _ => st.cache src
  | .head lh => storeHead lh (st.cache start)

/-- Issue one write. -/
def Write.run (start : Nat) (st : Store) (w : Write) : Store :=
  st.bwrite (w.target start) (w.block start st)

/-- Issue writes in order. -/
def runWrites (start : Nat) (ws : List Write) (st : Store) : Store :=
  ws.foldl (Write.run start) st

/-- One round of the loop of `write_log()` and `install_trans()`: a copy between header sector
`sector` and log block `block`, into the log when `toLog`. -/
def logCopy (toLog : Bool) (sector block : Nat) : Write :=
  if toLog then .copy sector block else .copy block sector

@[simp] theorem logCopy_true (sector block : Nat) :
    logCopy true sector block = .copy sector block :=
  rfl

@[simp] theorem logCopy_false (sector block : Nat) :
    logCopy false sector block = .copy block sector :=
  rfl

/-- The loop `write_log()` and `install_trans()` share, from slot `tail` on: one copy between each
header sector and log block `start + tail + 1`. -/
def copyLoop (start : Nat) (toLog : Bool) : Nat → List Nat → List Write
  | _, [] => []
  | tail, sector :: sectors =>
      logCopy toLog sector (start + tail + 1) :: copyLoop start toLog (tail + 1) sectors

/-- `write_log()`'s loop: the cached block of each header sector into its log block. -/
abbrev writeLog (start : Nat) : Nat → List Nat → List Write := copyLoop start true

/-- `install_trans()`'s loop: each log block to its header sector's home location. -/
abbrev installTrans (start : Nat) : Nat → List Nat → List Write := copyLoop start false

/-- `write_head()`: the single write of the in-memory header. -/
def writeHead (lh : List Nat) : List Write := [.head lh]

/-- `commit()`: when the header is not empty, `write_log()`, `write_head()` (the commit point),
`install_trans()`, then `log.lh.n = 0` and `write_head()` again. -/
def commit (start : Nat) (lh : List Nat) : List Write :=
  if 0 < lh.length then
    writeLog start 0 lh ++ writeHead lh ++ installTrans start 0 lh ++ writeHead []
  else []

/-- `recover_from_log()`: `read_head()` through the cache, `install_trans()` of that header,
then `log.lh.n = 0` and `write_head()`. -/
def recoverFromLog (start : Nat) (st : Store) : List Write :=
  installTrans start 0 (readHead (st.cache start)) ++ writeHead []

/-! ## The header block -/

theorem word_storeHead_zero (lh : List Nat) (block : Block) :
    word (storeHead lh block) 0 = lh.length := by
  simp [word, storeHead]

theorem readHead_storeHead {lh : List Nat} (small : lh.length < 128) (block : Block) :
    readHead (storeHead lh block) = lh := by
  apply List.ext_getElem (by simp [readHead, word_storeHead_zero])
  intro i inRead inList
  have inBlock : i + 1 < 128 := by omega
  simp [readHead, word, storeHead, inBlock, inList]

/-- Writing the empty header over a header block whose count is already zero changes nothing. -/
theorem storeHead_nil {block : Block} (empty : word block 0 = 0) : storeHead [] block = block := by
  funext w
  by_cases first : w.val = 0
  · rw [show w = ⟨0, by omega⟩ from Fin.ext first]
    simpa [storeHead, word] using empty.symm
  · simp [storeHead, first]

theorem readHead_of_word {block : Block} (empty : word block 0 = 0) : readHead block = [] := by
  simp [readHead, empty]

/-! ## Runs of writes -/

@[simp] theorem runWrites_nil (start : Nat) (st : Store) : runWrites start [] st = st := rfl

@[simp] theorem runWrites_cons (start : Nat) (w : Write) (ws : List Write) (st : Store) :
    runWrites start (w :: ws) st = runWrites start ws (w.run start st) := rfl

theorem runWrites_append (start : Nat) (ws ws' : List Write) (st : Store) :
    runWrites start (ws ++ ws') st = runWrites start ws' (runWrites start ws st) :=
  List.foldl_append _ _ _ _

@[simp] theorem Write.run_cache (start : Nat) (st : Store) (w : Write) (s : Nat) :
    (w.run start st).cache s = if s = w.target start then w.block start st else st.cache s := by
  simp [Write.run, Store.bwrite, Function.update_apply]

@[simp] theorem Write.run_disk (start : Nat) (st : Store) (w : Write) (s : Nat) :
    (w.run start st).disk s = if s = w.target start then w.block start st else st.disk s := by
  simp [Write.run, Store.bwrite, Function.update_apply]

/-- A sector no write lands on keeps its cached and its disk block. -/
theorem runWrites_frame {start s : Nat} {ws : List Write} (untouched : ∀ w ∈ ws, w.target start ≠ s)
    (st : Store) :
    (runWrites start ws st).cache s = st.cache s ∧ (runWrites start ws st).disk s = st.disk s := by
  induction ws generalizing st with
  | nil => exact ⟨rfl, rfl⟩
  | cons w ws induction =>
      have here : s ≠ w.target start := fun h => untouched w (List.mem_cons_self _ _) h.symm
      obtain ⟨cache, disk⟩ := induction (fun w' mem => untouched w' (List.mem_cons_of_mem _ mem))
        (w.run start st)
      rw [runWrites_cons, cache, disk]
      simp [here]

/-- `bwrite` keeps a sector's cached block equal to its disk block. -/
theorem runWrites_coherent {start s : Nat} (ws : List Write) {st : Store}
    (coherent : st.cache s = st.disk s) :
    (runWrites start ws st).cache s = (runWrites start ws st).disk s := by
  induction ws generalizing st with
  | nil => exact coherent
  | cons w ws induction =>
      exact induction (by simp only [Write.run_cache, Write.run_disk]; split <;> simp [coherent])

/-- A copy whose source no write of the run lands on, and whose destination only that copy
lands on, leaves the source's block at the destination. -/
theorem runWrites_copy {start src dst : Nat} {ws : List Write} (member : Write.copy src dst ∈ ws)
    (only : ∀ w ∈ ws, w.target start = dst → w = .copy src dst)
    (source : ∀ w ∈ ws, w.target start ≠ src) (st : Store) :
    (runWrites start ws st).cache dst = st.cache src ∧
      (runWrites start ws st).disk dst = st.cache src := by
  induction ws generalizing st with
  | nil => cases member
  | cons w ws induction =>
      have sourceHere : src ≠ w.target start := fun h => source w (List.mem_cons_self _ _) h.symm
      by_cases later : Write.copy src dst ∈ ws
      · obtain ⟨cache, disk⟩ := induction later
          (fun w' mem => only w' (List.mem_cons_of_mem _ mem))
          (fun w' mem => source w' (List.mem_cons_of_mem _ mem)) (w.run start st)
        rw [runWrites_cons, cache, disk]
        simp [sourceHere]
      · have first : w = .copy src dst := by
          rcases List.mem_cons.mp member with h | h
          · exact h.symm
          · exact absurd h later
        subst first
        have rest : ∀ w' ∈ ws, w'.target start ≠ dst := fun w' mem hit =>
          later (only w' (List.mem_cons_of_mem _ mem) hit ▸ mem)
        obtain ⟨cache, disk⟩ := runWrites_frame rest ((Write.copy src dst).run start st)
        simp only [runWrites_cons, cache, disk, Write.run_cache, Write.run_disk]
        simp [Write.target, Write.block]

/-! ## The loops of `write_log` and `install_trans` -/

@[simp] theorem length_copyLoop (start : Nat) (toLog : Bool) (tail : Nat) (lh : List Nat) :
    (copyLoop start toLog tail lh).length = lh.length := by
  induction lh generalizing tail <;> simp [copyLoop, *]

/-- A crash inside the loop has run it over a prefix of the header. -/
theorem take_copyLoop (start : Nat) (toLog : Bool) (tail : Nat) (lh : List Nat) (j : Nat) :
    (copyLoop start toLog tail lh).take j = copyLoop start toLog tail (lh.take j) := by
  induction lh generalizing tail j with
  | nil => simp [copyLoop]
  | cons sector sectors induction => cases j <;> simp [copyLoop, induction]

theorem mem_copyLoop {start : Nat} {toLog : Bool} {tail : Nat} {lh : List Nat} {w : Write} :
    w ∈ copyLoop start toLog tail lh ↔
      ∃ i sector, lh[i]? = some sector ∧ w = logCopy toLog sector (start + tail + i + 1) := by
  induction lh generalizing tail with
  | nil => simp [copyLoop]
  | cons first sectors induction =>
      simp only [copyLoop, List.mem_cons, induction]
      have shift (i : Nat) : start + (tail + 1) + i + 1 = start + tail + (i + 1) + 1 := by omega
      constructor
      · rintro (rfl | ⟨i, sector, found, rfl⟩)
        · exact ⟨0, first, by simp, rfl⟩
        · exact ⟨i + 1, sector, by simpa using found, by rw [shift]⟩
      · rintro ⟨_ | i, sector, found, rfl⟩
        · simp only [List.getElem?_cons_zero, Option.some.injEq] at found
          exact .inl (by rw [found])
        · exact .inr ⟨i, sector, by simpa using found, by rw [shift]⟩

private theorem lt_length_of_getElem? {lh : List Nat} {i sector : Nat}
    (found : lh[i]? = some sector) : i < lh.length :=
  (List.getElem?_eq_some_iff.mp found).1

private theorem index_unique {lh : List Nat} (distinct : lh.Nodup) {i j sector : Nat}
    (first : lh[i]? = some sector) (second : lh[j]? = some sector) : i = j := by
  obtain ⟨hi, atI⟩ := List.getElem?_eq_some_iff.mp first
  obtain ⟨hj, atJ⟩ := List.getElem?_eq_some_iff.mp second
  exact (distinct.getElem_inj_iff).mp (atI.trans atJ.symm)

/-- `write_log()` writes only the log blocks of its slots. -/
theorem writeLog_frame {start tail s : Nat} {lh : List Nat}
    (outside : s ≤ start + tail ∨ start + tail + lh.length < s) (st : Store) :
    (runWrites start (writeLog start tail lh) st).cache s = st.cache s ∧
      (runWrites start (writeLog start tail lh) st).disk s = st.disk s := by
  refine runWrites_frame (fun w member hit => ?_) st
  obtain ⟨i, sector, found, rfl⟩ := mem_copyLoop.mp member
  have slot := lt_length_of_getElem? found
  simp only [logCopy_true, Write.target] at hit ⊢
  omega

/-- After `write_log()`, log block `start + tail + i + 1` holds the cached block of `sector[i]`,
provided no header sector is one of the slots. -/
theorem writeLog_slot {start tail : Nat} {lh : List Nat}
    (apart : ∀ s ∈ lh, s ≤ start + tail ∨ start + tail + lh.length < s) (st : Store)
    {i sector : Nat} (found : lh[i]? = some sector) :
    (runWrites start (writeLog start tail lh) st).cache (start + tail + i + 1) = st.cache sector ∧
      (runWrites start (writeLog start tail lh) st).disk (start + tail + i + 1) =
        st.cache sector := by
  apply runWrites_copy ((@mem_copyLoop start true tail lh _).mpr ⟨i, sector, found, rfl⟩)
  · intro w member hit
    obtain ⟨j, other, atJ, rfl⟩ := mem_copyLoop.mp member
    simp only [logCopy_true, Write.target] at hit ⊢
    obtain rfl : j = i := by omega
    rw [Option.some.inj (atJ.symm.trans found)]
  · intro w member hit
    obtain ⟨j, other, atJ, rfl⟩ := mem_copyLoop.mp member
    have slot := lt_length_of_getElem? atJ
    have here := apart sector (List.getElem?_mem found)
    simp only [logCopy_true, Write.target] at hit ⊢
    omega

/-- `install_trans()` writes only the home sectors named by the header. -/
theorem installTrans_frame {start tail s : Nat} {lh : List Nat} (absent : s ∉ lh) (st : Store) :
    (runWrites start (installTrans start tail lh) st).cache s = st.cache s ∧
      (runWrites start (installTrans start tail lh) st).disk s = st.disk s := by
  refine runWrites_frame (fun w member hit => ?_) st
  obtain ⟨i, sector, found, rfl⟩ := mem_copyLoop.mp member
  simp only [logCopy_false, Write.target] at hit ⊢
  exact absent (hit ▸ List.getElem?_mem found)

/-- After `install_trans()`, the home sector of `sector[i]` holds what the cache had for log
block `start + tail + i + 1`, provided the header is duplicate-free and names no slot. -/
theorem installTrans_home {start tail : Nat} {lh : List Nat} (distinct : lh.Nodup)
    (apart : ∀ s ∈ lh, s ≤ start + tail ∨ start + tail + lh.length < s) (st : Store)
    {i sector : Nat} (found : lh[i]? = some sector) :
    (runWrites start (installTrans start tail lh) st).cache sector =
        st.cache (start + tail + i + 1) ∧
      (runWrites start (installTrans start tail lh) st).disk sector =
        st.cache (start + tail + i + 1) := by
  apply runWrites_copy ((@mem_copyLoop start false tail lh _).mpr ⟨i, sector, found, rfl⟩)
  · intro w member hit
    obtain ⟨j, other, atJ, rfl⟩ := mem_copyLoop.mp member
    simp only [logCopy_false, Write.target] at hit ⊢
    subst hit
    rw [index_unique distinct atJ found]
  · intro w member hit
    obtain ⟨j, other, atJ, rfl⟩ := mem_copyLoop.mp member
    have slot := lt_length_of_getElem? found
    have here := apart other (List.getElem?_mem atJ)
    simp only [logCopy_false, Write.target] at hit ⊢
    omega

end Log

end Xv6
