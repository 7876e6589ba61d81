import Xv6.Boot.Readseg

/-!
# Loading the kernel

`bootmain` reads the image's first page to `0x10000`, checks the ELF magic, and loads each
segment with `readseg` and `stosb`.  Since `readseg` reads whole sectors, a later segment's first
sector can land on an earlier segment's zeroed tail; when the sectors keep apart every segment is
loaded intact, and on any disk `bootmain` reads nothing but the image.
-/

namespace Xv6

namespace Boot

/-- `ELF_MAGIC`, `"\x7FELF"` in little endian. -/
def ELF_MAGIC : Nat := 0x464C457F

/-- The little-endian `uint` at `a`. -/
def readUint (mem : Bytes) (a : Nat) : Nat :=
  (mem a).toNat + 0x100 * (mem (a + 1)).toNat + 0x10000 * (mem (a + 2)).toNat +
    0x1000000 * (mem (a + 3)).toNat

/-- The little-endian `ushort` at `a`. -/
def readUshort (mem : Bytes) (a : Nat) : Nat := (mem a).toNat + 0x100 * (mem (a + 1)).toNat

/-- The fields of `struct proghdr` that `bootmain` reads. -/
structure Proghdr where
  /-- `off`: where the segment's bytes start in the image. -/
  off : Nat
  /-- `paddr`: where the segment goes in memory. -/
  paddr : Nat
  /-- `filesz`: how many of its bytes the image holds. -/
  filesz : Nat
  /-- `memsz`: how many bytes it takes in memory. -/
  memsz : Nat
  deriving DecidableEq, Repr

/-- The program header at `ph`: `off` at 4, `paddr` at 12, `filesz` at 16 and `memsz` at 20. -/
def Proghdr.read (mem : Bytes) (ph : Nat) : Proghdr :=
  ⟨readUint mem (ph + 4), readUint mem (ph + 12), readUint mem (ph + 16), readUint mem (ph + 20)⟩

/-- `stosb(addr, data, cnt)`: store `cnt` copies of `data` from `addr` on. -/
def stosb (addr : Nat) (data : UInt8) (cnt : Nat) (mem : Bytes) : Bytes :=
  fun a => if a < 2 ^ 32 ∧ distance addr a < cnt then data else mem a

/-- The body of the loading loop for the header at `ph`: `pa = ph->paddr`,
`readseg(pa, ph->filesz, ph->off)`, then `stosb(pa + ph->filesz, 0, ph->memsz - ph->filesz)` if
`ph->memsz > ph->filesz`, with `memsz` and `filesz` read again from memory as `readseg` left it. -/
def loadSegment (disk : Bytes) (fuel ph : Nat) (mem : Bytes) : Option Bytes :=
  let pa := (Proghdr.read mem ph).paddr
  (readseg disk fuel pa (Proghdr.read mem ph).filesz (Proghdr.read mem ph).off mem).map fun read =>
    let hdr := Proghdr.read read.2 ph
    if hdr.memsz > hdr.filesz then
      stosb ((pa + hdr.filesz) % 2 ^ 32) 0 (hdr.memsz - hdr.filesz) read.2
    else read.2

/-- `for(; ph < eph; ph++)`. -/
def loadLoop (disk : Bytes) : (fuel ph eph : Nat) → Bytes → Option Bytes
  | 0, _, _, _ => none
  | fuel + 1, ph, eph, mem =>
      if ph < eph then
        (loadSegment disk fuel ph mem).bind (loadLoop disk fuel ((ph + 32) % 2 ^ 32) eph)
      else some mem

/-- `bootmain` up to its call of the entry point: the entry point (`none` when the magic is wrong
and it returns to `bootasm.S`) and memory at that moment. -/
def bootmain (disk : Bytes) (fuel : Nat) (mem : Bytes) : Option (Option Nat × Bytes) :=
  let elf := 0x10000
  (readseg disk fuel elf 4096 0 mem).bind fun read =>
    if readUint read.2 elf ≠ ELF_MAGIC then some (none, read.2)
    else
      let ph := (elf + readUint read.2 (elf + 28)) % 2 ^ 32
      let eph := (ph + 32 * readUshort read.2 (elf + 44)) % 2 ^ 32
      (loadLoop disk fuel ph eph read.2).map fun mem => (some (readUint mem (elf + 24)), mem)

/-! ## The loader's contract -/

/-- Byte `i` of the kernel image, which starts at sector 1. -/
def image (disk : Bytes) (i : Nat) : UInt8 := disk (SECTSIZE + i)

/-- A disk with `block` in sector 0, the boot sector, and the kernel image from sector 1 on. -/
def bootDisk (block : List UInt8) (kernel : Bytes) : Bytes :=
  fun b => if b < SECTSIZE then block.getD b 0 else kernel (b - SECTSIZE)

@[simp] theorem image_bootDisk (block : List UInt8) (kernel : Bytes) :
    image (bootDisk block kernel) = kernel := by
  funext i
  simp [image, bootDisk, SECTSIZE]

/-- The `n` program headers from `ph` on. -/
def headerTable (mem : Bytes) (ph n : Nat) : List Proghdr :=
  (List.range n).map fun k => Proghdr.read mem (ph + 32 * k)

/-- A segment with `filesz <= memsz`, clear of the scratch page `[0x10000, 0x11000)`, that does
not wrap around `2^32`. -/
def Proghdr.Sound (ph : Proghdr) : Prop :=
  ph.filesz ≤ ph.memsz ∧ (ph.paddr + ph.memsz ≤ 0x10000 ∨ 0x11000 ≤ ph.paddr) ∧
    ph.off % SECTSIZE ≤ ph.paddr ∧ ph.paddr + ph.memsz + 511 < 2 ^ 32 ∧ ph.off < 2 ^ 32

instance : DecidablePred Proghdr.Sound := fun _ => inferInstanceAs (Decidable (_ ∧ _))

/-- An ELF image whose program headers are `phs` and lie in its first page, and describe sound
segments in increasing order of `paddr` that do not overlap. -/
def LoadableImage (disk : Bytes) (phs : List Proghdr) : Prop :=
  readUint (image disk) 0 = ELF_MAGIC ∧
    readUint (image disk) 28 + 32 * phs.length ≤ 4096 ∧
    headerTable (image disk) (readUint (image disk) 28) (readUshort (image disk) 44) = phs ∧
    phs.Pairwise (fun p q => p.paddr + p.memsz ≤ q.paddr) ∧ ∀ ph ∈ phs, ph.Sound

instance (disk : Bytes) (phs : List Proghdr) : Decidable (LoadableImage disk phs) :=
  inferInstanceAs (Decidable (_ ∧ _))

/-- Segment `ph` of the image sits in memory: its file bytes from `paddr` on, then zeros up to
`memsz`. -/
def Loaded (disk mem : Bytes) (ph : Proghdr) : Prop :=
  (∀ i < ph.filesz, mem (ph.paddr + i) = image disk (ph.off + i)) ∧
    ∀ i < ph.memsz, ph.filesz ≤ i → mem (ph.paddr + i) = 0

/-! ## Two segments in a row -/

/-- `v` as `n` little-endian bytes from `a` on, over `bytes`. -/
def putLE (a n v : Nat) (bytes : Bytes) : Bytes :=
  fun i => if a ≤ i ∧ i < a + n then UInt8.ofNat (v / 256 ^ (i - a)) else bytes i

/-- A program header written at `a`. -/
def putProghdr (a : Nat) (ph : Proghdr) (bytes : Bytes) : Bytes :=
  putLE (a + 4) 4 ph.off <| putLE (a + 12) 4 ph.paddr <| putLE (a + 16) 4 ph.filesz <|
    putLE (a + 20) 4 ph.memsz bytes

/-- A segment of 16 file bytes and a zeroed tail of 16 more, at `0x100000`. -/
def tailedSegment : Proghdr := ⟨0x1000, 0x100000, 0x10, 0x20⟩

/-- A second segment right after it, whose bytes start 16 bytes into a sector of the image. -/
def nextSegment : Proghdr := ⟨0x2010, 0x100020, 0x10, 0x10⟩

/-- A second segment a sector further on, whose bytes start a sector of the image. -/
def alignedSegment : Proghdr := ⟨0x2000, 0x100200, 0x10, 0x10⟩

/-- An image with `tailedSegment` and a second segment, its headers at offset 52, and `0xFF`
everywhere else. -/
def twoSegmentDisk (second : Proghdr) : Bytes :=
  fun b => if b < SECTSIZE then 0 else
    (putLE 0 4 ELF_MAGIC <| putLE 24 4 0x10000c <| putLE 28 4 52 <| putLE 44 2 2 <|
      putProghdr 52 tailedSegment <| putProghdr 84 second fun _ => 0xFF) (b - SECTSIZE)

/-- `bootmain` loads the image of two adjacent segments, and the second one's first sector puts
image bytes over the first one's zeroed tail. -/
theorem zeroTail_overwritten :
    LoadableImage (twoSegmentDisk nextSegment) [tailedSegment, nextSegment] ∧
      ∃ entry mem',
        bootmain (twoSegmentDisk nextSegment) 20 (fun _ => 0) = some (some entry, mem') ∧
        ¬∀ ph ∈ [tailedSegment, nextSegment], Loaded (twoSegmentDisk nextSegment) mem' ph := by
  refine ⟨by decide, ?_⟩
  have ran : (bootmain (twoSegmentDisk nextSegment) 20 (fun _ => 0)).map
      (fun r => (r.1, r.2 0x100010)) = some (some 0x10000c, 0xFF) := by decide
  match h : bootmain (twoSegmentDisk nextSegment) 20 (fun _ => 0), ran with
  | some (some entry, mem'), ran =>
      refine ⟨entry, mem', rfl, fun loaded => ?_⟩
      have zero : mem' 0x100010 = 0 :=
        (loaded tailedSegment (List.mem_cons_self _ _)).2 0x10 (by decide) (by decide)
      simp only [Option.map_some', Option.some.injEq, Prod.mk.injEq] at ran
      exact absurd (zero.symm.trans ran.2) (by decide)
  | some (none, _), ran => simp at ran
  | none, ran => simp at ran

/-! ## When the sectors keep apart -/

/-- The first address `readseg` stores to for a segment: `paddr` rounded down by `off mod 512`. -/
def Proghdr.lo (ph : Proghdr) : Nat := ph.paddr - ph.off % SECTSIZE

/-- The end of the whole sectors `readseg` stores for a segment. -/
def Proghdr.hi (ph : Proghdr) : Nat := ph.lo + SECTSIZE * sectorsOf ph.filesz ph.off

/-- The round for `ph` stores nothing at `a`: `a` is outside its sectors and its range. -/
def Proghdr.Spares (ph : Proghdr) (a : Nat) : Prop :=
  ¬(ph.lo ≤ a ∧ a < ph.hi) ∧ ¬(ph.paddr ≤ a ∧ a < ph.paddr + ph.memsz)

/-- The sectors read for each segment miss the earlier segments and the scratch page. -/
def SectorsApart (phs : List Proghdr) : Prop :=
  phs.Pairwise (fun p q => p.paddr + p.memsz ≤ q.lo) ∧ ∀ ph ∈ phs, ph.hi ≤ 0x10000 ∨ 0x11000 ≤ ph.lo

instance (phs : List Proghdr) : Decidable (SectorsApart phs) := inferInstanceAs (Decidable (_ ∧ _))

/-- Away from the top of memory, `stosb` stores `data` at `[addr, addr + cnt)`. -/
theorem stosb_apply {addr cnt : Nat} (noWrap : addr + cnt ≤ 2 ^ 32) (data : UInt8) (mem : Bytes)
    (a : Nat) : stosb addr data cnt mem a = if addr ≤ a ∧ a < addr + cnt then data else mem a := by
  simp only [stosb]
  by_cases inside : addr ≤ a ∧ a < addr + cnt
  · rw [if_pos (by simp only [distance]; omega), if_pos inside]
  · rw [if_neg (by simp only [distance]; omega), if_neg inside]

theorem readUint_congr {m m' : Bytes} {a a' : Nat} (same : ∀ j < 4, m (a + j) = m' (a' + j)) :
    readUint m a = readUint m' a' := by
  have first := same 0 (by decide)
  simp only [Nat.add_zero] at first
  simp only [readUint, first, same 1 (by decide), same 2 (by decide), same 3 (by decide)]

theorem readUshort_congr {m m' : Bytes} {a a' : Nat} (same : ∀ j < 2, m (a + j) = m' (a' + j)) :
    readUshort m a = readUshort m' a' := by
  have first := same 0 (by decide)
  simp only [Nat.add_zero] at first
  simp only [readUshort, first, same 1 (by decide)]

theorem Proghdr.read_congr {m m' : Bytes} {ph ph' : Nat}
    (same : ∀ j < 32, m (ph + j) = m' (ph' + j)) : Proghdr.read m ph = Proghdr.read m' ph' := by
  simp only [Proghdr.read]
  congr 1 <;> apply readUint_congr <;> intro j short <;>
    simpa only [Nat.add_assoc] using same _ (by omega)

theorem headerTable_congr {m m' : Bytes} {p p' n : Nat}
    (same : ∀ j < 32 * n, m (p + j) = m' (p' + j)) : headerTable m p n = headerTable m' p' n := by
  refine List.map_congr_left fun k member => Proghdr.read_congr fun j short => ?_
  have := List.mem_range.mp member
  simpa only [Nat.add_assoc] using same (32 * k + j) (by omega)

theorem headerTable_succ (m : Bytes) (p n : Nat) :
    headerTable m p (n + 1) = Proghdr.read m p :: headerTable m (p + 32) n := by
  rw [headerTable, List.range_succ_eq_map, List.map_cons, List.map_map, Nat.mul_zero, Nat.add_zero,
    headerTable]
  congr 1
  refine List.map_congr_left fun k _ => ?_
  simp only [Function.comp_apply]
  congr 1
  omega

@[simp] theorem length_headerTable (m : Bytes) (p n : Nat) : (headerTable m p n).length = n := by
  simp [headerTable]

/-- A loaded segment stays loaded while its bytes do. -/
theorem Loaded.frame {disk m m' : Bytes} {ph : Proghdr} (loaded : Loaded disk m ph)
    (sized : ph.filesz ≤ ph.memsz)
    (same : ∀ a, ph.paddr ≤ a → a < ph.paddr + ph.memsz → m' a = m a) : Loaded disk m' ph :=
  ⟨fun i short => (same _ (by omega) (by omega)).trans (loaded.1 i short),
    fun i short above => (same _ (by omega) (by omega)).trans (loaded.2 i short above)⟩

/-- A round spares every address below the start of its sectors. -/
theorem Proghdr.spares_below {ph : Proghdr} {a : Nat} (below : a < ph.lo) : ph.Spares a := by
  have : ph.lo ≤ ph.paddr := Nat.sub_le _ _
  exact ⟨by omega, by omega⟩

/-- The round for a sound segment whose sectors miss the scratch page spares that page. -/
theorem Proghdr.spares_scratch {ph : Proghdr} (sound : ph.Sound)
    (clear : ph.hi ≤ 0x10000 ∨ 0x11000 ≤ ph.lo) {a : Nat} (above : 0x10000 ≤ a)
    (under : a < 0x11000) : ph.Spares a :=
  ⟨by omega, by have := sound.2.1; omega⟩

/-- One round of the loop loads a sound segment whose sectors miss its header, and stores nowhere
it spares. -/
theorem loadSegment_loads (disk : Bytes) {fuel ph : Nat} {mem : Bytes} {q : Proghdr}
    (header : Proghdr.read mem ph = q) (sound : q.Sound) (clear : q.hi ≤ ph ∨ ph + 32 ≤ q.lo)
    (enough : sectorsOf q.filesz q.off < fuel) :
    ∃ mem', loadSegment disk fuel ph mem = some mem' ∧ Loaded disk mem' q ∧
      ∀ a, q.Spares a → mem' a = mem a := by
  obtain ⟨sized, -, below, fits, uint⟩ := sound
  obtain ⟨calls, read, ran, -, -, copied, outside⟩ :=
    readseg_reads disk mem below (by omega) uint enough
  have reread : Proghdr.read read ph = q := (Proghdr.read_congr fun j _ => outside _ (by
    simp only [Proghdr.hi, Proghdr.lo] at clear; omega)).trans header
  have file : ∀ i < q.filesz, read (q.paddr + i) = image disk (q.off + i) := fun i short => by
    rw [copied i short, image, Nat.add_assoc]
  by_cases tail : q.memsz > q.filesz
  · have start : (q.paddr + q.filesz) % 2 ^ 32 = q.paddr + q.filesz :=
      Nat.mod_eq_of_lt (by omega)
    have zeroed := stosb_apply (by omega : q.paddr + q.filesz + (q.memsz - q.filesz) ≤ 2 ^ 32)
      0 read
    refine ⟨stosb (q.paddr + q.filesz) 0 (q.memsz - q.filesz) read,
      by simp only [loadSegment, header, ran, Option.map_some', reread, if_pos tail, start],
      ⟨fun i short => ?_, fun i short above => ?_⟩, fun a spared => ?_⟩
    · rw [zeroed, if_neg (by omega), file i short]
    · rw [zeroed, if_pos (by omega)]
    · rw [zeroed, if_neg (by have := spared.2; omega),
        outside a (by simpa only [Proghdr.hi, Proghdr.lo] using spared.1)]
  · refine ⟨read, by simp only [loadSegment, header, ran, Option.map_some', reread, if_neg tail],
      ⟨file, fun i short above => absurd (Nat.lt_of_lt_of_le short (by omega)) (Nat.lt_irrefl i)⟩,
      fun a spared => outside a (by simpa only [Proghdr.hi, Proghdr.lo] using spared.1)⟩

/-- The loop loads each header left in the table at `ph` and stores nowhere their rounds spare. -/
theorem loadLoop_loads (disk : Bytes) (rest : List Proghdr) :
    ∀ {fuel ph : Nat} {mem : Bytes},
      headerTable mem ph rest.length = rest → 0x10000 ≤ ph → ph + 32 * rest.length ≤ 0x11000 →
      (∀ q ∈ rest, q.Sound ∧ (q.hi ≤ 0x10000 ∨ 0x11000 ≤ q.lo) ∧
        rest.length + sectorsOf q.filesz q.off < fuel) →
      rest.Pairwise (fun p q => p.paddr + p.memsz ≤ q.lo) → rest.length < fuel →
      ∃ mem', loadLoop disk fuel ph (ph + 32 * rest.length) mem = some mem' ∧
        (∀ q ∈ rest, Loaded disk mem' q) ∧ ∀ a, (∀ q ∈ rest, q.Spares a) → mem' a = mem a := by
  induction rest with
  | nil =>
      intro fuel ph mem _ _ _ _ _ enough
      obtain ⟨fuel, rfl⟩ : ∃ rest, fuel = rest + 1 := ⟨fuel - 1, by simp at enough; omega⟩
      exact ⟨mem, by simp [loadLoop], fun _ member => absurd member (List.not_mem_nil _),
        fun _ _ => rfl⟩
  | cons q rest induction =>
      intro fuel ph mem table low high sound apart enough
      simp only [List.length_cons] at *
      obtain ⟨fuel, rfl⟩ : ∃ rest, fuel = rest + 1 := ⟨fuel - 1, by omega⟩
      rw [headerTable_succ, List.cons.injEq] at table
      obtain ⟨qSound, qClear, qFuel⟩ := sound q (List.mem_cons_self _ _)
      obtain ⟨before, later⟩ := List.pairwise_cons.mp apart
      obtain ⟨after, round, qLoaded, qFrame⟩ :=
        loadSegment_loads disk table.1 qSound (by omega)
          (by omega : sectorsOf q.filesz q.off < fuel)
      have scratch : ∀ a, 0x10000 ≤ a → a < 0x11000 → after a = mem a := fun a above under =>
        qFrame a (q.spares_scratch qSound qClear above under)
      obtain ⟨mem', ran, loaded, kept⟩ := @induction fuel (ph + 32) after
        ((headerTable_congr fun j short => scratch _ (by omega) (by omega)).trans table.2)
        (by omega) (by omega)
        (fun q' member => let ⟨sound', clear', fuel'⟩ := sound q' (List.mem_cons_of_mem _ member)
          ⟨sound', clear', by omega⟩) later (by omega)
      refine ⟨mem', ?_, fun q' member => ?_, fun a spared => ?_⟩
      · rw [loadLoop, if_pos (by omega), round, Option.some_bind,
          Nat.mod_eq_of_lt (by omega : ph + 32 < 2 ^ 32),
          (by omega : ph + 32 * (rest.length + 1) = ph + 32 + 32 * rest.length)]
        exact ran
      · rcases List.mem_cons.mp member with rfl | member
        · exact qLoaded.frame qSound.1 fun a _ short =>
            kept a fun q'' member' => Proghdr.spares_below (by have := before q'' member'; omega)
        · exact loaded q' member
      · rw [kept a fun q' member => spared q' (List.mem_cons_of_mem _ member),
          qFrame a (spared q (List.mem_cons_self _ _))]

/-- `bootmain`'s first call, `readseg(elf, 4096, 0)`, puts the image's first page at `0x10000` and
stores nowhere else. -/
theorem firstPage_read (disk mem : Bytes) {fuel : Nat} (enough : 8 < fuel) :
    ∃ calls first, readseg disk fuel 0x10000 4096 0 mem = some (calls, first) ∧
      (∀ i < 4096, first (0x10000 + i) = image disk i) ∧
      ∀ a, ¬(0x10000 ≤ a ∧ a < 0x11000) → first a = mem a := by
  obtain ⟨calls, first, read, -, -, copied, outside⟩ :=
    readseg_reads disk mem (by decide : 0 % SECTSIZE ≤ 0x10000) (by decide) (by decide)
      (by simp only [sectorsOf, SECTSIZE]; omega : sectorsOf 4096 0 < fuel)
  exact ⟨calls, first, read, fun i short => by rw [copied i short, image, Nat.add_zero],
    fun a away => outside a (by simpa [sectorsOf, SECTSIZE] using away)⟩

/-- On a disk whose image does not start with the ELF magic, `bootmain` returns to `bootasm.S`
having stored the image's first page in the scratch page `[0x10000, 0x11000)` and nothing
elsewhere. -/
theorem bootmain_rejects {disk : Bytes} (bad : readUint (image disk) 0 ≠ ELF_MAGIC) (mem : Bytes)
    {fuel : Nat} (enough : 8 < fuel) :
    ∃ mem', bootmain disk fuel mem = some (none, mem') ∧
      (∀ i < 4096, mem' (0x10000 + i) = image disk i) ∧
      ∀ a, ¬(0x10000 ≤ a ∧ a < 0x11000) → mem' a = mem a := by
  obtain ⟨calls, first, read, page, outside⟩ := firstPage_read disk mem enough
  have magic : readUint first 0x10000 = readUint (image disk) 0 :=
    readUint_congr fun j short => by rw [page j (by omega), Nat.zero_add]
  refine ⟨first, ?_, page, outside⟩
  simp only [bootmain, read, Option.some_bind]
  rw [if_pos (magic ▸ bad)]

/-- A blank disk. -/
theorem bootmain_rejects_blank :
    readUint (image fun _ => 0) 0 ≠ ELF_MAGIC ∧ 8 < 9 ∧
      ∃ mem', bootmain (fun _ => 0) 9 (fun _ => 0) = some (none, mem') ∧
        (∀ i < 4096, mem' (0x10000 + i) = image (fun _ => 0) i) ∧
        ∀ a, ¬(0x10000 ≤ a ∧ a < 0x11000) → mem' a = 0 :=
  ⟨by decide, by decide, bootmain_rejects (by decide) (fun _ => 0) (by decide)⟩

/-- When the sectors read for each segment keep clear of the earlier segments and of the scratch
page, `bootmain` loads every segment intact and calls the image's entry point. -/
theorem bootmain_loads {disk : Bytes} {phs : List Proghdr} (loadable : LoadableImage disk phs)
    (apart : SectorsApart phs) (mem : Bytes) {fuel : Nat}
    (enough : 8 < fuel ∧ ∀ ph ∈ phs, phs.length + sectorsOf ph.filesz ph.off < fuel) :
    ∃ mem', bootmain disk fuel mem = some (some (readUint (image disk) 24), mem') ∧
      ∀ ph ∈ phs, Loaded disk mem' ph := by
  obtain ⟨magic, inPage, table, -, sound⟩ := loadable
  obtain ⟨calls, first, read, page, -⟩ := firstPage_read disk mem enough.1
  have field : ∀ a, a + 4 ≤ 4096 → readUint first (0x10000 + a) = readUint (image disk) a :=
    fun a fits => readUint_congr fun j short => by rw [Nat.add_assoc, page _ (by omega)]
  have count : readUshort (image disk) 44 = phs.length := by
    simpa only [length_headerTable] using congrArg List.length table
  have phnum : readUshort first (0x10000 + 44) = phs.length :=
    (readUshort_congr fun j short => by rw [Nat.add_assoc, page _ (by omega)]).trans count
  rw [count] at table
  obtain ⟨mem', ran, loaded, kept⟩ := @loadLoop_loads disk phs fuel
    (0x10000 + readUint (image disk) 28) first
    ((headerTable_congr fun j short => by rw [Nat.add_assoc, page _ (by omega)]).trans table)
    (by omega) (by omega)
    (fun q member => ⟨sound q member, apart.2 q member, enough.2 q member⟩) apart.1
    (by cases phs with
      | nil => simp only [List.length_nil]; omega
      | cons q qs => have := enough.2 q (List.mem_cons_self _ _); omega)
  have entry : readUint mem' (0x10000 + 24) = readUint (image disk) 24 :=
    (readUint_congr fun j short => kept _ fun q member =>
      q.spares_scratch (sound q member) (apart.2 q member) (by omega) (by omega)).trans
      (field 24 (by decide))
  refine ⟨mem', ?_, loaded⟩
  have magic₀ := field 0 (by decide)
  have phoff := field 28 (by decide)
  simp only [Nat.add_zero] at magic₀
  simp only [bootmain, read, Option.some_bind]
  rw [if_neg fun wrong => wrong (magic₀.trans magic), phoff, phnum,
    Nat.mod_eq_of_lt (by omega : 65536 + readUint (image disk) 28 < 2 ^ 32),
    Nat.mod_eq_of_lt (by omega : 65536 + readUint (image disk) 28 + 32 * phs.length < 2 ^ 32), ran,
    Option.map_some', entry]

/-- With the second segment a sector further on, the sectors keep apart and `bootmain` loads
both segments. -/
theorem bootmain_loads_aligned :
    LoadableImage (twoSegmentDisk alignedSegment) [tailedSegment, alignedSegment] ∧
      SectorsApart [tailedSegment, alignedSegment] ∧
      ∃ mem', bootmain (twoSegmentDisk alignedSegment) 20 (fun _ => 0) =
          some (some (readUint (image (twoSegmentDisk alignedSegment)) 24), mem') ∧
        ∀ ph ∈ [tailedSegment, alignedSegment], Loaded (twoSegmentDisk alignedSegment) mem' ph :=
  ⟨by decide, by decide, bootmain_loads (by decide) (by decide) _ ⟨by decide, by decide⟩⟩

/-! ## Only the kernel image -/

/-- Four bytes make a `uint`: every `ph->off` that `bootmain` passes to `readseg` is one. -/
theorem readUint_lt (mem : Bytes) (a : Nat) : readUint mem a < 2 ^ 32 := by
  have := (mem a).toNat_lt_size
  have := (mem (a + 1)).toNat_lt_size
  have := (mem (a + 2)).toNat_lt_size
  have := (mem (a + 3)).toNat_lt_size
  simp only [readUint, UInt8.size] at *
  omega

section Image

variable {disk disk' : Bytes}

theorem loadSegment_congr (same : image disk = image disk') (fuel ph : Nat) (mem : Bytes) :
    loadSegment disk fuel ph mem = loadSegment disk' fuel ph mem := by
  simp only [loadSegment, readseg_congr (congrFun same) fuel _ _
    (show (Proghdr.read mem ph).off < 2 ^ 32 from readUint_lt _ _) mem]

theorem loadLoop_congr (same : image disk = image disk') :
    ∀ fuel ph eph mem, loadLoop disk fuel ph eph mem = loadLoop disk' fuel ph eph mem
  | 0, _, _, _ => rfl
  | fuel + 1, ph, eph, mem => by
      simp only [loadLoop]
      split
      · rw [loadSegment_congr same fuel ph mem]
        congr 1
        funext mem'
        exact loadLoop_congr same fuel _ eph mem'
      · rfl

/-- `bootmain` reads nothing of the disk but the kernel image: never sector 0, the boot sector it
came from. -/
theorem bootmain_congr (same : image disk = image disk') (fuel : Nat) (mem : Bytes) :
    bootmain disk fuel mem = bootmain disk' fuel mem := by
  simp only [bootmain, loadLoop_congr same,
    readseg_congr (congrFun same) fuel 0x10000 4096 (by decide : 0 < 2 ^ 32) mem]

/-- Whatever the boot sector holds, `bootmain` runs as on the image's own disk. -/
theorem bootmain_congr_bootDisk :
    image (bootDisk [0xFA] (image (twoSegmentDisk alignedSegment))) =
        image (twoSegmentDisk alignedSegment) ∧
      bootmain (bootDisk [0xFA] (image (twoSegmentDisk alignedSegment))) 20 (fun _ => 0) =
        bootmain (twoSegmentDisk alignedSegment) 20 (fun _ => 0) :=
  ⟨image_bootDisk _ _, bootmain_congr (image_bootDisk _ _) 20 _⟩

end Image

end Boot

end Xv6
