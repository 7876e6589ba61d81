import Mathlib.Data.List.Range
import Mathlib.Algebra.Group.Nat.Basic

/-!
# Reading the kernel off the disk

`readsect` reads one sector with `insl`; `readseg` reads the whole sectors that cover a byte range
of the kernel image, which starts at sector 1.  Pointers and `uint`s are 32 bits wide and the model
wraps where the C arithmetic does; `waitdisk`'s polls are taken to end.
-/

namespace Xv6

namespace Boot

/-- `SECTSIZE`. -/
def SECTSIZE : Nat := 512

/-- Bytes: of the disk by byte offset, or of memory by physical address. -/
abbrev Bytes := Nat → UInt8

/-- The `j` with `(dst + j) mod 2^32 = a`: how far a string instruction that starts at `dst`
has got when it stores to `a`. -/
def distance (dst a : Nat) : Nat := (a + 2 ^ 32 - dst) % 2 ^ 32

/-- The sector `readsect` asks for: the task-file registers `0x1F3` to `0x1F6` carry bits 0 to
27 of `offset`. -/
def lba (offset : Nat) : Nat := offset % 2 ^ 28

/-- `readsect(dst, offset)`: read sector `offset` and store its 512 bytes from `dst` on. -/
def readsect (disk : Bytes) (dst offset : Nat) (mem : Bytes) : Bytes :=
  fun a => if a < 2 ^ 32 ∧ distance dst a < SECTSIZE then
    disk (SECTSIZE * lba offset + distance dst a) else mem a

/-- The calls `readsect(pa, offset)` of `for(; pa < epa; pa += SECTSIZE, offset++)`; `none` when
the loop runs more than `fuel` rounds. -/
def sectorLoop : (fuel pa epa offset : Nat) → Option (List (Nat × Nat))
  | 0, _, _, _ => none
  | fuel + 1, pa, epa, offset =>
      if pa < epa then
        ((pa, offset) :: ·) <$>
          sectorLoop fuel ((pa + SECTSIZE) % 2 ^ 32) epa ((offset + 1) % 2 ^ 32)
      else some []

/-- The `readsect` calls, one after another. -/
def readsects (disk : Bytes) (calls : List (Nat × Nat)) (mem : Bytes) : Bytes :=
  calls.foldl (fun mem call => readsect disk call.1 call.2 mem) mem

/-- `readseg(pa, count, offset)`: the `readsect` calls it makes and memory after them. -/
def readseg (disk : Bytes) (fuel pa count offset : Nat) (mem : Bytes) :
    Option (List (Nat × Nat) × Bytes) :=
  let epa := (pa + count) % 2 ^ 32
  let pa := (pa + 2 ^ 32 - offset % SECTSIZE) % 2 ^ 32
  (fun calls => (calls, readsects disk calls mem)) <$>
    sectorLoop fuel pa epa (offset / SECTSIZE + 1)

/-! ## What `readseg` reads -/

/-- `ceil((count + offset mod 512) / 512)`: the sectors that cover `count` bytes from
`offset`. -/
def sectorsOf (count offset : Nat) : Nat := (count + offset % SECTSIZE + SECTSIZE - 1) / SECTSIZE

/-- The `n` rounds of a loop that does not wrap, from `pa` and `offset` on. -/
def sweep (pa offset : Nat) : Nat → List (Nat × Nat)
  | 0 => []
  | n + 1 => (pa, offset) :: sweep (pa + SECTSIZE) (offset + 1) n

/-- Where byte `d` of the sectors read from `offset` on lies on the disk. -/
def sectorByte (offset d : Nat) : Nat := SECTSIZE * lba (offset + d / SECTSIZE) + d % SECTSIZE

@[simp] theorem readsects_nil (disk : Bytes) (mem : Bytes) : readsects disk [] mem = mem := rfl

@[simp] theorem readsects_cons (disk : Bytes) (call : Nat × Nat) (calls : List (Nat × Nat))
    (mem : Bytes) :
    readsects disk (call :: calls) mem = readsects disk calls (readsect disk call.1 call.2 mem) :=
  rfl

theorem length_sweep (pa offset n : Nat) : (sweep pa offset n).length = n := by
  induction n generalizing pa offset with
  | zero => rfl
  | succ n induction => simp [sweep, induction]

theorem sectors_sweep (pa offset n : Nat) :
    (sweep pa offset n).map Prod.snd = List.range' offset n := by
  induction n generalizing pa offset with
  | zero => rfl
  | succ n induction => simp [sweep, induction, List.range'_succ]

/-- Away from the top of memory, `readsect` stores the sector at `[dst, dst + 512)`. -/
theorem readsect_apply (disk : Bytes) {dst : Nat} (noWrap : dst + SECTSIZE ≤ 2 ^ 32) (offset : Nat)
    (mem : Bytes) (a : Nat) :
    readsect disk dst offset mem a =
      if dst ≤ a ∧ a < dst + SECTSIZE then disk (SECTSIZE * lba offset + (a - dst)) else mem a := by
  simp only [readsect]
  by_cases inside : dst ≤ a ∧ a < dst + SECTSIZE
  · have away : distance dst a = a - dst := by simp only [distance, SECTSIZE] at *; omega
    rw [if_pos (by rw [away]; simp only [SECTSIZE] at *; omega), if_pos inside, away]
  · rw [if_neg (by simp only [distance, SECTSIZE] at *; omega), if_neg inside]

/-- Without wrapping, the loop makes `ceil((epa - pa) / 512)` calls, one sector after another. -/
theorem sectorLoop_sweep {n : Nat} :
    ∀ {fuel pa epa offset : Nat}, (epa - pa + SECTSIZE - 1) / SECTSIZE = n →
      pa + SECTSIZE * n < 2 ^ 32 → offset + n < 2 ^ 32 → n < fuel →
      sectorLoop fuel pa epa offset = some (sweep pa offset n) := by
  induction n with
  | zero =>
      intro fuel pa epa offset rounds _ _ enough
      obtain ⟨fuel, rfl⟩ : ∃ rest, fuel = rest + 1 := ⟨fuel - 1, by omega⟩
      have done : ¬pa < epa := by simp only [SECTSIZE] at rounds; omega
      rw [sectorLoop, if_neg done, sweep]
  | succ n induction =>
      intro fuel pa epa offset rounds noWrap fits enough
      obtain ⟨fuel, rfl⟩ : ∃ rest, fuel = rest + 1 := ⟨fuel - 1, by omega⟩
      simp only [SECTSIZE] at *
      have more : pa < epa := by omega
      rw [sectorLoop, if_pos more, SECTSIZE, Nat.mod_eq_of_lt (by omega : pa + 512 < 2 ^ 32),
        Nat.mod_eq_of_lt (by omega : offset + 1 < 2 ^ 32),
        induction (by omega) (by omega) (by omega) (by omega)]
      rfl

/-- The sweep stores, at each address it covers, the matching byte of the sectors it reads. -/
theorem readsects_sweep (disk : Bytes) {n : Nat} :
    ∀ {pa offset : Nat}, pa + SECTSIZE * n ≤ 2 ^ 32 → ∀ (mem : Bytes) (a : Nat),
      readsects disk (sweep pa offset n) mem a =
        if pa ≤ a ∧ a < pa + SECTSIZE * n then disk (sectorByte offset (a - pa)) else mem a := by
  induction n with
  | zero =>
      intro pa offset _ mem a
      rw [sweep, readsects_nil, if_neg (by omega)]
  | succ n induction =>
      intro pa offset noWrap mem a
      have first : pa + SECTSIZE ≤ 2 ^ 32 := by simp only [SECTSIZE] at *; omega
      rw [sweep, readsects_cons, induction (by simp only [SECTSIZE] at *; omega),
        readsect_apply disk first]
      simp only [sectorByte, SECTSIZE] at *
      by_cases later : pa + 512 ≤ a ∧ a < pa + 512 + 512 * n
      · have shift : (a - pa) / 512 = (a - (pa + 512)) / 512 + 1 := by omega
        have within : (a - pa) % 512 = (a - (pa + 512)) % 512 := by omega
        rw [if_pos later, if_pos (by omega), shift, within, Nat.add_assoc, Nat.add_comm 1]
      · by_cases inside : pa ≤ a ∧ a < pa + 512
        · have head : (a - pa) / 512 = 0 := by omega
          have within : (a - pa) % 512 = a - pa := by omega
          rw [if_neg later, if_pos inside, if_pos (by omega), head, within, Nat.add_zero]
        · rw [if_neg later, if_neg inside, if_neg (by omega)]

/-- `readseg` reads consecutive sectors, copies the byte range and stores only in its sectors. -/
theorem readseg_reads (disk : Bytes) (mem : Bytes) {fuel pa count offset : Nat}
    (below : offset % SECTSIZE ≤ pa) (fits : pa + count + 511 < 2 ^ 32) (uint : offset < 2 ^ 32)
    (enough : sectorsOf count offset < fuel) :
    ∃ calls mem', readseg disk fuel pa count offset mem = some (calls, mem') ∧
      calls.length = sectorsOf count offset ∧
      calls.map Prod.snd = List.range' (offset / SECTSIZE + 1) (sectorsOf count offset) ∧
      (∀ i < count, mem' (pa + i) = disk (SECTSIZE + offset + i)) ∧
      ∀ a, ¬(pa - offset % SECTSIZE ≤ a ∧
          a < pa - offset % SECTSIZE + SECTSIZE * sectorsOf count offset) → mem' a = mem a := by
  generalize rounds : sectorsOf count offset = n at enough ⊢
  simp only [sectorsOf, SECTSIZE] at *
  have loop : sectorLoop fuel ((pa + 2 ^ 32 - offset % SECTSIZE) % 2 ^ 32)
      ((pa + count) % 2 ^ 32) (offset / SECTSIZE + 1) =
        some (sweep (pa - offset % SECTSIZE) (offset / SECTSIZE + 1) n) := by
    simp only [SECTSIZE]
    rw [Nat.mod_eq_of_lt (by omega : pa + count < 2 ^ 32),
      (by omega : (pa + 2 ^ 32 - offset % 512) % 2 ^ 32 = pa - offset % 512)]
    exact sectorLoop_sweep (by simp only [SECTSIZE]; omega) (by simp only [SECTSIZE]; omega)
      (by omega) enough
  have stores := @readsects_sweep disk n (pa - offset % SECTSIZE) (offset / SECTSIZE + 1)
    (by simp only [SECTSIZE]; omega) mem
  refine ⟨sweep (pa - offset % SECTSIZE) (offset / SECTSIZE + 1) n,
    readsects disk (sweep (pa - offset % SECTSIZE) (offset / SECTSIZE + 1) n) mem,
    by simp only [readseg]; rw [loop]; rfl, length_sweep _ _ _, sectors_sweep _ _ _,
    fun i short => ?_, fun a away => ?_⟩
  · rw [stores, if_pos (by simp only [SECTSIZE]; omega)]
    congr 1
    simp only [sectorByte, lba, SECTSIZE]
    omega
  · rw [stores, if_neg (by simpa only [SECTSIZE] using away)]

/-- `bootmain`'s first call, `readseg(elf, 4096, 0)`, reads sectors 1 to 8 into the scratch
page. -/
theorem readseg_reads_firstPage :
    0 % SECTSIZE ≤ 0x10000 ∧ 0x10000 + 4096 + 511 < 2 ^ 32 ∧ 0 < 2 ^ 32 ∧ sectorsOf 4096 0 < 9 ∧
      ∃ calls mem', readseg (fun b => UInt8.ofNat b) 9 0x10000 4096 0 (fun _ => 0) =
          some (calls, mem') ∧
        calls.length = sectorsOf 4096 0 ∧
        calls.map Prod.snd = List.range' (0 / SECTSIZE + 1) (sectorsOf 4096 0) ∧
        (∀ i < 4096, mem' (0x10000 + i) = UInt8.ofNat (SECTSIZE + 0 + i)) ∧
        ∀ a, ¬(0x10000 - 0 % SECTSIZE ≤ a ∧
            a < 0x10000 - 0 % SECTSIZE + SECTSIZE * sectorsOf 4096 0) → mem' a = 0 :=
  ⟨by decide, by decide, by decide, by decide,
    readseg_reads (fun b => UInt8.ofNat b) (fun _ => 0) (by decide) (by decide) (by decide)
      (by decide)⟩

/-! ## Sectors past the boot sector -/

/-- A loop that ends runs exactly the rounds `k` in which `pa + 512 k` (wrapped) is below `epa`,
up to the first that is not, and calls `readsect` with `offset + k` in round `k`. -/
theorem sectorLoop_rounds {epa : Nat} :
    ∀ {fuel pa offset : Nat} {calls : List (Nat × Nat)},
      sectorLoop fuel pa epa offset = some calls → pa < 2 ^ 32 → offset < 2 ^ 32 →
      (∀ k ≤ calls.length, ((pa + SECTSIZE * k) % 2 ^ 32 < epa ↔ k < calls.length)) ∧
        ∀ c ∈ calls, ∃ k < calls.length, c.2 = (offset + k) % 2 ^ 32 := by
  intro fuel
  induction fuel with
  | zero => intro _ _ _ ran; cases ran
  | succ fuel induction =>
      intro pa offset calls ran low uint
      rw [sectorLoop] at ran
      split at ran
      · obtain ⟨rest, later, rfl⟩ := Option.map_eq_some'.mp ran
        obtain ⟨rounds, offsets⟩ :=
          induction later (Nat.mod_lt _ (by decide)) (Nat.mod_lt _ (by decide))
        simp only [List.length_cons, SECTSIZE] at *
        refine ⟨fun k short => ?_, fun c member => ?_⟩
        · cases k with
          | zero => omega
          | succ j =>
              have next : (pa + 512 * (j + 1)) % 2 ^ 32 =
                  ((pa + 512) % 2 ^ 32 + 512 * j) % 2 ^ 32 := by omega
              rw [next, rounds j (by omega)]
              omega
        · rcases List.mem_cons.mp member with rfl | member
          · exact ⟨0, by omega, by omega⟩
          · obtain ⟨k, short, eq⟩ := offsets c member
            exact ⟨k + 1, by omega, by rw [eq]; omega⟩
      · cases ran
        refine ⟨fun k short => ?_, fun c member => by cases member⟩
        simp only [List.length_nil, Nat.le_zero] at short ⊢
        simp only [short, SECTSIZE]
        omega

/-- `pa` is back where it started after `2^23` rounds, so a loop that ends does so in fewer. -/
theorem sectorLoop_length_lt {fuel pa epa offset : Nat} {calls : List (Nat × Nat)}
    (ran : sectorLoop fuel pa epa offset = some calls) (low : pa < 2 ^ 32)
    (uint : offset < 2 ^ 32) : calls.length < 2 ^ 23 := by
  obtain ⟨rounds, -⟩ := sectorLoop_rounds ran low uint
  refine Nat.lt_of_not_le fun long => ?_
  have period : (pa + SECTSIZE * (calls.length - 2 ^ 23)) % 2 ^ 32 =
      (pa + SECTSIZE * calls.length) % 2 ^ 32 := by
    simp only [SECTSIZE]; omega
  have earlier := rounds (calls.length - 2 ^ 23) (Nat.sub_le _ _)
  rw [period] at earlier
  exact Nat.lt_irrefl _ ((rounds _ le_rfl).mp (earlier.mpr (by omega)))

/-- Every sector `readseg` asks for lies past sector 0. -/
theorem readseg_past_boot {fuel pa count offset : Nat} {calls : List (Nat × Nat)}
    (uint : offset < 2 ^ 32)
    (ran : sectorLoop fuel ((pa + 2 ^ 32 - offset % SECTSIZE) % 2 ^ 32) ((pa + count) % 2 ^ 32)
      (offset / SECTSIZE + 1) = some calls) : ∀ c ∈ calls, 0 < lba c.2 := by
  have start : offset / SECTSIZE + 1 < 2 ^ 32 := by simp only [SECTSIZE]; omega
  have rounds := sectorLoop_length_lt ran (Nat.mod_lt _ (by decide)) start
  intro c member
  obtain ⟨k, short, eq⟩ := (sectorLoop_rounds ran (Nat.mod_lt _ (by decide)) start).2 c member
  simp only [lba, eq, SECTSIZE] at *
  omega

/-- `readsect` of a sector past sector 0 reads the kernel image only. -/
theorem readsect_congr {disk disk' : Bytes}
    (same : ∀ i, disk (SECTSIZE + i) = disk' (SECTSIZE + i)) {offset : Nat} (past : 0 < lba offset)
    (dst : Nat) (mem : Bytes) : readsect disk dst offset mem = readsect disk' dst offset mem := by
  funext a
  simp only [readsect]
  split
  · have shift : SECTSIZE * lba offset + distance dst a =
        SECTSIZE + (SECTSIZE * (lba offset - 1) + distance dst a) := by
      simp only [SECTSIZE]; omega
    rw [shift, same]
  · rfl

theorem readsects_congr {disk disk' : Bytes}
    (same : ∀ i, disk (SECTSIZE + i) = disk' (SECTSIZE + i)) :
    ∀ {calls : List (Nat × Nat)}, (∀ c ∈ calls, 0 < lba c.2) → ∀ mem : Bytes,
      readsects disk calls mem = readsects disk' calls mem := by
  intro calls
  induction calls with
  | nil => intro _ _; rfl
  | cons c calls induction =>
      intro past mem
      rw [readsects_cons, readsects_cons, readsect_congr same (past c (List.mem_cons_self _ _)),
        induction fun c' member => past c' (List.mem_cons_of_mem _ member)]

/-- `readseg` reads the kernel image only. -/
theorem readseg_congr {disk disk' : Bytes}
    (same : ∀ i, disk (SECTSIZE + i) = disk' (SECTSIZE + i)) (fuel pa count : Nat) {offset : Nat}
    (uint : offset < 2 ^ 32) (mem : Bytes) :
    readseg disk fuel pa count offset mem = readseg disk' fuel pa count offset mem := by
  simp only [readseg]
  cases ran : sectorLoop fuel ((pa + 2 ^ 32 - offset % SECTSIZE) % 2 ^ 32) ((pa + count) % 2 ^ 32)
      (offset / SECTSIZE + 1) with
  | none => rfl
  | some calls =>
      simp only [Option.map_eq_map, Option.map_some',
        readsects_congr same (readseg_past_boot uint ran)]

/-! ## When the loop does not end -/

/-- `pa += SECTSIZE` keeps `pa mod 512`, so the loop only reaches the addresses of one residue
class below `2^32`.  When `epa` lies above the last of them, `pa < epa` holds in every round and
the loop never ends. -/
theorem sectorLoop_spins {epa : Nat} :
    ∀ {fuel pa offset : Nat}, pa < 2 ^ 32 → 2 ^ 32 - SECTSIZE + pa % SECTSIZE < epa →
      sectorLoop fuel pa epa offset = none := by
  intro fuel
  induction fuel with
  | zero => intro _ _ _ _; rfl
  | succ fuel induction =>
      intro pa offset low late
      simp only [SECTSIZE] at *
      rw [sectorLoop, if_pos (by omega), SECTSIZE, induction (by omega) (by omega)]
      rfl

/-- `readseg` never returns when `pa + count` lands above the last address of the residue class
of `pa - offset mod 512` below `2^32`. -/
theorem readseg_spins (disk mem : Bytes) {fuel pa count offset : Nat}
    (late : 2 ^ 32 - SECTSIZE + (pa + SECTSIZE - offset % SECTSIZE) % SECTSIZE <
      (pa + count) % 2 ^ 32) :
    readseg disk fuel pa count offset mem = none := by
  have residue : (pa + 2 ^ 32 - offset % SECTSIZE) % 2 ^ 32 % SECTSIZE =
      (pa + SECTSIZE - offset % SECTSIZE) % SECTSIZE := by
    simp only [SECTSIZE]; omega
  simp only [readseg, sectorLoop_spins (Nat.mod_lt _ (by decide)) (residue ▸ late)]
  rfl

/-- `readseg(0x100000, 0xFFEFFFFF, 0)` stores sector after sector all the way round memory. -/
theorem readseg_spins_wholeSpace :
    2 ^ 32 - SECTSIZE + (0x100000 + SECTSIZE - 0 % SECTSIZE) % SECTSIZE <
        (0x100000 + 0xFFEFFFFF) % 2 ^ 32 ∧
      readseg (fun _ => 0) 100 0x100000 0xFFEFFFFF 0 (fun _ => 0) = none :=
  ⟨by decide, readseg_spins (fun _ => 0) (fun _ => 0) (by decide)⟩

end Boot

end Xv6
