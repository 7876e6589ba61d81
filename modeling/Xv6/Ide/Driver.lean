import Xv6.Buf
import Xv6.Chain

/-!
# The IDE driver

`iderw` appends a locked buffer to `idequeue` and starts the controller when it became the head;
`ideintr` pops the head on completion, reads the sector into it for a read, marks it valid and
starts the next request.  The request last issued and both drives are part of the state.
-/

namespace Xv6

/-- The driver's variables and the controller. -/
structure Ide where
  /-- The buffers, by address; `0` is the null pointer. -/
  bufs : Nat → Buf
  /-- `idequeue`: the address of the buffer being read or written, `0` when idle. -/
  idequeue : Nat
  /-- The controller: the request `idestart` issued and that has not completed. -/
  issued : Option Nat
  /-- The controller: the sectors of drive 0 and drive 1. -/
  disk : Nat × Nat → Block

namespace Ide

/-- Status bit: the controller is busy. -/
def IDE_BSY : Nat := 0x80

/-- Status bit: the drive is ready. -/
def IDE_DRDY : Nat := 0x40

/-- Status bit: drive fault. -/
def IDE_DF : Nat := 0x20

/-- Status bit: error. -/
def IDE_ERR : Nat := 0x01

/-- The status byte on which the poll of `idewait` stops: busy clear and ready set. -/
def ready (r : Nat) : Bool := r &&& (IDE_BSY ||| IDE_DRDY) == IDE_DRDY

/-- `idewait(checkerr)` after its poll read the status `r`, with `ready r`: `-1` when errors are
checked and `r` reports a fault or an error. -/
def idewait (checkerr : Bool) (r : Nat) : Int :=
  if checkerr && r &&& (IDE_DF ||| IDE_ERR) != 0 then -1 else 0

/-- `(b->flags & (B_VALID|B_DIRTY)) == B_VALID`: the buffer agrees with the disk. -/
def synced (flags : BufFlags) : Bool := flags.valid && !flags.dirty

/-- The drive and the 28-bit sector address that `idestart` writes to the controller for `b`. -/
def target (b : Buf) : Nat × Nat := (b.dev % 2, b.sector % 2 ^ 28)

/-- The `qnext` links of the buffers. -/
def link (st : Ide) (p : Nat) : Nat := (st.bufs p).qnext

/-- Where `iderw`'s `pp` points: at `idequeue` or at a buffer's `qnext`. -/
inductive Slot
  | head
  | qnext (b : Nat)
  deriving DecidableEq, Repr

/-- `*pp`. -/
def load (st : Ide) : Slot → Nat
  | .head => st.idequeue
  | .qnext b => st.link b

/-- `*pp = v`. -/
def store (st : Ide) : Slot → Nat → Ide
  | .head, v => { st with idequeue := v }
  | .qnext b, v => { st with bufs := Function.update st.bufs b { st.bufs b with qnext := v } }

/-- `for(; *pp; pp=&(*pp)->qnext);` testing `*pp` at most `fuel` times: the slot holding `0`. -/
def walk (st : Ide) : Nat → Slot → Option Slot
  | 0, _ => none
  | fuel + 1, pp => if st.load pp = 0 then some pp else st.walk fuel (.qnext (st.load pp))

/-- `idestart(b)`: program the controller for `b`, sending the data along for a write. -/
def idestart (b : Nat) (st : Ide) : Except String Ide :=
  if b = 0 then .error "idestart"
  else
    let buf := st.bufs b
    .ok { st with
      issued := some b
      disk := if buf.flags.dirty then Function.update st.disk (target buf) buf.data else st.disk }

/-- `ideintr()` when the poll of its `idewait(1)` reads the status `r`: pop the head, read its
sector unless it was a write or the controller reported an error, mark it valid and clean, and
start the next request. -/
def ideintr (r : Nat) (st : Ide) : Except String Ide :=
  let b := st.idequeue
  if b = 0 then .ok st
  else
    let st := { st with idequeue := st.link b }
    let buf := st.bufs b
    let buf :=
      if !buf.flags.dirty && idewait true r ≥ 0 then { buf with data := st.disk (target buf) }
      else buf
    let buf := { buf with flags := { buf.flags with valid := true, dirty := false } }
    let st := { st with bufs := Function.update st.bufs b buf }
    if st.idequeue ≠ 0 then idestart st.idequeue st else .ok st

/-- `iderw(b)` up to its sleep, under `idelock`: the checks, `b->qnext = 0`, the walk to the end
of the queue (`none` when it needs more than `fuel` tests), `*pp = b`, and `idestart(b)` when `b`
became the head. -/
def iderw (havedisk1 : Bool) (fuel b : Nat) (st : Ide) : Option (Except String Ide) :=
  let buf := st.bufs b
  if !buf.flags.busy then some (.error "iderw: buf not busy")
  else if synced buf.flags then some (.error "iderw: nothing to do")
  else if buf.dev ≠ 0 && !havedisk1 then some (.error "iderw: ide disk 1 not present")
  else
    let st := st.store (.qnext b) 0
    (st.walk fuel .head).map fun pp =>
      let st := st.store pp b
      if st.idequeue = b then idestart b st else .ok st

/-! ## Pointer slots -/

@[simp] theorem load_head (st : Ide) : st.load .head = st.idequeue := rfl

@[simp] theorem load_qnext (st : Ide) (b : Nat) : st.load (.qnext b) = st.link b := rfl

@[simp] theorem store_qnext_link (st : Ide) (b v p : Nat) :
    (st.store (.qnext b) v).link p = if p = b then v else st.link p := by
  by_cases same : p = b <;> simp [store, link, Function.update, same]

@[simp] theorem store_qnext_idequeue (st : Ide) (b v : Nat) :
    (st.store (.qnext b) v).idequeue = st.idequeue := rfl

@[simp] theorem store_qnext_issued (st : Ide) (b v : Nat) :
    (st.store (.qnext b) v).issued = st.issued := rfl

@[simp] theorem store_head_link (st : Ide) (v : Nat) : (st.store .head v).link = st.link := rfl

@[simp] theorem store_head_idequeue (st : Ide) (v : Nat) : (st.store .head v).idequeue = v := rfl

@[simp] theorem store_head_issued (st : Ide) (v : Nat) : (st.store .head v).issued = st.issued :=
  rfl

theorem store_flags (st : Ide) (pp : Slot) (v p : Nat) :
    ((st.store pp v).bufs p).flags = (st.bufs p).flags := by
  cases pp with
  | head => rfl
  | qnext b => by_cases same : p = b <;> simp [store, Function.update, same]

/-- Where the walk stops when `*pp` heads the chain `ps`: at `pp` itself for an empty queue,
else at the `qnext` of its last buffer. -/
def lastSlot (pp : Slot) (ps : List Nat) : Slot :=
  match ps.getLast? with
  | none => pp
  | some q => .qnext q

theorem lastSlot_cons (pp : Slot) (q : Nat) (qs : List Nat) :
    lastSlot pp (q :: qs) = lastSlot (.qnext q) qs := by
  cases qs with
  | nil => rfl
  | cons r rs =>
      simp only [lastSlot, List.getLast?_cons_cons,
        List.getLast?_eq_getLast (r :: rs) (List.cons_ne_nil r rs)]

/-- The walk of `iderw` from a slot heading the chain `ps` ends exactly when it may test more
than `ps.length` slots, and it ends at the last one. -/
theorem walk_eq_some {st : Ide} {pp slot : Slot} {ps : List Nat} {fuel : Nat}
    (chain : Chain st.link (st.load pp) ps) :
    st.walk fuel pp = some slot ↔ ps.length < fuel ∧ slot = lastSlot pp ps := by
  induction ps generalizing pp fuel with
  | nil =>
      have empty : st.load pp = 0 := Chain.nil_iff.mp chain
      cases fuel <;> simp [walk, lastSlot, empty, eq_comm]
  | cons q qs induction =>
      obtain ⟨loaded, nonzero, rest⟩ := Chain.cons_cons_iff.mp chain
      cases fuel with
      | zero => simp [walk]
      | succ fuel =>
          have next : st.load (.qnext q) = st.link q := rfl
          simp only [walk, loaded, nonzero, if_false, lastSlot_cons]
          rw [induction (next ▸ rest)]
          simp

/-- Clearing the `qnext` of a buffer that is not queued keeps the queue. -/
theorem chain_store_qnext {st : Ide} {b : Nat} {q : List Nat} (chain : Chain st.link st.idequeue q)
    (fresh : b ∉ q) : Chain (st.store (.qnext b) 0).link (st.store (.qnext b) 0).idequeue q := by
  simp only [store_qnext_idequeue]
  exact chain.frame fun p member => by simp [show p ≠ b from fun same => fresh (same ▸ member)]

/-! ## The routines -/

theorem idestart_ok {b : Nat} {st st' : Ide} (ok : idestart b st = .ok st') :
    b ≠ 0 ∧ st' = { st with
      issued := some b
      disk := if (st.bufs b).flags.dirty then
          Function.update st.disk (target (st.bufs b)) (st.bufs b).data
        else st.disk } := by
  unfold idestart at ok
  split at ok
  · cases ok
  · cases ok
    exact ⟨‹_›, rfl⟩

/-- What `ideintr` does when the queue is not empty: pop the head `b`, complete it, and start the
next request if there is one. -/
theorem ideintr_pop {r b : Nat} {st st' : Ide} (head : st.idequeue = b) (nonzero : b ≠ 0)
    (ok : ideintr r st = .ok st') :
    st'.idequeue = st.link b ∧
      st'.issued = (if st.link b = 0 then st.issued else some (st.link b)) ∧
      st'.bufs = Function.update st.bufs b
        { (if !(st.bufs b).flags.dirty && idewait true r ≥ 0 then
            { st.bufs b with data := st.disk (target (st.bufs b)) } else st.bufs b) with
          flags := { (st.bufs b).flags with valid := true, dirty := false } } := by
  subst head
  unfold ideintr at ok
  simp only [nonzero, if_false] at ok
  split at ok
  · obtain ⟨_, rfl⟩ := idestart_ok ok
    refine ⟨rfl, by rw [if_neg ‹st.link st.idequeue ≠ 0›], ?_⟩
    split <;> rfl
  · cases ok
    refine ⟨rfl, by rw [if_pos (not_not.mp ‹¬st.link st.idequeue ≠ 0›)], ?_⟩
    split <;> rfl

/-- What `iderw` does when it neither panics nor runs out of `fuel`: `b` was out of sync with the
disk, its `qnext` is cleared, it is stored where the walk ended, and it is started if it became
the head. -/
theorem iderw_ok {havedisk1 : Bool} {fuel b : Nat} {st st' : Ide}
    (ok : iderw havedisk1 fuel b st = some (.ok st')) :
    synced (st.bufs b).flags = false ∧ ∃ pp, (st.store (.qnext b) 0).walk fuel .head = some pp ∧
      (if ((st.store (.qnext b) 0).store pp b).idequeue = b then
        idestart b ((st.store (.qnext b) 0).store pp b)
      else .ok ((st.store (.qnext b) 0).store pp b)) = .ok st' := by
  unfold iderw at ok
  simp only at ok
  split at ok
  · cases ok
  split at ok
  · cases ok
  split at ok
  · cases ok
  obtain ⟨pp, walked, result⟩ := Option.map_eq_some'.mp ok
  exact ⟨by simpa using ‹¬synced _ = true›, pp, walked, result⟩

/-- A read that the controller completes with a fault or an error is marked valid all the same,
with its data left as it was. -/
theorem ideintr_faulted {r b : Nat} {st st' : Ide} (head : st.idequeue = b) (nonzero : b ≠ 0)
    (read : (st.bufs b).flags.dirty = false) (faulted : idewait true r = -1)
    (ok : ideintr r st = .ok st') :
    (st'.bufs b).flags.valid = true ∧ (st'.bufs b).data = (st.bufs b).data := by
  obtain ⟨-, -, bufs⟩ := ideintr_pop head nonzero ok
  simp [bufs, read, faulted]

/-- `ideintr` pops the head `b` of the queue: it keeps every link, changes no buffer but `b`, and
issues the next request if there is one. -/
theorem ideintr_chain {r b : Nat} {st st' : Ide} {q : List Nat}
    (chain : Chain st.link st.idequeue (b :: q)) (ok : ideintr r st = .ok st') :
    Chain st'.link st'.idequeue q ∧ st'.issued = q.head?.or st.issued ∧
      ∀ p, p ≠ b → st'.bufs p = st.bufs p := by
  obtain ⟨head, nonzero, rest⟩ := Chain.cons_cons_iff.mp chain
  obtain ⟨popped, issued, bufs⟩ := ideintr_pop head nonzero ok
  have links : st'.link = st.link := by
    funext p
    by_cases same : p = b
    · subst same
      simp only [link, bufs, Function.update_same]
      split <;> rfl
    · simp [link, bufs, same]
  refine ⟨links ▸ popped ▸ rest, ?_, fun p other => by simp [bufs, other]⟩
  rw [issued, rest.head?]
  split <;> rfl

/-- `iderw` appends `b` to a queue that does not hold it, and starts the controller on `b` when
the queue was empty; it changes no buffer's flags. -/
theorem iderw_append {havedisk1 : Bool} {fuel b : Nat} {st st' : Ide} {q : List Nat}
    (chain : Chain st.link st.idequeue q) (fresh : b ∉ q) (nonzero : b ≠ 0)
    (ok : iderw havedisk1 fuel b st = some (.ok st')) :
    Chain st'.link st'.idequeue (q ++ [b]) ∧ st'.issued = (if q = [] then some b else st.issued) ∧
      (∀ p, (st'.bufs p).flags = (st.bufs p).flags) ∧ synced (st.bufs b).flags = false := by
  obtain ⟨unsynced, pp, walked, result⟩ := iderw_ok ok
  have cleared := chain_store_qnext chain fresh
  obtain ⟨-, rfl⟩ := (walk_eq_some cleared).mp walked
  have flags (pp : Slot) (p : Nat) :
      ((((st.store (.qnext b) 0).store pp b)).bufs p).flags = (st.bufs p).flags := by
    rw [store_flags, store_flags]
  cases last : q.getLast? with
  | none =>
      obtain rfl : q = [] := List.getLast?_eq_none_iff.mp last
      simp only [lastSlot, last, store_head_idequeue, if_true] at result
      obtain ⟨-, rfl⟩ := idestart_ok result
      exact ⟨.cons nonzero (Chain.nil_iff.mpr (by simp [link, store, Function.update])), rfl,
        flags .head, unsynced⟩
  | some final =>
      have member : final ∈ q := List.mem_of_getLast?_eq_some last
      have apart : final ≠ b := fun same => fresh (same ▸ member)
      have head : st.idequeue ≠ b := by
        cases q with
        | nil => cases last
        | cons p ps =>
            rw [(Chain.cons_cons_iff.mp chain).1]
            exact fun same => fresh (same ▸ List.mem_cons_self p ps)
      simp only [lastSlot, last, store_qnext_idequeue, head, if_false] at result
      cases result
      refine ⟨?_, by simp [List.ne_nil_of_mem member], flags _, unsynced⟩
      simp only [store_qnext_idequeue]
      refine cleared.snoc last fresh nonzero ?_ ?_ ?_
      · simp [apart.symm]
      · simp
      · intro p _ other
        simp [other]

/-- The walk of `iderw(b)` over a queue without `b` ends within one test more than the queue is
long, so the call returns, having panicked or appended `b`. -/
theorem iderw_isSome {havedisk1 : Bool} {b : Nat} {st : Ide} {q : List Nat}
    (chain : Chain st.link st.idequeue q) (fresh : b ∉ q) :
    (iderw havedisk1 (q.length + 1) b st).isSome := by
  have cleared := chain_store_qnext chain fresh
  unfold iderw
  simp only
  split
  · rfl
  split
  · rfl
  split
  · rfl
  rw [(walk_eq_some cleared).mpr ⟨Nat.lt_succ_self _, rfl⟩]
  rfl

end Ide

end Xv6
