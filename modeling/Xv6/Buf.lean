import Mathlib.Data.Fintype.Basic

/-!
# Blocks and buffers

A disk block and the fields of `struct buf` that the log layer and the IDE driver use; each bit
of the flag word is one boolean.
-/

namespace Xv6

/-- Modelled from the spec: a sector is 512 bytes, that is 128 32-bit transfer words. -/
def BSIZE : Nat := 512

/-- A disk block, as the 128 32-bit words that `insl` and `outsl` transfer and that
`struct logheader` overlays. -/
abbrev Block := Fin 128 → Int

/-- The bits of `b->flags` that the log and the driver test and set. -/
structure BufFlags where
  /-- `B_BUSY`: a process holds the buffer. -/
  busy : Bool
  /-- `B_VALID`: the buffer holds the sector's contents. -/
  valid : Bool
  /-- `B_DIRTY`: the buffer must be written to disk. -/
  dirty : Bool
  deriving DecidableEq, Repr

/-- `struct buf`, without the cache's list links. -/
structure Buf where
  /-- `B_BUSY`, `B_VALID` and `B_DIRTY`. -/
  flags : BufFlags
  /-- Device number. -/
  dev : Nat
  /-- Sector number on the device. -/
  sector : Nat
  /-- Address of the next buffer in the IDE queue, `0` for none. -/
  qnext : Nat
  /-- The block's contents. -/
  data : Block

end Xv6
