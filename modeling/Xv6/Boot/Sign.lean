import Xv6.Boot.Readseg

/-!
# Signing the boot block

`sign.pl` pads a boot block of at most 510 bytes with zeros and appends the signature
`0x55, 0xAA` the BIOS looks for; a larger block is refused and the file left as it was.
-/

namespace Xv6

namespace Boot

/-- What a run of `sign.pl` leaves behind. -/
structure Signed where
  /-- The line it prints to standard error. -/
  stderr : String
  /-- Its exit status. -/
  status : Nat
  /-- The file afterwards: rewritten only when the block fits. -/
  file : List UInt8
  deriving DecidableEq, Repr

/-- `sign.pl` on the contents of its file; `sysread(SIG, $buf, 1000)` takes at most 1000
bytes. -/
def sign (file : List UInt8) : Signed :=
  let buf := file.take 1000
  let n := buf.length
  if n > 510 then ⟨"boot block too large: " ++ toString n ++ " bytes (max 510)\n", 1, file⟩
  else ⟨"boot block is " ++ toString n ++ " bytes (max 510)\n", 0,
    buf ++ List.replicate (510 - n) 0 ++ [0x55, 0xAA]⟩

/-- What the BIOS asks of the sector it boots from: 512 bytes that end in `0x55, 0xAA`. -/
def BootSector (sector : List UInt8) : Prop :=
  sector.length = SECTSIZE ∧ sector.drop 510 = [0x55, 0xAA]

instance : DecidablePred BootSector := fun _ => inferInstanceAs (Decidable (_ ∧ _))

/-- A block of at most 510 bytes is accepted and becomes a boot sector that begins with the
block and holds zeros up to the signature. -/
theorem sign_signs {file : List UInt8} (small : file.length ≤ 510) :
    (sign file).stderr = "boot block is " ++ toString file.length ++ " bytes (max 510)\n" ∧
      (sign file).status = 0 ∧ BootSector (sign file).file ∧ file <+: (sign file).file ∧
      ∀ i, file.length ≤ i → i < 510 → (sign file).file[i]? = some 0 := by
  have whole : file.take 1000 = file := List.take_of_length_le (by omega)
  simp only [sign, whole, if_neg (show ¬file.length > 510 by omega), true_and]
  refine ⟨⟨by simp [SECTSIZE]; omega, List.drop_left' (by simp; omega)⟩,
    List.append_assoc .. ▸ List.prefix_append _ _, fun i above below => ?_⟩
  rw [List.append_assoc, List.getElem?_append_right above,
    List.getElem?_append_left (by simp; omega), List.getElem?_replicate, if_pos (by omega)]

/-- A larger block is refused with exit status 1, leaving the file as it was.  The message gives
the bytes read, which stop at 1000. -/
theorem sign_refuses {file : List UInt8} (large : 510 < file.length) :
    (sign file).stderr =
        "boot block too large: " ++ toString (min file.length 1000) ++ " bytes (max 510)\n" ∧
      (sign file).status = 1 ∧ (sign file).file = file := by
  have read : (file.take 1000).length = min file.length 1000 := by
    rw [List.length_take, Nat.min_comm]
  simp only [sign, read, if_pos (show min file.length 1000 > 510 by omega), and_self]

end Boot

end Xv6
