import ReleaseSeal.Archive.Crc32
import Mathlib.Logic.Function.Basic

/-!
# What the checksum tells

The bit that a step shifts out of the register comes back as its highest bit, because the polynomial has
that bit and a shifted register does not. So no step loses anything: the register behind a byte tells
the one in front of it, and what two registers differ in is never made up for by bytes that follow. A
change of one byte, wherever it stands and whatever surrounds it, changes the checksum.

The checksum of a payload can be taken further, as if the payload went on. Where a payload is cut for that
makes no difference.

## Key results

- `crcBit_injective`: a step loses nothing
- `foldl_crcByte_injective`: nor do the bytes that follow
- `crc32_ne_of_replaced`: a byte that is replaced changes the checksum
- `foldl_crc32Onto`: the checksum of a payload that comes in chunks
-/

namespace ReleaseSeal.Archive

/-- Whether a register is odd, as the lowest of its bits. -/
theorem and_one_eq_one_iff {c : UInt32} : c &&& 1 = 1 ↔ c.toBitVec.getLsbD 0 = true := by
  have hbits : (c &&& 1).toBitVec = (BitVec.ofBool (c.toBitVec.getLsbD 0)).setWidth 32 := by
    rw [UInt32.toBitVec_and]
    exact BitVec.and_one_eq_setWidth_ofBool_getLsbD
  rw [← UInt32.toBitVec_inj, hbits]
  cases c.toBitVec.getLsbD 0 <;> decide

/-- The bit that is shifted out comes back as the highest one. -/
theorem getLsbD_crcBit (c : UInt32) :
    (crcBit c).toBitVec.getLsbD 31 = c.toBitVec.getLsbD 0 := by
  unfold crcBit
  split
  · rename_i hodd
    rw [and_one_eq_one_iff.mp hodd]
    simp
  · rename_i heven
    rw [Bool.eq_false_iff.mpr fun h => heven (and_one_eq_one_iff.mpr h)]
    simp

/-- Two registers are the same if they are shifted to the same and are both odd or both even. -/
theorem eq_of_shiftRight_eq {c d : UInt32} (hshift : c >>> 1 = d >>> 1)
    (hlow : c.toBitVec.getLsbD 0 = d.toBitVec.getLsbD 0) : c = d := by
  apply UInt32.toBitVec_inj.mp
  apply BitVec.eq_of_getLsbD_eq
  intro i hi
  cases i with
  | zero => exact hlow
  | succ i =>
    have hbit := congrArg (fun r : UInt32 => r.toBitVec.getLsbD i) hshift
    simpa [Nat.add_comm 1 i] using hbit

/-- A step loses nothing. -/
theorem crcBit_injective : Function.Injective crcBit := by
  intro c d h
  have hlow : c.toBitVec.getLsbD 0 = d.toBitVec.getLsbD 0 := by
    rw [← getLsbD_crcBit, ← getLsbD_crcBit, h]
  have hodd : c &&& 1 = 1 ↔ d &&& 1 = 1 := by
    rw [and_one_eq_one_iff, and_one_eq_one_iff, hlow]
  apply eq_of_shiftRight_eq _ hlow
  -- both steps take the polynomial in, or neither does
  unfold crcBit at h
  by_cases hc : c &&& 1 = 1
  · rw [if_pos hc, if_pos (hodd.mp hc)] at h
    exact UInt32.xor_left_inj _ |>.mp h
  · rwa [if_neg hc, if_neg fun hd => hc (hodd.mpr hd)] at h

/-- The register behind a byte tells what the byte met, the register and the byte together. -/
theorem crcByte_eq_iff {c d : UInt32} {a b : UInt8} :
    crcByte c a = crcByte d b ↔ c ^^^ a.toUInt32 = d ^^^ b.toUInt32 := by
  simp only [crcByte, crcBit_injective.eq_iff]

/-- Bytes that follow do not make up for a difference between registers. -/
theorem foldl_crcByte_injective (bytes : List UInt8) :
    Function.Injective fun c => bytes.foldl crcByte c := by
  induction bytes with
  | nil => exact fun c d h => h
  | cons b bytes ih =>
    intro c d h
    have hfirst : crcByte c b = crcByte d b := ih h
    exact (UInt32.xor_left_inj _).mp (crcByte_eq_iff.mp hfirst)

/-- A byte that is replaced by another one changes the checksum. -/
theorem crc32_ne_of_replaced {x y : ByteArray} {front back : List UInt8} {a b : UInt8} (hne : a ≠ b)
    (hx : x.data.toList = front ++ a :: back) (hy : y.data.toList = front ++ b :: back) :
    crc32 x ≠ crc32 y := by
  intro h
  have hregister : x.data.toList.foldl crcByte 0xffffffff = y.data.toList.foldl crcByte 0xffffffff :=
    UInt32.not_inj.mp h
  rw [hx, hy, List.foldl_append, List.foldl_append, List.foldl_cons, List.foldl_cons] at hregister
  -- in front of the byte nothing differs, so the byte itself would have to be the same
  have hbyte := crcByte_eq_iff.mp (foldl_crcByte_injective back hregister)
  exact hne (UInt8.toUInt32_inj.mp ((UInt32.xor_right_inj _).mp hbyte))

/-! ## Chunks -/

/-- Takes the checksum of a payload further, over a chunk that follows it. -/
def crc32Onto (checksum : UInt32) (chunk : ByteArray) : UInt32 :=
  ~~~(chunk.data.toList.foldl crcByte (~~~checksum))

/-- The register goes on from chunk to chunk, inverted at each end of a chunk. -/
theorem foldl_crc32Onto_from (chunks : List ByteArray) (checksum : UInt32) :
    chunks.foldl crc32Onto checksum =
      ~~~((chunks.flatMap fun chunk => chunk.data.toList).foldl crcByte (~~~checksum)) := by
  induction chunks generalizing checksum with
  | nil => simp
  | cons chunk chunks ih =>
    rw [List.foldl_cons, ih, List.flatMap_cons, List.foldl_append, crc32Onto, UInt32.not_not]

/-- The checksum of a payload is taken chunk by chunk, however it is cut. -/
theorem foldl_crc32Onto {chunks : List ByteArray} {bytes : ByteArray}
    (h : chunks.flatMap (fun chunk => chunk.data.toList) = bytes.data.toList) :
    chunks.foldl crc32Onto 0 = crc32 bytes := by
  rw [foldl_crc32Onto_from, h]
  rfl

end ReleaseSeal.Archive
