import FerrumVM.BaseCrc
import FerrumVM.EfiMemory

/-! The CRC-32 of the firmware, in `headers/uefi/crc32.h`, which signs the tables that the loader is given, and the
boot service in `efi/uefi.c` that offers it. It is the CRC-32 of the standard: a remainder modulo 0x104C11DB7. -/

namespace FerrumVM.Efi

open Base Crc Polynomial

def crc32Bit (crc : UInt32) : UInt32 := if crc &&& 1 ≠ 0 then (crc >>> 1) ^^^ 0xEDB88320 else crc >>> 1

def crc32Byte (crc : UInt32) (byte : UInt8) : UInt32 := crc32Bit^[8] (crc ^^^ byte.toUInt32)

def crc32 (m : Memory) (data : UInt64) (length : UInt32) : UInt32 :=
  ~~~(List.range length.toNat).foldl (fun crc i => crc32Byte crc (m (data + UInt64.ofNat i))) 0xFFFFFFFF

def efiCalculateCrc32 (m : Memory) (data dataSize crcOut : UInt64) : EfiStatus × Memory :=
  (.success, if crcOut = 0 then m else m.store crcOut (u32ToLe (crc32 m data dataSize.toUInt32)))

/-! ### The standard -/

/-- The message, bit-reflected: of every byte the lowest bit comes first. -/
def messageBits (bytes : Bytes) : List Bool := bytes.flatMap fun byte => shiftedOut byte.toBitVec

/-- The polynomial with the coefficients 0x104C11DB7. -/
noncomputable def crc32Generator : (ZMod 2)[X] := ofFn 33 fun i => coef ((0x104C11DB7).testBit i)

/-- The remainder of the message times `X ^ 32`, with the first 32 bits complemented; bit-reflected and complemented.
A message of less than 32 bits is complemented together with the zeros behind it. -/
noncomputable def standardCrc32 (bytes : Bytes) : UInt32 :=
  ⟨~~~toRegister 32
    (ofBits (complementFront 32 (messageBits bytes ++ List.replicate 32 false)) %ₘ crc32Generator)⟩

theorem crc32Generator_eq : crc32Generator = generator (0xEDB88320 : BitVec 32) := by
  have hlow : ∀ i < 32, (0x104C11DB7).testBit i = (0xEDB88320 : BitVec 32).getMsbD i := by decide
  ext i
  rw [generator, coeff_add, coeff_X_pow, coeff_ofRegister]
  obtain h | rfl | h := Nat.lt_trichotomy i 32
  · rw [if_neg h.ne, zero_add, ← hlow i h]
    exact ofFn_coeff_eq_val_of_lt _ (h.trans (by decide))
  · rw [crc32Generator, ofFn_coeff_eq_val_of_lt _ (by decide : 32 < 33)]
    rfl
  · rw [if_neg h.ne', BitVec.getMsbD_of_ge _ i h.le]
    exact ofFn_coeff_eq_zero_of_ge _ h

/-! ### The loops -/

theorem toBitVec_crc32Bit (crc : UInt32) : (crc32Bit crc).toBitVec = step 0xEDB88320 crc.toBitVec := by
  have hlow : crc &&& 1 ≠ 0 ↔ crc.toBitVec.getLsbD 0 = true := by
    rw [Ne, ← UInt32.toBitVec_inj, UInt32.toBitVec_and]
    refine (not_congr (Eq.congr_left BitVec.and_one_eq_setWidth_ofBool_getLsbD)).trans ?_
    cases crc.toBitVec.getLsbD 0 <;> decide
  unfold crc32Bit step
  rw [apply_ite UInt32.toBitVec, if_congr hlow rfl rfl]
  rfl

theorem toBitVec_crc32Byte (crc : UInt32) (byte : UInt8) :
    (crc32Byte crc byte).toBitVec = feed 0xEDB88320 crc.toBitVec byte.toBitVec := by
  refine (Function.Semiconj.iterate_right toBitVec_crc32Bit 8 _).trans ?_
  rfl

theorem toBitVec_foldl_crc32Byte (crc : UInt32) (bytes : Bytes) :
    (bytes.foldl crc32Byte crc).toBitVec = (bytes.map UInt8.toBitVec).foldl (feed 0xEDB88320) crc.toBitVec := by
  induction bytes generalizing crc with
  | nil => rfl
  | cons byte bytes ih => rw [List.foldl_cons, ih, toBitVec_crc32Byte, List.map_cons, List.foldl_cons]

/-- **CRC-32.** For every string of less than `2 ^ 32` bytes, wherever it lies in memory, `crc32` is the CRC-32 of the
standard, and so is what the boot service delivers. -/
theorem crc32_is_standard (bytes : Bytes) (hlength : bytes.length < 2 ^ 32) {m : Memory} {data : UInt64}
    (hbytes : m.load data bytes.length = bytes) : crc32 m data (.ofNat bytes.length) = standardCrc32 bytes ∧
      ∀ crcOut ≠ 0, (efiCalculateCrc32 m data (.ofNat bytes.length) crcOut).2.u32 crcOut = standardCrc32 bytes := by
  have hcrc : crc32 m data (.ofNat bytes.length) = standardCrc32 bytes := by
    have hfold : (List.range bytes.length).foldl (fun crc i => crc32Byte crc (m (data + UInt64.ofNat i))) 0xFFFFFFFF =
        bytes.foldl crc32Byte 0xFFFFFFFF := by
      nth_rewrite 2 [← hbytes]
      exact List.foldl_map.symm
    rw [crc32, UInt32.toNat_ofNat_of_lt' hlength, hfold]
    refine UInt32.toBitVec_inj.mp (congrArg (~~~·) ?_)
    rw [crc32Generator_eq, messageBits, ← List.flatMap_map, ← ofRegister_foldl_feed _ _ (by decide), toRegister_ofRegister]
    exact toBitVec_foldl_crc32Byte _ _
  refine ⟨hcrc, fun crcOut hout => ?_⟩
  have hsize : (UInt64.ofNat bytes.length).toUInt32 = UInt32.ofNat bytes.length := by simp
  rw [efiCalculateCrc32, if_neg hout, hsize, hcrc, Memory.u32]
  have hload := @Memory.load_store_self (u32ToLe (standardCrc32 bytes)) m crcOut (by simp)
  rw [length_u32ToLe] at hload
  rw [hload, u32FromLe_toLe]

/-- The check value of the standard. -/
theorem crc32_of_digits : crc32 (fun a => a.toUInt8 + 0x31) 0 9 = 0xCBF43926 ∧
    standardCrc32 [0x31, 0x32, 0x33, 0x34, 0x35, 0x36, 0x37, 0x38, 0x39] = 0xCBF43926 := by
  have hvalue : crc32 (fun a => a.toUInt8 + 0x31) 0 9 = 0xCBF43926 := by decide +kernel
  have hstandard := @crc32_is_standard [0x31, 0x32, 0x33, 0x34, 0x35, 0x36, 0x37, 0x38, 0x39] (by decide)
    (fun a => a.toUInt8 + 0x31) 0 (by decide)
  exact ⟨hvalue, hstandard.1.symm.trans hvalue⟩

end FerrumVM.Efi
