import Mathlib.Algebra.Group.Nat.Defs
import Mathlib.Logic.Function.Iterate
import Wireform.Proofs.Checksum.Increments

/-
  Wireform cyclic checks: the table against the shift register. A shift is linear in the register
  (`shift_xor`), so eight of them are the entry of the table for the low octet and a move of the
  bits above it (`step_eq_shiftOctet`). `compute_eq_bitwise` says that a check is what a register of
  32 bits gives that lets out one bit at a time, and that it can be continued anywhere.
-/

namespace Wireform.Crc

/-! ## The register -/

/-- The bits that a code adds to its register. -/
def Code.mask : Code → BitVec 32
  | ieee => 0xedb88320#32
  | castagnoli => 0x82f63b78#32

/-- The lowest bit leaves the register; if it is set, the mask is added to what stays. -/
def shiftOut (code : Code) (r : BitVec 32) : BitVec 32 :=
  if r.getLsbD 0 then (r >>> 1) ^^^ code.mask else r >>> 1

/-- An octet is added to the lowest bits of the register, and eight bits leave it. -/
def absorb (code : Code) (r : BitVec 32) (b : UInt8) : BitVec 32 :=
  (shiftOut code)^[8] (r ^^^ b.toBitVec.setWidth 32)

/-- The check of octets by a register whose bits are inverted before the first octet and after the
last one. -/
def bitwise (code : Code) (value : BitVec 32) (data : Bytes) : BitVec 32 :=
  ~~~ data.foldl (absorb code) (~~~ value)

/-! ## Shifts are linear -/

variable {poly : Nat}

theorem shift_xor (a b : Nat) : shift poly (a ^^^ b) = shift poly a ^^^ shift poly b := by
  have hlow : (a ^^^ b) % 2 = 1 ↔ ¬ (a % 2 = 1 ↔ b % 2 = 1) := Nat.xor_mod_two_eq_one
  unfold shift
  rw [Nat.shiftRight_xor_distrib]
  -- the polynomial is added for each of the two bits that leave, and twice is not at all
  by_cases ha : a % 2 = 1
  · by_cases hb : b % 2 = 1
    · rw [if_neg fun h => hlow.mp h (iff_of_true ha hb), if_pos ha, if_pos hb,
        Nat.xor_comm (b >>> 1) poly, Nat.xor_assoc, ← Nat.xor_assoc poly, Nat.xor_self,
        Nat.zero_xor]
    · rw [if_pos (hlow.mpr fun h => hb (h.mp ha)), if_pos ha, if_neg hb, Nat.xor_assoc,
        Nat.xor_assoc, Nat.xor_comm (b >>> 1)]
  · by_cases hb : b % 2 = 1
    · rw [if_pos (hlow.mpr fun h => ha (h.mpr hb)), if_neg ha, if_pos hb, Nat.xor_assoc]
    · rw [if_neg fun h => hlow.mp h (iff_of_false ha hb), if_neg ha, if_neg hb]

theorem shiftOctet_eq_iterate (r : Nat) : shiftOctet poly r = (shift poly)^[8] r := by
  unfold shiftOctet
  rw [List.foldl_const, List.length_range]

theorem iterate_shift_xor (n a b : Nat) :
    (shift poly)^[n] (a ^^^ b) = (shift poly)^[n] a ^^^ (shift poly)^[n] b := by
  induction n generalizing a b with
  | zero => rfl
  | succ n ih =>
    simp only [Function.iterate_succ_apply]
    rw [shift_xor, ih]

/-- A register without low bits only moves. -/
theorem iterate_shift_shiftLeft (n r : Nat) : (shift poly)^[n] (r <<< n) = r := by
  induction n with
  | zero => rfl
  | succ n ih =>
    have hshift : shift poly (r <<< (n + 1)) = r <<< n := by
      have heven : r <<< (n + 1) = 2 * (r <<< n) := Nat.shiftLeft_succ r n
      unfold shift
      rw [if_neg (by omega), Nat.shiftRight_eq_div_pow]
      omega
    rw [Function.iterate_succ_apply, hshift, ih]

theorem low_xor_high (r : Nat) : (r &&& 0xff) ^^^ ((r >>> 8) <<< 8) = r := by
  apply Nat.eq_of_testBit_eq
  intro i
  have hmask : (0xff : Nat).testBit i = decide (i < 8) := Nat.testBit_two_pow_sub_one 8 i
  rw [Nat.testBit_xor, Nat.testBit_and, hmask, Nat.testBit_shiftLeft, Nat.testBit_shiftRight]
  by_cases hi : i < 8
  · have hhigh : ¬ 8 ≤ i := by omega
    simp [hi, hhigh]
  · have hhigh : 8 ≤ i := by omega
    have hback : 8 + (i - 8) = i := by omega
    simp [hi, hhigh, hback]

/-- Eight shifts of a register are those of its low octet, and a move of the bits above it. -/
theorem shiftOctet_eq_low (r : Nat) :
    shiftOctet poly r = shiftOctet poly (r &&& 0xff) ^^^ (r >>> 8) := by
  have hsplit : shiftOctet poly r = shiftOctet poly ((r &&& 0xff) ^^^ ((r >>> 8) <<< 8)) := by
    rw [low_xor_high]
  rw [hsplit, shiftOctet_eq_iterate, iterate_shift_xor, iterate_shift_shiftLeft]
  rfl

/-! ## The table -/

theorem table_getD (code : Code) {i : Nat} (hi : i < 256) :
    code.table.getD i 0 = shiftOctet code.polynomial i := by
  have htable : code.table = tableOf code.polynomial := by
    cases code with
    | ieee => rfl
    | castagnoli => rfl
  rw [htable]
  simp [tableOf, hi]

/-- The table does the work of eight shifts on every register. -/
theorem step_eq_shiftOctet (code : Code) (r : Nat) (b : UInt8) :
    step code.table r b = shiftOctet code.polynomial (r ^^^ b.toNat) := by
  have hb : b.toNat < 256 := b.toNat_lt
  have hhigh : (r ^^^ b.toNat) >>> 8 = r >>> 8 := by
    have hzero : b.toNat >>> 8 = 0 := by
      rw [Nat.shiftRight_eq_div_pow]
      omega
    rw [Nat.shiftRight_xor_distrib, hzero, Nat.xor_zero]
  have hlow : (r ^^^ b.toNat) &&& 0xff < 256 := by
    have hle : (r ^^^ b.toNat) &&& 0xff ≤ 0xff := Nat.and_le_right
    omega
  unfold step
  rw [table_getD code hlow, shiftOctet_eq_low (r ^^^ b.toNat), hhigh]

/-! ## Registers as numbers -/

theorem shift_toNat (code : Code) (r : BitVec 32) :
    shift code.polynomial r.toNat = (shiftOut code r).toNat := by
  have hmask : code.mask.toNat = code.polynomial := by
    cases code with
    | ieee => rfl
    | castagnoli => rfl
  have hlow : r.getLsbD 0 = true ↔ r.toNat % 2 = 1 := by
    rw [BitVec.getLsbD, Nat.testBit_zero, decide_eq_true_eq]
  unfold shift shiftOut
  by_cases h : r.toNat % 2 = 1
  · rw [if_pos h, if_pos (hlow.mpr h), BitVec.toNat_xor, BitVec.toNat_ushiftRight, hmask]
  · rw [if_neg h, if_neg (fun hr => h (hlow.mp hr)), BitVec.toNat_ushiftRight]

theorem shiftOctet_toNat (code : Code) (r : BitVec 32) :
    shiftOctet code.polynomial r.toNat = ((shiftOut code)^[8] r).toNat :=
  (Function.Semiconj.iterate_right (f := BitVec.toNat) (fun s => (shift_toNat code s).symm) 8 r).symm

theorem step_toNat (code : Code) (r : BitVec 32) (b : UInt8) :
    step code.table r.toNat b = (absorb code r b).toNat := by
  have hb : b.toNat < 256 := b.toNat_lt
  have hxor : (r ^^^ b.toBitVec.setWidth 32).toNat = r.toNat ^^^ b.toNat := by
    rw [BitVec.toNat_xor, BitVec.toNat_setWidth, UInt8.toNat_toBitVec, Nat.mod_eq_of_lt (by omega)]
  unfold absorb
  rw [step_eq_shiftOctet, ← hxor, shiftOctet_toNat]

theorem foldl_step_toNat (code : Code) (data : Bytes) (r : BitVec 32) :
    data.foldl (step code.table) r.toNat = (data.foldl (absorb code) r).toNat := by
  induction data generalizing r with
  | nil => rfl
  | cons b data ih => rw [List.foldl_cons, List.foldl_cons, step_toNat, ih]

theorem toNat_xor_ones (r : BitVec 32) : r.toNat ^^^ ones = (~~~ r).toNat := by
  rw [← BitVec.xor_allOnes, BitVec.toNat_xor]
  rfl

/-- A check from a table is that of the shift register. It has 32 bits, and further octets go on
from the value of those before them. -/
theorem compute_eq_bitwise (code : Code) (value : BitVec 32) (data : Bytes) :
    compute code value.toNat data = (bitwise code value data).toNat ∧
      compute code value.toNat data < 2 ^ 32 ∧
      ∀ rest : Bytes, compute code (compute code value.toNat data) rest =
        compute code value.toNat (data ++ rest) := by
  have hbits : compute code value.toNat data = (bitwise code value data).toNat := by
    unfold compute run bitwise
    rw [toNat_xor_ones, foldl_step_toNat, toNat_xor_ones]
  refine ⟨hbits, ?_, ?_⟩
  · rw [hbits]
    exact BitVec.isLt _
  · intro rest
    exact (run_append code.table value.toNat data rest).symm

example : bitwise .ieee 0 (Bytes.ofAscii "123456789".toList) = 0xcbf43926#32 := by decide +kernel

example : bitwise .castagnoli 0 (Bytes.ofAscii "123456789".toList) = 0xe3069283#32 := by
  decide +kernel

end Wireform.Crc
