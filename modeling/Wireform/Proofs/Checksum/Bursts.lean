import Mathlib.Data.Nat.Bitwise
import Wireform.Proofs.Bytes
import Wireform.Proofs.Checksum.ShiftRegister
import Wireform.Proofs.Checksum.Validation

/-
  Wireform cyclic checks: bursts of errors. The register after some octets is that of the number
  they write, shifted out (`foldl_step_eq_iterate`). Shifts are linear, and none of them loses a
  register of 32 bits (`shift_eq_zero`), so octets that differ within four in a row leave different
  registers (`compute_ne_of_burst`). `detects_burst` takes this to responses: a body with such an
  error does not pass for the one that its checksum was made of.
-/

namespace Wireform.Crc

/-! ## Octets as a number -/

/-- Octets as one number, the first one lowest. -/
def littleEndian : Bytes → Nat
  | [] => 0
  | b :: data => b.toNat ^^^ (littleEndian data <<< 8)

theorem testBit_octet (b : UInt8) {k : Nat} (hk : 8 ≤ k) : b.toNat.testBit k = false := by
  have hb : b.toNat < 2 ^ 8 := b.toNat_lt
  exact Nat.testBit_lt_two_pow (Nat.lt_of_lt_of_le hb (Nat.pow_le_pow_right (by decide) hk))

theorem testBit_littleEndian (data : Bytes) (k : Nat) :
    (littleEndian data).testBit k = (data.getD (k / 8) 0).toNat.testBit (k % 8) := by
  induction data generalizing k with
  | nil => simp [littleEndian]
  | cons b data ih =>
    rw [littleEndian, Nat.testBit_xor, Nat.testBit_shiftLeft]
    by_cases hk : k < 8
    · have hlow : ¬ k ≥ 8 := by omega
      simp [hlow, Nat.div_eq_of_lt hk, Nat.mod_eq_of_lt hk]
    · have hhigh : 8 ≤ k := by omega
      have hindex : k / 8 = (k - 8) / 8 + 1 := by omega
      have hbit : (k - 8) % 8 = k % 8 := by omega
      simp [testBit_octet b hhigh, hindex, ih, hbit, hhigh]

theorem littleEndian_inj {x y : Bytes} (hlen : x.length = y.length)
    (h : littleEndian x = littleEndian y) : x = y := by
  apply List.ext_getElem hlen
  intro i hx hy
  apply UInt8.toNat_inj.mp
  apply Nat.eq_of_testBit_eq
  intro k
  by_cases hk : k < 8
  · have hbit := congrArg (fun n => n.testBit (8 * i + k)) h
    have hindex : (8 * i + k) / 8 = i := by omega
    have hlow : (8 * i + k) % 8 = k := by omega
    simpa [testBit_littleEndian, hindex, hlow, hx, hy] using hbit
  · rw [testBit_octet _ (by omega), testBit_octet _ (by omega)]

/-- Octets of one length that differ at most within `width` in a row. -/
def DiffersWithin (width : Nat) (x y : Bytes) : Prop :=
  x.length = y.length ∧ ∃ i, ∀ j, x[j]? ≠ y[j]? → i ≤ j ∧ j < i + width

theorem testBit_xor_of_same {x y : Bytes} {k : Nat} (h : x[k / 8]? = y[k / 8]?) :
    (littleEndian x ^^^ littleEndian y).testBit k = false := by
  rw [Nat.testBit_xor, testBit_littleEndian, testBit_littleEndian, List.getD_eq_getElem?_getD,
    List.getD_eq_getElem?_getD, h, Bool.xor_self]

/-- A burst is a number of 32 bits that stands somewhere among the octets. -/
theorem exists_burst {x y : Bytes} {i : Nat} (h : ∀ j, x[j]? ≠ y[j]? → i ≤ j ∧ j < i + 4) :
    ∃ d < 2 ^ 32, littleEndian x ^^^ littleEndian y = d <<< (8 * i) := by
  have houtside : ∀ k, k < 8 * i ∨ 8 * i + 32 ≤ k →
      (littleEndian x ^^^ littleEndian y).testBit k = false := by
    intro k hk
    apply testBit_xor_of_same
    by_contra hne
    have := h (k / 8) hne
    omega
  refine ⟨(littleEndian x ^^^ littleEndian y) >>> (8 * i), ?_, ?_⟩
  · apply Nat.lt_pow_two_of_testBit
    intro k hk
    rw [Nat.testBit_shiftRight]
    exact houtside _ (Or.inr (by omega))
  · apply Nat.eq_of_testBit_eq
    intro k
    rw [Nat.testBit_shiftLeft, Nat.testBit_shiftRight]
    by_cases hk : 8 * i ≤ k
    · have hback : 8 * i + (k - 8 * i) = k := by omega
      simp [hk, hback]
    · rw [houtside k (Or.inl (by omega))]
      simp [hk]

/-! ## Shifts lose nothing -/

variable {code : Code} {r : Nat}

theorem polynomial_bounds (code : Code) : 2 ^ 31 ≤ code.polynomial ∧ code.polynomial < 2 ^ 32 := by
  cases code <;> decide

theorem shift_lt (h : r < 2 ^ 32) : shift code.polynomial r < 2 ^ 32 := by
  have hhalf : r >>> 1 < 2 ^ 32 := by
    rw [Nat.shiftRight_eq_div_pow]
    omega
  unfold shift
  split
  · exact Nat.xor_lt_two_pow hhalf (polynomial_bounds code).2
  · exact hhalf

/-- The highest bit of the polynomial tells whether a bit has left the register. -/
theorem shift_eq_zero (h : r < 2 ^ 32) (hzero : shift code.polynomial r = 0) : r = 0 := by
  have hpoly := (polynomial_bounds code).1
  unfold shift at hzero
  rw [Nat.shiftRight_eq_div_pow] at hzero
  split at hzero
  · have hsame := Nat.xor_eq_zero_iff.mp hzero
    omega
  · omega

theorem iterate_shift_eq_zero {n : Nat} (h : r < 2 ^ 32)
    (hzero : (shift code.polynomial)^[n] r = 0) : r = 0 := by
  induction n generalizing r with
  | zero => exact hzero
  | succ n ih =>
    rw [Function.iterate_succ_apply] at hzero
    exact shift_eq_zero h (ih (shift_lt h) hzero)

/-! ## Octets in the register -/

/-- Octets are taken into the register one by one, but what they leave is their number, shifted out
with the register before them. -/
theorem foldl_step_eq_iterate (code : Code) (data : Bytes) (r : Nat) :
    data.foldl (step code.table) r =
      (shift code.polynomial)^[8 * data.length] (r ^^^ littleEndian data) := by
  induction data generalizing r with
  | nil => rw [littleEndian, Nat.xor_zero]; rfl
  | cons b data ih =>
    have hstep : step code.table r b ^^^ littleEndian data =
        (shift code.polynomial)^[8] (r ^^^ littleEndian (b :: data)) := by
      rw [step_eq_shiftOctet, shiftOctet_eq_iterate, littleEndian, ← Nat.xor_assoc,
        iterate_shift_xor 8 (r ^^^ b.toNat), iterate_shift_shiftLeft]
    rw [List.foldl_cons, ih, hstep, ← Function.iterate_add_apply, List.length_cons, Nat.mul_succ]

/-- Registers that start alike differ by the difference of the octets, shifted out. -/
theorem foldl_step_xor (code : Code) {x y : Bytes} (hlen : x.length = y.length) (r : Nat) :
    x.foldl (step code.table) r ^^^ y.foldl (step code.table) r =
      (shift code.polynomial)^[8 * x.length] (littleEndian x ^^^ littleEndian y) := by
  have hcancel : (r ^^^ littleEndian x) ^^^ (r ^^^ littleEndian y) =
      littleEndian x ^^^ littleEndian y := by
    rw [Nat.xor_comm r (littleEndian x), Nat.xor_assoc, Nat.xor_xor_cancel_left]
  rw [foldl_step_eq_iterate, foldl_step_eq_iterate, ← hlen, ← iterate_shift_xor, hcancel]

theorem compute_ne_of_burst (code : Code) (value : Nat) {x y : Bytes} (hne : x ≠ y)
    (h : DiffersWithin 4 x y) : compute code value x ≠ compute code value y := by
  intro hsame
  obtain ⟨hlen, i, hwindow⟩ := h
  obtain ⟨d, hd, hburst⟩ := exists_burst hwindow
  have hi : i < x.length := by
    by_contra hi
    apply hne
    apply List.ext_getElem?
    intro j
    by_contra hj
    have hwithin := hwindow j hj
    rw [List.getElem?_eq_none (by omega), List.getElem?_eq_none (by omega)] at hj
    exact hj rfl
  have hregister : x.foldl (step code.table) (value ^^^ ones) =
      y.foldl (step code.table) (value ^^^ ones) := Nat.xor_left_inj.mp hsame
  -- the burst leaves nothing in the register; the octets before it cost only their shifts
  have hout : (shift code.polynomial)^[8 * (x.length - i)] d = 0 := by
    have hshifts : 8 * x.length = 8 * (x.length - i) + 8 * i := by omega
    have hdifference := foldl_step_xor code hlen (value ^^^ ones)
    rw [hregister, Nat.xor_self, hburst, hshifts, Function.iterate_add_apply,
      iterate_shift_shiftLeft] at hdifference
    exact hdifference.symm
  rw [iterate_shift_eq_zero hd hout, Nat.zero_shiftLeft, Nat.xor_eq_zero_iff] at hburst
  exact hne (littleEndian_inj hlen hburst)

/-! ## Responses -/

/-- The algorithm that a code is used for. -/
def Code.algorithm : Code → Algorithm
  | ieee => .crc32
  | castagnoli => .crc32c

theorem digest_ofBytes (code : Code) (data : Bytes) :
    (Checksum.ofBytes code.algorithm data).digest = Bytes.ofNat 4 (compute code 0 data) := by
  cases code <;> rfl

theorem compute_lt (code : Code) (data : Bytes) : compute code 0 data < 256 ^ 4 := by
  have hones : (0 ^^^ ones : Nat) = (BitVec.allOnes 32).toNat := rfl
  unfold compute run
  rw [hones, foldl_step_toNat, toNat_xor_ones]
  exact BitVec.isLt _

theorem digest_ne_of_burst (code : Code) {x y : Bytes} (hne : x ≠ y) (h : DiffersWithin 4 x y) :
    (Checksum.ofBytes code.algorithm y).digest ≠ (Checksum.ofBytes code.algorithm x).digest := by
  intro hsame
  rw [digest_ofBytes, digest_ofBytes] at hsame
  exact compute_ne_of_burst code 0 hne h
    (Bytes.ofNat_inj (compute_lt code y) (compute_lt code x) hsame).symm

open ChecksumTransfer in
/-- Octets that differ within four in a row have different checks, whatever value they continue. A
response with the check of the one and the octets of the other fails at its end. -/
theorem detects_burst (code : Code) {x y : Bytes} (hne : x ≠ y) (h : DiffersWithin 4 x y) :
    (∀ value, compute code value x ≠ compute code value y) ∧
    ∀ (r : Response) (modeled : List String) (enabled : Bool) (config : ChecksumConfig),
      r.body.Unread → r.body.chunks.flatten = y → ¬Skips enabled config →
      Prefers r.headers modeled code.algorithm (Checksum.headerValue code.algorithm x) →
      ∃ v, validate r modeled enabled config = .ok v ∧
        v.response.body.drain.1 =
          ⟨r.body.chunks, some (.mismatch (Checksum.ofBytes code.algorithm x).digest
            (Checksum.ofBytes code.algorithm y).digest)⟩ := by
  refine ⟨fun value => compute_ne_of_burst code value hne h, ?_⟩
  intro r modeled enabled config hbody hoctets hskip hp
  obtain ⟨v, hok, hdrain⟩ := validate_headerValue hbody hskip hp
  rw [hoctets, if_neg (digest_ne_of_burst code hne h)] at hdrain
  exact ⟨v, hok, hdrain⟩

open ChecksumTransfer in
/-- Two octets of four are hit, in two chunks. -/
theorem detects_burst_across_chunks :
    let x : Bytes := [1, 2, 3, 4]
    let y : Bytes := [1, 8, 9, 4]
    let r : Response := ⟨200, ⟨[(Algorithm.crc32c.headerName, Checksum.headerValue .crc32c x)]⟩,
      .ofStream ⟨[[1, 8], [9, 4]], none, false⟩ (some 4)⟩
    x ≠ y ∧ DiffersWithin 4 x y ∧ r.body.Unread ∧ r.body.chunks.flatten = y ∧
      ¬Skips true .standard ∧
      Prefers r.headers ["CRC32C"] .crc32c (Checksum.headerValue .crc32c x) ∧
      compute .castagnoli 7 x ≠ compute .castagnoli 7 y ∧
      ∃ v, validate r ["CRC32C"] true .standard = .ok v ∧
        v.response.body.drain.1 = ⟨[[1, 8], [9, 4]], some (.mismatch
          (Checksum.ofBytes .crc32c x).digest (Checksum.ofBytes .crc32c y).digest)⟩ := by
  intro x y r
  have hne : x ≠ y := by decide
  have hwithin : DiffersWithin 4 x y := by
    refine ⟨rfl, 1, fun j hj => ?_⟩
    match j, hj with
    | 0, hj => exact absurd rfl hj
    | 1, _ | 2, _ => omega
    | 3, hj => exact absurd rfl hj
    | _ + 4, hj => exact absurd rfl hj
  have hbody : r.body.Unread := Body.unread_ofStream _ _ _
  have hskip : ¬Skips true .standard := by
    rintro ⟨h, -⟩
    cases h
  have hp : Prefers r.headers ["CRC32C"] .crc32c (Checksum.headerValue .crc32c x) := by
    refine ⟨[], [.crc32, .sha1, .sha256], rfl, ⟨⟨"CRC32C", by decide, by decide⟩, ?_⟩, nofun⟩
    simp [r, Headers.get?, Headers.getAll]
  obtain ⟨hcompute, hvalidate⟩ := detects_burst .castagnoli hne hwithin
  exact ⟨hne, hwithin, hbody, rfl, hskip, hp, hcompute 7,
    hvalidate r ["CRC32C"] true .standard hbody rfl hskip hp⟩

end Wireform.Crc
