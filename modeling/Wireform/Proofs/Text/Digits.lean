import Mathlib.Algebra.Ring.Nat
import Mathlib.Data.Bool.AllAny
import Mathlib.Data.List.Basic
import Mathlib.Data.List.TakeWhile
import Wireform.Number.Whole

/-
  Wireform text: the digits of a natural number. They give the number back, and a number times a
  power of ten has the same digits with zeros behind them.
-/

namespace Wireform.Text

theorem mem_digits {c : Char} (hc : isDigitAscii c = true) :
    c ∈ ['0', '1', '2', '3', '4', '5', '6', '7', '8', '9'] := by
  have hall : ∀ n < 58, 48 ≤ n →
      Char.ofNat n ∈ ['0', '1', '2', '3', '4', '5', '6', '7', '8', '9'] := by decide
  simp only [isDigitAscii, Bool.and_eq_true, decide_eq_true_eq] at hc
  have hlow : 48 ≤ c.toNat := hc.1
  have hhigh : c.toNat ≤ 57 := hc.2
  have hmem := hall c.toNat (by omega) hlow
  rwa [Char.ofNat_toNat] at hmem

/-- A digit is an ASCII character without case, and neither white space nor a sign. -/
theorem digit_char {c : Char} (hc : isDigitAscii c = true) : isAscii c = true ∧
    isUpperAscii c = false ∧ isBlankAscii c = false ∧ c ≠ '-' ∧ c ≠ '+' := by
  have hall : ∀ c ∈ ['0', '1', '2', '3', '4', '5', '6', '7', '8', '9'], isAscii c = true ∧
      isUpperAscii c = false ∧ isBlankAscii c = false ∧ c ≠ '-' ∧ c ≠ '+' :=
    List.all_iff_forall_prop.mp (by decide)
  exact hall c (mem_digits hc)

theorem isDigitAscii_of_mem {n : Nat} {c : Char} (hc : c ∈ ofNat n) : isDigitAscii c = true := by
  have hdigit : c.isDigit = true := Nat.isDigit_of_mem_toDigits (by decide) (by decide) hc
  simpa [isDigitAscii, Char.isDigit, Char.le_def] using hdigit

theorem takeWhile_ofNat (n : Nat) (r : List Char) :
    (ofNat n ++ r).takeWhile isDigitAscii = ofNat n ++ r.takeWhile isDigitAscii :=
  List.takeWhile_append_of_pos fun _ hc => isDigitAscii_of_mem hc

theorem ofNat_ne_nil (n : Nat) : ofNat n ≠ [] := Nat.toDigits_ne_nil

theorem digitsValue_append (s : List Char) (c : Char) :
    digitsValue (s ++ [c]) = 10 * digitsValue s + asciiDigitValue c := by
  unfold digitsValue
  rw [List.foldl_append]
  rfl

/-- Zeros in front add nothing. -/
theorem digitsValue_zeros_append (k : Nat) (ds : List Char) :
    digitsValue (List.replicate k '0' ++ ds) = digitsValue ds := by
  have hzeros : (List.replicate k '0').foldl (fun n d => 10 * n + asciiDigitValue d) 0 = 0 := by
    induction k with
    | zero => rfl
    | succ k ih => exact ih
  unfold digitsValue
  rw [List.foldl_append, hzeros]

/-- The digits of a number are those of its tenth and one more. -/
theorem digitsValue_ofNat (n : Nat) : digitsValue (ofNat n) = n := by
  have hvalue : ∀ d < 10, asciiDigitValue (Nat.digitChar d) = d := by decide
  induction n using Nat.strongRecOn with
  | ind n ih =>
    unfold ofNat at ih ⊢
    rw [Nat.toDigits_eq_if (by decide)]
    split
    · next hn => simp [digitsValue, hvalue n hn]
    · rw [digitsValue_append, ih (n / 10) (by omega), hvalue _ (Nat.mod_lt n (by decide))]
      omega

/-- Only zero starts with a zero. -/
theorem ofNat_head (n : Nat) : (ofNat n).head? = some '0' → n = 0 := by
  have hzero : ∀ d < 10, Nat.digitChar d = '0' → d = 0 := by decide
  induction n using Nat.strongRecOn with
  | ind n ih =>
    unfold ofNat at ih ⊢
    rw [Nat.toDigits_eq_if (by decide)]
    split
    · next hn => exact fun h => hzero n hn (Option.some.inj h)
    · intro h
      rw [List.head?_append_of_ne_nil _ Nat.toDigits_ne_nil] at h
      have := ih (n / 10) (by omega) h
      omega

theorem length_ofNat_le_iff {n k : Nat} (hk : 0 < k) : (ofNat n).length ≤ k ↔ n < 10 ^ k :=
  Nat.length_toDigits_le_iff (by decide) hk

theorem ofNat_mul_pow {n : Nat} (hn : 0 < n) (e : Nat) :
    ofNat (n * 10 ^ e) = ofNat n ++ List.replicate e '0' := by
  induction e with
  | zero => rw [Nat.pow_zero, Nat.mul_one, List.replicate_zero, List.append_nil]
  | succ e ih =>
    have hpos : 0 < n * 10 ^ e := Nat.mul_pos hn (Nat.pow_pos (by decide))
    have hten : n * 10 ^ (e + 1) = 10 * (n * 10 ^ e) + 0 := by
      rw [Nat.pow_succ, ← Nat.mul_assoc, Nat.mul_comm, Nat.add_zero]
    have hlast := Nat.toDigits_append_toDigits (b := 10) (d := 0) (by decide) hpos (by decide)
    rw [hten, List.replicate_succ', ← List.append_assoc, ← ih]
    exact hlast.symm

/-- ASCII characters stay as they are when digits are made plain. -/
theorem plainDigits_of_isAscii {s : List Char} (h : ∀ c ∈ s, isAscii c = true) :
    plainDigits s = s := by
  unfold plainDigits
  refine (List.map_congr_left fun c hc => ?_).trans (List.map_id s)
  exact if_pos (h c hc)

/-- A whole number can be written if it has few enough digits. -/
theorem isSome_write?_iff {n : Int} :
    (Whole.write? n).isSome = true ↔ (ofNat n.natAbs).length ≤ Whole.maxDigits := by
  have hlength : ∀ {k}, 0 < k → ((ofNat n.natAbs).length ≤ k ↔ n.natAbs < Nat.pow 10 k) :=
    fun hk => length_ofNat_le_iff hk
  rw [hlength (by decide)]
  unfold Whole.write?
  split
  · next h => exact iff_of_true rfl h
  · next h => exact iff_of_false Bool.false_ne_true h

end Wireform.Text

namespace Wireform.Whole

theorem wellSpaced_of_not_mem {s : List Char} (h : '_' ∉ s) : wellSpaced s = true := by
  induction s with
  | nil => rfl
  | cons c s ih =>
    rw [List.mem_cons, not_or] at h
    unfold wellSpaced
    split
    · next heq =>
      cases heq
      exact absurd rfl h.1
    · next heq =>
      cases heq
      exact absurd rfl h.1
    · next heq =>
      cases heq
      exact ih h.2
    · next heq => cases heq

theorem isDigitOrBar_of_isDigitAscii {c : Char} (h : Text.isDigitAscii c = true) :
    isDigitOrBar c = true := by
  unfold isDigitOrBar
  rw [h, Bool.true_or]

theorem readDigits_of_digits {s : List Char} (hne : s ≠ [])
    (hs : ∀ c ∈ s, Text.isDigitAscii c = true) (hlength : s.length ≤ maxDigits) :
    readDigits s = .ok (Text.digitsValue s) := by
  have hbar : '_' ∉ s := fun h => absurd (hs '_' h) (by decide)
  have hrun : ∀ c ∈ s, isDigitOrBar c = true := fun c hc => isDigitOrBar_of_isDigitAscii (hs c hc)
  have htake : s.takeWhile isDigitOrBar = s := List.takeWhile_eq_self_iff.mpr hrun
  have hdrop : s.dropWhile isDigitOrBar = [] := List.dropWhile_eq_nil_iff.mpr hrun
  have hdigits : s.filter Text.isDigitAscii = s := List.filter_eq_self.mpr hs
  have hhead : ¬ (s.head? = none ∨ s.head? = some '_') := by
    rintro (h | h)
    · exact hne (List.head?_eq_none_iff.mp h)
    · exact hbar (List.mem_of_mem_head? h)
  unfold readDigits
  dsimp only
  rw [htake, hdrop, hdigits, wellSpaced_of_not_mem hbar, if_neg (by simpa using hhead),
    if_neg (Nat.not_lt.mpr hlength)]
  rfl

/-- The sign in front of a text that has none of its own. -/
theorem takeSign_signed (negative : Bool) {c : Char} (hminus : c ≠ '-') (hplus : c ≠ '+')
    (r : List Char) : takeSign ((if negative then ['-'] else []) ++ c :: r) = (negative, c :: r) := by
  cases negative with
  | true => rfl
  | false =>
    rw [if_neg Bool.false_ne_true, List.nil_append]
    unfold takeSign
    split
    · next h => exact absurd (List.cons.inj h).1 hminus
    · next h => exact absurd (List.cons.inj h).1 hplus
    · rfl

/-- Digits behind a sign are read as the number that they write. -/
theorem read_signed_digits (negative : Bool) {s : List Char} (hne : s ≠ [])
    (hs : ∀ c ∈ s, Text.isDigitAscii c = true) (hlength : s.length ≤ maxDigits) :
    read ((if negative then ['-'] else []) ++ s) =
      .ok (if negative then -(Text.digitsValue s : Int) else Text.digitsValue s) := by
  obtain ⟨c, r, rfl⟩ := List.exists_cons_of_ne_nil hne
  obtain ⟨-, -, hblank, hminus, hplus⟩ := Text.digit_char (hs c List.mem_cons_self)
  have hascii : ∀ x ∈ (if negative then ['-'] else []) ++ c :: r, Text.isAscii x = true := by
    have hsign : ∀ negative : Bool,
        (if negative then ['-'] else []).all Text.isAscii = true := by decide
    intro x hx
    rcases List.mem_append.mp hx with hx | hx
    · exact List.all_eq_true.mp (hsign negative) x hx
    · exact (Text.digit_char (hs x hx)).1
  have hstart : ((if negative then ['-'] else []) ++ c :: r).dropWhile Text.isBlankAscii =
      (if negative then ['-'] else []) ++ c :: r := by
    cases negative with
    | true => rfl
    | false => exact List.dropWhile_cons_of_neg (by rw [hblank]; exact Bool.false_ne_true)
  unfold read
  rw [Text.plainDigits_of_isAscii hascii, hstart, takeSign_signed negative hminus hplus]
  dsimp only
  rw [readDigits_of_digits hne hs hlength]
  rfl

theorem read_of_digits {s : List Char} (hne : s ≠ [])
    (hs : ∀ c ∈ s, Text.isDigitAscii c = true) (hlength : s.length ≤ maxDigits) :
    read s = .ok (Text.digitsValue s : Nat) :=
  read_signed_digits false hne hs hlength

theorem digits_eq (n : Int) :
    digits n = (if decide (n < 0) then ['-'] else []) ++ Text.ofNat n.natAbs := by
  unfold digits
  by_cases h : n < 0
  · rw [if_pos h, decide_eq_true h]
    rfl
  · rw [if_neg h, decide_eq_false h]
    rfl

/-- A whole number is read back from its text. -/
theorem read_digits {n : Int} (h : (Text.ofNat n.natAbs).length ≤ maxDigits) :
    read (digits n) = .ok n := by
  rw [digits_eq, read_signed_digits _ (Text.ofNat_ne_nil _) (fun _ => Text.isDigitAscii_of_mem) h,
    Text.digitsValue_ofNat]
  refine congrArg Except.ok ?_
  by_cases hn : n < 0
  · rw [decide_eq_true hn, if_pos rfl]
    omega
  · rw [decide_eq_false hn, if_neg Bool.false_ne_true]
    omega

theorem takeSign_digits (n : Int) :
    takeSign (digits n) = (decide (n < 0), Text.ofNat n.natAbs) := by
  obtain ⟨c, r, hcr⟩ := List.exists_cons_of_ne_nil (Text.ofNat_ne_nil n.natAbs)
  obtain ⟨-, -, -, hminus, hplus⟩ :=
    Text.digit_char (Text.isDigitAscii_of_mem (n := n.natAbs) (hcr ▸ List.mem_cons_self))
  rw [digits_eq, hcr]
  exact takeSign_signed _ hminus hplus r

end Wireform.Whole
