import Mathlib.Data.Bool.AllAny
import Wireform.Number.Real
import Wireform.Number.Shortest
import Wireform.Proofs.Number.Numerals
import Wireform.Proofs.Text.Digits
import Wireform.Proofs.Text.Trim

/-
  Wireform doubles: the whole numbers below 2^53 are doubles, whatever quotient they are rounded
  from, and those below 2^52 are written as their digits with a point and a zero. The shortest
  decimal of such a double has no place behind the point, since its window is smaller than one.
-/

namespace Wireform.Double

/-- The double of a whole number below 2^53. -/
def ofWhole (negative : Bool) (n : Nat) : Double :=
  if n = 0 then .finite negative 0 minExponent
  else .finite negative (n * 2 ^ (52 - n.log2)) (n.log2 - 52)

/-! ## Rounding -/

theorem roundQuotient_mul (a : Nat) {d : Nat} (hd : 0 < d) : roundQuotient (a * d) d = a := by
  unfold roundQuotient
  rw [Nat.mul_div_cancel a hd, Nat.mul_mod_left, if_pos (by omega)]

/-- A quotient that is whole lies between the powers of two that its number lies between. -/
theorem floorLog2_mul {n d : Nat} (hn : n ≠ 0) (hd : d ≠ 0) : floorLog2 (n * d) d = n.log2 := by
  have hnd : n * d ≠ 0 := Nat.mul_ne_zero hn hd
  have hlow : n.log2 + d.log2 ≤ (n * d).log2 := by
    have hpow : 2 ^ (n.log2 + d.log2) ≤ n * d := by
      rw [Nat.pow_add]
      exact Nat.mul_le_mul (Nat.log2_self_le hn) (Nat.log2_self_le hd)
    by_contra h
    exact absurd ((Nat.log2_lt hnd).mp (Nat.not_le.mp h)) (Nat.not_lt.mpr hpow)
  have hhigh : (n * d).log2 < n.log2 + d.log2 + 2 := by
    refine (Nat.log2_lt hnd).mpr ?_
    have hsum : n.log2 + d.log2 + 2 = (n.log2 + 1) + (d.log2 + 1) := by omega
    rw [hsum, Nat.pow_add]
    exact Nat.mul_lt_mul'' Nat.lt_log2_self Nat.lt_log2_self
  have hpos : 0 < d := Nat.pos_of_ne_zero hd
  unfold floorLog2
  dsimp only
  obtain h | h : (n * d).log2 = n.log2 + d.log2 ∨ (n * d).log2 = n.log2 + d.log2 + 1 := by omega
  · have hk : ((n * d).log2 : Int) - d.log2 = n.log2 := by omega
    rw [hk, if_neg]
    have hle := Nat.mul_le_mul_right d (Nat.log2_self_le hn)
    simp only [Int.toNat_natCast, Int.toNat_neg_natCast, Nat.pow_eq, Nat.pow_zero, Nat.mul_one]
    rw [Nat.mul_comm d]
    omega
  · have hk : ((n * d).log2 : Int) - d.log2 = (n.log2 + 1 : Nat) := by omega
    rw [hk, if_pos]
    · omega
    · have hlt := Nat.mul_lt_mul_of_pos_right (Nat.lt_log2_self (n := n)) hpos
      simp only [Int.toNat_natCast, Int.toNat_neg_natCast, Nat.pow_eq, Nat.pow_zero, Nat.mul_one]
      rw [Nat.mul_comm d]
      exact hlt

/-- Below 2^53 whole quotients need no rounding. -/
theorem ofRatio_mul (negative : Bool) {n d : Nat} (hn : n < 2 ^ 53) (hd : 0 < d) :
    ofRatio negative (n * d) d = ofWhole negative n := by
  unfold ofRatio ofWhole
  by_cases hzero : n = 0
  · rw [hzero, Nat.zero_mul, if_pos rfl, if_pos rfl]
  · have hlog : n.log2 < 53 := (Nat.log2_lt hzero).mpr hn
    have hexponent : max ((n.log2 : Int) - 52) minExponent = n.log2 - 52 := by
      unfold minExponent
      omega
    have hdown : (-((n.log2 : Int) - 52)).toNat = 52 - n.log2 := by omega
    have hup : ((n.log2 : Int) - 52).toNat = 0 := by omega
    have hmantissa : n * d * 2 ^ (52 - n.log2) = n * 2 ^ (52 - n.log2) * d :=
      Nat.mul_right_comm n d _
    have hsmall : n * 2 ^ (52 - n.log2) < 2 ^ 53 := by
      have hsum : 2 ^ 53 = 2 ^ (n.log2 + 1) * 2 ^ (52 - n.log2) := by
        rw [← Nat.pow_add]
        congr 1
        omega
      rw [hsum]
      exact Nat.mul_lt_mul_of_pos_right Nat.lt_log2_self (Nat.pow_pos (by decide))
    have hexp : ¬ maxExponent < (n.log2 : Int) - 52 := by
      unfold maxExponent
      omega
    rw [if_neg (Nat.mul_ne_zero hzero (Nat.ne_of_gt hd)), if_neg hzero,
      floorLog2_mul hzero (Nat.ne_of_gt hd)]
    dsimp only
    rw [hexponent, hdown, hup]
    simp only [Nat.pow_eq, Nat.pow_zero, Nat.mul_one]
    rw [hmantissa, roundQuotient_mul _ hd]
    unfold pack
    simp only [Nat.pow_eq]
    rw [if_neg (Nat.ne_of_lt hsmall), if_neg hexp]

/-- The double of a whole number as a quotient. -/
theorem exists_ratio_ofWhole (negative : Bool) {n : Nat} (hn : n < 2 ^ 53) :
    ∃ m q d, ofWhole negative n = .finite negative m q ∧ 0 < d ∧ ratio m q = (n * d, d) := by
  unfold ofWhole
  split
  · next hzero =>
    have hpos : ∀ k, 0 < Nat.pow 2 k := fun k => Nat.pow_pos Nat.zero_lt_two
    refine ⟨0, minExponent, Nat.pow 2 (-minExponent).toNat, rfl, hpos _, ?_⟩
    rw [hzero, ratio, Nat.zero_mul, Nat.zero_mul]
  · next hzero =>
    have hlog : n.log2 < 53 := (Nat.log2_lt hzero).mpr hn
    have hdown : (-((n.log2 : Int) - 52)).toNat = 52 - n.log2 := by omega
    have hup : ((n.log2 : Int) - 52).toNat = 0 := by omega
    refine ⟨_, _, 2 ^ (52 - n.log2), rfl, Nat.pow_pos (by decide), ?_⟩
    unfold ratio
    rw [hdown, hup]
    simp only [Nat.pow_eq, Nat.pow_zero, Nat.mul_one]

/-! ## Reading -/

/-- A whole number with places behind the point that are all zero. -/
theorem ofScientific_mul_pow (negative : Bool) {n : Nat} (hn : n < 2 ^ 53) (k : Nat) :
    ofScientific negative (n * 10 ^ k) (-(k : Int)) = ofWhole negative n := by
  by_cases hzero : n = 0
  · subst hzero
    unfold ofScientific ofWhole
    rw [Nat.zero_mul, if_pos rfl]
    rfl
  have hpos : 0 < n := Nat.pos_of_ne_zero hzero
  have hne : n * 10 ^ k ≠ 0 := Nat.mul_ne_zero hzero (Nat.ne_of_gt (Nat.pow_pos (by decide)))
  have hfew : (Text.ofNat n).length ≤ 16 :=
    (Text.length_ofNat_le_iff (by decide)).mpr (Nat.lt_trans hn (by decide))
  have htop : -(k : Int) + (Text.ofNat (n * 10 ^ k)).length = (Text.ofNat n).length := by
    rw [Text.ofNat_mul_pow hpos, List.length_append, List.length_replicate]
    omega
  have hup : (-(k : Int)).toNat = 0 := by omega
  have hdown : (-(-(k : Int))).toNat = k := by omega
  unfold ofScientific
  dsimp only
  rw [htop, if_neg (by simp only [Bool.or_eq_true, decide_eq_true_eq]; omega), if_neg (by omega),
    hup, hdown]
  simp only [Nat.pow_eq, Nat.pow_zero, Nat.mul_one]
  exact ofRatio_mul negative hn (Nat.pow_pos (by decide))

theorem readParts_ofNat (n : Nat) : Real.readParts (Text.ofNat n) = some ⟨Text.ofNat n, [], 0⟩ := by
  have hread := Real.readParts_chars (p := ⟨Text.ofNat n, [], 0⟩)
    ⟨Text.ofNat_ne_nil n, fun _ => Text.isDigitAscii_of_mem, nofun⟩
  rwa [Real.Parts.chars, if_pos rfl, List.nil_append, Real.exponentChars, if_pos rfl,
    List.append_nil] at hread

theorem readParts_ofNat_point (n : Nat) :
    Real.readParts (Text.ofNat n ++ ['.', '0']) = some ⟨Text.ofNat n, ['0'], 0⟩ :=
  Real.readParts_chars (p := ⟨Text.ofNat n, ['0'], 0⟩)
    ⟨Text.ofNat_ne_nil n, fun _ => Text.isDigitAscii_of_mem, List.forall_mem_singleton.mpr rfl⟩

theorem dropBars_of_not_mem {s : List Char} (h : '_' ∉ s) : Real.dropBars s = some s := by
  have hgo : ∀ before, Real.dropBars.go before s = some s := by
    induction s with
    | nil => exact fun _ => rfl
    | cons c r ih =>
      intro before
      rw [List.mem_cons, not_or] at h
      rw [Real.dropBars.go, if_neg fun hc => h.1 hc.symm, ih h.2]
      rfl
  exact hgo none

/-- A digit and the minus sign are ASCII characters without a meaning of their own. -/
theorem numeral_char {n : Int} {c : Char} (hc : c ∈ Whole.digits n) :
    Text.isAscii c = true ∧ Text.isBlankAscii c = false ∧ c ≠ '_' := by
  have hcases : c ∈ ['-', '0', '1', '2', '3', '4', '5', '6', '7', '8', '9'] := by
    unfold Whole.digits at hc
    split at hc
    · rcases List.mem_cons.mp hc with rfl | h
      · decide
      · exact List.mem_cons_of_mem _ (Text.mem_digits (Text.isDigitAscii_of_mem h))
    · exact List.mem_cons_of_mem _ (Text.mem_digits (Text.isDigitAscii_of_mem hc))
  have hall : ∀ c ∈ ['-', '0', '1', '2', '3', '4', '5', '6', '7', '8', '9'],
      Text.isAscii c = true ∧ Text.isBlankAscii c = false ∧ c ≠ '_' :=
    List.all_iff_forall_prop.mp (by decide)
  exact hall c hcases

/-- The digits of a whole number are read as its double. -/
theorem read_digits {n : Int} (hn : n.natAbs < 2 ^ 53) :
    Real.read (Whole.digits n) = some (ofWhole (decide (n < 0)) n.natAbs) := by
  have hplain : Text.trim Text.isBlankAscii (Text.plainDigits (Whole.digits n)) =
      Whole.digits n := by
    rw [Text.plainDigits_of_isAscii fun c hc => (numeral_char hc).1]
    exact Text.trim_of_forall_not fun c hc => (numeral_char hc).2.1
  have hbars : Real.dropBars (Whole.digits n) = some (Whole.digits n) :=
    dropBars_of_not_mem fun h => (numeral_char h).2.2 rfl
  have hlower : Real.asciiLower (Text.ofNat n.natAbs) = Text.ofNat n.natAbs :=
    Real.asciiLower_of_digits fun _ => Text.isDigitAscii_of_mem
  have hname : ∀ c r, Text.isDigitAscii c = false → Text.ofNat n.natAbs ≠ c :: r := by
    intro c r hc h
    have := Text.isDigitAscii_of_mem (n := n.natAbs) (h ▸ List.mem_cons_self)
    rw [hc] at this
    cases this
  have hnoName : ¬ (decide (Text.ofNat n.natAbs = "inf".toList) ||
      decide (Text.ofNat n.natAbs = "infinity".toList)) = true := by
    rw [Bool.or_eq_true, decide_eq_true_eq, decide_eq_true_eq]
    exact not_or.mpr ⟨hname 'i' _ rfl, hname 'i' _ rfl⟩
  have hnan : Text.ofNat n.natAbs ≠ "nan".toList := hname 'n' _ rfl
  have hscale := ofScientific_mul_pow (decide (n < 0)) hn 0
  rw [Nat.pow_zero, Nat.mul_one] at hscale
  unfold Real.read
  rw [hplain, hbars]
  simp only [Option.bind_eq_bind, Option.bind_some, Whole.takeSign_digits, hlower]
  rw [if_neg hnoName, if_neg hnan, readParts_ofNat, Option.bind_some]
  unfold Real.Parts.coefficient Real.Parts.scale
  rw [List.append_nil, Text.digitsValue_ofNat]
  exact congrArg some hscale

/-! ## Writing -/

/-- A value far from the middle of a window that is scaled with one is not in it. -/
theorem holds_window {m x : Nat} {q : Int} (hm : 0 < m)
    (h : x = 4 * m ∨ x + 8 ≤ 4 * m ∨ 4 * m + 8 ≤ x) :
    (window m q 1).holds x = decide (x = 4 * m) := by
  have hlow : (window m q 1).low = 4 * m - 1 ∨ (window m q 1).low = 4 * m - 2 := by
    unfold window
    dsimp only
    rw [Nat.mul_one]
    split
    · exact .inl rfl
    · exact .inr rfl
  have hhigh : (window m q 1).high = 4 * m + 2 := Nat.mul_one _
  unfold Window.holds
  rw [hhigh, Bool.eq_iff_iff]
  split
  all_goals
    simp only [Bool.and_eq_true, decide_eq_true_eq]
    omega

section

variable {n m k : Nat}

/-- The mantissa and the exponent of the double of a whole number, scaled for its window. -/
theorem exists_finite_ofWhole (negative : Bool) (hn : n ≠ 0) (hsmall : n < 2 ^ 52) :
    ∃ m k : Nat, ofWhole negative n = .finite negative m (2 - k) ∧ 0 < m ∧
      4 * m = n * 2 ^ k ∧ 3 ≤ k := by
  have hlog : n.log2 < 52 := (Nat.log2_lt hn).mpr hsmall
  refine ⟨n * 2 ^ (52 - n.log2), 54 - n.log2, ?_, ?_, ?_, by omega⟩
  · have hexponent : (n.log2 : Int) - 52 = 2 - (54 - n.log2 : Nat) := by omega
    rw [ofWhole, if_neg hn, hexponent]
  · exact Nat.mul_pos (Nat.pos_of_ne_zero hn) (Nat.pow_pos (by decide))
  · have hsum : 54 - n.log2 = 52 - n.log2 + 2 := by omega
    rw [hsum, Nat.pow_add, Nat.mul_comm, Nat.mul_assoc]

/-- The window is smaller than one, so on a grid of whole numbers only the value itself is in it. -/
theorem onGrid?_of_whole {e : Nat} (hpos : 0 < m) (hm : 4 * m = n * 2 ^ k) (hk : 3 ≤ k) :
    onGrid? m (2 - (k : Int)) e = if 10 ^ e ∣ n then some (n / 10 ^ e) else none := by
  have hunit : Nat.pow 2 (2 - (k : Int) - 2).toNat * Nat.pow 10 (-(e : Int)).toNat = 1 := by
    have hzero : (2 - (k : Int) - 2).toNat = 0 := by omega
    have hzero' : (-(e : Int)).toNat = 0 := by omega
    rw [hzero, hzero']
  have hstep : Nat.pow 10 (e : Int).toNat * Nat.pow 2 (2 - (2 - (k : Int))).toNat =
      10 ^ e * 2 ^ k := by
    have hexp : (2 - (2 - (k : Int))).toNat = k := by omega
    rw [hexp, Int.toNat_natCast]
    rfl
  have hvalue : (window m (2 - (k : Int)) 1).value = n * 2 ^ k := by rw [← hm]; exact Nat.mul_one _
  have hwide : 2 ^ 3 ≤ 2 ^ k := Nat.pow_le_pow_right (by decide) hk
  have htwo : 0 < 2 ^ k := Nat.pow_pos (by decide)
  have hten : 0 < 10 ^ e := Nat.pow_pos (by decide)
  have hquotient : n * 2 ^ k / (10 ^ e * 2 ^ k) = n / 10 ^ e := Nat.mul_div_mul_right _ _ htwo
  -- multiples of the power of two lie at least eight apart
  have hfar : ∀ x, (window m (2 - (k : Int)) 1).holds (x * 2 ^ k) = decide (x = n) := by
    intro x
    rw [holds_window hpos]
    · rw [hm, decide_eq_decide]
      exact Nat.mul_left_inj (Nat.ne_of_gt htwo)
    · rw [hm]
      rcases Nat.lt_trichotomy x n with h | h | h
      · have := Nat.mul_le_mul_right (2 ^ k) (Nat.succ_le_of_lt h)
        rw [Nat.succ_mul] at this
        omega
      · exact .inl (by rw [h])
      · have := Nat.mul_le_mul_right (2 ^ k) (Nat.succ_le_of_lt h)
        rw [Nat.succ_mul] at this
        omega
  have hbelow : decide (n / 10 ^ e * 10 ^ e = n) = decide (10 ^ e ∣ n) := by
    rw [decide_eq_decide]
    exact Nat.dvd_iff_div_mul_eq n _ |>.symm
  have habove : decide ((n / 10 ^ e + 1) * 10 ^ e = n) = false := by
    have := Nat.lt_div_mul_add (a := n) hten
    rw [decide_eq_false_iff_not, Nat.succ_mul]
    omega
  unfold onGrid?
  dsimp only
  rw [hunit, hstep, hvalue, hquotient, ← Nat.mul_assoc, ← Nat.mul_assoc, hfar, hfar, hbelow, habove]
  by_cases h : 10 ^ e ∣ n <;> simp [h]

/-- The shortest decimal of a whole number is the number without some of its last zeros. -/
theorem exists_shortest (hn : n ≠ 0) (hsmall : n < 2 ^ 52) (hpos : 0 < m)
    (hm : 4 * m = n * 2 ^ k) (hk : 3 ≤ k) :
    ∃ c e : Nat, shortest m (2 - (k : Int)) = (c, (e : Int)) ∧ n = c * 10 ^ e := by
  have hdigits : 0 < (Text.ofNat n).length := List.length_pos_iff.mpr (Text.ofNat_ne_nil n)
  have hlength : (Text.ofNat n).length ≤ 16 :=
    (Text.length_ofNat_le_iff (by decide)).mpr (Nat.lt_trans hsmall (by decide))
  have htop : floorLog10 (ratio m (2 - (k : Int))).1 (ratio m (2 - (k : Int))).2 =
      ((Text.ofNat n).length : Int) - 1 := by
    have hmantissa : m = n * 2 ^ (k - 2) := by
      have hsum : k = k - 2 + 2 := by omega
      rw [hsum, Nat.pow_add, ← Nat.mul_assoc] at hm
      omega
    have hdown : (-(2 - (k : Int))).toNat = k - 2 := by omega
    have hup : (2 - (k : Int)).toNat = 0 := by omega
    have htwo : 0 < 2 ^ (k - 2) := Nat.pow_pos (by decide)
    have hle : 2 ^ (k - 2) ≤ n * 2 ^ (k - 2) := Nat.le_mul_of_pos_left _ (Nat.pos_of_ne_zero hn)
    unfold floorLog10 ratio
    rw [hdown, hup, hmantissa]
    simp only [Nat.pow_eq, Nat.pow_zero, Nat.mul_one]
    rw [if_pos hle, Nat.mul_div_cancel n htwo]
  -- the places in front of the point come first, and the last of them holds the number
  have hsplit : List.range 17 = List.range (Text.ofNat n).length ++
      (List.range (17 - (Text.ofNat n).length)).map ((Text.ofNat n).length + ·) := by
    rw [← List.range_add]
    congr 1
    omega
  have hplace : ∀ i < (Text.ofNat n).length,
      ((Text.ofNat n).length : Int) - 1 - (i : Nat) = ((Text.ofNat n).length - 1 - i : Nat) := by
    intro i hi
    omega
  obtain ⟨⟨c, e⟩, hfound⟩ : ∃ p, ((List.range (Text.ofNat n).length).findSome? fun i =>
      let e : Int := ((Text.ofNat n).length : Int) - 1 - (i : Nat)
      (onGrid? m (2 - (k : Int)) e).map (·, e)) = some p := by
    rw [← Option.isSome_iff_exists, List.findSome?_isSome_iff]
    refine ⟨(Text.ofNat n).length - 1, List.mem_range.mpr (by omega), ?_⟩
    dsimp only
    have hone : 10 ^ 0 ∣ n := Nat.one_dvd n
    rw [hplace _ (by omega), Nat.sub_self, onGrid?_of_whole hpos hm hk, if_pos hone]
    rfl
  obtain ⟨i, hi, hgrid⟩ := List.exists_of_findSome?_eq_some hfound
  dsimp only at hgrid
  rw [hplace i (List.mem_range.mp hi), onGrid?_of_whole hpos hm hk] at hgrid
  split at hgrid
  · next hdvd =>
    cases hgrid
    refine ⟨_, _, ?_, (Nat.div_mul_cancel hdvd).symm⟩
    unfold shortest
    dsimp only at hfound ⊢
    rw [htop, hsplit, List.findSome?_append, hfound]
    rfl
  · cases hgrid

/-- A whole number below 2^52 is written as its digits with a zero behind the point. -/
theorem text_ofWhole (negative : Bool) (hsmall : n < 2 ^ 52) :
    (ofWhole negative n).text = (if negative then ['-'] else []) ++ Text.ofNat n ++ ['.', '0'] := by
  by_cases hn : n = 0
  · subst hn
    cases negative <;> rfl
  obtain ⟨m, k, hfinite, hpos, hm, hk⟩ := exists_finite_ofWhole negative hn hsmall
  obtain ⟨c, e, hshort, rfl⟩ := exists_shortest hn hsmall hpos hm hk
  have hc : 0 < c := Nat.pos_of_ne_zero fun h => hn (by rw [h, Nat.zero_mul])
  have hdigits := Text.ofNat_mul_pow hc e
  have hlength : (Text.ofNat (c * 10 ^ e)).length ≤ 16 :=
    (Text.length_ofNat_le_iff (by decide)).mpr (Nat.lt_trans hsmall (by decide))
  rw [hdigits, List.length_append, List.length_replicate] at hlength
  have hsome : 0 < (Text.ofNat c).length := List.length_pos_iff.mpr (Text.ofNat_ne_nil c)
  have hbody : positional (Text.trimEnd (· = '0') (Text.ofNat c))
      ((Text.ofNat c).length + e : Nat) = Text.ofNat (c * 10 ^ e) ++ ['.', '0'] := by
    have htrim := Text.length_trimEnd_le (· = '0') (Text.ofNat c)
    have hzeros : (Text.ofNat c).length + e - (Text.trimEnd (· = '0') (Text.ofNat c)).length =
        (Text.ofNat c).length - (Text.trimEnd (· = '0') (Text.ofNat c)).length + e := by omega
    unfold positional
    rw [if_neg (by omega), if_pos (by omega), Int.toNat_natCast, hzeros, List.replicate_add,
      ← List.append_assoc, Text.trimEnd_append_replicate, hdigits]
  have hsignificant : significant m (2 - (k : Int)) =
      (Text.trimEnd (· = '0') (Text.ofNat c), (((Text.ofNat c).length + e : Nat) : Int)) := by
    unfold significant
    rw [hshort]
    rfl
  have hplaces : (decide (-4 < (((Text.ofNat c).length + e : Nat) : Int)) &&
      decide ((((Text.ofNat c).length + e : Nat) : Int) ≤ 16)) = true := by
    simp only [Bool.and_eq_true, decide_eq_true_eq]
    omega
  rw [hfinite]
  unfold text
  dsimp only
  rw [if_neg (Nat.ne_of_gt hpos), hsignificant]
  dsimp only
  rw [if_pos hplaces, hbody]
  cases negative <;> rfl

end

/-! ## Fractions -/

theorem truncate?_ofWhole (negative : Bool) {n : Nat} (hn : n < 2 ^ 53) :
    (ofWhole negative n).truncate? = some (if negative then -(n : Int) else n) := by
  obtain ⟨m, q, d, hfinite, hd, hratio⟩ := exists_ratio_ofWhole negative hn
  rw [hfinite]
  unfold truncate?
  dsimp only
  rw [hratio]
  dsimp only
  rw [Nat.mul_div_cancel n hd]

theorem isWhole_ofWhole (negative : Bool) {n : Nat} (hn : n < 2 ^ 53) :
    (ofWhole negative n).isWhole = true := by
  obtain ⟨m, q, d, hfinite, hd, hratio⟩ := exists_ratio_ofWhole negative hn
  rw [hfinite]
  unfold isWhole
  dsimp only
  rw [hratio]
  dsimp only
  rw [Nat.mul_mod_left]
  rfl

theorem roundPlaces_ofWhole (places : Nat) (negative : Bool) {n : Nat} (hn : n < 2 ^ 53) :
    (ofWhole negative n).roundPlaces places = ofWhole negative n := by
  obtain ⟨m, q, d, hfinite, hd, hratio⟩ := exists_ratio_ofWhole negative hn
  have hround := ofRatio_mul negative hn (d := Nat.pow 10 places) (Nat.pow_pos (by decide))
  rw [hfinite]
  unfold roundPlaces
  dsimp only
  rw [hratio]
  dsimp only
  rw [Nat.mul_right_comm, roundQuotient_mul _ hd, hround, hfinite]

/-- Whether a double is that of a whole number below 2^52. -/
def isSmallWhole : Double → Bool
  | .finite negative m q =>
    let n := (ratio m q).1 / (ratio m q).2
    n < 2 ^ 52 && Double.finite negative m q = ofWhole negative n
  | _ => false

theorem isSmallWhole_iff {x : Double} :
    isSmallWhole x = true ↔ ∃ negative n, n < 2 ^ 52 ∧ x = ofWhole negative n := by
  constructor
  · intro h
    cases x with
    | nan => cases h
    | infinite negative => cases h
    | finite negative m q =>
      simp only [isSmallWhole, Bool.and_eq_true, decide_eq_true_eq] at h
      exact ⟨negative, _, h⟩
  · rintro ⟨negative, n, hn, rfl⟩
    obtain ⟨m, q, d, hfinite, hd, hratio⟩ :=
      exists_ratio_ofWhole negative (Nat.lt_trans hn (by decide))
    have hvalue : (ratio m q).1 / (ratio m q).2 = n := by
      rw [hratio]
      exact Nat.mul_div_cancel n hd
    rw [hfinite]
    simp only [isSmallWhole, Bool.and_eq_true, decide_eq_true_eq, hvalue]
    exact ⟨hn, hfinite.symm⟩

end Wireform.Double
