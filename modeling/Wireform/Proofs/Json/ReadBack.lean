import Wireform.Json.Octets
import Wireform.Json.Writer
import Wireform.Proofs.Number.WholeDoubles
import Wireform.Proofs.Outcome

/-
  Wireform JSON text: a document whose doubles are small whole numbers is read back from its compact
  text. A run over the tokens of a text goes from place to place, and over the text of a document it
  goes to the place behind that document.
-/

namespace Wireform.Json

/-! ## Texts in quotes -/

theorem hexValue?_hexDigit {n : Nat} (h : n < 16) : hexValue? (Text.hexDigit n) = some n := by
  have hall : ∀ n < 16, hexValue? (Text.hexDigit n) = some n := by decide
  exact hall n h

/-- The code unit of four digits. -/
theorem exists_unitEscape {n : Nat} (h : n < 0x10000) : ∃ a b c d,
    unitEscape n = ['\\', 'u', a, b, c, d] ∧ unit? a b c d = some n := by
  refine ⟨_, _, _, _, rfl, ?_⟩
  have hdigit : ∀ k, hexValue? (Text.hexDigit (k % 16)) = some (k % 16) := fun k =>
    hexValue?_hexDigit (Nat.mod_lt k (by decide))
  unfold unit?
  simp only [hdigit, Option.bind_eq_bind, Option.bind_some, Option.pure_def, Option.some.injEq]
  omega

/-- A character is no half of a pair of code units. -/
theorem toNat_cases (c : Char) : isHighUnit c.toNat = false ∧ isLowUnit c.toNat = false ∧
    c.toNat < 0x110000 := by
  have hvalid : c.toNat < 0xd800 ∨ 0xdfff < c.toNat ∧ c.toNat < 0x110000 := c.valid
  simp only [isHighUnit, isLowUnit, Bool.and_eq_false_iff, decide_eq_false_iff_not]
  omega

section

variable {a b c d e f g h x y : Char} {m n : Nat}

theorem readText_plain (hlow : 0x20 ≤ c.toNat) (hquote : c ≠ '"') (hslash : c ≠ '\\')
    (r : List Char) : readText (c :: r) = (readText r).map fun (s, t) => (c :: s, t) := by
  have hplain : ¬ (c.toNat < 0x20 || c = '\\') = true := by simp [hslash, hlow]
  rw [readText.eq_6 c r hquote (fun _ _ _ _ _ _ _ _ _ h => absurd h hslash)
    (fun _ _ _ _ _ h => absurd h hslash) fun _ _ h => absurd h hslash, if_neg hplain]

theorem readText_escape (hx : x ≠ 'u') (hy : escape? x = some y) (r : List Char) :
    readText ('\\' :: x :: r) = (readText r).map fun (s, t) => (y :: s, t) := by
  rw [readText.eq_5 x r (fun _ _ _ _ _ _ _ _ _ h => absurd h hx)
    fun _ _ _ _ _ h => absurd h hx, hy]

theorem readText_pair (hm : unit? a b c d = some m) (hn : unit? e f g h = some n)
    (hhigh : isHighUnit m = true) (hlow : isLowUnit n = true) (r : List Char) :
    readText ('\\' :: 'u' :: a :: b :: c :: d :: '\\' :: 'u' :: e :: f :: g :: h :: r) =
      (readText r).map fun (s, t) => (joinUnits m n :: s, t) := by
  simp only [readText.eq_3, hm, hn, hhigh, hlow, Bool.and_self, if_true]

/-- A code unit that is no half of a pair is read alone, also in front of another one. -/
theorem readText_unit (hm : unit? a b c d = some m) (hhigh : isHighUnit m = false)
    (r : List Char) :
    readText ('\\' :: 'u' :: a :: b :: c :: d :: r) =
      (readText r).map fun (s, t) => (unitChar m :: s, t) := by
  by_cases hr : ∃ e f g h r', r = '\\' :: 'u' :: e :: f :: g :: h :: r'
  · obtain ⟨e, f, g, h, r', rfl⟩ := hr
    rw [readText.eq_3, hm]
    cases unit? e f g h with
    | none => rfl
    | some n => simp only [hhigh, Bool.false_and, Bool.false_eq_true, if_false]
  · rw [readText.eq_4 a b c d r fun e f g h r' he => hr ⟨e, f, g, h, r', he⟩, hm]

end

theorem unitChar_toNat (c : Char) : unitChar c.toNat = c := by
  obtain ⟨hhigh, hlow, -⟩ := toNat_cases c
  simp [unitChar, hhigh, hlow]

/-- One character is read back from its escape, whatever follows. -/
theorem readText_escapeChar (c : Char) (r : List Char) :
    readText (escapeChar c ++ r) = (readText r).map fun (s, t) => (c :: s, t) := by
  obtain ⟨hhigh, -, hlimit⟩ := toNat_cases c
  by_cases hshort : c ∈ ['"', '\\', '\n', '\r', '\t', '\x08', '\x0c']
  · simp only [List.mem_cons, List.not_mem_nil, or_false] at hshort
    obtain rfl | rfl | rfl | rfl | rfl | rfl | rfl := hshort
    all_goals exact readText_escape (by decide) rfl r
  simp only [List.mem_cons, List.not_mem_nil, or_false, not_or] at hshort
  obtain ⟨hquote, hslash, hline, hreturn, htab, hback, hfeed⟩ := hshort
  rw [escapeChar, if_neg hquote, if_neg hslash, if_neg hline, if_neg hreturn, if_neg htab,
    if_neg hback, if_neg hfeed]
  split
  · next hc =>
    simp only [Bool.and_eq_true, decide_eq_true_eq] at hc
    exact readText_plain hc.1 hquote hslash r
  split
  · next hsmall =>
    obtain ⟨a, b, x, y, hunit, hvalue⟩ := exists_unitEscape hsmall
    have hread := readText_unit hvalue hhigh r
    rw [unitChar_toNat] at hread
    rwa [hunit]
  · next hlarge =>
    -- a pair of code units, of which neither can be read alone
    have hhalf : (c.toNat - 0x10000) / 1024 < 1024 := by omega
    obtain ⟨a, b, x, y, hunit, hvalue⟩ :=
      exists_unitEscape (n := 0xd800 + (c.toNat - 0x10000) / 1024) (by omega)
    obtain ⟨a', b', x', y', hunit', hvalue'⟩ :=
      exists_unitEscape (n := 0xdc00 + (c.toNat - 0x10000) % 1024) (by omega)
    have hjoined : joinUnits (0xd800 + (c.toNat - 0x10000) / 1024)
        (0xdc00 + (c.toNat - 0x10000) % 1024) = c := by
      have hcode : 0x10000 + (0xd800 + (c.toNat - 0x10000) / 1024 - 0xd800) * 1024 +
          (0xdc00 + (c.toNat - 0x10000) % 1024 - 0xdc00) = c.toNat := by omega
      rw [joinUnits, hcode, Char.ofNat_toNat]
    have hread := readText_pair hvalue hvalue' (by simp [isHighUnit]; omega)
      (by simp [isLowUnit]; omega) r
    rw [hjoined] at hread
    rwa [hunit, hunit']

theorem readText_flatMap (s r : List Char) :
    readText (s.flatMap escapeChar ++ '"' :: r) = some (s, r) := by
  induction s with
  | nil => rw [List.flatMap_nil, List.nil_append, readText_close]
  | cons c s ih =>
    rw [List.flatMap_cons, List.append_assoc, readText_escapeChar, ih]
    rfl

/-! ## Whole numbers -/

/-- What may follow a number inside a document. -/
def Ends (r : List Char) : Prop := ∀ c ∈ r.head?, c ∈ [',', ']', '\x7d']

theorem Ends.takeWhile {r : List Char} (hr : Ends r) : r.takeWhile Text.isDigitAscii = [] := by
  cases r with
  | nil => rfl
  | cons c r =>
    have hc := hr c rfl
    have hdigit : Text.isDigitAscii c = false := by
      simp only [List.mem_cons, List.not_mem_nil, or_false] at hc
      obtain rfl | rfl | rfl := hc
      all_goals rfl
    rw [List.takeWhile_cons, hdigit]
    rfl

theorem wholeDigits_ofNat (n : Nat) {r : List Char} (hr : r.takeWhile Text.isDigitAscii = []) :
    wholeDigits (Text.ofNat n ++ r) = Text.ofNat n := by
  by_cases hn : n = 0
  · subst hn
    rfl
  · have hdigits : (Text.ofNat n ++ r).takeWhile Text.isDigitAscii = Text.ofNat n := by
      rw [Text.takeWhile_ofNat, hr, List.append_nil]
    unfold wholeDigits
    split
    · next hzero =>
      have hhead : (Text.ofNat n).head? = some '0' := by
        have hsame : (Text.ofNat n ++ r).head? = (Text.ofNat n).head? :=
          List.head?_append_of_ne_nil _ (Text.ofNat_ne_nil n)
        rw [← hsame, hzero]
        rfl
      exact absurd (Text.ofNat_head n hhead) hn
    · exact hdigits

theorem Ends.no_parts {r : List Char} (hr : Ends r) :
    fractionPart r = [] ∧ exponentPart r = [] := by
  cases r with
  | nil => exact ⟨rfl, rfl⟩
  | cons c r =>
    have hc := hr c rfl
    simp only [List.mem_cons, List.not_mem_nil, or_false] at hc
    obtain rfl | rfl | rfl := hc
    all_goals exact ⟨rfl, rfl⟩

theorem readNumber_ofNat {negative : Bool} {n : Nat} {r : List Char} (hr : Ends r)
    (hlength : (Text.ofNat n).length ≤ Whole.maxDigits) :
    readNumber negative (Text.ofNat n ++ r) =
      some (.scalar (.whole (if negative then -n else n)), (Text.ofNat n).length) := by
  obtain ⟨hfraction, hexponent⟩ := hr.no_parts
  have hempty : (Text.ofNat n).isEmpty = false :=
    List.isEmpty_eq_false_iff.mpr (Text.ofNat_ne_nil n)
  unfold readNumber
  simp only [wholeDigits_ofNat n hr.takeWhile, hempty, List.drop_left, hfraction, List.length_nil,
    Nat.add_zero, hexponent, List.isEmpty_nil, Bool.and_self, if_true, Bool.false_eq_true,
    if_false, if_neg (Nat.not_lt.mpr hlength), Text.digitsValue_ofNat]

/-- A whole number with a zero behind its point is a double. -/
theorem readNumber_ofNat_point {negative : Bool} {n : Nat} {r : List Char} (hr : Ends r)
    (hn : n < 2 ^ 53) :
    readNumber negative (Text.ofNat n ++ ['.', '0'] ++ r) =
      some (.scalar (.real (.ofWhole negative n)), (Text.ofNat n ++ ['.', '0']).length) := by
  obtain ⟨-, hexponent⟩ := hr.no_parts
  have hempty : (Text.ofNat n).isEmpty = false :=
    List.isEmpty_eq_false_iff.mpr (Text.ofNat_ne_nil n)
  have hwhole : wholeDigits (Text.ofNat n ++ (['.', '0'] ++ r)) = Text.ofNat n :=
    wholeDigits_ofNat n rfl
  have hfraction : fractionPart (['.', '0'] ++ r) = ['.', '0'] := by
    have hzero : ∀ c ∈ ['0'], Text.isDigitAscii c = true := List.all_eq_true.mp rfl
    have hdigits : (['0'] ++ r).takeWhile Text.isDigitAscii = ['0'] := by
      rw [List.takeWhile_append_of_pos hzero, hr.takeWhile, List.append_nil]
    rw [List.cons_append, fractionPart, if_pos (by rfl), hdigits]
  have hrest : (Text.ofNat n ++ (['.', '0'] ++ r)).drop ((Text.ofNat n).length + 2) = r := by
    rw [← List.drop_drop, List.drop_left]
    rfl
  have hcoefficient : Text.digitsValue (Text.ofNat n ++ ['0']) = n * 10 ^ 1 := by
    rw [Text.digitsValue_append, Text.digitsValue_ofNat, Nat.mul_comm]
    rfl
  unfold readNumber
  rw [List.append_assoc]
  simp only [hwhole, hempty, List.drop_left, hfraction, hexponent, hrest, List.append_nil,
    Double.readParts_ofNat_point, Real.Parts.coefficient, hcoefficient, List.length_cons,
    List.length_nil, List.length_append]
  exact congrArg (fun x => some (Token.scalar (.real x), (Text.ofNat n).length + 2))
    (Double.ofScientific_mul_pow negative hn 1)

/-! ## Runs over tokens -/

/-- Where the tokens of a text lead from a place, and whether the text ends behind them. -/
def run (s : List Char) (p : Place) : Except Fault (Place × Bool) :=
  ((tokens s).1.foldlM step p).map (·, (tokens s).2)

theorem tokens_cons {c : Char} {r t : List Char} {k : Token} (hspace : isSpace c = false)
    (h : firstToken c r = some (k, t)) :
    tokens (c :: r) = (k :: (tokens t).1, (tokens t).2) := by
  rw [tokens, if_neg (by rw [hspace]; exact Bool.false_ne_true)]
  split
  · next hnone =>
    rw [h] at hnone
    cases hnone
  · next k' t' hsome =>
    rw [h] at hsome
    cases hsome
    rfl

theorem run_cons {c : Char} {r t : List Char} {k : Token} {p q : Place}
    (hspace : isSpace c = false) (h : firstToken c r = some (k, t)) (hstep : step p k = .ok q) :
    run (c :: r) p = run t q := by
  unfold run
  rw [tokens_cons hspace h, List.foldlM_cons, hstep]
  rfl

theorem run_blank (r : List Char) (p : Place) : run (' ' :: r) p = run r p := by
  have htokens : tokens (' ' :: r) = tokens r := by
    rw [tokens, if_pos (by decide)]
  unfold run
  rw [htokens]

theorem run_quoteChars {s r : List Char} {p q : Place} (hstep : step p (.text s) = .ok q) :
    run (quoteChars s ++ r) p = run r q := by
  have hfirst : firstToken '"' (s.flatMap escapeChar ++ '"' :: r) = some (.text s, r) := by
    rw [firstToken, readText_flatMap]
    rfl
  have hshape : quoteChars s ++ r = '"' :: (s.flatMap escapeChar ++ '"' :: r) := by
    simp [quoteChars]
  rw [hshape]
  exact run_cons (by decide) hfirst hstep

/-! ## Documents -/

mutual

/-- No whole number has too many digits, every double is that of a small whole number, and no map
has a key twice. -/
def isExact : Json → Bool
  | .whole n => (Text.ofNat n.natAbs).length ≤ Whole.maxDigits
  | .real x => x.isSmallWhole
  | .list xs => itemsExact xs
  | .map fields => fieldsExact fields
  | _ => true

def itemsExact : List Json → Bool
  | [] => true
  | x :: xs => isExact x && itemsExact xs

def fieldsExact : List (String × Json) → Bool
  | [] => true
  | (k, v) :: r => !(Entries.keys r).contains k && isExact v && fieldsExact r

end

/-- A place where a document starts, with the lists and maps that are open around it. -/
def Starts (p : Place) (around : List Frame) : Prop :=
  ∀ k, k ≠ .listEnd → step p k = startValue around k

theorem starts_value (around : List Frame) : Starts (.value around) around := fun _ _ => rfl

theorem starts_firstItem (around : List Frame) :
    Starts (.firstItem around) (.item [] :: around) := by
  intro k hk
  cases k with
  | listEnd => exact absurd rfl hk
  | _ => rfl

section

variable {p : Place} {around : List Frame} {r : List Char}

theorem run_scalar {c : Char} {s t : List Char} {j : Json} (hp : Starts p around)
    (hspace : isSpace c = false) (h : firstToken c s = some (.scalar j, t)) :
    run (c :: s) p = run t (.after j around) :=
  run_cons hspace h (hp _ (by simp))

/-- A digit starts no word and no other token, also behind a minus sign. -/
theorem firstToken_digit {c : Char} (hc : Text.isDigitAscii c = true) (r : List Char) :
    isSpace c = false ∧
      firstToken c r = ((readNumber false (c :: r)).map fun (t, n) => (t, r.drop (n - 1))) ∧
      firstToken '-' (c :: r) =
        (readNumber true (c :: r)).map fun (t, n) => (t, (c :: r).drop n) := by
  have hmem := Text.mem_digits hc
  simp only [List.mem_cons, List.not_mem_nil, or_false] at hmem
  obtain rfl | rfl | rfl | rfl | rfl | rfl | rfl | rfl | rfl | rfl := hmem
  all_goals exact ⟨rfl, rfl, rfl⟩

/-- A number with its sign, if the part behind the sign is read whole. -/
theorem run_signed {negative : Bool} {n : Nat} {tail : List Char} {j : Json}
    (hp : Starts p around) (hnumber : readNumber negative (Text.ofNat n ++ tail ++ r) =
      some (.scalar j, (Text.ofNat n ++ tail).length)) :
    run ((if negative then ['-'] else []) ++ Text.ofNat n ++ tail ++ r) p =
      run r (.after j around) := by
  obtain ⟨c, s, hcs⟩ := List.exists_cons_of_ne_nil (Text.ofNat_ne_nil n)
  have hc : Text.isDigitAscii c = true := Text.isDigitAscii_of_mem (hcs ▸ List.mem_cons_self)
  obtain ⟨hspace, hplain, hminus⟩ := firstToken_digit hc (s ++ tail ++ r)
  rw [hcs, List.cons_append, List.cons_append] at hnumber
  rw [List.append_assoc, List.append_assoc, hcs, List.cons_append, ← List.append_assoc]
  cases negative with
  | true =>
    refine run_scalar hp (by decide) ?_
    rw [List.append_eq, List.nil_append, hminus, hnumber]
    simp
  | false =>
    refine run_scalar hp hspace ?_
    rw [hplain, hnumber]
    simp

theorem run_digits (n : Int) (hlength : (Text.ofNat n.natAbs).length ≤ Whole.maxDigits)
    (hp : Starts p around) (hr : Ends r) :
    run (Whole.digits n ++ r) p = run r (.after (.whole n) around) := by
  have hshape : Whole.digits n ++ r =
      (if decide (n < 0) then ['-'] else []) ++ Text.ofNat n.natAbs ++ [] ++ r := by
    unfold Whole.digits
    by_cases hn : n < 0 <;> simp [hn]
  have hvalue : (if decide (n < 0) then -(n.natAbs : Int) else n.natAbs) = n := by
    by_cases hn : n < 0
    · rw [decide_eq_true hn, if_pos rfl]
      omega
    · rw [decide_eq_false hn, if_neg Bool.false_ne_true]
      omega
  rw [hshape]
  refine run_signed hp ?_
  rw [List.append_nil, readNumber_ofNat hr hlength, hvalue]

/-- The double of a whole number, written with a zero behind its point. -/
theorem run_real {x : Double} (hx : x.isSmallWhole = true) (hp : Starts p around) (hr : Ends r) :
    run (realChars x ++ r) p = run r (.after (.real x) around) := by
  obtain ⟨negative, n, hn, rfl⟩ := Double.isSmallWhole_iff.mp hx
  have hchars : realChars (.ofWhole negative n) = (Double.ofWhole negative n).text := by
    obtain ⟨m, q, -, hfinite, -⟩ :=
      Double.exists_ratio_ofWhole negative (Nat.lt_trans hn (by decide))
    rw [hfinite]
    rfl
  rw [hchars, Double.text_ofWhole negative hn]
  exact run_signed hp (readNumber_ofNat_point hr (Nat.lt_trans hn (by decide)))

end

theorem ends_compactItems (xs : List Json) (r : List Char) : Ends (compactItems xs ++ r) := by
  cases xs with
  | nil => simp [Ends, compactItems]
  | cons x xs => simp [Ends, compactItems]

theorem ends_compactFields (fields : List (String × Json)) (r : List Char) :
    Ends (compactFields fields ++ r) := by
  cases fields with
  | nil => simp [Ends, compactFields]
  | cons f fields => simp [Ends, compactFields]

/-- A key with a colon and the value behind it, up to what follows. -/
theorem run_field {k : String} {v : Json} {m : List (String × Json)} {p : Place}
    {around : List Frame} {r : List Char} (hp : step p (.text k.toList) = .ok (.colon m k around))
    (hv : ∀ {q : Place} {frames : List Frame}, Starts q frames →
      run (compactChars v ++ r) q = run r (.after v frames)) :
    run (quoteChars k.toList ++ ':' :: ' ' :: (compactChars v ++ r)) p =
      run r (.after v (.field m k :: around)) := by
  rw [run_quoteChars hp, run_cons (by decide) rfl rfl, run_blank]
  exact hv (starts_value _)

mutual

/-- The text of a document leads to the place behind the document. -/
theorem run_compactChars (j : Json) (hj : isExact j = true) {p : Place} {around : List Frame}
    {r : List Char} (hp : Starts p around) (hr : Ends r) :
    run (compactChars j ++ r) p = run r (.after j around) := by
  cases j with
  | null => exact run_scalar hp (by decide) rfl
  | flag b => cases b with
    | true => exact run_scalar hp (by decide) rfl
    | false => exact run_scalar hp (by decide) rfl
  | whole n => exact run_digits n (of_decide_eq_true hj) hp hr
  | real x => exact run_real hj hp hr
  | text s =>
    rw [compactChars]
    refine run_quoteChars ?_
    rw [hp _ (by simp), startValue, String.ofList_toList]
  | list xs =>
    cases xs with
    | nil => 
      refine (run_cons (by decide) rfl (hp _ (by simp))).trans ?_
      exact run_cons (by decide) rfl rfl
    | cons x xs =>
      simp only [isExact, itemsExact, Bool.and_eq_true] at hj
      have hshape : compactChars (.list (x :: xs)) ++ r =
          '[' :: (compactChars x ++ (compactItems xs ++ r)) := by simp [compactChars]
      rw [hshape, run_cons (by decide) rfl (hp _ (by simp)),
        run_compactChars x hj.1 (starts_firstItem around) (ends_compactItems xs r)]
      exact run_compactItems xs hj.2 [] hr
  | map fields =>
    cases fields with
    | nil =>
      refine (run_cons (by decide) rfl (hp _ (by simp))).trans ?_
      exact run_cons (by decide) rfl rfl
    | cons f fields =>
      obtain ⟨k, v⟩ := f
      simp only [isExact, fieldsExact, Bool.and_eq_true, Bool.not_eq_true',
        List.contains_eq_mem, decide_eq_false_iff_not] at hj
      obtain ⟨⟨hk, hv⟩, hfields⟩ := hj
      have hshape : compactChars (.map ((k, v) :: fields)) ++ r =
          '\x7b' :: (quoteChars k.toList ++
            ':' :: ' ' :: (compactChars v ++ (compactFields fields ++ r))) := by
        simp [compactChars]
      rw [hshape, run_cons (by decide) rfl (hp _ (by simp)), run_field (m := [])
        (by rw [step, String.ofList_toList]) fun hq =>
          run_compactChars v hv hq (ends_compactFields fields r)]
      exact run_compactFields fields hfields [] (by simpa [Entries.put, Entries.keys] using hk) hr

theorem run_compactItems (xs : List Json) (hxs : itemsExact xs = true) {x : Json}
    (before : List Json) {around : List Frame} {r : List Char} (hr : Ends r) :
    run (compactItems xs ++ r) (.after x (.item before :: around)) =
      run r (.after (.list ((x :: before).reverse ++ xs)) around) := by
  cases xs with
  | nil =>
    rw [List.append_nil]
    exact run_cons (by decide) rfl rfl
  | cons y ys =>
    simp only [itemsExact, Bool.and_eq_true] at hxs
    have hshape : compactItems (y :: ys) ++ r =
        ',' :: ' ' :: (compactChars y ++ (compactItems ys ++ r)) := by simp [compactItems]
    have hlist : (y :: x :: before).reverse ++ ys = (x :: before).reverse ++ y :: ys := by simp
    rw [hshape, run_cons (by decide) rfl rfl, run_blank,
      run_compactChars y hxs.1 (starts_value _) (ends_compactItems ys r), ← hlist]
    exact run_compactItems ys hxs.2 (x :: before) hr

theorem run_compactFields (fields : List (String × Json)) (hfields : fieldsExact fields = true)
    {k : String} {v : Json} (before : List (String × Json))
    (hkeys : ∀ key ∈ Entries.keys (Entries.put k v before), key ∉ Entries.keys fields)
    {around : List Frame} {r : List Char} (hr : Ends r) :
    run (compactFields fields ++ r) (.after v (.field before k :: around)) =
      run r (.after (.map (Entries.put k v before ++ fields)) around) := by
  cases fields with
  | nil =>
    rw [List.append_nil]
    exact run_cons (by decide) rfl rfl
  | cons f fields =>
    obtain ⟨k', v'⟩ := f
    simp only [fieldsExact, Bool.and_eq_true, Bool.not_eq_true', List.contains_eq_mem,
      decide_eq_false_iff_not] at hfields
    obtain ⟨⟨hk, hv⟩, hrest⟩ := hfields
    have hshape : compactFields ((k', v') :: fields) ++ r = ',' :: ' ' ::
        (quoteChars k'.toList ++ ':' :: ' ' ::
          (compactChars v' ++ (compactFields fields ++ r))) := by simp [compactFields]
    have hnew : k' ∉ Entries.keys (Entries.put k v before) := fun hmem =>
      hkeys k' hmem List.mem_cons_self
    have hput := Entries.put_of_not_mem hnew v'
    rw [hshape, run_cons (by decide) rfl rfl, run_blank,
      run_field (by rw [step, String.ofList_toList]) fun hq =>
        run_compactChars v' hv hq (ends_compactFields fields r),
      run_compactFields fields hrest (Entries.put k v before) ?_ hr, hput, List.append_assoc]
    · rfl
    · -- the keys so far are not among those that are left
      intro key hkey
      rw [hput] at hkey
      unfold Entries.keys at hkey
      rw [List.map_append, List.mem_append] at hkey
      rcases hkey with hkey | hkey
      · exact fun hmem => hkeys key hkey (List.mem_cons_of_mem _ hmem)
      · rw [List.map_singleton, List.mem_singleton] at hkey
        exact hkey ▸ hk

end

/-- A document is read back from its text. -/
theorem ofText_compact {j : Json} (h : j.isExact = true) : ofText j.compact = .ok j := by
  have hrun : run (compactChars j) (.value []) = .ok (.after j [], true) := by
    have hread := run_compactChars j h (r := []) (starts_value []) (by simp [Ends])
    rw [List.append_nil] at hread
    rw [hread, run, tokens]
    rfl
  obtain ⟨p, hfold, hplace⟩ := Outcome.map_eq_ok.mp hrun
  obtain ⟨rfl, hend⟩ := Prod.mk.inj hplace
  unfold ofText compact read
  rw [String.toList_ofList, hfold, hend]
  rfl

end Wireform.Json
