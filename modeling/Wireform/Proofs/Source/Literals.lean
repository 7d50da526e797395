import Mathlib.Algebra.Group.Nat.Defs
import Wireform.Proofs.Json.ReadBack
import Wireform.Proofs.Text.Quoted
import Wireform.Source.Literal

/-
  Wireform source text: what a text literal means when the module is read. Its value is a list of
  code points, since an escape can stand for half of a pair of code units, which is no character.
  A literal in the form of messages gives back its text (`literalValue?_quoted`). One in double
  quotes gives the code units of its text (`literalValue?_textLiteral`), and these are its code
  points only if no character needs a pair of them.
-/

namespace Wireform.Source

/-! ## Reading a literal -/

def codePoints (s : List Char) : List Nat := s.map Char.toNat

theorem codePoints_injective {s t : List Char} (h : codePoints s = codePoints t) : s = t :=
  List.map_injective_iff.mpr (fun _ _ => Char.toNat_inj.mp) h

/-- The number that base-sixteen digits stand for. -/
def hexRun? (s : List Char) : Option Nat :=
  s.foldlM (fun n c => (Json.hexValue? c).map (16 * n + ·)) 0

/-- How many digits follow the letter of an escape that is given by a number. -/
def escapeWidth? : Char → Option Nat
  | 'x' => some 2
  | 'u' => some 4
  | 'U' => some 8
  | _ => none

/-- The code point of an escape of one letter. -/
def escapeCode? : Char → Option Nat
  | '\\' => some 0x5c
  | '\'' => some 0x27
  | '"' => some 0x22
  | 'a' => some 0x07
  | 'b' => some 0x08
  | 't' => some 0x09
  | 'n' => some 0x0a
  | 'v' => some 0x0b
  | 'f' => some 0x0c
  | 'r' => some 0x0d
  | _ => none

/-- Reads up to the closing quote `q`, which ends the text. A line break ends no literal, and
escapes of other forms are not read. -/
def readBody (q : Char) : List Char → Option (List Nat)
  | [] => none
  | '\\' :: c :: r =>
    match escapeWidth? c with
    | some w =>
      if (r.take w).length = w then
        match hexRun? (r.take w) with
        | some n => if n < 0x110000 then (readBody q (r.drop w)).map (n :: ·) else none
        | none => none
      else none
    | none =>
      match escapeCode? c with
      | some n => (readBody q r).map (n :: ·)
      | none => none
  | c :: r =>
    if c = q then if r.isEmpty then some [] else none
    else if c = '\\' || c = '\n' || c = '\r' then none
    else (readBody q r).map (c.toNat :: ·)
termination_by s => s.length

/-- The value of a literal in single or double quotes. -/
def literalValue? (literal : String) : Option (List Nat) :=
  match literal.toList with
  | '\'' :: r => readBody '\'' r
  | '"' :: r => readBody '"' r
  | _ => none

section

variable {q c : Char} {n w : Nat}

theorem readBody_plain (hq : c ≠ q) (hslash : c ≠ '\\') (hline : c ≠ '\n') (hreturn : c ≠ '\r')
    (r : List Char) : readBody q (c :: r) = (readBody q r).map (c.toNat :: ·) := by
  rw [readBody.eq_3 q c r fun _ _ h => absurd h hslash, if_neg hq,
    if_neg (by simp [hslash, hline, hreturn])]

theorem readBody_letter (hw : escapeWidth? c = none) (hc : escapeCode? c = some n)
    (r : List Char) : readBody q ('\\' :: c :: r) = (readBody q r).map (n :: ·) := by
  rw [readBody, hw, hc]

/-! ## Escapes by number -/

theorem length_hexPadded (w n : Nat) : (Text.hexPadded w n).length = w := by
  induction w generalizing n with
  | zero => rfl
  | succ w ih => rw [Text.hexPadded, List.length_append, ih, List.length_singleton]

/-- The lowest digits are read last. -/
theorem hexRun?_hexPadded (h : n < 16 ^ w) : hexRun? (Text.hexPadded w n) = some n := by
  induction w generalizing n with
  | zero =>
    obtain rfl : n = 0 := by omega
    rfl
  | succ w ih =>
    have hhigh : n / 16 < 16 ^ w := Nat.div_lt_of_lt_mul (by rwa [Nat.pow_succ'] at h)
    have hread := ih hhigh
    have hsum : 16 * (n / 16) + n % 16 = n := Nat.div_add_mod n 16
    unfold hexRun? at hread ⊢
    rw [Text.hexPadded, List.foldlM_append, hread, Option.bind_eq_bind, Option.bind_some,
      List.foldlM_cons, Json.hexValue?_hexDigit (Nat.mod_lt n (by decide)), Option.map_some, hsum]
    rfl

theorem readBody_number (hw : escapeWidth? c = some w) (hn : n < 16 ^ w) (hlimit : n < 0x110000)
    (r : List Char) : readBody q ('\\' :: c :: (Text.hexPadded w n ++ r)) =
      (readBody q r).map (n :: ·) := by
  have htake : (Text.hexPadded w n ++ r).take w = Text.hexPadded w n :=
    List.take_left' (length_hexPadded w n)
  have hdrop : (Text.hexPadded w n ++ r).drop w = r := List.drop_left' (length_hexPadded w n)
  rw [readBody, hw]
  simp only [htake, hdrop, length_hexPadded, if_true, hexRun?_hexPadded hn, if_pos hlimit]

/-- A text is read character by character if each of its characters is, whatever follows. -/
theorem readBody_flatMap {write : Char → List Char} {codes : Char → List Nat} {s : List Char}
    (h : ∀ c ∈ s, ∀ r, readBody q (write c ++ r) = (readBody q r).map (codes c ++ ·))
    (hq : q ≠ '\\') : readBody q (s.flatMap write ++ [q]) = some (s.flatMap codes) := by
  induction s with
  | nil =>
    rw [List.flatMap_nil, List.nil_append, readBody.eq_3 q q [] fun _ _ h => absurd h hq,
      if_pos rfl]
    rfl
  | cons c s ih =>
    obtain ⟨hc, hs⟩ := List.forall_mem_cons.mp h
    rw [List.flatMap_cons, List.append_assoc, hc, ih hs, List.flatMap_cons]
    rfl

end

/-! ## The form of messages -/

theorem readBody_quotedChar {q : Char} (hq : q = '\'' ∨ q = '"') (c : Char) (r : List Char) :
    readBody q (Text.quotedChar q c ++ r) = (readBody q r).map ([c.toNat] ++ ·) := by
  have hlimit : c.toNat < 0x110000 := (Json.toNat_cases c).2.2
  unfold Text.quotedChar
  split
  · next hself =>
    simp only [Bool.or_eq_true, decide_eq_true_eq] at hself
    rcases hself with rfl | rfl
    · rcases hq with rfl | rfl
      all_goals exact readBody_letter rfl rfl r
    · exact readBody_letter rfl rfl r
  next hself =>
  simp only [Bool.or_eq_true, decide_eq_true_eq, not_or] at hself
  split
  · next hline => exact hline ▸ readBody_letter rfl rfl r
  next hline =>
  split
  · next hreturn => exact hreturn ▸ readBody_letter rfl rfl r
  next hreturn =>
  split
  · next htab => exact htab ▸ readBody_letter rfl rfl r
  split
  · exact readBody_plain hself.1 hself.2 hline hreturn r
  split
  · next hsmall => exact readBody_number (w := 2) rfl hsmall hlimit r
  split
  · next hsmall => exact readBody_number (w := 4) rfl hsmall hlimit r
  · exact readBody_number (w := 8) rfl (by omega) hlimit r

/-- A text in the form of messages is a literal of this text. -/
theorem literalValue?_quoted (s : String) :
    literalValue? (Text.quoted s) = some (codePoints s.toList) := by
  have hmark := Text.quoteMark_cases s.toList
  have hread := readBody_flatMap (s := s.toList) (fun c _ r => readBody_quotedChar hmark c r)
    (by rcases hmark with h | h <;> rw [h] <;> decide)
  rw [← List.map_eq_flatMap] at hread
  unfold literalValue? Text.quoted Text.quotedChars
  rw [String.toList_ofList]
  rcases hmark with h | h
  all_goals
    rw [h] at hread ⊢
    exact hread

/-! ## Double quotes -/

/-- The code units of a character: one, or a pair. -/
def codeUnits (c : Char) : List Nat :=
  if c.toNat < 0x10000 then [c.toNat]
  else [0xd800 + (c.toNat - 0x10000) / 1024, 0xdc00 + (c.toNat - 0x10000) % 1024]

theorem readBody_escapeChar (c : Char) (r : List Char) :
    readBody '"' (Json.escapeChar c ++ r) = (readBody '"' r).map (codeUnits c ++ ·) := by
  have hlimit : c.toNat < 0x110000 := (Json.toNat_cases c).2.2
  by_cases hshort : c ∈ ['"', '\\', '\n', '\r', '\t', '\x08', '\x0c']
  · simp only [List.mem_cons, List.not_mem_nil, or_false] at hshort
    obtain rfl | rfl | rfl | rfl | rfl | rfl | rfl := hshort
    all_goals exact readBody_letter rfl rfl r
  simp only [List.mem_cons, List.not_mem_nil, or_false, not_or] at hshort
  obtain ⟨hquote, hslash, hline, hreturn, htab, hback, hfeed⟩ := hshort
  unfold Json.escapeChar codeUnits
  rw [if_neg hquote, if_neg hslash, if_neg hline, if_neg hreturn, if_neg htab, if_neg hback,
    if_neg hfeed]
  split
  · next hplain =>
    simp only [Bool.and_eq_true, decide_eq_true_eq] at hplain
    rw [if_pos (by omega)]
    exact readBody_plain hquote hslash hline hreturn r
  split
  · next hsmall => exact readBody_number (w := 4) rfl hsmall hlimit r
  · -- each half of the pair is an escape of its own
    next hlarge =>
    rw [List.append_assoc]
    unfold Json.unitEscape
    rw [List.cons_append, List.cons_append, readBody_number (w := 4) rfl (by omega) (by omega),
      List.cons_append, List.cons_append, readBody_number (w := 4) rfl (by omega) (by omega),
      Option.map_map]
    rfl

/-- A text in double quotes is a literal of the code units of this text. -/
theorem literalValue?_textLiteral (s : String) :
    literalValue? (textLiteral s) = some (s.toList.flatMap codeUnits) := by
  unfold literalValue? textLiteral Json.quote Json.quoteChars
  rw [String.toList_ofList]
  exact readBody_flatMap (fun c _ r => readBody_escapeChar c r) (by decide)

/-- No character needs a pair of code units. -/
def IsBasic (s : String) : Prop := ∀ c ∈ s.toList, c.toNat < 0x10000

instance (s : String) : Decidable (IsBasic s) :=
  List.decidableBAll (fun c : Char => c.toNat < 0x10000) s.toList

theorem flatMap_codeUnits_of_isBasic {s : String} (h : IsBasic s) :
    s.toList.flatMap codeUnits = codePoints s.toList := by
  unfold codePoints
  rw [List.map_eq_flatMap]
  exact List.flatMap_congr fun c hc => if_pos (h c hc)

/-- Half of a pair is no code point of a text. -/
theorem not_mem_codePoints {n : Nat} (hlow : 0xd800 ≤ n) (hhigh : n ≤ 0xdfff) (s : List Char) :
    n ∉ codePoints s := by
  intro hn
  obtain ⟨c, -, rfl⟩ := List.mem_map.mp hn
  have hvalid : c.toNat < 0xd800 ∨ 0xdfff < c.toNat ∧ c.toNat < 0x110000 := c.valid
  omega

/-- The code units of a text are no part of the code points of any text if one is of a pair. -/
theorem isBasic_of_subset {s : String} {t : List Char}
    (h : s.toList.flatMap codeUnits ⊆ codePoints t) : IsBasic s := by
  intro c hc
  by_contra hlarge
  have hlimit : c.toNat < 0x110000 := (Json.toNat_cases c).2.2
  have hmem : 0xd800 + (c.toNat - 0x10000) / 1024 ∈ s.toList.flatMap codeUnits := by
    refine List.mem_flatMap.mpr ⟨c, hc, ?_⟩
    unfold codeUnits
    rw [if_neg hlarge]
    exact List.mem_cons_self
  exact not_mem_codePoints (by omega) (by omega) t (h hmem)

/-- A text in double quotes is a literal of this text exactly if no character needs a pair. -/
theorem literalValue?_textLiteral_iff (s : String) :
    literalValue? (textLiteral s) = some (codePoints s.toList) ↔ IsBasic s := by
  rw [literalValue?_textLiteral, Option.some_inj]
  exact ⟨fun h => isBasic_of_subset fun _ hn => h ▸ hn, flatMap_codeUnits_of_isBasic⟩

end Wireform.Source
