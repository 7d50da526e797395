import Wireform.Proofs.Json.Line
import Wireform.Proofs.Source.Literals
import Wireform.Proofs.Text.Pieces

/-
  Wireform source text: reading a literal where it stands, with the text behind it. All escapes are
  read, and those of a character's name through a parameter. A text that stands between quotes as it
  is means itself exactly if it is inert: nothing in it ends the literal, starts an escape or, in a
  formatted literal, a field (`reads_iff`).
-/

namespace Wireform.Source

/-! ## Escapes -/

def isOctal (c : Char) : Bool := '0' ≤ c && c ≤ '7'

/-- The number that base-eight digits stand for. -/
def octalRun (s : List Char) : Nat := s.foldl (fun n c => 8 * n + (c.toNat - 0x30)) 0

/-- The characters in the name of a character. -/
def isNameChar (c : Char) : Bool := Text.isAlnumAscii c || c = ' ' || c = '-'

/-- Whether a backslash in front of a character is part of an escape. -/
def opensEscape (c : Char) : Bool :=
  c = '\n' || c = '\r' || (escapeCode? c).isSome || (escapeWidth? c).isSome || isOctal c || c = 'N'

section

variable (names : List Char → Option Nat)

/-- A name in braces. -/
def readName : List Char → Option (List Nat × List Char)
  | '\x7b' :: r =>
    match Text.cut '\x7d' r with
    | (name, some t) => if name.all isNameChar then (names name).map fun n => ([n], t) else none
    | (_, none) => none
  | _ => none

/-- A number of `w` digits. -/
def readNumber (w : Nat) (s : List Char) : Option (List Nat × List Char) :=
  if (s.take w).length = w then
    match hexRun? (s.take w) with
    | some n => if n < 0x110000 then some ([n], s.drop w) else none
    | none => none
  else none

/-- What a backslash stands for together with the text behind it, and the text that is left. A
backslash before a line break stands for nothing, and one that opens no escape for itself. -/
def readEscape : List Char → Option (List Nat × List Char)
  | [] => none
  | c :: r =>
    if c = '\r' && r.head? = some '\n' then some ([], r.tail)
    else if c = '\n' || c = '\r' then some ([], r)
    else match escapeCode? c with
      | some n => some ([n], r)
      | none =>
        match escapeWidth? c with
        | some w => readNumber w r
        | none =>
          if isOctal c then
            let digits := ((c :: r).take 3).takeWhile isOctal
            some ([octalRun digits], (c :: r).drop digits.length)
          else if c = 'N' then readName names r
          else some ([0x5c], c :: r)

theorem length_readName {s t : List Char} {codes : List Nat}
    (h : readName names s = some (codes, t)) : codes.length + t.length ≤ s.length := by
  unfold readName at h
  split at h
  · next r =>
    split at h
    · next name u hcut =>
      split at h
      · obtain ⟨n, -, heq⟩ := Option.map_eq_some_iff.mp h
        cases heq
        have hr := congrArg List.length (Text.of_cut hcut).2
        simp at hr ⊢
        omega
      · cases h
    · cases h
  · cases h

theorem length_readNumber {w : Nat} {s t : List Char} {codes : List Nat}
    (h : readNumber w s = some (codes, t)) : codes.length + t.length ≤ s.length + 1 := by
  unfold readNumber at h
  split at h
  · split at h
    · split at h
      · cases h
        simp
        omega
      · cases h
    · cases h
  · cases h

theorem length_octal {c : Char} (h : isOctal c = true) (r : List Char) :
    ((c :: r).drop (((c :: r).take 3).takeWhile isOctal).length).length ≤ r.length := by
  rw [List.take_succ_cons, List.takeWhile_cons_of_pos h, List.length_cons, List.drop_succ_cons]
  exact (List.drop_suffix _ r).length_le

/-- A backslash that opens no escape stands for itself. -/
theorem readEscape_of_not_opens {c : Char} (h : opensEscape c = false) (r : List Char) :
    readEscape names (c :: r) = some ([0x5c], c :: r) := by
  simp only [opensEscape, Bool.or_eq_false_iff, decide_eq_false_iff_not,
    Option.isSome_eq_false_iff, Option.isNone_iff_eq_none] at h
  obtain ⟨⟨⟨⟨⟨hline, hreturn⟩, hcode⟩, hwidth⟩, hoctal⟩, hname⟩ := h
  simp [readEscape, hline, hreturn, hcode, hwidth, hoctal, hname]

theorem readEscape_letter {c : Char} {n : Nat} (h : escapeCode? c = some n) (r : List Char) :
    readEscape names (c :: r) = some ([n], r) := by
  have hline : c ≠ '\n' := by
    rintro rfl
    cases h
  have hreturn : c ≠ '\r' := by
    rintro rfl
    cases h
  rw [readEscape, if_neg (by simp [hreturn]), if_neg (by simp [hline, hreturn]), h]

theorem readEscape_number {c : Char} {w : Nat} (h : escapeWidth? c = some w) (r : List Char) :
    readEscape names (c :: r) = readNumber w r := by
  have hletter : c = 'x' ∨ c = 'u' ∨ c = 'U' := by
    unfold escapeWidth? at h
    split at h
    · exact Or.inl rfl
    · exact Or.inr (Or.inl rfl)
    · exact Or.inr (Or.inr rfl)
    · cases h
  rcases hletter with rfl | rfl | rfl
  all_goals
    cases h
    rfl

/-- What an escape stands for and what is left have at most the length of the text. Only a backslash
that opens no escape leaves more. -/
theorem readEscape_cases {s t : List Char} {codes : List Nat}
    (h : readEscape names s = some (codes, t)) : codes.length + t.length ≤ s.length ∨
      ∃ c r, s = c :: r ∧ opensEscape c = false ∧ codes = [0x5c] ∧ t = s := by
  cases s with
  | nil => cases h
  | cons c r =>
  cases hopens : opensEscape c with
  | false =>
    rw [readEscape_of_not_opens names hopens] at h
    cases h
    exact Or.inr ⟨c, r, rfl, hopens, rfl, rfl⟩
  | true =>
  refine Or.inl ?_
  rw [List.length_cons]
  rw [readEscape] at h
  split at h
  · cases h
    simp
    omega
  split at h
  · cases h
    simp
  next hbreak =>
  cases hcode : escapeCode? c with
  | some n =>
    rw [hcode] at h
    cases h
    simp
    omega
  | none =>
  cases hwidth : escapeWidth? c with
  | some w =>
    rw [hcode, hwidth] at h
    exact length_readNumber h
  | none =>
  rw [hcode, hwidth] at h
  dsimp only at h
  split at h
  · next hoctal =>
    cases h
    have hlength := length_octal hoctal r
    rw [List.length_singleton]
    omega
  next hoctal =>
  split at h
  · have hlength := length_readName names h
    omega
  · next hname =>
    simp only [Bool.or_eq_true, decide_eq_true_eq, not_or] at hbreak
    simp [opensEscape, hbreak, hcode, hwidth, hoctal, hname] at hopens

end

/-! ## Text between quotes -/

/-- How a part of a literal ends: with the closing quote, or with the brace of a field. -/
inductive Ending where
  | quote
  | field
  deriving DecidableEq, Repr

section

variable (names : List Char → Option Nat) (formatted : Bool) (q : Char)

theorem length_lt_of_readEscape {s t : List Char} {codes : List Nat}
    (h : readEscape names s = some (codes, t)) : t.length < s.length + 1 := by
  rcases readEscape_cases names h with hle | ⟨c, r, -, -, -, rfl⟩
  · omega
  · omega

/-- Reads up to the closing quote `q` or, in a formatted literal, up to the next field: the code
points, how the part ends, and the text behind that. Braces that are written twice stand for
themselves in a formatted literal. -/
def readPart : List Char → Option (List Nat × Ending × List Char)
  | [] => none
  | c :: r =>
    if c = q then some ([], .quote, r)
    else if c = '\n' || c = '\r' || c = '\x00' then none
    else if c = '\\' then
      match h : readEscape names r with
      | none => none
      | some (codes, t) =>
        have := length_lt_of_readEscape names h
        (readPart t).map fun (v, e) => (codes ++ v, e)
    else if formatted && (c = '\x7b' || c = '\x7d') then
      if r.head? = some c then (readPart r.tail).map fun (v, e) => (c.toNat :: v, e)
      else if c = '\x7b' then some ([], .field, r)
      else none
    else (readPart r).map fun (v, e) => (c.toNat :: v, e)
termination_by s => s.length
decreasing_by
  · exact this
  · rw [List.length_tail, List.length_cons]
    omega
  · exact Nat.lt_succ_self _

/-- A text every character of which means itself between quotes, where `stop` stands behind it. -/
def IsInert (stop : Char) : List Char → Prop
  | [] => True
  | c :: r => c ≠ q ∧ c ∉ ['\n', '\r', '\x00'] ∧ (formatted = true → c ∉ ['\x7b', '\x7d']) ∧
    (c = '\\' → opensEscape (r.headD stop) = false) ∧ IsInert stop r

instance decidableInert (stop : Char) : (s : List Char) → Decidable (IsInert formatted q stop s)
  | [] => inferInstanceAs (Decidable True)
  | c :: r =>
    have := decidableInert stop r
    inferInstanceAs (Decidable (c ≠ q ∧ c ∉ ['\n', '\r', '\x00'] ∧
      (formatted = true → c ∉ ['\x7b', '\x7d']) ∧
      (c = '\\' → opensEscape (r.headD stop) = false) ∧ IsInert formatted q stop r))

section

variable {names formatted q}

theorem readPart_quote (r : List Char) : readPart names formatted q (q :: r) =
    some ([], .quote, r) := by
  rw [readPart, if_pos rfl]

theorem readPart_plain {c : Char} (hq : c ≠ q) (hline : c ∉ ['\n', '\r', '\x00'])
    (hslash : c ≠ '\\') (hbrace : formatted = true → c ∉ ['\x7b', '\x7d']) (r : List Char) :
    readPart names formatted q (c :: r) =
      (readPart names formatted q r).map fun (v, e) => (c.toNat :: v, e) := by
  simp only [List.mem_cons, List.not_mem_nil, or_false, not_or] at hline hbrace
  rw [readPart, if_neg hq, if_neg (by simp [hline]), if_neg hslash, if_neg]
  cases formatted with
  | false => simp
  | true => simp [hbrace rfl]

theorem readPart_escape {r t : List Char} {codes : List Nat} (hq : q ≠ '\\')
    (h : readEscape names r = some (codes, t)) : readPart names formatted q ('\\' :: r) =
      (readPart names formatted q t).map fun (v, e) => (codes ++ v, e) := by
  rw [readPart, if_neg hq.symm, if_neg (by decide), if_pos rfl]
  split
  · next hnone => rw [h] at hnone; cases hnone
  · next hsome =>
    rw [h] at hsome
    cases hsome
    rfl

theorem readPart_of_isInert (hq : q ≠ '\\') {stop : Char} {u : List Char} {e : Ending × List Char}
    (hstop : readPart names formatted q (stop :: u) = some ([], e)) {s : List Char}
    (h : IsInert formatted q stop s) :
    readPart names formatted q (s ++ stop :: u) = some (codePoints s, e) := by
  induction s with
  | nil => exact hstop
  | cons c r ih =>
    obtain ⟨hquote, hline, hbrace, hslash, hr⟩ := h
    have hread := ih hr
    by_cases hc : c = '\\'
    · have hopens := hslash hc
      have hescape : readEscape names (r ++ stop :: u) = some ([0x5c], r ++ stop :: u) := by
        cases r with
        | nil => exact readEscape_of_not_opens names hopens u
        | cons d t => exact readEscape_of_not_opens names hopens (t ++ stop :: u)
      rw [hc, List.cons_append, readPart_escape hq hescape, hread]
      rfl
    · rw [List.cons_append, readPart_plain hquote hline hc hbrace, hread]
      rfl

/-- What is read is no longer than the text it is read from. It is as long only if the text up to
the end of the part is inert. -/
theorem isInert_of_readPart {s : List Char} : ∀ {v : List Nat} {e : Ending} {u : List Char},
    readPart names formatted q s = some (v, e, u) →
      v.length + u.length < s.length ∧ (v.length + u.length + 1 = s.length →
        ∃ t stop, s = t ++ stop :: u ∧ IsInert formatted q stop t) := by
  fun_induction readPart names formatted q s with
  | case1 =>
    intro _ _ _ h
    cases h
  | case2 r =>
    rintro _ _ _ ⟨⟩
    exact ⟨by simp, fun _ => ⟨[], q, rfl, trivial⟩⟩
  | case3 =>
    intro _ _ _ h
    cases h
  | case4 =>
    intro _ _ _ h
    cases h
  | case5 r codes t hescape hlt hquote hline ih =>
    intro v e u h
    obtain ⟨⟨v', e', u'⟩, hread, heq⟩ := Option.map_eq_some_iff.mp h
    cases heq
    obtain ⟨hlength, hinert⟩ := ih hread
    rw [List.length_append, List.length_cons]
    rcases readEscape_cases names hescape with hle | ⟨c, r', rfl, hopens, rfl, rfl⟩
    · exact ⟨by omega, fun heq => absurd heq (by omega)⟩
    · refine ⟨by simp at hlength ⊢; omega, fun heq => ?_⟩
      obtain ⟨t, stop, ht, ht'⟩ := hinert (by simp at heq ⊢; omega)
      refine ⟨'\\' :: t, stop, congrArg _ ht, hquote, by decide, by simp, fun _ => ?_, ht'⟩
      cases t with
      | nil => exact (List.cons.inj ht).1 ▸ hopens
      | cons d t => exact (List.cons.inj ht).1 ▸ hopens
  | case6 c r hquote hline hslash hbrace hdouble ih =>
    intro v e u h
    obtain ⟨⟨v', e', u'⟩, hread, heq⟩ := Option.map_eq_some_iff.mp h
    cases heq
    obtain ⟨hlength, -⟩ := ih hread
    obtain ⟨t, rfl⟩ := List.head?_eq_some_iff.mp hdouble
    simp only [List.tail_cons, List.length_cons] at hlength ⊢
    exact ⟨by omega, fun heq => absurd heq (by omega)⟩
  | case7 r =>
    rintro _ _ _ ⟨⟩
    exact ⟨by simp, fun _ => ⟨[], _, rfl, trivial⟩⟩
  | case8 =>
    intro _ _ _ h
    cases h
  | case9 c r hquote hline hslash hbrace ih =>
    intro v e u h
    obtain ⟨⟨v', e', u'⟩, hread, heq⟩ := Option.map_eq_some_iff.mp h
    cases heq
    obtain ⟨hlength, hinert⟩ := ih hread
    rw [List.length_cons, List.length_cons]
    refine ⟨by omega, fun heq => ?_⟩
    obtain ⟨t, stop, rfl, ht⟩ := hinert (by omega)
    have hplain : c ∉ ['\n', '\r', '\x00'] := by simpa [and_assoc] using hline
    refine ⟨c :: t, stop, rfl, hquote, hplain, fun hf => ?_, fun hc => ?_, ht⟩
    · simpa [hf] using hbrace
    · exact absurd hc hslash

/-- A text that is read with as many code points, up to the character behind it, is inert. -/
theorem isInert_of_length {stop : Char} {s u u' : List Char} {v : List Nat} {e : Ending}
    (h : readPart names formatted q (s ++ stop :: u) = some (v, e, u'))
    (hv : v.length = s.length) (hu : u.length ≤ u'.length) : IsInert formatted q stop s := by
  obtain ⟨hle, hinert⟩ := isInert_of_readPart h
  rw [List.length_append, List.length_cons] at hle hinert
  obtain ⟨t, stop', ht, hinert⟩ := hinert (by omega)
  have htail : (stop :: u).length = (stop' :: u').length := by
    rw [List.length_cons, List.length_cons]
    omega
  obtain ⟨rfl, hstops⟩ := List.append_inj' ht htail
  exact (List.cons.inj hstops).1 ▸ hinert

theorem length_codePoints (s : List Char) : (codePoints s).length = s.length :=
  List.length_map _

/-- What the reader of whole literals reads is read with any text behind it. -/
theorem readPart_of_readBody (hq : q ≠ '\\') {s : List Char} (hnull : '\x00' ∉ s) :
    ∀ {v : List Nat}, readBody q s = some v → ∀ u,
      readPart names false q (s ++ u) = some (v, .quote, u) := by
  fun_induction readBody q s with
  | case2 c r w hwidth hlength n hn hlimit ih =>
    intro v h u
    obtain ⟨v', hread, rfl⟩ := Option.map_eq_some_iff.mp h
    have hw : w ≤ r.length := by
      rw [List.length_take] at hlength
      omega
    have hescape : readEscape names (c :: (r ++ u)) = some ([n], r.drop w ++ u) := by
      rw [readEscape_number names hwidth, readNumber, List.take_append_of_le_length hw,
        List.drop_append_of_le_length hw, if_pos hlength, hn]
      exact if_pos hlimit
    have hrest : '\x00' ∉ r.drop w := fun hmem =>
      hnull (List.mem_cons_of_mem _ (List.mem_cons_of_mem _ (List.mem_of_mem_drop hmem)))
    rw [List.cons_append, List.cons_append, readPart_escape hq hescape, ih hrest hread]
    rfl
  | case6 c r hwidth n hcode ih =>
    intro v h u
    obtain ⟨v', hread, rfl⟩ := Option.map_eq_some_iff.mp h
    have hrest : '\x00' ∉ r := fun hmem =>
      hnull (List.mem_cons_of_mem _ (List.mem_cons_of_mem _ hmem))
    rw [List.cons_append, List.cons_append, readPart_escape hq (readEscape_letter names hcode _),
      ih hrest hread]
    rfl
  | case8 r hempty =>
    rintro _ ⟨⟩ u
    rw [List.isEmpty_iff.mp hempty]
    exact readPart_quote u
  | case11 c r hback hquote hline ih =>
    intro v h u
    obtain ⟨v', hread, rfl⟩ := Option.map_eq_some_iff.mp h
    simp only [Bool.or_eq_true, decide_eq_true_eq, not_or] at hline
    obtain ⟨hc, hr⟩ := List.ne_and_not_mem_of_not_mem_cons hnull
    have hplain : c ∉ ['\n', '\r', '\x00'] := by simp [hline, hc.symm]
    rw [List.cons_append, readPart_plain hquote hplain hline.1.1 Bool.noConfusion, ih hr hread]
    rfl
  | case1 | case3 | case4 | case5 | case7 | case9 | case10 =>
    intro _ h
    cases h

end

end

/-! ## Literals -/

section

variable (names : List Char → Option Nat)

/-- Reads a literal in single or double quotes, and leaves what stands behind it. Three quotes open
a literal of another kind. -/
def readLiteral : List Char → Option (List Nat × List Char)
  | [] => none
  | q :: r =>
    if (q = '\'' || q = '"') && r.take 2 ≠ [q, q] then
      (readPart names false q r).map fun (v, _, t) => (v, t)
    else none

/-- A part of a formatted literal: text, or an expression between braces. -/
inductive Part where
  | text (value : List Nat)
  | field (expression : List Char)
  deriving DecidableEq, Repr

/-- The parts of a formatted literal up to its closing quote. The expression of a field has no brace
in it. -/
def readParts (q : Char) (s : List Char) : Option (List Part × List Char) :=
  match _h : readPart names true q s with
  | none => none
  | some (v, .quote, t) => some ([.text v], t)
  | some (v, .field, t) =>
    match _hcut : Text.cut '\x7d' t with
    | (_, none) => none
    | (e, some u) => (readParts q u).map fun (ps, t) => (.text v :: .field e :: ps, t)
termination_by s.length
decreasing_by
  have hlength := (isInert_of_readPart _h).1
  have ht := congrArg List.length (Text.of_cut _hcut).2
  simp at ht
  omega

/-- Reads a formatted literal. -/
def readFormatted : List Char → Option (List Part × List Char)
  | 'f' :: q :: r =>
    if (q = '\'' || q = '"') && r.take 2 ≠ [q, q] then readParts names q r else none
  | _ => none

/-- What stands in a field of a formatted literal. -/
structure Expression where
  text : String
  no_braces : '\x7b' ∉ text.toList ∧ '\x7d' ∉ text.toList

/-- A text as it is written in a literal: with escapes in double quotes, in the form of messages, as
it is between double quotes, or as it is in front of the field that ends a formatted literal. -/
inductive Quotation where
  | escaped (s : String)
  | quoted (s : String)
  | bare (s : String)
  | formatted (s : String) (field : Expression)

namespace Quotation

/-- The literal. -/
@[simp] def literal : Quotation → String
  | escaped s => textLiteral s
  | quoted s => Text.quoted s
  | bare s => "\"" ++ s ++ "\""
  | formatted s e => "f\"" ++ s ++ "\x7b" ++ e.text ++ "\x7d\""

/-- The literal is read to its end and no further, and is the text. -/
def Reads (rest : List Char) (x : Quotation) : Prop :=
  match x with
  | escaped s | quoted s | bare s =>
    readLiteral names (x.literal.toList ++ rest) = some (codePoints s.toList, rest)
  | formatted s e => readFormatted names (x.literal.toList ++ rest) =
      some ([.text (codePoints s.toList), .field e.text.toList, .text []], rest)

/-- The texts that a way of writing keeps. -/
def Keeps : Quotation → Prop
  | escaped s => IsBasic s
  | quoted _ => True
  | bare s => IsInert false '"' '"' s.toList
  | formatted s _ => IsInert true '"' '\x7b' s.toList

instance : (x : Quotation) → Decidable x.Keeps
  | escaped s => inferInstanceAs (Decidable (IsBasic s))
  | quoted _ => inferInstanceAs (Decidable True)
  | bare s => inferInstanceAs (Decidable (IsInert false '"' '"' s.toList))
  | formatted s _ => inferInstanceAs (Decidable (IsInert true '"' '\x7b' s.toList))

end Quotation

/-! ## Reading what is written -/

variable {names}

theorem readLiteral_quote {q : Char} (hq : q = '\'' ∨ q = '"') {r : List Char}
    (hr : r.take 2 ≠ [q, q]) : readLiteral names (q :: r) =
      (readPart names false q r).map fun (v, _, t) => (v, t) := by
  rw [readLiteral, if_pos]
  simp only [Bool.and_eq_true, Bool.or_eq_true, decide_eq_true_eq]
  exact ⟨hq, hr⟩

/-- A text that is behind an opening quote does not begin with two more. -/
theorem take_two_ne {q : Char} {r rest : List Char} (hr : ∀ t, r = q :: t → t = [])
    (hne : r ≠ []) (hrest : rest.head? ≠ some q) : (r ++ rest).take 2 ≠ [q, q] := by
  intro htake
  cases r with
  | nil => exact hne rfl
  | cons c t =>
    rw [List.cons_append, List.take_succ_cons, List.cons.injEq] at htake
    obtain ⟨rfl, htake⟩ := htake
    obtain rfl := hr t rfl
    cases rest with
    | nil => cases htake
    | cons d u => exact hrest (congrArg some (List.cons.inj htake).1)

/-- A literal that is read as a whole is read with any text behind it but a quote. -/
theorem readLiteral_of_literalValue? {literal : String} {v : List Nat}
    (hnull : '\x00' ∉ literal.toList) (h : literalValue? literal = some v) {rest : List Char}
    (hrest : rest.head? ≠ some '\'' ∧ rest.head? ≠ some '"') :
    readLiteral names (literal.toList ++ rest) = some (v, rest) := by
  have hbody : ∀ q r, q = '\'' ∨ q = '"' → '\x00' ∉ q :: r → readBody q r = some v →
      readLiteral names (q :: r ++ rest) = some (v, rest) := by
    intro q r hq hnull hread
    have hslash : q ≠ '\\' := by rcases hq with rfl | rfl <;> decide
    have hhead : rest.head? ≠ some q := by rcases hq with rfl | rfl; exacts [hrest.1, hrest.2]
    have hend : ∀ t, r = q :: t → t = [] := by
      rintro t rfl
      rw [readBody.eq_3 q q t fun _ _ h => absurd h hslash, if_pos rfl] at hread
      split at hread
      · next hnil => exact List.isEmpty_iff.mp hnil
      · cases hread
    have hne : r ≠ [] := by
      rintro rfl
      rw [readBody] at hread
      cases hread
    rw [List.cons_append, readLiteral_quote hq (take_two_ne hend hne hhead),
      readPart_of_readBody hslash (List.not_mem_of_not_mem_cons hnull) hread]
    rfl
  unfold literalValue? at h
  split at h
  · next r hr =>
    rw [hr] at hnull ⊢
    exact hbody '\'' r (Or.inl rfl) hnull h
  · next r hr =>
    rw [hr] at hnull ⊢
    exact hbody '"' r (Or.inr rfl) hnull h
  · cases h

theorem null_notMem_quotedChar {q : Char} (hq : q = '\'' ∨ q = '"') (c : Char) :
    '\x00' ∉ Text.quotedChar q c := by
  have hhex : ∀ w n, '\x00' ∉ Text.hexPadded w n := fun w n h =>
    absurd (Json.graphic_hexPadded w n _ h).1 (by decide)
  have hprintable : Text.isPrintable '\x00' = false := by decide
  unfold Text.quotedChar
  split_ifs with hself _ _ _ hc
  · simp only [Bool.or_eq_true, decide_eq_true_eq] at hself
    rcases hself with rfl | rfl
    · rcases hq with rfl | rfl <;> decide
    · decide
  · decide
  · decide
  · decide
  · intro h
    rw [← List.mem_singleton.mp h, hprintable] at hc
    exact Bool.noConfusion hc
  all_goals simp [hhex]

theorem reads_escaped_iff {s : String} {rest : List Char}
    (hrest : rest.head? ≠ some '\'' ∧ rest.head? ≠ some '"') :
    (Quotation.escaped s).Reads names rest ↔ IsBasic s := by
  have hnull : '\x00' ∉ (textLiteral s).toList := by
    unfold textLiteral Json.quote
    rw [String.toList_ofList]
    exact fun h => absurd (Json.printable_quoteChars s.toList _ h).1 (by decide)
  have hread : readLiteral names ((textLiteral s).toList ++ rest) = some (_, rest) :=
    readLiteral_of_literalValue? hnull (literalValue?_textLiteral s) hrest
  rw [← literalValue?_textLiteral_iff, literalValue?_textLiteral]
  unfold Quotation.Reads
  dsimp only
  rw [Quotation.literal, hread, Option.some_inj, Prod.mk.injEq, Option.some_inj]
  exact and_iff_left rfl

theorem reads_quoted {s : String} {rest : List Char}
    (hrest : rest.head? ≠ some '\'' ∧ rest.head? ≠ some '"') :
    (Quotation.quoted s).Reads names rest := by
  have hmark := Text.quoteMark_cases s.toList
  have hnull : '\x00' ∉ (Text.quoted s).toList := by
    unfold Text.quoted Text.quotedChars
    rw [String.toList_ofList]
    intro h
    rcases List.mem_append.mp h with h | h
    · rcases List.mem_cons.mp h with h | h
      · rcases hmark with hq | hq <;> exact absurd (h.trans hq) (by decide)
      · obtain ⟨c, -, hc⟩ := List.mem_flatMap.mp h
        exact null_notMem_quotedChar hmark c hc
    · rcases hmark with hq | hq <;>
        exact absurd ((List.mem_singleton.mp h).trans hq) (by decide)
  exact readLiteral_of_literalValue? hnull (literalValue?_quoted s) hrest

theorem take_two_ne_of_isInert {formatted : Bool} {stop : Char} {s rest : List Char}
    (h : IsInert formatted '"' stop s) (hrest : rest.head? ≠ some '"') :
    (s ++ '"' :: rest).take 2 ≠ ['"', '"'] := by
  have hend : ∀ t, s ++ ['"'] = '"' :: t → t = [] := by
    intro t ht
    cases s with
    | nil => exact (List.cons.inj ht).2.symm
    | cons c r => exact absurd (List.cons.inj ht).1 h.1
  have htake := take_two_ne hend (List.append_ne_nil_of_right_ne_nil s (List.cons_ne_nil _ _)) hrest
  rwa [List.append_assoc, List.singleton_append] at htake

theorem reads_bare_iff {s : String} {rest : List Char} (hrest : rest.head? ≠ some '"') :
    (Quotation.bare s).Reads names rest ↔ IsInert false '"' '"' s.toList := by
  have hliteral : (Quotation.bare s).literal.toList ++ rest = '"' :: (s.toList ++ '"' :: rest) := by
    simp
  unfold Quotation.Reads
  dsimp only
  rw [hliteral]
  constructor
  · intro h
    by_cases htriple : (s.toList ++ '"' :: rest).take 2 = ['"', '"']
    · rw [readLiteral, if_neg (by simp [htriple])] at h
      cases h
    · rw [readLiteral_quote (Or.inr rfl) htriple] at h
      obtain ⟨⟨v, e, u⟩, hread, heq⟩ := Option.map_eq_some_iff.mp h
      cases heq
      exact isInert_of_length hread (length_codePoints _) (Nat.le_refl _)
  · intro h
    rw [readLiteral_quote (Or.inr rfl) (take_two_ne_of_isInert h hrest),
      readPart_of_isInert (by decide) (readPart_quote rest) h]
    rfl

theorem readParts_of_quote {q : Char} {s t : List Char} {v : List Nat}
    (h : readPart names true q s = some (v, .quote, t)) :
    readParts names q s = some ([.text v], t) := by
  rw [readParts]
  split
  · next hread => rw [h] at hread; cases hread
  · next hread => rw [h] at hread; cases hread; rfl
  · next hread => rw [h] at hread; cases hread

theorem readParts_of_field {q : Char} {s e u : List Char} {v : List Nat} (he : '\x7d' ∉ e)
    (h : readPart names true q s = some (v, .field, e ++ '\x7d' :: u)) :
    readParts names q s =
      (readParts names q u).map fun (ps, t) => (.text v :: .field e :: ps, t) := by
  rw [readParts]
  split
  · next hread => rw [h] at hread; cases hread
  · next hread => rw [h] at hread; cases hread
  · next hread =>
    rw [h] at hread
    cases hread
    have hcut := Text.cut_append_sep he u
    split
    · next hnone => rw [hcut] at hnone; cases hnone
    · next hsome => rw [hcut] at hsome; cases hsome; rfl

/-- A formatted literal ends behind its first text, or goes on with a field. -/
theorem readParts_cases {q : Char} {s rest : List Char} {ps : List Part}
    (h : readParts names q s = some (ps, rest)) :
    (∃ v, ps = [.text v] ∧ readPart names true q s = some (v, .quote, rest)) ∨
      ∃ v e u ps', ps = .text v :: .field e :: ps' ∧
        readPart names true q s = some (v, .field, e ++ '\x7d' :: u) ∧
        readParts names q u = some (ps', rest) := by
  rw [readParts] at h
  split at h
  · cases h
  · next v t hread =>
    cases h
    exact Or.inl ⟨v, rfl, hread⟩
  · next v t hread =>
    split at h
    · cases h
    · next e u hcut =>
      obtain ⟨⟨ps', t'⟩, hparts, heq⟩ := Option.map_eq_some_iff.mp h
      cases heq
      have ht : t = e ++ '\x7d' :: u := (Text.of_cut hcut).2
      exact Or.inr ⟨v, e, u, ps', rfl, ht ▸ hread, hparts⟩

theorem readPart_open {e : List Char} (he : '\x7b' ∉ e) (u : List Char) :
    readPart names true '"' ('\x7b' :: (e ++ '\x7d' :: u)) =
      some ([], .field, e ++ '\x7d' :: u) := by
  have hsingle : (e ++ '\x7d' :: u).head? ≠ some '\x7b' := by
    cases e with
    | nil => exact fun h => absurd (Option.some.inj h) (by decide)
    | cons c r => exact fun h => he (Option.some.inj h ▸ List.mem_cons_self)
  rw [readPart, if_neg (by decide), if_neg (by decide), if_neg (by decide), if_pos (by decide),
    if_neg hsingle, if_pos rfl]

theorem reads_formatted_iff {s : String} {e : Expression} {rest : List Char} :
    (Quotation.formatted s e).Reads names rest ↔ IsInert true '"' '\x7b' s.toList := by
  have hliteral : (Quotation.formatted s e).literal.toList ++ rest =
      'f' :: '"' :: (s.toList ++ '\x7b' :: (e.text.toList ++ '\x7d' :: '"' :: rest)) := by
    simp
  unfold Quotation.Reads
  dsimp only
  rw [hliteral, readFormatted]
  constructor
  · intro h
    split at h
    · rcases readParts_cases h with ⟨v, hps, -⟩ | ⟨v, e', u, ps', hps, hread, hrest⟩
      · cases hps
      · cases hps
        rcases readParts_cases hrest with ⟨v', hps, hlast⟩ | ⟨_, _, _, _, hps, -⟩
        · have hlength := (isInert_of_readPart hlast).1
          refine isInert_of_length hread (length_codePoints _) ?_
          simp only [List.length_append, List.length_cons]
          omega
        · cases hps
    · cases h
  · intro h
    have htake : (s.toList ++ '\x7b' :: (e.text.toList ++ '\x7d' :: '"' :: rest)).take 2 ≠
        ['"', '"'] := by
      cases hs : s.toList with
      | nil => exact fun heq => absurd (List.cons.inj heq).1 (by decide)
      | cons c r =>
        rw [hs] at h
        exact fun heq => h.1 (List.cons.inj heq).1
    rw [if_pos (by simp [htake]), readParts_of_field e.no_braces.2
      (readPart_of_isInert (by decide) (readPart_open e.no_braces.1 _) h),
      readParts_of_quote (readPart_quote rest)]
    rfl

/-- A literal is read as its text exactly if the way it is written keeps the text. -/
theorem reads_iff (x : Quotation) {rest : List Char}
    (hrest : rest.head? ≠ some '\'' ∧ rest.head? ≠ some '"') : x.Reads names rest ↔ x.Keeps := by
  cases x with
  | escaped s => exact reads_escaped_iff hrest
  | quoted s => exact iff_of_true (reads_quoted hrest) trivial
  | bare s => exact reads_bare_iff hrest.2
  | formatted s e => exact reads_formatted_iff

end

end Wireform.Source
