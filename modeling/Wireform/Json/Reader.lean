import Wireform.Json.Basic
import Wireform.Number.Real

/-
  Wireform JSON text: a text is cut into tokens, and a stack of the lists and maps still open is
  run over them. Not-a-number and the infinities are read too, and a key that comes again replaces
  the value it had.
-/

namespace Wireform.Json

/-- Why a text is no document. -/
inductive Fault where
  | malformed
  | tooManyDigits (digits : Nat)
  deriving DecidableEq

inductive Token where
  | listStart
  | listEnd
  | mapStart
  | mapEnd
  | comma
  | colon
  | text (s : List Char)
  | scalar (j : Json)
  | tooLong (digits : Nat)

/-! ## Texts in quotes -/

/-- The value of a hexadecimal digit in either case. -/
def hexValue? (c : Char) : Option Nat :=
  if '0' ≤ c && c ≤ '9' then some (c.toNat - 48)
  else if 'a' ≤ c && c ≤ 'f' then some (c.toNat - 87)
  else if 'A' ≤ c && c ≤ 'F' then some (c.toNat - 55)
  else none

/-- The code unit written by four hexadecimal digits. -/
def unit? (a b c d : Char) : Option Nat := do
  return (((← hexValue? a) * 16 + (← hexValue? b)) * 16 + (← hexValue? c)) * 16 + (← hexValue? d)

def isHighUnit (n : Nat) : Bool := 0xd800 ≤ n && n < 0xdc00

def isLowUnit (n : Nat) : Bool := 0xdc00 ≤ n && n < 0xe000

/-- The character of a pair of code units. -/
def joinUnits (high low : Nat) : Char :=
  Char.ofNat (0x10000 + (high - 0xd800) * 1024 + (low - 0xdc00))

/-- The character of one code unit; half of a pair has none and gives the replacement character. -/
def unitChar (n : Nat) : Char := if isHighUnit n || isLowUnit n then '\uFFFD' else Char.ofNat n

/-- The character that a letter behind a backslash stands for. -/
def escape? : Char → Option Char
  | '"' => some '"'
  | '\\' => some '\\'
  | '/' => some '/'
  | 'b' => some '\x08'
  | 'f' => some '\x0c'
  | 'n' => some '\n'
  | 'r' => some '\r'
  | 't' => some '\t'
  | _ => none

/-- A text up to its closing quote, and what follows. -/
def readText : List Char → Option (List Char × List Char)
  | [] => none
  | '"' :: r => some ([], r)
  | '\\' :: 'u' :: a :: b :: c :: d :: '\\' :: 'u' :: e :: f :: g :: h :: r =>
    match unit? a b c d, unit? e f g h with
    | some m, some n =>
      if isHighUnit m && isLowUnit n then (readText r).map fun (s, t) => (joinUnits m n :: s, t)
      else (readText ('\\' :: 'u' :: e :: f :: g :: h :: r)).map fun (s, t) => (unitChar m :: s, t)
    | some m, none =>
      (readText ('\\' :: 'u' :: e :: f :: g :: h :: r)).map fun (s, t) => (unitChar m :: s, t)
    | none, _ => none
  | '\\' :: 'u' :: a :: b :: c :: d :: r =>
    match unit? a b c d with
    | some m => (readText r).map fun (s, t) => (unitChar m :: s, t)
    | none => none
  | '\\' :: x :: r =>
    match escape? x with
    | some y => (readText r).map fun (s, t) => (y :: s, t)
    | none => none
  | x :: r =>
    if x.toNat < 0x20 || x = '\\' then none else (readText r).map fun (s, t) => (x :: s, t)
termination_by s => s.length

theorem readText_close (r : List Char) : readText ('"' :: r) = some ([], r) := by rw [readText]

/-- What follows a text behind some characters is no longer than the whole. -/
theorem length_of_map_readText {s r a b : List Char}
    {f : List Char × List Char → List Char × List Char}
    (h : (readText r).map f = some (a, b)) (hf : ∀ y, (f y).2 = y.2) (hr : r.length ≤ s.length)
    (ih : ∀ {a b : List Char}, readText r = some (a, b) → b.length ≤ r.length) :
    b.length ≤ s.length := by
  obtain ⟨_, hread⟩ := Text.exists_of_map_some h hf
  exact Nat.le_trans (ih hread) hr

theorem length_readText (s : List Char) : ∀ {a b : List Char}, readText s = some (a, b) →
    b.length ≤ s.length := by
  fun_induction readText s with
  | case1 => exact fun h => by cases h
  | case2 r =>
    rintro _ _ ⟨⟩
    exact Nat.le_succ _
  -- two code units: a pair that is one character, or a half and whatever the second one is
  | case3 a b c d e f g h r m n _ _ _ ih =>
    exact fun h =>
      length_of_map_readText h (fun _ => rfl) (by simp only [List.length_cons]; omega) ih
  | case4 a b c d e f g h r m n _ _ _ ih =>
    exact fun h =>
      length_of_map_readText h (fun _ => rfl) (by simp only [List.length_cons]; omega) ih
  | case5 a b c d e f g h r m _ _ ih =>
    exact fun h =>
      length_of_map_readText h (fun _ => rfl) (by simp only [List.length_cons]; omega) ih
  | case6 => exact fun h => by cases h
  -- one code unit
  | case7 a b c d r _ m _ ih =>
    exact fun h =>
      length_of_map_readText h (fun _ => rfl) (by simp only [List.length_cons]; omega) ih
  | case8 => exact fun h => by cases h
  -- a letter behind a backslash
  | case9 x r _ _ y _ ih =>
    exact fun h =>
      length_of_map_readText h (fun _ => rfl) (by simp only [List.length_cons]; omega) ih
  | case10 => exact fun h => by cases h
  -- any other character
  | case11 => exact fun h => by cases h
  | case12 x r _ _ _ _ _ ih =>
    exact fun h => length_of_map_readText h (fun _ => rfl) (Nat.le_succ _) ih

/-! ## Numbers -/

/-- The digits of a whole number, which has no zero in front of others. -/
def wholeDigits : List Char → List Char
  | '0' :: _ => ['0']
  | r => r.takeWhile Text.isDigitAscii

/-- A point with digits behind it, if the text starts with that. -/
def fractionPart : List Char → List Char
  | '.' :: r => if r.head?.any Text.isDigitAscii then '.' :: r.takeWhile Text.isDigitAscii else []
  | _ => []

/-- An exponent, if the text starts with one. -/
def exponentPart : List Char → List Char
  | e :: r =>
    if e = 'e' || e = 'E' then
      let (mark, t) := match r with
        | '+' :: t => (['+'], t)
        | '-' :: t => (['-'], t)
        | t => ([], t)
      if t.head?.any Text.isDigitAscii then e :: mark ++ t.takeWhile Text.isDigitAscii else []
    else []
  | [] => []

/-- The token of a number and how long it is, the sign apart. -/
def readNumber (negative : Bool) (s : List Char) : Option (Token × Nat) :=
  let whole := wholeDigits s
  if whole.isEmpty then none
  else
    let fraction := fractionPart (s.drop whole.length)
    let exponent := exponentPart (s.drop (whole.length + fraction.length))
    let size := whole.length + fraction.length + exponent.length
    if fraction.isEmpty && exponent.isEmpty then
      if Whole.maxDigits < whole.length then some (.tooLong whole.length, size)
      else
        let n : Int := Text.digitsValue whole
        some (.scalar (.whole (if negative then -n else n)), size)
    else
      let value := match Real.readParts (whole ++ fraction ++ exponent) with
        | some p => Double.ofScientific negative p.coefficient p.scale
        | none => .nan
      some (.scalar (.real value), size)

/-! ## Tokens -/

/-- Words that stand for a document. -/
def words : List (List Char × Json) :=
  [("null".toList, .null), ("true".toList, .flag true), ("false".toList, .flag false),
    ("NaN".toList, .real .nan), ("Infinity".toList, .real (.infinite false)),
    ("-Infinity".toList, .real (.infinite true))]

/-- The word that a text starts with. -/
def word? (s : List Char) : Option (List Char × Json) := words.find? fun w => w.1.isPrefixOf s

def isSpace (c : Char) : Bool := c = ' ' || c = '\t' || c = '\n' || c = '\r'

/-- The first token of a text that starts with `c`, and what follows. -/
def firstToken (c : Char) (r : List Char) : Option (Token × List Char) :=
  match c with
  | '[' => some (.listStart, r)
  | ']' => some (.listEnd, r)
  | '\x7b' => some (.mapStart, r)
  | '\x7d' => some (.mapEnd, r)
  | ',' => some (.comma, r)
  | ':' => some (.colon, r)
  | '"' => (readText r).map fun (s, t) => (.text s, t)
  | _ =>
    match word? (c :: r) with
    | some (w, j) => some (.scalar j, r.drop (w.length - 1))
    | none =>
      if c = '-' then (readNumber true r).map fun (t, n) => (t, r.drop n)
      else (readNumber false (c :: r)).map fun (t, n) => (t, r.drop (n - 1))

theorem length_firstToken {c : Char} {r t : List Char} {k : Token}
    (h : firstToken c r = some (k, t)) : t.length ≤ r.length := by
  unfold firstToken at h
  split at h
  case h_7 =>
    simp only [Option.map_eq_some_iff, Prod.mk.injEq] at h
    obtain ⟨⟨a, b⟩, hr, _, rfl⟩ := h
    exact length_readText r hr
  case h_8 =>
    split at h
    · simp only [Option.some.injEq, Prod.mk.injEq] at h
      rw [← h.2]; simp
    · split at h <;> simp only [Option.map_eq_some_iff, Prod.mk.injEq] at h <;>
        obtain ⟨_, _, _, rfl⟩ := h <;> simp
  all_goals simp only [Option.some.injEq, Prod.mk.injEq] at h; exact h.2 ▸ Nat.le_refl _

/-- The tokens up to the first place where there is none, and whether that is the end. -/
def tokens : List Char → List Token × Bool
  | [] => ([], true)
  | c :: r =>
    if isSpace c then tokens r
    else match h : firstToken c r with
      | none => ([], false)
      | some (k, t) =>
        have := length_firstToken h
        (k :: (tokens t).1, (tokens t).2)
termination_by s => s.length
decreasing_by all_goals simp only [List.length_cons]; omega

/-! ## Documents -/

/-- A list or map that is still open around the value being read. -/
inductive Frame where
  | item (before : List Json)
  | field (before : List (String × Json)) (key : String)

/-- What may come next, inside the open lists and maps. -/
inductive Place where
  | value (open_ : List Frame)
  | firstItem (open_ : List Frame)
  | firstKey (open_ : List Frame)
  | key (before : List (String × Json)) (open_ : List Frame)
  | colon (before : List (String × Json)) (key : String) (open_ : List Frame)
  | after (j : Json) (open_ : List Frame)

/-- A token where a value has to start. -/
def startValue (open_ : List Frame) : Token → Except Fault Place
  | .scalar j => .ok (.after j open_)
  | .text s => .ok (.after (.text (String.ofList s)) open_)
  | .listStart => .ok (.firstItem open_)
  | .mapStart => .ok (.firstKey open_)
  | .tooLong n => .error (.tooManyDigits n)
  | _ => .error .malformed

def step : Place → Token → Except Fault Place
  | .value st, t => startValue st t
  | .firstItem st, .listEnd => .ok (.after (.list []) st)
  | .firstItem st, t => startValue (.item [] :: st) t
  | .firstKey st, .mapEnd => .ok (.after (.map []) st)
  | .firstKey st, .text k => .ok (.colon [] (String.ofList k) st)
  | .key m st, .text k => .ok (.colon m (String.ofList k) st)
  | .colon m k st, .colon => .ok (.value (.field m k :: st))
  | .after j (.item xs :: st), .comma => .ok (.value (.item (j :: xs) :: st))
  | .after j (.item xs :: st), .listEnd => .ok (.after (.list (j :: xs).reverse) st)
  | .after j (.field m k :: st), .comma => .ok (.key (Entries.put k j m) st)
  | .after j (.field m k :: st), .mapEnd => .ok (.after (.map (Entries.put k j m)) st)
  | _, _ => .error .malformed

/-- The document of a text. -/
def read (s : List Char) : Except Fault Json := do
  let place ← (tokens s).1.foldlM step (.value [])
  match place, (tokens s).2 with
  | .after j [], true => return j
  | _, _ => throw .malformed

end Wireform.Json
