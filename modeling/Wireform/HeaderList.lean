import Wireform.ParseError
import Wireform.Scalar

/-
  Wireform header lists: values of one name that hold several elements between commas. Elements
  with commas or quotes of their own stand in double quotes.
-/

namespace Wireform.HeaderList

/-- Whether an element has to be quoted to survive the split at commas. -/
def needsQuotes (s : List Char) : Bool :=
  s.isEmpty || Text.trim Text.isBlank s ≠ s || s.any fun c => ",\"()".toList.contains c

/-- One character inside the quotes. -/
def escapeChar (c : Char) : List Char := if c = '\\' || c = '"' then ['\\', c] else [c]

/-- The element as it stands in a list. -/
def quoteChars (s : List Char) : List Char :=
  if needsQuotes s then '"' :: s.flatMap escapeChar ++ ['"'] else s

/-- `quoteChars` on strings. -/
def quote (s : String) : String := String.ofList (quoteChars s.toList)

/-- A quoted element up to its closing quote, and what follows. -/
def readQuoted : List Char → Option (List Char × List Char)
  | [] => none
  | '"' :: r => some ([], r)
  | '\\' :: c :: r => (readQuoted r).map fun (s, t) => (c :: s, t)
  | c :: r => (readQuoted r).map fun (s, t) => (c :: s, t)

theorem length_readQuoted (s : List Char) : ∀ {a b : List Char}, readQuoted s = some (a, b) →
    b.length < s.length := by
  fun_induction readQuoted s with
  | case1 => exact fun h => by cases h
  | case2 r =>
    rintro _ _ ⟨⟩
    exact Nat.lt_succ_self _
  | case3 c r ih =>
    intro a b h
    obtain ⟨_, hread⟩ := Text.exists_of_map_some h fun _ => rfl
    exact Nat.lt_succ_of_lt (Nat.lt_succ_of_lt (ih hread))
  | case4 c r _ _ ih =>
    intro a b h
    obtain ⟨_, hread⟩ := Text.exists_of_map_some h fun _ => rfl
    exact Nat.lt_succ_of_lt (ih hread)

/-- The first element of a text that is not empty, and what follows its comma if there is one. -/
def firstItem (s : List Char) : Except ParseError (List Char × Option (List Char)) :=
  match s.dropWhile Text.isPad with
  | '"' :: t =>
    match readQuoted t with
    | none => .error .unterminatedQuote
    | some (item, u) =>
      match u.dropWhile Text.isPad with
      | [] => .ok (item, none)
      | ',' :: v => .ok (item, some v)
      | _ => .error .textAfterQuote
  | t =>
    let item := Text.trim Text.isBlank (t.takeWhile (· ≠ ','))
    match t.dropWhile (· ≠ ',') with
    | [] => .ok (item, none)
    | _ :: v => .ok (item, some v)

theorem length_firstItem {s item v : List Char} (h : firstItem s = .ok (item, some v)) :
    v.length < s.length := by
  unfold firstItem at h
  have hp := (List.dropWhile_suffix Text.isPad (l := s)).length_le
  split at h
  · next t ht =>
    rw [ht, List.length_cons] at hp
    split at h
    · exact absurd h (by simp)
    · next a u hq =>
      have hu := length_readQuoted t hq
      have hd := (List.dropWhile_suffix Text.isPad (l := u)).length_le
      split at h
      · simp at h
      · next w hw =>
        rw [hw, List.length_cons] at hd
        simp only [Except.ok.injEq, Prod.mk.injEq, Option.some.injEq] at h
        rw [← h.2]; omega
      · simp at h
  · next t ht =>
    have hd := (List.dropWhile_suffix (fun c => decide (c ≠ ','))
      (l := s.dropWhile Text.isPad)).length_le
    split at h
    · simp at h
    · next c w hw =>
      rw [hw, List.length_cons] at hd
      simp only [Except.ok.injEq, Prod.mk.injEq, Option.some.injEq] at h
      rw [← h.2]; omega

/-- The elements of one value up to its end; a comma at the very end starts no element here. -/
def items : List Char → Except ParseError (List (List Char))
  | [] => .ok []
  | c :: r =>
    match h : firstItem (c :: r) with
    | .error e => .error e
    | .ok (item, none) => .ok [item]
    | .ok (item, some v) =>
      have := length_firstItem h
      (items v).map (item :: ·)
termination_by s => s.length
decreasing_by exact this

/-- The elements of one value. A comma at the end, or before white space at the end, is followed by
an empty element. -/
def splitOne (s : List Char) : Except ParseError (List (List Char)) :=
  (items s).map fun xs =>
    if (Text.trimEnd Text.isBlank s).getLast? = some ',' then xs ++ [[]] else xs

/-- The elements of several values in order; a blank value has none. -/
def splitChars : List (List Char) → Except ParseError (List (List Char))
  | [] => .ok []
  | v :: r =>
    if v.all Text.isBlank then splitChars r
    else do
      let xs ← splitOne v
      let ys ← splitChars r
      return xs ++ ys

/-- `splitChars` on strings. -/
def split (values : List String) : Except ParseError (List String) :=
  (splitChars (values.map String.toList)).map fun xs => xs.map String.ofList

/-! ## Reading -/

/-- The only value, without spaces and tabs around it; it is not split at commas. -/
def oneOrNone : List String → Except ParseError (Option String)
  | [] => .ok none
  | [v] => .ok (some (String.ofList (Text.trim Text.isPad v.toList)))
  | vs => .error (.tooManyItems vs.length)

/-- The only element of a list. -/
def atMostOne {α : Type} : List α → Except ParseError (Option α)
  | [] => .ok none
  | [v] => .ok (some v)
  | vs => .error (.tooManyItems vs.length)

/-- A list that is there only if it has elements. -/
def noneIfEmpty {α : Type} : List α → Option (List α)
  | [] => none
  | vs => some vs

/-- The elements, each read by the converter. -/
def readMany (converter : Converter) (values : List String) : Except WireError (List Value) := do
  let parts ← WireError.lift (split values)
  WireError.wrap .item (parts.mapM converter.read)

/-- The elements as booleans or numbers of one kind. -/
def readScalars (kind : ScalarKind) (values : List String) : Except WireError (List Value) := do
  let parts ← WireError.lift ((split values).mapError .primitiveList)
  WireError.wrap .primitive (parts.mapM (Scalar.read kind))

/-- The elements as texts in base64. -/
def readMedia (values : List String) : Except WireError (List String) := do
  let parts ← WireError.lift (split values)
  WireError.wrap .item (parts.mapM Scalar.readBase64Text)

/-- The parts between commas of the values that are not blank. -/
def dateParts (values : List String) : List String :=
  (values.filter fun v => !v.toList.all Text.isBlank).flatMap fun v =>
    (Text.pieces ',' v.toList).map fun p => String.ofList (Text.trim Text.isBlank p)

/-- Joins each two parts, as the weekday of an http-date stands before a comma of its own. -/
def pairDates : List String → Option (List String)
  | [] => some []
  | [_] => none
  | a :: b :: r => (pairDates r).map ((a ++ ", " ++ b) :: ·)

/-- The elements as timestamps. -/
def readDates (format : TimestampFormat) (values : List String) :
    Except WireError (List Moment) := do
  let parts ← match format with
    | .httpDate => match pairDates (dateParts values) with
      | some ps => .ok ps
      | none => .error (.malformed .incompleteDate)
    | _ => .ok (dateParts values)
  WireError.wrap .item (parts.mapM (Timestamp.read format))

end Wireform.HeaderList
