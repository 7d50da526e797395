/-
  Wireform text: cutting, trimming and joining texts as lists of characters. `join_pieces` says
  that cutting at a separator loses nothing.
-/

namespace Wireform.Text

/-- The pieces of a text between the separators `c`; there is always one more than separators. -/
def pieces (c : Char) : List Char → List (List Char)
  | [] => [[]]
  | x :: r =>
    if x = c then [] :: pieces c r
    else match pieces c r with
      | [] => [[x]]
      | p :: ps => (x :: p) :: ps

/-- The pieces with `c` between each two. -/
def join (c : Char) : List (List Char) → List Char
  | [] => []
  | [p] => p
  | p :: q :: ps => p ++ c :: join c (q :: ps)

theorem pieces_ne_nil (c : Char) (s : List Char) : pieces c s ≠ [] := by
  cases s with
  | nil => simp [pieces]
  | cons x r =>
    simp only [pieces]
    split
    · simp
    · cases pieces c r <;> simp

theorem join_pieces (c : Char) (s : List Char) : join c (pieces c s) = s := by
  induction s with
  | nil => rfl
  | cons x r ih =>
    simp only [pieces]
    cases h : pieces c r with
    | nil => exact absurd h (pieces_ne_nil c r)
    | cons p ps =>
      rw [h] at ih
      by_cases hx : x = c
      · simp [hx, join, ih]
      · cases ps with
        | nil => simpa [hx, join] using ih
        | cons q qs => simpa [hx, join] using ih

/-- The text before the first `c`, and the text after it if there is one. -/
def cut (c : Char) : List Char → List Char × Option (List Char)
  | [] => ([], none)
  | x :: r => if x = c then ([], some r) else ((x :: (cut c r).1), (cut c r).2)

/-- What follows a reading stays the same when only what is read changes. -/
theorem exists_of_map_some {α : Type} {x : Option (α × List Char)} {a : α} {rest : List Char}
    {f : α × List Char → α × List Char} (h : x.map f = some (a, rest)) (hf : ∀ y, (f y).2 = y.2) :
    ∃ b, x = some (b, rest) := by
  obtain ⟨⟨b, rest'⟩, hx, hy⟩ := Option.map_eq_some_iff.mp h
  have hrest : rest' = rest := (hf (b, rest')).symm.trans (congrArg Prod.snd hy)
  exact ⟨b, hrest ▸ hx⟩

/-- Drops the characters in `p` from the end. -/
def trimEnd (p : Char → Bool) (s : List Char) : List Char := (s.reverse.dropWhile p).reverse

/-- Drops the characters in `p` from both ends. -/
def trim (p : Char → Bool) (s : List Char) : List Char := trimEnd p (s.dropWhile p)

/-- The maximal runs of characters outside `p`. -/
def words (p : Char → Bool) (s : List Char) : List (List Char) :=
  (go [] s).filter (· ≠ [])
where
  go (w : List Char) : List Char → List (List Char)
    | [] => [w.reverse]
    | x :: r => if p x then w.reverse :: go [] r else go (x :: w) r

/-- Whether `c` lies in one of the closed ranges. -/
def inRanges (ranges : List (Nat × Nat)) (c : Char) : Bool :=
  ranges.any fun r => r.1 ≤ c.toNat && c.toNat ≤ r.2

def isLowerAscii (c : Char) : Bool := 'a' ≤ c && c ≤ 'z'
def isUpperAscii (c : Char) : Bool := 'A' ≤ c && c ≤ 'Z'
def isDigitAscii (c : Char) : Bool := '0' ≤ c && c ≤ '9'

/-- ASCII letters and digits. -/
def isAlnumAscii (c : Char) : Bool := isLowerAscii c || isUpperAscii c || isDigitAscii c

def isAscii (c : Char) : Bool := c.toNat < 128

/-- The text of a natural number in base ten. -/
def ofNat (n : Nat) : List Char := Nat.toDigits 10 n

/-- `n` in base ten with zeros in front up to `width` digits. -/
def padded (width n : Nat) : List Char :=
  List.replicate (width - (ofNat n).length) '0' ++ ofNat n

/-- Whether `w` occurs in the text as a whole. -/
def occurs (w : List Char) : List Char → Bool
  | [] => w.isEmpty
  | x :: r => w.isPrefixOf (x :: r) || occurs w r

end Wireform.Text
