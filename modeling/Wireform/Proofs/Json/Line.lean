import Mathlib.Tactic.SplitIfs
import Wireform.Json.Writer

/-
  Wireform JSON text on one line: whatever a document holds, its compact text is made of printable
  ASCII characters and is not blank. Control characters and what lies outside ASCII stand in it as
  escapes only.
-/

namespace Wireform

/-! ## Printable characters -/

/-- Characters that show. -/
def Graphic (s : List Char) : Prop := ∀ c ∈ s, 0x20 < c.toNat ∧ c.toNat < 0x7f

/-- Characters that show, and blanks. -/
def Printable (s : List Char) : Prop := ∀ c ∈ s, 0x20 ≤ c.toNat ∧ c.toNat < 0x7f

instance (s : List Char) : Decidable (Graphic s) := List.decidableBAll _ s

instance (s : List Char) : Decidable (Printable s) := List.decidableBAll _ s

theorem graphic_append {s t : List Char} (hs : Graphic s) (ht : Graphic t) : Graphic (s ++ t) := by
  intro c hc
  rcases List.mem_append.mp hc with h | h
  · exact hs c h
  · exact ht c h

theorem graphic_cons {c : Char} {s : List Char} (hc : Graphic [c]) (hs : Graphic s) :
    Graphic (c :: s) := graphic_append hc hs

theorem Graphic.of_subset {s t : List Char} (ht : Graphic t) (h : s ⊆ t) : Graphic s :=
  fun c hc => ht c (h hc)

theorem Graphic.printable {s : List Char} (h : Graphic s) : Printable s :=
  fun c hc => ⟨Nat.le_of_lt (h c hc).1, (h c hc).2⟩

theorem printable_append {s t : List Char} (hs : Printable s) (ht : Printable t) :
    Printable (s ++ t) := by
  intro c hc
  rcases List.mem_append.mp hc with h | h
  · exact hs c h
  · exact ht c h

theorem printable_cons {c : Char} {s : List Char} (hc : Printable [c]) (hs : Printable s) :
    Printable (c :: s) := printable_append hc hs

/-! ## Numbers -/

theorem graphic_digitChar {n : Nat} (h : n < 16) : Graphic [Nat.digitChar n] := by
  have hall : ∀ n < 16, Graphic [Nat.digitChar n] := by decide
  exact hall n h

theorem graphic_ofNat (n : Nat) : Graphic (Text.ofNat n) := by
  intro c hc
  have hdigit : c.isDigit = true := Nat.isDigit_of_mem_toDigits (by decide) (by decide) hc
  simp only [Char.isDigit, Bool.and_eq_true, decide_eq_true_eq] at hdigit
  have hlow : 48 ≤ c.toNat := hdigit.1
  have hhigh : c.toNat ≤ 57 := hdigit.2
  omega

theorem graphic_replicate_zero (n : Nat) : Graphic (List.replicate n '0') := by
  intro c hc
  rw [List.eq_of_mem_replicate hc]
  decide

theorem graphic_padded (width n : Nat) : Graphic (Text.padded width n) :=
  graphic_append (graphic_replicate_zero _) (graphic_ofNat n)

theorem graphic_digits (n : Int) : Graphic (Whole.digits n) := by
  unfold Whole.digits
  split
  · exact graphic_cons (by decide) (graphic_ofNat _)
  · exact graphic_ofNat _

theorem graphic_positional {ds : List Char} (h : Graphic ds) (point : Int) :
    Graphic (Double.positional ds point) := by
  unfold Double.positional
  split
  · exact graphic_cons (by decide)
      (graphic_cons (by decide) (graphic_append (graphic_replicate_zero _) h))
  · split
    · exact graphic_append (graphic_append h (graphic_replicate_zero _)) (by decide)
    · exact graphic_append (h.of_subset (List.take_subset _ ds))
        (graphic_cons (by decide) (h.of_subset (List.drop_subset _ ds)))

theorem graphic_exponential {ds : List Char} (h : Graphic ds) (point : Int) :
    Graphic (Double.exponential ds point) := by
  have hfraction : Graphic (if ds.length ≤ 1 then [] else '.' :: ds.drop 1) := by
    split
    · decide
    · exact graphic_cons (by decide) (h.of_subset (List.drop_subset 1 ds))
  have hsign : Graphic [if point - 1 < 0 then '-' else '+'] := by
    split <;> decide
  unfold Double.exponential
  exact graphic_append (graphic_append (h.of_subset (List.take_subset 1 ds)) hfraction)
    (graphic_cons (by decide) (graphic_cons hsign (graphic_padded 2 _)))

theorem graphic_significant (m : Nat) (q : Int) : Graphic (Double.significant m q).1 := by
  unfold Double.significant Text.trimEnd
  dsimp only
  refine (graphic_ofNat (Double.shortest m q).1).of_subset fun c hc => ?_
  rw [List.mem_reverse] at hc
  exact List.mem_reverse.mp ((List.dropWhile_sublist _).subset hc)

theorem positional_ne_nil (ds : List Char) (point : Int) : Double.positional ds point ≠ [] := by
  unfold Double.positional
  split
  · simp
  · split <;> simp

theorem exponential_ne_nil (ds : List Char) (point : Int) : Double.exponential ds point ≠ [] := by
  simp [Double.exponential]

theorem graphic_text (x : Double) : Graphic x.text ∧ x.text ≠ [] := by
  cases x with
  | nan => decide
  | infinite negative => cases negative <;> decide
  | finite negative m q =>
    unfold Double.text
    dsimp only
    generalize hbody : (if m = 0 then _ else _ : List Char) = body
    have hgraphic : Graphic body ∧ body ≠ [] := by
      subst hbody
      split
      · decide
      · split
        · exact ⟨graphic_positional (graphic_significant m q) _, positional_ne_nil _ _⟩
        · exact ⟨graphic_exponential (graphic_significant m q) _, exponential_ne_nil _ _⟩
    cases negative with
    | false => exact hgraphic
    | true => exact ⟨graphic_cons (by decide) hgraphic.1, by simp⟩

namespace Json

theorem graphic_realChars (x : Double) : Graphic (realChars x) ∧ realChars x ≠ [] := by
  cases x with
  | nan => decide
  | infinite negative => cases negative <;> decide
  | finite negative m q => exact graphic_text (.finite negative m q)

/-! ## Texts in quotes -/

theorem graphic_hexPadded (width n : Nat) : Graphic (Text.hexPadded width n) := by
  induction width generalizing n with
  | zero => exact fun c hc => absurd hc List.not_mem_nil
  | succ width ih =>
    exact graphic_append (ih _) (graphic_digitChar (Nat.mod_lt n (by decide)))

theorem graphic_unitEscape (n : Nat) : Graphic (unitEscape n) :=
  graphic_cons (by decide) (graphic_cons (by decide) (graphic_hexPadded 4 n))

theorem printable_escapeChar (c : Char) : Printable (escapeChar c) := by
  unfold escapeChar
  split_ifs with _ _ _ _ _ _ _ hplain
  · decide
  · decide
  · decide
  · decide
  · decide
  · decide
  · decide
  · intro x hx
    rw [List.mem_singleton.mp hx]
    simpa using hplain
  · exact (graphic_unitEscape _).printable
  · exact (graphic_append (graphic_unitEscape _) (graphic_unitEscape _)).printable

theorem printable_quoteChars (s : List Char) : Printable (quoteChars s) := by
  have hinner : Printable (s.flatMap escapeChar) := by
    intro x hx
    obtain ⟨c, -, hxc⟩ := List.mem_flatMap.mp hx
    exact printable_escapeChar c x hxc
  exact printable_cons (by decide) (printable_append hinner (by decide))

theorem printable_field (key : List Char) {value rest : List Char} (hv : Printable value)
    (hr : Printable rest) : Printable (quoteChars key ++ ':' :: ' ' :: value ++ rest) :=
  printable_append (printable_append (printable_quoteChars key)
    (printable_cons (by decide) (printable_cons (by decide) hv))) hr

/-! ## Documents -/

mutual

theorem printable_compactChars (j : Json) : Printable (compactChars j) := by
  cases j with
  | null => decide
  | flag b => cases b <;> decide
  | whole n => exact (graphic_digits n).printable
  | real x => exact (graphic_realChars x).1.printable
  | text s => exact printable_quoteChars s.toList
  | list items =>
    cases items with
    | nil => decide
    | cons x xs =>
      exact printable_cons (by decide)
        (printable_append (printable_compactChars x) (printable_compactItems xs))
  | map fields =>
    cases fields with
    | nil => decide
    | cons f r =>
      obtain ⟨k, v⟩ := f
      exact printable_cons (by decide)
        (printable_field k.toList (printable_compactChars v) (printable_compactFields r))

theorem printable_compactItems (items : List Json) : Printable (compactItems items) := by
  cases items with
  | nil => decide
  | cons x xs =>
    exact printable_cons (by decide) (printable_cons (by decide)
      (printable_append (printable_compactChars x) (printable_compactItems xs)))

theorem printable_compactFields (fields : List (String × Json)) :
    Printable (compactFields fields) := by
  cases fields with
  | nil => decide
  | cons f r =>
    obtain ⟨k, v⟩ := f
    exact printable_cons (by decide) (printable_cons (by decide)
      (printable_field k.toList (printable_compactChars v) (printable_compactFields r)))

end

end Json

end Wireform
