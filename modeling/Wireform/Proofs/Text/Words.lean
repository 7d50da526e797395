import Wireform.Proofs.Text.Pieces
import Wireform.Proofs.Text.Trim

/-
  Wireform text: words between separators. Words that were joined come apart again, and there is
  nothing to trim around them.
-/

namespace Wireform.Text

variable {p : Char → Bool} {c : Char} {w : List Char} {ws : List (List Char)}

/-- A text that is one word: it has characters, and none at which words end. -/
structure IsWord (p : Char → Bool) (w : List Char) : Prop where
  ne_nil : w ≠ []
  inside : ∀ c ∈ w, p c = false

theorem isWord_iff : IsWord p w ↔ w ≠ [] ∧ w.all (fun c => !p c) = true := by
  rw [List.all_eq_true]
  simp only [Bool.not_eq_true']
  exact ⟨fun h => ⟨h.ne_nil, h.inside⟩, fun h => ⟨h.1, h.2⟩⟩

instance : Decidable (IsWord p w) := decidable_of_iff _ isWord_iff.symm

theorem IsWord.imp {q : Char → Bool} (h : IsWord p w) (hpq : ∀ c, p c = false → q c = false) :
    IsWord q w := ⟨h.ne_nil, fun c hc => hpq c (h.inside c hc)⟩

theorem words_go (acc : List Char) (hw : ∀ c ∈ w, p c = false) (r : List Char) :
    words.go p acc (w ++ r) = words.go p (w.reverse ++ acc) r := by
  induction w generalizing acc with
  | nil => rfl
  | cons c w ih =>
    obtain ⟨hc, hw⟩ := List.forall_mem_cons.mp hw
    rw [List.cons_append, words.go, hc, if_neg Bool.false_ne_true, ih _ hw, List.reverse_cons,
      List.append_assoc]
    rfl

theorem words_of_isWord (hw : IsWord p w) : words p w = [w] := by
  have hgo : words.go p [] w = [w] := by
    have h := words_go [] hw.inside []
    rwa [List.append_nil, List.append_nil, words.go, List.reverse_reverse] at h
  unfold words
  rw [hgo]
  exact List.filter_cons_of_pos (decide_eq_true hw.ne_nil)

theorem words_append (hw : IsWord p w) (hc : p c = true) (r : List Char) :
    words p (w ++ c :: r) = w :: words p r := by
  have hgo : words.go p [] (w ++ c :: r) = w :: words.go p [] r := by
    rw [words_go [] hw.inside, words.go, if_pos hc, List.append_nil, List.reverse_reverse]
  unfold words
  rw [hgo]
  exact List.filter_cons_of_pos (decide_eq_true hw.ne_nil)

theorem words_join (hc : p c = true) (hws : ∀ w ∈ ws, IsWord p w) : words p (join c ws) = ws := by
  induction ws with
  | nil => rfl
  | cons w ws ih =>
    obtain ⟨hw, hws⟩ := List.forall_mem_cons.mp hws
    by_cases hnil : ws = []
    · rw [hnil]
      exact words_of_isWord hw
    · rw [join_cons c w hnil, words_append hw hc, ih hws]

/-- The characters inside words are those that end none. -/
theorem mem_words_go {x : Char} {acc s : List Char} :
    (∃ w ∈ words.go p acc s, x ∈ w) ↔ x ∈ acc ∨ x ∈ s ∧ p x = false := by
  induction s generalizing acc with
  | nil => simp [words.go]
  | cons c s ih =>
    rw [words.go]
    split
    · next hc =>
      simp only [List.mem_cons, exists_eq_or_imp, ih, List.mem_reverse]
      have hself : ¬ (x = c ∧ p x = false) := by
        rintro ⟨rfl, hx⟩
        rw [hc] at hx
        cases hx
      simp [or_and_right, hself]
    · next hc =>
      rw [ih, List.mem_cons, List.mem_cons]
      have hself : x = c → p x = false := fun h => by simpa [h] using hc
      rw [or_and_right, and_iff_left_of_imp hself, or_comm (a := x = c), or_assoc]

theorem mem_words {x : Char} {s : List Char} :
    (∃ w ∈ words p s, x ∈ w) ↔ x ∈ s ∧ p x = false := by
  have hgo : (∃ w ∈ words.go p [] s, x ∈ w) ↔ x ∈ s ∧ p x = false := by
    rw [mem_words_go, iff_false_intro List.not_mem_nil, false_or]
  rw [← hgo]
  unfold words
  constructor
  · rintro ⟨w, hw, hx⟩
    exact ⟨w, (List.mem_filter.mp hw).1, hx⟩
  · rintro ⟨w, hw, hx⟩
    exact ⟨w, List.mem_filter.mpr ⟨hw, decide_eq_true (List.ne_nil_of_mem hx)⟩, hx⟩

theorem trim_join (hws : ∀ w ∈ ws, IsWord p w) : trim p (join c ws) = join c ws := by
  have hends : ∀ x, (join c ws).head? = some x ∨ (join c ws).getLast? = some x → p x = false := by
    intro x hx
    obtain ⟨w, hw, hxw⟩ := ends_join (fun w hw => (hws w hw).ne_nil) hx
    exact (hws w hw).inside x hxw
  rw [trim_eq_self_iff]
  exact ⟨fun x hx => hends x (.inl hx), fun x hx => hends x (.inr hx)⟩

end Wireform.Text
