import Mathlib.Logic.Basic
import Wireform.HeaderRule
import Wireform.Proofs.Text.Case
import Wireform.Proofs.Text.Trim

/-
  Wireform header rules: which texts are let through. A value is let through exactly if it cannot
  leave its line (`checkedValue_eq_ok_iff`). A name is let through exactly if it is a token, or a
  token with one line break behind it (`checkedName_eq_ok_iff`).
-/

namespace Wireform.HeaderRule

/-! ## Names -/

/-- The visible characters of ASCII that cannot stand in a token. -/
def delimiters : List Char := "\"(),/:;<=>?@[\\]\x7b\x7d".toList

/-- A visible character of ASCII that is no delimiter. -/
def IsTokenChar (c : Char) : Prop := 0x20 < c.toNat ∧ c.toNat < 0x7f ∧ c ∉ delimiters

instance (c : Char) : Decidable (IsTokenChar c) :=
  inferInstanceAs (Decidable (0x20 < c.toNat ∧ c.toNat < 0x7f ∧ c ∉ delimiters))

/-- One or more characters of a token. -/
structure IsToken (s : String) : Prop where
  ne_empty : s ≠ ""
  chars : ∀ c ∈ s.toList, IsTokenChar c

theorem isAscii_of_isTokenChar {c : Char} (h : isTokenChar c = true) :
    Text.isAscii c = true := by
  rcases Bool.or_eq_true_iff.mp h with halnum | hsign
  · exact Text.isAscii_of_isAlnumAscii halnum
  · have hall : "!#$%&'*+-.^_`|~".toList.all Text.isAscii = true := by decide
    exact List.all_eq_true.mp hall c (List.contains_iff_mem.mp hsign)

/-- The characters that are listed are those that the delimiters leave. -/
theorem isTokenChar_iff (c : Char) : isTokenChar c = true ↔ IsTokenChar c := by
  have hall : ∀ n < 128, isTokenChar (Char.ofNat n) = true ↔ IsTokenChar (Char.ofNat n) := by
    decide +kernel
  constructor
  · intro h
    exact (Text.forall_ascii (p := fun c => isTokenChar c = true ↔ IsTokenChar c) hall
      (isAscii_of_isTokenChar h)).mp h
  · intro h
    have hascii : Text.isAscii c = true := decide_eq_true (Nat.lt_succ_of_lt h.2.1)
    exact (Text.forall_ascii (p := fun c => isTokenChar c = true ↔ IsTokenChar c) hall
      hascii).mpr h

theorem isToken_iff (s : String) :
    IsToken s ↔ (!s.toList.isEmpty && s.toList.all isTokenChar) = true := by
  have hempty : s ≠ "" ↔ (!s.toList.isEmpty) = true := by
    rw [Bool.not_eq_true', ← Bool.not_eq_true, List.isEmpty_iff, not_iff_not,
      ← String.toList_inj]
    rfl
  rw [Bool.and_eq_true, ← hempty, List.all_eq_true]
  simp only [isTokenChar_iff]
  exact ⟨fun h => ⟨h.ne_empty, h.chars⟩, fun h => ⟨h.1, h.2⟩⟩

theorem IsToken.getLast?_ne {s : String} (h : IsToken s) : s.toList.getLast? ≠ some '\n' :=
  fun hlast => absurd (h.chars _ (List.mem_of_getLast? hlast)) (by decide)

/-- One line break at the end of a name is passed over. -/
theorem isName_iff (s : String) :
    isName s.toList = true ↔ IsToken s ∨ ∃ t, IsToken t ∧ s = t ++ "\n" := by
  unfold isName
  dsimp only
  by_cases hlast : s.toList.getLast? = some '\n'
  · obtain ⟨r, hr⟩ := List.getLast?_eq_some_iff.mp hlast
    obtain ⟨t, rfl⟩ : ∃ t : String, t.toList = r := ⟨String.ofList r, String.toList_ofList⟩
    have hs : s = t ++ "\n" := by
      rw [← String.toList_inj, hr, String.toList_append]
      rfl
    rw [if_pos hlast, hr, List.dropLast_concat, ← isToken_iff]
    constructor
    · exact fun h => Or.inr ⟨t, h, hs⟩
    · rintro (h | ⟨u, h, hu⟩)
      · exact absurd hlast h.getLast?_ne
      · rw [hs, ← String.toList_inj, String.toList_append, String.toList_append,
          List.append_left_inj, String.toList_inj] at hu
        exact hu ▸ h
  · rw [if_neg hlast, ← isToken_iff]
    refine (or_iff_left ?_).symm
    rintro ⟨t, -, rfl⟩
    refine hlast ?_
    rw [String.toList_append]
    exact List.getLast?_concat

/-- A refused name is named with its field. -/
theorem checkedName_cases (field s : String) :
    (IsToken s ∨ ∃ t, IsToken t ∧ s = t ++ "\n") ∧ checkedName field s = .ok s ∨
      ¬ (IsToken s ∨ ∃ t, IsToken t ∧ s = t ++ "\n") ∧
        checkedName field s = .error ⟨field, .badName s (.badName s)⟩ := by
  rw [← isName_iff]
  unfold checkedName checkName
  cases isName s.toList with
  | true => exact Or.inl ⟨rfl, rfl⟩
  | false => exact Or.inr ⟨Bool.false_ne_true, rfl⟩

theorem checkedName_eq_ok_iff (field s : String) : checkedName field s = .ok s ↔
    IsToken s ∨ ∃ t, IsToken t ∧ s = t ++ "\n" := by
  rcases checkedName_cases field s with ⟨hname, h⟩ | ⟨hname, h⟩
  · exact iff_of_true h hname
  · exact iff_of_false (by rw [h]; exact nofun) hname

/-! ## Values -/

/-- A text that stays inside its line: no spaces and tabs around it, and no characters that are
controls or lie beyond one octet. -/
structure IsFieldValue (s : String) : Prop where
  first : ∀ c, s.toList.head? = some c → c ≠ ' ' ∧ c ≠ '\t'
  last : ∀ c, s.toList.getLast? = some c → c ≠ ' ' ∧ c ≠ '\t'
  chars : ∀ c ∈ s.toList, (c.toNat < 0x20 → c = '\t') ∧ c.toNat ≠ 0x7f ∧ c.toNat ≤ 0xff

theorem isPad_eq_false {c : Char} : Text.isPad c = false ↔ c ≠ ' ' ∧ c ≠ '\t' := by
  unfold Text.isPad
  rw [Bool.or_eq_false_iff, decide_eq_false_iff_not, decide_eq_false_iff_not]

theorem checkChars_eq_ok_iff (s : List Char) : checkChars s = .ok () ↔
    ∀ c ∈ s, (c.toNat < 0x20 → c = '\t') ∧ c.toNat ≠ 0x7f ∧ c.toNat ≤ 0xff := by
  induction s with
  | nil => exact iff_of_true rfl fun _ hc => absurd hc List.not_mem_nil
  | cons c r ih =>
    have hcontrol : isControl c = true ↔ ¬ ((c.toNat < 0x20 → c = '\t') ∧ c.toNat ≠ 0x7f) := by
      unfold isControl
      rw [Bool.or_eq_true, Bool.and_eq_true, decide_eq_true_eq, decide_eq_true_eq,
        decide_eq_true_eq, not_and_or, Classical.not_imp, not_not]
    rw [checkChars, List.forall_mem_cons, ← ih]
    split
    · next h => exact iff_of_false nofun fun hall => hcontrol.mp h ⟨hall.1.1, hall.1.2.1⟩
    next hplain =>
    rw [hcontrol, not_not] at hplain
    split
    · next hwide => exact iff_of_false nofun fun hall => absurd hall.1.2.2 (Nat.not_le.mpr hwide)
    · next hwide => exact (and_iff_right ⟨hplain.1, hplain.2, Nat.not_lt.mp hwide⟩).symm

theorem checkValue_eq_ok_iff (s : String) : checkValue s = .ok () ↔ IsFieldValue s := by
  have htrim : Text.trim Text.isPad s.toList = s.toList ↔
      (∀ c, s.toList.head? = some c → c ≠ ' ' ∧ c ≠ '\t') ∧
        ∀ c, s.toList.getLast? = some c → c ≠ ' ' ∧ c ≠ '\t' := by
    rw [Text.trim_eq_self_iff]
    simp only [isPad_eq_false]
  unfold checkValue
  split
  · next hpadded =>
    refine iff_of_false nofun fun h => hpadded (htrim.mpr ⟨h.first, h.last⟩)
  · next htrimmed =>
    obtain ⟨hfirst, hlast⟩ := htrim.mp (not_not.mp htrimmed)
    rw [checkChars_eq_ok_iff]
    exact ⟨fun h => ⟨hfirst, hlast, h⟩, fun h => h.chars⟩

/-- A refused value is named with its field. -/
theorem checkedValue_cases (field s : String) (sensitive : Bool) :
    IsFieldValue s ∧ checkedValue field s sensitive = .ok s ∨
      ¬ IsFieldValue s ∧ ∃ cause, checkedValue field s sensitive = .error ⟨field, cause⟩ := by
  rw [← checkValue_eq_ok_iff]
  unfold checkedValue
  cases checkValue s with
  | ok _ => exact Or.inl ⟨rfl, rfl⟩
  | error e => exact Or.inr ⟨nofun, _, rfl⟩

theorem checkedValue_eq_ok_iff (field s : String) (sensitive : Bool) :
    checkedValue field s sensitive = .ok s ↔ IsFieldValue s := by
  rcases checkedValue_cases field s sensitive with ⟨hvalue, h⟩ | ⟨hvalue, cause, h⟩
  · exact iff_of_true h hvalue
  · exact iff_of_false (by rw [h]; exact nofun) hvalue

/-! ## Both -/

/-- A name comes back exactly if it is a token or a token before a line break, and a value exactly
if it stays inside its line. Whatever else is checked ends in an error that names the field. -/
theorem checked_or_named (field s : String) (sensitive : Bool) :
    (checkedName field s = .ok s ↔ IsToken s ∨ ∃ t, IsToken t ∧ s = t ++ "\n") ∧
    (checkedValue field s sensitive = .ok s ↔ IsFieldValue s) ∧
    (checkedName field s = .ok s ∨ ∃ cause, checkedName field s = .error ⟨field, cause⟩) ∧
    (checkedValue field s sensitive = .ok s ∨
      ∃ cause, checkedValue field s sensitive = .error ⟨field, cause⟩) := by
  refine ⟨checkedName_eq_ok_iff field s, checkedValue_eq_ok_iff field s sensitive, ?_, ?_⟩
  · exact (checkedName_cases field s).imp And.right fun h => ⟨_, h.2⟩
  · exact (checkedValue_cases field s sensitive).imp And.right And.right

/-- Not every name that is let through is a token. -/
theorem not_every_name_token :
    ¬ ∀ field s, checkedName field s = .ok s ↔ IsToken s := by
  intro h
  have hpassed : checkedName "tag" "X-Tag\n" = .ok "X-Tag\n" := rfl
  have htoken := (h "tag" "X-Tag\n").mp hpassed
  exact absurd (htoken.chars '\n' (by decide)) (by decide)

end Wireform.HeaderRule
