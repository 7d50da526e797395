import Wireform.Json.Octets
import Wireform.Proofs.Json.Line
import Wireform.Proofs.Json.ReadBack
import Wireform.Proofs.Utf8

/-
  Wireform JSON octets: a text of printable ASCII characters is found to be UTF-8 and read as it
  stands. The coding of a document is guessed from its first octets, and what the writer puts there
  never looks like another coding.
-/

namespace Wireform.Json

/-- Octets of ASCII characters other than the null character. -/
def PlainOctets (b : Bytes) : Prop := ∀ x ∈ b, x ≠ 0 ∧ x < 0x80

theorem guessCoding_of_plain {b : Bytes} (h : PlainOctets b) : guessCoding b = .utf8 := by
  unfold guessCoding
  split
  case h_1 x y _ _ _ => rw [if_neg (h x (by simp)).1, if_neg (h y (by simp)).1]
  case h_2 x y => rw [if_neg (h x (by simp)).1, if_neg (h y (by simp)).1]
  case h_3 => rfl

/-- Every byte order mark has an octet that is not plain. -/
theorem detectCoding_of_plain {b : Bytes} (h : PlainOctets b) : detectCoding b = (.utf8, b) := by
  have hmarks : marks.all (fun m => m.1.any fun x => x = 0 || 0x80 ≤ x) = true := by decide
  have hnone : (marks.find? fun m => m.1.isPrefixOf b) = none := by
    refine List.find?_eq_none.mpr fun m hm hmark => ?_
    obtain ⟨x, hx, hodd⟩ := List.any_eq_true.mp (List.all_eq_true.mp hmarks m hm)
    obtain ⟨hzero, hlow⟩ := h x ((List.isPrefixOf_iff_prefix.mp hmark).mem hx)
    rw [decide_eq_false hzero, decide_eq_false (UInt8.not_le.mpr hlow)] at hodd
    cases hodd
  unfold detectCoding
  rw [hnone, guessCoding_of_plain h]

theorem replaceHalves_of_plain {b : Bytes} (h : PlainOctets b) : ofUnits8.replaceHalves b = b := by
  induction b with
  | nil => rw [ofUnits8.replaceHalves]
  | cons x r ih =>
    have hx := h x List.mem_cons_self
    have hr := ih fun y hy => h y (List.mem_cons_of_mem x hy)
    rw [ofUnits8.replaceHalves.eq_2, hr]
    rintro y z t rfl
    exact absurd hx.2 (by decide)

/-- The octets of a printable text. -/
theorem plainOctets_encode {s : List Char} (h : Printable s) : PlainOctets (Utf8.encode s) := by
  rw [Utf8.encode_of_ascii fun c hc => Nat.lt_trans (h c hc).2 (by decide)]
  intro x hx
  obtain ⟨c, hc, rfl⟩ := List.mem_map.mp hx
  have hall : ∀ n < 0x7f, 0x20 ≤ n → UInt8.ofNat n ≠ 0 ∧ UInt8.ofNat n < 0x80 := by decide
  exact hall c.toNat (h c hc).2 (h c hc).1

theorem decodeOctets_encode {s : List Char} (h : Printable s) :
    decodeOctets (Utf8.encode s) = some s := by
  have hplain := plainOctets_encode h
  unfold decodeOctets ofUnits8
  rw [detectCoding_of_plain hplain]
  dsimp only
  rw [replaceHalves_of_plain hplain, Utf8.scan_encode]
  have hpure := List.mapM_pure (m := Option) (l := s) (f := fun c => c)
  rw [List.mapM_map (m := Option)]
  exact hpure.trans (congrArg some (List.map_id' s))

/-- The octets of a document's text are read as that text. -/
theorem readOctets_compact (j : Json) :
    readOctets (Utf8.ofString j.compact) = ofText j.compact := by
  unfold readOctets Utf8.ofString
  rw [decodeOctets_encode]
  · rfl
  · rw [compact, String.toList_ofList]
    exact printable_compactChars j

/-- A document is read back from the octets of its text. -/
theorem readOctets_of_isExact {j : Json} (hj : j.isExact = true) :
    readOctets (Utf8.ofString j.compact) = .ok j := by
  rw [readOctets_compact, ofText_compact hj]

end Wireform.Json
