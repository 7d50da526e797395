import Wireform.Percent
import Wireform.Proofs.Utf8

/-
  Wireform percent coding: an encoded text holds percent signs and unreserved characters only, apart
  from what is kept. `decode_encode` says that decoding it gives the text again, as long as what is
  kept is ASCII and no percent sign.
-/

namespace Wireform.Percent

/-! ## Encoded texts -/

theorem isUnreserved_hexDigit {n : Nat} (h : n < 16) : isUnreserved (hexDigit n) = true := by
  have hall : ∀ n < 16, isUnreserved (hexDigit n) = true := by decide
  exact hall n h

theorem mem_encodeByte {b : UInt8} {c : Char} (h : c ∈ encodeByte b) :
    c = '%' ∨ isUnreserved c = true := by
  have hb : b.toNat < 256 := b.toNat_lt
  simp only [encodeByte, List.mem_cons, List.not_mem_nil, or_false] at h
  rcases h with h | h | h
  · exact Or.inl h
  · exact Or.inr (h ▸ isUnreserved_hexDigit (by omega))
  · exact Or.inr (h ▸ isUnreserved_hexDigit (by omega))

/-- What an encoded text is made of. -/
theorem mem_encode {keep : Char → Bool} {s : List Char} {c : Char} (h : c ∈ encode keep s) :
    c = '%' ∨ isUnreserved c = true ∨ keep c = true := by
  obtain ⟨x, -, hc⟩ := List.mem_flatMap.mp h
  unfold encodeChar at hc
  split at hc
  · next hx =>
    rw [List.mem_singleton] at hc
    rw [Bool.or_eq_true] at hx
    exact Or.inr (hc ▸ hx)
  · obtain ⟨b, -, hb⟩ := List.mem_flatMap.mp hc
    rcases mem_encodeByte hb with h | h
    · exact Or.inl h
    · exact Or.inr (Or.inl h)

theorem encodeChar_ne_nil (keep : Char → Bool) (c : Char) : encodeChar keep c ≠ [] := by
  unfold encodeChar
  split
  · exact List.cons_ne_nil c []
  · unfold Utf8.encodeChar
    dsimp only
    split
    · exact List.cons_ne_nil _ _
    · split
      · exact List.cons_ne_nil _ _
      · split
        · exact List.cons_ne_nil _ _
        · exact List.cons_ne_nil _ _

theorem encode_ne_nil {keep : Char → Bool} {s : List Char} (h : s ≠ []) : encode keep s ≠ [] := by
  cases s with
  | nil => exact absurd rfl h
  | cons c s =>
    intro he
    exact encodeChar_ne_nil keep c (List.append_eq_nil_iff.mp he).1

/-- A text of characters that may stand as they are is not changed. -/
theorem encode_eq_self {keep : Char → Bool} {s : List Char}
    (h : ∀ c ∈ s, (isUnreserved c || keep c) = true) : encode keep s = s := by
  induction s with
  | nil => rfl
  | cons c s ih =>
    have hc : encodeChar keep c = [c] := by
      unfold encodeChar
      rw [if_pos (h c List.mem_cons_self)]
    unfold encode at ih ⊢
    rw [List.flatMap_cons, hc, ih fun x hx => h x (List.mem_cons_of_mem c hx)]
    rfl

/-! ## Digits and octets -/

theorem hexValue?_hexDigit {n : Nat} (h : n < 16) : hexValue? (hexDigit n) = some n := by
  have hall : ∀ n < 16, hexValue? (hexDigit n) = some n := by decide
  exact hall n h

/-- An encoded octet is read whatever follows it. -/
theorem decodeBytes_encodeByte (b : UInt8) (r : List Char) :
    decodeBytes (encodeByte b ++ r) = b :: decodeBytes r := by
  have hb : b.toNat < 256 := b.toNat_lt
  have hsum : 16 * (b.toNat / 16) + b.toNat % 16 = b.toNat := by omega
  show decodeBytes ('%' :: hexDigit (b.toNat / 16) :: hexDigit (b.toNat % 16) :: r) = _
  rw [decodeBytes, hexValue?_hexDigit (by omega), hexValue?_hexDigit (by omega)]
  dsimp only
  rw [hsum, UInt8.ofNat_toNat]

theorem decodeBytes_encodeBytes (bs : Bytes) (r : List Char) :
    decodeBytes (bs.flatMap encodeByte ++ r) = bs ++ decodeBytes r := by
  induction bs with
  | nil => rfl
  | cons b bs ih =>
    rw [List.flatMap_cons, List.append_assoc, decodeBytes_encodeByte, ih, List.cons_append]

theorem decodeBytes_cons_of_ne {c : Char} (h : c ≠ '%') (r : List Char) :
    decodeBytes (c :: r) = Bytes.byte c :: decodeBytes r := by
  rw [decodeBytes]
  intro a b t hc
  exact absurd hc h

theorem isAscii_of_isUnreserved {c : Char} (h : isUnreserved c = true) :
    Text.isAscii c = true ∧ c ≠ '%' := by
  constructor
  · have hlast : ∀ d : Char, d.toNat < 128 → c ≤ d → Text.isAscii c = true := by
      intro d hd hc
      have hle : c.toNat ≤ d.toNat := UInt32.le_iff_toNat_le.mp hc
      exact decide_eq_true (by omega)
    simp only [isUnreserved, Text.isAlnumAscii, Text.isLowerAscii, Text.isUpperAscii,
      Text.isDigitAscii, Bool.or_eq_true, Bool.and_eq_true, decide_eq_true_eq] at h
    rcases h with ((((((⟨-, h⟩ | ⟨-, h⟩) | ⟨-, h⟩) | h) | h) | h) | h)
    · exact hlast 'z' (by decide) h
    · exact hlast 'Z' (by decide) h
    · exact hlast '9' (by decide) h
    · subst h; decide
    · subst h; decide
    · subst h; decide
    · subst h; decide
  · rintro rfl
    exact absurd h (by decide)

/-! ## Decoded texts -/

theorem decodeBytes_eq_nil {s : List Char} : decodeBytes s = [] ↔ s = [] := by
  refine ⟨fun h => ?_, fun h => by rw [h, decodeBytes]⟩
  unfold decodeBytes at h
  split at h
  · rfl
  · split at h
    · cases h
    · cases h
  · cases h

/-- Only the empty text is decoded to the empty text. -/
theorem decode_eq_nil {s : List Char} : decode s = [] ↔ s = [] := by
  have hgo : ∀ (s run : List Char), decode.go run s = [] ↔ run = [] ∧ s = [] := by
    intro s
    induction s with
    | nil =>
      intro run
      rw [decode.go, decodeRun, Utf8.decodeLoosely_eq_nil, decodeBytes_eq_nil,
        List.reverse_eq_nil_iff]
      exact (and_iff_left rfl).symm
    | cons c s ih =>
      intro run
      rw [decode.go]
      split
      · rw [ih]
        simp
      · simp
  exact (hgo s []).trans (and_iff_right rfl)

/-! ## Texts -/

variable {keep : Char → Bool}

theorem decodeBytes_encodeChar (hkeep : ∀ c, keep c = true → Text.isAscii c = true ∧ c ≠ '%')
    (c : Char) (r : List Char) :
    decodeBytes (encodeChar keep c ++ r) = Utf8.encodeChar c ++ decodeBytes r := by
  unfold encodeChar
  split
  · next h =>
    have hc : Text.isAscii c = true ∧ c ≠ '%' := by
      rw [Bool.or_eq_true] at h
      rcases h with h | h
      · exact isAscii_of_isUnreserved h
      · exact hkeep c h
    have hone : Utf8.encodeChar c = [Bytes.byte c] := by
      unfold Utf8.encodeChar
      exact if_pos (of_decide_eq_true hc.1)
    rw [hone]
    exact decodeBytes_cons_of_ne hc.2 r
  · exact decodeBytes_encodeBytes (Utf8.encodeChar c) r

theorem decodeBytes_encode (hkeep : ∀ c, keep c = true → Text.isAscii c = true ∧ c ≠ '%')
    (s : List Char) : decodeBytes (encode keep s) = Utf8.encode s := by
  induction s with
  | nil => rw [encode, List.flatMap_nil, decodeBytes]; rfl
  | cons c s ih =>
    rw [encode, List.flatMap_cons, decodeBytes_encodeChar hkeep]
    show Utf8.encodeChar c ++ decodeBytes (encode keep s) = _
    rw [ih]
    rfl

/-- A text of ASCII characters is one run. -/
theorem decode_of_isAscii {s : List Char} (h : ∀ c ∈ s, Text.isAscii c = true) :
    decode s = decodeRun s := by
  have hgo : ∀ (s run : List Char), (∀ c ∈ s, Text.isAscii c = true) →
      decode.go run s = decodeRun (run.reverse ++ s) := by
    intro s
    induction s with
    | nil =>
      intro run _
      rw [decode.go, List.append_nil]
    | cons c s ih =>
      intro run h
      rw [decode.go, if_pos (h c List.mem_cons_self),
        ih (c :: run) fun x hx => h x (List.mem_cons_of_mem c hx), List.reverse_cons,
        List.append_assoc]
      rfl
  exact hgo s [] h

/-- Decoding undoes encoding. -/
theorem decode_encode (hkeep : ∀ c, keep c = true → Text.isAscii c = true ∧ c ≠ '%')
    (s : List Char) : decode (encode keep s) = s := by
  have hascii : ∀ c ∈ encode keep s, Text.isAscii c = true := by
    intro c hc
    rcases mem_encode hc with rfl | h | h
    · decide
    · exact (isAscii_of_isUnreserved h).1
    · exact (hkeep c h).1
  rw [decode_of_isAscii hascii, decodeRun, decodeBytes_encode hkeep, Utf8.decodeLoosely_encode]

end Wireform.Percent
