import Wireform.Proofs.Utf8
import Wireform.Scalar

/-
  Wireform base64: decoding what was encoded. `decode_encode` follows the groups of three octets;
  only the last group is padded, and no sign of the alphabet is taken for padding. The texts of
  octets and of media are read back (`readBase64_text`, `readBase64Text_text`).
-/

namespace Wireform.Base64

theorem value?_sign {n : Nat} (h : n < 64) : value? (sign n) = some n := by
  have hall : ∀ n < 64, value? (sign n) = some n := by decide
  exact hall n h

theorem sign_ne_padding {n : Nat} (h : n < 64) : sign n ≠ '=' := by
  have hall : ∀ n < 64, sign n ≠ '=' := by decide
  exact hall n h

theorem ofNat_eq {a : UInt8} {n : Nat} (h : n = a.toNat) : UInt8.ofNat n = a := by
  rw [h, UInt8.ofNat_toNat]

/-- A group of four signs of the alphabet is no end of the text unless nothing follows it. -/
theorem decode_group {x y z w : Nat} (hx : x < 64) (hy : y < 64) (hz : z < 64) (hw : w < 64)
    {r : List Char} (hr : r.head? ≠ some '=') :
    decode (sign x :: sign y :: sign z :: sign w :: r) = (decode r).map fun rest =>
      UInt8.ofNat (4 * x + y / 16) :: UInt8.ofNat (y % 16 * 16 + z / 4) ::
        UInt8.ofNat (z % 4 * 64 + w) :: rest := by
  rw [decode, value?_sign hx, value?_sign hy, value?_sign hz, value?_sign hw]
  · simp only [Option.bind_eq_bind, Option.bind_some]
    cases r with
    | nil => rfl
    | cons c r =>
      have hc : c ≠ '=' := by simpa using hr
      rw [if_neg (by simp [hc])]
      exact Option.map_eq_bind.symm
  · intro _ he _
    exact sign_ne_padding hw he
  · intro he _
    exact sign_ne_padding hw he

theorem head?_encode (b : Bytes) : (encode b).head? ≠ some '=' := by
  have hfirst : ∀ a : UInt8, sign (a.toNat / 4) ≠ '=' := by
    intro a
    have ha : a.toNat < 256 := a.toNat_lt
    exact sign_ne_padding (by omega)
  fun_cases encode b with
  | case1 => simp
  | case2 a => simpa using hfirst a
  | case3 a b => simpa using hfirst a
  | case4 a b c r => simpa using hfirst a

/-- What an encoded text is made of. -/
theorem mem_encode {b : Bytes} {c : Char} (h : c ∈ encode b) :
    (∃ n < 64, c = sign n) ∨ c = '=' := by
  fun_induction encode b with
  | case1 => exact absurd h List.not_mem_nil
  | case2 a =>
    have ha : a.toNat < 256 := a.toNat_lt
    simp only [List.mem_cons, List.not_mem_nil, or_false, or_self] at h
    rcases h with rfl | rfl | rfl
    · exact Or.inl ⟨_, by omega, rfl⟩
    · exact Or.inl ⟨_, by omega, rfl⟩
    · exact Or.inr rfl
  | case3 a b =>
    have ha : a.toNat < 256 := a.toNat_lt
    have hb : b.toNat < 256 := b.toNat_lt
    simp only [List.mem_cons, List.not_mem_nil, or_false] at h
    rcases h with rfl | rfl | rfl | rfl
    · exact Or.inl ⟨_, by omega, rfl⟩
    · exact Or.inl ⟨_, by omega, rfl⟩
    · exact Or.inl ⟨_, by omega, rfl⟩
    · exact Or.inr rfl
  | case4 a b c r ih =>
    have ha : a.toNat < 256 := a.toNat_lt
    have hb : b.toNat < 256 := b.toNat_lt
    have hc : c.toNat < 256 := c.toNat_lt
    simp only [List.mem_cons] at h
    rcases h with rfl | rfl | rfl | rfl | h
    · exact Or.inl ⟨_, by omega, rfl⟩
    · exact Or.inl ⟨_, by omega, rfl⟩
    · exact Or.inl ⟨_, by omega, rfl⟩
    · exact Or.inl ⟨_, by omega, rfl⟩
    · exact ih h

/-- Decoding undoes encoding. -/
theorem decode_encode (b : Bytes) : decode (encode b) = some b := by
  fun_induction encode b with
  | case1 => rfl
  | case2 a =>
    have ha : a.toNat < 256 := a.toNat_lt
    rw [decode, value?_sign (by omega), value?_sign (by omega)]
    show some [UInt8.ofNat (4 * (a.toNat / 4) + a.toNat % 4 * 16 / 16)] = some [a]
    rw [ofNat_eq (a := a) (by omega)]
  | case3 a b =>
    have ha : a.toNat < 256 := a.toNat_lt
    have hb : b.toNat < 256 := b.toNat_lt
    rw [decode, value?_sign (by omega), value?_sign (by omega), value?_sign (by omega)]
    · show some [UInt8.ofNat (4 * (a.toNat / 4) + (a.toNat % 4 * 16 + b.toNat / 16) / 16),
        UInt8.ofNat ((a.toNat % 4 * 16 + b.toNat / 16) % 16 * 16 + b.toNat % 16 * 4 / 4)] =
          some [a, b]
      rw [ofNat_eq (a := a) (by omega), ofNat_eq (a := b) (by omega)]
    · exact sign_ne_padding (by omega)
  | case4 a b c r ih =>
    have ha : a.toNat < 256 := a.toNat_lt
    have hb : b.toNat < 256 := b.toNat_lt
    have hc : c.toNat < 256 := c.toNat_lt
    rw [decode_group (by omega) (by omega) (by omega) (by omega) (head?_encode r), ih,
      Option.map_some, ofNat_eq (a := a) (by omega), ofNat_eq (a := b) (by omega),
      ofNat_eq (a := c) (by omega)]

theorem encode_eq_nil {b : Bytes} : encode b = [] ↔ b = [] := by
  fun_cases encode b with
  | case1 => exact iff_of_true rfl rfl
  | case2 a => exact iff_of_false nofun nofun
  | case3 a b => exact iff_of_false nofun nofun
  | case4 a b c r => exact iff_of_false nofun nofun

/-- Every character of an encoded text is a visible one of ASCII. -/
theorem visible_of_mem_encode {b : Bytes} {c : Char} (h : c ∈ encode b) :
    0x20 < c.toNat ∧ c.toNat < 0x7f ∧ c ≠ ',' ∧ c ≠ '"' := by
  have hsign : ∀ n < 64, 0x20 < (sign n).toNat ∧ (sign n).toNat < 0x7f ∧ sign n ≠ ',' ∧
      sign n ≠ '"' := by decide
  rcases mem_encode h with ⟨n, hn, rfl⟩ | rfl
  · exact hsign n hn
  · decide

theorem dash_not_mem_encode (b : Bytes) : '-' ∉ encode b := by
  have hsign : ∀ n < 64, sign n ≠ '-' := by decide
  intro h
  rcases mem_encode h with ⟨n, hn, he⟩ | he
  · exact hsign n hn he.symm
  · cases he

end Wireform.Base64

namespace Wireform.Scalar

theorem readBase64_text (b : Bytes) : readBase64 (Base64.text b) = .ok b := by
  have hascii : (Base64.text b).toList.all Text.isAscii = true := by
    unfold Base64.text
    rw [String.toList_ofList, List.all_eq_true]
    intro c hc
    have hc := (Base64.visible_of_mem_encode hc).2.1
    exact decide_eq_true (by omega)
  unfold readBase64
  rw [hascii, Bool.not_true, if_neg Bool.false_ne_true]
  unfold Base64.text
  rw [String.toList_ofList, Base64.decode_encode]

theorem readBase64Text_text (s : String) :
    readBase64Text (Base64.text (Utf8.ofString s)) = .ok s := by
  unfold readBase64Text
  rw [readBase64_text]
  dsimp only [bind, Except.bind]
  rw [Utf8.toString?_ofString]
  rfl

end Wireform.Scalar
