import Wireform.Utf8

/-
  Wireform text: the octets of a text are read back as that text. `step_encodeChar` reads one
  character, whatever octets follow it, and `scan_encode` goes on from character to character.
-/

namespace Wireform.Utf8

/-! ## First octets -/

theorem lead?_one {x : Nat} (hx : x < 0x80) : lead? x = some (0, x, 0, 0) := by
  unfold lead?
  rw [if_pos hx]

theorem lead?_two {x : Nat} (hlo : 2 ≤ x) (hx : x < 32) :
    lead? (0xc0 + x) = some (1, x, 0x80, 0xbf) := by
  have hbits : 0xc0 + x - 0xc0 = x := by omega
  unfold lead?
  rw [if_neg (by omega), if_pos (by simp; omega), hbits]

/-- The range of the second octet leaves out only longer forms than needed, and surrogates. -/
theorem lead?_three {x y : Nat} (hx : x < 16) (hy : y < 64) (hlo : x = 0 → 32 ≤ y)
    (hhi : x = 13 → y < 32) :
    ∃ lo hi, lead? (0xe0 + x) = some (2, x, lo, hi) ∧ lo ≤ 0x80 + y ∧ 0x80 + y ≤ hi := by
  by_cases h0 : x = 0
  · subst h0
    exact ⟨0xa0, 0xbf, rfl, by have := hlo rfl; omega, by omega⟩
  · by_cases h13 : x = 13
    · subst h13
      exact ⟨0x80, 0x9f, rfl, by omega, by have := hhi rfl; omega⟩
    · have hbits : 0xe0 + x - 0xe0 = x := by omega
      refine ⟨0x80, 0xbf, ?_, by omega, by omega⟩
      unfold lead?
      rw [if_neg (by omega), if_neg (by simp), if_neg (by omega), if_neg (by omega),
        if_pos (by simp; omega), hbits]

/-- The range of the second octet leaves out only longer forms than needed, and code points that no
character has. -/
theorem lead?_four {x y : Nat} (hx : x < 5) (hy : y < 64) (hlo : x = 0 → 16 ≤ y)
    (hhi : x = 4 → y < 16) :
    ∃ lo hi, lead? (0xf0 + x) = some (3, x, lo, hi) ∧ lo ≤ 0x80 + y ∧ 0x80 + y ≤ hi := by
  by_cases h0 : x = 0
  · subst h0
    exact ⟨0x90, 0xbf, rfl, by have := hlo rfl; omega, by omega⟩
  · by_cases h4 : x = 4
    · subst h4
      exact ⟨0x80, 0x8f, rfl, by omega, by have := hhi rfl; omega⟩
    · have hbits : 0xf0 + x - 0xf0 = x := by omega
      refine ⟨0x80, 0xbf, ?_, by omega, by omega⟩
      unfold lead?
      rw [if_neg (by omega), if_neg (by simp; omega), if_neg (by omega), if_neg (by omega),
        if_neg (by simp), if_neg (by omega), if_neg (by omega), if_pos (by simp; omega), hbits]

/-! ## Further octets -/

theorem toNat_ofNat {n : Nat} (h : n < 256) : (UInt8.ofNat n).toNat = n := by
  rw [UInt8.toNat_ofNat']
  omega

/-- An octet in its range gives its six bits. -/
theorem continuation_cons {k n lo hi y : Nat} (hy : y < 64) (hlo : lo ≤ 0x80 + y)
    (hhi : 0x80 + y ≤ hi) (r : Bytes) :
    continuation (k + 1) n lo hi (UInt8.ofNat (0x80 + y) :: r) =
      continuation k (64 * n + y) 0x80 0xbf r := by
  have hb : (UInt8.ofNat (0x80 + y)).toNat = 0x80 + y := toNat_ofNat (by omega)
  have hsub : 0x80 + y - 0x80 = y := by omega
  rw [continuation, hb, if_pos (by simp [hlo, hhi]), hsub]

theorem step_of_lead {x k n lo hi : Nat} (hx : x < 256) (h : lead? x = some (k, n, lo, hi))
    (r : Bytes) : step (UInt8.ofNat x) r =
      ((continuation k n lo hi r).1.map Char.ofNat, (continuation k n lo hi r).2) := by
  unfold step
  rw [toNat_ofNat hx, h]

/-! ## Characters -/

/-- No character is a surrogate or lies behind the last code point. -/
theorem toNat_valid (c : Char) : c.toNat < 0xd800 ∨ (0xdfff < c.toNat ∧ c.toNat < 0x110000) := by
  have h := c.valid
  exact h

/-- The octets of a character are read as that character and no further. -/
theorem step_encodeChar (c : Char) (r : Bytes) :
    ∃ b s, encodeChar c = b :: s ∧ step b (s ++ r) = (some c, r) := by
  have hc := toNat_valid c
  have hback : Char.ofNat c.toNat = c := Char.ofNat_toNat c
  unfold encodeChar
  dsimp only
  generalize c.toNat = n at hc hback
  split
  · next h1 =>
    refine ⟨_, [], rfl, ?_⟩
    rw [step_of_lead (by omega) (lead?_one h1), List.nil_append,
      continuation, Option.map_some, hback]
  · split
    · next h1 h2 =>
      refine ⟨_, _, rfl, ?_⟩
      have hlead := lead?_two (x := n / 64) (by omega) (by omega)
      have hn : 64 * (n / 64) + n % 64 = n := by omega
      rw [step_of_lead (by omega) hlead, List.cons_append,
        List.nil_append, continuation_cons (by omega) (by omega) (by omega), continuation,
        Option.map_some, hn, hback]
    · split
      · next h1 h2 h3 =>
        refine ⟨_, _, rfl, ?_⟩
        obtain ⟨lo, hi, hlead, hlo, hhi⟩ :=
          lead?_three (x := n / 4096) (y := n / 64 % 64) (by omega) (by omega) (by omega) (by omega)
        have hn : 64 * (64 * (n / 4096) + n / 64 % 64) + n % 64 = n := by omega
        rw [step_of_lead (by omega) hlead, List.cons_append,
          List.cons_append, List.nil_append, continuation_cons (by omega) hlo hhi,
          continuation_cons (by omega) (by omega) (by omega), continuation, Option.map_some, hn,
          hback]
      · next h1 h2 h3 =>
        refine ⟨_, _, rfl, ?_⟩
        obtain ⟨lo, hi, hlead, hlo, hhi⟩ :=
          lead?_four (x := n / 262144) (y := n / 4096 % 64) (by omega) (by omega) (by omega)
            (by omega)
        have hn : 64 * (64 * (64 * (n / 262144) + n / 4096 % 64) + n / 64 % 64) + n % 64 = n := by
          omega
        rw [step_of_lead (by omega) hlead, List.cons_append,
          List.cons_append, List.cons_append, List.nil_append, continuation_cons (by omega) hlo hhi,
          continuation_cons (by omega) (by omega) (by omega),
          continuation_cons (by omega) (by omega) (by omega), continuation, Option.map_some, hn,
          hback]

/-! ## Texts -/

/-- ASCII characters are their own octets. -/
theorem encode_of_ascii {s : List Char} (h : ∀ c ∈ s, c.toNat < 0x80) :
    encode s = Bytes.ofAscii s := by
  induction s with
  | nil => rfl
  | cons c s ih =>
    have hc : encodeChar c = [UInt8.ofNat c.toNat] := by
      simp [encodeChar, h c List.mem_cons_self]
    have hs : encode s = Bytes.ofAscii s := ih fun x hx => h x (List.mem_cons_of_mem c hx)
    show encodeChar c ++ encode s = Bytes.byte c :: Bytes.ofAscii s
    rw [hc, hs]
    rfl

theorem scan_encode (s : List Char) : scan (encode s) = s.map some := by
  induction s with
  | nil => rw [encode, List.flatMap_nil, scan, List.map_nil]
  | cons c s ih =>
    obtain ⟨b, t, hbt, hstep⟩ := step_encodeChar c (encode s)
    have hcons : encode (c :: s) = b :: (t ++ encode s) := by
      rw [encode, List.flatMap_cons, hbt, List.cons_append]
      rfl
    rw [hcons, scan, hstep, ih, List.map_cons]

/-- Reading what was written loses nothing. -/
theorem decodeLoosely_encode (s : List Char) : decodeLoosely (encode s) = s := by
  unfold decodeLoosely
  rw [scan_encode, List.map_map]
  exact List.map_id s

/-- No octets are lost without a trace. -/
theorem decodeLoosely_eq_nil {b : Bytes} : decodeLoosely b = [] ↔ b = [] := by
  unfold decodeLoosely
  rw [List.map_eq_nil_iff]
  cases b with
  | nil => rw [scan]; exact iff_of_true rfl rfl
  | cons x b => rw [scan]; exact iff_of_false (List.cons_ne_nil _ _) (List.cons_ne_nil _ _)

theorem toString?_ofString (s : String) : toString? (ofString s) = some s := by
  have hid : (s.toList.map some).mapM id = some s.toList := by
    induction s.toList with
    | nil => rfl
    | cons c r ih =>
      rw [List.map_cons, List.mapM_cons, ih]
      rfl
  unfold toString? decode? ofString
  rw [scan_encode, hid, Option.map_some, String.ofList_toList]

/-- No character has an empty encoding. -/
theorem ofString_eq_nil {s : String} : ofString s = [] ↔ s = "" := by
  constructor
  · intro h
    have hread := toString?_ofString s
    rw [h] at hread
    exact Option.some.inj (hread.symm.trans (toString?_ofString ""))
  · rintro rfl
    rfl

end Wireform.Utf8
