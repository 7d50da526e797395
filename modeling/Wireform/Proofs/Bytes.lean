import Mathlib.Algebra.Group.Nat.Defs
import Wireform.Bytes

/-
  Wireform bytes: the pieces of octets between separators. `pieces_append` says what a further run
  of octets changes: it continues the last piece and leaves those before it alone. A number of
  octets is that of no other number below their bound (`ofNat_inj`).
-/

namespace Wireform.Bytes

variable {c : UInt8}

theorem pieces_ne_nil (c : UInt8) (s : Bytes) : pieces c s ≠ [] := by
  cases s with
  | nil => simp [pieces]
  | cons x s =>
    simp only [pieces]
    split
    · simp
    · cases pieces c s <;> simp

theorem pieces_cons_sep (c : UInt8) (s : Bytes) : pieces c (c :: s) = [] :: pieces c s := by
  simp [pieces]

theorem pieces_cons_of_ne {x : UInt8} (hx : x ≠ c) {s p : Bytes} {ps : List Bytes}
    (h : pieces c s = p :: ps) : pieces c (x :: s) = (x :: p) :: ps := by
  simp [pieces, hx, h]

/-- The last piece is open: what follows is cut together with it. -/
theorem pieces_append (c : UInt8) (s t : Bytes) :
    pieces c (s ++ t) =
      (pieces c s).dropLast ++ pieces c ((pieces c s).getLastD [] ++ t) := by
  induction s with
  | nil => rfl
  | cons x s ih =>
    obtain ⟨p, ps, hp⟩ := List.exists_cons_of_ne_nil (pieces_ne_nil c s)
    rw [hp] at ih
    rw [List.cons_append]
    by_cases hx : x = c
    · rw [hx, pieces_cons_sep, pieces_cons_sep, ih, hp]
      rfl
    · rw [pieces_cons_of_ne hx hp]
      cases ps with
      | nil =>
        obtain ⟨q, qs, hq⟩ := List.exists_cons_of_ne_nil (pieces_ne_nil c (p ++ t))
        have hst : pieces c (s ++ t) = q :: qs := ih.trans hq
        rw [pieces_cons_of_ne hx hst]
        exact (pieces_cons_of_ne hx hq).symm
      | cons q qs => exact pieces_cons_of_ne hx ih

theorem pieces_append_sep (c : UInt8) (s t : Bytes) :
    pieces c (s ++ c :: t) = pieces c s ++ pieces c t := by
  induction s with
  | nil => exact pieces_cons_sep c t
  | cons x s ih =>
    obtain ⟨p, ps, hp⟩ := List.exists_cons_of_ne_nil (pieces_ne_nil c s)
    rw [hp] at ih
    rw [List.cons_append]
    by_cases hx : x = c
    · rw [hx, pieces_cons_sep, pieces_cons_sep, ih, hp]
      rfl
    · rw [pieces_cons_of_ne hx hp, pieces_cons_of_ne hx ih]
      rfl

theorem pieces_of_not_mem {s : Bytes} (h : c ∉ s) : pieces c s = [s] := by
  induction s with
  | nil => rfl
  | cons x s ih =>
    have hx : x ≠ c := by
      intro he
      exact h (by simp [he])
    have hs : c ∉ s := by
      intro he
      exact h (by simp [he])
    exact pieces_cons_of_ne hx (ih hs)

/-- A number is known from its octets if they are wide enough for it. -/
theorem ofNat_inj {width m n : Nat} (hm : m < 256 ^ width) (hn : n < 256 ^ width)
    (h : ofNat width m = ofNat width n) : m = n := by
  induction width generalizing m n with
  | zero => omega
  | succ width ih =>
    rw [Nat.pow_succ] at hm hn
    obtain ⟨hhigh, hlow⟩ := List.append_inj' h rfl
    have hquotient : m / 256 = n / 256 := ih (by omega) (by omega) hhigh
    have hremainder : m % 256 = n % 256 := by
      have hoctet := congrArg UInt8.toNat (List.singleton_inj.mp hlow)
      rwa [UInt8.toNat_ofNat_of_lt' (Nat.mod_lt m (by decide)),
        UInt8.toNat_ofNat_of_lt' (Nat.mod_lt n (by decide))] at hoctet
    omega

end Wireform.Bytes
