import Wireform.Text.Basic

/-
  Wireform text: cutting what was joined. `pieces_join` says that the pieces of joined parts are the
  pieces of each part in order, so parts without the separator come back as they were.
-/

namespace Wireform.Text

theorem pieces_cons_sep (c : Char) (s : List Char) : pieces c (c :: s) = [] :: pieces c s := by
  rw [pieces, if_pos rfl]

theorem pieces_cons_of_ne {c x : Char} (hx : x ≠ c) {s p : List Char} {ps : List (List Char)}
    (h : pieces c s = p :: ps) : pieces c (x :: s) = (x :: p) :: ps := by
  rw [pieces, if_neg hx, h]

theorem pieces_of_not_mem {c : Char} {s : List Char} (h : c ∉ s) : pieces c s = [s] := by
  induction s with
  | nil => rfl
  | cons x s ih =>
    rw [List.mem_cons, not_or] at h
    exact pieces_cons_of_ne (fun he => h.1 he.symm) (ih h.2)

theorem pieces_append_sep (c : Char) (s t : List Char) :
    pieces c (s ++ c :: t) = pieces c s ++ pieces c t := by
  induction s with
  | nil => exact pieces_cons_sep c t
  | cons x s ih =>
    rw [List.cons_append]
    by_cases hx : x = c
    · rw [hx, pieces_cons_sep, pieces_cons_sep, ih, List.cons_append]
    · cases hs : pieces c s with
      | nil => exact absurd hs (pieces_ne_nil c s)
      | cons p ps =>
        rw [hs, List.cons_append] at ih
        rw [pieces_cons_of_ne hx hs, pieces_cons_of_ne hx ih, List.cons_append]

theorem join_cons (c : Char) (p : List Char) {ps : List (List Char)} (h : ps ≠ []) :
    join c (p :: ps) = p ++ c :: join c ps := by
  cases ps with
  | nil => exact absurd rfl h
  | cons q ps => rfl

theorem join_append (c : Char) {ps qs : List (List Char)} (hp : ps ≠ []) (hq : qs ≠ []) :
    join c (ps ++ qs) = join c ps ++ c :: join c qs := by
  induction ps with
  | nil => exact absurd rfl hp
  | cons p ps ih =>
    rw [List.cons_append, join_cons c p (List.append_ne_nil_of_right_ne_nil ps hq)]
    by_cases hps : ps = []
    · rw [hps]
      rfl
    · rw [ih hps, join_cons c p hps, List.append_assoc, List.cons_append]

/-- The pieces of joined parts are the pieces of the parts. -/
theorem pieces_join (c : Char) {ps : List (List Char)} (h : ps ≠ []) :
    pieces c (join c ps) = ps.flatMap (pieces c) := by
  induction ps with
  | nil => exact absurd rfl h
  | cons p ps ih =>
    rw [List.flatMap_cons]
    by_cases hps : ps = []
    · rw [hps, List.flatMap_nil, List.append_nil]
      rfl
    · rw [join_cons c p hps, pieces_append_sep, ih hps]

theorem flatMap_pieces_of_not_mem {c : Char} {ps : List (List Char)} (h : ∀ p ∈ ps, c ∉ p) :
    ps.flatMap (pieces c) = ps := by
  induction ps with
  | nil => rfl
  | cons p ps ih =>
    rw [List.flatMap_cons, pieces_of_not_mem (h p List.mem_cons_self),
      ih fun q hq => h q (List.mem_cons_of_mem p hq)]
    rfl

theorem map_join {f : Char → Char} {c : Char} (hc : f c = c) (ps : List (List Char)) :
    (join c ps).map f = join c (ps.map (List.map f)) := by
  induction ps with
  | nil => rfl
  | cons p ps ih =>
    by_cases hps : ps = []
    · rw [hps]
      rfl
    · rw [join_cons c p hps, List.map_append, List.map_cons, hc, ih, List.map_cons,
        join_cons c _ (by simpa using hps)]

theorem mem_join {c x : Char} {ps : List (List Char)} (h : x ∈ join c ps) :
    x = c ∨ ∃ p ∈ ps, x ∈ p := by
  induction ps with
  | nil => exact absurd h List.not_mem_nil
  | cons p ps ih =>
    by_cases hps : ps = []
    · rw [hps] at h
      exact Or.inr ⟨p, List.mem_cons_self, h⟩
    · rw [join_cons c p hps, List.mem_append, List.mem_cons] at h
      rcases h with h | h | h
      · exact Or.inr ⟨p, List.mem_cons_self, h⟩
      · exact Or.inl h
      · rcases ih h with h | ⟨q, hq, hx⟩
        · exact Or.inl h
        · exact Or.inr ⟨q, List.mem_cons_of_mem p hq, hx⟩

theorem mem_join_of_mem {c x : Char} {ps : List (List Char)} {p : List Char} (hp : p ∈ ps)
    (hx : x ∈ p) : x ∈ join c ps := by
  induction ps with
  | nil => exact absurd hp List.not_mem_nil
  | cons q ps ih =>
    by_cases hps : ps = []
    · rw [hps, List.mem_singleton] at hp
      rw [hps, ← hp]
      exact hx
    · rw [join_cons c q hps, List.mem_append, List.mem_cons]
      rcases List.mem_cons.mp hp with rfl | hp
      · exact Or.inl hx
      · exact Or.inr (Or.inr (ih hp))

theorem join_ne_nil {c : Char} {ps : List (List Char)} (hne : ps ≠ []) (hps : ∀ p ∈ ps, p ≠ []) :
    join c ps ≠ [] := by
  cases ps with
  | nil => exact absurd rfl hne
  | cons p ps =>
    have hp := hps p List.mem_cons_self
    by_cases hnil : ps = []
    · rw [hnil]
      exact hp
    · rw [join_cons c p hnil]
      exact List.append_ne_nil_of_left_ne_nil hp _

/-- The ends of joined parts are ends of parts. -/
theorem ends_join {c x : Char} {ps : List (List Char)} (hps : ∀ p ∈ ps, p ≠ [])
    (hx : (join c ps).head? = some x ∨ (join c ps).getLast? = some x) : ∃ p ∈ ps, x ∈ p := by
  induction ps with
  | nil => rcases hx with hx | hx <;> cases hx
  | cons p ps ih =>
    obtain ⟨hp, hrest⟩ := List.forall_mem_cons.mp hps
    by_cases hnil : ps = []
    · rw [hnil] at hx
      exact ⟨p, List.mem_cons_self, hx.elim List.mem_of_mem_head? List.mem_of_getLast?⟩
    · rw [join_cons c p hnil] at hx
      rcases hx with hx | hx
      · rw [List.head?_append, List.head?_eq_some_head hp, Option.some_or] at hx
        exact ⟨p, List.mem_cons_self, Option.some.inj hx ▸ List.head_mem hp⟩
      · have hjoin := join_ne_nil hnil hrest (c := c)
        rw [List.getLast?_append, List.getLast?_cons_of_ne_nil hjoin,
          List.getLast?_eq_some_getLast hjoin, Option.some_or] at hx
        obtain ⟨q, hq, hxq⟩ := ih hrest
          (Or.inr ((List.getLast?_eq_some_getLast hjoin).trans hx))
        exact ⟨q, List.mem_cons_of_mem p hq, hxq⟩

/-- No piece holds the separator. -/
theorem not_mem_of_mem_pieces {c : Char} {s p : List Char} (h : p ∈ pieces c s) : c ∉ p := by
  induction s generalizing p with
  | nil =>
    rw [pieces, List.mem_singleton] at h
    rw [h]
    exact List.not_mem_nil
  | cons x s ih =>
    cases hs : pieces c s with
    | nil => exact absurd hs (pieces_ne_nil c s)
    | cons q qs =>
      by_cases hx : x = c
      · rw [hx, pieces_cons_sep, List.mem_cons] at h
        rcases h with rfl | h
        · exact List.not_mem_nil
        · exact ih h
      · rw [pieces_cons_of_ne hx hs, List.mem_cons] at h
        rcases h with rfl | h
        · rw [List.mem_cons, not_or]
          exact ⟨fun he => hx he.symm, ih (hs ▸ List.mem_cons_self)⟩
        · exact ih (hs ▸ List.mem_cons_of_mem q h)

/-- A text has an empty piece if it starts or ends with the separator, holds it twice in a row or
holds nothing. -/
theorem nil_mem_pieces_iff {c : Char} {s : List Char} : [] ∈ pieces c s ↔
    s = [] ∨ s.head? = some c ∨ s.getLast? = some c ∨ [c, c] <:+: s := by
  constructor
  · intro h
    obtain ⟨before, behind, hsplit⟩ := List.append_of_mem h
    have hs : s = join c (before ++ [] :: behind) := by rw [← hsplit, join_pieces]
    -- the empty piece is the only one, the first, the last, or between two others
    by_cases hbefore : before = []
    · by_cases hbehind : behind = []
      · exact Or.inl (by rw [hs, hbefore, hbehind]; rfl)
      · refine Or.inr (Or.inl ?_)
        rw [hs, hbefore, List.nil_append, join_cons c _ hbehind]
        rfl
    · rw [join_append c hbefore (List.cons_ne_nil _ _)] at hs
      by_cases hbehind : behind = []
      · refine Or.inr (Or.inr (Or.inl ?_))
        rw [hs, hbehind]
        exact List.getLast?_concat
      · refine Or.inr (Or.inr (Or.inr ?_))
        rw [hs, join_cons c _ hbehind]
        exact ⟨join c before, join c behind, by simp⟩
  · rintro (rfl | h | h | ⟨t, u, rfl⟩)
    · exact List.mem_singleton_self _
    · obtain ⟨r, rfl⟩ := List.head?_eq_some_iff.mp h
      rw [pieces_cons_sep]
      exact List.mem_cons_self
    · obtain ⟨r, rfl⟩ := List.getLast?_eq_some_iff.mp h
      rw [pieces_append_sep]
      exact List.mem_append_right _ (List.mem_singleton_self _)
    · rw [List.append_assoc, List.cons_append, pieces_append_sep, List.cons_append, pieces_cons_sep]
      exact List.mem_append_right _ List.mem_cons_self

/-- Every character of a piece is one of the text. -/
theorem mem_of_mem_pieces {c x : Char} {s p : List Char} (hp : p ∈ pieces c s) (hx : x ∈ p) :
    x ∈ s := by
  rw [← join_pieces c s]
  exact mem_join_of_mem hp hx

/-- Joining parts without the separator loses nothing. -/
theorem join_injective {c : Char} {ps qs : List (List Char)} (hps : ps ≠ []) (hqs : qs ≠ [])
    (hp : ∀ p ∈ ps, c ∉ p) (hq : ∀ q ∈ qs, c ∉ q) (h : join c ps = join c qs) : ps = qs := by
  rw [← flatMap_pieces_of_not_mem hp, ← flatMap_pieces_of_not_mem hq, ← pieces_join c hps,
    ← pieces_join c hqs, h]

theorem cut_of_not_mem {c : Char} {s : List Char} (h : c ∉ s) : cut c s = (s, none) := by
  induction s with
  | nil => rfl
  | cons x s ih =>
    rw [List.mem_cons, not_or] at h
    rw [cut, if_neg (fun he => h.1 he.symm), ih h.2]

theorem cut_append_sep {c : Char} {s : List Char} (h : c ∉ s) (t : List Char) :
    cut c (s ++ c :: t) = (s, some t) := by
  induction s with
  | nil => rw [List.nil_append, cut, if_pos rfl]
  | cons x s ih =>
    rw [List.mem_cons, not_or] at h
    rw [List.cons_append, cut, if_neg (fun he => h.1 he.symm), ih h.2]

/-- What a text was cut into gives the text. -/
theorem of_cut {c : Char} {s a : List Char} {t : Option (List Char)} (h : cut c s = (a, t)) :
    c ∉ a ∧ s = a ++ (t.map (c :: ·)).getD [] := by
  induction s generalizing a with
  | nil =>
    cases h
    exact ⟨List.not_mem_nil, rfl⟩
  | cons x s ih =>
    rw [cut] at h
    split at h
    · next hx =>
      cases h
      exact ⟨List.not_mem_nil, by rw [hx]; rfl⟩
    · next hx =>
      obtain ⟨rfl, rfl⟩ := Prod.mk.inj h
      obtain ⟨hmem, hs⟩ := ih rfl
      refine ⟨?_, congrArg (x :: ·) hs⟩
      rw [List.mem_cons, not_or]
      exact ⟨fun he => hx he.symm, hmem⟩

/-- Strings between single characters, as a list of characters. -/
theorem toList_intercalate_singleton (c : Char) (ts : List String) :
    ((String.singleton c).intercalate ts).toList = join c (ts.map String.toList) := by
  induction ts with
  | nil => rw [String.intercalate_nil]; rfl
  | cons t ts ih =>
    cases ts with
    | nil => rw [String.intercalate_singleton]; rfl
    | cons u ts =>
      rw [String.intercalate_cons_cons, String.toList_append, String.toList_append, ih,
        String.toList_singleton, List.append_assoc]
      rfl

end Wireform.Text
