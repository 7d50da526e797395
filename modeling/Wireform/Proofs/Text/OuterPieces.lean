import Mathlib.Data.List.DropRight
import Wireform.Proofs.Text.Pieces
import Wireform.Proofs.Text.Trim

/-
  Wireform text: pieces of a text without the separators around it. `parts_trim` says that they are
  all its pieces but the empty ones at both ends, and `core_around` says which pieces those are when
  the text was put together from parts of which only one can be empty.
-/

namespace Wireform.Text

/-- The pieces of a text; a text without characters has none. -/
def parts (c : Char) (s : List Char) : List (List Char) := if s.isEmpty then [] else pieces c s

/-- The pieces but the empty ones at both ends. -/
def core (ps : List (List Char)) : List (List Char) :=
  (ps.dropWhile List.isEmpty).rdropWhile List.isEmpty

theorem parts_of_ne_nil {c : Char} {s : List Char} (h : s ≠ []) : parts c s = pieces c s := by
  unfold parts
  rw [if_neg (by simpa using h)]

theorem join_parts (c : Char) (s : List Char) : join c (parts c s) = s := by
  by_cases h : s = []
  · rw [h]
    rfl
  · rw [parts_of_ne_nil h, join_pieces]

theorem parts_eq_nil {c : Char} {s : List Char} : parts c s = [] ↔ s = [] := by
  constructor
  · intro h
    rw [← join_parts c s, h]
    rfl
  · intro h
    rw [h]
    rfl

/-! ## Reversed texts -/

theorem join_reverse (c : Char) (ps : List (List Char)) :
    join c (ps.reverse.map List.reverse) = (join c ps).reverse := by
  induction ps with
  | nil => rfl
  | cons p ps ih =>
    by_cases hps : ps = []
    · rw [hps]
      rfl
    · have hrev : ps.reverse.map List.reverse ≠ [] := by simpa using hps
      rw [List.reverse_cons, List.map_append, join_append c hrev (by simp), ih,
        join_cons c p hps, List.reverse_append, List.reverse_cons, List.append_assoc]
      rfl

theorem pieces_reverse (c : Char) (s : List Char) :
    pieces c s.reverse = (pieces c s).reverse.map List.reverse := by
  have hne : (pieces c s).reverse.map List.reverse ≠ [] := by simpa using pieces_ne_nil c s
  have hsep : ∀ p ∈ (pieces c s).reverse.map List.reverse, c ∉ p := by
    intro p hp
    obtain ⟨q, hq, rfl⟩ := List.mem_map.mp hp
    rw [List.mem_reverse]
    exact not_mem_of_mem_pieces (List.mem_reverse.mp hq)
  apply join_injective (pieces_ne_nil c _) hne (fun p hp => not_mem_of_mem_pieces hp) hsep
  rw [join_pieces, join_reverse, join_pieces]

theorem parts_reverse (c : Char) (s : List Char) :
    parts c s.reverse = (parts c s).reverse.map List.reverse := by
  by_cases h : s = []
  · rw [h]
    rfl
  · rw [parts_of_ne_nil (by simpa using h), parts_of_ne_nil h, pieces_reverse]

/-! ## Separators around a text -/

/-- Separators dropped from the start take as many empty pieces with them. -/
theorem parts_dropWhile (c : Char) (s : List Char) :
    parts c (s.dropWhile (· = c)) = (pieces c s).dropWhile List.isEmpty := by
  induction s with
  | nil => rfl
  | cons x s ih =>
    by_cases hx : x = c
    · rw [List.dropWhile_cons_of_pos (by simpa using hx), ih, hx, pieces_cons_sep]
      rfl
    · rw [List.dropWhile_cons_of_neg (by simpa using hx), parts_of_ne_nil (List.cons_ne_nil x s)]
      cases hs : pieces c s with
      | nil => exact absurd hs (pieces_ne_nil c s)
      | cons p ps =>
        rw [pieces_cons_of_ne hx hs]
        rfl

theorem dropWhile_map_reverse (ps : List (List Char)) :
    (ps.map List.reverse).dropWhile List.isEmpty =
      (ps.dropWhile List.isEmpty).map List.reverse := by
  rw [List.dropWhile_map]
  congr 2
  funext p
  exact List.isEmpty_reverse

theorem parts_trimEnd (c : Char) (s : List Char) :
    parts c (trimEnd (· = c) s) = (pieces c s).rdropWhile List.isEmpty := by
  unfold trimEnd List.rdropWhile
  rw [parts_reverse, parts_dropWhile, pieces_reverse, dropWhile_map_reverse, List.map_reverse,
    List.map_map]
  simp

/-- The pieces of a trimmed text are those between the empty ones at both ends. -/
theorem parts_trim (c : Char) (s : List Char) :
    parts c (trim (· = c) s) = core (pieces c s) := by
  unfold trim core
  rw [parts_trimEnd, ← parts_dropWhile]
  by_cases h : s.dropWhile (· = c) = []
  · rw [h]
    rfl
  · rw [parts_of_ne_nil h]

/-- A text without the separators at its start, at its end, at both or at neither. -/
def stripped (c : Char) (atStart atEnd : Bool) (s : List Char) : List Char :=
  let t := if atStart then s.dropWhile (· = c) else s
  if atEnd then trimEnd (· = c) t else t

theorem dropWhile_eq_self_iff {c : Char} {s : List Char} :
    s.dropWhile (· = c) = s ↔ s.head? ≠ some c := by
  cases s with
  | nil => exact iff_of_true rfl (by simp)
  | cons x s =>
    rw [List.head?_cons, ne_eq, Option.some.injEq]
    constructor
    · intro h
      simpa using head_not_of_dropWhile_eq_self h
    · intro h
      exact List.dropWhile_cons_of_neg (by simpa using h)

theorem trimEnd_eq_self_iff {c : Char} {s : List Char} :
    trimEnd (· = c) s = s ↔ s.getLast? ≠ some c := by
  unfold trimEnd
  rw [← List.head?_reverse, ← dropWhile_eq_self_iff, List.reverse_eq_iff]

theorem stripped_eq_self_iff {c : Char} {atStart atEnd : Bool} {s : List Char} :
    stripped c atStart atEnd s = s ↔
      (atStart = true → s.head? ≠ some c) ∧ (atEnd = true → s.getLast? ≠ some c) := by
  rw [← dropWhile_eq_self_iff, ← trimEnd_eq_self_iff]
  cases atStart with
  | true =>
    cases atEnd with
    | true =>
      constructor
      · intro h
        exact ⟨fun _ => dropWhile_eq_self_of_trim h, fun _ => trimEnd_eq_self_of_trim h⟩
      · rintro ⟨hstart, hend⟩
        show trimEnd (· = c) (s.dropWhile (· = c)) = s
        rw [hstart rfl, hend rfl]
    | false => exact ⟨fun h => ⟨fun _ => h, nofun⟩, fun h => h.1 rfl⟩
  | false =>
    cases atEnd with
    | true => exact ⟨fun h => ⟨nofun, fun _ => h⟩, fun h => h.2 rfl⟩
    | false => exact iff_of_true rfl ⟨nofun, nofun⟩

/-- Pieces without the empty ones at their start, at their end, at both or at neither. -/
def inner (atStart atEnd : Bool) (ps : List (List Char)) : List (List Char) :=
  let qs := if atStart then ps.dropWhile List.isEmpty else ps
  if atEnd then qs.rdropWhile List.isEmpty else qs

theorem parts_stripped (c : Char) (atStart atEnd : Bool) {s : List Char} (hs : s ≠ []) :
    parts c (stripped c atStart atEnd s) = inner atStart atEnd (pieces c s) := by
  cases atStart with
  | true =>
    cases atEnd with
    | true => exact parts_trim c s
    | false => exact parts_dropWhile c s
  | false =>
    cases atEnd with
    | true => exact parts_trimEnd c s
    | false => exact parts_of_ne_nil hs

/-! ## Pieces that are not empty -/

variable {ps qs : List (List Char)}

theorem dropWhile_isEmpty_of_full (h : ∀ p ∈ ps, p ≠ []) : ps.dropWhile List.isEmpty = ps := by
  cases ps with
  | nil => rfl
  | cons p ps =>
    have hp : p ≠ [] := h p List.mem_cons_self
    exact List.dropWhile_cons_of_neg (by simpa using hp)

theorem dropWhile_isEmpty_append (h : ∀ q ∈ qs, q ≠ []) :
    (ps ++ qs).dropWhile List.isEmpty = ps.dropWhile List.isEmpty ++ qs := by
  rw [List.dropWhile_append, dropWhile_isEmpty_of_full h]
  split
  · next hnil => rw [List.isEmpty_iff.mp hnil, List.nil_append]
  · rfl

theorem rdropWhile_isEmpty_append (h : ∀ p ∈ ps, p ≠ []) :
    (ps ++ qs).rdropWhile List.isEmpty = ps ++ qs.rdropWhile List.isEmpty := by
  have hrev : ∀ p ∈ ps.reverse, p ≠ [] := fun p hp => h p (List.mem_reverse.mp hp)
  unfold List.rdropWhile
  rw [List.reverse_append, dropWhile_isEmpty_append hrev, List.reverse_append, List.reverse_reverse]

theorem rdropWhile_isEmpty_of_full (hq : qs ≠ []) (h : ∀ q ∈ qs, q ≠ []) :
    (ps ++ qs).rdropWhile List.isEmpty = ps ++ qs := by
  rw [List.rdropWhile_eq_self_iff]
  intro hne
  have hlast : (ps ++ qs).getLast hne ∈ qs := by
    rw [List.getLast_append_of_ne_nil hne hq]
    exact List.getLast_mem hq
  simpa using h _ hlast

/-- Empty pieces at the end do not count. -/
theorem core_append_empty (h : ∀ q ∈ qs, q = []) : core (ps ++ qs) = core ps := by
  have hall : ∀ q ∈ qs.reverse, List.isEmpty q = true := by
    intro q hq
    rw [h q (List.mem_reverse.mp hq)]
    rfl
  have hend : ∀ rs : List (List Char), (rs ++ qs).rdropWhile List.isEmpty =
      rs.rdropWhile List.isEmpty := by
    intro rs
    unfold List.rdropWhile
    rw [List.reverse_append, List.dropWhile_append_of_pos hall]
  unfold core
  rw [List.dropWhile_append]
  split
  · next hnil =>
    have hqs : qs.dropWhile List.isEmpty = [] :=
      List.dropWhile_eq_nil_iff.mpr fun q hq => hall q (List.mem_reverse.mpr hq)
    rw [List.isEmpty_iff.mp hnil, hqs]
  · exact hend _

/-- Between pieces that are not empty nothing is dropped; at the start or the end it is. -/
theorem core_around {mid : List (List Char)} (hp : ∀ p ∈ ps, p ≠ []) (hq : ∀ q ∈ qs, q ≠ []) :
    core (ps ++ (mid ++ qs)) = ps ++ (inner ps.isEmpty qs.isEmpty mid ++ qs) := by
  have hend : ∀ rs : List (List Char), (rs ++ qs).rdropWhile List.isEmpty =
      (if qs.isEmpty then rs.rdropWhile List.isEmpty else rs) ++ qs := by
    intro rs
    cases qs with
    | nil => rw [List.append_nil, List.append_nil]; rfl
    | cons q qs => exact rdropWhile_isEmpty_of_full (List.cons_ne_nil q qs) hq
  have hstart : (ps ++ (mid ++ qs)).dropWhile List.isEmpty =
      ps ++ ((if ps.isEmpty then mid.dropWhile List.isEmpty else mid) ++ qs) := by
    cases ps with
    | nil => exact dropWhile_isEmpty_append hq
    | cons p ps =>
      have hp' : p ≠ [] := hp p List.mem_cons_self
      exact List.dropWhile_cons_of_neg (by simpa using hp')
  unfold core inner
  rw [hstart, ← List.append_assoc, hend]
  split
  · rw [rdropWhile_isEmpty_append hp, List.append_assoc]
  · rw [List.append_assoc]

/-! ## Separators and empty pieces -/

theorem pieces_replicate_append (c : Char) (n : Nat) (s : List Char) :
    pieces c (List.replicate n c ++ s) = List.replicate n [] ++ pieces c s := by
  induction n with
  | zero => rfl
  | succ n ih =>
    rw [List.replicate_succ, List.cons_append, pieces_cons_sep, ih]
    rfl

theorem pieces_append_replicate (c : Char) (s : List Char) (n : Nat) :
    pieces c (s ++ List.replicate n c) = pieces c s ++ List.replicate n [] := by
  cases n with
  | zero => rw [List.replicate_zero, List.append_nil, List.replicate_zero, List.append_nil]
  | succ n =>
    have hrest := pieces_replicate_append c n []
    rw [List.append_nil] at hrest
    rw [List.replicate_succ, pieces_append_sep, hrest, List.replicate_succ']
    rfl

/-- What trimming takes away, when it takes one character only. -/
theorem exists_trim_around (c : Char) (s : List Char) :
    ∃ i j, s = List.replicate i c ++ (trim (· = c) s ++ List.replicate j c) := by
  have hstart : s.takeWhile (· = c) = List.replicate (s.takeWhile (· = c)).length c := by
    apply List.eq_replicate_of_mem
    intro x hx
    exact of_decide_eq_true (List.all_eq_true.mp List.all_takeWhile x hx)
  refine ⟨(s.takeWhile (· = c)).length, (s.dropWhile (· = c)).length - (trim (· = c) s).length, ?_⟩
  unfold trim
  rw [trimEnd_append_replicate, ← hstart, List.takeWhile_append_dropWhile]

theorem mem_of_mem_core {p : List Char} (h : p ∈ core ps) : p ∈ ps :=
  (List.dropWhile_suffix _).mem ((List.rdropWhile_prefix _ _).mem h)

theorem head?_core (ps : List (List Char)) : (core ps).head? ≠ some [] := by
  intro h
  obtain ⟨r, hr⟩ := List.rdropWhile_prefix List.isEmpty (ps.dropWhile List.isEmpty)
  have hstart := List.head?_dropWhile_not List.isEmpty ps
  have hhead : (ps.dropWhile List.isEmpty).head? = some [] := by
    rw [← hr, List.head?_append]
    unfold core at h
    rw [h]
    rfl
  rw [hhead] at hstart
  exact absurd hstart (by decide)

theorem getLast?_core (ps : List (List Char)) : (core ps).getLast? ≠ some [] := by
  intro h
  have hne : core ps ≠ [] := by
    intro hnil
    rw [hnil] at h
    cases h
  have hlast := List.rdropWhile_last_not List.isEmpty (ps.dropWhile List.isEmpty) hne
  rw [List.getLast?_eq_some_getLast hne] at h
  unfold core at h
  rw [Option.some.inj h] at hlast
  exact hlast rfl

/-- Pieces whose first and last ones are not empty lose none. -/
theorem core_eq_self (hfirst : ps.head? ≠ some []) (hlast : ps.getLast? ≠ some []) :
    core ps = ps := by
  have hdrop : ps.dropWhile List.isEmpty = ps := by
    cases ps with
    | nil => rfl
    | cons p ps =>
      have hp : p ≠ [] := fun he => hfirst (by rw [he]; rfl)
      exact List.dropWhile_cons_of_neg (by simpa using hp)
  unfold core
  rw [hdrop, List.rdropWhile_eq_self_iff]
  intro hne hempty
  apply hlast
  rw [List.getLast?_eq_some_getLast hne, List.isEmpty_iff.mp hempty]

/-- Empty pieces at both ends do not count. -/
theorem core_between (i j : Nat) (ps : List (List Char)) :
    core (List.replicate i [] ++ (ps ++ List.replicate j [])) = core ps := by
  rw [← List.append_assoc, core_append_empty fun q hq => List.eq_of_mem_replicate hq]
  unfold core
  rw [List.dropWhile_append_of_pos]
  intro q hq
  rw [List.eq_of_mem_replicate hq]
  rfl

end Wireform.Text
