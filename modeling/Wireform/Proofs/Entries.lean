import Mathlib.Data.List.Nodup
import Wireform.Entries

/-
  Wireform entries: lookups in maps whose keys are distinct. Pairs with distinct keys are entries as
  they stand.
-/

namespace Wireform

/-- The first element with a key is the one that has it, if the keys are distinct. -/
theorem find?_of_nodup {α : Type} {f : α → String} {xs : List α} (h : (xs.map f).Nodup) {x : α}
    (hx : x ∈ xs) : (xs.find? fun y => f y = f x) = some x := by
  have hsome : ((xs.find? fun y => f y = f x)).isSome = true :=
    List.find?_isSome.mpr ⟨x, hx, decide_eq_true rfl⟩
  obtain ⟨y, hy⟩ := Option.isSome_iff_exists.mp hsome
  have hkey : f y = f x := by
    have htest := List.find?_some hy
    exact of_decide_eq_true htest
  rw [hy, List.inj_on_of_nodup_map h (List.mem_of_find?_eq_some hy) hx hkey]

namespace Entries

variable {α : Type _} {m : List (String × α)}

theorem keys_append (m n : List (String × α)) : keys (m ++ n) = keys m ++ keys n :=
  List.map_append

theorem get?_eq_none {key : String} (h : key ∉ keys m) : get? key m = none := by
  induction m with
  | nil => rfl
  | cons p r ih =>
    obtain ⟨k, v⟩ := p
    unfold keys at h ih
    rw [List.map_cons, List.mem_cons, not_or] at h
    rw [get?, if_neg fun hk => h.1 hk.symm, ih h.2]

theorem get?_of_mem (h : (keys m).Nodup) {key : String} {v : α} (hmem : (key, v) ∈ m) :
    get? key m = some v := by
  induction m with
  | nil => cases hmem
  | cons p r ih =>
    obtain ⟨k, w⟩ := p
    unfold keys at h ih
    rw [List.map_cons, List.nodup_cons] at h
    rw [get?]
    rcases List.mem_cons.mp hmem with heq | hmem
    · cases heq
      rw [if_pos rfl]
    · have hne : k ≠ key := fun hk => h.1 (hk ▸ List.mem_map_of_mem (f := fun p => p.1) hmem)
      rw [if_neg hne, ih h.2 hmem]

/-- Pairs with distinct keys are entries as they stand. -/
theorem ofPairs_of_nodup {pairs : List (String × α)} (h : (keys pairs).Nodup) :
    ofPairs pairs = pairs := by
  have hfold : ∀ before, (keys (before ++ pairs)).Nodup →
      pairs.foldl (fun m p => put p.1 p.2 m) before = before ++ pairs := by
    induction pairs with
    | nil => exact fun before _ => (List.append_nil before).symm
    | cons p r ih =>
      intro before hnodup
      obtain ⟨k, v⟩ := p
      have hnew : k ∉ keys before := by
        unfold keys at hnodup ⊢
        rw [List.map_append, List.map_cons, List.nodup_middle, List.nodup_cons] at hnodup
        exact fun hk => hnodup.1 (List.mem_append_left _ hk)
      unfold keys at h
      rw [List.map_cons, List.nodup_cons] at h
      rw [List.foldl_cons]
      dsimp only
      rw [put_of_not_mem hnew, ih h.2, List.append_assoc]
      · rfl
      · rw [List.append_assoc]
        exact hnodup
  exact hfold [] h

end Entries

end Wireform
