/-
  Wireform entries: maps as lists of pairs in the order in which their keys first came.
-/

namespace Wireform.Entries

variable {α : Type _}

/-- Gives `key` the value `v`; a key that is there already keeps its place. -/
def put (key : String) (v : α) : List (String × α) → List (String × α)
  | [] => [(key, v)]
  | (k, w) :: r => if k = key then (k, v) :: r else (k, w) :: put key v r

/-- A list of pairs as entries: the last value of a key counts, in its first place. -/
def ofPairs (pairs : List (String × α)) : List (String × α) :=
  pairs.foldl (fun m (k, v) => put k v m) []

/-- The value of a key. -/
def get? (key : String) : List (String × α) → Option α
  | [] => none
  | (k, v) :: r => if k = key then some v else get? key r

/-- The keys in order. -/
def keys (m : List (String × α)) : List String := m.map (·.1)

/-- The values of each key gathered in order. -/
def group (pairs : List (String × α)) : List (String × List α) :=
  pairs.foldl (fun m (k, v) => put k ((get? k m).getD [] ++ [v]) m) []

theorem keys_put (key : String) (v : α) (m : List (String × α)) :
    keys (put key v m) = if key ∈ keys m then keys m else keys m ++ [key] := by
  simp only [keys]
  induction m with
  | nil => simp [put]
  | cons p r ih =>
    obtain ⟨k, w⟩ := p
    by_cases h : k = key
    · simp [put, h]
    · have hk : ¬ key = k := fun e => h e.symm
      simp only [put, h, if_false, List.map_cons, ih, List.mem_cons, hk, false_or]
      by_cases hm : key ∈ r.map fun x => x.1 <;> simp [hm]

/-- A new key comes last. -/
theorem put_of_not_mem {key : String} {m : List (String × α)} (h : key ∉ keys m) (v : α) :
    put key v m = m ++ [(key, v)] := by
  induction m with
  | nil => rfl
  | cons p r ih =>
    obtain ⟨k, w⟩ := p
    simp only [keys, List.map_cons, List.mem_cons, not_or] at h
    rw [put, if_neg fun he => h.1 he.symm, ih h.2]
    rfl

theorem get?_put (key k : String) (v : α) (m : List (String × α)) :
    get? k (put key v m) = if key = k then some v else get? k m := by
  induction m with
  | nil => simp [put, get?]
  | cons p r ih =>
    obtain ⟨k', w⟩ := p
    by_cases h : k' = key
    · subst h
      by_cases hk : k' = k <;> simp [put, get?, hk]
    · by_cases hk : k' = k
      · subst hk
        have : ¬ key = k' := fun e => h e.symm
        simp [put, h, get?, this]
      · simp [put, h, get?, hk, ih]

theorem mem_of_get? {key : String} {v : α} {m : List (String × α)} (h : get? key m = some v) :
    (key, v) ∈ m := by
  induction m with
  | nil => cases h
  | cons p r ih =>
    rw [get?] at h
    split at h
    · next hk =>
      cases h
      exact hk ▸ List.mem_cons_self
    · exact List.mem_cons_of_mem p (ih h)

end Wireform.Entries
