import Wireform.Redaction
import Wireform.Sensitivity.Coverage

/-
  Wireform redaction: the clauses that the coverage of an operation stands for. A part of a message
  of which nothing is sensitive has no clause.
-/

namespace Wireform.Coverage

/-- The redaction that the generated function of an operation gives. -/
def redaction (c : Coverage) : Redaction where
  path := if c.hasPath then some fun i => (c.path.map Int.ofNat).contains i else none
  query :=
    if c.queryParams then some Redaction.wholeQuery
    else if c.queryKeys.isEmpty then none
    else some (Redaction.queryClause c.queryKeys)
  requestHeader :=
    if c.hasRequestHeaders then some (Redaction.headerClause c.requestHeaders c.requestPrefixes)
    else none
  responseHeader :=
    if c.hasResponseHeaders then some (Redaction.headerClause c.responseHeaders c.responsePrefixes)
    else none
  statusCode := c.statusCode

/-- The path clause marks the indexes that are covered, whether there are any or not. -/
theorem marksPath_redaction (c : Coverage) (i : Nat) :
    c.redaction.marksPath i = true ↔ i ∈ c.path := by
  unfold Redaction.marksPath redaction hasPath
  dsimp only
  cases hc : c.path with
  | nil => exact ⟨fun h => Bool.noConfusion h, fun h => absurd h List.not_mem_nil⟩
  | cons j js =>
    have hpath : (!(j :: js).isEmpty) = true := rfl
    rw [if_pos hpath, Option.any_some]
    dsimp only
    rw [List.contains_eq_mem, decide_eq_true_eq, List.mem_map]
    constructor
    · rintro ⟨k, hk, he⟩
      exact Int.ofNat.inj he ▸ hk
    · exact fun h => ⟨i, h, rfl⟩

end Wireform.Coverage
