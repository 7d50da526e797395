import Wireform.Message
import Wireform.Proofs.Percent
import Wireform.Proofs.Text.Pieces

/-
  Wireform requests: the query of a request in its URI. `readPair` reads what stands between two
  ampersands; `uri_carries_query` says that the pairs behind the first question mark are those of
  the request, in order, whatever their keys and values hold.
-/

namespace Wireform

namespace Query

/-! ## Pairs -/

/-- A key and a value with an equals sign between them, both encoded; without the sign the value is
empty. -/
def readPair (s : List Char) : String × String :=
  (String.ofList (Percent.decode (Text.cut '=' s).1),
    String.ofList (Percent.decode ((Text.cut '=' s).2.getD [])))

/-- An encoded text has no sign that holds a URI together. -/
theorem not_mem_encode {c : Char} (hc : c ≠ '%') (hreserved : Percent.isUnreserved c = false)
    (s : List Char) : c ∉ Percent.encode (fun _ => false) s := by
  intro h
  rcases Percent.mem_encode h with h | h | h
  · exact hc h
  · rw [hreserved] at h
    cases h
  · cases h

theorem ofList_decode_encode (t : String) :
    String.ofList (Percent.decode (Percent.encode (fun _ => false) t.toList)) = t := by
  rw [Percent.decode_encode fun _ hkeep => Bool.noConfusion hkeep]
  exact String.ofList_toList

theorem readPair_pairText (p : String × String) : readPair (pairText p) = p := by
  obtain ⟨key, value⟩ := p
  have hkey : '=' ∉ Percent.encode (fun _ => false) key.toList :=
    not_mem_encode (by decide) (by decide) key.toList
  unfold readPair pairText
  by_cases hvalue : value = ""
  · rw [if_pos hvalue, List.append_nil, Text.cut_of_not_mem hkey, hvalue]
    have hnil : Percent.decode [] = [] := Percent.decode_eq_nil.mpr rfl
    dsimp only [Option.getD_none]
    rw [ofList_decode_encode, hnil]
  · rw [if_neg hvalue, Text.cut_append_sep hkey]
    dsimp only [Option.getD_some]
    rw [ofList_decode_encode, ofList_decode_encode]

theorem ampersand_not_mem_pairText (p : String × String) : '&' ∉ pairText p := by
  have hencoded : ∀ t : String, '&' ∉ Percent.encode (fun _ => false) t.toList := fun t =>
    not_mem_encode (by decide) (by decide) t.toList
  unfold pairText
  rw [List.mem_append, not_or]
  refine ⟨hencoded p.1, ?_⟩
  split
  · exact List.not_mem_nil
  · rw [List.mem_cons, not_or]
    exact ⟨by decide, hencoded p.2⟩

/-- The pairs of a query come back from their texts. -/
theorem map_readPair_pieces {params : List (String × String)} (h : params ≠ []) :
    (Text.pieces '&' (Text.join '&' (params.map pairText))).map readPair = params := by
  have hne : params.map pairText ≠ [] := fun hnil => h (List.map_eq_nil_iff.mp hnil)
  have hsep : ∀ s ∈ params.map pairText, '&' ∉ s := by
    intro s hs
    obtain ⟨p, -, rfl⟩ := List.mem_map.mp hs
    exact ampersand_not_mem_pairText p
  rw [Text.pieces_join '&' hne, Text.flatMap_pieces_of_not_mem hsep, List.map_map]
  apply List.map_id''
  exact readPair_pairText

end Query

/-! ## Requests -/

/-- The URI of a request is its path alone exactly if it has no query; otherwise the pairs of the
query stand behind the first question mark. -/
theorem Request.uri_carries_query (r : Request) (hpath : '?' ∉ r.path.toList) :
    (r.uri = r.path ↔ r.query = []) ∧
      (r.query ≠ [] → ∃ query, Text.cut '?' r.uri.toList = (r.path.toList, some query) ∧
        (Text.pieces '&' query).map Query.readPair = r.query) := by
  have huri : r.query ≠ [] → r.uri.toList =
      r.path.toList ++ '?' :: Text.join '&' (r.query.map Query.pairText) := by
    intro hne
    unfold Request.uri Query.uri
    rw [if_neg (by simpa using hne), String.toList_ofList]
  refine ⟨⟨?_, ?_⟩, fun hne => ?_⟩
  · intro heq
    by_cases hnil : r.query = []
    · exact hnil
    · have hlength := congrArg List.length (huri hnil)
      rw [heq, List.length_append, List.length_cons] at hlength
      omega
  · intro hnil
    unfold Request.uri Query.uri
    rw [hnil]
    rfl
  · refine ⟨_, ?_, Query.map_readPair_pieces hne⟩
    rw [huri hne, Text.cut_append_sep hpath]

/-- Signs that hold a URI together, empty texts, repeated keys and letters outside ASCII come
back. -/
theorem Request.uri_carries_reserved_signs :
    '?' ∉ "/items".toList ∧ ∃ query,
      Text.cut '?' (Request.uri { Request.new "GET" "/items" with
        query := [("", ""), ("a&b", "=?#%+ é"), ("", "x"), ("a&b", "")] }).toList =
          ("/items".toList, some query) ∧
      (Text.pieces '&' query).map Query.readPair =
        [("", ""), ("a&b", "=?#%+ é"), ("", "x"), ("a&b", "")] := by
  have hpath : '?' ∉ "/items".toList := by decide
  exact ⟨hpath, (uri_carries_query { Request.new "GET" "/items" with
    query := [("", ""), ("a&b", "=?#%+ é"), ("", "x"), ("a&b", "")] } hpath).2
      (List.cons_ne_nil _ _)⟩

end Wireform
