import Mathlib.Data.List.Nodup
import Mathlib.Data.List.Perm.Basic
import Wireform.HeaderList
import Wireform.Proofs.Entries
import Wireform.Proofs.HeaderRule
import Wireform.Proofs.Headers.Runs
import Wireform.Proofs.Outcome

/-
  Wireform headers: a map whose entries are headers with a common beginning. `readPrefixed_of_sent`
  says that such a map is read back with its keys in lower case, whatever other headers there are
  and however all of them are mixed.
-/

namespace Wireform

/-- The map of the headers with a common beginning: what follows it is the key, and the only value
of the name is the value. -/
def Headers.readPrefixed (h : Headers) (start : String) :
    Except ParseError (List (String × Option String)) :=
  (headersForPrefix h.names start).foldlM
    (fun out pair => do
      let value ← HeaderList.oneOrNone (h.getAll pair.2)
      return Entries.put pair.1 value out) []

namespace Headers

/-- Whether a name begins with `start`, in whatever case both are spelled. -/
def BeginsWith (start name : String) : Prop :=
  (Text.lowered start).toList <+: (Text.lowered name).toList

/-- The entries of a map as headers under `start`, mixed with other headers. -/
structure Sent (start : String) (entries others lines : List (String × String)) : Prop where
  names : ∀ e ∈ entries, HeaderRule.checkName (start ++ e.1) = .ok ()
  values : ∀ e ∈ entries, HeaderRule.checkValue e.2 = .ok ()
  distinct : (entries.map fun e => Text.lowered e.1).Nodup
  apart : ∀ f ∈ others, ¬ BeginsWith start f.1
  mixed : lines.Perm (entries.map (fun e => (start ++ e.1, e.2)) ++ others)

end Headers

/-! ## Names -/

namespace HeaderRule

theorem isAscii_of_checkName {s : String} (h : checkName s = .ok ()) :
    ∀ c ∈ s.toList, Text.isAscii c = true := by
  have hname : isName s.toList = true := by
    unfold checkName at h
    split at h
    · next hname => exact hname
    · cases h
  have htoken : ∀ {t : String}, IsToken t → ∀ c ∈ t.toList, Text.isAscii c = true :=
    fun ht c hc => isAscii_of_isTokenChar ((isTokenChar_iff c).mpr (ht.chars c hc))
  intro c hc
  rcases (isName_iff s).mp hname with hs | ⟨t, ht, rfl⟩
  · exact htoken hs c hc
  · rw [String.toList_append, List.mem_append] at hc
    rcases hc with hc | hc
    · exact htoken ht c hc
    · obtain rfl := List.mem_singleton.mp hc
      rfl

theorem trim_of_checkValue {s : String} (h : checkValue s = .ok ()) :
    Text.trim Text.isPad s.toList = s.toList := by
  unfold checkValue at h
  split at h
  · cases h
  · next htrim => exact not_not.mp htrim

end HeaderRule

/-- ASCII characters have no neighbours that change their case. -/
theorem Text.lowered_append {s t : String} (h : ∀ c ∈ (s ++ t).toList, isAscii c = true) :
    lowered (s ++ t) = lowered s ++ lowered t := by
  rw [String.toList_append] at h
  unfold lowered
  rw [String.toList_append, lower_of_isAscii h, List.map_append, String.ofList_append,
    lower_of_isAscii fun c hc => h c (List.mem_append_left _ hc),
    lower_of_isAscii fun c hc => h c (List.mem_append_right _ hc)]

/-- The pairs found under a beginning are the names that have it, cut behind it. -/
theorem mem_headersForPrefix {names : List String} {start key name : String} :
    (key, name) ∈ headersForPrefix names start ↔
      name ∈ names ∧ Text.lowered name = Text.lowered start ++ key := by
  unfold headersForPrefix
  rw [List.mem_filterMap]
  dsimp only
  constructor
  · rintro ⟨n, hn, h⟩
    split at h
    · next hstart =>
      cases h
      obtain ⟨r, hr⟩ := List.isPrefixOf_iff_prefix.mp hstart
      refine ⟨hn, ?_⟩
      unfold Text.lowered
      rw [← hr, List.drop_left, String.ofList_append]
    · cases h
  · rintro ⟨hn, h⟩
    have hlower : Text.lower name.toList = Text.lower start.toList ++ key.toList := by
      have hchars := congrArg String.toList h
      rwa [String.toList_append, Text.lowered, Text.lowered, String.toList_ofList,
        String.toList_ofList] at hchars
    refine ⟨name, hn, ?_⟩
    rw [hlower, if_pos (List.isPrefixOf_iff_prefix.mpr (List.prefix_append _ _)), List.drop_left,
      String.ofList_toList]

namespace Headers

theorem isLowered_ofList (fields : List (String × String)) : (ofList fields).IsLowered := by
  rw [ofList_eq_run]
  exact isLowered_run isLowered_empty _

theorem mem_names {h : Headers} {n : String} : n ∈ h.names ↔ ∃ f ∈ h.fields, f.1 = n := by
  rw [(firstsOf_names h).mem, List.mem_map]

theorem lowered_of_mem_names {h : Headers} (hlow : h.IsLowered) {n : String} (hn : n ∈ h.names) :
    Text.lowered n = n := by
  obtain ⟨f, hf, rfl⟩ := mem_names.mp hn
  exact hlow f hf

theorem getAll_lowered (h : Headers) (n : String) : h.getAll (Text.lowered n) = h.getAll n := by
  unfold getAll
  rw [Text.lowered_lowered]

/-- The pairs under a beginning have distinct keys. -/
theorem nodup_headersForPrefix {h : Headers} (hlow : h.IsLowered) (start : String) :
    (headersForPrefix h.names start).Nodup ∧
      (Entries.keys (headersForPrefix h.names start)).Nodup := by
  have hnodup : (headersForPrefix h.names start).Nodup := by
    refine (firstsOf_names h).nodup.filterMap fun n m p hn hm => ?_
    dsimp only at hn hm
    split at hn
    · split at hm
      · have hn : n = p.2 := congrArg Prod.snd (Option.some.inj hn)
        exact hn.trans (congrArg Prod.snd (Option.some.inj hm)).symm
      · cases hm
    · cases hn
  refine ⟨hnodup, hnodup.map_on fun p hp q hq hkey => Prod.ext hkey ?_⟩
  obtain ⟨hpn, hp⟩ := mem_headersForPrefix.mp hp
  obtain ⟨hqn, hq⟩ := mem_headersForPrefix.mp hq
  rw [lowered_of_mem_names hlow hpn] at hp
  rw [lowered_of_mem_names hlow hqn] at hq
  rw [hp, hq, hkey]

/-! ## Reading -/

/-- Entries are put one by one if every value can be read. -/
theorem readPrefixed_eq {h : Headers} {start : String} {value : String → Option String}
    (hread : ∀ p ∈ headersForPrefix h.names start,
      HeaderList.oneOrNone (h.getAll p.2) = .ok (value p.2)) :
    h.readPrefixed start =
      .ok (Entries.ofPairs ((headersForPrefix h.names start).map fun p => (p.1, value p.2))) := by
  unfold readPrefixed Entries.ofPairs
  generalize headersForPrefix h.names start = pairs at hread
  generalize ([] : List (String × Option String)) = out
  induction pairs generalizing out with
  | nil => rfl
  | cons p pairs ih =>
    obtain ⟨hp, hpairs⟩ := List.forall_mem_cons.mp hread
    rw [List.foldlM_cons, hp]
    exact ih hpairs _

namespace Sent

variable {start : String} {entries others lines : List (String × String)}

theorem lowered_name (h : Sent start entries others lines) {e : String × String}
    (he : e ∈ entries) :
    Text.lowered (start ++ e.1) = Text.lowered start ++ Text.lowered e.1 :=
  Text.lowered_append (HeaderRule.isAscii_of_checkName (h.names e he))

theorem mem_lines (h : Sent start entries others lines) {l : String × String} :
    l ∈ lines ↔ (∃ e ∈ entries, (start ++ e.1, e.2) = l) ∨ l ∈ others := by
  rw [h.mixed.mem_iff, List.mem_append, List.mem_map]

/-- A line under the beginning is that of an entry. -/
theorem exists_entry (h : Sent start entries others lines) {l : String × String}
    (hl : l ∈ lines) (hstart : BeginsWith start l.1) :
    ∃ e ∈ entries, (start ++ e.1, e.2) = l :=
  ((h.mem_lines).mp hl).resolve_right fun hother => h.apart l hother hstart

theorem getAll_entry (h : Sent start entries others lines) {e : String × String}
    (he : e ∈ entries) : (ofList lines).getAll (start ++ e.1) = [e.2] := by
  have hentries : entries.filter
      (fun x => Text.lowered (start ++ x.1) = Text.lowered (start ++ e.1)) = [e] := by
    have hnodup : entries.Nodup := List.Nodup.of_map _ h.distinct
    refine List.perm_singleton.mp ((List.perm_ext_iff_of_nodup (hnodup.filter _)
      (List.nodup_singleton e)).mpr fun x => ?_)
    rw [List.mem_filter, decide_eq_true_eq, List.mem_singleton]
    constructor
    · rintro ⟨hx, hname⟩
      rw [h.lowered_name hx, h.lowered_name he, String.append_right_inj] at hname
      exact List.inj_on_of_nodup_map h.distinct hx he hname
    · rintro rfl
      exact ⟨he, rfl⟩
  have hothers : others.filter
      (fun f => Text.lowered f.1 = Text.lowered (start ++ e.1)) = [] := by
    refine List.filter_eq_nil_iff.mpr fun f hf hname => h.apart f hf ?_
    unfold BeginsWith
    rw [of_decide_eq_true hname, h.lowered_name he, String.toList_append]
    exact List.prefix_append _ _
  have hperm := (h.mixed.filter
    fun f => decide (Text.lowered f.1 = Text.lowered (start ++ e.1))).map (·.2)
  rw [List.filter_append, hothers, List.append_nil, List.filter_map] at hperm
  rw [getAll_ofList]
  refine List.perm_singleton.mp (hperm.trans (.of_eq ?_))
  exact congrArg (List.map _ ∘ List.map _) hentries

/-- The pairs that are found are those of the entries. -/
theorem mem_pairs (h : Sent start entries others lines) {key name : String} :
    (key, name) ∈ headersForPrefix (ofList lines).names start ↔
      ∃ e ∈ entries, (Text.lowered e.1, Text.lowered (start ++ e.1)) = (key, name) := by
  have hnames : name ∈ (ofList lines).names ↔ ∃ l ∈ lines, Text.lowered l.1 = name := by
    rw [mem_names, fields_ofList]
    simp only [List.mem_map, exists_exists_and_eq_and]
  rw [mem_headersForPrefix, hnames]
  constructor
  · rintro ⟨⟨l, hl, rfl⟩, hkey⟩
    rw [Text.lowered_lowered] at hkey
    have hstart : BeginsWith start l.1 := by
      unfold BeginsWith
      rw [hkey, String.toList_append]
      exact List.prefix_append _ _
    obtain ⟨e, he, rfl⟩ := h.exists_entry hl hstart
    rw [h.lowered_name he, String.append_right_inj] at hkey
    exact ⟨e, he, Prod.ext hkey rfl⟩
  · rintro ⟨e, he, hpair⟩
    cases hpair
    refine ⟨⟨_, h.mem_lines.mpr (Or.inl ⟨e, he, rfl⟩), rfl⟩, ?_⟩
    rw [Text.lowered_lowered, h.lowered_name he]

/-- One pair is found for each entry. -/
theorem pairs_perm (h : Sent start entries others lines) :
    (headersForPrefix (ofList lines).names start).Perm
      (entries.map fun e => (Text.lowered e.1, Text.lowered (start ++ e.1))) := by
  have hsent : (entries.map fun e => (Text.lowered e.1, Text.lowered (start ++ e.1))).Nodup := by
    refine List.Nodup.of_map (·.1) ?_
    rw [List.map_map]
    exact h.distinct
  have hfound := (nodup_headersForPrefix (isLowered_ofList lines) start).1
  refine (List.perm_ext_iff_of_nodup hfound hsent).mpr fun p => ?_
  rw [List.mem_map]
  exact h.mem_pairs

theorem getAll_found (h : Sent start entries others lines) {e : String × String}
    (he : e ∈ entries) : (ofList lines).getAll (Text.lowered (start ++ e.1)) = [e.2] :=
  (getAll_lowered _ _).trans (h.getAll_entry he)

/-- The only value of a name that is found is its value, since nothing is stripped from it. -/
theorem oneOrNone_found (h : Sent start entries others lines) {p : String × String}
    (hp : p ∈ headersForPrefix (ofList lines).names start) :
    HeaderList.oneOrNone ((ofList lines).getAll p.2) = .ok ((ofList lines).get? p.2) := by
  obtain ⟨key, name⟩ := p
  obtain ⟨e, he, hpair⟩ := h.mem_pairs.mp hp
  cases hpair
  unfold get? HeaderList.oneOrNone
  dsimp only
  rw [h.getAll_found he]
  dsimp only
  rw [HeaderRule.trim_of_checkValue (h.values e he), String.ofList_toList]
  rfl

end Sent

/-- A map that is sent under a beginning comes back from all headers, with its keys in lower case:
no entry is lost, repeated or replaced, and none comes from another header. -/
theorem readPrefixed_of_sent {start : String} {entries others lines : List (String × String)}
    (h : Sent start entries others lines) :
    ∃ out, (ofList lines).readPrefixed start = .ok out ∧ (Entries.keys out).Nodup ∧
      out.Perm (entries.map fun e => (Text.lowered e.1, some e.2)) := by
  have hout : (Entries.keys ((headersForPrefix (ofList lines).names start).map
      fun p => (p.1, (ofList lines).get? p.2))).Nodup := by
    unfold Entries.keys
    rw [List.map_map]
    exact (nodup_headersForPrefix (isLowered_ofList lines) start).2
  refine ⟨_, readPrefixed_eq fun _ hp => h.oneOrNone_found hp, ?_, ?_⟩
  · rw [Entries.ofPairs_of_nodup hout]
    exact hout
  · rw [Entries.ofPairs_of_nodup hout]
    refine (h.pairs_perm.map _).trans (.of_eq ?_)
    rw [List.map_map]
    refine List.map_congr_left fun e he => Prod.ext rfl ?_
    show (ofList lines).get? (Text.lowered (start ++ e.1)) = some e.2
    rw [get?, h.getAll_found he]
    rfl

/-- The second key begins with the prefix itself, and another name is too short for it. -/
theorem readPrefixed_between_others :
    Sent "X-Meta-" [("Owner", "a, b"), ("x-meta-", "two")] [("x-met", "no"), ("Age", "1")]
        [("x-met", "no"), ("X-Meta-x-meta-", "two"), ("X-Meta-Owner", "a, b"), ("Age", "1")] ∧
      ∃ out, (ofList [("x-met", "no"), ("X-Meta-x-meta-", "two"), ("X-Meta-Owner", "a, b"),
          ("Age", "1")]).readPrefixed "X-Meta-" = .ok out ∧ (Entries.keys out).Nodup ∧
        out.Perm [("owner", some "a, b"), ("x-meta-", some "two")] := by
  have hsent : Sent "X-Meta-" [("Owner", "a, b"), ("x-meta-", "two")] [("x-met", "no"), ("Age", "1")]
      [("x-met", "no"), ("X-Meta-x-meta-", "two"), ("X-Meta-Owner", "a, b"), ("Age", "1")] := by
    refine ⟨?_, ?_, by decide, ?_, by decide⟩
    · exact List.forall_mem_cons.mpr ⟨rfl, List.forall_mem_singleton.mpr rfl⟩
    · exact List.forall_mem_cons.mpr ⟨rfl, List.forall_mem_singleton.mpr rfl⟩
    · unfold BeginsWith
      decide
  exact ⟨hsent, readPrefixed_of_sent hsent⟩

end Headers

end Wireform
