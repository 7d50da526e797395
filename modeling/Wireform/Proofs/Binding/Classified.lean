import Mathlib.Data.List.Perm.Basic
import Wireform.Proofs.Plan.Lookups

/-
  Wireform bindings: what a message that can be bound looks like as a whole. Each member has one
  binding, in the order of the members. The members together keep to what a message has room for,
  and the labels of a request are those of its URI, each with the place of its segment.
-/

namespace Wireform

/-! ## Places of labels -/

namespace Pattern

variable {p : Pattern}

/-- The labels in order, each with the index of its segment and whether it is greedy. -/
def labelPlaces (p : Pattern) : List (String × Option Nat × Bool) :=
  (p.segments.zipIdx.filter fun s => s.1.isLabel).map fun s =>
    (s.1.content, some s.2, decide (s.1.kind = .greedy))

theorem mem_labelPlaces {n : String} {i : Option Nat} {greedy : Bool} :
    (n, i, greedy) ∈ p.labelPlaces ↔ ∃ s k, (s, k) ∈ p.segments.zipIdx ∧ s.isLabel = true ∧
      s.content = n ∧ i = some k ∧ greedy = decide (s.kind = .greedy) := by
  unfold labelPlaces
  simp only [List.mem_map, List.mem_filter, Prod.mk.injEq, Prod.exists]
  constructor
  · rintro ⟨s, k, ⟨hs, hlabel⟩, rfl, rfl, rfl⟩
    exact ⟨s, k, hs, hlabel, rfl, rfl, rfl⟩
  · rintro ⟨s, k, hs, hlabel, rfl, rfl, rfl⟩
    exact ⟨s, k, ⟨hs, hlabel⟩, rfl, rfl, rfl⟩

theorem names_labelPlaces : p.labelPlaces.map (·.1) = p.labels := by
  unfold labelPlaces labels
  have hsegments : p.segments = p.segments.zipIdx.map (·.1) := (List.zipIdx_map_fst 0 _).symm
  conv_rhs => rw [hsegments, List.filter_map, List.map_map]
  rw [List.map_map]
  rfl

/-- Where no label comes twice, a name has one segment. -/
theorem eq_of_label (hlabels : p.labels.Nodup) {s t : Segment} (hs : s ∈ p.segments)
    (ht : t ∈ p.segments) (hslabel : s.isLabel = true) (htlabel : t.isLabel = true)
    (hname : s.content = t.content) : s = t :=
  List.inj_on_of_nodup_map hlabels (List.mem_filter.mpr ⟨hs, hslabel⟩)
    (List.mem_filter.mpr ⟨ht, htlabel⟩) hname

end Pattern

/-! ## Bound messages -/

namespace Binding

/-- What can be said of the bindings of a message: of each one, of all together, and of a request
and its URI. -/
structure Classified (model : Model) (direction : Direction) (uri : Option Pattern) (s : Shape)
    (bs : List Binding) : Prop where
  members : bs.map (·.member) = s.members
  untraited : ∀ b ∈ bs, traitsOf b.member = [] → b.location = .document
  traited : ∀ b ∈ bs, b.location ≠ .document →
    ∃ trait, traitsOf b.member = [(trait, b.location)]
  payload : (located .payload bs).length ≤ 1
  payloadAlone : located .payload bs ≠ [] → located .document bs = []
  single : ∀ l ∈ [.prefixHeaders, .queryParams, .responseCode], (located l bs).length ≤ 1
  maps : ∀ b ∈ bs, b.location ∈ [.prefixHeaders, .queryParams] →
    ∃ t, model.targetOf b.member = .ok t ∧ t.kind = .map
  named : ∀ b ∈ bs, b.location ∈ [.header, .query] → b.name ≠ "" ∧
    ∃ t, model.targetOf b.member = .ok t ∧ t.kind ∉ [.map, .struct, .union]
  ofResponse : direction = .response → ∀ b ∈ bs, b.location ∉ [.query, .queryParams, .label]
  ofRequest : direction = .request → ∀ b ∈ bs, b.location ≠ .responseCode
  labels : direction = .request → ∀ p, uri = some p →
    ((located .label bs).map fun b => (b.name, b.index, b.greedy)).Perm p.labelPlaces
  labelNames : ∀ b ∈ located .label bs, b.name = b.member.name

variable {model : Model} {direction : Direction} {uri : Option Pattern} {s : Shape}
  {bs : List Binding} {m : Member} {b : Binding} {p : Pattern}

theorem members_of_classify (h : classify model direction uri s = .ok bs) :
    bs.map (·.member) = s.members := by
  have hbs := classify_eq_ok h
  clear h
  generalize s.members = ms at hbs ⊢
  induction hbs with
  | nil => rfl
  | cons hm _ ih => rw [List.map_cons, ih, (ofMember_form hm).1]

theorem location_of_traitsOf_nil (h : ofMember model direction uri m = .ok b)
    (htraits : traitsOf m = []) : b.location = .document := by
  unfold ofMember at h
  rw [htraits] at h
  cases h
  rfl

/-! ## Labels -/

/-- A label is bound to the segment of its name. -/
theorem ofLabel_place {kind : ShapeKind} (hlabels : p.labels.Nodup)
    (h : ofLabel m kind (some p) = .ok b) : (m.name, b.index, b.greedy) ∈ p.labelPlaces := by
  unfold ofLabel at h
  split at h
  · cases h
  · next q segment hsegment =>
    split at h
    · cases h
    · cases h
      obtain ⟨q', hq, hlabel⟩ := Option.bind_eq_some_iff.mp hsegment
      cases hq
      obtain ⟨t, ht, he⟩ := Option.map_eq_some_iff.mp hlabel
      cases he
      have htext := List.find?_some ht
      rw [Bool.and_eq_true, decide_eq_true_eq] at htext
      -- the index is that of the first label with the name, which has no other segment
      obtain ⟨i, hi⟩ := Option.isSome_iff_exists.mp (Pattern.exists_labelIndex ht)
      obtain ⟨⟨name, j⟩, hfind, rfl⟩ := Option.map_eq_some_iff.mp hi
      obtain rfl : name = m.name := by simpa using List.find?_some hfind
      obtain ⟨t', ht', hlabel', hname'⟩ :=
        Pattern.mem_labelIndexes.mp (List.mem_of_find?_eq_some hfind)
      have hmem' := List.mem_of_getElem? (List.mem_zipIdx_iff_getElem?.mp ht')
      obtain rfl : t' = segment := Pattern.eq_of_label hlabels hmem'
        (List.mem_of_find?_eq_some ht) hlabel' htext.1 (hname'.trans htext.2.symm)
      exact Pattern.mem_labelPlaces.mpr ⟨t', j, ht', hlabel', hname', hi, rfl⟩

theorem ofLabel_name {kind : ShapeKind} (h : ofLabel m kind uri = .ok b) : b.name = m.name := by
  unfold ofLabel at h
  split at h
  · cases h
  · split at h
    · cases h
    · cases h
      rfl

/-- A binding at a label is made from its member's name. -/
theorem exists_ofLabel (h : classify model direction uri s = .ok bs)
    (hb : b ∈ located .label bs) : b ∈ bs ∧ ∃ kind, ofLabel b.member kind uri = .ok b := by
  obtain ⟨hb, hl⟩ := List.mem_filter.mp hb
  have hl : b.location = .label := of_decide_eq_true hl
  obtain ⟨t, trait, -, -, hlocation⟩ := classify_target h hb (hl ▸ by decide)
  rw [hl] at hlocation
  exact ⟨hb, t.kind, hlocation⟩

/-- The labels of a request are those of its URI. -/
theorem labels_perm (hnames : (s.members.map Member.name).Nodup) (hlabels : p.labels.Nodup)
    (h : classify model .request (some p) s = .ok bs) :
    ((located .label bs).map fun b => (b.name, b.index, b.greedy)).Perm p.labelPlaces := by
  have hplace : ∀ b ∈ located .label bs, (b.name, b.index, b.greedy) ∈ p.labelPlaces := by
    intro b hb
    obtain ⟨-, kind, hlabel⟩ := exists_ofLabel h hb
    rw [ofLabel_name hlabel]
    exact ofLabel_place hlabels hlabel
  have hbound : ((located .label bs).map fun b => (b.name, b.index, b.greedy)).Nodup := by
    have hsame : ((located .label bs).map fun b => b.name) =
        (located .label bs).map fun b => b.member.name := by
      refine List.map_congr_left fun b hb => ?_
      obtain ⟨-, kind, hlabel⟩ := exists_ofLabel h hb
      exact ofLabel_name hlabel
    have hsub : ((located .label bs).map fun b => b.member.name).Sublist
        (s.members.map Member.name) := by
      rw [← members_of_classify h, List.map_map]
      exact List.filter_sublist.map _
    refine List.Nodup.of_map (·.1) ?_
    rw [List.map_map]
    exact (hsame ▸ hsub.nodup hnames : ((located .label bs).map fun b => b.name).Nodup)
  have hplaces : p.labelPlaces.Nodup :=
    List.Nodup.of_map (·.1) (Pattern.names_labelPlaces ▸ hlabels)
  refine (List.perm_ext_iff_of_nodup hbound hplaces).mpr fun x => ⟨fun hx => ?_, fun hx => ?_⟩
  · obtain ⟨b, hb, rfl⟩ := List.mem_map.mp hx
    exact hplace b hb
  · have hname : x.1 ∈ p.labels := Pattern.names_labelPlaces ▸ List.mem_map_of_mem hx
    have hfound : x.1 ∈ (located .label bs).map (·.name) := by
      simpa using List.find?_eq_none.mp (unbound?_eq_none h) x.1 hname
    obtain ⟨b, hb, hbx⟩ := List.mem_map.mp hfound
    have hsame : (b.name, b.index, b.greedy) = x :=
      List.inj_on_of_nodup_map (Pattern.names_labelPlaces ▸ hlabels) (hplace b hb) hx hbx
    exact hsame ▸ List.mem_map_of_mem hb

/-! ## Targets -/

/-- Maps of headers and query parameters have maps as targets. -/
theorem ofLocation_map {trait : String} {location : Location} {kind : ShapeKind}
    (h : ofLocation m trait location kind uri = .ok b)
    (hl : location ∈ [.prefixHeaders, .queryParams]) : kind = .map := by
  simp only [List.mem_cons, List.not_mem_nil, or_false] at hl
  rcases hl with rfl | rfl
  all_goals
    unfold ofLocation at h
    dsimp only at h
    split at h
    · cases h
    · next hkind => exact not_not.mp hkind

/-- Headers and query keys have a name, and a target that is no map and no record. -/
theorem ofLocation_named {trait : String} {location : Location} {kind : ShapeKind}
    (h : ofLocation m trait location kind uri = .ok b) (hl : location ∈ [.header, .query]) :
    b.name ≠ "" ∧ kind ∉ [.map, .struct, .union] := by
  simp only [List.mem_cons, List.not_mem_nil, or_false] at hl
  rcases hl with rfl | rfl
  all_goals
    unfold ofLocation at h
    dsimp only at h
    split at h
    · cases h
    · next hname =>
      split at h
      · cases h
      · next hkind =>
        cases h
        refine ⟨hname, ?_⟩
        simpa [ShapeKind.isAggregate, and_comm, and_assoc] using hkind

/-! ## Messages -/

/-- A message is bound with the error of a declaration or at an undeclared target, which no record
of a sound model has, or else into bindings that are well formed as a whole. -/
theorem classify_classified (hnames : (s.members.map Member.name).Nodup)
    (huri : ∀ p, uri = some p → ∃ text, Pattern.parse text = .ok p) :
    (∀ e, classify model direction uri s = .error e →
      e.IsDeclared ∨ ∃ m ∈ s.members, model.Lacks m ∧ e = .missing (.shape m.target)) ∧
    (model.Sound → s ∈ model.shapes → s.kind = .struct →
      ∀ e, classify model direction uri s = .error e → e.IsDeclared) ∧
    ∀ bs, classify model direction uri s = .ok bs → Classified model direction uri s bs := by
  refine ⟨fun e he => classify_failure he, fun hsound hs hkind e he => ?_, fun bs h => ?_⟩
  · refine (classify_failure he).resolve_right fun ⟨m, hm, hlacks, _⟩ => ?_
    have henum := hsound.isEnum_of_lacks hs hm hlacks
    rw [hkind] at henum
    exact henum.elim (fun h => by cases h) fun h => by cases h
  obtain ⟨hpayload, hbody, hsingle, -⟩ := conflict?_eq_none (classify_conflict h)
  have hform : ∀ b ∈ bs, b.WellFormed direction := fun b hb => (classify_form h hb).2
  have htarget : ∀ b ∈ bs, ∀ ls : List Location, b.location ∈ ls → .document ∉ ls →
      ∃ t trait, traitsOf b.member = [(trait, b.location)] ∧ model.targetOf b.member = .ok t ∧
        ofLocation b.member trait b.location t.kind uri = .ok b := fun b hb ls hl hdocument =>
    classify_target h hb fun he => hdocument (he ▸ hl)
  exact {
    members := members_of_classify h
    untraited := fun b hb => location_of_traitsOf_nil (ofMember_of_mem h hb)
    traited := fun b hb hl => by
      obtain ⟨_, trait, htraits, -, -⟩ := classify_target h hb hl
      exact ⟨trait, htraits⟩
    payload := hpayload
    payloadAlone := hbody
    single := hsingle
    maps := fun b hb hl => by
      obtain ⟨t, _, -, ht, hlocation⟩ := htarget b hb _ hl (by decide)
      exact ⟨t, ht, ofLocation_map hlocation hl⟩
    named := fun b hb hl => by
      obtain ⟨t, _, -, ht, hlocation⟩ := htarget b hb _ hl (by decide)
      obtain ⟨hname, hkind⟩ := ofLocation_named hlocation hl
      exact ⟨hname, t, ht, hkind⟩
    ofResponse := by
      rintro rfl b hb hl
      have hlocated := (hform b hb).located
      simp only [List.mem_cons, List.not_mem_nil, or_false] at hl
      rcases hl with hl | hl | hl
      all_goals exact absurd hlocated (by rw [hl]; decide)
    ofRequest := by
      rintro rfl b hb hl
      exact absurd (hform b hb).located (by rw [hl]; decide)
    labels := by
      rintro rfl p rfl
      obtain ⟨text, hparse⟩ := huri p rfl
      exact labels_perm hnames (Pattern.wellFormed_of_parse hparse).labels h
    labelNames := fun b hb => by
      obtain ⟨-, kind, hlabel⟩ := exists_ofLabel h hb
      exact ofLabel_name hlabel }

/-- Two labels that come in another order than in the URI, a header and a payload. -/
theorem classified_object : ∃ model p s bs, Pattern.parse "/\x7bBucket\x7d/\x7bKey+\x7d" = .ok p ∧
    classify model .request (some p) s = .ok bs ∧ bs.length = 4 ∧
    Classified model .request (some p) s bs := by
  let input : Shape := { Shape.bare "ns#PutInput" .struct with members := [
    ⟨"Key", "ns#Text", "ns#PutInput", [(Trait.httpLabel, .map [])]⟩,
    ⟨"Bucket", "ns#Text", "ns#PutInput", [(Trait.httpLabel, .map [])]⟩,
    ⟨"Owner", "ns#Text", "ns#PutInput", [(Trait.httpHeader, .text "X-Owner")]⟩,
    ⟨"Body", "ns#Bytes", "ns#PutInput", [(Trait.httpPayload, .map [])]⟩] }
  let model : Model := ⟨[.bare "ns#Text" .string, .bare "ns#Bytes" .blob, input]⟩
  let uri : Pattern := ⟨[⟨.label, "Bucket"⟩, ⟨.greedy, "Key"⟩], false, []⟩
  have hparse : Pattern.parse "/\x7bBucket\x7d/\x7bKey+\x7d" = .ok uri := rfl
  have hrun : Outcome.passes (fun bs => decide (bs.length = 4))
      (classify model .request (some uri) input) = true := by
    decide +kernel
  obtain ⟨bs, hbs, hlength⟩ := Outcome.exists_of_passes hrun
  have huri : ∀ p, some uri = some p → ∃ text, Pattern.parse text = .ok p := by
    rintro p ⟨⟩
    exact ⟨_, hparse⟩
  have hnames : (input.members.map Member.name).Nodup := by decide
  have hclassified : Classified model .request (some uri) input bs :=
    (classify_classified hnames huri).2.2 bs hbs
  exact ⟨model, uri, input, bs, hparse, hbs, of_decide_eq_true hlength, hclassified⟩

end Binding

end Wireform
