import Wireform.Proofs.Redaction.Clauses
import Wireform.Proofs.Text.Trim
import Wireform.Proofs.Uri.RequestPath

/-
  Wireform redaction: sensitive labels in the paths that a log shows. The path clause counts the
  parts of a path as if each segment were one part, so it hides a label exactly where that is so:
  `hides_iff` says that a log tells nothing of the sensitive labels if and only if all of them stand
  before the greedy label. Behind a greedy label, and in it, a longer value moves the text away from
  every index that is marked.
-/

namespace Wireform

/-! ## What a log shows of a path -/

namespace Redaction

/-- The parts of a path from index `k` on, as a log shows them. -/
def shown (r : Redaction) (k : Nat) (parts : List (List Char)) : List String :=
  (parts.zipIdx k).map fun s => hide (r.marksPath s.2) (String.ofList s.1)

theorem shown_append (r : Redaction) (k : Nat) (ps qs : List (List Char)) :
    r.shown k (ps ++ qs) = r.shown k ps ++ r.shown (k + ps.length) qs := by
  unfold shown
  rw [List.zipIdx_append, List.map_append]

theorem shown_cons (r : Redaction) (k : Nat) (p : List Char) (ps : List (List Char)) :
    r.shown k (p :: ps) = hide (r.marksPath k) (String.ofList p) :: r.shown (k + 1) ps := by
  unfold shown
  rw [List.zipIdx_cons, List.map_cons]

theorem slash_not_mem_of_mem_shown {r : Redaction} {k : Nat} {ps : List (List Char)}
    (hps : ∀ p ∈ ps, '/' ∉ p) {t : String} (ht : t ∈ r.shown k ps) : '/' ∉ t.toList := by
  obtain ⟨⟨p, i⟩, hp, rfl⟩ := List.mem_map.mp ht
  dsimp only
  unfold hide
  split
  · decide
  · rw [String.toList_ofList]
    exact hps p (List.fst_mem_of_mem_zipIdx hp)

theorem shown_ne_nil (r : Redaction) {ps : List (List Char)} (h : ps ≠ []) : r.shown 0 ps ≠ [] := by
  cases ps with
  | nil => exact absurd rfl h
  | cons p ps =>
    rw [shown_cons]
    exact List.cons_ne_nil _ _

/-- Two paths are shown alike only if all their parts are. -/
theorem shown_injective {r : Redaction} {ps qs : List (List Char)} (hps : ps ≠ []) (hqs : qs ≠ [])
    (hp : ∀ p ∈ ps, '/' ∉ p) (hq : ∀ q ∈ qs, '/' ∉ q)
    (h : "/" ++ "/".intercalate (r.shown 0 ps) = "/" ++ "/".intercalate (r.shown 0 qs)) :
    r.shown 0 ps = r.shown 0 qs := by
  have hslash : "/" = String.singleton '/' := rfl
  rw [← String.toList_inj, String.toList_append, String.toList_append, hslash,
    Text.toList_intercalate_singleton, Text.toList_intercalate_singleton] at h
  refine List.map_injective_iff.mpr (fun _ _ => String.toList_inj.mp) (Text.join_injective ?_ ?_ ?_
    ?_ (List.append_cancel_left h))
  · exact fun he => shown_ne_nil r hps (List.map_eq_nil_iff.mp he)
  · exact fun he => shown_ne_nil r hqs (List.map_eq_nil_iff.mp he)
  · intro t ht
    obtain ⟨u, hu, rfl⟩ := List.mem_map.mp ht
    exact slash_not_mem_of_mem_shown hp hu
  · intro t ht
    obtain ⟨u, hu, rfl⟩ := List.mem_map.mp ht
    exact slash_not_mem_of_mem_shown hq hu

end Redaction

namespace Pattern

theorem slash_not_mem_partsOf {p : Pattern} {labels : String → String} {t : List Char}
    (h : t ∈ p.partsOf labels) : '/' ∉ t := by
  obtain ⟨s, -, ht⟩ := List.mem_flatMap.mp h
  exact Text.not_mem_of_mem_pieces ht

/-- A path whose first part does not begin with a slash is shown part by part. -/
theorem redactPath_requestPath {p : Pattern} (hp : p.WellFormed) (r : Redaction)
    {labels : String → String} {c : Char} {t : List Char} {ts : List (List Char)}
    (hfill : p.filled labels = (c :: t) :: ts) (hc : c ≠ '/') :
    r.redactPath (p.requestPath labels) =
      "/" ++ "/".intercalate (r.shown 0 (p.partsOf labels)) := by
  have hdrop : (p.requestPath labels).toList.dropWhile (fun x => decide (x = '/')) =
      Text.join '/' (p.filled labels) := by
    rw [toList_requestPath hp, List.dropWhile_cons_of_pos (by decide), hfill]
    cases ts with
    | nil => exact List.dropWhile_cons_of_neg (by simpa using hc)
    | cons u us => exact List.dropWhile_cons_of_neg (by simpa using hc)
  unfold Redaction.redactPath
  dsimp only
  rw [hdrop, Text.pieces_join '/' (by rw [hfill]; exact List.cons_ne_nil _ _)]
  rfl

/-! ## Labels that are hidden -/

/-- Whether a log shows nothing of the sensitive labels: two paths that differ in them alone look
the same. -/
def Hides (p : Pattern) (sensitive : String → Prop) (r : Redaction) : Prop :=
  ∀ a b : String → String, (∀ n ∈ p.labels, a n ≠ "" ∧ b n ≠ "") →
    (∀ n ∈ p.labels, ¬ sensitive n → a n = b n) →
    r.redactPath (p.requestPath a) = r.redactPath (p.requestPath b)

/-- No sensitive label is greedy or stands behind the greedy one. -/
def SensitiveBeforeGreedy (p : Pattern) (sensitive : String → Prop) : Prop :=
  ∀ before g after, p.segments = before ++ g :: after → g.kind = .greedy →
    ∀ s ∈ g :: after, s.isLabel = true → ¬ sensitive s.content

end Pattern

/-- The covered path indexes are those of the sensitive labels. -/
def Coverage.MarksLabels (c : Coverage) (p : Pattern) (sensitive : String → Prop) : Prop :=
  ∀ i, i ∈ c.path ↔ ∃ n, sensitive n ∧ (n, i) ∈ p.labelIndexes

namespace Pattern

/-- The segments before the greedy label, if there is one, and the rest. -/
theorem exists_split (p : Pattern) {sensitive : String → Prop}
    (h : p.SensitiveBeforeGreedy sensitive) : ∃ before rest, p.segments = before ++ rest ∧
      (∀ s ∈ before, s.kind ≠ .greedy) ∧ ∀ s ∈ rest, s.isLabel = true → ¬ sensitive s.content := by
  refine ⟨p.segments.takeWhile (fun s => decide (s.kind ≠ .greedy)),
    p.segments.dropWhile (fun s => decide (s.kind ≠ .greedy)),
    List.takeWhile_append_dropWhile.symm, fun s hs => ?_, ?_⟩
  · exact of_decide_eq_true (List.all_eq_true.mp List.all_takeWhile s hs)
  · cases hd : p.segments.dropWhile (fun s => decide (s.kind ≠ .greedy)) with
    | nil => exact fun s hs => absurd hs List.not_mem_nil
    | cons g after =>
      have hsplit := List.takeWhile_append_dropWhile (p := fun s : Segment =>
        decide (s.kind ≠ .greedy)) (l := p.segments)
      have hg := List.head?_dropWhile_not (fun s : Segment => decide (s.kind ≠ .greedy)) p.segments
      rw [hd] at hsplit hg
      exact h _ g after hsplit.symm (by simpa using hg)

/-- A part of a hidden path looks the same for both texts of its label. -/
theorem shown_map_congr {r : Redaction} {segments : List Segment} {a b : String → String}
    (h : ∀ s i, (s, i) ∈ segments.zipIdx → r.marksPath i = true ∨ s.fill a = s.fill b) :
    r.shown 0 (segments.map fun s => (s.fill a).toList) =
      r.shown 0 (segments.map fun s => (s.fill b).toList) := by
  unfold Redaction.shown
  rw [List.zipIdx_map, List.zipIdx_map, List.map_map, List.map_map]
  refine List.map_congr_left fun x hx => ?_
  obtain ⟨s, i⟩ := x
  show Redaction.hide (r.marksPath i) (String.ofList (s.fill a).toList) =
    Redaction.hide (r.marksPath i) (String.ofList (s.fill b).toList)
  rcases h s i hx with hmark | hfill
  · rw [hmark]
    rfl
  · rw [hfill]

/-- What the path of a pattern begins with, if its first segment is not greedy. -/
theorem exists_filled_eq_cons {p : Pattern} (hp : p.WellFormed) {s : Segment} {r : List Segment}
    (hs : p.segments = s :: r) (hg : s.kind ≠ .greedy) {labels : String → String}
    (hne : ∀ n ∈ p.labels, labels n ≠ "") :
    ∃ c t ts, p.filled labels = (c :: t) :: ts ∧ c ≠ '/' := by
  have hmem : s ∈ p.segments := hs ▸ List.mem_cons_self
  obtain ⟨hnil, hslash⟩ := Segment.fill_form (hp.segment s hmem) hg
    fun hl => hne _ (content_mem_labels hmem hl)
  obtain ⟨c, t, hfill⟩ := List.exists_cons_of_ne_nil hnil
  rw [hfill, List.mem_cons, not_or] at hslash
  refine ⟨c, t, r.map (fun s => (s.fill labels).toList) ++ if p.trailingSlash then [[]] else [],
    ?_, fun h => hslash.1 h.symm⟩
  unfold filled
  rw [hs, List.map_cons, hfill, List.cons_append]

/-- Sensitive labels before the greedy one are hidden. -/
theorem hides_of_before {p : Pattern} (hp : p.WellFormed) {sensitive : String → Prop}
    {c : Coverage} (hc : c.MarksLabels p sensitive) (h : p.SensitiveBeforeGreedy sensitive) :
    p.Hides sensitive c.redaction := by
  intro a b hne hagree
  obtain ⟨before, rest, hsplit, hbefore, hrest⟩ := exists_split p h
  have hsame : ∀ s ∈ p.segments, (s.isLabel = true → ¬ sensitive s.content) →
      s.fill a = s.fill b := fun s hs hns =>
    Segment.fill_congr fun hl => hagree _ (content_mem_labels hs hl) (hns hl)
  have htail : rest.map (fun s => (s.fill a).toList) = rest.map fun s => (s.fill b).toList :=
    List.map_congr_left fun s hs => by
      rw [hsame s (hsplit ▸ List.mem_append_right before hs) (hrest s hs)]
  cases hb : before with
  | nil =>
    -- no label is sensitive, so the two paths are the same
    have hfilled : p.filled a = p.filled b := by
      unfold filled
      rw [hsplit, hb, List.nil_append, htail]
    rw [← String.ofList_toList (s := p.requestPath a), toList_requestPath hp, hfilled,
      ← toList_requestPath hp, String.ofList_toList]
  | cons s₀ before' =>
    have hs₀ : p.segments = s₀ :: (before' ++ rest) := by rw [hsplit, hb, List.cons_append]
    have hg : s₀.kind ≠ .greedy := hbefore s₀ (hb ▸ List.mem_cons_self)
    obtain ⟨x, t, ts, hfa, hx⟩ := exists_filled_eq_cons hp hs₀ hg fun n hn => (hne n hn).1
    obtain ⟨y, u, us, hfb, hy⟩ := exists_filled_eq_cons hp hs₀ hg fun n hn => (hne n hn).2
    have hshown : c.redaction.shown 0 (before.map fun s => (s.fill a).toList) =
        c.redaction.shown 0 (before.map fun s => (s.fill b).toList) := by
      refine shown_map_congr fun s i hsi => ?_
      by_cases hs : s.isLabel = true ∧ sensitive s.content
      · refine Or.inl ((c.marksPath_redaction i).mpr ((hc i).mpr ⟨s.content, hs.2, ?_⟩))
        refine mem_labelIndexes.mpr ⟨s, ?_, hs.1, rfl⟩
        rw [hsplit, List.zipIdx_append]
        exact List.mem_append_left _ hsi
      · refine Or.inr (hsame s ?_ fun hl hsens => hs ⟨hl, hsens⟩)
        exact hsplit ▸ List.mem_append_left rest (List.fst_mem_of_mem_zipIdx hsi)
    rw [redactPath_requestPath hp _ hfa hx, redactPath_requestPath hp _ hfb hy,
      partsOf_append hp hsplit hbefore fun n hn => (hne n hn).1,
      partsOf_append hp hsplit hbefore fun n hn => (hne n hn).2, Redaction.shown_append,
      Redaction.shown_append, hshown, htail, List.length_map, List.length_map]

/-! ## Labels that show -/

/-- The text of `n` parts `x` and a part `c` behind them. -/
def longText (n : Nat) (c : Char) : String :=
  String.ofList (Text.join '/' (List.replicate n ['x'] ++ [[c]]))

theorem pieces_longText (n : Nat) {c : Char} (hc : c ≠ '/') :
    Text.pieces '/' (longText n c).toList = List.replicate n ['x'] ++ [[c]] := by
  unfold longText
  rw [String.toList_ofList, Text.pieces_join '/' (by simp)]
  apply Text.flatMap_pieces_of_not_mem
  intro p hp
  rcases List.mem_append.mp hp with hp | hp
  · rw [List.eq_of_mem_replicate hp]
    decide
  · rw [List.mem_singleton.mp hp, List.mem_singleton]
    exact hc.symm

theorem longText_start (n : Nat) {c : Char} (hc : c ≠ '/') :
    ∃ d u, (longText n c).toList = d :: u ∧ d ≠ '/' := by
  unfold longText
  rw [String.toList_ofList]
  cases n with
  | zero => exact ⟨c, [], rfl, hc⟩
  | succ n =>
    rw [List.replicate_succ, List.cons_append, Text.join_cons _ _ (by simp)]
    exact ⟨'x', _, rfl, by decide⟩

theorem encodeLabel_longText {greedy : Bool} {n : Nat} {c : Char}
    (hc : Percent.isUnreserved c = true) (hn : greedy = true ∨ n = 0) :
    Path.encodeLabel greedy (longText n c) = longText n c := by
  rw [← String.toList_inj, Segment.toList_encodeLabel, Percent.encode_eq_self]
  intro d hd
  unfold longText at hd
  rw [String.toList_ofList] at hd
  rcases hn with rfl | rfl
  · rcases Text.mem_join hd with rfl | ⟨p, hp, hd⟩
    · decide
    · rcases List.mem_append.mp hp with hp | hp
      · rw [List.eq_of_mem_replicate hp, List.mem_singleton] at hd
        rw [hd]
        decide
      · rw [List.mem_singleton.mp hp, List.mem_singleton] at hd
        rw [hd, hc, Bool.true_or]
  · rw [List.replicate_zero, List.nil_append] at hd
    rw [List.mem_singleton.mp hd, hc, Bool.true_or]

/-- Texts for all labels. The one of `greedy` has `n` parts more than the others, and the last
character of the one of `name` is `c`. -/
def leak (n : Nat) (greedy name : String) (c : Char) (label : String) : String :=
  longText (if label = greedy then n else 0) (if label = name then c else 'x')

theorem leak_of_ne {n : Nat} {greedy name label : String} (h : label ≠ name) (c d : Char) :
    leak n greedy name c label = leak n greedy name d label := by
  unfold leak
  rw [if_neg h, if_neg h]

theorem leak_start (n : Nat) (greedy name : String) {c : Char} (hc : c ≠ '/') (label : String) :
    ∃ d u, (leak n greedy name c label).toList = d :: u ∧ d ≠ '/' := by
  unfold leak
  by_cases h : label = name
  · rw [if_pos h]
    exact longText_start _ hc
  · rw [if_neg h]
    exact longText_start _ (by decide)

theorem leak_ne_empty (n : Nat) (greedy name : String) {c : Char} (hc : c ≠ '/') (label : String) :
    leak n greedy name c label ≠ "" := by
  obtain ⟨d, u, h, -⟩ := leak_start n greedy name hc label
  intro he
  rw [he] at h
  exact absurd h (by simp)

/-- Two labels at different places have different names. -/
theorem content_ne_of_mem {p : Pattern} (hp : p.WellFormed) {before after : List Segment}
    {s u : Segment} (hsplit : p.segments = before ++ s :: after) (hs : s.isLabel = true)
    (hu : u ∈ before) (hul : u.isLabel = true) : u.content ≠ s.content := by
  have hnodup := hp.labels
  unfold labels at hnodup
  rw [hsplit, List.filter_append, List.filter_cons_of_pos hs, List.map_append, List.map_cons]
    at hnodup
  exact (List.nodup_append.mp hnodup).2.2 _
    (List.mem_map.mpr ⟨u, List.mem_filter.mpr ⟨hu, hul⟩, rfl⟩) _ List.mem_cons_self

/-- The parts of a path around those of one segment. -/
theorem exists_partsOf_eq {p : Pattern} {before after : List Segment} {s : Segment}
    (hsplit : p.segments = before ++ s :: after) (labels : String → String) :
    ∃ rest, p.partsOf labels =
      (before.map fun s => (s.fill labels).toList).flatMap (Text.pieces '/') ++
        (Text.pieces '/' (s.fill labels).toList ++ rest) := by
  refine ⟨(after.map (fun s : Segment => (s.fill labels).toList) ++
    if p.trailingSlash then [[]] else []).flatMap (Text.pieces '/'), ?_⟩
  unfold partsOf filled
  rw [hsplit, List.map_append, List.map_cons, List.append_assoc, List.flatMap_append,
    List.cons_append, List.flatMap_cons]

theorem map_fill_leak {p : Pattern} (hp : p.WellFormed) {before after : List Segment} {s : Segment}
    (hsplit : p.segments = before ++ s :: after) (hs : s.isLabel = true) (n : Nat)
    (greedy : String) (c d : Char) :
    (before.map fun u => (u.fill (leak n greedy s.content c)).toList) =
      before.map fun u => (u.fill (leak n greedy s.content d)).toList :=
  List.map_congr_left fun u hu => by
    rw [Segment.fill_congr fun hul =>
      leak_of_ne (content_ne_of_mem hp hsplit hs hu hul) c d]

theorem fill_greedy {g : Segment} (hg : g.kind = .greedy) (n : Nat) (name : String) {c : Char}
    (hc : Percent.isUnreserved c = true) :
    g.fill (leak n g.content name c) = longText n (if g.content = name then c else 'x') := by
  have hlast : Percent.isUnreserved (if g.content = name then c else 'x') = true := by
    split
    · exact hc
    · decide
  unfold Segment.fill leak
  rw [hg, if_pos rfl]
  exact encodeLabel_longText hlast (Or.inl rfl)

theorem not_greedy_of_behind {p : Pattern} (hp : p.WellFormed)
    {before between behind : List Segment} {g s : Segment}
    (hsplit : p.segments = before ++ g :: (between ++ s :: behind)) (hg : g.kind = .greedy) :
    s.kind ≠ .greedy := by
  intro hs
  have hlen := hp.greedy
  simp only [hsplit, List.filter_append, List.filter_cons, hg, hs, decide_true, if_true,
    List.length_append, List.length_cons] at hlen
  omega

theorem fill_plain {s : Segment} (hs : s.kind = .label) (n : Nat) {greedy : String}
    (hne : s.content ≠ greedy) {c : Char} (hc : Percent.isUnreserved c = true) :
    s.fill (leak n greedy s.content c) = longText 0 c := by
  unfold Segment.fill leak
  rw [hs, if_neg hne, if_pos rfl]
  exact encodeLabel_longText hc (Or.inr rfl)

theorem kind_eq_label {s : Segment} (hlabel : s.isLabel = true) (hg : s.kind ≠ .greedy) :
    s.kind = .label := by
  unfold Segment.isLabel at hlabel
  cases hk : s.kind with
  | literal =>
    rw [hk] at hlabel
    exact absurd hlabel (by decide)
  | label => rfl
  | greedy => exact absurd hk hg

/-- The path shows the last character of a sensitive label behind at least `n` parts that do not
depend on it. -/
theorem exists_partsOf_leak {p : Pattern} (hp : p.WellFormed) {before after : List Segment}
    {g s : Segment} (hsplit : p.segments = before ++ g :: after) (hg : g.kind = .greedy)
    (hs : s ∈ g :: after) (hlabel : s.isLabel = true) (n : Nat) :
    ∃ shared, n ≤ shared.length ∧ ∀ c, Percent.isUnreserved c = true → c ≠ '/' →
      ∃ rest, p.partsOf (leak n g.content s.content c) = shared ++ [c] :: rest := by
  rcases List.mem_cons.mp hs with rfl | hs
  · -- the label is the greedy one
    refine ⟨(before.map fun u => (u.fill (leak n s.content s.content 'x')).toList).flatMap
      (Text.pieces '/') ++ List.replicate n ['x'], by simp, fun c hc hne => ?_⟩
    obtain ⟨rest, hparts⟩ := exists_partsOf_eq hsplit (leak n s.content s.content c)
    refine ⟨rest, ?_⟩
    rw [hparts, map_fill_leak hp hsplit hlabel n s.content c 'x', fill_greedy hg n s.content hc,
      if_pos rfl, pieces_longText n hne]
    simp
  · -- the label stands behind the greedy one
    obtain ⟨between, behind, rfl⟩ := List.append_of_mem hs
    have hsplit' : p.segments = (before ++ g :: between) ++ s :: behind := by
      rw [hsplit, List.append_assoc, List.cons_append]
    have hgl : g.isLabel = true := by
      unfold Segment.isLabel
      rw [hg]
      rfl
    have hne : g.content ≠ s.content := content_ne_of_mem hp hsplit' hlabel
      (List.mem_append_right before List.mem_cons_self) hgl
    have hs := kind_eq_label hlabel (not_greedy_of_behind hp hsplit hg)
    refine ⟨((before ++ g :: between).map fun u =>
      (u.fill (leak n g.content s.content 'x')).toList).flatMap (Text.pieces '/'), ?_,
      fun c hc hc' => ?_⟩
    · rw [List.map_append, List.map_cons, List.flatMap_append, List.flatMap_cons,
        fill_greedy hg n s.content (by decide), if_neg hne, pieces_longText n (by decide)]
      simp only [List.length_append, List.length_replicate]
      omega
    · obtain ⟨rest, hparts⟩ := exists_partsOf_eq hsplit' (leak n g.content s.content c)
      refine ⟨rest, ?_⟩
      rw [hparts, map_fill_leak hp hsplit' hlabel n g.content c 'x', fill_plain hs n hne.symm hc,
        pieces_longText 0 hc']
      rfl

theorem exists_filled_leak {p : Pattern} (hp : p.WellFormed) {before after : List Segment}
    {g : Segment} (hsplit : p.segments = before ++ g :: after) (hg : g.kind = .greedy) (n : Nat)
    (name : String) {c : Char} (hc : Percent.isUnreserved c = true) (hc' : c ≠ '/') :
    ∃ d t ts, p.filled (leak n g.content name c) = (d :: t) :: ts ∧ d ≠ '/' := by
  cases hb : before with
  | nil =>
    have hlast : (if g.content = name then c else 'x') ≠ '/' := by
      split
      · exact hc'
      · decide
    obtain ⟨d, t, hstart, hd⟩ := longText_start n hlast
    refine ⟨d, t, after.map (fun s => (s.fill (leak n g.content name c)).toList) ++
      if p.trailingSlash then [[]] else [], ?_, hd⟩
    unfold filled
    rw [hsplit, hb, List.nil_append, List.map_cons, fill_greedy hg n name hc, hstart,
      List.cons_append]
  | cons s before' =>
    have hs : p.segments = s :: (before' ++ g :: after) := by rw [hsplit, hb, List.cons_append]
    have hsg : s.kind ≠ .greedy := fun h => by
      have hsplit' : p.segments = [] ++ s :: (before' ++ g :: after) := hs
      exact not_greedy_of_behind hp hsplit' h hg
    exact exists_filled_eq_cons hp hs hsg fun _ _ => leak_ne_empty n _ _ hc' _

/-- No index behind those of the segments is marked. -/
theorem marksPath_behind {p : Pattern} {sensitive : String → Prop} {c : Coverage}
    (hc : c.MarksLabels p sensitive) {i : Nat} (hi : p.segments.length ≤ i) :
    c.redaction.marksPath i = false := by
  rw [Bool.eq_false_iff]
  intro h
  obtain ⟨n, -, hn⟩ := (hc i).mp ((c.marksPath_redaction i).mp h)
  obtain ⟨u, hu, -⟩ := mem_labelIndexes.mp hn
  have hlt := List.snd_lt_of_mem_zipIdx hu
  omega

/-- A sensitive label that is greedy or stands behind the greedy one is not hidden. -/
theorem not_hides_of_behind {p : Pattern} (hp : p.WellFormed) {sensitive : String → Prop}
    {c : Coverage} (hc : c.MarksLabels p sensitive) {before after : List Segment} {g s : Segment}
    (hsplit : p.segments = before ++ g :: after) (hg : g.kind = .greedy) (hs : s ∈ g :: after)
    (hlabel : s.isLabel = true) (hsens : sensitive s.content) :
    ¬ p.Hides sensitive c.redaction := by
  intro hhides
  obtain ⟨shared, hlen, hparts⟩ := exists_partsOf_leak hp hsplit hg hs hlabel p.segments.length
  have hx : Percent.isUnreserved 'x' = true ∧ 'x' ≠ '/' := by decide
  have hy : Percent.isUnreserved 'y' = true ∧ 'y' ≠ '/' := by decide
  obtain ⟨restx, hpartsx⟩ := hparts 'x' hx.1 hx.2
  obtain ⟨resty, hpartsy⟩ := hparts 'y' hy.1 hy.2
  obtain ⟨_, _, _, hfx, hdx⟩ :=
    exists_filled_leak hp hsplit hg p.segments.length s.content hx.1 hx.2
  obtain ⟨_, _, _, hfy, hdy⟩ :=
    exists_filled_leak hp hsplit hg p.segments.length s.content hy.1 hy.2
  have hsame := hhides (leak p.segments.length g.content s.content 'x')
    (leak p.segments.length g.content s.content 'y')
    (fun n _ => ⟨leak_ne_empty _ _ _ hx.2 n, leak_ne_empty _ _ _ hy.2 n⟩)
    (fun n _ hn => leak_of_ne (fun he => hn (by rw [he]; exact hsens)) _ _)
  rw [redactPath_requestPath hp _ hfx hdx, redactPath_requestPath hp _ hfy hdy] at hsame
  have hshown := Redaction.shown_injective (by rw [hpartsx]; simp) (by rw [hpartsy]; simp)
    (fun t ht => slash_not_mem_partsOf ht) (fun t ht => slash_not_mem_partsOf ht) hsame
  -- the index of the first part that differs lies behind all segments
  have hmark := marksPath_behind hc hlen
  rw [hpartsx, hpartsy, Redaction.shown_append, Redaction.shown_append, Redaction.shown_cons,
    Redaction.shown_cons, Nat.zero_add, hmark] at hshown
  have hpart : String.ofList ['x'] = String.ofList ['y'] :=
    (List.cons.inj (List.append_cancel_left hshown)).1
  rw [← String.toList_inj, String.toList_ofList, String.toList_ofList] at hpart
  exact absurd hpart (by decide)

/-! ## When a log hides the sensitive labels -/

/-- A log tells nothing of the sensitive labels if and only if none of them is greedy or stands
behind the greedy label. -/
theorem hides_iff {text : String} {p : Pattern} (h : parse text = .ok p)
    (sensitive : String → Prop) (c : Coverage) (hc : c.MarksLabels p sensitive) :
    p.Hides sensitive c.redaction ↔ p.SensitiveBeforeGreedy sensitive := by
  have hp := wellFormed_of_parse h
  constructor
  · intro hhides before g after hsplit hg s hs hlabel hsens
    exact not_hides_of_behind hp hc hsplit hg hs hlabel hsens hhides
  · exact hides_of_before hp hc

/-- A user before the greedy key is hidden. -/
theorem hides_user_before_key :
    ∃ p c, parse "/a/\x7bUser\x7d/\x7bKey+\x7d" = .ok p ∧
      Coverage.MarksLabels c p (· = "User") ∧ p.Hides (· = "User") c.redaction := by
  have hparse : parse "/a/\x7bUser\x7d/\x7bKey+\x7d" =
      .ok ⟨[⟨.literal, "a"⟩, ⟨.label, "User"⟩, ⟨.greedy, "Key"⟩], false, []⟩ := rfl
  have hmarks : Coverage.MarksLabels ⟨[1], [], false, [], [], [], [], false⟩
      ⟨[⟨.literal, "a"⟩, ⟨.label, "User"⟩, ⟨.greedy, "Key"⟩], false, []⟩ (· = "User") := by
    intro i
    have hindexes : labelIndexes
        ⟨[⟨.literal, "a"⟩, ⟨.label, "User"⟩, ⟨.greedy, "Key"⟩], false, []⟩ =
          [("User", 1), ("Key", 2)] := by decide
    rw [hindexes]
    simp
  refine ⟨_, _, hparse, hmarks, (hides_iff hparse _ _ hmarks).mpr ?_⟩
  intro before g after hsplit hg s hs _ hsens
  rcases before with _ | ⟨_, _ | ⟨_, _ | ⟨_, before⟩⟩⟩
  · cases hsplit
    cases hg
  · cases hsplit
    cases hg
  · cases hsplit
    rw [List.mem_singleton.mp hs] at hsens
    exact absurd hsens (by decide)
  · cases before with
    | nil => cases hsplit
    | cons u us => cases hsplit

/-- A key of two parts shows the second one, although the index of its label is marked. -/
theorem not_hides_greedy_key :
    ∃ p c, parse "/files/\x7bKey+\x7d" = .ok p ∧ Coverage.MarksLabels c p (· = "Key") ∧
      ¬ p.Hides (· = "Key") c.redaction := by
  refine ⟨⟨[⟨.literal, "files"⟩, ⟨.greedy, "Key"⟩], false, []⟩,
    ⟨[1], [], false, [], [], [], [], false⟩, rfl, fun i => ?_, fun h => ?_⟩
  · have hindexes : labelIndexes ⟨[⟨.literal, "files"⟩, ⟨.greedy, "Key"⟩], false, []⟩ =
        [("Key", 1)] := by decide
    rw [hindexes]
    simp
  · have hlabels : labels ⟨[⟨.literal, "files"⟩, ⟨.greedy, "Key"⟩], false, []⟩ = ["Key"] := by
      decide
    have hsame := h (fun _ => "home/alice") (fun _ => "home/bob") (fun _ _ => by decide)
      fun n hn hne => absurd (List.mem_singleton.mp (hlabels ▸ hn)) hne
    have halice : Redaction.redactPath
        (Coverage.redaction ⟨[1], [], false, [], [], [], [], false⟩)
        (requestPath ⟨[⟨.literal, "files"⟩, ⟨.greedy, "Key"⟩], false, []⟩ fun _ => "home/alice") =
          "/files/\x7bredacted\x7d/alice" := by cbv
    have hbob : Redaction.redactPath
        (Coverage.redaction ⟨[1], [], false, [], [], [], [], false⟩)
        (requestPath ⟨[⟨.literal, "files"⟩, ⟨.greedy, "Key"⟩], false, []⟩ fun _ => "home/bob") =
          "/files/\x7bredacted\x7d/bob" := by cbv
    rw [halice, hbob] at hsame
    exact absurd hsame (by decide)

end Pattern

end Wireform
