import Wireform.Proofs.Binding.Formats

/-
  Wireform formats: which trait gives a timestamp its format. The traits of the bound member and of
  its target are asked, and those of the elements of a list; but a map is asked for its own traits
  only, and not for those of its values.
-/

namespace Wireform.Format

variable {model : Model} {p : Protocol} {l : Location} {m n v : Member} {t : Shape}
  {d f : TimestampFormat} {nodes nodes' : List Traits}

/-! ## From a member to its timestamp -/

/-- The traits on the way from a member to the timestamp that it carries: its own and those of its
target, and from a list, a set or a map those of its elements or values. -/
inductive Carries (model : Model) : Member → List Traits → Prop
  | itself {m : Member} {t : Shape} (ht : model.targetOf m = .ok t) (hkind : t.kind = .timestamp) :
      Carries model m [m.traits, t.traits]
  | inside {m : Member} {t : Shape} {nodes : List Traits} (ht : model.targetOf m = .ok t)
      (hkind : t.kind.isCollection = true ∨ t.kind = .map) (h : Carries model t.element nodes) :
      Carries model m (m.traits :: t.traits :: nodes)

/-- There is one way only. -/
theorem Carries.unique (h : Carries model m nodes) (h' : Carries model m nodes') :
    nodes' = nodes := by
  induction h generalizing nodes' with
  | @itself m t ht hkind =>
    cases h' with
    | itself ht' => rw [Except.ok.inj (ht.symm.trans ht')]
    | inside ht' hkind' =>
      rw [← Except.ok.inj (ht.symm.trans ht'), hkind] at hkind'
      exact absurd hkind' (by decide)
  | @inside m t nodes ht hkind _ ih =>
    cases h' with
    | itself ht' hkind' =>
      rw [Except.ok.inj (ht.symm.trans ht'), hkind'] at hkind
      exact absurd hkind (by decide)
    | inside ht' hkind' h' =>
      obtain rfl := Except.ok.inj (ht.symm.trans ht')
      rw [ih h']

/-- The format that the first trait on a way asks for, or else the default. -/
inductive Asks (d : TimestampFormat) : List Traits → TimestampFormat → Prop
  | unasked : Asks d [] d
  | here {n : Traits} {nodes : List Traits} {j : Json} {f : TimestampFormat}
      (hj : formatTrait? n = some j) (hf : formatOf j = .ok f) : Asks d (n :: nodes) f
  | later {n : Traits} {nodes : List Traits} {f : TimestampFormat} (hn : formatTrait? n = none)
      (h : Asks d nodes f) : Asks d (n :: nodes) f

theorem asks_cons_of_none {n : Traits} (hn : formatTrait? n = none) :
    Asks d (n :: nodes) f ↔ Asks d nodes f := by
  refine ⟨fun h => ?_, .later hn⟩
  cases h with
  | here hj => rw [hn] at hj; cases hj
  | later _ h => exact h

theorem asks_cons_of_some {n : Traits} {j : Json} (hn : formatTrait? n = some j) :
    Asks d (n :: nodes) f ↔ formatOf j = .ok f := by
  refine ⟨fun h => ?_, .here hn⟩
  cases h with
  | here hj hf => rw [hn] at hj; cases hj; exact hf
  | later hnone => rw [hn] at hnone; cases hnone

theorem asks_nil : Asks d [] f ↔ f = d := by
  constructor
  · intro h
    cases h
    rfl
  · rintro rfl
    exact .unasked

theorem asks_of_findSome? (nodes : List Traits) : Asks d nodes f ↔
    match nodes.findSome? formatTrait? with
    | some j => formatOf j = .ok f
    | none => f = d := by
  induction nodes with
  | nil => exact asks_nil
  | cons n nodes ih =>
    rw [List.findSome?_cons]
    cases hn : formatTrait? n with
    | some j => exact asks_cons_of_some hn
    | none => exact (asks_cons_of_none hn).trans ih

/-- A trait on the first part of a way leaves the rest without a say; without one the rest
decides. -/
theorem asks_append (nodes rest : List Traits) :
    Asks d (nodes ++ rest) f ↔
      if ∃ n ∈ nodes, formatTrait? n ≠ none then Asks d nodes f else Asks d rest f := by
  induction nodes with
  | nil => simp
  | cons n nodes ih =>
    rw [List.cons_append]
    cases hn : formatTrait? n with
    | some j =>
      have hasked : ∃ k ∈ n :: nodes, formatTrait? k ≠ none :=
        ⟨n, List.mem_cons_self, by rw [hn]; exact Option.some_ne_none j⟩
      rw [if_pos hasked, asks_cons_of_some hn, asks_cons_of_some hn]
    | none =>
      rw [asks_cons_of_none hn, ih, asks_cons_of_none hn]
      simp [hn]

/-- What the first part of a way asks for holds of the whole way if it is asked for there, or if the
rest asks for the default. -/
theorem asks_append_iff {own rest : List Traits} (h : Asks d own f) : Asks d (own ++ rest) f ↔
    (∃ n ∈ own, formatTrait? n ≠ none) ∨ Asks d rest d := by
  rw [asks_append]
  by_cases hasked : ∃ n ∈ own, formatTrait? n ≠ none
  · rw [if_pos hasked]
    exact iff_of_true h (.inl hasked)
  · have hdefault : f = d := by
      rw [← List.append_nil own, asks_append, if_neg hasked] at h
      exact asks_nil.mp h
    rw [if_neg hasked, hdefault]
    exact (or_iff_right hasked).symm

theorem timestampAt_eq_ok (hsources : formatSources model m = .ok nodes) :
    timestampAt model p l m = .ok f ↔ Asks (defaultAt p l) nodes f := by
  rw [asks_of_findSome?]
  unfold timestampAt
  rw [hsources]
  show (match nodes.findSome? formatTrait? with
    | some j => formatOf j
    | none => pure (defaultAt p l)) = .ok f ↔ _
  cases nodes.findSome? formatTrait? with
  | some j => exact Iff.rfl
  | none => exact ⟨fun h => (Except.ok.inj h).symm, fun h => by rw [h]; rfl⟩

/-! ## What is asked -/

/-- The format where no trait asks for one: that of headers, or that of the rest of a request. -/
def textDefault (l : Location) : TimestampFormat := if l.isHeader then .httpDate else .dateTime

/-- The protocol does not matter where values are text. -/
theorem defaultAt_eq_textDefault (hl : l.isText = true) : defaultAt p l = textDefault l := by
  unfold defaultAt textDefault
  split
  · rfl
  · next hheader =>
    rw [Location.isText, Bool.or_eq_true] at hl
    rw [if_pos (hl.resolve_left hheader)]

/-- Below the value at a location, the traits that are asked are all those on the way. -/
theorem carries_of_elementOf {collection : Bool}
    (h : elementOf model l m = .ok (n, t, collection)) (hkind : t.kind = .timestamp) :
    ∃ v nodes, valueMember model l m = .ok v ∧ formatSources model v = .ok nodes ∧
      Carries model v nodes := by
  obtain ⟨v, hv, h⟩ := Outcome.bind_eq_ok.mp h
  obtain ⟨target, htarget, h⟩ := Outcome.bind_eq_ok.mp h
  refine ⟨v, ?_⟩
  split at h
  · next hone =>
    cases h
    refine ⟨[n.traits, t.traits], hv, ?_, .itself htarget hkind⟩
    unfold formatSources
    rw [htarget]
    show (if t.kind.isCollection = true then _ else _) = _
    rw [hkind]
    rfl
  · next hmany =>
    rw [Bool.not_eq_true, Bool.not_eq_false'] at hmany
    obtain ⟨element, helement, h⟩ := Outcome.bind_eq_ok.mp h
    split at h
    · cases h
    cases h
    refine ⟨[v.traits, target.traits, target.element.traits, t.traits], hv, ?_,
      .inside htarget (.inl hmany) (.itself helement hkind)⟩
    unfold formatSources
    rw [htarget]
    show (if target.kind.isCollection = true then _ else _) = _
    rw [if_pos hmany, helement]
    rfl

/-- Of a map, the traits that are asked are its own, and not those of its values. -/
theorem carries_of_map (hl : l.isMap = true) (hv : valueMember model l m = .ok v)
    (h : Carries model v nodes) : ∃ own : List Traits, own.length = 2 ∧
      formatSources model m = .ok own ∧ Carries model m (own ++ nodes) := by
  unfold valueMember at hv
  rw [if_pos hl] at hv
  obtain ⟨target, htarget, hv⟩ := Outcome.bind_eq_ok.mp hv
  split at hv
  · cases hv
  · next hkind =>
    rw [not_not] at hkind
    cases hv
    refine ⟨[m.traits, target.traits], rfl, ?_, .inside htarget (.inr hkind) h⟩
    unfold formatSources
    rw [htarget]
    show (if target.kind.isCollection = true then _ else _) = _
    rw [hkind]
    rfl

/-- A timestamp that is written as text has the format that the first trait on the way to it asks
for, or else that of the location. Behind a map there is an exception: if neither the member nor the
map has a trait, then those of its values are not heard, and the format of the location stands. -/
theorem timestamp_resolved {r : Format} (h : rule model p l m = .ok r)
    (hf : r.transform = .timestamp f) : ∃ nodes, Carries model m nodes ∧
      (∀ nodes', Carries model m nodes' → nodes' = nodes) ∧
      (l.isMap = true → Asks (textDefault l) (nodes.take 2) f) ∧
      (Asks (textDefault l) nodes f ↔ l.isMap = false ∨
        (∃ n ∈ nodes.take 2, formatTrait? n ≠ none) ∨
        Asks (textDefault l) (nodes.drop 2) (textDefault l)) := by
  obtain ⟨n, hruled⟩ := ruled_of_rule h
  have hbecomes := becomes_of_transformOf hruled.transform
  rw [hf] at hbecomes
  generalize r.media = media at hbecomes
  cases hbecomes with
  | timestamp hkind hat =>
  obtain ⟨v, values, hv, hsources, hcarries⟩ := carries_of_elementOf hruled.element hkind
  rw [← defaultAt_eq_textDefault (p := p) hruled.text]
  by_cases hmap : l.isMap = true
  · obtain ⟨own, hlength, hown, hall⟩ := carries_of_map hmap hv hcarries
    have hasks := (timestampAt_eq_ok hown).mp hat
    refine ⟨own ++ values, hall, fun _ h' => hall.unique h', ?_, ?_⟩
    · rw [← hlength, List.take_left]
      exact fun _ => hasks
    · rw [← hlength, List.take_left, List.drop_left, asks_append_iff hasks]
      simp only [hmap, Bool.true_eq_false, false_or]
  · have hsame : m = v := by
      unfold valueMember at hv
      rw [if_neg hmap] at hv
      exact Except.ok.inj hv
    subst hsame
    have hasks := (timestampAt_eq_ok hsources).mp hat
    refine ⟨values, hcarries, fun _ h' => hcarries.unique h', fun h' => absurd h' hmap, ?_⟩
    exact iff_of_true hasks (.inl (Bool.not_eq_true _ ▸ hmap))

/-! ## Maps of timestamps -/

/-- A member whose target is a map of timestamps. -/
def sampleTimes : Member := ⟨"times", "ns#Times", "ns#In", []⟩

/-- A map of lists of timestamps. -/
def sampleMap (asked : Traits) : Shape :=
  ⟨"ns#Times", .map, asked, [⟨"key", "smithy.api#String", "ns#Times", []⟩,
    ⟨"value", "ns#Stamps", "ns#Times", []⟩], none, none, [], []⟩

/-- A list of timestamps that asks for seconds. -/
def sampleStamps : Shape :=
  ⟨"ns#Stamps", .list, [], [⟨"member", "smithy.api#Timestamp", "ns#Stamps",
    [(Trait.timestampFormat, .text "epoch-seconds")]⟩], none, none, [], []⟩

def sampleTimesModel (asked : Traits) : Model :=
  ⟨[.bare "smithy.api#String" .string, .bare "smithy.api#Timestamp" .timestamp, sampleMap asked,
    sampleStamps]⟩

/-- The traits on the way from the member to its timestamps. -/
def sampleNodes (asked : Traits) : List Traits :=
  [[], asked, [], [], [(Trait.timestampFormat, .text "epoch-seconds")], []]

theorem carries_sampleTimes (asked : Traits) :
    Carries (sampleTimesModel asked) sampleTimes (sampleNodes asked) := by
  have hstamp : Carries (sampleTimesModel asked) sampleStamps.element
      [[(Trait.timestampFormat, .text "epoch-seconds")], []] :=
    .itself (t := .bare "smithy.api#Timestamp" .timestamp) rfl rfl
  have hlist : Carries (sampleTimesModel asked) (sampleMap asked).element
      ([] :: [] :: _) := .inside (t := sampleStamps) rfl (.inl rfl) hstamp
  exact .inside (t := sampleMap asked) rfl (.inr rfl) hlist

/-- The map asks for a format of its own. -/
def sampleAsked : Traits := [(Trait.timestampFormat, .text "http-date")]

/-- The trait of a map stands before those of its values. -/
theorem map_trait_resolved :
    (∃ r, rule (sampleTimesModel sampleAsked) (.rest "restJson1" .epochSeconds) .queryParams
        sampleTimes = .ok r ∧ r.transform = .timestamp .httpDate) ∧
      Asks (textDefault .queryParams) (sampleNodes sampleAsked) .httpDate := by
  obtain ⟨r, hr, htransform⟩ : ∃ r, rule (sampleTimesModel sampleAsked)
      (.rest "restJson1" .epochSeconds) .queryParams sampleTimes = .ok r ∧
      r.transform = .timestamp .httpDate := ⟨_, rfl, rfl⟩
  obtain ⟨nodes, -, hunique, -, hasks⟩ := timestamp_resolved hr htransform
  refine ⟨⟨r, hr, htransform⟩, ?_⟩
  rw [hunique _ (carries_sampleTimes sampleAsked), hasks,
    ← hunique _ (carries_sampleTimes sampleAsked)]
  exact .inr (.inl ⟨sampleAsked, by simp [sampleNodes], by decide⟩)

/-- The traits of the values of a map are not heard: in a query such timestamps are written as
dates, while their list asks for seconds. -/
theorem not_every_timestamp_resolved :
    ¬ ∀ (model : Model) (p : Protocol) (l : Location) (m : Member) (r : Format)
      (f : TimestampFormat), rule model p l m = .ok r → r.transform = .timestamp f →
      ∃ nodes, Carries model m nodes ∧ Asks (textDefault l) nodes f := by
  intro h
  obtain ⟨nodes, hcarries, hasks⟩ := h (sampleTimesModel []) (.rest "restJson1" .epochSeconds)
    .queryParams sampleTimes _ .dateTime rfl rfl
  obtain rfl := (carries_sampleTimes []).unique hcarries
  have hheard : formatOf (.text "epoch-seconds") = .ok .dateTime := by
    rwa [sampleNodes, asks_cons_of_none rfl, asks_cons_of_none rfl, asks_cons_of_none rfl,
      asks_cons_of_none rfl, asks_cons_of_some rfl] at hasks
  cases hheard

end Wireform.Format
