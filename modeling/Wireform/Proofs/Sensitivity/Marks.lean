import Mathlib.Data.List.Nodup
import Wireform.Proofs.Sensitivity.Walks

/-
  Wireform sensitivity: which members the walks find. Where different nodes have different ids they
  are the members that a sensitive node reaches. A member of the root itself is found whenever it or
  its target is sensitive, if only no other node has its id.
-/

namespace Wireform

open Relation (ReflTransGen)

/-- Whether a member or its target is sensitive. -/
def Model.Marks (model : Model) (m : Member) : Prop :=
  m.traits.has Trait.sensitive = true ∨
    ∃ s, model.target m = .ok s ∧ s.traits.has Trait.sensitive = true

namespace Node

variable {model : Model}

/-- Whether a node counts as sensitive. -/
def Marked (model : Model) : Node → Prop
  | shape s => s.traits.has Trait.sensitive = true
  | member m => model.Marks m

theorem isSensitive_eq_true {n : Node} : n.isSensitive model = .ok true ↔ n.Marked model := by
  cases n with
  | shape s => exact ⟨Except.ok.inj, congrArg Except.ok⟩
  | member m =>
    unfold isSensitive Marked Model.Marks
    dsimp only
    rw [Outcome.mapError_eq_ok]
    unfold Model.isSensitive
    split
    · next h => exact iff_of_true rfl (Or.inl h)
    · next h =>
      rw [Outcome.map_eq_ok]
      exact ⟨Or.inr, fun hm => hm.resolve_left h⟩

/-- Whether a node is reached from a sensitive one that the root reaches. -/
def Exposed (model : Model) (root : Shape) (n : Node) : Prop :=
  ∃ s, Reaches model (.shape root) s ∧ s.Marked model ∧ Reaches model s n

/-- Whether all nodes that the root reaches have different ids. -/
def Distinct (model : Model) (root : Shape) : Prop :=
  ∀ a b, Reaches model (.shape root) a → Reaches model (.shape root) b → a.id = b.id → a = b

/-- Whether the root reaches a node and no other one with its id. -/
def Single (model : Model) (root : Shape) (n : Node) : Prop :=
  ∀ k, Reaches model (.shape root) k ∧ k.id = n.id ↔ k = n

theorem Distinct.of_reaches {root : Shape} {start : Node} (h : Distinct model root)
    (hstart : Reaches model (.shape root) start) {a b : Node} (ha : Reaches model start a)
    (hb : Reaches model start b) (hid : a.id = b.id) : a = b :=
  h a b (hstart.trans ha) (hstart.trans hb) hid

theorem Distinct.single {root : Shape} {n : Node} (h : Distinct model root)
    (hn : Reaches model (.shape root) n) : Single model root n := by
  intro k
  constructor
  · rintro ⟨hk, hid⟩
    exact h k n hk hn hid
  · rintro rfl
    exact ⟨hn, rfl⟩

/-- What a shape reaches that has one member, whose target leads nowhere. -/
theorem mem_of_reaches_loneMember {root t : Shape} {m : Member} {k : Node}
    (hroot : (shape root).next model = .ok [member m])
    (hmember : (member m).next model = .ok [shape t]) (htarget : (shape t).next model = .ok [])
    (h : Reaches model (.shape root) k) : k ∈ [shape root, member m, shape t] := by
  induction h with
  | refl => exact List.mem_cons_self
  | tail _ hstep ih =>
    obtain ⟨ns, hns, hmem⟩ := hstep
    simp only [List.mem_cons, List.not_mem_nil, or_false] at ih
    rcases ih with rfl | rfl | rfl
    · cases hroot.symm.trans hns
      rw [List.mem_singleton.mp hmem]
      exact List.mem_cons_of_mem _ List.mem_cons_self
    · cases hmember.symm.trans hns
      exact List.mem_cons_of_mem _ (List.mem_cons_of_mem _ hmem)
    · cases htarget.symm.trans hns
      exact absurd hmem List.not_mem_nil

/-- Such a shape reaches distinct ids if these three are. -/
theorem distinct_of_loneMember {root t : Shape} {m : Member}
    (hroot : (shape root).next model = .ok [member m])
    (hmember : (member m).next model = .ok [shape t]) (htarget : (shape t).next model = .ok [])
    (hids : [root.id, m.id, t.id].Nodup) : Distinct model root := by
  have hnodup : ([shape root, member m, shape t].map id).Nodup := hids
  intro a b ha hb hid
  exact List.inj_on_of_nodup_map hnodup (mem_of_reaches_loneMember hroot hmember htarget ha)
    (mem_of_reaches_loneMember hroot hmember htarget hb) hid

end Node

namespace Walk

variable {α : Type} {visit : Node → Except AnalysisError (α × List Node)} {model : Model}

/-- The start of a walk is visited itself, not another node with its id. -/
theorem start_mem {start : Node} {out : List (Node × α)}
    (h : walk visit (model.walkFuel start) [] [start] = .ok out) : ∃ r, (start, r) ∈ out := by
  obtain ⟨fuel, hfuel⟩ : ∃ fuel, model.walkFuel start = fuel + 1 :=
    ⟨model.walkFuel start - 1, by unfold Model.walkFuel; dsimp only; omega⟩
  rw [hfuel, walk] at h
  obtain ⟨⟨r, ns⟩, -, h⟩ := Outcome.bind_eq_ok.mp h
  obtain ⟨rest, -, h⟩ := Outcome.bind_eq_ok.mp h
  cases h
  exact ⟨r, List.mem_cons_self⟩

theorem Visits.exists_of_mem {start : Node} {out : List (Node × α)}
    (h : Visits visit [] [start] out) {x : Node × α} (hx : x ∈ out) :
    ReflTransGen (Step visit) start x.1 := by
  obtain ⟨n, hn, hreach⟩ := h.reached x hx
  rw [List.mem_singleton.mp hn] at hreach
  exact hreach

/-- A node that a visited one steps to is visited, or another one with its id is. -/
theorem Visits.exists_id_of_step {stack : List Node} {out : List (Node × α)}
    (h : Visits visit [] stack out) {x : Node × α} (hx : x ∈ out) {n : Node}
    (hn : Step visit x.1 n) : ∃ y ∈ out, y.1.id = n.id := by
  obtain ⟨r, ns, hvisit, hmem⟩ := hn
  obtain ⟨ks, hks, hall⟩ := h.visited x hx
  rw [hvisit] at hks
  cases hks
  exact (hall n hmem).resolve_left List.not_mem_nil

/-- Where ids tell nodes apart, a walk visits exactly what its steps reach. -/
theorem Visits.exists_mem_iff {start : Node} {out : List (Node × α)}
    (h : Visits visit [] [start] out)
    (hids : ∀ a b, ReflTransGen (Step visit) start a → ReflTransGen (Step visit) start b →
      a.id = b.id → a = b) {n : Node} :
    (∃ r, (n, r) ∈ out) ↔ ReflTransGen (Step visit) start n := by
  constructor
  · rintro ⟨r, hr⟩
    exact h.exists_of_mem hr
  · intro hreach
    have hsame : ∀ k, ReflTransGen (Step visit) start k → (∃ y ∈ out, y.1.id = k.id) →
        ∃ r, (k, r) ∈ out := by
      rintro k hk ⟨⟨y, r⟩, hy, hid⟩
      rw [← hids y k (h.exists_of_mem hy) hk hid]
      exact ⟨r, hy⟩
    induction hreach with
    | refl =>
      exact hsame _ .refl
        ((h.stacked start List.mem_cons_self).resolve_left List.not_mem_nil)
    | tail hreach hstep ih =>
      obtain ⟨r, hr⟩ := ih
      exact hsame _ (hreach.tail hstep) (h.exists_id_of_step hr hstep)

end Walk

namespace Sensitivity

variable {model : Model} {root : Shape}

/-! ## All members from a node -/

theorem step_visitAll {a b : Node} : Walk.Step (visitAll model) a b ↔ Node.Leads model a b := by
  constructor
  · rintro ⟨r, ns, h, hb⟩
    obtain ⟨ks, hks, he⟩ := Outcome.map_eq_ok.mp h
    cases he
    exact ⟨ns, hks, hb⟩
  · rintro ⟨ns, h, hb⟩
    exact ⟨(), ns, Outcome.map_eq_ok.mpr ⟨ns, h, rfl⟩, hb⟩

theorem reaches_visitAll {a b : Node} :
    ReflTransGen (Walk.Step (visitAll model)) a b ↔ Node.Reaches model a b := by
  have hstep : Walk.Step (visitAll model) = Node.Leads model :=
    funext fun _ => funext fun _ => propext step_visitAll
  rw [hstep]
  exact Iff.rfl

theorem run_visitAll (model : Model) (start : Node) :
    Walk.Run (visitAll model) [] [start]
      (walk (visitAll model) (model.walkFuel start) [] [start]) := by
  refine Walk.run_walk_start (fun n r ns hok => Or.inr ?_) start
  obtain ⟨ks, hks, he⟩ := Outcome.map_eq_ok.mp hok
  cases he
  exact hks

theorem visits_visitAll {start : Node} {out : List (Node × Unit)}
    (h : walk (visitAll model) (model.walkFuel start) [] [start] = .ok out) :
    Walk.Visits (visitAll model) [] [start] out := by
  have hrun := run_visitAll model start
  rw [h] at hrun
  exact hrun.visits

theorem mem_membersFrom {start : Node} {ids : List String} (h : membersFrom model start = .ok ids) :
    ∃ out, walk (visitAll model) (model.walkFuel start) [] [start] = .ok out ∧
      ∀ id, id ∈ ids ↔ ∃ m : Member, m.id = id ∧ (.member m, ()) ∈ out := by
  obtain ⟨out, hwalk, h⟩ := Outcome.bind_eq_ok.mp h
  cases h
  refine ⟨out, hwalk, fun id => ?_⟩
  rw [List.mem_map]
  constructor
  · rintro ⟨⟨n, r⟩, hn, rfl⟩
    obtain ⟨hn, hmember⟩ := List.mem_filter.mp hn
    cases n with
    | shape s => cases hmember
    | member m => exact ⟨m, rfl, hn⟩
  · rintro ⟨m, rfl, hm⟩
    exact ⟨(.member m, ()), List.mem_filter.mpr ⟨hm, rfl⟩, rfl⟩

theorem mem_membersFrom_of_distinct {start : Node} {ids : List String}
    (hids : ∀ a b, Node.Reaches model start a → Node.Reaches model start b → a.id = b.id → a = b)
    (h : membersFrom model start = .ok ids) (id : String) :
    id ∈ ids ↔ ∃ m : Member, m.id = id ∧ Node.Reaches model start (.member m) := by
  obtain ⟨out, hwalk, hmem⟩ := mem_membersFrom h
  have hvisits := visits_visitAll hwalk
  rw [hmem]
  refine exists_congr fun m => and_congr_right fun _ => ?_
  rw [← reaches_visitAll, ← hvisits.exists_mem_iff fun a b ha hb hid =>
    hids a b (reaches_visitAll.mp ha) (reaches_visitAll.mp hb) hid]
  exact ⟨fun h => ⟨(), h⟩, fun ⟨_, h⟩ => h⟩

theorem self_mem_membersFrom {m : Member} {ids : List String}
    (h : membersFrom model (.member m) = .ok ids) : m.id ∈ ids := by
  obtain ⟨out, hwalk, hmem⟩ := mem_membersFrom h
  obtain ⟨_, hr⟩ := Walk.start_mem hwalk
  exact (hmem _).mpr ⟨m, rfl, hr⟩

theorem mem_membersFrom_of_single {m : Member} (hsingle : Node.Single model root (.member m))
    (hleads : Node.Leads model (.shape root) (.member m)) {ids : List String}
    (h : membersFrom model (.shape root) = .ok ids) : m.id ∈ ids := by
  obtain ⟨out, hwalk, hmem⟩ := mem_membersFrom h
  have hvisits := visits_visitAll hwalk
  obtain ⟨_, hr⟩ := Walk.start_mem hwalk
  obtain ⟨y, hy, hid⟩ := hvisits.exists_id_of_step hr (step_visitAll.mpr hleads)
  have hsame := (hsingle y.1).mp ⟨reaches_visitAll.mp (hvisits.exists_of_mem hy), hid⟩
  exact (hmem _).mpr ⟨m, rfl, hsame ▸ hy⟩

/-! ## The topmost sensitive nodes -/

theorem visitTop_eq_ok {n : Node} {r : Bool} {ns : List Node} (h : visitTop model n = .ok (r, ns)) :
    n.isSensitive model = .ok r ∧ (r = true ∧ ns = [] ∨ r = false ∧ n.next model = .ok ns) := by
  obtain ⟨marked, hmarked, h⟩ := Outcome.bind_eq_ok.mp h
  cases marked with
  | true =>
    cases h
    exact ⟨hmarked, Or.inl ⟨rfl, rfl⟩⟩
  | false =>
    obtain ⟨ks, hks, h⟩ := Outcome.bind_eq_ok.mp h
    cases h
    exact ⟨hmarked, Or.inr ⟨rfl, hks⟩⟩

theorem leads_of_step_visitTop {a b : Node} (h : Walk.Step (visitTop model) a b) :
    Node.Leads model a b := by
  obtain ⟨r, ns, hvisit, hb⟩ := h
  rcases (visitTop_eq_ok hvisit).2 with ⟨-, rfl⟩ | ⟨-, hnext⟩
  · exact absurd hb List.not_mem_nil
  · exact ⟨ns, hnext, hb⟩

theorem reaches_of_visitTop {a b : Node} (h : ReflTransGen (Walk.Step (visitTop model)) a b) :
    Node.Reaches model a b :=
  ReflTransGen.mono (fun _ _ => leads_of_step_visitTop) a b h

theorem run_visitTop (model : Model) (root : Shape) :
    Walk.Run (visitTop model) [] [.shape root]
      (walk (visitTop model) (model.walkFuel (.shape root)) [] [.shape root]) := by
  refine Walk.run_walk_start (fun n r ns hok => ?_) _
  rcases (visitTop_eq_ok hok).2 with ⟨-, hns⟩ | ⟨-, hnext⟩
  · exact Or.inl hns
  · exact Or.inr hnext

theorem visits_visitTop {out : List (Node × Bool)}
    (h : walk (visitTop model) (model.walkFuel (.shape root)) [] [.shape root] = .ok out) :
    Walk.Visits (visitTop model) [] [.shape root] out := by
  have hrun := run_visitTop model root
  rw [h] at hrun
  exact hrun.visits

theorem mem_topmost {tops : List Node} (h : topmost model root = .ok tops) :
    ∃ out, walk (visitTop model) (model.walkFuel (.shape root)) [] [.shape root] = .ok out ∧
      ∀ n, n ∈ tops ↔ (n, true) ∈ out := by
  obtain ⟨out, hwalk, h⟩ := Outcome.bind_eq_ok.mp h
  cases h
  refine ⟨out, hwalk, fun n => ?_⟩
  rw [List.mem_map]
  constructor
  · rintro ⟨⟨k, r⟩, hk, rfl⟩
    obtain ⟨hk, hr⟩ := List.mem_filter.mp hk
    cases hr
    exact hk
  · exact fun hn => ⟨(n, true), List.mem_filter.mpr ⟨hn, rfl⟩, rfl⟩

theorem exposed_of_mem_topmost {tops : List Node} (h : topmost model root = .ok tops) {t : Node}
    (ht : t ∈ tops) :
    Node.Reaches model (.shape root) t ∧ t.Marked model := by
  obtain ⟨out, hwalk, hmem⟩ := mem_topmost h
  have hvisits := visits_visitTop hwalk
  have hout := (hmem t).mp ht
  obtain ⟨ns, hns, -⟩ := hvisits.visited _ hout
  exact ⟨reaches_of_visitTop (hvisits.exists_of_mem hout),
    Node.isSensitive_eq_true.mp (visitTop_eq_ok hns).1⟩

/-- Nothing is lost by stopping at sensitive nodes: what is not visited is reached from one of
them. -/
theorem visited_or_below {out : List (Node × Bool)}
    (hwalk : walk (visitTop model) (model.walkFuel (.shape root)) [] [.shape root] = .ok out)
    (hids : Node.Distinct model root) {n : Node} (hn : Node.Reaches model (.shape root) n) :
    (∃ r, (n, r) ∈ out) ∨ ∃ t, (t, true) ∈ out ∧ Node.Reaches model t n := by
  have hvisits := visits_visitTop hwalk
  have hiff : ∀ k, (∃ r, (k, r) ∈ out) ↔
      ReflTransGen (Walk.Step (visitTop model)) (.shape root) k := fun _ =>
    hvisits.exists_mem_iff fun a b ha hb hid =>
      hids a b (reaches_of_visitTop ha) (reaches_of_visitTop hb) hid
  induction hn with
  | refl => exact Or.inl ((hiff _).mpr .refl)
  | @tail b c _ hbc ih =>
    rcases ih with ⟨r, hr⟩ | ⟨t, ht, hreach⟩
    · obtain ⟨ns, hvisit, -⟩ := hvisits.visited _ hr
      obtain ⟨ks, hks, hc⟩ := hbc
      rcases (visitTop_eq_ok hvisit).2 with ⟨rfl, -⟩ | ⟨-, hnext⟩
      · exact Or.inr ⟨b, hr, .single ⟨ks, hks, hc⟩⟩
      · rw [hnext] at hks
        cases hks
        exact Or.inl ((hiff c).mpr (((hiff b).mp ⟨r, hr⟩).tail ⟨r, ns, hvisit, hc⟩))
    · exact Or.inr ⟨t, ht, hreach.tail hbc⟩

/-! ## Sensitive members -/

theorem mem_memberIds {ids : List String} (h : memberIds model root = .ok ids) :
    ∃ tops, topmost model root = .ok tops ∧
      (∀ t ∈ tops, ∃ below, membersFrom model t = .ok below ∧ ∀ id ∈ below, id ∈ ids) ∧
      ∀ id ∈ ids, ∃ t ∈ tops, ∃ below, membersFrom model t = .ok below ∧ id ∈ below := by
  obtain ⟨tops, htops, h⟩ := Outcome.bind_eq_ok.mp h
  obtain ⟨lists, hlists, h⟩ := Outcome.bind_eq_ok.mp h
  cases h
  rw [Outcome.mapM_eq_ok] at hlists
  refine ⟨tops, htops, fun t ht => ?_, fun id hid => ?_⟩
  · obtain ⟨below, hbelow, hok⟩ := Outcome.exists_of_mem_forall₂ hlists.flip ht
    exact ⟨below, hok, fun id hid => List.mem_flatten.mpr ⟨below, hbelow, hid⟩⟩
  · obtain ⟨below, hbelow, hid⟩ := List.mem_flatten.mp hid
    obtain ⟨t, ht, hok⟩ := Outcome.exists_of_mem_forall₂ hlists hbelow
    exact ⟨t, ht, below, hok, hid⟩

/-- Where ids tell nodes apart, the ids are those of the exposed members. -/
theorem mem_memberIds_of_distinct (hids : Node.Distinct model root) {ids : List String}
    (h : memberIds model root = .ok ids) (id : String) :
    id ∈ ids ↔ ∃ m : Member, m.id = id ∧ Node.Exposed model root (.member m) := by
  obtain ⟨tops, htops, hbelow, habove⟩ := mem_memberIds h
  constructor
  · intro hid
    obtain ⟨t, ht, below, hok, hid⟩ := habove id hid
    obtain ⟨hreach, hmarked⟩ := exposed_of_mem_topmost htops ht
    obtain ⟨m, hm, hmreach⟩ :=
      (mem_membersFrom_of_distinct (fun a b => hids.of_reaches hreach) hok id).mp hid
    exact ⟨m, hm, t, hreach, hmarked, hmreach⟩
  · rintro ⟨m, rfl, s, hs, hmarked, hm⟩
    obtain ⟨out, hwalk, hmem⟩ := mem_topmost htops
    -- the member is below one of the topmost nodes, whether the walk came to `s` or not
    obtain ⟨t, ht, hreach⟩ : ∃ t ∈ tops, Node.Reaches model t (.member m) := by
      rcases visited_or_below hwalk hids hs with ⟨r, hr⟩ | ⟨t, ht, hts⟩
      · obtain ⟨ns, hvisit, -⟩ := (visits_visitTop hwalk).visited _ hr
        have hr' := (visitTop_eq_ok hvisit).1
        rw [Node.isSensitive_eq_true.mpr hmarked] at hr'
        cases hr'
        exact ⟨s, (hmem s).mpr hr, hm⟩
      · exact ⟨t, (hmem t).mpr ht, hts.trans hm⟩
    obtain ⟨below, hok, hsub⟩ := hbelow t ht
    have hroot := (exposed_of_mem_topmost htops ht).1
    have hiff := mem_membersFrom_of_distinct (fun a b => hids.of_reaches hroot) hok m.id
    exact hsub _ (hiff.mpr ⟨m, rfl, hreach⟩)

/-- A root that leads to some member leads to each of its members. -/
theorem leads_of_reaches {k m : Member} (hm : m ∈ root.members)
    (hk : Node.Reaches model (.shape root) (.member k)) :
    Node.Leads model (.shape root) (.member m) := by
  rcases hk.cases_head with h | ⟨c, ⟨ns, hns, hc⟩, -⟩
  · cases h
  · refine ⟨ns, hns, ?_⟩
    unfold Node.next at hns
    cases hns
    split
    · next hkind =>
      rw [if_pos hkind] at hc
      exact absurd hc List.not_mem_nil
    · exact List.mem_map.mpr ⟨m, hm, rfl⟩

/-- A sensitive member of the root is found if it is the only node with its id. -/
theorem mem_memberIds_of_single {m : Member} (hm : m ∈ root.members)
    (hsingle : Node.Single model root (.member m))
    (hmarked : (Node.member m).Marked model) {ids : List String}
    (h : memberIds model root = .ok ids) : m.id ∈ ids := by
  obtain ⟨tops, htops, hbelow, -⟩ := mem_memberIds h
  obtain ⟨out, hwalk, hmem⟩ := mem_topmost htops
  have hvisits := visits_visitTop hwalk
  have hleads := leads_of_reaches hm ((hsingle _).mpr rfl).1
  obtain ⟨r, hr⟩ := Walk.start_mem hwalk
  obtain ⟨ns, hvisit, -⟩ := hvisits.visited _ hr
  rcases (visitTop_eq_ok hvisit).2 with ⟨rfl, -⟩ | ⟨rfl, hns⟩
  · -- the root is sensitive, and the second walk goes on from it
    obtain ⟨below, hok, hsub⟩ := hbelow _ ((hmem _).mpr hr)
    exact hsub _ (mem_membersFrom_of_single hsingle hleads hok)
  · -- the first walk comes to the member and stops there
    obtain ⟨ks, hks, hmks⟩ := hleads
    rw [hns] at hks
    cases hks
    obtain ⟨⟨y, marked⟩, hy, hid⟩ := hvisits.exists_id_of_step hr ⟨false, ns, hvisit, hmks⟩
    have hsame := (hsingle y).mp ⟨reaches_of_visitTop (hvisits.exists_of_mem hy), hid⟩
    subst hsame
    obtain ⟨ks, hks, -⟩ := hvisits.visited _ hy
    have hmarked' := (visitTop_eq_ok hks).1
    rw [Node.isSensitive_eq_true.mpr hmarked] at hmarked'
    cases hmarked'
    obtain ⟨below, hok, hsub⟩ := hbelow _ ((hmem _).mpr hy)
    exact hsub _ (self_mem_membersFrom hok)

/-- Where ids tell nodes apart, a member of the root is found exactly if it is exposed. -/
theorem mem_memberIds_iff_exposed (hids : Node.Distinct model root) {m : Member}
    (hm : m ∈ root.members) {ids : List String} (h : memberIds model root = .ok ids) :
    m.id ∈ ids ↔ Node.Exposed model root (.member m) := by
  rw [mem_memberIds_of_distinct hids h]
  constructor
  · rintro ⟨k, hid, s, hs, hmarked, hk⟩
    have hleads := leads_of_reaches hm (hs.trans hk)
    rw [← hids (.member k) (.member m) (hs.trans hk) (.single hleads) hid]
    exact ⟨s, hs, hmarked, hk⟩
  · exact fun hexposed => ⟨m, rfl, hexposed⟩

end Sensitivity

end Wireform
