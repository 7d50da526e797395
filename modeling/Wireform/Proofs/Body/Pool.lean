import Wireform.Body.Pool

/-
  Wireform body pools: what each operation does to the bodies and to the streams. A stream loses
  what is delivered of it and nothing else (`chunks_read`, `chunks_next`); a body is left as it is,
  becomes consumed or is emptied (`altered_read`, `altered_next`, `body_take`).
-/

namespace Wireform.Pool

variable {p : Pool}

/-! ## Places -/

@[simp] theorem source_setBody (i : Nat) (b : Body Nat) (s : Nat) :
    (p.setBody i b).source s = p.source s := rfl

@[simp] theorem body_setSource (s : Nat) (x : Source) (i : Nat) :
    (p.setSource s x).body i = p.body i := rfl

@[simp] theorem bodies_setSource (s : Nat) (x : Source) :
    (p.setSource s x).bodies = p.bodies := rfl

@[simp] theorem length_bodies_setBody (i : Nat) (b : Body Nat) :
    (p.setBody i b).bodies.length = p.bodies.length := by
  simp [setBody]

theorem body_setBody_self {i : Nat} (h : i < p.bodies.length) (b : Body Nat) :
    (p.setBody i b).body i = b := by
  simp [setBody, body, h]

/-- A body that is put in a place changes no other. -/
theorem body_setBody (i : Nat) (b : Body Nat) (j : Nat) :
    (p.setBody i b).body j = p.body j ∨ (j = i ∧ (p.setBody i b).body j = b) := by
  by_cases hij : i = j
  · subst hij
    by_cases hi : i < p.bodies.length
    · exact .inr ⟨rfl, body_setBody_self hi b⟩
    · exact .inl (by simp [setBody, body, hi])
  · exact .inl (by simp [setBody, body, List.getElem?_set_ne hij])

/-- What stands in a place after one more has come: what stood there, or at the end the new one. -/
theorem getD_concat {α : Type} (l : List α) (a d : α) (i : Nat) :
    ((l ++ [a])[i]?).getD d = (l[i]?).getD d ∨
      (i = l.length ∧ ((l ++ [a])[i]?).getD d = a) := by
  obtain hlt | heq | hgt := Nat.lt_trichotomy i l.length
  · exact .inl (by rw [List.getElem?_append_left hlt])
  · subst heq
    exact .inr (by simp)
  · have hnone : l[i]? = none := List.getElem?_eq_none (Nat.le_of_lt hgt)
    have hnone' : (l ++ [a])[i]? = none := List.getElem?_eq_none (by simp; omega)
    exact .inl (by rw [hnone, hnone'])

theorem body_addBody (b : Body Nat) (i : Nat) :
    (p.addBody b).2.body i = p.body i ∨ (i = p.bodies.length ∧ (p.addBody b).2.body i = b) :=
  getD_concat p.bodies b (.ofBytes []) i

theorem body_addBody_self (b : Body Nat) : (p.addBody b).2.body p.bodies.length = b := by
  simp [addBody, body]

theorem length_bodies_addBody (b : Body Nat) :
    (p.addBody b).2.bodies.length = p.bodies.length + 1 := by
  simp [addBody]

theorem length_bodies_take (i : Nat) : (p.take i).2.bodies.length = p.bodies.length + 1 := by
  show (((p.setBody i _).addBody _).2).bodies.length = _
  rw [length_bodies_addBody, length_bodies_setBody]

theorem lt_of_stream {i s : Nat} (h : (p.body i).content = .stream s) : i < p.bodies.length := by
  apply Nat.lt_of_not_le
  intro hle
  simp [body, List.getElem?_eq_none hle, Body.ofBytes] at h

/-- A stream is put in the place of one with the same chunks after some that are gone. -/
theorem chunks_setSource {s : Nat} {x : Source} {cs : List Bytes}
    (h : (p.source s).chunks = cs ++ x.chunks) (t : Nat) :
    (p.source t).chunks = (if s = t then cs else []) ++ ((p.setSource s x).source t).chunks := by
  by_cases hst : s = t
  · subst hst
    by_cases hs : s < p.sources.length
    · simp [setSource, source, hs] at h ⊢
      exact h
    · have hnone : p.sources[s]? = none := List.getElem?_eq_none (Nat.le_of_not_lt hs)
      have hempty : (p.source s).chunks = [] := by simp [source, hnone, Source.empty]
      have hcs : cs = [] := (List.append_eq_nil_iff.mp (h.symm.trans hempty)).1
      simp [hcs, setSource, source, hs]
  · simp [setSource, source, List.getElem?_set_ne hst, hst]

theorem rewinds_setSource {s : Nat} {x : Source} (h : x.rewinds = (p.source s).rewinds) (t : Nat) :
    ((p.setSource s x).source t).rewinds = (p.source t).rewinds := by
  by_cases hst : s = t
  · subst hst
    by_cases hs : s < p.sources.length
    · simp [setSource, source, hs] at h ⊢
      exact h
    · simp [setSource, source, hs]
  · simp [setSource, source, List.getElem?_set_ne hst]

/-! ## The operations by the body they meet -/

theorem read_of_memory {i : Nat} {x : Bytes} (h : (p.body i).content = .memory x) :
    p.read i = (.ok x, p) := by
  simp [read, h]

theorem read_of_consumed {i s : Nat} (h : (p.body i).content = .stream s)
    (hc : (p.body i).consumed = true) : p.read i = (.error .consumed, p) := by
  simp [read, h, hc]

theorem read_of_unread {i s : Nat} (h : (p.body i).content = .stream s)
    (hc : (p.body i).consumed = false) :
    p.read i = (.ok (p.source s).chunks.flatten,
      (p.setBody i { p.body i with consumed := true }).setSource s (p.source s).afterDrain) := by
  simp [read, h, hc]

theorem start_of_memory {i : Nat} {x : Bytes} (h : (p.body i).content = .memory x) :
    p.start i = (.ok (if x.isEmpty then none else some x), .done, p) := by
  cases x <;> simp [start, h]

theorem start_of_consumed {i s : Nat} (h : (p.body i).content = .stream s)
    (hc : (p.body i).consumed = true) : p.start i = (.error .consumed, .done, p) := by
  simp [start, h, hc]

/-- A reader that starts on a stream consumes the body and goes on as a reader of the stream. -/
theorem start_of_unread {i s : Nat} (h : (p.body i).content = .stream s)
    (hc : (p.body i).consumed = false) :
    p.start i = (p.setBody i { p.body i with consumed := true }).next
      (if (p.source s).rewinds then .own (p.source s).chunks else .shared s) := by
  by_cases hr : (p.source s).rewinds = true
  · simp [start, h, hc, hr, next]
  · simp [start, h, hc, hr, next]

theorem next_fresh (i : Nat) : p.next (.fresh i) = p.start i := rfl

theorem next_shared_nil {s : Nat} (h : (p.source s).chunks = []) :
    p.next (.shared s) = (.ok none, .done, p) := by
  simp [next, nextShared, h]

theorem next_shared_cons {s : Nat} {c : Bytes} {r : List Bytes}
    (h : (p.source s).chunks = c :: r) :
    p.next (.shared s) =
      (.ok (some c), .shared s, p.setSource s { p.source s with chunks := r }) := by
  simp [next, nextShared, h]

theorem next_own_nil : p.next (.own []) = (.ok none, .done, p) := rfl

theorem next_done : p.next .done = (.ok none, .done, p) := rfl

/-- Reading changes nothing but where a body is over a stream and unread. -/
theorem read_cases (i : Nat) :
    (p.read i).2 = p ∨ ∃ s, (p.body i).content = .stream s ∧ (p.body i).consumed = false := by
  cases hcontent : (p.body i).content with
  | memory x => exact .inl (by rw [read_of_memory hcontent])
  | stream s =>
    cases hconsumed : (p.body i).consumed with
    | true => exact .inl (by rw [read_of_consumed hcontent hconsumed])
    | false => exact .inr ⟨s, rfl, rfl⟩

theorem start_cases (i : Nat) :
    (p.start i).2.2 = p ∨ ∃ s, (p.body i).content = .stream s ∧ (p.body i).consumed = false := by
  cases hcontent : (p.body i).content with
  | memory x => exact .inl (by rw [start_of_memory hcontent])
  | stream s =>
    cases hconsumed : (p.body i).consumed with
    | true => exact .inl (by rw [start_of_consumed hcontent hconsumed])
    | false => exact .inr ⟨s, rfl, rfl⟩

/-! ## What becomes of the bodies -/

/-- What an operation does to a body: nothing, or it is consumed, or its content is taken. -/
inductive Altered (b : Body Nat) : Body Nat → Prop where
  | unchanged : Altered b b
  | consumed : Altered b { b with consumed := true }
  | taken : Altered b b.take.2

theorem altered_setBody {i : Nat} {b : Body Nat} (h : Altered (p.body i) b) (j : Nat) :
    Altered (p.body j) ((p.setBody i b).body j) := by
  obtain hsame | ⟨rfl, hnew⟩ := body_setBody (p := p) i b j
  · rw [hsame]
    exact .unchanged
  · rw [hnew]
    exact h

theorem altered_read (i j : Nat) : Altered (p.body j) ((p.read i).2.body j) := by
  obtain hsame | ⟨s, hcontent, hconsumed⟩ := read_cases (p := p) i
  · rw [hsame]
    exact .unchanged
  · rw [read_of_unread hcontent hconsumed]
    exact altered_setBody .consumed j

/-- A reader within a stream or past the end leaves all bodies alone. -/
theorem bodies_next {r : Reader} (h : ∀ i, r ≠ .fresh i) : (p.next r).2.2.bodies = p.bodies := by
  cases r with
  | fresh i => exact absurd rfl (h i)
  | shared s =>
    cases hs : (p.source s).chunks with
    | nil => rw [next_shared_nil hs]
    | cons c rest => rw [next_shared_cons hs, bodies_setSource]
  | own chunks => cases chunks <;> rfl
  | done => rfl

theorem body_next {r : Reader} (h : ∀ i, r ≠ .fresh i) (j : Nat) :
    (p.next r).2.2.body j = p.body j := by
  unfold body
  rw [bodies_next h]

theorem altered_next (r : Reader) (j : Nat) : Altered (p.body j) ((p.next r).2.2.body j) := by
  by_cases hfresh : ∃ i, r = .fresh i
  · obtain ⟨i, rfl⟩ := hfresh
    rw [next_fresh]
    obtain hsame | ⟨s, hcontent, hconsumed⟩ := start_cases (p := p) i
    · rw [hsame]
      exact .unchanged
    · rw [start_of_unread hcontent hconsumed, body_next (by intro k; split <;> simp)]
      exact altered_setBody .consumed j
  · rw [body_next (fun i hi => hfresh ⟨i, hi⟩)]
    exact .unchanged

/-- Taking a body leaves an empty one in its place and puts the content at the end. -/
theorem body_take (i j : Nat) :
    (p.take i).2.body j = p.body j ∨ (j = i ∧ (p.take i).2.body j = (p.body i).take.2) ∨
      (j = p.bodies.length ∧ (p.take i).2.body j = (p.body i).take.1) := by
  show ((p.setBody i (p.body i).take.2).addBody (p.body i).take.1).2.body j = _ ∨
    (_ ∧ ((p.setBody i (p.body i).take.2).addBody (p.body i).take.1).2.body j = _) ∨
    (_ ∧ ((p.setBody i (p.body i).take.2).addBody (p.body i).take.1).2.body j = _)
  obtain hold | ⟨hj, hnew⟩ :=
    body_addBody (p := p.setBody i (p.body i).take.2) (p.body i).take.1 j
  · rw [hold]
    obtain hsame | hleft := body_setBody (p := p) i (p.body i).take.2 j
    · exact .inl hsame
    · exact .inr (.inl hleft)
  · rw [length_bodies_setBody] at hj
    exact .inr (.inr ⟨hj, hnew⟩)

theorem body_take_left {i : Nat} (hi : i < p.bodies.length) :
    (p.take i).2.body i = (p.body i).take.2 := by
  have hset := body_setBody_self hi (p.body i).take.2
  obtain hold | ⟨hlen, -⟩ :=
    body_addBody (p := p.setBody i (p.body i).take.2) (p.body i).take.1 i
  · exact hold.trans hset
  · rw [length_bodies_setBody] at hlen
    omega

/-- The number of the body that the content moved into. -/
theorem number_take (i : Nat) : (p.take i).1 = p.bodies.length :=
  length_bodies_setBody i (p.body i).take.2

theorem body_take_self (i : Nat) : (p.take i).2.body p.bodies.length = (p.body i).take.1 := by
  show ((p.setBody i (p.body i).take.2).addBody (p.body i).take.1).2.body p.bodies.length = _
  rw [← length_bodies_setBody i (p.body i).take.2]
  exact body_addBody_self _

theorem length_bodies_read (i : Nat) : (p.read i).2.bodies.length = p.bodies.length := by
  obtain hsame | ⟨s, hcontent, hconsumed⟩ := read_cases (p := p) i
  · rw [hsame]
  · rw [read_of_unread hcontent hconsumed, bodies_setSource, length_bodies_setBody]

theorem length_bodies_next (r : Reader) : (p.next r).2.2.bodies.length = p.bodies.length := by
  by_cases hfresh : ∃ i, r = .fresh i
  · obtain ⟨i, rfl⟩ := hfresh
    rw [next_fresh]
    obtain hsame | ⟨s, hcontent, hconsumed⟩ := start_cases (p := p) i
    · rw [hsame]
    · rw [start_of_unread hcontent hconsumed, bodies_next (by intro k; split <;> simp),
        length_bodies_setBody]
  · rw [bodies_next (fun i hi => hfresh ⟨i, hi⟩)]

/-! ## What is drawn from the streams -/

/-- The chunks of one stream among those that are drawn from some stream. -/
def drawnFrom (d : Option (Nat × List Bytes)) (s : Nat) : List Bytes :=
  match d with
  | some (t, chunks) => if t = s then chunks else []
  | none => []

/-- What reading a body draws, with the number of the stream. No stream that rewinds is drawn
from. -/
def readDraw (p : Pool) (i : Nat) : Option (Nat × List Bytes) :=
  match (p.body i).content, (p.read i).1 with
  | .stream s, .ok _ => if (p.source s).rewinds then none else some (s, (p.source s).chunks)
  | _, _ => none

/-- What a reader draws: the chunk that it gives, if it is left within a stream. -/
def nextDraw (p : Pool) (r : Reader) : Option (Nat × List Bytes) :=
  match p.next r with
  | (.ok (some c), .shared s, _) => some (s, [c])
  | _ => none

theorem chunks_read (i s : Nat) :
    (p.source s).chunks = drawnFrom (p.readDraw i) s ++ ((p.read i).2.source s).chunks := by
  unfold readDraw
  cases hcontent : (p.body i).content with
  | memory x =>
    rw [read_of_memory hcontent]
    rfl
  | stream t =>
    cases hconsumed : (p.body i).consumed with
    | true =>
      rw [read_of_consumed hcontent hconsumed]
      rfl
    | false =>
      rw [read_of_unread hcontent hconsumed]
      dsimp only
      cases hrewinds : (p.source t).rewinds with
      | true =>
        have hsame : (p.source t).afterDrain = p.source t := by simp [Source.afterDrain, hrewinds]
        have hnone : (p.source t).chunks = [] ++ (p.source t).chunks := rfl
        rw [hsame, ← source_setBody i { p.body i with consumed := true } s,
          chunks_setSource (p := p.setBody i _) hnone s]
        simp [drawnFrom]
      | false =>
        have hgone : (p.source t).afterDrain = ⟨[], none, false⟩ := by
          simp [Source.afterDrain, hrewinds]
        have hall : (p.source t).chunks = (p.source t).chunks ++ [] := (List.append_nil _).symm
        rw [hgone, ← source_setBody i { p.body i with consumed := true } s,
          chunks_setSource (p := p.setBody i _) (x := ⟨[], none, false⟩) hall s]
        rfl

theorem nextDraw_fresh_of_unread {i s : Nat} (h : (p.body i).content = .stream s)
    (hc : (p.body i).consumed = false) :
    p.nextDraw (.fresh i) = (p.setBody i { p.body i with consumed := true }).nextDraw
      (if (p.source s).rewinds then .own (p.source s).chunks else .shared s) := by
  unfold nextDraw
  rw [next_fresh, start_of_unread h hc]

/-- The next chunk of a stream is the first of those left. -/
theorem chunks_next_shared (t s : Nat) :
    (p.source s).chunks =
      drawnFrom (p.nextDraw (.shared t)) s ++ ((p.next (.shared t)).2.2.source s).chunks := by
  unfold nextDraw
  cases ht : (p.source t).chunks with
  | nil =>
    rw [next_shared_nil ht]
    rfl
  | cons c rest =>
    rw [next_shared_cons ht]
    exact chunks_setSource (x := { p.source t with chunks := rest }) (ht.trans rfl) s

theorem chunks_next_own (chunks : List Bytes) (s : Nat) :
    (p.source s).chunks =
      drawnFrom (p.nextDraw (.own chunks)) s ++ ((p.next (.own chunks)).2.2.source s).chunks := by
  cases chunks <;> rfl

theorem chunks_next (r : Reader) (s : Nat) :
    (p.source s).chunks = drawnFrom (p.nextDraw r) s ++ ((p.next r).2.2.source s).chunks := by
  cases r with
  | fresh i =>
    cases hcontent : (p.body i).content with
    | memory x =>
      unfold nextDraw
      rw [next_fresh, start_of_memory hcontent]
      cases x <;> rfl
    | stream t =>
      cases hconsumed : (p.body i).consumed with
      | true =>
        unfold nextDraw
        rw [next_fresh, start_of_consumed hcontent hconsumed]
        rfl
      | false =>
        rw [nextDraw_fresh_of_unread hcontent hconsumed, next_fresh,
          start_of_unread hcontent hconsumed]
        split
        · exact chunks_next_own (p := p.setBody i _) _ s
        · exact chunks_next_shared (p := p.setBody i _) t s
  | shared t => exact chunks_next_shared t s
  | own chunks => exact chunks_next_own chunks s
  | done => rfl

/-! ## Streams that rewind -/

theorem rewinds_read (i s : Nat) :
    ((p.read i).2.source s).rewinds = (p.source s).rewinds := by
  obtain hsame | ⟨t, hcontent, hconsumed⟩ := read_cases (p := p) i
  · rw [hsame]
  · rw [read_of_unread hcontent hconsumed]
    refine rewinds_setSource (p := p.setBody i _) ?_ s
    cases hrewinds : (p.source t).rewinds <;> simp [Source.afterDrain, hrewinds]

theorem rewinds_next_of_not_fresh {r : Reader} (h : ∀ i, r ≠ .fresh i) (s : Nat) :
    ((p.next r).2.2.source s).rewinds = (p.source s).rewinds := by
  cases r with
  | fresh i => exact absurd rfl (h i)
  | shared t =>
    cases ht : (p.source t).chunks with
    | nil => rw [next_shared_nil ht]
    | cons c rest =>
      rw [next_shared_cons ht]
      exact rewinds_setSource (x := { p.source t with chunks := rest }) rfl s
  | own chunks => cases chunks <;> rfl
  | done => rfl

theorem rewinds_next (r : Reader) (s : Nat) :
    ((p.next r).2.2.source s).rewinds = (p.source s).rewinds := by
  by_cases hfresh : ∃ i, r = .fresh i
  · obtain ⟨i, rfl⟩ := hfresh
    rw [next_fresh]
    obtain hsame | ⟨t, hcontent, hconsumed⟩ := start_cases (p := p) i
    · rw [hsame]
    · rw [start_of_unread hcontent hconsumed,
        rewinds_next_of_not_fresh (by intro k; split <;> simp), source_setBody]
  · exact rewinds_next_of_not_fresh (fun i hi => hfresh ⟨i, hi⟩) s

end Wireform.Pool
