import Wireform.Proofs.Body.Session

/-
  Wireform body delivery: each chunk of a stream that delivers once reaches one step of a session.
  Every step parts what was left of each stream into what it draws and what is left then
  (`remaining_step`), so what a run delivers of a stream are its first chunks (`remaining_run`).
  What a step hands out is what it draws, or stood in memory (`Once.accounts_step`).
-/

namespace Wireform.Session
open Pool (Altered drawnFrom)

variable {s : Session}

/-! ## What is delivered -/

/-- The chunks that a step draws, with the number of their stream. -/
def drawn (s : Session) : Step → Option (Nat × List Bytes)
  | .read h => s.pool.readDraw (s.bodyOf h)
  | .next k => s.pool.nextDraw (s.reader k)
  | _ => none

/-- The chunks of a stream that a run delivers, in the order of delivery. -/
def delivered (source : Nat) (s : Session) : List Step → List Bytes
  | [] => []
  | x :: steps => drawnFrom (s.drawn x) source ++ delivered source (s.step x).2 steps

/-- The chunks of a stream that no one has been given. -/
def remaining (s : Session) (source : Nat) : List Bytes := (s.pool.source source).chunks

theorem remaining_step (x : Step) (source : Nat) :
    s.remaining source = drawnFrom (s.drawn x) source ++ (s.step x).2.remaining source := by
  cases x with
  | read h => exact Pool.chunks_read (s.bodyOf h) source
  | next k => exact Pool.chunks_next (s.reader k) source
  | bytes | stream | emptied | wrap | take | iterate => rfl

/-- What a run delivers comes before what it leaves. -/
theorem remaining_run (steps : List Step) (source : Nat) :
    s.remaining source = delivered source s steps ++ (s.run steps).remaining source := by
  induction steps generalizing s with
  | nil => rfl
  | cons x steps ih =>
    calc s.remaining source
        = drawnFrom (s.drawn x) source ++ (s.step x).2.remaining source := remaining_step x source
      _ = drawnFrom (s.drawn x) source ++ (delivered source (s.step x).2 steps ++
            ((s.step x).2.run steps).remaining source) := by rw [← ih]
      _ = delivered source s (x :: steps) ++ (s.run (x :: steps)).remaining source := by
          rw [← List.append_assoc]
          rfl

/-! ## Accounts -/

/-- An answer hands out the chunks that are drawn, and otherwise only octets that were made in
memory. -/
inductive Accounts (steps : List Step) : Option (Nat × List Bytes) → Answer → Prop where
  | drawnOctets (source : Nat) (chunks : List Bytes) :
      Accounts steps (some (source, chunks)) (.octets (.ok chunks.flatten))
  | drawnChunk (source : Nat) (chunk : Bytes) :
      Accounts steps (some (source, [chunk])) (.chunk (.ok (some chunk)))
  | octets {octets : Bytes} : octets = [] ∨ .bytes octets ∈ steps →
      Accounts steps none (.octets (.ok octets))
  | chunk {octets : Bytes} : .bytes octets ∈ steps →
      Accounts steps none (.chunk (.ok (some octets)))
  | atEnd : Accounts steps none (.chunk (.ok none))
  | refused (e : StreamFault) : Accounts steps none (.octets (.error e))
  | refusedChunk (e : StreamFault) : Accounts steps none (.chunk (.error e))
  | made (number : Nat) : Accounts steps none (.made number)

/-- What holds of a session over streams that deliver once: a stream that rewinds has no chunks, no
reader has chunks of its own, and what stands in memory was put there. -/
structure Once (s : Session) (steps : List Step) : Prop where
  rewinding : ∀ i, (s.pool.source i).rewinds = true → s.remaining i = []
  readers : ∀ k chunks, s.reader k ≠ .own chunks
  memory : ∀ i octets, (s.pool.body i).content = .memory octets →
    octets = [] ∨ .bytes octets ∈ steps

theorem rewinds_step (x : Step) (i : Nat) :
    ((s.step x).2.pool.source i).rewinds = (s.pool.source i).rewinds := by
  cases x with
  | read h => exact Pool.rewinds_read _ i
  | next k => exact Pool.rewinds_next _ i
  | bytes | stream | emptied | wrap | take | iterate => rfl

/-- A reader comes by chunks of its own only from a stream that rewinds. -/
theorem next_ne_own {p : Pool}
    (hsources : ∀ i, (p.source i).rewinds = true → (p.source i).chunks = []) {r : Reader}
    (hr : ∀ chunks, r ≠ .own chunks) (chunks : List Bytes) :
    (p.next r).2.1 ≠ .own chunks := by
  have hshared : ∀ (p : Pool) (i : Nat), (p.next (.shared i)).2.1 ≠ .own chunks := by
    intro p i
    cases hi : (p.source i).chunks with
    | nil => simp [Pool.next_shared_nil hi]
    | cons c rest => simp [Pool.next_shared_cons hi]
  cases r with
  | fresh j =>
    rw [Pool.next_fresh]
    cases hcontent : (p.body j).content with
    | memory x => simp [Pool.start_of_memory hcontent]
    | stream i =>
      cases hconsumed : (p.body j).consumed with
      | true => simp [Pool.start_of_consumed hcontent hconsumed]
      | false =>
        rw [Pool.start_of_unread hcontent hconsumed]
        split
        · next hrewinds =>
          rw [hsources i hrewinds, Pool.next_own_nil]
          simp
        · exact hshared _ i
  | shared i => exact hshared p i
  | own chunks' => exact absurd rfl (hr chunks')
  | done => simp [Pool.next_done]

theorem Once.step {steps : List Step} (h : Once s steps) (x : Step) :
    Once (s.step x).2 (steps ++ [x]) where
  rewinding := by
    intro i hi
    have hbefore : s.remaining i = [] := h.rewinding i (by rw [← rewinds_step x i, hi])
    rw [remaining_step x i] at hbefore
    exact (List.append_eq_nil_iff.mp hbefore).2
  readers := by
    intro k chunks
    obtain hsame | ⟨i, hnew⟩ | hasked := reader_step (s := s) x k
    · rw [hsame]
      exact h.readers k chunks
    · simp [hnew]
    · rw [hasked]
      exact next_ne_own h.rewinding (h.readers k) chunks
  memory := by
    intro i octets hoctets
    have hold : ∀ j, (s.pool.body j).content = .memory octets →
        octets = [] ∨ .bytes octets ∈ steps ++ [x] := by
      intro j hj
      exact (h.memory j octets hj).imp_right (List.mem_append_left _)
    obtain halt | ⟨-, hmade⟩ := body_step (s := s) x i
    · generalize (s.step x).2.pool.body i = b at halt hoctets
      cases halt with
      | unchanged => exact hold i hoctets
      | consumed => exact hold i hoctets
      | taken => exact .inl (by rw [Body.content_left] at hoctets; cases hoctets; rfl)
    · generalize (s.step x).2.pool.body i = b at hmade hoctets
      cases hmade with
      | bytes b =>
        cases hoctets
        exact .inr (by simp)
      | stream source length => cases hoctets
      | emptied =>
        cases hoctets
        exact .inl rfl
      | moved h => exact hold (s.bodyOf h) (by rw [← hoctets, Body.content_moved])

theorem Once.run {before : List Step} (h : Once s before) (steps : List Step) :
    Once (s.run steps) (before ++ steps) := by
  induction steps generalizing s before with
  | nil =>
    rw [List.append_nil]
    exact h
  | cons x steps ih =>
    rw [List.append_cons]
    exact ih (h.step x)

/-- A stream that delivers its chunks once. -/
def oneShot (chunks : List Bytes) : Source := ⟨chunks, none, false⟩

theorem remaining_start (family : List (List Bytes)) (source : Nat) :
    (start (family.map oneShot)).remaining source = family.getD source [] := by
  show (((family.map oneShot)[source]?).getD .empty).chunks = _
  rw [List.getElem?_map, List.getD_eq_getElem?_getD]
  cases family[source]? <;> rfl

theorem once_start (family : List (List Bytes)) : Once (start (family.map oneShot)) [] where
  rewinding := by
    intro i hi
    rw [remaining_start, List.getD_eq_getElem?_getD]
    simp only [start, Pool.source, List.getElem?_map] at hi
    cases hchunks : family[i]? with
    | none => rfl
    | some chunks =>
      rw [hchunks] at hi
      cases hi
  readers := by simp [start, reader]
  memory := by
    intro i octets hoctets
    cases hoctets
    exact .inl rfl

/-- A reader within a stream hands out the chunk that it draws. -/
theorem accounts_shared (steps : List Step) (p : Pool) (i : Nat) :
    Accounts steps (p.nextDraw (.shared i)) (.chunk (p.next (.shared i)).1) := by
  unfold Pool.nextDraw
  cases hi : (p.source i).chunks with
  | nil =>
    rw [Pool.next_shared_nil hi]
    exact .atEnd
  | cons c rest =>
    rw [Pool.next_shared_cons hi]
    exact .drawnChunk i c

theorem Once.accounts_read {steps : List Step} (h : Once s steps) (i : Nat) :
    Accounts steps (s.pool.readDraw i) (.octets (s.pool.read i).1) := by
  unfold Pool.readDraw
  cases hcontent : (s.pool.body i).content with
  | memory x =>
    rw [Pool.read_of_memory hcontent]
    exact .octets (h.memory i x hcontent)
  | stream source =>
    cases hconsumed : (s.pool.body i).consumed with
    | true =>
      rw [Pool.read_of_consumed hcontent hconsumed]
      exact .refused .consumed
    | false =>
      rw [Pool.read_of_unread hcontent hconsumed]
      dsimp only
      split
      · next hrewinds =>
        have hnone : (s.pool.source source).chunks = [] := h.rewinding source hrewinds
        rw [hnone]
        exact .octets (.inl rfl)
      · exact .drawnOctets source _

theorem Once.accounts_start {steps : List Step} (h : Once s steps) (i : Nat) :
    Accounts steps (s.pool.nextDraw (.fresh i)) (.chunk (s.pool.next (.fresh i)).1) := by
  cases hcontent : (s.pool.body i).content with
  | memory x =>
    unfold Pool.nextDraw
    rw [Pool.next_fresh, Pool.start_of_memory hcontent]
    cases x with
    | nil => exact .atEnd
    | cons b x => exact .chunk ((h.memory i _ hcontent).resolve_left (List.cons_ne_nil b x))
  | stream source =>
    cases hconsumed : (s.pool.body i).consumed with
    | true =>
      unfold Pool.nextDraw
      rw [Pool.next_fresh, Pool.start_of_consumed hcontent hconsumed]
      exact .refusedChunk .consumed
    | false =>
      rw [Pool.nextDraw_fresh_of_unread hcontent hconsumed, Pool.next_fresh,
        Pool.start_of_unread hcontent hconsumed]
      split
      · next hrewinds =>
        have hnone : (s.pool.source source).chunks = [] := h.rewinding source hrewinds
        rw [hnone]
        exact .atEnd
      · exact accounts_shared steps _ source

theorem Once.accounts_step {steps : List Step} (h : Once s steps) (x : Step) :
    Accounts steps (s.drawn x) (s.step x).1 := by
  cases x with
  | read handle => exact h.accounts_read (s.bodyOf handle)
  | next k =>
    show Accounts steps (s.pool.nextDraw (s.reader k)) (.chunk (s.pool.next (s.reader k)).1)
    cases hk : s.reader k with
    | fresh i => exact h.accounts_start i
    | shared i => exact accounts_shared steps s.pool i
    | own chunks => exact absurd hk (h.readers k chunks)
    | done => exact .atEnd
  | bytes | stream | emptied | wrap | take | iterate => exact .made _

/-! ## Taken bodies -/

/-- From now on a body delivers nothing: reading it gives no octets, and a reader of it that has not
begun gives no chunk. -/
def Silent (s : Session) (i : Nat) : Prop :=
  ∀ later, (∀ h, (s.run later).bodyOf h = i → ((s.run later).step (.read h)).1 = .octets (.ok [])) ∧
    ∀ k, s.reader k = .fresh i → ((s.run later).step (.next k)).1 = .chunk (.ok none)

/-- A body without octets keeps without. -/
theorem content_run_of_empty {i : Nat} (hi : i < s.pool.bodies.length)
    (h : (s.pool.body i).content = .memory []) (steps : List Step) :
    ((s.run steps).pool.body i).content = .memory [] := by
  refine body_run (P := fun b => b.content = .memory []) ?_ hi h steps
  intro b b' halt hempty
  cases halt with
  | unchanged => exact hempty
  | consumed => exact hempty
  | taken => exact b.content_left

theorem next_of_empty {p : Pool} {i : Nat} (h : (p.body i).content = .memory []) {r : Reader}
    (hr : r = .fresh i ∨ r = .done) : (p.next r).1 = .ok none ∧ (p.next r).2.1 = .done := by
  obtain rfl | rfl := hr
  · rw [Pool.next_fresh, Pool.start_of_memory h]
    exact ⟨rfl, rfl⟩
  · exact ⟨rfl, rfl⟩

theorem reader_run_of_empty {i k : Nat} (hi : i < s.pool.bodies.length)
    (h : (s.pool.body i).content = .memory []) (hk : k < s.readers.length)
    (hr : s.reader k = .fresh i ∨ s.reader k = .done) (steps : List Step) :
    (s.run steps).reader k = .fresh i ∨ (s.run steps).reader k = .done := by
  induction steps generalizing s with
  | nil => exact hr
  | cons x steps ih =>
    refine ih (Nat.lt_of_lt_of_le hi (length_bodies_le_step x)) (content_run_of_empty hi h [x])
      (Nat.lt_of_lt_of_le hk (length_readers_le_step x)) ?_
    by_cases hx : x = .next k
    · rw [hx, reader_step_next hk]
      exact .inr (next_of_empty h hr).2
    · rw [reader_step_of_ne hk hx]
      exact hr

theorem silent_of_empty {i : Nat} (hi : i < s.pool.bodies.length)
    (h : (s.pool.body i).content = .memory []) : Silent s i := by
  intro later
  have hempty := content_run_of_empty hi h later
  constructor
  · intro handle hhandle
    show Answer.octets ((s.run later).pool.read ((s.run later).bodyOf handle)).1 = _
    rw [hhandle, Pool.read_of_memory hempty]
  · intro k hk
    have hreader := reader_run_of_empty hi h (lt_of_fresh hk) (.inl hk) later
    rw [step_next, (next_of_empty hempty hreader).1]

/-! ## Moved bodies -/

/-- The answers of some steps. -/
def answers (s : Session) : List Step → List Answer
  | [] => []
  | x :: steps => (s.step x).1 :: answers (s.step x).2 steps

/-- What a reader gives if nothing but itself draws from its stream. -/
inductive Ahead (p : Pool) : Reader → List Bytes → Prop where
  | memory {i : Nat} {octets : Bytes} : (p.body i).content = .memory octets →
      Ahead p (.fresh i) (Body.memoryChunks octets)
  | stream {i source : Nat} : (p.body i).content = .stream source → (p.body i).consumed = false →
      Ahead p (.fresh i) (p.source source).chunks
  | shared (source : Nat) : Ahead p (.shared source) (p.source source).chunks
  | own (chunks : List Bytes) : Ahead p (.own chunks) chunks
  | done : Ahead p .done []

theorem ahead_next_shared (p : Pool) (i : Nat) :
    (p.next (.shared i)).1 = .ok (p.source i).chunks.head? ∧
      Ahead (p.next (.shared i)).2.2 (p.next (.shared i)).2.1 (p.source i).chunks.tail := by
  cases hi : (p.source i).chunks with
  | nil =>
    rw [Pool.next_shared_nil hi]
    exact ⟨rfl, .done⟩
  | cons c rest =>
    rw [Pool.next_shared_cons hi]
    have hrest : ((p.setSource i { p.source i with chunks := rest }).source i).chunks = rest := by
      have hfirst : (p.source i).chunks = [c] ++ rest := hi
      have hcut := Pool.chunks_setSource (x := { p.source i with chunks := rest }) hfirst i
      rw [hi] at hcut
      simpa using hcut.symm
    have hahead := Ahead.shared (p := p.setSource i { p.source i with chunks := rest }) i
    rw [hrest] at hahead
    exact ⟨rfl, hahead⟩

theorem ahead_next_own (p : Pool) (chunks : List Bytes) :
    (p.next (.own chunks)).1 = .ok chunks.head? ∧
      Ahead (p.next (.own chunks)).2.2 (p.next (.own chunks)).2.1 chunks.tail := by
  cases chunks with
  | nil => exact ⟨rfl, .done⟩
  | cons c rest => exact ⟨rfl, .own rest⟩

/-- A reader that is asked gives the first chunk ahead of it and goes on behind that. -/
theorem Ahead.next {p : Pool} {r : Reader} {chunks : List Bytes} (h : Ahead p r chunks) :
    (p.next r).1 = .ok chunks.head? ∧ Ahead (p.next r).2.2 (p.next r).2.1 chunks.tail := by
  cases h with
  | @memory i octets hcontent =>
    rw [Pool.next_fresh, Pool.start_of_memory hcontent]
    cases octets with
    | nil => exact ⟨rfl, .done⟩
    | cons b octets => exact ⟨rfl, .done⟩
  | @stream i source hcontent hconsumed =>
    rw [Pool.next_fresh, Pool.start_of_unread hcontent hconsumed]
    split
    · exact ahead_next_own _ _
    · exact ahead_next_shared (p.setBody i _) source
  | shared source => exact ahead_next_shared p source
  | own => exact ahead_next_own p chunks
  | done => exact ⟨rfl, .done⟩

/-- A reader that is asked again and again gives what is ahead of it, and then nothing. -/
theorem answers_of_ahead {k : Nat} (hk : k < s.readers.length) {chunks : List Bytes}
    (h : Ahead s.pool (s.reader k) chunks) :
    s.answers (List.replicate (chunks.length + 1) (.next k)) =
      chunks.map (fun c => .chunk (.ok (some c))) ++ [.chunk (.ok none)] := by
  induction chunks generalizing s with
  | nil =>
    show [(s.step (.next k)).1] = _
    rw [step_next, h.next.1]
    rfl
  | cons c rest ih =>
    have hfirst : (s.step (.next k)).1 = .chunk (.ok (some c)) := by
      rw [step_next, h.next.1]
      rfl
    have hahead : Ahead (s.step (.next k)).2.pool ((s.step (.next k)).2.reader k) rest := by
      rw [reader_step_next hk]
      exact h.next.2
    have hrest := ih (Nat.lt_of_lt_of_le hk (length_readers_le_step (.next k))) hahead
    show (s.step (.next k)).1 ::
      (s.step (.next k)).2.answers (List.replicate (rest.length + 1) (.next k)) = _
    rw [hfirst, hrest]
    rfl

/-- A body delivers some chunks: reading gives them together, and a reader that has not begun one
after the other. -/
def Gives (s : Session) (i : Nat) (chunks : List Bytes) : Prop :=
  (∀ h, s.bodyOf h = i → (s.step (.read h)).1 = .octets (.ok chunks.flatten)) ∧
    ∀ k, s.reader k = .fresh i → s.answers (List.replicate (chunks.length + 1) (.next k)) =
      chunks.map (fun c => .chunk (.ok (some c))) ++ [.chunk (.ok none)]

/-- The chunks of a content that no one has been given; octets in memory are given to everyone. -/
def rest (s : Session) : Content Nat → List Bytes
  | .memory octets => Body.memoryChunks octets
  | .stream source => s.remaining source

theorem gives_rest {i : Nat} (h : (s.pool.body i).consumed = false) :
    s.Gives i (s.rest (s.pool.body i).content) := by
  constructor
  · intro handle hhandle
    show Answer.octets (s.pool.read (s.bodyOf handle)).1 = _
    rw [hhandle]
    cases hcontent : (s.pool.body i).content with
    | memory octets =>
      rw [Pool.read_of_memory hcontent]
      cases octets <;> simp [rest, Body.memoryChunks]
    | stream source =>
      rw [Pool.read_of_unread hcontent h]
      rfl
  · intro k hk
    refine answers_of_ahead (lt_of_fresh hk) ?_
    rw [hk]
    cases hcontent : (s.pool.body i).content with
    | memory octets => exact .memory hcontent
    | stream source => exact .stream hcontent h

theorem step_take (h : Handle) :
    s.step (.take h) = (.made s.pool.bodies.length,
      { s with pool := (s.pool.take (s.bodyOf h)).2 }) := by
  rw [← Pool.number_take (s.bodyOf h)]
  rfl

/-- A moved body keeps its content until it is taken itself. -/
theorem content_moved_run (h : Handle) (later : List Step) :
    (((s.step (.take h)).2.run later).pool.body s.pool.bodies.length).content =
        (s.pool.body (s.bodyOf h)).content ∨
      (((s.step (.take h)).2.run later).pool.body s.pool.bodies.length).taken = true := by
  refine body_run (P := fun b => b.content = (s.pool.body (s.bodyOf h)).content ∨ b.taken = true)
    ?_ ?_ ?_ later
  · intro b b' halt hb
    cases halt with
    | unchanged => exact hb
    | consumed => exact hb
    | taken => exact .inr b.taken_left
  · rw [step_take]
    exact Nat.lt_of_lt_of_eq (Nat.lt_succ_self _) (Pool.length_bodies_take _).symm
  · rw [step_take, Pool.body_take_self]
    exact .inl (Body.content_moved _)

theorem content_step_take {h : Handle} (hh : s.bodyOf h < s.pool.bodies.length) :
    ((s.step (.take h)).2.pool.body (s.bodyOf h)).content = .memory [] := by
  rw [step_take, Pool.body_take_left hh]
  exact Body.content_left _

/-- Streams that deliver once, in any session over them: what has been delivered of a stream are its
first chunks in order, and no answer hands out anything else but octets made in memory. A body that
was taken delivers nothing from then on, and the one its content moved into delivers what no one has
been given, unless it was read or taken before. -/
theorem delivered_once (family : List (List Bytes)) (steps : List Step) :
    let s := start (family.map oneShot)
    let t := s.run steps
    let m := t.pool.bodies.length
    (∀ source, delivered source s steps ++ t.remaining source = family.getD source []) ∧
      (∀ x, Accounts steps (t.drawn x) (t.step x).1) ∧
      ∀ h, t.bodyOf h < m → (t.step (.take h)).1 = .made m ∧
        ∀ later, let u := (t.step (.take h)).2.run later
          u.Silent (t.bodyOf h) ∧
            ((u.pool.body m).consumed = false → (u.pool.body m).taken = false →
              u.Gives m (u.rest (t.pool.body (t.bodyOf h)).content)) := by
  intro s t m
  refine ⟨?_, ?_, ?_⟩
  · intro source
    rw [← remaining_run, remaining_start]
  · intro x
    exact ((once_start family).run steps).accounts_step x
  · intro h hh
    refine ⟨by rw [step_take], ?_⟩
    intro later u
    constructor
    · have hleft : t.bodyOf h < (t.step (.take h)).2.pool.bodies.length :=
        Nat.lt_of_lt_of_le hh (length_bodies_le_step _)
      exact silent_of_empty (Nat.lt_of_lt_of_le hleft (length_bodies_le_run later))
        (content_run_of_empty hleft (content_step_take hh) later)
    · intro hconsumed htaken
      have hcontent := (content_moved_run h later).resolve_right
        (by rw [htaken]; exact Bool.false_ne_true)
      rw [← hcontent]
      exact gives_rest hconsumed

/-- A reader has one chunk, then its body is taken through a byte stream; it goes on, one that has
not begun is at its end, and the moved body holds what is left. -/
theorem delivered_once_beside_reader :
    let s := start [oneShot [[1], [2], [3], [4]]]
    let steps : List Step := [.stream 0 none, .iterate (.body 0), .wrap 0, .next 0]
    let later : List Step := [.next 0, .iterate (.body 0), .iterate (.body 1)]
    let u := ((s.run steps).step (.take (.stream 0))).2.run later
    delivered 0 s (steps ++ .take (.stream 0) :: later) = [[1], [2]] ∧ u.Silent 0 ∧
      u.reader 1 = .fresh 0 ∧ u.Gives 1 [[3], [4]] ∧ u.reader 2 = .fresh 1 := by
  intro s steps later u
  obtain ⟨-, -, htake⟩ := delivered_once [[[1], [2], [3], [4]]] steps
  obtain ⟨-, hlater⟩ := htake (.stream 0) (by decide)
  obtain ⟨hsilent, hgives⟩ := hlater later
  exact ⟨by decide, hsilent, rfl, hgives rfl rfl, rfl⟩

end Wireform.Session
