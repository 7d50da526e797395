import Wireform.Proofs.Body.Session

/-
  Wireform body ownership: one stream, whose body is wrapped, taken and read any number of times. A
  body over the stream refuses to be read exactly if that very body was read before
  (`read_transferred`). The body that a content moved into has not been read, so it may be read once
  more: a stream that delivers once has nothing left then, and one that rewinds delivers all again.
-/

namespace Wireform.Session

variable {s : Session}

/-- The steps that hand a content on or read it. -/
def Step.isTransfer : Step → Bool
  | .wrap _ | .take _ | .read _ => true
  | _ => false

/-- One body over one stream. -/
def opened (source : Source) (length : Option Int) : Session :=
  ((start [source]).step (.stream 0 length)).2

/-! ## The bodies that were read -/

/-- The body that a step reads, if it is over a stream. -/
def readOf (s : Session) : Step → List Nat
  | .read h => if (s.pool.body (s.bodyOf h)).isStreaming then [s.bodyOf h] else []
  | _ => []

/-- The bodies over a stream that a run reads, one for each time. -/
def reads (s : Session) : List Step → List Nat
  | [] => []
  | x :: steps => s.readOf x ++ reads (s.step x).2 steps

/-- What holds of bodies over one stream, given those that were read while they held it: the stream
is drained if there are any, only what is left of taken bodies stands in memory, and a body that
holds the stream is consumed if it is one of them. -/
structure Owned (source : Source) (p : Pool) (ledger : List Nat) : Prop where
  sources : p.sources = [if ledger = [] then source else source.afterDrain]
  memory : ∀ i octets, (p.body i).content = .memory octets → octets = []
  stream : ∀ i k, (p.body i).content = .stream k → k = 0 ∧ ((p.body i).consumed = true ↔ i ∈ ledger)
  known : ∀ i ∈ ledger, i < p.bodies.length

variable {source : Source} {p : Pool} {ledger : List Nat}

theorem afterDrain_afterDrain (source : Source) :
    source.afterDrain.afterDrain = source.afterDrain := by
  cases h : source.rewinds <;> simp [Source.afterDrain, h]

theorem owned_opened (source : Source) (length : Option Int) :
    Owned source (opened source length).pool [] where
  sources := rfl
  memory := by
    intro i octets hoctets
    cases i with
    | zero => cases hoctets
    | succ i =>
      cases hoctets
      rfl
  stream := by
    intro i k hk
    cases i with
    | zero =>
      cases hk
      exact ⟨rfl, by simp [opened, step, start, withBody, Pool.addBody, Pool.body, Body.ofStream]⟩
    | succ i => cases hk
  known := by simp

/-- Taking a body puts none into the ledger: the moved body is new. -/
theorem Owned.take (h : Owned source p ledger) (i : Nat) : Owned source (p.take i).2 ledger where
  sources := h.sources
  memory := by
    intro j octets hoctets
    obtain hsame | ⟨-, hleft⟩ | ⟨-, hmoved⟩ := Pool.body_take (p := p) i j
    · rw [hsame] at hoctets
      exact h.memory j octets hoctets
    · rw [hleft, Body.content_left] at hoctets
      cases hoctets
      rfl
    · rw [hmoved, Body.content_moved] at hoctets
      exact h.memory i octets hoctets
  stream := by
    intro j k hk
    obtain hsame | ⟨-, hleft⟩ | ⟨hj, hmoved⟩ := Pool.body_take (p := p) i j
    · rw [hsame] at hk ⊢
      exact h.stream j k hk
    · rw [hleft, Body.content_left] at hk
      cases hk
    · rw [hmoved, Body.content_moved] at hk
      have hnew : j ∉ ledger := fun hmem => Nat.ne_of_lt (h.known j hmem) hj
      rw [hmoved, Body.consumed_moved]
      exact ⟨(h.stream i k hk).1, by simp [hnew]⟩
  known := by
    intro j hj
    rw [Pool.length_bodies_take]
    exact Nat.lt_succ_of_lt (h.known j hj)

/-- A body that is read again has its place in the ledger. -/
theorem Owned.again (h : Owned source p ledger) {i : Nat} (hi : i ∈ ledger) :
    Owned source p (ledger ++ [i]) where
  sources := by
    rw [h.sources, if_neg (List.ne_nil_of_mem hi), if_neg (by simp)]
  memory := h.memory
  stream := by
    intro j k hk
    refine ⟨(h.stream j k hk).1, (h.stream j k hk).2.trans ?_⟩
    constructor
    · exact fun hj => List.mem_append_left _ hj
    · intro hj
      obtain hj | hj := List.mem_append.mp hj
      · exact hj
      · rw [List.mem_singleton.mp hj]
        exact hi
  known := by
    intro j hj
    obtain hj | hj := List.mem_append.mp hj
    · exact h.known j hj
    · rw [List.mem_singleton.mp hj]
      exact h.known i hi

/-- Reading a body that holds the stream for the first time puts it in the ledger. -/
theorem Owned.first (h : Owned source p ledger) {i : Nat} (hi : (p.body i).content = .stream 0) :
    Owned source ((p.setBody i { p.body i with consumed := true }).setSource 0
      (p.source 0).afterDrain) (ledger ++ [i]) where
  sources := by
    have hdrained : (p.source 0).afterDrain = source.afterDrain := by
      unfold Pool.source
      rw [h.sources]
      by_cases hledger : ledger = []
      · simp [hledger]
      · simp [hledger, afterDrain_afterDrain]
    show p.sources.set 0 (p.source 0).afterDrain = _
    rw [hdrained, h.sources, if_neg (show ledger ++ [i] ≠ [] by simp)]
    rfl
  memory := by
    intro j octets hoctets
    rw [Pool.body_setSource] at hoctets
    obtain hsame | ⟨-, hread⟩ := Pool.body_setBody (p := p) i { p.body i with consumed := true } j
    · rw [hsame] at hoctets
      exact h.memory j octets hoctets
    · rw [hread] at hoctets
      cases hi.symm.trans hoctets
  stream := by
    intro j k hk
    rw [Pool.body_setSource] at hk ⊢
    by_cases hj : j = i
    · subst hj
      rw [Pool.body_setBody_self (Pool.lt_of_stream hi)] at hk ⊢
      exact ⟨(h.stream j k hk).1, by simp⟩
    · have hset := Pool.body_setBody (p := p) i { p.body i with consumed := true } j
      have hsame := hset.resolve_right fun hread => hj hread.1
      rw [hsame] at hk ⊢
      refine ⟨(h.stream j k hk).1, (h.stream j k hk).2.trans ?_⟩
      simp [hj]
  known := by
    intro j hj
    rw [Pool.bodies_setSource, Pool.length_bodies_setBody]
    obtain hj | hj := List.mem_append.mp hj
    · exact h.known j hj
    · rw [List.mem_singleton.mp hj]
      exact Pool.lt_of_stream hi

theorem Owned.read (h : Owned source p ledger) (i : Nat) :
    Owned source (p.read i).2 (ledger ++ if (p.body i).isStreaming then [i] else []) := by
  cases hcontent : (p.body i).content with
  | memory octets =>
    have hmemory : ¬ (p.body i).isStreaming = true := by simp [Body.isStreaming, hcontent]
    rw [Pool.read_of_memory hcontent, if_neg hmemory, List.append_nil]
    exact h
  | stream k =>
    have hstreaming : (p.body i).isStreaming = true := by simp [Body.isStreaming, hcontent]
    obtain ⟨rfl, hledger⟩ := h.stream i k hcontent
    rw [if_pos hstreaming]
    cases hconsumed : (p.body i).consumed with
    | true =>
      rw [Pool.read_of_consumed hcontent hconsumed]
      exact h.again (hledger.mp hconsumed)
    | false =>
      rw [Pool.read_of_unread hcontent hconsumed]
      exact h.first hcontent

theorem Owned.step {x : Step} (h : Owned source s.pool ledger) (hx : x.isTransfer = true) :
    Owned source (s.step x).2.pool (ledger ++ s.readOf x) := by
  cases x with
  | wrap i =>
    rw [show s.readOf (.wrap i) = [] from rfl, List.append_nil]
    exact h
  | take handle =>
    rw [show s.readOf (.take handle) = [] from rfl, List.append_nil]
    exact h.take (s.bodyOf handle)
  | read handle => exact h.read (s.bodyOf handle)
  | bytes | stream | emptied | iterate | next => cases hx

theorem Owned.run (h : Owned source s.pool ledger) {steps : List Step}
    (hsteps : ∀ x ∈ steps, x.isTransfer = true) :
    Owned source (s.run steps).pool (ledger ++ s.reads steps) := by
  induction steps generalizing s ledger with
  | nil =>
    rw [reads, List.append_nil]
    exact h
  | cons x steps ih =>
    have hrest := ih (h.step (hsteps x List.mem_cons_self)) fun y hy =>
      hsteps y (List.mem_cons_of_mem x hy)
    rw [List.append_assoc] at hrest
    exact hrest

/-! ## Reading -/

/-- A body reads as the ledger says. -/
theorem Owned.read_answer (h : Owned source p ledger) (i : Nat) :
    (p.read i).1 =
      if (p.body i).isStreaming then
        if i ∈ ledger then .error .consumed
        else if source.rewinds ∨ ledger = [] then .ok source.chunks.flatten else .ok []
      else .ok [] := by
  cases hcontent : (p.body i).content with
  | memory octets =>
    have hempty := h.memory i octets hcontent
    rw [Pool.read_of_memory hcontent, hempty]
    simp [Body.isStreaming, hcontent]
  | stream k =>
    have hstreaming : (p.body i).isStreaming = true := by simp [Body.isStreaming, hcontent]
    obtain ⟨rfl, hledger⟩ := h.stream i k hcontent
    rw [if_pos hstreaming]
    by_cases hi : i ∈ ledger
    · rw [if_pos hi, Pool.read_of_consumed hcontent (hledger.mpr hi)]
    · have hconsumed : (p.body i).consumed = false := by simpa [hi] using hledger
      rw [if_neg hi, Pool.read_of_unread hcontent hconsumed]
      have hsource : p.source 0 = if ledger = [] then source else source.afterDrain := by
        rw [Pool.source, h.sources]
        rfl
      rw [hsource]
      by_cases hnone : ledger = []
      · simp [hnone]
      · cases hrewinds : source.rewinds <;> simp [hnone, hrewinds, Source.afterDrain]

/-- After a body over a stream was wrapped, taken and read in any way, reading a body that holds the
stream is refused exactly if it was that body that was read before. Otherwise it gives all octets,
or none if another body has been read and the stream delivers once. -/
theorem read_transferred (chunks : List Bytes) (rewinds : Bool) (length : Option Int)
    (steps : List Step) (hsteps : ∀ x ∈ steps, x.isTransfer = true) (h : Handle) :
    let s := opened ⟨chunks, none, rewinds⟩ length
    let t := s.run steps
    (t.step (.read h)).1 = .octets
      (if (t.pool.body (t.bodyOf h)).isStreaming then
        if t.bodyOf h ∈ s.reads steps then .error .consumed
        else if rewinds ∨ s.reads steps = [] then .ok chunks.flatten else .ok []
      else .ok []) := by
  intro s t
  have howned : Owned ⟨chunks, none, rewinds⟩ t.pool (s.reads steps) :=
    (owned_opened ⟨chunks, none, rewinds⟩ length).run hsteps
  exact congrArg Answer.octets (howned.read_answer (t.bodyOf h))

/-- Read through a byte stream, taken and read through it again. -/
theorem read_transferred_by_stream :
    let s := opened ⟨[[97], [98]], none, true⟩ none
    let steps : List Step := [.wrap 0, .read (.stream 0), .take (.stream 0)]
    (∀ x ∈ steps, x.isTransfer = true) ∧ s.reads steps = [0] ∧
      ((s.run steps).step (.read (.body 1))).1 = .octets (.ok [97, 98]) ∧
      ((s.run steps).step (.read (.stream 0))).1 = .octets (.ok []) := by
  intro s steps
  have hsteps : ∀ x ∈ steps, x.isTransfer = true := by decide
  exact ⟨hsteps, rfl, read_transferred _ true none steps hsteps (.body 1),
    read_transferred _ true none steps hsteps (.stream 0)⟩

/-- Once a stream was read, any body that holds it refuses to be read. -/
def RefusesAgain (source : Source) : Prop :=
  ∀ steps : List Step, (∀ x ∈ steps, x.isTransfer = true) → ∀ h,
    let s := opened source none
    let t := s.run steps
    s.reads steps ≠ [] → (t.pool.body (t.bodyOf h)).isStreaming = true →
      (t.step (.read h)).1 = .octets (.error .consumed)

/-- The moved body has not been read, so it is not refused: it reads as empty over a stream that
delivers once, and in full over one that rewinds. -/
theorem not_refusesAgain :
    ¬ RefusesAgain ⟨[[97]], none, false⟩ ∧ ¬ RefusesAgain ⟨[[97]], none, true⟩ := by
  have hsteps : ∀ x ∈ [Step.read (.body 0), .take (.body 0)], x.isTransfer = true := by decide
  constructor
  · intro h
    have hempty := h _ hsteps (.body 1) (by decide) rfl
    cases hempty
  · intro h
    have hagain := h _ hsteps (.body 1) (by decide) rfl
    cases hagain

end Wireform.Session
