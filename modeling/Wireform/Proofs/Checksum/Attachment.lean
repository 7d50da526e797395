import Mathlib.Data.List.Perm.Subperm
import Wireform.Checksum.Transfer
import Wireform.Proofs.Checksum.ChunkedDecoding
import Wireform.Proofs.Headers
import Wireform.Proofs.Outcome

/-
  Wireform checksums in transit: what becomes of a request that a checksum is attached to.
  `attachTo_all_or_nothing` says that a request is left alone unless all of it is done, and what is
  done: octets in memory get a header, and a stream is framed and marked as such. The marks are set,
  so a stream loses the codings that its octets had before. `keepsLines_iff` says that no other line
  is lost.
-/

namespace Wireform.ChecksumTransfer

variable {r r' : Request} {algorithm : String} {required explicit : Bool} {config : ChecksumConfig}
  {a : Algorithm}

/-! ## When a checksum is attached -/

/-- A checksum is wanted wherever it is supported, or it is required, or the caller asks for it. -/
def Wanted (config : ChecksumConfig) (required explicit : Bool) : Prop :=
  config.request = .whenSupported ∨ required = true ∨ explicit = true

/-- A checksum is attached to a request: it is wanted, the text names its algorithm in any case, and
the request has no such header yet. -/
structure Attaches (r : Request) (algorithm : String) (required explicit : Bool)
    (config : ChecksumConfig) (a : Algorithm) : Prop where
  wanted : Wanted config required explicit
  named : Text.lowered algorithm = a.name
  absent : r.headers.contains a.headerName = false

theorem requestEnabled_iff :
    requestEnabled config required explicit = true ↔ Wanted config required explicit := by
  simp [requestEnabled, Wanted, or_assoc]

theorem ofName_of_named (hname : Text.lowered algorithm = a.name) :
    Algorithm.ofName algorithm = .ok a := by
  unfold Algorithm.ofName
  rw [hname]
  cases a <;> rfl

theorem ofName_of_unknown (hno : ∀ a : Algorithm, Text.lowered algorithm ≠ a.name) :
    Algorithm.ofName algorithm = .error ⟨algorithm⟩ := by
  have hfind : (Algorithm.byCost.find? fun a => a.name = Text.lowered algorithm) = none := by
    rw [List.find?_eq_none]
    intro a _ hname
    exact hno a (of_decide_eq_true hname).symm
  unfold Algorithm.ofName
  rw [hfind]

/-! ## What is attached -/

/-- The headers of a stream that is framed, whatever its length. -/
def markedHeaders (a : Algorithm) (h : Headers) : Headers :=
  (h.set "content-encoding" "aws-chunked").set "x-amz-trailer" a.headerName

/-- The headers of a stream that is framed. -/
def framedHeaders (a : Algorithm) (length : Option Int) (h : Headers) : Headers :=
  match length with
  | some n =>
    (markedHeaders a h).set "x-amz-decoded-content-length" (String.ofList (Whole.digits n))
  | none => markedHeaders a h

/-- What becomes of a request that has no checksum of the algorithm. -/
def attached (r : Request) (a : Algorithm) : Attachment :=
  match r.body.content with
  | .memory octets =>
    ⟨{ r with headers := r.headers.set a.headerName (Checksum.headerValue a octets) }, none⟩
  | .stream _ =>
    ⟨{ r with
        headers := framedHeaders a r.body.contentLength r.headers
        body := Chunked.body a r.body.take.1 }, some r.body.take.2⟩

theorem attachTo_of_not_wanted (hno : ¬Wanted config required explicit) :
    attachTo r algorithm required explicit config = (.ok (), ⟨r, none⟩) := by
  have hoff : requestEnabled config required explicit = false :=
    Bool.eq_false_iff.mpr fun hon => hno (requestEnabled_iff.mp hon)
  unfold attachTo attach
  rw [hoff]
  rfl

theorem attachTo_of_unknown (hwanted : Wanted config required explicit)
    (hno : ∀ a : Algorithm, Text.lowered algorithm ≠ a.name) :
    attachTo r algorithm required explicit config = (.error ⟨algorithm⟩, ⟨r, none⟩) := by
  unfold attachTo attach
  rw [requestEnabled_iff.mpr hwanted, ofName_of_unknown hno]
  rfl

theorem attachTo_of_named (hwanted : Wanted config required explicit)
    (hname : Text.lowered algorithm = a.name) :
    attachTo r algorithm required explicit config =
      (.ok (), if r.headers.contains a.headerName then ⟨r, none⟩ else attached r a) := by
  unfold attachTo attach
  rw [requestEnabled_iff.mpr hwanted, ofName_of_named hname]
  show (if r.headers.contains a.headerName = true then pure () else _ :
    ExceptT UnknownAlgorithm (StateM Attachment) Unit).run.run _ = _
  split
  · rfl
  · unfold attached
    obtain ⟨method, path, query, h, content, length, consumed, taken⟩ := r
    cases content with
    | memory octets => rfl
    | stream s => cases length <;> rfl

theorem attachTo_of_attaches (h : Attaches r algorithm required explicit config a) :
    attachTo r algorithm required explicit config = (.ok (), attached r a) := by
  rw [attachTo_of_named h.wanted h.named, h.absent]
  rfl

theorem attached_of_memory (habsent : r.headers.contains a.headerName = false) {octets : Bytes}
    (hcontent : r.body.content = .memory octets) :
    attached r a = ⟨{ r with headers :=
      ⟨r.headers.fields ++ [(a.headerName, Checksum.headerValue a octets)]⟩ }, none⟩ := by
  have hfields := Headers.fields_set_of_absent habsent (Checksum.headerValue a octets)
  rw [Algorithm.lowered_headerName] at hfields
  have hheaders : r.headers.set a.headerName (Checksum.headerValue a octets) =
      ⟨r.headers.fields ++ [(a.headerName, Checksum.headerValue a octets)]⟩ :=
    congrArg Headers.mk hfields
  unfold attached
  rw [hcontent]
  dsimp only
  rw [hheaders]

theorem attached_of_stream {s : Source} (hcontent : r.body.content = .stream s) :
    attached r a = ⟨{ r with
      headers := framedHeaders a r.body.contentLength r.headers
      body := Chunked.body a r.body.take.1 }, some r.body.take.2⟩ := by
  unfold attached
  rw [hcontent]

/-! ## The marks of a stream -/

/-- The names of the headers that mark a stream as framed. -/
def markNames : List String := ["content-encoding", "x-amz-trailer", "x-amz-decoded-content-length"]

/-- The lines that are no marks. -/
def unmarked (h : Headers) : List (String × String) := h.fields.filter fun f => f.1 ∉ markNames

theorem lowered_of_mem_markNames {name : String} (hmark : name ∈ markNames) :
    Text.lowered name = name := by
  have hall : ∀ name ∈ markNames, Text.lowered name = name := by decide
  exact hall name hmark

variable {h : Headers} {length : Option Int}

theorem getAll_set_of_other_mark {name mark value : String} (hname : name ∈ markNames)
    (hmark : mark ∈ markNames) (hne : name ≠ mark) :
    (h.set mark value).getAll name = h.getAll name := by
  refine Headers.getAll_set_of_ne ?_
  rw [lowered_of_mem_markNames hname, lowered_of_mem_markNames hmark]
  exact hne

theorem sublist_set_of_mark {lines : Headers} {mark value : String} (hmark : mark ∈ markNames)
    (hsub : (unmarked lines).Sublist h.fields) :
    (unmarked lines).Sublist (h.set mark value).fields := by
  refine Headers.sublist_set hsub ?_
  intro f hf he
  rw [lowered_of_mem_markNames hmark] at he
  exact of_decide_eq_true (List.mem_filter.mp hf).2 (he ▸ hmark)

/-- The other lines are there in their order. -/
theorem unmarked_sublist (a : Algorithm) (length : Option Int) (h : Headers) :
    (unmarked h).Sublist (framedHeaders a length h).fields := by
  have hmarked : (unmarked h).Sublist (markedHeaders a h).fields :=
    sublist_set_of_mark (by decide) (sublist_set_of_mark (by decide) List.filter_sublist)
  cases length with
  | none => exact hmarked
  | some n => exact sublist_set_of_mark (by decide) hmarked

/-- The length changes no other mark. -/
theorem getAll_framedHeaders_of_mark {name : String} (hname : name ∈ markNames)
    (hne : name ≠ "x-amz-decoded-content-length") :
    (framedHeaders a length h).getAll name = (markedHeaders a h).getAll name := by
  cases length with
  | none => rfl
  | some n => exact getAll_set_of_other_mark hname (by decide) hne

theorem getAll_encoding (a : Algorithm) (length : Option Int) (h : Headers) :
    (framedHeaders a length h).getAll "content-encoding" = ["aws-chunked"] := by
  rw [getAll_framedHeaders_of_mark (by decide) (by decide), markedHeaders,
    getAll_set_of_other_mark (by decide) (by decide) (by decide), Headers.getAll_set_self]

/-- A request over a stream of one octet. -/
def upload (fields : List (String × String)) : Request :=
  ⟨"PUT", "/upload", [], ⟨fields⟩, .ofStream ⟨[[97]], none, false⟩ (some 1)⟩

theorem attaches_upload (fields : List (String × String))
    (h : Headers.contains ⟨fields⟩ "x-amz-checksum-crc32" = false) :
    Attaches (upload fields) "CRC32" false false .standard .crc32 :=
  ⟨Or.inl rfl, by decide, h⟩

/-- Every line is there as often as before, but for the two names that a checksum owns. -/
def KeepsLines (before after : Headers) : Prop :=
  ∀ line : String × String, line.1 ≠ "x-amz-trailer" → line.1 ≠ "x-amz-decoded-content-length" →
    before.fields.count line ≤ after.fields.count line

theorem count_encoding (h : Headers) (value : String) :
    h.fields.count ("content-encoding", value) = (h.getAll "content-encoding").count value := by
  have hcount := Headers.count_getAll h "content-encoding" value
  rw [lowered_of_mem_markNames (by decide)] at hcount
  exact hcount.symm

/-- Framing replaces the codings that the octets had before. -/
theorem keepsLines_framedHeaders :
    KeepsLines h (framedHeaders a length h) ↔
      h.getAll "content-encoding" = [] ∨ h.getAll "content-encoding" = ["aws-chunked"] := by
  rw [← List.subperm_singleton_iff, List.subperm_iff_count]
  constructor
  · intro hkeeps value
    have htrailer : "content-encoding" ≠ "x-amz-trailer" := by decide
    have hlength : "content-encoding" ≠ "x-amz-decoded-content-length" := by decide
    have hline := hkeeps ("content-encoding", value) htrailer hlength
    rw [count_encoding, count_encoding, getAll_encoding] at hline
    exact hline
  · intro hvalues line htrailer hlength
    obtain ⟨name, value⟩ := line
    by_cases hname : name = "content-encoding"
    · subst hname
      rw [count_encoding, count_encoding, getAll_encoding]
      exact hvalues value
    · have hother : name ∉ markNames := by
        simp only [markNames, List.mem_cons, List.not_mem_nil, or_false, not_or]
        exact ⟨hname, htrailer, hlength⟩
      have hunmarked : (unmarked h).count (name, value) = h.fields.count (name, value) := by
        rw [unmarked, List.count_filter]
        exact decide_eq_true hother
      calc h.fields.count (name, value)
          = (unmarked h).count (name, value) := hunmarked.symm
        _ ≤ (framedHeaders a length h).fields.count (name, value) :=
            (unmarked_sublist a length h).count_le _

theorem applyTo_of_attaches (h : Attaches r algorithm required explicit config a) :
    applyTo r algorithm required explicit config = .ok (attached r a).request := by
  unfold applyTo
  rw [attachTo_of_attaches h]
  rfl

/-- A request is left as it is, or its checksum is attached. -/
theorem applyTo_cases (hok : applyTo r algorithm required explicit config = .ok r') :
    (r' = r ∧ ¬∃ a, Attaches r algorithm required explicit config a) ∨
      ∃ a, Attaches r algorithm required explicit config a ∧ r' = (attached r a).request := by
  by_cases hattaches : ∃ a, Attaches r algorithm required explicit config a
  · obtain ⟨a, h⟩ := hattaches
    rw [applyTo_of_attaches h] at hok
    cases hok
    exact Or.inr ⟨a, h, rfl⟩
  · refine Or.inl ⟨?_, hattaches⟩
    unfold applyTo at hok
    by_cases hwanted : Wanted config required explicit
    · by_cases hnamed : ∃ a : Algorithm, Text.lowered algorithm = a.name
      · obtain ⟨a, hname⟩ := hnamed
        have hpresent : r.headers.contains a.headerName = true := by
          rw [← Bool.not_eq_false]
          exact fun habsent => hattaches ⟨a, hwanted, hname, habsent⟩
        rw [attachTo_of_named hwanted hname, if_pos hpresent] at hok
        cases hok
        rfl
      · rw [attachTo_of_unknown hwanted fun a hname => hnamed ⟨a, hname⟩] at hok
        cases hok
    · rw [attachTo_of_not_wanted hwanted] at hok
      cases hok
      rfl

/-- Lines that are no marks stay in their order, and all lines are kept but for the codings of a
stream that is framed. -/
theorem keepsLines_iff (hok : applyTo r algorithm required explicit config = .ok r') :
    (unmarked r.headers).Sublist r'.headers.fields ∧
    (KeepsLines r.headers r'.headers ↔
      ((∃ a, Attaches r algorithm required explicit config a) → r.body.isStreaming = true →
        r.headers.getAll "content-encoding" = [] ∨
          r.headers.getAll "content-encoding" = ["aws-chunked"])) := by
  rcases applyTo_cases hok with ⟨rfl, hno⟩ | ⟨a, h, rfl⟩
  · exact ⟨List.filter_sublist, iff_of_true (fun _ _ _ => Nat.le_refl _) fun h => absurd h hno⟩
  · cases hcontent : r.body.content with
    | memory octets =>
      have hstreams : ¬r.body.isStreaming = true := by simp [Body.isStreaming, hcontent]
      rw [attached_of_memory h.absent hcontent]
      refine ⟨List.filter_sublist.trans (List.sublist_append_left _ _), iff_of_true ?_ ?_⟩
      · intro line _ _
        exact (List.sublist_append_left _ _).count_le line
      · exact fun _ hs => absurd hs hstreams
    | stream s =>
      have hstreams : r.body.isStreaming = true := by simp [Body.isStreaming, hcontent]
      rw [attached_of_stream hcontent]
      refine ⟨unmarked_sublist a _ _, keepsLines_framedHeaders.trans ?_⟩
      exact ⟨fun hvalues _ _ => hvalues, fun himp => himp ⟨a, h⟩ hstreams⟩

/-- An upload without a coding keeps its lines. -/
theorem keepsLines_upload :
    ∃ r', applyTo (upload [("content-type", "text/plain")]) "CRC32" false false .standard = .ok r' ∧
      KeepsLines ⟨[("content-type", "text/plain")]⟩ r'.headers := by
  have hok := applyTo_of_attaches (attaches_upload [("content-type", "text/plain")] rfl)
  exact ⟨_, hok, (keepsLines_iff hok).2.mpr fun _ _ => Or.inl (by decide)⟩

/-- An upload of compressed octets says no longer that they are. -/
theorem not_every_line_kept :
    ¬ ∀ (r r' : Request) (algorithm : String) (required explicit : Bool) (config : ChecksumConfig),
      applyTo r algorithm required explicit config = .ok r' → KeepsLines r.headers r'.headers := by
  intro hall
  have hok := applyTo_of_attaches (attaches_upload [("content-encoding", "gzip")] rfl)
  have hkeeps := hall _ _ _ _ _ _ hok
  rw [attached_of_stream rfl] at hkeeps
  have hvalues := keepsLines_framedHeaders.mp hkeeps
  revert hvalues
  decide

end Wireform.ChecksumTransfer
