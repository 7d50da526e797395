import Wireform.Checksum.Chunked
import Wireform.Percent
import Wireform.Proofs.Base64
import Wireform.Proofs.Body.Reading
import Wireform.Proofs.Checksum.Increments
import Wireform.Proofs.Text.Pieces

/-
  Wireform chunk framing: a reader of the grammar that the frames are written in. `decode_body` says
  that it gets back what was framed. A chunk may hold anything, even octets that look like frames,
  because its length says where it ends; so the proof is an induction over the chunks, with one step
  for a frame that is followed by any octets at all.
-/

namespace Wireform.Chunked

/-! ## The reader -/

/-- What frames stand for: the chunks, and the header that the last frame gives. -/
structure Framed where
  chunks : List Bytes
  name : String
  value : String
  deriving DecidableEq, Repr

/-- What frames stand for that come behind those of `chunks`. -/
def Framed.behind (chunks : List Bytes) (f : Framed) : Framed :=
  { f with chunks := chunks ++ f.chunks }

/-- The text before the first line break, and the octets after it. -/
def cutLine : Bytes → Option (List Char × Bytes)
  | [] => none
  | x :: r =>
    if x = 13 ∧ r.head? = some 10 then some ([], r.tail)
    else (cutLine r).map fun p => (Char.ofNat x.toNat :: p.1, p.2)

/-- A number with one more hexadecimal digit. -/
def withDigit (n : Nat) (c : Char) : Option Nat := (Percent.hexValue? c).map (16 * n + ·)

/-- The number that hexadecimal digits write, if there is one above zero. -/
def readSize (line : List Char) : Option Nat := (line.foldlM withDigit 0).filter (0 < ·)

/-- A line with a length, that many octets, and a line break: the octets, and those after it. -/
def readFrame (b : Bytes) : Option (Bytes × Bytes) := do
  let (line, r) ← cutLine b
  let n ← readSize line
  match ← cutLine (r.drop n) with
  | ([], rest) => return (r.take n, rest)
  | _ => none

/-- A line with a zero, a line with a header in base64, and an empty line: the header, and the
octets after them. -/
def readTrailer (b : Bytes) : Option (Framed × Bytes) := do
  let (zero, r) ← cutLine b
  let (line, r) ← cutLine r
  let (last, rest) ← cutLine r
  match Text.cut ':' line with
  | (name, some value) =>
    if zero = ['0'] ∧ last = [] ∧ (Base64.decode value).isSome then
      return (⟨[], String.ofList name, String.ofList value⟩, rest)
    else none
  | (_, none) => none

theorem cutLine_shrinks {b rest : Bytes} {line : List Char} (h : cutLine b = some (line, rest)) :
    rest.length < b.length := by
  induction b generalizing line with
  | nil => cases h
  | cons x r ih =>
    rw [cutLine] at h
    split at h
    · cases h
      rw [List.length_tail, List.length_cons]
      omega
    · obtain ⟨p, hp, he⟩ := Option.map_eq_some_iff.mp h
      cases he
      exact Nat.lt_succ_of_lt (ih hp)

theorem readFrame_shrinks {b chunk rest : Bytes} (h : readFrame b = some (chunk, rest)) :
    rest.length < b.length := by
  unfold readFrame at h
  obtain ⟨⟨line, r⟩, hline, h⟩ := Option.bind_eq_some_iff.mp h
  obtain ⟨n, -, h⟩ := Option.bind_eq_some_iff.mp h
  obtain ⟨⟨last, r'⟩, hlast, h⟩ := Option.bind_eq_some_iff.mp h
  have hfirst : r.length < b.length := cutLine_shrinks hline
  have hsecond : r'.length < (r.drop n).length := cutLine_shrinks hlast
  rw [List.length_drop] at hsecond
  cases last with
  | nil =>
    cases h
    omega
  | cons c cs => cases h

/-- Reads frames up to the last one: what they stand for, and the octets after it. -/
def decode (b : Bytes) : Option (Framed × Bytes) :=
  match h : readFrame b with
  | some (chunk, rest) =>
    have := readFrame_shrinks h
    (decode rest).map fun p => (p.1.behind [chunk], p.2)
  | none => readTrailer b
termination_by b.length
decreasing_by exact this

theorem decode_of_frame {b chunk rest : Bytes} (h : readFrame b = some (chunk, rest)) :
    decode b = (decode rest).map fun p => (p.1.behind [chunk], p.2) := by
  rw [decode]
  split
  · next hb =>
    rw [h] at hb
    cases hb
    rfl
  · next hb =>
    rw [h] at hb
    cases hb

theorem decode_of_no_frame {b : Bytes} (h : readFrame b = none) : decode b = readTrailer b := by
  rw [decode]
  split
  · next hb =>
    rw [h] at hb
    cases hb
  · rfl

/-! ## Lines -/

/-- Whether a text can stand on a line: it is ASCII and breaks no line. -/
def OnLine (s : List Char) : Prop := ∀ c ∈ s, Text.isAscii c = true ∧ c ≠ '\r'

instance (s : List Char) : Decidable (OnLine s) := List.decidableBAll _ s

theorem onLine_append {s t : List Char} (hs : OnLine s) (ht : OnLine t) : OnLine (s ++ t) := by
  intro c hc
  rcases List.mem_append.mp hc with h | h
  · exact hs c h
  · exact ht c h

theorem cutLine_lineBreak (rest : Bytes) : cutLine (lineBreak ++ rest) = some ([], rest) := rfl

theorem cutLine_ofAscii {s : List Char} (h : OnLine s) (rest : Bytes) :
    cutLine (Bytes.ofAscii s ++ (lineBreak ++ rest)) = some (s, rest) := by
  induction s with
  | nil => rfl
  | cons c s ih =>
    obtain ⟨hascii, hcr⟩ := h c List.mem_cons_self
    have hcode : (Bytes.byte c).toNat = c.toNat := by
      have hlt : c.toNat < 128 := of_decide_eq_true hascii
      exact UInt8.toNat_ofNat_of_lt' (Nat.lt_trans hlt (by decide))
    have hbyte : Bytes.byte c ≠ 13 := by
      intro he
      rw [he] at hcode
      exact hcr (Char.toNat_inj.mp hcode.symm)
    show cutLine (Bytes.byte c :: (Bytes.ofAscii s ++ (lineBreak ++ rest))) = _
    rw [cutLine, if_neg fun he => hbyte he.1, ih fun x hx => h x (List.mem_cons_of_mem c hx),
      Option.map_some, hcode, Char.ofNat_toNat]

/-! ## Lengths

The digits of a number are those of its sixteenth and one more, so both lemmas on them go by strong
induction. -/

theorem onLine_toDigits (n : Nat) : OnLine (Nat.toDigits 16 n) := by
  have hdigit : ∀ d < 16, Text.isAscii (Nat.digitChar d) = true ∧ Nat.digitChar d ≠ '\r' := by
    decide
  induction n using Nat.strongRecOn with
  | ind n ih =>
    intro c hc
    rw [Nat.toDigits_eq_if (by decide)] at hc
    split at hc
    · next hn =>
      rw [List.mem_singleton] at hc
      exact hc ▸ hdigit n hn
    · rw [List.mem_append, List.mem_singleton] at hc
      rcases hc with hc | hc
      · exact ih (n / 16) (by omega) c hc
      · exact hc ▸ hdigit (n % 16) (by omega)

theorem withDigit_digitChar (n : Nat) {d : Nat} (h : d < 16) :
    withDigit n (Nat.digitChar d) = some (16 * n + d) := by
  have hvalue : ∀ d < 16, Percent.hexValue? (Nat.digitChar d) = some d := by decide
  rw [withDigit, hvalue d h, Option.map_some]

theorem foldlM_toDigits (n : Nat) : (Nat.toDigits 16 n).foldlM withDigit 0 = some n := by
  induction n using Nat.strongRecOn with
  | ind n ih =>
    rw [Nat.toDigits_eq_if (by decide)]
    split
    · next hn => simp [withDigit_digitChar 0 hn]
    · have hlast : n % 16 < 16 := Nat.mod_lt n (by decide)
      have hsum : 16 * (n / 16) + n % 16 = n := Nat.div_add_mod n 16
      simp [ih (n / 16) (by omega), withDigit_digitChar _ hlast, hsum]

theorem readSize_toDigits {n : Nat} (h : 0 < n) : readSize (Nat.toDigits 16 n) = some n := by
  rw [readSize, foldlM_toDigits]
  exact Option.filter_some_pos (decide_eq_true h)

/-! ## Frames -/

/-- A frame is read off whatever follows it. -/
theorem readFrame_frame {chunk : Bytes} (h : chunk ≠ []) (rest : Bytes) :
    readFrame (frame chunk ++ rest) = some (chunk, rest) := by
  have hsize : readSize (Nat.toDigits 16 chunk.length) = some chunk.length :=
    readSize_toDigits (List.length_pos_iff.mpr h)
  have hshape : frame chunk ++ rest = Bytes.ofAscii (Nat.toDigits 16 chunk.length) ++
      (lineBreak ++ (chunk ++ (lineBreak ++ rest))) := by
    unfold frame
    simp only [List.append_assoc]
  rw [hshape, readFrame, cutLine_ofAscii (onLine_toDigits chunk.length)]
  dsimp only [Option.bind_eq_bind, Option.bind_some]
  rw [hsize, Option.bind_some, List.drop_left, List.take_left, cutLine_lineBreak]
  rfl

theorem onLine_headerName (a : Algorithm) :
    OnLine a.headerName.toList ∧ ':' ∉ a.headerName.toList := by
  cases a <;> decide

theorem onLine_encode (b : Bytes) : OnLine (Base64.encode b) := by
  have hsign : ∀ n < 64, Text.isAscii (Base64.sign n) = true ∧ Base64.sign n ≠ '\r' := by decide
  intro c hc
  rcases Base64.mem_encode hc with ⟨n, hn, rfl⟩ | rfl
  · exact hsign n hn
  · decide

theorem decode_trailer (a : Algorithm) (digest rest : Bytes) :
    decode (trailer a digest ++ rest) =
      some (⟨[], a.headerName, Base64.text digest⟩, rest) := by
  have hshape : trailer a digest ++ rest = Bytes.ofAscii ['0'] ++ (lineBreak ++
      (Bytes.ofAscii (a.headerName.toList ++ ':' :: Base64.encode digest) ++
        (lineBreak ++ (lineBreak ++ rest)))) := by
    simp [trailer, Bytes.ofAscii]
  have hzero : OnLine ['0'] := by decide
  have hcolon : OnLine [':'] := by decide
  have hline : OnLine (a.headerName.toList ++ ':' :: Base64.encode digest) :=
    onLine_append (onLine_headerName a).1 (onLine_append hcolon (onLine_encode digest))
  -- a zero is no length of a frame
  have hframe : readFrame (trailer a digest ++ rest) = none := by
    rw [hshape, readFrame, cutLine_ofAscii hzero]
    rfl
  rw [decode_of_no_frame hframe, hshape, readTrailer, cutLine_ofAscii hzero]
  dsimp only [Option.bind_eq_bind, Option.bind_some]
  rw [cutLine_ofAscii hline, Option.bind_some, cutLine_lineBreak, Option.bind_some,
    Text.cut_append_sep (onLine_headerName a).2]
  simp [Base64.decode_encode, Base64.text]

theorem decode_frames {chunks : List Bytes} (h : ∀ c ∈ chunks, c ≠ []) (rest : Bytes) :
    decode ((chunks.map frame).flatten ++ rest) =
      (decode rest).map fun p => (p.1.behind chunks, p.2) := by
  induction chunks with
  | nil => exact Option.map_id'.symm
  | cons c cs ih =>
    have hframe : readFrame (frame c ++ ((cs.map frame).flatten ++ rest)) =
        some (c, (cs.map frame).flatten ++ rest) := readFrame_frame (h c List.mem_cons_self) _
    rw [List.map_cons, List.flatten_cons, List.append_assoc, decode_of_frame hframe,
      ih fun x hx => h x (List.mem_cons_of_mem c hx), Option.map_map]
    rfl

/-- A stream that ends has the frames of its chunks, and then a trailer with the checksum of all its
octets. -/
theorem encode_complete (a : Algorithm) (chunks : List Bytes) :
    encode a ⟨chunks, none⟩ =
      ⟨(chunks.filter fun c => !c.isEmpty).map frame ++
        [trailer a (Checksum.ofBytes a chunks.flatten).digest], none⟩ := by
  unfold encode
  dsimp only
  rw [Checksum.foldl_update_new, List.flatten_filter_not_isEmpty]

/-- Frames with their trailer stand for the chunks that hold octets, whatever follows them. -/
theorem decode_encode_append (a : Algorithm) (chunks : List Bytes) (rest : Bytes) :
    decode ((encode a ⟨chunks, none⟩).items.flatten ++ rest) =
      some (⟨chunks.filter fun c => !c.isEmpty, a.headerName,
        Checksum.headerValue a chunks.flatten⟩, rest) := by
  have hfull : ∀ c ∈ chunks.filter fun c => !c.isEmpty, c ≠ [] := by
    intro c hc
    simpa using (List.mem_filter.mp hc).2
  rw [encode_complete, List.flatten_append, List.flatten_singleton, List.append_assoc,
    decode_frames hfull, decode_trailer, Option.map_some, Framed.behind, List.append_nil]
  rfl

/-- The frames of a body that is unread end, and they stand for its chunks with octets in order and
for the checksum of all of them. -/
theorem decode_body (a : Algorithm) {inner : Body Source} (h : inner.Unread) :
    (body a inner).drain.1.failure = none ∧
      decode (body a inner).drain.1.items.flatten =
        some (⟨inner.chunks.filter fun c => !c.isEmpty, a.headerName,
          Checksum.headerValue a inner.chunks.flatten⟩, []) := by
  have hdrain : (body a inner).drain.1 = encode a ⟨inner.chunks, none⟩ := by
    rw [body, Body.drain_ofDrain, Body.drain_of_unread h]
  have hdecode := decode_encode_append a inner.chunks []
  rw [List.append_nil] at hdecode
  rw [hdrain]
  exact ⟨rfl, hdecode⟩

/-- Chunks that look like frames, and one that is empty. -/
theorem decode_body_of_zeros :
    (Body.ofStream (⟨[[48, 13, 10], [], [48]], none, false⟩ : Source) none).Unread ∧
      decode (body .sha1
        (.ofStream ⟨[[48, 13, 10], [], [48]], none, false⟩ none)).drain.1.items.flatten =
          some (⟨[[48, 13, 10], [48]], "x-amz-checksum-sha1",
            Checksum.headerValue .sha1 [48, 13, 10, 48]⟩, []) := by
  have h : (Body.ofStream (⟨[[48, 13, 10], [], [48]], none, false⟩ : Source) none).Unread :=
    Body.unread_ofStream _ _ _
  exact ⟨h, (decode_body .sha1 h).2⟩

end Wireform.Chunked
