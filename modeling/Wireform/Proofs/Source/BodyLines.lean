import Wireform.Proofs.Source.Ambiguity
import Wireform.Proofs.Source.Lines

/-
  Wireform source text: the lines in the bodies of functions that hold texts of the model in
  literals. Every one stands where its function is written (`mem_body`), and none of its literals
  has a quote mark behind it (`apart_of_bodyLine`).
-/

namespace Wireform.Source

/-! ## Bodies of functions -/

/-- The message that a function writes, if it writes a whole one. -/
def Site.written? : Site → Option Exchange
  | operation .writeRequest p => some (.ofRequest p)
  | operation .writeResponse p => some (.ofResponse p)
  | error .write x => some x
  | _ => none

/-- What stands in the field of a literal that tells the method of a request. -/
def requestMethod : Expression := ⟨"request.method", by decide⟩

/-- The part of a path that a segment gives. -/
def segmentPieces (s : Segment) (part : List String × String) : List Piece :=
  if s.isLabel then [.code part.2] else [.literal (.escaped s.content)]

/-- The pieces of a path of parts between slashes. -/
def pathPieces (parts : List (List Piece)) (trailingSlash : Bool) : List Piece :=
  if parts.isEmpty then [.code "\"/\""]
  else .code "\"/\" + \"/\".join([" :: Line.separated parts ++
    [.code ("])" ++ if trailingSlash then " + \"/\"" else "")]

def headerPieces (b : Binding) (sensitive : Bool) : List Piece := [
  .code "        builder.header(", .literal (.escaped b.name),
  .code (", " ++ checkedValue (fieldOf b.member) sensitive ++ ")")]

def prefixHeadersPieces (b : Binding) : List Piece := [
  .code ("        name = _h.checked_header_name(\"" ++ fieldOf b.member ++ "\", "),
  .literal (.escaped b.name), .code " + key)"]

def readHeaderPieces (b : Binding) : List Piece := [
  .code "values = headers.get_all(", .literal (.escaped b.name), .code ")"]

def readPrefixHeaderPieces (b : Binding) : List Piece := [
  .code "pairs = list(_h.headers_for_prefix(headers.names(), ",
  .literal (.escaped b.name), .code "))"]

def emptyKeyPieces (b : Binding) : List Piece := [
  .code "        raise _h.ParseError(f\"header \x7bname!r\x7d has no key after prefix \" + ",
  .literal (.escaped b.name), .code ")"]

def queryLiteralPieces (k v : String) : List Piece := [
  .code "builder.query_param(", .literal (.escaped k), .code ", ", .literal (.escaped v),
  .code ")"]

def queryKeyPieces (b : Binding) (f : Format) : List Piece := [
  .code ((if f.isSingular then "    " else "        ") ++ "builder.query_param("),
  .literal (.escaped b.name), .code (", " ++ encodeExpression f.transform
    (if f.isSingular then attributeOf b.member else "item") ++ ")")]

/-- The keys of a query that have members of their own. -/
def boundKeys (p : Plan) : List String := (Binding.located .query p.request).map (·.name)

def boundKeysPieces (p : Plan) : List Piece :=
  .code "        if key in " :: Line.texts (boundKeys p) ++ [.code ":"]

def methodPieces (p : Plan) : List Piece := [
  .code "builder = _m.HttpRequestBuilder(", .literal (.escaped p.http.method),
  .code (", ser_path_" ++ p.name ++ "(value))")]

/-- The value of the algorithm member `m`, which is an enum or a string. -/
def checksumDefaultPieces (m : Member) (t : Shape) (s : String) : List Piece := [
  .code ("    value = dataclasses.replace(value, " ++ fieldOf m ++ "=" ++
    if t.isEnum then classOf t ++ "(" else ""),
  .literal (.escaped s), .code (if t.isEnum then "))" else ")")]

def mediaTypePieces (s : String) : List Piece := [
  .code "_m.default_content_type(builder, ", .literal (.escaped s), .code ")"]

def methodTestPieces (p : Plan) : List Piece := [
  .code "if request.method.upper() != ", .literal (.escaped (Text.uppered p.http.method)),
  .code ":"]

def methodErrorPieces (p : Plan) : List Piece := [
  .code "    raise _h.ParseError(",
  .literal (.formatted ("expected method " ++ Text.uppered p.http.method ++ " but got ")
    requestMethod), .code ")"]

def readQueryPieces (b : Binding) (f : Format) : List Piece := [
  .code ("    " ++ fieldOf b.member ++ "=_uri.read_query(_uri.query_values(request.query, "),
  .literal (.escaped b.name), .code ("), " ++ converterExpression f true ++ ", singular=" ++
    flagLiteral f.isSingular ++ "),")]

def readLabelPieces (b : Binding) (f : Format) : List Piece := [
  .code ("    " ++ fieldOf b.member ++ "=_uri.read_label(labels, "),
  .literal (.escaped b.name), .code (", " ++ converterExpression f true ++ "),")]

def sensitiveNamesPieces (names : List String) : List Piece :=
  .code "    if name in " :: Line.texts names ++ [.code ":"]

def sensitivePrefixPieces (start : String) : List Piece := [
  .code "    if name.startswith(", .literal (.escaped start), .code "):"]

def sensitiveKeysPieces (keys : List String) : List Piece :=
  .code "    .query(lambda key: _s.QueryMarker(key=False, value=key in " ::
    Line.texts keys ++ [.code "))"]

/-- The lines in the body of a function that hold a text of the model in a literal. -/
inductive BodyLine (w : Writer) : Site → List Piece → Prop
  | header {x : Exchange} {b : Binding} {sensitive : Bool} (hb : b ∈ x.bindings)
      (hl : b.location = .header) (hs : w.isSensitive b.member = .ok sensitive) :
      BodyLine w (.headers x) (headerPieces b sensitive)
  | prefixHeaders {x : Exchange} {b : Binding} (hb : b ∈ x.bindings)
      (hl : b.location = .prefixHeaders) : BodyLine w (.headers x) (prefixHeadersPieces b)
  | readHeader {x : Exchange} {b : Binding} :
      BodyLine w (.member .readHeader x b) (readHeaderPieces b)
  | readPrefixHeader {x : Exchange} {b : Binding} :
      BodyLine w (.member .readPrefixHeader x b) (readPrefixHeaderPieces b)
  | emptyKey {x : Exchange} {b : Binding} (h : .rejectEmptyKeys ∈ w.customizations) :
      BodyLine w (.member .readPrefixHeader x b) (emptyKeyPieces b)
  | path {p : Plan} {parts : List (List String × String)}
      (h : p.http.uri.segments.mapM (pathPart w p) = .ok parts) :
      BodyLine w (.operation .writePath p) (.code "return " :: pathPieces
        (List.zipWith segmentPieces p.http.uri.segments parts) p.http.uri.trailingSlash)
  | queryLiteral {p : Plan} {k v : String} (h : (k, v) ∈ p.http.uri.query) :
      BodyLine w (.operation .writeQuery p) (queryLiteralPieces k v)
  | queryKey {p : Plan} {b : Binding} {f : Format} (hb : b ∈ p.request) (hl : b.location = .query)
      (hf : w.formatOf b = .ok f) : BodyLine w (.operation .writeQuery p) (queryKeyPieces b f)
  | boundKeys {p : Plan} {b : Binding} (hb : b ∈ p.request) (hl : b.location = .queryParams)
      (hkeys : boundKeys p ≠ []) : BodyLine w (.operation .writeQuery p) (boundKeysPieces p)
  | method {p : Plan} : BodyLine w (.operation .writeRequest p) (methodPieces p)
  | checksumDefault {p : Plan} {policy : ChecksumPolicy} {m : Member} {t : Shape} {s : String}
      (hpolicy : p.checksum = some policy) (hm : policy.requestMember = some m)
      (ht : w.model.targetOf m = .ok t) (hs : policy.defaultValue w.model = .ok s) :
      BodyLine w (.operation .writeRequest p) (checksumDefaultPieces m t s)
  | mediaType {site : Site} {x : Exchange} {b : Binding} {t : Shape} {s : String}
      (hx : site.written? = some x) (hb : x.bindings.find? (·.location = .payload) = some b)
      (ht : w.model.targetOf b.member = .ok t) (hkind : t.kind = .blob ∨ t.isString = true)
      (hs : Entries.get? Trait.mediaType t.traits = some (.text s)) :
      BodyLine w site (mediaTypePieces s)
  | methodTest {p : Plan} : BodyLine w (.operation .readRequest p) (methodTestPieces p)
  | methodError {p : Plan} : BodyLine w (.operation .readRequest p) (methodErrorPieces p)
  | readQuery {p : Plan} {b : Binding} {f : Format} (hb : b ∈ p.request)
      (hl : b.location = .query) (hf : w.formatOf b = .ok f) :
      BodyLine w (.operation .readRequest p) (readQueryPieces b f)
  | readLabel {p : Plan} {b : Binding} {f : Format} (hb : b ∈ p.request)
      (hl : b.location = .label) (hf : w.formatOf b = .ok f) :
      BodyLine w (.operation .readRequest p) (readLabelPieces b f)
  | sensitiveNames {p : Plan} {names : List String} (h : names ≠ [])
      (hnames : names = p.coverage.requestHeaders ∨ names = p.coverage.responseHeaders) :
      BodyLine w (.operation .sensitivity p) (sensitiveNamesPieces names)
  | sensitivePrefix {p : Plan} {start : String}
      (h : start ∈ p.coverage.requestPrefixes ++ p.coverage.responsePrefixes) :
      BodyLine w (.operation .sensitivity p) (sensitivePrefixPieces start)
  | sensitiveKeys {p : Plan} (h : p.coverage.queryKeys ≠ [])
      (hall : p.coverage.queryParams = false) :
      BodyLine w (.operation .sensitivity p) (sensitiveKeysPieces p.coverage.queryKeys)

/-! ## The lines are written -/

section

variable {w : Writer} {x : Exchange} {b : Binding} {p : Plan} {d : Definition}

theorem mem_addHeaders {l : String} (h : addHeaders w x = .ok d) (hb : b ∈ x.bindings)
    (hwrites : ∀ ls, addHeaderLines w x b = .ok ls → l ∈ ls) : l ∈ d.body := by
  obtain ⟨lines, hlines, h⟩ := Outcome.bind_eq_ok.mp h
  obtain ⟨ls, hls, hwrite⟩ := Outcome.exists_of_mem_mapM hlines hb
  cases h
  exact List.mem_append_left _ (List.mem_flatten.mpr ⟨ls, hls, hwrites ls hwrite⟩)

theorem mem_headerLines {ls : List String} {sensitive : Bool} (h : headerLines w b = .ok ls)
    (hs : w.isSensitive b.member = .ok sensitive) :
    Line.text (headerPieces b sensitive) ∈ ls := by
  obtain ⟨f, -, h⟩ := Outcome.bind_eq_ok.mp h
  obtain ⟨sensitive', hs', h⟩ := Outcome.bind_eq_ok.mp h
  cases hs.symm.trans hs'
  cases h
  refine List.mem_append_right _ ?_
  simp [headerPieces, String.append_assoc]

theorem mem_prefixHeaderLines {ls : List String} (h : prefixHeaderLines w x b = .ok ls) :
    Line.text (prefixHeadersPieces b) ∈ ls := by
  obtain ⟨f, -, h⟩ := Outcome.bind_eq_ok.mp h
  obtain ⟨sensitive, -, h⟩ := Outcome.bind_eq_ok.mp h
  cases h
  refine List.mem_append_right _ ?_
  simp [prefixHeadersPieces, String.append_assoc]

theorem mem_readHeader (h : readHeader w x b = .ok d) :
    Line.text (readHeaderPieces b) ∈ d.body := by
  obtain ⟨f, -, h⟩ := Outcome.bind_eq_ok.mp h
  obtain ⟨hint, -, h⟩ := Outcome.bind_eq_ok.mp h
  cases h
  simp [readHeaderPieces, String.append_assoc]

theorem mem_readPrefixHeader (h : readPrefixHeader w x b = .ok d) :
    Line.text (readPrefixHeaderPieces b) ∈ d.body := by
  obtain ⟨f, -, h⟩ := Outcome.bind_eq_ok.mp h
  obtain ⟨hint, -, h⟩ := Outcome.bind_eq_ok.mp h
  cases h
  simp [readPrefixHeaderPieces, String.append_assoc]

theorem mem_emptyKey (hcs : .rejectEmptyKeys ∈ w.customizations)
    (h : readPrefixHeader w x b = .ok d) : Line.text (emptyKeyPieces b) ∈ d.body := by
  obtain ⟨f, -, h⟩ := Outcome.bind_eq_ok.mp h
  obtain ⟨hint, -, h⟩ := Outcome.bind_eq_ok.mp h
  cases h
  have hline : Line.text (emptyKeyPieces b) ∈ w.customLines x b .beforeReading := by
    refine List.mem_flatMap.mpr ⟨_, hcs, ?_⟩
    simp [Customization.rejectEmptyKeys, emptyKeyPieces, textLiteral, String.append_assoc]
  simp only [List.append_assoc, List.mem_append]
  exact Or.inr (Or.inl hline)

/-! ## Paths -/

theorem text_segmentPieces {s : Segment} {part : List String × String}
    (h : pathPart w p s = .ok part) : Line.text (segmentPieces s part) = part.2 := by
  unfold pathPart at h
  unfold segmentPieces
  cases hlabel : s.isLabel with
  | true => exact Line.text_singleton _
  | false =>
    rw [hlabel] at h
    cases h
    exact Line.text_singleton _

theorem map_text_segmentPieces {segments : List Segment} {parts : List (List String × String)}
    (h : List.Forall₂ (fun s part => pathPart w p s = .ok part) segments parts) :
    (List.zipWith segmentPieces segments parts).map Line.text = parts.map (·.2) := by
  induction h with
  | nil => rfl
  | cons hpart _ ih =>
    rw [List.zipWith_cons_cons, List.map_cons, List.map_cons, ih, text_segmentPieces hpart]

theorem text_pathPieces (parts : List (List Piece)) (trailingSlash : Bool) :
    Line.text (pathPieces parts trailingSlash) =
      pathExpression (parts.map Line.text) trailingSlash := by
  unfold pathPieces pathExpression
  cases parts with
  | nil => exact Line.text_singleton _
  | cons l ls =>
    rw [List.isEmpty_cons, List.map_cons, List.isEmpty_cons, if_neg Bool.false_ne_true,
      if_neg Bool.false_ne_true, List.cons_append, Line.text_cons, Line.text_append,
      Line.text_singleton, Line.text_separated]
    simp [String.append_assoc]

theorem mem_writePath {parts : List (List String × String)}
    (hparts : p.http.uri.segments.mapM (pathPart w p) = .ok parts) (h : writePath w p = .ok d) :
    Line.text (.code "return " :: pathPieces
      (List.zipWith segmentPieces p.http.uri.segments parts) p.http.uri.trailingSlash) ∈
        d.body := by
  obtain ⟨parts', hparts', h⟩ := Outcome.bind_eq_ok.mp h
  cases hparts.symm.trans hparts'
  cases h
  have htexts := map_text_segmentPieces (Outcome.mapM_eq_ok.mp hparts)
  rw [Line.text_cons, text_pathPieces, htexts]
  exact List.mem_append_right _ List.mem_cons_self

/-! ## Queries -/

theorem mem_queryLiteral {k v : String} (hquery : (k, v) ∈ p.http.uri.query)
    (h : writeQuery w p = .ok d) : Line.text (queryLiteralPieces k v) ∈ d.body := by
  obtain ⟨lines, -, h⟩ := Outcome.bind_eq_ok.mp h
  obtain ⟨maps, -, h⟩ := Outcome.bind_eq_ok.mp h
  cases h
  simp only [List.append_assoc, List.mem_append]
  refine Or.inl (List.mem_map.mpr ⟨(k, v), hquery, ?_⟩)
  simp [queryLiteralPieces, String.append_assoc]

theorem mem_located {l : Location} {bs : List Binding} (hb : b ∈ bs) (hl : b.location = l) :
    b ∈ Binding.located l bs := List.mem_filter.mpr ⟨hb, decide_eq_true hl⟩

theorem mem_queryKey {f : Format} (hb : b ∈ p.request) (hl : b.location = .query)
    (hf : w.formatOf b = .ok f) (h : writeQuery w p = .ok d) :
    Line.text (queryKeyPieces b f) ∈ d.body := by
  obtain ⟨lines, hlines, h⟩ := Outcome.bind_eq_ok.mp h
  obtain ⟨maps, -, h⟩ := Outcome.bind_eq_ok.mp h
  cases h
  obtain ⟨ls, hls, hwrite⟩ := Outcome.exists_of_mem_mapM hlines (mem_located hb hl)
  obtain ⟨f', hf', hwrite⟩ := Outcome.bind_eq_ok.mp hwrite
  cases hf.symm.trans hf'
  cases hwrite
  simp only [List.append_assoc, List.mem_append]
  refine Or.inr (Or.inl (List.mem_flatten.mpr ⟨_, hls, ?_⟩))
  unfold queryKeyPieces
  cases f.isSingular with
  | true => simp [String.append_assoc, -String.reduceAppend]
  | false => simp [String.append_assoc, -String.reduceAppend]

theorem mem_boundKeys (hb : b ∈ p.request) (hl : b.location = .queryParams)
    (hkeys : boundKeys p ≠ []) (h : writeQuery w p = .ok d) :
    Line.text (boundKeysPieces p) ∈ d.body := by
  obtain ⟨lines, -, h⟩ := Outcome.bind_eq_ok.mp h
  obtain ⟨maps, hmaps, h⟩ := Outcome.bind_eq_ok.mp h
  cases h
  obtain ⟨ls, hls, hwrite⟩ := Outcome.exists_of_mem_mapM hmaps (mem_located hb hl)
  obtain ⟨f, -, hwrite⟩ := Outcome.bind_eq_ok.mp hwrite
  cases hwrite
  have hnames : (boundKeys p).isEmpty = false := List.isEmpty_eq_false_iff.mpr hkeys
  unfold boundKeys at hnames
  simp only [List.append_assoc, List.mem_append]
  refine Or.inr (Or.inr (Or.inl (List.mem_flatten.mpr ⟨_, hls, ?_⟩)))
  unfold boundKeysPieces boundKeys
  rw [hnames, Line.text_around]
  exact List.mem_append_left _ (List.mem_cons_of_mem _ (List.mem_append_right _
    List.mem_cons_self))

/-! ## Requests -/

theorem mem_method (h : writeRequest w (.ofRequest p) = .ok d) :
    Line.text (methodPieces p) ∈ d.body := by
  obtain ⟨defaults, -, h⟩ := Outcome.bind_eq_ok.mp h
  obtain ⟨body, -, h⟩ := Outcome.bind_eq_ok.mp h
  cases h
  simp [methodPieces, String.append_assoc, Exchange.ofRequest]

theorem mem_checksumDefaultLines {policy : ChecksumPolicy} {m : Member} {t : Shape} {s : String}
    {ls : List String} (hpolicy : p.checksum = some policy) (hm : policy.requestMember = some m)
    (ht : w.model.targetOf m = .ok t) (hs : policy.defaultValue w.model = .ok s)
    (h : checksumDefaultLines w p = .ok ls) : Line.text (checksumDefaultPieces m t s) ∈ ls := by
  unfold checksumDefaultLines at h
  rw [algorithmMember_eq.mpr ⟨hpolicy, hm⟩] at h
  dsimp only at h
  rw [ht, hs] at h
  cases h
  unfold checksumDefaultPieces
  cases t.isEnum with
  | true => simp [String.append_assoc]
  | false => simp [String.append_assoc]

theorem mem_checksumDefault {policy : ChecksumPolicy} {m : Member} {t : Shape} {s : String}
    (hpolicy : p.checksum = some policy) (hm : policy.requestMember = some m)
    (ht : w.model.targetOf m = .ok t) (hs : policy.defaultValue w.model = .ok s)
    (h : writeRequest w (.ofRequest p) = .ok d) :
    Line.text (checksumDefaultPieces m t s) ∈ d.body := by
  obtain ⟨defaults, hdefaults, h⟩ := Outcome.bind_eq_ok.mp h
  obtain ⟨body, -, h⟩ := Outcome.bind_eq_ok.mp h
  cases h
  simp only [List.append_assoc, List.mem_append]
  exact Or.inl (mem_checksumDefaultLines hpolicy hm ht hs hdefaults)

/-! ## Bodies of messages -/

theorem mediaExpression_of_text {t : Shape} {s : String}
    (hkind : t.kind = .blob ∨ t.isString = true)
    (hs : Entries.get? Trait.mediaType t.traits = some (.text s)) :
    mediaExpression t = textLiteral s := by
  have htext : (Json.text s).compact = textLiteral s := rfl
  unfold mediaExpression
  dsimp only
  rw [hs, Option.getD_some, Option.getD_some, htext]
  split
  · rfl
  · next hblob => rw [if_pos (hkind.resolve_left hblob)]

theorem mem_bodyLines {t : Shape} {s : String} {ls : List String}
    (hb : x.bindings.find? (·.location = .payload) = some b)
    (ht : w.model.targetOf b.member = .ok t) (hkind : t.kind = .blob ∨ t.isString = true)
    (hs : Entries.get? Trait.mediaType t.traits = some (.text s)) (h : bodyLines w x = .ok ls) :
    Line.text (mediaTypePieces s) ∈ ls := by
  unfold bodyLines at h
  rw [hb] at h
  dsimp only at h
  rw [ht] at h
  cases h
  rw [mediaExpression_of_text hkind hs]
  simp [mediaTypePieces, String.append_assoc]

theorem mem_mediaType {site : Site} {t : Shape} {s : String} (hx : site.written? = some x)
    (hb : x.bindings.find? (·.location = .payload) = some b)
    (ht : w.model.targetOf b.member = .ok t) (hkind : t.kind = .blob ∨ t.isString = true)
    (hs : Entries.get? Trait.mediaType t.traits = some (.text s)) (h : site.write w = .ok d) :
    Line.text (mediaTypePieces s) ∈ d.body := by
  have hresponse : ∀ {status : Int} {ls : List String}, responseLines w x status = .ok ls →
      Line.text (mediaTypePieces s) ∈ ls := by
    intro status ls h
    obtain ⟨body, hbody, h⟩ := Outcome.bind_eq_ok.mp h
    cases h
    simp only [List.append_assoc, List.mem_append]
    exact Or.inr (Or.inr (Or.inl (mem_bodyLines hb ht hkind hs hbody)))
  cases site with
  | operation role p =>
    cases role with
    | writeRequest =>
      cases hx
      obtain ⟨defaults, -, h⟩ := Outcome.bind_eq_ok.mp h
      obtain ⟨body, hbody, h⟩ := Outcome.bind_eq_ok.mp h
      cases h
      simp only [List.append_assoc, List.mem_append]
      exact Or.inr (Or.inr (Or.inl (mem_bodyLines hb ht hkind hs hbody)))
    | writeResponse =>
      cases hx
      obtain ⟨ls, hls, h⟩ := Outcome.bind_eq_ok.mp h
      cases h
      exact hresponse hls
    | writePath | writeQuery | readRequest | readResponse | sensitivity => cases hx
  | error role y =>
    cases role with
    | write =>
      cases hx
      obtain ⟨status, -, h⟩ := Outcome.bind_eq_ok.mp h
      obtain ⟨ls, hls, h⟩ := Outcome.bind_eq_ok.mp h
      cases h
      exact hresponse hls
    | read => cases hx
  | headers y => cases hx
  | member role y c => cases hx

/-! ## Reading requests -/

theorem mem_methodTest (h : readRequest w (.ofRequest p) = .ok d) :
    Line.text (methodTestPieces p) ∈ d.body := by
  obtain ⟨result, -, h⟩ := Outcome.bind_eq_ok.mp h
  cases h
  simp [methodTestPieces, String.append_assoc, Exchange.ofRequest]

theorem mem_methodError (h : readRequest w (.ofRequest p) = .ok d) :
    Line.text (methodErrorPieces p) ∈ d.body := by
  have hstart : "    raise _h.ParseError(f\"expected method " =
      "    raise _h.ParseError(" ++ "f\"" ++ "expected method " := by decide
  have hend : " but got \x7brequest.method\x7d\")" =
      " but got " ++ "\x7b" ++ "request.method" ++ "\x7d\"" ++ ")" := by decide
  obtain ⟨result, -, h⟩ := Outcome.bind_eq_ok.mp h
  cases h
  refine List.mem_append_left _ (List.mem_cons_of_mem _ (List.mem_cons.mpr (Or.inl ?_)))
  rw [hstart, hend]
  simp [methodErrorPieces, requestMethod, String.append_assoc, Exchange.ofRequest,
    -String.reduceAppend]

/-- What is assigned to a field stands on a line of its own. -/
theorem mem_resultLines {message a : String} {ls : List String} (hb : b ∈ x.bindings)
    (ha : assignment w x message b = .ok (some a)) (h : resultLines w x message = .ok ls) :
    "    " ++ a ++ "," ∈ ls := by
  obtain ⟨as, has, h⟩ := Outcome.bind_eq_ok.mp h
  obtain ⟨a', ha', hwrite⟩ := Outcome.exists_of_mem_mapM has hb
  cases ha.symm.trans hwrite
  have hmem : a ∈ as.filterMap id := List.mem_filterMap.mpr ⟨some a, ha', rfl⟩
  split at h
  · next hnil =>
    rw [hnil] at hmem
    cases hmem
  · cases h
    refine List.mem_append_left _ (List.mem_append_right _ ?_)
    exact List.mem_map.mpr ⟨a, hmem, rfl⟩

theorem mem_readRequest {a : String} (hb : b ∈ p.request)
    (ha : assignment w (.ofRequest p) "request" b = .ok (some a))
    (h : readRequest w (.ofRequest p) = .ok d) : "    " ++ a ++ "," ∈ d.body := by
  obtain ⟨result, hresult, h⟩ := Outcome.bind_eq_ok.mp h
  cases h
  exact List.mem_append_right _ (mem_resultLines hb ha hresult)

theorem mem_readQuery {f : Format} (hb : b ∈ p.request) (hl : b.location = .query)
    (hf : w.formatOf b = .ok f) (h : readRequest w (.ofRequest p) = .ok d) :
    Line.text (readQueryPieces b f) ∈ d.body := by
  have ha : assignment w (.ofRequest p) "request" b = .ok (some (fieldOf b.member ++ "=" ++
      ("_uri.read_query(_uri.query_values(" ++ "request" ++ ".query, " ++
        textLiteral b.name ++ "), " ++ converterExpression f true ++ ", singular=" ++
        flagLiteral f.isSingular ++ ")"))) := by
    unfold assignment
    rw [hl]
    dsimp only
    rw [hf]
    rfl
  have hcall : "=_uri.read_query(_uri.query_values(request.query, " =
      "=" ++ "_uri.read_query(_uri.query_values(" ++ "request" ++ ".query, " := by decide
  have hend : ")," = ")" ++ "," := by decide
  have hline := mem_readRequest hb ha h
  unfold readQueryPieces
  rw [hcall, hend]
  simpa [String.append_assoc, -String.reduceAppend] using hline

theorem mem_readLabel {f : Format} (hb : b ∈ p.request) (hl : b.location = .label)
    (hf : w.formatOf b = .ok f) (h : readRequest w (.ofRequest p) = .ok d) :
    Line.text (readLabelPieces b f) ∈ d.body := by
  have ha : assignment w (.ofRequest p) "request" b = .ok (some (fieldOf b.member ++ "=" ++
      ("_uri.read_label(labels, " ++ textLiteral b.name ++ ", " ++
        converterExpression f true ++ ")"))) := by
    unfold assignment
    rw [hl]
    dsimp only
    rw [hf]
    rfl
  have hcall : "=_uri.read_label(labels, " = "=" ++ "_uri.read_label(labels, " := by decide
  have hend : ")," = ")" ++ "," := by decide
  have hline := mem_readRequest hb ha h
  unfold readLabelPieces
  rw [hcall, hend]
  simpa [String.append_assoc, -String.reduceAppend] using hline

/-! ## Sensitivity -/

theorem mem_requestMarks {l : String} (hany : p.coverage.hasRequestHeaders = true)
    (h : l ∈ headerMarkLines "request_header" p.coverage.requestHeaders
      p.coverage.requestPrefixes) : l ∈ (sensitivity p).body := by
  unfold sensitivity
  dsimp only
  rw [hany, if_pos rfl]
  exact List.mem_append_left _ (List.mem_append_left _ h)

theorem mem_responseMarks {l : String} (hany : p.coverage.hasResponseHeaders = true)
    (h : l ∈ headerMarkLines "response_header" p.coverage.responseHeaders
      p.coverage.responsePrefixes) : l ∈ (sensitivity p).body := by
  unfold sensitivity
  dsimp only
  rw [hany, if_pos rfl]
  exact List.mem_append_left _ (List.mem_append_right _ h)

theorem mem_namesTest {function : String} {names prefixes : List String} (h : names ≠ []) :
    Line.text (sensitiveNamesPieces names) ∈ headerMarkLines function names prefixes := by
  have hnames : names.isEmpty = false := List.isEmpty_eq_false_iff.mpr h
  unfold headerMarkLines sensitiveNamesPieces
  rw [Line.text_around, hnames, if_neg Bool.false_ne_true]
  exact List.mem_append_left _ (List.mem_append_left _
    (List.mem_cons_of_mem _ List.mem_cons_self))

theorem mem_prefixTest {function start : String} {names prefixes : List String}
    (h : start ∈ prefixes) :
    Line.text (sensitivePrefixPieces start) ∈ headerMarkLines function names prefixes := by
  refine List.mem_append_left _ (List.mem_append_right _ (List.mem_flatMap.mpr ⟨start, h, ?_⟩))
  simp [prefixMarkLines, sensitivePrefixPieces, String.append_assoc]

theorem mem_sensitiveNames {names : List String} (h : names ≠ [])
    (hnames : names = p.coverage.requestHeaders ∨ names = p.coverage.responseHeaders) :
    Line.text (sensitiveNamesPieces names) ∈ (sensitivity p).body := by
  rcases hnames with rfl | rfl
  · refine mem_requestMarks ?_ (mem_namesTest h)
    unfold Coverage.hasRequestHeaders
    rw [List.isEmpty_eq_false_iff.mpr h]
    rfl
  · refine mem_responseMarks ?_ (mem_namesTest h)
    unfold Coverage.hasResponseHeaders
    rw [List.isEmpty_eq_false_iff.mpr h]
    rfl

theorem mem_sensitivePrefix {start : String}
    (h : start ∈ p.coverage.requestPrefixes ++ p.coverage.responsePrefixes) :
    Line.text (sensitivePrefixPieces start) ∈ (sensitivity p).body := by
  rcases List.mem_append.mp h with h | h
  · refine mem_requestMarks ?_ (mem_prefixTest h)
    unfold Coverage.hasRequestHeaders
    rw [List.isEmpty_eq_false_iff.mpr (List.ne_nil_of_mem h), Bool.not_false, Bool.or_true]
  · refine mem_responseMarks ?_ (mem_prefixTest h)
    unfold Coverage.hasResponseHeaders
    rw [List.isEmpty_eq_false_iff.mpr (List.ne_nil_of_mem h), Bool.not_false, Bool.or_true]

theorem mem_clauseCalls {call : String} (h : call ∈ clauseCalls p.coverage) :
    indent call ∈ (sensitivity p).body := by
  refine List.mem_append_right _ ?_
  split
  · next hnil =>
    rw [hnil] at h
    cases h
  · refine List.mem_append_left _ (List.mem_cons_of_mem _ ?_)
    exact List.mem_map_of_mem (List.mem_cons_of_mem _ h)

theorem mem_sensitiveKeys (h : p.coverage.queryKeys ≠ [])
    (hall : p.coverage.queryParams = false) :
    Line.text (sensitiveKeysPieces p.coverage.queryKeys) ∈ (sensitivity p).body := by
  have hkeys : p.coverage.queryKeys.isEmpty = false := List.isEmpty_eq_false_iff.mpr h
  have hcall : ".query(lambda key: _s.QueryMarker(key=False, value=key in " ++
      textsLiteral p.coverage.queryKeys ++ "))" ∈ clauseCalls p.coverage := by
    unfold clauseCalls
    rw [hall, hkeys, if_neg Bool.false_ne_true, if_neg Bool.false_ne_true]
    simp only [List.mem_append]
    exact Or.inl (Or.inr List.mem_cons_self)
  have hcode : "    .query(lambda key: _s.QueryMarker(key=False, value=key in " =
      "    " ++ ".query(lambda key: _s.QueryMarker(key=False, value=key in " := by decide
  have hline := mem_clauseCalls hcall
  unfold sensitiveKeysPieces
  rw [Line.text_around, hcode]
  unfold indent at hline
  simpa only [String.append_assoc] using hline

/-! ## All lines of bodies -/

/-- The lines stand in the bodies of their functions. -/
theorem mem_body {site : Site} {l : List Piece} (h : BodyLine w site l)
    (hd : site.write w = .ok d) : Line.text l ∈ d.body := by
  cases h with
  | header hb hl hs =>
    refine mem_addHeaders hd hb fun ls hls => ?_
    unfold addHeaderLines at hls
    rw [hl] at hls
    exact mem_headerLines hls hs
  | prefixHeaders hb hl =>
    refine mem_addHeaders hd hb fun ls hls => ?_
    unfold addHeaderLines at hls
    rw [hl] at hls
    exact mem_prefixHeaderLines hls
  | readHeader => exact mem_readHeader hd
  | readPrefixHeader => exact mem_readPrefixHeader hd
  | emptyKey hcs => exact mem_emptyKey hcs hd
  | path hparts => exact mem_writePath hparts hd
  | queryLiteral hquery => exact mem_queryLiteral hquery hd
  | queryKey hb hl hf => exact mem_queryKey hb hl hf hd
  | boundKeys hb hl hkeys => exact mem_boundKeys hb hl hkeys hd
  | method => exact mem_method hd
  | checksumDefault hpolicy hm ht hs => exact mem_checksumDefault hpolicy hm ht hs hd
  | mediaType hx hb ht hkind hs => exact mem_mediaType hx hb ht hkind hs hd
  | methodTest => exact mem_methodTest hd
  | methodError => exact mem_methodError hd
  | readQuery hb hl hf => exact mem_readQuery hb hl hf hd
  | readLabel hb hl hf => exact mem_readLabel hb hl hf hd
  | sensitiveNames h hnames =>
    cases hd
    exact mem_sensitiveNames h hnames
  | sensitivePrefix h =>
    cases hd
    exact mem_sensitivePrefix h
  | sensitiveKeys h hall =>
    cases hd
    exact mem_sensitiveKeys h hall

theorem text_ne_empty {c : String} {l : List Piece} (h : c ≠ "") :
    Line.text (.code c :: l) ≠ "" := by
  rw [Line.text_cons]
  exact fun hnil => h (String.append_eq_empty_iff.mp hnil).1

/-- None of the lines is empty. -/
theorem bodyLine_ne_empty {site : Site} {l : List Piece} (h : BodyLine w site l) :
    Line.text l ≠ "" := by
  cases h with
  | prefixHeaders | queryKey | checksumDefault | readQuery | readLabel =>
    refine text_ne_empty fun hnil => ?_
    simp [String.append_eq_empty_iff] at hnil
  | _ => exact text_ne_empty (by decide)

/-! ## Literals in the lines -/

theorem leads_segmentPieces (s : Segment) (part : List String × String) :
    Line.Leads (segmentPieces s part) := by
  unfold segmentPieces
  split
  · exact Line.leads_code _
  · exact Line.leads_literal _

theorem leads_zipWith_segmentPieces (segments : List Segment)
    (parts : List (List String × String)) :
    ∀ l ∈ List.zipWith segmentPieces segments parts, Line.Leads l := by
  induction segments generalizing parts with
  | nil => exact nofun
  | cons s segments ih =>
    cases parts with
    | nil => exact nofun
    | cons part parts =>
      intro l hl
      rcases List.mem_cons.mp hl with rfl | hl
      · exact leads_segmentPieces s part
      · exact ih parts l hl

theorem apart_pathPieces {parts : List (List Piece)} (h : ∀ l ∈ parts, Line.Leads l)
    (trailingSlash : Bool) : Line.Apart (pathPieces parts trailingSlash) := by
  unfold pathPieces
  split
  · trivial
  · exact Line.leads_separated h _
      (Line.opens_cons _ (Piece.isOpen_append _ (by decide))) trivial

theorem apart_single {before after : String} {x : Quotation}
    (h : (Piece.code after).isOpen = true) :
    Line.Apart [.code before, .literal x, .code after] := ⟨Line.opens_cons _ h, trivial⟩

theorem apart_around {before after : String} (ts : List String)
    (h : (Piece.code after).isOpen = true) :
    Line.Apart (.code before :: Line.texts ts ++ [.code after]) :=
  Line.leads_texts ts _ (Line.opens_cons _ h) trivial

/-- No literal of a line has a quote mark behind it. -/
theorem apart_of_bodyLine {site : Site} {l : List Piece} (h : BodyLine w site l) :
    Line.Apart l := by
  cases h with
  | header | method | queryKey | readQuery | readLabel =>
    exact apart_single (by simp [Piece.isOpen])
  | prefixHeaders | readHeader | readPrefixHeader | emptyKey | mediaType | methodTest
  | methodError | sensitivePrefix => exact apart_single (by decide)
  | path => exact apart_pathPieces (leads_zipWith_segmentPieces _ _) _
  | queryLiteral => exact ⟨Line.opens_cons _ (by decide), Line.opens_cons _ (by decide), trivial⟩
  | boundKeys | sensitiveNames | sensitiveKeys => exact apart_around _ (by decide)
  | checksumDefault =>
    refine apart_single ?_
    split <;> decide

end

end Wireform.Source
