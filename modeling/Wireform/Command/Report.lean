import Wireform.Generate
import Wireform.Text.Cells
import Wireform.Text.Markup

/-
  Wireform reports: what is known about the operations of a service, as a document and as tables.
-/

namespace Wireform.Report

/-! ## Bindings -/

/-- The bindings of each message of an operation; errors stand under their names. -/
def messages (p : Plan) : List (String × List Binding) :=
  Entries.ofPairs ([("request", p.request), ("response", p.response)] ++
    p.errors.map fun (e, bs) => (e.name, bs))

/-! ## As a document -/

def texts (ts : List String) : Json := .list (ts.map .text)

def bindingJson (b : Binding) : Json := .map [
  ("member", .text b.member.name),
  ("location", .text b.location.name),
  ("name", if b.name = "" then .null else .text b.name)]

def checksumJson (c : Option ChecksumPolicy) : Json := .map [
  ("requestAlgorithmMember", match c.bind (·.requestMember) with
    | some m => .text m.name
    | none => .null),
  ("responseAlgorithms", texts (c.toList.flatMap fun p => p.responseAlgorithms.map (·.name)))]

def coverageJson (c : Coverage) : Json := .map [
  ("path", .list (c.path.map fun n : Nat => Json.whole n)),
  ("query", texts c.queryKeys),
  ("queryParams", .flag c.queryParams),
  ("requestHeaders", texts c.requestHeaders),
  ("requestPrefixHeaders", texts c.requestPrefixes),
  ("responseHeaders", texts c.responseHeaders),
  ("responsePrefixHeaders", texts c.responsePrefixes),
  ("statusCode", .flag c.statusCode)]

def planJson (p : Plan) : Json := .map [
  ("method", .text p.http.method),
  ("uri", .text p.http.uri.text),
  ("code", .whole p.http.code),
  ("bindings", .map ((messages p).map fun (n, bs) => (n, .list (bs.map bindingJson)))),
  ("checksum", checksumJson p.checksum),
  ("sensitive", coverageJson p.coverage)]

def protocolJson (p : Protocol) : Json := .map [
  ("name", .text p.name),
  ("trait", .text p.trait),
  ("supports_http_bindings", .flag p.supportsHttp),
  ("supports_label_binding", .flag p.supportsLabels),
  ("supports_streaming_blob", .flag p.supportsStreaming),
  ("default_timestamp_format", .text p.timestampFormat.name),
  ("default_checksum_algorithm", .text p.checksum)]

/-- The report as a document; an operation stands under its name. -/
def toJson (x : ServicePlan) : Json := .map [
  ("service", .text x.service.id),
  ("protocol", protocolJson x.protocol),
  ("operations", .map (Entries.ofPairs (x.plans.map fun p => (p.operation.name, planJson p))))]

/-! ## As tables -/

/-- The text of a cell with blanks up to a width. -/
def padTo (width : Nat) (s : String) : String :=
  s ++ String.ofList (List.replicate (width - Text.cells s) ' ')

/-- The lines of a cell. -/
def cellLines (s : String) : List String := (Text.pieces '\n' s.toList).map String.ofList

/-- The rows of single lines that a row of cells takes: as many as its highest cell has lines. -/
def lineRows (row : List String) : List (List String) :=
  let cells := row.map cellLines
  (List.range ((cells.map List.length).foldl Nat.max 0)).map fun i => cells.map (·.getD i "")

/-- The width of each column. -/
def widths : List (List String) → List Nat
  | [] => []
  | [r] => r.map Text.cells
  | r :: rs => List.zipWith Nat.max (r.map Text.cells) (widths rs)

/-- The lines of a table: every cell is as wide as its column, and two blanks follow it. -/
def tableLines (start : String) (between : String) (rows : List (List String)) : List String :=
  let rows := rows.flatMap lineRows
  let ws := widths rows
  rows.map fun r => start ++ between.intercalate (List.zipWith padTo ws r) ++ "  "

/-- A part of the report that is printed at once: its lines, unless a text in it has a mark that
ends nothing. -/
abbrev Part := Except Text.Markup.Fault (List String)

/-- A line of marked-up text. -/
def line (s : String) : Part := (Text.Markup.shown s).map ([·])

/-- A table whose cells are marked-up texts. -/
def table (start : String) (between : String) (rows : List (List String)) : Part :=
  (rows.mapM fun r : List String => r.mapM Text.Markup.shown).map (tableLines start between)

def serviceParts (x : ServicePlan) : List Part := [
  line "Service",
  table "  " "    " [
    ["Id", x.service.id],
    ["Protocol", x.protocol.name],
    ["Timestamps", x.protocol.timestampFormat.name]],
  line ""]

/-- The parts of an exchange that are hidden in logs. -/
def hiddenParts (c : Coverage) : List String :=
  (if c.hasPath then ["path"] else []) ++ (if c.hasQuery then ["query"] else []) ++
  (if c.hasRequestHeaders || c.hasResponseHeaders then ["headers"] else []) ++
  (if c.statusCode then ["status"] else [])

/-- The parts for one operation. The heading is one marked-up text, so that a backslash at the end
of the operation's name takes the mark that follows it for text. -/
def planParts (p : Plan) : List Part :=
  let rows := (messages p).flatMap fun (n, bs) => bs.map fun b =>
    [n, b.member.name, b.location.name, b.name]
  [line ("[bold cyan]" ++ p.operation.name ++ "[/bold cyan] " ++ p.http.method ++ " " ++
      p.http.uri.text),
    table "" "  " (["Message", "Member", "Location", "Name"] :: rows)] ++
  (if p.coverage.isEmpty then []
    else [line ("  redacted: " ++ ", ".intercalate (hiddenParts p.coverage))]) ++ [line ""]

/-- The parts of the report. -/
def parts (x : ServicePlan) : List Part := serviceParts x ++ x.plans.flatMap planParts

/-- What is printed before the first part that cannot be, each line with its end, and why that part
cannot be. -/
def printed : List Part → String × Option Text.Markup.Fault
  | [] => ("", none)
  | .error e :: _ => ("", some e)
  | .ok ls :: ps =>
    let (below, fault) := printed ps
    (String.join (ls.map (· ++ "\n")) ++ below, fault)

end Wireform.Report
