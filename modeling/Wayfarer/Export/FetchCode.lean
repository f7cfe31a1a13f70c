import Wayfarer.Export.Made
import Wayfarer.Library.Code
import Wayfarer.Library.Effects
import Wayfarer.Library.FetchStandard

/-!
# What the JavaScript of a request does

`readFetch` runs a program of the few statements that `fetchCode` writes: an import, a form that is
filled, one call of `fetch`, and a line that prints. Its literals are those of JavaScript, and what
the call makes of a method, of a list of headers and of a body is what the Fetch standard says
(`fetchMakes`). Any other text makes no request.

`readFetch_fetchCode` is the request that the code of a request makes.
-/

set_option autoImplicit false

namespace Wayfarer

open Library Library.Code

namespace Codegen

/-! ## Running a program -/

/-- JavaScript's literals. The numbers of old are not read as escapes. -/
def javaScript : Language where
  escape := fun c =>
    if c = 0x62 then some [0x08]
    else if c = 0x66 then some [0x0C]
    else if c = 0x6E then some [0x0A]
    else if c = 0x72 then some [0x0D]
    else if c = 0x74 then some [0x09]
    else if c = 0x76 then some [0x0B]
    else if 0x30 ≤ c.toNat ∧ c.toNat ≤ 0x39 then none
    -- A line that goes on.
    else if c = 0x0A then some []
    else if c = 0x0D then none
    else some [c]
  lineEnds := false

/-- What a program has when some of its statements have run. -/
structure JsState where
  /-- The reader of files is imported. -/
  openAsBlob : Bool := false
  form : Option (List MadePart) := none
  made : Option Made := none

/-- What a call of `fetch` is told besides the address. -/
structure FetchInit where
  method : Text := units "GET"
  headers : List (Text × Text) := []
  body : MadeBody := .none

/-- A header that a list of headers holds: its name is a token, its value is trimmed, and both are
bytes. -/
def heldHeader (header : Text × Text) : Option (Text × Text) :=
  let value := FetchStandard.normalize header.2
  if header.1 ≠ [] ∧ header.1.all FetchStandard.isTokenByte ∧
      value.all (fun c => c.toNat < 0x100 ∧ c ≠ 0 ∧ c ≠ 0x0A ∧ c ≠ 0x0D) then
    some (header.1, value)
  else none

/-- The method that a request is made with. -/
def fetchMethod (method : Text) : Option Text :=
  if method ≠ [] ∧ method.all FetchStandard.isTokenByte ∧
      FetchStandard.isForbiddenMethod method = false then
    some (FetchStandard.normalizeMethod method)
  else none

/-- The methods with which there is no body. -/
def isBodiless (method : Text) : Bool :=
  method = units "GET" || method = units "HEAD"

/-- The request that `fetch` makes. -/
def fetchMakes (url : Text) (init : FetchInit) : Option Made := do
  let method ← fetchMethod init.method
  if isBodiless method ∧ init.body ≠ .none then none
  let headers ← init.headers.mapM heldHeader
  return { method, url, headers, body := init.body }

/-- The file that an expression reads. -/
def jsFile (s : JsState) (trees : List Tree) : Option Text :=
  match callOf trees with
  | some (head, args) =>
      if s.openAsBlob ∧ head = [.word (units "await"), .word (units "openAsBlob")] then
        literalOf args
      else none
  | none => none

/-- A pair as a list of two. -/
def jsPair : List Tree → Option (Text × Text)
  | [.group .square inner] => pairOf inner
  | _ => none

/-- The body that an expression stands for. -/
def jsBody (s : JsState) (trees : List Tree) : Option MadeBody :=
  match trees, callOf trees with
  | [.leaf (.text t)], _ => some (.text t)
  | [.leaf (.word w)], _ => if w = units "form" then s.form.map .parts else none
  | _, some (head, [.group .square rows]) =>
      if head = [.word (units "new"), .word (units "URLSearchParams")] then
        ((items rows).mapM jsPair).map .fields
      else none
  | trees, _ => (jsFile s trees).map .file

/-- An entry of what `fetch` is told. -/
def fetchEntry (s : JsState) (init : FetchInit) : List Tree → Option FetchInit
  | .leaf (.word key) :: .leaf (.mark 0x3A) :: value =>
      if key = units "method" then (literalOf value).map fun method => { init with method }
      else if key = units "headers" then
        match value with
        | [.group .square rows] =>
            ((items rows).mapM jsPair).map fun headers => { init with headers }
        | _ => none
      else if key = units "body" then (jsBody s value).map fun body => { init with body }
      else none
  | _ => none

/-- A part that is added to a form. -/
def jsPart (s : JsState) : List (List Tree) → Option MadePart
  | [[.leaf (.text name)], [.leaf (.text value)]] => some { name, value := .text value }
  | [[.leaf (.text name)], file, [.leaf (.text shown)]] =>
      (jsFile s file).map fun path => { name, value := .file path shown }
  | _ => none

/-- What stands in front of the brackets of each statement. -/
def fetchHead : List Token :=
  [.word (units "const"), .word (units "response"), .mark 0x3D, .word (units "await"),
    .word (units "fetch")]

def formHead : List Token :=
  [.word (units "const"), .word (units "form"), .mark 0x3D, .word (units "new"),
    .word (units "FormData")]

def appendHead : List Token :=
  [.word (units "form"), .mark 0x2E, .word (units "append")]

def logHead : List Token :=
  [.word (units "console"), .mark 0x2E, .word (units "log")]

/-- What the last line prints. -/
def logged : List Token :=
  [.word (units "response"), .mark 0x2E, .word (units "status"), .mark 0x2C, .word (units "await"),
    .word (units "response"), .mark 0x2E, .word (units "text"), .mark 0x28, .mark 0x29]

/-- The call of `fetch`. -/
def fetchCall (s : JsState) (args : List Tree) : Option JsState :=
  match s.made, items args with
  | none, [[.leaf (.text url)], [.group .curly entries]] => do
      let init ← (items entries).foldlM (fetchEntry s) {}
      let made ← fetchMakes url init
      return { s with made := some made }
  | _, _ => none

/-- A form without parts. -/
def jsForm (s : JsState) (args : List Tree) : Option JsState :=
  match s.form, args with
  | none, [] => some { s with form := some [] }
  | _, _ => none

/-- A part is added to the form. -/
def jsAppend (s : JsState) (args : List Tree) : Option JsState := do
  let parts ← s.form
  let part ← jsPart s (items args)
  return { s with form := some (parts ++ [part]) }

/-- A statement that is a call. -/
def jsCall (s : JsState) (head : List Token) (args : List Tree) : Option JsState :=
  if head = fetchHead then fetchCall s args
  else if head = formHead then jsForm s args
  else if head = appendHead then jsAppend s args
  else if head = logHead then if treesTokens args = logged ∧ s.made.isSome then some s else none
  else none

/-- A statement of another form: the import, or nothing. -/
def jsOther (s : JsState) : List Tree → Option JsState
  | [] => some s
  | [.leaf (.word first), .group .curly inner, .leaf (.word source), .leaf (.text module)] =>
      if first = units "import" ∧ treesTokens inner = [.word (units "openAsBlob")] ∧
          source = units "from" ∧ module = units "node:fs" then
        some { s with openAsBlob := true }
      else none
  | _ => none

/-- One statement. -/
def jsStatement (s : JsState) (trees : List Tree) : Option JsState :=
  match callOf trees with
  | some (head, args) => jsCall s head args
  | none => jsOther s trees

/-- The request that a program makes. -/
def readFetch (code : Text) : Option Made := do
  let trees ← Code.read javaScript code
  let last ← (trees.splitOnP (isMark 0x3B)).foldlM jsStatement {}
  last.made

/-! ## What the program says -/

theorem readsJson_javaScript : ReadsJson javaScript :=
  ⟨rfl, rfl, rfl, rfl, rfl, rfl, rfl⟩

/-- A text that is read as trees between whatever brackets it stands. -/
abbrev WritesJs : Text → List Tree → Prop :=
  Writes javaScript fun _ => True

/-- A text of words and marks, read off. -/
theorem writesJs_units {s : String} {cs : List Char} (tokens : List Token)
    (hs : s = String.ofList cs)
    (h : lexFrom javaScript .between (cs.map fun c => c.toNat.toUInt16) = some (.between, tokens))
    (hleaf : tokens.all isLeaf = true) : WritesJs (units s) (tokens.map .leaf) :=
  (lexes_units hs h).writes hleaf

theorem writesJs_literal (t : Text) : WritesJs (literal t) [.leaf (.text t)] :=
  writes_literal readsJson_javaScript t

theorem writesJs_comma : WritesJs (units ", ") [comma] :=
  writesJs_units [.mark 0x2C] rfl rfl rfl

/-- A pair between square brackets. -/
theorem writesJs_pair (row : Text × Text) :
    WritesJs (units "[" ++ literal row.1 ++ units ", " ++ literal row.2 ++ units "]")
      [pairTree .square row] := by
  have hinner : WritesJs (literal row.1 ++ units ", " ++ literal row.2)
      [.leaf (.text row.1), comma, .leaf (.text row.2)] :=
    ((writesJs_literal _).append writesJs_comma).append (writesJs_literal _)
  have h := hinner.group (P := fun _ => True) (fun _ _ => trivial) (b := .square) (f := [])
    (g := []) (lexes_units (s := "[") rfl rfl) (lexes_units (s := "]") rfl rfl) rfl rfl
  exact h.of_eq (by simp only [List.append_assoc]) rfl

/-- The file an expression reads. -/
def blobTrees (fileName : Text) : List Tree :=
  [.leaf (.word (units "await")), .leaf (.word (units "openAsBlob")),
    .group .round [.leaf (.text fileName)]]

theorem writesJs_blob (fileName : Text) :
    WritesJs (units "await openAsBlob(" ++ literal fileName ++ units ")") (blobTrees fileName) :=
  (writesJs_literal fileName).group (P := fun _ => True) (fun _ _ => trivial) (b := .round)
    (f := [.word (units "await"), .word (units "openAsBlob")]) (g := [])
    (lexes_units (s := "await openAsBlob(") rfl rfl) (lexes_units (s := ")") rfl rfl) rfl rfl

/-- What a part is added with. -/
def partArgs (part : ExportPart) : List (List Tree) :=
  match part.value with
  | .text value => [[.leaf (.text part.name)], [.leaf (.text value)]]
  | .file fileName => [[.leaf (.text part.name)], blobTrees fileName, [.leaf (.text fileName)]]

/-- The end of a statement. -/
def semicolon : Tree :=
  .leaf (.mark 0x3B)

/-- A call between the text of its head and the end of its line. -/
theorem writesJs_call {w t : Text} {f : List Token} {args : List Tree} (h : WritesJs t args)
    (hopen : Lexes javaScript w (f ++ [.mark Bracket.round.opens]))
    (hhead : f.all isLeaf = true) :
    WritesJs (w ++ t ++ units ");\n") (callTrees f args ++ [semicolon]) :=
  h.group (P := fun _ => True) (fun _ _ => trivial) (b := .round) (g := [.mark 0x3B]) hopen
    (lexes_units (s := ");\n") rfl rfl) hhead rfl

theorem writesJs_part (part : ExportPart) :
    WritesJs (fetchPart part ++ units "\n")
      (callTrees appendHead ([comma].intercalate (partArgs part)) ++ [semicolon]) := by
  have hopen :
      Lexes javaScript (units "form.append(") (appendHead ++ [.mark Bracket.round.opens]) :=
    lexes_units rfl rfl
  have hclose : units ");" ++ units "\n" = units ");\n" := rfl
  rw [fetchPart, partArgs]
  cases part.value with
  | text value =>
      have h := writesJs_call (((writesJs_literal part.name).append writesJs_comma).append
        (writesJs_literal value)) hopen rfl
      exact h.of_eq (by simp only [List.append_assoc, hclose]) rfl
  | file fileName =>
      have h := writesJs_call (((((writesJs_literal part.name).append writesJs_comma).append
        (writesJs_blob fileName)).append writesJs_comma).append (writesJs_literal fileName))
        hopen rfl
      have hblob : units ", " ++ units "await openAsBlob(" = units ", await openAsBlob(" := rfl
      have hshown : units ")" ++ units ", " = units "), " := rfl
      exact h.of_eq (by simp only [List.append_assoc, hclose, ← hblob, ← hshown]) rfl

/-- The body as an expression. -/
def jsBodyTrees : ExportBody → List Tree
  | .raw text => [.leaf (.text text)]
  | .urlencoded fields =>
      callTrees [.word (units "new"), .word (units "URLSearchParams")]
        [.group .square ([comma].intercalate (fields.map fun row => [pairTree .square row]))]
  | .multipart _ => [.leaf (.word (units "form"))]
  | .binary fileName => blobTrees fileName
  | .none => []

/-- A word and a colon. -/
def keyTrees (key : Text) : List Tree :=
  [.leaf (.word key), .leaf (.mark 0x3A)]

theorem writesJs_body {body : ExportBody} (h : fetchSent body ≠ []) :
    WritesJs (units "  body: " ++ fetchSent body ++ units "," ++ units "\n")
      (keyTrees (units "body") ++ jsBodyTrees body ++ [comma]) := by
  have hkey : WritesJs (units "  body: ") (keyTrees (units "body")) :=
    writesJs_units [.word (units "body"), .mark 0x3A] rfl rfl rfl
  have hend : WritesJs (units ",\n") [comma] := writesJs_units [.mark 0x2C] rfl rfl rfl
  have hends : units "," ++ units "\n" = units ",\n" := rfl
  have hbody : ∀ {t : Text} {trees : List Tree}, WritesJs t trees →
      WritesJs (units "  body: " ++ t ++ units "," ++ units "\n")
        (keyTrees (units "body") ++ trees ++ [comma]) := by
    intro t trees ht
    exact ((hkey.append ht).append hend).of_eq (by simp only [List.append_assoc, hends]) rfl
  cases body with
  | none => exact absurd rfl h
  | raw text =>
      have htext : text ≠ [] := fun hempty => h (by rw [fetchSent, if_neg (by simp [hempty])])
      rw [fetchSent, if_pos htext]
      exact hbody (writesJs_literal text)
  | urlencoded fields =>
      have hrows : WritesJs (joinWith (units ", ") (pairs fields (units "[") (units "]")))
          ([comma].intercalate (fields.map fun row => [pairTree .square row])) :=
        writes_joinWith writesJs_comma fun row _ => writesJs_pair row
      have hlist := hrows.group (P := fun _ => True) (fun _ _ => trivial) (b := .square) (f := [])
        (g := []) (lexes_units (s := "[") rfl rfl) (lexes_units (s := "]") rfl rfl) rfl rfl
      have hcall := hlist.group (P := fun _ => True) (fun _ _ => trivial) (b := .round)
        (f := [.word (units "new"), .word (units "URLSearchParams")]) (g := [])
        (lexes_units (s := "new URLSearchParams(") rfl rfl) (lexes_units (s := ")") rfl rfl) rfl rfl
      have hopen : units "new URLSearchParams(" ++ units "[" = units "new URLSearchParams([" := rfl
      have hclose : units "]" ++ units ")" = units "])" := rfl
      refine hbody (hcall.of_eq ?_ rfl)
      simp only [fetchSent, ← hopen, ← hclose, List.append_assoc]
  | multipart parts =>
      -- The word ends with the comma behind it.
      have hword : WritesJs (units "  body: form,\n")
          (keyTrees (units "body") ++ [.leaf (.word (units "form"))] ++ [comma]) :=
        writesJs_units [.word (units "body"), .mark 0x3A, .word (units "form"), .mark 0x2C]
          rfl rfl rfl
      exact hword
  | binary fileName =>
      have hname : fileName ≠ [] := fun hempty => h (by rw [fetchSent, if_neg (by simp [hempty])])
      rw [fetchSent, if_pos hname]
      exact hbody (writesJs_blob fileName)

/-- The entry of the headers. -/
def headersPiece (headers : List (Text × Text)) : List Tree :=
  keyTrees (units "headers") ++
    [.group .square (headers.flatMap fun header => [pairTree .square header] ++ [comma])]

/-- The entries of what `fetch` is told. -/
def fetchPieces (request : ExportRequest) : List (List Tree) :=
  [keyTrees (units "method") ++ [.leaf (.text request.method)]] ++
    (if sentHeaders request ≠ [] then [headersPiece (sentHeaders request)] else []) ++
    (if fetchSent request.body ≠ [] then [keyTrees (units "body") ++ jsBodyTrees request.body]
      else [])

/-- The lines of the method, the headers and the body. -/
def fetchInitLines (request : ExportRequest) : List Text :=
  [units "  method: " ++ literal request.method ++ units ","] ++
    (if sentHeaders request ≠ [] then
      [units "  headers: ["] ++ pairs (sentHeaders request) (units "    [") (units "],") ++
        [units "  ],"]
      else []) ++
    (if fetchSent request.body ≠ [] then [units "  body: " ++ fetchSent request.body ++ units ","]
      else [])

/-- The lines of the headers. -/
theorem writesJs_headers (headers : List (Text × Text)) :
    WritesJs (([units "  headers: ["] ++ pairs headers (units "    [") (units "],") ++
        [units "  ],"]).flatMap fun line => line ++ units "\n")
      (headersPiece headers ++ [comma]) := by
  have hspace : WritesJs (units "    ") [] := writesJs_units [] rfl rfl rfl
  have hend : WritesJs (units ",\n") [comma] := writesJs_units [.mark 0x2C] rfl rfl rfl
  have hrow : ∀ header : Text × Text,
      WritesJs (units "    [" ++ literal header.1 ++ units ", " ++ literal header.2 ++ units "]," ++
        units "\n") ([pairTree .square header] ++ [comma]) := by
    intro header
    have hopen : units "    " ++ units "[" = units "    [" := rfl
    have hclose : units "]" ++ units ",\n" = units "]," ++ units "\n" := rfl
    refine (((hspace.append (writesJs_pair header)).append hend)).of_eq ?_ rfl
    simp only [List.append_assoc, ← hopen, hclose]
  have hrows := writes_flatMap fun header (_ : header ∈ headers) => hrow header
  have hgroup := hrows.group (P := fun _ => True) (fun _ _ => trivial) (b := .square)
    (f := [.word (units "headers"), .mark 0x3A]) (g := [.mark 0x2C])
    (lexes_units (s := "  headers: [\n") rfl rfl) (lexes_units (s := "  ],\n") rfl rfl) rfl rfl
  have hfirst : units "  headers: [" ++ units "\n" = units "  headers: [\n" := rfl
  have hlast : units "  ]," ++ units "\n" = units "  ],\n" := rfl
  refine hgroup.of_eq ?_ rfl
  simp only [List.flatMap_append, List.flatMap_cons, List.flatMap_nil, List.append_nil, pairs,
    List.flatMap_map, hfirst, hlast]

theorem writesJs_init (request : ExportRequest) :
    WritesJs ((fetchInitLines request).flatMap fun line => line ++ units "\n")
      ((fetchPieces request).flatMap fun piece => piece ++ [comma]) := by
  have hmethod : WritesJs (units "  method: " ++ literal request.method ++ units "," ++ units "\n")
      (keyTrees (units "method") ++ [.leaf (.text request.method)] ++ [comma]) := by
    have hkey : WritesJs (units "  method: ") (keyTrees (units "method")) :=
      writesJs_units [.word (units "method"), .mark 0x3A] rfl rfl rfl
    have hend : WritesJs (units ",\n") [comma] := writesJs_units [.mark 0x2C] rfl rfl rfl
    have hends : units "," ++ units "\n" = units ",\n" := rfl
    exact ((hkey.append (writesJs_literal _)).append hend).of_eq
      (by simp only [List.append_assoc, hends]) rfl
  rw [fetchInitLines, fetchPieces, List.flatMap_append, List.flatMap_append, List.flatMap_append,
    List.flatMap_append]
  refine (Writes.append ?_ ?_).append ?_
  · simpa only [List.flatMap_cons, List.flatMap_nil, List.append_nil] using hmethod
  · by_cases hheaders : sentHeaders request ≠ []
    · rw [if_pos hheaders, if_pos hheaders]
      simpa only [List.flatMap_cons, List.flatMap_nil, List.append_nil] using
        writesJs_headers (sentHeaders request)
    · rw [if_neg hheaders, if_neg hheaders]
      exact writes_nil
  · by_cases hsent : fetchSent request.body ≠ []
    · rw [if_pos hsent, if_pos hsent]
      simpa only [List.flatMap_cons, List.flatMap_nil, List.append_nil] using writesJs_body hsent
    · rw [if_neg hsent, if_neg hsent]
      exact writes_nil

/-- The address and what `fetch` is told. -/
def fetchArgs (request : ExportRequest) : List Tree :=
  [comma].intercalate [[.leaf (.text request.url)],
    [.group .curly ((fetchPieces request).flatMap fun piece => piece ++ [comma])]]

def importTrees : List Tree :=
  [.leaf (.word (units "import")), .group .curly [.leaf (.word (units "openAsBlob"))],
    .leaf (.word (units "from")), .leaf (.text (units "node:fs"))]

/-- The statements that fill a form. -/
def formStatements : ExportBody → List (List Tree)
  | .multipart parts =>
      callTrees formHead [] ::
        parts.map fun part => callTrees appendHead ([comma].intercalate (partArgs part))
  | _ => []

def loggedTrees : List Tree :=
  callTrees (logged.take 8) []

/-- The statements of a program. -/
def fetchStatements (request : ExportRequest) : List (List Tree) :=
  (if readsFile request.body then [importTrees] else []) ++ formStatements request.body ++
    [callTrees fetchHead (fetchArgs request), callTrees logHead loggedTrees]

theorem writesJs_import :
    WritesJs ([units "import \x7b openAsBlob \x7d from \"node:fs\";", []].flatMap
      fun line => line ++ units "\n") (importTrees ++ [semicolon]) := by
  have hname : WritesJs (units " openAsBlob ") [.leaf (.word (units "openAsBlob"))] :=
    writesJs_units [.word (units "openAsBlob")] rfl rfl rfl
  exact hname.group (P := fun _ => True) (fun _ _ => trivial) (b := .curly)
    (f := [.word (units "import")])
    (g := [.word (units "from"), .text (units "node:fs"), .mark 0x3B])
    (lexes_units (s := "import \x7b") rfl rfl)
    (lexes_units (s := "\x7d from \"node:fs\";\n\n") rfl rfl) rfl rfl

theorem writesJs_form (body : ExportBody) :
    WritesJs ((fetchBefore body).flatMap fun line => line ++ units "\n")
      ((formStatements body).flatMap fun statement => statement ++ [semicolon]) := by
  have hform : WritesJs (units "const form = new FormData();" ++ units "\n")
      (callTrees formHead [] ++ [semicolon]) := by
    have hcall := writesJs_call (w := units "const form = new FormData(") (f := formHead)
      (writes_nil (P := fun _ => True)) (lexes_units rfl rfl) rfl
    have hends : units "const form = new FormData(" ++ [] ++ units ");\n" =
        units "const form = new FormData();" ++ units "\n" := rfl
    exact hcall.of_eq hends rfl
  cases body with
  | multipart parts =>
      rw [fetchBefore, formStatements, List.flatMap_cons, List.flatMap_cons, List.flatMap_map,
        List.flatMap_map]
      exact hform.append (writes_flatMap fun part _ => writesJs_part part)
  | _ => exact writes_nil

theorem writesJs_fetch (request : ExportRequest) :
    WritesJs (([units "const response = await fetch(" ++ literal request.url ++ units ", \x7b"] ++
        fetchInitLines request ++ [units "\x7d);"]).flatMap fun line => line ++ units "\n")
      (callTrees fetchHead (fetchArgs request) ++ [semicolon]) := by
  have hinit :=
    (writesJs_init request).group (P := fun _ => True) (fun _ _ => trivial) (b := .curly)
    (f := []) (g := []) (lexes_units (s := "\x7b\n") rfl rfl)
    (lexes_units (s := "\x7d") rfl rfl) rfl rfl
  have hargs := ((writesJs_literal request.url).append writesJs_comma).append hinit
  have hcall := writesJs_call (w := units "const response = await fetch(") (f := fetchHead) hargs
    (lexes_units rfl rfl) rfl
  have hopen : units ", " ++ units "\x7b\n" = units ", \x7b" ++ units "\n" := rfl
  have hclose : units "\x7d" ++ units ");\n" = units "\x7d);" ++ units "\n" := rfl
  refine hcall.of_eq ?_ rfl
  simp only [List.flatMap_append, List.flatMap_cons, List.flatMap_nil, List.append_nil,
    List.append_assoc, hclose]
  simp only [← List.append_assoc, hopen]

theorem writesJs_log :
    WritesJs (units "console.log(response.status, await response.text());")
      (callTrees logHead loggedTrees ++ [semicolon]) := by
  have hargs : WritesJs (units "response.status, await response.text()") loggedTrees :=
    (writes_nil (P := fun _ => True)).group (P := fun _ => True) (fun _ _ => trivial) (b := .round)
      (f := logged.take 8) (g := [])
      (lexes_units (s := "response.status, await response.text(") rfl rfl)
      (lexes_units (s := ")") rfl rfl) rfl rfl
  exact hargs.group (P := fun _ => True) (fun _ _ => trivial) (b := .round) (f := logHead)
    (g := [.mark 0x3B]) (lexes_units (s := "console.log(") rfl rfl)
    (lexes_units (s := ");") rfl rfl) rfl rfl

/-- A program is read as its statements. -/
theorem writesJs_fetchCode (request : ExportRequest) :
    WritesJs (fetchCode request)
      ((fetchStatements request).flatMap fun statement => statement ++ [semicolon]) := by
  have hlines : fetchCode request = joinWith (units "\n")
      (((if readsFile request.body then
            [units "import \x7b openAsBlob \x7d from \"node:fs\";", []] else []) ++
          fetchBefore request.body ++
          ([units "const response = await fetch(" ++ literal request.url ++ units ", \x7b"] ++
            fetchInitLines request ++ [units "\x7d);"])) ++
        [units "console.log(response.status, await response.text());"]) := by
    rw [fetchCode, fetchInitLines]
    simp only [List.append_assoc, List.cons_append, List.nil_append]
  have himport : WritesJs ((if readsFile request.body then
        [units "import \x7b openAsBlob \x7d from \"node:fs\";", []] else []).flatMap
          fun line => line ++ units "\n")
      ((if readsFile request.body then [importTrees] else []).flatMap
        fun statement => statement ++ [semicolon]) := by
    cases readsFile request.body with
    | false => exact writes_nil
    | true => exact writesJs_import
  refine (((himport.append (writesJs_form request.body)).append (writesJs_fetch request)).append
    writesJs_log).of_eq ?_ ?_
  · simp only [hlines, joinWith_lines, List.flatMap_append]
  · simp only [fetchStatements, List.flatMap_append, List.flatMap_cons, List.flatMap_nil,
      List.append_assoc, List.append_nil]

/-! ## What the program makes -/

/-- What a program has before its call. -/
def jsReady (body : ExportBody) : JsState where
  openAsBlob := readsFile body
  form := match body with
    | .multipart parts => some (parts.map partMade)
    | _ => none

theorem jsFile_blob {s : JsState} (h : s.openAsBlob = true) (fileName : Text) :
    jsFile s (blobTrees fileName) = some fileName := by
  have hcall : callOf (blobTrees fileName) =
      some ([.word (units "await"), .word (units "openAsBlob")], [.leaf (.text fileName)]) := rfl
  rw [jsFile, hcall]
  exact if_pos ⟨h, rfl⟩

theorem mapM_jsPair (rows : List (Text × Text)) :
    (rows.map fun row => [pairTree .square row]).mapM jsPair = some rows := by
  rw [mapM_eq_some_iff, List.forall₂_map_left_iff, List.forall₂_same]
  exact fun row _ => pairOf_pair row

/-- An expression of a body is evaluated to the body. -/
theorem jsBody_written {body : ExportBody} (h : fetchSent body ≠ []) :
    jsBody (jsReady body) (jsBodyTrees body) = some (bodyWritten body) := by
  cases body with
  | none => exact absurd rfl h
  | raw text =>
      have htext : text ≠ [] := fun hempty => h (by rw [fetchSent, if_neg (by simp [hempty])])
      rw [bodyWritten, if_pos htext]
      rfl
  | urlencoded fields =>
      have hitems : items ([comma].intercalate (fields.map fun row => [pairTree .square row])) =
          fields.map fun row => [pairTree .square row] := by
        apply items_intercalate
        intro piece hpiece
        obtain ⟨row, -, rfl⟩ := List.mem_map.mp hpiece
        exact isItem_group _ _
      have hbody : jsBody (jsReady (.urlencoded fields)) (jsBodyTrees (.urlencoded fields)) =
          ((items ([comma].intercalate (fields.map fun row => [pairTree .square row]))).mapM
            jsPair).map .fields := rfl
      rw [hbody, hitems, mapM_jsPair]
      rfl
  | multipart parts => rfl
  | binary fileName =>
      have hname : fileName ≠ [] := fun hempty => h (by rw [fetchSent, if_neg (by simp [hempty])])
      have hready : (jsReady (.binary fileName)).openAsBlob = true := by
        simp [jsReady, readsFile, hname]
      have hbody : jsBody (jsReady (.binary fileName)) (jsBodyTrees (.binary fileName)) =
          (jsFile (jsReady (.binary fileName)) (blobTrees fileName)).map .file := rfl
      rw [hbody, jsFile_blob hready, bodyWritten, if_pos hname]
      rfl

theorem bodyWritten_eq_none {body : ExportBody} (h : fetchSent body = []) :
    bodyWritten body = .none := by
  cases body with
  | none => rfl
  | raw text =>
      by_cases htext : text = []
      · rw [bodyWritten, if_neg (by simp [htext])]
      · rw [fetchSent, if_pos htext, literal, jsonString] at h
        exact absurd h (by simp)
  | urlencoded fields =>
      have hlength := congrArg List.length h
      have hunits : (units "])").length = 2 := rfl
      rw [fetchSent, List.length_append, hunits] at hlength
      exact absurd hlength (by simp)
  | multipart parts =>
      have hunits : fetchSent (.multipart parts) ≠ [] := by
        change units "form" ≠ []
        decide
      exact absurd h hunits
  | binary fileName =>
      by_cases hname : fileName = []
      · rw [bodyWritten, if_neg (by simp [hname])]
      · have hlength : (fetchSent (.binary fileName)).length = 0 := by rw [h, List.length_nil]
        have hunits : (units ")").length = 1 := rfl
        rw [fetchSent, if_pos hname, List.length_append, hunits] at hlength
        exact absurd hlength (by omega)

/-- The entries are read one after the other. -/
theorem foldlM_fetchPieces (request : ExportRequest) :
    (fetchPieces request).foldlM (fetchEntry (jsReady request.body)) {} =
      some { method := request.method, headers := sentHeaders request,
             body := bodyWritten request.body } := by
  have hmethod : ∀ init : FetchInit, fetchEntry (jsReady request.body) init
      (keyTrees (units "method") ++ [.leaf (.text request.method)]) =
        some { init with method := request.method } := fun init => rfl
  have hitems : items ((sentHeaders request).flatMap fun header =>
      [pairTree .square header] ++ [comma]) =
        (sentHeaders request).map fun header => [pairTree .square header] := by
    have hitem : ∀ piece ∈ (sentHeaders request).map fun header => [pairTree .square header],
        IsItem piece := by
      intro piece hpiece
      obtain ⟨header, -, rfl⟩ := List.mem_map.mp hpiece
      exact isItem_group _ _
    have h := items_flatMap hitem
    rwa [List.flatMap_map] at h
  have hheaders : ∀ init : FetchInit, fetchEntry (jsReady request.body) init
      (headersPiece (sentHeaders request)) = some { init with headers := sentHeaders request } := by
    intro init
    have hread : fetchEntry (jsReady request.body) init (headersPiece (sentHeaders request)) =
        ((items ((sentHeaders request).flatMap fun header =>
          [pairTree .square header] ++ [comma])).mapM jsPair).map
            fun headers => { init with headers } := rfl
    rw [hread, hitems, mapM_jsPair]
    rfl
  have hbody : ∀ init : FetchInit, fetchEntry (jsReady request.body) init
      (keyTrees (units "body") ++ jsBodyTrees request.body) =
        (jsBody (jsReady request.body) (jsBodyTrees request.body)).map
          fun body => { init with body } := fun init => rfl
  rw [fetchPieces, List.foldlM_append, List.foldlM_append, List.foldlM_cons, hmethod]
  by_cases hnone : sentHeaders request = []
  · by_cases hsent : fetchSent request.body = []
    · simp [hnone, hsent, bodyWritten_eq_none hsent]
    · simp [hnone, hsent, hbody, jsBody_written hsent]
  · by_cases hsent : fetchSent request.body = []
    · simp [hnone, hsent, hheaders, bodyWritten_eq_none hsent]
    · simp [hnone, hsent, hheaders, hbody, jsBody_written hsent]

theorem jsStatement_call (s : JsState) (head : List Token) (args : List Tree) :
    jsStatement s (callTrees head args) = jsCall s head args := by
  rw [jsStatement, callOf_callTrees]

theorem jsStatement_form (s : JsState) (h : s.form = none) :
    jsStatement s (callTrees formHead []) = some { s with form := some [] } := by
  have hne : formHead ≠ fetchHead := by decide
  rw [jsStatement_call, jsCall, if_neg hne, if_pos rfl, jsForm.eq_def, h]

/-- The items of an added part. -/
theorem items_partArgs (part : ExportPart) :
    items ([comma].intercalate (partArgs part)) = partArgs part := by
  apply items_intercalate
  intro piece hpiece
  rw [partArgs] at hpiece
  cases hvalue : part.value with
  | text value =>
      rw [hvalue] at hpiece
      simp only [List.mem_cons, List.not_mem_nil, or_false] at hpiece
      rcases hpiece with rfl | rfl <;> exact isItem_literal _
  | file fileName =>
      have hblob : IsItem (blobTrees fileName) :=
        ⟨List.cons_ne_nil _ _, by simp [blobTrees, isMark]⟩
      rw [hvalue] at hpiece
      simp only [List.mem_cons, List.not_mem_nil, or_false] at hpiece
      rcases hpiece with rfl | rfl | rfl
      · exact isItem_literal _
      · exact hblob
      · exact isItem_literal _

/-- A part that is added: a file is read when the reader is there. -/
theorem jsStatement_part {s : JsState} {parts : List MadePart} (hform : s.form = some parts)
    {part : ExportPart} (hfile : isFilePart part = true → s.openAsBlob = true) :
    jsStatement s (callTrees appendHead ([comma].intercalate (partArgs part))) =
      some { s with form := some (parts ++ [partMade part]) } := by
  have hfetch : appendHead ≠ fetchHead := by decide
  have hformHead : appendHead ≠ formHead := by decide
  have hpart : jsPart s (partArgs part) = some (partMade part) := by
    rw [partArgs, partMade]
    cases hvalue : part.value with
    | text value => rfl
    | file fileName =>
        have hblob := jsFile_blob (hfile (by rw [isFilePart, hvalue])) fileName
        have hread : jsPart s
            [[.leaf (.text part.name)], blobTrees fileName, [.leaf (.text fileName)]] =
          (jsFile s (blobTrees fileName)).map
            fun path => { name := part.name, value := .file path fileName } := rfl
        rw [hread, hblob]
        rfl
  rw [jsStatement_call, jsCall, if_neg hfetch, if_neg hformHead, if_pos rfl, jsAppend, hform,
    items_partArgs, hpart]
  rfl

theorem foldlM_parts {parts : List ExportPart} {s : JsState} {before : List MadePart}
    (hform : s.form = some before)
    (hfile : ∀ part ∈ parts, isFilePart part = true → s.openAsBlob = true) :
    (parts.map fun part => callTrees appendHead ([comma].intercalate (partArgs part))).foldlM
        jsStatement s =
      some { s with form := some (before ++ parts.map partMade) } := by
  induction parts generalizing s before with
  | nil =>
      rw [List.map_nil, List.map_nil, List.append_nil, ← hform]
      rfl
  | cons part parts ih =>
      have hrest := ih (s := { s with form := some (before ++ [partMade part]) }) rfl
        fun other hother => hfile other (List.mem_cons_of_mem part hother)
      rw [List.map_cons, List.foldlM_cons,
        jsStatement_part hform (hfile part (List.mem_cons_self ..)), Option.bind_eq_bind,
        Option.bind_some, hrest, List.map_cons, List.append_assoc]
      rfl

/-- What the program has when its form is filled. -/
theorem foldlM_ready (body : ExportBody) :
    ((if readsFile body then [importTrees] else []) ++ formStatements body).foldlM jsStatement {} =
      some (jsReady body) := by
  have himport : (if readsFile body then [importTrees] else []).foldlM jsStatement {} =
      some { openAsBlob := readsFile body : JsState } := by
    cases readsFile body with
    | false => rfl
    | true => rfl
  rw [List.foldlM_append, himport, Option.bind_eq_bind, Option.bind_some]
  cases body with
  | multipart parts =>
      rw [formStatements, List.foldlM_cons, jsStatement_form _ rfl, Option.bind_eq_bind,
        Option.bind_some, foldlM_parts rfl ?_]
      · rfl
      · intro part hpart hfile
        exact List.any_eq_true.mpr ⟨part, hpart, hfile⟩
  | _ => rfl

theorem isItem_fetchPieces (request : ExportRequest) :
    ∀ piece ∈ fetchPieces request, IsItem piece := by
  have hkey : ∀ (key : Text) (rest : List Tree), (∀ tree ∈ rest, isMark 0x2C tree = false) →
      IsItem (keyTrees key ++ rest) := by
    intro key rest hrest
    refine ⟨by simp [keyTrees], fun tree htree => ?_⟩
    rcases List.mem_append.mp htree with h | h
    · simp only [keyTrees, List.mem_cons, List.not_mem_nil, or_false] at h
      rcases h with rfl | rfl <;> rfl
    · exact hrest tree h
  intro piece hpiece
  rw [fetchPieces] at hpiece
  rcases List.mem_append.mp hpiece with hpiece | hpiece
  · rcases List.mem_append.mp hpiece with hpiece | hpiece
    · rw [List.mem_singleton.mp hpiece]
      exact hkey _ _ (by simp [isMark])
    · split_ifs at hpiece with hheaders
      · rw [List.mem_singleton.mp hpiece, headersPiece]
        exact hkey _ _ (by simp [isMark])
      · exact absurd hpiece (List.not_mem_nil)
  · split_ifs at hpiece with hsent
    · rw [List.mem_singleton.mp hpiece]
      apply hkey
      cases request.body <;> simp [jsBodyTrees, isMark, callTrees, blobTrees]
    · exact absurd hpiece (List.not_mem_nil)

/-- The call of the program. -/
theorem fetchCall_written (request : ExportRequest) :
    fetchCall (jsReady request.body) (fetchArgs request) =
      (fetchMakes request.url
        { method := request.method, headers := sentHeaders request,
          body := bodyWritten request.body }).map
        fun made => { jsReady request.body with made := some made } := by
  have hitems : items (fetchArgs request) = [[.leaf (.text request.url)],
      [.group .curly ((fetchPieces request).flatMap fun piece => piece ++ [comma])]] := by
    apply items_intercalate
    intro piece hpiece
    simp only [List.mem_cons, List.not_mem_nil, or_false] at hpiece
    rcases hpiece with rfl | rfl
    · exact isItem_literal _
    · exact isItem_group _ _
  have hmade : (jsReady request.body).made = none := rfl
  rw [fetchCall, hmade, hitems]
  simp only [items_flatMap (isItem_fetchPieces request), foldlM_fetchPieces, Option.bind_eq_bind,
    Option.bind_some]
  cases fetchMakes request.url _ <;> rfl

/-- No statement has a semicolon of its own. -/
theorem isMark_fetchStatements (request : ExportRequest) :
    ∀ statement ∈ fetchStatements request, ∀ tree ∈ statement, isMark 0x3B tree = false := by
  have hcall : ∀ (head : List Token) (args : List Tree), (head.all fun t => t ≠ .mark 0x3B) = true →
      ∀ tree ∈ callTrees head args, isMark 0x3B tree = false := by
    intro head args hhead tree htree
    rcases List.mem_append.mp htree with h | h
    · obtain ⟨t, ht, rfl⟩ := List.mem_map.mp h
      have hne := of_decide_eq_true (List.all_eq_true.mp hhead t ht)
      cases t with
      | mark c =>
          rw [isMark, decide_eq_false_iff_not]
          exact fun heq => hne (by rw [heq])
      | _ => rfl
    · rw [List.mem_singleton.mp h]
      rfl
  intro statement hstatement
  rw [fetchStatements] at hstatement
  rcases List.mem_append.mp hstatement with h | h
  · rcases List.mem_append.mp h with h | h
    · split_ifs at h with hfile
      · rw [List.mem_singleton.mp h]
        decide
      · exact absurd h (List.not_mem_nil)
    · cases hbody : request.body with
      | multipart parts =>
          rw [hbody, formStatements] at h
          rcases List.mem_cons.mp h with rfl | h
          · exact hcall _ _ rfl
          · obtain ⟨part, -, rfl⟩ := List.mem_map.mp h
            exact hcall _ _ rfl
      | _ =>
          rw [hbody] at h
          exact absurd h (List.not_mem_nil)
  · simp only [List.mem_cons, List.not_mem_nil, or_false] at h
    rcases h with rfl | rfl <;> exact hcall _ _ rfl

/-- The request that the code of a request makes: what `fetch` makes of its method, its
headers and its body. -/
theorem readFetch_fetchCode (request : ExportRequest) :
    readFetch (fetchCode request) =
      fetchMakes request.url
        { method := request.method, headers := sentHeaders request,
          body := bodyWritten request.body } := by
  have hread : Code.read javaScript (fetchCode request) =
      some ((fetchStatements request).flatMap fun statement => statement ++ [semicolon]) := by
    obtain ⟨tokens, hlex, hgrow⟩ := writesJs_fetchCode request
    exact Writes.read ⟨tokens, hlex, fun outer _ => hgrow outer trivial⟩
  have hcut : ((fetchStatements request).flatMap fun statement => statement ++ [semicolon]).splitOnP
      (isMark 0x3B) = fetchStatements request ++ [[]] := by
    have h := splitOnP_flatMap (s := semicolon) (by decide) (isMark_fetchStatements request)
      (l := []) (by simp)
    rwa [List.append_nil] at h
  rw [readFetch, hread]
  simp only [Option.bind_eq_bind, Option.bind_some, hcut]
  rw [fetchStatements, List.foldlM_append, List.foldlM_append, foldlM_ready, Option.bind_eq_bind,
    Option.bind_some, List.foldlM_cons, jsStatement_call, jsCall, if_pos rfl, fetchCall_written]
  cases fetchMakes request.url
      { method := request.method, headers := sentHeaders request,
        body := bodyWritten request.body } with
  | none => rfl
  | some made => rfl

/-- When the JavaScript of a request makes it: `fetch` takes its method as it is written, its
headers as they are, and a body only where the method has one. -/
structure FetchSays (request : ExportRequest) : Prop where
  method : fetchMethod request.method = some request.method
  headers : ∀ header ∈ sentHeaders request, heldHeader header = some header
  body : isBodiless request.method = true → bodyWritten request.body = .none

/-- Headers that a list of headers holds as they are. -/
theorem mapM_heldHeader_iff {headers : List (Text × Text)} :
    headers.mapM heldHeader = some headers ↔
      ∀ header ∈ headers, heldHeader header = some header := by
  rw [mapM_eq_some_iff, List.forall₂_same]

theorem fetchCode_says_iff (request : ExportRequest) :
    (∃ made, readFetch (fetchCode request) = some made ∧ made.Says request) ↔
      FetchSays request := by
  rw [readFetch_fetchCode, fetchMakes]
  constructor
  · rintro ⟨made, hmade, hright⟩
    obtain ⟨method, hmethod, hmade⟩ := Option.bind_eq_some_iff.mp hmade
    by_cases hbody : isBodiless method = true ∧ bodyWritten request.body ≠ .none
    · rw [if_pos hbody] at hmade
      cases hmade
    rw [if_neg hbody] at hmade
    obtain ⟨headers, hheaders, hmade⟩ := Option.bind_eq_some_iff.mp hmade
    cases hmade
    have hsame : method = request.method := hright.method
    have hsent : headers = sentHeaders request := hright.headers
    subst hsame hsent
    exact ⟨hmethod, mapM_heldHeader_iff.mp hheaders, fun h => not_not.mp fun hne => hbody ⟨h, hne⟩⟩
  · rintro ⟨hmethod, hheaders, hbody⟩
    have hsends : ¬ (isBodiless request.method = true ∧ bodyWritten request.body ≠ .none) :=
      fun h => h.2 (hbody h.1)
    refine ⟨⟨request.method, request.url, sentHeaders request, bodyWritten request.body⟩, ?_,
      ⟨rfl, rfl, rfl, bodyMade_written _⟩⟩
    rw [hmethod]
    simp only [Option.bind_eq_bind, Option.bind_some, if_neg hsends,
      mapM_heldHeader_iff.mpr hheaders]
    rfl

end Codegen

end Wayfarer
