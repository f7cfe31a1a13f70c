import Wayfarer.Export.Made
import Wayfarer.Library.Code
import Wayfarer.Library.Effects
import Wayfarer.Library.OrderedMap

/-!
# What the Python of a request does

`readPython` runs a program of the few statements that `pythonCode` writes: an import, one call of
`requests.request`, and two lines that print. Its literals, its dict and its lists are those of
Python: a dict has one value for a key, and a text is encoded only where it has no half of a pair.
What `requests` makes of the arguments is `requestsMakes`. Any other text makes no request.

`readPython_pythonCode` is the request that the code of a request makes.
-/

set_option autoImplicit false

namespace Wayfarer

open Library Library.Code

namespace Codegen

/-- What is not read of Python and of `requests`: a text in capitals and in small letters, and the
headers that `requests` does not refuse. -/
structure PythonSide where
  upper : Text → Text
  lower : Text → Text
  takesHeader : Text → Text → Bool

/-! ## Running a program -/

/-- Python's literals. Octal numbers and names of characters are not read as escapes. -/
def python : Language where
  escape := fun c =>
    if c = 0x22 ∨ c = 0x27 ∨ c = 0x5C then some [c]
    else if c = 0x61 then some [0x07]
    else if c = 0x62 then some [0x08]
    else if c = 0x66 then some [0x0C]
    else if c = 0x6E then some [0x0A]
    else if c = 0x72 then some [0x0D]
    else if c = 0x74 then some [0x09]
    else if c = 0x76 then some [0x0B]
    else if (0x30 ≤ c.toNat ∧ c.toNat ≤ 0x37) ∨ c = 0x4E ∨ c = 0x55 then none
    -- A line that goes on.
    else if c = 0x0A then some []
    else if c = 0x0D then none
    -- Python keeps the backslash of what is no escape.
    else some [backslash, c]
  lineEnds := true

/-- What a program has when some of its statements have run. -/
structure PyState where
  /-- `requests` is imported. -/
  imported : Bool := false
  made : Option Made := none

/-- What the call is told by name. -/
structure PyInit where
  headers : List (Text × Text) := []
  body : MadeBody := .none

/-- A text that can be encoded. -/
def encoded (t : Text) : Option Text :=
  if scrub t = t then some t else none

def encodedPair (row : Text × Text) : Option (Text × Text) := do
  return (← encoded row.1, ← encoded row.2)

/-- The file that an expression opens, to read its bytes. -/
def pyFile (trees : List Tree) : Option Text :=
  match trees with
  | [.leaf (.word f), .group .round args] =>
      (pairOf args).bind fun named =>
        if f = units "open" ∧ named.2 = units "rb" then some named.1 else none
  | _ => none

/-- A pair as a tuple. -/
def pyPair : List Tree → Option (Text × Text)
  | [.group .round inner] => pairOf inner
  | _ => none

/-- An entry of a dict. -/
def pyEntry : List Tree → Option (Text × Text)
  | [.leaf (.text key), .leaf (.mark 0x3A), .leaf (.text value)] => some (key, value)
  | _ => none

/-- What a part of a form is made of: a file name or none, and a text or a file. -/
def pyValue (trees : List (List Tree)) : Option MadeValue :=
  match trees with
  | [[.leaf (.word w)], [.leaf (.text value)]] =>
      if w = units "None" then (encoded value).map .text else none
  | [[.leaf (.text shown)], file] => do return .file (← pyFile file) (← encoded shown)
  | _ => none

/-- A part of a form: a name, and what it is made of. -/
def pyPart : List Tree → Option MadePart
  | [.group .round inner] =>
      match items inner with
      | [[.leaf (.text name)], [.group .round value]] => do
          return { name := ← encoded name, value := ← pyValue (items value) }
      | _ => none
  | _ => none

/-- What `data` is given: an encoded text, a list of fields, or a file. -/
def pyData (trees : List Tree) : Option MadeBody :=
  match trees with
  | [.leaf (.text t), .leaf (.mark 0x2E), .leaf (.word method),
      .group .round [.leaf (.text coding)]] =>
      if method = units "encode" ∧ coding = units "utf-8" then (encoded t).map .text else none
  | [.group .square rows] => do
      let rows ← (items rows).mapM pyPair
      let fields ← rows.mapM encodedPair
      -- An empty list is no body.
      return if fields = [] then .none else .fields fields
  | file => (pyFile file).map .file

/-- What `files` is given. -/
def pyFiles (trees : List Tree) : Option MadeBody :=
  match trees with
  | [.group .square rows] => do
      let parts ← (items rows).mapM pyPart
      return if parts = [] then .none else .parts parts
  | _ => none

/-- An argument by its name. -/
def pyArgument (init : PyInit) : List Tree → Option PyInit
  | .leaf (.word key) :: .leaf (.mark 0x3D) :: value =>
      if key = units "headers" then
        match value with
        | [.group .curly entries] =>
            ((items entries).mapM pyEntry).map fun entries =>
              { init with headers := (OrderedMap.ofPairs entries).entries }
        | _ => none
      else if key = units "data" then (pyData value).map fun body => { init with body }
      else if key = units "files" then (pyFiles value).map fun body => { init with body }
      else none
  | _ => none

/-- The headers of a session: names that differ in their case alone are one. -/
def sessionHeaders (S : PythonSide) (headers : List (Text × Text)) : List (Text × Text) :=
  (OrderedMap.ofPairs (headers.map fun header => (S.lower header.1, header))).values

/-- The request that `requests` makes. -/
def requestsMakes (S : PythonSide) (method url : Text) (init : PyInit) : Option Made :=
  if (sessionHeaders S init.headers).all fun header => S.takesHeader header.1 header.2 then
    some { method := S.upper method, url, headers := sessionHeaders S init.headers,
           body := init.body }
  else none

/-- What stands in front of the brackets of each statement. -/
def requestHead : List Token :=
  [.word (units "response"), .mark 0x3D, .word (units "requests"), .mark 0x2E,
    .word (units "request")]

def printHead : List Token :=
  [.word (units "print")]

/-- What the last lines print. -/
def printed (field : Text) : List Token :=
  [.word (units "response"), .mark 0x2E, .word field]

/-- The call of `requests.request`. -/
def requestCall (S : PythonSide) (s : PyState) (args : List Tree) : Option PyState :=
  match s.imported, s.made, items args with
  | true, none, [.leaf (.text method)] :: [.leaf (.text url)] :: named => do
      let init ← named.foldlM pyArgument {}
      let made ← requestsMakes S method url init
      return { s with made := some made }
  | _, _, _ => none

/-- A statement that is a call. -/
def pyCall (S : PythonSide) (s : PyState) (head : List Token) (args : List Tree) : Option PyState :=
  if head = requestHead then requestCall S s args
  else if head = printHead then
    if s.made.isSome ∧ (treesTokens args = printed (units "status_code") ∨
        treesTokens args = printed (units "text")) then some s else none
  else none

/-- A statement of another form: the import, or nothing. -/
def pyOther (s : PyState) : List Tree → Option PyState
  | [] => some s
  | [.leaf (.word first), .leaf (.word module)] =>
      if first = units "import" ∧ module = units "requests" then some { s with imported := true }
      else none
  | _ => none

/-- One statement. -/
def pyStatement (S : PythonSide) (s : PyState) (trees : List Tree) : Option PyState :=
  match callOf trees with
  | some (head, args) => pyCall S s head args
  | none => pyOther s trees

/-- The end of a statement. -/
def isLineEnd : Tree → Bool
  | .leaf .lineEnd => true
  | _ => false

/-- The request that a program makes. -/
def readPython (S : PythonSide) (code : Text) : Option Made := do
  let trees ← Code.read python code
  let last ← (trees.splitOnP isLineEnd).foldlM (pyStatement S) {}
  last.made

/-! ## What the program says -/

theorem readsJson_python : ReadsJson python :=
  ⟨rfl, rfl, rfl, rfl, rfl, rfl, rfl⟩

/-- A text that is read as trees between brackets, and one that is read outside of all. -/
abbrev WritesInside : Text → List Tree → Prop :=
  Writes python fun outer => outer ≠ []

abbrev WritesOutside : Text → List Tree → Prop :=
  Writes python fun outer => outer = []

section Pieces

variable {P : List (Bracket × List Tree) → Prop}

theorem writesPy_units {s : String} {cs : List Char} (tokens : List Token)
    (hs : s = String.ofList cs)
    (h : lexFrom python .between (cs.map fun c => c.toNat.toUInt16) = some (.between, tokens))
    (hleaf : tokens.all isLeaf = true) : Writes python P (units s) (tokens.map .leaf) :=
  (lexes_units hs h).writes hleaf

theorem writesPy_literal (t : Text) : Writes python P (literal t) [.leaf (.text t)] :=
  writes_literal readsJson_python t

theorem writesPy_comma : Writes python P (units ", ") [comma] :=
  writesPy_units [.mark 0x2C] rfl rfl rfl

theorem writesInside_lineEnd : WritesInside (units "\n") [] := by
  refine ⟨[.lineEnd], lexes_units rfl rfl, fun outer houter => ?_⟩
  obtain ⟨o, outer, rfl⟩ := List.exists_cons_of_ne_nil houter
  exact grows_lineEnd o

theorem writesOutside_lineEnd : WritesOutside (units "\n") [.leaf .lineEnd] := by
  refine ⟨[.lineEnd], lexes_units rfl rfl, fun outer houter => ?_⟩
  rw [houter]
  exact grows_statementEnd

/-- Brackets around what is read between brackets. -/
theorem writesPy_group {b : Bracket} {w t w' : Text} {f g : List Token} {inner : List Tree}
    (h : WritesInside t inner) (hopen : Lexes python w (f ++ [.mark b.opens]))
    (hclose : Lexes python w' (.mark b.closes :: g)) (hfront : f.all isLeaf = true)
    (hback : g.all isLeaf = true) :
    Writes python P (w ++ t ++ w') (f.map .leaf ++ [.group b inner] ++ g.map .leaf) :=
  h.group (fun _ _ => List.cons_ne_nil _ _) hopen hclose hfront hback

theorem writesPy_pair (row : Text × Text) :
    Writes python P (units "(" ++ literal row.1 ++ units ", " ++ literal row.2 ++ units ")")
      [pairTree .round row] := by
  have hinner : WritesInside (literal row.1 ++ units ", " ++ literal row.2)
      [.leaf (.text row.1), comma, .leaf (.text row.2)] :=
    ((writesPy_literal _).append writesPy_comma).append (writesPy_literal _)
  have h := writesPy_group (P := P) hinner (b := .round) (f := []) (g := [])
    (lexes_units (s := "(") rfl rfl) (lexes_units (s := ")") rfl rfl) rfl rfl
  exact h.of_eq (by simp only [List.append_assoc]) rfl

/-- The file an expression opens. -/
def openTrees (fileName : Text) : List Tree :=
  [.leaf (.word (units "open")), pairTree .round (fileName, units "rb")]

theorem writesPy_open (fileName : Text) :
    Writes python P (units "open(" ++ literal fileName ++ units ", \"rb\")")
      (openTrees fileName) := by
  have hmode : WritesInside (units ", \"rb\"") [comma, .leaf (.text (units "rb"))] :=
    writesPy_units [.mark 0x2C, .text (units "rb")] rfl rfl rfl
  have hinner := (writesPy_literal fileName).append hmode
  have h := writesPy_group (P := P) hinner (b := .round) (f := [.word (units "open")]) (g := [])
    (lexes_units (s := "open(") rfl rfl) (lexes_units (s := ")") rfl rfl) rfl rfl
  have hend : units ", \"rb\"" ++ units ")" = units ", \"rb\")" := rfl
  exact h.of_eq (by simp only [List.append_assoc, hend]) rfl

/-- An entry of a dict. -/
def entryTrees (header : Text × Text) : List Tree :=
  [.leaf (.text header.1), .leaf (.mark 0x3A), .leaf (.text header.2)]

theorem writesPy_header (header : Text × Text) :
    Writes python P (pythonHeader header) (entryTrees header) := by
  have hcolon : Writes python P (units ": ") [.leaf (.mark 0x3A)] :=
    writesPy_units [.mark 0x3A] rfl rfl rfl
  exact ((writesPy_literal _).append hcolon).append (writesPy_literal _)

/-- What a part of a form is made of, as a tuple. -/
def valueTrees : ExportValue → List (List Tree)
  | .text value => [[.leaf (.word (units "None"))], [.leaf (.text value)]]
  | .file fileName => [[.leaf (.text fileName)], openTrees fileName]

/-- A part of a form as a tuple. -/
def pyPartTrees (part : ExportPart) : List Tree :=
  [.group .round ([comma].intercalate [[.leaf (.text part.name)],
    [.group .round ([comma].intercalate (valueTrees part.value))]])]

theorem writesPy_part (part : ExportPart) :
    Writes python P (pythonPart part) (pyPartTrees part) := by
  have hbrackets : ∀ {t : Text} {inner : List Tree}, WritesInside t inner →
      Writes python P
        (units "(" ++ literal part.name ++ units ", " ++ (units "(" ++ t ++ units ")") ++
        units ")") [.group .round ([comma].intercalate [[.leaf (.text part.name)],
          [.group .round inner]])] := by
    intro t inner h
    have htuple := writesPy_group (P := fun outer => outer ≠ []) h (b := .round) (f := [])
      (g := []) (lexes_units (s := "(") rfl rfl) (lexes_units (s := ")") rfl rfl) rfl rfl
    have hinner := ((writesPy_literal part.name).append writesPy_comma).append htuple
    have hall := writesPy_group (P := P) hinner (b := .round) (f := []) (g := [])
      (lexes_units (s := "(") rfl rfl) (lexes_units (s := ")") rfl rfl) rfl rfl
    exact hall.of_eq (by simp only [List.append_assoc]) rfl
  rw [pythonPart, pyPartTrees]
  cases part.value with
  | text value =>
      have hnone : WritesInside (units "None, ") [.leaf (.word (units "None")), comma] :=
        writesPy_units [.word (units "None"), .mark 0x2C] rfl rfl rfl
      have hopen : units ", " ++ (units "(" ++ units "None, ") = units ", (None, " := rfl
      have hclose : units ")" ++ units ")" = units "))" := rfl
      refine (hbrackets (hnone.append (writesPy_literal value))).of_eq ?_ rfl
      simp only [List.append_assoc, hclose, ← hopen]
  | file fileName =>
      have hopen : units ", " ++ units "(" = units ", (" := rfl
      have hfile : units ", " ++ units "open(" = units ", open(" := rfl
      have hclose : units ", \"rb\")" ++ (units ")" ++ units ")") = units ", \"rb\")))" := rfl
      refine (hbrackets (((writesPy_literal fileName).append writesPy_comma).append
        (writesPy_open fileName))).of_eq ?_ rfl
      simp only [List.append_assoc, hclose, ← hopen, ← hfile]

end Pieces

/-- A name and an equals sign. -/
def namedTrees (name : Text) : List Tree :=
  [.leaf (.word name), .leaf (.mark 0x3D)]

/-- The body as an argument, where there is one. -/
def pyBodyTrees : ExportBody → List (List Tree)
  | .raw text =>
      if text ≠ [] then
        [namedTrees (units "data") ++ [.leaf (.text text), .leaf (.mark 0x2E),
          .leaf (.word (units "encode")), .group .round [.leaf (.text (units "utf-8"))]]]
      else []
  | .urlencoded fields =>
      [namedTrees (units "data") ++
        [.group .square ([comma].intercalate (fields.map fun row => [pairTree .round row]))]]
  | .multipart parts =>
      [namedTrees (units "files") ++ [.group .square ([comma].intercalate (parts.map pyPartTrees))]]
  | .binary fileName =>
      if fileName ≠ [] then [namedTrees (units "data") ++ openTrees fileName] else []
  | .none => []

/-- The arguments of the call. -/
def pyArguments (request : ExportRequest) : List (List Tree) :=
  [[.leaf (.text request.method)], [.leaf (.text request.url)]] ++
    (if sentHeaders request ≠ [] then
      [namedTrees (units "headers") ++
        [.group .curly ([comma].intercalate ((sentHeaders request).map entryTrees))]]
      else []) ++
    pyBodyTrees request.body

theorem writesInside_body (body : ExportBody) :
    List.Forall₂ WritesInside (pythonBody body) (pyBodyTrees body) := by
  cases body with
  | none => exact .nil
  | raw text =>
      by_cases htext : text ≠ []
      · -- The text, as bytes that the program encodes itself.
        have hdata : WritesInside (units "data=") (namedTrees (units "data")) :=
          writesPy_units [.word (units "data"), .mark 0x3D] rfl rfl rfl
        have hcode : WritesInside (units "\"utf-8\"") [.leaf (.text (units "utf-8"))] :=
          writesPy_units [.text (units "utf-8")] rfl rfl rfl
        have hcall := writesPy_group (P := fun outer => outer ≠ []) hcode (b := .round)
          (f := [.mark 0x2E, .word (units "encode")]) (g := [])
          (lexes_units (s := ".encode(") rfl rfl) (lexes_units (s := ")") rfl rfl) rfl rfl
        rw [pythonBody, pyBodyTrees, if_pos htext, if_pos htext]
        exact .cons (((hdata.append (writesPy_literal text)).append hcall).of_eq rfl rfl) .nil
      · rw [pythonBody, pyBodyTrees, if_neg htext, if_neg htext]
        exact .nil
  | urlencoded fields =>
      have hrows : WritesInside (joinWith (units ", ") (pairs fields (units "(") (units ")")))
          ([comma].intercalate (fields.map fun row => [pairTree .round row])) :=
        writes_joinWith writesPy_comma fun row _ => writesPy_pair row
      exact .cons (writesPy_group (P := fun outer => outer ≠ []) hrows (b := .square)
        (f := [.word (units "data"), .mark 0x3D]) (g := [])
        (lexes_units (s := "data=[") rfl rfl) (lexes_units (s := "]") rfl rfl) rfl rfl) .nil
  | multipart parts =>
      have hrows : WritesInside (joinWith (units ", ") (parts.map pythonPart))
          ([comma].intercalate (parts.map pyPartTrees)) :=
        writes_joinWith writesPy_comma fun part _ => writesPy_part part
      exact .cons (writesPy_group (P := fun outer => outer ≠ []) hrows (b := .square)
        (f := [.word (units "files"), .mark 0x3D]) (g := [])
        (lexes_units (s := "files=[") rfl rfl) (lexes_units (s := "]") rfl rfl) rfl rfl) .nil
  | binary fileName =>
      by_cases hname : fileName ≠ []
      · have hdata : WritesInside (units "data=") (namedTrees (units "data")) :=
          writesPy_units [.word (units "data"), .mark 0x3D] rfl rfl rfl
        have hopen : units "data=" ++ units "open(" = units "data=open(" := rfl
        rw [pythonBody, pyBodyTrees, if_pos hname, if_pos hname]
        refine .cons ((hdata.append (writesPy_open fileName)).of_eq ?_ rfl) .nil
        simp only [List.append_assoc, ← hopen]
      · rw [pythonBody, pyBodyTrees, if_neg hname, if_neg hname]
        exact .nil

theorem writesInside_arguments (request : ExportRequest) :
    List.Forall₂ WritesInside (pythonArguments request) (pyArguments request) := by
  have hheaders : List.Forall₂ WritesInside
      (if sentHeaders request ≠ [] then
        [units "headers=\x7b" ++ joinWith (units ", ") ((sentHeaders request).map pythonHeader) ++
          units "\x7d"]
        else [])
      (if sentHeaders request ≠ [] then
        [namedTrees (units "headers") ++
          [.group .curly ([comma].intercalate ((sentHeaders request).map entryTrees))]]
        else []) := by
    by_cases hsome : sentHeaders request ≠ []
    · have hrows : WritesInside (joinWith (units ", ") ((sentHeaders request).map pythonHeader))
          ([comma].intercalate ((sentHeaders request).map entryTrees)) :=
        writes_joinWith writesPy_comma fun header _ => writesPy_header header
      rw [if_pos hsome, if_pos hsome]
      exact .cons (writesPy_group (P := fun outer => outer ≠ []) hrows (b := .curly)
        (f := [.word (units "headers"), .mark 0x3D]) (g := [])
        (lexes_units (s := "headers=\x7b") rfl rfl) (lexes_units (s := "\x7d") rfl rfl) rfl
        rfl) .nil
    · rw [if_neg hsome, if_neg hsome]
      exact .nil
  have htwo : List.Forall₂ WritesInside [literal request.method, literal request.url]
      [[.leaf (.text request.method)], [.leaf (.text request.url)]] :=
    .cons (writesPy_literal _) (.cons (writesPy_literal _) .nil)
  rw [pythonArguments, pyArguments]
  exact List.rel_append (List.rel_append htwo hheaders) (writesInside_body request.body)

/-- The lines of the arguments. -/
theorem writesInside_lines {arguments : List Text} {pieces : List (List Tree)}
    (h : List.Forall₂ WritesInside arguments pieces) :
    WritesInside ((arguments.map fun argument => units "    " ++ argument ++ units ",").flatMap
        fun line => line ++ units "\n")
      (pieces.flatMap fun piece => piece ++ [comma]) := by
  have hspace : WritesInside (units "    ") [] := writesPy_units [] rfl rfl rfl
  have hcomma : WritesInside (units ",") [comma] := writesPy_units [.mark 0x2C] rfl rfl rfl
  induction h with
  | nil => exact writes_nil
  | @cons argument piece arguments pieces hone hrest ih =>
      rw [List.map_cons, List.flatMap_cons, List.flatMap_cons]
      refine Writes.append ?_ ih
      exact ((((hspace.append hone).append hcomma).append writesInside_lineEnd)).of_eq rfl
        (by rw [List.nil_append, List.append_nil])

/-- The statements of a program, each but the last with the end of its line. -/
def pyStatements (request : ExportRequest) : List (List Tree) :=
  [[.leaf (.word (units "import")), .leaf (.word (units "requests"))], [],
    callTrees requestHead ((pyArguments request).flatMap fun piece => piece ++ [comma]),
    callTrees printHead ((printed (units "status_code")).map .leaf)]

def pyLast : List Tree :=
  callTrees printHead ((printed (units "text")).map .leaf)

/-- A line that prints. -/
theorem writesPy_print {field w : Text}
    (h : Lexes python w (printHead ++
      (.mark Bracket.round.opens :: printed field ++ [.mark Bracket.round.closes])))
    (hleaf : (printed field).all isLeaf = true) :
    WritesOutside w (callTrees printHead ((printed field).map .leaf)) :=
  ⟨_, h, fun _ _ => (grows_leaves rfl).append (grows_group .round fun _ => grows_leaves hleaf)⟩

/-- A program is read as its statements. -/
theorem writesOutside_pythonCode (request : ExportRequest) :
    WritesOutside (pythonCode request)
      ((pyStatements request).flatMap
        (fun statement => statement ++ [.leaf .lineEnd]) ++ pyLast) := by
  -- The program is an import, an empty line, the call and two prints.
  have himport : WritesOutside (units "import requests" ++ units "\n")
      [.leaf (.word (units "import")), .leaf (.word (units "requests")), .leaf .lineEnd] := by
    refine ⟨[.word (units "import"), .word (units "requests")] ++ [.lineEnd],
      lexes_units (s := "import requests\n") rfl rfl, fun outer houter => ?_⟩
    rw [houter]
    exact (grows_leaves rfl).append grows_statementEnd
  have hcall : WritesOutside
      (units "response = requests.request(" ++ units "\n" ++
        ((pythonArguments request).map fun argument =>
          units "    " ++ argument ++ units ",").flatMap
          (fun line => line ++ units "\n") ++ units ")")
      (callTrees requestHead ((pyArguments request).flatMap fun piece => piece ++ [comma])) := by
    have hlines := writesInside_lineEnd.append (writesInside_lines (writesInside_arguments request))
    have hgroup := writesPy_group (P := fun outer => outer = []) hlines (b := .round)
      (f := requestHead) (g := [])
      (lexes_units (s := "response = requests.request(") rfl rfl) (lexes_units (s := ")") rfl rfl)
      rfl rfl
    exact hgroup.of_eq (by simp only [List.append_assoc]) rfl
  have hstatus : WritesOutside (units "print(response.status_code)")
      (callTrees printHead ((printed (units "status_code")).map .leaf)) :=
    writesPy_print (lexes_units rfl rfl) rfl
  have htext : WritesOutside (units "print(response.text)") pyLast :=
    writesPy_print (lexes_units rfl rfl) rfl
  -- Its lines, joined, are those pieces.
  have hlines : pythonCode request = joinWith (units "\n")
      (([units "import requests", [], units "response = requests.request("] ++
        (pythonArguments request).map (fun argument => units "    " ++ argument ++ units ",") ++
        [units ")", units "print(response.status_code)"]) ++ [units "print(response.text)"]) := by
    rw [pythonCode, List.append_assoc, List.append_assoc, List.append_assoc]
    rfl
  have hall := ((((himport.append writesOutside_lineEnd).append hcall).append
    writesOutside_lineEnd).append (hstatus.append writesOutside_lineEnd)).append htext
  refine hall.of_eq ?_ ?_
  · rw [hlines, joinWith_lines]
    simp only [List.flatMap_append, List.flatMap_cons, List.flatMap_nil, List.append_nil,
      List.nil_append, List.append_assoc]
  · simp only [pyStatements, List.flatMap_cons, List.flatMap_nil, List.append_nil, List.nil_append,
      List.append_assoc, List.cons_append]

/-! ## What the program makes -/

/-- What a part of a form is made of, where its texts can be encoded. -/
def encodedValue : ExportValue → Option MadeValue
  | .text value => (encoded value).map .text
  | .file fileName => (encoded fileName).map (.file fileName)

def encodedPart (part : ExportPart) : Option MadePart := do
  return { name := ← encoded part.name, value := ← encodedValue part.value }

/-- The body that the code hands over, where it can be encoded. -/
def pyWritten : ExportBody → Option MadeBody
  | .raw text => if text ≠ [] then (encoded text).map .text else some .none
  | .urlencoded fields =>
      (fields.mapM encodedPair).map fun fields => if fields = [] then .none else .fields fields
  | .multipart parts =>
      (parts.mapM encodedPart).map fun parts => if parts = [] then .none else .parts parts
  | .binary fileName => some (if fileName ≠ [] then .file fileName else .none)
  | .none => some .none

theorem pyFile_open (fileName : Text) : pyFile (openTrees fileName) = some fileName := by
  rw [openTrees, pairTree, pyFile, pairOf_pair (fileName, units "rb"), Option.bind_some]
  exact if_pos ⟨rfl, rfl⟩

theorem mapM_pyPair (rows : List (Text × Text)) :
    (rows.map fun row => [pairTree .round row]).mapM pyPair = some rows := by
  rw [mapM_eq_some_iff, List.forall₂_map_left_iff, List.forall₂_same]
  exact fun row _ => pairOf_pair row

theorem mapM_pyEntry (headers : List (Text × Text)) :
    (headers.map entryTrees).mapM pyEntry = some headers := by
  rw [mapM_eq_some_iff, List.forall₂_map_left_iff, List.forall₂_same]
  exact fun header _ => rfl

/-- A part as its tuple says it. -/
theorem pyPart_trees (part : ExportPart) : pyPart (pyPartTrees part) = encodedPart part := by
  -- A part is a pair of its name and a pair of what it holds.
  have hitems : items ([comma].intercalate [[.leaf (.text part.name)],
      [.group .round ([comma].intercalate (valueTrees part.value))]]) =
        [[.leaf (.text part.name)],
          [.group .round ([comma].intercalate (valueTrees part.value))]] := by
    apply items_intercalate
    intro piece hpiece
    simp only [List.mem_cons, List.not_mem_nil, or_false] at hpiece
    rcases hpiece with rfl | rfl
    · exact isItem_literal _
    · exact isItem_group _ _
  have hvalue : pyValue (items ([comma].intercalate (valueTrees part.value))) =
      encodedValue part.value := by
    have hpieces : items ([comma].intercalate (valueTrees part.value)) = valueTrees part.value := by
      apply items_intercalate
      intro piece hpiece
      cases hpart : part.value with
      | text value =>
          rw [hpart, valueTrees] at hpiece
          simp only [List.mem_cons, List.not_mem_nil, or_false] at hpiece
          rcases hpiece with rfl | rfl
          · exact ⟨List.cons_ne_nil _ _, by simp [isMark]⟩
          · exact isItem_literal _
      | file fileName =>
          rw [hpart, valueTrees] at hpiece
          simp only [List.mem_cons, List.not_mem_nil, or_false] at hpiece
          rcases hpiece with rfl | rfl
          · exact isItem_literal _
          · exact ⟨List.cons_ne_nil _ _, by simp [openTrees, pairTree, isMark]⟩
    rw [hpieces]
    cases part.value with
    | text value =>
        have hread : pyValue (valueTrees (.text value)) =
            if units "None" = units "None" then (encoded value).map .text else none := rfl
        rw [hread, if_pos rfl]
        rfl
    | file fileName =>
        have hread : pyValue [[.leaf (.text fileName)], openTrees fileName] = (do
            return .file (← pyFile (openTrees fileName)) (← encoded fileName)) := rfl
        rw [valueTrees, hread, pyFile_open, encodedValue]
        cases encoded fileName <;> rfl
  rw [pyPartTrees, pyPart, hitems]
  simp only [hvalue]
  rfl

/-- The named arguments are read one after the other. -/
theorem foldlM_named (request : ExportRequest) :
    ((pyArguments request).drop 2).foldlM pyArgument {} =
      (pyWritten request.body).map fun body =>
        { headers := (OrderedMap.ofPairs (sentHeaders request)).entries, body } := by
  have hgroups : ∀ {α : Type} (xs : List α) (tree : α → Tree),
      (∀ x, isMark 0x2C (tree x) = false) →
      items ([comma].intercalate (xs.map fun x => [tree x])) = xs.map fun x => [tree x] := by
    intro α xs tree htree
    apply items_intercalate
    intro piece hpiece
    obtain ⟨x, -, rfl⟩ := List.mem_map.mp hpiece
    exact ⟨List.cons_ne_nil _ _, by simpa using htree x⟩
  -- The headers come first, as a dictionary: of one name the last is kept.
  have hheaders : ∀ init : PyInit, pyArgument init (namedTrees (units "headers") ++
      [.group .curly ([comma].intercalate ((sentHeaders request).map entryTrees))]) =
        some { init with headers := (OrderedMap.ofPairs (sentHeaders request)).entries } := by
    intro init
    have hitems : items ([comma].intercalate ((sentHeaders request).map entryTrees)) =
        (sentHeaders request).map entryTrees := by
      apply items_intercalate
      intro piece hpiece
      obtain ⟨header, -, rfl⟩ := List.mem_map.mp hpiece
      exact ⟨List.cons_ne_nil _ _, by simp [entryTrees, isMark]⟩
    have hread : pyArgument init (namedTrees (units "headers") ++
        [.group .curly ([comma].intercalate ((sentHeaders request).map entryTrees))]) =
          ((items ([comma].intercalate ((sentHeaders request).map entryTrees))).mapM pyEntry).map
            fun entries => { init with headers := (OrderedMap.ofPairs entries).entries } := rfl
    rw [hread, hitems, mapM_pyEntry]
    rfl
  -- Then the body, under one name at most.
  have hbody : ∀ init : PyInit, init.body = .none →
      (pyBodyTrees request.body).foldlM pyArgument init =
        (pyWritten request.body).map fun body => { init with body } := by
    intro init hnone
    have hdata : ∀ value : List Tree, pyArgument init (namedTrees (units "data") ++ value) =
        (pyData value).map fun body => { init with body } := fun value => rfl
    have hfiles : ∀ value : List Tree, pyArgument init (namedTrees (units "files") ++ value) =
        (pyFiles value).map fun body => { init with body } := fun value => rfl
    have hone : ∀ piece : List Tree, [piece].foldlM pyArgument init = pyArgument init piece := by
      intro piece
      rw [List.foldlM_cons]
      cases pyArgument init piece <;> rfl
    have hkept : some init = (some MadeBody.none).map fun body => { init with body } := by
      rw [Option.map_some, ← hnone]
    cases request.body with
    | none => exact hkept
    | raw text =>
        by_cases htext : text ≠ []
        · have hread :
              pyData [.leaf (.text text), .leaf (.mark 0x2E), .leaf (.word (units "encode")),
              .group .round [.leaf (.text (units "utf-8"))]] =
                if units "encode" = units "encode" ∧ units "utf-8" = units "utf-8" then
                  (encoded text).map .text else none := rfl
          rw [pyBodyTrees, pyWritten, if_pos htext, if_pos htext, hone, hdata, hread,
            if_pos ⟨rfl, rfl⟩]
        · rw [pyBodyTrees, pyWritten, if_neg htext, if_neg htext]
          exact hkept
    | urlencoded fields =>
        have hread : pyData [.group .square
            ([comma].intercalate (fields.map fun row => [pairTree .round row]))] =
              (fields.mapM encodedPair).map fun fields =>
                if fields = [] then .none else .fields fields := by
          have hpairs := mapM_pyPair fields
          rw [pyData, hgroups fields (pairTree .round) (fun _ => rfl), hpairs]
          cases hmap : fields.mapM encodedPair <;> simp [hmap]
        rw [pyBodyTrees, pyWritten, hone, hdata, hread]
    | multipart parts =>
        have hread : pyFiles [.group .square ([comma].intercalate (parts.map pyPartTrees))] =
            (parts.mapM encodedPart).map fun parts =>
              if parts = [] then .none else .parts parts := by
          have hparts : (parts.map pyPartTrees).mapM pyPart = parts.mapM encodedPart := by
            rw [List.mapM_map]
            exact congrArg (fun f => parts.mapM f) (funext pyPart_trees)
          have hitems : items ([comma].intercalate (parts.map pyPartTrees)) =
              parts.map pyPartTrees := by
            apply items_intercalate
            intro piece hpiece
            obtain ⟨part, -, rfl⟩ := List.mem_map.mp hpiece
            exact isItem_group _ _
          rw [pyFiles, hitems, hparts]
          cases hmap : parts.mapM encodedPart <;> simp
        rw [pyBodyTrees, pyWritten, hone, hfiles, hread]
    | binary fileName =>
        by_cases hname : fileName ≠ []
        · have hread : pyData (openTrees fileName) = (pyFile (openTrees fileName)).map .file := rfl
          rw [pyBodyTrees, pyWritten, if_pos hname, if_pos hname, hone, hdata, hread, pyFile_open]
          rfl
        · rw [pyBodyTrees, pyWritten, if_neg hname, if_neg hname]
          exact hkept
  -- The method and the address stand in front of what has a name.
  have hdrop : (pyArguments request).drop 2 =
      (if sentHeaders request ≠ [] then
        [namedTrees (units "headers") ++
          [.group .curly ([comma].intercalate ((sentHeaders request).map entryTrees))]]
        else []) ++ pyBodyTrees request.body := by
    rw [pyArguments, List.append_assoc]
    rfl
  rw [hdrop, List.foldlM_append]
  by_cases hsome : sentHeaders request = []
  · rw [if_neg (by simp [hsome]), List.foldlM_nil, hsome]
    exact hbody {} rfl
  · rw [if_pos hsome, List.foldlM_cons, hheaders]
    exact hbody { headers := (OrderedMap.ofPairs (sentHeaders request)).entries } rfl

/-- The arguments are items of the call. -/
theorem isItem_pyArguments (request : ExportRequest) :
    ∀ piece ∈ pyArguments request, IsItem piece := by
  -- Nothing in an argument is a comma of the call.
  have hnamed : ∀ (name : Text) (rest : List Tree), (∀ tree ∈ rest, isMark 0x2C tree = false) →
      IsItem (namedTrees name ++ rest) := by
    intro name rest hrest
    refine ⟨by simp [namedTrees], fun tree htree => ?_⟩
    rcases List.mem_append.mp htree with h | h
    · simp only [namedTrees, List.mem_cons, List.not_mem_nil, or_false] at h
      rcases h with rfl | rfl <;> rfl
    · exact hrest tree h
  intro piece hpiece
  rw [pyArguments] at hpiece
  rcases List.mem_append.mp hpiece with hpiece | hpiece
  · rcases List.mem_append.mp hpiece with hpiece | hpiece
    · simp only [List.mem_cons, List.not_mem_nil, or_false] at hpiece
      rcases hpiece with rfl | rfl <;> exact isItem_literal _
    · split_ifs at hpiece with hheaders
      · rw [List.mem_singleton.mp hpiece]
        exact hnamed _ _ (by simp [isMark])
      · exact absurd hpiece (List.not_mem_nil)
  · cases hbody : request.body with
    | none =>
        rw [hbody] at hpiece
        exact absurd hpiece (List.not_mem_nil)
    | raw text =>
        rw [hbody, pyBodyTrees] at hpiece
        split_ifs at hpiece with htext
        · rw [List.mem_singleton.mp hpiece]
          exact hnamed _ _ (by simp [isMark])
        · exact absurd hpiece (List.not_mem_nil)
    | urlencoded fields =>
        rw [hbody, pyBodyTrees] at hpiece
        rw [List.mem_singleton.mp hpiece]
        exact hnamed _ _ (by simp [isMark])
    | multipart parts =>
        rw [hbody, pyBodyTrees] at hpiece
        rw [List.mem_singleton.mp hpiece]
        exact hnamed _ _ (by simp [isMark])
    | binary fileName =>
        rw [hbody, pyBodyTrees] at hpiece
        split_ifs at hpiece with hname
        · rw [List.mem_singleton.mp hpiece]
          exact hnamed _ _ (by simp [openTrees, pairTree, isMark])
        · exact absurd hpiece (List.not_mem_nil)

/-- No statement holds the end of a line. -/
theorem isLineEnd_callTrees {head : List Token} (h : Token.lineEnd ∉ head) (args : List Tree) :
    ∀ tree ∈ callTrees head args, isLineEnd tree = false := by
  intro tree htree
  rcases List.mem_append.mp htree with hmem | hmem
  · obtain ⟨t, ht, rfl⟩ := List.mem_map.mp hmem
    cases t with
    | lineEnd => exact absurd ht h
    | _ => rfl
  · rw [List.mem_singleton.mp hmem]
    rfl

variable (S : PythonSide)

theorem pyStatement_call (s : PyState) (head : List Token) (args : List Tree) :
    pyStatement S s (callTrees head args) = pyCall S s head args := by
  rw [pyStatement, callOf_callTrees]

/-- A line that prints changes nothing once the response is there. -/
theorem pyStatement_print {s : PyState} (hmade : s.made.isSome = true) {field : Text}
    (hfield : field = units "status_code" ∨ field = units "text") :
    pyStatement S s (callTrees printHead ((printed field).map .leaf)) = some s := by
  have hne : printHead ≠ requestHead := by decide
  have htokens : treesTokens ((printed field).map .leaf) = printed field := rfl
  rw [pyStatement_call, pyCall, if_neg hne, if_pos rfl, htokens, if_pos]
  rcases hfield with rfl | rfl
  · exact ⟨hmade, .inl rfl⟩
  · exact ⟨hmade, .inr rfl⟩

/-- The call of the program. -/
theorem requestCall_written (request : ExportRequest) :
    requestCall S { imported := true }
      ((pyArguments request).flatMap fun piece => piece ++ [comma]) =
      (pyWritten request.body).bind fun body =>
        (requestsMakes S request.method request.url
          { headers := (OrderedMap.ofPairs (sentHeaders request)).entries, body }).map
          fun made => { imported := true, made := some made } := by
  have hcons :
      pyArguments request = [.leaf (.text request.method)] :: [.leaf (.text request.url)] ::
      (pyArguments request).drop 2 := by
    rw [pyArguments, List.append_assoc]
    rfl
  have hcall : ∀ named : List (List Tree),
      items ((pyArguments request).flatMap fun piece => piece ++ [comma]) =
        [.leaf (.text request.method)] :: [.leaf (.text request.url)] :: named →
      requestCall S { imported := true }
          ((pyArguments request).flatMap fun piece => piece ++ [comma]) =
        (named.foldlM pyArgument {}).bind fun init =>
          (requestsMakes S request.method request.url init).bind fun made =>
            some { imported := true, made := some made } := by
    intro named hnamed
    rw [requestCall, hnamed]
    rfl
  rw [hcall _ ((items_flatMap (isItem_pyArguments request)).trans hcons), foldlM_named]
  cases pyWritten request.body with
  | none => rfl
  | some body =>
      rw [Option.map_some, Option.bind_some, Option.bind_some]
      cases requestsMakes S request.method request.url
        { headers := (OrderedMap.ofPairs (sentHeaders request)).entries, body } <;> rfl

/-- The request that the code of a request makes: what `requests` makes of its method, its address,
the dict of its headers, and its body where that can be encoded. -/
theorem readPython_pythonCode (request : ExportRequest) :
    readPython S (pythonCode request) =
      (pyWritten request.body).bind fun body =>
        requestsMakes S request.method request.url
          { headers := (OrderedMap.ofPairs (sentHeaders request)).entries, body } := by
  have hstatements : ∀ statement ∈ pyStatements request, ∀ tree ∈ statement,
      isLineEnd tree = false := by
    intro statement hstatement
    simp only [pyStatements, List.mem_cons, List.not_mem_nil, or_false] at hstatement
    rcases hstatement with rfl | rfl | rfl | rfl
    · simp [isLineEnd]
    · exact fun tree htree => absurd htree (List.not_mem_nil)
    · exact isLineEnd_callTrees (by decide) _
    · exact isLineEnd_callTrees (by decide) _
  -- The statements are cut at their line ends, and none holds another.
  have hcut := splitOnP_flatMap (s := Tree.leaf .lineEnd) (p := isLineEnd) rfl hstatements
    (l := pyLast) (isLineEnd_callTrees (by decide) _)
  rw [readPython, (writesOutside_pythonCode request).read]
  simp only [Option.bind_eq_bind, Option.bind_some, hcut]
  have himport :
      pyStatement S {} [.leaf (.word (units "import")), .leaf (.word (units "requests"))] =
      some { imported := true } := rfl
  have hempty : pyStatement S { imported := true } [] = some { imported := true } := rfl
  have hrequest : pyStatement S { imported := true }
      (callTrees requestHead ((pyArguments request).flatMap fun piece => piece ++ [comma])) =
        requestCall S { imported := true }
          ((pyArguments request).flatMap fun piece => piece ++ [comma]) := by
    rw [pyStatement_call, pyCall, if_pos rfl]
  rw [pyStatements, List.foldlM_append, List.foldlM_cons, himport, Option.bind_eq_bind,
    Option.bind_some, List.foldlM_cons, hempty, Option.bind_eq_bind, Option.bind_some,
    List.foldlM_cons, hrequest, requestCall_written]
  cases pyWritten request.body with
  | none => rfl
  | some body =>
      rw [Option.bind_some, Option.bind_some]
      -- What the call makes of its arguments is what the program sends.
      cases requestsMakes S request.method request.url
          { headers := (OrderedMap.ofPairs (sentHeaders request)).entries, body } with
      | none => rfl
      | some made =>
          have hstatus := pyStatement_print S (s := { imported := true, made := some made }) rfl
            (.inl rfl : units "status_code" = units "status_code" ∨ _)
          have htext := pyStatement_print S (s := { imported := true, made := some made }) rfl
            (.inr rfl : units "text" = units "status_code" ∨ units "text" = units "text")
          rw [Option.map_some, Option.bind_eq_bind, Option.bind_some, List.foldlM_cons, hstatus,
            Option.bind_eq_bind, Option.bind_some, List.foldlM_nil, Option.pure_def,
            Option.bind_some, List.foldlM_cons, pyLast, htext]
          rfl

/-! ## When it is the request -/

/-- A body whose texts can be encoded. A form without parts is no body to `requests`. -/
def Encodes : ExportBody → Prop
  | .raw text => scrub text = text
  | .urlencoded fields => ∀ row ∈ fields, scrub row.1 = row.1 ∧ scrub row.2 = row.2
  | .multipart parts =>
      parts ≠ [] ∧ ∀ part ∈ parts, scrub part.name = part.name ∧
        match part.value with
        | .text value => scrub value = value
        | .file fileName => scrub fileName = fileName
  | .binary _ => True
  | .none => True

theorem encoded_eq_some_iff {t held : Text} : encoded t = some held ↔ scrub t = t ∧ held = t := by
  rw [encoded]
  split_ifs with h
  · rw [Option.some_inj]
    exact ⟨fun heq => ⟨h, heq.symm⟩, fun heq => heq.2.symm⟩
  · exact ⟨fun heq => (by cases heq), fun heq => absurd heq.1 h⟩

theorem encodedPair_eq_some_iff {row held : Text × Text} :
    encodedPair row = some held ↔ (scrub row.1 = row.1 ∧ scrub row.2 = row.2) ∧ held = row := by
  have hbind : encodedPair row =
      (encoded row.1).bind fun first => (encoded row.2).bind fun second => some (first, second) :=
        rfl
  rw [hbind]
  constructor
  · intro h
    obtain ⟨first, hfirst, h⟩ := Option.bind_eq_some_iff.mp h
    obtain ⟨second, hsecond, h⟩ := Option.bind_eq_some_iff.mp h
    obtain ⟨hgood, rfl⟩ := encoded_eq_some_iff.mp hfirst
    obtain ⟨hgood', rfl⟩ := encoded_eq_some_iff.mp hsecond
    exact ⟨⟨hgood, hgood'⟩, (Option.some_inj.mp h).symm⟩
  · rintro ⟨⟨hfirst, hsecond⟩, rfl⟩
    rw [encoded_eq_some_iff.mpr ⟨hfirst, rfl⟩, encoded_eq_some_iff.mpr ⟨hsecond, rfl⟩]
    rfl

theorem encodedValue_eq_some_iff {value : ExportValue} {held : MadeValue} :
    encodedValue value = some held ↔
      (match value with
        | .text value => scrub value = value
        | .file fileName => scrub fileName = fileName) ∧
      held = match value with
        | .text value => .text value
        | .file fileName => .file fileName fileName := by
  cases value with
  | text value =>
      rw [encodedValue, Option.map_eq_some_iff]
      constructor
      · rintro ⟨t, ht, rfl⟩
        obtain ⟨hgood, rfl⟩ := encoded_eq_some_iff.mp ht
        exact ⟨hgood, rfl⟩
      · rintro ⟨hgood, rfl⟩
        exact ⟨value, encoded_eq_some_iff.mpr ⟨hgood, rfl⟩, rfl⟩
  | file fileName =>
      rw [encodedValue, Option.map_eq_some_iff]
      constructor
      · rintro ⟨t, ht, rfl⟩
        obtain ⟨hgood, rfl⟩ := encoded_eq_some_iff.mp ht
        exact ⟨hgood, rfl⟩
      · rintro ⟨hgood, rfl⟩
        exact ⟨fileName, encoded_eq_some_iff.mpr ⟨hgood, rfl⟩, rfl⟩

theorem encodedPart_eq_some_iff {part : ExportPart} {held : MadePart} :
    encodedPart part = some held ↔
      (scrub part.name = part.name ∧
        match part.value with
        | .text value => scrub value = value
        | .file fileName => scrub fileName = fileName) ∧ held = partMade part := by
  have hbind : encodedPart part = (encoded part.name).bind fun name =>
      (encodedValue part.value).bind fun value => some { name, value } := rfl
  rw [hbind]
  constructor
  · intro h
    obtain ⟨name, hname, h⟩ := Option.bind_eq_some_iff.mp h
    obtain ⟨value, hvalue, h⟩ := Option.bind_eq_some_iff.mp h
    obtain ⟨hgood, rfl⟩ := encoded_eq_some_iff.mp hname
    obtain ⟨hgood', rfl⟩ := encodedValue_eq_some_iff.mp hvalue
    exact ⟨⟨hgood, hgood'⟩, (Option.some_inj.mp h).symm⟩
  · rintro ⟨⟨hname, hvalue⟩, rfl⟩
    rw [encoded_eq_some_iff.mpr ⟨hname, rfl⟩, encodedValue_eq_some_iff.mpr ⟨hvalue, rfl⟩]
    rfl

/-- The code hands over the body exactly when its texts can be encoded. -/
theorem pyWritten_made_iff (body : ExportBody) :
    (∃ made, pyWritten body = some made ∧ BodyMade body made) ↔ Encodes body := by
  cases body with
  | none => exact ⟨fun _ => trivial, fun _ => ⟨.none, rfl, rfl⟩⟩
  | raw text =>
      rw [pyWritten, Encodes]
      by_cases htext : text = []
      · subst htext
        exact ⟨fun _ => rfl, fun _ => ⟨.none, rfl, rfl⟩⟩
      · rw [if_pos htext]
        constructor
        · rintro ⟨made, hmade, -⟩
          obtain ⟨t, ht, -⟩ := Option.map_eq_some_iff.mp hmade
          exact (encoded_eq_some_iff.mp ht).1
        · intro hgood
          exact ⟨.text text, by rw [encoded_eq_some_iff.mpr ⟨hgood, rfl⟩]; rfl, rfl⟩
  | urlencoded fields =>
      rw [pyWritten, Encodes]
      constructor
      · rintro ⟨made, hmade, -⟩
        obtain ⟨rows, hrows, -⟩ := Option.map_eq_some_iff.mp hmade
        exact ((mapM_eq_some_map_iff (g := id) fun _ _ => encodedPair_eq_some_iff).mp hrows).1
      · intro hgood
        have hrows : fields.mapM encodedPair = some fields :=
          (mapM_eq_some_map_iff (g := id) fun _ _ => encodedPair_eq_some_iff).mpr
            ⟨hgood, (List.map_id fields).symm⟩
        rw [hrows]
        by_cases hnone : fields = []
        · subst hnone
          exact ⟨.none, rfl, rfl⟩
        · exact ⟨.fields fields, by rw [Option.map_some, if_neg hnone], rfl⟩
  | multipart parts =>
      rw [pyWritten, Encodes]
      constructor
      · rintro ⟨made, hmade, hbody⟩
        obtain ⟨rows, hrows, rfl⟩ := Option.map_eq_some_iff.mp hmade
        obtain ⟨hgood, rfl⟩ :=
          (mapM_eq_some_map_iff fun _ _ => encodedPart_eq_some_iff).mp hrows
        refine ⟨fun hnone => ?_, hgood⟩
        subst hnone
        cases hbody
      · rintro ⟨hsome, hgood⟩
        rw [(mapM_eq_some_map_iff fun _ _ => encodedPart_eq_some_iff).mpr ⟨hgood, rfl⟩]
        have hparts : parts.map partMade ≠ [] := by simpa using hsome
        exact ⟨.parts (parts.map partMade), by rw [Option.map_some, if_neg hparts], rfl⟩
  | binary fileName =>
      refine ⟨fun _ => trivial, fun _ => ⟨_, rfl, ?_⟩⟩
      cases fileName <;> rfl

/-- A session keeps headers as they are when no two have one name, whatever its case. -/
theorem sessionHeaders_eq_iff (headers : List (Text × Text)) :
    sessionHeaders S (OrderedMap.ofPairs headers).entries = headers ↔
      (headers.map fun header => S.lower header.1).Nodup := by
  constructor
  · intro h
    -- Each entry is kept under its own name.
    have hkeys : (sessionHeaders S (OrderedMap.ofPairs headers).entries).map
        (fun header => S.lower header.1) =
          ((OrderedMap.ofPairs ((OrderedMap.ofPairs headers).entries.map fun header =>
            (S.lower header.1, header))).entries.map Prod.fst) := by
      rw [sessionHeaders, OrderedMap.values, List.map_map]
      apply List.map_congr_left
      intro entry hentry
      obtain ⟨header, -, rfl⟩ :=
        List.mem_map.mp (OrderedMap.mem_of_mem_entries_ofPairs hentry)
      rfl
    rw [h] at hkeys
    rw [hkeys]
    exact OrderedMap.nodup _
  · intro h
    have hnames : (headers.map Prod.fst).Nodup := by
      refine List.Nodup.of_map S.lower ?_
      rwa [List.map_map]
    rw [OrderedMap.entries_ofPairs_of_nodup hnames, sessionHeaders, OrderedMap.values,
      OrderedMap.entries_ofPairs_of_nodup, List.map_map]
    · exact List.map_id headers
    · rwa [List.map_map]

/-- When the Python of a request makes it: `requests` leaves its method as it is, no two of its
headers have one name, `requests` takes each of them, and its body can be encoded. -/
structure PythonSays (request : ExportRequest) : Prop where
  method : S.upper request.method = request.method
  names : ((sentHeaders request).map fun header => S.lower header.1).Nodup
  headers : ∀ header ∈ sentHeaders request, S.takesHeader header.1 header.2 = true
  body : Encodes request.body

theorem pythonCode_says_iff (request : ExportRequest) :
    (∃ made, readPython S (pythonCode request) = some made ∧ made.Says request) ↔
      PythonSays S request := by
  rw [readPython_pythonCode]
  constructor
  · rintro ⟨made, hmade, hright⟩
    obtain ⟨body, hbody, hmade⟩ := Option.bind_eq_some_iff.mp hmade
    rw [requestsMakes] at hmade
    split_ifs at hmade with htakes
    cases hmade
    have hheaders : sessionHeaders S (OrderedMap.ofPairs (sentHeaders request)).entries =
        sentHeaders request := hright.headers
    rw [hheaders, List.all_eq_true] at htakes
    exact ⟨hright.method, (sessionHeaders_eq_iff S _).mp hheaders, htakes,
      (pyWritten_made_iff _).mp ⟨body, hbody, hright.body⟩⟩
  · rintro ⟨hmethod, hnames, htakes, hencodes⟩
    obtain ⟨body, hbody, hmade⟩ := (pyWritten_made_iff _).mpr hencodes
    have hheaders := (sessionHeaders_eq_iff S (sentHeaders request)).mpr hnames
    refine ⟨⟨request.method, request.url, sentHeaders request, body⟩, ?_, ⟨rfl, rfl, rfl, hmade⟩⟩
    rw [hbody, Option.bind_some, requestsMakes]
    simp only [hheaders, hmethod]
    rw [if_pos (List.all_eq_true.mpr htakes)]

end Codegen

end Wayfarer
