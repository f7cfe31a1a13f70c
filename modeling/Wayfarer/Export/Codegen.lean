import Wayfarer.Export.Curl

/-!
# A request as code

`generateCode` writes a request for one of three targets: a call of `fetch`, a call of Python's
`requests`, or a command of HTTPie. The user's text goes into the first two only as JSON string
literals, and into the third only as quoted words. HTTPie has no way to say some requests; for these
the text is one comment line that says why.
-/

set_option autoImplicit false

namespace Wayfarer

open Library

namespace Codegen

/-- The languages and tools a request can be written out for. -/
inductive CodeTarget where
  | fetch
  | pythonRequests
  | httpie

/-- A string literal of JavaScript, and of Python. -/
def literal (text : Text) : Text :=
  jsonString text

def pairs (rows : List (Text × Text)) (opens closes : Text) : List Text :=
  rows.map fun row => opens ++ literal row.1 ++ units ", " ++ literal row.2 ++ closes

/-- A header without a name is not sent. -/
def sentHeaders (request : ExportRequest) : List (Text × Text) :=
  request.headers.filter fun header => header.1 ≠ []

/-! ## JavaScript -/

/-- The line that adds a part to a form. -/
def fetchPart (part : ExportPart) : Text :=
  match part.value with
  | .text value =>
      units "form.append(" ++ literal part.name ++ units ", " ++ literal value ++ units ");"
  | .file fileName =>
      units "form.append(" ++ literal part.name ++ units ", await openAsBlob(" ++
        literal fileName ++ units "), " ++ literal fileName ++ units ");"

/-- The lines before the call. -/
def fetchBefore : ExportBody → List Text
  | .multipart parts => units "const form = new FormData();" :: parts.map fetchPart
  | _ => []

/-- The body as an expression, empty where there is none. -/
def fetchSent : ExportBody → Text
  | .raw text => if text ≠ [] then literal text else []
  | .urlencoded fields =>
      units "new URLSearchParams([" ++
        joinWith (units ", ") (pairs fields (units "[") (units "]")) ++ units "])"
  | .multipart _ => units "form"
  | .binary fileName =>
      if fileName ≠ [] then units "await openAsBlob(" ++ literal fileName ++ units ")" else []
  | .none => []

def isFilePart (part : ExportPart) : Bool :=
  match part.value with
  | .file _ => true
  | .text _ => false

/-- Whether the code reads a file. -/
def readsFile : ExportBody → Bool
  | .multipart parts => parts.any isFilePart
  | .binary fileName => fileName ≠ []
  | _ => false

def fetchCode (request : ExportRequest) : Text :=
  joinWith (units "\n") <|
    (if readsFile request.body then [units "import \x7b openAsBlob \x7d from \"node:fs\";", []]
      else []) ++
    fetchBefore request.body ++
    [units "const response = await fetch(" ++ literal request.url ++ units ", \x7b",
      units "  method: " ++ literal request.method ++ units ","] ++
    (if sentHeaders request ≠ [] then
      [units "  headers: ["] ++ pairs (sentHeaders request) (units "    [") (units "],") ++
        [units "  ],"]
      else []) ++
    (if fetchSent request.body ≠ [] then [units "  body: " ++ fetchSent request.body ++ units ","]
      else []) ++
    [units "\x7d);", units "console.log(response.status, await response.text());"]

/-! ## Python -/

/-- An entry of the headers. -/
def pythonHeader (header : Text × Text) : Text :=
  literal header.1 ++ units ": " ++ literal header.2

/-- A part of a form. A text part has no file name. -/
def pythonPart (part : ExportPart) : Text :=
  match part.value with
  | .text value =>
      units "(" ++ literal part.name ++ units ", (None, " ++ literal value ++ units "))"
  | .file fileName =>
      units "(" ++ literal part.name ++ units ", (" ++ literal fileName ++ units ", open(" ++
        literal fileName ++ units ", \"rb\")))"

/-- The argument that carries the body. -/
def pythonBody : ExportBody → List Text
  | .raw text =>
      if text ≠ [] then [units "data=" ++ literal text ++ units ".encode(\"utf-8\")"] else []
  | .urlencoded fields =>
      [units "data=[" ++ joinWith (units ", ") (pairs fields (units "(") (units ")")) ++ units "]"]
  | .multipart parts =>
      [units "files=[" ++ joinWith (units ", ") (parts.map pythonPart) ++ units "]"]
  | .binary fileName =>
      if fileName ≠ [] then [units "data=open(" ++ literal fileName ++ units ", \"rb\")"] else []
  | .none => []

/-- The arguments of the call. -/
def pythonArguments (request : ExportRequest) : List Text :=
  [literal request.method, literal request.url] ++
    (if sentHeaders request ≠ [] then
      [units "headers=\x7b" ++ joinWith (units ", ") ((sentHeaders request).map pythonHeader) ++
        units "\x7d"]
      else []) ++
    pythonBody request.body

def pythonCode (request : ExportRequest) : Text :=
  joinWith (units "\n") <|
    [units "import requests", [], units "response = requests.request("] ++
    (pythonArguments request).map (fun argument => units "    " ++ argument ++ units ",") ++
    [units ")", units "print(response.status_code)", units "print(response.text)"]

/-! ## HTTPie -/

/-- Why HTTPie cannot be given a request, as the comment in the command's place. -/
def notHttpie (why : Text) : Text :=
  units "# HTTPie cannot say this request: " ++ why ++ units ". Copy it as cURL instead."

/-- A value that HTTPie would read as a file or as another kind of item. -/
def isUnsafe (value : Text) : Bool :=
  value.head?.any fun c => c = 0x40 || c = 0x3D

/-- The characters that are escaped in a name. -/
def nameMarks : Text :=
  units "\\:=@;"

/-- A name as an item holds it. -/
def itemName (text : Text) : Text :=
  text.flatMap fun c => if nameMarks.contains c then [backslash, c] else [c]

/-- The characters of a method behind its first letter, besides letters and digits. -/
def httpieMethodMarks : Text :=
  units "!#$%&'*+.^_`|~-"

def isHttpieMethod : Text → Bool
  | [] => false
  | c :: rest =>
      isLetter c && rest.all fun d => isAlphanumeric d.toNat || httpieMethodMarks.contains d

def startsDash (text : Text) : Bool :=
  (units "-").isPrefixOf text

/-- The names a command holds in front of a separator. -/
def itemNames (request : ExportRequest) : List Text :=
  (sentHeaders request).map Prod.fst ++
    match request.body with
    | .multipart parts => parts.map ExportPart.name
    | _ => []

/-- What the comment says of a value that HTTPie would read as something else. -/
def readAsFile : Text :=
  units " starts with \"@\" or \"=\", which HTTPie reads as a file or as another kind of item"

/-- A header as an item. -/
def headerItem (header : Text × Text) : Except Text Text :=
  if isUnsafe header.2 then
    .error (units "the value of the header " ++ commentName header.1 ++ readAsFile)
  else
    -- A name and a colon alone would remove the header.
    .ok (shellQuote (if header.2 ≠ [] then itemName header.1 ++ units ":" ++ header.2
      else itemName header.1 ++ units ";"))

/-- A part of a form as an item. -/
def partItem (part : ExportPart) : Except Text Text :=
  match part.value with
  | .text value =>
      if isUnsafe value then
        .error (units "the value of the form part " ++ commentName part.name ++ readAsFile)
      else .ok (shellQuote (itemName part.name ++ units "=" ++ value))
  | .file fileName => .ok (shellQuote (itemName part.name ++ units "@" ++ fileName))

/-- The flags and the items that carry the body. -/
def httpieBody : ExportBody → Except Text (List Text × List Text)
  | .raw text => .ok (if text ≠ [] then [units "--raw " ++ shellQuote text] else [], [])
  | .urlencoded fields =>
      .ok (if fields ≠ [] then [units "--raw " ++ shellQuote (formSerialize fields)] else [], [])
  | .multipart parts => do return ([units "--multipart"], ← parts.mapM partItem)
  | .binary fileName =>
      .ok ([], if fileName ≠ [] then [shellQuote (units "@" ++ fileName)] else [])
  | .none => .ok ([], [])

/-- The arguments of the command, or why there is none. -/
def httpieArguments (request : ExportRequest) : Except Text (List Text) :=
  if isHttpieMethod request.method = false then
    .error (units
      "the method does not start with a letter, and HTTPie could read it as an option")
  else if startsDash request.url then
    .error (units "the address starts with \"-\", which HTTPie reads as an option")
  else
    match (itemNames request).find? startsDash with
    | some key =>
        .error (units "the name " ++ commentName key ++
          units " starts with \"-\", which HTTPie reads as an option")
    | none => do
        let headers ← (sentHeaders request).mapM headerItem
        let (flags, items) ← httpieBody request.body
        return [units "http", units "--ignore-stdin"] ++ flags ++
          [shellQuote request.method, shellQuote request.url] ++ headers ++ items

def httpieCode (request : ExportRequest) : Text :=
  match httpieArguments request with
  | .error why => notHttpie why
  | .ok arguments => joinWith (units " \\\n  ") arguments

/-- The request as code for a target. -/
def generateCode : CodeTarget → ExportRequest → Text
  | .fetch, request => fetchCode request
  | .pythonRequests, request => pythonCode request
  | .httpie, request => httpieCode request

end Codegen

end Wayfarer
