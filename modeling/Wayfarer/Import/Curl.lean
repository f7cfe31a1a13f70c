import Wayfarer.Composer.Tabs
import Wayfarer.Export.Request
import Wayfarer.Library.Form
import Wayfarer.Model.Validate

/-!
# A cURL command as a request

`parseCurl` reads a command as the request it would send: its words (`bashWords`, `cmdWords`), its
options one after the other (`CurlState`), and what they make of the method, the address and the
body. It runs nothing and reads no file: what comes from a file is named, or left out with a
warning. `curlRequest` makes a request of the app of it.
-/

set_option autoImplicit false

namespace Wayfarer

open Library

/-- Why a file or a command was not imported. -/
structure ImportError where
  message : Text
  issues : List ValidationIssue := []
  deriving DecidableEq

/-- Nothing is imported, for a reason. -/
def refused {α : Type} (message : Text) : Except ImportError α :=
  .error { message }

/-! ## Words -/

/-- What a letter after a backslash stands for inside `$'…'`. -/
def ansiC : List (CodeUnit × CodeUnit) :=
  [(0x6E, 0x0A), (0x74, 0x09), (0x72, 0x0D), (0x61, 0x07), (0x62, 0x08), (0x65, 0x1B), (0x66, 0x0C),
    (0x76, 0x0B), (0x5C, 0x5C), (0x27, 0x27), (0x22, 0x22), (0x3F, 0x3F)]

/-- A character by its number: a letter in front, the most digits, and their base. -/
def numberedEscape (rest : Text) (form : Text × Nat × Nat) : Option (Text × Nat) :=
  let (letter, most, radix) := form
  if letter.isPrefixOf rest then
    let digits := ((rest.drop letter.length).takeWhile fun c =>
      (hexValue c).any fun value => value < radix).take most
    let code := digits.foldl (fun n c => n * radix + (hexValue c).getD 0) 0
    if digits = [] then none
    else some (if code ≤ 0x10FFFF then unitsOf code else [], letter.length + digits.length)
  else none

/-- What follows a backslash inside `$'…'`, and how many characters of the text it took. -/
def ansiEscape (rest : Text) : Text × Nat :=
  let forms := [(units "x", 2, 16), (units "u", 4, 16), (units "U", 8, 16), ([], 3, 8)]
  match forms.findSome? (numberedEscape rest) with
  | some found => found
  | none =>
      match rest with
      | [] => ([backslash], 1)
      | c :: _ =>
          match ansiC.find? fun entry => entry.1 = c with
          | some entry => ([entry.2], 1)
          | none => ([backslash, c], 1)

/-- Where a shell stands in a text: between quotes, or in one of its three kinds. The characters of
an escape that were taken already are passed over. -/
inductive BashMode where
  | bare
  | single (piece : Text)
  | ansi (piece : Text) (taken : Nat)
  | double (piece : Text)

/-- A piece added to the word that is being read. -/
def addPiece (word : Option Text) (piece : Text) : Option Text :=
  some (word.getD [] ++ piece)

/-- What a backslash escapes inside double quotes. -/
def doubleEscaped : Text := units "\"\\$`\n"

/-- The words of what is left of a command line, after the words and the part of one read so far. -/
def bashFrom : BashMode → Option Text → List Text → Text → Except ImportError (List Text)
  | .bare, word, words, [] => .ok (words ++ word.toList)
  | .bare, word, words, c :: rest =>
      if c = backslash then
        match rest with
        | [] => .ok (words ++ word.toList)
        -- A line that goes on: the backslash and the line break are nothing.
        | 0x0A :: rest => bashFrom .bare word words rest
        | 0x0D :: 0x0A :: rest => bashFrom .bare word words rest
        | next :: rest => bashFrom .bare (addPiece word [next]) words rest
      else if c = 0x27 then bashFrom (.single []) word words rest
      else if c = 0x24 ∧ rest.head? = some 0x27 then
        match rest with
        | [] => .ok (words ++ word.toList)
        | _ :: rest => bashFrom (.ansi [] 0) word words rest
      else if c = 0x22 then bashFrom (.double []) word words rest
      else if isWhite c then bashFrom .bare none (words ++ word.toList) rest
      else bashFrom .bare (addPiece word [c]) words rest
  | .single _, _, _, [] =>
      refused (units "The cURL command has a single quote that is not closed.")
  | .single piece, word, words, c :: rest =>
      if c = 0x27 then bashFrom .bare (addPiece word piece) words rest
      else bashFrom (.single (piece ++ [c])) word words rest
  | .ansi _ _, _, _, [] =>
      refused (units "The cURL command has a quote that is not closed.")
  | .ansi piece (taken + 1), word, words, _ :: rest => bashFrom (.ansi piece taken) word words rest
  | .ansi piece 0, word, words, c :: rest =>
      if c = 0x27 then bashFrom .bare (addPiece word piece) words rest
      else if c ≠ backslash then bashFrom (.ansi (piece ++ [c]) 0) word words rest
      else
        let (value, taken) := ansiEscape rest
        bashFrom (.ansi (piece ++ value) taken) word words rest
  | .double _, _, _, [] =>
      refused (units "The cURL command has a double quote that is not closed.")
  | .double piece, word, words, c :: rest =>
      if c = 0x22 then bashFrom .bare (addPiece word piece) words rest
      else if c = backslash then
        match rest with
        | [] => refused (units "The cURL command has a double quote that is not closed.")
        | d :: rest =>
            -- Before anything else a backslash is itself.
            if doubleEscaped.contains d then
              bashFrom (.double (if d = 0x0A then piece else piece ++ [d])) word words rest
            else bashFrom (.double (piece ++ [c])) word words (d :: rest)
      else bashFrom (.double (piece ++ [c])) word words rest

/-- The words of a command line as bash reads them. Nothing is expanded. -/
def bashWords (text : Text) : Except ImportError (List Text) :=
  bashFrom .bare none [] text

/-- A text with the carets of cmd taken out: before a character, or with a line break. -/
def withoutCarets : Text → Text
  | 0x5E :: 0x0A :: rest => withoutCarets rest
  | 0x5E :: 0x0D :: 0x0A :: rest => withoutCarets rest
  | 0x5E :: c :: rest => c :: withoutCarets rest
  | c :: rest => c :: withoutCarets rest
  | [] => []

/-- The words of what is left of a line for cmd. -/
def cmdFrom (quoted : Bool) (word : Option Text) (words : List Text) :
    Text → Except ImportError (List Text)
  | [] =>
      if quoted then
        refused (units "The cURL command has a double quote that is not closed.")
      else .ok (words ++ word.toList)
  | 0x5C :: 0x22 :: rest => cmdFrom quoted (addPiece word [0x22]) words rest
  | 0x22 :: rest =>
      if quoted = true ∧ rest.head? = some 0x22 then
        match rest with
        | [] => cmdFrom quoted word words []
        | _ :: rest => cmdFrom quoted (addPiece word [0x22]) words rest
      else cmdFrom (!quoted) (addPiece word []) words rest
  | c :: rest =>
      if !quoted && isWhite c then cmdFrom quoted none (words ++ word.toList) rest
      else cmdFrom quoted (addPiece word [c]) words rest

/-- The words of a command line as cmd and its programs read them. -/
def cmdWords (text : Text) : Except ImportError (List Text) :=
  cmdFrom false none [] (withoutCarets text)

/-- Whether a text is a command for cmd: it escapes with carets, and has no single quotes. -/
def isCmd (text : Text) : Bool :=
  (decide (units "^\n" <:+: text) || decide (units "^\r\n" <:+: text) ||
    decide (units "^\"" <:+: text)) && !text.contains 0x27

/-- Whether a text is a cURL command: its first word is `curl`. -/
def isCurlCommand (text : Text) : Bool :=
  let line := trimStart text
  let ends := fun rest : Text => rest.head?.all isWhite
  (units "curl").isPrefixOf (line.map asciiLower) &&
    (ends (line.drop 4) ||
      ((units ".exe").isPrefixOf ((line.drop 4).map asciiLower) && ends (line.drop 8)))

/-! ## Options -/

/-- What an option that takes a value says. -/
inductive CurlOption where
  | method
  | header
  | data
  | dataRaw
  | dataBinary
  | dataUrlencode
  | form
  | formString
  | user
  | cookie
  | userAgent
  | referer
  | url
  deriving DecidableEq

/-- The options that take a value, by every name they have. -/
def valueOptions : List (Text × CurlOption) :=
  [(units "-X", .method), (units "--request", .method), (units "-H", .header),
    (units "--header", .header), (units "-d", .data), (units "--data", .data),
    (units "--data-ascii", .data), (units "--data-raw", .dataRaw),
    (units "--data-binary", .dataBinary), (units "--data-urlencode", .dataUrlencode),
    (units "-F", .form), (units "--form", .form), (units "--form-string", .formString),
    (units "-u", .user), (units "--user", .user), (units "-b", .cookie),
    (units "--cookie", .cookie),
    (units "-A", .userAgent), (units "--user-agent", .userAgent), (units "-e", .referer),
    (units "--referer", .referer), (units "--url", .url)]

/-- An option without a value. -/
inductive CurlFlag where
  | get
  | head
  | insecure
  | compressed

/-- The options with no value that change the request, or that are told of. -/
def curlFlags : List (Text × CurlFlag) :=
  [(units "-G", .get), (units "--get", .get), (units "-I", .head), (units "--head", .head),
    (units "-k", .insecure), (units "--insecure", .insecure), (units "--compressed", .compressed)]

/-- The options with no value that change nothing the app does. -/
def quietFlags : List Text :=
  [units "-s", units "--silent", units "-S", units "--show-error", units "-v", units "--verbose",
    units "-i", units "--include", units "-L", units "--location", units "-f", units "--fail",
    units "-#", units "--progress-bar", units "-g", units "--globoff", units "-N",
    units "--no-buffer", units "--http1.1", units "--http2", units "-4", units "-6", units "-q",
    units "-n", units "-j"]

/-- The options whose value is skipped with them. -/
def skippedValueOptions : List Text :=
  [units "-o", units "--output", units "-w", units "--write-out", units "-m", units "--max-time",
    units "--connect-timeout", units "--retry", units "--retry-delay", units "--retry-max-time",
    units "-x", units "--proxy", units "-U", units "--proxy-user", units "--cacert",
    units "--capath", units "-E", units "--cert", units "--key", units "--cert-type",
    units "--key-type", units "-c", units "--cookie-jar", units "-T", units "--upload-file",
    units "--resolve", units "--connect-to", units "-D", units "--dump-header",
    units "--max-redirs", units "-C", units "--continue-at", units "-r", units "--range",
    units "-y", units "--speed-time", units "-Y", units "--speed-limit", units "--limit-rate",
    units "-K", units "--config", units "--interface", units "--ciphers", units "--tls-max",
    units "-z", units "--time-cond", units "--oauth2-bearer", units "--aws-sigv4",
    units "--unix-socket", units "--noproxy", units "--pinnedpubkey", units "--trace",
    units "--trace-ascii", units "--stderr", units "--proto", units "--proto-default"]

/-- What a name stands for in a list of options. -/
def optionOf {α : Type} (options : List (Text × α)) (name : Text) : Option α :=
  (options.find? fun entry => entry.1 = name).map Prod.snd

/-! ## What an option makes of the request -/

/-- A piece of the data: the text it puts on the wire, or the file it names. -/
inductive Datum where
  | text (text : Text)
  | file (name : Text)

/-- The text of a piece. -/
def Datum.text? : Datum → Option Text
  | .text t => some t
  | .file _ => none

/-- The file of a piece. -/
def Datum.file? : Datum → Option Text
  | .text _ => none
  | .file name => some name

/-- What was read of a command. -/
structure CurlState where
  warnings : List Text := []
  headers : List (Text × Text) := []
  data : List Datum := []
  parts : List ExportPart := []
  urls : List Text := []
  method : Option Text := none
  basic : Option (Text × Text) := none
  get : Bool := false
  head : Bool := false
  binaryOnly : Bool := true

/-- `--data-urlencode`. -/
def urlencodeDatum (value : Text) : Datum :=
  match cutAt 0x3D value with
  | (name, some content) =>
      if 0x40 ∉ name then
        .text (name ++ (if name ≠ [] then units "=" else []) ++ formText content)
      else .file ((cutAt 0x40 value).2.getD [])
  | (_, none) =>
      if 0x40 ∈ value then .file ((cutAt 0x40 value).2.getD []) else .text (formText value)

/-- A line terminator, which a dot of a pattern is not. -/
def isLineTerminator (c : CodeUnit) : Bool :=
  c = 0x0A || c = 0x0D || c = 0x2028 || c = 0x2029

/-- The text up to a closing quotation mark, its escapes undone; `none` where there is none. -/
def quotedText : Text → Option Text
  | [] => none
  | c :: rest =>
      if c = quotationMark then some []
      else if c = backslash then
        match rest with
        | [] => none
        | d :: rest => if isLineTerminator d then none else (quotedText rest).map (d :: ·)
      else (quotedText rest).map (c :: ·)

/-- A text without the type it says of itself. -/
def withoutType (content : Text) : Text :=
  match cutAt 0x3B content.reverse with
  | (after, some before) =>
      if (units "type=").isPrefixOf after.reverse then before.reverse else content
  | (_, none) => content

/-- The file a part names in quotation marks. -/
def quotedFile (content : Text) : Option Text :=
  if (units "@\"").isPrefixOf content then quotedText (content.drop 2) else none

/-- `-F`: a file, a text read from a file, or a text, and what is told of it. -/
def formPart (value : Text) : Option ExportPart × List Text :=
  match cutAt 0x3D value with
  | (_, none) => (none, [units "A form part without \"=\" was left out: " ++ value ++ units "."])
  | (name, some content) =>
      match quotedFile content with
      | some fileName => (some { name, value := .file fileName }, [])
      | none =>
          if (units "@").isPrefixOf content then
            (some { name, value := .file ((content.drop 1).takeWhile fun c =>
              c ≠ 0x3B && c ≠ 0x2C) }, [])
          else if (units "<").isPrefixOf content then
            (some { name, value := .text [] },
              [units "The form part " ++ name ++ units " takes its text from the file " ++
                (content.drop 1).takeWhile (fun c => c ≠ 0x3B) ++
                units ", which was not read: the part is empty."])
          else (some { name, value := .text (withoutType content) }, [])

/-- A header: a name and a value, a name without a value, or nothing. -/
def curlHeader (value : Text) : Option (Text × Text) :=
  match cutAt 0x3A value with
  | (c :: name, some rest) => some (trim (c :: name), trim rest)
  -- "Name;" is a header with no value.
  | _ => if (units ";").isSuffixOf value then some (trim value.dropLast, []) else none

namespace CurlState

variable (s : CurlState)

/-- A header added. -/
def addHeader (header : Text × Text) : CurlState :=
  { s with headers := s.headers ++ [header] }

/-- A piece of data added. -/
def addData (datum : Datum) : CurlState :=
  { s with data := s.data ++ [datum] }

/-- Something told of the command. -/
def warn (message : Text) : CurlState :=
  { s with warnings := s.warnings ++ [message] }

/-- Data as `-d` reads it: a text, or the file it names. -/
def dataOf (value : Text) : Datum :=
  if (units "@").isPrefixOf value then .file (value.drop 1) else .text value

/-- What an option makes of its value. -/
def take (P : Platform) (option : CurlOption) (value : Text) : CurlState :=
  match option with
  | .method => { s with method := some (P.toUpperCase value) }
  | .header =>
      match curlHeader value with
      | some header => s.addHeader header
      | none => s.warn (units "A header without \":\" was left out: " ++ value ++ units ".")
  | .data => { s.addData (dataOf value) with binaryOnly := false }
  | .dataBinary => s.addData (dataOf value)
  | .dataRaw => { s.addData (.text value) with binaryOnly := false }
  | .dataUrlencode => { s.addData (urlencodeDatum value) with binaryOnly := false }
  | .form =>
      let (part, warnings) := formPart value
      { s with parts := s.parts ++ part.toList, warnings := s.warnings ++ warnings }
  | .formString =>
      match cutAt 0x3D value with
      | (_, none) =>
          s.warn (units "A form part without \"=\" was left out: " ++ value ++ units ".")
      | (name, some content) => { s with parts := s.parts ++ [{ name, value := .text content }] }
  | .user =>
      let (username, password) := cutAt 0x3A value
      { s with basic := some (username, password.getD []) }
  | .cookie =>
      -- With an equals sign it is the cookies themselves; without, a file of them.
      if 0x3D ∈ value then s.addHeader (units "Cookie", value)
      else s.warn (units "The cookies of the file " ++ value ++
        units " were left out: the file was not read.")
  | .userAgent => s.addHeader (units "User-Agent", value)
  | .referer => s.addHeader (units "Referer", value)
  | .url => { s with urls := s.urls ++ [value] }

/-- What an option without a value makes of it. -/
def flag : CurlFlag → CurlState
  | .get => { s with get := true }
  | .head => { s with head := true }
  | .insecure =>
      s.warn (units ("-k (do not check the server's certificate) was left out: a browser " ++
      "always checks it, and the Local Bridge cannot skip the check yet."))
  | .compressed => s.warn (units
      "--compressed was left out: the browser asks for a compressed answer by itself.")

/-- What is told of an option that has nothing to apply to. -/
def skipped (option value : Text) : CurlState :=
  s.warn (option ++ units " " ++ value ++
    units " was left out: the app has nothing it applies to.")

/-- What is told of an option nobody knows. -/
def unknown (option : Text) : CurlState :=
  if quietFlags.contains option then s
  else s.warn (option ++ units " was left out: the app does not know this option.")

/-- The value of an option: what stands with it, else the next word. -/
def valueOf (option own : Text) (next : Option Text) : Except ImportError (Text × Bool) :=
  if own ≠ [] then .ok (own, false)
  else
    match next with
    | some word => .ok (word, true)
    | none => refused (units "The cURL command ends after " ++ option ++
        units ", which needs a value.")

/-- A long option, and whether the next word was its value. -/
def readLong (P : Platform) (word : Text) (next : Option Text) :
    Except ImportError (CurlState × Bool) :=
  match optionOf valueOptions word with
  | some option => (valueOf word [] next).map fun value => (s.take P option value.1, value.2)
  | none =>
      match optionOf curlFlags word with
      | some found => .ok (s.flag found, false)
      | none =>
          if skippedValueOptions.contains word then
            (valueOf word [] next).map fun value => (s.skipped word value.1, value.2)
          else .ok (s.unknown word, false)

/-- Short options, which may stand together, the last of them with its value. -/
def readShort (P : Platform) (next : Option Text) :
    CurlState → Text → Except ImportError (CurlState × Bool)
  | s, [] => .ok (s, false)
  | s, letter :: rest =>
      let name := [0x2D, letter]
      match optionOf valueOptions name with
      | some option => (valueOf name rest next).map fun value => (s.take P option value.1, value.2)
      | none =>
          if skippedValueOptions.contains name then
            (valueOf name rest next).map fun value => (s.skipped name value.1, value.2)
          else
            match optionOf curlFlags name with
            | some found => readShort P next (s.flag found) rest
            | none => readShort P next (s.unknown name) rest

/-- A word of a command, and whether the next one was its value. -/
def readWord (P : Platform) (word : Text) (next : Option Text) :
    Except ImportError (CurlState × Bool) :=
  match word with
  | 0x2D :: 0x2D :: _ => s.readLong P word next
  | 0x2D :: c :: rest => readShort P next s (c :: rest)
  | _ => .ok ({ s with urls := s.urls ++ [word] }, false)

/-- The words of a command, one after the other. -/
def readWords (P : Platform) : CurlState → List Text → Except ImportError CurlState
  | s, [] => .ok s
  | s, word :: rest =>
      match s.readWord P word rest.head? with
      | .error error => .error error
      | .ok (next, false) => readWords P next rest
      | .ok (next, true) =>
          match rest with
          | [] => .ok next
          | _ :: rest => readWords P next rest

end CurlState

/-! ## The request of a command -/

/-- A command as the request it would send. -/
structure ParsedCurl where
  request : ExportRequest
  /-- The user's name and password. -/
  basic : Option (Text × Text)
  /-- What the command asked for that the app does not do. -/
  warnings : List Text

/-- The name of the header that says what a body is. -/
def contentTypeName : Text := units "content-type"

/-- The request's type: the last one named. -/
def contentTypeOf (P : Platform) (headers : List (Text × Text)) : Option Text :=
  ((headers.filter fun header => P.toLowerCase header.1 = contentTypeName).getLast?).map Prod.snd

/-- The type of a form. -/
def formType : Text := units "application/x-www-form-urlencoded"

namespace CurlState

variable (s : CurlState)

/-- The text of the data. -/
def dataText : Text :=
  joinWith (units "&") (s.data.filterMap Datum.text?)

/-- The files of the data. -/
def dataFiles : List Text :=
  s.data.filterMap Datum.file?

/-- What is told of the files of the data, which were not read. -/
def filesLeftOut : List Text :=
  if s.dataFiles ≠ [] then
    [units "The data of the file " ++ joinWith (units ", ") s.dataFiles ++
      units " was left out: the file was not read."]
  else []

/-- What the data makes of the body. Without a type of its own, it is sent as a form. -/
def dataBody (P : Platform) : ExportBody :=
  let type := P.toLowerCase ((contentTypeOf P s.headers).getD [])
  if type = [] ∨ formType.isPrefixOf type = true then .urlencoded (searchParams s.dataText)
  else .raw s.dataText

/-- The address with the data as its query. -/
def withQuery (url : Text) : Text :=
  if s.dataText ≠ [] then
    url ++ (if url.contains 0x3F then units "&" else units "?") ++ s.dataText
  else url

/-- The address and the body, and what is told of them. -/
def addressAndBody (P : Platform) (url : Text) : Text × ExportBody × List Text :=
  if s.parts ≠ [] then
    (url, .multipart s.parts,
      if s.data ≠ [] then
        [units ("The command has both a form (-F) and data (-d). curl refuses that; the form is " ++
          "kept.")]
      else [])
  else if s.get then (s.withQuery url, .none, s.filesLeftOut)
  else
    match s.data, s.binaryOnly with
    | [.file name], true => (url, .binary name, [])
    | [], _ => (url, .none, [])
    | _, _ => (url, s.dataBody P, s.filesLeftOut)

/-- The method: as said, or as the rest implies it. -/
def methodOf (body : ExportBody) : Text :=
  s.method.getD (if s.head then units "HEAD"
    else if body = .none then units "GET" else units "POST")

/-- The request of a command whose words were read. -/
def parsed (P : Platform) : Except ImportError ParsedCurl :=
  match s.urls with
  | [] => refused (units "The cURL command has no address.")
  | first :: others =>
      let told :=
        if others ≠ [] then
          [units "The command names " ++ units (toString s.urls.length) ++
            units " addresses. The first is used; the others were left out: " ++
            joinWith (units ", ") others ++ units "."]
        else []
      let (url, body, warnings) := s.addressAndBody P first
      let method := s.methodOf body
      if isHttpMethod method then
        .ok { request := { method, url, headers := s.headers, body }, basic := s.basic,
              warnings := s.warnings ++ told ++ warnings }
      else refused (units "The cURL command's method, " ++ method ++
        units ", is not an HTTP method: one word of at most 32 characters.")

end CurlState

/-- A command as the request it would send. -/
def parseCurl (P : Platform) (text : Text) : Except ImportError ParsedCurl :=
  if isCurlCommand text then do
    let words ← if isCmd text then cmdWords text else bashWords text
    let s ← CurlState.readWords P {} words.tail
    s.parsed P
  else refused (units
    "This is not a cURL command: it does not start with curl.")

/-! ## The request of the app -/

/-- A type without its parameters. -/
def baseType (type : Text) : Text :=
  trim ((splitOn 0x3B type).headD [])

/-- The raw language whose type this is, or text. -/
def languageOf (type : Text) : RawLanguage :=
  let base := baseType type
  if (units "json").isSuffixOf base then .json
  else if (units "xml").isSuffixOf base then .xml
  else if base = units "text/html" then .html
  else if (units "javascript").isSuffixOf base then .javascript
  else .text

/-- The type the app would send for a body anyway. -/
def impliedType (language : RawLanguage) : ExportBody → Option Text
  | .urlencoded _ => some formType
  | .multipart _ => some (units "multipart/form-data")
  | .raw _ => some (rawContentTypes language)
  | .none => none
  | .binary _ => none

/-- Whether a header only repeats the type the app would send. -/
def repeatsType (P : Platform) (implied : Option Text) (header : Text × Text) : Bool :=
  P.toLowerCase header.1 = contentTypeName &&
    implied.any fun type => baseType (P.toLowerCase header.2) = type

/-- A row that is sent. -/
def sentRow (pair : Text × Text) : Row :=
  { key := pair.1, value := pair.2, enabled := true }

/-- A part of a form as the app holds it. A file is to be chosen again. -/
def partOf (part : ExportPart) : MultipartPart :=
  { key := part.name, enabled := true,
    value :=
      match part.value with
      | .text value => .text value
      | .file fileName => .file { fileId := [], fileName } }

/-- The body of a command as the app holds it. -/
def curlBody (language : RawLanguage) (type : Text) : ExportBody → RequestBody
  | .none => { mode := .none }
  | .raw text => { mode := .raw, raw := some { language, text } }
  | .urlencoded fields => { mode := .urlencoded, urlencoded := some (fields.map sentRow) }
  | .multipart parts => { mode := .multipart, multipart := some (parts.map partOf) }
  | .binary fileName =>
      { mode := .binary,
        binary :=
          if type ≠ [] then some { ref := { fileId := [], fileName }, contentType := some type }
          else none }

/-- What is told of the files of a body. -/
def fileWarnings : ExportBody → List Text
  | .multipart parts => parts.filterMap fun part =>
      match part.value with
      | .text _ => none
      | .file fileName => some (units "The form part " ++ part.name ++ units " sends the file " ++
          fileName ++
            units (". Choose the file again in the Body tab: a command names a file, it " ++
            "does not hold it."))
  | .binary fileName => [units "The body is the file " ++ fileName ++
      units (". Choose the file again in the Body tab: a command names a file, it does not hold " ++
        "it.")]
  | _ => []

/-- A command as a request of the app, and what is told of it. -/
def curlRequest (P : Platform) (parsed : ParsedCurl) : RequestContent × List Text :=
  let request := parsed.request
  let type := (contentTypeOf P request.headers).getD []
  let language := languageOf (P.toLowerCase type)
  let implied := impliedType language request.body
  let headers := request.headers.filter fun header => !repeatsType P implied header
  ({ emptyRequest with
      method := request.method
      url := request.url
      headers := headers.map sentRow
      body := curlBody language type request.body
      auth :=
        match parsed.basic with
        | some (username, password) => .basic username password
        | none => emptyRequest.auth },
    parsed.warnings ++ fileWarnings request.body)

end Wayfarer
