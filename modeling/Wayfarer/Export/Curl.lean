import Wayfarer.Export.Request

/-!
# A request as a cURL command

`buildCurl` writes a request as a command for a POSIX shell, one argument a line: each text in
single quotes (`shellQuote`), a form's fields encoded where curl takes them as encoded already. A
form part whose name curl would read as more than a name is not said at all.
-/

set_option autoImplicit false

namespace Wayfarer

open Library

/-- The single quote. -/
def singleQuote : CodeUnit := 0x27

/-- A text as one word of a POSIX shell: in single quotes, one of its own closed, escaped and opened
again. -/
def shellQuote (value : Text) : Text :=
  singleQuote ::
    value.flatMap (fun c => if c = singleQuote then units "'\\''" else [c]) ++ [singleQuote]

/-- A name that is quoted inside the name of a file. -/
def quotedFileName (fileName : Text) : Text :=
  fileName.flatMap fun c => if c = backslash ∨ c = quotationMark then [backslash, c] else [c]

/-- The arguments that carry a field of a form. -/
def fieldArgument (field : Text × Text) : Text :=
  -- A field without a name has no equals sign of its own for curl to split at: it is written whole.
  if field.1 ≠ [] then
    units "--data-urlencode " ++ shellQuote (formText field.1 ++ units "=" ++ field.2)
  else units "--data-raw " ++ shellQuote (units "=" ++ formText field.2)

/-- The argument that carries a part of a form. -/
def partArgument (part : ExportPart) : Text :=
  match part.value with
  | .text value => units "--form-string " ++ shellQuote (part.name ++ units "=" ++ value)
  | .file fileName =>
      units "-F " ++ shellQuote (part.name ++ units "=@\"" ++ quotedFileName fileName ++ units "\"")

/-- The arguments that carry the body. -/
def bodyArguments : ExportBody → List Text
  | .none => []
  | .raw text => if text ≠ [] then [units "--data-raw " ++ shellQuote text] else []
  | .urlencoded fields => fields.map fieldArgument
  | .multipart parts => parts.map partArgument
  | .binary fileName =>
      if fileName ≠ [] then [units "--data-binary " ++ shellQuote (units "@" ++ fileName)] else []

/-- A name of the user's inside the comment that stands for a command. -/
def commentName (name : Text) : Text :=
  shellQuote (jsonString name)

/-- What ends the name of a form part. -/
def endsPartName (c : CodeUnit) : Bool :=
  (units "=;\"\r\n").contains c

/-- The first part of a form whose name curl would not read as a name. -/
def unsayable : ExportBody → Option ExportPart
  | .multipart parts => parts.find? fun part => part.name.any endsPartName
  | _ => none

/-- A letter. -/
def isLetter (c : CodeUnit) : Bool :=
  (0x41 ≤ c.toNat && c.toNat ≤ 0x5A) || (0x61 ≤ c.toNat && c.toNat ≤ 0x7A)

/-- The argument that says the method. -/
def methodArgument (method : Text) : List Text :=
  if method = units "HEAD" then
    -- The method alone would have curl wait for a body.
    [units "--head"]
  else if method ≠ units "GET" then
    [units "-X " ++ if method ≠ [] ∧ method.all isLetter then method else shellQuote method]
  else []

/-- The argument that says the address: one that starts like an option is an option's value. -/
def urlArgument (url : Text) : Text :=
  if (units "-").isPrefixOf url then units "--url " ++ shellQuote url else shellQuote url

/-- The arguments of a command. -/
def curlArguments (request : ExportRequest) : List Text :=
  [units "curl"] ++ methodArgument request.method ++ [urlArgument request.url] ++
    (request.headers.filter fun header => header.1 ≠ []).map
      (fun header => units "-H " ++ shellQuote (header.1 ++ units ": " ++ header.2)) ++
    bodyArguments request.body

/-- A request as a command, or a comment where curl cannot say it. -/
def buildCurl (request : ExportRequest) : Text :=
  match unsayable request.body with
  | some part =>
      units "# curl cannot say this request: the name of the form part " ++ commentName part.name ++
        units (" holds \"=\", \";\", a quote or a line break, which curl reads as the end of " ++
          "the name.")
  | none => joinWith (units " \\\n  ") (curlArguments request)

end Wayfarer
