import Wayfarer.Export.Har
import Wayfarer.Import.Curl

/-!
# The requests of a HAR

`parseHar` reads the requests of a HAR, one an entry, in the file's order. A body is read from its
fields where the HAR has them, and from its text otherwise; which of the two, the body's type
decides.
-/

set_option autoImplicit false

namespace Wayfarer

open Library

/-- A request of a HAR. -/
structure HarRequest where
  /-- Its method and path. -/
  name : Text
  request : ExportRequest
  warnings : List Text

namespace Har

/-- The text of a value; none of it where it is no text. -/
def text (value : Option Json) : Text :=
  (textOf value).getD []

/-- The objects of a list. -/
def list (value : Option Json) : List Fields :=
  match value with
  | some (.array items) => items.filterMap fun
      | .object members => some members
      | _ => none
  | _ => []

/-- The entries of a log; `none` where a value is no HAR. -/
def entries (value : Json) : Option (List Json) :=
  match value with
  | .object members =>
      match field members (units "log") with
      | some (.object log) =>
          match field log (units "entries") with
          | some (.array items) => some items
          | _ => none
      | _ => none
  | _ => none

/-- A field of a form. -/
def param (members : Fields) : Text × Text :=
  (text (field members (units "name")), text (field members (units "value")))

/-- A part of a multipart form. -/
def part (members : Fields) : ExportPart :=
  { name := text (field members (units "name"))
    value :=
      match field members (units "fileName") with
      | some (.string fileName) => .file fileName
      | _ => .text (text (field members (units "value"))) }

/-- The body of an entry, and what is told of it. -/
def body (P : HarPlatform) (postData : Option Json) : ExportBody × List Text :=
  match postData with
  | some (.object members) =>
      let type := P.toLowerCase (text (field members (units "mimeType")))
      let params := list (field members (units "params"))
      let content := text (field members (units "text"))
      if (units "multipart/form-data").isPrefixOf type then
        if params = [] then
          (.raw content,
            [units ("Its multipart body is in the file as text only, with a boundary " ++
            "of that one send. It is kept as text.")])
        else (.multipart (params.map part), [])
      else if formType.isPrefixOf type then
        (.urlencoded (if params ≠ [] then params.map param else searchParams content), [])
      else if textOf (field members (units "encoding")) = some (units "base64") then
        (.none, [units "Its body is binary (base64 in the file) and was left out."])
      else if content ≠ [] then (.raw content, [])
      else (.none, [])
  | _ => (.none, [])

/-- Whether a header is one to send, and not how the request was framed. -/
def isHeader (header : Text × Text) : Bool :=
  header.1 ≠ [] && !(units ":").isPrefixOf header.1

/-- The request of an entry. -/
def request (P : HarPlatform) (members : Fields) : HarRequest :=
  let method := P.toUpperCase (text (field members (units "method")))
  let url := text (field members (units "url"))
  let path := ((P.parseUrl url).map HarAddress.pathname).getD url
  let (body, warnings) := body P (field members (units "postData"))
  { name := method ++ units " " ++ path
    request :=
      { method, url, body
        headers := ((list (field members (units "headers"))).map param).filter isHeader }
    warnings }

/-- An entry, at its place in the log. -/
def entry (P : HarPlatform) (members : Fields) (index : Nat) : Except ImportError HarRequest :=
  let none' := refused (units "The HAR's entry " ++ units (toString (index + 1)) ++
    units " has no request with a method and a URL.")
  match field members (units "request") with
  | some (.object fields) =>
      let found := request P fields
      if found.request.method = [] ∨ found.request.url = [] then none' else .ok found
  | _ => none'

end Har

/-- The requests of a HAR. -/
def parseHar (P : HarPlatform) (value : Json) : Except ImportError (List HarRequest) :=
  match Har.entries value with
  | none => refused (units "The file is not a HAR: it has no log.entries.")
  | some items =>
      (Har.list (some (.array items))).zipIdx.mapM fun entry => Har.entry P entry.1 entry.2

end Wayfarer
