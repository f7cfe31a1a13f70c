import Wayfarer.Export.Request
import Wayfarer.Model.Documents

/-!
# Exchanges as a HAR

`buildHar` writes exchanges as a HAR 1.2 log, in their order, with every field the format requires;
what is not known is `-1`. A request's body is stated as text, and a form's as fields too; a file is
named, and a body longer than the limit is left out with a comment.
-/

set_option autoImplicit false

namespace Wayfarer

open Library

/-- An address, as the exporter and the importer read it. -/
structure HarAddress where
  pathname : Text
  searchParams : List (Text × Text)

/-- What the exporter and the importer use of the page. -/
structure HarPlatform where
  /-- `URL.parse`. -/
  parseUrl : Text → Option HarAddress
  /-- `toLowerCase`. -/
  toLowerCase : Text → Text
  /-- `toUpperCase`. -/
  toUpperCase : Text → Text
  /-- `Date.parse`; `none` where it is no date. -/
  parseDate : Text → Option Int
  /-- A date as ISO 8601. -/
  isoDate : Int → Text

/-- The longest text of a body that is written. -/
def harMaxBodyChars : Nat := 256 * 1024

/-- What came back. -/
structure HarResponse where
  status : JsonNumber
  statusText : Text
  headers : List (Text × Text)
  /-- The body when it is text. -/
  text : Option Text
  /-- The bytes on the wire, when the browser said. -/
  size : Option JsonNumber

/-- The parts of an exchange's time that are known. -/
structure HarTimings where
  dns : Option JsonNumber := none
  connect : Option JsonNumber := none
  ssl : Option JsonNumber := none
  send : Option JsonNumber := none
  wait : Option JsonNumber := none
  receive : Option JsonNumber := none

/-- One exchange, masked by whoever holds its secrets. A number that is none is not there. -/
structure HarExchange where
  startedAt : Text
  timeMs : Option JsonNumber
  request : ExportRequest
  /-- Absent when no response arrived. -/
  response : Option HarResponse
  timings : HarTimings := {}
  /-- Why there is no response, or anything else to say of the exchange. -/
  comment : Option Text := none

/-! ## Values -/

namespace Har

/-- A text as a value. -/
def str (s : String) : Json :=
  .string (units s)

/-- The number of what is not known. -/
def minusOne : JsonNumber := ⟨units "-1", by decide⟩

/-- Nought. -/
def nought : JsonNumber := ⟨units "0", JsonNumber.marks_zero⟩

/-- A number that is known, and not negative. -/
def known (value : Option JsonNumber) : Json :=
  .number ((value.filter fun n => n.compare nought ≠ .lt).getD minusOne)

/-- A member that is there when its value is. -/
def memberOf (name : String) (value : Option Json) : Fields :=
  (value.map fun v => (units name, v)).toList

/-- Names and values, as HAR lists them. -/
def harPairs (entries : List (Text × Text)) : Json :=
  .array (entries.map fun entry =>
    .object [(units "name", .string entry.1), (units "value", .string entry.2)])

/-- A header's value, by its name in lower case: the first of it. -/
def headerValue (P : HarPlatform) (headers : List (Text × Text)) (name : Text) : Option Text :=
  (headers.find? fun header => P.toLowerCase header.1 = name).map Prod.snd

/-! ## Parts of an entry -/

/-- A pair of a cookie header, cut at its equals sign; nothing where it has no name. -/
def cookiePair (pair : Text) : Option (Text × Text) :=
  match cutAt 0x3D pair with
  | ([], _) => none
  | (_, none) => none
  | (name, some value) => some (name, value)

/-- The cookies of a request's `Cookie` headers. One that was masked holds no pair. -/
def sentCookies (P : HarPlatform) (headers : List (Text × Text)) : Json :=
  let sent := headers.filter fun header => P.toLowerCase header.1 = units "cookie"
  let pieces := sent.flatMap fun header => (splitOn 0x3B header.2).map trim
  harPairs ((pieces.filterMap cookiePair).map fun pair => (trim pair.1, trim pair.2))

/-- The value of an attribute of a `Set-Cookie` header. -/
def cookieAttribute (P : HarPlatform) (attributes : List Text) (name : String) : Option Text :=
  let start := units name ++ units "="
  (attributes.find? fun text => start.isPrefixOf (P.toLowerCase text)).map fun text =>
    text.drop start.length

/-- Whether a `Set-Cookie` header has an attribute with no value. -/
def cookieFlag (P : HarPlatform) (attributes : List Text) (name : String) : Bool :=
  attributes.any fun text => P.toLowerCase text = units name

/-- A `Set-Cookie` header, with the attributes HAR has a field for. -/
def setCookie (P : HarPlatform) (value : Text) : Option Json :=
  match splitOn 0x3B value with
  | [] => none
  | first :: rest =>
      (cookiePair first).map fun _ =>
        let (name, content) := cutAt 0x3D (trim first)
        let attributes := rest.map trim
        let given := fun name : String =>
          ((cookieAttribute P attributes name).filter fun text => text ≠ []).map Json.string
        let expires := P.parseDate ((cookieAttribute P attributes "expires").getD [])
        .object ([(units "name", .string name), (units "value", .string (content.getD []))] ++
          memberOf "path" (given "path") ++ memberOf "domain" (given "domain") ++
          memberOf "expires" (expires.map fun time => .string (P.isoDate time)) ++
          (if cookieFlag P attributes "httponly" then [(units "httpOnly", .bool true)] else []) ++
          (if cookieFlag P attributes "secure" then [(units "secure", .bool true)] else []))

/-- The cookies of a response's `Set-Cookie` headers. -/
def setCookies (P : HarPlatform) (headers : List (Text × Text)) : Json :=
  .array ((headers.filter fun header => P.toLowerCase header.1 = units "set-cookie").filterMap
    fun header => setCookie P header.2)

/-- The query of an address. One that is no URL has none to list. -/
def queryPairs (P : HarPlatform) (url : Text) : Json :=
  harPairs (((P.parseUrl url).map HarAddress.searchParams).getD [])

/-- What is said of a body that is too long. -/
def tooLong : Text :=
  units "The body is left out: it is longer than 256 KB."

/-- A part of a form as HAR lists it. -/
def harPart (part : ExportPart) : Json :=
  match part.value with
  | .text value => .object [(units "name", .string part.name), (units "value", .string value)]
  | .file fileName =>
      .object [(units "name", .string part.name), (units "fileName", .string fileName)]

/-- `postData`: text as text, a form as fields, a file by its name. -/
def postData (P : HarPlatform) (body : ExportBody) (headers : List (Text × Text)) : Option Json :=
  let type := fun otherwise : String =>
    (units "mimeType",
      Json.string ((headerValue P headers contentTypeHeader).getD (units otherwise)))
  match body with
  | .none => none
  | .raw text =>
      if harMaxBodyChars < text.length then
        some (.object [type "text/plain", (units "text", str ""),
          (units "comment", .string tooLong)])
      else some (.object [type "text/plain", (units "text", .string text)])
  | .urlencoded fields =>
      some (.object [type "application/x-www-form-urlencoded",
        (units "params", harPairs fields), (units "text", .string (formSerialize fields))])
  | .multipart parts =>
      some (.object [type "multipart/form-data", (units "params", .array (parts.map harPart)),
        (units "text", str ""),
        (units "comment", str "A file part is named, not included.")])
  | .binary fileName =>
      some (.object [type "application/octet-stream", (units "text", str ""),
        (units "comment", .string (units "The body is the file \"" ++ fileName ++
          units "\", which is named, not included."))])
where
  contentTypeHeader : Text := units "content-type"

/-- The request of an entry. -/
def harRequest (P : HarPlatform) (request : ExportRequest) : Fields :=
  [(units "method", .string request.method), (units "url", .string request.url),
    (units "httpVersion", str "HTTP/1.1"), (units "cookies", sentCookies P request.headers),
    (units "headers", harPairs request.headers), (units "queryString", queryPairs P request.url)] ++
    memberOf "postData" (postData P request.body request.headers) ++
    [(units "headersSize", .number minusOne), (units "bodySize", .number minusOne)]

/-- The body of a response, and why it was left out. -/
def harContent (P : HarPlatform) (response : Option HarResponse) : Json :=
  let text := response.bind HarResponse.text
  let long := text.any fun t => harMaxBodyChars < t.length
  let left := response.bind fun response =>
    match response.text with
    | none => some (units "The body is left out: it is not text.")
    | some _ => if long then some tooLong else none
  let type := response.bind fun response =>
    headerValue P response.headers (units "content-type")
  .object ([(units "size", known (response.bind HarResponse.size)),
    (units "mimeType", .string (type.getD []))] ++
    memberOf "text" ((text.filter fun _ => !long).map Json.string) ++
    memberOf "comment" (left.map Json.string))

/-- The response of an entry: an empty one when none arrived. -/
def harResponse (P : HarPlatform) (response : Option HarResponse) : Json :=
  let headers := (response.map HarResponse.headers).getD []
  .object [(units "status", .number ((response.map HarResponse.status).getD nought)),
    (units "statusText", .string ((response.map HarResponse.statusText).getD [])),
    (units "httpVersion", str "HTTP/1.1"), (units "cookies", setCookies P headers),
    (units "headers", harPairs headers), (units "content", harContent P response),
    (units "redirectURL", .string ((headerValue P headers (units "location")).getD [])),
    (units "headersSize", .number minusOne),
    (units "bodySize", known (response.bind HarResponse.size))]

/-- The times of an entry. -/
def harTimings (timings : HarTimings) : Json :=
  .object [(units "blocked", .number minusOne), (units "dns", known timings.dns),
    (units "connect", known timings.connect), (units "send", known timings.send),
    (units "wait", known timings.wait), (units "receive", known timings.receive),
    (units "ssl", known timings.ssl)]

/-- An exchange as an entry. -/
def harEntry (P : HarPlatform) (exchange : HarExchange) : Fields :=
  [(units "startedDateTime", .string exchange.startedAt), (units "time", known exchange.timeMs),
    (units "request", .object (harRequest P exchange.request)),
    (units "response", harResponse P exchange.response), (units "cache", .object []),
    (units "timings", harTimings exchange.timings)] ++
    memberOf "comment" ((exchange.comment.filter fun text => text ≠ []).map Json.string)

end Har

open Har in
/-- Exchanges as a HAR. -/
def buildHar (P : HarPlatform) (exchanges : List HarExchange) (creator version : Text) : Json :=
  .object [(units "log", .object [(units "version", str "1.2"),
    (units "creator",
      .object [(units "name", .string creator), (units "version", .string version)]),
    (units "entries", .array (exchanges.map fun exchange => .object (harEntry P exchange)))])]

end Wayfarer
