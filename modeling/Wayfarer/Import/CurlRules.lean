import Wayfarer.Import.CurlBuilt
import Wayfarer.Import.CurlRead

/-!
# What curl sends

The rules of curl itself for the options a command may be copied with, as its manual states them:
the pieces of the data are joined with `&`, `-G` puts them into the query, in front of a fragment,
the data's own type is a form's where no `-H` names another, each `-H` that names one is a line of
its own, a form's parts are sent under the first type that is named, with the form's boundary, and
`-X` says the method as it is written. How curl encodes what `--data-urlencode` is given, and which
addresses its globbing makes of one, are parameters.
-/

set_option autoImplicit false

namespace Wayfarer

open Library CopiedCurl

/-- An argument of a command: an option with its value, or the address. -/
inductive CurlArgument where
  | address (text : Text)
  | data (text : Text)
  | dataRaw (text : Text)
  | dataBinary (text : Text)
  | dataUrlencode (text : Text)
  | formString (text : Text)
  | get
  | header (text : Text)
  | request (method : Text)
  | head
  deriving DecidableEq

/-- The words an argument is written in. -/
def CurlArgument.words : CurlArgument → List Text
  | .address text => [text]
  | .data text => [units "-d", text]
  | .dataRaw text => [units "--data-raw", text]
  | .dataBinary text => [units "--data-binary", text]
  | .dataUrlencode text => [units "--data-urlencode", text]
  | .formString text => [units "--form-string", text]
  | .get => [units "-G"]
  | .header text => [units "-H", text]
  | .request method => [units "-X", method]
  | .head => [units "-I"]

namespace CurlRules

/-! ## What the arguments say -/

section Arguments

variable (escape : Text → Text)

/-- What follows the first equals sign is encoded, and what stands before it is encoded already. -/
def encoded (text : Text) : Text :=
  match cutAt 0x3D text with
  | (name, some content) => (if name ≠ [] then name ++ units "=" else []) ++ escape content
  | (_, none) => escape text

/-- The piece of the data an argument gives. -/
def piece : CurlArgument → Option Text
  | .data text => some text
  | .dataRaw text => some text
  | .dataBinary text => some text
  | .dataUrlencode text => some (encoded escape text)
  | _ => none

/-- The pieces of the data. -/
def pieces (args : List CurlArgument) : List Text :=
  args.filterMap (piece escape)

/-- The data: its pieces, joined. -/
def dataText (args : List CurlArgument) : Text :=
  joinWith (units "&") (pieces escape args)

/-- How curl encodes: what it writes is decoded to the text, and does not end a field or a name. -/
structure Escapes : Prop where
  decodes : ∀ text, formDecode (escape text) = scrub text
  noAmpersand : ∀ text, 0x26 ∉ escape text
  noEquals : ∀ text, 0x3D ∉ escape text

end Arguments

/-- The part of a form an argument gives. -/
def formPart : CurlArgument → Option ExportPart
  | .formString text =>
      match cutAt 0x3D text with
      | (name, some content) => some { name, value := .text content }
      | (_, none) => none
  | _ => none

/-- The parts of the form. -/
def formParts (args : List CurlArgument) : List ExportPart :=
  args.filterMap formPart

/-- The header a text says: without a value, it is one that is not sent, but where a semicolon
stands in the place of the colon. -/
def headerOf (text : Text) : Option (Text × Option Text) :=
  match cutAt 0x3A text with
  | (name, some rest) => some (name, if trim rest = [] then none else some (trim rest))
  | (_, none) => if (units ";").isSuffixOf text then some (text.dropLast, some []) else none

/-- The header an argument gives. -/
def headerGiven : CurlArgument → Option (Text × Option Text)
  | .header text => headerOf text
  | _ => none

/-- The headers that are given. -/
def headersGiven (args : List CurlArgument) : List (Text × Option Text) :=
  args.filterMap headerGiven

/-- The types that are given. -/
def typesGiven (P : Platform) (args : List CurlArgument) : List (Option Text) :=
  ((headersGiven args).filter fun header => P.toLowerCase header.1 = contentTypeName).map Prod.snd

/-- What stands behind the type's name in an argument, and a mark. -/
def typeBehind (P : Platform) (mark : CodeUnit) : CurlArgument → Option Text
  | .header text =>
      match cutAt mark text with
      | (name, some rest) => if P.toLowerCase name = contentTypeName then some (trim rest) else none
      | (_, none) => none
  | _ => none

/-- The types curl finds named, those behind a colon first. It adds none of its own where there is
one, also where that is not sent: behind a semicolon stands no value. -/
def typesNamed (P : Platform) (args : List CurlArgument) : List Text :=
  args.filterMap (typeBehind P 0x3A) ++ args.filterMap (typeBehind P 0x3B)

/-- The method an argument gives. -/
def methodOf : CurlArgument → Option Text
  | .request method => some method
  | _ => none

/-- The method that is given: the last one. -/
def methodGiven (args : List CurlArgument) : Option Text :=
  (args.filterMap methodOf).getLast?

/-- The address an argument is. -/
def addressOf : CurlArgument → Option Text
  | .address text => some text
  | _ => none

/-- The addresses. -/
def addresses (args : List CurlArgument) : List Text :=
  args.filterMap addressOf

/-! ## What is sent -/

/-- What curl sends as the body. -/
inductive Sent where
  | nothing
  | data (text : Text)
  | form (parts : List ExportPart)
  deriving DecidableEq

/-- An address without its fragment, cut at its query. -/
def target (address : Text) : Text × Option Text :=
  cutAt 0x3F (cutAt 0x23 address).1

/-- Whether an address names its scheme, HTTP's or another. -/
def namesScheme (address : Text) : Bool :=
  hasExplicitScheme address ||
    match cutAt 0x3A address with
    | (scheme, some rest) =>
        scheme ≠ [] && scheme.all (fun c => isAlphanumeric c.toNat || (units "+-.").contains c) &&
          (units "//").isPrefixOf rest
    | (_, none) => false

/-- An address with a scheme: curl takes one without for plain HTTP, and none for HTTPS. -/
def withScheme (address : Text) : Text :=
  if namesScheme address then address else units "http://" ++ address

/-- The marks of curl's globbing. -/
def globMarks : Text := units "[]\x7b\x7d\\"

/-- What curl's globbing makes of an address: itself, where it holds none of the marks; and more
than one, or a refusal, of items in braces and of numbers in brackets. -/
structure Globs (glob : Text → List Text) : Prop where
  plain : ∀ address, (∀ mark ∈ globMarks, mark ∉ address) → glob address = [address]
  items : ∀ front items rest, 2 ≤ items.length →
    (∀ text ∈ front :: rest :: items, ∀ mark ∈ 0x2C :: globMarks, mark ∉ text) →
    (glob (front ++ units "\x7b" ++ joinWith (units ",") items ++ units "\x7d" ++ rest)).length ≠ 1
  numbers : ∀ (front rest : Text) (first last : Nat), first < last →
    (∀ text ∈ [front, rest], ∀ mark ∈ globMarks, mark ∉ text) →
    (glob (front ++ units "[" ++ units (toString first) ++ units "-" ++ units (toString last) ++
      units "]" ++ rest)).length ≠ 1

/-- A query with more to it. -/
def queryWith (query : Option Text) (text : Text) : Text :=
  match query with
  | none => text
  | some query =>
      if query = [] ∨ (units "&").isSuffixOf query then query ++ text
      else query ++ units "&" ++ text

/-- An address with a text added to its query. -/
def addQuery (address text : Text) : Text :=
  (target address).1 ++ units "?" ++ queryWith (target address).2 text ++
    match (cutAt 0x23 address).2 with
    | none => []
    | some fragment => units "#" ++ fragment

section Sending

variable (P : Platform) (glob : Text → List Text) (escape : Text → Text) (args : List CurlArgument)

/-- The body. -/
def sent : Sent :=
  if formParts args ≠ [] then .form (formParts args)
  else if .get ∈ args ∨ pieces escape args = [] then .nothing
  else .data (dataText escape args)

/-- The method. -/
def method : Text :=
  (methodGiven args).getD
    (if .head ∈ args then units "HEAD"
      else if sent escape args = .nothing then units "GET" else units "POST")

/-- What is added to the query. -/
def movedText : Text :=
  if .get ∈ args then dataText escape args else []

/-- Where a request to one of the addresses goes: the address up to its query, and the query. -/
def sentTarget (one : Text) : Text × Option Text :=
  let address := withScheme one
  target (if movedText escape args ≠ [] then addQuery address (movedText escape args) else address)

/-- The type of a multipart form. -/
def multipartType : Text := units "multipart/form-data"

/-- Whether a type is a multipart form's. -/
def isMultipartType (type : Text) : Bool :=
  baseType (P.toLowerCase type) = multipartType

/-- The type a body is sent under. -/
inductive SentType where
  /-- The lines that name one. -/
  | lines (types : List Text)
  /-- The type of a form of parts, with the boundary its sender makes. -/
  | boundary (type : Text)
  deriving DecidableEq

/-- The type of the body. One that has no value is not sent. -/
def sentType : SentType :=
  match sent escape args with
  | .nothing => .lines ((typesGiven P args).filterMap id)
  | .data _ =>
      .lines (if typesNamed P args = [] then [formType] else (typesGiven P args).filterMap id)
  | .form _ => .boundary ((typesNamed P args).headD multipartType)

/-- The lines that name a type. -/
def typeLines (headers : List (Text × Text)) : List Text :=
  (headers.filter fun header => P.toLowerCase header.1 = contentTypeName).map Prod.snd

/-- The type a request of the app is sent under. A form of parts without one is
sent under its own. -/
def typeOf (found : ExportRequest) : SentType :=
  match found.body.wire, typeLines P found.headers with
  | .form _, [] => .boundary multipartType
  | _, types => .lines types

/-- Whether a type is a form's. -/
def isFormType : SentType → Bool
  | .lines [type] => formType.isPrefixOf (P.toLowerCase type)
  | _ => false

/-- Whether data is sent under a form's type, with a name and a value in every piece of it. -/
def isFields : Bool :=
  match sent escape args with
  | .data text =>
      isFormType P (sentType P escape args) &&
        (splitOn 0x26 text).all fun field => field.contains 0x3D
  | _ => false

/-- The request that is built is the one curl sends: same method, one address with its query, type,
and the same bytes or parts. Of data that is a form's fields it is the fields that are the same. -/
structure SendsAsCurl (found : ExportRequest) : Prop where
  method : found.method = method escape args
  target : (glob ((addresses args).headD [])).map (sentTarget escape args) = [target found.url]
  type : typeOf P found = sentType P escape args
  body :
    match sent escape args with
    | .nothing => found.body.wire = .text []
    | .form parts => found.body.wire = .form parts
    | .data text =>
        if isFields P escape args then
          ∃ wire, found.body.wire = .text wire ∧ formParse wire = formParse text
        else found.body.wire = .text text

end Sending

/-! ## What curl accepts -/

/-- A command that curl accepts: it has one address, its headers have names, it asks for one kind of
body and for no body with `-I`, and what goes into the address has no white space. -/
structure Accepted (escape : Text → Text) (args : List CurlArgument) : Prop where
  address : ∃ address, addresses args = [address] ∧ address ≠ [] ∧
    (units "-").isPrefixOf address = false ∧ ∀ c ∈ address, isWhite c = false
  headers : ∀ header ∈ headersGiven args, isToken header.1 = true
  parts : ∀ text, .formString text ∈ args → 0x3D ∈ text
  kind : formParts args = [] ∨ pieces escape args = []
  head : .head ∈ args → sent escape args = .nothing
  query : ∀ c ∈ movedText escape args, isWhite c = false

/-- No text names a file. -/
structure NamesNoFile (args : List CurlArgument) : Prop where
  data : ∀ text, .data text ∈ args → (units "@").isPrefixOf text = false
  binary : ∀ text, .dataBinary text ∈ args → (units "@").isPrefixOf text = false
  urlencode : ∀ text, .dataUrlencode text ∈ args → 0x3D ∈ text ∨ 0x40 ∉ text
  header : ∀ text, .header text ∈ args → (units "@").isPrefixOf text = false

end CurlRules

end Wayfarer
