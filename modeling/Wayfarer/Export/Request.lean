import Wayfarer.Send.Build

/-!
# A request as an export writes it

What a command or a file says of a request: its method, address and headers as they are sent, and
its body as text and fields. A file of the body is named, and not read. `exportSource` is the draft
as it would be built now.
-/

set_option autoImplicit false

namespace Wayfarer

open Library

/-- What a part of a multipart form holds: a text, or a file by the name it was picked under. -/
inductive ExportValue where
  | text (value : Text)
  | file (fileName : Text)
  deriving DecidableEq

/-- A part of a multipart form. -/
structure ExportPart where
  name : Text
  value : ExportValue
  deriving DecidableEq

/-- The body of a request as an export writes it. -/
inductive ExportBody where
  | none
  | raw (text : Text)
  | urlencoded (fields : List (Text × Text))
  | multipart (parts : List ExportPart)
  /-- The name is empty while no file is chosen. -/
  | binary (fileName : Text)
  deriving DecidableEq

/-- A request as built. -/
structure ExportRequest where
  method : Text
  url : Text
  /-- In the order they are sent. -/
  headers : List (Text × Text)
  body : ExportBody

/-- What a body puts on the wire, a file by its name. -/
inductive ExportWire where
  /-- A text, empty where there is no body. -/
  | text (t : Text)
  | form (parts : List ExportPart)
  | file (fileName : Text)
  deriving DecidableEq

/-- What a body puts on the wire. A file that was not chosen is nothing. -/
def ExportBody.wire : ExportBody → ExportWire
  | .none => .text []
  | .raw text => .text text
  | .urlencoded fields => .text (formSerialize fields)
  | .multipart parts => .form parts
  | .binary [] => .text []
  | .binary fileName => .file fileName

/-! ## The draft as it is exported -/

/-- The payload of a GraphQL request as text, whatever its variables are. -/
def graphqlText (P : Platform) (query text : Text) : Text :=
  match (graphqlValues P text).run {} with
  | .ok (values, _) => (graphqlJson query values).stringify
  | .error _ => (graphqlJson query (some (.string text))).stringify

/-- The body a request with this method is sent with, its variables replaced. -/
def exportBody (P : Platform) (body : RequestBody) (method : Text) (r : Resolver) :
    Resolve ExportBody := do
  if method = units "GET" ∨ method = units "HEAD" then return .none
  match body.mode with
  | .none => return .none
  | .raw => return .raw (← r.resolve ((body.raw.map RawBody.text).getD []))
  | .urlencoded =>
      let rows := (body.urlencoded.getD []).filter Row.enabled
      return .urlencoded (← rows.mapM fun row => do
        return (← r.resolve row.key, ← r.resolve row.value))
  | .multipart =>
      let items := (body.multipart.getD []).filter MultipartPart.enabled
      return .multipart (← items.mapM fun part => do
        match part.value with
        | .text value =>
            return { name := ← r.resolve part.key, value := .text (← r.resolve value) : ExportPart }
        | .file ref => return { name := ← r.resolve part.key, value := .file ref.fileName })
  | .binary => return .binary ((body.binary.map fun binary => binary.ref.fileName).getD [])
  | .graphql =>
      let query ← r.resolve ((body.graphql.map GraphqlBody.query).getD [])
      let text ← r.resolve ((body.graphql.map GraphqlBody.variablesText).getD [])
      return .raw (graphqlText P query text)

/-- The `Content-Type` a body as the user wrote it is sent with when the request sets none. -/
def bodyContentType (body : RequestBody) : Option Text :=
  match body.mode with
  | .none => none
  | .raw => body.raw.bind fun raw =>
      if raw.text ≠ [] then some (rawContentTypes raw.language) else none
  | .graphql => some (units "application/json")
  | .urlencoded => some (units "application/x-www-form-urlencoded")
  | .multipart => some (units "multipart/form-data")
  | .binary =>
      let named := (body.binary.bind BinaryBody.contentType).getD []
      some (if named ≠ [] then named else units "application/octet-stream")

/-- The type that goes with an exported body. A form has none: its sender writes the boundary. -/
def exportType (body : RequestBody) : ExportBody → Option Text
  | .none => none
  | .multipart _ => none
  | .raw [] => none
  | _ => bodyContentType body

/-- What building a draft for an export needs: its ancestors' auth, and the id
of an event stream. -/
def exportContext (ancestors : List Ancestor) (lastEventId : Option Text) : BuildContext where
  ancestors
  scopes := {}
  readFile := fun _ => .error (.blocked [])
  blockUnresolved := false
  oauthToken := none
  lastEventId

/-- The draft as it would be built now, for an export: nothing is read from the vault or from a
file, and without an address there is none. -/
def exportSource (P : Platform) (content : RequestContent) (r : Resolver)
    (ancestors : List Ancestor) (lastEventId : Option Text) : Build (Option ExportRequest) := do
  if content.url = [] then return none
  let body ← liftResolve (exportBody P content.body content.method r)
  -- Of the body only its type is built: its data is the exported body.
  let typed := (exportType content.body body).map fun type => ResolvedBody.binary ⟨[], []⟩ type
  let parts ← resolveRest content r (exportContext ancestors lastEventId) typed none
  let built := parts.built P (← get)
  return some { method := built.method, url := built.url, headers := built.headers, body }

/-- One request says what another says: what it puts on the wire. -/
structure SaysSame (sent found : ExportRequest) : Prop where
  method : found.method = sent.method
  url : found.url = sent.url
  headers : found.headers = sent.headers
  wire : found.body.wire = sent.body.wire

end Wayfarer
