import Wayfarer.Auth.OAuth2

/-!
# Building a request

A request with its variables replaced, as it is transmitted. Building has two halves here.
`resolveRequest` fills in every text, in the order the texts are resolved in;
`ResolvedRequest.built` puts the request together from the texts and encodes them: one
header a name, the address normalised, an API key's parameter appended, the body written
by its mode.

What the platform does is a parameter (`Platform`): the parser of addresses, the parser of
JSON, the case mapping of header names and the signer of AWS requests.
-/

set_option autoImplicit false

namespace Wayfarer

open Library

/-! ## The platform -/

/-- An address as the platform's parser reads it. -/
structure UrlRecord where
  /-- Everything before the query, as it is written back. -/
  head : Text
  /-- The pairs of the query. -/
  searchParams : List (Text × Text)
  /-- What follows the number sign, as it is written back. -/
  fragment : Option Text
  /-- The host, with its port when that is not the scheme's own. -/
  host : Text
  /-- The host without its port. -/
  hostname : Text
  /-- The scheme, with its colon. -/
  protocol : Text
  /-- Whom the address belongs to: its scheme, host and port. -/
  origin : Text
  deriving DecidableEq

/-- The bytes of a file, and the type it is known by. -/
structure Blob where
  bytes : List Nat
  type : Text
  deriving DecidableEq

/-- A value of a multipart form. -/
inductive FormValue where
  | text (value : Text)
  | file (name : Text) (data : Blob)
  deriving DecidableEq

/-- What a request carries. -/
inductive WireBody where
  | text (t : Text)
  | file (data : Blob)
  | form (entries : List (Text × FormValue))
  deriving DecidableEq

/-- What the platform gives. -/
structure Platform where
  /-- `URL.parse`. -/
  parseUrl : Text → Option UrlRecord
  /-- `JSON.parse`; `none` where it throws. -/
  parseJson : Text → Option Json
  /-- `toLowerCase`. -/
  toLowerCase : Text → Text
  /-- `toUpperCase`. -/
  toUpperCase : Text → Text
  /-- `toFixed(1)` of a number of milliseconds over a thousand. -/
  toFixedSeconds : Nat → Text
  /-- Whether the page has the browser's cryptography. -/
  subtle : Bool
  /-- The headers of an AWS signature over a method, an address, headers and a body. -/
  signV4 : Text → Text → List (Text × Text) → Option WireBody → AwsV4Auth → List (Text × Text)

/-! ## Errors -/

/-- Why a request was not sent. -/
inductive SendError where
  /-- Variables that refer to each other in a circle, or too deep. -/
  | nesting (error : VariableNestingError)
  /-- A request that must not reach the network, with the words for the user. -/
  | blocked (message : Text)
  /-- The user was asked about the host, and said no. -/
  | declined (message : Text)
  /-- Variables with no value, held back until the user says to send them as written. -/
  | unresolved (names : List Text)

/-- A computation that builds a request. -/
abbrev Build := StateT Findings (Except SendError)

/-- A resolver's computation while a request is built. -/
def liftResolve {α : Type} (x : Resolve α) : Build α := fun findings =>
  match x findings with
  | .ok result => .ok result
  | .error error => .error (.nesting error)

/-! ## Addresses -/

/-- An explicit `http://` or `https://`, in any case. -/
def hasExplicitScheme (t : Text) : Bool :=
  let lower := t.map asciiLower
  (units "http://").isPrefixOf lower || (units "https://").isPrefixOf lower

/-- A tab or a line break, which a parser of addresses takes out without a word. -/
def isTabOrBreak (c : CodeUnit) : Bool :=
  c = 0x09 || c = 0x0A || c = 0x0D

/-- A text with its tabs and line breaks percent-encoded. -/
def encodeBreaks (t : Text) : Text :=
  t.flatMap fun c => if isTabOrBreak c then percentByte c.toNat else [c]

/-- An address with its tabs and line breaks percent-encoded and a scheme in front. -/
def normalizeUrl (t : Text) : Text :=
  let address := encodeBreaks t
  if hasExplicitScheme address then address else units "https://" ++ address

/-- An address as it is written back, with the given pairs as its query. -/
def UrlRecord.withQuery (url : UrlRecord) (pairs : List (Text × Text)) : Text :=
  url.head ++ units "?" ++ formSerialize pairs ++
    match url.fragment with
    | none => []
    | some fragment => units "#" ++ fragment

/-- One pair appended to an address's query. An address that cannot be read is returned as it is. -/
def appendQueryParam (P : Platform) (url key value : Text) : Text :=
  match P.parseUrl (normalizeUrl url) with
  | none => url
  | some parsed => parsed.withQuery (parsed.searchParams ++ [(key, value)])

/-- The host a request goes to. An address that is no URL stands for itself. -/
def hostOf (P : Platform) (url : Text) (r : Resolver) : Except VariableNestingError Text :=
  match (r.resolve (trim url)).run {} with
  | .error error => .error error
  | .ok (resolved, _) =>
      let address := normalizeUrl resolved
      .ok (((P.parseUrl address).map UrlRecord.host).getD address)

/-! ## Bodies -/

/-- `GET` and `HEAD` cannot carry a body. -/
def isBodyMethod (method : Text) : Bool :=
  method ≠ [] && method ≠ units "GET" && method ≠ units "HEAD"

/-- The headers that are sent: enabled rows with a name, in order. -/
def sentHeaders (rows : List Row) : List (Text × Text) :=
  (rows.filter fun row => row.enabled && trim row.key ≠ []).map fun row =>
    (trim row.key, row.value)

/-- A part of a form, its texts resolved and its file read. -/
structure ResolvedPart where
  key : Text
  value : FormValue

/-- A body whose texts are resolved and whose files are read. -/
inductive ResolvedBody where
  | raw (language : RawLanguage) (t : Text)
  | graphql (query : Text) (values : Option Json)
  | urlencoded (pairs : List (Text × Text))
  | multipart (parts : List ResolvedPart)
  | binary (data : Blob) (contentType : Text)

/-- The JSON object a GraphQL request is sent as. -/
def graphqlJson (query : Text) (values : Option Json) : Json :=
  .object ((units "query", .string query) ::
    match values with
    | none => []
    | some v => [(units "variables", v)])

/-- A part of a form as it is handed to the browser, lone surrogates replaced. -/
def ResolvedPart.entry (part : ResolvedPart) : Text × FormValue :=
  (scrub part.key,
    match part.value with
    | .text value => .text (scrub value)
    | .file name data => .file (scrub name) data)

/-- The bytes or the text of a body. -/
def ResolvedBody.data : ResolvedBody → WireBody
  | .raw _ t => .text t
  | .graphql query values => .text (graphqlJson query values).stringify
  | .urlencoded pairs => .text (formSerialize pairs)
  | .multipart parts => .form (parts.map ResolvedPart.entry)
  | .binary data _ => .file data

/-- The `Content-Type` a body implies. A form has none here: the browser writes it. -/
def ResolvedBody.contentType : ResolvedBody → Option Text
  | .raw language _ => some (rawContentTypes language)
  | .graphql _ _ => some (units "application/json")
  | .urlencoded _ => some (units "application/x-www-form-urlencoded")
  | .multipart _ => none
  | .binary _ contentType => some contentType

/-! ## Context -/

/-- What building one request needs of whoever sends it. -/
structure BuildContext where
  /-- What the request inherits its auth from. -/
  ancestors : List Ancestor
  /-- The variables as they are when the token is asked for. -/
  scopes : ScopeStack
  /-- The bytes of a file of the body. -/
  readFile : FileRef → Except SendError Blob
  /-- A variable with no value holds the request back. -/
  blockUnresolved : Bool
  /-- The OAuth 2.0 token of an auth, kept under a key. Absent: such a request
  cannot be sent here. -/
  oauthToken : Option (OAuth2Auth → Text → Bool → Except SendError Text)
  /-- Ask for a new OAuth 2.0 token, not the one held. -/
  renewToken : Bool := false
  /-- The id a reconnecting event stream names. -/
  lastEventId : Option Text := none

/-- The name the token of a request's auth is kept under: made with the variables replaced
and no vault secret read. `none` for variables that refer to each other. -/
def oauthKeyOf (auth : OAuth2Auth) (scopes : ScopeStack) (dynamic : Nat → Text → Text) :
    Option Text :=
  let probe := Resolver.new scopes (fun _ => none) dynamic
  match (resolveAuth probe.resolve (.oauth2 auth)).run {} with
  | .ok (.oauth2 resolved, _) => some (oauthTokenKey resolved)
  | _ => none

/-! ## Resolving the request -/

/-- A request whose every text is resolved. -/
structure ResolvedRequest where
  method : Text
  auth : AuthConfig
  /-- The rows and the auth's header, in the order they are put in. -/
  headers : List (Text × Text)
  address : Text
  body : Option ResolvedBody
  token : Option Text
  lastEventId : Option Text

/-- The text of the refusal of a file body with no file. -/
def noBinaryFile : Text :=
  units "Choose a file for the body, or set the body to None."

/-- The GraphQL variables, read; their texts are resolved. -/
def graphqlValues (P : Platform) (t : Text) : Build (Option Json) :=
  if trim t = [] then pure none
  else
    match P.parseJson t with
    | none => throw (.blocked (units "The GraphQL variables are not JSON."))
    | some (.object members) => pure (some (.object members))
    | some _ => throw (.blocked (units "The GraphQL variables must be a JSON object."))

/-- A file read for the body. -/
def readFileOf (context : BuildContext) (ref : FileRef) : Build Blob :=
  match context.readFile ref with
  | .ok blob => pure blob
  | .error error => throw error

/-- The body with its texts resolved, by mode. -/
def resolveBody (P : Platform) (body : RequestBody) (r : Resolver) (context : BuildContext) :
    Build (Option ResolvedBody) := do
  let resolve := fun t => liftResolve (r.resolve t)
  match body.mode with
  | .none => return none
  | .raw =>
      let t ← resolve ((body.raw.map RawBody.text).getD [])
      if t = [] then return none
      else return some (.raw ((body.raw.map RawBody.language).getD .text) t)
  | .graphql =>
      let query ← resolve ((body.graphql.map GraphqlBody.query).getD [])
      let text ← resolve ((body.graphql.map GraphqlBody.variablesText).getD [])
      return some (.graphql query (← graphqlValues P text))
  | .urlencoded =>
      let rows := (body.urlencoded.getD []).filter Row.enabled
      let pairs ← rows.mapM fun row => do return (← resolve row.key, ← resolve row.value)
      return some (.urlencoded pairs)
  | .multipart =>
      let items := (body.multipart.getD []).filter MultipartPart.enabled
      let parts ← items.mapM fun part => do
        match part.value with
        | .text value =>
            return { key := ← resolve part.key, value := .text (← resolve value) : ResolvedPart }
        | .file ref =>
            let key ← resolve part.key
            return { key, value := .file ref.fileName (← readFileOf context ref) : ResolvedPart }
      return some (.multipart parts)
  | .binary =>
      match body.binary with
      | none => throw (.blocked noBinaryFile)
      | some binary =>
          let file ← readFileOf context binary.ref
          let named := binary.contentType.getD []
          let type := if named ≠ [] then named
            else if file.type ≠ [] then file.type else units "application/octet-stream"
          return some (.binary file type)

/-- The variables of a list as the app names them to the user. -/
def bracedNames (names : List Text) : Text :=
  joinWith (units ", ") (names.map placeholderText)

/-- The text of the refusal of an auth whose variables have no value. -/
def valuesMissing (withoutValue : List Text) : Text :=
  units "The OAuth 2.0 auth uses " ++ bracedNames withoutValue ++ units ", which " ++
    (if withoutValue.length = 1 then units "has" else units "have") ++
    units " no value. No token was asked for, and nothing was sent."

/-- The text of the refusal of an auth whose token is not fetched. -/
def notFetchedHere : Text :=
  units "OAuth 2.0 tokens are not fetched here. Nothing was sent."

/-- The token of the request's auth, where it is OAuth 2.0. `withoutValue` is what the auth's
own texts left unresolved: a token is not asked for with a variable's name for a value. -/
def tokenOf (context : BuildContext) (r : Resolver) (own auth : AuthConfig)
    (withoutValue : List Text) : Build (Option Text) := do
  match auth, own with
  | .oauth2 resolved, .oauth2 written =>
      match oauthKeyOf written context.scopes r.dynamic with
      | none => return none
      | some key =>
          if withoutValue ≠ [] then throw (.blocked (valuesMissing withoutValue))
          match context.oauthToken with
          | none => throw (.blocked notFetchedHere)
          | some fetch =>
              match fetch resolved key context.renewToken with
              | .ok token => return some token
              | .error error => throw error
  | _, _ => return none

/-- What refuses a token before it is asked for. -/
def tokenRefused (context : BuildContext) (r : Resolver) (own auth : AuthConfig)
    (withoutValue : List Text) : Option Text :=
  match auth, own with
  | .oauth2 _, .oauth2 written =>
      if oauthKeyOf written context.scopes r.dynamic = none then none
      else if withoutValue ≠ [] then some (valuesMissing withoutValue)
      else if context.oauthToken.isNone then some notFetchedHere
      else none
  | _, _ => none

/-- A form and a file are waited for: what is wrong with one comes after what refuses the token. -/
def refusesFirst (context : BuildContext) (r : Resolver) (own auth : AuthConfig)
    (withoutValue : List Text) (mode : BodyMode) : Build Unit :=
  match tokenRefused context r own auth withoutValue with
  | none => pure ()
  | some message =>
      if mode = .multipart ∨ mode = .binary then throw (.blocked message) else pure ()

/-- The texts that are resolved once the body and the token are there: the auth's again, the
headers' and the address. -/
def resolveRest (content : RequestContent) (r : Resolver) (context : BuildContext)
    (body : Option ResolvedBody) (token : Option Text) : Build ResolvedRequest := do
  let resolve := fun t => liftResolve (r.resolve t)
  let auth ← liftResolve (resolveAuth r.resolve (effectiveAuth content.auth context.ancestors))
  let headers ← (sentHeaders content.headers ++ buildAuthHeaders auth).mapM fun header => do
    return (← resolve header.1, ← resolve header.2)
  let address ← resolve (trim content.url)
  return { method := content.method, auth, headers, address, body,
           token := token.filter fun t => t ≠ [], lastEventId := context.lastEventId }

/-- Every text of the request resolved: the auth's first, then the body's, then, once the
token is there, the rest. -/
def resolveRequest (P : Platform) (content : RequestContent) (r : Resolver)
    (context : BuildContext) : Build ResolvedRequest := do
  let own := effectiveAuth content.auth context.ancestors
  let auth ← liftResolve (resolveAuth r.resolve own)
  let withoutValue := (← get).unresolved.members
  refusesFirst context r own auth withoutValue content.body.mode
  let body ← if isBodyMethod content.method then resolveBody P content.body r context
    else pure none
  let token ← tokenOf context r own auth withoutValue
  resolveRest content r context body token

/-! ## Putting the request together -/

/-- A header whose whole value is a credential. -/
def isCredentialHeader (P : Platform) (name : Text) : Bool :=
  let lower := name.map asciiLower
  [units "authorization", units "proxy-authorization", units "cookie", units "set-cookie",
    units "x-api-key"].contains (P.toLowerCase name) ||
  [units "token", units "secret", units "key", units "pass"].any fun word =>
    decide (word <:+: lower)

/-- A request as it is sent: every variable replaced, the vault read, the auth applied. -/
structure BuiltRequest where
  method : Text
  url : Text
  /-- In the order they are sent. -/
  headers : List (Text × Text)
  body : Option WireBody
  /-- The plaintext of every vault secret that was placed into this request. -/
  secrets : List Text
  /-- The credentials as they were sent. -/
  credentials : List Text
  /-- What brought each secret in, by name. -/
  vaulted : List (Text × Option VariableScope)

namespace ResolvedRequest

/-- The headers of the request, one value a name, whatever its case: a later one wins, in the
place of the first. -/
def headersByName (P : Platform) (parts : ResolvedRequest) : OrderedMap Text (Text × Text) :=
  let rows := OrderedMap.ofPairs (parts.headers.map fun header =>
    (P.toLowerCase header.1, header))
  let withToken := match parts.token with
    | none => rows
    | some token => rows.set (units "authorization")
        (units "Authorization", units "Bearer " ++ token)
  let withEvent := match parts.lastEventId with
    | none => withToken
    | some id => withToken.set (units "last-event-id") (units "Last-Event-ID", id)
  match parts.body.bind ResolvedBody.contentType with
  | none => withEvent
  | some type =>
      if type ≠ [] ∧ units "content-type" ∉ withEvent.keys then
        withEvent.set (units "content-type") (units "Content-Type", type)
      else withEvent

/-- The address as it is sent. -/
def url (P : Platform) (parts : ResolvedRequest) : Text :=
  let url := normalizeUrl parts.address
  match buildAuthQueryParam parts.auth with
  | none => url
  | some (key, value) => appendQueryParam P url key value

/-- The request, put together. `findings` is what the resolver noted down on the way. -/
def built (P : Platform) (parts : ResolvedRequest) (findings : Findings) : BuiltRequest :=
  let headers := (parts.headersByName P).values
  { method := parts.method
    url := parts.url P
    headers
    body := parts.body.map ResolvedBody.data
    secrets := findings.taint.members ++ parts.token.toList
    credentials :=
      (credentialsOf parts.auth ++
        (headers.filter fun header => isCredentialHeader P header.1).map Prod.snd).filter
        fun value => value ≠ []
    vaulted := findings.vaulted.entries ++
      parts.token.toList.map fun _ => (units "OAuth 2.0 token", none) }

end ResolvedRequest

/-! ## Signing -/

/-- The headers an AWS signature covers besides its own. -/
def isSignedHeader (name : Text) : Bool :=
  let lower := name.map asciiLower
  lower = units "content-type" || (units "x-amz-").isPrefixOf lower

/-- The refusal to sign a multipart form. -/
def multipartUnsigned : Text :=
  units ("AWS Signature cannot sign a multipart form: the browser writes the form's boundary as " ++
    "it sends, so the app does not have the bytes to sign. Send a file as a File body, or the " ++
    "fields as a URL-encoded form. Nothing was sent.")

/-- The refusal to sign where the page has no cryptography. -/
def signingUnavailable : Text :=
  units ("AWS Signature needs the browser's cryptography, which a page has only over https or " ++
    "from localhost. Nothing was sent.")

/-- The headers a signature adds to a request; none for another auth or an address that cannot
be read. -/
def signatureOf (P : Platform) (request : BuiltRequest) (auth : AuthConfig) :
    Except SendError (Option (List (Text × Text))) :=
  match auth with
  | .awsv4 aws =>
      if (P.parseUrl request.url).isNone then .ok none
      else
        match request.body with
        | some (.form _) => .error (.blocked multipartUnsigned)
        | body =>
            if P.subtle then
              .ok (some (P.signV4 request.method request.url
                (request.headers.filter fun header => isSignedHeader header.1) body aws))
            else .error (.blocked signingUnavailable)
  | _ => .ok none

/-- A request with the headers of its signature. -/
def BuiltRequest.signed (P : Platform) (request : BuiltRequest) (signature : List (Text × Text)) :
    BuiltRequest :=
  let replaced := signature.map fun header => P.toLowerCase header.1
  { request with
    headers := (request.headers.filter fun header =>
      !replaced.contains (P.toLowerCase header.1)) ++ signature
    credentials := request.credentials ++
      (signature.filter fun header => isCredentialHeader P header.1).map Prod.snd }

/-! ## Building -/

/-- A request that was built, with the texts it was built from. -/
structure Draft where
  parts : ResolvedRequest
  findings : Findings
  /-- The headers of its signature, where it has one. -/
  signature : Option (List (Text × Text))

/-- The request as it is sent. -/
def Draft.request (P : Platform) (draft : Draft) : BuiltRequest :=
  match draft.signature with
  | none => draft.parts.built P draft.findings
  | some signature => (draft.parts.built P draft.findings).signed P signature

/-- A signature changes neither the address nor the body. -/
theorem Draft.request_url (P : Platform) (draft : Draft) :
    (draft.request P).url = draft.parts.url P := by
  unfold Draft.request
  cases draft.signature <;> rfl

theorem Draft.request_body (P : Platform) (draft : Draft) :
    (draft.request P).body = draft.parts.body.map ResolvedBody.data := by
  unfold Draft.request
  cases draft.signature <;> rfl

/-- A signature adds no secret. -/
theorem Draft.request_secrets (P : Platform) (draft : Draft) :
    (draft.request P).secrets = draft.findings.taint.members ++ draft.parts.token.toList := by
  unfold Draft.request
  cases draft.signature <;> rfl

/-- The request built with the given resolver, or why it is not sent. -/
def build (P : Platform) (content : RequestContent) (r : Resolver) (context : BuildContext) :
    Except SendError Draft := do
  let (parts, findings) ← (resolveRequest P content r context).run {}
  let signature ← signatureOf P (parts.built P findings) parts.auth
  return { parts, findings, signature }

/-- The request built, and held back where a variable has no value. -/
def checked (P : Platform) (content : RequestContent) (r : Resolver) (context : BuildContext) :
    Except SendError Draft := do
  let draft ← build P content r context
  if draft.findings.unresolved.members ≠ [] ∧ context.blockUnresolved then
    throw (.unresolved draft.findings.unresolved.members)
  return draft

end Wayfarer
