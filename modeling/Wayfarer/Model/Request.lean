import Wayfarer.Library.Text

/-!
# The request model

What the composer edits, what the stores keep and what a send starts from: the rows
of a list, the body by mode, the auth by type, and a request without its identity
and its place in a collection.
-/

set_option autoImplicit false

namespace Wayfarer

open Library

/-- A row of a list: a variable, a header, a parameter or a form field. -/
structure Row where
  key : Text
  value : Text
  enabled : Bool
  /-- A variable a script set to something that is not text: `value` is its JSON. -/
  json : Bool := false
  deriving DecidableEq

/-- Where a request is sent from. -/
inductive Route where
  | auto
  | direct
  | bridge
  deriving DecidableEq

/-- The languages of a raw body. -/
inductive RawLanguage where
  | json
  | text
  | xml
  | html
  | javascript
  deriving DecidableEq

/-- What a body is sent as. -/
inductive BodyMode where
  | none
  | raw
  | urlencoded
  | multipart
  | binary
  | graphql
  deriving DecidableEq

/-- A file kept in the files store, by id, with the name it was picked under. -/
structure FileRef where
  fileId : Text
  fileName : Text
  deriving DecidableEq

/-- What a part of a multipart form holds. -/
inductive PartValue where
  | text (value : Text)
  | file (ref : FileRef)
  deriving DecidableEq

/-- A part of a multipart form. -/
structure MultipartPart where
  key : Text
  enabled : Bool
  value : PartValue
  deriving DecidableEq

/-- A raw body. -/
structure RawBody where
  language : RawLanguage
  text : Text
  deriving DecidableEq

/-- A file body. -/
structure BinaryBody where
  ref : FileRef
  contentType : Option Text
  deriving DecidableEq

/-- A GraphQL body: the query, and the text of its variables. -/
structure GraphqlBody where
  query : Text
  variablesText : Text
  deriving DecidableEq

/-- The body as the user wrote it. `mode` says which part is sent; the others are kept. -/
structure RequestBody where
  mode : BodyMode
  raw : Option RawBody := Option.none
  urlencoded : Option (List Row) := Option.none
  multipart : Option (List MultipartPart) := Option.none
  binary : Option BinaryBody := Option.none
  graphql : Option GraphqlBody := Option.none
  deriving DecidableEq

/-- The `Content-Type` a raw body is sent with when the request sets none. -/
def rawContentTypes : RawLanguage → Text
  | .json => units "application/json"
  | .text => units "text/plain"
  | .xml => units "application/xml"
  | .html => units "text/html"
  | .javascript => units "application/javascript"

/-- Where an API key goes. -/
inductive ApiKeyPlace where
  | header
  | query
  deriving DecidableEq

/-- The grants of OAuth 2.0. -/
inductive OAuthGrant where
  | authorizationCode
  | clientCredentials
  | password
  deriving DecidableEq

/-- Where the token request names the client. -/
inductive ClientAuth where
  | header
  | body
  deriving DecidableEq

/-- The OAuth 2.0 auth. The token is not here. -/
structure OAuth2Auth where
  grant : OAuthGrant
  authUrl : Text
  tokenUrl : Text
  clientId : Text
  clientSecret : Text
  scope : Text
  username : Text
  password : Text
  clientAuth : ClientAuth
  retryOn401 : Bool
  deriving DecidableEq

/-- The AWS Signature Version 4 auth. -/
structure AwsV4Auth where
  accessKey : Text
  secretKey : Text
  sessionToken : Text
  region : Text
  service : Text
  deriving DecidableEq

/-- What a request authenticates with. `inherit`: what the nearest folder that does not
inherit says, then the collection. -/
inductive AuthConfig where
  | inherit
  | none
  | bearer (token : Text)
  | basic (username password : Text)
  | apikey (key value : Text) (place : ApiKeyPlace)
  | awsv4 (auth : AwsV4Auth)
  | oauth2 (auth : OAuth2Auth)
  deriving DecidableEq

/-- The two scripts of a request, of a folder or of a collection. Blank: there is none. -/
structure Scripts where
  pre : Text
  post : Text
  deriving DecidableEq

/-- A request's own settings. -/
structure RequestSettings where
  timeoutMs : Option Nat := Option.none
  followRedirects : Option Bool := Option.none
  /-- Absent: the collection's, else the device's. -/
  route : Option Route := Option.none
  /-- Through the bridge, the server's certificate is not verified. -/
  tlsInsecure : Bool := false
  deriving DecidableEq

/-- A request without its identity and its place in a collection. -/
structure RequestContent where
  method : Text
  /-- Text that may hold placeholders. -/
  url : Text
  params : List Row := []
  headers : List Row
  body : RequestBody
  auth : AuthConfig
  scripts : Scripts := ⟨[], []⟩
  settings : RequestSettings := {}
  deriving DecidableEq

/-- What a request inherits from: its collection, or a folder it is in. -/
structure Ancestor where
  name : Text
  variableRows : List Row
  auth : AuthConfig
  scripts : Scripts := ⟨[], []⟩
  deriving DecidableEq

end Wayfarer
