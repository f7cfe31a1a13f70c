import Wayfarer.Library.Base64
import Wayfarer.Variables.Resolver

/-!
# Authentication

What a request's auth contributes to what is sent: a header, a query parameter, or what
a signer or a token is made of. `resolveAuth` fills in the variables of every field, and
`effectiveAuth` says whose auth a request that inherits is sent with.
-/

set_option autoImplicit false

namespace Wayfarer

open Library

/-- The headers an auth adds, by name. -/
def buildAuthHeaders : AuthConfig → List (Text × Text)
  | .bearer token =>
      if token ≠ [] then [(units "Authorization", units "Bearer " ++ token)] else []
  | .basic username password =>
      if username ≠ [] then
        [(units "Authorization",
          units "Basic " ++ base64 (utf8Bytes (username ++ units ":" ++ password)))]
      else []
  | .apikey key value .header => if key ≠ [] then [(key, value)] else []
  | _ => []

/-- The query parameter an auth adds. -/
def buildAuthQueryParam : AuthConfig → Option (Text × Text)
  | .apikey key value .query => if key ≠ [] then some (key, value) else none
  | _ => none

/-- Every field of an auth that goes on the wire, resolved. -/
def resolveAuth (resolve : Text → Resolve Text) : AuthConfig → Resolve AuthConfig
  | .inherit => pure .inherit
  | .none => pure .none
  | .bearer token => do return .bearer (← resolve token)
  | .basic username password => do return .basic (← resolve username) (← resolve password)
  | .apikey key value place => do return .apikey (← resolve key) (← resolve value) place
  | .awsv4 auth => do
      return .awsv4 {
        accessKey := ← resolve auth.accessKey
        secretKey := ← resolve auth.secretKey
        sessionToken := ← resolve auth.sessionToken
        region := ← resolve auth.region
        service := ← resolve auth.service }
  | .oauth2 auth => do
      return .oauth2 { auth with
        authUrl := ← resolve auth.authUrl
        tokenUrl := ← resolve auth.tokenUrl
        clientId := ← resolve auth.clientId
        clientSecret := ← resolve auth.clientSecret
        scope := ← resolve auth.scope
        username := ← resolve auth.username
        password := ← resolve auth.password }

/-- The texts of an auth. -/
def authTexts : AuthConfig → List Text
  | .none => []
  | .inherit => []
  | .bearer token => [token]
  | .basic username password => [username, password]
  | .apikey key value _ => [key, value]
  | .awsv4 auth => [auth.accessKey, auth.secretKey, auth.sessionToken, auth.region, auth.service]
  | .oauth2 auth => [auth.authUrl, auth.tokenUrl, auth.clientId, auth.clientSecret, auth.scope,
      auth.username, auth.password]

/-- The auth a request is sent with: its own unless it inherits, then that of the nearest
folder that does not inherit, then the collection's. `chain` is the collection first and
then the folders from the outside in. Nothing to inherit from sends none. -/
def effectiveAuth (own : AuthConfig) (chain : List Ancestor) : AuthConfig :=
  if own ≠ .inherit then own
  else ((chain.reverse.map Ancestor.auth).find? fun auth => auth ≠ .inherit).getD .none

/-- The credentials of an auth, as resolved: what a redactor looks for besides vault secrets. -/
def credentialsOf : AuthConfig → List Text
  | .bearer token => [token]
  | .basic _ password => [password]
  | .apikey _ value _ => [value]
  | .awsv4 auth => [auth.secretKey, auth.sessionToken]
  | .oauth2 auth => [auth.clientSecret, auth.password]
  | .none => []
  | .inherit => []

/-- An auth that is sent inherits nothing. -/
theorem effectiveAuth_ne_inherit (own : AuthConfig) (chain : List Ancestor) :
    effectiveAuth own chain ≠ .inherit := by
  unfold effectiveAuth
  split_ifs with h
  · exact h
  · cases hfind : (chain.reverse.map Ancestor.auth).find? fun auth => auth ≠ .inherit with
    | none => simp
    | some auth => simpa using List.find?_some hfind

end Wayfarer
