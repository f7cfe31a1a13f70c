import Wayfarer.Auth.RequestAuth
import Wayfarer.Library.Json

/-!
# OAuth 2.0: the token's name and the request for one

`oauthTokenKey` names the token of an auth. `tokenRequest` is the request to the token
endpoint: a form, with the client named in a Basic header or in the form.
-/

set_option autoImplicit false

namespace Wayfarer

open Library

/-- A grant as a form names it. -/
def OAuthGrant.text : OAuthGrant → Text
  | .authorizationCode => units "authorization_code"
  | .clientCredentials => units "client_credentials"
  | .password => units "password"

/-- Names the token of an auth: where it is from, for whom and for what. -/
def oauthTokenKey (auth : OAuth2Auth) : Text :=
  (Json.array [.string auth.grant.text, .string auth.tokenUrl, .string auth.clientId,
    .string auth.scope, .string (if auth.grant = .password then auth.username else [])]).stringify

/-- What a token endpoint gave. -/
structure OAuthToken where
  accessToken : Text
  /-- Empty when the server gave none. -/
  refreshToken : Text
  /-- A time in milliseconds, or `none` when the server named none. -/
  expiresAt : Option Nat

/-- What is exchanged for a token: a refresh token, or the auth's own grant. The code of a
sign-in is exchanged when the user asks for it, never by a send. -/
inductive OAuthExchange where
  | refreshToken (token : Text)
  | grant

/-- The text the code grant refuses with, where a user has to sign in. -/
def signInNeeded : Text :=
  units "This grant needs a sign-in: choose Get token in the Auth tab."

/-- A request to a token endpoint: always a POST, with a form as its body. -/
structure TokenRequest where
  url : Text
  headers : List (Text × Text)
  form : List (Text × Text)

/-- The fields an exchange itself puts into the form. -/
def exchangeFields (auth : OAuth2Auth) : OAuthExchange → Except Text (List (Text × Text))
  | .grant =>
      if auth.grant = .authorizationCode then .error signInNeeded
      else
        .ok ([(units "grant_type", auth.grant.text)] ++
          (if auth.grant = .password then
            [(units "username", auth.username), (units "password", auth.password)] else []) ++
          (if auth.scope ≠ [] then [(units "scope", auth.scope)] else []))
  | .refreshToken token =>
      .ok [(units "grant_type", units "refresh_token"), (units "refresh_token", token)]

/-- The headers of every token request. -/
def tokenHeaders : List (Text × Text) :=
  [(units "Content-Type", units "application/x-www-form-urlencoded"),
    (units "Accept", units "application/json")]

/-- Whether the client is named in a Basic header: as the auth says, and only with a secret. -/
def namesClientInHeader (auth : OAuth2Auth) : Bool :=
  auth.clientAuth = .header && auth.clientSecret ≠ []

/-- The client's header. Each half is form-encoded before the two are joined. -/
def clientHeader (auth : OAuth2Auth) : Text × Text :=
  let pair := formText auth.clientId ++ units ":" ++ formText auth.clientSecret
  (units "Authorization", units "Basic " ++ base64 (utf8Bytes pair))

/-- The client's fields of the form. -/
def clientFields (auth : OAuth2Auth) : List (Text × Text) :=
  (if auth.clientId ≠ [] then [(units "client_id", auth.clientId)] else []) ++
    (if auth.clientSecret ≠ [] then [(units "client_secret", auth.clientSecret)] else [])

/-- The request to the token endpoint. A client with no secret is always named in the form. -/
def tokenRequest (auth : OAuth2Auth) (exchange : OAuthExchange) : Except Text TokenRequest :=
  (exchangeFields auth exchange).map fun form =>
    if namesClientInHeader auth then
      { url := auth.tokenUrl, headers := tokenHeaders ++ [clientHeader auth], form }
    else
      { url := auth.tokenUrl, headers := tokenHeaders, form := form ++ clientFields auth }

/-- A token request goes to the auth's token address. -/
theorem tokenRequest_url {auth : OAuth2Auth} {exchange : OAuthExchange} {request : TokenRequest}
    (h : tokenRequest auth exchange = .ok request) :
    request.url = auth.tokenUrl := by
  unfold tokenRequest at h
  cases hform : exchangeFields auth exchange with
  | error message =>
      rw [hform] at h
      cases h
  | ok form =>
      rw [hform] at h
      have hrequest := Except.ok.inj h
      subst hrequest
      split_ifs <;> rfl

end Wayfarer
