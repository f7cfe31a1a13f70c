import Wayfarer.Send.Wire

/-!
# Getting a token to send with

`tokenFor` gives the OAuth 2.0 token of an auth: the one held, else the vault's, else one got
by its refresh token, else one got by a grant that needs no user. Each exchange is a request
to the token endpoint, refused where its address is none or where it still refers to a vault
secret. The requests that go out are part of the result.

`mem_tokenFor_iff` says which requests those are, from what is held and what is answered.
-/

set_option autoImplicit false

namespace Wayfarer

open Library

/-- A failure of getting a token: one with words for the user, or any other. -/
inductive TokenFailure where
  | oauth (message : Text)
  | other

/-- What there is of a token before one is asked for. -/
structure TokenStore where
  /-- The token this tab holds. -/
  held : Option OAuthToken
  /-- The vault has a secret under the token's name. -/
  stored : Bool
  /-- The vault is unlocked, or the user unlocks it when asked. -/
  unlocked : Bool
  /-- What is read of that secret. -/
  read : Option OAuthToken
  /-- The time in milliseconds. -/
  now : Nat

/-- A request to a token endpoint that went out, and what was exchanged by it. -/
structure SentExchange where
  exchange : OAuthExchange
  request : TokenRequest

/-- Whether a token's time is over. -/
def tokenExpired (token : OAuthToken) (now : Nat) : Bool :=
  match token.expiresAt with
  | none => false
  | some time => time ≤ now

/-- A token request as the check of references reads it. -/
def TokenRequest.wire (request : TokenRequest) : WireRequest where
  url := request.url
  headers := request.headers
  body := some (.text (formSerialize request.form))

/-- The refusal of a token address that is none. -/
def noTokenAddress : Text :=
  units "The Token address field does not hold an address, so no token was asked for."

/-- The refusal of a token request that refers to a secret the vault does not have. -/
def tokenSecretMissing : Text :=
  units ("The token request refers to a vault secret that could not be read (it may have been " ++
    "deleted), so it was not sent.")

/-- The failure of a vault that stays locked. -/
def tokenVaultLocked : Text :=
  units "The OAuth 2.0 token is in the vault, which is locked. Unlock it to send."

/-- The failure of a code grant, which needs the user. -/
def tokenNeedsUser (token : Option OAuthToken) : Text :=
  match token with
  | some _ => units
      "The OAuth 2.0 token has expired and cannot be renewed. Choose Get token in the Auth tab."
  | none => units "There is no OAuth 2.0 token yet. Choose Get token in the Auth tab."

/-- The request of an exchange, where it goes out. -/
def exchangeRequest (P : Platform) (auth : OAuth2Auth) (exchange : OAuthExchange) :
    Except TokenFailure TokenRequest :=
  match tokenRequest auth exchange with
  | .error message => .error (.oauth message)
  | .ok request =>
      if (P.parseUrl request.url).isNone then .error (.oauth noTokenAddress)
      else if containsSecretPlaceholder request.wire then .error (.oauth tokenSecretMissing)
      else .ok request

/-- One exchange: what came of it, and the request that went out. -/
def exchangeToken (P : Platform) (auth : OAuth2Auth) (exchange : OAuthExchange)
    (answer : Except TokenFailure OAuthToken) :
    Except TokenFailure OAuthToken × List SentExchange :=
  match exchangeRequest P auth exchange with
  | .error failure => (.error failure, [])
  | .ok request => (answer, [{ exchange, request }])

/-- The token there is: held by this tab, or read from the vault. -/
def TokenStore.token (store : TokenStore) : Except TokenFailure (Option OAuthToken) :=
  match store.held with
  | some token => .ok (some token)
  | none =>
      if !store.stored then .ok none
      else if !store.unlocked then .error (.oauth tokenVaultLocked)
      else .ok store.read

/-- The refresh token of a token, where it has one. -/
def refreshTokenOf (token : Option OAuthToken) : Option Text :=
  (token.map OAuthToken.refreshToken).filter fun t => t ≠ []

/-- A token that is sent as it is: not expired, and not to be renewed. -/
def sentAsItIs (store : TokenStore) (renew : Bool) (token : Option OAuthToken) : Bool :=
  token.any fun token => !renew && !tokenExpired token store.now

/-- A token got by the grant of an auth; a code grant needs the user. -/
def grantToken (P : Platform) (auth : OAuth2Auth) (token : Option OAuthToken)
    (answer : OAuthExchange → Except TokenFailure OAuthToken) :
    Except TokenFailure OAuthToken × List SentExchange :=
  if auth.grant = .authorizationCode then (.error (.oauth (tokenNeedsUser token)), [])
  else exchangeToken P auth .grant (answer .grant)

/-- A new token: by the refresh token, else by the grant. A refresh token that is refused is
followed by a grant that needs no user. -/
def newToken (P : Platform) (auth : OAuth2Auth) (token : Option OAuthToken)
    (answer : OAuthExchange → Except TokenFailure OAuthToken) :
    Except TokenFailure OAuthToken × List SentExchange :=
  match refreshTokenOf token with
  | none => grantToken P auth token answer
  | some t =>
      let refreshed := exchangeToken P auth (.refreshToken t) (answer (.refreshToken t))
      match refreshed.1 with
      | .error (.oauth message) =>
          if auth.grant = .authorizationCode then (.error (.oauth message), refreshed.2)
          else
            let granted := grantToken P auth token answer
            (granted.1, refreshed.2 ++ granted.2)
      | _ => refreshed

/-- A token to send with. `answer` is what the token endpoint gives for each exchange. -/
def tokenFor (P : Platform) (auth : OAuth2Auth) (store : TokenStore) (renew : Bool)
    (answer : OAuthExchange → Except TokenFailure OAuthToken) :
    Except TokenFailure Text × List SentExchange :=
  match store.token with
  | .error failure => (.error failure, [])
  | .ok token =>
      match token, sentAsItIs store renew token with
      | some token, true => (.ok token.accessToken, [])
      | token, _ =>
          let got := newToken P auth token answer
          (got.1.map OAuthToken.accessToken, got.2)

/-! ## Which requests go out -/

/-- A new token is asked for: the one there is cannot be sent as it is. -/
def NewTokenDue (store : TokenStore) (renew : Bool) (token : Option OAuthToken) : Prop :=
  store.token = .ok token ∧ sentAsItIs store renew token = false

/-- The token is asked for by a refresh token. -/
def RefreshDue (P : Platform) (auth : OAuth2Auth) (token : Option OAuthToken) (t : Text)
    (request : TokenRequest) : Prop :=
  refreshTokenOf token = some t ∧ exchangeRequest P auth (.refreshToken t) = .ok request

/-- The token is asked for by the grant: there is no refresh token, or it was refused. -/
def GrantDue (P : Platform) (auth : OAuth2Auth) (token : Option OAuthToken)
    (answer : OAuthExchange → Except TokenFailure OAuthToken) (request : TokenRequest) : Prop :=
  auth.grant ≠ .authorizationCode ∧ exchangeRequest P auth .grant = .ok request ∧
    ∀ t, refreshTokenOf token = some t →
      ∃ message, (exchangeToken P auth (.refreshToken t) (answer (.refreshToken t))).1 =
        .error (.oauth message)

/-- What goes out by one exchange is its request, where it has one. -/
theorem mem_exchangeToken_iff {P : Platform} {auth : OAuth2Auth} {exchange : OAuthExchange}
    {answer : Except TokenFailure OAuthToken} {sent : SentExchange} :
    sent ∈ (exchangeToken P auth exchange answer).2 ↔
      sent.exchange = exchange ∧ exchangeRequest P auth exchange = .ok sent.request := by
  unfold exchangeToken
  cases exchangeRequest P auth exchange with
  | error failure => simp
  | ok request =>
      constructor
      · intro h
        cases List.mem_singleton.mp h
        exact ⟨rfl, rfl⟩
      · rintro ⟨rfl, h⟩
        cases h
        exact List.mem_singleton.mpr rfl

theorem mem_grantToken_iff {P : Platform} {auth : OAuth2Auth} {token : Option OAuthToken}
    {answer : OAuthExchange → Except TokenFailure OAuthToken} {sent : SentExchange} :
    sent ∈ (grantToken P auth token answer).2 ↔
      sent.exchange = .grant ∧ auth.grant ≠ .authorizationCode ∧
        exchangeRequest P auth .grant = .ok sent.request := by
  unfold grantToken
  split
  · next hcode => simp [hcode]
  · next hcode =>
      rw [mem_exchangeToken_iff]
      simp [hcode]

/-- The requests for a new token: the refresh token's and the grant's. -/
theorem mem_newToken_iff {P : Platform} {auth : OAuth2Auth} {token : Option OAuthToken}
    {answer : OAuthExchange → Except TokenFailure OAuthToken} {sent : SentExchange} :
    sent ∈ (newToken P auth token answer).2 ↔
      (∃ t, sent.exchange = .refreshToken t ∧ RefreshDue P auth token t sent.request) ∨
        (sent.exchange = .grant ∧ GrantDue P auth token answer sent.request) := by
  unfold newToken RefreshDue GrantDue
  cases hrefresh : refreshTokenOf token with
  | none =>
      rw [mem_grantToken_iff]
      simp
  | some t =>
      simp only [Option.some.injEq, forall_eq']
      split
      · next message hrefused =>
          split
          · next hcode =>
              rw [mem_exchangeToken_iff]
              simp [hcode]
          · next hcode =>
              rw [List.mem_append, mem_exchangeToken_iff, mem_grantToken_iff, hrefused]
              simp [hcode]
      · next hother =>
          rw [mem_exchangeToken_iff]
          have hkept : ¬ ∃ message,
              (exchangeToken P auth (.refreshToken t) (answer (.refreshToken t))).1 =
                .error (.oauth message) := fun ⟨message, h⟩ => hother message h
          simp [hkept]

/-- The requests that go out for a token: none while one can be sent as it is, and else those for
a new one. -/
theorem mem_tokenFor_iff {P : Platform} {auth : OAuth2Auth} {store : TokenStore} {renew : Bool}
    {answer : OAuthExchange → Except TokenFailure OAuthToken} {sent : SentExchange} :
    sent ∈ (tokenFor P auth store renew answer).2 ↔
      ∃ token, NewTokenDue store renew token ∧
        ((∃ t, sent.exchange = .refreshToken t ∧ RefreshDue P auth token t sent.request) ∨
          (sent.exchange = .grant ∧ GrantDue P auth token answer sent.request)) := by
  unfold tokenFor NewTokenDue
  cases htoken : store.token with
  | error failure => simp
  | ok token =>
      simp only [Except.ok.injEq, ← mem_newToken_iff, and_assoc, exists_eq_left']
      cases hfresh : sentAsItIs store renew token with
      | true =>
          cases token with
          | none => simp [sentAsItIs] at hfresh
          | some token => simp
      | false => simp

/-- A token request goes to the token address of its auth. -/
theorem exchangeRequest_url {P : Platform} {auth : OAuth2Auth} {exchange : OAuthExchange}
    {request : TokenRequest} (h : exchangeRequest P auth exchange = .ok request) :
    request.url = auth.tokenUrl := by
  unfold exchangeRequest at h
  split at h
  · cases h
  · next made hmade =>
      split at h
      · cases h
      · split at h <;> cases h
        exact tokenRequest_url hmade

end Wayfarer
