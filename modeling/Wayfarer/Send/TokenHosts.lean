import Wayfarer.Auth.Tokens
import Wayfarer.Send.Transmit
import Wayfarer.Send.Composed

/-!
# Which host a token request goes to

A request with an OAuth 2.0 auth asks for its token while it is built: with the variables
its pre-request scripts left, and the vault's secrets. `tokenCall` is that one call of the
build (`token_of_checked`), and `BuildSend.tokenRequests` the requests to the token endpoint it
leads to.

The host of the request is compared with the composed one before the vault is read; the host
of the token address is not. `tokenRequests_keep_host_iff` says exactly when a token request
that carries a secret goes to the host the token address had before the scripts ran, or to
one the user accepted.
-/

set_option autoImplicit false

namespace Wayfarer

open Library

/-! ## The call for a token -/

/-- A body whose texts hold the request back before its token is asked for: a form's and a file's
are put together while the token is on its way. -/
def bodyRefused (P : Platform) (content : RequestContent) (r : Resolver) (context : BuildContext)
    (f : Findings) : Bool :=
  isBodyMethod content.method && content.body.mode ≠ .multipart && content.body.mode ≠ .binary &&
    !((resolveBody P content.body r context).run f).toBool

/-- The auth as it is sent and the name of its token, where building a request comes to ask for
one. -/
def tokenCall (P : Platform) (content : RequestContent) (r : Resolver) (context : BuildContext) :
    Option (OAuth2Auth × Text) :=
  let own := effectiveAuth content.auth context.ancestors
  match (resolveAuth r.resolve own).run {}, own with
  | .ok (.oauth2 resolved, f), .oauth2 written =>
      if f.unresolved.members ≠ [] ∨ bodyRefused P content r context f = true then none
      else (oauthKeyOf written context.scopes r.dynamic).map fun key => (resolved, key)
  | _, _ => none

/-- An auth as a resolver fills it in, before anything else is resolved. -/
def resolvedAuth (r : Resolver) (own : AuthConfig) : Option AuthConfig :=
  ((resolveAuth r.resolve own).run {}).toOption.map Prod.fst

/-- A token that is asked for is what the fetcher gives for the auth as it is sent. -/
theorem tokenOf_eq_some {context : BuildContext} {r : Resolver} {own auth : AuthConfig}
    {withoutValue : List Text} {f f' : Findings} {token : Text}
    (h : (tokenOf context r own auth withoutValue).run f = .ok (some token, f')) :
    ∃ resolved written key fetch, auth = .oauth2 resolved ∧ own = .oauth2 written ∧
      withoutValue = [] ∧ oauthKeyOf written context.scopes r.dynamic = some key ∧
      context.oauthToken = some fetch ∧ fetch resolved key context.renewToken = .ok token := by
  unfold tokenOf at h
  split at h
  · next resolved written =>
      split at h
      · cases h
      · next key hkey =>
          dsimp only at h
          split at h
          · cases h
          · next hvalues =>
              split at h
              · cases h
              · next fetch hfetch =>
                  split at h
                  · next given hgiven =>
                      cases h
                      exact ⟨resolved, written, key, fetch, rfl, rfl, not_not.mp hvalues, hkey,
                        hfetch, hgiven⟩
                  · cases h
  · cases h

/-- A request that is built with a token asked for it by that one call: what it is built with is
what the call gave. -/
theorem token_of_checked {P : Platform} {content : RequestContent} {r : Resolver}
    {context : BuildContext} {draft : Draft} {token : Text}
    (hbuilt : checked P content r context = .ok draft) (htoken : draft.parts.token = some token) :
    ∃ resolved key fetch, tokenCall P content r context = some (resolved, key) ∧
      context.oauthToken = some fetch ∧ fetch resolved key context.renewToken = .ok token := by
  obtain ⟨auth, f₁, body, f₂, asked, f₃, hauth, hbody, hasked, hrest⟩ :=
    resolveRequest_cases (resolveRequest_of_checked hbuilt)
  rw [resolveRest_token hrest] at htoken
  obtain ⟨hsome, -⟩ := Option.filter_eq_some_iff.mp htoken
  subst hsome
  obtain ⟨resolved, written, key, fetch, rfl, hown, hvalues, hkey, hfetch, hgiven⟩ :=
    tokenOf_eq_some hasked
  refine ⟨resolved, key, fetch, ?_, hfetch, hgiven⟩
  have hbodyOk : bodyRefused P content r context f₁ = false := by
    unfold bodyRefused
    cases hmethod : isBodyMethod content.method with
    | false => simp
    | true =>
        rw [if_pos hmethod] at hbody
        simp [hbody, Except.toBool]
  unfold tokenCall
  dsimp only
  rw [hauth, hown]
  simp [hvalues, hbodyOk, hkey]

/-! ## One build of a request -/

/-- A build of a request whose pre-request scripts have run: the first of a send, or the one more
after a 401. -/
structure BuildSend where
  platform : Platform
  /-- The request as the scripts left it. -/
  content : RequestContent
  context : BuildContext
  /-- The variables before the scripts ran, and as they left them. -/
  before : ScopeStack
  scopes : ScopeStack
  /-- The vault's plaintext by id, before the scripts ran and as they left it. -/
  vaultBefore : Text → Option Text
  vault : Text → Option Text
  /-- The vault is unlocked when it is to be read. -/
  unlocked : Bool
  /-- The request as it was composed; absent where it is not compared. -/
  composed : Option Composed
  /-- The hosts the user accepted earlier in the run. -/
  accepted : List Text
  /-- What the user answers when asked about a host. -/
  yes : Bool
  /-- The dynamic values each resolver draws. -/
  dynamicBefore : Nat → Text → Text
  dynamic : Nat → Nat → Text → Text
  /-- What there is of the token, and what its endpoint answers. -/
  store : TokenStore
  answer : OAuthExchange → Except TokenFailure OAuthToken

namespace BuildSend

variable (s : BuildSend)

/-- The token of an auth, as the build asks for it. -/
def oauthToken (auth : OAuth2Auth) (_key : Text) (renew : Bool) : Except SendError Text :=
  match (tokenFor s.platform auth s.store renew s.answer).1 with
  | .ok token => .ok token
  | .error (.oauth message) => .error (.blocked (message ++ units " Nothing was sent."))
  -- An error of another kind is thrown on; it has no words for the user.
  | .error .other => .error (.blocked [])

/-- The context of the build: the variables as the scripts left them, and the app's tokens. -/
def contextNow : BuildContext :=
  { s.context with scopes := s.scopes, oauthToken := some s.oauthToken }

/-- The vault read for the build, where it is unlocked. -/
def vaultResolver (ids : List Text) : Option Resolver :=
  if s.unlocked then some (Resolver.new s.scopes (vaultRead ids s.vault) (s.dynamic 3)) else none

/-- The resolver a request is built with and the hosts the user has accepted by then; absent where
the request is not built. -/
def resolver : Option (Resolver × List Text) :=
  let without := fun n => Resolver.new s.scopes (fun _ => none) (s.dynamic n)
  match probeSecrets s.content s.context.ancestors (without 0) with
  | .error _ => none
  | .ok [] => some (without 3, s.accepted)
  | .ok ids =>
      match compareHosts (homeOf s.platform s.composed (s.dynamic 1))
          (hostOf s.platform s.content.url (without 2)) s.accepted with
      | .refused _ => none
      | .clear _ => (s.vaultResolver ids).map fun r => (r, s.accepted)
      | .ask _ away =>
          if s.yes then (s.vaultResolver ids).map fun r => (r, away :: s.accepted) else none

/-- The auth the request is sent with, its own or inherited, as it is written. -/
def auth : AuthConfig :=
  effectiveAuth s.content.auth s.context.ancestors

/-- The build comes to ask for a token: with a resolver, after the user accepted some hosts, for an
auth as written and as filled in. -/
def Asks (r : Resolver) (accepted : List Text) (written resolved : OAuth2Auth) : Prop :=
  s.resolver = some (r, accepted) ∧ s.auth = .oauth2 written ∧
    ∃ key, tokenCall s.platform s.content r s.contextNow = some (resolved, key)

/-- The token requests made while the request is built. -/
def tokenRequests : List SentExchange :=
  match s.resolver with
  | none => []
  | some (r, _) =>
      match tokenCall s.platform s.content r s.contextNow with
      | none => []
      | some (resolved, _) =>
          (tokenFor s.platform resolved s.store s.context.renewToken s.answer).2

/-- The host of the token address before the scripts ran. -/
def tokenHostBefore : Option Text :=
  match resolvedAuth (Resolver.new s.before s.vaultBefore s.dynamicBefore) s.auth with
  | some (.oauth2 resolved) => some (sentHost s.platform resolved.tokenUrl)
  | _ => none

/-- A host the token requests of the build may go to. -/
def Allowed (accepted : List Text) (host : Text) : Prop :=
  s.tokenHostBefore = some host ∨ host ∈ accepted

end BuildSend

/-- A text puts a vault secret in. -/
def takesSecret (r : Resolver) (t : Text) : Bool :=
  match (r.resolve t).run {} with
  | .ok (_, f) => f.taint.members.any fun plaintext => plaintext ≠ []
  | .error _ => false

/-- The client secret or, of a password grant, the password is a vault secret. -/
def grantTakesSecret (r : Resolver) (written : OAuth2Auth) : Bool :=
  takesSecret r written.clientSecret ||
    (written.grant = .password && takesSecret r written.password)

/-- An exchange carries a vault secret: a refresh token is one. -/
def carriesSecret (r : Resolver) (written : OAuth2Auth) : OAuthExchange → Bool
  | .refreshToken _ => true
  | .grant => grantTakesSecret r written

/-! ## Where token requests go -/

/-- Every token request that carries a vault secret goes to the host its address had before the
scripts ran, or to one the user accepted. -/
def BuildSend.KeepsTokenHost (s : BuildSend) : Prop :=
  ∀ r accepted written resolved, s.Asks r accepted written resolved →
    ∀ sent ∈ s.tokenRequests, carriesSecret r written sent.exchange = true →
      s.Allowed accepted (sentHost s.platform sent.request.url)

/-- A token request that carries a vault secret is due: no token can be sent as it is, and one is
asked for by a refresh token, or by a grant with a secret in it. -/
def BuildSend.SecretDue (s : BuildSend) (r : Resolver) (written resolved : OAuth2Auth) : Prop :=
  ∃ token, NewTokenDue s.store s.context.renewToken token ∧
    ((∃ t request, RefreshDue s.platform resolved token t request) ∨
      (grantTakesSecret r written = true ∧
        ∃ request, GrantDue s.platform resolved token s.answer request))

/-- The token address still has a host it may have, or no token request carries a secret. -/
def BuildSend.TokenHostKept (s : BuildSend) : Prop :=
  ∀ r accepted written resolved, s.Asks r accepted written resolved →
    s.Allowed accepted (sentHost s.platform resolved.tokenUrl) ∨ ¬ s.SecretDue r written resolved

/-- The token requests of a build that asks for a token are those of its auth. -/
theorem BuildSend.Asks.tokenRequests {s : BuildSend} {r : Resolver} {accepted : List Text}
    {written resolved : OAuth2Auth} (h : s.Asks r accepted written resolved) :
    s.tokenRequests =
      (tokenFor s.platform resolved s.store s.context.renewToken s.answer).2 := by
  obtain ⟨hresolver, -, key, hcall⟩ := h
  simp [BuildSend.tokenRequests, hresolver, hcall]

/-- Token requests that carry a secret keep their host exactly when the token address still has a
host it may have, or no such request is due. -/
theorem tokenRequests_keep_host_iff (s : BuildSend) : s.KeepsTokenHost ↔ s.TokenHostKept := by
  refine forall₄_congr fun r accepted written resolved => forall_congr' fun hasks => ?_
  rw [hasks.tokenRequests]
  constructor
  · intro hkeeps
    by_cases hdue : s.SecretDue r written resolved
    · refine Or.inl ?_
      obtain ⟨token, hnew, ⟨t, request, hrefresh⟩ | ⟨hsecret, request, hgrant⟩⟩ := hdue
      · have hsent := hkeeps ⟨.refreshToken t, request⟩
          (mem_tokenFor_iff.mpr ⟨token, hnew, Or.inl ⟨t, rfl, hrefresh⟩⟩) rfl
        rwa [exchangeRequest_url hrefresh.2] at hsent
      · have hsent := hkeeps ⟨.grant, request⟩
          (mem_tokenFor_iff.mpr ⟨token, hnew, Or.inr ⟨rfl, hgrant⟩⟩) hsecret
        rwa [exchangeRequest_url hgrant.2.1] at hsent
    · exact Or.inr hdue
  · rintro (hallowed | hnot) sent hsent hcarries
    · obtain ⟨token, -, ⟨t, -, hrefresh⟩ | ⟨-, hgrant⟩⟩ := mem_tokenFor_iff.mp hsent
      · rwa [exchangeRequest_url hrefresh.2]
      · rwa [exchangeRequest_url hgrant.2.1]
    · obtain ⟨token, hnew, ⟨t, -, hrefresh⟩ | ⟨hexchange, hgrant⟩⟩ := mem_tokenFor_iff.mp hsent
      · exact absurd ⟨token, hnew, Or.inl ⟨t, _, hrefresh⟩⟩ hnot
      · rw [hexchange] at hcarries
        exact absurd ⟨token, hnew, Or.inr ⟨hcarries, _, hgrant⟩⟩ hnot

/-! ## A token address that a script moves -/

/-- The build makes a token request with a secret to another host, unasked. -/
def BuildSend.tokenStrayed (s : BuildSend) : Bool :=
  match s.resolver, s.auth with
  | some (r, accepted), .oauth2 written =>
      match tokenCall s.platform s.content r s.contextNow with
      | none => false
      | some _ => s.tokenRequests.any fun sent =>
          carriesSecret r written sent.exchange &&
            s.tokenHostBefore ≠ some (sentHost s.platform sent.request.url) &&
            !accepted.contains (sentHost s.platform sent.request.url)
  | _, _ => false

theorem BuildSend.not_keeps_of_strayed {s : BuildSend} (h : s.tokenStrayed = true) :
    ¬ s.KeepsTokenHost := by
  intro hkeeps
  unfold BuildSend.tokenStrayed at h
  split at h
  · next r accepted written hresolver hauth =>
      split at h
      · cases h
      · next call hcall =>
          obtain ⟨sent, hsent, hstray⟩ := List.any_eq_true.mp h
          simp only [Bool.and_eq_true, decide_eq_true_eq, Bool.not_eq_true',
            List.contains_eq_mem, decide_eq_false_iff_not] at hstray
          obtain hbefore | haccepted := hkeeps r accepted written call.1
            ⟨hresolver, hauth, call.2, hcall⟩ sent hsent hstray.1.1
          · exact hstray.1.2 hbefore
          · exact hstray.2 haccepted
  · cases h

/-- The auth of an API: its client's secret in the vault, its token address by a variable. -/
def clientAuth : OAuth2Auth where
  grant := .clientCredentials
  authUrl := []
  tokenUrl := units "https://\x7b\x7bidp\x7d\x7d/token"
  clientId := units "app"
  clientSecret := units "\x7b\x7b$secret.s1\x7d\x7d"
  scope := []
  username := []
  password := []
  clientAuth := .header
  retryOn401 := false

/-- An environment with the host of the token address. -/
def idpScopes (host : String) : ScopeStack where
  environment := [{ key := units "idp", value := units host, enabled := true }]

/-- A build with no token yet, before which a script moved the token address. -/
def movedTokenAddress : BuildSend where
  platform := plainPlatform
  content :=
    { method := units "GET", url := units "https://api.test/", headers := [],
      body := { mode := .none }, auth := .oauth2 clientAuth }
  context := loneContext
  before := idpScopes "good.test"
  scopes := idpScopes "evil.test"
  vaultBefore id := if id = units "s1" then some (units "s3cret") else none
  vault id := if id = units "s1" then some (units "s3cret") else none
  unlocked := true
  composed := some { url := units "https://api.test/", scopes := idpScopes "good.test" }
  accepted := []
  yes := false
  dynamicBefore _ _ := []
  dynamic _ _ _ := []
  store := { held := none, stored := false, unlocked := true, read := none, now := 0 }
  answer _ := .error .other

/-- The client's secret goes to the host the script set, and the user is not asked. -/
theorem movedTokenAddress_strays : ¬ movedTokenAddress.KeepsTokenHost :=
  BuildSend.not_keeps_of_strayed (by decide +kernel)

end Wayfarer
