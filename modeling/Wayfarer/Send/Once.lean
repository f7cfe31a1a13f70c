import Wayfarer.Send.Composed
import Wayfarer.Send.Transmit
import Wayfarer.Variables.ResolverOnce

/-!
# Each template of a request is resolved once

The texts of a request are templates: its header rows, its address, its body, the fields of its
auth. `RequestOnce` says that each text of a built request is what one resolution of its own
template gives. The header that an auth writes is made of fields that are resolved, and is then
resolved with the rows: `requestOnce_iff` says that a request is built as it should be exactly
when that second reading finds nothing to replace.
-/

set_option autoImplicit false

namespace Wayfarer

open Library

/-! ## What one resolution gives -/

/-- A header whose name and value are resolved once. -/
def HeaderOnce (r : Resolver) (template result : Text × Text) : Prop :=
  ResolvesOnce r template.1 result.1 ∧ ResolvesOnce r template.2 result.2

/-- An auth whose every field is resolved once. -/
def AuthOnce (r : Resolver) : AuthConfig → AuthConfig → Prop
  | .inherit, .inherit => True
  | .none, .none => True
  | .bearer token, .bearer token' => ResolvesOnce r token token'
  | .basic username password, .basic username' password' =>
      ResolvesOnce r username username' ∧ ResolvesOnce r password password'
  | .apikey key value place, .apikey key' value' place' =>
      ResolvesOnce r key key' ∧ ResolvesOnce r value value' ∧ place' = place
  | .awsv4 auth, .awsv4 auth' =>
      ResolvesOnce r auth.accessKey auth'.accessKey ∧
        ResolvesOnce r auth.secretKey auth'.secretKey ∧
        ResolvesOnce r auth.sessionToken auth'.sessionToken ∧
        ResolvesOnce r auth.region auth'.region ∧ ResolvesOnce r auth.service auth'.service
  | .oauth2 auth, .oauth2 auth' =>
      ResolvesOnce r auth.authUrl auth'.authUrl ∧ ResolvesOnce r auth.tokenUrl auth'.tokenUrl ∧
        ResolvesOnce r auth.clientId auth'.clientId ∧
        ResolvesOnce r auth.clientSecret auth'.clientSecret ∧
        ResolvesOnce r auth.scope auth'.scope ∧ ResolvesOnce r auth.username auth'.username ∧
        ResolvesOnce r auth.password auth'.password
  | _, _ => False

/-- A part of a form whose texts are resolved once. -/
def PartOnce (r : Resolver) (part : MultipartPart) (result : ResolvedPart) : Prop :=
  ResolvesOnce r part.key result.key ∧
    match part.value, result.value with
    | .text value, .text value' => ResolvesOnce r value value'
    | .file ref, .file name _ => name = ref.fileName
    | _, _ => False

/-- A body whose every text is resolved once. -/
def BodyOnce (P : Platform) (r : Resolver) (body : RequestBody) (result : Option ResolvedBody) :
    Prop :=
  match body.mode with
  | .none => result = none
  | .raw => ∃ t, ResolvesOnce r ((body.raw.map RawBody.text).getD []) t ∧
      result = if t = [] then none
        else some (.raw ((body.raw.map RawBody.language).getD .text) t)
  | .graphql => ∃ query text values,
      ResolvesOnce r ((body.graphql.map GraphqlBody.query).getD []) query ∧
        ResolvesOnce r ((body.graphql.map GraphqlBody.variablesText).getD []) text ∧
        values = (if trim text = [] then none else P.parseJson text) ∧
        result = some (.graphql query values)
  | .urlencoded => ∃ pairs,
      List.Forall₂ (fun row pair => HeaderOnce r (row.key, row.value) pair)
        ((body.urlencoded.getD []).filter Row.enabled) pairs ∧
        result = some (.urlencoded pairs)
  | .multipart => ∃ parts,
      List.Forall₂ (PartOnce r) ((body.multipart.getD []).filter MultipartPart.enabled) parts ∧
        result = some (.multipart parts)
  | .binary => ∃ file type, result = some (.binary file type)

/-- Each text of a request is what one resolution of its own template gives. -/
structure RequestOnce (P : Platform) (content : RequestContent) (r : Resolver)
    (context : BuildContext) (parts : ResolvedRequest) : Prop where
  auth : AuthOnce r (effectiveAuth content.auth context.ancestors) parts.auth
  /-- The rows, and what the auth writes. -/
  headers : ∃ rows, List.Forall₂ (HeaderOnce r) (sentHeaders content.headers) rows ∧
    parts.headers = rows ++ buildAuthHeaders parts.auth
  address : ResolvesOnce r (trim content.url) parts.address
  body : if isBodyMethod content.method then BodyOnce P r content.body parts.body
    else parts.body = none

/-! ## The second reading -/

/-- A header resolved, as `assemble` does with the rows and with what the auth writes. -/
def resolveHeader (r : Resolver) (header : Text × Text) : Build (Text × Text) := do
  return (← liftResolve (r.resolve header.1), ← liftResolve (r.resolve header.2))

/-- The header of the auth, its fields resolved, where the request is by then: the body, the token
and the rows come first. -/
def authHeadersOf (P : Platform) (content : RequestContent) (r : Resolver)
    (context : BuildContext) : Build (List (Text × Text)) := do
  let own := effectiveAuth content.auth context.ancestors
  let auth ← liftResolve (resolveAuth r.resolve own)
  let withoutValue := (← get).unresolved.members
  let _ ← if isBodyMethod content.method then resolveBody P content.body r context else pure none
  let _ ← tokenOf context r own auth withoutValue
  let auth ← liftResolve (resolveAuth r.resolve own)
  let _ ← (sentHeaders content.headers).mapM (resolveHeader r)
  return buildAuthHeaders auth

/-- The header of the auth, with the values of its variables and secrets in it, reads as no
template: reading it once more changes nothing. -/
def AuthSettled (P : Platform) (content : RequestContent) (r : Resolver)
    (context : BuildContext) : Prop :=
  ∀ headers f, (authHeadersOf P content r context).run {} = .ok (headers, f) →
    ∀ again f', (headers.mapM (resolveHeader r)).run f = .ok (again, f') → again = headers

/-! ## Each part -/

theorem headerOnce_of_run {r : Resolver} {template result : Text × Text} {f f' : Findings}
    (h : (resolveHeader r template).run f = .ok (result, f')) : HeaderOnce r template result := by
  unfold resolveHeader at h
  simp only [run_bind_eq_ok, run_liftResolve_eq_ok] at h
  obtain ⟨name, g, hname, value, g', hvalue, hpure⟩ := h
  cases hpure
  exact ⟨ResolvesOnce.of_run hname, ResolvesOnce.of_run hvalue⟩

theorem authOnce_of_run {r : Resolver} {auth auth' : AuthConfig} {f f' : Findings}
    (h : (resolveAuth r.resolve auth).run f = .ok (auth', f')) : AuthOnce r auth auth' := by
  cases auth with
  | inherit =>
      cases h
      trivial
  | none =>
      cases h
      trivial
  | bearer token =>
      simp only [resolveAuth, run_bind_eq_ok] at h
      obtain ⟨_, _, htoken, hpure⟩ := h
      cases hpure
      exact ResolvesOnce.of_run htoken
  | basic username password =>
      simp only [resolveAuth, run_bind_eq_ok] at h
      obtain ⟨_, _, husername, _, _, hpassword, hpure⟩ := h
      cases hpure
      exact ⟨ResolvesOnce.of_run husername, ResolvesOnce.of_run hpassword⟩
  | apikey key value place =>
      simp only [resolveAuth, run_bind_eq_ok] at h
      obtain ⟨_, _, hkey, _, _, hvalue, hpure⟩ := h
      cases hpure
      exact ⟨ResolvesOnce.of_run hkey, ResolvesOnce.of_run hvalue, rfl⟩
  | awsv4 auth =>
      simp only [resolveAuth, run_bind_eq_ok] at h
      obtain ⟨_, _, h₁, _, _, h₂, _, _, h₃, _, _, h₄, _, _, h₅, hpure⟩ := h
      cases hpure
      exact ⟨ResolvesOnce.of_run h₁, ResolvesOnce.of_run h₂, ResolvesOnce.of_run h₃,
        ResolvesOnce.of_run h₄, ResolvesOnce.of_run h₅⟩
  | oauth2 auth =>
      simp only [resolveAuth, run_bind_eq_ok] at h
      obtain ⟨_, _, h₁, _, _, h₂, _, _, h₃, _, _, h₄, _, _, h₅, _, _, h₆, _, _, h₇, hpure⟩ := h
      cases hpure
      exact ⟨ResolvesOnce.of_run h₁, ResolvesOnce.of_run h₂, ResolvesOnce.of_run h₃,
        ResolvesOnce.of_run h₄, ResolvesOnce.of_run h₅, ResolvesOnce.of_run h₆,
        ResolvesOnce.of_run h₇⟩

/-- What is read of the GraphQL variables is their JSON. -/
theorem graphqlValues_eq {P : Platform} {t : Text} {values : Option Json} {f f' : Findings}
    (h : (graphqlValues P t).run f = .ok (values, f')) :
    values = if trim t = [] then none else P.parseJson t := by
  unfold graphqlValues at h
  split_ifs at h ⊢
  · cases h
    rfl
  · split at h
    · cases h
    · next hparsed =>
        cases h
        exact hparsed.symm
    · cases h

/-- Every text of a body is resolved once. -/
theorem bodyOnce_of_run {P : Platform} {body : RequestBody} {r : Resolver}
    {context : BuildContext} {result : Option ResolvedBody} {f f' : Findings}
    (h : (resolveBody P body r context).run f = .ok (result, f')) : BodyOnce P r body result := by
  unfold resolveBody at h
  unfold BodyOnce
  cases hmode : body.mode with
  | none =>
      simp only [hmode] at h
      cases h
      rfl
  | raw =>
      simp only [hmode, run_bind_eq_ok, run_liftResolve_eq_ok] at h
      obtain ⟨t, g, ht, hrest⟩ := h
      refine ⟨t, ResolvesOnce.of_run ht, ?_⟩
      split_ifs at hrest ⊢
      · cases hrest
        rfl
      · cases hrest
        rfl
  | graphql =>
      simp only [hmode, run_bind_eq_ok, run_liftResolve_eq_ok] at h
      obtain ⟨query, _, hquery, text, _, htext, values, _, hvalues, hpure⟩ := h
      cases hpure
      exact ⟨query, text, values, ResolvesOnce.of_run hquery, ResolvesOnce.of_run htext,
        graphqlValues_eq hvalues, rfl⟩
  | urlencoded =>
      simp only [hmode, run_bind_eq_ok] at h
      obtain ⟨pairs, _, hpairs, hpure⟩ := h
      cases hpure
      -- A row of a form is resolved as a header is.
      refine ⟨pairs, (forall₂_of_run_mapM hpairs).imp fun row pair hrow => ?_, rfl⟩
      obtain ⟨_, _, hrow⟩ := hrow
      have hrow : (resolveHeader r (row.key, row.value)).run _ = _ := hrow
      exact headerOnce_of_run hrow
  | multipart =>
      simp only [hmode, run_bind_eq_ok] at h
      obtain ⟨parts, _, hparts, hpure⟩ := h
      cases hpure
      refine ⟨parts, (forall₂_of_run_mapM hparts).imp fun part made hpart => ?_, rfl⟩
      obtain ⟨_, _, hpart⟩ := hpart
      unfold PartOnce
      cases hvalue : part.value with
      | text value =>
          simp only [hvalue, run_bind_eq_ok, run_liftResolve_eq_ok] at hpart
          obtain ⟨key, _, hkey, result, _, hresult, hpure⟩ := hpart
          cases hpure
          exact ⟨ResolvesOnce.of_run hkey, ResolvesOnce.of_run hresult⟩
      | file ref =>
          simp only [hvalue, run_bind_eq_ok, run_liftResolve_eq_ok] at hpart
          obtain ⟨key, _, hkey, blob, _, -, hpure⟩ := hpart
          cases hpure
          exact ⟨ResolvesOnce.of_run hkey, rfl⟩
  | binary =>
      simp only [hmode] at h
      -- A file has no text to resolve.
      cases hbinary : body.binary with
      | none =>
          simp only [hbinary] at h
          cases h
      | some binary =>
          simp only [hbinary, run_bind_eq_ok] at h
          obtain ⟨file, _, -, hpure⟩ := h
          cases hpure
          exact ⟨_, _, rfl⟩

/-! ## The request -/

/-- A request that is built was resolved, from no findings. -/
theorem resolveRequest_of_build {P : Platform} {content : RequestContent} {r : Resolver}
    {context : BuildContext} {draft : Draft} (h : build P content r context = .ok draft) :
    (resolveRequest P content r context).run {} = .ok (draft.parts, draft.findings) := by
  unfold build at h
  cases hresolve : (resolveRequest P content r context).run {} with
  | error error => simp [hresolve, bind, Except.bind] at h
  | ok result =>
      cases hsignature : signatureOf P (result.1.built P result.2) result.1.auth with
      | error error => simp [hresolve, hsignature, bind, Except.bind] at h
      | ok signature =>
          simp only [hresolve, hsignature, bind, Except.bind, pure, Except.pure] at h
          cases h
          rfl

/-- The last texts of a request: the auth's, the rows', what the auth writes, and the address. -/
theorem resolveRest_cases {content : RequestContent} {r : Resolver} {context : BuildContext}
    {body : Option ResolvedBody} {token : Option Text} {parts : ResolvedRequest}
    {f f' : Findings} (h : (resolveRest content r context body token).run f = .ok (parts, f')) :
    ∃ f₁ rows f₂ again f₃,
      (resolveAuth r.resolve (effectiveAuth content.auth context.ancestors)).run f =
        .ok (parts.auth, f₁) ∧
      ((sentHeaders content.headers).mapM (resolveHeader r)).run f₁ = .ok (rows, f₂) ∧
      ((buildAuthHeaders parts.auth).mapM (resolveHeader r)).run f₂ = .ok (again, f₃) ∧
      (r.resolve (trim content.url)).run f₃ = .ok (parts.address, f') ∧
      parts.headers = rows ++ again ∧ parts.body = body := by
  unfold resolveRest at h
  simp only [run_bind_eq_ok, run_liftResolve_eq_ok] at h
  obtain ⟨auth, f₁, hauth, headers, f₃, hheaders, address, f₄, haddress, hparts⟩ := h
  change ((sentHeaders content.headers ++ buildAuthHeaders auth).mapM (resolveHeader r)).run f₁ =
    .ok (headers, f₃) at hheaders
  rw [List.mapM_append] at hheaders
  simp only [run_bind_eq_ok] at hheaders
  obtain ⟨rows, f₂, hrows, again, _, hagain, hpure⟩ := hheaders
  cases hpure
  cases hparts
  exact ⟨f₁, rows, f₂, again, f₃, hauth, hrows, hagain, haddress, rfl, rfl⟩

/-- Rows resolved once are as many as the rows. -/
theorem append_eq_of_forall₂ {α β : Type} {R : α → β → Prop} {as : List α} {bs bs' cs cs' : List β}
    (h : List.Forall₂ R as bs) (h' : List.Forall₂ R as bs') (heq : bs ++ cs = bs' ++ cs') :
    cs = cs' :=
  (List.append_inj heq (h.length_eq.symm.trans h'.length_eq)).2

/-- The header of the auth as a request that is built has it. -/
theorem run_authHeadersOf {P : Platform} {content : RequestContent} {r : Resolver}
    {context : BuildContext} {auth : AuthConfig} {body : Option ResolvedBody}
    {token : Option Text} {parts : ResolvedRequest} {f₁ f₂ f₃ f₄ f₅ : Findings}
    {rows : List (Text × Text)}
    (hauth : (resolveAuth r.resolve (effectiveAuth content.auth context.ancestors)).run {} =
      .ok (auth, f₁))
    (hbody : (if isBodyMethod content.method then resolveBody P content.body r context
      else pure none : Build (Option ResolvedBody)).run f₁ = .ok (body, f₂))
    (htoken : (tokenOf context r (effectiveAuth content.auth context.ancestors) auth
      f₁.unresolved.members).run f₂ = .ok (token, f₃))
    (hagain : (resolveAuth r.resolve (effectiveAuth content.auth context.ancestors)).run f₃ =
      .ok (parts.auth, f₄))
    (hrows : ((sentHeaders content.headers).mapM (resolveHeader r)).run f₄ = .ok (rows, f₅)) :
    (authHeadersOf P content r context).run {} = .ok (buildAuthHeaders parts.auth, f₅) := by
  unfold authHeadersOf
  refine run_bind_eq_ok.mpr ⟨auth, f₁, run_liftResolve_eq_ok.mpr hauth, ?_⟩
  refine run_bind_eq_ok.mpr ⟨f₁, f₁, rfl, ?_⟩
  dsimp only
  split_ifs at hbody ⊢ <;>
  · refine run_bind_eq_ok.mpr ⟨body, f₂, hbody, ?_⟩
    refine run_bind_eq_ok.mpr ⟨token, f₃, htoken, ?_⟩
    refine run_bind_eq_ok.mpr ⟨parts.auth, f₄, run_liftResolve_eq_ok.mpr hagain, ?_⟩
    exact run_bind_eq_ok.mpr ⟨rows, f₅, hrows, rfl⟩

/-- Each text of a request that is built is resolved once exactly when the header of its auth, the
fields filled in, reads as no template. -/
theorem requestOnce_iff {P : Platform} {content : RequestContent} {r : Resolver}
    {context : BuildContext} {draft : Draft} (hbuilt : build P content r context = .ok draft) :
    RequestOnce P content r context draft.parts ↔ AuthSettled P content r context := by
  obtain ⟨auth, f₁, body, f₂, token, f₃, hauth, hbody, htoken, hrest⟩ :=
    resolveRequest_cases (resolveRequest_of_build hbuilt)
  obtain ⟨f₄, rows, f₅, again, f₆, hlast, hrows, hagain, haddress, hheaders, hbodyEq⟩ :=
    resolveRest_cases hrest
  have hwritten := run_authHeadersOf hauth hbody htoken hlast hrows
  have honce : List.Forall₂ (HeaderOnce r) (sentHeaders content.headers) rows :=
    (forall₂_of_run_mapM hrows).imp fun _ _ ⟨_, _, hrow⟩ => headerOnce_of_run hrow
  constructor
  · intro h headers f hheadersOf again' f' hagain'
    rw [hwritten] at hheadersOf
    cases hheadersOf
    rw [hagain] at hagain'
    cases hagain'
    obtain ⟨rows', honce', hrows'⟩ := h.headers
    exact append_eq_of_forall₂ honce honce' (hheaders.symm.trans hrows')
  · intro h
    refine ⟨authOnce_of_run hlast, ⟨rows, honce, ?_⟩, ResolvesOnce.of_run haddress, ?_⟩
    · rw [hheaders, h _ _ hwritten again f₆ hagain]
    · rw [hbodyEq]
      split_ifs at hbody ⊢
      · exact bodyOnce_of_run hbody
      · cases hbody
        rfl

/-! ## Where the condition holds -/

/-- The condition, as it is computed. -/
theorem authSettled_iff {P : Platform} {content : RequestContent} {r : Resolver}
    {context : BuildContext} :
    AuthSettled P content r context ↔
      ((authHeadersOf P content r context).run {}).toOption.all (fun written =>
        (((written.1.mapM (resolveHeader r)).run written.2).toOption.all fun again =>
          again.1 = written.1)) := by
  unfold AuthSettled
  constructor
  · intro h
    cases hwritten : (authHeadersOf P content r context).run {} with
    | error _ => rfl
    | ok written =>
        cases hagain : (written.1.mapM (resolveHeader r)).run written.2 with
        | error _ => simp [Except.toOption, hagain]
        | ok again => simpa [Except.toOption, hagain] using h _ _ hwritten _ _ hagain
  · intro h headers f hwritten again f' hagain
    simpa [Except.toOption, hwritten, hagain] using h

instance AuthSettled.decidable (P : Platform) (content : RequestContent) (r : Resolver)
    (context : BuildContext) : Decidable (AuthSettled P content r context) :=
  decidable_of_iff _ authSettled_iff.symm

/-! ## Filled in twice -/

/-- A secret that reads as a reference to a variable. -/
def braceSecret : Text := units "\x7b\x7bname\x7d\x7d"

/-- A request whose bearer token is the vault secret `s`. -/
def bearerRequest : RequestContent where
  method := units "GET"
  url := units "https://api.test/"
  headers := []
  body := { mode := .none }
  auth := .bearer (units "\x7b\x7b$secret.s\x7d\x7d")

/-- The variable `name` has a value, and the vault gives the secret `s`. -/
def bearerResolver (plaintext : Text) : Resolver :=
  Resolver.new
    { environment := [{ key := units "name", value := units "v", enabled := true }] }
    fun id => if id = units "s" then some plaintext else none

/-- The request, built with the secret. -/
def bearerDraft (plaintext : Text) : Option Draft :=
  (build oneAddressPlatform bearerRequest (bearerResolver plaintext) loneContext).toOption

/-- A secret with no braces stands in the header as it is. -/
theorem bearerRequest_once : ∃ draft,
    build oneAddressPlatform bearerRequest (bearerResolver (units "s3cret")) loneContext =
      .ok draft ∧
    RequestOnce oneAddressPlatform bearerRequest (bearerResolver (units "s3cret")) loneContext
      draft.parts := by
  have hbuilt : (bearerDraft (units "s3cret")).isSome = true := by decide +kernel
  have hsettled : AuthSettled oneAddressPlatform bearerRequest
      (bearerResolver (units "s3cret")) loneContext := by
    decide +kernel
  unfold bearerDraft at hbuilt
  cases hdraft : build oneAddressPlatform bearerRequest (bearerResolver (units "s3cret"))
      loneContext with
  | error error => simp [hdraft, Except.toOption] at hbuilt
  | ok draft => exact ⟨draft, rfl, (requestOnce_iff hdraft).mpr hsettled⟩

/-- A secret that reads as a reference is read as one: the header holds the value of the variable,
and not the secret. -/
theorem bearerRequest_twice : ∃ draft,
    build oneAddressPlatform bearerRequest (bearerResolver braceSecret) loneContext = .ok draft ∧
    ¬ RequestOnce oneAddressPlatform bearerRequest (bearerResolver braceSecret) loneContext
      draft.parts := by
  have hbuilt : (bearerDraft braceSecret).any (fun draft =>
      draft.parts.headers = [(units "Authorization", units "Bearer v")]) = true := by
    decide +kernel
  unfold bearerDraft at hbuilt
  cases hdraft : build oneAddressPlatform bearerRequest (bearerResolver braceSecret)
      loneContext with
  | error error => simp [hdraft, Except.toOption] at hbuilt
  | ok draft =>
      simp only [hdraft, Except.toOption, Option.any_some, decide_eq_true_eq] at hbuilt
      refine ⟨draft, rfl, fun honce => ?_⟩
      have hauth : AuthOnce (bearerResolver braceSecret)
          (.bearer (units "\x7b\x7b$secret.s\x7d\x7d")) draft.parts.auth := honce.auth
      obtain ⟨rows, hrows, hheaders⟩ := honce.headers
      cases hrows
      cases hsame : draft.parts.auth with
      | bearer token =>
          rw [hsame] at hauth hheaders
          have hauth : ResolvesOnce (bearerResolver braceSecret)
            (units "\x7b\x7b$secret.s\x7d\x7d") token := hauth
          have hmem : Segment.placeholder (units "$secret.s") ∈
              segments (units "\x7b\x7b$secret.s\x7d\x7d") := by
            decide +kernel
          have hname : secretPrefix.isPrefixOf (trim (units "$secret.s")) = true := by
            decide +kernel
          have hrefers := Refers.secret (r := bearerResolver braceSecret) hmem hname
          -- Resolved once, the token holds the secret as it is.
          have hplain : braceSecret <:+: token := hauth.verbatim _ braceSecret hrefers rfl
          -- The header that is sent has resolved it again.
          have htoken : token = units "v" := by
            rw [hbuilt, List.nil_append, buildAuthHeaders] at hheaders
            split_ifs at hheaders
            · simp only [List.cons.injEq, Prod.mk.injEq, and_true, true_and] at hheaders
              have hsplit : units "Bearer v" = units "Bearer " ++ units "v" := by decide
              rw [hsplit] at hheaders
              exact (List.append_cancel_left hheaders).symm
          rw [htoken] at hplain
          exact absurd hplain (by decide)
      | _ =>
          rw [hsame] at hauth
          exact hauth

end Wayfarer
