import Wayfarer.Send.Once
import Wayfarer.Variables.Asked

/-!
# The whole of building a request

`buildRequest` is what a send does to get the request it transmits: the probe without the vault, the
comparison of hosts where a secret is needed, the vault, and the request. Two requests whose texts
fail alike and ask for the same secrets are probed alike (`probeSecrets_eq_error_iff`,
`mem_probeSecrets_iff`), and a request is built alike with two vaults that give the same of what its
texts ask for (`checked_agree`).
-/

set_option autoImplicit false

namespace Wayfarer

open Library

/-! ## Building -/

/-- What a send has at hand besides the context: the vault, the hosts and the user. -/
structure BuildDesk where
  /-- What the vault gives, or why it cannot be read. -/
  vault : Except SendError (Text → Option Text)
  /-- The request before its pre-request script ran. -/
  composed : Option Composed
  /-- The hosts the user has said yes to. -/
  accepted : List Text
  /-- The user's answer about a host. -/
  askHost : Text → Text → Bool
  /-- The dynamic values each resolver of the build draws. -/
  dynamic : Nat → Nat → Text → Text

/-- A resolver of the build, without the vault. -/
def BuildDesk.without (desk : BuildDesk) (context : BuildContext) (n : Nat) : Resolver :=
  Resolver.new context.scopes (fun _ => none) (desk.dynamic n)

/-- The comparison of the request's host with the one it was composed for. -/
def BuildDesk.comparison (P : Platform) (desk : BuildDesk) (content : RequestContent)
    (context : BuildContext) : Comparison :=
  compareHosts (homeOf P desk.composed (desk.dynamic 1))
    (hostOf P content.url (desk.without context 2)) desk.accepted

/-- The request built with the secrets of the given ids. -/
def buildWith (P : Platform) (content : RequestContent) (context : BuildContext) (desk : BuildDesk)
    (ids : List Text) : Except SendError BuiltRequest := do
  let vault ← desk.vault
  let draft ← checked P content (Resolver.new context.scopes (vaultRead ids vault) (desk.dynamic 3))
    context
  return draft.request P

/-- The request as it is transmitted, or why it is not sent. -/
def buildRequest (P : Platform) (content : RequestContent) (context : BuildContext)
    (desk : BuildDesk) : Except SendError BuiltRequest :=
  match probeSecrets content context.ancestors (desk.without context 0) with
  | .error error => .error (.nesting error)
  -- Nothing to read from the vault: the request is built at once.
  | .ok [] => (checked P content (desk.without context 3) context).map (Draft.request P)
  | .ok ids =>
      match desk.comparison P content context with
      | .refused error => .error (.nesting error)
      | .clear _ => buildWith P content context desk ids
      | .ask home away =>
          if desk.askHost home away then buildWith P content context desk ids
          else .error (.declined hostDeclined)

/-- The same request goes out, or the same refusal is given. -/
def SameOutcome : Except SendError BuiltRequest → Except SendError BuiltRequest → Prop
  | .ok a, .ok b => a.method = b.method ∧ a.url = b.url ∧ a.headers = b.headers ∧ a.body = b.body
  | .error e, .error e' => e = e'
  | _, _ => False

theorem SameOutcome.refl (x : Except SendError BuiltRequest) : SameOutcome x x := by
  cases x with
  | error e => exact Eq.refl e
  | ok request => exact ⟨rfl, rfl, rfl, rfl⟩

/-! ## The probe -/

/-- Every text of a request that the probe resolves: the auth's last. -/
def probeTexts (content : RequestContent) (ancestors : List Ancestor) : List Text :=
  requestTexts content ++ authTexts (effectiveAuth content.auth ancestors)

theorem header_mem_probeTexts {content : RequestContent} {ancestors : List Ancestor}
    {header : Text × Text} {t : Text} (hheader : header ∈ sentHeaders content.headers)
    (ht : t ∈ [header.1, header.2]) : t ∈ probeTexts content ancestors := by
  refine List.mem_append_left _ (List.mem_cons_of_mem _ (List.mem_append_left _ ?_))
  exact List.mem_flatMap.mpr ⟨header, hheader, ht⟩

/-- What is resolved in a loop is resolved one after the other. -/
theorem forIn_eq_mapM (resolve : Text → Resolve Text) (ts : List Text) :
    (forIn ts PUnit.unit fun t _ => do
      let _ ← resolve t
      pure (ForInStep.yield PUnit.unit) : Resolve PUnit) =
      (do let _ ← ts.mapM resolve; return PUnit.unit) := by
  induction ts with
  | nil => simp
  | cons t ts ih =>
      rw [List.forIn_cons, List.mapM_cons]
      simp only [bind_assoc, pure_bind, ih]

/-- The probe resolves the texts one after the other. -/
theorem probeSecrets_eq (content : RequestContent) (ancestors : List Ancestor) (probe : Resolver) :
    probeSecrets content ancestors probe =
      (((probeTexts content ancestors).mapM probe.resolve).run {}).map
        fun result => result.2.lockedSecrets.members := by
  have hpass : (do
      for t in requestTexts content do
        let _ ← probe.resolve t
      let _ ← resolveAuth probe.resolve (effectiveAuth content.auth ancestors)
      return () : Resolve Unit) =
      (do let _ ← (probeTexts content ancestors).mapM probe.resolve; return ()) := by
    have hauth := resolveAuth_pass probe.resolve (effectiveAuth content.auth ancestors)
    simp only [bind_pure_comp] at hauth
    have hloop := forIn_eq_mapM probe.resolve (requestTexts content)
    simp only [bind_pure_comp] at hloop
    simp only [probeTexts, List.mapM_append, bind_pure_comp, hauth, hloop]
    simp
  have hrun : probeSecrets content ancestors probe =
      ((do
        for t in requestTexts content do
          let _ ← probe.resolve t
        let _ ← resolveAuth probe.resolve (effectiveAuth content.auth ancestors)
        return () : Resolve Unit).run {}).map fun result => result.2.lockedSecrets.members := rfl
  rw [hrun, hpass, StateT.run_bind]
  cases ((probeTexts content ancestors).mapM probe.resolve).run {} with
  | error e => rfl
  | ok result => rfl

/-- The probe fails where the first of its texts does that fails. -/
theorem probeSecrets_eq_error_iff {content : RequestContent} {ancestors : List Ancestor}
    {probe : Resolver} {e : VariableNestingError} :
    probeSecrets content ancestors probe = .error e ↔
      (probeTexts content ancestors).findSome? probe.nestingOf = some e := by
  rw [probeSecrets_eq, ← Resolver.run_mapM_eq_error_iff (f := {})]
  cases ((probeTexts content ancestors).mapM probe.resolve).run {} with
  | error e' => simp [Except.map]
  | ok result => simp [Except.map]

/-- It finds the secrets its texts ask for. -/
theorem mem_probeSecrets_iff {content : RequestContent} {ancestors : List Ancestor}
    {scopes : ScopeStack} {dynamic : Nat → Text → Text} {ids : List Text}
    (h : probeSecrets content ancestors (Resolver.new scopes (fun _ => none) dynamic) = .ok ids)
    (id : Text) : id ∈ ids ↔ ∃ t ∈ probeTexts content ancestors,
      Refers (Resolver.new scopes (fun _ => none) dynamic) t id := by
  rw [probeSecrets_eq] at h
  cases hrun : ((probeTexts content ancestors).mapM
      (Resolver.new scopes (fun _ => none) dynamic).resolve).run {} with
  | error e =>
      rw [hrun] at h
      cases h
  | ok result =>
      rw [hrun] at h
      cases h
      have hmem := Resolver.mem_lockedSecrets_mapM_iff hrun id
      rw [← OrderedSet.mem_def, hmem]
      simp

/-! ## Building with another vault -/

section Agree

variable {P : Platform} {content : RequestContent} {context : BuildContext} {r r' : Resolver}

theorem resolveHeader_agree {header : Text × Text}
    (hname : r'.resolve header.1 = r.resolve header.1)
    (hvalue : r'.resolve header.2 = r.resolve header.2) :
    resolveHeader r' header = resolveHeader r header := by
  rw [resolveHeader, resolveHeader, hname, hvalue]

/-- A body is resolved alike by two resolvers that resolve its texts alike. -/
theorem resolveBody_agree {body : RequestBody}
    (h : ∀ t ∈ bodyTexts body, r'.resolve t = r.resolve t) :
    resolveBody P body r' context = resolveBody P body r context := by
  simp only [resolveBody]
  cases hmode : body.mode with
  | none => rfl
  | raw =>
      have htext := h ((body.raw.map RawBody.text).getD []) (by simp [bodyTexts, hmode])
      simp only [htext]
  | graphql =>
      have hquery := h ((body.graphql.map GraphqlBody.query).getD []) (by simp [bodyTexts, hmode])
      have htext := h ((body.graphql.map GraphqlBody.variablesText).getD [])
        (by simp [bodyTexts, hmode])
      simp only [hquery, htext]
  -- A form is resolved row by row, the key and the value.
  | urlencoded =>
      have hrow : ∀ row ∈ body.urlencoded.getD [],
          r'.resolve row.key = r.resolve row.key ∧ r'.resolve row.value = r.resolve row.value := by
        intro row hrow
        have hmem : ∀ t ∈ [row.key, row.value], t ∈ bodyTexts body := by
          intro t ht
          simp only [bodyTexts, hmode, List.mem_flatMap]
          exact ⟨row, hrow, ht⟩
        exact ⟨h _ (hmem _ (by simp)), h _ (hmem _ (by simp))⟩
      dsimp only
      congr 1
      apply mapM_congr_of_mem
      intro row hmem
      obtain ⟨hkey, hvalue⟩ := hrow row (List.mem_of_mem_filter hmem)
      simp only [hkey, hvalue]
  | multipart =>
      dsimp only
      congr 1
      apply mapM_congr_of_mem
      intro part hmem
      have hkey : r'.resolve part.key = r.resolve part.key := by
        apply h
        simp only [bodyTexts, hmode, List.mem_flatMap]
        exact ⟨part, List.mem_of_mem_filter hmem, List.mem_cons_self⟩
      cases hvalue : part.value with
      | text value =>
          have htext : r'.resolve value = r.resolve value := by
            apply h
            simp only [bodyTexts, hmode, List.mem_flatMap]
            refine ⟨part, List.mem_of_mem_filter hmem, ?_⟩
            simp [hvalue]
          simp only [hkey, htext]
      -- A file is read and not resolved: only its key is a text.
      | file ref => simp only [hkey]
  | binary => rfl

/-- A token is asked for whatever the vault holds. -/
theorem tokenOf_agree (hdynamic : r'.dynamic = r.dynamic) {own auth : AuthConfig}
    {withoutValue : List Text} :
    tokenOf context r' own auth withoutValue = tokenOf context r own auth withoutValue := by
  simp only [tokenOf, hdynamic]

theorem refusesFirst_agree (hdynamic : r'.dynamic = r.dynamic) {own auth : AuthConfig}
    {withoutValue : List Text} {mode : BodyMode} :
    refusesFirst context r' own auth withoutValue mode =
      refusesFirst context r own auth withoutValue mode := by
  simp only [refusesFirst, tokenRefused, hdynamic]

/-- The address without the white space around it asks for nothing more. -/
theorem refers_of_trim {t id : Text} (h : Refers r (trim t) id) : Refers r t id := by
  have hmem : ∀ {inside}, .placeholder inside ∈ segments (trim t) →
      .placeholder inside ∈ segments t := by
    intro inside hinside
    obtain ⟨hbrace, before, after, heq⟩ := mem_segments_iff.mp hinside
    obtain ⟨w, w', -, -, ht⟩ := exists_white_append_trim t
    refine mem_segments_iff.mpr ⟨hbrace, w ++ before, after ++ w', ?_⟩
    rw [ht, heq]
    simp
  cases h with
  | secret hinside hname => exact .secret (hmem hinside) hname
  | variable' hinside hname hdynamic hfind hvalue =>
      exact .variable' (hmem hinside) hname hdynamic hfind hvalue

end Agree

/-- A request is built alike with a vault that gives the same of what the texts ask for, and of what
the header of the auth asks for once its fields are filled in. -/
theorem checked_agree {P : Platform} {content : RequestContent} {context : BuildContext}
    {r : Resolver} {secret : Text → Option Text}
    (htexts : ∀ t ∈ probeTexts content context.ancestors, ∀ id, Refers r t id →
      secret id = r.secret id)
    (hheaders : ∀ headers f, (authHeadersOf P content r context).run {} = .ok (headers, f) →
      ∀ header ∈ headers, ∀ id, Refers r header.1 id ∨ Refers r header.2 id →
        secret id = r.secret id) :
    checked P content (r.withVault secret) context = checked P content r context := by
  have hresolve : ∀ t ∈ probeTexts content context.ancestors,
      (r.withVault secret).resolve t = r.resolve t :=
    fun t ht => r.resolve_agree secret (htexts t ht)
  have hauth : resolveAuth (r.withVault secret).resolve
      (effectiveAuth content.auth context.ancestors) =
      resolveAuth r.resolve (effectiveAuth content.auth context.ancestors) :=
    resolveAuth_congr fun t ht => hresolve t (List.mem_append_right _ ht)
  have hbody : resolveBody P content.body (r.withVault secret) context =
      resolveBody P content.body r context :=
    resolveBody_agree fun t ht =>
      hresolve t (List.mem_append_left _ (List.mem_append_right _ ht))
  have haddress : (r.withVault secret).resolve (trim content.url) = r.resolve (trim content.url) :=
    r.resolve_agree secret fun id hid =>
      htexts content.url (List.mem_append_left _ List.mem_cons_self) id (refers_of_trim hid)
  have hrows : (sentHeaders content.headers).mapM (resolveHeader (r.withVault secret)) =
      (sentHeaders content.headers).mapM (resolveHeader r) := by
    apply mapM_congr_of_mem
    intro header hheader
    exact resolveHeader_agree (hresolve _ (header_mem_probeTexts hheader (by simp)))
      (hresolve _ (header_mem_probeTexts hheader (by simp)))
  -- The two builds do the same step after step: each step is compared from what the one before
  -- found.
  have hall : (resolveRequest P content (r.withVault secret) context).run {} =
      (resolveRequest P content r context).run {} := by
    simp only [resolveRequest, hauth, hbody]
    refine run_bind_congr fun auth f₁ hfirst => run_bind_congr fun seen f₂ hseen => ?_
    cases hseen
    rw [run_liftResolve_eq_ok] at hfirst
    rw [refusesFirst_agree rfl]
    refine run_bind_congr fun allowed f₂ hallowed => ?_
    obtain rfl := (refusesFirst_eq_ok hallowed).symm
    -- What follows the body and the token; the headers of the auth are the only texts it resolves
    -- that the probe does not hold.
    have hlast : ∀ (body : Option ResolvedBody) f₂ token f₃,
        (if isBodyMethod content.method then resolveBody P content.body r context
          else pure none : Build (Option ResolvedBody)).run f₁ = .ok (body, f₂) →
        (tokenOf context r (effectiveAuth content.auth context.ancestors) auth
          f₁.unresolved.members).run f₂ = .ok (token, f₃) →
        (resolveRest content (r.withVault secret) context body token).run f₃ =
          (resolveRest content r context body token).run f₃ := by
      intro body f₂ token f₃ hbodyRun htokenRun
      simp only [resolveRest, hauth, haddress]
      refine run_bind_congr fun auth' f₄ hagain => ?_
      rw [run_liftResolve_eq_ok] at hagain
      have hheads : ((sentHeaders content.headers ++ buildAuthHeaders auth').mapM
          (resolveHeader (r.withVault secret))).run f₄ =
          ((sentHeaders content.headers ++ buildAuthHeaders auth').mapM (resolveHeader r)).run
            f₄ := by
        rw [List.mapM_append, List.mapM_append, hrows]
        refine run_bind_congr fun rows f₅ hrowsRun => ?_
        let parts : ResolvedRequest :=
          { method := content.method, auth := auth', headers := [], address := [], body := body,
            token := token, lastEventId := none }
        -- These headers are the ones the hypothesis is about.
        have hwritten := @run_authHeadersOf P content r context auth body token parts f₁ f₂ f₃ f₄ f₅
          rows hfirst hbodyRun htokenRun hagain hrowsRun
        have hagree : (buildAuthHeaders auth').mapM (resolveHeader (r.withVault secret)) =
            (buildAuthHeaders auth').mapM (resolveHeader r) := by
          apply mapM_congr_of_mem
          intro header hheader
          have hids := hheaders _ _ hwritten header hheader
          exact resolveHeader_agree (r.resolve_agree secret fun id hid => hids id (.inl hid))
            (r.resolve_agree secret fun id hid => hids id (.inr hid))
        rw [hagree]
      rw [StateT.run_bind, StateT.run_bind]
      exact congrArg (· >>= _) hheads
    split_ifs at hlast ⊢ with hmethod
    · refine run_bind_congr fun body f₂ hbodyRun => ?_
      rw [tokenOf_agree rfl]
      exact run_bind_congr fun token f₃ htokenRun => hlast body f₂ token f₃ hbodyRun htokenRun
    · refine run_bind_congr fun body f₂ hbodyRun => ?_
      rw [tokenOf_agree rfl]
      exact run_bind_congr fun token f₃ htokenRun => hlast body f₂ token f₃ hbodyRun htokenRun
  rw [checked, checked, build, build, hall]

/-- Nor does the header of the auth come to anything else with such a vault. -/
theorem authHeadersOf_agree {P : Platform} {content : RequestContent} {context : BuildContext}
    {r : Resolver} {secret : Text → Option Text}
    (htexts : ∀ t ∈ probeTexts content context.ancestors, ∀ id, Refers r t id →
      secret id = r.secret id) :
    authHeadersOf P content (r.withVault secret) context = authHeadersOf P content r context := by
  have hresolve : ∀ t ∈ probeTexts content context.ancestors,
      (r.withVault secret).resolve t = r.resolve t :=
    fun t ht => r.resolve_agree secret (htexts t ht)
  have hauth : resolveAuth (r.withVault secret).resolve
      (effectiveAuth content.auth context.ancestors) =
      resolveAuth r.resolve (effectiveAuth content.auth context.ancestors) :=
    resolveAuth_congr fun t ht => hresolve t (List.mem_append_right _ ht)
  have hbody : resolveBody P content.body (r.withVault secret) context =
      resolveBody P content.body r context :=
    resolveBody_agree fun t ht =>
      hresolve t (List.mem_append_left _ (List.mem_append_right _ ht))
  have hrows : (sentHeaders content.headers).mapM (resolveHeader (r.withVault secret)) =
      (sentHeaders content.headers).mapM (resolveHeader r) :=
    mapM_congr_of_mem fun header hheader =>
      resolveHeader_agree (hresolve _ (header_mem_probeTexts hheader (by simp)))
        (hresolve _ (header_mem_probeTexts hheader (by simp)))
  have htoken : ∀ auth withoutValue, tokenOf context (r.withVault secret)
      (effectiveAuth content.auth context.ancestors) auth withoutValue =
      tokenOf context r (effectiveAuth content.auth context.ancestors) auth withoutValue :=
    fun _ _ => tokenOf_agree rfl
  simp only [authHeadersOf, hauth, hbody, hrows, htoken]

/-! ## What a build depends on -/

/-- Two requests with the same method, address, headers, auth and kind of body are built alike,
where their bodies are resolved alike or not sent. -/
theorem checked_congr {P : Platform} {a b : RequestContent} {r : Resolver} {context : BuildContext}
    (hmethod : a.method = b.method) (hurl : a.url = b.url)
    (hheaders : sentHeaders a.headers = sentHeaders b.headers) (hauth : a.auth = b.auth)
    (hmode : a.body.mode = b.body.mode)
    (hbody : isBodyMethod b.method = true →
      resolveBody P a.body r context = resolveBody P b.body r context) :
    checked P a r context = checked P b r context := by
  have hrequest : resolveRequest P a r context = resolveRequest P b r context := by
    simp only [resolveRequest, resolveRest, hmethod, hurl, hheaders, hauth, hmode]
    split_ifs with hsends
    · simp only [hbody hsends]
    · rfl
  rw [checked, checked, build, build, hrequest]

end Wayfarer
