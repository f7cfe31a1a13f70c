import Wayfarer.Export.Request
import Wayfarer.Library.Form
import Wayfarer.Send.BuildRequest

/-!
# The request as a script sees it

A pre-request script is given the request in a flat form (`scriptRequestOf`), and what it leaves is
written back (`withScriptRequest`). A script that changes nothing should change nothing. Of every
mode but one the way there and back gives the texts that were there. Of URL-encoded fields the
script is shown the rows that are on and have a name, and only those come back; but the probe of a
build reads every row, and the form sends every row that is on. `scriptView_changes_nothing` says
when that makes no difference.
-/

set_option autoImplicit false

namespace Wayfarer

open Library

/-! ## The view -/

/-- A body as a script sees it. Of a multipart form or a file it sees the mode and no more. -/
inductive ScriptBody where
  | raw (text : Text)
  | urlencoded (fields : List (Text × Text))
  | none
  | multipart
  | binary
  deriving DecidableEq

/-- A request as a script sees it, and as a pre-request script left it. -/
structure ScriptRequest where
  method : Text
  url : Text
  headers : List (Text × Text)
  body : ScriptBody

/-- The rows that are on and have a name. -/
def namedPairs (rows : List Row) : List (Text × Text) :=
  (rows.filter fun row => row.enabled && row.key ≠ []).map fun row => (row.key, row.value)

/-- The text of a GraphQL body. -/
def RequestBody.graphqlPayload (P : Platform) (body : RequestBody) : Text :=
  graphqlText P ((body.graphql.map GraphqlBody.query).getD [])
    ((body.graphql.map GraphqlBody.variablesText).getD [])

/-- A request as a script sees it: the rows that are switched on, placeholders as written. -/
def scriptRequestOf (P : Platform) (content : RequestContent) : ScriptRequest where
  method := content.method
  url := content.url
  headers := namedPairs content.headers
  body :=
    match content.body.mode with
    | .raw => .raw ((content.body.raw.map RawBody.text).getD [])
    | .graphql => .raw (content.body.graphqlPayload P)
    | .urlencoded => .urlencoded (namedPairs (content.body.urlencoded.getD []))
    | .none => .none
    | .multipart => .multipart
    | .binary => .binary

/-- The rows of a script's pairs. -/
def scriptRows (pairs : List (Text × Text)) : List Row :=
  pairs.map fun pair => { key := pair.1, value := pair.2, enabled := true }

/-- A request as a pre-request script left it. -/
def withScriptRequest (P : Platform) (content : RequestContent) (request : ScriptRequest) :
    RequestContent :=
  -- A GraphQL body the script left as it saw it stays one.
  let untouched :=
    content.body.mode = .graphql ∧ request.body = .raw (content.body.graphqlPayload P)
  let body :=
    if untouched then content.body
    else
      match request.body with
      | .raw text =>
          { content.body with
            mode := .raw
            raw := some {
              language :=
                if content.body.mode = .graphql then .json
                else (content.body.raw.map RawBody.language).getD .text
              text } }
      | .urlencoded fields =>
          { content.body with mode := .urlencoded, urlencoded := some (scriptRows fields) }
      | _ => content.body
  { content with
    method := request.method, url := request.url, headers := scriptRows request.headers, body }

/-- A request after a script that left it as it was given. -/
def leftAlone (P : Platform) (content : RequestContent) : RequestContent :=
  withScriptRequest P content (scriptRequestOf P content)

/-! ## There and back -/

section LeftAlone

variable {P : Platform} {content : RequestContent} {context : BuildContext}

/-- The rows of a list that are on and have a name, as they come back from a script. -/
theorem filter_scriptRows_namedPairs (rows : List Row) (p : Row → Bool)
    (hp : ∀ row : Row, p { key := row.key, value := row.value, enabled := true } = p row ∨
      (row.enabled && row.key ≠ []) = false) :
    (scriptRows (namedPairs rows)).filter p =
      ((rows.filter fun row => row.enabled && row.key ≠ []).filter p).map
        fun row => { key := row.key, value := row.value, enabled := true } := by
  rw [scriptRows, namedPairs, List.map_map, List.filter_map]
  congr 1
  apply List.filter_congr
  intro row hrow
  rcases hp row with h | h
  · exact h
  · rw [(List.mem_filter.mp hrow).2] at h
    cases h

/-- The headers that are sent are those a script was shown. -/
theorem sentHeaders_leftAlone (rows : List Row) :
    sentHeaders (scriptRows (namedPairs rows)) = sentHeaders rows := by
  have htrim : trim ([] : Text) = [] := rfl
  rw [sentHeaders, filter_scriptRows_namedPairs, List.map_map, List.filter_filter]
  · rw [sentHeaders]
    congr 1
    apply List.filter_congr
    intro row _
    by_cases hkey : row.key = []
    · simp [hkey, htrim]
    · simp +contextual [hkey]
  · intro row
    cases henabled : row.enabled <;> simp

theorem mode_leftAlone : (leftAlone P content).body.mode = content.body.mode := by
  cases hmode : content.body.mode <;>
    simp [leftAlone, withScriptRequest, scriptRequestOf, hmode]

/-- The fields that come back. -/
theorem urlencoded_leftAlone (hmode : content.body.mode = .urlencoded) :
    (leftAlone P content).body.urlencoded =
      some (scriptRows (namedPairs (content.body.urlencoded.getD []))) := by
  simp [leftAlone, withScriptRequest, scriptRequestOf, hmode]

/-- A body that is neither a text nor fields is not touched, and no GraphQL body is. -/
theorem body_leftAlone_of_untouched (hraw : content.body.mode ≠ .raw)
    (hurlencoded : content.body.mode ≠ .urlencoded) :
    (leftAlone P content).body = content.body := by
  cases h : content.body.mode with
  | raw => exact absurd h hraw
  | urlencoded => exact absurd h hurlencoded
  | graphql => simp [leftAlone, withScriptRequest, scriptRequestOf, h]
  | none => simp [leftAlone, withScriptRequest, scriptRequestOf, h]
  | multipart => simp [leftAlone, withScriptRequest, scriptRequestOf, h]
  | binary => simp [leftAlone, withScriptRequest, scriptRequestOf, h]

/-- A body of another kind comes back with the texts it had. -/
theorem bodyTexts_leftAlone (hmode : content.body.mode ≠ .urlencoded) :
    bodyTexts (leftAlone P content).body = bodyTexts content.body := by
  by_cases hraw : content.body.mode = .raw
  · simp [leftAlone, withScriptRequest, scriptRequestOf, hraw, bodyTexts]
  · rw [body_leftAlone_of_untouched hraw hmode]

/-- Where every field that is on has a name, the fields that are sent come back. -/
theorem resolveBody_leftAlone (r : Resolver)
    (hnamed : content.body.mode = .urlencoded → ∀ row ∈ content.body.urlencoded.getD [],
      row.enabled = true → row.key ≠ []) :
    resolveBody P (leftAlone P content).body r context =
      resolveBody P content.body r context := by
  by_cases hmode : content.body.mode = .urlencoded
  · have hrows : (scriptRows (namedPairs (content.body.urlencoded.getD []))).filter Row.enabled =
        ((content.body.urlencoded.getD []).filter Row.enabled).map
          fun row => { key := row.key, value := row.value, enabled := true } := by
      rw [filter_scriptRows_namedPairs, List.filter_filter]
      · congr 1
        apply List.filter_congr
        intro row hrow
        cases henabled : row.enabled with
        | false => rfl
        | true => simp [hnamed hmode row hrow henabled]
      · intro row
        cases henabled : row.enabled <;> simp
    simp only [resolveBody, mode_leftAlone, hmode, urlencoded_leftAlone hmode, Option.getD_some,
      hrows, List.mapM_map]
    rfl
  · by_cases hraw : content.body.mode = .raw
    · simp [leftAlone, withScriptRequest, scriptRequestOf, hraw, resolveBody]
    · rw [body_leftAlone_of_untouched hraw hmode]

/-- What a build asks for after the script it asked for before. -/
theorem mem_probeTexts_of_leftAlone {ancestors : List Ancestor} {t : Text}
    (h : t ∈ probeTexts (leftAlone P content) ancestors) : t ∈ probeTexts content ancestors := by
  rcases List.mem_append.mp h with h | h
  · refine List.mem_append_left _ ?_
    rcases List.mem_cons.mp h with h | h
    · rw [h]
      exact List.mem_cons_self
    · refine List.mem_cons_of_mem _ ?_
      rcases List.mem_append.mp h with h | h
      · refine List.mem_append_left _ ?_
        have hheaders : sentHeaders (leftAlone P content).headers = sentHeaders content.headers :=
          sentHeaders_leftAlone content.headers
        rwa [hheaders] at h
      · refine List.mem_append_right _ ?_
        by_cases hmode : content.body.mode = .urlencoded
        · rw [bodyTexts, mode_leftAlone, hmode, urlencoded_leftAlone hmode] at h
          rw [bodyTexts, hmode]
          obtain ⟨row, hrow, ht⟩ := List.mem_flatMap.mp h
          obtain ⟨pair, hpair, rfl⟩ := List.mem_map.mp hrow
          obtain ⟨given, hgiven, rfl⟩ := List.mem_map.mp hpair
          exact List.mem_flatMap.mpr ⟨given, List.mem_of_mem_filter hgiven, ht⟩
        · rwa [bodyTexts_leftAlone hmode] at h
  · exact List.mem_append_right _ h

theorem checked_leftAlone (r : Resolver)
    (hnamed : content.body.mode = .urlencoded → isBodyMethod content.method = true →
      ∀ row ∈ content.body.urlencoded.getD [], row.enabled = true → row.key ≠ []) :
    checked P (leftAlone P content) r context = checked P content r context := by
  have hheaders := sentHeaders_leftAlone content.headers
  refine checked_congr (a := leftAlone P content) (b := content) rfl rfl hheaders rfl
    mode_leftAlone ?_
  intro hmethod
  exact resolveBody_leftAlone r fun hmode => hnamed hmode hmethod

end LeftAlone

/-! ## What the rows that are left out do -/

section LeftOut

variable (P : Platform) (content : RequestContent) (context : BuildContext) (desk : BuildDesk)

/-- The first text of a request that nests. -/
def firstNesting (content : RequestContent) : Option VariableNestingError :=
  (probeTexts content context.ancestors).findSome? (desk.without context 0).nestingOf

/-- A text of the request, or of the auth it is sent with, asks for a secret. -/
def AsksSecret (content : RequestContent) (id : Text) : Prop :=
  ∃ t ∈ probeTexts content context.ancestors, Refers (desk.without context 0) t id

/-- Every field that is sent has a name. -/
def AllNamed : Prop :=
  content.body.mode = .urlencoded → isBodyMethod content.method = true →
    ∀ row ∈ content.body.urlencoded.getD [], row.enabled = true → row.key ≠ []

/-- Secrets may be read for the request: its host is no new one or the user says yes, and the vault
can be read. -/
def MayRead : Prop :=
  (match desk.comparison P content context with
    | .refused _ => False
    | .clear _ => True
    | .ask home away => desk.askHost home away = true) ∧
    ∃ vault, desk.vault = .ok vault

/-- Where only rows that are left out ask for secrets, secrets may be read. -/
def ReadsAnyway : Prop :=
  (∃ id, AsksSecret context desk content id) →
    (∀ id, ¬ AsksSecret context desk (leftAlone P content) id) → MayRead P content context desk

/-- The header of the auth, its fields filled in, asks for no secret of the vault that only rows
that are left out ask for. -/
def HeadersApart : Prop :=
  ∀ vault, desk.vault = .ok vault → ∀ headers f,
    (authHeadersOf P (leftAlone P content) (Resolver.new context.scopes vault (desk.dynamic 3))
      context).run {} = .ok (headers, f) →
    ∀ header ∈ headers, ∀ id,
      Refers (desk.without context 0) header.1 id ∨ Refers (desk.without context 0) header.2 id →
      AsksSecret context desk content id →
      AsksSecret context desk (leftAlone P content) id ∨ vault id = none

/-- The rows that a script is not shown are not missed: none is the first to nest, and where nothing
nests, all that are sent have a name, and none asks for a secret that matters. -/
structure NoneMissed : Prop where
  nests : firstNesting context desk content = firstNesting context desk (leftAlone P content)
  named : firstNesting context desk content = none → AllNamed content
  reads : firstNesting context desk content = none → ReadsAnyway P content context desk
  apart : firstNesting context desk content = none → HeadersApart P content context desk

end LeftOut

/-! ## Building with and without them -/

/-- What a text asks for depends on the scopes alone. -/
theorem refers_new_iff {stack : ScopeStack} {secret secret' : Text → Option Text}
    {dynamic dynamic' : Nat → Text → Text} {t id : Text} :
    Refers (Resolver.new stack secret dynamic) t id ↔
      Refers (Resolver.new stack secret' dynamic') t id := by
  rw [@Resolver.refers_iff_reached _ _ _ _ _ [], @Resolver.refers_iff_reached _ _ _ _ _ []]

theorem vaultRead_of_mem {ids : List Text} {vault : Text → Option Text} {id : Text} (h : id ∈ ids) :
    vaultRead ids vault id = vault id :=
  if_pos (List.contains_iff_mem.mpr h)

theorem vaultRead_of_not_mem {ids : List Text} {vault : Text → Option Text} {id : Text}
    (h : id ∉ ids) : vaultRead ids vault id = none :=
  if_neg fun hmem => h (List.contains_iff_mem.mp hmem)

theorem vaultRead_of_none {ids : List Text} {vault : Text → Option Text} {id : Text}
    (h : vault id = none) : vaultRead ids vault id = none := by
  rw [vaultRead, h, ite_self]

section Outcome

variable {P : Platform} {content : RequestContent} {context : BuildContext} {desk : BuildDesk}

theorem buildRequest_of_nesting {e : VariableNestingError}
    (h : firstNesting context desk content = some e) :
    buildRequest P content context desk = .error (.nesting e) := by
  rw [buildRequest, probeSecrets_eq_error_iff.mpr h]

/-- Where nothing nests the probe finds the secrets that are asked for. -/
theorem exists_probeSecrets (h : firstNesting context desk content = none) :
    ∃ ids, probeSecrets content context.ancestors (desk.without context 0) = .ok ids ∧
      ∀ id, id ∈ ids ↔ AsksSecret context desk content id := by
  cases hprobe : probeSecrets content context.ancestors (desk.without context 0) with
  | error e =>
      have hnest : firstNesting context desk content = some e := probeSecrets_eq_error_iff.mp hprobe
      rw [h] at hnest
      cases hnest
  | ok ids => exact ⟨ids, rfl, fun id => mem_probeSecrets_iff hprobe id⟩

theorem buildRequest_of_none {ids : List Text}
    (hprobe : probeSecrets content context.ancestors (desk.without context 0) = .ok ids)
    (h : ids = []) : buildRequest P content context desk =
      (checked P content (desk.without context 3) context).map (Draft.request P) := by
  subst h
  rw [buildRequest, hprobe]

theorem buildRequest_of_asks {ids : List Text}
    (hprobe : probeSecrets content context.ancestors (desk.without context 0) = .ok ids)
    (h : ids ≠ []) : buildRequest P content context desk =
      match desk.comparison P content context with
      | .refused error => .error (.nesting error)
      | .clear _ => buildWith P content context desk ids
      | .ask home away =>
          if desk.askHost home away then buildWith P content context desk ids
          else .error (.declined hostDeclined) := by
  rw [buildRequest, hprobe]
  cases ids with
  | nil => exact absurd rfl h
  | cons id ids => rfl

/-- Where secrets may be read, they are. -/
theorem buildRequest_of_mayRead {ids : List Text} (hmay : MayRead P content context desk)
    (hprobe : probeSecrets content context.ancestors (desk.without context 0) = .ok ids)
    (h : ids ≠ []) :
    buildRequest P content context desk = buildWith P content context desk ids := by
  rw [buildRequest_of_asks hprobe h]
  obtain ⟨hcomparison, -⟩ := hmay
  split at hcomparison
  · exact hcomparison.elim
  · rfl
  · simp only [hcomparison, if_true]

theorem buildWith_of_vault {ids : List Text} {vault : Text → Option Text}
    (h : desk.vault = .ok vault) : buildWith P content context desk ids =
      (checked P content (Resolver.new context.scopes (vaultRead ids vault) (desk.dynamic 3))
        context).map (Draft.request P) := by
  rw [buildWith, h]
  rfl

theorem buildWith_of_locked {ids : List Text} {e : SendError} (h : desk.vault = .error e) :
    buildWith P content context desk ids = .error e := by
  rw [buildWith, h]
  rfl

/-- A request that was left alone is built alike with the secrets that it asks for and with those
that the rows left out ask for too. -/
theorem checked_leftAlone_vault {vault : Text → Option Text} {ids ids' : List Text}
    (hvault : desk.vault = .ok vault) (hapart : HeadersApart P content context desk)
    (hids : ∀ id, id ∈ ids ↔ AsksSecret context desk content id)
    (hids' : ∀ id, id ∈ ids' ↔ AsksSecret context desk (leftAlone P content) id) :
    checked P (leftAlone P content) (Resolver.new context.scopes (vaultRead ids vault)
        (desk.dynamic 3)) context =
      checked P (leftAlone P content) (Resolver.new context.scopes (vaultRead ids' vault)
        (desk.dynamic 3)) context := by
  have hsub : ∀ id, id ∈ ids' → id ∈ ids := by
    intro id hid
    obtain ⟨t, ht, hrefers⟩ := (hids' id).mp hid
    exact (hids id).mpr ⟨t, mem_probeTexts_of_leftAlone ht, hrefers⟩
  let r := Resolver.new context.scopes (vaultRead ids' vault) (desk.dynamic 3)
  have hasked : ∀ t ∈ probeTexts (leftAlone P content) context.ancestors, ∀ id,
      Refers r t id → id ∈ ids' :=
    fun t ht id hrefers => (hids' id).mpr ⟨t, ht, refers_new_iff.mp hrefers⟩
  have hfull : authHeadersOf P (leftAlone P content) (r.withVault vault) context =
      authHeadersOf P (leftAlone P content) r context :=
    authHeadersOf_agree fun t ht id hrefers => (vaultRead_of_mem (hasked t ht id hrefers)).symm
  have hagree : checked P (leftAlone P content) (r.withVault (vaultRead ids vault)) context =
      checked P (leftAlone P content) r context := by
    refine checked_agree ?_ ?_
    · intro t ht id hrefers
      have hmem := hasked t ht id hrefers
      exact (vaultRead_of_mem (hsub id hmem)).trans (vaultRead_of_mem hmem).symm
    · intro headers f hrun header hheader id hrefers
      -- The header of the auth is the same with all that the vault gives.
      rw [← hfull] at hrun
      by_cases hcontent : AsksSecret context desk content id
      · rcases hapart vault hvault headers f hrun header hheader id
          (hrefers.imp refers_new_iff.mp refers_new_iff.mp) hcontent with hleft | hnone
        · have hmem := (hids' id).mpr hleft
          exact (vaultRead_of_mem (hsub id hmem)).trans (vaultRead_of_mem hmem).symm
        · exact (vaultRead_of_none hnone).trans (vaultRead_of_none hnone).symm
      · have hout : id ∉ ids := fun hmem => hcontent ((hids id).mp hmem)
        exact (vaultRead_of_not_mem hout).trans
          (vaultRead_of_not_mem fun hmem => hout (hsub id hmem)).symm
  exact hagree

end Outcome

/-! ## When nothing changes -/

section Nothing

variable {P : Platform} {content : RequestContent} {context : BuildContext} {desk : BuildDesk}

/-- What nothing nests in with all its rows nests nowhere without some of them. -/
theorem firstNesting_leftAlone (h : firstNesting context desk content = none) :
    firstNesting context desk (leftAlone P content) = none := by
  rw [firstNesting, List.findSome?_eq_none_iff] at h ⊢
  exact fun t ht => h t (mem_probeTexts_of_leftAlone ht)

theorem buildWith_leftAlone {ids ids' : List Text} (hnamed : AllNamed content)
    (hapart : HeadersApart P content context desk)
    (hids : ∀ id, id ∈ ids ↔ AsksSecret context desk content id)
    (hids' : ∀ id, id ∈ ids' ↔ AsksSecret context desk (leftAlone P content) id) :
    buildWith P (leftAlone P content) context desk ids' =
      buildWith P content context desk ids := by
  cases hvault : desk.vault with
  | error e => exact (buildWith_of_locked hvault).trans (buildWith_of_locked hvault).symm
  | ok vault =>
      refine (buildWith_of_vault hvault).trans (Eq.trans ?_ (buildWith_of_vault hvault).symm)
      rw [← checked_leftAlone_vault hvault hapart hids hids', checked_leftAlone _ hnamed]

theorem buildRequest_leftAlone (h : NoneMissed P content context desk) :
    buildRequest P (leftAlone P content) context desk = buildRequest P content context desk := by
  cases hnest : firstNesting context desk content with
  | some e =>
      rw [buildRequest_of_nesting hnest, buildRequest_of_nesting (h.nests ▸ hnest)]
  | none =>
      obtain ⟨ids, hprobe, hids⟩ := exists_probeSecrets hnest
      obtain ⟨ids', hprobe', hids'⟩ := exists_probeSecrets (firstNesting_leftAlone (P := P) hnest)
      have hsame := fun r => @checked_leftAlone P content context r (h.named hnest)
      have hsub : ∀ id, id ∈ ids' → id ∈ ids := by
        intro id hid
        obtain ⟨t, ht, hrefers⟩ := (hids' id).mp hid
        exact (hids id).mpr ⟨t, mem_probeTexts_of_leftAlone ht, hrefers⟩
      by_cases hempty : ids = []
      · have hempty' : ids' = [] := by
          rw [List.eq_nil_iff_forall_not_mem]
          intro id hid
          rw [hempty] at hsub
          cases hsub id hid
        rw [buildRequest_of_none hprobe hempty, buildRequest_of_none hprobe' hempty', hsame]
      · by_cases hempty' : ids' = []
        · -- Only rows that are left out ask for secrets.
          have hmay : MayRead P content context desk := by
            obtain ⟨id, hid⟩ := List.exists_mem_of_ne_nil ids hempty
            refine h.reads hnest ⟨id, (hids id).mp hid⟩ fun id hid => ?_
            have hmem := (hids' id).mpr hid
            rw [hempty'] at hmem
            cases hmem
          obtain ⟨vault, hvault⟩ := hmay.2
          have hchecked := checked_leftAlone_vault hvault (h.apart hnest) hids hids'
          have hnone : Resolver.new context.scopes (vaultRead ids' vault) (desk.dynamic 3) =
              desk.without context 3 := by
            rw [hempty']
            rfl
          rw [buildRequest_of_none hprobe' hempty', buildRequest_of_mayRead hmay hprobe hempty,
            buildWith_of_vault hvault, ← hsame, hchecked, hnone]
        · have hwith := buildWith_leftAlone (h.named hnest) (h.apart hnest) hids hids'
          have hcomparison : desk.comparison P (leftAlone P content) context =
              desk.comparison P content context := rfl
          rw [buildRequest_of_asks hprobe hempty, buildRequest_of_asks hprobe' hempty', hwith,
            hcomparison]

/-- A request that is built is built by some resolver. -/
theorem exists_checked_of_buildRequest {request : BuiltRequest}
    (h : buildRequest P content context desk = .ok request) :
    ∃ r draft, checked P content r context = .ok draft ∧ request = draft.request P := by
  have hmap : ∀ r, (checked P content r context).map (Draft.request P) = .ok request →
      ∃ r draft, checked P content r context = .ok draft ∧ request = draft.request P := by
    intro r hr
    cases hchecked : checked P content r context with
    | error e =>
        rw [hchecked] at hr
        cases hr
    | ok draft =>
        rw [hchecked] at hr
        cases hr
        exact ⟨r, draft, hchecked, rfl⟩
  have hwith : ∀ ids, buildWith P content context desk ids = .ok request →
      ∃ r draft, checked P content r context = .ok draft ∧ request = draft.request P := by
    intro ids hids
    cases hvault : desk.vault with
    | error e =>
        rw [buildWith_of_locked hvault] at hids
        cases hids
    | ok vault =>
        rw [buildWith_of_vault hvault] at hids
        exact hmap _ hids
  rw [buildRequest] at h
  split at h
  · cases h
  · exact hmap _ h
  · split at h
    · cases h
    · exact hwith _ h
    · split_ifs at h
      exact hwith _ h

/-- The fields of a form that is sent are as many as its rows that are on. -/
theorem exists_fields_of_checked {r : Resolver} {draft : Draft}
    (h : checked P content r context = .ok draft) (hmode : content.body.mode = .urlencoded)
    (hmethod : isBodyMethod content.method = true) :
    ∃ pairs, pairs.length = ((content.body.urlencoded.getD []).filter Row.enabled).length ∧
      (draft.request P).body = some (.text (formSerialize pairs)) := by
  obtain ⟨auth, f₁, body, f₂, token, f₃, -, hbody, -, hrest⟩ :=
    resolveRequest_cases (resolveRequest_of_checked h)
  obtain ⟨f₄, rows, f₅, again, f₆, -, -, -, -, -, hparts⟩ := resolveRest_cases hrest
  rw [if_pos hmethod] at hbody
  have honce := bodyOnce_of_run hbody
  rw [BodyOnce, hmode] at honce
  obtain ⟨pairs, hpairs, rfl⟩ := honce
  refine ⟨pairs, hpairs.length_eq.symm, ?_⟩
  rw [Draft.request_body, hparts]
  rfl

/-- A form of more fields is another text. -/
theorem length_eq_of_formSerialize_eq {pairs pairs' : List (Text × Text)}
    (h : formSerialize pairs = formSerialize pairs') : pairs.length = pairs'.length := by
  have hread := congrArg (fun t => (searchParams t).length) h
  simpa only [searchParams_formSerialize, List.length_map] using hread

/-- A request that goes out as it would have without the script sends no field without a name. -/
theorem allNamed_of_sameOutcome {request request' : BuiltRequest}
    (hleft : buildRequest P (leftAlone P content) context desk = .ok request)
    (hcontent : buildRequest P content context desk = .ok request')
    (hbody : request.body = request'.body) : AllNamed content := by
  intro hmode hmethod row hrow henabled hkey
  obtain ⟨r, draft, hchecked, rfl⟩ := exists_checked_of_buildRequest hleft
  obtain ⟨r', draft', hchecked', rfl⟩ := exists_checked_of_buildRequest hcontent
  obtain ⟨pairs, hlength, hsent⟩ :=
    exists_fields_of_checked hchecked (mode_leftAlone.trans hmode) hmethod
  obtain ⟨pairs', hlength', hsent'⟩ := exists_fields_of_checked hchecked' hmode hmethod
  rw [hsent, hsent'] at hbody
  have hforms := length_eq_of_formSerialize_eq (WireBody.text.inj (Option.some.inj hbody))
  have hfewer : ((scriptRows (namedPairs (content.body.urlencoded.getD []))).filter
      Row.enabled).length < ((content.body.urlencoded.getD []).filter Row.enabled).length := by
    refine lt_of_le_of_lt (List.length_filter_le _ _) ?_
    rw [scriptRows, namedPairs, List.length_map, List.length_map]
    -- The row without a name is on and is not among those a script is shown.
    have hsplit :
        (content.body.urlencoded.getD []).filter (fun row => row.enabled && row.key ≠ []) =
        ((content.body.urlencoded.getD []).filter Row.enabled).filter fun row => row.key ≠ [] := by
      rw [List.filter_filter]
      exact List.filter_congr fun row _ => Bool.and_comm _ _
    rw [hsplit]
    apply List.length_filter_lt_length_iff_exists.mpr
    exact ⟨row, List.mem_filter.mpr ⟨hrow, henabled⟩, by simp [hkey]⟩
  rw [urlencoded_leftAlone hmode, Option.getD_some] at hlength
  omega

end Nothing

/-- A script that leaves a request as it was given changes nothing of what is sent where the rows it
is not shown are not missed; and where the request goes out the same, nothing nests, every field has
a name and, where only rows that are left out ask for secrets, secrets may be read. -/
theorem scriptView_changes_nothing (P : Platform) (content : RequestContent)
    (context : BuildContext) (desk : BuildDesk) :
    (NoneMissed P content context desk →
      SameOutcome (buildRequest P (leftAlone P content) context desk)
        (buildRequest P content context desk)) ∧
    ∀ request, buildRequest P (leftAlone P content) context desk = .ok request →
      SameOutcome (buildRequest P (leftAlone P content) context desk)
        (buildRequest P content context desk) →
      firstNesting context desk content = none ∧ AllNamed content ∧
        ReadsAnyway P content context desk := by
  constructor
  · intro h
    -- Nothing is missed: the request a script left alone is built as the stored one.
    rw [buildRequest_leftAlone h]
    exact SameOutcome.refl _
  · intro request hleft hsame
    rw [hleft] at hsame
    cases hcontent : buildRequest P content context desk with
    | error e =>
        rw [hcontent] at hsame
        exact hsame.elim
    | ok request' =>
        rw [hcontent] at hsame
        -- A text that nests too deep stops both builds, and one of the two went on.
        have hnest : firstNesting context desk content = none := by
          rw [Option.eq_none_iff_forall_ne_some]
          intro e hsome
          rw [buildRequest_of_nesting hsome] at hcontent
          cases hcontent
        refine ⟨hnest, allNamed_of_sameOutcome hleft hcontent hsame.2.2.2, ?_⟩
        rintro ⟨id, hid⟩ -
        -- The build asks for the secrets its texts name, so this one was let through.
        obtain ⟨ids, hprobe, hids⟩ := exists_probeSecrets hnest
        have hmem := (hids id).mpr hid
        rw [buildRequest_of_asks hprobe (List.ne_nil_of_mem hmem)] at hcontent
        have hvault : buildWith P content context desk ids = .ok request' →
            ∃ vault, desk.vault = .ok vault := by
          intro hwith
          cases hvault : desk.vault with
          | error e =>
              rw [buildWith_of_locked hvault] at hwith
              cases hwith
          | ok vault => exact ⟨vault, rfl⟩
        rw [MayRead]
        split at hcontent
        · cases hcontent
        · exact ⟨trivial, hvault hcontent⟩
        · split_ifs at hcontent with hyes
          exact ⟨hyes, hvault hcontent⟩

/-! ## Two forms -/

/-- A form that is posted to one address. -/
def formRequest (rows : List Row) : RequestContent where
  method := units "POST"
  url := units "https://api.test/"
  headers := []
  body := { mode := .urlencoded, urlencoded := some rows }
  auth := .none

/-- Nobody to ask, and a vault with nothing in it. -/
def bareDesk : BuildDesk where
  vault := .ok fun _ => none
  composed := none
  accepted := []
  askHost _ _ := false
  dynamic _ _ _ := []

/-- A field that is on and one that is off. -/
def namedForm : RequestContent :=
  formRequest [{ key := units "a", value := units "1", enabled := true },
    { key := units "b", value := units "2", enabled := false }]

/-- A field that has a value and no name. -/
def namelessForm : RequestContent :=
  formRequest [{ key := [], value := units "v", enabled := true }]

/-- The form with a field that is off goes out as it would have. -/
theorem namedForm_unchanged :
    SameOutcome
      (buildRequest plainPlatform (leftAlone plainPlatform namedForm) loneContext bareDesk)
      (buildRequest plainPlatform namedForm loneContext bareDesk) := by
  refine (scriptView_changes_nothing plainPlatform namedForm loneContext bareDesk).1 ?_
  have hprobe : probeSecrets namedForm loneContext.ancestors (bareDesk.without loneContext 0) =
      .ok [] := by decide +kernel
  have hnone : ∀ id, ¬ AsksSecret loneContext bareDesk namedForm id := by
    intro id hasks
    have hmem := (mem_probeSecrets_iff hprobe id).mpr hasks
    cases hmem
  constructor
  · decide +kernel
  · intro _ _ _
    decide
  · rintro _ ⟨id, hid⟩
    exact absurd hid (hnone id)
  · intro _ vault _ headers f _ header _ id _ hid
    exact absurd hid (hnone id)

/-- The form whose field has no name loses the field: the server is sent nothing. -/
theorem namelessForm_changed :
    ¬ SameOutcome
      (buildRequest plainPlatform (leftAlone plainPlatform namelessForm) loneContext bareDesk)
      (buildRequest plainPlatform namelessForm loneContext bareDesk) := by
  have hleft : ((buildRequest plainPlatform (leftAlone plainPlatform namelessForm) loneContext
      bareDesk).toOption.map BuiltRequest.body) = some (some (.text [])) := by decide +kernel
  have hcontent : ((buildRequest plainPlatform namelessForm loneContext bareDesk).toOption.map
      BuiltRequest.body) = some (some (.text (units "=v"))) := by decide +kernel
  intro hsame
  cases hl :
    buildRequest plainPlatform (leftAlone plainPlatform namelessForm) loneContext bareDesk with
  | error e =>
      rw [hl] at hleft
      cases hleft
  | ok request =>
      cases hc : buildRequest plainPlatform namelessForm loneContext bareDesk with
      | error e =>
          rw [hc] at hcontent
          cases hcontent
      | ok request' =>
          rw [hl] at hleft hsame
          rw [hc] at hcontent hsame
          have hbody := hsame.2.2.2
          rw [Option.some.inj hleft, Option.some.inj hcontent] at hbody
          cases hbody

end Wayfarer
