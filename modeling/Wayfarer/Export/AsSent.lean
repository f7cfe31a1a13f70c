import Wayfarer.Export.Request
import Wayfarer.Send.BuildRequest
import Wayfarer.Variables.Undrawn

/-!
# What is copied is what is sent

A copy of a draft is made beside the road a send takes: `exportBody` resolves the body and
`exportType` says its `Content-Type`, where a send has `resolveBody`. `carries_exportBody` says that
whatever body a send comes to, the copy comes to the one that goes with it (`CopiedBody`), and
`carries_resolveRest` that both put the rest of the request together alike. They differ in a file
body alone: a send has the file, and a copy its name (`copied_asSent_iff`).
-/

set_option autoImplicit false

namespace Wayfarer

open Library

/-! ## The body that is sent -/

/-- A part of a form that is sent, a file by its name. -/
def partByName (entry : Text × FormValue) : ExportPart where
  name := entry.1
  value := match entry.2 with
    | .text value => .text value
    | .file name _ => .file name

/-- The body that is sent, a file by its name: that of a file body is the one
the draft has it by. -/
def sentByName (body : RequestBody) : Option WireBody → ExportWire
  | none => .text []
  | some (.text t) => .text t
  | some (.form entries) => .form (entries.map partByName)
  | some (.file _) => .file ((body.binary.map fun binary => binary.ref.fileName).getD [])

/-- A part as a form takes it, lone surrogates replaced. -/
def ExportPart.taken (part : ExportPart) : ExportPart where
  name := scrub part.name
  value := match part.value with
    | .text value => .text (scrub value)
    | .file fileName => .file (scrub fileName)

/-- An exported body written as its mode says. -/
def ExportBody.written : ExportBody → ExportWire
  | .multipart parts => .form (parts.map ExportPart.taken)
  | body => body.wire

/-- A copied request says what is sent. -/
structure SaysSent (body : RequestBody) (sent : BuiltRequest) (copied : ExportRequest) : Prop where
  method : copied.method = sent.method
  url : copied.url = sent.url
  headers : copied.headers = sent.headers
  body : copied.body.written = sentByName body sent.body

/-- What is copied of a draft says what is sent of it. Without an address there
is nothing to copy. -/
def CopiedAsSent (P : Platform) (content : RequestContent) (r : Resolver)
    (ancestors : List Ancestor) (lastEventId : Option Text) (sent : BuiltRequest) : Prop :=
  match (exportSource P content r ancestors lastEventId).run {} with
  | .ok (none, _) => content.url = []
  | .ok (some copied, _) => SaysSent content.body sent copied
  | .error _ => False

/-! ## The drafts -/

/-- A header of the draft as it is before its variables are replaced: a row's, or the one that the
auth comes to, whose variables are replaced once more. -/
def HasHeader (content : RequestContent) (ancestors : List Ancestor) (stack : ScopeStack)
    (header : Text × Text) : Prop :=
  header ∈ sentHeaders content.headers ∨
    ∃ auth, CanGive (resolveAuth (Resolver.new stack).resolve
      (effectiveAuth content.auth ancestors)) auth ∧ header ∈ buildAuthHeaders auth

/-- A draft without vault secrets, dynamic variables, OAuth 2.0 and AWS auth: it comes to the same
each time its variables are replaced. -/
structure Repeatable (content : RequestContent) (ancestors : List Ancestor) (stack : ScopeStack) :
    Prop where
  secrets : ∀ t ∈ probeTexts content ancestors, ¬ ReachesSecret stack t
  drawn : ∀ t ∈ probeTexts content ancestors, ¬ Draws stack t
  headers : ∀ header, HasHeader content ancestors stack header →
    ¬ Draws stack header.1 ∧ ¬ Draws stack header.2
  oauth2 : ∀ auth, effectiveAuth content.auth ancestors ≠ .oauth2 auth
  awsv4 : ∀ auth, effectiveAuth content.auth ancestors ≠ .awsv4 auth

/-- A header of the draft is named `Content-Type`. -/
def NamesOwnType (P : Platform) (content : RequestContent) (ancestors : List Ancestor)
    (stack : ScopeStack) : Prop :=
  ∃ header name, HasHeader content ancestors stack header ∧
    CanGive ((Resolver.new stack).resolve header.1) name ∧
    P.toLowerCase name = units "content-type"

/-- The file of a file body has a name, and a type that can be said without the file: the draft says
it, or a header does, or the file is of no type or the one that stands for any. -/
def FileSaid (P : Platform) (content : RequestContent) (context : BuildContext) : Prop :=
  isBodyMethod content.method = true → content.body.mode = .binary →
    ∀ binary ∈ content.body.binary, binary.ref.fileName ≠ [] ∧
      (binary.contentType.getD [] ≠ [] ∨
        NamesOwnType P content context.ancestors context.scopes ∨
        ∀ file, context.readFile binary.ref = .ok file →
          file.type = [] ∨ file.type = units "application/octet-stream")

/-! ## Carrying over -/

section Lift

variable {ε' α β : Type} {R : α → β → Prop}

theorem carries_liftResolve_left {x : Resolve α} {y : StateT Findings (Except ε') β}
    (h : Carries R x y) : Carries R (liftResolve x) y :=
  fun a ha => h a (canGive_of_liftResolve ha)

theorem carries_liftResolve_right {x : StateT Findings (Except ε') α} {y : Resolve β}
    (h : Carries R x y) : Carries R x (liftResolve y) := by
  intro a ha
  obtain ⟨b, hR, hb⟩ := h a ha
  exact ⟨b, hR, gives_liftResolve hb⟩

end Lift

/-! ## The body -/

section Body

variable {P : Platform} {r r' : Resolver} {body : RequestBody} {context : BuildContext}

/-- The copy of a body says the body that is sent, and its type. -/
structure CopiedBody (body : RequestBody) (sent : Option ResolvedBody) (copied : ExportBody) :
    Prop where
  written : copied.written = sentByName body (sent.map ResolvedBody.data)
  type : exportType body copied = sent.bind ResolvedBody.contentType

/-- The type a file body is sent with. -/
def fileType (binary : BinaryBody) (file : Blob) : Text :=
  let named := binary.contentType.getD []
  if named ≠ [] then named
  else if file.type ≠ [] then file.type else units "application/octet-stream"

/-- A file body is copied by its name, and sent as the file. -/
def CopiedFile (body : RequestBody) (context : BuildContext) (sent : Option ResolvedBody)
    (copied : ExportBody) : Prop :=
  ∃ binary file, body.binary = some binary ∧ context.readFile binary.ref = .ok file ∧
    sent = some (.binary file (fileType binary file)) ∧ copied = .binary binary.ref.fileName

/-- The text of an object is not empty. -/
theorem stringify_object_ne_nil (members : List (Text × Json)) :
    (Json.object members).stringify ≠ [] := by
  intro h
  rw [Json.stringify, Json.pieces, List.cons_append, List.flatMap_cons, List.append_eq_nil_iff] at h
  exact absurd h.1 (by decide)

/-- Variables that can be read for a send are read alike for a copy. -/
theorem graphqlText_of_canGive {query text : Text} {values : Option Json}
    (h : CanGive (graphqlValues P text) values) :
    graphqlText P query text = (graphqlJson query values).stringify := by
  obtain ⟨f, f', hrun⟩ := h
  have hstart : ∃ g, (graphqlValues P text).run {} = .ok (values, g) := by
    rw [graphqlValues] at hrun ⊢
    split_ifs at hrun ⊢
    · cases hrun
      exact ⟨_, rfl⟩
    · split at hrun
      · cases hrun
      · cases hrun
        exact ⟨_, rfl⟩
      · cases hrun
  obtain ⟨g, hg⟩ := hstart
  rw [graphqlText, hg]

/-- A raw body that resolves to a text is written as one. -/
theorem bodyContentType_raw (hmode : body.mode = .raw) {raw : RawBody} (hraw : body.raw = some raw)
    (htext : raw.text ≠ []) : bodyContentType body = some (rawContentTypes raw.language) := by
  rw [bodyContentType, hmode, hraw]
  exact if_pos htext

/-- A part of a form and its copy. -/
def CopiedPart (sent : ResolvedPart) (copied : ExportPart) : Prop :=
  partByName sent.entry = copied.taken

/-- The parts of a form, in order, are copied as the form takes them. -/
theorem map_taken {parts : List ResolvedPart} {copies : List ExportPart}
    (h : List.Forall₂ CopiedPart parts copies) :
    copies.map ExportPart.taken = (parts.map ResolvedPart.entry).map partByName := by
  induction h with
  | nil => rfl
  | cons hfirst _ ih => rw [List.map_cons, List.map_cons, List.map_cons, ih, hfirst]

section Modes

variable (htexts : ∀ t ∈ bodyTexts body, Carries Eq (r.resolve t) (r'.resolve t))

include htexts

theorem carries_raw (hmode : body.mode = .raw) :
    Carries (CopiedBody body) (resolveBody P body r context) (do
      return .raw (← r'.resolve ((body.raw.map RawBody.text).getD [])) : Resolve ExportBody) := by
  simp only [resolveBody, hmode]
  apply carries_bind_eq (carries_liftResolve_left (htexts _ (by simp [bodyTexts, hmode])))
  intro t ht
  by_cases hempty : t = []
  · rw [if_pos hempty, hempty]
    exact carries_pure ⟨rfl, rfl⟩
  · rw [if_neg hempty]
    apply carries_pure
    obtain ⟨f, f', hrun⟩ := canGive_of_liftResolve ht
    -- A text that comes to something was something before.
    cases hraw : body.raw with
    | none =>
        rw [hraw] at hrun
        have hnil := (Resolver.gives_resolve (Resolver.plain_of_not_mem List.not_mem_nil)).value_eq
          hrun
        exact absurd hnil hempty
    | some raw =>
        have htext : raw.text ≠ [] := by
          intro hnone
          rw [hraw, Option.map_some, Option.getD_some, hnone] at hrun
          have hnil := (Resolver.gives_resolve
            (Resolver.plain_of_not_mem List.not_mem_nil)).value_eq hrun
          exact hempty hnil
        refine ⟨rfl, ?_⟩
        rw [exportType.eq_def]
        split
        · next heq => cases heq
        · next heq => cases heq
        · next heq =>
            cases heq
            exact absurd rfl hempty
        · exact bodyContentType_raw hmode hraw htext

theorem carries_graphql (hmode : body.mode = .graphql) :
    Carries (CopiedBody body) (resolveBody P body r context) (do
      let query ← r'.resolve ((body.graphql.map GraphqlBody.query).getD [])
      let text ← r'.resolve ((body.graphql.map GraphqlBody.variablesText).getD [])
      return .raw (graphqlText P query text) : Resolve ExportBody) := by
  simp only [resolveBody, hmode]
  apply carries_bind_eq (carries_liftResolve_left (htexts _ (by simp [bodyTexts, hmode])))
  intro query _
  apply carries_bind_eq (carries_liftResolve_left (htexts _ (by simp [bodyTexts, hmode])))
  intro text _
  rintro sent ⟨f, f', hrun⟩
  obtain ⟨values, middle, hvalues, hpure⟩ := run_bind_eq_ok.mp hrun
  have hsame := @graphqlText_of_canGive P query text values ⟨f, middle, hvalues⟩
  cases hpure
  refine ⟨_, ⟨?_, ?_⟩, gives_pure _⟩
  · rw [hsame]
    rfl
  · -- The payload is an object, and never empty.
    rw [hsame, exportType.eq_def]
    split
    · next heq => cases heq
    · next heq => cases heq
    · next heq => exact absurd (ExportBody.raw.inj heq) (stringify_object_ne_nil _)
    · rw [bodyContentType, hmode]
      rfl

theorem carries_urlencoded (hmode : body.mode = .urlencoded) :
    Carries (CopiedBody body) (resolveBody P body r context) (do
      let rows := (body.urlencoded.getD []).filter Row.enabled
      return .urlencoded (← rows.mapM fun row => do
        return (← r'.resolve row.key, ← r'.resolve row.value)) : Resolve ExportBody) := by
  simp only [resolveBody, hmode]
  apply carries_bind_eq
  · apply carries_mapM_eq
    intro row hrow
    have hmem : ∀ t ∈ [row.key, row.value], t ∈ bodyTexts body := by
      intro t ht
      simp only [bodyTexts, hmode, List.mem_flatMap]
      exact ⟨row, List.mem_of_mem_filter hrow, ht⟩
    apply carries_bind_eq (carries_liftResolve_left (htexts _ (hmem _ (by simp))))
    intro key _
    apply carries_bind_eq (carries_liftResolve_left (htexts _ (hmem _ (by simp))))
    exact fun _ _ => carries_pure rfl
  · intro pairs _
    apply carries_pure
    refine ⟨rfl, ?_⟩
    rw [exportType.eq_def, bodyContentType, hmode]
    rfl

theorem carries_multipart (hmode : body.mode = .multipart) :
    Carries (CopiedBody body) (resolveBody P body r context) (do
      let items := (body.multipart.getD []).filter MultipartPart.enabled
      return .multipart (← items.mapM fun part => do
        match part.value with
        | .text value =>
            return { name := ← r'.resolve part.key,
                     value := .text (← r'.resolve value) : ExportPart }
        | .file ref => return { name := ← r'.resolve part.key, value := .file ref.fileName }) :
        Resolve ExportBody) := by
  simp only [resolveBody, hmode]
  apply carries_bind (carries_mapM (R := CopiedPart) fun part hpart => ?_)
  · intro parts copies _ hall
    apply carries_pure
    refine ⟨?_, rfl⟩
    show ExportWire.form (copies.map ExportPart.taken) = _
    rw [map_taken hall]
    rfl
  · have hkey : part.key ∈ bodyTexts body := by
      simp only [bodyTexts, hmode, List.mem_flatMap]
      exact ⟨part, List.mem_of_mem_filter hpart, List.mem_cons_self⟩
    cases hvalue : part.value with
    | text value =>
        have htext : value ∈ bodyTexts body := by
          simp only [bodyTexts, hmode, List.mem_flatMap]
          refine ⟨part, List.mem_of_mem_filter hpart, ?_⟩
          simp [hvalue]
        apply carries_bind_eq (carries_liftResolve_left (htexts _ hkey))
        intro key _
        apply carries_bind_eq (carries_liftResolve_left (htexts _ htext))
        exact fun _ _ => carries_pure rfl
    | file ref =>
        apply carries_bind_eq (carries_liftResolve_left (htexts _ hkey))
        rintro key _ sent ⟨f, f', hrun⟩
        obtain ⟨blob, middle, -, hpure⟩ := run_bind_eq_ok.mp hrun
        cases hpure
        exact ⟨{ name := key, value := .file ref.fileName }, rfl, gives_pure _⟩

/-- Whatever body of texts a send comes to, the copy comes to the one that says it. -/
theorem carries_exportBody {method : Text} (hmethod : method ≠ [])
    (hother : ¬ (isBodyMethod method = true ∧ body.mode = .binary)) :
    Carries (CopiedBody body)
      (if isBodyMethod method then resolveBody P body r context
        else pure none : Build (Option ResolvedBody)) (exportBody P body method r') := by
  rw [exportBody]
  by_cases hnone : method = units "GET" ∨ method = units "HEAD"
  · have hmethod' : isBodyMethod method = false := by
      rcases hnone with rfl | rfl <;> rfl
    rw [if_pos hnone, hmethod', if_neg Bool.false_ne_true]
    exact carries_pure ⟨rfl, rfl⟩
  · have hmethod' : isBodyMethod method = true := by
      obtain ⟨hget, hhead⟩ := not_or.mp hnone
      simp [isBodyMethod, hmethod, hget, hhead]
    rw [if_neg hnone, hmethod', if_pos rfl]
    cases hmode : body.mode with
    | none =>
        simp only [resolveBody, hmode]
        exact carries_pure ⟨rfl, rfl⟩
    | raw => exact carries_raw htexts hmode
    | urlencoded => exact carries_urlencoded htexts hmode
    | multipart => exact carries_multipart htexts hmode
    | binary => exact absurd ⟨hmethod', hmode⟩ hother
    | graphql => exact carries_graphql htexts hmode

end Modes

/-- Whatever file a send comes to, the copy comes to its name. -/
theorem carries_exportFile {method : Text} (hmethod : isBodyMethod method = true)
    (hmode : body.mode = .binary) :
    Carries (CopiedFile body context)
      (if isBodyMethod method then resolveBody P body r context
        else pure none : Build (Option ResolvedBody)) (exportBody P body method r') := by
  have hnone : ¬ (method = units "GET" ∨ method = units "HEAD") := by
    rintro (rfl | rfl) <;> cases hmethod
  rw [exportBody, if_neg hnone, hmethod, if_pos rfl]
  simp only [resolveBody, hmode]
  cases hbinary : body.binary with
  | none => exact carries_throw _
  | some binary =>
      rintro sent ⟨f, f', hrun⟩
      obtain ⟨file, middle, hfile, hpure⟩ := run_bind_eq_ok.mp hrun
      cases hpure
      refine ⟨_, ⟨binary, file, hbinary, ?_, rfl, rfl⟩, gives_pure _⟩
      rw [readFileOf] at hfile
      split at hfile
      · next hread =>
          cases hfile
          exact hread
      · cases hfile

end Body

/-! ## The headers -/

section Headers

variable {P : Platform} {rows : OrderedMap Text (Text × Text)}

/-- Headers with the type of a body, where they name none. -/
def withType (rows : OrderedMap Text (Text × Text)) : Option Text → OrderedMap Text (Text × Text)
  | none => rows
  | some type =>
      if type ≠ [] ∧ units "content-type" ∉ rows.keys then
        rows.set (units "content-type") (units "Content-Type", type)
      else rows

/-- The type of the body is all that its headers have of a body. -/
theorem headersByName_eq (parts : ResolvedRequest) :
    parts.headersByName P =
      withType ({ parts with body := none }.headersByName P)
        (parts.body.bind ResolvedBody.contentType) := by
  rw [ResolvedRequest.headersByName]
  cases parts.body.bind ResolvedBody.contentType with
  | none => rfl
  | some type => rfl

/-- Two types make the same headers where they are one, or the headers name theirs. -/
theorem values_withType_iff {type type' : Text} (htype : type ≠ []) (htype' : type' ≠ []) :
    (withType rows (some type)).values = (withType rows (some type')).values ↔
      units "content-type" ∈ rows.keys ∨ type = type' := by
  by_cases hnamed : units "content-type" ∈ rows.keys
  · have hkept : ∀ t : Text, withType rows (some t) = rows := fun t =>
      if_neg fun h => h.2 hnamed
    rw [hkept, hkept]
    exact iff_of_true rfl (.inl hnamed)
  · have hadded : ∀ t : Text, t ≠ [] → (withType rows (some t)).values =
        rows.values ++ [(units "Content-Type", t)] := by
      intro t ht
      rw [withType, if_pos ⟨ht, hnamed⟩, OrderedMap.values,
        OrderedMap.entries_set_of_not_mem hnamed, List.map_append]
      rfl
    rw [hadded type htype, hadded type' htype']
    constructor
    · intro h
      have hlast := List.append_cancel_left h
      exact .inr (Prod.mk.inj (List.cons.inj hlast).1).2
    · rintro (h | rfl)
      · exact absurd h hnamed
      · rfl

/-- The headers name the type of the body where one of them does: an event's id
is another header. -/
theorem mem_keys_headersByName_iff {parts : ResolvedRequest} (htoken : parts.token = none)
    (hbody : parts.body = none) :
    units "content-type" ∈ (parts.headersByName P).keys ↔
      ∃ header ∈ parts.headers, P.toLowerCase header.1 = units "content-type" := by
  have hrows : units "content-type" ∈ (OrderedMap.ofPairs (parts.headers.map fun header =>
      (P.toLowerCase header.1, header))).keys ↔
      ∃ header ∈ parts.headers, P.toLowerCase header.1 = units "content-type" := by
    rw [← not_iff_not, ← OrderedMap.get?_eq_none_iff, OrderedMap.get?_ofPairs,
      Option.map_eq_none_iff, List.getLast?_eq_none_iff, List.filter_eq_nil_iff,
      List.forall_mem_map]
    simp
  rw [← hrows, ResolvedRequest.headersByName, htoken, hbody]
  cases parts.lastEventId with
  | none => rfl
  | some id =>
      show units "content-type" ∈ (OrderedMap.set _ _ _).keys ↔ _
      rw [OrderedMap.mem_keys_set]
      exact or_iff_right (by decide)

end Headers

/-! ## The rest of the request -/

section Rest

variable {P : Platform} {content : RequestContent} {context : BuildContext}
  {dynamic dynamic' : Nat → Text → Text}

/-- The headers of the draft that are put in. -/
theorem hasHeader_of_mem {ancestors : List Ancestor} {stack : ScopeStack} {auth : AuthConfig}
    (hrepeat : Repeatable content ancestors stack)
    (hauth : CanGive (resolveAuth (Resolver.new stack (fun _ => none) dynamic).resolve
      (effectiveAuth content.auth ancestors)) auth) {header : Text × Text}
    (h : header ∈ sentHeaders content.headers ++ buildAuthHeaders auth) :
    HasHeader content ancestors stack header := by
  rcases List.mem_append.mp h with h | h
  · exact .inl h
  · have hfields : ∀ t ∈ authTexts (effectiveAuth content.auth ancestors),
        Carries Eq ((Resolver.new stack (fun _ => none) dynamic).resolve t)
          ((Resolver.new stack).resolve t) := fun t ht =>
      Resolver.carries_resolve (hrepeat.drawn t (List.mem_append_right _ ht))
    exact .inr ⟨auth, ((carries_resolveAuth hfields).gives hauth).canGive, h⟩

/-- Both roads put the rest of the request together alike. -/
theorem carries_resolveRest (hrepeat : Repeatable content context.ancestors context.scopes)
    (body typed : Option ResolvedBody) :
    Carries (fun parts copied => copied = { parts with body := typed })
      (resolveRest content (Resolver.new context.scopes (fun _ => none) dynamic) context body none)
      (resolveRest content (Resolver.new context.scopes (fun _ => none) dynamic')
        (exportContext context.ancestors context.lastEventId) typed none) := by
  have hlift : ∀ {t : Text}, ¬ Draws context.scopes t →
      Carries Eq (liftResolve ((Resolver.new context.scopes (fun _ => none) dynamic).resolve t))
        (liftResolve ((Resolver.new context.scopes (fun _ => none) dynamic').resolve t)) := fun h =>
    carries_liftResolve_left (carries_liftResolve_right (Resolver.carries_resolve h))
  rw [resolveRest, resolveRest]
  apply carries_bind_eq
  · apply carries_liftResolve_left
    apply carries_liftResolve_right
    apply carries_resolveAuth
    intro t ht
    exact Resolver.carries_resolve (hrepeat.drawn t (List.mem_append_right _ ht))
  · intro auth hauth
    apply carries_bind_eq
    · apply carries_mapM_eq
      intro header hheader
      obtain ⟨hname, hvalue⟩ := hrepeat.headers header
        (hasHeader_of_mem hrepeat (canGive_of_liftResolve hauth) hheader)
      apply carries_bind_eq (hlift hname)
      intro name _
      apply carries_bind_eq (hlift hvalue)
      exact fun _ _ => carries_pure rfl
    · intro headers _
      apply carries_bind_eq (hlift (not_draws_trim
        (hrepeat.drawn content.url (List.mem_append_left _ List.mem_cons_self))))
      exact fun _ _ => carries_pure rfl

/-- The headers as they are put in come of those of the draft, one each. -/
theorem forall₂_headers {r : Resolver} {body : Option ResolvedBody} {token : Option Text}
    {parts : ResolvedRequest} (h : CanGive (resolveRest content r context body token) parts) :
    CanGive (resolveAuth r.resolve (effectiveAuth content.auth context.ancestors)) parts.auth ∧
      List.Forall₂ (fun header out => CanGive (r.resolve header.1) out.1)
        (sentHeaders content.headers ++ buildAuthHeaders parts.auth) parts.headers := by
  obtain ⟨f, f', hrun⟩ := h
  obtain ⟨f₁, rows, f₂, again, f₃, hauth, hrows, hagain, -, hheaders, -⟩ := resolveRest_cases hrun
  have hname : ∀ {header out : Text × Text} {g g' : Findings},
      (resolveHeader r header).run g = .ok (out, g') → CanGive (r.resolve header.1) out.1 := by
    intro header out g g' hheader
    obtain ⟨name, g₁, hfirst, hrest⟩ := run_bind_eq_ok.mp hheader
    obtain ⟨value, g₂, -, hpure⟩ := run_bind_eq_ok.mp hrest
    cases hpure
    exact canGive_of_liftResolve ⟨g, g₁, hfirst⟩
  refine ⟨⟨f, f₁, hauth⟩, ?_⟩
  rw [hheaders]
  apply List.rel_append
  · exact (forall₂_of_run_mapM hrows).imp fun _ _ ⟨_, _, hrow⟩ => hname hrow
  · exact (forall₂_of_run_mapM hagain).imp fun _ _ ⟨_, _, hrow⟩ => hname hrow

/-- Some header that is put in is named `Content-Type` where a header of the draft is. -/
theorem exists_header_iff (hrepeat : Repeatable content context.ancestors context.scopes)
    {body : Option ResolvedBody} {token : Option Text} {parts : ResolvedRequest}
    (h : CanGive (resolveRest content (Resolver.new context.scopes (fun _ => none) dynamic) context
      body token) parts) :
    (∃ header ∈ parts.headers, P.toLowerCase header.1 = units "content-type") ↔
      NamesOwnType P content context.ancestors context.scopes := by
  obtain ⟨hauth, hall⟩ := forall₂_headers h
  have hsame : ∀ {t : Text}, ¬ Draws context.scopes t →
      Carries Eq ((Resolver.new context.scopes (fun _ => none) dynamic).resolve t)
        ((Resolver.new context.scopes).resolve t) := fun hdraws => Resolver.carries_resolve hdraws
  have hgives := (carries_resolveAuth fun t ht =>
    hsame (hrepeat.drawn t (List.mem_append_right _ ht))).gives hauth
  constructor
  · rintro ⟨out, hout, hlower⟩
    obtain ⟨header, hheader, hname⟩ := mem_of_forall₂_left hall.flip hout
    have hhas := hasHeader_of_mem hrepeat hauth hheader
    exact ⟨header, out.1, hhas,
      ((hsame (hrepeat.headers header hhas).1).gives hname).canGive, hlower⟩
  · rintro ⟨header, name, hhas, hname, hlower⟩
    have hmem : header ∈ sentHeaders content.headers ++ buildAuthHeaders parts.auth := by
      rcases hhas with hrow | ⟨auth, hcan, hheader⟩
      · exact List.mem_append_left _ hrow
      · rw [hcan.eq_of_gives hgives] at hheader
        exact List.mem_append_right _ hheader
    obtain ⟨out, hout, hcan⟩ := mem_of_forall₂_left hall hmem
    refine ⟨out, hout, ?_⟩
    rw [← hname.eq_of_gives ((hsame (hrepeat.headers header hhas).1).gives hcan)]
    exact hlower

end Rest

/-! ## What is sent -/

section Sent

variable {P : Platform} {content : RequestContent} {context : BuildContext} {desk : BuildDesk}

/-- A request that asks for no secret is built at once, without the vault. -/
theorem checked_of_buildRequest {sent : BuiltRequest}
    (hrepeat : Repeatable content context.ancestors context.scopes)
    (h : buildRequest P content context desk = .ok sent) :
    ∃ draft, checked P content (desk.without context 3) context = .ok draft ∧
      sent = draft.request P := by
  cases hprobe : probeSecrets content context.ancestors (desk.without context 0) with
  | error e =>
      rw [buildRequest, hprobe] at h
      cases h
  | ok ids =>
      have hnone : ids = [] := by
        apply List.eq_nil_iff_forall_not_mem.mpr
        intro id hid
        obtain ⟨t, ht, hrefers⟩ := (mem_probeSecrets_iff hprobe id).mp hid
        exact hrepeat.secrets t ht ⟨id, Resolver.refers_iff_reached.mp hrefers⟩
      rw [buildRequest, hprobe, hnone] at h
      cases hchecked : checked P content (desk.without context 3) context with
      | error e =>
          rw [hchecked] at h
          cases h
      | ok draft =>
          rw [hchecked] at h
          cases h
          exact ⟨draft, rfl, rfl⟩

/-- A request that is built without AWS auth is not signed. -/
theorem request_of_checked {r : Resolver} {draft : Draft}
    (h : checked P content r context = .ok draft) (haws : ∀ auth, draft.parts.auth ≠ .awsv4 auth) :
    draft.request P = draft.parts.built P draft.findings := by
  obtain ⟨draft', hbuild, hrest⟩ := bind_eq_ok.mp h
  have hsame : draft' = draft := by
    dsimp only at hrest
    split at hrest
    · cases hrest
    · cases hrest
      rfl
  subst hsame
  obtain ⟨result, -, hsigned⟩ := bind_eq_ok.mp hbuild
  obtain ⟨signature, hsignature, hpure⟩ := bind_eq_ok.mp hsigned
  cases hpure
  have hnone : signature = none := by
    dsimp only at haws hsignature
    rw [signatureOf.eq_def] at hsignature
    split at hsignature
    · next heq => exact absurd heq (haws _)
    · cases hsignature
      rfl
  rw [Draft.request, hnone]

/-- An auth that is not one for AWS is none when its fields are filled in. -/
theorem ne_awsv4_of_canGive {r : Resolver} {auth auth' : AuthConfig}
    (h : CanGive (resolveAuth r.resolve auth) auth') (haws : ∀ aws, auth ≠ .awsv4 aws)
    (aws : AwsV4Auth) : auth' ≠ .awsv4 aws := by
  rintro rfl
  obtain ⟨f, f', hrun⟩ := h
  have honce := authOnce_of_run hrun
  cases auth with
  | awsv4 own => exact haws own rfl
  | _ => exact honce

/-- No token is asked for without OAuth 2.0. -/
theorem token_eq_none {r : Resolver} {own auth : AuthConfig} {withoutValue : List Text}
    {token : Option Text} {f f' : Findings} (hoauth : ∀ config, own ≠ .oauth2 config)
    (h : (tokenOf context r own auth withoutValue).run f = .ok (token, f')) : token = none := by
  rw [tokenOf.eq_def] at h
  split at h
  · exact absurd rfl (hoauth _)
  · cases h
    rfl

/-- The type of a body that is sent or copied is some text. -/
theorem exportType_ne_nil {body : RequestBody} {copied : ExportBody} {type : Text}
    (h : exportType body copied = some type) : type ≠ [] := by
  have hcontent : bodyContentType body = some type → type ≠ [] := by
    intro hsome
    rw [bodyContentType.eq_def] at hsome
    split at hsome
    · cases hsome
    · obtain ⟨raw, -, hraw⟩ := Option.bind_eq_some_iff.mp hsome
      split_ifs at hraw
      cases hraw
      cases raw.language <;> decide
    · cases hsome
      decide
    · cases hsome
      decide
    · cases hsome
      decide
    · dsimp only at hsome
      split_ifs at hsome with hnamed
      · cases hsome
        exact hnamed
      · cases hsome
        decide
  rw [exportType.eq_def] at h
  split at h
  · cases h
  · cases h
  · cases h
  · exact hcontent h

/-- What is put together of a body and of the rest is what is copied. -/
theorem gives_copied {r r' : Resolver} {body : Option ResolvedBody} {copied : ExportBody}
    {parts : ResolvedRequest} (hurl : content.url ≠ [])
    (hbody : Gives (exportBody P content.body content.method r') copied)
    (hrest : ∀ typed, Carries (fun parts copied => copied = { parts with body := typed })
      (resolveRest content r context body none)
      (resolveRest content r' (exportContext context.ancestors context.lastEventId) typed none))
    (hparts : CanGive (resolveRest content r context body none) parts) :
    Gives (exportSource P content r' context.ancestors context.lastEventId)
      (some {
        method := parts.method
        url := parts.url P
        headers := (withType ({ parts with body := none }.headersByName P)
          (exportType content.body copied)).values
        body := copied }) := by
  rw [exportSource, if_neg hurl]
  apply gives_bind (gives_liftResolve hbody)
  obtain ⟨_, rfl, hgives⟩ := hrest ((exportType content.body copied).map fun type =>
    ResolvedBody.binary ⟨[], []⟩ type) parts hparts
  apply gives_bind hgives
  apply gives_get_bind
  intro findings
  have hheaders : ResolvedRequest.headersByName P
      { parts with
        body :=
          (exportType content.body copied).map fun type => ResolvedBody.binary ⟨[], []⟩ type } =
      withType ({ parts with body := none }.headersByName P) (exportType content.body copied) := by
    rw [headersByName_eq]
    cases exportType content.body copied with
    | none => rfl
    | some type => rfl
  rw [← hheaders]
  exact gives_pure _

/-- A request without a token is put together without one. -/
theorem token_of_resolveRest {r : Resolver} {body : Option ResolvedBody} {parts : ResolvedRequest}
    (h : CanGive (resolveRest content r context body none) parts) :
    parts.token = none ∧ parts.body = body := by
  obtain ⟨f, f', hrun⟩ := h
  rw [resolveRest] at hrun
  simp only [run_bind_eq_ok] at hrun
  obtain ⟨auth, _, -, headers, _, -, address, _, -, hpure⟩ := hrun
  cases hpure
  exact ⟨rfl, rfl⟩

/-- The file that is sent and its copy say the same where the file has a name and its type is known
to the copy, or named by a header. -/
theorem saidFile_iff {rows : OrderedMap Text (Text × Text)} {binary : BinaryBody} {file : Blob}
    (hmode : content.body.mode = .binary) (hbinary : content.body.binary = some binary) :
    ((withType rows (exportType content.body (.binary binary.ref.fileName))).values =
        (withType rows (some (fileType binary file))).values ∧
      (ExportBody.binary binary.ref.fileName).written =
        sentByName content.body (some (.file file))) ↔
      binary.ref.fileName ≠ [] ∧ (binary.contentType.getD [] ≠ [] ∨
        units "content-type" ∈ rows.keys ∨
        (file.type = [] ∨ file.type = units "application/octet-stream")) := by
  have hcontent : exportType content.body (.binary binary.ref.fileName) = some
      (if binary.contentType.getD [] ≠ [] then binary.contentType.getD []
        else units "application/octet-stream") := by
    show bodyContentType content.body = _
    rw [bodyContentType, hmode, hbinary]
    rfl
  have hne := exportType_ne_nil hcontent
  have hsent : fileType binary file ≠ [] := by
    rw [fileType]
    split_ifs with hnamed htyped
    · exact hnamed
    · exact htyped
    · decide
  have hname : (ExportBody.binary binary.ref.fileName).written =
      sentByName content.body (some (.file file)) ↔ binary.ref.fileName ≠ [] := by
    rw [sentByName, hbinary]
    show (ExportBody.binary binary.ref.fileName).wire = .file binary.ref.fileName ↔ _
    cases binary.ref.fileName with
    | nil => exact iff_of_false (fun h => nomatch h) fun h => h rfl
    | cons c rest => exact iff_of_true rfl fun h => nomatch h
  rw [hcontent, values_withType_iff hne hsent, hname, and_comm]
  refine and_congr_right fun _ => ?_
  rw [fileType]
  split_ifs with hnamed htyped
  · exact iff_of_true (.inr rfl) (.inl hnamed)
  · -- The draft says no type: a send takes that of the file.
    rw [or_iff_right hnamed, or_iff_right htyped, eq_comm]
  · rw [not_not] at htyped
    exact iff_of_true (.inr rfl) (.inr (.inr (.inl htyped)))

/-- The request that is copied of a draft is the one that is sent exactly when a file that it sends
is known by its name and its type. -/
theorem copied_asSent_iff {sent : BuiltRequest} (dynamic : Nat → Text → Text)
    (hmethod : content.method ≠ []) (hrepeat : Repeatable content context.ancestors context.scopes)
    (hbuilt : buildRequest P content context desk = .ok sent) :
    CopiedAsSent P content (Resolver.new context.scopes (fun _ => none) dynamic) context.ancestors
        context.lastEventId sent ↔
      content.url = [] ∨ FileSaid P content context := by
  by_cases hurl : content.url = []
  · refine iff_of_true ?_ (.inl hurl)
    rw [CopiedAsSent, exportSource, if_pos hurl]
    exact hurl
  rw [or_iff_right hurl]
  obtain ⟨draft, hchecked, rfl⟩ := checked_of_buildRequest hrepeat hbuilt
  obtain ⟨auth, f₁, body, f₂, token, f₃, hauth, hbody, htoken, hrest⟩ :=
    resolveRequest_cases (resolveRequest_of_checked hchecked)
  obtain rfl := token_eq_none hrepeat.oauth2 htoken
  have hparts :
      CanGive (resolveRest content (desk.without context 3) context body none) draft.parts :=
    ⟨f₃, draft.findings, hrest⟩
  obtain ⟨hnoToken, hsent⟩ := token_of_resolveRest hparts
  have hrequest := request_of_checked hchecked
    (ne_awsv4_of_canGive (forall₂_headers hparts).1 hrepeat.awsv4)
  have htexts : ∀ t ∈ bodyTexts content.body,
      Carries Eq ((desk.without context 3).resolve t)
        ((Resolver.new context.scopes (fun _ => none) dynamic).resolve t) := fun t ht =>
    Resolver.carries_resolve
      (hrepeat.drawn t
        (List.mem_append_left _ (List.mem_cons_of_mem _ (List.mem_append_right _ ht))))
  -- What both have besides the body.
  have hcopies : ∀ {copied : ExportBody},
      Gives (exportBody P content.body content.method
        (Resolver.new context.scopes (fun _ => none) dynamic)) copied →
      (CopiedAsSent P content (Resolver.new context.scopes (fun _ => none) dynamic)
          context.ancestors context.lastEventId (draft.request P) ↔
        (withType ({ draft.parts with body := none }.headersByName P)
            (exportType content.body copied)).values =
          (withType ({ draft.parts with body := none }.headersByName P)
            (body.bind ResolvedBody.contentType)).values ∧
        copied.written = sentByName content.body (body.map ResolvedBody.data)) := by
    intro copied hcopied
    obtain ⟨f, hrun⟩ := gives_copied hurl hcopied
      (carries_resolveRest hrepeat body) hparts {}
    rw [CopiedAsSent, hrun, hrequest]
    have hheaders : (draft.parts.built P draft.findings).headers =
        (withType ({ draft.parts with body := none }.headersByName P)
          (body.bind ResolvedBody.contentType)).values := by
      rw [← hsent, ← headersByName_eq]
      rfl
    have hdata : (draft.parts.built P draft.findings).body = body.map ResolvedBody.data := by
      rw [← hsent]
      rfl
    constructor
    · intro h
      exact ⟨h.headers.trans hheaders, h.body.trans (congrArg _ hdata)⟩
    · rintro ⟨hvalues, hwritten⟩
      exact ⟨rfl, rfl, hvalues.trans hheaders.symm, hwritten.trans (congrArg _ hdata.symm)⟩
  by_cases hfile : isBodyMethod content.method = true ∧ content.body.mode = .binary
  · obtain ⟨hsends, hmode⟩ := hfile
    obtain ⟨_, ⟨binary, file, hbinary, hread, rfl, rfl⟩, hcopied⟩ :=
      carries_exportFile hsends hmode body ⟨f₁, f₂, hbody⟩
    have hkeys := @mem_keys_headersByName_iff P { draft.parts with body := none } hnoToken rfl
    rw [hcopies hcopied]
    refine (saidFile_iff hmode hbinary).trans ?_
    rw [hkeys, exists_header_iff hrepeat hparts]
    constructor
    · rintro ⟨hname, htype⟩ _ _ own hown
      obtain rfl := Option.some.inj (hbinary.symm.trans hown)
      refine ⟨hname, htype.imp_right (Or.imp_right fun hunknown found hfound => ?_)⟩
      rw [hread] at hfound
      cases hfound
      exact hunknown
    · intro h
      obtain ⟨hname, htype⟩ := h hsends hmode binary hbinary
      exact ⟨hname, htype.imp_right (Or.imp_right fun hunknown => hunknown file hread)⟩
  · obtain ⟨copied, hsaid, hcopied⟩ :=
      carries_exportBody htexts hmethod hfile body ⟨f₁, f₂, hbody⟩
    rw [hcopies hcopied]
    refine iff_of_true ⟨?_, hsaid.written⟩ fun hsends hmode => absurd ⟨hsends, hmode⟩ hfile
    rw [hsaid.type]

/-- A picture sent as a file body, its type said or left to the file. -/
def pictureRequest (type : Option Text) : RequestContent where
  method := units "POST"
  url := units "https://files.test/"
  headers := []
  body := { mode := .binary, binary := some ⟨⟨units "f1", units "a.png"⟩, type⟩ }
  auth := .none

/-- The picture can be read, and is known to be one. -/
def pictureContext : BuildContext where
  ancestors := []
  scopes := {}
  readFile _ := .ok ⟨[0x89], units "image/png"⟩
  blockUnresolved := true
  oauthToken := none

/-- Nothing is asked of the vault or of the user. -/
def pictureDesk : BuildDesk where
  vault := .error (.blocked [])
  composed := none
  accepted := []
  askHost _ _ := false
  dynamic _ _ _ := []

/-- No text of the request holds a placeholder. -/
theorem pictureRequest_repeatable (type : Option Text) :
    Repeatable (pictureRequest type) [] {} := by
  have htexts : ∀ t ∈ probeTexts (pictureRequest type) [], openBrace ∉ t := by
    show ∀ t ∈ [units "https://files.test/"], openBrace ∉ t
    decide
  constructor
  · rintro t ht ⟨id, hreached⟩
    exact not_reached_of_not_mem (htexts t ht) [] hreached
  · exact fun t ht => not_reached_of_not_mem (htexts t ht) []
  · rintro header (hrow | ⟨auth, ⟨f, f', hrun⟩, hheader⟩)
    · cases hrow
    · cases hrun
      cases hheader
  · exact fun auth h => nomatch h
  · exact fun auth h => nomatch h

/-- A type that the draft says is copied with it. -/
theorem typedPicture_copied : ∃ sent,
    buildRequest plainPlatform (pictureRequest (some (units "image/png"))) pictureContext
      pictureDesk = .ok sent ∧
    CopiedAsSent plainPlatform (pictureRequest (some (units "image/png"))) (Resolver.new {}) [] none
      sent := by
  have hsome : (buildRequest plainPlatform (pictureRequest (some (units "image/png")))
      pictureContext pictureDesk).isOk = true := by decide +kernel
  cases hbuilt : buildRequest plainPlatform (pictureRequest (some (units "image/png")))
      pictureContext pictureDesk with
  | error e =>
      rw [hbuilt] at hsome
      cases hsome
  | ok sent =>
      refine ⟨sent, rfl, (copied_asSent_iff (fun _ _ => []) (by decide)
        (pictureRequest_repeatable _) hbuilt).mpr (.inr ?_)⟩
      intro _ _ binary hbinary
      cases hbinary
      exact ⟨by decide, .inl (by decide)⟩

/-- A type that is the file's alone is sent, and another is copied. -/
theorem untypedPicture_not_copied :
    Repeatable (pictureRequest none) [] {} ∧ ∃ sent,
      buildRequest plainPlatform (pictureRequest none) pictureContext pictureDesk = .ok sent ∧
      ¬ CopiedAsSent plainPlatform (pictureRequest none) (Resolver.new {}) [] none sent := by
  refine ⟨pictureRequest_repeatable none, ?_⟩
  have hsent : (buildRequest plainPlatform (pictureRequest none) pictureContext
      pictureDesk).toOption.map BuiltRequest.headers =
      some [(units "Content-Type", units "image/png")] := by decide +kernel
  have hcopied : ((exportSource plainPlatform (pictureRequest none) (Resolver.new {}) [] none).run
      {}).toOption.map (fun result => result.1.map ExportRequest.headers) =
      some (some [(units "Content-Type", units "application/octet-stream")]) := by decide +kernel
  cases hbuilt : buildRequest plainPlatform (pictureRequest none) pictureContext pictureDesk with
  | error e =>
      rw [hbuilt] at hsent
      cases hsent
  | ok sent =>
      rw [hbuilt] at hsent
      refine ⟨sent, rfl, ?_⟩
      rw [CopiedAsSent]
      split
      · next hrun =>
          rw [hrun] at hcopied
          cases hcopied
      · next copied f hrun =>
          rw [hrun] at hcopied
          intro h
          have hsame := h.headers
          rw [Option.some.inj (Option.some.inj hcopied), Option.some.inj hsent] at hsame
          exact absurd hsame (by decide)
      · exact fun h => h

end Sent

end Wayfarer
