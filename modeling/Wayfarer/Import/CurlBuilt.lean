import Wayfarer.Import.CurlRead
import Wayfarer.Send.Composed
import Wayfarer.Variables.Plain

/-!
# The request of a command, built

What is built of a parsed command (`builtOf`): its headers without one that only repeats the type
the app writes, one header a name, and that type where none is named. Where the texts hold no
variable that has a value, the app builds it so (`gives_exportSource`).
-/

set_option autoImplicit false

namespace Wayfarer

open Library CopiedCurl

namespace BuiltCurl

variable {P : Platform} {q : ExportRequest}

/-! ## What is built -/

/-- The type a command's headers name, in lower case. -/
def typeNamed (P : Platform) (headers : List (Text × Text)) : Text :=
  P.toLowerCase ((contentTypeOf P headers).getD [])

/-- Whether a text is read as a form: its type is a form's, or it has none. -/
def readAsForm (P : Platform) (headers : List (Text × Text)) : Bool :=
  typeNamed P headers = [] || formType.isPrefixOf (typeNamed P headers)

/-- The type the app writes for a text that is read of a command. -/
def typeOfText (P : Platform) (headers : List (Text × Text)) : Text :=
  if readAsForm P headers then formType else rawContentTypes (languageOf (typeNamed P headers))

theorem typeOfText_ne_nil (headers : List (Text × Text)) : typeOfText P headers ≠ [] := by
  have hraw : ∀ language, rawContentTypes language ≠ [] := by
    intro language
    cases language <;> decide
  rw [typeOfText]
  split_ifs
  · decide
  · exact hraw _

/-- The body of the app that the body of a command is. -/
def appBody (P : Platform) (q : ExportRequest) : RequestBody :=
  curlBody (languageOf (typeNamed P q.headers)) ((contentTypeOf P q.headers).getD []) q.body

/-- The type that the app would send for the body anyway. -/
def impliedBy (P : Platform) (q : ExportRequest) : Option Text :=
  impliedType (languageOf (typeNamed P q.headers)) q.body

/-- The headers that do not only repeat that type. -/
def keptHeaders (P : Platform) (q : ExportRequest) : List (Text × Text) :=
  q.headers.filter fun header => !repeatsType P (impliedBy P q) header

/-- A body as it is built: none for a method that carries none, and no file without a type. -/
def builtBody (method type : Text) (body : ExportBody) : ExportBody :=
  if method = units "GET" ∨ method = units "HEAD" then .none
  else
    match body with
    | .binary fileName => .binary (if type ≠ [] then fileName else [])
    | other => other

/-- The body that is built of a command. -/
def bodyOf (P : Platform) (q : ExportRequest) : ExportBody :=
  builtBody q.method ((contentTypeOf P q.headers).getD []) q.body

/-- Headers by name, and a type that is added where they name none. -/
def headersWith (P : Platform) (headers : List (Text × Text)) (added : Option Text) :
    List (Text × Text) :=
  let rows := OrderedMap.ofPairs (headers.map fun header => (P.toLowerCase header.1, header))
  (match added with
    | none => rows
    | some type =>
        if type ≠ [] ∧ contentTypeName ∉ rows.keys then
          rows.set contentTypeName (units "Content-Type", type)
        else rows).values

/-- The headers that are sent of those of a command. -/
def namedHeaders (headers : List (Text × Text)) : List (Text × Text) :=
  sentHeaders (headers.map sentRow)

/-- The request that is built of a command. -/
def builtOf (P : Platform) (q : ExportRequest) : ExportRequest where
  method := q.method
  url := normalizeUrl (trim q.url)
  headers := headersWith P (namedHeaders (keptHeaders P q)) (exportType (appBody P q) (bodyOf P q))
  body := bodyOf P q

/-- The request of the app that a command is read as, built. -/
def commandBuilt (P : Platform) (command : Text) (r : Resolver) (ancestors : List Ancestor) :
    Option ExportRequest :=
  match parseCurl P command with
  | .error _ => none
  | .ok parsed =>
      match (exportSource P (curlRequest P parsed).1 r ancestors none).run {} with
      | .error _ => none
      | .ok (found, _) => found

/-- The texts of a body that may hold a variable. -/
def bodyTextsOf : ExportBody → List Text
  | .none => []
  | .raw text => [text]
  | .urlencoded fields => fields.flatMap fun field => [field.1, field.2]
  | .multipart parts => parts.flatMap fun part =>
      match part.value with
      | .text value => [part.name, value]
      | .file _ => [part.name]
  | .binary _ => []

/-- The texts of a command's request that may hold a variable. -/
def builtTexts (q : ExportRequest) : List Text :=
  trim q.url :: q.headers.flatMap (fun header => [trim header.1, header.2]) ++ bodyTextsOf q.body

/-- Headers whose names are tokens are sent as they are. -/
theorem namedHeaders_of_tokens {headers : List (Text × Text)}
    (h : ∀ header ∈ headers, isToken header.1 = true) : namedHeaders headers = headers := by
  have hnamed : (headers.map sentRow).filter (fun row => row.enabled && trim row.key ≠ []) =
      headers.map sentRow := by
    apply List.filter_eq_self.mpr
    intro row hrow
    obtain ⟨header, hheader, rfl⟩ := List.mem_map.mp hrow
    have hname := h header hheader
    have htrim : trim (sentRow header).key = header.1 := trim_of_isToken hname
    rw [htrim]
    simpa [sentRow] using (Bool.and_eq_true_iff.mp hname).1
  rw [namedHeaders, sentHeaders, hnamed, List.map_map]
  apply (List.map_congr_left fun header hheader => _).trans (List.map_id _)
  intro header hheader
  show (trim header.1, header.2) = header
  rw [trim_of_isToken (h header hheader)]

/-- Headers of which none only repeats a type. -/
theorem filter_repeatsType_eq_iff {headers : List (Text × Text)} {implied : Option Text} :
    headers.filter (fun header => !repeatsType P implied header) = headers ↔
      ∀ header ∈ headers, repeatsType P implied header = false := by
  rw [List.filter_eq_self]
  simp

theorem repeatsType_none (header : Text × Text) : repeatsType P none header = false := by
  simp [repeatsType]

/-! ## Building it -/

section Built

variable {r : Resolver}

theorem filter_sentRow (pairs : List (Text × Text)) :
    (pairs.map sentRow).filter Row.enabled = pairs.map sentRow := by
  apply List.filter_eq_self.mpr
  intro row hrow
  obtain ⟨pair, -, rfl⟩ := List.mem_map.mp hrow
  rfl

/-- Plain fields are resolved to themselves. -/
theorem gives_fields {fields : List (Text × Text)}
    (h : ∀ pair ∈ fields, r.Plain pair.1 ∧ r.Plain pair.2) :
    Gives (((fields.map sentRow).filter Row.enabled).mapM fun row => do
      return (← r.resolve row.key, ← r.resolve row.value)) fields := by
  have hall := gives_mapM (l := fields.map sentRow) (g := fun row => (row.key, row.value))
    (f := fun row => do return (← r.resolve row.key, ← r.resolve row.value)) (by
      intro row hrow
      obtain ⟨pair, hpair, rfl⟩ := List.mem_map.mp hrow
      apply gives_bind (Resolver.gives_resolve (h pair hpair).1)
      apply gives_bind (Resolver.gives_resolve (h pair hpair).2)
      exact gives_pure _)
  have hsame : (fields.map sentRow).map (fun row => (row.key, row.value)) = fields := by
    rw [List.map_map]
    exact List.map_id fields
  rw [filter_sentRow]
  rwa [hsame] at hall

/-- Plain parts are resolved to themselves. -/
theorem gives_parts {parts : List ExportPart}
    (h : ∀ part ∈ parts, r.Plain part.name ∧ ∀ value, part.value = .text value → r.Plain value) :
    Gives (((parts.map partOf).filter MultipartPart.enabled).mapM fun part => do
      match part.value with
      | .text value =>
          return { name := ← r.resolve part.key, value := .text (← r.resolve value) : ExportPart }
      | .file ref => return { name := ← r.resolve part.key, value := .file ref.fileName })
      parts := by
  have henabled : (parts.map partOf).filter MultipartPart.enabled = parts.map partOf := by
    apply List.filter_eq_self.mpr
    intro item hitem
    obtain ⟨part, -, rfl⟩ := List.mem_map.mp hitem
    rfl
  rw [henabled, List.mapM_map]
  have hall := gives_mapM (l := parts) (g := id) (f := fun part => do
      match (partOf part).value with
      | .text value =>
          return { name := ← r.resolve (partOf part).key,
                   value := .text (← r.resolve value) : ExportPart }
      | .file ref =>
          return { name := ← r.resolve (partOf part).key, value := .file ref.fileName }) (by
    intro part hpart
    obtain ⟨hname, hvalue⟩ := h part hpart
    obtain ⟨name, value⟩ := part
    cases value with
    | text value =>
        apply gives_bind (Resolver.gives_resolve hname)
        apply gives_bind (Resolver.gives_resolve (hvalue value rfl))
        exact gives_pure _
    | file fileName =>
        apply gives_bind (Resolver.gives_resolve hname)
        exact gives_pure _)
  rwa [List.map_id] at hall

/-- A body of plain texts is built of them. -/
theorem gives_exportBody {body : ExportBody} (hplain : ∀ t ∈ bodyTextsOf body, r.Plain t)
    (language : RawLanguage) (method type : Text) :
    Gives (exportBody P (curlBody language type body) method r) (builtBody method type body) := by
  rw [exportBody, builtBody.eq_def]
  by_cases hnone : method = units "GET" ∨ method = units "HEAD"
  · rw [if_pos hnone, if_pos hnone]
    exact gives_pure _
  · rw [if_neg hnone, if_neg hnone]
    cases body with
    | none => exact gives_pure _
    | raw text =>
        apply gives_bind (Resolver.gives_resolve (hplain text List.mem_cons_self))
        exact gives_pure _
    | urlencoded fields =>
        apply gives_bind (gives_fields fun field hfield => ?_)
        · exact gives_pure _
        · have hmem : ∀ t ∈ [field.1, field.2], r.Plain t := fun t ht =>
            hplain t (List.mem_flatMap.mpr ⟨field, hfield, ht⟩)
          exact ⟨hmem _ (by simp), hmem _ (by simp)⟩
    | multipart parts =>
        apply gives_bind (gives_parts fun part hpart => ?_)
        · exact gives_pure _
        · have hmem : ∀ t ∈ (match part.value with
              | .text value => [part.name, value]
              | .file _ => [part.name] : List Text), r.Plain t := fun t ht =>
            hplain t (List.mem_flatMap.mpr ⟨part, hpart, ht⟩)
          constructor
          · apply hmem
            split <;> simp
          · intro value hvalue
            apply hmem
            simp [hvalue]
    | binary fileName =>
        rw [curlBody]
        split_ifs
        · exact gives_pure _
        · exact gives_pure _

/-- The headers and the address are built of plain texts. -/
theorem gives_resolveRest {content : RequestContent} (headers : List (Text × Text))
    (hauth : content.auth = .none) (hheaders : content.headers = headers.map sentRow)
    (hplain : ∀ header ∈ namedHeaders headers, r.Plain header.1 ∧ r.Plain header.2)
    (haddress : r.Plain (trim content.url)) (context : BuildContext) (body : Option ResolvedBody) :
    Gives (resolveRest content r context body none)
      { method := content.method, auth := .none, headers := namedHeaders headers,
        address := trim content.url, body, token := none, lastEventId := context.lastEventId } := by
  have heffective : effectiveAuth content.auth context.ancestors = .none := by
    rw [hauth]
    rfl
  rw [resolveRest, heffective]
  apply gives_bind (a := AuthConfig.none) (gives_liftResolve (gives_pure _))
  have hrows : sentHeaders content.headers ++ buildAuthHeaders .none = namedHeaders headers := by
    rw [hheaders]
    exact List.append_nil _
  rw [hrows]
  apply gives_bind (a := namedHeaders headers)
  · have hall := gives_mapM (l := namedHeaders headers) (g := id) (f := fun header => do
        return (← liftResolve (r.resolve header.1), ← liftResolve (r.resolve header.2)))
        (fun header hheader => by
          obtain ⟨hname, hvalue⟩ := hplain header hheader
          apply gives_bind (gives_liftResolve (Resolver.gives_resolve hname))
          apply gives_bind (gives_liftResolve (Resolver.gives_resolve hvalue))
          exact gives_pure _)
    rwa [List.map_id] at hall
  · apply gives_bind (gives_liftResolve (Resolver.gives_resolve haddress))
    exact gives_pure _

/-- A request that is put together without auth, a token and an event. -/
theorem exported_built {parts : ResolvedRequest} {added : Option Text}
    (hauth : parts.auth = .none) (htoken : parts.token = none) (hevent : parts.lastEventId = none)
    (hbody : parts.body = added.map fun type => ResolvedBody.binary ⟨[], []⟩ type)
    (findings : Findings) (body : ExportBody) :
    ({ method := (parts.built P findings).method, url := (parts.built P findings).url,
       headers := (parts.built P findings).headers, body } : ExportRequest) =
      { method := parts.method, url := normalizeUrl parts.address,
        headers := headersWith P parts.headers added, body } := by
  have hurl : parts.url P = normalizeUrl parts.address := by
    rw [ResolvedRequest.url, hauth]
    rfl
  have hheaders : (parts.headersByName P).values = headersWith P parts.headers added := by
    rw [ResolvedRequest.headersByName, htoken, hevent, hbody]
    cases added <;> rfl
  show ExportRequest.mk parts.method (parts.url P) (parts.headersByName P).values body = _
  rw [hurl, hheaders]

/-- A header that is sent is one of the command's, its name trimmed. -/
theorem mem_namedHeaders {headers : List (Text × Text)} {header : Text × Text}
    (h : header ∈ namedHeaders headers) : ∃ own ∈ headers, header = (trim own.1, own.2) := by
  obtain ⟨row, hrow, rfl⟩ := List.mem_map.mp h
  obtain ⟨own, hown, rfl⟩ := List.mem_map.mp (List.mem_filter.mp hrow).1
  exact ⟨own, hown, rfl⟩

/-- The request that the app builds of a command. -/
theorem gives_exportSource (hurl : q.url ≠ []) (hplain : ∀ t ∈ builtTexts q, r.Plain t)
    (warnings : List Text) (ancestors : List Ancestor) :
    Gives (exportSource P (curlRequest P { request := q, basic := none, warnings }).1 r ancestors
      none) (some (builtOf P q)) := by
  have hheader : ∀ header ∈ namedHeaders (keptHeaders P q),
      r.Plain header.1 ∧ r.Plain header.2 := by
    intro header hheader
    obtain ⟨own, hown, rfl⟩ := mem_namedHeaders hheader
    have hmem : ∀ t ∈ [trim own.1, own.2], r.Plain t := by
      intro t ht
      apply hplain
      apply List.mem_append_left
      apply List.mem_cons_of_mem
      exact List.mem_flatMap.mpr ⟨own, (List.mem_filter.mp hown).1, ht⟩
    exact ⟨hmem _ (by simp), hmem _ (by simp)⟩
  have hnamed : (curlRequest P { request := q, basic := none, warnings }).1.url ≠ [] := hurl
  rw [exportSource, if_neg hnamed]
  apply gives_bind (gives_liftResolve (gives_exportBody
    (fun t ht => hplain t (List.mem_append_right _ ht)) _ _ _))
  apply gives_bind (gives_resolveRest (keptHeaders P q) rfl rfl hheader
    (hplain _ List.mem_cons_self) _ _)
  apply gives_get_bind
  intro findings
  have hgives : ∀ {found found' : ExportRequest}, found = found' →
      Gives (pure (some found) : Build _) (some found') := by
    rintro found _ rfl
    exact gives_pure _
  exact hgives (exported_built rfl rfl rfl rfl findings _)

end Built

/-! ## Headers by name -/

section Headers

variable {headers : List (Text × Text)}

/-- The names of headers, in lower case. -/
def lowerNames (P : Platform) (headers : List (Text × Text)) : List Text :=
  headers.map fun header => P.toLowerCase header.1

/-- A body's type as the app writes it. -/
def typeHeader (type : Text) : Text × Text :=
  (units "Content-Type", type)

/-- Headers of different names are the rows of their map. -/
theorem rows_of_nodup (hnodup : (lowerNames P headers).Nodup) :
    (OrderedMap.ofPairs (headers.map fun header => (P.toLowerCase header.1, header))).entries =
      headers.map fun header => (P.toLowerCase header.1, header) := by
  apply OrderedMap.entries_ofPairs_of_nodup
  rw [List.map_map]
  exact hnodup

/-- Headers of different names stay, and a type is added where none is named. -/
theorem headersWith_of_nodup (hnodup : (lowerNames P headers).Nodup) (added : Option Text) :
    headersWith P headers added =
      match added with
      | none => headers
      | some type =>
          if type ≠ [] ∧ contentTypeName ∉ lowerNames P headers then headers ++ [typeHeader type]
          else headers := by
  have hrows := rows_of_nodup hnodup
  have hvalues : (OrderedMap.ofPairs
      (headers.map fun header => (P.toLowerCase header.1, header))).values = headers := by
    rw [OrderedMap.values, hrows, List.map_map]
    exact List.map_id headers
  have hkeys : (OrderedMap.ofPairs
      (headers.map fun header => (P.toLowerCase header.1, header))).keys =
        lowerNames P headers := by
    rw [OrderedMap.keys, hrows, List.map_map]
    rfl
  cases added with
  | none => exact hvalues
  | some type =>
      simp only [headersWith, hkeys]
      split_ifs with hadded
      · rw [OrderedMap.values, OrderedMap.entries_set_of_not_mem (hkeys ▸ hadded.2),
          List.map_append]
        exact congrArg (· ++ [typeHeader type]) hvalues
      · exact hvalues

/-- The headers that are built have different names. -/
theorem nodup_headersWith (hlower : P.toLowerCase (units "Content-Type") = contentTypeName)
    (added : Option Text) : (lowerNames P (headersWith P headers added)).Nodup := by
  -- Each row is kept under the name of its header.
  have hname : ∀ e ∈ (OrderedMap.ofPairs
      (headers.map fun header => (P.toLowerCase header.1, header))).entries,
      P.toLowerCase e.2.1 = e.1 := by
    intro e he
    obtain ⟨header, -, rfl⟩ := List.mem_map.mp (OrderedMap.mem_of_mem_entries_ofPairs he)
    rfl
  have hkept : ∀ m : OrderedMap Text (Text × Text), (∀ e ∈ m.entries, P.toLowerCase e.2.1 = e.1) →
      (lowerNames P m.values).Nodup := by
    intro m hm
    have hkeys : lowerNames P m.values = m.keys := by
      rw [lowerNames, OrderedMap.values, List.map_map]
      exact List.map_congr_left hm
    rw [hkeys]
    exact m.nodup
  cases added with
  | none => exact hkept _ hname
  | some type =>
      simp only [headersWith]
      split_ifs
      · apply hkept
        intro e he
        obtain rfl | he := OrderedMap.mem_entries_set he
        · exact hlower
        · exact hname e he
      · exact hkept _ hname

end Headers

end BuiltCurl

end Wayfarer
