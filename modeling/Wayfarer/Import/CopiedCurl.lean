import Wayfarer.Import.CurlBuilt
import Wayfarer.Import.CurlRead

/-!
# A copied command read back

`copied_iff` says for which requests the request that is built of a copied command says the same:
what the method, the address, the headers and the body have to be for that. A body's type that is
named with a parameter is dropped, and the app writes the type without it (`typedJson_not_copied`).
-/

set_option autoImplicit false

namespace Wayfarer

open Library

namespace CopiedCurl

open BuiltCurl

variable {P : Platform} {request : ExportRequest}

/-! ## The command, parsed -/

/-- The body that is read of what a body puts on the wire. -/
def bodyRead (P : Platform) (headers : List (Text × Text)) : ExportWire → ExportBody
  | .text t =>
      if t = [] then .none
      else if readAsForm P headers then .urlencoded (searchParams t)
      else .raw t
  | .form parts => if parts = [] then .none else .multipart parts
  | .file fileName => .binary fileName

/-- The method that is read of a request. -/
def methodRead (P : Platform) (request : ExportRequest) : Text :=
  if request.method = units "HEAD" then units "HEAD"
  else if request.method = units "GET" then
    if bodyRead P request.headers request.body.wire = .none then units "GET" else units "POST"
  else P.toUpperCase request.method

/-- The request a command of a request is read as. -/
def requestRead (P : Platform) (request : ExportRequest) : ExportRequest where
  method := methodRead P request
  url := request.url
  headers := request.headers
  body := bodyRead P request.headers request.body.wire

theorem dataText_map_formPair {s : CurlState} {fields : List (Text × Text)}
    (h : s.data = fields.map fun field => .text (formPair field)) :
    s.dataText = formSerialize fields := by
  have htexts : (Datum.text? ∘ fun field => Datum.text (formPair field)) = some ∘ formPair := rfl
  rw [CurlState.dataText, h, List.filterMap_map, htexts, List.filterMap_eq_map, formSerialize]

/-- The address and the body of what was read. -/
theorem addressAndBody_stateOf (url : Text) :
    (stateOf P request).addressAndBody P url =
      (url, bodyRead P request.headers request.body.wire, []) := by
  obtain ⟨method, address, headers, body⟩ := request
  -- Data is read by what it is once it is joined.
  have hdata : ∀ text : Text, text ≠ [] → ∀ s : CurlState, s.headers = headers →
      s.dataText = text → s.dataBody P = bodyRead P headers (.text text) := by
    intro text htext s hheaders hs
    rw [CurlState.dataBody, bodyRead, hs, if_neg htext, hheaders]
    apply if_congr _ rfl rfl
    simp only [readAsForm, Bool.or_eq_true, decide_eq_true_eq]
    rfl
  cases body with
  | none => rfl
  | raw text =>
      by_cases htext : text = []
      · subst htext
        rfl
      · rw [ExportBody.wire,
          ← hdata text htext (stateOf P ⟨method, address, headers, .raw text⟩) rfl]
        · simp [CurlState.addressAndBody, stateOf, dataOf, partsOf, isBinaryOnly, htext,
            CurlState.filesLeftOut, CurlState.dataFiles, Datum.file?]
        · simp [CurlState.dataText, stateOf, dataOf, htext, Datum.text?, joinWith]
  | urlencoded fields =>
      by_cases hne : fields = []
      · subst hne
        rfl
      · rw [ExportBody.wire, ← hdata _ (mt formSerialize_eq_nil_iff.mp hne)
          (stateOf P ⟨method, address, headers, .urlencoded fields⟩) rfl
          (dataText_map_formPair rfl)]
        obtain ⟨field, rest, rfl⟩ := List.exists_cons_of_ne_nil hne
        simp [CurlState.addressAndBody, stateOf, dataOf, partsOf, isBinaryOnly,
          CurlState.filesLeftOut, CurlState.dataFiles, Datum.file?]
  | multipart parts =>
      by_cases hne : parts = []
      · subst hne
        rfl
      · simp [CurlState.addressAndBody, stateOf, dataOf, partsOf, hne, bodyRead, ExportBody.wire]
  | binary fileName =>
      cases fileName with
      | nil => rfl
      | cons c rest => rfl

/-- A written command is a command for a shell. -/
theorem isCurlCommand_buildCurl (hsaid : unsayable request.body = none) :
    isCurlCommand (buildCurl request) = true ∧ isCmd (buildCurl request) = false := by
  have hbuilt : buildCurl request = joinWith (units " \\\n  ") (curlArguments request) := by
    rw [buildCurl, hsaid]
  rw [hbuilt]
  constructor
  · obtain ⟨next, rest, hrest⟩ : ∃ next rest, curlArguments request =
        units "curl" :: next :: rest := by
      rw [curlArguments]
      cases methodArgument request.method with
      | nil => exact ⟨_, _, rfl⟩
      | cons first others => exact ⟨_, _, rfl⟩
    have hjoin : joinWith (units " \\\n  ") (units "curl" :: next :: rest) =
        units "curl" ++ (units " \\\n  " ++ joinWith (units " \\\n  ") (next :: rest)) := by
      simp [joinWith, List.intercalate_cons_cons]
    rw [hrest, hjoin]
    have hcurl : units "curl" = [0x63, 0x75, 0x72, 0x6C] := by decide
    have hsep : units " \\\n  " = [space, 0x5C, 0x0A, space, space] := by decide
    have hletter : isWhite 0x63 = false := by decide
    have hspace : isWhite space = true := by decide
    rw [hcurl, hsep, isCurlCommand, hcurl, trimStart_of_head]
    · simp [asciiLower, hspace]
    · rintro c hc
      obtain rfl := Option.mem_some_iff.mp hc
      exact hletter
  · have hquote : (0x27 : CodeUnit) ∈ urlArgument request.url := by
      rw [urlArgument]
      split_ifs <;> simp [shellQuote, singleQuote]
    have hmem : (0x27 : CodeUnit) ∈ joinWith (units " \\\n  ") (curlArguments request) :=
      mem_joinWith_of_mem (by simp [curlArguments]) hquote
    rw [isCmd, List.contains_eq_mem, decide_eq_true hmem, Bool.not_true, Bool.and_false]

/-- A written command is parsed as its request. -/
theorem parseCurl_buildCurl (hheaders : ∀ header ∈ request.headers, IsPlainHeader header)
    (hsaid : unsayable request.body = none) :
    parseCurl P (buildCurl request) =
      if isHttpMethod (methodRead P request) then
        .ok { request := requestRead P request, basic := none, warnings := [] }
      else refused (units "The cURL command's method, " ++ methodRead P request ++
        units ", is not an HTTP method: one word of at most 32 characters.") := by
  obtain ⟨hcurl, hcmd⟩ := isCurlCommand_buildCurl hsaid
  have hmethod : (stateOf P request).methodOf (bodyRead P request.headers request.body.wire) =
      methodRead P request := by
    rw [CurlState.methodOf, stateOf, methodRead]
    have hother : units "GET" ≠ units "HEAD" := by decide
    by_cases hhead : request.method = units "HEAD"
    · simp [hhead]
    · by_cases hget : request.method = units "GET"
      · simp [hget, hother]
      · simp [hhead, hget]
  have hparsed : (stateOf P request).parsed P =
      if isHttpMethod (methodRead P request) then
        .ok { request := requestRead P request, basic := none, warnings := [] }
      else refused (units "The cURL command's method, " ++ methodRead P request ++
        units ", is not an HTTP method: one word of at most 32 characters.") := by
    have hurls : (stateOf P request).urls = [request.url] := rfl
    rw [CurlState.parsed, hurls]
    simp only [addressAndBody_stateOf, hmethod]
    rfl
  rw [parseCurl, if_pos hcurl, hcmd]
  show (bashWords (buildCurl request) >>= fun words =>
    CurlState.readWords P {} words.tail >>= fun s => s.parsed P) = _
  rw [bashWords_buildCurl hsaid]
  show (CurlState.readWords P {} (requestWords request).flatten >>= fun s => s.parsed P) = _
  rw [readWords_requestWords hheaders hsaid]
  exact hparsed

/-! ## The request, built -/

/-- The body that is built of a command of a request. -/
def bodyBuilt (P : Platform) (request : ExportRequest) : ExportBody :=
  builtBody (methodRead P request) ((contentTypeOf P request.headers).getD [])
    (requestRead P request).body

/-- The headers that do not only repeat the type the app sends anyway. -/
def headersKept (P : Platform) (request : ExportRequest) : List (Text × Text) :=
  request.headers.filter fun header => !repeatsType P (impliedBy P (requestRead P request)) header

/-- The request that is built of a command of a request. -/
def requestBuilt (P : Platform) (request : ExportRequest) : ExportRequest where
  method := methodRead P request
  url := normalizeUrl (trim request.url)
  headers := headersWith P (headersKept P request)
    (exportType (appBody P (requestRead P request)) (bodyBuilt P request))
  body := bodyBuilt P request

theorem builtOf_requestRead (hheaders : ∀ header ∈ request.headers, IsPlainHeader header) :
    builtOf P (requestRead P request) = requestBuilt P request := by
  have hkept : namedHeaders (keptHeaders P (requestRead P request)) = headersKept P request :=
    namedHeaders_of_tokens fun header hheader =>
      (hheaders header (List.mem_filter.mp hheader).1).name
  rw [builtOf, hkept]
  rfl

/-- Every text of a request that may hold a variable, those of the form its text is read as among
them. -/
def textsOf (request : ExportRequest) : List Text :=
  trim request.url :: request.headers.flatMap (fun header => [header.1, header.2]) ++
    match request.body.wire with
    | .text t => t :: bodyTextsOf (.urlencoded (searchParams t))
    | .form parts => bodyTextsOf (.multipart parts)
    | .file _ => []

/-- The texts of the body that is read are among the request's. -/
theorem mem_textsOf_of_bodyRead {t : Text}
    (ht : t ∈ bodyTextsOf (requestRead P request).body) : t ∈ textsOf request := by
  apply List.mem_append_right
  revert ht
  rw [requestRead]
  cases request.body.wire with
  | text sent =>
      rw [bodyRead]
      split_ifs with hempty hform
      · intro ht
        cases ht
      · exact List.mem_cons_of_mem _
      · intro ht
        obtain rfl := List.mem_singleton.mp ht
        exact List.mem_cons_self
  | form parts =>
      rw [bodyRead]
      split_ifs with hempty
      · intro ht
        cases ht
      · exact id
  | file fileName => exact id

theorem mem_textsOf_of_builtTexts (hheaders : ∀ header ∈ request.headers, IsPlainHeader header)
    {t : Text} (ht : t ∈ builtTexts (requestRead P request)) : t ∈ textsOf request := by
  obtain hown | hbody := List.mem_append.mp ht
  · apply List.mem_append_left
    obtain rfl | hheader := List.mem_cons.mp hown
    · exact List.mem_cons_self
    · apply List.mem_cons_of_mem
      obtain ⟨header, hmem, hpart⟩ := List.mem_flatMap.mp hheader
      rw [trim_of_isToken (hheaders header hmem).name] at hpart
      exact List.mem_flatMap.mpr ⟨header, hmem, hpart⟩
  · exact mem_textsOf_of_bodyRead hbody

/-! ## Headers by name -/

/-- A type that is dropped and added again is the same where it was the last header, written as the
app writes it. -/
theorem dropped_and_added_iff {headers : List (Text × Text)}
    (hlower : P.toLowerCase (units "Content-Type") = contentTypeName)
    (hnodup : (lowerNames P headers).Nodup) {type : Text} (htype : type ≠ []) :
    headersWith P (headers.filter fun header => !repeatsType P (some type) header) (some type) =
        headers ↔
      contentTypeName ∈ lowerNames P headers ∧
        ∀ header ∈ headers, repeatsType P (some type) header = true →
          header = typeHeader type ∧ headers.getLast? = some header := by
  have hsub : (lowerNames P (headers.filter fun header =>
      !repeatsType P (some type) header)).Nodup :=
    hnodup.sublist (List.filter_sublist.map _)
  have hnamed : ∀ header, repeatsType P (some type) header = true →
      P.toLowerCase header.1 = contentTypeName := by
    intro header hrepeats
    exact of_decide_eq_true (Bool.and_eq_true_iff.mp hrepeats).1
  rw [headersWith_of_nodup hsub]
  simp only [ne_eq, htype, not_false_eq_true, true_and]
  constructor
  · intro hsame
    split_ifs at hsame with hnamedKept
    · refine ⟨hsame ▸ hnamedKept, ?_⟩
      intro header hheader hrepeats
      rw [← hsame] at hheader
      simp [hrepeats] at hheader
    · have hlast : headers.getLast? = some (typeHeader type) := by
        rw [← hsame, List.getLast?_concat]
      refine ⟨List.mem_map.mpr ⟨typeHeader type, List.mem_of_mem_getLast? hlast, hlower⟩, ?_⟩
      intro header hheader hrepeats
      rw [← hsame] at hheader
      obtain hkept | hown := List.mem_append.mp hheader
      · simp [hrepeats] at hkept
      · obtain rfl := List.mem_singleton.mp hown
        exact ⟨rfl, hlast⟩
  · rintro ⟨hmem, hlast⟩
    obtain ⟨own, hown, hname⟩ := List.mem_map.mp hmem
    by_cases hrepeats : repeatsType P (some type) own = true
    · -- The only header of that name is the last one.
      obtain ⟨rfl, hend⟩ := hlast own hown hrepeats
      obtain ⟨front, rfl⟩ : ∃ front, headers = front ++ [typeHeader type] :=
        ⟨headers.dropLast, (List.dropLast_append_getLast? _ hend).symm⟩
      have hother : contentTypeName ∉ lowerNames P front := by
        intro hfront
        rw [lowerNames, List.map_append] at hnodup
        exact (List.nodup_append'.mp hnodup).2.2 hfront (by simp [typeHeader, hlower])
      have hfront : front.filter (fun header => !repeatsType P (some type) header) = front := by
        apply List.filter_eq_self.mpr
        intro header hheader
        have hplain : repeatsType P (some type) header ≠ true := fun hr =>
          hother (List.mem_map.mpr ⟨header, hheader, hnamed header hr⟩)
        simpa using hplain
      rw [List.filter_append, hfront]
      simp [hrepeats, hother]
    · have hnone : headers.filter (fun header => !repeatsType P (some type) header) = headers := by
        apply List.filter_eq_self.mpr
        intro header hheader
        have hplain : repeatsType P (some type) header ≠ true := by
          intro hr
          obtain rfl := List.inj_on_of_nodup_map hnodup hheader hown
            ((hnamed header hr).trans hname.symm)
          exact hrepeats hr
        simpa using hplain
      rw [hnone, if_neg (not_not.mpr hmem)]

/-! ## What has to hold of a request -/

/-- What has to hold of what a body puts on the wire. A text needs a type: one that is read as a
form is what a form writes, and a header that only repeats the type the app writes is written as the
app writes it, and last. A form has parts, and no header with its type; a file has a type. -/
def BodyCopies (P : Platform) (headers : List (Text × Text)) : ExportWire → Prop
  | .text t =>
      t ≠ [] →
        contentTypeName ∈ lowerNames P headers ∧
        (readAsForm P headers = true → formSerialize (searchParams t) = t) ∧
        ∀ header ∈ headers, repeatsType P (some (typeOfText P headers)) header = true →
          header = typeHeader (typeOfText P headers) ∧ headers.getLast? = some header
  | .form parts =>
      parts ≠ [] ∧
        ∀ header ∈ headers, repeatsType P (some (units "multipart/form-data")) header = false
  | .file _ => (contentTypeOf P headers).getD [] ≠ []

/-- What has to hold of a request. -/
structure Copies (P : Platform) (request : ExportRequest) : Prop where
  method : request.method = units "GET" ∨ request.method = units "HEAD" ∨
    (P.toUpperCase request.method = request.method ∧ isHttpMethod request.method = true)
  /-- These two methods carry nothing. -/
  carries : request.method = units "GET" ∨ request.method = units "HEAD" →
    request.body.wire = .text []
  address : normalizeUrl (trim request.url) = request.url
  names : (lowerNames P request.headers).Nodup
  body : BodyCopies P request.headers request.body.wire

/-- A request that puts nothing on the wire is built without a body, and of all its headers. -/
theorem requestBuilt_of_nothing (hnothing : request.body.wire = .text []) :
    requestBuilt P request =
      { method := methodRead P request, url := normalizeUrl (trim request.url),
        headers := headersWith P request.headers none, body := .none } := by
  have hbody : (requestRead P request).body = .none := by
    rw [requestRead, hnothing]
    rfl
  have hbuilt : bodyBuilt P request = .none := by
    rw [bodyBuilt, hbody, builtBody.eq_def]
    split_ifs <;> rfl
  have hkept : headersKept P request = request.headers := by
    rw [headersKept, impliedBy, hbody]
    exact filter_repeatsType_eq_iff.mpr fun header _ => repeatsType_none header
  rw [requestBuilt, hbuilt, hkept]
  rfl

/-- The request that is built of a text. -/
theorem requestBuilt_of_text {t : Text} (hwire : request.body.wire = .text t) (ht : t ≠ [])
    (hcarries : ¬(methodRead P request = units "GET" ∨ methodRead P request = units "HEAD")) :
    requestBuilt P request =
      { method := methodRead P request, url := normalizeUrl (trim request.url),
        headers := headersWith P (request.headers.filter fun header =>
          !repeatsType P (some (typeOfText P request.headers)) header)
          (some (typeOfText P request.headers)),
        body :=
          if readAsForm P request.headers then .urlencoded (searchParams t) else .raw t } := by
  have hbody : (requestRead P request).body =
      if readAsForm P request.headers then .urlencoded (searchParams t) else .raw t := by
    rw [requestRead]
    dsimp only
    rw [hwire, bodyRead, if_neg ht]
  have hbuilt : bodyBuilt P request = (requestRead P request).body := by
    rw [bodyBuilt, builtBody.eq_def, if_neg hcarries, hbody]
    split_ifs <;> rfl
  have himplied : impliedBy P (requestRead P request) = some (typeOfText P request.headers) := by
    rw [impliedBy, hbody, typeOfText]
    split_ifs <;> rfl
  have hadded : exportType (appBody P (requestRead P request)) (bodyBuilt P request) =
      some (typeOfText P request.headers) := by
    rw [hbuilt, appBody, hbody, typeOfText]
    split_ifs with hform
    · rfl
    · obtain ⟨c, rest, rfl⟩ := List.exists_cons_of_ne_nil ht
      rfl
  rw [requestBuilt, hadded, headersKept, himplied, hbuilt, hbody]

/-- The request that is built of a form of parts. -/
theorem requestBuilt_of_form {parts : List ExportPart} (hwire : request.body.wire = .form parts)
    (hne : parts ≠ [])
    (hcarries : ¬(methodRead P request = units "GET" ∨ methodRead P request = units "HEAD")) :
    requestBuilt P request =
      { method := methodRead P request, url := normalizeUrl (trim request.url),
        headers := headersWith P (request.headers.filter fun header =>
          !repeatsType P (some (units "multipart/form-data")) header) none,
        body := .multipart parts } := by
  have hbody : (requestRead P request).body = .multipart parts := by
    rw [requestRead]
    dsimp only
    rw [hwire, bodyRead, if_neg hne]
  have hbuilt : bodyBuilt P request = .multipart parts := by
    rw [bodyBuilt, builtBody.eq_def, if_neg hcarries, hbody]
  rw [requestBuilt, hbuilt, headersKept, impliedBy, hbody]
  rfl

/-- The request that is built of a file. -/
theorem requestBuilt_of_file {fileName : Text} (hwire : request.body.wire = .file fileName)
    (hcarries : ¬(methodRead P request = units "GET" ∨ methodRead P request = units "HEAD")) :
    requestBuilt P request =
      { method := methodRead P request, url := normalizeUrl (trim request.url),
        headers := headersWith P request.headers
          (bodyContentType (appBody P (requestRead P request))),
        body := .binary (if (contentTypeOf P request.headers).getD [] ≠ [] then fileName
          else []) } := by
  have hbody : (requestRead P request).body = .binary fileName := by
    rw [requestRead]
    dsimp only
    rw [hwire, bodyRead]
  have hbuilt : bodyBuilt P request =
      .binary (if (contentTypeOf P request.headers).getD [] ≠ [] then fileName else []) := by
    rw [bodyBuilt, builtBody.eq_def, if_neg hcarries, hbody]
  have hkept : headersKept P request = request.headers := by
    rw [headersKept, impliedBy, hbody]
    exact filter_repeatsType_eq_iff.mpr fun header _ => repeatsType_none header
  rw [requestBuilt, hbuilt, hkept]
  rfl

/-- Where a method carries a body, what is built has that body and those headers. -/
theorem built_body_iff (hlower : P.toLowerCase (units "Content-Type") = contentTypeName)
    (hcarries : ¬(methodRead P request = units "GET" ∨ methodRead P request = units "HEAD"))
    (hnodup : (lowerNames P request.headers).Nodup) :
    ((requestBuilt P request).headers = request.headers ∧
        (requestBuilt P request).body.wire = request.body.wire) ↔
      BodyCopies P request.headers request.body.wire := by
  cases hwire : request.body.wire with
  | text t =>
      by_cases ht : t = []
      · subst ht
        rw [requestBuilt_of_nothing hwire]
        simp [headersWith_of_nodup hnodup, ExportBody.wire, BodyCopies]
      · -- A type is added where there is none, and dropped where it says what the body says.
        rw [requestBuilt_of_text hwire ht hcarries, BodyCopies,
          dropped_and_added_iff hlower hnodup (typeOfText_ne_nil _)]
        by_cases hform : readAsForm P request.headers = true
        · simp [hform, ExportBody.wire, ht]
          tauto
        · simp [hform, ExportBody.wire, ht]
  | form parts =>
      by_cases hne : parts = []
      · have hbuilt : bodyBuilt P request = .none := by
          rw [bodyBuilt, builtBody.eq_def, if_neg hcarries, requestRead]
          dsimp only
          rw [hwire, bodyRead, if_pos hne]
        simp [requestBuilt, hbuilt, ExportBody.wire, BodyCopies, hne]
      · have hsub : (lowerNames P (request.headers.filter fun header =>
            !repeatsType P (some (units "multipart/form-data")) header)).Nodup :=
          hnodup.sublist (List.filter_sublist.map _)
        rw [requestBuilt_of_form hwire hne hcarries, BodyCopies]
        simp only [headersWith_of_nodup hsub, ExportBody.wire, and_true, ne_eq, hne,
          not_false_eq_true, true_and]
        exact filter_repeatsType_eq_iff
  | file fileName =>
      -- A body of a file has a name: without one nothing is sent.
      have hname : fileName ≠ [] := by
        rintro rfl
        cases hbody : request.body with
        | binary own => cases own <;> simp [hbody, ExportBody.wire] at hwire
        | none => simp [hbody, ExportBody.wire] at hwire
        | raw text => simp [hbody, ExportBody.wire] at hwire
        | urlencoded fields => simp [hbody, ExportBody.wire] at hwire
        | multipart parts => simp [hbody, ExportBody.wire] at hwire
      rw [requestBuilt_of_file hwire hcarries, BodyCopies]
      by_cases htype : (contentTypeOf P request.headers).getD [] = []
      · simp [htype, ExportBody.wire]
      · have hmem : contentTypeName ∈ lowerNames P request.headers := by
          cases hlast : (request.headers.filter fun header =>
              P.toLowerCase header.1 = contentTypeName).getLast? with
          | none => simp [contentTypeOf, hlast] at htype
          | some header =>
              obtain ⟨hheader, hown⟩ := List.mem_filter.mp (List.mem_of_mem_getLast? hlast)
              exact List.mem_map.mpr ⟨header, hheader, of_decide_eq_true hown⟩
        obtain ⟨c, rest, rfl⟩ := List.exists_cons_of_ne_nil hname
        rw [headersWith_of_nodup hnodup]
        cases bodyContentType (appBody P (requestRead P request)) with
        | none => simp [htype, ExportBody.wire]
        | some type => simp [htype, ExportBody.wire, hmem]

/-- What is built says the same exactly where the request is one that is copied. -/
theorem saysSame_iff (hlower : P.toLowerCase (units "Content-Type") = contentTypeName) :
    (isHttpMethod (methodRead P request) = true ∧ request.url ≠ [] ∧
        SaysSame request (requestBuilt P request)) ↔ Copies P request := by
  have hget : isHttpMethod (units "GET") = true := by decide
  have hhead : isHttpMethod (units "HEAD") = true := by decide
  have hother : units "GET" ≠ units "HEAD" := by decide
  have hurl : normalizeUrl (trim []) ≠ [] := by decide
  have hnone : request.body.wire = .text [] →
      bodyRead P request.headers request.body.wire = .none := by
    intro hwire
    rw [hwire]
    rfl
  constructor
  · rintro ⟨hmethod, hne, hsame⟩
    -- What the built request says decides the method, the names and then the body.
    have hsent : methodRead P request = request.method := hsame.method
    have hnodup : (lowerNames P request.headers).Nodup := by
      rw [← hsame.headers]
      exact nodup_headersWith hlower _
    have hcarries : request.method = units "GET" ∨ request.method = units "HEAD" →
        request.body.wire = .text [] := by
      intro hbare
      have hbuilt : (requestBuilt P request).body = .none := by
        rw [requestBuilt, bodyBuilt, builtBody.eq_def, hsent, if_pos hbare]
      rw [← hsame.wire, hbuilt]
      rfl
    refine ⟨?_, hcarries, hsame.url, hnodup, ?_⟩
    · by_cases hbare : request.method = units "GET" ∨ request.method = units "HEAD"
      · rcases hbare with h | h
        · exact .inl h
        · exact .inr (.inl h)
      · obtain ⟨hnotGet, hnotHead⟩ := not_or.mp hbare
        rw [methodRead, if_neg hnotHead, if_neg hnotGet] at hsent hmethod
        exact .inr (.inr ⟨hsent, hsent ▸ hmethod⟩)
    · by_cases hbare : request.method = units "GET" ∨ request.method = units "HEAD"
      · rw [hcarries hbare]
        exact fun hempty => absurd rfl hempty
      · rw [← hsent] at hbare
        exact (built_body_iff hlower hbare hnodup).mp ⟨hsame.headers, hsame.wire⟩
  · intro hcopies
    -- A method that is left out of the command is the one the import takes.
    have hsent : methodRead P request = request.method := by
      rw [methodRead]
      rcases hcopies.method with h | h | h
      · rw [h, if_neg hother, if_pos rfl, if_pos (hnone (hcopies.carries (.inl h)))]
      · rw [h, if_pos rfl]
      · split_ifs with hisHead hisGet hempty
        · exact hisHead.symm
        · exact hisGet.symm
        · exact absurd (hnone (hcopies.carries (.inl hisGet))) hempty
        · exact h.1
    have hbuilt : (requestBuilt P request).headers = request.headers ∧
        (requestBuilt P request).body.wire = request.body.wire := by
      by_cases hbare : request.method = units "GET" ∨ request.method = units "HEAD"
      · have hnothing := hcopies.carries hbare
        rw [requestBuilt_of_nothing hnothing, hnothing]
        exact ⟨headersWith_of_nodup hcopies.names none, rfl⟩
      · rw [← hsent] at hbare
        exact (built_body_iff hlower hbare hcopies.names).mpr hcopies.body
    refine ⟨?_, ?_, hsent, hcopies.address, hbuilt.1, hbuilt.2⟩
    · rw [hsent]
      rcases hcopies.method with h | h | h
      · rw [h]
        exact hget
      · rw [h]
        exact hhead
      · exact h.2
    · intro hempty
      have haddress := hcopies.address
      rw [hempty] at haddress
      exact hurl haddress

/-! ## The theorem -/

/-- A copied command says the request it was copied of: read and built, it is that request. -/
def Copied (P : Platform) (request : ExportRequest) (r : Resolver) (ancestors : List Ancestor) :
    Prop :=
  ∃ found, commandBuilt P (buildCurl request) r ancestors = some found ∧ SaysSame request found

/-- What a copied command is read and built as. -/
theorem commandBuilt_buildCurl (hheaders : ∀ header ∈ request.headers, IsPlainHeader header)
    (hsaid : unsayable request.body = none) {r : Resolver}
    (hplain : ∀ t ∈ textsOf request, r.Plain t) (ancestors : List Ancestor) :
    commandBuilt P (buildCurl request) r ancestors =
      if isHttpMethod (methodRead P request) = true ∧ request.url ≠ [] then
        some (requestBuilt P request)
      else none := by
  rw [commandBuilt, parseCurl_buildCurl hheaders hsaid]
  by_cases hmethod : isHttpMethod (methodRead P request) = true
  · rw [if_pos hmethod]
    dsimp only
    by_cases hurl : request.url = []
    · have hempty : (curlRequest P
          { request := requestRead P request, basic := none, warnings := [] }).1.url = [] := hurl
      rw [exportSource, if_pos hempty, if_neg fun h => h.2 hurl]
      rfl
    · obtain ⟨findings, hbuilt⟩ := gives_exportSource (P := P) (q := requestRead P request) hurl
        (fun t ht => hplain t (mem_textsOf_of_builtTexts hheaders ht)) [] ancestors {}
      rw [hbuilt, if_pos ⟨hmethod, hurl⟩, builtOf_requestRead hheaders]
  · rw [if_neg hmethod, if_neg fun h => hmethod h.1]
    rfl

end CopiedCurl

/-- Words in quotes are read as they are, and a copied command says its request exactly where the
request is one that is copied. -/
theorem copied_iff {P : Platform}
    (hlower : P.toLowerCase (units "Content-Type") = units "content-type")
    {request : ExportRequest} (hsaid : unsayable request.body = none)
    (hheaders : ∀ header ∈ request.headers, CopiedCurl.IsPlainHeader header)
    {r : Resolver} (hplain : ∀ t ∈ CopiedCurl.textsOf request, r.Plain t)
    (ancestors : List Ancestor) :
    (∀ values, bashWords (joinWith (units " ") (values.map shellQuote)) = .ok values) ∧
      (CopiedCurl.Copied P request r ancestors ↔ CopiedCurl.Copies P request) := by
  refine ⟨bashWords_quoted, ?_⟩
  rw [← CopiedCurl.saysSame_iff hlower, CopiedCurl.Copied,
    CopiedCurl.commandBuilt_buildCurl hheaders hsaid hplain]
  constructor
  · rintro ⟨found, hfound, hsame⟩
    split_ifs at hfound with hread
    obtain rfl := Option.some.inj hfound
    exact ⟨hread.1, hread.2, hsame⟩
  · rintro ⟨hmethod, hurl, hsame⟩
    exact ⟨_, if_pos ⟨hmethod, hurl⟩, hsame⟩

/-- A body of JSON under its type, with nothing more said of that. -/
def plainJson : ExportRequest where
  method := units "POST"
  url := units "https://api.test/items"
  headers := [(units "Accept", units "*/*"), (units "Content-Type", units "application/json")]
  body := .raw (units "[1, 2]")

theorem plainJson_copied :
    CopiedCurl.Copied plainPlatform plainJson (Resolver.new {}) [] := by
  have hheaders : ∀ header ∈ plainJson.headers, CopiedCurl.IsPlainHeader header := by
    intro header hheader
    have hall : ∀ header ∈ plainJson.headers,
        CopiedCurl.isToken header.1 = true ∧ trim header.2 = header.2 := by decide +kernel
    exact ⟨(hall header hheader).1, (hall header hheader).2⟩
  have hplain : ∀ t ∈ CopiedCurl.textsOf plainJson, openBrace ∉ t := by decide +kernel
  refine ((copied_iff (by decide +kernel) rfl hheaders
    (fun t ht => Resolver.plain_of_not_mem (hplain t ht)) []).2).mpr ⟨?_, ?_, ?_, ?_, ?_⟩
  · exact .inr (.inr (by decide +kernel))
  · intro hbare
    exact absurd hbare (by decide +kernel)
  · decide +kernel
  · decide +kernel
  · exact fun _ => ⟨by decide +kernel, by decide +kernel, by decide +kernel⟩

/-- A body of JSON whose type names its characters too. -/
def typedJson : ExportRequest where
  method := units "POST"
  url := units "https://api.test/items"
  headers := [(units "Content-Type", units "application/json; charset=utf-8")]
  body := .raw (units "\x7b\"a\":1\x7d")

/-- The request that is built of its command is sent under `application/json` alone. -/
theorem typedJson_not_copied :
    (∀ header ∈ typedJson.headers, CopiedCurl.IsPlainHeader header) ∧
      ¬ CopiedCurl.Copied plainPlatform typedJson (Resolver.new {}) [] := by
  constructor
  · intro header hheader
    obtain rfl := List.mem_singleton.mp hheader
    exact ⟨by decide +kernel, by decide +kernel⟩
  · rintro ⟨found, hfound, hsame⟩
    have hother : (BuiltCurl.commandBuilt plainPlatform (buildCurl typedJson) (Resolver.new {})
        []).any (fun found => found.headers = typedJson.headers) = false := by decide +kernel
    rw [hfound] at hother
    exact of_decide_eq_false hother hsame.headers

end Wayfarer
