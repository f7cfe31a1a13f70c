import Wayfarer.Import.Har

/-!
# A HAR read back

`har_readBack_iff` says for which exchanges the requests read from a HAR are the ones it was written
of: same method, address and headers, and same bytes of the body, but for a body the exporter says
it left out. A text under a form's type is read as fields and written anew, so it has to be what a
form writes (`spacedForm_not_readBack`); and a body's type has to say the form it is stated in.
-/

set_option autoImplicit false

namespace Wayfarer

open Library

namespace Har

variable {P : HarPlatform}

/-! ## What is read of a written value -/

@[simp]
theorem text_string (t : Text) : text (some (.string t)) = t := rfl

/-- Of a list of written objects each is read. -/
theorem list_map_object {α : Type} (items : List α) (f : α → Fields) :
    list (some (.array (items.map fun item => .object (f item)))) = items.map f := by
  induction items with
  | nil => rfl
  | cons item items ih =>
      have hcons :
          list (some (.array (.object (f item) :: items.map fun item => .object (f item)))) =
          f item :: list (some (.array (items.map fun item => .object (f item)))) := rfl
      rw [List.map_cons, List.map_cons, hcons, ih]

/-- Names and values are read back. -/
theorem params_harPairs (entries : List (Text × Text)) :
    (list (some (harPairs entries))).map param = entries := by
  rw [harPairs, list_map_object, List.map_map]
  apply (List.map_congr_left _).trans (List.map_id _)
  intro entry _
  rfl

/-- A part of a form as its members. -/
def partFields (part : ExportPart) : Fields :=
  match part.value with
  | .text value => [(units "name", .string part.name), (units "value", .string value)]
  | .file fileName => [(units "name", .string part.name), (units "fileName", .string fileName)]

theorem part_partFields (p : ExportPart) : part (partFields p) = p := by
  obtain ⟨name, value⟩ := p
  cases value with
  | text value => rfl
  | file fileName => rfl

theorem map_harPart (parts : List ExportPart) :
    parts.map harPart = parts.map fun p => .object (partFields p) := by
  apply List.map_congr_left
  rintro ⟨name, value⟩ -
  cases value <;> rfl

theorem parts_partFields (parts : List ExportPart) :
    (parts.map partFields).map part = parts := by
  rw [List.map_map]
  apply (List.map_congr_left _).trans (List.map_id _)
  intro p _
  exact part_partFields p

/-! ## A body read back -/

/-- What the exporter's comment says it left out: a text that is too long, and a file. -/
def leftOut : ExportBody → Bool
  | .raw content => harMaxBodyChars < content.length
  | .binary _ => true
  | _ => false

/-- The type a body is stated under when its headers name none. -/
def ownType : ExportBody → String
  | .none => ""
  | .raw _ => "text/plain"
  | .urlencoded _ => "application/x-www-form-urlencoded"
  | .multipart _ => "multipart/form-data"
  | .binary _ => "application/octet-stream"

/-- The type a body is read by, in lower case. -/
def typeRead (P : HarPlatform) (r : ExportRequest) : Text :=
  P.toLowerCase ((headerValue P r.headers (units "content-type")).getD (units (ownType r.body)))

/-- Whether a type is a multipart form's. -/
def isMultipart (type : Text) : Bool :=
  (units "multipart/form-data").isPrefixOf type

/-- Whether a type is a form's. -/
def isForm (type : Text) : Bool :=
  formType.isPrefixOf type

/-- A body as it is read by its type, of its fields and its text. -/
def bodyBy (type : Text) (params : List Fields) (content : Text) : ExportBody :=
  if isMultipart type then
    if params = [] then .raw content else .multipart (params.map part)
  else if isForm type then
    .urlencoded (if params ≠ [] then params.map param else searchParams content)
  else if content ≠ [] then .raw content
  else .none

/-- A body that is not said to be binary is read by its type. -/
theorem body_object {members : Fields} {type content : Text} {params : List Fields}
    (htype : text (field members (units "mimeType")) = type)
    (hparams : list (field members (units "params")) = params)
    (hcontent : text (field members (units "text")) = content)
    (hplain : field members (units "encoding") = none) :
    (body P (some (.object members))).1 = bodyBy (P.toLowerCase type) params content := by
  simp only [body, htype, hparams, hcontent, hplain, bodyBy, isMultipart, isForm]
  split_ifs with hmulti hempty hform hfields hbinary hfull
  · rfl
  · rfl
  · rfl
  · rfl
  · cases hbinary
  · rfl
  · rfl

/-- A body as it is read of its `postData`. -/
def bodyRead (P : HarPlatform) (r : ExportRequest) : ExportBody :=
  (body P (postData P r.body r.headers)).1

/-- The body that is read of a written one, where the exporter leaves nothing out. -/
theorem bodyRead_eq {r : ExportRequest} (hkept : leftOut r.body = false) :
    bodyRead P r =
      match r.body with
      | .none => .none
      | .raw content => bodyBy (typeRead P r) [] content
      | .urlencoded fields =>
          bodyBy (typeRead P r) (list (some (harPairs fields))) (formSerialize fields)
      | .multipart parts => bodyBy (typeRead P r) (parts.map partFields) []
      | .binary _ => .none := by
  obtain ⟨method, url, headers, sent⟩ := r
  cases sent with
  | none => rfl
  | raw content =>
      have hshort : ¬ harMaxBodyChars < content.length := by simpa [leftOut] using hkept
      rw [bodyRead, postData, if_neg hshort]
      apply body_object <;> rfl
  | urlencoded fields =>
      apply body_object <;> rfl
  | multipart parts =>
      apply body_object
      · rfl
      · show list (some (.array (parts.map harPart))) = parts.map partFields
        rw [map_harPart, list_map_object]
      · rfl
      · rfl
  | binary fileName => cases hkept

/-! ## What has to hold of a body, and of a request -/

/-- A body's type says the form the body is stated in. A text under a form's type is one that a form
writes. -/
def BodySays (P : HarPlatform) (r : ExportRequest) : Prop :=
  match r.body with
  | .none => True
  | .raw content =>
      content.length ≤ harMaxBodyChars → isMultipart (typeRead P r) = false →
        isForm (typeRead P r) = true → formSerialize (searchParams content) = content
  | .urlencoded fields => isMultipart (typeRead P r) = true → fields = []
  | .multipart parts => isMultipart (typeRead P r) = true ∧ parts ≠ []
  | .binary _ => True

/-- A text with no fields is read as that text, but under a form's type. -/
theorem wire_bodyBy_text (type content : Text) :
    (bodyBy type [] content).wire = .text content ↔
      (isMultipart type = false → isForm type = true →
        formSerialize (searchParams content) = content) := by
  rw [bodyBy]
  by_cases hmulti : isMultipart type = true
  · simp [hmulti, ExportBody.wire]
  · rw [if_neg hmulti]
    by_cases hform : isForm type = true
    · simp [hmulti, hform, ExportBody.wire]
    · rw [if_neg hform]
      by_cases hcontent : content = []
      · simp [hcontent, hform, ExportBody.wire]
      · simp [hcontent, hform, ExportBody.wire]

/-- The body is read back exactly where its type says what it is. -/
theorem wire_bodyRead_iff {r : ExportRequest} (hkept : leftOut r.body = false) :
    (bodyRead P r).wire = r.body.wire ↔ BodySays P r := by
  rw [bodyRead_eq hkept, BodySays]
  cases hbody : r.body with
  | none => simp
  | raw content =>
      rw [hbody] at hkept
      have hshort : content.length ≤ harMaxBodyChars := by simpa [leftOut] using hkept
      simpa [hshort, ExportBody.wire] using wire_bodyBy_text (typeRead P r) content
  | urlencoded fields =>
      by_cases hempty : fields = []
      · subst hempty
        simp only [imp_true_iff, iff_true]
        refine (wire_bodyBy_text _ _).mpr fun _ _ => ?_
        exact searchParams_formSerialize [] ▸ rfl
      · -- Fields are written as params, and read from them.
        have hparams : list (some (harPairs fields)) ≠ [] := by
          intro hnone
          have hback := params_harPairs fields
          rw [hnone] at hback
          exact hempty hback.symm
        have hfull : formSerialize fields ≠ [] := by
          intro hnone
          have hback := searchParams_formSerialize fields
          rw [hnone] at hback
          exact hempty (List.map_eq_nil_iff.mp hback.symm)
        simp only [bodyBy, if_neg hparams, if_pos hparams, params_harPairs, if_pos hfull]
        split_ifs with hmulti hform
        · simp [ExportBody.wire, hmulti, hempty]
        · simp [hmulti]
        · simp [ExportBody.wire, hmulti]
  | multipart parts =>
      simp only [bodyBy]
      split_ifs with hmulti hempty hform hfields hfull
      · -- A multipart body without parts is written as a text.
        have hnone : parts = [] := List.map_eq_nil_iff.mp hempty
        simp [ExportBody.wire, hnone]
      · have hsome : parts ≠ [] := fun h => hempty (by simp [h])
        simp [-List.map_map, ExportBody.wire, parts_partFields, hmulti, hsome]
      all_goals simp [ExportBody.wire, hmulti]
  | binary fileName =>
      rw [hbody] at hkept
      cases hkept

/-- What has to hold of a request. -/
structure Says (P : HarPlatform) (r : ExportRequest) : Prop where
  method : P.toUpperCase r.method = r.method ∧ r.method ≠ []
  url : r.url ≠ []
  headers : ∀ header ∈ r.headers, isHeader header = true
  body : BodySays P r

/-- A request read back: what the exporter's comment says it left out is not asked for. -/
structure SameRequest (sent found : ExportRequest) : Prop where
  method : found.method = sent.method
  url : found.url = sent.url
  headers : found.headers = sent.headers
  body : leftOut sent.body = false → found.body.wire = sent.body.wire

/-- The request that is read of a written one. -/
def readBack (P : HarPlatform) (r : ExportRequest) : HarRequest :=
  request P (harRequest P r)

theorem field_harRequest_postData (P : HarPlatform) (r : ExportRequest) :
    field (harRequest P r) (units "postData") = postData P r.body r.headers := by
  rw [harRequest]
  cases postData P r.body r.headers <;> rfl

theorem readBack_request (P : HarPlatform) (r : ExportRequest) :
    (readBack P r).request =
      { method := P.toUpperCase r.method, url := r.url, headers := r.headers.filter isHeader,
        body := bodyRead P r } := by
  have hheaders : (list (field (harRequest P r) (units "headers"))).map param = r.headers :=
    params_harPairs r.headers
  rw [readBack, request, field_harRequest_postData, hheaders]
  rfl

/-- An entry is read as its request, or refused where that has no method or no address. -/
theorem entry_eq_ok_iff {e : HarExchange} {index : Nat} {found : HarRequest} :
    entry P (harEntry P e) index = .ok found ↔
      found = readBack P e.request ∧ P.toUpperCase e.request.method ≠ [] ∧ e.request.url ≠ [] := by
  have hrequest : field (harEntry P e) (units "request") =
      some (.object (harRequest P e.request)) := rfl
  have hread := readBack_request P e.request
  rw [entry, hrequest]
  show (if (readBack P e.request).request.method = [] ∨ (readBack P e.request).request.url = [] then
    _ else Except.ok (readBack P e.request)) = .ok found ↔ _
  rw [hread]
  split_ifs with hnone
  · simp only [refused, reduceCtorEq, false_iff]
    rintro ⟨-, hmethod, hurl⟩
    exact hnone.elim hmethod hurl
  · obtain ⟨hmethod, hurl⟩ := not_or.mp hnone
    constructor
    · intro h
      exact ⟨(Except.ok.inj h).symm, hmethod, hurl⟩
    · rintro ⟨rfl, -, -⟩
      rfl

/-- The same request is read back exactly where the request says what it is. -/
theorem sameRequest_readBack_iff {r : ExportRequest} :
    (P.toUpperCase r.method ≠ [] ∧ r.url ≠ [] ∧ SameRequest r (readBack P r).request) ↔
      Says P r := by
  rw [readBack_request]
  constructor
  · rintro ⟨hnamed, hurl, hsame⟩
    have hupper : P.toUpperCase r.method = r.method := hsame.method
    refine ⟨⟨hupper, hupper ▸ hnamed⟩, hurl, ?_, ?_⟩
    · exact List.filter_eq_self.mp hsame.headers
    · by_cases hkept : leftOut r.body = false
      · exact (wire_bodyRead_iff hkept).mp (hsame.body hkept)
      · rw [BodySays]
        cases hbody : r.body with
        | raw content =>
            intro hshort
            simp [hbody, leftOut, hshort] at hkept
        | binary fileName => trivial
        | none => simp [hbody, leftOut] at hkept
        | urlencoded fields => simp [hbody, leftOut] at hkept
        | multipart parts => simp [hbody, leftOut] at hkept
  · rintro ⟨⟨hupper, hnamed⟩, hurl, hheaders, hbody⟩
    refine ⟨hupper.symm ▸ hnamed, hurl, hupper, rfl, List.filter_eq_self.mpr hheaders, ?_⟩
    intro hkept
    exact (wire_bodyRead_iff hkept).mpr hbody

/-! ## A HAR read back -/

/-- Entries that are read one by one, each at its place. -/
theorem mapM_zipIdx_eq_ok_iff {α β : Type} {f : α × Nat → Except ImportError β} {R : α → β → Prop}
    (hf : ∀ a i b, f (a, i) = .ok b ↔ R a b) {l : List α} {n : Nat} {found : List β} :
    (l.zipIdx n).mapM f = .ok found ↔ List.Forall₂ R l found := by
  induction l generalizing n found with
  | nil =>
      rw [List.forall₂_nil_left_iff]
      exact ⟨fun h => (Except.ok.inj h).symm, fun h => h ▸ rfl⟩
  | cons a l ih =>
      rw [List.zipIdx_cons, List.mapM_cons]
      constructor
      · intro h
        cases hfirst : f (a, n) with
        | error e => simp [hfirst, bind, Except.bind] at h
        | ok b =>
            cases hrest : (l.zipIdx (n + 1)).mapM f with
            | error e => simp [hfirst, hrest, bind, Except.bind] at h
            | ok rest =>
                simp only [hfirst, hrest, bind, Except.bind, pure, Except.pure,
                  Except.ok.injEq] at h
                exact h ▸ List.Forall₂.cons ((hf a n b).mp hfirst) (ih.mp hrest)
      · intro h
        cases h with
        | cons hfirst hrest =>
            simp only [(hf a n _).mpr hfirst, ih.mpr hrest, bind, Except.bind, pure, Except.pure]

/-- Whether an entry is read, and as what, is the same at every place. -/
theorem entry_eq_ok_congr (members : Fields) (i j : Nat) (found : HarRequest) :
    entry P members i = .ok found ↔ entry P members j = .ok found := by
  rw [entry, entry]
  split
  · dsimp only
    split_ifs with hnone
    · exact ⟨(fun h => nomatch h), (fun h => nomatch h)⟩
    · exact Iff.rfl
  · exact ⟨(fun h => nomatch h), (fun h => nomatch h)⟩

theorem parseHar_buildHar_iff {exchanges : List HarExchange} {creator version : Text}
    {found : List HarRequest} :
    parseHar P (buildHar P exchanges creator version) = .ok found ↔
      List.Forall₂ (fun e r => r = readBack P e.request ∧ P.toUpperCase e.request.method ≠ [] ∧
        e.request.url ≠ []) exchanges found := by
  have hentries : entries (buildHar P exchanges creator version) =
      some (exchanges.map fun e => .object (harEntry P e)) := rfl
  rw [parseHar, hentries]
  show ((list (some (.array (exchanges.map fun e => .object (harEntry P e))))).zipIdx.mapM
    fun item => entry P item.1 item.2) = _ ↔ _
  rw [list_map_object, mapM_zipIdx_eq_ok_iff (R := fun members r => entry P members 0 = .ok r)
    fun members i r => entry_eq_ok_congr members i 0 r, List.forall₂_map_left_iff]
  simp only [entry_eq_ok_iff]

/-- A HAR read back: as many requests as were written, in the same order, each the one
it was written of. -/
def ReadBack (P : HarPlatform) (exchanges : List HarExchange) (creator version : Text) : Prop :=
  ∃ found, parseHar P (buildHar P exchanges creator version) = .ok found ∧
    List.Forall₂ (fun e r => SameRequest e.request r.request) exchanges found

end Har

/-- A HAR is read back exactly where each of its requests says what it is. -/
theorem har_readBack_iff (P : HarPlatform) (exchanges : List HarExchange)
    (creator version : Text) :
    Har.ReadBack P exchanges creator version ↔
      ∀ exchange ∈ exchanges, Har.Says P exchange.request := by
  constructor
  · rintro ⟨found, hfound, hsame⟩ exchange hexchange
    have hread := Har.parseHar_buildHar_iff.mp hfound
    obtain ⟨i, hi, rfl⟩ := List.mem_iff_getElem.mp hexchange
    have hlt : i < found.length := hread.length_eq ▸ hi
    obtain ⟨hback, hmethod, hurl⟩ := List.forall₂_iff_get.mp hread |>.2 i hi hlt
    have hkept := List.forall₂_iff_get.mp hsame |>.2 i hi hlt
    rw [hback] at hkept
    exact Har.sameRequest_readBack_iff.mp ⟨hmethod, hurl, hkept⟩
  · intro hall
    refine ⟨exchanges.map fun e => Har.readBack P e.request, ?_, ?_⟩
    · rw [Har.parseHar_buildHar_iff, List.forall₂_map_right_iff, List.forall₂_same]
      intro exchange hexchange
      obtain ⟨hmethod, hurl, -⟩ := Har.sameRequest_readBack_iff.mpr (hall exchange hexchange)
      exact ⟨rfl, hmethod, hurl⟩
    · rw [List.forall₂_map_right_iff, List.forall₂_same]
      intro exchange hexchange
      exact (Har.sameRequest_readBack_iff.mpr (hall exchange hexchange)).2.2

/-! ## A text under a form's type -/

/-- A page that reads letters as ASCII. -/
def asciiPage : HarPlatform where
  parseUrl _ := none
  toLowerCase t := t.map asciiLower
  toUpperCase t := t.map asciiUpper
  parseDate _ := none
  isoDate _ := []

/-- A text with a space in it, sent as a form. -/
def spacedForm : HarExchange where
  startedAt := units "2026-01-01T00:00:00.000Z"
  timeMs := none
  request :=
    { method := units "POST", url := units "https://a.example/"
      headers := [(units "Content-Type", units "application/x-www-form-urlencoded")]
      body := .raw (units "a=1 2") }
  response := none

/-- Its space is read back as a plus sign. -/
theorem spacedForm_not_readBack : ¬ Har.ReadBack asciiPage [spacedForm] [] [] := by
  rintro ⟨found, hfound, hsame⟩
  have hread := Har.parseHar_buildHar_iff.mp hfound
  cases hread with
  | cons hfirst hrest =>
  cases hsame with
  | cons hkept hkepts =>
  obtain ⟨hback, hmethod, hurl⟩ := hfirst
  rw [hback] at hkept
  have hbody := (Har.sameRequest_readBack_iff.mp ⟨hmethod, hurl, hkept⟩).body
  have hplus : formSerialize (searchParams (units "a=1 2")) = units "a=1 2" := by
    apply hbody
    all_goals decide +kernel
  exact absurd hplus (by decide +kernel)

end Wayfarer
