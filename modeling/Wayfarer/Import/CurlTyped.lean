import Wayfarer.Import.CurlAddress

/-!
# The type a command's body is sent under once it is imported

The type of the request that is built, against curl's: a header that only repeats the type the app
writes is left out, the others of one name are one line, and that type is added where none is named.
`type_iff` says where the types are the same.
-/

set_option autoImplicit false

namespace Wayfarer

open Library CopiedCurl BuiltCurl

namespace CurlSends

variable {P : Platform} {escape : Text → Text} {args : List CurlArgument}

/-! ## The type that headers name -/

/-- The type is what the last line that names one says. -/
theorem contentTypeOf_eq_getLast? (headers : List (Text × Text)) :
    contentTypeOf P headers = (CurlRules.typeLines P headers).getLast? :=
  List.getLast?_map.symm

/-- In a map of headers by name there is one of each. -/
theorem typeLines_values {m : OrderedMap Text (Text × Text)}
    (h : ∀ e ∈ m.entries, P.toLowerCase e.2.1 = e.1) :
    CurlRules.typeLines P m.values = ((m.get? contentTypeName).map Prod.snd).toList := by
  have hkeys : ∀ l : List (Text × Text × Text), (∀ e ∈ l, P.toLowerCase e.2.1 = e.1) →
      (l.map Prod.fst).Nodup →
      CurlRules.typeLines P (l.map Prod.snd) =
        (((l.find? fun e => e.1 = contentTypeName).map Prod.snd).map Prod.snd).toList := by
    intro l hl hnodup
    rw [CurlRules.typeLines]
    induction l with
    | nil => rfl
    | cons e l ih =>
        obtain ⟨he, hrest⟩ := List.forall_mem_cons.mp hl
        rw [List.map_cons, List.nodup_cons] at hnodup
        have hlater := ih hrest hnodup.2
        rw [List.map_cons, List.find?_cons]
        by_cases hkey : e.1 = contentTypeName
        · -- No later entry has this key.
          have hnone : l.find? (fun e => e.1 = contentTypeName) = none := by
            rw [List.find?_eq_none]
            intro later hmem hsame
            have heq : later.1 = e.1 := (of_decide_eq_true hsame).trans hkey.symm
            exact hnodup.1 (heq ▸ List.mem_map_of_mem hmem)
          rw [hnone] at hlater
          rw [List.filter_cons_of_pos (by simp [he, hkey]), List.map_cons, hlater]
          simp [hkey]
        · rw [List.filter_cons_of_neg (by simp [he, hkey]), hlater]
          simp [hkey]
  exact hkeys m.entries h m.nodup

/-- The type of headers by name: the one they name, or the one that is added. -/
theorem typeLines_headersWith (hlower : P.toLowerCase (units "Content-Type") = contentTypeName)
    (headers : List (Text × Text)) (added : Option Text) :
    CurlRules.typeLines P (headersWith P headers added) =
      ((contentTypeOf P headers).or (added.filter (· ≠ []))).toList := by
  -- The headers by their names, each with the last value it was given.
  let rows := OrderedMap.ofPairs (headers.map fun header => (P.toLowerCase header.1, header))
  have hrows : ∀ e ∈ rows.entries, P.toLowerCase e.2.1 = e.1 := by
    intro e he
    obtain ⟨header, -, rfl⟩ := List.mem_map.mp (OrderedMap.mem_of_mem_entries_ofPairs he)
    rfl
  have hget : (rows.get? contentTypeName).map Prod.snd = contentTypeOf P headers := by
    rw [OrderedMap.get?_ofPairs, contentTypeOf, List.filter_map, List.getLast?_map, Option.map_map,
      Option.map_map]
    rfl
  cases added with
  | none =>
      rw [Option.filter_none, Option.or_none, ← hget]
      exact typeLines_values hrows
  | some type =>
      rw [headersWith]
      -- The type of the body is added where none is named.
      by_cases hadded : type ≠ [] ∧ contentTypeName ∉ rows.keys
      · rw [if_pos hadded, typeLines_values, OrderedMap.get?_set, if_pos rfl]
        · have hnone : contentTypeOf P headers = none := by
            rw [← hget, OrderedMap.get?_eq_none_iff.mpr hadded.2]
            rfl
          rw [hnone, Option.none_or, Option.filter_some_pos (by simpa using hadded.1)]
          rfl
        · intro e he
          obtain rfl | he := OrderedMap.mem_entries_set he
          · exact hlower
          · exact hrows e he
      · rw [if_neg hadded, typeLines_values hrows, hget]
        by_cases htype : type = []
        · rw [htype, Option.filter_some_neg (by simp), Option.or_none]
        · have hmem : contentTypeName ∈ rows.keys := by
            by_contra hno
            exact hadded ⟨htype, hno⟩
          have hsome : contentTypeOf P headers ≠ none := by
            rw [← hget]
            intro hnone
            exact OrderedMap.get?_eq_none_iff.mp (Option.map_eq_none_iff.mp hnone) hmem
          obtain ⟨own, hown⟩ := Option.ne_none_iff_exists'.mp hsome
          rw [hown]
          rfl

/-! ## The types a command gives -/

/-- The types that are read: one that is not sent is read as an empty one. -/
def typesRead (P : Platform) (args : List CurlArgument) : List Text :=
  (CurlRules.typesGiven P args).map fun given => given.getD []

theorem typeLines_headersRead : CurlRules.typeLines P (headersRead args) = typesRead P args := by
  rw [CurlRules.typeLines, typesRead, CurlRules.typesGiven, headersRead, List.filter_map,
    List.map_map, List.map_map]
  rfl

theorem contentTypeOf_headersRead :
    contentTypeOf P (headersRead args) = (typesRead P args).getLast? := by
  rw [contentTypeOf_eq_getLast?, typeLines_headersRead]

theorem semicolon_not_mem_of_isToken {name : Text} (h : isToken name = true) : 0x3B ∉ name := by
  have hno : (isAlphanumeric (0x3B : CodeUnit).toNat || tokenMarks.contains 0x3B) = false := by
    decide
  intro hmem
  have hone := List.all_eq_true.mp (Bool.and_eq_true_iff.mp h).2 _ hmem
  rw [hno] at hone
  cases hone

/-- A type that is given is found. -/
theorem typesGiven_eq_nil (htokens : ∀ header ∈ headersRead args, isToken header.1 = true)
    (h : CurlRules.typesNamed P args = []) : CurlRules.typesGiven P args = [] := by
  obtain ⟨hcolon, hsemicolon⟩ := List.append_eq_nil_iff.mp h
  rw [List.filterMap_eq_nil_iff] at hcolon hsemicolon
  rw [CurlRules.typesGiven, List.map_eq_nil_iff, List.filter_eq_nil_iff]
  intro header hheader hname
  have hname := of_decide_eq_true hname
  obtain ⟨arg, harg, hgiven⟩ := List.mem_filterMap.mp hheader
  have htoken : isToken header.1 = true := htokens _ (List.mem_map_of_mem hheader)
  cases arg with
  | header text =>
      have hnocolon := hcolon _ harg
      have hnosemicolon := hsemicolon _ harg
      rw [CurlRules.typeBehind] at hnocolon hnosemicolon
      rw [CurlRules.headerGiven, CurlRules.headerOf] at hgiven
      cases hcut : cutAt 0x3A text with
      | mk name value =>
          rw [hcut] at hgiven hnocolon
          cases value with
          | some rest =>
              obtain rfl := Option.some.inj hgiven
              simp [hname] at hnocolon
          | none =>
              dsimp only at hgiven
              split_ifs at hgiven with hends
              obtain rfl := Option.some.inj hgiven
              obtain ⟨front, rfl⟩ := List.isSuffixOf_iff_suffix.mp hends
              have hunits : units ";" = [0x3B] := by decide
              rw [hunits, List.dropLast_concat] at hname htoken
              have hno : 0x3B ∉ front := semicolon_not_mem_of_isToken htoken
              rw [hunits, cutAt_append_cons hno] at hnosemicolon
              simp [hname] at hnosemicolon
  | _ => simp [CurlRules.headerGiven] at hgiven

/-- Whether a type only repeats another. -/
def repeated (P : Platform) (implied : Option Text) (type : Text) : Bool :=
  implied.any fun own => baseType (P.toLowerCase type) = own

/-- The type of the headers that are kept: the last one that does not only repeat the app's. -/
theorem contentTypeOf_kept (implied : Option Text) :
    contentTypeOf P ((headersRead args).filter fun header => !repeatsType P implied header) =
      ((typesRead P args).filter fun type => !repeated P implied type).getLast? := by
  have hsame : ((headersRead args).filter fun header => !repeatsType P implied header).filter
        (fun header => P.toLowerCase header.1 = contentTypeName) =
      ((headersRead args).filter fun header =>
        P.toLowerCase header.1 = contentTypeName).filter fun header =>
          !repeated P implied header.2 := by
    rw [List.filter_filter, List.filter_filter]
    apply List.filter_congr
    intro header _
    by_cases hname : P.toLowerCase header.1 = contentTypeName
    · simp [repeatsType, repeated, hname]
    · simp [hname]
  rw [contentTypeOf, hsame, ← List.getLast?_map, ← typeLines_headersRead, CurlRules.typeLines,
    List.filter_map]
  rfl

/-! ## The type that is added -/

/-- Whether the method carries a body in the app: two methods do not. -/
def Carries (args : List CurlArgument) : Prop :=
  CurlRules.methodGiven args ≠ some (units "GET") ∧ CurlRules.methodGiven args ≠ some (units "HEAD")

instance : Decidable (Carries args) :=
  inferInstanceAs (Decidable (_ ∧ _))

/-- The method that is read of a command with a body carries nothing where none is carried. -/
theorem carries_iff (hmethod : MethodGoes P args) (hhead : .head ∉ args)
    (hsent : CurlRules.sent escape args ≠ .nothing) :
    ((requestRead P args).method = units "GET" ∨ (requestRead P args).method = units "HEAD") ↔
      ¬ Carries args := by
  have hbody : bodyRead P args ≠ .none := mt (bodyRead_eq_none_iff escape).mp hsent
  rw [Carries, not_and_or, not_not, not_not, requestRead]
  dsimp only
  cases hgiven : CurlRules.methodGiven args with
  | none =>
      rw [Option.map_none, Option.getD_none, if_neg hhead, if_neg hbody]
      decide
  | some method =>
      rw [Option.map_some, Option.getD_some, (hmethod method hgiven).1, Option.some.injEq,
        Option.some.injEq]

/-- The type that is added to a request without one: that of data that is sent. -/
theorem exportType_eq (hmethod : MethodGoes P args) (hhead : .head ∉ args ∨
      CurlRules.sent escape args = .nothing) :
    (exportType (appBody P (requestRead P args)) (bodyOf P (requestRead P args))).filter (· ≠ []) =
      match CurlRules.sent escape args with
      | .data _ =>
          if Carries args ∧ (readAsForm P (headersRead args) = true ∨ textRead args ≠ []) then
            some (typeOfText P (headersRead args))
          else none
      | _ => none := by
  have hnil := dataRead_eq_nil_iff escape args
  have hbody : (requestRead P args).body = bodyRead P args := rfl
  -- A form is typed by its sender, and no body has no type.
  by_cases hform : CurlRules.formParts args ≠ []
  · have hread : bodyRead P args = .multipart (CurlRules.formParts args) := by
      rw [bodyRead, if_pos hform]
    rw [CurlRules.sent, if_pos hform, bodyOf, builtBody.eq_def, hbody, hread]
    by_cases hbare : (requestRead P args).method = units "GET" ∨
        (requestRead P args).method = units "HEAD"
    · rw [if_pos hbare]
      rfl
    · rw [if_neg hbare]
      rfl
  · by_cases hnone : .get ∈ args ∨ CurlRules.pieces escape args = []
    · have hread : bodyRead P args = .none := by
        rw [bodyRead, if_neg hform, if_pos (hnone.imp_right hnil.mpr)]
      rw [CurlRules.sent, if_neg hform, if_pos hnone, bodyOf, builtBody.eq_def, hbody, hread,
        ite_self]
      rfl
    · have hsent : CurlRules.sent escape args = .data (CurlRules.dataText escape args) := by
        rw [CurlRules.sent, if_neg hform, if_neg hnone]
      have hread : bodyRead P args =
          if readAsForm P (headersRead args) then .urlencoded (searchParams (textRead args))
          else .raw (textRead args) := by
        rw [bodyRead, if_neg hform, if_neg fun h => hnone (h.imp_right hnil.mp)]
      have hsome : CurlRules.sent escape args ≠ .nothing := by
        rw [hsent]
        simp
      have hcarries := carries_iff (P := P) hmethod (hhead.resolve_right hsome) hsome
      have htype := typeOfText_ne_nil (P := P) (headersRead args)
      rw [hsent]
      dsimp only
      -- Data has a type where the method carries it.
      by_cases hbare : Carries args
      · have hno : ¬ ((requestRead P args).method = units "GET" ∨
            (requestRead P args).method = units "HEAD") := fun h => hcarries.mp h hbare
        have hheaders : (requestRead P args).headers = headersRead args := rfl
        rw [bodyOf, builtBody.eq_def, if_neg hno, hbody, hread, appBody, hbody, hread, hheaders]
        rw [typeOfText] at htype
        rw [typeOfText.eq_def]
        by_cases hasForm : readAsForm P (headersRead args) = true
        · rw [if_pos hasForm] at htype
          rw [if_pos hasForm, if_pos hasForm, if_pos ⟨hbare, .inl hasForm⟩]
          exact Option.filter_some_pos (decide_eq_true htype)
        · rw [if_neg hasForm] at htype
          rw [if_neg hasForm, if_neg hasForm]
          cases htext : textRead args with
          | nil => simp [exportType, hasForm]
          | cons c rest =>
              rw [if_pos ⟨hbare, .inr (List.cons_ne_nil _ _)⟩]
              exact Option.filter_some_pos (decide_eq_true htype)
      · rw [if_neg fun h => hbare h.1, bodyOf, builtBody.eq_def, if_pos (hcarries.mpr hbare)]
        rfl

/-! ## What is sent under it -/

/-- The text of the data as it is sent: a form's is read as rows that are written again. -/
def textSent (P : Platform) (args : List CurlArgument) : Text :=
  if readAsForm P (headersRead args) then formSerialize (searchParams (textRead args))
  else textRead args

/-- What the app sends: nothing where the method carries nothing. -/
def wireSent (P : Platform) (escape : Text → Text) (args : List CurlArgument) : ExportWire :=
  match CurlRules.sent escape args with
  | .nothing => .text []
  | .form parts => if Carries args then .form parts else .text []
  | .data _ => .text (if Carries args then textSent P args else [])

/-- The body of the request that is built. -/
theorem wire_builtOf (hmethod : MethodGoes P args) (hhead : .head ∉ args ∨
      CurlRules.sent escape args = .nothing) :
    (builtOf P (requestRead P args)).body.wire = wireSent P escape args := by
  have hnil := dataRead_eq_nil_iff escape args
  have hbuilt : (builtOf P (requestRead P args)).body =
      builtBody (requestRead P args).method
        ((contentTypeOf P (requestRead P args).headers).getD []) (bodyRead P args) := rfl
  rw [hbuilt, wireSent]
  -- By what curl sends: a form, nothing, or data.
  by_cases hform : CurlRules.formParts args ≠ []
  · have hsent : CurlRules.sent escape args = .form (CurlRules.formParts args) := by
      rw [CurlRules.sent, if_pos hform]
    have hsome : CurlRules.sent escape args ≠ .nothing := by simp [hsent]
    have hcarries := carries_iff hmethod (hhead.resolve_right hsome) hsome
    rw [hsent, bodyRead, if_pos hform, builtBody.eq_def]
    by_cases hbare : Carries args
    · rw [if_neg fun h => hcarries.mp h hbare]
      simp [hbare, ExportBody.wire]
    · rw [if_pos (hcarries.mpr hbare)]
      simp [hbare, ExportBody.wire]
  · by_cases hnone : .get ∈ args ∨ CurlRules.pieces escape args = []
    · have hread : bodyRead P args = .none := by
        rw [bodyRead, if_neg hform, if_pos (hnone.imp_right hnil.mpr)]
      rw [CurlRules.sent, if_neg hform, if_pos hnone, hread, builtBody.eq_def, ite_self]
      rfl
    · have hsent : CurlRules.sent escape args = .data (CurlRules.dataText escape args) := by
        rw [CurlRules.sent, if_neg hform, if_neg hnone]
      have hread : bodyRead P args =
          if readAsForm P (headersRead args) then .urlencoded (searchParams (textRead args))
          else .raw (textRead args) := by
        rw [bodyRead, if_neg hform, if_neg fun h => hnone (h.imp_right hnil.mp)]
      have hsome : CurlRules.sent escape args ≠ .nothing := by simp [hsent]
      have hcarries := carries_iff hmethod (hhead.resolve_right hsome) hsome
      rw [hsent, hread, textSent, builtBody.eq_def]
      by_cases hbare : Carries args
      · rw [if_neg fun h => hcarries.mp h hbare]
        by_cases hasForm : readAsForm P (headersRead args) = true
        · rw [if_pos hasForm]
          simp [hbare, hasForm, ExportBody.wire]
        · rw [if_neg hasForm]
          simp [hbare, hasForm, ExportBody.wire]
      · rw [if_pos (hcarries.mpr hbare)]
        simp [hbare, ExportBody.wire]

/-! ## The type that is sent -/

/-- Of the types that are given one is sent, and none is removed after it. -/
def OneLine (given : List (Option Text)) (type : Text) : Prop :=
  given.filterMap id = [type] ∧ given.getLast?.map (fun last => last.getD []) = some type

/-- Where the type that is sent is the one curl sends. Of several lines the app sends the last one,
and one that is removed empty; one that only repeats the app's own is left out, and what is sent is
the app's own: it has to be that, and to be added. A form's parts are sent under no line. -/
def TypeGoes (P : Platform) (escape : Text → Text) (args : List CurlArgument) : Prop :=
  let given := CurlRules.typesGiven P args
  let named := CurlRules.typesNamed P args
  let own := typeOfText P (headersRead args)
  match CurlRules.sent escape args with
  | .nothing => given ≠ [] → ∃ type, OneLine given type
  | .form _ =>
      Carries args ∧ named.headD CurlRules.multipartType = CurlRules.multipartType ∧
        ∀ other ∈ given, CurlRules.isMultipartType P (other.getD []) = true
  | .data _ =>
      if given = [] then (named = [] ↔ Carries args)
      else ∃ type, OneLine given type ∧
        (repeated P (some own) type = true → given = [some type] ∧ own = type ∧ Carries args ∧
          (readAsForm P (headersRead args) = true ∨ textRead args ≠ []))

/-- Where none is removed, those that are sent are those that are given. -/
theorem map_some_filterMap_id {given : List (Option Text)} (h : none ∉ given) :
    (given.filterMap id).map some = given := by
  induction given with
  | nil => rfl
  | cons one given ih =>
      obtain ⟨hone, hrest⟩ := not_or.mp (List.mem_cons.not.mp h)
      cases one with
      | none => exact absurd rfl hone
      | some type => simpa using ih hrest

theorem getLast?_filter_eq_none_iff {α : Type} {p : α → Bool} {l : List α} :
    (l.filter fun x => !p x).getLast? = none ↔ ∀ x ∈ l, p x = true := by
  simp

/-- The line that is left, or the one that is added, against the lines that are given. -/
theorem lines_iff {given : List (Option Text)} {p : Text → Bool} (hempty : p [] = false)
    (added : Option Text) (hgiven : given ≠ []) :
    ((((given.map fun one => one.getD []).filter fun type => !p type).getLast?).or added).toList =
        given.filterMap id ↔
      ∃ type, OneLine given type ∧ (p type = true → given = [some type] ∧ added = some type) := by
  have hmem : ∀ {type : Text}, given.filterMap id = [type] → ∀ one ∈ given.map fun one =>
      one.getD [], one = type ∨ one = [] := by
    intro type hsent one hone
    obtain ⟨given', hgiven', rfl⟩ := List.mem_map.mp hone
    cases given' with
    | none => exact .inr rfl
    | some own =>
        have hown : own ∈ given.filterMap id := List.mem_filterMap.mpr ⟨_, hgiven', rfl⟩
        rw [hsent] at hown
        exact .inl (List.mem_singleton.mp hown)
  have hwhole : ∀ {type : Text}, given.filterMap id = [type] → p type = false →
      (given.map fun one => one.getD []).filter (fun type => !p type) =
        given.map fun one => one.getD [] := by
    intro type hsent hp
    rw [List.filter_eq_self]
    intro one hone
    obtain rfl | rfl := hmem hsent one hone
    · rw [hp]
      rfl
    · rw [hempty]
      rfl
  constructor
  · intro hlines
    cases hleft : (((given.map fun one => one.getD []).filter fun type =>
        !p type).getLast?).or added with
    | none =>
        -- Then all are removed, and an empty one is left.
        rw [hleft] at hlines
        obtain ⟨one, hone⟩ := List.exists_mem_of_ne_nil _ hgiven
        have hnone : one = none := List.filterMap_eq_nil_iff.mp hlines.symm one hone
        have hkept := getLast?_filter_eq_none_iff.mp (Option.or_eq_none_iff.mp hleft).1
        rw [hkept [] (List.mem_map.mpr ⟨one, hone, by rw [hnone]; rfl⟩)] at hempty
        cases hempty
    | some type =>
        rw [hleft] at hlines
        have hsent : given.filterMap id = [type] := hlines.symm
        cases hp : p type with
        | false =>
            rw [hwhole hsent hp, List.getLast?_map] at hleft
            obtain ⟨last, hlast⟩ := Option.ne_none_iff_exists'.mp
              (mt List.getLast?_eq_none_iff.mp hgiven)
            rw [hlast] at hleft
            refine ⟨type, ⟨hsent, ?_⟩, fun h => ?_⟩
            · rw [hlast]
              exact hleft
            · rw [hp] at h
              cases h
        | true =>
            -- What is left of the others is empty, and this one is not.
            have hkept : ((given.map fun one => one.getD []).filter fun type =>
                !p type).getLast? = none := by
              rw [Option.eq_none_iff_forall_ne_some]
              intro last hlast
              rw [hlast] at hleft
              obtain rfl := Option.some.inj hleft
              have hlast := (List.mem_filter.mp (List.mem_of_mem_getLast? hlast)).2
              rw [hp] at hlast
              cases hlast
            rw [hkept, Option.none_or] at hleft
            have hall := getLast?_filter_eq_none_iff.mp hkept
            have hnone : none ∉ given := by
              intro hmem
              rw [hall [] (List.mem_map.mpr ⟨none, hmem, rfl⟩)] at hempty
              cases hempty
            have hone : given = [some type] := by
              rw [← map_some_filterMap_id hnone, hsent]
              rfl
            exact ⟨type, ⟨hsent, by rw [hone]; rfl⟩, fun _ => ⟨hone, hleft⟩⟩
  · rintro ⟨type, ⟨hsent, hlast⟩, hrepeats⟩
    rw [hsent]
    cases hp : p type with
    | false =>
        rw [hwhole hsent hp, List.getLast?_map, hlast]
        rfl
    | true =>
        obtain ⟨rfl, rfl⟩ := hrepeats hp
        simp [hp]

/-- An empty type repeats nothing that is one. -/
theorem repeated_nil (hempty : P.toLowerCase [] = []) {own : Text} (hown : own ≠ []) :
    repeated P (some own) [] = false := by
  have hbase : baseType [] = [] := rfl
  rw [repeated, Option.any_some, hempty, hbase]
  exact decide_eq_false (Ne.symm hown)

/-- A body that is a text is sent under the lines that name a type. -/
theorem typeOf_of_text {found : ExportRequest} {text : Text} (h : found.body.wire = .text text) :
    CurlRules.typeOf P found = .lines (CurlRules.typeLines P found.headers) := by
  rw [CurlRules.typeOf, h]

section Cases

variable (hlower : P.toLowerCase (units "Content-Type") = contentTypeName)
  (hempty : P.toLowerCase [] = []) (hmethod : MethodGoes P args)
  (hhead : .head ∉ args ∨ CurlRules.sent escape args = .nothing)
  (htokens : ∀ header ∈ headersRead args, isToken header.1 = true)

include hlower hmethod hhead htokens

/-- The lines that name a type in the request that is built: there is one at most. -/
theorem typeLines_builtOf :
    CurlRules.typeLines P (builtOf P (requestRead P args)).headers =
      ((((typesRead P args).filter fun type =>
          !repeated P (impliedBy P (requestRead P args)) type).getLast?).or
        (match CurlRules.sent escape args with
          | .data _ =>
              if Carries args ∧ (readAsForm P (headersRead args) = true ∨ textRead args ≠ []) then
                some (typeOfText P (headersRead args))
              else none
          | _ => none)).toList := by
  have hkept : namedHeaders (keptHeaders P (requestRead P args)) =
      (headersRead args).filter fun header =>
        !repeatsType P (impliedBy P (requestRead P args)) header :=
    namedHeaders_of_tokens fun header hheader => htokens header (List.mem_filter.mp hheader).1
  rw [builtOf, typeLines_headersWith hlower, hkept, contentTypeOf_kept,
    exportType_eq hmethod hhead]

include hempty

/-- The type that is sent is curl's exactly where it goes as curl's does. -/
theorem type_iff :
    CurlRules.typeOf P (builtOf P (requestRead P args)) = CurlRules.sentType P escape args ↔
      TypeGoes P escape args := by
  have hnil := dataRead_eq_nil_iff escape args
  have hbody : (requestRead P args).body = bodyRead P args := rfl
  have hwire := @wire_builtOf P escape args hmethod hhead
  have hlines := @typeLines_builtOf P escape args hlower hmethod hhead htokens
  have hread : CurlRules.typesGiven P args = [] → typesRead P args = [] := by
    intro hgiven
    rw [typesRead, hgiven]
    rfl
  rw [wireSent] at hwire
  rw [CurlRules.sentType, TypeGoes]
  by_cases hform : CurlRules.formParts args ≠ []
  · have himplied : impliedBy P (requestRead P args) = some CurlRules.multipartType := by
      rw [impliedBy, hbody, bodyRead, if_pos hform]
      rfl
    have hsent : CurlRules.sent escape args = .form (CurlRules.formParts args) := by
      rw [CurlRules.sent, if_pos hform]
    have hall : (∀ type ∈ typesRead P args, repeated P (some CurlRules.multipartType) type = true) ↔
        ∀ other ∈ CurlRules.typesGiven P args,
          CurlRules.isMultipartType P (other.getD []) = true := by
      rw [typesRead]
      exact List.forall_mem_map
    rw [hsent] at hwire hlines
    rw [himplied, Option.or_none] at hlines
    rw [hsent, ← hall, ← getLast?_filter_eq_none_iff]
    dsimp only at hwire ⊢
    by_cases hcarries : Carries args
    · rw [if_pos hcarries] at hwire
      rw [CurlRules.typeOf, hwire, hlines]
      cases ((typesRead P args).filter fun type =>
          !repeated P (some CurlRules.multipartType) type).getLast? with
      | none => simp [hcarries, eq_comm]
      | some type => simp
    · rw [if_neg hcarries] at hwire
      rw [typeOf_of_text hwire]
      simp [hcarries]
  · by_cases hbare : .get ∈ args ∨ CurlRules.pieces escape args = []
    · have himplied : impliedBy P (requestRead P args) = none := by
        rw [impliedBy, hbody, bodyRead, if_neg hform, if_pos (hbare.imp_right hnil.mpr)]
        rfl
      have hsent : CurlRules.sent escape args = .nothing := by
        rw [CurlRules.sent, if_neg hform, if_pos hbare]
      rw [hsent] at hwire hlines
      rw [himplied, Option.or_none] at hlines
      rw [hsent, typeOf_of_text hwire, hlines, CurlRules.SentType.lines.injEq]
      by_cases hgiven : CurlRules.typesGiven P args = []
      · simp [hgiven, hread hgiven]
      · have hone := lines_iff (p := fun _ => false) rfl none hgiven
        rw [Option.or_none] at hone
        rw [typesRead]
        refine hone.trans ?_
        simp [hgiven]
    · have himplied : impliedBy P (requestRead P args) =
          some (typeOfText P (headersRead args)) := by
        rw [impliedBy, hbody, bodyRead, if_neg hform, if_neg fun h => hbare (h.imp_right hnil.mp),
          typeOfText]
        split_ifs
        · rfl
        · rfl
      have hsent : CurlRules.sent escape args = .data (CurlRules.dataText escape args) := by
        rw [CurlRules.sent, if_neg hform, if_neg hbare]
      have hown := typeOfText_ne_nil (P := P) (headersRead args)
      rw [hsent] at hwire hlines
      rw [himplied] at hlines
      rw [hsent, typeOf_of_text hwire, hlines]
      dsimp only
      rw [CurlRules.SentType.lines.injEq]
      by_cases hgiven : CurlRules.typesGiven P args = []
      · -- Without a type the text is a form's.
        have hasForm : readAsForm P (headersRead args) = true := by
          rw [readAsForm, typeNamed, contentTypeOf_headersRead, hread hgiven]
          simp [hempty]
        have htype : typeOfText P (headersRead args) = formType := by
          rw [typeOfText, if_pos hasForm]
        rw [hread hgiven, htype, if_pos hgiven, hgiven]
        by_cases hcarries : Carries args
        · by_cases hnamed : CurlRules.typesNamed P args = []
          · simp [hasForm, hcarries, hnamed]
          · simp [hasForm, hcarries, hnamed]
        · by_cases hnamed : CurlRules.typesNamed P args = []
          · simp [hcarries, hnamed]
          · simp [hcarries, hnamed]
      · have hnamed : CurlRules.typesNamed P args ≠ [] :=
          fun hnone => hgiven (typesGiven_eq_nil htokens hnone)
        rw [if_neg hnamed, if_neg hgiven, typesRead,
          lines_iff (repeated_nil hempty hown) _ hgiven]
        apply exists_congr
        intro type
        apply and_congr_right'
        apply imp_congr_right
        intro hrepeats
        apply and_congr_right'
        rw [Option.ite_none_right_eq_some, Option.some.injEq]
        tauto

end Cases

end CurlSends

end Wayfarer
