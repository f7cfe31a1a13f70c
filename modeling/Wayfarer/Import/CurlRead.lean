import Wayfarer.Import.CurlWords

/-!
# What is read of a written command

The words of a written request, read as options: one lemma for the words of each of its parts
(`reads_method`, `reads_header`, `reads_part`, …), and what was read after all of them (`stateOf`,
`readWords_requestWords`).
-/

set_option autoImplicit false

namespace Wayfarer

open Library

namespace CopiedCurl

/-! ## What a header may be -/

/-- What a token is made of, besides letters and digits. -/
def tokenMarks : Text :=
  units "!#$%&'*+-.^_`|~"

/-- Whether a text is an HTTP token: the name of a header. -/
def isToken (t : Text) : Bool :=
  t ≠ [] && t.all fun c => isAlphanumeric c.toNat || tokenMarks.contains c

/-- A header whose name is a token, and whose value has no white space around it. -/
structure IsPlainHeader (header : Text × Text) : Prop where
  name : isToken header.1 = true
  value : trim header.2 = header.2

/-- Neither a colon nor white space is part of a token. -/
theorem not_mem_of_isToken {name : Text} (h : isToken name = true) :
    0x3A ∉ name ∧ ∀ c ∈ name, isWhite c = false := by
  have hcolon : (isAlphanumeric (0x3A : CodeUnit).toNat || tokenMarks.contains 0x3A) = false := by
    decide
  have hwhite : ∀ c ∈ whiteSpace, (isAlphanumeric c.toNat || tokenMarks.contains c) = false := by
    decide
  have hall := List.all_eq_true.mp (Bool.and_eq_true_iff.mp h).2
  constructor
  · intro hmem
    exact absurd (hall _ hmem) (by simp only [hcolon, Bool.false_eq_true, not_false_eq_true])
  · intro c hc
    by_contra hmem
    have hspace : c ∈ whiteSpace := by simpa [isWhite] using hmem
    exact absurd (hall c hc) (by simp only [hwhite c hspace, Bool.false_eq_true, not_false_eq_true])

theorem trimStart_of_head {t : Text} (h : ∀ c ∈ t.head?, isWhite c = false) : trimStart t = t := by
  cases t with
  | nil => rfl
  | cons c rest => simp [trimStart, h c rfl]

/-- A token is its own trimmed self. -/
theorem trim_of_isToken {name : Text} (h : isToken name = true) : trim name = name := by
  have hwhite := (not_mem_of_isToken h).2
  rw [trim, trimStart_of_head fun c hc => hwhite c (List.mem_of_mem_head? hc),
    trimStart_of_head, List.reverse_reverse]
  intro c hc
  exact hwhite c (List.mem_reverse.mp (List.mem_of_mem_head? hc))

theorem trim_space (t : Text) : trim (space :: t) = trim t := by
  have hspace : isWhite space = true := by decide
  rw [trim, trim]
  simp [trimStart, hspace]

/-! ## The words, read -/

section Words

variable (P : Platform)

/-- Words that are read as a change of what was read, whatever follows them. -/
def Reads (words : List Text) (change : CurlState → CurlState) : Prop :=
  ∀ s rest, CurlState.readWords P s (words ++ rest) = CurlState.readWords P (change s) rest

variable {P}

theorem reads_of_readWord {words : List Text} {word next : Text} {s' : CurlState}
    {s : CurlState} (hwords : words = word :: next :: [])
    (h : s.readWord P word (some next) = .ok (s', true)) (rest : List Text) :
    CurlState.readWords P s (words ++ rest) = CurlState.readWords P s' rest := by
  subst hwords
  rw [List.cons_append, List.cons_append, List.nil_append, CurlState.readWords]
  simp only [List.head?_cons, h]

theorem Reads.congr {words : List Text} {change change' : CurlState → CurlState}
    (h : Reads P words change) (hsame : ∀ s, change s = change' s) : Reads P words change' := by
  intro s rest
  rw [h, hsame]

/-- A list of words in turn. -/
theorem readWords_map {α : Type} {f : α → List Text} {change : CurlState → α → CurlState}
    {items : List α} (h : ∀ item ∈ items, Reads P (f item) (change · item)) :
    Reads P (items.map f).flatten (items.foldl change) := by
  induction items with
  | nil =>
      intro s rest
      rfl
  | cons item items ih =>
      intro s rest
      rw [List.map_cons, List.flatten_cons, List.append_assoc, h item List.mem_cons_self,
        ih fun item' hitem' => h item' (List.mem_cons_of_mem _ hitem')]
      rfl

/-- An option of two hyphens and its value. -/
theorem reads_long (name : Text) {value : Text} (option : CurlOption)
    (hname : optionOf valueOptions (0x2D :: 0x2D :: name) = some option) :
    Reads P [0x2D :: 0x2D :: name, value] (fun s => s.take P option value) := by
  intro s rest
  apply reads_of_readWord rfl
  rw [CurlState.readWord, CurlState.readLong, hname]
  simp [CurlState.valueOf, Except.map]

/-- An option of one letter and its value. -/
theorem reads_short (letter : CodeUnit) {value : Text} (option : CurlOption)
    (hletter : letter ≠ 0x2D) (hname : optionOf valueOptions [0x2D, letter] = some option) :
    Reads P [[0x2D, letter], value] (fun s => s.take P option value) := by
  intro s rest
  apply reads_of_readWord rfl
  have hword : s.readWord P [0x2D, letter] (some value) =
      CurlState.readShort P (some value) s [letter] := by
    rw [CurlState.readWord.eq_def]
    split
    · rename_i heq
      cases heq
      exact absurd rfl hletter
    · rename_i heq
      cases heq
      rfl
    · rename_i hother
      exact absurd rfl (hother letter [])
  rw [hword, CurlState.readShort, hname]
  simp [CurlState.valueOf, Except.map]

/-- The words of the method, read. -/
theorem reads_method (method : Text) :
    Reads P (methodWords method).flatten fun s =>
      if method = units "HEAD" then { s with head := true }
      else if method ≠ units "GET" then { s with method := some (P.toUpperCase method) }
      else s := by
  rw [methodWords]
  split_ifs
  · intro s rest
    rfl
  · exact reads_short 0x58 .method (by decide) (by decide)
  · intro s rest
    rfl

/-- The words of the address, read. -/
theorem reads_url (url : Text) :
    Reads P (urlWords url) fun s => { s with urls := s.urls ++ [url] } := by
  rw [urlWords]
  split_ifs with hdash
  · exact reads_long (units "url") .url (by decide)
  · intro s rest
    -- A word that does not start with a hyphen is an address.
    have hword : ∀ next, s.readWord P url next =
        .ok ({ s with urls := s.urls ++ [url] }, false) := by
      intro next
      rw [CurlState.readWord.eq_def]
      split
      · simp [units] at hdash
      · simp [units] at hdash
      · rfl
    rw [List.singleton_append, CurlState.readWords, hword]

/-- The words of a header, read. -/
theorem reads_header {header : Text × Text} (h : IsPlainHeader header) :
    Reads P (headerWords header) fun s => s.addHeader header := by
  have hread : curlHeader (header.1 ++ units ": " ++ header.2) = some header := by
    have hunits : units ": " = [0x3A, space] := by decide
    have hcut : cutAt 0x3A (header.1 ++ units ": " ++ header.2) =
        (header.1, some (space :: header.2)) := by
      rw [hunits, List.append_assoc, List.cons_append, List.singleton_append]
      exact cutAt_append_cons (not_mem_of_isToken h.name).1 _
    obtain ⟨c, name, hname⟩ := List.exists_cons_of_ne_nil
      (of_decide_eq_true (Bool.and_eq_true_iff.mp h.name).1)
    rw [curlHeader, hcut, hname]
    simp only [trim_space, h.value]
    rw [← hname, trim_of_isToken h.name]
  apply (reads_short 0x48 .header (by decide) (by decide)).congr
  intro s
  rw [CurlState.take, hread]

/-- What a field of a form adds to what was read. -/
def addField (s : CurlState) (field : Text × Text) : CurlState :=
  { s.addData (.text (formPair field)) with binaryOnly := false }

/-- The words of a field, read: the name is encoded already, and the value is. -/
theorem reads_field (field : Text × Text) :
    Reads P (fieldWords field) fun s => addField s field := by
  obtain ⟨name, value⟩ := field
  have hequals : units "=" = [0x3D] := by decide
  rw [fieldWords]
  split_ifs with hname
  · have hdatum : urlencodeDatum (formText name ++ units "=" ++ value) =
        .text (formPair (name, value)) := by
      have hcut : cutAt 0x3D (formText name ++ units "=" ++ value) =
          (formText name, some value) := by
        rw [hequals, List.append_assoc, List.singleton_append]
        exact cutAt_append_cons (not_mem_formText name).2.1 value
      have hat : 0x40 ∉ formText name := not_mem_formText_of_other (by decide)
      rw [urlencodeDatum, hcut]
      simp only [hat, not_false_eq_true, if_true, mt formText_eq_nil_iff.mp hname, ne_eq]
      rw [formPair]
    apply (reads_long (units "data-urlencode") .dataUrlencode
      (by decide)).congr
    intro s
    rw [CurlState.take, hdatum]
    rfl
  · have hempty : name = [] := not_not.mp hname
    subst hempty
    exact reads_long (units "data-raw") .dataRaw (by decide)

/-- What a part of a form adds to what was read. -/
def addPart (s : CurlState) (part : ExportPart) : CurlState :=
  { s with parts := s.parts ++ [part] }

theorem quotedText_cons {c : CodeUnit} (hc : c ≠ backslash) (rest : Text) :
    quotedText (c :: rest) =
      if c = quotationMark then some [] else (quotedText rest).map (c :: ·) := by
  rw [quotedText.eq_def]
  cases rest <;> simp [hc]

theorem quotedText_escape {c : CodeUnit} (hc : isLineTerminator c = false) (rest : Text) :
    quotedText (backslash :: c :: rest) = (quotedText rest).map (c :: ·) := by
  rw [quotedText.eq_def]
  simp [hc, show backslash ≠ quotationMark by decide]

/-- A file's name is read out of its quotation marks. -/
theorem quotedText_quotedFileName (fileName rest : Text) :
    quotedText (quotedFileName fileName ++ quotationMark :: rest) = some fileName := by
  induction fileName with
  | nil =>
      show quotedText (quotationMark :: rest) = some []
      rw [quotedText_cons (by decide), if_pos rfl]
  | cons c fileName ih =>
      have hcons : quotedFileName (c :: fileName) =
          (if c = backslash ∨ c = quotationMark then [backslash, c] else [c]) ++
            quotedFileName fileName := rfl
      rw [hcons]
      split_ifs with hmark
      · -- The mark is escaped; neither of the two ends a line.
        have hline : isLineTerminator c = false := by
          rcases hmark with rfl | rfl <;> decide
        rw [List.cons_append, List.cons_append, List.cons_append, List.nil_append, List.cons_append,
          quotedText_escape hline, ih]
        rfl
      · obtain ⟨hslash, hmark⟩ := not_or.mp hmark
        rw [List.singleton_append, List.cons_append, quotedText_cons hslash, if_neg hmark, ih]
        rfl

/-- The words of a part, read, where its name is one that curl reads as a name. -/
theorem reads_part {part : ExportPart} (hname : part.name.any endsPartName = false) :
    Reads P (partWords part) fun s => addPart s part := by
  obtain ⟨name, value⟩ := part
  -- The name ends at the first equals sign, and holds none.
  have hequals : 0x3D ∉ name := by
    intro hmem
    have hends : name.any endsPartName = true :=
      List.any_eq_true.mpr ⟨_, hmem, by decide⟩
    rw [hends] at hname
    cases hname
  cases value with
  | text value =>
      have hcut : cutAt 0x3D (name ++ units "=" ++ value) = (name, some value) := by
        have hunits : units "=" = [0x3D] := by decide
        rw [hunits, List.append_assoc, List.singleton_append]
        exact cutAt_append_cons hequals value
      apply (reads_long (units "form-string") .formString (by decide)).congr
      intro s
      rw [CurlState.take, hcut]
      rfl
  | file fileName =>
      -- A file stands in quotes behind the mark of a file.
      have hpart : formPart (name ++ units "=@\"" ++ quotedFileName fileName ++ units "\"") =
          (some { name, value := .file fileName }, []) := by
        have hunits : units "=@\"" = [0x3D, 0x40, quotationMark] := by decide
        have hmark : units "\"" = [quotationMark] := by decide
        have hcut : cutAt 0x3D (name ++ units "=@\"" ++ quotedFileName fileName ++ units "\"") =
            (name, some (0x40 :: quotationMark ::
              (quotedFileName fileName ++ [quotationMark]))) := by
          rw [hunits, hmark, List.append_assoc, List.append_assoc, List.cons_append,
            List.cons_append, List.singleton_append]
          exact cutAt_append_cons hequals _
        have hquoted : quotedFile (0x40 :: quotationMark ::
            (quotedFileName fileName ++ [quotationMark])) = some fileName := by
          rw [quotedFile]
          have hopens : (units "@\"").isPrefixOf (0x40 :: quotationMark ::
              (quotedFileName fileName ++ [quotationMark])) = true := by
            have hat : units "@\"" = [0x40, quotationMark] := by decide
            rw [hat]
            rfl
          rw [if_pos hopens]
          exact quotedText_quotedFileName fileName []
        rw [formPart, hcut]
        simp only [hquoted]
      apply (reads_short 0x46 .form (by decide) (by decide)).congr
      intro s
      rw [CurlState.take, hpart]
      simp only [List.append_nil, Option.toList_some]
      rfl

/-! ## What was read of a written request -/

/-- The data that is read of a written body. -/
def dataOf : ExportBody → List Datum
  | .raw text => if text ≠ [] then [.text text] else []
  | .urlencoded fields => fields.map fun field => .text (formPair field)
  | .binary fileName => if fileName ≠ [] then [.file fileName] else []
  | _ => []

/-- The parts that are read of a written body. -/
def partsOf : ExportBody → List ExportPart
  | .multipart parts => parts
  | _ => []

/-- Whether no data was given as text. -/
def isBinaryOnly : ExportBody → Bool
  | .raw text => text = []
  | .urlencoded fields => fields = []
  | _ => true

/-- What is read of a written request. -/
def stateOf (P : Platform) (request : ExportRequest) : CurlState where
  headers := request.headers
  data := dataOf request.body
  parts := partsOf request.body
  urls := [request.url]
  method :=
    if request.method = units "HEAD" ∨ request.method = units "GET" then none
    else some (P.toUpperCase request.method)
  head := request.method = units "HEAD"
  binaryOnly := isBinaryOnly request.body

theorem foldl_addHeader (headers : List (Text × Text)) (s : CurlState) :
    headers.foldl CurlState.addHeader s = { s with headers := s.headers ++ headers } := by
  induction headers generalizing s with
  | nil => rw [List.append_nil]; rfl
  | cons header headers ih =>
      rw [List.foldl_cons, ih, CurlState.addHeader]
      simp

theorem foldl_addPart (parts : List ExportPart) (s : CurlState) :
    parts.foldl addPart s = { s with parts := s.parts ++ parts } := by
  induction parts generalizing s with
  | nil => rw [List.append_nil]; rfl
  | cons part parts ih =>
      rw [List.foldl_cons, ih, addPart]
      simp

theorem foldl_addField {fields : List (Text × Text)} (hne : fields ≠ []) (s : CurlState) :
    fields.foldl addField s =
      { s with
        data := s.data ++ fields.map fun field => .text (formPair field)
        binaryOnly := false } := by
  induction fields generalizing s with
  | nil => exact absurd rfl hne
  | cons field fields ih =>
      rw [List.foldl_cons]
      by_cases hlast : fields = []
      · subst hlast
        rfl
      · rw [ih hlast, addField, CurlState.addData]
        simp

/-- The words of the body, read. -/
theorem reads_body {body : ExportBody} (hsaid : unsayable body = none) :
    Reads P (bodyWords body).flatten fun s =>
      { s with
        data := s.data ++ dataOf body
        parts := s.parts ++ partsOf body
        binaryOnly := s.binaryOnly && isBinaryOnly body } := by
  -- A body that is empty is no words.
  have hnothing : Reads P [] fun s => s := fun _ _ => rfl
  cases body with
  | none => exact hnothing.congr fun s => by simp [dataOf, partsOf, isBinaryOnly]
  | raw text =>
      rw [bodyWords]
      split_ifs with htext
      · rw [List.flatten_singleton]
        apply (reads_long (units "data-raw") .dataRaw (by decide)).congr
        intro s
        simp [CurlState.take, CurlState.addData, dataOf, partsOf, isBinaryOnly, htext]
      · exact hnothing.congr fun s => by simp [dataOf, partsOf, isBinaryOnly, not_not.mp htext]
  | urlencoded fields =>
      apply (readWords_map (f := fieldWords) fun field _ => reads_field field).congr
      intro s
      by_cases hne : fields = []
      · subst hne
        simp [dataOf, partsOf, isBinaryOnly]
      · rw [foldl_addField hne]
        simp [dataOf, partsOf, isBinaryOnly, hne]
  | multipart parts =>
      -- The names are such as a part can be written under.
      have hname : ∀ part ∈ parts, part.name.any endsPartName = false := by
        intro part hpart
        simpa using List.find?_eq_none.mp hsaid part hpart
      apply (readWords_map (f := partWords) fun part hpart => reads_part (hname part hpart)).congr
      intro s
      rw [foldl_addPart]
      simp [dataOf, partsOf, isBinaryOnly]
  | binary fileName =>
      rw [bodyWords]
      split_ifs with hfile
      · rw [List.flatten_singleton]
        apply (reads_long (units "data-binary") .dataBinary (by decide)).congr
        intro s
        have hat : CurlState.dataOf (units "@" ++ fileName) = .file fileName := by
          have hunits : units "@" = [0x40] := by decide
          rw [CurlState.dataOf, hunits, List.singleton_append]
          rfl
        simp [CurlState.take, CurlState.addData, dataOf, partsOf, isBinaryOnly, hat, hfile]
      · exact hnothing.congr fun s => by simp [dataOf, partsOf, isBinaryOnly, not_not.mp hfile]

/-- The words of a request, read. -/
theorem readWords_requestWords {request : ExportRequest}
    (hheaders : ∀ header ∈ request.headers, IsPlainHeader header)
    (hsaid : unsayable request.body = none) :
    CurlState.readWords P {} (requestWords request).flatten = .ok (stateOf P request) := by
  have hnamed : request.headers.filter (fun header => header.1 ≠ []) = request.headers := by
    apply List.filter_eq_self.mpr
    intro header hheader
    exact (Bool.and_eq_true_iff.mp (hheaders header hheader).name).1
  have hread : Reads P (request.headers.map headerWords).flatten fun s =>
      { s with headers := s.headers ++ request.headers } :=
    (readWords_map fun header hheader => reads_header (hheaders header hheader)).congr
      (foldl_addHeader request.headers)
  rw [requestWords, hnamed, List.flatten_append, List.flatten_append, List.flatten_append,
    List.append_assoc, List.append_assoc, reads_method, List.flatten_singleton, reads_url, hread,
    ← List.append_nil (bodyWords request.body).flatten, reads_body hsaid, CurlState.readWords,
    stateOf]
  by_cases hhead : request.method = units "HEAD"
  · simp [hhead]
  · by_cases hget : request.method = units "GET"
    · have hother : units "GET" ≠ units "HEAD" := by decide
      simp [hget, hother]
    · simp [hhead, hget]

end Words

end CopiedCurl

end Wayfarer
