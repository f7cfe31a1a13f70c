import Wayfarer.Import.CurlRules

/-!
# What is read of a command's arguments

The arguments of a command, read one after the other: what was read depends on them as curl's own
rules do (`readAs_args`), but for what `--data-urlencode` is given. `parseCurl_args` is the request
they are read as.
-/

set_option autoImplicit false

namespace Wayfarer

open Library CopiedCurl BuiltCurl

namespace CurlSends

variable {P : Platform} {escape : Text → Text} {args : List CurlArgument}

/-! ## The arguments, read -/

/-- What an argument makes of what was read. -/
def readArgument (P : Platform) (s : CurlState) : CurlArgument → CurlState
  | .address text => { s with urls := s.urls ++ [text] }
  | .data text => s.take P .data text
  | .dataRaw text => s.take P .dataRaw text
  | .dataBinary text => s.take P .dataBinary text
  | .dataUrlencode text => s.take P .dataUrlencode text
  | .formString text => s.take P .formString text
  | .get => s.flag .get
  | .header text => s.take P .header text
  | .request method => s.take P .method method
  | .head => s.flag .head

/-- The words of an argument, read. -/
theorem reads_argument {arg : CurlArgument}
    (h : ∀ text, arg = .address text → (units "-").isPrefixOf text = false) :
    Reads P arg.words fun s => readArgument P s arg := by
  cases arg with
  | address text =>
      have hwords : urlWords text = [text] := by
        rw [urlWords, if_neg]
        rw [h text rfl]
        exact Bool.false_ne_true
      have hread := reads_url (P := P) text
      rwa [hwords] at hread
  | data text => exact reads_short 0x64 .data (by decide) (by decide)
  | dataRaw text => exact reads_long (units "data-raw") .dataRaw (by decide)
  | dataBinary text => exact reads_long (units "data-binary") .dataBinary (by decide)
  | dataUrlencode text => exact reads_long (units "data-urlencode") .dataUrlencode (by decide)
  | formString text => exact reads_long (units "form-string") .formString (by decide)
  | get =>
      intro s rest
      rfl
  | header text => exact reads_short 0x48 .header (by decide) (by decide)
  | request method => exact reads_short 0x58 .method (by decide) (by decide)
  | head =>
      intro s rest
      rfl

/-- The words of a command's arguments, read. -/
theorem readWords_args (h : ∀ text, .address text ∈ args → (units "-").isPrefixOf text = false) :
    CurlState.readWords P {} (args.map CurlArgument.words).flatten =
      .ok (args.foldl (readArgument P) {}) := by
  have hread : Reads P (args.map CurlArgument.words).flatten (args.foldl (readArgument P)) :=
    readWords_map fun arg harg => reads_argument fun text htext => h text (htext ▸ harg)
  rw [← List.append_nil (args.map CurlArgument.words).flatten, hread, CurlState.readWords]

/-- The piece of the data an argument is read as. -/
def datumOf : CurlArgument → Option Datum
  | .data text => some (.text text)
  | .dataRaw text => some (.text text)
  | .dataBinary text => some (.text text)
  | .dataUrlencode text => some (urlencodeDatum text)
  | _ => none

/-- The data that is read. -/
def dataRead (args : List CurlArgument) : List Datum :=
  args.filterMap datumOf

/-- What was read of a command, as far as its request depends on it. -/
structure ReadAs (P : Platform) (args : List CurlArgument) (s s' : CurlState) : Prop where
  headers : s'.headers = s.headers ++
    (CurlRules.headersGiven args).map fun header => (header.1, header.2.getD [])
  data : s'.data = s.data ++ dataRead args
  parts : s'.parts = s.parts ++ CurlRules.formParts args
  urls : s'.urls = s.urls ++ CurlRules.addresses args
  method : s'.method = ((CurlRules.methodGiven args).map P.toUpperCase).or s.method
  get : s'.get = (s.get || args.contains .get)
  head : s'.head = (s.head || args.contains .head)
  basic : s'.basic = s.basic
  binaryOnly : s'.binaryOnly = true →
    s.binaryOnly = true ∧ ∀ text, .dataUrlencode text ∉ args

theorem methodGiven_cons (arg : CurlArgument) (args : List CurlArgument) :
    CurlRules.methodGiven (arg :: args) =
      (CurlRules.methodGiven args).or (CurlRules.methodOf arg) := by
  cases harg : CurlRules.methodOf arg with
  | none =>
      rw [CurlRules.methodGiven, List.filterMap_cons_none harg, ← CurlRules.methodGiven]
      exact Option.or_none.symm
  | some method =>
      rw [CurlRules.methodGiven, List.filterMap_cons_some harg, List.getLast?_cons,
        CurlRules.methodGiven]
      cases (args.filterMap CurlRules.methodOf).getLast? <;> rfl

/-- What is read of one argument, and then of others. -/
theorem ReadAs.trans {arg : CurlArgument} {s s' s'' : CurlState} (h : ReadAs P [arg] s s')
    (h' : ReadAs P args s' s'') : ReadAs P (arg :: args) s s'' where
  headers := by
    rw [h'.headers, h.headers, List.append_assoc, ← List.map_append]
    rw [CurlRules.headersGiven, CurlRules.headersGiven, CurlRules.headersGiven,
      ← List.filterMap_append, List.singleton_append]
  data := by
    rw [h'.data, h.data, List.append_assoc]
    rw [dataRead, dataRead, dataRead, ← List.filterMap_append, List.singleton_append]
  parts := by
    rw [h'.parts, h.parts, List.append_assoc]
    rw [CurlRules.formParts, CurlRules.formParts, CurlRules.formParts, ← List.filterMap_append,
      List.singleton_append]
  urls := by
    rw [h'.urls, h.urls, List.append_assoc]
    rw [CurlRules.addresses, CurlRules.addresses, CurlRules.addresses, ← List.filterMap_append,
      List.singleton_append]
  method := by
    have hone : CurlRules.methodGiven [arg] = CurlRules.methodOf arg := by
      rw [methodGiven_cons]
      rfl
    rw [h'.method, h.method, hone, methodGiven_cons arg args, Option.map_or, Option.or_assoc]
  get := by
    rw [h'.get, h.get, List.contains_cons, List.contains_cons, List.contains_nil, Bool.or_false,
      Bool.or_assoc]
  head := by
    rw [h'.head, h.head, List.contains_cons, List.contains_cons, List.contains_nil, Bool.or_false,
      Bool.or_assoc]
  basic := h'.basic.trans h.basic
  binaryOnly := by
    intro honly
    obtain ⟨honly', hrest⟩ := h'.binaryOnly honly
    obtain ⟨honly'', hone⟩ := h.binaryOnly honly'
    refine ⟨honly'', ?_⟩
    intro text htext
    rcases List.mem_cons.mp htext with heq | hmem
    · exact hone text (by rw [heq]; exact List.mem_singleton_self _)
    · exact hrest text hmem

/-- An argument the app reads as curl does, but for how it encodes: it names no file, its form part
has an equals sign and its header a name. -/
def ReadsPlainly : CurlArgument → Prop
  | .data text => (units "@").isPrefixOf text = false
  | .dataBinary text => (units "@").isPrefixOf text = false
  | .formString text => 0x3D ∈ text
  | .header text => ∀ header, CurlRules.headerOf text = some header → isToken header.1 = true
  | _ => True

/-- A header is read as curl reads it, an absent value as an empty one. -/
theorem curlHeader_eq {text : Text}
    (h : ∀ header, CurlRules.headerOf text = some header → isToken header.1 = true) :
    curlHeader text =
      (CurlRules.headerOf text).map fun header => (header.1, header.2.getD []) := by
  rw [CurlRules.headerOf] at h ⊢
  rw [curlHeader]
  cases hcut : cutAt 0x3A text with
  | mk name value =>
      rw [hcut] at h
      cases value with
      | some rest =>
          have hname := h _ rfl
          cases name with
          | nil => cases hname
          | cons c name =>
              dsimp only
              rw [trim_of_isToken hname]
              by_cases hvalue : trim rest = []
              · simp [hvalue]
              · simp [hvalue]
      | none =>
          dsimp only at h ⊢
          by_cases hends : (units ";").isSuffixOf text = true
          · rw [if_pos hends] at h
            rw [if_pos hends, if_pos hends, trim_of_isToken (h _ rfl)]
            cases name <;> rfl
          · rw [if_neg hends, if_neg hends]
            cases name <;> rfl

section Argument

attribute [local simp] CurlRules.headersGiven CurlRules.headerGiven dataRead datumOf
    CurlRules.formParts CurlRules.formPart CurlRules.addresses CurlRules.addressOf
  CurlRules.methodGiven CurlRules.methodOf readArgument CurlState.take CurlState.addData
  CurlState.addHeader CurlState.warn CurlState.flag

/-- One argument, read. -/
theorem readAs_argument {arg : CurlArgument} (h : ReadsPlainly arg) (s : CurlState) :
    ReadAs P [arg] s (readArgument P s arg) := by
  have hplain : ∀ {text : Text}, (units "@").isPrefixOf text = false →
      CurlState.dataOf text = .text text := by
    intro text htext
    rw [CurlState.dataOf, htext]
    rfl
  cases arg with
  | address text => constructor <;> simp
  | data text => constructor <;> simp [hplain h]
  | dataRaw text => constructor <;> simp
  | dataBinary text => constructor <;> simp [hplain h]
  | dataUrlencode text => constructor <;> simp
  | formString text =>
      cases hcut : cutAt 0x3D text with
      | mk name value =>
          cases value with
          | some content => constructor <;> simp [hcut]
          | none => exact absurd h (cutAt_eq_none_iff.mp (by rw [hcut]))
  | get => constructor <;> simp
  | header text =>
      cases hheader : CurlRules.headerOf text with
      | none => constructor <;> simp [curlHeader_eq h, hheader]
      | some header => constructor <;> simp [curlHeader_eq h, hheader]
  | request method => constructor <;> simp
  | head => constructor <;> simp

end Argument

/-- The arguments, read. -/
theorem readAs_args (h : ∀ arg ∈ args, ReadsPlainly arg) (s : CurlState) :
    ReadAs P args s (args.foldl (readArgument P) s) := by
  induction args generalizing s with
  | nil => constructor <;> simp [CurlRules.headersGiven, dataRead, CurlRules.formParts,
      CurlRules.addresses, CurlRules.methodGiven]
  | cons arg args ih =>
      obtain ⟨harg, hrest⟩ := List.forall_mem_cons.mp h
      exact (readAs_argument harg s).trans (ih hrest _)

/-! ## The request that is read -/

/-- The headers that are read. -/
def headersRead (args : List CurlArgument) : List (Text × Text) :=
  (CurlRules.headersGiven args).map fun header => (header.1, header.2.getD [])

/-- The text of the data that is read. -/
def textRead (args : List CurlArgument) : Text :=
  joinWith (units "&") ((dataRead args).filterMap Datum.text?)

/-- The body that is read: data is a form's fields under a form's type, and where it has none. -/
def bodyRead (P : Platform) (args : List CurlArgument) : ExportBody :=
  if CurlRules.formParts args ≠ [] then .multipart (CurlRules.formParts args)
  else if .get ∈ args ∨ dataRead args = [] then .none
  else if readAsForm P (headersRead args) then .urlencoded (searchParams (textRead args))
  else .raw (textRead args)

/-- What is added to the address. -/
def movedRead (args : List CurlArgument) : Text :=
  if .get ∈ args then textRead args else []

/-- The address that is read, with the data in it that is its query. -/
def urlRead (args : List CurlArgument) : Text :=
  let address := (CurlRules.addresses args).headD []
  if movedRead args ≠ [] then
    address ++ (if address.contains 0x3F then units "&" else units "?") ++ movedRead args
  else address

/-- The request a command is read as. -/
def requestRead (P : Platform) (args : List CurlArgument) : ExportRequest where
  method := ((CurlRules.methodGiven args).map P.toUpperCase).getD
    (if .head ∈ args then units "HEAD"
      else if bodyRead P args = .none then units "GET" else units "POST")
  url := urlRead args
  headers := headersRead args
  body := bodyRead P args

theorem datumOf_eq_none_iff {arg : CurlArgument} :
    datumOf arg = none ↔ CurlRules.piece escape arg = none := by
  cases arg <;> simp [datumOf, CurlRules.piece]

/-- There is data to read where there is data. -/
theorem dataRead_eq_nil_iff (escape : Text → Text) (args : List CurlArgument) :
    dataRead args = [] ↔ CurlRules.pieces escape args = [] := by
  rw [dataRead, CurlRules.pieces, List.filterMap_eq_nil_iff, List.filterMap_eq_nil_iff]
  exact forall₂_congr fun arg _ => datumOf_eq_none_iff

/-- A file among the data is one that `--data-urlencode` names. -/
theorem exists_urlencode_of_file {name : Text} (h : Datum.file name ∈ dataRead args) :
    ∃ text, CurlArgument.dataUrlencode text ∈ args := by
  obtain ⟨arg, harg, hdatum⟩ := List.mem_filterMap.mp h
  cases arg with
  | dataUrlencode text => exact ⟨text, harg⟩
  | _ => simp [datumOf] at hdatum

/-! ### What `--data-urlencode` is read as -/

/-- A piece of the data is read as it is, or encoded as a form does; one with an at sign in its name
is taken for a file. -/
inductive PieceRead (escape : Text → Text) : Datum → Text → Prop
  | same (text : Text) : PieceRead escape (.text text) text
  | content (text : Text) : PieceRead escape (.text (formText text)) (escape text)
  | named (name text : Text) (h : 0x3D ∉ name) :
      PieceRead escape (.text (name ++ 0x3D :: formText text)) (name ++ 0x3D :: escape text)
  | file (name text file : Text) (h : 0x3D ∉ name) (hat : 0x40 ∈ name) :
      PieceRead escape (.file file) (name ++ 0x3D :: escape text)

theorem pieceRead_urlencode {text : Text} (h : 0x3D ∈ text ∨ 0x40 ∉ text) :
    PieceRead escape (urlencodeDatum text) (CurlRules.encoded escape text) := by
  have hunits : units "=" = [0x3D] := by decide
  rw [urlencodeDatum, CurlRules.encoded]
  cases hcut : cutAt 0x3D text with
  | mk name value =>
      have hname : 0x3D ∉ name := by
        have hnot := not_mem_cutAt 0x3D text
        rwa [hcut] at hnot
      cases value with
      | some content =>
          dsimp only
          by_cases hempty : name = []
          · subst hempty
            exact .content content
          · rw [if_pos hempty, if_pos hempty, hunits, List.append_assoc, List.append_assoc,
              List.singleton_append, List.singleton_append]
            by_cases hat : 0x40 ∈ name
            · rw [if_neg (not_not.mpr hat)]
              exact .file name content _ hname hat
            · rw [if_pos hat]
              exact .named name content hname
      | none =>
          have hno : 0x3D ∉ text := cutAt_eq_none_iff.mp (by rw [hcut])
          rw [cutAt_of_not_mem hno] at hcut
          obtain ⟨rfl, -⟩ := Prod.mk.inj hcut
          dsimp only
          rw [if_neg (h.resolve_left hno)]
          exact .content _

/-- The data, piece by piece. -/
theorem pieceRead_args (escape : Text → Text)
    (h : ∀ text, .dataUrlencode text ∈ args → 0x3D ∈ text ∨ 0x40 ∉ text) :
    List.Forall₂ (PieceRead escape) (dataRead args) (CurlRules.pieces escape args) := by
  induction args with
  | nil => exact .nil
  | cons arg args ih =>
      have hrest := ih fun text htext => h text (List.mem_cons_of_mem _ htext)
      cases arg with
      | data text => exact .cons (.same text) hrest
      | dataRaw text => exact .cons (.same text) hrest
      | dataBinary text => exact .cons (.same text) hrest
      | dataUrlencode text =>
          exact .cons (pieceRead_urlencode (h text List.mem_cons_self)) hrest
      | address text => exact hrest
      | formString text => exact hrest
      | get => exact hrest
      | header text => exact hrest
      | request method => exact hrest
      | head => exact hrest

/-! ### The command, parsed -/

/-- The address and the body of what was read. -/
theorem addressAndBody_eq {s : CurlState} (h : ReadAs P args {} s)
    (hkind : CurlRules.formParts args = [] ∨ dataRead args = []) :
    ∃ warnings, s.addressAndBody P ((CurlRules.addresses args).headD []) =
      (urlRead args, bodyRead P args, warnings) := by
  have hdata : s.data = dataRead args := h.data
  have hparts : s.parts = CurlRules.formParts args := h.parts
  have hget : s.get = args.contains .get := h.get
  have hheaders : s.headers = headersRead args := h.headers
  have htext : s.dataText = textRead args := by rw [CurlState.dataText, hdata, textRead]
  by_cases hform : CurlRules.formParts args = []
  · have hno : ¬ s.parts ≠ [] := by
      rw [hparts]
      exact not_not.mpr hform
    have hbody : bodyRead P args =
        if .get ∈ args ∨ dataRead args = [] then .none
        else if readAsForm P (headersRead args) then .urlencoded (searchParams (textRead args))
        else .raw (textRead args) := by
      rw [bodyRead, if_neg (not_not.mpr hform)]
    by_cases hmoved : .get ∈ args
    · -- The data is the query.
      have htaken : s.get = true := by
        rw [hget]
        simpa using hmoved
      have hnothing : bodyRead P args = .none := by rw [hbody, if_pos (.inl hmoved)]
      rw [CurlState.addressAndBody, if_neg hno, if_pos htaken, CurlState.withQuery, htext, hnothing,
        urlRead, movedRead, if_pos hmoved]
      exact ⟨_, rfl⟩
    · have hkept : ¬ s.get = true := by
        rw [hget]
        simpa using hmoved
      have hurl : urlRead args = (CurlRules.addresses args).headD [] := by
        rw [urlRead, movedRead, if_neg hmoved]
        rfl
      rw [CurlState.addressAndBody, if_neg hno, if_neg hkept, hdata, hurl]
      by_cases hnone : dataRead args = []
      · rw [hbody, if_pos (.inr hnone), hnone]
        exact ⟨_, rfl⟩
      · have hsent : s.dataBody P = bodyRead P args := by
          rw [hbody, if_neg (not_or.mpr ⟨hmoved, hnone⟩), CurlState.dataBody, htext, hheaders]
          apply if_congr _ rfl rfl
          simp only [readAsForm, Bool.or_eq_true, decide_eq_true_eq]
          rfl
        rw [← hsent]
        -- A file alone is one that was encoded, and so no body of its own.
        split
        · rename_i name hname honly
          have hfile : Datum.file name ∈ dataRead args := by
            rw [hname]
            exact List.mem_singleton_self _
          obtain ⟨text, hmem⟩ := exists_urlencode_of_file hfile
          exact absurd hmem ((h.binaryOnly honly).2 text)
        · rename_i hnil
          exact absurd hnil hnone
        · exact ⟨_, rfl⟩
  · have hnone : dataRead args = [] := hkind.resolve_left hform
    have hempty : movedRead args = [] := by
      rw [movedRead, textRead, hnone]
      exact ite_self _
    have hurl : urlRead args = (CurlRules.addresses args).headD [] := by
      rw [urlRead, hempty]
      rfl
    have hsome : s.parts ≠ [] := by
      rw [hparts]
      exact hform
    rw [CurlState.addressAndBody, if_pos hsome, hurl, bodyRead, if_pos hform, hparts]
    exact ⟨_, rfl⟩

/-- A command whose words are those of the arguments is parsed as their request. -/
theorem parseCurl_args {command name : Text} (hcurl : isCurlCommand command = true)
    (hwords : (if isCmd command then cmdWords command else bashWords command) =
      .ok (name :: (args.map CurlArgument.words).flatten))
    (hplain : ∀ arg ∈ args, ReadsPlainly arg)
    (haddress : ∃ address, CurlRules.addresses args = [address] ∧
      (units "-").isPrefixOf address = false)
    (hkind : CurlRules.formParts args = [] ∨ dataRead args = []) :
    ∃ warnings message, parseCurl P command =
      if isHttpMethod (requestRead P args).method then
        .ok { request := requestRead P args, basic := none, warnings }
      else refused message := by
  obtain ⟨address, haddresses, hdash⟩ := haddress
  have hread := readAs_args (P := P) hplain {}
  obtain ⟨told, hbody⟩ := addressAndBody_eq hread hkind
  -- The address is no option.
  have hdashes : ∀ text, .address text ∈ args → (units "-").isPrefixOf text = false := by
    intro text htext
    have hmem : text ∈ CurlRules.addresses args :=
      List.mem_filterMap.mpr ⟨.address text, htext, rfl⟩
    rw [haddresses] at hmem
    obtain rfl := List.mem_singleton.mp hmem
    exact hdash
  have hfold := readWords_args (P := P) hdashes
  -- From here on the state is known by what was read into it.
  generalize args.foldl (readArgument P) {} = s at hread hbody hfold
  have hmethod : s.methodOf (bodyRead P args) = (requestRead P args).method := by
    have hhead : s.head = args.contains .head := hread.head
    have hgiven : s.method = (CurlRules.methodGiven args).map P.toUpperCase := by
      rw [hread.method]
      exact Option.or_none
    rw [CurlState.methodOf, hgiven, hhead, requestRead]
    simp
  have hurls : s.urls = [address] := by
    rw [hread.urls, haddresses]
    rfl
  have hheaders : s.headers = headersRead args := hread.headers
  have hbasic : s.basic = none := hread.basic
  rw [haddresses, List.headD_cons] at hbody
  refine ⟨s.warnings ++ [] ++ told, units "The cURL command's method, " ++
    (requestRead P args).method ++
    units ", is not an HTTP method: one word of at most 32 characters.", ?_⟩
  rw [parseCurl, if_pos hcurl]
  have hread : ∀ read, read = .ok (name :: (args.map CurlArgument.words).flatten) →
      (read >>= fun words => CurlState.readWords P {} words.tail >>= fun s => s.parsed P) =
        (CurlState.readWords P {} (args.map CurlArgument.words).flatten >>= fun s =>
          s.parsed P) := by
    rintro _ rfl
    rfl
  have hparsed : ∀ read, (if isCmd command then cmdWords command else bashWords command) = read →
      (do
        let words ← if isCmd command then cmdWords command else bashWords command
        let s ← CurlState.readWords P {} words.tail
        s.parsed P) =
        (read >>= fun words => CurlState.readWords P {} words.tail >>= fun s => s.parsed P) := by
    rintro _ rfl
    split_ifs
    · rfl
    · rfl
  -- The words after the command's name are read one after the other.
  rw [hparsed _ hwords, hread _ rfl]
  show (CurlState.readWords P {} (args.map CurlArgument.words).flatten >>= fun s => s.parsed P) = _
  rw [hfold]
  show s.parsed P = _
  rw [CurlState.parsed, hurls]
  simp only [hbody, hmethod, hheaders, hbasic]
  rfl

end CurlSends

end Wayfarer
