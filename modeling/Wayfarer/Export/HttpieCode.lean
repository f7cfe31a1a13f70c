import Wayfarer.Export.PythonCode
import Wayfarer.Library.Cut
import Wayfarer.Library.Shell

/-!
# What the HTTPie command of a request does

`readHttpie` reads a command as a POSIX shell does, and its words as HTTPie does: options, then a
method, an address and items by their position, each item cut at its first separator that no
backslash escapes. A method that is not of letters alone is taken for the address.

`readHttpie_command` is the request that the command of a request makes, and `httpieCode_made_iff`
says when it is the one it was written for.
-/

set_option autoImplicit false

namespace Wayfarer

open Library

namespace Codegen

/-- What is not read of HTTPie, which rests on `requests`. -/
structure HttpieSide extends PythonSide where
  /-- Among the words that start with a dash, those that are options. -/
  takesDashed : Text → Bool
  /-- A path with the home directory it names. -/
  expandUser : Text → Text
  /-- A text without the white space around it. -/
  strip : Text → Text
  /-- An address without a scheme, completed. -/
  complete : Text → Text

/-! ## Items -/

/-- What an item is, by its separator. -/
inductive Separator where
  | header
  | emptyHeader
  | field
  | file
  /-- A query parameter, a JSON value, or a text or a value that a file holds. -/
  | other
  deriving DecidableEq

/-- A character of a separator. -/
def isSeparatorUnit (c : CodeUnit) : Bool :=
  (units ":;=@").contains c

/-- The separators, each before those it starts with. -/
def separators : List (Text × Separator) :=
  [(units ":=@", .other), (units "==@", .other), (units ":=", .other), (units ":@", .other),
    (units "==", .other), (units "=@", .other), (units ":", .header), (units ";", .emptyHeader),
    (units "=", .field), (units "@", .file)]

/-- The longest separator at the start of a text, and what stands behind it. -/
def separatorAt (t : Text) : Option (Separator × Text) :=
  (separators.find? fun s => s.1.isPrefixOf t).map fun s => (s.2, t.drop s.1.length)

/-- A text without the backslashes that escape a character of a separator. -/
def unescape : Text → Text
  | [] => []
  | [c] => [c]
  | c :: d :: rest =>
      if c = backslash then (if isSeparatorUnit d then [d] else [c, d]) ++ unescape rest
      else c :: unescape (d :: rest)

/-- An item: what stands in front of its first separator, the separator, and what stands behind. -/
def splitItem : Text → Option (Text × Separator × Text)
  | [] => none
  | [c] => (separatorAt [c]).map fun found => ([], found.1, unescape found.2)
  | c :: d :: rest =>
      if c = backslash then
        (splitItem rest).map fun item =>
          ((if isSeparatorUnit d then [d] else [c, d]) ++ item.1, item.2)
      else
        match separatorAt (c :: d :: rest) with
        | some found => some ([], found.1, unescape found.2)
        | none => (splitItem (d :: rest)).map fun item => (c :: item.1, item.2)

/-- The headers and the parts that items say. -/
structure HttpieItems where
  headers : List (Text × Text) := []
  parts : List MadePart := []

/-- The file of an item, and the name it is sent under. A type may stand behind the name. -/
def httpieFile (S : HttpieSide) (value : Text) : MadeValue :=
  let named := match cutAtWord (units ";type=") value with
    | some (before, _) => before
    | none => value
  .file (S.expandUser named) (match cutAtLast 0x2F named with
    | some (_, shown) => shown
    | none => named)

/-- One item. -/
def addItem (S : HttpieSide) (read : HttpieItems) (item : Text) : Option HttpieItems :=
  match splitItem item with
  | some (name, .header, value) =>
      -- A name and a colon alone take a header away.
      if value = [] then none else some { read with headers := read.headers ++ [(name, value)] }
  | some (name, .emptyHeader, value) =>
      if value = [] then some { read with headers := read.headers ++ [(name, [])] } else none
  | some (name, .field, value) =>
      some { read with parts := read.parts ++ [{ name, value := .text value }] }
  | some (name, .file, value) =>
      some { read with parts := read.parts ++ [{ name, value := httpieFile S value }] }
  | _ => none

/-! ## Words -/

/-- What the words of a command say. -/
structure HttpieWords where
  multipart : Bool := false
  raw : Option Text := none
  /-- The next word is the body. -/
  awaits : Bool := false
  positional : List Text := []

/-- A word that is an option. -/
def isOption (S : HttpieSide) (word : Text) : Bool :=
  startsDash word && S.takesDashed word

/-- One word. -/
def readWord (S : HttpieSide) (read : HttpieWords) (word : Text) : Option HttpieWords :=
  if read.awaits then
    if isOption S word then none else some { read with awaits := false, raw := some word }
  else if word = units "--ignore-stdin" then some read
  else if word = units "--multipart" then some { read with multipart := true }
  else if word = units "--raw" then some { read with awaits := true }
  else if startsDash word then none
  else some { read with positional := read.positional ++ [word] }

/-- The characters of a scheme. -/
def isSchemeUnit (c : CodeUnit) : Bool :=
  isAlphanumeric c.toNat || (units "+-.").contains c

/-- An address that names its scheme. -/
def hasScheme (url : Text) : Bool :=
  match cutAt 0x3A url with
  | (c :: scheme, some rest) =>
      isLetter c && scheme.all isSchemeUnit && (units "//").isPrefixOf rest
  | _ => false

/-- The body of a request. A file without a name is the body, and a form is not one of HTTPie's own
unless it is asked for. -/
def httpieBodyMade (read : HttpieWords) (parts : List MadePart) : Option MadeBody :=
  match read.raw, read.multipart, parts with
  | some t, false, [] => some (.text t)
  | none, true, parts => some (.parts parts)
  | none, false, [] => some .none
  | none, false, [⟨[], .file path _⟩] => some (.file path)
  | _, _, _ => none

/-- The address that HTTPie asks for. -/
def httpieUrl (S : HttpieSide) (url : Text) : Text :=
  if hasScheme url then url else S.complete url

/-- The method, which is guessed where none is given. -/
def httpieMethod (method : Option Text) (body : MadeBody) : Text :=
  match method with
  | some method => method.map asciiUpper
  | none => if body = .none then units "GET" else units "POST"

/-- The request that HTTPie makes. -/
def httpieMakes (S : HttpieSide) (read : HttpieWords) (method : Option Text) (url : Text)
    (items : List Text) : Option Made := do
  let found ← items.foldlM (addItem S) {}
  let headers := found.headers.map fun header => (header.1, S.strip header.2)
  if (headers.all fun header => S.takesHeader header.1 header.2) = false then none
  else
    let body ← httpieBodyMade read found.parts
    return { method := httpieMethod method body, url := httpieUrl S url, headers, body }

/-- A request by the words of a command. -/
def httpieRequest (S : HttpieSide) (read : HttpieWords) : Option Made :=
  match read.awaits, read.positional with
  | false, [url] => httpieMakes S read none url []
  | false, method :: url :: items =>
      if method ≠ [] ∧ method.all isLetter then httpieMakes S read (some method) url items
      -- What stands where the method would is the address.
      else httpieMakes S read none method (url :: items)
  | _, _ => none

/-- The request that a command makes. -/
def readHttpie (S : HttpieSide) (command : Text) : Option Made := do
  match ← Shell.words command with
  | program :: arguments =>
      if program = units "http" then
        let read ← arguments.foldlM (readWord S) {}
        httpieRequest S read
      else none
  | [] => none

/-! ## What an item says -/

/-- A name as it is read back: a backslash is no character of a separator, and stays escaped. -/
def readName (name : Text) : Text :=
  name.flatMap fun c => if c = backslash then [c, c] else [c]

theorem separators_eq : separators =
    [([0x3A, 0x3D, 0x40], .other), ([0x3D, 0x3D, 0x40], .other), ([0x3A, 0x3D], .other),
      ([0x3A, 0x40], .other), ([0x3D, 0x3D], .other), ([0x3D, 0x40], .other), ([0x3A], .header),
      ([0x3B], .emptyHeader), ([0x3D], .field), ([0x40], .file)] := by
  decide

/-- No separator starts with another character. -/
theorem separatorAt_plain {c : CodeUnit} (h : isSeparatorUnit c = false) (rest : Text) :
    separatorAt (c :: rest) = none := by
  have hheads : ∀ s ∈ separators, (s.1.head?.any isSeparatorUnit) = true := by decide
  have hnone : separators.find? (fun s => s.1.isPrefixOf (c :: rest)) = none := by
    rw [List.find?_eq_none]
    intro s hs hstarts
    have hhead := hheads s hs
    obtain ⟨tail, htail⟩ := List.isPrefixOf_iff_prefix.mp hstarts
    cases hword : s.1 with
    | nil =>
        rw [hword] at hhead
        cases hhead
    | cons d word =>
        rw [hword] at hhead htail
        have hdc : d = c := (List.cons.inj htail).1
        have hunit : isSeparatorUnit d = true := hhead
        rw [hdc, h] at hunit
        cases hunit
  rw [separatorAt, hnone]
  rfl

/-- The separator of a header, of a field or of a file, in front of a value
that starts with none. -/
theorem separatorAt_value {c : CodeUnit} {s : Separator}
    (h : (c, s) ∈ [((0x3A : CodeUnit), Separator.header), (0x3D, .field)]) {value : Text}
    (hvalue : isUnsafe value = false) : separatorAt (c :: value) = some (s, value) := by
  simp only [List.mem_cons, Prod.mk.injEq, List.not_mem_nil, or_false] at h
  cases value with
  | nil =>
      rcases h with ⟨rfl, rfl⟩ | ⟨rfl, rfl⟩ <;> decide
  | cons d value =>
      have hd : d ≠ 0x40 ∧ d ≠ 0x3D := by
        simpa [isUnsafe] using hvalue
      have hat : ((0x40 : CodeUnit) == d) = false := beq_false_of_ne fun heq => hd.1 heq.symm
      have hequals : ((0x3D : CodeUnit) == d) = false := beq_false_of_ne fun heq => hd.2 heq.symm
      rcases h with ⟨rfl, rfl⟩ | ⟨rfl, rfl⟩ <;>
      · rw [separatorAt, separators_eq]
        simp [List.find?, List.isPrefixOf, hat, hequals]

theorem separatorAt_file (value : Text) : separatorAt (0x40 :: value) = some (.file, value) := by
  rw [separatorAt, separators_eq]
  simp [List.find?, List.isPrefixOf]

/-- An item that starts with its separator. -/
theorem splitItem_separator {c : CodeUnit} (hc : c ≠ backslash) {sep : Separator} {value : Text}
    (h : separatorAt (c :: value) = some (sep, value)) :
    splitItem (c :: value) = some ([], sep, unescape value) := by
  cases value with
  | nil => rw [splitItem, h, Option.map_some]
  | cons d value => rw [splitItem, if_neg hc, h]

/-- The characters that are escaped in a name are those of the separators and the backslash. -/
theorem nameMarks_contains (c : CodeUnit) :
    nameMarks.contains c = (decide (c = backslash) || isSeparatorUnit c) := by
  have hmarks : nameMarks = [0x5C, 0x3A, 0x3D, 0x40, 0x3B] := by decide
  have hunits : units ":;=@" = [0x3A, 0x3B, 0x3D, 0x40] := by decide
  rw [Bool.eq_iff_iff, Bool.or_eq_true, decide_eq_true_iff, isSeparatorUnit, hmarks, hunits]
  simp only [List.contains_eq_mem, List.mem_cons, List.not_mem_nil, or_false, decide_eq_true_eq,
    backslash]
  tauto

/-- A name in front of a text is read as that name. -/
theorem splitItem_name (name : Text) {rest : Text} (hrest : rest ≠ []) :
    splitItem (itemName name ++ rest) =
      (splitItem rest).map fun item => (readName name ++ item.1, item.2) := by
  induction name with
  | nil =>
      change splitItem rest = _
      cases splitItem rest <;> rfl
  | cons c name ih =>
      have hnext : itemName name ++ rest ≠ [] := by simp [hrest]
      rw [itemName, List.flatMap_cons, List.append_assoc]
      change splitItem (_ ++ (itemName name ++ rest)) = _
      rw [nameMarks_contains, readName, List.flatMap_cons]
      change _ = (splitItem rest).map fun item => ((_ ++ readName name) ++ item.1, item.2)
      by_cases hslash : c = backslash
      · -- A backslash behind a backslash is no escape.
        have hunit : isSeparatorUnit backslash = false := by decide
        rw [hslash, if_pos (by simp), if_pos rfl]
        simp only [List.cons_append, List.nil_append]
        rw [splitItem, if_pos rfl, hunit, ih, Option.map_map]
        rfl
      · rw [if_neg hslash]
        by_cases hunit : isSeparatorUnit c = true
        · rw [if_pos (by simp [hunit])]
          simp only [List.cons_append, List.nil_append]
          rw [splitItem, if_pos rfl, hunit, ih, Option.map_map]
          rfl
        · have hplain : isSeparatorUnit c = false := by simpa using hunit
          rw [if_neg (by simp [hslash, hplain]), List.singleton_append]
          obtain ⟨d, tail, htail⟩ := List.exists_cons_of_ne_nil hnext
          rw [htail, splitItem, if_neg hslash, separatorAt_plain hplain, ← htail, ih,
            Option.map_map]
          rfl

/-- A name, a separator and a value. -/
theorem splitItem_item (name : Text) {c : CodeUnit} (hc : c ≠ backslash) {sep : Separator}
    {value : Text} (h : separatorAt (c :: value) = some (sep, value)) :
    splitItem (itemName name ++ c :: value) = some (readName name, sep, unescape value) := by
  rw [splitItem_name name (List.cons_ne_nil _ _), splitItem_separator hc h, Option.map_some,
    List.append_nil]

theorem readName_eq_iff {name : Text} : readName name = name ↔ backslash ∉ name := by
  constructor
  · intro h hmem
    -- Each backslash makes the name longer.
    have hlength : ∀ t : Text, t.length ≤ (readName t).length := by
      intro t
      induction t with
      | nil => exact le_rfl
      | cons c t ih =>
          rw [readName, List.flatMap_cons, List.length_append, List.length_cons]
          change _ ≤ _ + (readName t).length
          split_ifs <;> simp <;> omega
    obtain ⟨before, after, rfl⟩ := List.append_of_mem hmem
    have hlonger := congrArg List.length h
    have hbefore := hlength before
    have hafter := hlength after
    rw [readName, List.flatMap_append, List.flatMap_cons, if_pos rfl, List.length_append,
      List.length_append, List.length_append] at hlonger
    change (readName before).length + (2 + (readName after).length) =
      before.length + (after.length + 1) at hlonger
    omega
  · intro h
    induction name with
    | nil => rfl
    | cons c name ih =>
        have hc : c ≠ backslash := fun heq => h (heq ▸ List.mem_cons_self ..)
        rw [readName, List.flatMap_cons, if_neg hc, List.singleton_append]
        exact congrArg (c :: ·) (ih fun hmem => h (List.mem_cons_of_mem c hmem))

theorem unescape_eq_nil_iff {t : Text} : unescape t = [] ↔ t = [] := by
  constructor
  · intro h
    cases t with
    | nil => rfl
    | cons c rest =>
        cases rest with
        | nil => cases h
        | cons d rest =>
            rw [unescape] at h
            split_ifs at h <;> cases h
  · rintro rfl
    rfl

/-! ## When there is no command -/

/-- Why there is no command for a request: HTTPie would read its method, its address or a name as an
option, or a value as a file or as another kind of item. -/
def HttpieRefuses (request : ExportRequest) : Prop :=
  isHttpieMethod request.method = false ∨ startsDash request.url = true ∨
    (∃ name ∈ itemNames request, startsDash name = true) ∨
    (∃ header ∈ sentHeaders request, isUnsafe header.2 = true) ∨
    match request.body with
    | .multipart parts => ∃ part ∈ parts, ∃ value, part.value = .text value ∧ isUnsafe value = true
    | _ => False

/-- A header as an item, without its quotes. -/
def headerText (header : Text × Text) : Text :=
  if header.2 ≠ [] then itemName header.1 ++ units ":" ++ header.2
  else itemName header.1 ++ units ";"

/-- A part as an item, without its quotes. -/
def partText (part : ExportPart) : Text :=
  match part.value with
  | .text value => itemName part.name ++ units "=" ++ value
  | .file fileName => itemName part.name ++ units "@" ++ fileName

/-- The flags and the items of a body. -/
def bodyFlags : ExportBody → List Text
  | .raw text => if text ≠ [] then [units "--raw " ++ shellQuote text] else []
  | .urlencoded fields =>
      if fields ≠ [] then [units "--raw " ++ shellQuote (formSerialize fields)] else []
  | .multipart _ => [units "--multipart"]
  | _ => []

def bodyItems : ExportBody → List Text
  | .multipart parts => parts.map partText
  | .binary fileName => if fileName ≠ [] then [units "@" ++ fileName] else []
  | _ => []

/-- The arguments of a command that is written. -/
def commandTexts (request : ExportRequest) : List Text :=
  [units "http", units "--ignore-stdin"] ++ bodyFlags request.body ++
    ([request.method, request.url] ++ (sentHeaders request).map headerText ++
      bodyItems request.body).map shellQuote

/-- A text without the ends of lines. -/
def OneLine (t : Text) : Prop :=
  (0x0A : CodeUnit) ∉ t ∧ (0x0D : CodeUnit) ∉ t

theorem OneLine.append {s t : Text} (hs : OneLine s) (ht : OneLine t) : OneLine (s ++ t) :=
  ⟨fun h => (List.mem_append.mp h).elim hs.1 ht.1, fun h => (List.mem_append.mp h).elim hs.2 ht.2⟩

theorem oneLine_units {s : String} {cs : List Char} (hs : s = String.ofList cs)
    (h : (cs.all fun c => c.toNat.toUInt16 ≠ 0x0A ∧ c.toNat.toUInt16 ≠ 0x0D) = true) :
    OneLine (units s) := by
  have hall := forall_mem_units (p := fun c => c ≠ 0x0A ∧ c ≠ 0x0D) hs h
  exact ⟨fun hmem => (hall _ hmem).1 rfl, fun hmem => (hall _ hmem).2 rfl⟩

/-- A name in a comment ends no line. -/
theorem oneLine_commentName (name : Text) : OneLine (commentName name) := by
  have hunits : units "'\\''" = [0x27, 0x5C, 0x27, 0x27] := by decide
  have hjson : ∀ c ∈ jsonString name, 0x20 ≤ c.toNat := by
    intro c hc
    rw [jsonString, List.cons_append] at hc
    rcases List.mem_cons.mp hc with rfl | hc
    · decide
    · rcases List.mem_append.mp hc with hc | hc
      · exact le_toNat_of_mem_jsonEscape hc
      · rw [List.mem_singleton.mp hc]
        decide
  have hquoted : ∀ c ∈ commentName name, 0x20 ≤ c.toNat := by
    intro c hc
    rw [commentName, shellQuote, List.cons_append] at hc
    rcases List.mem_cons.mp hc with rfl | hc
    · decide
    · rcases List.mem_append.mp hc with hc | hc
      · obtain ⟨d, hd, hc⟩ := List.mem_flatMap.mp hc
        split_ifs at hc with hquote
        · rw [hunits] at hc
          simp only [List.mem_cons, List.not_mem_nil, or_false] at hc
          rcases hc with rfl | rfl | rfl | rfl <;> decide
        · rw [List.mem_singleton.mp hc]
          exact hjson d hd
      · rw [List.mem_singleton.mp hc]
        decide
  exact ⟨fun h => absurd (hquoted _ h) (by decide), fun h => absurd (hquoted _ h) (by decide)⟩

theorem headerItem_ok {header : Text × Text} (h : isUnsafe header.2 = false) :
    headerItem header = .ok (shellQuote (headerText header)) := by
  rw [headerItem, h]
  rfl

theorem headerItem_error {header : Text × Text} {why : Text} (h : headerItem header = .error why) :
    OneLine why := by
  rw [headerItem] at h
  split_ifs at h with hunsafe
  cases h
  exact ((oneLine_units rfl rfl).append (oneLine_commentName _)).append (oneLine_units rfl rfl)

theorem partItem_error {part : ExportPart} {why : Text} (h : partItem part = .error why) :
    OneLine why := by
  rw [partItem] at h
  cases hvalue : part.value with
  | file fileName =>
      rw [hvalue] at h
      cases h
  | text value =>
      rw [hvalue] at h
      simp only at h
      split_ifs at h with hunsafe
      cases h
      exact ((oneLine_units rfl rfl).append (oneLine_commentName _)).append (oneLine_units rfl rfl)

theorem partItem_ok {part : ExportPart}
    (h : ∀ value, part.value = .text value → isUnsafe value = false) :
    partItem part = .ok (shellQuote (partText part)) := by
  rw [partItem, partText]
  cases hvalue : part.value with
  | file fileName => rfl
  | text value =>
      simp only [h value hvalue, Bool.false_eq_true, if_false]

/-- The flags and the items of a body, where none of its parts is refused. -/
theorem httpieBody_ok {body : ExportBody}
    (h : ∀ parts, body = .multipart parts → ∀ part ∈ parts, ∀ value, part.value = .text value →
      isUnsafe value = false) :
    httpieBody body = .ok (bodyFlags body, (bodyItems body).map shellQuote) := by
  cases body with
  | none => rfl
  | raw text => rfl
  | urlencoded fields => rfl
  | multipart parts =>
      have hparts : parts.mapM partItem = .ok (parts.map fun part => shellQuote (partText part)) :=
        mapM_ok fun part hpart => partItem_ok (h parts rfl part hpart)
      rw [httpieBody, hparts, bodyItems, List.map_map]
      rfl
  | binary fileName =>
      by_cases hname : fileName = []
      · subst hname
        rfl
      · simp [httpieBody, bodyFlags, bodyItems, hname]

/-- A request that is not refused is written as its command. -/
theorem httpieArguments_ok {request : ExportRequest} (h : ¬ HttpieRefuses request) :
    httpieArguments request = .ok (commandTexts request) := by
  simp only [HttpieRefuses, not_or] at h
  obtain ⟨hmethod, hurl, hnames, hheaders, hparts⟩ := h
  have hfind : (itemNames request).find? startsDash = none := by
    rw [List.find?_eq_none]
    exact fun name hname hdash => hnames ⟨name, hname, hdash⟩
  have hitems : (sentHeaders request).mapM headerItem =
      .ok ((sentHeaders request).map fun header => shellQuote (headerText header)) :=
    mapM_ok fun header hheader => headerItem_ok (by
      rw [← Bool.not_eq_true]
      exact fun hunsafe => hheaders ⟨header, hheader, hunsafe⟩)
  have hbody : httpieBody request.body =
      .ok (bodyFlags request.body, (bodyItems request.body).map shellQuote) := by
    refine httpieBody_ok fun parts hbody part hpart value hvalue => ?_
    rw [← Bool.not_eq_true]
    intro hunsafe
    rw [hbody] at hparts
    exact hparts ⟨part, hpart, value, hvalue, hunsafe⟩
  rw [httpieArguments, if_neg hmethod, if_neg hurl, hfind, hitems, hbody, commandTexts,
    List.map_append, List.map_append, List.map_map]
  simp only [List.append_assoc]
  rfl

/-- A request that is refused is not, and what says so ends no line. -/
theorem httpieArguments_error {request : ExportRequest} (h : HttpieRefuses request) :
    ∃ why, httpieArguments request = .error why ∧ OneLine why := by
  rw [httpieArguments]
  -- The reasons, in the order of the source: each is the first, or the next is looked for.
  by_cases hmethod : isHttpieMethod request.method = false
  · rw [if_pos hmethod]
    exact ⟨_, rfl, oneLine_units rfl rfl⟩
  by_cases hurl : startsDash request.url = true
  · rw [if_neg hmethod, if_pos hurl]
    exact ⟨_, rfl, oneLine_units rfl rfl⟩
  rw [if_neg hmethod, if_neg hurl]
  cases hfind : (itemNames request).find? startsDash with
  | some name =>
      exact ⟨_, rfl,
        ((oneLine_units rfl rfl).append (oneLine_commentName _)).append (oneLine_units rfl rfl)⟩
  | none =>
      have hnames : ¬ ∃ name ∈ itemNames request, startsDash name = true := by
        rintro ⟨name, hname, hdash⟩
        exact List.find?_eq_none.mp hfind name hname hdash
      by_cases hheaders : ∃ header ∈ sentHeaders request, isUnsafe header.2 = true
      · -- A header is refused at the first value that is unsafe.
        have herror : ∃ header ∈ sentHeaders request, ∃ why, headerItem header = .error why := by
          obtain ⟨header, hheader, hunsafe⟩ := hheaders
          exact ⟨header, hheader, _, by rw [headerItem, if_pos hunsafe]⟩
        obtain ⟨header, -, why, hwhy, hall⟩ := mapM_error herror
        refine ⟨why, ?_, headerItem_error hwhy⟩
        rw [hall]
        rfl
      · have hitems : (sentHeaders request).mapM headerItem =
            .ok ((sentHeaders request).map fun header => shellQuote (headerText header)) :=
          mapM_ok fun header hheader => headerItem_ok (by
            rw [← Bool.not_eq_true]
            exact fun hunsafe => hheaders ⟨header, hheader, hunsafe⟩)
        rcases h with h | h | h | h | h
        · exact absurd h hmethod
        · exact absurd h hurl
        · exact absurd h hnames
        · exact absurd h hheaders
        cases hbody : request.body with
        | multipart parts =>
            rw [hbody] at h
            obtain ⟨part, hpart, value, hvalue, hunsafe⟩ := h
            have herror : ∃ part ∈ parts, ∃ why, partItem part = .error why := by
              refine ⟨part, hpart, ?_⟩
              rw [partItem, hvalue]
              exact ⟨_, if_pos hunsafe⟩
            obtain ⟨part', -, why, hwhy, hall⟩ := mapM_error herror
            refine ⟨why, ?_, partItem_error hwhy⟩
            rw [hitems, httpieBody, hall]
            rfl
        | _ =>
            rw [hbody] at h
            exact h.elim

/-! ## What the command says -/

/-- The flags of a body, each with the option in front of it. -/
def flagSaid : ExportBody → List (List Text × Text)
  | .raw text => if text ≠ [] then [([units "--raw"], text)] else []
  | .urlencoded fields => if fields ≠ [] then [([units "--raw"], formSerialize fields)] else []
  | .multipart _ => [([], units "--multipart")]
  | _ => []

/-- The words that are read by their position. -/
def positionalTexts (request : ExportRequest) : List Text :=
  [request.method, request.url] ++ (sentHeaders request).map headerText ++ bodyItems request.body

/-- The arguments of a command. -/
def commandSaid (request : ExportRequest) : List (List Text × Text) :=
  [([], units "http"), ([], units "--ignore-stdin")] ++ flagSaid request.body ++
    (positionalTexts request).map fun text => ([], text)

theorem shellQuote_eq (t : Text) : shellQuote t = Shell.quoted t := by
  have hunits : units "'\\''" = [0x27, 0x5C, 0x27, 0x27] := by decide
  rw [shellQuote, Shell.quoted, hunits]
  rfl

/-- The text of a command is read as its arguments. -/
theorem reads_commandTexts (request : ExportRequest) :
    List.Forall₂ (fun t s => Shell.Reads t (if (0 : CodeUnit) ∈ s.2 then none else some s))
      (commandTexts request) (commandSaid request) := by
  have hbare : ∀ w : Text, (0 : CodeUnit) ∉ w →
      transduce Shell.step (.bare none) w = some (.bare (some w), []) →
      Shell.Reads w (if (0 : CodeUnit) ∈ w then none else some (([] : List Text), w)) := by
    intro w hw h
    rw [if_neg hw]
    exact h
  have hquoted : ∀ t : Text,
      Shell.Reads (shellQuote t) (if (0 : CodeUnit) ∈ t then none else some ([], t)) := by
    intro t
    rw [shellQuote_eq]
    exact Shell.reads_quoted t
  have hraw : ∀ t : Text, Shell.Reads (units "--raw " ++ shellQuote t)
      (if (0 : CodeUnit) ∈ t then none else some ([units "--raw"], t)) := by
    intro t
    rw [shellQuote_eq]
    exact Shell.reads_option rfl t
  -- The flags are those of the body, the one of a raw text with its value.
  have hflags : List.Forall₂
      (fun t s => Shell.Reads t (if (0 : CodeUnit) ∈ s.2 then none else some s))
      (bodyFlags request.body) (flagSaid request.body) := by
    cases request.body with
    | none => exact .nil
    | raw text =>
        rw [bodyFlags, flagSaid]
        split_ifs
        · exact .cons (hraw text) .nil
        · exact .nil
    | urlencoded fields =>
        rw [bodyFlags, flagSaid]
        split_ifs
        · exact .cons (hraw _) .nil
        · exact .nil
    | multipart parts => exact .cons (hbare _ (by decide) rfl) .nil
    | binary fileName => exact .nil
  have hfirst : List.Forall₂
      (fun t s => Shell.Reads t (if (0 : CodeUnit) ∈ s.2 then none else some s))
      [units "http", units "--ignore-stdin"] [([], units "http"), ([], units "--ignore-stdin")] :=
    .cons (hbare _ (by decide) rfl) (.cons (hbare _ (by decide) rfl) .nil)
  refine List.rel_append (List.rel_append hfirst hflags) ?_
  rw [← positionalTexts, List.forall₂_map_left_iff, List.forall₂_map_right_iff, List.forall₂_same]
  exact fun t _ => hquoted t

/-- The text that is the body of a command, and whether it asks for a form. -/
def bodyRaw : ExportBody → Option Text
  | .raw text => if text ≠ [] then some text else none
  | .urlencoded fields => if fields ≠ [] then some (formSerialize fields) else none
  | _ => none

def isMultipart : ExportBody → Bool
  | .multipart _ => true
  | _ => false

/-- What the words of the command say. -/
def commandWords (request : ExportRequest) : HttpieWords where
  multipart := isMultipart request.body
  raw := bodyRaw request.body
  positional := positionalTexts request

section Reading

variable (S : HttpieSide)

theorem readWord_positional {read : HttpieWords} (hread : read.awaits = false) {word : Text}
    (hword : startsDash word = false) :
    readWord S read word = some { read with positional := read.positional ++ [word] } := by
  have hother : ∀ option : Text, startsDash option = true → word ≠ option := by
    rintro option hoption rfl
    rw [hword] at hoption
    cases hoption
  rw [readWord, hread, if_neg Bool.false_ne_true, if_neg (hother _ (by decide)),
    if_neg (hother _ (by decide)), if_neg (hother _ (by decide)), hword, if_neg Bool.false_ne_true]

theorem foldlM_positional {words : List Text} (hwords : ∀ word ∈ words, startsDash word = false)
    {read : HttpieWords} (hread : read.awaits = false) :
    words.foldlM (readWord S) read = some { read with positional := read.positional ++ words } := by
  induction words generalizing read with
  | nil =>
      rw [List.append_nil]
      rfl
  | cons word words ih =>
      have hnext : ({ read with positional := read.positional ++ [word] } : HttpieWords).awaits =
          false := hread
      have hrest := ih (fun other hother => hwords other (List.mem_cons_of_mem word hother)) hnext
      rw [List.foldlM_cons, readWord_positional S hread (hwords word (List.mem_cons_self ..)),
        Option.bind_eq_bind, Option.bind_some, hrest, List.append_assoc]
      rfl

/-- The flags of a body: its text must not be taken for an option. -/
theorem foldlM_flags (body : ExportBody) :
    ((flagSaid body).flatMap fun s => s.1 ++ [s.2]).foldlM (readWord S) {} =
      if (bodyRaw body).any (isOption S) then none
      else some { multipart := isMultipart body, raw := bodyRaw body } := by
  have hraw : ∀ t : Text, [units "--raw", t].foldlM (readWord S) {} =
      if isOption S t then none else some { raw := some t : HttpieWords } := by
    intro t
    have hignore : units "--raw" ≠ units "--ignore-stdin" := by decide
    have hmultipart : units "--raw" ≠ units "--multipart" := by decide
    have hflag : readWord S {} (units "--raw") = some { awaits := true } := by
      rw [readWord, if_neg Bool.false_ne_true, if_neg hignore, if_neg hmultipart, if_pos rfl]
    have hvalue : readWord S { awaits := true } t =
        if isOption S t then none else some { raw := some t } := by
      rw [readWord, if_pos rfl]
    rw [List.foldlM_cons, hflag, Option.bind_eq_bind, Option.bind_some, List.foldlM_cons, hvalue]
    split_ifs <;> rfl
  cases body with
  | none => rfl
  | raw text =>
      by_cases htext : text ≠ []
      · rw [flagSaid, bodyRaw, if_pos htext, if_pos htext, Option.any_some]
        exact hraw text
      · rw [flagSaid, bodyRaw, if_neg htext, if_neg htext]
        rfl
  | urlencoded fields =>
      by_cases hfields : fields ≠ []
      · rw [flagSaid, bodyRaw, if_pos hfields, if_pos hfields, Option.any_some]
        exact hraw (formSerialize fields)
      · rw [flagSaid, bodyRaw, if_neg hfields, if_neg hfields]
        rfl
  | multipart parts =>
      have hignore : units "--multipart" ≠ units "--ignore-stdin" := by decide
      have hflag : readWord S {} (units "--multipart") = some { multipart := true } := by
        rw [readWord, if_neg Bool.false_ne_true, if_neg hignore, if_pos rfl]
      change [units "--multipart"].foldlM (readWord S) {} = _
      rw [List.foldlM_cons, hflag]
      rfl
  | binary fileName => rfl

theorem startsDash_cons (d : CodeUnit) (t : Text) : startsDash (d :: t) = decide (d = 0x2D) := by
  have hunits : units "-" = [0x2D] := by decide
  have hbeq : startsDash (d :: t) = ((0x2D == d) && true) := by
    rw [startsDash, hunits]
    rfl
  rw [hbeq, Bool.and_true]
  by_cases h : d = 0x2D
  · subst h
    rfl
  · rw [decide_eq_false h]
    exact beq_false_of_ne (Ne.symm h)

/-- A name that starts with no dash, in front of a separator. -/
theorem startsDash_item {name : Text} (h : startsDash name = false) {c : CodeUnit} (hc : c ≠ 0x2D)
    (rest : Text) : startsDash (itemName name ++ c :: rest) = false := by
  cases name with
  | nil =>
      change startsDash (c :: rest) = false
      rw [startsDash_cons, decide_eq_false hc]
  | cons d name =>
      have hd : d ≠ 0x2D := by
        rw [startsDash_cons, decide_eq_false_iff_not] at h
        exact h
      have hslash : backslash ≠ 0x2D := by decide
      rw [itemName, List.flatMap_cons]
      split_ifs
      · exact (startsDash_cons _ _).trans (decide_eq_false hslash)
      · exact (startsDash_cons _ _).trans (decide_eq_false hd)

/-- No word that is read by its position is an option. -/
theorem startsDash_positional {request : ExportRequest} (h : ¬ HttpieRefuses request) :
    ∀ word ∈ positionalTexts request, startsDash word = false := by
  simp only [HttpieRefuses, not_or] at h
  obtain ⟨hmethod, hurl, hnames, -, -⟩ := h
  have hname : ∀ name ∈ itemNames request, startsDash name = false := by
    intro name hmem
    rw [← Bool.not_eq_true]
    exact fun hdash => hnames ⟨name, hmem, hdash⟩
  intro word hword
  rw [positionalTexts] at hword
  rcases List.mem_append.mp hword with hword | hword
  · rcases List.mem_append.mp hword with hword | hword
    · simp only [List.mem_cons, List.not_mem_nil, or_false] at hword
      rcases hword with rfl | rfl
      · -- A method starts with a letter.
        cases hm : request.method with
        | nil => rfl
        | cons c rest =>
            rw [hm, isHttpieMethod] at hmethod
            have hletter : isLetter c = true := by
              by_contra hnot
              rw [Bool.not_eq_true] at hnot
              exact hmethod (by rw [hnot]; rfl)
            have hdash : isLetter 0x2D = false := by decide
            have hc : c ≠ 0x2D := by
              rintro rfl
              rw [hdash] at hletter
              cases hletter
            rw [startsDash_cons, decide_eq_false hc]
      · rw [← Bool.not_eq_true]
        exact hurl
    · -- An item starts with its name, and then with the mark behind it.
      obtain ⟨header, hheader, rfl⟩ := List.mem_map.mp hword
      have hheaderName := hname header.1
        (List.mem_append_left _ (List.mem_map_of_mem hheader))
      rw [headerText]
      split_ifs
      · rw [List.append_assoc]
        exact startsDash_item hheaderName (c := 0x3A) (by decide) _
      · exact startsDash_item hheaderName (c := 0x3B) (by decide) []
  · cases hbody : request.body with
    | multipart parts =>
        rw [hbody] at hword
        obtain ⟨part, hpart, rfl⟩ := List.mem_map.mp hword
        have hpartName := hname part.name (by
          rw [itemNames, hbody]
          exact List.mem_append_right _ (List.mem_map_of_mem hpart))
        rw [partText]
        cases part.value with
        | text value =>
            simp only [List.append_assoc]
            exact startsDash_item hpartName (c := 0x3D) (by decide) value
        | file fileName =>
            simp only [List.append_assoc]
            exact startsDash_item hpartName (c := 0x40) (by decide) fileName
    | binary fileName =>
        rw [hbody, bodyItems] at hword
        split_ifs at hword
        · rw [List.mem_singleton.mp hword]
          have hempty : startsDash ([] : Text) = false := rfl
          exact startsDash_item hempty (c := 0x40) (by decide) fileName
        · exact absurd hword (List.not_mem_nil)
    | _ =>
        rw [hbody] at hword
        exact absurd hword (List.not_mem_nil)

/-- A command is read when no argument holds what none can hold and its body is not taken for an
option. -/
theorem readHttpie_command {request : ExportRequest} (h : ¬ HttpieRefuses request) :
    readHttpie S (httpieCode request) =
      if (∀ s ∈ commandSaid request, (0 : CodeUnit) ∉ s.2) ∧
          (bodyRaw request.body).any (isOption S) = false then
        httpieRequest S (commandWords request)
      else none := by
  have hline : units " \\\n  " = Shell.lineGoesOn := by decide
  have hcode : httpieCode request = joinWith Shell.lineGoesOn (commandTexts request) := by
    rw [httpieCode, httpieArguments_ok h, ← hline]
  have hne : commandTexts request ≠ [] := by simp [commandTexts]
  have hwords := Shell.words_of_clean (reads_commandTexts request) hne
  rw [readHttpie, hcode, hwords]
  by_cases hclean : ∀ s ∈ commandSaid request, (0 : CodeUnit) ∉ s.2
  · have hpositional : (((positionalTexts request).map fun text => (([] : List Text), text)).flatMap
        fun s => s.1 ++ [s.2]) = positionalTexts request := by
      rw [List.flatMap_map]
      exact List.flatMap_singleton' _
    have hall : ((commandSaid request).flatMap fun s => s.1 ++ [s.2]) =
        units "http" :: units "--ignore-stdin" ::
          (((flagSaid request.body).flatMap fun s => s.1 ++ [s.2]) ++ positionalTexts request) := by
      rw [commandSaid, List.flatMap_append, List.flatMap_append, hpositional]
      rfl
    have hignore : readWord S {} (units "--ignore-stdin") = some {} := by
      rw [readWord, if_neg Bool.false_ne_true, if_pos rfl]
    rw [if_pos hclean, hall]
    change (((units "--ignore-stdin" :: _).foldlM (readWord S) {}).bind fun read =>
      httpieRequest S read) = _
    rw [List.foldlM_cons, hignore, Option.bind_eq_bind, Option.bind_some, List.foldlM_append,
      foldlM_flags]
    by_cases hoption : (bodyRaw request.body).any (isOption S) = true
    · rw [if_pos hoption, if_neg (fun hboth => by rw [hoption] at hboth; cases hboth.2)]
      rfl
    · have hplain : (bodyRaw request.body).any (isOption S) = false := by simpa using hoption
      rw [if_neg hoption, if_pos ⟨hclean, hplain⟩, Option.bind_eq_bind, Option.bind_some,
        foldlM_positional S (startsDash_positional h) rfl]
      rfl
  · rw [if_neg hclean, if_neg fun hboth => hclean hboth.1]
    rfl

/-! ## What the command makes -/

/-- A part as it is read back. -/
def readPart (part : ExportPart) : MadePart where
  name := readName part.name
  value := match part.value with
    | .text value => .text (unescape value)
    | .file fileName => httpieFile S (unescape fileName)

/-- A header as it is read back. -/
def readHeader (header : Text × Text) : Text × Text :=
  (readName header.1, unescape header.2)

theorem addItem_header {header : Text × Text} (h : isUnsafe header.2 = false)
    (read : HttpieItems) :
    addItem S read (headerText header) =
      some { read with headers := read.headers ++ [readHeader header] } := by
  rw [headerText, readHeader, addItem]
  by_cases hvalue : header.2 = []
  · have hsplit := splitItem_item header.1 (c := 0x3B) (by decide)
      (by decide : separatorAt [0x3B] = some (.emptyHeader, []))
    have htext : itemName header.1 ++ units ";" = itemName header.1 ++ [0x3B] := rfl
    rw [if_neg (by simp [hvalue]), hvalue, htext, hsplit]
    rfl
  · have hsplit := splitItem_item header.1 (c := 0x3A) (by decide)
      (separatorAt_value (s := .header) (by simp) h)
    have hne : unescape header.2 ≠ [] := fun hnil => hvalue (unescape_eq_nil_iff.mp hnil)
    have htext :
        itemName header.1 ++ units ":" ++ header.2 = itemName header.1 ++ 0x3A :: header.2 := by
      rw [List.append_assoc]
      rfl
    rw [if_pos hvalue, htext, hsplit]
    exact if_neg hne

theorem addItem_part {part : ExportPart}
    (h : ∀ value, part.value = .text value → isUnsafe value = false) (read : HttpieItems) :
    addItem S read (partText part) =
      some { read with parts := read.parts ++ [readPart S part] } := by
  rw [partText, readPart, addItem]
  cases hvalue : part.value with
  | text value =>
      have hsplit := splitItem_item part.name (c := 0x3D) (by decide)
        (separatorAt_value (s := .field) (by simp) (h value hvalue))
      have htext :
          itemName part.name ++ units "=" ++ value = itemName part.name ++ 0x3D :: value := by
        rw [List.append_assoc]
        rfl
      simp only [htext, hsplit]
  | file fileName =>
      have hsplit := splitItem_item part.name (c := 0x40) (by decide) (separatorAt_file fileName)
      have htext : itemName part.name ++ units "@" ++ fileName =
          itemName part.name ++ 0x40 :: fileName := by
        rw [List.append_assoc]
        rfl
      simp only [htext, hsplit]

theorem foldlM_headers {headers : List (Text × Text)}
    (h : ∀ header ∈ headers, isUnsafe header.2 = false) (read : HttpieItems) :
    (headers.map headerText).foldlM (addItem S) read =
      some { read with headers := read.headers ++ headers.map readHeader } := by
  induction headers generalizing read with
  | nil =>
      rw [List.map_nil, List.map_nil, List.append_nil]
      rfl
  | cons header headers ih =>
      rw [List.map_cons, List.foldlM_cons, addItem_header S (h header (List.mem_cons_self ..)),
        Option.bind_eq_bind, Option.bind_some,
        ih (fun other hother => h other (List.mem_cons_of_mem header hother)), List.map_cons,
        List.append_assoc]
      rfl

theorem foldlM_httpieParts {parts : List ExportPart}
    (h : ∀ part ∈ parts, ∀ value, part.value = .text value → isUnsafe value = false)
    (read : HttpieItems) :
    (parts.map partText).foldlM (addItem S) read =
      some { read with parts := read.parts ++ parts.map (readPart S) } := by
  induction parts generalizing read with
  | nil =>
      rw [List.map_nil, List.map_nil, List.append_nil]
      rfl
  | cons part parts ih =>
      rw [List.map_cons, List.foldlM_cons, addItem_part S (h part (List.mem_cons_self ..)),
        Option.bind_eq_bind, Option.bind_some,
        ih (fun other hother => h other (List.mem_cons_of_mem part hother)), List.map_cons,
        List.append_assoc]
      rfl

/-- The parts of a command's items. -/
def partsRead : ExportBody → List MadePart
  | .multipart parts => parts.map (readPart S)
  | .binary fileName =>
      if fileName ≠ [] then [{ name := [], value := httpieFile S (unescape fileName) }] else []
  | _ => []

/-- The body of the request a command makes. -/
def bodyRead : ExportBody → MadeBody
  | .raw text => if text ≠ [] then .text text else .none
  | .urlencoded fields => if fields ≠ [] then .text (formSerialize fields) else .none
  | .multipart parts => .parts (parts.map (readPart S))
  | .binary fileName =>
      if fileName ≠ [] then
        match httpieFile S (unescape fileName) with
        | .file path _ => .file path
        | .text t => .text t
      else .none
  | .none => .none

theorem httpieBodyMade_command (request : ExportRequest) :
    httpieBodyMade (commandWords request) (partsRead S request.body) =
      some (bodyRead S request.body) := by
  rw [commandWords]
  cases request.body with
  | none => rfl
  | raw text =>
      by_cases h : text = [] <;> simp [bodyRaw, partsRead, bodyRead, isMultipart, httpieBodyMade, h]
  | urlencoded fields =>
      by_cases h : fields = [] <;>
        simp [bodyRaw, partsRead, bodyRead, isMultipart, httpieBodyMade, h]
  | multipart parts => rfl
  | binary fileName =>
      by_cases h : fileName = []
      · simp [bodyRaw, partsRead, bodyRead, isMultipart, httpieBodyMade, h]
      · have hfile : ∃ path shown, httpieFile S (unescape fileName) = .file path shown :=
          ⟨_, _, rfl⟩
        obtain ⟨path, shown, hfile⟩ := hfile
        simp [bodyRaw, partsRead, bodyRead, isMultipart, httpieBodyMade, h, hfile]

/-- What the items of a command say. -/
theorem foldlM_items {request : ExportRequest} (h : ¬ HttpieRefuses request) :
    ((sentHeaders request).map headerText ++ bodyItems request.body).foldlM (addItem S) {} =
      some { headers := (sentHeaders request).map readHeader,
             parts := partsRead S request.body } := by
  simp only [HttpieRefuses, not_or] at h
  obtain ⟨-, -, -, hheaders, hparts⟩ := h
  have hsafe : ∀ header ∈ sentHeaders request, isUnsafe header.2 = false := by
    intro header hheader
    rw [← Bool.not_eq_true]
    exact fun hunsafe => hheaders ⟨header, hheader, hunsafe⟩
  rw [List.foldlM_append, foldlM_headers S hsafe, Option.bind_eq_bind, Option.bind_some]
  cases hbody : request.body with
  | multipart parts =>
      rw [hbody] at hparts
      refine foldlM_httpieParts S (fun part hpart value hvalue => ?_) _
      rw [← Bool.not_eq_true]
      exact fun hunsafe => hparts ⟨part, hpart, value, hvalue, hunsafe⟩
  | binary fileName =>
      by_cases hname : fileName = []
      · rw [bodyItems, partsRead, if_neg (by simp [hname]), if_neg (by simp [hname])]
        rfl
      · have hsplit := splitItem_separator (c := 0x40) (by decide) (separatorAt_file fileName)
        have hitem : ∀ read : HttpieItems, addItem S read (0x40 :: fileName) =
            some { read with
              parts :=
                read.parts ++ [{ name := [], value := httpieFile S (unescape fileName) }] } := by
          intro read
          rw [addItem, hsplit]
        have htext : units "@" ++ fileName = 0x40 :: fileName := rfl
        rw [bodyItems, partsRead, if_pos hname, if_pos hname, htext, List.foldlM_cons, hitem]
        rfl
  | _ => rfl

/-! ## When it is the request -/

/-- A body that HTTPie reads as it is: a text that is not taken for an option, names
without backslashes, values in which no backslash escapes a separator, and files it reads
by the names they have. -/
def HttpieReads : ExportBody → Prop
  | .raw text => text ≠ [] → isOption S text = false ∧ (0 : CodeUnit) ∉ text
  | .urlencoded fields => fields ≠ [] → isOption S (formSerialize fields) = false
  | .multipart parts => ∀ part ∈ parts,
      backslash ∉ part.name ∧ (0 : CodeUnit) ∉ part.name ∧
        match part.value with
        | .text value => unescape value = value ∧ (0 : CodeUnit) ∉ value
        | .file fileName =>
            httpieFile S (unescape fileName) = .file fileName fileName ∧ (0 : CodeUnit) ∉ fileName
  | .binary fileName => fileName ≠ [] →
      (∃ shown, httpieFile S (unescape fileName) = .file fileName shown) ∧ (0 : CodeUnit) ∉ fileName
  | .none => True

/-- When the command of a request makes it. -/
structure HttpieSays (request : ExportRequest) : Prop where
  /-- HTTPie takes only letters for a method, and makes them capitals. -/
  method : request.method.all isLetter = true ∧ request.method.map asciiUpper = request.method
  url : (hasScheme request.url = true ∨ S.complete request.url = request.url) ∧
    (0 : CodeUnit) ∉ request.url
  headers : ∀ header ∈ sentHeaders request,
    backslash ∉ header.1 ∧ S.strip (unescape header.2) = header.2 ∧
      S.takesHeader header.1 header.2 = true ∧ (0 : CodeUnit) ∉ header.1 ∧ (0 : CodeUnit) ∉ header.2
  body : HttpieReads S request.body

theorem zero_mem_itemName {name : Text} :
    (0 : CodeUnit) ∈ itemName name ↔ (0 : CodeUnit) ∈ name := by
  have hslash : (0 : CodeUnit) ≠ backslash := by decide
  rw [itemName, List.mem_flatMap]
  constructor
  · rintro ⟨c, hc, hmem⟩
    split_ifs at hmem
    · simp only [List.mem_cons, List.not_mem_nil, or_false, hslash, false_or] at hmem
      exact hmem ▸ hc
    · rw [List.mem_singleton.mp hmem]
      exact hc
  · intro h
    have hmark : nameMarks.contains (0 : CodeUnit) = false := by decide
    exact ⟨0, h, by rw [hmark]; exact List.mem_singleton.mpr rfl⟩

theorem zero_mem_headerText {header : Text × Text} :
    (0 : CodeUnit) ∈ headerText header ↔ (0 : CodeUnit) ∈ header.1 ∨ (0 : CodeUnit) ∈ header.2 := by
  have hcolon : (0 : CodeUnit) ∉ units ":" := by decide
  have hsemicolon : (0 : CodeUnit) ∉ units ";" := by decide
  rw [headerText]
  split_ifs with hvalue
  · simp only [List.mem_append, hcolon, or_false, zero_mem_itemName]
  · have hempty : header.2 = [] := by simpa using hvalue
    simp only [List.mem_append, hsemicolon, or_false, zero_mem_itemName, hempty, List.not_mem_nil]

theorem zero_mem_partText {part : ExportPart} :
    (0 : CodeUnit) ∈ partText part ↔ (0 : CodeUnit) ∈ part.name ∨
      match part.value with
      | .text value => (0 : CodeUnit) ∈ value
      | .file fileName => (0 : CodeUnit) ∈ fileName := by
  have hequals : (0 : CodeUnit) ∉ units "=" := by decide
  have hat : (0 : CodeUnit) ∉ units "@" := by decide
  rw [partText]
  cases part.value with
  | text value => simp only [List.mem_append, hequals, or_false, zero_mem_itemName]
  | file fileName => simp only [List.mem_append, hat, or_false, zero_mem_itemName]

/-- A character that is no letter. -/
theorem zero_not_mem_method {method : Text} (h : method.all isLetter = true) :
    (0 : CodeUnit) ∉ method := by
  have hzero : isLetter 0 = false := by decide
  intro hmem
  have hletter := List.all_eq_true.mp h 0 hmem
  rw [hzero] at hletter
  cases hletter

/-- A part is read back as it is to be made. -/
theorem readPart_eq_iff (part : ExportPart) :
    readPart S part = partMade part ↔ backslash ∉ part.name ∧
      match part.value with
      | .text value => unescape value = value
      | .file fileName => httpieFile S (unescape fileName) = .file fileName fileName := by
  rw [readPart, partMade, MadePart.mk.injEq, readName_eq_iff]
  cases part.value with
  | text value => simp only [MadeValue.text.injEq]
  | file fileName => rfl

/-- A body that the command makes and that can be written is one that HTTPie reads as it is. -/
theorem httpieReads_iff (body : ExportBody) :
    (BodyMade body (bodyRead S body) ∧ (bodyRaw body).any (isOption S) = false ∧
      (∀ s ∈ flagSaid body, (0 : CodeUnit) ∉ s.2) ∧ ∀ t ∈ bodyItems body, (0 : CodeUnit) ∉ t) ↔
    HttpieReads S body := by
  cases body with
  | none =>
      refine ⟨fun _ => trivial, fun _ => ⟨rfl, rfl, ?_, ?_⟩⟩ <;>
      · intro x hx
        exact absurd hx (List.not_mem_nil)
  | raw text =>
      rw [bodyRead, bodyRaw, flagSaid, HttpieReads]
      by_cases htext : text = []
      · subst htext
        refine ⟨fun _ hne => absurd rfl hne, fun _ => ⟨rfl, rfl, ?_, ?_⟩⟩ <;>
        · intro x hx
          exact absurd hx (List.not_mem_nil)
      · rw [if_pos htext, if_pos htext, if_pos htext, Option.any_some]
        constructor
        · rintro ⟨-, hoption, hzero, -⟩ -
          exact ⟨hoption, hzero _ (List.mem_singleton.mpr rfl)⟩
        · intro h
          refine ⟨rfl, (h htext).1, fun s hs => ?_, fun t ht => absurd ht (List.not_mem_nil)⟩
          rw [List.mem_singleton.mp hs]
          exact (h htext).2
  | urlencoded fields =>
      -- An encoded form holds no zero.
      have hzero : (0 : CodeUnit) ∉ formSerialize fields :=
        not_mem_formSerialize (by decide) (by decide) (by decide) fields
      rw [bodyRead, bodyRaw, flagSaid, HttpieReads]
      by_cases hfields : fields = []
      · subst hfields
        refine ⟨fun _ hne => absurd rfl hne, fun _ => ⟨rfl, rfl, ?_, ?_⟩⟩ <;>
        · intro x hx
          exact absurd hx (List.not_mem_nil)
      · rw [if_pos hfields, if_pos hfields, if_pos hfields, Option.any_some]
        constructor
        · rintro ⟨-, hoption, -, -⟩ -
          exact hoption
        · intro h
          refine ⟨congrArg some (formParse_formSerialize fields), h hfields, fun s hs => ?_,
            fun t ht => absurd ht (List.not_mem_nil)⟩
          rw [List.mem_singleton.mp hs]
          exact hzero
  | multipart parts =>
      have hflag : ∀ s ∈ flagSaid (.multipart parts), (0 : CodeUnit) ∉ s.2 := by
        intro s hs
        rw [List.mem_singleton.mp hs]
        decide
      -- The parts are made one for one.
      have hparts : BodyMade (.multipart parts) (bodyRead S (.multipart parts)) ↔
          ∀ part ∈ parts, readPart S part = partMade part := by
        rw [bodyRead, BodyMade, MadeBody.parts.injEq]
        exact List.map_inj_left
      rw [hparts, HttpieReads]
      constructor
      · rintro ⟨hread, -, -, hzero⟩ part hpart
        obtain ⟨hname, hvalue⟩ := (readPart_eq_iff S part).mp (hread part hpart)
        have hclean := hzero _ (List.mem_map_of_mem hpart)
        rw [zero_mem_partText, not_or] at hclean
        refine ⟨hname, hclean.1, ?_⟩
        cases hpartValue : part.value with
        | text value =>
            rw [hpartValue] at hvalue hclean
            exact ⟨hvalue, hclean.2⟩
        | file fileName =>
            rw [hpartValue] at hvalue hclean
            exact ⟨hvalue, hclean.2⟩
      · intro h
        refine ⟨fun part hpart => (readPart_eq_iff S part).mpr ⟨(h part hpart).1, ?_⟩, rfl, hflag,
          fun t ht => ?_⟩
        · have hvalue := (h part hpart).2.2
          cases hpartValue : part.value with
          | text value =>
              rw [hpartValue] at hvalue
              exact hvalue.1
          | file fileName =>
              rw [hpartValue] at hvalue
              exact hvalue.1
        · obtain ⟨part, hpart, rfl⟩ := List.mem_map.mp ht
          obtain ⟨-, hname, hvalue⟩ := h part hpart
          rw [zero_mem_partText, not_or]
          refine ⟨hname, ?_⟩
          cases hpartValue : part.value with
          | text value =>
              rw [hpartValue] at hvalue
              exact hvalue.2
          | file fileName =>
              rw [hpartValue] at hvalue
              exact hvalue.2
  | binary fileName =>
      rw [bodyRead, HttpieReads, bodyItems]
      by_cases hname : fileName = []
      · subst hname
        refine ⟨fun _ hne => absurd rfl hne, fun _ => ⟨rfl, rfl, ?_, ?_⟩⟩ <;>
        · intro x hx
          exact absurd hx (List.not_mem_nil)
      · obtain ⟨path, shown, hfile⟩ :
            ∃ path shown, httpieFile S (unescape fileName) = .file path shown :=
          ⟨_, _, rfl⟩
        -- The file is the one that is named, without the mark in front.
        have hat : (0 : CodeUnit) ∉ units "@" := by decide
        have hmade : BodyMade (.binary fileName) (.file path) ↔ path = fileName := by
          cases fileName with
          | nil => exact absurd rfl hname
          | cons c rest =>
              change MadeBody.file path = .file (c :: rest) ↔ _
              rw [MadeBody.file.injEq]
        rw [if_pos hname, if_pos hname, hfile, hmade]
        constructor
        · rintro ⟨rfl, -, -, hzero⟩ -
          refine ⟨⟨shown, rfl⟩, fun hmem => ?_⟩
          exact hzero _ (List.mem_singleton.mpr rfl) (List.mem_append_right _ hmem)
        · intro h
          obtain ⟨⟨other, hother⟩, hzero⟩ := h hname
          refine ⟨(MadeValue.file.inj hother).1, rfl, fun s hs => absurd hs (List.not_mem_nil),
            fun t ht => ?_⟩
          rw [List.mem_singleton.mp ht, List.mem_append, not_or]
          exact ⟨hat, hzero⟩

/-- The arguments of a command that no argument is too much for. -/
theorem clean_commandSaid_iff (request : ExportRequest) :
    (∀ s ∈ commandSaid request, (0 : CodeUnit) ∉ s.2) ↔
      (∀ s ∈ flagSaid request.body, (0 : CodeUnit) ∉ s.2) ∧ (0 : CodeUnit) ∉ request.method ∧
        (0 : CodeUnit) ∉ request.url ∧
        (∀ header ∈ sentHeaders request, (0 : CodeUnit) ∉ header.1 ∧ (0 : CodeUnit) ∉ header.2) ∧
        ∀ t ∈ bodyItems request.body, (0 : CodeUnit) ∉ t := by
  have hhttp : (0 : CodeUnit) ∉ units "http" := by decide
  have hignore : (0 : CodeUnit) ∉ units "--ignore-stdin" := by decide
  simp only [commandSaid, positionalTexts, List.forall_mem_append, List.forall_mem_map,
    List.forall_mem_cons, List.not_mem_nil, false_implies, implies_true, and_true,
    zero_mem_headerText, not_or, hhttp, hignore, not_false_eq_true, true_and]
  tauto

/-- The headers of the request a command makes. -/
def headersRead (request : ExportRequest) : List (Text × Text) :=
  (sentHeaders request).map fun header => (readName header.1, S.strip (unescape header.2))

theorem httpieMakes_command {request : ExportRequest} (h : ¬ HttpieRefuses request)
    (method : Option Text) :
    httpieMakes S (commandWords request) method request.url
        ((sentHeaders request).map headerText ++ bodyItems request.body) =
      if (headersRead S request).all (fun header => S.takesHeader header.1 header.2) = false then
        none
      else some
        { method := httpieMethod method (bodyRead S request.body), url := httpieUrl S request.url,
          headers := headersRead S request, body := bodyRead S request.body } := by
  have hheaders : ((sentHeaders request).map readHeader).map
      (fun header => (header.1, S.strip header.2)) = headersRead S request := by
    rw [List.map_map]
    rfl
  rw [httpieMakes, foldlM_items S h]
  simp only [Option.bind_eq_bind, Option.bind_some, hheaders, httpieBodyMade_command]
  split_ifs <;> rfl

/-- A method that is guessed is of letters alone. -/
theorem method_of_guess {read : HttpieWords} {url : Text} {items : List Text} {made : Made}
    (h : httpieMakes S read none url items = some made) : made.method.all isLetter = true := by
  obtain ⟨found, -, h⟩ := Option.bind_eq_some_iff.mp h
  simp only at h
  split_ifs at h
  obtain ⟨body, -, h⟩ := Option.bind_eq_some_iff.mp h
  cases h
  change (httpieMethod none body).all isLetter = true
  rw [httpieMethod]
  split_ifs <;> decide

/-- The headers are read as they are exactly when no name has a backslash, and no value has one in
front of a separator or white space around it. -/
theorem headersRead_eq_iff (request : ExportRequest) :
    headersRead S request = sentHeaders request ↔
      ∀ header ∈ sentHeaders request,
        backslash ∉ header.1 ∧ S.strip (unescape header.2) = header.2 := by
  have hid : headersRead S request = sentHeaders request ↔
      (sentHeaders request).map (fun header => (readName header.1, S.strip (unescape header.2))) =
        (sentHeaders request).map id := by
    rw [List.map_id]
    rfl
  rw [hid, List.map_inj_left]
  refine forall₂_congr fun header _ => ?_
  rw [id, Prod.ext_iff, readName_eq_iff]

theorem httpieCode_made_iff {request : ExportRequest} (h : ¬ HttpieRefuses request) :
    (∃ made, readHttpie S (httpieCode request) = some made ∧ made.Says request) ↔
      HttpieSays S request := by
  have hmethod : request.method ≠ [] := by
    intro hempty
    refine h (.inl ?_)
    rw [hempty]
    rfl
  have hclean := clean_commandSaid_iff request
  rw [readHttpie_command S h]
  constructor
  · rintro ⟨made, hmade, hright⟩
    split_ifs at hmade with hread
    obtain ⟨hflags, -, hurl, hheaders, hitems⟩ := hclean.mp hread.1
    have hoption := hread.2
    have hrequest : httpieRequest S (commandWords request) =
        if request.method ≠ [] ∧ request.method.all isLetter then
          httpieMakes S (commandWords request) (some request.method) request.url
            ((sentHeaders request).map headerText ++ bodyItems request.body)
        else httpieMakes S (commandWords request) none request.method
          (request.url :: ((sentHeaders request).map headerText ++ bodyItems request.body)) := rfl
    rw [hrequest] at hmade
    by_cases hletters : request.method.all isLetter = true
    · rw [if_pos ⟨hmethod, hletters⟩, httpieMakes_command S h] at hmade
      split_ifs at hmade with htakes
      cases hmade
      have hsent : headersRead S request = sentHeaders request := hright.headers
      have hread := (headersRead_eq_iff S request).mp hsent
      rw [hsent, Bool.not_eq_false, List.all_eq_true] at htakes
      refine ⟨⟨hletters, hright.method⟩, ⟨?_, hurl⟩, fun header hheader => ?_,
        (httpieReads_iff S _).mp ⟨hright.body, hoption, hflags, hitems⟩⟩
      · by_cases hscheme : hasScheme request.url = true
        · exact .inl hscheme
        · have hcompleted : httpieUrl S request.url = request.url := hright.url
          rw [httpieUrl, if_neg hscheme] at hcompleted
          exact .inr hcompleted
      · exact ⟨(hread header hheader).1, (hread header hheader).2, htakes header hheader,
          hheaders header hheader⟩
    · -- The method is taken for the address, and another one is guessed.
      rw [if_neg fun hboth => hletters hboth.2] at hmade
      have hguess := method_of_guess S hmade
      rw [hright.method] at hguess
      exact absurd hguess hletters
  · rintro ⟨⟨hletters, hupper⟩, ⟨hscheme, hurl⟩, hheaders, hbody⟩
    obtain ⟨hmade, hoption, hflags, hitems⟩ := (httpieReads_iff S _).mpr hbody
    have hsent : headersRead S request = sentHeaders request :=
      (headersRead_eq_iff S request).mpr fun header hheader =>
        ⟨(hheaders header hheader).1, (hheaders header hheader).2.1⟩
    have htakes :
        (sentHeaders request).all (fun header => S.takesHeader header.1 header.2) = true :=
      List.all_eq_true.mpr fun header hheader => (hheaders header hheader).2.2.1
    have haddress : httpieUrl S request.url = request.url := by
      rw [httpieUrl]
      by_cases hnamed : hasScheme request.url = true
      · rw [if_pos hnamed]
      · rw [if_neg hnamed]
        exact hscheme.resolve_left hnamed
    have hrequest : httpieRequest S (commandWords request) =
        if request.method ≠ [] ∧ request.method.all isLetter then
          httpieMakes S (commandWords request) (some request.method) request.url
            ((sentHeaders request).map headerText ++ bodyItems request.body)
        else httpieMakes S (commandWords request) none request.method
          (request.url :: ((sentHeaders request).map headerText ++ bodyItems request.body)) := rfl
    rw [if_pos ⟨hclean.mpr ⟨hflags, zero_not_mem_method hletters, hurl,
      fun header hheader => (hheaders header hheader).2.2.2, hitems⟩, hoption⟩, hrequest,
      if_pos ⟨hmethod, hletters⟩, httpieMakes_command S h, hsent, htakes, if_neg (by decide)]
    exact ⟨_, rfl, hupper, haddress, rfl, hmade⟩

end Reading

end Codegen

end Wayfarer
