import Wayfarer.Export.Curl
import Wayfarer.Import.Curl

/-!
# The words of a command that was written

`bashWords` undoes `shellQuote`: a word in single quotes is read as the text it was written for,
whatever characters it has (`bashWords_quoted`). An argument is written as one word or several
(`Written`), and a command of arguments is read as their words, one after the other
(`bashWords_buildCurl`).
-/

set_option autoImplicit false

namespace Wayfarer

open Library

/-! ## One word -/

theorem addPiece_addPiece (word : Option Text) (piece piece' : Text) :
    addPiece (addPiece word piece) piece' = addPiece word (piece ++ piece') := by
  simp [addPiece]

/-- A character outside of quotes that is no backslash. -/
theorem bashFrom_plain {c : CodeUnit} (hc : c ≠ backslash) (word : Option Text) (words : List Text)
    (rest : Text) :
    bashFrom .bare word words (c :: rest) =
      if c = singleQuote then bashFrom (.single []) word words rest
      else if c = 0x24 ∧ rest.head? = some 0x27 then bashFrom (.ansi [] 0) word words rest.tail
      else if c = 0x22 then bashFrom (.double []) word words rest
      else if isWhite c then bashFrom .bare none (words ++ word.toList) rest
      else bashFrom .bare (addPiece word [c]) words rest := by
  rw [bashFrom.eq_def]
  cases rest <;> simp [hc, singleQuote]

/-- A single quote that is escaped is a character of the word. -/
theorem bashFrom_escapedQuote (word : Option Text) (words : List Text) (rest : Text) :
    bashFrom .bare word words (backslash :: singleQuote :: rest) =
      bashFrom .bare (addPiece word [singleQuote]) words rest := by
  rw [bashFrom.eq_def]
  rfl

/-- A line that goes on. -/
theorem bashFrom_lineGoesOn (word : Option Text) (words : List Text) (rest : Text) :
    bashFrom .bare word words (backslash :: 0x0A :: rest) = bashFrom .bare word words rest := by
  rw [bashFrom.eq_def]
  rfl

/-- A character between single quotes. -/
theorem bashFrom_inSingle (piece : Text) (word : Option Text) (words : List Text) (c : CodeUnit)
    (rest : Text) :
    bashFrom (.single piece) word words (c :: rest) =
      if c = singleQuote then bashFrom .bare (addPiece word piece) words rest
      else bashFrom (.single (piece ++ [c])) word words rest := by
  rw [bashFrom.eq_def]
  rfl

/-- Single quotes are opened. -/
theorem bashFrom_open (word : Option Text) (words : List Text) (rest : Text) :
    bashFrom .bare word words (singleQuote :: rest) = bashFrom (.single []) word words rest := by
  rw [bashFrom_plain (by decide), if_pos rfl]

/-- A text inside single quotes, read to the end of it. -/
theorem bashFrom_single (value : Text) (piece : Text) (word : Option Text) (words : List Text)
    (rest : Text) :
    bashFrom (.single piece) word words
        (value.flatMap (fun c => if c = singleQuote then units "'\\''" else [c]) ++
          singleQuote :: rest) =
      bashFrom .bare (addPiece word (piece ++ value)) words rest := by
  induction value generalizing piece word with
  | nil =>
      rw [List.flatMap_nil, List.nil_append, bashFrom_inSingle, if_pos rfl, List.append_nil]
  | cons c value ih =>
      rw [List.flatMap_cons]
      by_cases hc : c = singleQuote
      · -- The quotes are closed, the quote is escaped, and they are opened again.
        have hunits :
            units "'\\''" = [singleQuote, backslash, singleQuote, singleQuote] := by decide
        have hcons : ∀ tail : Text, units "'\\''" ++ tail =
            singleQuote :: backslash :: singleQuote :: singleQuote :: tail := by
          intro tail
          rw [hunits]
          rfl
        rw [if_pos hc, hc, List.append_assoc, hcons]
        rw [bashFrom_inSingle, if_pos rfl, bashFrom_escapedQuote, bashFrom_open, ih,
          addPiece_addPiece, addPiece_addPiece]
        simp
      · rw [if_neg hc, List.singleton_append, List.cons_append, bashFrom_inSingle, if_neg hc, ih,
          List.append_assoc, List.singleton_append]

/-- A quoted text is read as that text, added to the word it stands in. -/
theorem bashFrom_shellQuote (value : Text) (word : Option Text) (words : List Text) (rest : Text) :
    bashFrom .bare word words (shellQuote value ++ rest) =
      bashFrom .bare (addPiece word value) words rest := by
  rw [shellQuote, List.append_assoc, List.cons_append, bashFrom_open, List.singleton_append,
    bashFrom_single, List.nil_append]

/-- A character that stands for itself outside of quotes. -/
def isBareUnit (c : CodeUnit) : Bool :=
  !(units "\\'\"$").contains c && !isWhite c

theorem bashFrom_bareUnit {c : CodeUnit} (hc : isBareUnit c = true) (word : Option Text)
    (words : List Text) (rest : Text) :
    bashFrom .bare word words (c :: rest) = bashFrom .bare (addPiece word [c]) words rest := by
  have hunits : units "\\'\"$" = [backslash, singleQuote, 0x22, 0x24] := by decide
  simp only [isBareUnit, hunits, Bool.and_eq_true, Bool.not_eq_true', List.contains_eq_mem,
    decide_eq_false_iff_not, List.mem_cons, List.not_mem_nil, or_false, not_or] at hc
  obtain ⟨⟨hbackslash, hsingle, hdouble, hdollar⟩, hwhite⟩ := hc
  rw [bashFrom_plain hbackslash, if_neg hsingle, if_neg (fun h => hdollar h.1), if_neg hdouble,
    if_neg (by simp [hwhite])]

theorem bashFrom_bare {value : Text} (hvalue : value.all isBareUnit = true) (hne : value ≠ [])
    (word : Option Text) (words : List Text) (rest : Text) :
    bashFrom .bare word words (value ++ rest) =
      bashFrom .bare (addPiece word value) words rest := by
  induction value generalizing word with
  | nil => exact absurd rfl hne
  | cons c value ih =>
      obtain ⟨hc, hrest⟩ := Bool.and_eq_true_iff.mp (List.all_cons ▸ hvalue)
      rw [List.cons_append, bashFrom_bareUnit hc]
      by_cases hempty : value = []
      · subst hempty
        rfl
      · rw [ih hrest hempty, addPiece_addPiece, List.singleton_append]

/-- A space ends the word before it. -/
theorem bashFrom_space (word : Option Text) (words : List Text) (rest : Text) :
    bashFrom .bare word words (space :: rest) =
      bashFrom .bare none (words ++ word.toList) rest := by
  have hwhite : isWhite space = true := by decide
  rw [bashFrom_plain (by decide), if_neg (by decide), if_neg (fun h => absurd h.1 (by decide)),
    if_neg (by decide), if_pos hwhite]

/-! ## Arguments -/

/-- A text that writes words, the last of which may go on. -/
def Writes (text : Text) (before : List Text) (last : Text) : Prop :=
  ∀ words rest, bashFrom .bare none words (text ++ rest) =
    bashFrom .bare (some last) (words ++ before) rest

theorem writes_shellQuote (value : Text) : Writes (shellQuote value) [] value := by
  intro words rest
  rw [bashFrom_shellQuote, List.append_nil]
  rfl

theorem writes_bare {value : Text} (hvalue : value.all isBareUnit = true) (hne : value ≠ []) :
    Writes value [] value := by
  intro words rest
  rw [bashFrom_bare hvalue hne, List.append_nil]
  rfl

/-- A word, a space and what writes another. -/
theorem Writes.space {text text' : Text} {first last : Text} (h : Writes text [] first)
    (h' : Writes text' [] last) : Writes (text ++ units " " ++ text') [first] last := by
  intro words rest
  have hunits : units " " = [Library.space] := by decide
  rw [hunits, List.append_assoc, List.append_assoc, h, List.singleton_append, bashFrom_space, h',
    List.append_nil, List.append_nil]
  rfl

/-- What stands between two arguments of a command: a line that goes on. -/
theorem bashFrom_separator (last : Text) (words : List Text) (rest : Text) :
    bashFrom .bare (some last) words (units " \\\n  " ++ rest) =
      bashFrom .bare none (words ++ [last]) rest := by
  have hunits : units " \\\n  " = [space, backslash, 0x0A, space, space] := by decide
  rw [hunits]
  simp only [List.cons_append, List.nil_append]
  rw [bashFrom_space, bashFrom_lineGoesOn, bashFrom_space, bashFrom_space]
  simp

/-- An argument that is written, and the words it stands for. -/
def Written (text : Text) (words : List Text) : Prop :=
  ∃ before last, words = before ++ [last] ∧ Writes text before last

theorem written_shellQuote (value : Text) : Written (shellQuote value) [value] :=
  ⟨[], value, rfl, writes_shellQuote value⟩

theorem written_bare {value : Text} (hvalue : value.all isBareUnit = true) (hne : value ≠ []) :
    Written value [value] :=
  ⟨[], value, rfl, writes_bare hvalue hne⟩

/-- An option and its value in quotes. -/
theorem written_option (option : Text) (hoption : option.all isBareUnit = true)
    (hne : option ≠ []) (value : Text) :
    Written (option ++ units " " ++ shellQuote value) [option, value] :=
  ⟨[option], value, rfl, (writes_bare hoption hne).space (writes_shellQuote value)⟩

/-- A command of arguments is read as their words. -/
theorem bashFrom_joinWith {texts : List Text} {wordLists : List (List Text)}
    (h : List.Forall₂ Written texts wordLists) (hne : texts ≠ []) (words : List Text) :
    bashFrom .bare none words (joinWith (units " \\\n  ") texts) =
      .ok (words ++ wordLists.flatten) := by
  induction h generalizing words with
  | nil => exact absurd rfl hne
  | @cons text own texts wordLists hown hrest ih =>
      obtain ⟨before, last, rfl, hwrites⟩ := hown
      cases texts with
      | nil =>
          cases hrest
          have hread := hwrites words []
          rw [List.append_nil] at hread
          simp [joinWith, hread, bashFrom]
      | cons next texts =>
          have hjoin : joinWith (units " \\\n  ") (text :: next :: texts) =
              text ++ (units " \\\n  " ++ joinWith (units " \\\n  ") (next :: texts)) := by
            simp [joinWith, List.intercalate_cons_cons]
          rw [hjoin, hwrites, bashFrom_separator, ih (by simp)]
          simp

/-- Words in quotes, with a space between each two, are read as they are. -/
theorem bashWords_quoted (values : List Text) :
    bashWords (joinWith (units " ") (values.map shellQuote)) = .ok values := by
  have hunits : units " " = [space] := by decide
  have hread : ∀ (values words : List Text), bashFrom .bare none words
      (joinWith (units " ") (values.map shellQuote)) = .ok (words ++ values) := by
    intro values
    induction values with
    | nil =>
        intro words
        rfl
    | cons value values ih =>
        intro words
        cases values with
        | nil =>
            have hquote := bashFrom_shellQuote value none words []
            rw [List.append_nil] at hquote
            simp [joinWith, hquote, bashFrom, addPiece]
        | cons next values =>
            have hjoin : joinWith (units " ") ((value :: next :: values).map shellQuote) =
                shellQuote value ++ (space ::
                  joinWith (units " ") ((next :: values).map shellQuote)) := by
              simp [joinWith, List.intercalate_cons_cons, hunits]
            rw [hjoin, bashFrom_shellQuote, bashFrom_space, ih]
            simp [addPiece]
  exact hread values []

/-! ## The words of a written request -/

/-- The words that say the method. -/
def methodWords (method : Text) : List (List Text) :=
  if method = units "HEAD" then [[units "--head"]]
  else if method ≠ units "GET" then [[units "-X", method]]
  else []

/-- The words that say the address. -/
def urlWords (url : Text) : List Text :=
  if (units "-").isPrefixOf url then [units "--url", url] else [url]

/-- The words that say a header. -/
def headerWords (header : Text × Text) : List Text :=
  [units "-H", header.1 ++ units ": " ++ header.2]

/-- The words that say a field of a form. -/
def fieldWords (field : Text × Text) : List Text :=
  if field.1 ≠ [] then [units "--data-urlencode", formText field.1 ++ units "=" ++ field.2]
  else [units "--data-raw", units "=" ++ formText field.2]

/-- The words that say a part of a form. -/
def partWords (part : ExportPart) : List Text :=
  match part.value with
  | .text value => [units "--form-string", part.name ++ units "=" ++ value]
  | .file fileName =>
      [units "-F", part.name ++ units "=@\"" ++ quotedFileName fileName ++ units "\""]

/-- The words that say the body. -/
def bodyWords : ExportBody → List (List Text)
  | .none => []
  | .raw text => if text ≠ [] then [[units "--data-raw", text]] else []
  | .urlencoded fields => fields.map fieldWords
  | .multipart parts => parts.map partWords
  | .binary fileName =>
      if fileName ≠ [] then [[units "--data-binary", units "@" ++ fileName]] else []

/-- The words of a written request, after the command's own name. -/
def requestWords (request : ExportRequest) : List (List Text) :=
  methodWords request.method ++ [urlWords request.url] ++
    (request.headers.filter fun header => header.1 ≠ []).map headerWords ++
    bodyWords request.body

/-- A letter stands for itself. -/
theorem isBareUnit_of_isLetter {c : CodeUnit} (hc : isLetter c = true) : isBareUnit c = true := by
  have hmarks : ∀ c ∈ units "\\'\"$", isLetter c = false := by decide
  have hwhite : ∀ c ∈ whiteSpace, isLetter c = false := by decide
  have hmark : c ∉ units "\\'\"$" := fun hmem => by simp [hmarks c hmem] at hc
  have hplain : c ∉ whiteSpace := fun hmem => by simp [hwhite c hmem] at hc
  simp [isBareUnit, isWhite, hmark, hplain]

theorem written_method (method : Text) :
    List.Forall₂ Written (methodArgument method) (methodWords method) := by
  rw [methodArgument, methodWords]
  split_ifs with hhead hget hletters
  · exact .cons (written_bare (by decide) (by decide)) .nil
  · -- A plain method needs no quotes.
    have hplain : method.all isBareUnit = true :=
      List.all_eq_true.mpr fun c hc =>
        isBareUnit_of_isLetter (List.all_eq_true.mp hletters.2 c hc)
    have hoption : Writes (units "-X") [] (units "-X") := writes_bare (by decide) (by decide)
    have hwrites := hoption.space
      (writes_bare hplain hletters.1)
    exact .cons ⟨[units "-X"], method, rfl, hwrites⟩ .nil
  · exact .cons (written_option (units "-X") (by decide) (by decide) method) .nil
  · exact .nil

theorem written_url (url : Text) : Written (urlArgument url) (urlWords url) := by
  rw [urlArgument, urlWords]
  split_ifs
  · exact written_option (units "--url") (by decide) (by decide) url
  · exact written_shellQuote url

theorem written_field (field : Text × Text) :
    Written (fieldArgument field) (fieldWords field) := by
  rw [fieldArgument, fieldWords]
  split_ifs
  · exact written_option (units "--data-urlencode") (by decide) (by decide) _
  · exact written_option (units "--data-raw") (by decide) (by decide) _

theorem written_part (part : ExportPart) : Written (partArgument part) (partWords part) := by
  obtain ⟨name, value⟩ := part
  cases value with
  | text value => exact written_option (units "--form-string") (by decide) (by decide) _
  | file fileName => exact written_option (units "-F") (by decide) (by decide) _

theorem written_body (body : ExportBody) :
    List.Forall₂ Written (bodyArguments body) (bodyWords body) := by
  cases body with
  | none => exact .nil
  | raw text =>
      rw [bodyArguments, bodyWords]
      split_ifs
      · exact .cons (written_option (units "--data-raw") (by decide) (by decide) text) .nil
      · exact .nil
  | urlencoded fields =>
      rw [bodyArguments, bodyWords, List.forall₂_map_left_iff, List.forall₂_map_right_iff,
        List.forall₂_same]
      exact fun field _ => written_field field
  | multipart parts =>
      rw [bodyArguments, bodyWords, List.forall₂_map_left_iff, List.forall₂_map_right_iff,
        List.forall₂_same]
      exact fun part _ => written_part part
  | binary fileName =>
      rw [bodyArguments, bodyWords]
      split_ifs
      · exact .cons (written_option (units "--data-binary") (by decide) (by decide) _) .nil
      · exact .nil

theorem written_headers (headers : List (Text × Text)) :
    List.Forall₂ Written
      (headers.map fun header => units "-H " ++ shellQuote (header.1 ++ units ": " ++ header.2))
      (headers.map headerWords) := by
  rw [List.forall₂_map_left_iff, List.forall₂_map_right_iff, List.forall₂_same]
  exact fun header _ => written_option (units "-H") (by decide) (by decide) _

/-- A written command is read as the words of its request. -/
theorem bashWords_buildCurl {request : ExportRequest} (hsaid : unsayable request.body = none) :
    bashWords (buildCurl request) = .ok (units "curl" :: (requestWords request).flatten) := by
  have hcurl : Written (units "curl") [units "curl"] := written_bare (by decide) (by decide)
  have hall : List.Forall₂ Written (curlArguments request)
      ([units "curl"] :: requestWords request) := by
    rw [curlArguments, requestWords]
    have hfirst := List.rel_append (List.Forall₂.cons hcurl .nil) (written_method request.method)
    have hurl := List.rel_append hfirst (.cons (written_url request.url) .nil)
    have hheaders := List.rel_append hurl
      (written_headers (request.headers.filter fun header => header.1 ≠ []))
    exact List.rel_append hheaders (written_body request.body)
  rw [buildCurl, hsaid]
  have hne : curlArguments request ≠ [] := by simp [curlArguments]
  rw [bashWords, bashFrom_joinWith hall hne, List.nil_append, List.flatten_cons,
    List.singleton_append]

end Wayfarer
