import Wayfarer.Import.CurlTyped

/-!
# The body a command sends once it is imported

Data that is a form's fields is read as rows, and other data as its text or, under a form's type, as
rows that are written again: `body_iff` says where what is sent is what curl sends.
-/

set_option autoImplicit false

namespace Wayfarer

open Library CopiedCurl BuiltCurl

namespace CurlSends

variable {P : Platform} {escape : Text → Text} {args : List CurlArgument}

/-! ## Fields -/

/-- A field is read as one of the data. -/
def FieldRead (read own : Text) : Prop :=
  formPiece read = formPiece own ∧ (0x3D ∈ own → 0x3D ∈ read)

theorem escapes_formText : CurlRules.Escapes formText where
  decodes := formDecode_formText
  noAmpersand text := (not_mem_formText text).1
  noEquals text := (not_mem_formText text).2.1

/-- A name with a value, whatever it is encoded with, is cut into the same fields. -/
theorem named_fields {name read own : Text} (hname : 0x3D ∉ name) (hread : 0x26 ∉ read)
    (hown : 0x26 ∉ own) (hsame : formDecode read = formDecode own) :
    List.Forall₂ FieldRead (splitOn 0x26 (name ++ 0x3D :: read))
      (splitOn 0x26 (name ++ 0x3D :: own)) := by
  obtain ⟨front, last, hlast, hsplit⟩ := exists_splitOn_append 0x26 name
  have hno : ∀ {text : Text}, 0x26 ∉ text → 0x26 ∉ 0x3D :: text := by
    intro text htext
    rw [List.mem_cons, not_or]
    exact ⟨by decide, htext⟩
  rw [hsplit _ (hno hread), hsplit _ (hno hown)]
  apply List.rel_append
  · exact List.forall₂_same.mpr fun field _ => ⟨rfl, id⟩
  · have hfront : 0x3D ∉ last := fun hmem => hname (hlast _ hmem)
    refine .cons ⟨?_, fun _ => by simp⟩ .nil
    rw [formPiece, formPiece, cutAt_append_cons hfront, cutAt_append_cons hfront]
    show (_, formDecode read) = (_, formDecode own)
    rw [hsame]

/-- A piece of data whose fields all have an equals sign is cut into the same fields. -/
theorem piece_fields (hescape : CurlRules.Escapes escape) {text own : Text}
    (h : PieceRead escape (.text text) own) (hfields : ∀ field ∈ splitOn 0x26 own, 0x3D ∈ field) :
    List.Forall₂ FieldRead (splitOn 0x26 text) (splitOn 0x26 own) := by
  cases h with
  | same => exact List.forall₂_same.mpr fun field _ => ⟨rfl, id⟩
  | content content =>
      rw [splitOn_of_not_mem (hescape.noAmpersand content)] at hfields
      exact absurd (hfields _ (List.mem_singleton_self _)) (hescape.noEquals content)
  | named name content hname =>
      apply named_fields hname (not_mem_formText content).1 (hescape.noAmpersand content)
      rw [formDecode_formText, hescape.decodes]

/-- The fields of data none of which is taken for a file. -/
theorem data_fields (hescape : CurlRules.Escapes escape) {data : List Datum} {pieces : List Text}
    (h : List.Forall₂ (PieceRead escape) data pieces) (hfiles : ∀ name, .file name ∉ data)
    (hfields : ∀ piece ∈ pieces, ∀ field ∈ splitOn 0x26 piece, 0x3D ∈ field) :
    List.Forall₂ FieldRead ((data.filterMap Datum.text?).flatMap (splitOn 0x26))
      (pieces.flatMap (splitOn 0x26)) := by
  induction h with
  | nil => exact .nil
  | @cons datum piece data pieces hone hrest ih =>
      obtain ⟨hpiece, hpieces⟩ := List.forall_mem_cons.mp hfields
      have hlater := ih (fun name hmem => hfiles name (List.mem_cons_of_mem _ hmem)) hpieces
      cases datum with
      | text text => exact List.rel_append (piece_fields hescape hone hpiece) hlater
      | file name => exact absurd List.mem_cons_self (hfiles name)

/-- There are fewer fields where a piece is taken for a file. -/
theorem data_fewer (hescape : CurlRules.Escapes escape) {data : List Datum} {pieces : List Text}
    (h : List.Forall₂ (PieceRead escape) data pieces) :
    ((data.filterMap Datum.text?).flatMap (splitOn 0x26)).length ≤
        (pieces.flatMap (splitOn 0x26)).length ∧
      ((∃ name, .file name ∈ data) →
        ((data.filterMap Datum.text?).flatMap (splitOn 0x26)).length <
          (pieces.flatMap (splitOn 0x26)).length) := by
  induction h with
  | nil => exact ⟨le_refl _, fun ⟨name, hname⟩ => by cases hname⟩
  | @cons datum piece data pieces hone hrest ih =>
      -- A text has as many fields as the piece that curl makes of it.
      have hlength : ∀ text, datum = .text text →
          (splitOn 0x26 text).length = (splitOn 0x26 piece).length := by
        rintro text rfl
        cases hone with
        | same => rfl
        | content content =>
            rw [splitOn_of_not_mem (hescape.noAmpersand content),
              splitOn_of_not_mem (not_mem_formText content).1]
            rfl
        | named name content hname =>
            apply List.Forall₂.length_eq
            apply named_fields hname (not_mem_formText content).1 (hescape.noAmpersand content)
            rw [formDecode_formText, hescape.decodes]
      have hsome : 0 < (splitOn 0x26 piece).length :=
        List.length_pos_iff.mpr (splitOn_ne_nil _ _)
      cases datum with
      | text text =>
          have hone := hlength text rfl
          have hcons : (Datum.text text :: data).filterMap Datum.text? =
              text :: data.filterMap Datum.text? := rfl
          rw [hcons, List.flatMap_cons, List.flatMap_cons, List.length_append, List.length_append]
          refine ⟨by omega, ?_⟩
          rintro ⟨name, hname⟩
          have hlater := ih.2 ⟨name, (List.mem_cons.mp hname).resolve_left (by simp)⟩
          omega
      | file name =>
          have hcons : (Datum.file name :: data).filterMap Datum.text? =
              data.filterMap Datum.text? := rfl
          -- A name that was taken for a file is no field any more.
          rw [hcons, List.flatMap_cons, List.length_append]
          exact ⟨by omega, fun _ => by omega⟩

/-! ## The body -/

/-- Where the body that is sent is the one curl sends. The method has to carry it. The fields of a
form are kept but for one that stands behind a question mark, and for a text to encode with an at
sign in its name, which is taken for a file; of other data what is written is the text itself. -/
def BodyGoes (P : Platform) (escape : Text → Text) (args : List CurlArgument) : Prop :=
  match CurlRules.sent escape args with
  | .nothing => True
  | .form _ => Carries args
  | .data text =>
      if Carries args then
        if CurlRules.isFields P escape args then
          (∀ own, .dataUrlencode own ∈ args → 0x40 ∉ (cutAt 0x3D own).1) ∧
            (units "?").isPrefixOf (textRead args) = false
        else textSent P args = text
      else text = []

/-- Data is read as fields where it is a form's. -/
theorem readAsForm_of_isFields (hempty : P.toLowerCase [] = [])
    (htokens : ∀ header ∈ headersRead args, isToken header.1 = true)
    (h : CurlRules.isFields P escape args = true) : readAsForm P (headersRead args) = true := by
  rw [CurlRules.isFields] at h
  cases hsent : CurlRules.sent escape args with
  | nothing => simp [hsent] at h
  | form parts => simp [hsent] at h
  | data text =>
      rw [hsent] at h
      have htype := (Bool.and_eq_true_iff.mp h).1
      rw [CurlRules.sentType, hsent] at htype
      rw [readAsForm, typeNamed, contentTypeOf_headersRead, typesRead, List.getLast?_map]
      cases hlast : (CurlRules.typesGiven P args).getLast? with
      | none => simp [hempty]
      | some last =>
          cases last with
          | none => simp [hempty]
          | some own =>
              -- The one line that is sent is the last one given.
              have hmem := List.mem_of_mem_getLast? hlast
              have hgiven : CurlRules.typesNamed P args ≠ [] := by
                intro hnone
                rw [typesGiven_eq_nil htokens hnone] at hmem
                cases hmem
              have hown : own ∈ (CurlRules.typesGiven P args).filterMap id :=
                List.mem_filterMap.mpr ⟨_, hmem, rfl⟩
              dsimp only at htype
              rw [if_neg hgiven, CurlRules.isFormType.eq_def] at htype
              split at htype
              · rename_i type hone
                rw [CurlRules.SentType.lines.injEq] at hone
                rw [hone] at hown
                obtain rfl := List.mem_singleton.mp hown
                rw [Bool.or_eq_true]
                exact .inr htype
              · cases htype

/-- A file among the data is a text to encode with an at sign in its name. -/
theorem exists_file_iff (hfile : ∀ text, .dataUrlencode text ∈ args → 0x3D ∈ text ∨ 0x40 ∉ text) :
    (∃ name, .file name ∈ dataRead args) ↔
      ¬ ∀ text, .dataUrlencode text ∈ args → 0x40 ∉ (cutAt 0x3D text).1 := by
  have hdatum : ∀ text, .dataUrlencode text ∈ args →
      ((∃ name, urlencodeDatum text = .file name) ↔ 0x40 ∈ (cutAt 0x3D text).1) := by
    intro text htext
    rw [urlencodeDatum]
    cases hcut : cutAt 0x3D text with
    | mk name value =>
        cases value with
        | some content =>
            dsimp only
            by_cases hat : 0x40 ∈ name <;> simp [hat]
        | none =>
            have hno : 0x3D ∉ text := cutAt_eq_none_iff.mp (by rw [hcut])
            rw [cutAt_of_not_mem hno] at hcut
            obtain ⟨rfl, -⟩ := Prod.mk.inj hcut
            have hat := (hfile _ htext).resolve_left hno
            simp [hat]
  constructor
  · rintro ⟨name, hname⟩ hnone
    obtain ⟨arg, harg, hread⟩ := List.mem_filterMap.mp hname
    cases arg with
    | dataUrlencode text =>
        exact hnone text harg ((hdatum text harg).mp ⟨name, Option.some.inj hread⟩)
    | _ => simp [datumOf] at hread
  · intro hsome
    push Not at hsome
    obtain ⟨text, htext, hat⟩ := hsome
    obtain ⟨name, hname⟩ := (hdatum text htext).mpr hat
    exact ⟨name, List.mem_filterMap.mpr ⟨_, htext, congrArg some hname⟩⟩

/-- The fields that are read of a form's data are its fields exactly where none is lost. -/
theorem fields_iff (hescape : CurlRules.Escapes escape)
    (hfile : ∀ text, .dataUrlencode text ∈ args → 0x3D ∈ text ∨ 0x40 ∉ text)
    (hpieces : CurlRules.pieces escape args ≠ [])
    (hfields : ∀ field ∈ splitOn 0x26 (CurlRules.dataText escape args), 0x3D ∈ field) :
    searchParams (textRead args) = formParse (CurlRules.dataText escape args) ↔
      (∀ own, .dataUrlencode own ∈ args → 0x40 ∉ (cutAt 0x3D own).1) ∧
        (units "?").isPrefixOf (textRead args) = false := by
  have hunits : units "&" = [0x26] ∧ units "?" = [0x3F] := by decide
  have hread := pieceRead_args escape hfile
  have hown : splitOn 0x26 (CurlRules.dataText escape args) =
      (CurlRules.pieces escape args).flatMap (splitOn 0x26) := by
    rw [CurlRules.dataText, hunits.1, splitOn_joinWith_eq_flatMap hpieces]
  have hparsed : ∀ {text : Text}, (∀ field ∈ splitOn 0x26 text, 0x3D ∈ field) →
      formParse text = (splitOn 0x26 text).map formPiece := by
    intro text htext
    rw [formParse, List.filter_eq_self.mpr]
    intro field hfield
    rw [decide_eq_true_eq]
    rintro rfl
    cases htext [] hfield
  have hmarked : (units "?").isPrefixOf (textRead args) = true →
      ∃ rest, textRead args = 0x3F :: rest := by
    intro hmark
    rw [List.isPrefixOf_iff_prefix, hunits.2] at hmark
    obtain ⟨rest, hrest⟩ := hmark
    exact ⟨rest, hrest.symm⟩
  by_cases hnone : ∃ name, .file name ∈ dataRead args
  · -- A piece is lost, and with it a field.
    refine iff_of_false ?_ fun h => (exists_file_iff hfile).mp hnone h.1
    intro hsame
    have hfewer := (data_fewer hescape hread).2 hnone
    have hlength := congrArg List.length hsame
    have hcount : ∀ text, (formParse text).length ≤ (splitOn 0x26 text).length := by
      intro text
      rw [formParse, List.length_map]
      exact List.length_filter_le _ _
    rw [hparsed hfields, List.length_map, hown] at hlength
    by_cases htexts : (dataRead args).filterMap Datum.text? = []
    · have hempty : textRead args = [] := by
        rw [textRead, htexts]
        rfl
      rw [hempty] at hlength
      rw [htexts] at hfewer
      have hzero : (searchParams []).length = 0 := rfl
      simp only [List.flatMap_nil, List.length_nil] at hfewer
      omega
    · have hsplit : splitOn 0x26 (textRead args) =
          ((dataRead args).filterMap Datum.text?).flatMap (splitOn 0x26) := by
        rw [textRead, hunits.1, splitOn_joinWith_eq_flatMap htexts]
      have hbound : (searchParams (textRead args)).length ≤
          (splitOn 0x26 (textRead args)).length := by
        rw [searchParams]
        split_ifs with hmark
        · obtain ⟨rest, hrest⟩ := hmarked hmark
          have hdrop : (splitOn 0x26 rest).length ≤ (splitOn 0x26 (0x3F :: rest)).length := by
            rw [splitOn, if_neg (by decide)]
            cases splitOn 0x26 rest <;> simp
          rw [hrest]
          exact (hcount rest).trans hdrop
        · exact hcount _
      rw [hsplit] at hbound
      omega
  · have hall := not_not.mp (mt (exists_file_iff hfile).mpr hnone)
    have hfiles : ∀ name, .file name ∉ dataRead args := fun name hname => hnone ⟨name, hname⟩
    have htexts : (dataRead args).filterMap Datum.text? ≠ [] := by
      intro hempty
      cases hdata : dataRead args with
      | nil => exact hpieces ((dataRead_eq_nil_iff escape args).mp hdata)
      | cons datum data =>
          cases datum with
          | text text => simp [hdata, Datum.text?] at hempty
          | file name => exact hfiles name (by rw [hdata]; exact List.mem_cons_self)
    have hsplit : splitOn 0x26 (textRead args) =
        ((dataRead args).filterMap Datum.text?).flatMap (splitOn 0x26) := by
      rw [textRead, hunits.1, splitOn_joinWith_eq_flatMap htexts]
    have halike : List.Forall₂ FieldRead (splitOn 0x26 (textRead args))
        (splitOn 0x26 (CurlRules.dataText escape args)) := by
      rw [hsplit, hown]
      apply data_fields hescape hread hfiles
      intro piece hpiece field hfield
      apply hfields
      rw [hown]
      exact List.mem_flatMap.mpr ⟨piece, hpiece, hfield⟩
    have hsigned : ∀ field ∈ splitOn 0x26 (textRead args), 0x3D ∈ field := by
      intro field hfield
      generalize splitOn 0x26 (textRead args) = read at halike hfield
      generalize splitOn 0x26 (CurlRules.dataText escape args) = own at halike hfields
      induction halike with
      | nil => cases hfield
      | cons hone hrest ih =>
          obtain ⟨hfirst, hlater⟩ := List.forall_mem_cons.mp hfields
          obtain rfl | hmem := List.mem_cons.mp hfield
          · exact hone.2 hfirst
          · exact ih hmem hlater
    have hsame : formParse (textRead args) = formParse (CurlRules.dataText escape args) := by
      rw [hparsed hsigned, hparsed hfields]
      generalize splitOn 0x26 (textRead args) = read at halike
      generalize splitOn 0x26 (CurlRules.dataText escape args) = own at halike
      induction halike with
      | nil => rfl
      | cons hone hrest ih => rw [List.map_cons, List.map_cons, hone.1, ih]
    simp only [and_iff_right hall]
    rw [searchParams, ← hsame]
    constructor
    · intro hequal
      by_contra hmark
      rw [Bool.not_eq_false] at hmark
      obtain ⟨rest, hrest⟩ := hmarked hmark
      rw [if_pos hmark, hrest, List.drop_one, List.tail_cons] at hequal
      apply formParse_questionMark_ne _ hequal.symm
      -- The first field is more than the question mark.
      rw [hrest, splitOn, if_neg (by decide)] at hsigned
      obtain ⟨field, more, hfirst⟩ := List.exists_cons_of_ne_nil (splitOn_ne_nil 0x26 rest)
      rw [hfirst] at hsigned ⊢
      have hmem := hsigned (0x3F :: field) List.mem_cons_self
      exact (List.mem_cons.mp hmem).resolve_left (by decide)
    · intro hmark
      rw [hmark]
      rfl

/-- The body that is sent is curl's exactly where it goes as curl's does. -/
theorem body_iff (hempty : P.toLowerCase [] = []) (hescape : CurlRules.Escapes escape)
    (hfile : ∀ text, .dataUrlencode text ∈ args → 0x3D ∈ text ∨ 0x40 ∉ text)
    (hmethod : MethodGoes P args) (hhead : .head ∉ args ∨ CurlRules.sent escape args = .nothing)
    (htokens : ∀ header ∈ headersRead args, isToken header.1 = true) :
    (match CurlRules.sent escape args with
      | .nothing => (builtOf P (requestRead P args)).body.wire = .text []
      | .form parts => (builtOf P (requestRead P args)).body.wire = .form parts
      | .data text =>
          if CurlRules.isFields P escape args then
            ∃ wire, (builtOf P (requestRead P args)).body.wire = .text wire ∧
              formParse wire = formParse text
          else (builtOf P (requestRead P args)).body.wire = .text text) ↔
      BodyGoes P escape args := by
  rw [wire_builtOf hmethod hhead, wireSent, BodyGoes]
  cases hsent : CurlRules.sent escape args with
  | nothing => simp
  | form parts =>
      by_cases hbare : Carries args
      · simp [hbare]
      · simp [hbare]
  | data text =>
      have hpieces : CurlRules.pieces escape args ≠ [] ∧ text = CurlRules.dataText escape args := by
        rw [CurlRules.sent] at hsent
        split_ifs at hsent with hform hnone
        exact ⟨(not_or.mp hnone).2, (CurlRules.Sent.data.inj hsent).symm⟩
      obtain ⟨hpieces, rfl⟩ := hpieces
      have hequals : CurlRules.isFields P escape args = true →
          ∀ field ∈ splitOn 0x26 (CurlRules.dataText escape args), 0x3D ∈ field := by
        intro hfields field hfield
        rw [CurlRules.isFields, hsent] at hfields
        have hall := (Bool.and_eq_true_iff.mp hfields).2
        simpa using List.all_eq_true.mp hall field hfield
      dsimp only
      by_cases hbare : Carries args
      · rw [if_pos hbare, if_pos hbare]
        by_cases hfields : CurlRules.isFields P escape args = true
        · rw [if_pos hfields, if_pos hfields, ← fields_iff hescape hfile hpieces (hequals hfields)]
          have hscrub : formParse (formSerialize (searchParams (textRead args))) =
              searchParams (textRead args) := by
            rw [formParse_formSerialize]
            exact map_scrubPair_formParse _
          rw [textSent, if_pos (readAsForm_of_isFields hempty htokens hfields)]
          constructor
          · rintro ⟨wire, hsame, hparsed⟩
            obtain rfl := ExportWire.text.inj hsame
            rw [← hparsed, hscrub]
          · intro hsame
            exact ⟨_, rfl, hscrub.trans hsame⟩
        · rw [if_neg hfields, if_neg hfields, ExportWire.text.injEq]
      · rw [if_neg hbare, if_neg hbare]
        by_cases hfields : CurlRules.isFields P escape args = true
        · -- Fields are not nothing.
          rw [if_pos hfields]
          have hall := hequals hfields
          refine iff_of_false ?_ ?_
          · rintro ⟨wire, hsame, hparsed⟩
            obtain rfl := ExportWire.text.inj hsame
            obtain ⟨field, more, hfirst⟩ := List.exists_cons_of_ne_nil
              (splitOn_ne_nil 0x26 (CurlRules.dataText escape args))
            have hfull : field ≠ [] := by
              rintro rfl
              cases hall [] (by rw [hfirst]; exact List.mem_cons_self)
            have hzero : formParse [] = [] := rfl
            rw [hzero, formParse, hfirst, List.filter_cons_of_pos (by simpa using hfull)] at hparsed
            cases hparsed
          · intro htext
            rw [htext] at hall
            cases hall [] (List.mem_singleton_self _)
        · rw [if_neg hfields, ExportWire.text.injEq]
          exact eq_comm

end CurlSends

end Wayfarer
