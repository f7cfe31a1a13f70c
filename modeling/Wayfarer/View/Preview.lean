import Wayfarer.Library.Html

/-!
# The preview of an HTML response

A response is shown as a document with a policy of the program's own in front of what the response
wrote. A doctype that starts the response stays in front of the policy: `leadingDoctype` finds it by
a pattern, and the page is read by a parser of HTML.

`policyFirst_iff` says for which responses the policy is in force.
-/

set_option autoImplicit false

namespace Wayfarer

open Library

/-- What the previewed page may load. -/
def previewCsp : Text :=
  units "default-src 'none'; style-src 'unsafe-inline'; img-src data:"

/-- `/^\s*<!doctype[^>]*>/i`: what it matches, or nothing. -/
def leadingDoctype (html : Text) : Text :=
  match html.dropWhile isWhite with
  | 0x3C :: 0x21 :: rest =>
      let keyword := rest.take 7
      let later := rest.drop 7
      if keyword.map Html.lower = units "doctype" && later.contains Html.closing then
        html.takeWhile isWhite ++ 0x3C :: 0x21 :: (keyword ++
          (later.takeWhile (· ≠ Html.closing) ++ [Html.closing]))
      else []
  | _ => []

/-- The tags of the encoding and of the policy. -/
def policyTags : Text :=
  units "<meta charset=\"utf-8\">" ++
    (units "<meta http-equiv=\"Content-Security-Policy\" content=\"" ++ previewCsp ++ units "\">")

/-- An HTML response as the document the preview frame shows. -/
def previewDocument (html : Text) : Text :=
  let doctype := leadingDoctype html
  doctype ++ (policyTags ++ (units "<base target=\"_blank\">" ++ html.drop doctype.length))

/-! ## The policy first -/

/-- White space that a parser of HTML ignores at the start of a document, or a doctype. -/
def Ignored (token : Html.Token) : Prop :=
  token = .doctype ∨ ∃ c, token = .char c ∧ Html.isSpace c = true

/-- The elements of a document whose head starts with the policy. -/
def policyElements (place : Text) : List Html.Element :=
  [{ name := units "meta", attributes := [(units "charset", units "utf-8")], parent := place },
    { name := units "meta"
      attributes := [(units "http-equiv", units "Content-Security-Policy"),
        (units "content", previewCsp)]
      parent := place }]

/-- The root and the head. -/
def headOpened : List Html.Element :=
  [{ name := units "html", attributes := [], parent := [] },
    { name := units "head", attributes := [], parent := units "html" }]

/-- The policy comes before anything the response wrote but white space and one doctype,
and is in the head. -/
structure PolicyFirst (html : Text) : Prop where
  page : ∃ rest, Html.decoded (previewDocument html) =
    Html.decoded (leadingDoctype html) ++ (policyTags ++ rest)
  seen : ∃ tokens, Html.tokens .data (Html.decoded (leadingDoctype html)) = some (.data, tokens) ∧
    (∀ token ∈ tokens, Ignored token) ∧ tokens.count .doctype ≤ 1
  inHead : ∃ tokens d, Html.tokens .data (Html.decoded (leadingDoctype html) ++ policyTags) =
    some (.data, tokens) ∧ Html.build {} tokens = some d ∧
      d.elements = headOpened ++ policyElements (units "head")

/-! ### What stands in front -/

/-- What the pattern matches: white space, the keyword, and all up to the first
closing character. -/
structure Leading (html w k body : Text) : Prop where
  white : ∀ c ∈ w, isWhite c = true
  keyword : k.map Html.lower = units "doctype"
  unclosed : Html.closing ∉ body
  matched : leadingDoctype html = w ++ 0x3C :: 0x21 :: (k ++ (body ++ [Html.closing]))
  space : html.takeWhile isWhite = w

theorem leading_of_matched {html : Text} (h : leadingDoctype html ≠ []) :
    ∃ w k body, Leading html w k body := by
  have heq := h
  unfold leadingDoctype at heq
  split at heq
  · next rest hrest =>
      dsimp only at heq
      split_ifs at heq with hmatch
      · refine ⟨html.takeWhile isWhite, rest.take 7,
          (rest.drop 7).takeWhile (· ≠ Html.closing), fun c hc => List.mem_takeWhile_imp hc, ?_, ?_,
          ?_, rfl⟩
        · rw [Bool.and_eq_true, decide_eq_true_iff] at hmatch
          exact hmatch.1
        · intro hmem
          have hopen := List.mem_takeWhile_imp hmem
          rw [decide_eq_true_iff] at hopen
          exact hopen rfl
        · unfold leadingDoctype
          rw [hrest]
          exact if_pos hmatch
      · exact absurd rfl heq
  · exact absurd rfl heq

theorem isWhite_plain {c : CodeUnit} (h : isWhite c = true) :
    isPlain c = true ∧ c ≠ 0x26 ∧ c ≠ 0x3C := by
  have hall : ∀ c ∈ whiteSpace, isPlain c = true ∧ c ≠ 0x26 ∧ c ≠ 0x3C := by decide
  exact hall c (List.contains_iff_mem.mp h)

variable {html w k body : Text}

theorem Leading.letters (h : Leading html w k body) :
    ∀ c ∈ k, isPlain c = true ∧ c ≠ 0x0D := by
  intro c hc
  have hmem : Html.lower c ∈ units "doctype" := by
    rw [← h.keyword]
    exact List.mem_map_of_mem hc
  have hall : ∀ c ∈ units "doctype", isPlain c = true ∧ c ≠ 0x0D := by decide
  exact Html.plain_of_lower (hall _ hmem)

/-- What a parser is given for white space, a doctype and what follows. -/
theorem Leading.decoded (h : Leading html w k body) (tail : Text) :
    Html.decoded (w ++ 0x3C :: 0x21 :: (k ++ (body ++ Html.closing :: tail))) =
      Html.normalizeNewlines (Html.withoutMark w) ++ 0x3C :: 0x21 ::
        (k ++ (Html.normalizeNewlines (scrub body) ++
          Html.closing :: Html.normalizeNewlines (scrub tail))) := by
  have hfront : ∀ c ∈ 0x3C :: 0x21 :: k, isPlain c = true ∧ c ≠ 0x0D := by
    intro c hc
    rcases List.mem_cons.mp hc with rfl | hc
    · decide
    · rcases List.mem_cons.mp hc with rfl | hc
      · decide
      · exact h.letters c hc
  have hscrub : scrub (w ++ 0x3C :: 0x21 :: (k ++ (body ++ Html.closing :: tail))) =
      w ++ 0x3C :: 0x21 :: (k ++ (scrub body ++ Html.closing :: scrub tail)) := by
    have hwhite := Html.scrub_append (w := w) (fun c hc => (isWhite_plain (h.white c hc)).1)
      (0x3C :: 0x21 :: (k ++ (body ++ Html.closing :: tail)))
    have hkeyword := Html.scrub_append (fun c hc => (hfront c hc).1) (body ++ Html.closing :: tail)
    have hclosing := Html.scrub_append_cons (c := Html.closing) (by decide) body tail
    rw [List.cons_append, List.cons_append] at hkeyword
    rw [hwhite, hkeyword, hclosing]
    rfl
  have hlines := Html.normalizeNewlines_append (fun c hc => (hfront c hc).2)
    (scrub body ++ Html.closing :: scrub tail)
  rw [List.cons_append, List.cons_append] at hlines
  unfold Html.decoded
  rw [hscrub, Html.withoutMark_append_cons (by decide),
    Html.normalizeNewlines_append_cons (by decide) (by decide)]
  rw [Html.normalizeNewlines_cons (by decide)] at hlines
  have hrest := (List.cons.inj hlines).2
  rw [hrest, Html.normalizeNewlines_append_cons (by decide) (by decide)]
  rfl

/-- The white space as the parser has it. -/
def frontSpace (html : Text) : Text :=
  Html.normalizeNewlines (Html.withoutMark (html.takeWhile isWhite))

theorem mem_of_mem_withoutMark {c : CodeUnit} {t : Text} (h : c ∈ Html.withoutMark t) : c ∈ t := by
  unfold Html.withoutMark at h
  split at h
  · exact List.mem_cons_of_mem _ h
  · exact h

/-- The tokens in front of the policy: the white space, character by character, and the doctype. -/
theorem Leading.tokens (h : Leading html w k body) :
    Html.tokens .data (Html.decoded (leadingDoctype html)) =
      some (.data, (frontSpace html).map .char ++ [.doctype]) := by
  have hdata : ∀ c ∈ frontSpace html, c ≠ 0x26 ∧ c ≠ 0x3C := by
    intro c hc
    by_cases hlf : c = 0x0A
    · rw [hlf]
      decide
    · have hcr : c ≠ 0x0D := fun heq => Html.not_mem_normalizeNewlines _ (heq ▸ hc)
      have hmem := (Html.mem_normalizeNewlines_iff hcr hlf _).mp hc
      exact (isWhite_plain (List.mem_takeWhile_imp (mem_of_mem_withoutMark hmem))).2
  have hclosing : Html.closing ∉ Html.normalizeNewlines (scrub body) := by
    intro hmem
    have hscrubbed := (Html.mem_normalizeNewlines_iff (by decide) (by decide) _).mp hmem
    exact h.unclosed (Html.mem_of_mem_scrub (by decide) hscrubbed)
  have hdecoded := h.decoded []
  have hfront := Html.tokens_data hdata
  rw [show w = html.takeWhile isWhite from h.space.symm] at hdecoded
  rw [h.matched, show w = html.takeWhile isWhite from h.space.symm, hdecoded, Html.tokens_append]
  unfold frontSpace at hfront
  rw [hfront, Option.bind_some]
  have hkeyword := Html.tokens_keyword h.keyword
  have hdoctype := Html.tokens_doctype .start hclosing
  have hempty : Html.normalizeNewlines (scrub []) = [] := rfl
  rw [hempty]
  have hrest : Html.tokens .data (0x3C :: 0x21 :: (k ++ (Html.normalizeNewlines (scrub body) ++
      [Html.closing]))) = some (.data, [.doctype]) := by
    rw [← List.cons_append, ← List.cons_append, Html.tokens_append, hkeyword, Option.bind_some,
      hdoctype]
    rfl
  rw [hrest]
  rfl

/-! ### The policy's place -/

/-- The policy's tags. -/
def policyTokens : List Html.Token :=
  [.startTag (units "meta") [(units "charset", units "utf-8")],
    .startTag (units "meta") [(units "http-equiv", units "Content-Security-Policy"),
      (units "content", previewCsp)]]

theorem tokens_policyTags : Html.tokens .data policyTags = some (.data, policyTokens) := by
  decide +kernel

theorem decoded_policyTags (more : Text) :
    Html.normalizeNewlines (scrub (policyTags ++ more)) =
      policyTags ++ Html.normalizeNewlines (scrub more) := by
  have hall : ∀ c ∈ policyTags, isPlain c = true ∧ c ≠ 0x0D := by decide +kernel
  rw [Html.scrub_append fun c hc => (hall c hc).1,
    Html.normalizeNewlines_append fun c hc => (hall c hc).2]

/-- The page is what stands in front, the policy's tags and the rest. -/
theorem previewDocument_decoded (html : Text) :
    ∃ rest, Html.decoded (previewDocument html) =
      Html.decoded (leadingDoctype html) ++ (policyTags ++ rest) := by
  unfold previewDocument
  dsimp only
  generalize units "<base target=\"_blank\">" ++ html.drop (leadingDoctype html).length = more
  refine ⟨Html.normalizeNewlines (scrub more), ?_⟩
  by_cases hnone : leadingDoctype html = []
  · rw [hnone, List.nil_append]
    have hmark : Html.withoutMark (scrub (policyTags ++ more)) = scrub (policyTags ++ more) := by
      have hall : ∀ c ∈ policyTags, isPlain c = true := by decide +kernel
      rw [Html.scrub_append hall]
      rfl
    unfold Html.decoded
    rw [hmark, decoded_policyTags]
    rfl
  · obtain ⟨w, k, body, h⟩ := leading_of_matched hnone
    have hpage := h.decoded (policyTags ++ more)
    have hfront := h.decoded []
    rw [decoded_policyTags] at hpage
    have hassoc : w ++ 0x3C :: 0x21 :: (k ++ (body ++ [Html.closing])) ++ (policyTags ++ more) =
        w ++ 0x3C :: 0x21 :: (k ++ (body ++ Html.closing :: (policyTags ++ more))) := by
      simp only [List.append_assoc, List.cons_append, List.nil_append]
    rw [h.matched, hassoc, hpage, hfront]
    simp only [List.append_assoc, List.cons_append]
    rfl

/-- The policy's tags after tokens that are read already. -/
theorem tokens_front {front : Text} {before : List Html.Token}
    (h : Html.tokens .data front = some (.data, before)) :
    Html.tokens .data (front ++ policyTags) = some (.data, before ++ policyTokens) := by
  rw [Html.tokens_append, h, Option.bind_some, tokens_policyTags]
  rfl

/-- White space that is ignored is what the parser ignores, or a CR. -/
theorem frontSpace_isSpace_iff (html : Text) :
    (∀ c ∈ frontSpace html, Html.isSpace c = true) ↔
      ∀ c ∈ Html.withoutMark (html.takeWhile isWhite), Html.isSpace c = true ∨ c = 0x0D := by
  constructor
  · intro hall c hc
    by_cases hcr : c = 0x0D
    · exact Or.inr hcr
    · by_cases hlf : c = 0x0A
      · rw [hlf]
        exact Or.inl rfl
      · exact Or.inl (hall c ((Html.mem_normalizeNewlines_iff hcr hlf _).mpr hc))
  · intro hall c hc
    have hcr : c ≠ 0x0D := fun heq => Html.not_mem_normalizeNewlines _ (heq ▸ hc)
    by_cases hlf : c = 0x0A
    · rw [hlf]
      rfl
    · exact (hall c ((Html.mem_normalizeNewlines_iff hcr hlf _).mp hc)).resolve_right hcr

/-- The document of white space, a doctype and the policy. -/
theorem build_policy {w : Text} (hw : ∀ c ∈ w, Html.isSpace c = true) :
    ∃ d, Html.build {} (w.map .char ++ [.doctype] ++ policyTokens) = some d ∧
      d.elements = headOpened ++ policyElements (units "head") := by
  rw [List.append_assoc, Html.build_append, Html.build_spaces rfl hw, Option.bind_some]
  exact ⟨_, rfl, rfl⟩

/-- The document of a front with a character that is no white space for the parser: the body is open
before the policy comes, and the policy is put into it. -/
theorem build_bodyOpened {w : Text} (hw : ∃ c ∈ w, Html.isSpace c = false) :
    ∃ d, Html.build {} (w.map .char ++ [.doctype] ++ policyTokens) = some d ∧
      d.elements =
        headOpened ++ { name := units "body", attributes := [], parent := units "html" } ::
        policyElements (units "body") := by
  obtain ⟨c, hc, hno⟩ := hw
  have hsplit := List.takeWhile_append_dropWhile (p := Html.isSpace) (l := w)
  cases hdrop : w.dropWhile Html.isSpace with
  | nil =>
      have hall := List.dropWhile_eq_nil_iff.mp hdrop c hc
      rw [hno] at hall
      exact absurd hall Bool.false_ne_true
  | cons d later =>
      -- The first character that is no white space opens the body.
      have hd : Html.isSpace d = false := by
        have hhead := List.head_dropWhile_not (l := w) Html.isSpace (by
          rw [hdrop]
          exact List.cons_ne_nil d later)
        simpa [hdrop] using hhead
      -- What follows up to the policy opens no element.
      have hchars : ∀ t ∈ later.map Html.Token.char ++ [.doctype],
          ∀ name attributes, t ≠ .startTag name attributes := by
        intro t ht name attributes heq
        subst heq
        rcases List.mem_append.mp ht with hmem | hmem
        · obtain ⟨e, -, he⟩ := List.mem_map.mp hmem
          cases he
        · cases List.mem_singleton.mp hmem
      have hspaces := Html.build_spaces (d := {}) rfl
        (w := w.takeWhile Html.isSpace) fun e he => List.mem_takeWhile_imp he
      have htokens : w.map Html.Token.char ++ [.doctype] ++ policyTokens =
          (w.takeWhile Html.isSpace).map .char ++ ([.char d] ++
            (later.map .char ++ [.doctype] ++ policyTokens)) := by
        rw [hdrop] at hsplit
        conv_lhs => rw [← hsplit]
        simp only [List.map_append, List.map_cons, List.append_assoc, List.cons_append,
          List.nil_append]
      rw [htokens, Html.build_append, hspaces, Option.bind_some, Html.build_append]
      have hopened := Html.add_char_of_initial (d := {}) rfl hd
      have hone : ∀ d' t, Html.build d' [t] = d'.add t := fun d' t => by
        rw [Html.build, List.foldlM_cons]
        cases d'.add t with
        | none => rfl
        | some d => rfl
      rw [hone, hopened, Option.bind_some, Html.build_append, Html.build_inBody rfl hchars,
        Option.bind_some]
      exact ⟨_, rfl, rfl⟩

/-- White space that the parser ignores keeps the policy first. -/
theorem policyFirst_of_space {html : Text}
    (hspace : leadingDoctype html ≠ [] → ∀ c ∈ frontSpace html, Html.isSpace c = true) :
    PolicyFirst html := by
  by_cases hnone : leadingDoctype html = []
  · have hdecoded : Html.decoded (leadingDoctype html) = [] := by
      rw [hnone]
      rfl
    refine ⟨previewDocument_decoded html, ⟨[], ?_, fun t ht => absurd ht List.not_mem_nil,
      Nat.zero_le 1⟩, ⟨policyTokens, ?_⟩⟩
    · rw [hdecoded]
      rfl
    · rw [hdecoded, List.nil_append]
      exact ⟨_, tokens_policyTags, rfl, rfl⟩
  · obtain ⟨w, k, body, h⟩ := leading_of_matched hnone
    obtain ⟨d, hd, helements⟩ := build_policy (hspace hnone)
    refine ⟨previewDocument_decoded html, ⟨_, h.tokens, ?_, ?_⟩,
      ⟨_, d, tokens_front h.tokens, hd, helements⟩⟩
    · intro t ht
      rcases List.mem_append.mp ht with hmem | hmem
      · obtain ⟨c, hc, rfl⟩ := List.mem_map.mp hmem
        exact Or.inr ⟨c, rfl, hspace hnone c hc⟩
      · exact Or.inl (List.mem_singleton.mp hmem)
    · have hchars : ((frontSpace html).map Html.Token.char).count .doctype = 0 := by
        rw [List.count_eq_zero]
        intro hmem
        obtain ⟨c, -, hc⟩ := List.mem_map.mp hmem
        cases hc
      rw [List.count_append, hchars]
      decide

/-- In every other response, the policy ends up in the body, where it is not in force. -/
theorem policy_inBody {html : Text} (hnot : ¬ PolicyFirst html) :
    ∃ tokens d, Html.tokens .data (Html.decoded (leadingDoctype html) ++ policyTags) =
      some (.data, tokens) ∧ Html.build {} tokens = some d ∧ d.elements = headOpened ++
        { name := units "body", attributes := [], parent := units "html" } ::
          policyElements (units "body") := by
  have hfront : ¬ (leadingDoctype html ≠ [] → ∀ c ∈ frontSpace html, Html.isSpace c = true) :=
    fun hspace => hnot (policyFirst_of_space hspace)
  push Not at hfront
  obtain ⟨hsome, c, hc, hno⟩ := hfront
  obtain ⟨w, k, body, h⟩ := leading_of_matched hsome
  obtain ⟨d, hd, helements⟩ := build_bodyOpened ⟨c, hc, Bool.eq_false_iff.mpr hno⟩
  exact ⟨_, d, tokens_front h.tokens, hd, helements⟩

/-- The policy is in front of everything, exactly where the response starts with no doctype, or the
white space before it is such as the parser ignores: a tab, a line feed, a form feed, a carriage
return or a space, after a byte order mark that decoding takes off. -/
theorem policyFirst_iff (html : Text) :
    PolicyFirst html ↔ (leadingDoctype html ≠ [] →
      ∀ c ∈ Html.withoutMark (html.takeWhile isWhite), Html.isSpace c = true ∨ c = 0x0D) := by
  rw [← frontSpace_isSpace_iff]
  constructor
  · rintro ⟨-, ⟨tokens, htokens, hignored, -⟩, -⟩ hsome c hc
    obtain ⟨w, k, body, h⟩ := leading_of_matched hsome
    have heq := (Prod.mk.inj (Option.some.inj (h.tokens.symm.trans htokens))).2
    have hmem : Html.Token.char c ∈ tokens := by
      rw [← heq]
      exact List.mem_append_left _ (List.mem_map_of_mem hc)
    rcases hignored _ hmem with hdoctype | ⟨d, hd, hspace⟩
    · cases hdoctype
    · cases hd
      exact hspace
  · exact policyFirst_of_space

/-- A vertical tab before the doctype. -/
theorem policy_notFirst : ¬ ∀ html : Text, PolicyFirst html := by
  intro h
  obtain ⟨tokens, htokens, hignored, -⟩ := (h (0x0B :: units "<!doctype html>")).seen
  have hread : Html.tokens .data (Html.decoded (leadingDoctype (0x0B :: units "<!doctype html>"))) =
      some (.data, [.char 0x0B, .doctype]) := by decide +kernel
  have heq := (Prod.mk.inj (Option.some.inj (hread.symm.trans htokens))).2
  rcases hignored (.char 0x0B) (by rw [← heq]; exact List.mem_cons_self) with
    hdoctype | ⟨d, hd, hspace⟩
  · cases hdoctype
  · cases hd
    exact absurd hspace (by decide)

end Wayfarer
