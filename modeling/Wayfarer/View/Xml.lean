import Wayfarer.Library.Cut

/-!
# The XML view

A response is cut into comments, CDATA sections, tags and the text between them, and written with
one element per line. The markup is a server's to write: a section may be unclosed, a quote may not
end, and tags may close what was never opened.

`solid_indentXml` says that whatever is cut, the tokens are the text and the lines hold every
character of it that is not white space, once and in order.
-/

set_option autoImplicit false

namespace Wayfarer

open Library

/-! ## Tokens -/

/-- What runs to its own close, whatever is in between. -/
def xmlSections : List (Text × Text) :=
  [(units "<!--", units "-->"), (units "<![CDATA[", units "]]>")]

/-- The length of `(?:[^<>"']|"[^"]*"|'[^']*')*>`, or nothing where it does not match. `quote` is
the quote that is open. -/
def tagTailLength (quote : Option CodeUnit) : Text → Option Nat
  | [] => none
  | c :: rest =>
      match quote with
      | some q => (tagTailLength (if c = q then none else some q) rest).map (· + 1)
      | none =>
          if c = 0x3E then some 1
          else if c = 0x3C then none
          else
            (tagTailLength (if c = 0x22 ∨ c = 0x27 then some c else none) rest).map (· + 1)

/-- The length of what `/<(?:[^<>"']|"[^"]*"|'[^']*')*>|<|[^<]+/y` matches. -/
def tagOrTextLength : Text → Option Nat
  | [] => none
  | c :: rest =>
      if c = 0x3C then some ((tagTailLength none rest).elim 1 (· + 1))
      else some (rest.takeWhile (· ≠ 0x3C)).length.succ

/-- One section looked for at the start of a text: the openings whose close is known to be missing,
and where the token ends if the section stands there. -/
def lookForSection (text : Text) (seen : List Text × Option Nat) (pair : Text × Text) :
    List Text × Option Nat :=
  if seen.1.contains pair.1 || !pair.1.isPrefixOf text then seen
  else
    match cutAtWord pair.2 (text.drop pair.1.length) with
    | none => (pair.1 :: seen.1, seen.2)
    | some found => (seen.1, some (pair.1.length + found.1.length + pair.2.length))

/-- The openings whose close is known to be missing after the first token, and the token's end. -/
def firstTokenEnd (unclosed : List Text) (text : Text) : List Text × Nat :=
  let looked := xmlSections.foldl (lookForSection text) (unclosed, none)
  (looked.1, looked.2.getD ((tagOrTextLength text).getD 1))

theorem lookForSection_pos {text : Text} {seen : List Text × Option Nat} {pair : Text × Text}
    (hpair : 0 < pair.2.length) (hseen : ∀ stop, seen.2 = some stop → 0 < stop) :
    ∀ stop, (lookForSection text seen pair).2 = some stop → 0 < stop := by
  intro stop hstop
  rw [lookForSection] at hstop
  split_ifs at hstop with hskip
  · exact hseen stop hstop
  · cases hcut : cutAtWord pair.2 (text.drop pair.1.length) with
    | none =>
        rw [hcut] at hstop
        exact hseen stop hstop
    | some found =>
        rw [hcut] at hstop
        cases hstop
        omega

/-- The reader moves on at every token, so a text of any length is read to its end. -/
theorem firstTokenEnd_pos (unclosed : List Text) (text : Text) :
    0 < (firstTokenEnd unclosed text).2 := by
  have hlooked : ∀ stop, (xmlSections.foldl (lookForSection text) (unclosed, none)).2 = some stop →
      0 < stop := by
    apply lookForSection_pos (by decide)
    apply lookForSection_pos (by decide)
    intro stop hstop
    cases hstop
  rw [firstTokenEnd]
  cases hstop : (xmlSections.foldl (lookForSection text) (unclosed, none)).2 with
  | some stop => exact hlooked stop hstop
  | none =>
      cases text with
      | nil => exact Nat.one_pos
      | cons c rest =>
          rw [Option.getD_none, tagOrTextLength]
          split_ifs
          · cases tagTailLength none rest with
            | none => exact Nat.one_pos
            | some stop => exact Nat.succ_pos stop
          · exact Nat.succ_pos _

/-- The tokens of what is left to read. -/
def xmlTokensFrom (unclosed : List Text) (text : Text) : List Text :=
  if text = [] then []
  else
    let first := firstTokenEnd unclosed text
    text.take first.2 :: xmlTokensFrom first.1 (text.drop first.2)
termination_by text.length
decreasing_by
  have hpos := firstTokenEnd_pos unclosed text
  have hlength := List.length_pos_iff.mpr ‹text ≠ []›
  rw [List.length_drop]
  omega

/-- The text cut into comments, CDATA sections, tags and the text between them. -/
def xmlTokens (text : Text) : List Text :=
  xmlTokensFrom [] text

/-! ## Lines -/

/-- `/^<[^!?/]/` matches the token, and it does not close itself. -/
def opensElement (token : Text) : Bool :=
  (match token with
    | 0x3C :: second :: _ => !([0x21, 0x3F, 0x2F] : Text).contains second
    | _ => false) && !(units "/>").isSuffixOf token

/-- The text and the closing tag that stand on one line with an opening tag, and the tokens after
them. -/
def contentOnLine : List Text → Option (Text × Text × List Text)
  | content :: close :: later =>
      if (units "</").isPrefixOf close && !(units "<").isPrefixOf content then
        some (content, close, later)
      else none
  | _ => none

theorem eq_of_contentOnLine {tokens later : List Text} {content close : Text}
    (h : contentOnLine tokens = some (content, close, later)) :
    tokens = content :: close :: later := by
  match tokens with
  | [] => cases h
  | [_] => cases h
  | first :: second :: others =>
      rw [contentOnLine] at h
      split_ifs at h
      cases h
      rfl

/-- A line of a depth. -/
def indented (indent : Text) (depth : Nat) (line : Text) : Text :=
  (List.replicate depth indent).flatten ++ line

/-- The lines of the tokens from a depth on. -/
def xmlLines (indent : Text) (depth : Nat) : List Text → List Text
  | [] => []
  | token :: rest =>
      if !(units "<").isPrefixOf token then
        let trimmed := trim token
        if trimmed = [] then xmlLines indent depth rest
        else indented indent depth trimmed :: xmlLines indent depth rest
      else
        let depth := if (units "</").isPrefixOf token then depth - 1 else depth
        if opensElement token then
          match h : contentOnLine rest with
          | some (content, close, later) =>
              indented indent depth (token ++ trim content ++ close) :: xmlLines indent depth later
          | none => indented indent depth token :: xmlLines indent (depth + 1) rest
        else indented indent depth token :: xmlLines indent depth rest
termination_by tokens => tokens.length
decreasing_by
  all_goals simp_wf
  rw [eq_of_contentOnLine h, List.length_cons, List.length_cons]
  omega

/-- XML with one element per line, indented by depth. -/
def indentXml (text indent : Text) : Text :=
  joinWith (units "\n") (xmlLines indent 0 (xmlTokens text))

/-! ## What the lines keep -/

/-- The characters of a text that are not white space. -/
def solid (text : Text) : Text :=
  text.filter fun c => !isWhite c

theorem solid_append (a b : Text) : solid (a ++ b) = solid a ++ solid b :=
  List.filter_append a b

theorem solid_eq_nil {text : Text} (h : ∀ c ∈ text, isWhite c = true) : solid text = [] := by
  apply List.filter_eq_nil_iff.mpr
  intro c hc
  rw [h c hc]
  decide

theorem solid_trim (text : Text) : solid (trim text) = solid text := by
  obtain ⟨front, back, hfront, hback, htext⟩ := exists_white_append_trim text
  conv_rhs => rw [htext, solid_append, solid_append, solid_eq_nil hfront, solid_eq_nil hback]
  rw [List.nil_append, List.append_nil]

theorem solid_indented {indent : Text} (hindent : ∀ c ∈ indent, isWhite c = true) (depth : Nat)
    (line : Text) : solid (indented indent depth line) = solid line := by
  have hwhite : ∀ c ∈ (List.replicate depth indent).flatten, isWhite c = true := by
    intro c hc
    obtain ⟨piece, hpiece, hmem⟩ := List.mem_flatten.mp hc
    rw [List.eq_of_mem_replicate hpiece] at hmem
    exact hindent c hmem
  rw [indented, solid_append, solid_eq_nil hwhite, List.nil_append]

theorem solid_joinWith {sep : Text} (hsep : ∀ c ∈ sep, isWhite c = true) (pieces : List Text) :
    solid (joinWith sep pieces) = solid pieces.flatten := by
  rw [joinWith]
  induction pieces with
  | nil => rfl
  | cons piece pieces ih =>
      cases pieces with
      | nil => rw [List.intercalate_singleton, List.flatten_singleton]
      | cons next pieces =>
          rw [List.intercalate_cons_cons, solid_append, solid_append, solid_eq_nil hsep,
            List.append_nil, ih, ← solid_append]
          rfl

/-- Whatever the depth has become, the lines hold what the tokens hold. -/
theorem solid_xmlLines {indent : Text} (hindent : ∀ c ∈ indent, isWhite c = true) (depth : Nat)
    (tokens : List Text) :
    solid (xmlLines indent depth tokens).flatten = solid tokens.flatten := by
  fun_induction xmlLines indent depth tokens with
  | case1 => rfl
  | case2 depth token rest htext trimmed hblank ih =>
      -- a text of white space alone is left out
      have hnothing : solid token = [] := by
        rw [← solid_trim, show trim token = [] from hblank]
        rfl
      rw [ih, List.flatten_cons, solid_append, hnothing, List.nil_append]
  | case3 depth token rest htext trimmed hblank ih =>
      rw [List.flatten_cons, List.flatten_cons, solid_append, solid_append, ih,
        solid_indented hindent, solid_trim]
  | case4 depth token rest htag lower hopens content close later hline ih =>
      rw [List.flatten_cons, solid_append, ih, solid_indented hindent, eq_of_contentOnLine hline]
      simp only [List.flatten_cons, solid_append, solid_trim, List.append_assoc]
  | case5 depth token rest htag lower hopens hline ih =>
      rw [List.flatten_cons, List.flatten_cons, solid_append, solid_append, ih,
        solid_indented hindent]
  | case6 depth token rest htag lower hopens ih =>
      rw [List.flatten_cons, List.flatten_cons, solid_append, solid_append, ih,
        solid_indented hindent]

theorem flatten_xmlTokensFrom (unclosed : List Text) (text : Text) :
    (xmlTokensFrom unclosed text).flatten = text := by
  fun_induction xmlTokensFrom unclosed text with
  | case1 => rfl
  | case2 unclosed text htext first ih =>
      rw [List.flatten_cons, ih, List.take_append_drop]

theorem ne_nil_of_mem_xmlTokensFrom {unclosed : List Text} {text token : Text}
    (h : token ∈ xmlTokensFrom unclosed text) : token ≠ [] := by
  fun_induction xmlTokensFrom unclosed text with
  | case1 => exact absurd h List.not_mem_nil
  | case2 unclosed text htext first ih =>
      rcases List.mem_cons.mp h with rfl | h
      · have hpos : 0 < first.2 := firstTokenEnd_pos unclosed text
        intro hnil
        rcases List.take_eq_nil_iff.mp hnil with hzero | hnil
        · omega
        · exact htext hnil
      · exact ih h

/-- The tokens of a text are none of them empty and are the text, and the indented document holds
every character of the text that is not white space, once and in order. -/
theorem solid_indentXml (text : Text) :
    (∀ token ∈ xmlTokens text, token ≠ []) ∧ (xmlTokens text).flatten = text ∧
      solid (indentXml text (units "  ")) = solid text := by
  refine ⟨fun token => ne_nil_of_mem_xmlTokensFrom, flatten_xmlTokensFrom [] text, ?_⟩
  rw [indentXml, solid_joinWith (by decide), solid_xmlLines (by decide), xmlTokens,
    flatten_xmlTokensFrom]

end Wayfarer
