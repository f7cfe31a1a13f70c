import Wayfarer.Library.Html

/-!
# The tags of an HTML page

The tags that a parser of HTML reads in a page, with their attributes, from its first character to
its last: the start tags and the doctype as in the front of a document, end tags, and the elements
that hold text only, which nothing but their own end tag ends.

A reference between tags gives characters, whatever it is, and is left as it is written. A page that
goes on with what is not here (a comment, a script, an attribute without a quoted value) is read no
further (`none`).

`gives_text` says what no text does that is without `<`: it brings in no tag, wherever it stands.
-/

set_option autoImplicit false

namespace Library.HtmlTags

open Library.Html

/-! ## Reading the tags -/

/-- A tag of a page. -/
inductive Mark where
  | doctype
  | start (name : Text) (attributes : List (Text × Text))
  | finish (name : Text)

/-- The place in a page. -/
inductive Place where
  /-- Between tags, in a start tag or a doctype. -/
  | outer (state : Html.State)
  | endTagOpen
  | endTag (name : Text)
  /-- In an element that holds text only. -/
  | text (element : Text)
  | textTagOpen (element : Text)
  | textEndTag (element seen : Text)

/-- The elements that hold text only. -/
def textElements : List Text :=
  [units "title", units "textarea", units "style", units "xmp", units "iframe", units "noembed",
    units "noframes"]

/-- The elements whose text has rules of its own. -/
def otherElements : List Text :=
  [units "script", units "noscript", units "plaintext"]

/-- The place after tokens, and the tags among them: the name of a start tag says what follows. -/
def placed (read : Html.State × List Token) : Option (Place × List Mark) :=
  match read.2 with
  | [.startTag name attributes] =>
      if name ∈ otherElements then none
      else if name ∈ textElements then some (.text name, [.start name attributes])
      else some (.outer read.1, [.start name attributes])
  | [.doctype] => some (.outer read.1, [.doctype])
  | _ => some (.outer read.1, [])

/-- A character outside of an element that holds text only. -/
def inOuter (state : Html.State) (c : CodeUnit) : Option (Place × List Mark) :=
  match state with
  | .data => if c = 0x26 then some (.outer .data, []) else (Html.step .data c).bind placed
  | .tagOpen => if c = 0x2F then some (.endTagOpen, []) else (Html.step .tagOpen c).bind placed
  | state => (Html.step state c).bind placed

/-- A character of an element that holds text only. -/
def inText (element : Text) (c : CodeUnit) : Place :=
  if c = 0x3C then .textTagOpen element else .text element

/-- A character; `none` where the page goes on with what is not here. -/
def step : Place → CodeUnit → Option (Place × List Mark)
  | .outer state, c => inOuter state c
  | .endTagOpen, c => if isLetter c then some (.endTag [lower c], []) else none
  | .endTag name, c =>
      if c = closing then some (.outer .data, [.finish name])
      else if isSpace c || c = 0x2F then none
      else some (.endTag (name ++ [lower c]), [])
  | .text element, c => some (inText element c, [])
  | .textTagOpen element, c =>
      if c = 0x2F then some (.textEndTag element [], []) else some (inText element c, [])
  | .textEndTag element seen, c =>
      if isLetter c then some (.textEndTag element (seen ++ [lower c]), [])
      else if seen = element then
        if c = closing then some (.outer .data, [.finish element])
        else if isSpace c || c = 0x2F then none
        else some (inText element c, [])
      else some (inText element c, [])

/-- The tags of a text, and the place after it. -/
def run : Place → Text → Option (Place × List Mark)
  | s, [] => some (s, [])
  | s, c :: rest =>
      (step s c).bind fun read =>
        (run read.1 rest).map fun later => (later.1, read.2 ++ later.2)

/-- The tags of two pieces are those of the first, and those of the second from where it ends. -/
theorem run_append {s s' s'' : Place} {a b : Text} {ms ms' : List Mark}
    (ha : run s a = some (s', ms)) (hb : run s' b = some (s'', ms')) :
    run s (a ++ b) = some (s'', ms ++ ms') := by
  induction a generalizing s ms with
  | nil =>
      obtain ⟨rfl, rfl⟩ := Prod.mk.inj (Option.some.inj ha)
      exact hb
  | cons c rest ih =>
      rw [run] at ha
      obtain ⟨read, hread, hlater⟩ := Option.bind_eq_some_iff.mp ha
      obtain ⟨later, hrest, heq⟩ := Option.map_eq_some_iff.mp hlater
      obtain ⟨rfl, rfl⟩ := Prod.mk.inj heq
      rw [List.cons_append, run, hread, Option.bind_some, ih hrest, Option.map_some,
        List.append_assoc]

/-! ## A page piece by piece -/

/-- The characters that a parser is given for a part of a page. -/
def clean (t : Text) : Text :=
  normalizeNewlines (scrub t)

/-- From one place, a piece of a page brings in these tags and leads to another place,
whatever follows it. -/
def Gives (s : Place) (t : Text) (s' : Place) (ms : List Mark) : Prop :=
  ∃ front, (∀ rest, clean (t ++ rest) = front ++ clean rest) ∧ run s front = some (s', ms)

section Gives

variable {s s' s'' : Place} {t u : Text} {ms ms' : List Mark}

theorem gives_nil : Gives s [] s [] :=
  ⟨[], fun _ => rfl, rfl⟩

theorem Gives.append (ht : Gives s t s' ms) (hu : Gives s' u s'' ms') :
    Gives s (t ++ u) s'' (ms ++ ms') := by
  obtain ⟨front, hfront, hrun⟩ := ht
  obtain ⟨back, hback, hrun'⟩ := hu
  refine ⟨front ++ back, fun rest => ?_, run_append hrun hrun'⟩
  rw [List.append_assoc, hfront, hback, List.append_assoc]

theorem gives_flatMap {ι : Type} {f : ι → Text} {g : ι → List Mark} {items : List ι}
    (h : ∀ i ∈ items, Gives s (f i) s (g i)) : Gives s (items.flatMap f) s (items.flatMap g) := by
  induction items with
  | nil => exact gives_nil
  | cons i rest ih =>
      exact (h i List.mem_cons_self).append (ih fun j hj => h j (List.mem_cons_of_mem i hj))

/-- A character of the page's own that is no half of a pair and no carriage return. -/
def isMarkup (c : CodeUnit) : Bool :=
  isPlain c && c != 0x0D

/-- What the page writes itself is given as it is. -/
theorem clean_append (ht : ∀ c ∈ t, isMarkup c = true) (rest : Text) :
    clean (t ++ rest) = t ++ clean rest := by
  have hplain : ∀ c ∈ t, isPlain c = true := fun c hc => (Bool.and_eq_true_iff.mp (ht c hc)).1
  have hreturn : ∀ c ∈ t, c ≠ 0x0D :=
    fun c hc => bne_iff_ne.mp (Bool.and_eq_true_iff.mp (ht c hc)).2
  rw [clean, scrub_append hplain, normalizeNewlines_append hreturn, ← clean]

theorem gives_markup (ht : ∀ c ∈ t, isMarkup c = true) (hrun : run s t = some (s', ms)) :
    Gives s t s' ms :=
  ⟨t, clean_append ht, hrun⟩

/-- What a literal of the page's own brings in. -/
theorem gives_units {literal : String} {cs : List Char} (h : literal = String.ofList cs)
    (hcs : (cs.all fun c => isMarkup c.toNat.toUInt16) = true)
    (hrun : run s (cs.map fun c => c.toNat.toUInt16) = some (s', ms)) :
    Gives s (units literal) s' ms := by
  apply gives_markup
  · exact forall_mem_units h (by simpa using hcs)
  · rw [units_eq h]
    exact hrun

/-- The places where a text stands. -/
def Place.HoldsText : Place → Prop
  | .outer .data => True
  | .text _ => True
  | _ => False

/-- A text without `<` brings in nothing and leads nowhere. -/
theorem run_text (hs : s.HoldsText) (ht : 0x3C ∉ t) : run s t = some (s, []) := by
  induction t with
  | nil => rfl
  | cons c rest ih =>
      obtain ⟨hc, hrest⟩ := not_or.mp fun hmem => ht (List.mem_cons.mpr hmem)
      have hstep : step s c = some (s, []) := by
        cases s with
        | outer state =>
            cases state with
            | data =>
                by_cases hamp : c = 0x26
                · exact if_pos hamp
                · have hplain : Html.step .data c = some (.data, [.char c]) := by
                    rw [Html.step, if_neg hamp, if_neg (Ne.symm hc)]
                  show (if c = 0x26 then _ else _) = _
                  rw [if_neg hamp, hplain]
                  rfl
            | _ => exact absurd hs id
        | text element =>
            show some (inText element c, []) = _
            rw [inText, if_neg (Ne.symm hc)]
        | _ => exact absurd hs id
      rw [run, hstep, Option.bind_some, ih hrest]
      rfl

/-- A text without `<`, up to the tag behind it, brings in nothing, whatever it is. -/
theorem gives_text (hs : s.HoldsText) (ht : 0x3C ∉ t) (hu : Gives s (0x3C :: u) s' ms) :
    Gives s (t ++ 0x3C :: u) s' ms := by
  obtain ⟨front, hfront, hrun⟩ := hu
  have hclean : 0x3C ∉ clean t := by
    intro hmem
    rw [clean, mem_normalizeNewlines_iff (by decide) (by decide)] at hmem
    exact ht (mem_of_mem_scrub (by decide) hmem)
  refine ⟨clean t ++ front, fun rest => ?_, run_append (run_text hs hclean) hrun⟩
  have hcut : ∀ later : Text, clean (t ++ 0x3C :: later) = clean t ++ clean (0x3C :: later) := by
    intro later
    have hopen : clean (0x3C :: later) = 0x3C :: clean later :=
      clean_append (t := [0x3C]) (by decide) later
    rw [hopen, clean, scrub_append_cons (by decide),
      normalizeNewlines_append_cons (by decide) (by decide)]
    rfl
  rw [List.append_assoc, List.cons_append, hcut, ← List.cons_append, hfront, List.append_assoc]

/-- The tags of a page that starts with a tag. -/
theorem run_decoded (h : Gives s t s' ms) (hhead : t.head? = some 0x3C) :
    run s (decoded t) = some (s', ms) := by
  cases t with
  | nil => exact absurd hhead (Option.some_ne_none _).symm
  | cons c t =>
      rw [List.head?_cons, Option.some.injEq] at hhead
      subst hhead
      obtain ⟨front, hfront, hrun⟩ := h
      have hopen : scrub (0x3C :: t) = 0x3C :: scrub t := scrub_append (w := [0x3C]) (by decide) t
      have hclean := hfront []
      rw [List.append_nil] at hclean
      have hnil : clean [] = [] := rfl
      rw [hnil, List.append_nil, clean, hopen] at hclean
      have hmark : withoutMark (0x3C :: scrub t) = 0x3C :: scrub t := rfl
      rw [decoded, hopen, hmark, hclean, hrun]

end Gives

end Library.HtmlTags
