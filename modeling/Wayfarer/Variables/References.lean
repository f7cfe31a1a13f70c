import Wayfarer.Library.Marks
import Wayfarer.Variables.AsksVault

/-!
# The three readers of a reference

A reference to a vault secret is read in three places, each with a rule of its own. The resolver
asks the vault for the secret of every placeholder whose name starts with `$secret.`
(`ResolverNames`); a row is protected where its value is one reference and nothing else
(`protectedSecretId`); and an export takes every reference out of a value (`secretReferenceAt`). The
last two take the prefix in either case and an id of letters, digits and dashes; the resolver takes
the prefix as it is and any id.

`recognisersAgree_iff` says for which values they agree, and `namesSecret_erased_iff` when a secret
is still named in a value whose references were taken out.
-/

set_option autoImplicit false

namespace Wayfarer

open Library

/-! ## References as an export reads them -/

/-- The reference at the start of a text: the secret's id, and what follows. No character of a name
is white, and none of an id is white or a brace, so nothing is read in two ways. -/
def secretReferenceAt (t : Text) : Option (Text × Text) :=
  match t with
  | a :: b :: rest =>
      let name := rest.dropWhile isWhite
      let tail := name.drop secretPrefix.length
      let id := tail.takeWhile isIdUnit
      match (tail.dropWhile isIdUnit).dropWhile isWhite with
      | c :: d :: after =>
          if a = openBrace ∧ b = openBrace ∧
              (name.take secretPrefix.length).map asciiLower = secretPrefix ∧ id ≠ [] ∧
              c = closeBrace ∧ d = closeBrace then
            some (id, after)
          else none
      | _ => none
  | _ => none

/-- What stands between the braces of a reference to a secret. -/
def IsReferenceTo (id inside : Text) : Prop :=
  ∃ w lead w', (∀ c ∈ w, isWhite c = true) ∧ (∀ c ∈ w', isWhite c = true) ∧
    lead.map asciiLower = secretPrefix ∧ id ≠ [] ∧ (∀ c ∈ id, isIdUnit c = true) ∧
    inside = w ++ (lead ++ id) ++ w'

/-- A reference to a secret, as it is written. -/
def IsReference (id written : Text) : Prop :=
  ∃ inside, IsReferenceTo id inside ∧ written = placeholderText inside

/-- A placeholder, as it is written. -/
def IsPlaceholder (inside written : Text) : Prop :=
  (∀ c ∈ inside, isNoBrace c = true) ∧ written = placeholderText inside

/-! ## Characters -/

theorem isNoBrace_of_isWhite {c : CodeUnit} (h : isWhite c = true) : isNoBrace c = true := by
  have hall : ∀ c ∈ whiteSpace, isNoBrace c = true := by decide
  exact hall c (List.contains_iff_mem.mp h)

theorem asciiLower_of_brace {c : CodeUnit} (h : isNoBrace c = false) : asciiLower c = c := by
  simp only [isNoBrace, Bool.and_eq_false_iff, decide_eq_false_iff_not, not_not] at h
  rcases h with rfl | rfl <;> rfl

/-- No brace is a letter, a digit or a dash. -/
theorem isNoBrace_of_isIdUnit {c : CodeUnit} (h : isIdUnit c = true) : isNoBrace c = true := by
  by_contra hbrace
  simp only [isNoBrace, Bool.and_eq_true, decide_eq_true_eq, not_and_or, not_not] at hbrace
  rcases hbrace with rfl | rfl <;> exact absurd h (by decide)

/-- Neither is white space. -/
theorem not_isIdUnit_of_isWhite {c : CodeUnit} (h : isWhite c = true) : isIdUnit c = false := by
  have hall : ∀ c ∈ whiteSpace, isIdUnit c = false := by decide
  exact hall c (List.contains_iff_mem.mp h)

theorem not_isWhite_of_isIdUnit {c : CodeUnit} (h : isIdUnit c = true) : isWhite c = false := by
  by_contra hwhite
  rw [not_isIdUnit_of_isWhite (by simpa using hwhite)] at h
  cases h

/-- The prefix starts with a dollar sign, which has one case only. -/
theorem exists_dollar {lead : Text} (h : lead.map asciiLower = secretPrefix) :
    ∃ rest, lead = dollarSign :: rest := by
  cases lead with
  | nil => cases h
  | cons c rest =>
      refine ⟨rest, ?_⟩
      have hc : asciiLower c = dollarSign := by
        rw [secretPrefix_eq] at h
        exact (List.cons.inj h).1
      rw [asciiLower] at hc
      split_ifs at hc with hupper
      · -- A capital letter is no dollar sign.
        exfalso
        have heq := congrArg UInt16.toNat hc
        have hadd : (c + 0x20).toNat = c.toNat + 0x20 := by
          rw [UInt16.toNat_add]
          have h20 : (0x20 : UInt16).toNat = 0x20 := rfl
          rw [h20]
          omega
        rw [hadd] at heq
        have hdollar : dollarSign.toNat = 0x24 := rfl
        omega
      · rw [hc]

theorem isNoBrace_of_lead {lead : Text} (h : lead.map asciiLower = secretPrefix) :
    ∀ c ∈ lead, isNoBrace c = true := by
  intro c hc
  by_contra hbrace
  have hsame := asciiLower_of_brace (by simpa using hbrace)
  have hmem : c ∈ secretPrefix := by
    rw [← h, ← hsame]
    exact List.mem_map_of_mem hc
  have hall : ∀ c ∈ secretPrefix, isNoBrace c = true := by decide
  exact hbrace (hall c hmem)

theorem IsReferenceTo.noBrace {id inside : Text} (h : IsReferenceTo id inside) :
    ∀ c ∈ inside, isNoBrace c = true := by
  obtain ⟨w, lead, w', hw, hw', hlead, -, hid, rfl⟩ := h
  intro c hc
  simp only [List.mem_append] at hc
  rcases hc with (hc | hc | hc) | hc
  · exact isNoBrace_of_isWhite (hw c hc)
  · exact isNoBrace_of_lead hlead c hc
  · exact isNoBrace_of_isIdUnit (hid c hc)
  · exact isNoBrace_of_isWhite (hw' c hc)

/-! ## What the two patterns read -/

/-- What goes on to the first character of another kind. -/
theorem takeWhile_dropWhile_append {p : CodeUnit → Bool} {t : Text} (rest : Text)
    (ht : ∀ c ∈ t, p c = true) (hrest : ∀ c ∈ rest.head?, p c = false) :
    (t ++ rest).takeWhile p = t ∧ (t ++ rest).dropWhile p = rest := by
  have hstop : rest.takeWhile p = [] ∧ rest.dropWhile p = rest := by
    cases rest with
    | nil => exact ⟨rfl, rfl⟩
    | cons c rest =>
        have hc := hrest c rfl
        simp [hc]
  rw [List.takeWhile_append_of_pos ht, List.dropWhile_append_of_pos ht, hstop.1, hstop.2,
    List.append_nil]
  exact ⟨rfl, rfl⟩

theorem readsPlaceholders : ReadsMarks placeholderAt IsPlaceholder where
  read {t inside after} hat := by
    have heq := eq_of_placeholderAt hat
    refine ⟨placeholderText inside, ⟨?_, rfl⟩, heq⟩
    simp only [placeholderAt.eq_def] at hat
    split at hat
    · split_ifs at hat
      split at hat
      · split_ifs at hat
        cases hat
        exact fun c hc => List.mem_takeWhile_imp hc
      · cases hat
    · cases hat
  unread {inside written} hmark after := by
    obtain ⟨hinside, rfl⟩ := hmark
    have hclose : ∀ c ∈ (closeBrace :: closeBrace :: after).head?, isNoBrace c = false := by
      intro c hc
      cases hc
      rfl
    obtain ⟨htake, hdrop⟩ := takeWhile_dropWhile_append _ hinside hclose
    have htext : placeholderText inside ++ after =
        openBrace :: openBrace :: (inside ++ closeBrace :: closeBrace :: after) := by
      simp [placeholderText]
    rw [htext, placeholderAt, if_pos ⟨rfl, rfl⟩, hdrop, htake]
    simp
  ne_nil {inside written} hmark := by
    rw [hmark.2, placeholderText]
    exact List.cons_ne_nil _ _

theorem readsReferences : ReadsMarks secretReferenceAt IsReference where
  read {t id after} hat := by
    simp only [secretReferenceAt.eq_def] at hat
    split at hat
    · next a b rest =>
        split at hat
        · next c d rest' hdrop =>
            split_ifs at hat with hparts
            cases hat
            obtain ⟨rfl, rfl, hlead, hid, rfl, rfl⟩ := hparts
            refine ⟨_, ⟨_, ⟨rest.takeWhile isWhite,
              (rest.dropWhile isWhite).take secretPrefix.length,
              (((rest.dropWhile isWhite).drop secretPrefix.length).dropWhile isIdUnit).takeWhile
                isWhite,
              fun c hc => List.mem_takeWhile_imp hc, fun c hc => List.mem_takeWhile_imp hc, hlead,
              hid, fun c hc => List.mem_takeWhile_imp hc, rfl⟩, rfl⟩, ?_⟩
            -- Put together again, the pieces are the text.
            have hend := List.takeWhile_append_dropWhile (p := isWhite)
              (l := ((rest.dropWhile isWhite).drop secretPrefix.length).dropWhile isIdUnit)
            rw [hdrop] at hend
            have hid' := List.takeWhile_append_dropWhile (p := isIdUnit)
              (l := (rest.dropWhile isWhite).drop secretPrefix.length)
            have hname := List.take_append_drop secretPrefix.length (rest.dropWhile isWhite)
            have hrest := List.takeWhile_append_dropWhile (p := isWhite) (l := rest)
            conv_lhs => rw [← hrest, ← hname, ← hid', ← hend]
            simp [placeholderText]
        · cases hat
    · cases hat
  unread {id written} hmark after := by
    obtain ⟨inside, ⟨w, lead, w', hw, hw', hlead, hid, hunits, rfl⟩, rfl⟩ := hmark
    obtain ⟨lead', hdollar⟩ := exists_dollar hlead
    have hlength : lead.length = secretPrefix.length := by
      rw [← hlead, List.length_map]
    have hfirst := takeWhile_dropWhile_append
      (lead ++ (id ++ (w' ++ closeBrace :: closeBrace :: after))) hw (by
        rw [hdollar]
        intro c hc
        cases hc
        rfl)
    have hsecond := takeWhile_dropWhile_append
      (w' ++ closeBrace :: closeBrace :: after) hunits (by
        cases w' with
        | nil =>
            intro c hc
            cases hc
            rfl
        | cons x w' =>
            intro c hc
            cases hc
            exact not_isIdUnit_of_isWhite (hw' x List.mem_cons_self))
    have hthird := takeWhile_dropWhile_append (closeBrace :: closeBrace :: after) hw' (by
      intro c hc
      cases hc
      rfl)
    have htext : placeholderText (w ++ (lead ++ id) ++ w') ++ after = openBrace :: openBrace ::
        (w ++ (lead ++ (id ++ (w' ++ closeBrace :: closeBrace :: after)))) := by
      simp [placeholderText]
    rw [htext, secretReferenceAt]
    simp only [hfirst.2, List.drop_left' hlength, List.take_left' hlength, hsecond.1, hsecond.2,
      hthird.2]
    rw [if_pos ⟨trivial, trivial, hlead, hid, trivial, trivial⟩]
  ne_nil {id written} hmark := by
    obtain ⟨inside, -, rfl⟩ := hmark
    exact List.cons_ne_nil _ _

/-- A reference is a placeholder. -/
theorem IsReference.isPlaceholder {id written : Text} (h : IsReference id written) :
    ∃ inside, IsPlaceholder inside written := by
  obtain ⟨inside, hinside, rfl⟩ := h
  exact ⟨inside, hinside.noBrace, rfl⟩

/-- Nothing written with placeholders reaches into a text that starts with two braces. -/
theorem unreached_of_braces {β : Type} {IsMark : β → Text → Prop}
    (h : ∀ mark written, IsMark mark written → ∃ inside, IsPlaceholder inside written) (t : Text) :
    Unreached IsMark (openBrace :: openBrace :: t) := by
  intro mark written before after hmark hbefore heq
  obtain ⟨inside, hinside, rfl⟩ := h mark written hmark
  rcases List.append_eq_append_iff.mp heq with ⟨between, hbetween, -⟩ | ⟨rest, hwritten, hrest⟩
  · exact ⟨between, hbetween⟩
  · cases rest with
    | nil => exact ⟨[], by simpa using hwritten.symm⟩
    | cons c rest =>
        -- The mark would hold a third opening brace.
        exfalso
        obtain ⟨rfl, hafter⟩ := List.cons.inj hrest
        have hno : openBrace ∉ inside ++ [closeBrace, closeBrace] := by
          intro hmem
          rcases List.mem_append.mp hmem with hmem | hmem
          · exact absurd (hinside _ hmem) (by decide)
          · exact absurd hmem (by decide)
        match before, hbefore, hwritten with
        | [x], _, hwritten =>
            have htail : inside ++ [closeBrace, closeBrace] = rest := by
              simpa [placeholderText] using congrArg (List.drop 2) hwritten
            cases rest with
            | nil => simp at htail
            | cons y rest =>
                obtain ⟨rfl, -⟩ := List.cons.inj hafter
                exact hno (htail ▸ List.mem_cons_self)
        | x :: y :: before, _, hwritten =>
            have htail : inside ++ [closeBrace, closeBrace] = before ++ openBrace :: rest := by
              simpa [placeholderText] using congrArg (List.drop 2) hwritten
            exact hno (htail ▸ by simp)

theorem placeholderText_append (inside after : Text) :
    placeholderText inside ++ after =
      openBrace :: openBrace :: (inside ++ closeBrace :: closeBrace :: after) := by
  simp [placeholderText]

theorem unreached_placeholder {β : Type} {IsMark : β → Text → Prop}
    (h : ∀ mark written, IsMark mark written → ∃ inside, IsPlaceholder inside written)
    (inside after : Text) : Unreached IsMark (placeholderText inside ++ after) := by
  rw [placeholderText_append]
  exact unreached_of_braces h _

theorem isPlaceholder_self (mark written : Text) (h : IsPlaceholder mark written) :
    ∃ inside, IsPlaceholder inside written :=
  ⟨mark, h⟩

/-- The parts the resolver reads are those its pattern reads. -/
theorem segments_eq_parts (t : Text) :
    segments t = (parts placeholderAt t).map (Sum.elim .literal .placeholder) := by
  have hsteps : ∀ steps t, segmentsIn steps t =
      (partsIn placeholderAt steps t).map (Sum.elim .literal .placeholder) := by
    intro steps
    induction steps with
    | zero => exact fun t => rfl
    | succ steps ih =>
        intro t
        cases t with
        | nil => rfl
        | cons c rest =>
            rw [segmentsIn, partsIn]
            cases hat : placeholderAt (c :: rest) with
            | none => simp [ih]
            | some found => simp [ih]
  exact hsteps t.length t

theorem placeholder_mem_segments {t inside : Text} :
    .placeholder inside ∈ segments t ↔ .inr inside ∈ parts placeholderAt t := by
  rw [segments_eq_parts]
  constructor
  · intro h
    obtain ⟨part, hpart, heq⟩ := List.mem_map.mp h
    cases part with
    | inl c => cases heq
    | inr other =>
        cases heq
        exact hpart
  · intro h
    exact List.mem_map.mpr ⟨_, h, rfl⟩

/-- A placeholder of a text is one that stands in it. -/
theorem mem_segments_iff {t inside : Text} :
    .placeholder inside ∈ segments t ↔ (∀ c ∈ inside, isNoBrace c = true) ∧
      ∃ before after, t = before ++ placeholderText inside ++ after := by
  rw [placeholder_mem_segments]
  constructor
  · intro h
    obtain ⟨before, written, after, ⟨hinside, rfl⟩, ht⟩ := readsPlaceholders.exists_of_mem_parts h
    exact ⟨hinside, before, after, ht⟩
  · rintro ⟨hinside, before, after, rfl⟩
    exact readsPlaceholders.mem_parts ⟨hinside, rfl⟩ (unreached_placeholder isPlaceholder_self _ _)

/-- What an export takes out of a text: the references that stand in it. -/
theorem mem_references_iff {t id : Text} :
    .inr id ∈ parts secretReferenceAt t ↔
      ∃ inside, .placeholder inside ∈ segments t ∧ IsReferenceTo id inside := by
  constructor
  · intro h
    obtain ⟨before, written, after, ⟨inside, hinside, rfl⟩, ht⟩ :=
      readsReferences.exists_of_mem_parts h
    exact ⟨inside, mem_segments_iff.mpr ⟨hinside.noBrace, before, after, ht⟩, hinside⟩
  · rintro ⟨inside, hmem, hinside⟩
    obtain ⟨-, before, after, rfl⟩ := mem_segments_iff.mp hmem
    exact readsReferences.mem_parts ⟨inside, hinside, rfl⟩
      (unreached_placeholder (fun _ _ h => h.isPlaceholder) _ _)

/-! ## The name between the braces -/

/-- A text between white space, itself starting and ending with something else. -/
theorem trim_between {w t w' : Text} (hw : ∀ c ∈ w, isWhite c = true)
    (hw' : ∀ c ∈ w', isWhite c = true) (hfirst : ∃ c rest, t = c :: rest ∧ isWhite c = false)
    (hlast : ∃ rest c, t = rest ++ [c] ∧ isWhite c = false) : trim (w ++ t ++ w') = t := by
  obtain ⟨c, rest, rfl, hc⟩ := hfirst
  obtain ⟨rest', d, heq, hd⟩ := hlast
  have hstart : trimStart (w ++ (c :: rest) ++ w') = c :: rest ++ w' := by
    rw [List.append_assoc, List.cons_append, trimStart_append hw hc]
  have hback : (c :: rest ++ w').reverse = w'.reverse ++ d :: rest'.reverse := by
    rw [heq]
    simp
  have hwhite : ∀ x ∈ w'.reverse, isWhite x = true := fun x hx => hw' x (List.mem_reverse.mp hx)
  rw [trim, hstart, hback, trimStart_append hwhite hd, heq]
  simp

/-- The prefix and the id of a reference are its trimmed name. -/
theorem isReferenceTo_iff {id inside : Text} :
    IsReferenceTo id inside ↔
      ((trim inside).take secretPrefix.length).map asciiLower = secretPrefix ∧
        (trim inside).drop secretPrefix.length = id ∧ id ≠ [] ∧ ∀ c ∈ id, isIdUnit c = true := by
  constructor
  · rintro ⟨w, lead, w', hw, hw', hlead, hne, hid, rfl⟩
    have hlength : lead.length = secretPrefix.length := by
      rw [← hlead, List.length_map]
    have htrim : trim (w ++ (lead ++ id) ++ w') = lead ++ id := by
      apply trim_between hw hw'
      · obtain ⟨rest, rfl⟩ := exists_dollar hlead
        exact ⟨dollarSign, rest ++ id, rfl, by decide⟩
      · refine ⟨lead ++ id.dropLast, id.getLast hne, ?_, ?_⟩
        · rw [List.append_assoc, List.dropLast_append_getLast]
        · exact not_isWhite_of_isIdUnit (hid _ (List.getLast_mem hne))
    rw [htrim, List.take_left' hlength, List.drop_left' hlength]
    exact ⟨hlead, rfl, hne, hid⟩
  · rintro ⟨hlead, rfl, hne, hid⟩
    obtain ⟨w, w', hw, hw', hinside⟩ := exists_white_append_trim inside
    refine ⟨w, _, w', hw, hw', hlead, hne, hid, ?_⟩
    rw [List.take_append_drop]
    exact hinside

/-- The braces of a value that is one pair of them with a text between. -/
theorem insideBraces_eq_some_iff {t inside : Text} :
    insideBraces t = some inside ↔ t = placeholderText inside := by
  have hopening : units "\x7b\x7b" = [openBrace, openBrace] := rfl
  have hclosing : units "\x7d\x7d" = [closeBrace, closeBrace] := rfl
  rw [insideBraces, hopening, hclosing]
  constructor
  · intro h
    split_ifs at h with hparts
    cases h
    simp only [Bool.and_eq_true, List.isPrefixOf_iff_prefix, List.isSuffixOf_iff_suffix,
      decide_eq_true_eq] at hparts
    obtain ⟨⟨⟨rest, rfl⟩, hend⟩, hlength⟩ := hparts
    have htail : [closeBrace, closeBrace] <:+ rest := by
      simp only [List.length_append, List.length_cons, List.length_nil] at hlength
      apply List.suffix_of_suffix_length_le hend (List.suffix_append _ _)
      simp only [List.length_cons, List.length_nil]
      omega
    obtain ⟨inside, rfl⟩ := htail
    simp [placeholderText]
  · rintro rfl
    rw [if_pos]
    · simp [placeholderText]
    · rw [placeholderText]
      simp only [Bool.and_eq_true, List.isPrefixOf_iff_prefix, List.isSuffixOf_iff_suffix,
        decide_eq_true_eq]
      refine ⟨⟨⟨inside ++ [closeBrace, closeBrace], rfl⟩,
        ⟨openBrace :: openBrace :: inside, rfl⟩⟩, ?_⟩
      simp

/-- A protected variable's value is one reference between white space. -/
theorem protectedSecretId_eq_some_iff {value id : Text} :
    protectedSecretId value = some id ↔
      ∃ inside, trim value = placeholderText inside ∧ IsReferenceTo id inside := by
  rw [protectedSecretId, Option.bind_eq_some_iff]
  apply exists_congr
  intro inside
  rw [insideBraces_eq_some_iff, isReferenceTo_iff]
  apply and_congr_right
  intro _
  simp only [Option.ite_none_right_eq_some, Option.some.injEq, List.all_eq_true]
  constructor
  · rintro ⟨⟨hlead, hne, hid⟩, rfl⟩
    exact ⟨hlead.symm, rfl, hne, hid⟩
  · rintro ⟨hlead, rfl, hne, hid⟩
    exact ⟨⟨hlead.symm, hne, hid⟩, rfl⟩

/-! ## When the readers agree -/

/-- The resolver, reading the text itself, asks the vault for a secret. -/
def ResolverNames (t id : Text) : Prop :=
  ∃ inside, .placeholder inside ∈ segments t ∧ secretPrefix.isPrefixOf (trim inside) = true ∧
    (trim inside).drop secretPrefix.length = id

/-- A value is one placeholder between white space, and the resolver asks the vault for a secret. -/
def ResolverIsOne (value id : Text) : Prop :=
  ∃ inside, segments (trim value) = [.placeholder inside] ∧
    secretPrefix.isPrefixOf (trim inside) = true ∧ (trim inside).drop secretPrefix.length = id

/-- The three readers agree on the secrets a value refers to, of those a vault may hold: an id has a
character at least. -/
structure RecognisersAgree (value : Text) : Prop where
  /-- An export takes out the references that the resolver asks the vault for. -/
  stripped : ∀ id, id ≠ [] →
    (.inr id ∈ parts secretReferenceAt value ↔ ResolverNames value id)
  /-- A row is protected where the resolver asks the vault for the value as a whole. -/
  guarded : ∀ id, id ≠ [] → (protectedSecretId value = some id ↔ ResolverIsOne value id)

/-- Every reference in a value is spelt as all three readers take it: the id has letters, digits and
dashes only, and the prefix is in small letters, or the same secret is named so beside it. -/
structure SpeltAlike (value : Text) : Prop where
  ids : ∀ inside, .placeholder inside ∈ segments value →
    secretPrefix.isPrefixOf (trim inside) = true →
    ∀ c ∈ (trim inside).drop secretPrefix.length, isIdUnit c = true
  prefixes : ∀ inside id, .placeholder inside ∈ segments value → IsReferenceTo id inside →
    ResolverNames value id

theorem namesSecret_iff {t : Text} : NamesSecret t ↔ ∃ id, ResolverNames t id := by
  constructor
  · rintro ⟨inside, hmem, hname⟩
    exact ⟨_, inside, hmem, hname, rfl⟩
  · rintro ⟨id, inside, hmem, hname, -⟩
    exact ⟨inside, hmem, hname⟩

theorem map_asciiLower_secretPrefix : secretPrefix.map asciiLower = secretPrefix := by decide

/-- A name that starts with the prefix as it is starts with it in some case. -/
theorem take_of_isPrefixOf {name : Text} (h : secretPrefix.isPrefixOf name = true) :
    (name.take secretPrefix.length).map asciiLower = secretPrefix := by
  obtain ⟨rest, rfl⟩ := List.isPrefixOf_iff_prefix.mp h
  rw [List.take_left]
  exact map_asciiLower_secretPrefix

/-- A placeholder alone between white space is all the placeholders of the value. -/
theorem eq_of_mem_segments_trim {value inside other : Text}
    (h : trim value = placeholderText inside) (hinside : ∀ c ∈ inside, isNoBrace c = true)
    (hmem : .placeholder other ∈ segments value) : other = inside := by
  obtain ⟨w, w', hw, hw', hvalue⟩ := exists_white_append_trim value
  rw [h] at hvalue
  subst hvalue
  have hclear : ∀ w t : Text, (∀ c ∈ w, isWhite c = true) →
      .inr other ∈ parts placeholderAt (w ++ t) → .inr other ∈ parts placeholderAt t := by
    intro w t hw hmem
    induction w with
    | nil => exact hmem
    | cons c w ih =>
        have hc : c ≠ openBrace := by
          rintro rfl
          exact absurd (hw openBrace List.mem_cons_self) (by decide)
        have hnone : placeholderAt (c :: (w ++ t)) = none := by
          rw [placeholderAt.eq_def]
          cases w ++ t with
          | nil => rfl
          | cons d rest => simp [hc]
        rw [List.cons_append, parts_of_none hnone] at hmem
        rcases List.mem_cons.mp hmem with heq | hmem
        · cases heq
        · exact ih (fun x hx => hw x (List.mem_cons_of_mem c hx)) hmem
  rw [placeholder_mem_segments, List.append_assoc] at hmem
  have hrest := hclear w _ hw hmem
  rw [readsPlaceholders.parts_of_mark (readsPlaceholders.unread ⟨hinside, rfl⟩ w')] at hrest
  rcases List.mem_cons.mp hrest with heq | hrest
  · cases heq
    rfl
  · -- No placeholder stands in the white space behind it.
    rw [← List.append_nil w'] at hrest
    exact absurd (hclear w' [] hw' hrest) (by simp [parts, partsIn])

theorem mem_segments_of_trim {value inside : Text} (h : trim value = placeholderText inside)
    (hinside : ∀ c ∈ inside, isNoBrace c = true) : .placeholder inside ∈ segments value := by
  obtain ⟨w, w', -, -, hvalue⟩ := exists_white_append_trim value
  rw [h] at hvalue
  exact mem_segments_iff.mpr ⟨hinside, w, w', hvalue⟩

/-- The parts of a text that is one placeholder. -/
theorem segments_eq_singleton_iff {t inside : Text} :
    segments t = [.placeholder inside] ↔
      t = placeholderText inside ∧ ∀ c ∈ inside, isNoBrace c = true := by
  constructor
  · intro h
    have hmem : .placeholder inside ∈ segments t := by
      rw [h]
      exact List.mem_singleton_self _
    refine ⟨?_, (mem_segments_iff.mp hmem).1⟩
    rw [← flatten_segments t, h]
    simp [Segment.written]
  · rintro ⟨rfl, hinside⟩
    have hunread := readsPlaceholders.unread ⟨hinside, rfl⟩ []
    rw [List.append_nil] at hunread
    rw [segments_eq_parts, readsPlaceholders.parts_of_mark hunread]
    rfl

/-- What the resolver asks for by an id of letters, digits and dashes is a
reference to all three. -/
theorem isReferenceTo_of_ids {inside : Text} (hname : secretPrefix.isPrefixOf (trim inside) = true)
    (hne : (trim inside).drop secretPrefix.length ≠ [])
    (hids : ∀ c ∈ (trim inside).drop secretPrefix.length, isIdUnit c = true) :
    IsReferenceTo ((trim inside).drop secretPrefix.length) inside :=
  isReferenceTo_iff.mpr ⟨take_of_isPrefixOf hname, rfl, hne, hids⟩

/-- The readers agree on exactly the values whose references are spelt as all of them take it. -/
theorem recognisersAgree_iff {value : Text} : RecognisersAgree value ↔ SpeltAlike value := by
  constructor
  · intro h
    constructor
    · intro inside hmem hname c hc
      have hne : (trim inside).drop secretPrefix.length ≠ [] := List.ne_nil_of_mem hc
      -- The resolver asks for the id, so an export takes it out, and its ids are of this kind.
      have hstripped := (h.stripped _ hne).mpr ⟨inside, hmem, hname, rfl⟩
      obtain ⟨other, -, hother⟩ := mem_references_iff.mp hstripped
      exact (isReferenceTo_iff.mp hother).2.2.2 c hc
    · intro inside id hmem hinside
      have hne := (isReferenceTo_iff.mp hinside).2.2.1
      exact (h.stripped id hne).mp (mem_references_iff.mpr ⟨inside, hmem, hinside⟩)
  · intro h
    constructor
    · intro id hne
      rw [mem_references_iff]
      constructor
      · rintro ⟨inside, hmem, hinside⟩
        exact h.prefixes inside id hmem hinside
      · rintro ⟨inside, hmem, hname, rfl⟩
        exact ⟨inside, hmem, isReferenceTo_of_ids hname hne (h.ids inside hmem hname)⟩
    · intro id hne
      rw [protectedSecretId_eq_some_iff]
      constructor
      · rintro ⟨inside, htrim, hinside⟩
        have hbrace := hinside.noBrace
        obtain ⟨other, hmem, hname, hid⟩ :=
          h.prefixes inside id (mem_segments_of_trim htrim hbrace) hinside
        obtain rfl := eq_of_mem_segments_trim htrim hbrace hmem
        exact ⟨other, segments_eq_singleton_iff.mpr ⟨htrim, hbrace⟩, hname, hid⟩
      · rintro ⟨inside, hsegments, hname, rfl⟩
        obtain ⟨htrim, hbrace⟩ := segments_eq_singleton_iff.mp hsegments
        exact ⟨inside, htrim, isReferenceTo_of_ids hname hne
          (h.ids inside (mem_segments_of_trim htrim hbrace) hname)⟩

/-! ## What is left without the references -/

/-- A secret is named in a value with references standing between the characters of the placeholder,
where it is not itself a reference that is taken out with them. -/
def LeavesSecret (value : Text) : Prop :=
  ∃ inside written before after, (∀ c ∈ inside, isNoBrace c = true) ∧
    secretPrefix.isPrefixOf (trim inside) = true ∧
    Amid IsReference (placeholderText inside) written ∧ value = before ++ (written ++ after) ∧
    ¬ (written = placeholderText inside ∧ ∃ id, IsReferenceTo id inside)

/-- A reference starts with two braces and no third. -/
theorem secretReferenceAt_of_ne {a b : CodeUnit} {rest : Text}
    (h : a ≠ openBrace ∨ b ≠ openBrace ∨ ∃ rest', rest = openBrace :: rest') :
    secretReferenceAt (a :: b :: rest) = none := by
  cases hat : secretReferenceAt (a :: b :: rest) with
  | none => rfl
  | some found =>
      exfalso
      obtain ⟨written, ⟨inside, hinside, rfl⟩, heq⟩ := readsReferences.read hat
      rw [placeholderText_append] at heq
      obtain ⟨ha, heq⟩ := List.cons.inj heq
      obtain ⟨hb, heq⟩ := List.cons.inj heq
      rcases h with h | h | ⟨rest', rfl⟩
      · exact h ha
      · exact h hb
      · cases inside with
        | nil => cases (List.cons.inj heq).1
        | cons c inside =>
            obtain ⟨rfl, -⟩ := List.cons.inj heq
            exact absurd (hinside.noBrace _ List.mem_cons_self) (by decide)

/-- References in front of a text start with a brace; with none, the text stands there itself. -/
theorem marks_append_cases {marks : List Text}
    (hmarks : ∀ m ∈ marks, ∃ id, IsReference id m) (t : Text) :
    marks = [] ∨ ∃ rest, marks.flatten ++ t = openBrace :: openBrace :: rest := by
  cases marks with
  | nil => exact .inl rfl
  | cons m marks =>
      obtain ⟨id, inside, -, rfl⟩ := hmarks m List.mem_cons_self
      right
      rw [List.flatten_cons, List.append_assoc, placeholderText_append]
      exact ⟨_, rfl⟩

/-- A word with no opening brace is left, whatever references stand between its characters. -/
theorem prefix_erased_of_no_brace {word written : Text} (hamid : Amid IsReference word written)
    (hword : openBrace ∉ word) (after : Text) :
    word <+: erased secretReferenceAt (written ++ after) := by
  have hplain : ∀ {c : CodeUnit} {rest : Text}, c ≠ openBrace →
      secretReferenceAt (c :: rest) = none := by
    intro c rest hc
    cases rest with
    | nil => rfl
    | cons d rest => exact secretReferenceAt_of_ne (.inl hc)
  induction hamid with
  | last c =>
      have hc : c ≠ openBrace := fun heq => hword (heq ▸ List.mem_cons_self)
      rw [List.singleton_append, erased_of_none (hplain hc)]
      exact List.cons_prefix_cons.mpr ⟨rfl, List.nil_prefix⟩
  | next c hmarks hrest ih =>
      have hc : c ≠ openBrace := fun heq => hword (heq ▸ List.mem_cons_self)
      rw [List.cons_append, erased_of_none (hplain hc), List.append_assoc,
        readsReferences.erased_marks_append hmarks]
      exact List.cons_prefix_cons.mpr ⟨rfl, ih fun hmem => hword (List.mem_cons_of_mem c hmem)⟩

/-- A placeholder is left too, where no reference starts at its first brace. -/
theorem placeholder_prefix_erased {c : CodeUnit} {name written after : Text}
    (hname : ∀ x ∈ c :: name, isNoBrace x = true)
    (hamid : Amid IsReference (placeholderText (c :: name)) written)
    (hnone : secretReferenceAt (written ++ after) = none) :
    placeholderText (c :: name) <+: erased secretReferenceAt (written ++ after) := by
  have hclear : openBrace ∉ c :: name ++ [closeBrace, closeBrace] := by
    intro hmem
    rcases List.mem_append.mp hmem with hmem | hmem
    · exact absurd (hname _ hmem) (by decide)
    · exact absurd hmem (by decide)
  obtain ⟨marks, rest, hmarks, hrest, rfl⟩ := hamid.exists_marks
  obtain ⟨marks', rest', hmarks', hrest', rfl⟩ := hrest.exists_marks
  -- What follows the second brace is the name, or a reference of its own.
  have hsecond : secretReferenceAt (openBrace :: (marks'.flatten ++ rest') ++ after) = none := by
    obtain ⟨tail, rfl⟩ := hrest'.exists_cons
    rw [List.cons_append, List.append_assoc]
    rcases marks_append_cases hmarks' (c :: tail ++ after) with rfl | ⟨more, hmore⟩
    · have hc : c ≠ openBrace := fun heq => hclear (heq ▸ List.mem_cons_self)
      exact secretReferenceAt_of_ne (.inr (.inl hc))
    · rw [hmore]
      exact secretReferenceAt_of_ne (.inr (.inr ⟨more, rfl⟩))
  have hleft := prefix_erased_of_no_brace hrest' hclear after
  rw [List.cons_append] at hnone hsecond ⊢
  rw [erased_of_none hnone, List.append_assoc, readsReferences.erased_marks_append hmarks,
    List.cons_append, erased_of_none hsecond, List.append_assoc,
    readsReferences.erased_marks_append hmarks']
  exact List.cons_prefix_cons.mpr ⟨rfl, List.cons_prefix_cons.mpr ⟨rfl, hleft⟩⟩

/-- What closes a placeholder has no reference between its characters where it also closes one. -/
theorem eq_of_amid_closing {name other written after after' : Text}
    (hother : ∀ c ∈ other, isNoBrace c = true) (hname : ∀ c ∈ name, isNoBrace c = true)
    (hamid : Amid IsReference (name ++ [closeBrace, closeBrace]) written)
    (heq : written ++ after = other ++ closeBrace :: closeBrace :: after') :
    written = name ++ [closeBrace, closeBrace] ∧ other = name := by
  -- Where a reference stood, a brace would open in what closes the other.
  have hmarks : ∀ {marks : List Text} {t : Text} {c : CodeUnit} {rest : Text},
      (∀ m ∈ marks, ∃ id, IsReference id m) → marks.flatten ++ t = c :: rest → c ≠ openBrace →
      marks = [] := by
    intro marks t c rest hmarks heq hc
    rcases marks_append_cases hmarks t with hnil | ⟨more, hmore⟩
    · exact hnil
    · rw [hmore] at heq
      exact absurd (List.cons.inj heq).1.symm hc
  induction name generalizing other written with
  | nil =>
      obtain ⟨marks, rest, hall, hrest, rfl⟩ := hamid.exists_marks
      cases other with
      | cons c other =>
          obtain ⟨rfl, -⟩ := List.cons.inj heq
          exact absurd (hother _ List.mem_cons_self) (by decide)
      | nil =>
          rw [List.cons_append, List.append_assoc] at heq
          obtain ⟨-, htail⟩ := List.cons.inj heq
          obtain rfl := hmarks hall htail (by decide)
          cases hrest with
          | last => exact ⟨rfl, rfl⟩
          | next _ _ hrest => cases hrest
  | cons c name ih =>
      obtain ⟨d, tail, htail⟩ : ∃ d tail, name ++ [closeBrace, closeBrace] = d :: tail := by
        cases name with
        | nil => exact ⟨_, _, rfl⟩
        | cons d name => exact ⟨_, _, rfl⟩
      rw [List.cons_append, htail] at hamid
      obtain ⟨marks, rest, hall, hrest, rfl⟩ := hamid.exists_marks
      rw [← htail] at hrest
      cases other with
      | nil =>
          obtain ⟨rfl, -⟩ := List.cons.inj heq
          exact absurd (hname _ List.mem_cons_self) (by decide)
      | cons x other =>
          rw [List.cons_append, List.cons_append, List.append_assoc] at heq
          obtain ⟨rfl, htail'⟩ := List.cons.inj heq
          have hnext : marks = [] := by
            cases other with
            | nil => exact hmarks hall htail' (by decide)
            | cons y other =>
                have hy : y ≠ openBrace := by
                  rintro rfl
                  exact absurd (hother openBrace (by simp)) (by decide)
                exact hmarks hall htail' hy
          subst hnext
          have hfound := ih (fun z hz => hother z (List.mem_cons_of_mem _ hz))
            (fun z hz => hname z (List.mem_cons_of_mem _ hz)) hrest htail'
          rw [hfound.2, List.flatten_nil, List.nil_append, hfound.1]
          exact ⟨rfl, rfl⟩

/-- A reference that starts where a placeholder is written, with references between its characters,
is the placeholder: nothing stands between. -/
theorem eq_of_secretReferenceAt {c : CodeUnit} {name written after : Text}
    (hname : ∀ x ∈ c :: name, isNoBrace x = true)
    (hamid : Amid IsReference (placeholderText (c :: name)) written)
    (hsome : secretReferenceAt (written ++ after) ≠ none) :
    written = placeholderText (c :: name) ∧ ∃ id, IsReferenceTo id (c :: name) := by
  obtain ⟨found, hat⟩ := Option.ne_none_iff_exists'.mp hsome
  obtain ⟨text, ⟨inside, hinside, rfl⟩, heq⟩ := readsReferences.read hat
  rw [placeholderText_append] at heq
  obtain ⟨marks, rest, hmarks, hrest, rfl⟩ := hamid.exists_marks
  obtain ⟨marks', rest', hmarks', hrest', rfl⟩ := hrest.exists_marks
  obtain ⟨first, tail, hfirst, hbrace⟩ :
      ∃ first tail, inside ++ closeBrace :: closeBrace :: found.2 = first :: tail ∧
        first ≠ openBrace := by
    cases inside with
    | nil => exact ⟨_, _, rfl, by decide⟩
    | cons x inside =>
        refine ⟨_, _, rfl, ?_⟩
        rintro rfl
        exact absurd (hinside.noBrace openBrace List.mem_cons_self) (by decide)
  rw [List.cons_append, List.append_assoc] at heq
  obtain ⟨-, heq⟩ := List.cons.inj heq
  have hnone : marks = [] := by
    rcases marks_append_cases hmarks (openBrace :: (marks'.flatten ++ rest') ++ after) with
      hnil | ⟨more, hmore⟩
    · exact hnil
    · rw [hmore, hfirst] at heq
      exact absurd (List.cons.inj (List.cons.inj heq).2).1.symm hbrace
  subst hnone
  rw [List.flatten_nil, List.nil_append, List.cons_append, List.append_assoc] at heq
  obtain ⟨-, heq⟩ := List.cons.inj heq
  have hnone' : marks' = [] := by
    rw [hfirst] at heq
    rcases marks_append_cases hmarks' (rest' ++ after) with hnil | ⟨more, hmore⟩
    · exact hnil
    · rw [hmore] at heq
      exact absurd (List.cons.inj heq).1.symm hbrace
  subst hnone'
  obtain ⟨rfl, rfl⟩ := eq_of_amid_closing hinside.noBrace hname hrest' heq
  exact ⟨rfl, found.1, hinside⟩

/-- What names a secret has a name. -/
theorem exists_cons_of_isPrefixOf {inside : Text}
    (h : secretPrefix.isPrefixOf (trim inside) = true) : ∃ c name, inside = c :: name := by
  cases inside with
  | nil => exact absurd h (by decide)
  | cons c name => exact ⟨c, name, rfl⟩

/-- A value whose references are taken out names a secret where it leaves one. -/
theorem namesSecret_erased_iff {value : Text} :
    NamesSecret (erased secretReferenceAt value) ↔ LeavesSecret value := by
  constructor
  · rintro ⟨inside, hmem, hname⟩
    obtain ⟨hinside, before, after, htext⟩ := mem_segments_iff.mp hmem
    have hinfix : placeholderText inside <:+: erased secretReferenceAt value :=
      ⟨before, after, htext.symm⟩
    have hne : placeholderText inside ≠ [] := List.cons_ne_nil _ _
    obtain ⟨before, written, after, hamid, rfl, hnone⟩ :=
      readsReferences.exists_amid_of_infix_erased hne hinfix
    refine ⟨inside, written, before, after, hinside, hname, hamid, rfl, ?_⟩
    rintro ⟨rfl, id, hid⟩
    rw [readsReferences.unread ⟨inside, hid, rfl⟩] at hnone
    cases hnone
  · rintro ⟨inside, written, before, after, hinside, hname, hamid, rfl, hleft⟩
    obtain ⟨c, name, rfl⟩ := exists_cons_of_isPrefixOf hname
    have hnone : secretReferenceAt (written ++ after) = none := by
      by_contra hsome
      exact hleft (eq_of_secretReferenceAt hinside hamid hsome)
    have hstarts := placeholder_prefix_erased hinside hamid hnone
    have hunreached : Unreached IsReference (written ++ after) := by
      obtain ⟨marks, rest, hmarks, hrest, rfl⟩ := hamid.exists_marks
      obtain ⟨tail, rfl⟩ := hrest.exists_cons
      rw [List.cons_append, List.append_assoc]
      rcases marks_append_cases hmarks (openBrace :: tail ++ after) with rfl | ⟨more, hmore⟩
      · exact unreached_of_braces (fun _ _ h => h.isPlaceholder) _
      · rw [hmore]
        exact unreached_of_braces (fun _ _ h => h.isPlaceholder) _
    have hsuffix := readsReferences.suffix_erased_append hunreached before
    obtain ⟨left, right, htext⟩ := hstarts.isInfix.trans hsuffix.isInfix
    exact ⟨_, mem_segments_iff.mpr ⟨hinside, left, right, htext.symm⟩, hname⟩

end Wayfarer
