import Wayfarer.Import.CurlArguments

/-!
# Where a command's request goes once it is imported

The method and the address of the request a command is read as, against what curl makes of them:
`method_iff` and `target_iff` say where they are the same. What curl's globbing makes of an address
is told apart in the last section: an address without its marks is one address, and items in braces
are several.
-/

set_option autoImplicit false

namespace Wayfarer

open Library CopiedCurl BuiltCurl

namespace CurlSends

variable {P : Platform} {glob : Text → List Text} {escape : Text → Text} {args : List CurlArgument}

/-! ## The method -/

theorem bodyRead_eq_none_iff (escape : Text → Text) :
    bodyRead P args = .none ↔ CurlRules.sent escape args = .nothing := by
  rw [bodyRead, CurlRules.sent]
  by_cases hform : CurlRules.formParts args ≠ []
  · rw [if_pos hform, if_pos hform]
    simp
  · have hnil := dataRead_eq_nil_iff escape args
    rw [if_neg hform, if_neg hform]
    by_cases hnone : .get ∈ args ∨ CurlRules.pieces escape args = []
    · rw [if_pos hnone, if_pos (hnone.imp_right hnil.mpr)]
      simp
    · rw [if_neg hnone, if_neg fun h => hnone (h.imp_right hnil.mp)]
      split_ifs <;> simp

/-- A method that is given is its own upper case, and a method. -/
def MethodGoes (P : Platform) (args : List CurlArgument) : Prop :=
  ∀ method, CurlRules.methodGiven args = some method →
    P.toUpperCase method = method ∧ isHttpMethod method = true

theorem method_iff :
    (isHttpMethod (requestRead P args).method = true ∧
        (requestRead P args).method = CurlRules.method escape args) ↔ MethodGoes P args := by
  have hget : isHttpMethod (units "GET") = true := by decide
  have hhead : isHttpMethod (units "HEAD") = true := by decide
  have hpost : isHttpMethod (units "POST") = true := by decide
  rw [requestRead, CurlRules.method, MethodGoes]
  dsimp only
  cases hgiven : CurlRules.methodGiven args with
  | none =>
      simp only [Option.map_none, Option.getD_none, bodyRead_eq_none_iff escape,
        reduceCtorEq, false_imp_iff, implies_true, iff_true, and_true]
      split_ifs
      · exact hhead
      · exact hget
      · exact hpost
  | some method =>
      simp only [Option.map_some, Option.getD_some]
      constructor
      · rintro ⟨hmethod, hupper⟩ own hown
        obtain rfl := Option.some.inj hown
        exact ⟨hupper, hupper ▸ hmethod⟩
      · intro h
        obtain ⟨hupper, hmethod⟩ := h method rfl
        exact ⟨hupper.symm ▸ hmethod, hupper⟩

/-! ## An address and its scheme -/

theorem trim_of_no_white {t : Text} (h : ∀ c ∈ t, isWhite c = false) : trim t = t := by
  rw [trim, trimStart_of_head fun c hc => h c (List.mem_of_mem_head? hc), trimStart_of_head,
    List.reverse_reverse]
  intro c hc
  exact h c (List.mem_reverse.mp (List.mem_of_mem_head? hc))

/-- A text without white space has no breaks to encode. -/
theorem encodeBreaks_of_no_white {t : Text} (h : ∀ c ∈ t, isWhite c = false) :
    encodeBreaks t = t := by
  have hmarks : ∀ c, isTabOrBreak c = true → isWhite c = true := by
    intro c hmark
    simp only [isTabOrBreak, Bool.or_eq_true, decide_eq_true_eq] at hmark
    rcases hmark with (rfl | rfl) | rfl <;> decide
  have hone : ∀ c ∈ t, (if isTabOrBreak c then percentByte c.toNat else [c]) = [c] := by
    intro c hc
    rw [if_neg]
    intro hmark
    have hno := h c hc
    rw [hmarks c hmark] at hno
    cases hno
  rw [encodeBreaks, List.flatMap_congr hone]
  exact List.flatMap_singleton' t

/-- An address without white space only gets a scheme. -/
theorem normalizeUrl_trim {t : Text} (h : ∀ c ∈ t, isWhite c = false) :
    normalizeUrl (trim t) = if hasExplicitScheme t then t else units "https://" ++ t := by
  rw [normalizeUrl, trim_of_no_white h, encodeBreaks_of_no_white h]

/-- A mark that is no part of a scheme may follow the address. -/
theorem hasExplicitScheme_append {mark : CodeUnit} (hmark : mark = 0x3F ∨ mark = 0x26)
    (address rest : Text) :
    hasExplicitScheme (address ++ mark :: rest) = hasExplicitScheme address := by
  have hstart : ∀ scheme : Text, asciiLower mark ∉ scheme →
      scheme.isPrefixOf ((address ++ mark :: rest).map asciiLower) =
        scheme.isPrefixOf (address.map asciiLower) := by
    intro scheme hscheme
    rw [Bool.eq_iff_iff, List.isPrefixOf_iff_prefix, List.isPrefixOf_iff_prefix, List.map_append,
      List.map_cons]
    constructor
    · intro h
      obtain hshort | hlong := List.prefix_or_prefix_of_prefix h
        (List.prefix_append (address.map asciiLower) _)
      · exact hshort
      · -- Else the mark stands in the scheme.
        obtain ⟨more, rfl⟩ := hlong
        rw [List.prefix_append_right_inj] at h
        cases more with
        | nil => simp
        | cons c more =>
            obtain ⟨rfl, -⟩ := List.cons_prefix_cons.mp h
            simp at hscheme
    · exact fun h => h.trans (List.prefix_append _ _)
  have hmarks : asciiLower mark ∉ units "http://" ∧ asciiLower mark ∉ units "https://" := by
    rcases hmark with rfl | rfl <;> decide +kernel
  rw [hasExplicitScheme, hasExplicitScheme]
  simp only [hstart _ hmarks.1, hstart _ hmarks.2]

/-! ## The query -/

/-- The address up to its query holds neither mark, and the query no fragment. -/
theorem not_mem_target (address : Text) :
    0x3F ∉ (CurlRules.target address).1 ∧ 0x23 ∉ (CurlRules.target address).1 ∧
      ∀ query, (CurlRules.target address).2 = some query → 0x23 ∉ query := by
  have hno := not_mem_cutAt 0x23 address
  refine ⟨not_mem_cutAt 0x3F _, ?_, ?_⟩
  · exact fun hmem => hno (mem_of_mem_cutAt (.inl hmem))
  · exact fun query hquery hmem => hno (mem_of_mem_cutAt (.inr ⟨query, hquery, hmem⟩))

/-- What stands in front of an address, without a mark of it, stands in front of where it goes. -/
theorem target_append {front : Text} (hquery : 0x3F ∉ front) (hfragment : 0x23 ∉ front)
    (rest : Text) :
    CurlRules.target (front ++ rest) =
      (front ++ (CurlRules.target rest).1, (CurlRules.target rest).2) := by
  rw [CurlRules.target, cutAt_append hfragment, CurlRules.target]
  exact cutAt_append hquery _

/-- What follows the first question mark is the query, up to a fragment. -/
theorem target_mark {front : Text} (hquery : 0x3F ∉ front) (hfragment : 0x23 ∉ front)
    (rest : Text) :
    CurlRules.target (front ++ 0x3F :: rest) = (front, some (cutAt 0x23 rest).1) := by
  have hcut : (cutAt 0x23 (front ++ 0x3F :: rest)).1 = front ++ 0x3F :: (cutAt 0x23 rest).1 := by
    rw [cutAt_append hfragment, cutAt, if_neg (by decide)]
  rw [CurlRules.target, hcut]
  exact cutAt_append_cons hquery _

/-- What stands in front of what is added to a query. -/
def queryFront : Option Text → Text
  | none => []
  | some query =>
      if query = [] ∨ (units "&").isSuffixOf query then query else query ++ units "&"

theorem queryWith_eq (query : Option Text) (text : Text) :
    CurlRules.queryWith query text = queryFront query ++ text := by
  cases query with
  | none => rfl
  | some query =>
      rw [CurlRules.queryWith, queryFront]
      split_ifs
      · rfl
      · rfl

/-- Where an address goes that has a text added to its query. -/
theorem target_addQuery (address text : Text) :
    CurlRules.target (CurlRules.addQuery address text) =
      ((CurlRules.target address).1,
        some (queryFront (CurlRules.target address).2 ++ (cutAt 0x23 text).1)) := by
  obtain ⟨hquery, hfragment, hown⟩ := not_mem_target address
  have hunits : units "?" = [0x3F] ∧ units "#" = [0x23] := by decide
  have hand : units "&" = [0x26] := by decide
  have hfront : 0x23 ∉ queryFront (CurlRules.target address).2 := by
    cases hsome : (CurlRules.target address).2 with
    | none => exact List.not_mem_nil
    | some query =>
        have hquery := hown query hsome
        rw [queryFront]
        split_ifs
        · exact hquery
        · simp [hand, hquery]
  -- The fragment of the address does not reach what is sent.
  have hcut : ∀ front, 0x23 ∉ front → ∀ after, (after = [] ∨ ∃ more, after = 0x23 :: more) →
      (cutAt 0x23 (front ++ (text ++ after))).1 = front ++ (cutAt 0x23 text).1 := by
    intro front hno after hafter
    rw [cutAt_append hno]
    show front ++ _ = _
    congr 1
    by_cases hmem : 0x23 ∈ text
    · exact cutAt_append_of_mem hmem _
    · rw [cutAt_append hmem, cutAt_of_not_mem hmem]
      rcases hafter with rfl | ⟨more, rfl⟩
      · simp [cutAt]
      · simp [cutAt]
  rw [CurlRules.addQuery, queryWith_eq, hunits.1, List.append_assoc, List.append_assoc,
    List.singleton_append, target_mark hquery hfragment, List.append_assoc, hcut _ hfront]
  cases (cutAt 0x23 address).2 with
  | none => exact .inl rfl
  | some fragment => exact .inr ⟨fragment, by rw [hunits.2]; rfl⟩

/-- Where an address goes that data was added to the end of. -/
theorem target_extended {address : Text} (text : Text) :
    CurlRules.target
        (address ++ (if address.contains 0x3F then units "&" else units "?") ++ text) =
      if 0x23 ∈ address then CurlRules.target address
      else ((CurlRules.target address).1,
        some (((CurlRules.target address).2.map (· ++ units "&")).getD [] ++
          (cutAt 0x23 text).1)) := by
  have hunits : units "?" = [0x3F] ∧ units "&" = [0x26] := by decide
  rw [List.append_assoc]
  by_cases hfragment : 0x23 ∈ address
  · -- What is written behind a fragment is of the fragment.
    rw [if_pos hfragment, CurlRules.target, CurlRules.target, cutAt_append_of_mem hfragment]
  · rw [if_neg hfragment]
    have hwhole : CurlRules.target address = cutAt 0x3F address := by
      rw [CurlRules.target, cutAt_of_not_mem hfragment]
    rw [hwhole]
    -- The mark that is written is the first question mark, or stands in the query.
    cases hcut : cutAt 0x3F address with
    | mk front query =>
        cases query with
        | none =>
            have hquery : 0x3F ∉ address := cutAt_eq_none_iff.mp (by rw [hcut])
            rw [cutAt_of_not_mem hquery] at hcut
            obtain ⟨rfl, -⟩ := Prod.mk.inj hcut
            rw [if_neg (by simpa using hquery), hunits.1, List.singleton_append,
              target_mark hquery hfragment]
            rfl
        | some query =>
            have hmem : 0x3F ∈ address := by
              rw [append_of_cutAt hcut]
              simp
            have hfront : 0x3F ∉ front := by
              have hno := not_mem_cutAt 0x3F address
              rwa [hcut] at hno
            have hparts := append_of_cutAt hcut
            rw [hparts] at hfragment
            have hno : 0x23 ∉ front ∧ 0x23 ∉ query ++ units "&" := by
              simp only [List.mem_append, List.mem_cons, not_or] at hfragment
              refine ⟨hfragment.1, ?_⟩
              simp [hunits.2, hfragment.2.2]
            rw [if_pos (by simpa using hmem), hparts, List.append_assoc, List.cons_append,
              target_mark hfront hno.1, ← List.append_assoc, cutAt_append hno.2]
            rfl

/-! ## The data that is moved -/

theorem eq_nil_of_escape (h : CurlRules.Escapes escape) {text : Text} (hnil : escape text = []) :
    text = [] := by
  have hscrub : scrub text = [] := by
    rw [← h.decodes, hnil]
    rfl
  rw [← formText_eq_nil_iff, ← formText_scrub, hscrub]
  rfl

/-- The text the app reads of data that is nothing is nothing. -/
theorem movedRead_eq_nil (hescape : CurlRules.Escapes escape)
    (hfile : ∀ text, .dataUrlencode text ∈ args → 0x3D ∈ text ∨ 0x40 ∉ text)
    (h : CurlRules.movedText escape args = []) : movedRead args = [] := by
  rw [movedRead]
  by_cases hget : .get ∈ args
  swap
  · rw [if_neg hget]
  rw [CurlRules.movedText, if_pos hget, CurlRules.dataText] at h
  rw [if_pos hget]
  have hread := pieceRead_args escape hfile
  rw [textRead]
  generalize dataRead args = data at hread
  generalize CurlRules.pieces escape args = pieces at hread h
  cases hread with
  | nil => rfl
  | cons hone hrest =>
      cases hrest with
      | nil =>
          -- One empty piece.
          rw [joinWith, List.intercalate_singleton] at h
          cases hone with
          | same => simpa [Datum.text?, joinWith] using h
          | content text =>
              obtain rfl := eq_nil_of_escape hescape h
              simp [Datum.text?, joinWith, formText_eq_nil_iff]
          | named => simp at h
          | file => simp at h
      | cons htwo hmore =>
          have hunits : units "&" = [0x26] := by decide
          rw [joinWith, List.intercalate_cons_cons, hunits] at h
          simp at h

/-- What is moved has no white space where what curl moves has none. -/
theorem no_white_movedRead
    (hfile : ∀ text, .dataUrlencode text ∈ args → 0x3D ∈ text ∨ 0x40 ∉ text)
    (h : ∀ c ∈ CurlRules.movedText escape args, isWhite c = false) :
    ∀ c ∈ movedRead args, isWhite c = false := by
  intro c hc
  rw [CurlRules.movedText] at h
  rw [movedRead] at hc
  split_ifs at h hc with hget
  · have hread := pieceRead_args escape hfile
    obtain hand | ⟨piece, hpiece, hmem⟩ := of_mem_joinWith hc
    · have hunits : units "&" = [0x26] := by decide
      rw [hunits] at hand
      obtain rfl := List.mem_singleton.mp hand
      decide
    · obtain ⟨datum, hdatum, htext⟩ := List.mem_filterMap.mp hpiece
      -- A piece that is read goes with one of curl's, the two encoded each in its way.
      obtain ⟨own, hown, hone⟩ : ∃ own ∈ CurlRules.pieces escape args,
          PieceRead escape datum own := by
        clear h hc hpiece
        generalize dataRead args = data at hread hdatum
        generalize CurlRules.pieces escape args = pieces at hread
        induction hread with
        | nil => cases hdatum
        | cons hhead hrest ih =>
            obtain rfl | hlater := List.mem_cons.mp hdatum
            · exact ⟨_, List.mem_cons_self, hhead⟩
            · obtain ⟨own, hown, hone⟩ := ih hlater
              exact ⟨own, List.mem_cons_of_mem _ hown, hone⟩
      -- What is not encoded is of curl's piece, and what is holds no white space.
      have hplain : ∀ c ∈ own, isWhite c = false := fun c hc =>
        h c (mem_joinWith_of_mem hown hc)
      cases hone with
      | same text =>
          obtain rfl := Option.some.inj htext
          exact hplain c hmem
      | content text =>
          obtain rfl := Option.some.inj htext
          exact isWhite_formText hmem
      | named name text hname =>
          obtain rfl := Option.some.inj htext
          obtain hfront | hback := List.mem_append.mp hmem
          · exact hplain c (List.mem_append_left _ hfront)
          · obtain rfl | htext := List.mem_cons.mp hback
            · decide
            · exact isWhite_formText htext
      | file => cases htext
  · cases hc

/-! ## Where the request goes -/

/-- The query the app sends to: data that is moved is written to the end of the address, which is
the fragment where there is one, and joined to a query with an ampersand. -/
def queryRead (args : List CurlArgument) : Option Text :=
  let address := (CurlRules.addresses args).headD []
  if 0x23 ∈ address ∨ movedRead args = [] then (CurlRules.target address).2
  else some (((CurlRules.target address).2.map (· ++ units "&")).getD [] ++
    (cutAt 0x23 (movedRead args)).1)

/-- The query curl sends to at one address. -/
def querySent (escape : Text → Text) (args : List CurlArgument) (one : Text) : Option Text :=
  if CurlRules.movedText escape args = [] then (CurlRules.target one).2
  else some (queryFront (CurlRules.target one).2 ++
    (cutAt 0x23 (CurlRules.movedText escape args)).1)

/-- Where an address goes up to its query. Without a scheme, the app takes it for HTTPS. -/
def frontRead (address : Text) : Text :=
  if hasExplicitScheme address then (CurlRules.target address).1
  else units "https://" ++ (CurlRules.target address).1

/-- Where the request goes to the address curl sends to: its globbing makes one address of it, and
that one is the app's up to its query, and in it. -/
def AddressGoes (glob : Text → List Text) (escape : Text → Text) (args : List CurlArgument) :
    Prop :=
  let address := (CurlRules.addresses args).headD []
  ∃ one, glob address = [one] ∧
    frontRead address = (CurlRules.target (CurlRules.withScheme one)).1 ∧
    queryRead args = querySent escape args one

theorem target_urlRead :
    CurlRules.target (urlRead args) =
      ((CurlRules.target ((CurlRules.addresses args).headD [])).1, queryRead args) := by
  rw [urlRead, queryRead]
  by_cases hempty : movedRead args = []
  · rw [if_neg (not_not.mpr hempty), if_pos (.inr hempty)]
  · rw [if_pos hempty, target_extended]
    by_cases hfragment : 0x23 ∈ (CurlRules.addresses args).headD []
    · rw [if_pos hfragment, if_pos (.inl hfragment)]
    · rw [if_neg hfragment, if_neg (not_or.mpr ⟨hfragment, hempty⟩)]

theorem not_mem_schemes : (0x3F ∉ units "https://" ∧ 0x23 ∉ units "https://") ∧
    0x3F ∉ units "http://" ∧ 0x23 ∉ units "http://" := by
  decide

/-- A scheme that is added is no part of the query. -/
theorem target_withScheme_snd (one : Text) :
    (CurlRules.target (CurlRules.withScheme one)).2 = (CurlRules.target one).2 := by
  rw [CurlRules.withScheme]
  split_ifs
  · rfl
  · rw [target_append not_mem_schemes.2.1 not_mem_schemes.2.2]

theorem sentTarget_eq (one : Text) :
    CurlRules.sentTarget escape args one =
      ((CurlRules.target (CurlRules.withScheme one)).1, querySent escape args one) := by
  rw [CurlRules.sentTarget, querySent]
  by_cases hnone : CurlRules.movedText escape args = []
  · rw [if_neg (not_not.mpr hnone), if_pos hnone, ← target_withScheme_snd one]
  · rw [if_pos hnone, if_neg hnone, target_addQuery, target_withScheme_snd]

/-- The address is the one curl sends to exactly where it goes there. -/
theorem target_iff
    (hfile : ∀ text, .dataUrlencode text ∈ args → 0x3D ∈ text ∨ 0x40 ∉ text)
    (haddress : ∀ c ∈ (CurlRules.addresses args).headD [], isWhite c = false)
    (hmoved : ∀ c ∈ CurlRules.movedText escape args, isWhite c = false) :
    (glob ((CurlRules.addresses args).headD [])).map (CurlRules.sentTarget escape args) =
        [CurlRules.target (normalizeUrl (trim (urlRead args)))] ↔
      AddressGoes glob escape args := by
  have hread := no_white_movedRead hfile hmoved
  have hunits : units "?" = [0x3F] ∧ units "&" = [0x26] := by decide
  -- What the import writes is trimmed as it is: nothing in it is white space.
  have hwhite : ∀ c ∈ urlRead args, isWhite c = false := by
    rw [urlRead]
    split_ifs with hsome hquery
    · intro c hc
      simp only [List.mem_append, hunits.2, List.mem_singleton] at hc
      rcases hc with (hc | rfl) | hc
      · exact haddress c hc
      · decide
      · exact hread c hc
    · intro c hc
      simp only [List.mem_append, hunits.1, List.mem_singleton] at hc
      rcases hc with (hc | rfl) | hc
      · exact haddress c hc
      · decide
      · exact hread c hc
    · exact haddress
  -- What is moved behind the address does not change its scheme.
  have hscheme : hasExplicitScheme (urlRead args) =
      hasExplicitScheme ((CurlRules.addresses args).headD []) := by
    rw [urlRead]
    split_ifs with hsome hquery
    · rw [hunits.2, List.append_assoc]
      exact hasExplicitScheme_append (.inr rfl) _ _
    · rw [hunits.1, List.append_assoc]
      exact hasExplicitScheme_append (.inl rfl) _ _
    · rfl
  have htarget : CurlRules.target (normalizeUrl (trim (urlRead args))) =
      (frontRead ((CurlRules.addresses args).headD []), queryRead args) := by
    rw [normalizeUrl_trim hwhite, hscheme, frontRead]
    split_ifs
    · exact target_urlRead
    · rw [target_append not_mem_schemes.1.1 not_mem_schemes.1.2, target_urlRead]
  -- Both sides are of the one address the globbing makes.
  rw [htarget, AddressGoes, List.map_eq_singleton_iff]
  apply exists_congr
  intro one
  rw [sentTarget_eq, Prod.mk.injEq, eq_comm (a := frontRead _), eq_comm (a := queryRead args)]

/-! ## An address without the marks of globbing -/

/-- Where data that is moved goes into the query as curl puts it there: neither behind a fragment,
nor to a query that is empty or ends in an ampersand. -/
def QueryGoes (escape : Text → Text) (args : List CurlArgument) : Prop :=
  let address := (CurlRules.addresses args).headD []
  let moved := (cutAt 0x23 (CurlRules.movedText escape args)).1
  if 0x23 ∈ address ∨ movedRead args = [] then
    moved = [] ∧ ∃ query, (CurlRules.target address).2 = some query ∧
      (query = [] ∨ (units "&").isSuffixOf query = true)
  else
    moved = (match (CurlRules.target address).2 with
      | some query => if query = [] ∨ (units "&").isSuffixOf query then units "&" else []
      | none => []) ++ (cutAt 0x23 (movedRead args)).1

/-- What is joined to a query, against what curl joins to it. -/
theorem query_iff {query : Option Text} {read moved : Text} :
    (query.map (· ++ units "&")).getD [] ++ read = queryFront query ++ moved ↔
      moved = (match query with
        | some query => if query = [] ∨ (units "&").isSuffixOf query then units "&" else []
        | none => []) ++ read := by
  cases query with
  | none => exact eq_comm
  | some query =>
      rw [Option.map_some, Option.getD_some, queryFront]
      dsimp only
      split_ifs
      · rw [List.append_assoc, List.append_cancel_left_eq]
        exact eq_comm
      · rw [List.append_cancel_left_eq]
        exact eq_comm

/-- A query that nothing is joined to, against what curl joins to it. -/
theorem query_same_iff {query : Option Text} {moved : Text} :
    query = some (queryFront query ++ moved) ↔
      moved = [] ∧ ∃ own, query = some own ∧ (own = [] ∨ (units "&").isSuffixOf own = true) := by
  cases query with
  | none => simp
  | some query =>
      rw [queryFront]
      by_cases hends : query = [] ∨ (units "&").isSuffixOf query = true
      · rw [if_pos hends]
        simp only [Option.some.injEq, List.self_eq_append_right, exists_eq_left', hends, and_true]
      · rw [if_neg hends]
        have hunits : units "&" = [0x26] := by decide
        simp only [Option.some.injEq, exists_eq_left', hends, and_false, iff_false]
        intro hsame
        have hlength := congrArg List.length hsame
        simp [hunits] at hlength

/-- The app's query of an address is curl's of the same exactly where what is moved goes into it. -/
theorem queryRead_eq_iff (hescape : CurlRules.Escapes escape)
    (hfile : ∀ text, .dataUrlencode text ∈ args → 0x3D ∈ text ∨ 0x40 ∉ text) :
    queryRead args = querySent escape args ((CurlRules.addresses args).headD []) ↔
      (CurlRules.movedText escape args ≠ [] → QueryGoes escape args) := by
  rw [queryRead, querySent, QueryGoes]
  by_cases hnone : CurlRules.movedText escape args = []
  · have hempty := movedRead_eq_nil hescape hfile hnone
    simp [hnone, hempty]
  · simp only [ne_eq, hnone, not_false_eq_true, true_imp_iff, if_false]
    by_cases hkept : 0x23 ∈ (CurlRules.addresses args).headD [] ∨ movedRead args = []
    · rw [if_pos hkept, if_pos hkept]
      exact query_same_iff
    · rw [if_neg hkept, if_neg hkept, Option.some.injEq]
      exact query_iff

/-- The app's address is curl's up to the query exactly where it names the scheme of HTTP. -/
theorem frontRead_eq_iff (address : Text) :
    frontRead address = (CurlRules.target (CurlRules.withScheme address)).1 ↔
      hasExplicitScheme address = true := by
  have hlength : (units "https://").length = 8 ∧ (units "http://").length = 7 := by decide
  rw [frontRead, CurlRules.withScheme, CurlRules.namesScheme]
  by_cases hexplicit : hasExplicitScheme address = true
  · simp [hexplicit]
  · rw [if_neg hexplicit, iff_false_right hexplicit]
    intro hsame
    have hlengths := congrArg List.length hsame
    split_ifs at hlengths
    · rw [List.length_append] at hlengths
      omega
    · rw [target_append not_mem_schemes.2.1 not_mem_schemes.2.2, List.length_append,
        List.length_append] at hlengths
      omega

/-- An address without a mark of globbing goes where curl sends exactly where it names the scheme of
HTTP, and what is moved goes into its query. -/
theorem addressGoes_iff_of_plain (hglob : CurlRules.Globs glob) (hescape : CurlRules.Escapes escape)
    (hfile : ∀ text, .dataUrlencode text ∈ args → 0x3D ∈ text ∨ 0x40 ∉ text)
    (hplain : ∀ mark ∈ CurlRules.globMarks, mark ∉ (CurlRules.addresses args).headD []) :
    AddressGoes glob escape args ↔
      hasExplicitScheme ((CurlRules.addresses args).headD []) = true ∧
        (CurlRules.movedText escape args ≠ [] → QueryGoes escape args) := by
  rw [AddressGoes, hglob.plain _ hplain, ← frontRead_eq_iff, ← queryRead_eq_iff hescape hfile]
  simp

/-- An address with items in braces does not go where curl sends, which is to each of them. -/
theorem not_addressGoes_of_items (hglob : CurlRules.Globs glob) {front rest : Text}
    {items : List Text} (hitems : 2 ≤ items.length)
    (hplain : ∀ text ∈ front :: rest :: items, ∀ mark ∈ 0x2C :: CurlRules.globMarks, mark ∉ text)
    (h : (CurlRules.addresses args).headD [] =
      front ++ units "\x7b" ++ joinWith (units ",") items ++ units "\x7d" ++ rest) :
    ¬ AddressGoes glob escape args := by
  rw [AddressGoes, h]
  rintro ⟨one, hone, -⟩
  exact hglob.items front items rest hitems hplain (by rw [hone]; rfl)

/-- Nor does one with numbers in brackets. -/
theorem not_addressGoes_of_numbers (hglob : CurlRules.Globs glob) {front rest : Text}
    {first last : Nat} (hnumbers : first < last)
    (hplain : ∀ text ∈ [front, rest], ∀ mark ∈ CurlRules.globMarks, mark ∉ text)
    (h : (CurlRules.addresses args).headD [] =
      front ++ units "[" ++ units (toString first) ++ units "-" ++ units (toString last) ++
        units "]" ++ rest) :
    ¬ AddressGoes glob escape args := by
  rw [AddressGoes, h]
  rintro ⟨one, hone, -⟩
  exact hglob.numbers front rest first last hnumbers hplain (by rw [hone]; rfl)

end CurlSends

end Wayfarer
