import Wayfarer.Library.Form
import Wayfarer.Send.Composed
import Wayfarer.Send.Transmit

/-!
# The address that goes out

The resolved address is sent as it is written: its tabs and line breaks encoded, a scheme in front.
An API key for the query goes through the platform's list of parameters, which reads the query as a
form and writes all of it anew.

`address_asWritten_iff` says when the key is one pair behind the query as it was: when the query is
one that a form is written as. `rewritten_query` is an address whose query is another one after it.
-/

set_option autoImplicit false

namespace Wayfarer

open Library

/-! ## One pair behind a query -/

/-- What is sent is the query, character for character, with one pair behind it that a form reads as
the given one. -/
def OnePairBehind (query sent : Text) (pair : Text × Text) : Prop :=
  ∃ piece, 0x26 ∉ piece ∧ formParse piece = [pair] ∧
    (sent = query ++ 0x26 :: piece ∨
      (query = [] ∨ query.getLast? = some 0x26) ∧ sent = query ++ piece)

/-- A query that a form is written as, also with an ampersand behind its last pair. -/
def FormWritten (query : Text) : Prop :=
  ∃ pairs, query = formSerialize pairs ∨ pairs ≠ [] ∧ query = formSerialize pairs ++ [0x26]

/-- A list is cut at the last of its separators in one way. -/
theorem append_cons_inj {α : Type} {sep : α} {a b c d : List α} (hb : sep ∉ b) (hd : sep ∉ d)
    (h : a ++ sep :: b = c ++ sep :: d) : a = c ∧ b = d := by
  rcases List.append_eq_append_iff.mp h with ⟨m, rfl, hm⟩ | ⟨m, rfl, hm⟩
  · cases m with
    | nil =>
        rw [List.nil_append] at hm
        exact ⟨(List.append_nil a).symm, (List.cons.inj hm).2⟩
    | cons x m =>
        obtain ⟨-, rfl⟩ := List.cons.inj hm
        exact absurd (List.mem_append_right m List.mem_cons_self) hb
  · cases m with
    | nil =>
        rw [List.nil_append] at hm
        exact ⟨List.append_nil c, ((List.cons.inj hm).2).symm⟩
    | cons x m =>
        obtain ⟨-, rfl⟩ := List.cons.inj hm
        exact absurd (List.mem_append_right m List.mem_cons_self) hd

/-- A pair more in a form is written behind an ampersand. -/
theorem formSerialize_concat {pairs : List (Text × Text)} (h : pairs ≠ []) (pair : Text × Text) :
    formSerialize (pairs ++ [pair]) = formSerialize pairs ++ 0x26 :: formPair pair := by
  have hunits : units "&" = [0x26] := rfl
  rw [formSerialize, formSerialize, hunits, joinWith, joinWith, List.map_append, List.map_singleton]
  induction pairs with
  | nil => exact absurd rfl h
  | cons first rest ih =>
      cases rest with
      | nil => simp
      | cons next rest =>
          have hrest := ih (List.cons_ne_nil next rest)
          rw [List.map_cons, List.map_cons, List.cons_append, List.cons_append,
            List.intercalate_cons_cons, List.intercalate_cons_cons]
          rw [List.map_cons, List.cons_append] at hrest
          rw [hrest]
          simp only [List.append_assoc]

theorem formSerialize_singleton (pair : Text × Text) : formSerialize [pair] = formPair pair := by
  rw [formSerialize, joinWith, List.map_singleton, List.intercalate_singleton]

theorem not_mem_formPair (pair : Text × Text) : 0x26 ∉ formPair pair := by
  have hunits : units "=" = [0x3D] := rfl
  have hname := (not_mem_formText pair.1).1
  have hvalue := (not_mem_formText pair.2).1
  rw [formPair, hunits]
  simp [hname, hvalue]

theorem formParse_formPair (pair : Text × Text) : formParse (formPair pair) = [scrubPair pair] := by
  rw [← formSerialize_singleton, formParse_formSerialize]
  rfl

/-- The list of parameters writes one pair behind the query exactly when the query is one that a
form is written as, and the pair has no lone surrogate. -/
theorem onePairBehind_iff (query : Text) (pair : Text × Text) :
    OnePairBehind query (formSerialize (formParse query ++ [pair])) pair ↔
      FormWritten query ∧ scrubPair pair = pair := by
  constructor
  · rintro ⟨piece, hpiece, hparse, hsent⟩
    -- What stands before the last ampersand was written of the query's pairs.
    have hlast : ∀ {front : Text},
        formSerialize (formParse query ++ [pair]) = front ++ 0x26 :: piece →
        formParse query ≠ [] ∧ formSerialize (formParse query) = front ∧ formPair pair = piece := by
      intro front hfront
      have hsome : formParse query ≠ [] := by
        intro hnone
        rw [hnone, List.nil_append, formSerialize_singleton] at hfront
        exact not_mem_formPair pair (hfront ▸ List.mem_append_right front List.mem_cons_self)
      rw [formSerialize_concat hsome] at hfront
      exact ⟨hsome, append_cons_inj (not_mem_formPair pair) hpiece hfront⟩
    have hread : ∀ {t : Text}, formPair pair = t → formParse t = [pair] →
        scrubPair pair = pair := by
      rintro t rfl ht
      rw [formParse_formPair] at ht
      exact (List.cons.inj ht).1
    rcases hsent with hsent | ⟨hend, hsent⟩
    · obtain ⟨-, hquery, rfl⟩ := hlast hsent
      exact ⟨⟨formParse query, Or.inl hquery.symm⟩, hread rfl hparse⟩
    · rcases hend with rfl | hend
      · have hsingle : formSerialize (formParse [] ++ [pair]) = formPair pair :=
          formSerialize_singleton pair
        rw [hsingle, List.nil_append] at hsent
        exact ⟨⟨[], Or.inl rfl⟩, hread hsent hparse⟩
      · obtain ⟨front, rfl⟩ : ∃ front, query = front ++ [0x26] :=
          ⟨query.dropLast, (List.dropLast_append_getLast? _ hend).symm⟩
        rw [List.append_assoc, List.singleton_append] at hsent
        obtain ⟨hsome, hquery, rfl⟩ := hlast hsent
        refine ⟨⟨formParse (front ++ [0x26]), Or.inr ⟨hsome, ?_⟩⟩, hread rfl hparse⟩
        rw [hquery]
  · rintro ⟨⟨pairs, hquery⟩, hpair⟩
    refine ⟨formPair pair, not_mem_formPair pair, by rw [formParse_formPair, hpair], ?_⟩
    have hwritten : ∀ {read : List (Text × Text)}, read = pairs.map scrubPair → pairs ≠ [] →
        formSerialize (read ++ [pair]) = formSerialize pairs ++ 0x26 :: formPair pair := by
      rintro read rfl hsome
      have hmap : pairs.map scrubPair ≠ [] := fun h => hsome (List.map_eq_nil_iff.mp h)
      rw [formSerialize_concat hmap, formSerialize_map_scrubPair]
    rcases hquery with rfl | ⟨hsome, rfl⟩
    · by_cases hnone : pairs = []
      · subst hnone
        exact Or.inr ⟨Or.inl rfl, formSerialize_singleton pair⟩
      · exact Or.inl (hwritten (formParse_formSerialize pairs) hnone)
    · have hread : formParse (formSerialize pairs ++ [0x26]) = pairs.map scrubPair := by
        rw [formParse_append, formParse_formSerialize]
        exact List.append_nil _
      refine Or.inr ⟨Or.inr List.getLast?_concat, ?_⟩
      rw [hwritten hread hsome, List.append_assoc, List.singleton_append]

/-- A query is one that a form is written as exactly when a form writes it of the pairs it reads in
it, also with an ampersand behind. -/
theorem formWritten_iff (query : Text) :
    FormWritten query ↔ formSerialize (formParse query) = query ∨
      formParse query ≠ [] ∧ formSerialize (formParse query) ++ [0x26] = query := by
  constructor
  · rintro ⟨pairs, rfl | ⟨hsome, rfl⟩⟩
    · exact Or.inl (by rw [formParse_formSerialize, formSerialize_map_scrubPair])
    · have hread : formParse (formSerialize pairs ++ [0x26]) = pairs.map scrubPair := by
        rw [formParse_append, formParse_formSerialize]
        exact List.append_nil _
      rw [hread, formSerialize_map_scrubPair]
      exact Or.inr ⟨fun h => hsome (List.map_eq_nil_iff.mp h), rfl⟩
  · rintro (h | ⟨hsome, h⟩)
    · exact ⟨formParse query, Or.inl h.symm⟩
    · exact ⟨formParse query, Or.inr ⟨hsome, h.symm⟩⟩

instance (query : Text) : Decidable (FormWritten query) :=
  decidable_of_iff _ (formWritten_iff query).symm

/-! ## Reading an address -/

/-- The parts that a parser of addresses reads, as it writes them. -/
structure WebUrl where
  /-- The scheme, the credentials, the host and the port. -/
  front : Text
  path : Text
  query : Option Text
  fragment : Option Text
  deriving DecidableEq

/-- A part of an address behind its mark. -/
def behindMark (mark : String) : Option Text → Text
  | none => []
  | some part => units mark ++ part

/-- The address as it is written back. -/
def WebUrl.href (u : WebUrl) : Text :=
  u.front ++ u.path ++ behindMark "?" u.query ++ behindMark "#" u.fragment

/-- The platform reads addresses as `read` does: the pairs are those of a form in the query, and an
address that is written back with a form for its query is read as it was written. -/
structure ReadsAddresses (P : Platform) (read : Text → Option WebUrl) : Prop where
  record :
  ∀ t, (P.parseUrl t).map (fun parsed => (parsed.head, parsed.searchParams, parsed.fragment)) =
    (read t).map fun u => (u.front ++ u.path, formParse (u.query.getD []), u.fragment)
  again : ∀ t u pairs, read t = some u →
    read ({ u with query := some (formSerialize pairs) } : WebUrl).href =
      some { u with query := some (formSerialize pairs) }

/-- The address goes out as written: as the text, where no key goes into its query or it is
no URL; with the key, its path and its fragment are those of the text, and the key is one
pair behind its query. -/
def AsWritten (read : Text → Option WebUrl) (text : Text) (param : Option (Text × Text))
    (sent : Text) : Prop :=
  match param with
  | none => sent = text
  | some pair =>
      match read text with
      | none => sent = text
      | some before => ∃ after, read sent = some after ∧ after.path = before.path ∧
          after.fragment = before.fragment ∧
          OnePairBehind (before.query.getD []) (after.query.getD []) pair

/-- What the platform writes back with other pairs is the address with that form for its query. -/
theorem withQuery_eq {parsed : UrlRecord} {u : WebUrl} (hhead : parsed.head = u.front ++ u.path)
    (hfragment : parsed.fragment = u.fragment) (pairs : List (Text × Text)) :
    parsed.withQuery pairs = ({ u with query := some (formSerialize pairs) } : WebUrl).href := by
  rw [UrlRecord.withQuery, hhead, hfragment, WebUrl.href, List.append_assoc (u.front ++ u.path)]
  cases u.fragment with
  | none => rfl
  | some fragment => rfl

/-- The list of parameters keeps the address as written exactly under a condition on its
query and the pair. -/
theorem asWritten_appendQueryParam_iff {P : Platform} {read : Text → Option WebUrl}
    (hread : ReadsAddresses P read) (address : Text) (pair : Text × Text) :
    AsWritten read (normalizeUrl address) (some pair)
        (appendQueryParam P (normalizeUrl address) pair.1 pair.2) ↔
      ∀ before, read (normalizeUrl address) = some before →
        FormWritten (before.query.getD []) ∧ scrubPair pair = pair := by
  have hrecord := hread.record (normalizeUrl address)
  unfold AsWritten appendQueryParam
  rw [normalizeUrl_normalizeUrl]
  cases hbefore : read (normalizeUrl address) with
  | none =>
      rw [hbefore, Option.map_none, Option.map_eq_none_iff] at hrecord
      simp only [hrecord]
      exact ⟨fun _ _ h => (nomatch h), fun _ => trivial⟩
  | some before =>
      rw [hbefore, Option.map_some] at hrecord
      obtain ⟨parsed, hparsed, hparts⟩ := Option.map_eq_some_iff.mp hrecord
      obtain ⟨hhead, hrest⟩ := Prod.mk.inj hparts
      obtain ⟨hpairs, hfragment⟩ := Prod.mk.inj hrest
      have hagain := hread.again _ before (parsed.searchParams ++ [pair]) hbefore
      simp only [hparsed, withQuery_eq hhead hfragment, hagain, Option.some.injEq, forall_eq']
      rw [← onePairBehind_iff, ← hpairs]
      constructor
      · rintro ⟨after, rfl, -, -, h⟩
        exact h
      · exact fun h => ⟨_, rfl, rfl, rfl, h⟩

/-! ## The request that is sent -/

/-- For every request that is built, the address that is sent is made of the resolved text
of its address; it goes out as written exactly when no key goes into the query, or it is no
URL, or its query is one that a form is written as and neither the key's name nor its value
has a lone surrogate. -/
theorem address_asWritten_iff {P : Platform} {read : Text → Option WebUrl}
    (hread : ReadsAddresses P read) {content : RequestContent} {r : Resolver}
    {context : BuildContext} {draft : Draft} (hbuilt : checked P content r context = .ok draft) :
    (∃ f f', (r.resolve (trim content.url)).run f = .ok (draft.parts.address, f')) ∧
      (AsWritten read (normalizeUrl draft.parts.address) (buildAuthQueryParam draft.parts.auth)
          (draft.request P).url ↔
        ∀ pair before, buildAuthQueryParam draft.parts.auth = some pair →
          read (normalizeUrl draft.parts.address) = some before →
            FormWritten (before.query.getD []) ∧ scrubPair pair = pair) := by
  constructor
  · obtain ⟨auth, f₁, body, f₂, token, f₃, -, -, -, hrest⟩ :=
      resolveRequest_cases (resolveRequest_of_checked hbuilt)
    obtain ⟨g, haddress⟩ := resolveRest_address hrest
    exact ⟨g, _, haddress⟩
  · rw [Draft.request_url, ResolvedRequest.url]
    cases buildAuthQueryParam draft.parts.auth with
    | none => exact ⟨fun _ pair _ h => (nomatch h), fun _ => rfl⟩
    | some param =>
        rw [asWritten_appendQueryParam_iff hread]
        constructor
        · rintro h pair before ⟨⟩ hbefore
          exact h before hbefore
        · exact fun h before hbefore => h param before rfl hbefore

/-! ## A plain reader of addresses -/

/-- What follows the scheme of an address, cut into its parts. No character of it is escaped. -/
def plainParts (rest : Text) : WebUrl :=
  let host := plainHost rest
  let beforeFragment := cutAt 0x23 (rest.dropWhile fun c => !endsHost c)
  let beforeQuery := cutAt 0x3F beforeFragment.1
  { front := units "https://" ++ host
    path := if beforeQuery.1 = [] then units "/" else beforeQuery.1
    query := beforeQuery.2
    fragment := beforeFragment.2 }

/-- An `https` address with a host. -/
def readPlainWebUrl (t : Text) : Option WebUrl :=
  if (units "https://").isPrefixOf t ∧ plainHost (t.drop 8) ≠ [] then some (plainParts (t.drop 8))
  else none

/-- The plain platform, with queries and fragments. -/
def queryPlatform : Platform where
  parseUrl t := (readPlainWebUrl t).map fun u =>
    { plainRecord (t.drop 8) with
      head := u.front ++ u.path
      searchParams := formParse (u.query.getD [])
      fragment := u.fragment }
  parseJson := plainPlatform.parseJson
  toLowerCase := plainPlatform.toLowerCase
  toUpperCase := plainPlatform.toUpperCase
  toFixedSeconds := plainPlatform.toFixedSeconds
  subtle := true
  signV4 := plainPlatform.signV4

/-- The first character of what stands before a separator is that of the text,
and is no separator. -/
theorem head?_cutAt {sep c : CodeUnit} {t : Text} (h : (cutAt sep t).1.head? = some c) :
    t.head? = some c ∧ c ≠ sep := by
  cases t with
  | nil => cases h
  | cons d rest =>
      rw [cutAt] at h
      split_ifs at h with hsep
      · cases h
      · obtain rfl := Option.some.inj h
        exact ⟨rfl, hsep⟩

/-- The path of an address starts with a slash and holds no mark of another part. -/
theorem plainParts_path (rest : Text) :
    (plainParts rest).path.head? = some 0x2F ∧ 0x3F ∉ (plainParts rest).path ∧
      0x23 ∉ (plainParts rest).path := by
  rw [plainParts]
  dsimp only
  split_ifs with hempty
  · exact ⟨rfl, by decide, by decide⟩
  · refine ⟨?_, not_mem_cutAt 0x3F _, fun h => ?_⟩
    · obtain ⟨c, path, hpath⟩ := List.exists_cons_of_ne_nil hempty
      obtain ⟨hbefore, hmark⟩ := head?_cutAt (c := c) (by rw [hpath]; rfl)
      obtain ⟨htail, hsign⟩ := head?_cutAt hbefore
      have hends := List.head?_dropWhile_not (fun c => !endsHost c) rest
      rw [htail] at hends
      have hends : endsHost c = true := by simpa using hends
      simp only [endsHost, Bool.or_eq_true, decide_eq_true_eq] at hends
      rcases hends with (rfl | rfl) | rfl
      · rw [hpath]
        rfl
      · exact absurd rfl hmark
      · exact absurd rfl hsign
    · exact not_mem_cutAt 0x23 _ (mem_of_mem_cutAt (Or.inl h))

/-- An address that is put together of such parts is cut into them again. -/
theorem plainParts_append {host path query : Text} (fragment : Option Text)
    (hhost : ∀ c ∈ host, endsHost c = false) (hpath : path.head? = some 0x2F) (hmark : 0x3F ∉ path)
    (hsign : 0x23 ∉ path) (hquery : 0x23 ∉ query) :
    plainParts (host ++ (path ++ 0x3F :: query ++ behindMark "#" fragment)) =
      { front := units "https://" ++ host, path, query := some query, fragment } := by
  obtain ⟨more, rfl⟩ : ∃ more, path = 0x2F :: more := by
    cases path with
    | nil => cases hpath
    | cons c more => exact ⟨more, by rw [Option.some.inj hpath]⟩
  have hkept : ∀ c ∈ host, (!endsHost c) = true := fun c hc => by rw [hhost c hc]; rfl
  have hbefore : plainHost (host ++ (0x2F :: more ++ 0x3F :: query ++ behindMark "#" fragment)) =
      host := by
    rw [plainHost, List.takeWhile_append_of_pos hkept]
    exact List.append_nil host
  have hbehind : (host ++ (0x2F :: more ++ 0x3F :: query ++ behindMark "#" fragment)).dropWhile
      (fun c => !endsHost c) = 0x2F :: more ++ 0x3F :: query ++ behindMark "#" fragment := by
    rw [List.dropWhile_append_of_pos hkept]
    rfl
  have hfront : 0x23 ∉ (0x2F :: more ++ 0x3F :: query : Text) := by
    intro h
    rcases List.mem_append.mp h with h | h
    · exact hsign h
    · rcases List.mem_cons.mp h with h | h
      · exact absurd h (by decide)
      · exact hquery h
  have hcut : cutAt 0x23 (0x2F :: more ++ 0x3F :: query ++ behindMark "#" fragment) =
      (0x2F :: more ++ 0x3F :: query, fragment) := by
    cases fragment with
    | none =>
        rw [behindMark, List.append_nil]
        exact cutAt_of_not_mem hfront
    | some fragment => exact cutAt_append_cons hfront fragment
  rw [plainParts, hbefore, hbehind, hcut]
  dsimp only
  rw [cutAt_append_cons hmark, if_neg (List.cons_ne_nil _ _)]

theorem queryPlatform_reads : ReadsAddresses queryPlatform readPlainWebUrl where
  record t := by
    show ((readPlainWebUrl t).map _).map _ = _
    rw [Option.map_map]
    rfl
  again t u pairs hread := by
    rw [readPlainWebUrl] at hread
    split_ifs at hread with hplain
    obtain rfl := Option.some.inj hread
    obtain ⟨-, hhost⟩ := hplain
    obtain ⟨hpath, hmark, hsign⟩ := plainParts_path (t.drop 8)
    have hchars : ∀ c ∈ plainHost (t.drop 8), endsHost c = false :=
      fun c hc => by simpa using List.mem_takeWhile_imp hc
    have hquery : 0x23 ∉ formSerialize pairs :=
      not_mem_formSerialize (by decide) (by decide) (by decide) pairs
    have hparts :=
      plainParts_append (plainParts (t.drop 8)).fragment hchars hpath hmark hsign hquery
    have hhref :
        ({ plainParts (t.drop 8) with query := some (formSerialize pairs) } : WebUrl).href =
        units "https://" ++ (plainHost (t.drop 8) ++ ((plainParts (t.drop 8)).path ++
          0x3F :: formSerialize pairs ++ behindMark "#" (plainParts (t.drop 8)).fragment)) := by
      rw [WebUrl.href]
      simp only [plainParts, behindMark, List.append_assoc]
      rfl
    have hdrop : ∀ rest : Text, (units "https://" ++ rest).drop 8 = rest := fun _ => rfl
    have hagain : plainHost (plainHost (t.drop 8) ++ ((plainParts (t.drop 8)).path ++
        0x3F :: formSerialize pairs ++ behindMark "#" (plainParts (t.drop 8)).fragment)) ≠ [] := by
      have hfront := congrArg WebUrl.front hparts
      intro hnone
      rw [plainParts, hnone] at hfront
      exact hhost (List.append_cancel_left hfront).symm
    rw [hhref, readPlainWebUrl, hdrop, hparts, if_pos]
    · rfl
    · exact ⟨List.isPrefixOf_iff_prefix.mpr (List.prefix_append _ _), hagain⟩

/-! ## A query that is kept, and one that is not -/

/-- A request with an API key for its query. -/
def keyRequest (url : String) : RequestContent where
  method := units "GET"
  url := units url
  headers := []
  body := { mode := .none }
  auth := .apikey (units "key") (units "a&b") .query

/-- The request as it is built: it has no variables. -/
def keyDraft (url : String) : Draft where
  parts :=
    { method := units "GET"
      auth := .apikey (units "key") (units "a&b") .query
      headers := []
      address := units url
      body := none
      token := none
      lastEventId := none }
  findings := {}
  signature := none

/-- A query that a form is written as: the key is one pair behind it, in front of the fragment. -/
theorem formQuery_kept :
    AsWritten readPlainWebUrl (normalizeUrl (units "https://a.test/?q=red+shoes#top"))
      (some (units "key", units "a&b"))
      ((keyDraft "https://a.test/?q=red+shoes#top").request queryPlatform).url := by
  have hbuilt : checked queryPlatform (keyRequest "https://a.test/?q=red+shoes#top")
      (Resolver.new {}) loneContext = .ok (keyDraft "https://a.test/?q=red+shoes#top") := rfl
  refine (address_asWritten_iff queryPlatform_reads hbuilt).2.mpr ?_
  rintro pair before ⟨⟩ hbefore
  have hread : readPlainWebUrl (normalizeUrl (units "https://a.test/?q=red+shoes#top")) =
      some { front := units "https://a.test", path := units "/",
             query := some (units "q=red+shoes"), fragment := some (units "top") } := by
    decide
  obtain rfl := Option.some.inj (hread.symm.trans hbefore)
  exact ⟨by decide, by decide⟩

/-- An escaped space becomes a plus sign, and a name without a value gets an equals sign: what is
sent has another query than the address that was written. -/
theorem rewritten_query :
    checked queryPlatform (keyRequest "https://a.test/?q=red%20shoes&sale") (Resolver.new {})
        loneContext = .ok (keyDraft "https://a.test/?q=red%20shoes&sale") ∧
      ((keyDraft "https://a.test/?q=red%20shoes&sale").request queryPlatform).url =
        units "https://a.test/?q=red+shoes&sale=&key=a%26b" ∧
      ¬ AsWritten readPlainWebUrl (normalizeUrl (units "https://a.test/?q=red%20shoes&sale"))
        (some (units "key", units "a&b"))
        ((keyDraft "https://a.test/?q=red%20shoes&sale").request queryPlatform).url := by
  refine ⟨rfl, by decide, fun h => ?_⟩
  have hkept := (asWritten_appendQueryParam_iff queryPlatform_reads
    (units "https://a.test/?q=red%20shoes&sale") (units "key", units "a&b")).mp h
  have hread : readPlainWebUrl (normalizeUrl (units "https://a.test/?q=red%20shoes&sale")) =
      some { front := units "https://a.test", path := units "/",
             query := some (units "q=red%20shoes&sale"), fragment := none } := by
    decide
  exact absurd (hkept _ hread).1 (by decide)

end Wayfarer
