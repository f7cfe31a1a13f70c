import Wayfarer.Import.CollectionFile
import Wayfarer.Import.Curl
import Wayfarer.Library.Bytes
import Wayfarer.Library.Cut

/-!
# Share links

A collection's text goes into the fragment of a link, compressed and sealed under a key of its own.
`encodeShareLink` makes the link, `parseShareFragment` reads a fragment, and `openShareLink` opens
what was read with the code of the link or one that was typed.

`shareLink_safe` says that a link opens as what was put into it, and that of what is tried no other
data, no other code and no shorter or longer link gives a text, the other links that were made
apart.
-/

set_option autoImplicit false

namespace Wayfarer

open Library

/-! ## The link -/

def sharePrefix : Text := units "#share="

def keyParam : Text := units "key="

/-- The bytes of an IV. -/
def ivBytes : Nat := 12

/-- The bytes of the tag that a ciphertext ends with. -/
def tagBytes : Nat := 16

def shareCodeBytes : Nat := 32

/-- The longest address a link may be. -/
def shareLinkMaxBytes : Nat := 12 * 1024

def linkWrongCode : Text :=
  units "This code does not open the link. Check it with the person who sent it."

def linkDamaged : Text :=
  units ("This link is incomplete: it ends before the collection does. Ask for the whole link, " ++
    "or for a file.")

def linkNotCollection : Text :=
  units "This link does not hold a Wayfarer collection."

/-- A link's two parts: what goes after `#share=`, and the code that opens it. -/
structure ShareLink where
  data : Text
  code : Text

/-- What a link's fragment holds: the IV and the ciphertext, and the code where
it is in the link. -/
structure ShareFragment where
  sealedData : List UInt8
  code : Option Text

/-- What sealing uses of the page. -/
structure SharePlatform where
  /-- `JSON.parse`; `none` where it throws. -/
  parseJson : Text → Option Json
  /-- `deflate-raw`. -/
  deflate : List UInt8 → List UInt8
  /-- `deflate-raw` undone; `none` where it fails. -/
  inflate : List UInt8 → Option (List UInt8)
  /-- AES-GCM under a key and an IV. -/
  encrypt : List UInt8 → List UInt8 → List UInt8 → List UInt8
  /-- AES-GCM undone; `none` where its check fails. -/
  decrypt : List UInt8 → List UInt8 → List UInt8 → Option (List UInt8)

/-- The fragment of a link. -/
def shareFragment (link : ShareLink) (withCode : Bool) : Text :=
  sharePrefix ++ link.data ++ if withCode then units "&" ++ keyParam ++ link.code else []

/-- Whether an address's fragment is a link's. -/
def isShareFragment (hash : Text) : Bool :=
  sharePrefix.isPrefixOf hash

/-- A code as typed, without its white space. -/
def typedCode (text : Text) : Text :=
  text.filter fun c => !isWhite c

/-- A code grouped in fours. -/
def groupedCode : Text → Text
  | a :: b :: c :: d :: e :: rest =>
      if isLineTerminator a || isLineTerminator b || isLineTerminator c || isLineTerminator d ||
          isLineTerminator e then
        a :: groupedCode (b :: c :: d :: e :: rest)
      else a :: b :: c :: d :: 0x20 :: groupedCode (e :: rest)
  | t => t

/-- The bytes that are drawn for a link: its key and its IV. -/
structure LinkKey where
  raw : List UInt8
  iv : List UInt8
  raw_length : raw.length = shareCodeBytes
  iv_length : iv.length = ivBytes

/-- The data of a link: the IV, and the text compressed and sealed. -/
def sealText (P : SharePlatform) (key : LinkKey) (text : Text) : List UInt8 :=
  key.iv ++ P.encrypt key.raw key.iv (P.deflate (encodeUtf8Text text))

/-- A collection file's text sealed into a link. -/
def encodeShareLink (P : SharePlatform) (key : LinkKey) (text : Text) : ShareLink where
  data := toBase64Url (sealText P key text)
  code := toBase64Url key.raw

/-! ## Reading a fragment -/

/-- A text of base64url: one character at least. -/
def isBase64UrlText (t : Text) : Bool :=
  t ≠ [] && t.all isBase64Url

/-- The bytes of a base64url text. One character over a whole byte is refused. -/
def decoded (text : Text) : Option (List UInt8) :=
  if text.length % 4 = 1 then none else fromBase64Url text

/-- The bytes of a code, where it is written as they are. -/
def codeBytes (code : Text) : Option (List UInt8) :=
  if isBase64UrlText code then
    (decoded code).filter fun bytes => bytes.length = shareCodeBytes && toBase64Url bytes = code
  else none

/-- The sealed data of a fragment. -/
def readSealed (data : Text) : Except ImportError (List UInt8) :=
  if isBase64UrlText data then
    match decoded data with
    | none => refused linkDamaged
    | some bytes =>
        if bytes.length < ivBytes + tagBytes + 1 then refused linkDamaged else .ok bytes
  else refused linkDamaged

/-- A link's fragment, read. -/
def parseShareFragment (hash : Text) : Except ImportError ShareFragment :=
  if !isShareFragment hash || shareLinkMaxBytes < hash.length then refused linkNotCollection
  else
    match splitOn 0x26 (hash.drop sharePrefix.length) with
    | [data] =>
        match readSealed data with
        | .error e => .error e
        | .ok sealedData => .ok { sealedData, code := none }
    | [data, key] =>
        if keyParam.isPrefixOf key then
          match readSealed data with
          | .error e => .error e
          | .ok sealedData =>
              let code := key.drop keyParam.length
              if (codeBytes code).isSome then .ok { sealedData, code := some code }
              else refused linkDamaged
        else refused linkNotCollection
    | _ => refused linkNotCollection

/-! ## Opening a link -/

/-- The text that bytes are decompressed to, no more of them than a file to import may have. -/
def inflatedText (P : SharePlatform) (compressed : List UInt8) : Option Text :=
  ((P.inflate compressed).filter fun bytes => bytes.length ≤ maxImportBytes).bind decodeFatal

/-- A text that is a collection file. -/
def isCollectionJson (P : SharePlatform) (text : Text) : Bool :=
  match P.parseJson text with
  | some (.object value) => textOf (field value (units "$id")) = some collectionFormat
  | _ => false

/-- The collection file a link holds. The code is the fragment's, or the one the person typed. -/
def openShareLink (P : SharePlatform) (fragment : ShareFragment) (typed : Text) :
    Except ImportError Text :=
  let code := fragment.code.getD (typedCode typed)
  -- A code of the link that fails is the link's fault; a typed one, the code's.
  let failed := if fragment.code.getD [] = [] then linkWrongCode else linkDamaged
  match codeBytes code with
  | none => refused failed
  | some raw =>
      match P.decrypt raw (fragment.sealedData.take ivBytes) (fragment.sealedData.drop ivBytes) with
      | none => refused failed
      | some compressed =>
          match inflatedText P compressed with
          | none => refused linkNotCollection
          | some text =>
              if isCollectionJson P text then .ok text else refused linkNotCollection

/-- A fragment read and opened. -/
def openFragment (P : SharePlatform) (hash typed : Text) : Except ImportError Text :=
  match parseShareFragment hash with
  | .error e => .error e
  | .ok fragment => openShareLink P fragment typed

/-! ## What is assumed of the page -/

/-- Compression is undone by its inverse, gives a byte at least, and is never better than a block of
the format can be. -/
structure Compresses (P : SharePlatform) : Prop where
  inverse : ∀ bytes, P.inflate (P.deflate bytes) = some bytes
  ne_nil : ∀ bytes, P.deflate bytes ≠ []
  ratio : ∀ data bytes, P.inflate data = some bytes → bytes.length ≤ 1032 * data.length

/-- What the page does for a link, whatever its key and its text: AES-GCM adds a tag to what it
encrypts and is undone by its inverse, and JSON has no byte order mark. -/
structure SharePage (P : SharePlatform) : Prop where
  compresses : Compresses P
  length : ∀ (key : LinkKey) plain,
    (P.encrypt key.raw key.iv plain).length = plain.length + tagBytes
  opens : ∀ (key : LinkKey) plain,
    P.decrypt key.raw key.iv (P.encrypt key.raw key.iv plain) = some plain
  unmarked : ∀ rest, P.parseJson (0xFEFF :: rest) = none

/-- AES-GCM's authenticity: of the keys, IVs and ciphertexts that are tried, it opens those that
were sealed for the links that were made. Each of these has an IV drawn for it. -/
structure Authentic (P : SharePlatform) (made : List (LinkKey × Text))
    (tried : List UInt8 → List UInt8 → List UInt8 → Prop) : Prop where
  drawn : ∀ link ∈ made, ∀ other ∈ made, link.1.iv = other.1.iv → link = other
  unforged : ∀ raw iv sealedData, tried raw iv sealedData → P.decrypt raw iv sealedData ≠ none →
    ∃ link ∈ made, raw = link.1.raw ∧ iv = link.1.iv ∧
      sealedData = P.encrypt link.1.raw link.1.iv (P.deflate (encodeUtf8Text link.2))

/-- What opening a fragment tries: the key that is read, and the IV and the
ciphertext of the fragment. -/
def Tries (tried : List UInt8 → List UInt8 → List UInt8 → Prop) (hash typed : Text) : Prop :=
  ∀ fragment raw, parseShareFragment hash = .ok fragment →
    codeBytes (fragment.code.getD (typedCode typed)) = some raw →
    tried raw (fragment.sealedData.take ivBytes) (fragment.sealedData.drop ivBytes)

/-- A collection file's text: well-formed, as a file's is, and JSON with the format's name. -/
structure IsCollectionText (P : SharePlatform) (text : Text) : Prop where
  wellFormed : scrub text = text
  collection : isCollectionJson P text = true

/-! ## What a link promises -/

/-- A code with white space put into it. -/
inductive Spaced : Text → Text → Prop where
  | nil : Spaced [] []
  | char (c : CodeUnit) {code typed : Text} : Spaced code typed → Spaced (c :: code) (c :: typed)
  | white {w : CodeUnit} {code typed : Text} : isWhite w = true → Spaced code typed →
      Spaced code (w :: typed)

/-- No text is given. -/
def Fails (result : Except ImportError Text) : Prop :=
  ∃ e, result = .error e

/-- A fragment, with what is typed, has the data and the code of a link. -/
def IsLink (P : SharePlatform) (link : LinkKey × Text) (hash typed : Text) : Prop :=
  ∃ fragment, parseShareFragment hash = .ok fragment ∧
    fragment.sealedData = sealText P link.1 link.2 ∧
    fragment.code.getD (typedCode typed) = toBase64Url link.1.raw

/-- A link opens as what was put into it. -/
structure OpensAsMade (P : SharePlatform) (text : Text) (link : ShareLink) : Prop where
  /-- With its code in it, whatever is typed. -/
  withCode : IsCollectionText P text → (shareFragment link true).length ≤ shareLinkMaxBytes →
    ∀ typed, openFragment P (shareFragment link true) typed = .ok text
  /-- With its code typed, whatever white space is put into it. -/
  codeTyped : IsCollectionText P text → (shareFragment link false).length ≤ shareLinkMaxBytes →
    ∀ typed, Spaced link.code typed → openFragment P (shareFragment link false) typed = .ok text
  grouped : Spaced link.code (groupedCode link.code)

/-- Of what is tried, nothing but the links that were made gives a text. -/
structure Refuses (P : SharePlatform) (made : List (LinkKey × Text))
    (tried : List UInt8 → List UInt8 → List UInt8 → Prop) (link : ShareLink) : Prop where
  /-- Data or a code that differs from those of the links that were made. -/
  tampered : ∀ hash typed, Tries tried hash typed → (∀ other ∈ made, ¬ IsLink P other hash typed) →
    Fails (openFragment P hash typed)
  /-- One part more than the data and the code. -/
  longer : ∀ withCode more typed, ¬ (withCode = false ∧ more = keyParam ++ link.code) →
    Tries tried (shareFragment link withCode ++ 0x26 :: more) typed →
      Fails (openFragment P (shareFragment link withCode ++ 0x26 :: more) typed)
  /-- Data cut short. -/
  cutShort : ∀ withCode count typed, count < link.data.length →
    Tries tried (shareFragment { link with data := link.data.take count } withCode) typed →
      Fails
        (openFragment P (shareFragment { link with data := link.data.take count } withCode) typed)

/-! ## What was written -/

theorem separator_not_mem {bytes : List UInt8} : 0x26 ∉ toBase64Url bytes := by
  intro h
  exact absurd (isBase64Url_of_mem h) (by decide)

theorem decoded_toBase64Url (bytes : List UInt8) : decoded (toBase64Url bytes) = some bytes := by
  rw [decoded, if_neg (length_toBase64Url_mod bytes), fromBase64Url_toBase64Url]

theorem isBase64UrlText_toBase64Url {bytes : List UInt8} (h : bytes ≠ []) :
    isBase64UrlText (toBase64Url bytes) = true := by
  have hne : toBase64Url bytes ≠ [] := by
    intro hnil
    have hread := fromBase64Url_toBase64Url bytes
    rw [hnil] at hread
    exact h (Option.some.inj hread).symm
  rw [isBase64UrlText, Bool.and_eq_true, List.all_eq_true]
  exact ⟨decide_eq_true hne, fun c hc => isBase64Url_of_mem hc⟩

/-- The code of a link is read as the key it was made of. -/
theorem codeBytes_toBase64Url {bytes : List UInt8} (h : bytes.length = shareCodeBytes) :
    codeBytes (toBase64Url bytes) = some bytes := by
  have hne : bytes ≠ [] := by
    rintro rfl
    cases h
  rw [codeBytes, if_pos (isBase64UrlText_toBase64Url hne), decoded_toBase64Url]
  exact Option.filter_some_pos (by simp [h])

/-- A code is read only where it is written as its bytes are. -/
theorem eq_of_codeBytes {code : Text} {bytes : List UInt8} (h : codeBytes code = some bytes) :
    code = toBase64Url bytes := by
  rw [codeBytes] at h
  split_ifs at h
  obtain ⟨-, hbytes⟩ := Option.filter_eq_some_iff.mp h
  rw [Bool.and_eq_true] at hbytes
  exact (of_decide_eq_true hbytes.2).symm

/-- Of data that is read there is a byte for what its characters hold. -/
theorem length_of_readSealed {data : Text} {bytes : List UInt8} (h : readSealed data = .ok bytes) :
    bytes.length = data.length * 3 / 4 := by
  rw [readSealed] at h
  split_ifs at h with htext
  · cases hdecoded : decoded data with
    | none =>
        rw [hdecoded] at h
        cases h
    | some read =>
        rw [hdecoded] at h
        dsimp only at h
        split_ifs at h
        · cases h
        · cases h
          rw [isBase64UrlText, Bool.and_eq_true, List.all_eq_true] at htext
          rw [decoded] at hdecoded
          split_ifs at hdecoded
          exact length_fromBase64Url htext.2 hdecoded
  · cases h

/-! ## Fragments -/

theorem splitOn_eq_singleton {sep : CodeUnit} {t piece : Text} (h : splitOn sep t = [piece]) :
    t = piece ∧ sep ∉ piece := by
  have hjoin := joinWith_splitOn sep t
  rw [h, joinWith, List.intercalate_singleton] at hjoin
  exact ⟨hjoin.symm, (mem_splitOn (h ▸ List.mem_cons_self)).1⟩

theorem splitOn_eq_pair {sep : CodeUnit} {t a b : Text} (h : splitOn sep t = [a, b]) :
    t = a ++ sep :: b ∧ sep ∉ a ∧ sep ∉ b := by
  have hjoin := joinWith_splitOn sep t
  rw [h, joinWith, List.intercalate_cons_cons, List.intercalate_singleton, List.append_assoc]
    at hjoin
  exact ⟨hjoin.symm, (mem_splitOn (h ▸ List.mem_cons_self)).1,
    (mem_splitOn (h ▸ List.mem_cons_of_mem _ List.mem_cons_self)).1⟩

/-- A text is cut at its first separator in one way. -/
theorem append_sep_inj {sep : CodeUnit} {a a' b b' : Text} (ha : sep ∉ a) (ha' : sep ∉ a')
    (h : a ++ sep :: b = a' ++ sep :: b') : a = a' ∧ b = b' := by
  have hcut := cutAt_append_cons ha b
  rw [h, cutAt_append_cons ha' b'] at hcut
  obtain ⟨hfront, hafter⟩ := Prod.mk.inj hcut
  exact ⟨hfront.symm, (Option.some.inj hafter).symm⟩

/-- What the fragments that are read look like. -/
theorem eq_of_parse {hash : Text} {fragment : ShareFragment}
    (h : parseShareFragment hash = .ok fragment) :
    ∃ data, 0x26 ∉ data ∧ readSealed data = .ok fragment.sealedData ∧
      ((fragment.code = none ∧ hash = sharePrefix ++ data) ∨
        ∃ code, 0x26 ∉ code ∧ fragment.code = some code ∧
          hash = sharePrefix ++ (data ++ 0x26 :: (keyParam ++ code))) := by
  rw [parseShareFragment] at h
  split_ifs at h with hrefused
  · cases h
  · rw [Bool.or_eq_true, not_or, Bool.not_eq_true', isShareFragment, Bool.not_eq_false] at hrefused
    obtain ⟨rest, rfl⟩ := List.isPrefixOf_iff_prefix.mp hrefused.1
    rw [List.drop_left] at h
    split at h
    · next data hsplit =>
        obtain ⟨rfl, hdata⟩ := splitOn_eq_singleton hsplit
        cases hsealed : readSealed rest with
        | error e => rw [hsealed] at h; cases h
        | ok sealedData =>
            rw [hsealed] at h
            cases h
            exact ⟨rest, hdata, hsealed, .inl ⟨rfl, rfl⟩⟩
    · next data key hsplit =>
        obtain ⟨rfl, hdata, hkey⟩ := splitOn_eq_pair hsplit
        split_ifs at h with hparam
        · obtain ⟨code, rfl⟩ := List.isPrefixOf_iff_prefix.mp hparam
          rw [List.drop_left] at h
          cases hsealed : readSealed data with
          | error e => rw [hsealed] at h; cases h
          | ok sealedData =>
              rw [hsealed] at h
              dsimp only at h
              split_ifs at h
              · cases h
                exact ⟨data, hdata, hsealed, .inr ⟨code,
                  fun hmem => hkey (List.mem_append_right _ hmem), rfl, rfl⟩⟩
              · cases h
        · cases h
    · cases h

/-! ## Opening what was made -/

section Made

variable {P : SharePlatform} (h : SharePage P) {key : LinkKey} {text : Text}
include h

theorem length_sealText (key : LinkKey) (text : Text) :
    (sealText P key text).length =
      ivBytes + ((P.deflate (encodeUtf8Text text)).length + tagBytes) := by
  rw [sealText, List.length_append, key.iv_length, h.length]

omit h in
theorem take_sealText : (sealText P key text).take ivBytes = key.iv := by
  rw [sealText, ← key.iv_length, List.take_left]

omit h in
theorem drop_sealText : (sealText P key text).drop ivBytes =
    P.encrypt key.raw key.iv (P.deflate (encodeUtf8Text text)) := by
  rw [sealText, ← key.iv_length, List.drop_left]

/-- The data of a link is read. -/
theorem readSealed_sealText (key : LinkKey) (text : Text) :
    readSealed (toBase64Url (sealText P key text)) = .ok (sealText P key text) := by
  have hlength := length_sealText h key text
  have hpos := List.length_pos_iff.mpr (h.compresses.ne_nil (encodeUtf8Text text))
  have hne : sealText P key text ≠ [] := by
    intro hnil
    rw [hnil, List.length_nil, ivBytes] at hlength
    omega
  rw [readSealed, if_pos (isBase64UrlText_toBase64Url hne), decoded_toBase64Url]
  exact if_neg (by omega)

/-- Within the limit the text is read to its end. -/
theorem inflatedText_deflate (htext : IsCollectionText P text)
    (hlength : (toBase64Url (sealText P key text)).length ≤ shareLinkMaxBytes) :
    inflatedText P (P.deflate (encodeUtf8Text text)) = some text := by
  have hbytes := length_of_readSealed (readSealed_sealText h key text)
  rw [length_sealText h] at hbytes
  have hratio := h.compresses.ratio _ _ (h.compresses.inverse (encodeUtf8Text text))
  have hlimit : (encodeUtf8Text text).length ≤ maxImportBytes := by
    rw [maxImportBytes]
    rw [shareLinkMaxBytes] at hlength
    rw [ivBytes, tagBytes] at hbytes
    omega
  have hmark : withoutByteOrderMark text = text := by
    rw [withoutByteOrderMark.eq_def]
    split
    · next rest =>
        have hcollection := htext.collection
        rw [isCollectionJson, h.unmarked rest] at hcollection
        cases hcollection
    · rfl
  rw [inflatedText, h.compresses.inverse, Option.filter_some_pos (by simpa using hlimit),
    Option.bind_some, decodeFatal_encodeUtf8Text htext.wellFormed, hmark]

/-- The data of a link and its code open it. -/
theorem openShareLink_made (htext : IsCollectionText P text)
    (hlength : (toBase64Url (sealText P key text)).length ≤ shareLinkMaxBytes)
    {code : Option Text} {typed : Text}
    (hcode : code.getD (typedCode typed) = toBase64Url key.raw) :
    openShareLink P { sealedData := sealText P key text, code } typed = .ok text := by
  simp only [openShareLink, hcode, codeBytes_toBase64Url key.raw_length, take_sealText,
    drop_sealText, h.opens, inflatedText_deflate h htext hlength, if_pos htext.collection]

end Made

/-! ## Opening what is tried -/

section Tried

variable {P : SharePlatform} {made : List (LinkKey × Text)}
variable {tried : List UInt8 → List UInt8 → List UInt8 → Prop}

theorem fails_of_forall {result : Except ImportError Text} (h : ∀ text, result ≠ .ok text) :
    Fails result := by
  cases result with
  | error e => exact ⟨e, rfl⟩
  | ok text => exact absurd rfl (h text)

/-- What opens has the data and the code of a link that was made. -/
theorem made_of_openFragment (h : Authentic P made tried) {hash typed opened : Text}
    (htries : Tries tried hash typed) (hopened : openFragment P hash typed = .ok opened) :
    ∃ link ∈ made, IsLink P link hash typed := by
  rw [openFragment] at hopened
  cases hfragment : parseShareFragment hash with
  | error e =>
      rw [hfragment] at hopened
      cases hopened
  | ok fragment =>
      rw [hfragment] at hopened
      dsimp only at hopened
      rw [openShareLink] at hopened
      cases hraw : codeBytes (fragment.code.getD (typedCode typed)) with
      | none =>
          rw [hraw] at hopened
          cases hopened
      | some raw =>
          rw [hraw] at hopened
          dsimp only at hopened
          cases hplain : P.decrypt raw (fragment.sealedData.take ivBytes)
              (fragment.sealedData.drop ivBytes) with
          | none =>
              rw [hplain] at hopened
              cases hopened
          | some plain =>
              obtain ⟨link, hlink, hkey, hiv, hsealed⟩ := h.unforged raw _ _
                (htries fragment raw hfragment hraw) (by rw [hplain]; exact Option.some_ne_none _)
              refine ⟨link, hlink, fragment, hfragment, ?_, ?_⟩
              · rw [sealText, ← hsealed, ← hiv, List.take_append_drop]
              · rw [eq_of_codeBytes hraw, hkey]

/-- What has no link's data and code is not opened. -/
theorem fails_unless_made (h : Authentic P made tried) {hash typed : Text}
    (htries : Tries tried hash typed) (hother : ∀ link ∈ made, ¬ IsLink P link hash typed) :
    Fails (openFragment P hash typed) := by
  refine fails_of_forall fun opened hopened => ?_
  obtain ⟨link, hlink, hthis⟩ := made_of_openFragment h htries hopened
  exact hother link hlink hthis

/-- A link that was made is known by the IV its data starts with. -/
theorem eq_of_isLink (h : Authentic P made tried) {link other : LinkKey × Text}
    (hlink : link ∈ made) (hother : other ∈ made) {hash typed : Text}
    (hthis : IsLink P other hash typed) {fragment : ShareFragment}
    (hfragment : parseShareFragment hash = .ok fragment)
    (hiv : fragment.sealedData.take ivBytes = link.1.iv) : other = link := by
  obtain ⟨read, hread, hsealed, -⟩ := hthis
  cases hfragment.symm.trans hread
  apply h.drawn other hother link hlink
  rw [← hiv, hsealed, take_sealText]

end Tried

/-! ## Codes that are typed -/

theorem typedCode_of_spaced {code typed : Text} (h : Spaced code typed)
    (hcode : ∀ c ∈ code, isWhite c = false) : typedCode typed = code := by
  induction h with
  | nil => rfl
  | char c hrest ih =>
      obtain ⟨hc, hothers⟩ := List.forall_mem_cons.mp hcode
      rw [typedCode, List.filter_cons_of_pos (by rw [hc]; rfl), ← typedCode, ih hothers]
  | white hw hrest ih =>
      rw [typedCode, List.filter_cons_of_neg (by rw [hw]; decide), ← typedCode, ih hcode]

theorem Spaced.refl (code : Text) : Spaced code code := by
  induction code with
  | nil => exact .nil
  | cons c code ih => exact .char c ih

/-- A code is shown with spaces in it. -/
theorem spaced_groupedCode (code : Text) : Spaced code (groupedCode code) := by
  induction code using groupedCode.induct with
  | case1 a b c d e rest hline ih =>
      rw [groupedCode, if_pos hline]
      exact .char a ih
  | case2 a b c d e rest hline ih =>
      rw [groupedCode, if_neg hline]
      exact .char a (.char b (.char c (.char d (.white (by decide) ih))))
  | case3 t hshort =>
      rw [groupedCode.eq_def]
      split
      · exact absurd rfl (hshort _ _ _ _ _ _)
      · exact Spaced.refl _

theorem not_white_of_mem_toBase64Url {bytes : List UInt8} {c : CodeUnit}
    (h : c ∈ toBase64Url bytes) : isWhite c = false := by
  have hall : ∀ w ∈ whiteSpace, isBase64Url w = false := by decide
  cases hwhite : isWhite c with
  | false => rfl
  | true =>
      have hmem : c ∈ whiteSpace := by
        rw [isWhite, List.contains_iff_mem] at hwhite
        exact hwhite
      have hother := hall c hmem
      rw [isBase64Url_of_mem h] at hother
      cases hother

/-! ## Links that were made -/

/-- A fragment of the data alone. -/
theorem parse_plain {data : Text} {sealedData : List UInt8} (hdata : 0x26 ∉ data)
    (hsealed : readSealed data = .ok sealedData)
    (hlength : (sharePrefix ++ data).length ≤ shareLinkMaxBytes) :
    parseShareFragment (sharePrefix ++ data) = .ok { sealedData, code := none } := by
  have hstarts : isShareFragment (sharePrefix ++ data) = true :=
    List.isPrefixOf_iff_prefix.mpr (List.prefix_append _ _)
  rw [parseShareFragment, if_neg, List.drop_left, splitOn_of_not_mem hdata]
  · simp only [hsealed]
  · rw [hstarts, Bool.not_true, Bool.false_or, decide_eq_true_eq]
    omega

/-- A fragment with the code in it. -/
theorem parse_coded {data code : Text} {sealedData : List UInt8} (hdata : 0x26 ∉ data)
    (hcode : 0x26 ∉ code) (hsealed : readSealed data = .ok sealedData)
    (hbytes : (codeBytes code).isSome = true)
    (hlength : (sharePrefix ++ (data ++ 0x26 :: (keyParam ++ code))).length ≤ shareLinkMaxBytes) :
    parseShareFragment (sharePrefix ++ (data ++ 0x26 :: (keyParam ++ code))) =
      .ok { sealedData, code := some code } := by
  have hstarts : isShareFragment (sharePrefix ++ (data ++ 0x26 :: (keyParam ++ code))) = true :=
    List.isPrefixOf_iff_prefix.mpr (List.prefix_append _ _)
  have hkey : 0x26 ∉ keyParam ++ code := by
    intro hmem
    rcases List.mem_append.mp hmem with hmem | hmem
    · exact absurd hmem (by decide)
    · exact hcode hmem
  have hparam : keyParam.isPrefixOf (keyParam ++ code) = true :=
    List.isPrefixOf_iff_prefix.mpr (List.prefix_append _ _)
  rw [parseShareFragment, if_neg, List.drop_left, splitOn_append_cons hdata,
    splitOn_of_not_mem hkey]
  · simp only [hparam, if_true, hsealed, List.drop_left, hbytes]
  · rw [hstarts, Bool.not_true, Bool.false_or, decide_eq_true_eq]
    omega

theorem shareFragment_false (link : ShareLink) :
    shareFragment link false = sharePrefix ++ link.data :=
  List.append_nil _

theorem shareFragment_true (link : ShareLink) :
    shareFragment link true = sharePrefix ++ (link.data ++ 0x26 :: (keyParam ++ link.code)) := by
  rw [shareFragment, List.append_assoc]
  rfl

theorem length_data_le {link : ShareLink} {withCode : Bool}
    (h : (shareFragment link withCode).length ≤ shareLinkMaxBytes) :
    link.data.length ≤ shareLinkMaxBytes := by
  rw [shareFragment, List.length_append, List.length_append] at h
  omega

/-- A part behind the data is a code, and the data is read. -/
theorem code_of_parse {data rest : Text} {fragment : ShareFragment} (hdata : 0x26 ∉ data)
    (h : parseShareFragment (sharePrefix ++ (data ++ 0x26 :: rest)) = .ok fragment) :
    readSealed data = .ok fragment.sealedData ∧
      ∃ code, 0x26 ∉ code ∧ fragment.code = some code ∧ rest = keyParam ++ code := by
  obtain ⟨data', hdata', hsealed, ⟨-, heq⟩ | ⟨code, hcode, hfragment, heq⟩⟩ := eq_of_parse h
  · rw [← List.append_cancel_left heq] at hdata'
    exact absurd (List.mem_append_right _ List.mem_cons_self) hdata'
  · obtain ⟨rfl, hrest⟩ := append_sep_inj hdata hdata' (List.append_cancel_left heq)
    exact ⟨hsealed, code, hcode, hfragment, hrest⟩

/-- The data that is read is what stands in front of the code. -/
theorem sealed_of_parse {link : ShareLink} {withCode : Bool} {fragment : ShareFragment}
    (hdata : 0x26 ∉ link.data)
    (h : parseShareFragment (shareFragment link withCode) = .ok fragment) :
    readSealed link.data = .ok fragment.sealedData := by
  obtain ⟨data', hdata', hsealed, hhash⟩ := eq_of_parse h
  cases withCode with
  | false =>
      rw [shareFragment_false] at hhash
      rcases hhash with ⟨-, heq⟩ | ⟨code', -, -, heq⟩
      · rwa [List.append_cancel_left heq]
      · rw [List.append_cancel_left heq] at hdata
        exact absurd (List.mem_append_right _ List.mem_cons_self) hdata
  | true =>
      rw [shareFragment_true] at hhash
      rcases hhash with ⟨-, heq⟩ | ⟨code', -, -, heq⟩
      · rw [← List.append_cancel_left heq] at hdata'
        exact absurd (List.mem_append_right _ List.mem_cons_self) hdata'
      · rwa [(append_sep_inj hdata hdata' (List.append_cancel_left heq)).1]

/-- With its code a link opens as the text that was put into it. -/
theorem opensAsMade {P : SharePlatform} (h : SharePage P) (key : LinkKey) (text : Text) :
    OpensAsMade P text (encodeShareLink P key text) where
  withCode htext hlength typed := by
    have hdata := length_data_le hlength
    rw [shareFragment_true] at hlength ⊢
    have hcode := codeBytes_toBase64Url key.raw_length
    have hparse := parse_coded separator_not_mem separator_not_mem (readSealed_sealText h key text)
      (Option.isSome_iff_exists.mpr ⟨_, hcode⟩) hlength
    rw [openFragment, encodeShareLink, hparse]
    exact openShareLink_made h htext hdata rfl
  codeTyped htext hlength typed htyped := by
    have hdata := length_data_le hlength
    rw [shareFragment_false] at hlength ⊢
    have hparse := parse_plain separator_not_mem (readSealed_sealText h key text) hlength
    rw [openFragment, encodeShareLink, hparse]
    exact openShareLink_made h htext hdata
      (typedCode_of_spaced htyped fun c hc => not_white_of_mem_toBase64Url hc)
  grouped := spaced_groupedCode _

/-- Data that is cut short starts as the whole does, and has fewer bytes. -/
theorem readSealed_take {P : SharePlatform} (h : SharePage P) {key : LinkKey} {text : Text}
    {count : Nat} {bytes : List UInt8} (hcount : count < (toBase64Url (sealText P key text)).length)
    (hread : readSealed ((toBase64Url (sealText P key text)).take count) = .ok bytes) :
    bytes.take ivBytes = key.iv ∧ bytes.length < (sealText P key text).length := by
  have hcut := length_of_readSealed hread
  have hwhole := length_of_readSealed (readSealed_sealText h key text)
  rw [List.length_take, Nat.min_eq_left hcount.le] at hcut
  rw [readSealed] at hread
  split_ifs at hread with htext
  · cases hdecoded : decoded ((toBase64Url (sealText P key text)).take count) with
    | none =>
        rw [hdecoded] at hread
        cases hread
    | some read =>
        rw [hdecoded] at hread
        dsimp only at hread
        split_ifs at hread with hshort
        · cases hread
        · cases hread
          rw [decoded] at hdecoded
          split_ifs at hdecoded with hmod
          rw [List.length_take, Nat.min_eq_left hcount.le] at hmod
          obtain ⟨rest, hrest⟩ := prefix_fromBase64Url_take (fun c => isBase64Url_of_mem)
            (fromBase64Url_toBase64Url (sealText P key text)) hdecoded
          constructor
          · have hiv : (sealText P key text).take ivBytes = key.iv := take_sealText
            rw [← hiv, ← hrest, List.take_append_of_le_length]
            rw [ivBytes, tagBytes] at hshort
            rw [ivBytes]
            omega
          · rw [hcut, hwhole]
            exact bytes_lt hcount hmod (length_toBase64Url_mod _)
  · cases hread

/-- A link opens as the text that was put into it, and of what is tried nothing but the links that
were made gives a text. -/
theorem shareLink_safe {P : SharePlatform} (h : SharePage P) (key : LinkKey) (text : Text) :
    OpensAsMade P text (encodeShareLink P key text) ∧
      ∀ made tried, Authentic P made tried → (key, text) ∈ made →
        Refuses P made tried (encodeShareLink P key text) := by
  refine ⟨opensAsMade h key text, fun made tried hauthentic hmade => ⟨?_, ?_, ?_⟩⟩
  · exact fun hash typed => fails_unless_made hauthentic
  · intro withCode more typed hmore htries
    apply fails_unless_made hauthentic htries
    intro other hother hthis
    obtain ⟨fragment, hparse, -, hcode⟩ := id hthis
    cases withCode with
    | false =>
        have hwhole := hparse
        rw [shareFragment_false, List.append_assoc] at hparse
        obtain ⟨hread, code, -, hfragment, rfl⟩ := code_of_parse separator_not_mem hparse
        -- The data is this link's, so the code of a link with it is this link's too.
        have hdata := Except.ok.inj ((readSealed_sealText h key text).symm.trans hread)
        cases eq_of_isLink hauthentic hmade hother hthis hwhole (hdata ▸ take_sealText)
        rw [hfragment, Option.getD_some] at hcode
        exact hmore ⟨rfl, congrArg _ hcode⟩
    | true =>
        rw [shareFragment_true, List.append_assoc, List.append_assoc, List.cons_append] at hparse
        obtain ⟨-, code, hcode, -, heq⟩ := code_of_parse separator_not_mem hparse
        -- The code that is read would hold a separator.
        rw [List.append_assoc] at heq
        rw [← List.append_cancel_left heq] at hcode
        exact absurd (List.mem_append_right _ List.mem_cons_self) hcode
  · intro withCode count typed hcount htries
    apply fails_unless_made hauthentic htries
    intro other hother hthis
    obtain ⟨fragment, hparse, hsealed, -⟩ := id hthis
    have hread := sealed_of_parse (fun hmem => separator_not_mem (List.mem_of_mem_take hmem)) hparse
    obtain ⟨hiv, hshort⟩ := readSealed_take h hcount hread
    cases eq_of_isLink hauthentic hmade hother hthis hparse hiv
    rw [hsealed] at hshort
    exact absurd hshort (Nat.lt_irrefl _)

/-- The smallest collection file, and one with no details. -/
def smallCollection : Text :=
  units "\x7b\"$id\":\"wayfarer/collection\"\x7d"

def bareCollection : Text :=
  units "\x7b\"$id\":\"wayfarer/collection\",\"meta\":\x7b\x7d\x7d"

/-- They are compressed to this. -/
def smallDeflated : List UInt8 :=
  [171, 86, 82, 201, 76, 81, 178, 82, 42, 79, 172, 76, 75, 44, 74, 45, 210, 79, 206, 207, 201, 73,
    77, 46, 201, 204, 207, 83, 170, 5, 0]

def bareDeflated : List UInt8 :=
  [171, 86, 82, 201, 76, 81, 178, 82, 42, 79, 172, 76, 75, 44, 74, 45, 210, 79, 206, 207, 201, 73,
    77, 46, 201, 204, 207, 83, 210, 81, 202, 77, 45, 73, 84, 178, 170, 174, 173, 5, 0]

def smallKey : LinkKey where
  raw := (List.range 32).map Nat.toUInt8
  iv := (List.range 12).map Nat.toUInt8
  raw_length := by decide
  iv_length := by decide

def bareKey : LinkKey where
  raw := (List.range' 32 32).map Nat.toUInt8
  iv := (List.range' 12 12).map Nat.toUInt8
  raw_length := by decide
  iv_length := by decide

/-- Each is sealed under its key to this. -/
def smallSealed : List UInt8 :=
  [236, 84, 132, 210, 137, 180, 112, 73, 167, 14, 59, 199, 250, 197, 50, 64, 81, 153, 73, 251,
    57, 50, 18, 82, 241, 171, 42, 214, 183, 108, 0, 160, 212, 197, 112, 4, 14, 69, 237, 71, 211,
    137, 168, 85, 159, 20, 250]

def bareSealed : List UInt8 :=
  [73, 108, 28, 252, 120, 108, 178, 237, 244, 26, 72, 184, 185, 249, 169, 234, 124, 217, 229,
    120, 2, 229, 212, 106, 110, 20, 112, 79, 249, 95, 66, 10, 194, 71, 84, 241, 213, 190, 187, 7,
    225, 35, 167, 106, 63, 27, 125, 69, 0, 173, 19, 192, 163, 80, 133, 230, 250]

/-- The last bytes are noughts, as many as a tag has. -/
def EndsInNoughts (data : List UInt8) : Prop :=
  data.drop (data.length - tagBytes) = List.replicate tagBytes 0

instance (data : List UInt8) : Decidable (EndsInNoughts data) :=
  inferInstanceAs (Decidable (_ = _))

/-- A page that two links were made on. What it was not asked for it compresses by a nought in
front, and encrypts by noughts behind. -/
def smallPlatform : SharePlatform where
  parseJson t :=
    if t = smallCollection then some (.object [(units "$id", .string collectionFormat)])
    else if t = bareCollection then
      some (.object [(units "$id", .string collectionFormat), (units "meta", .object [])])
    else none
  deflate bytes :=
    if bytes = encodeUtf8Text smallCollection then smallDeflated
    else if bytes = encodeUtf8Text bareCollection then bareDeflated
    else 0 :: bytes
  inflate
    | 0 :: bytes => some bytes
    | data =>
        if data = smallDeflated then some (encodeUtf8Text smallCollection)
        else if data = bareDeflated then some (encodeUtf8Text bareCollection)
        else none
  encrypt raw iv plain :=
    if raw = smallKey.raw ∧ iv = smallKey.iv ∧ plain = smallDeflated then smallSealed
    else if raw = bareKey.raw ∧ iv = bareKey.iv ∧ plain = bareDeflated then bareSealed
    else plain ++ List.replicate tagBytes 0
  decrypt raw iv data :=
    if raw = smallKey.raw ∧ iv = smallKey.iv ∧ data = smallSealed then some smallDeflated
    else if raw = bareKey.raw ∧ iv = bareKey.iv ∧ data = bareSealed then some bareDeflated
    else if EndsInNoughts data then some (data.take (data.length - tagBytes))
    else none

theorem deflate_smallCollection :
    smallPlatform.deflate (encodeUtf8Text smallCollection) = smallDeflated := by
  simp only [smallPlatform, if_true]

theorem deflate_bareCollection :
    smallPlatform.deflate (encodeUtf8Text bareCollection) = bareDeflated := by
  decide +kernel

theorem deflate_other {bytes : List UInt8} (hsmall : bytes ≠ encodeUtf8Text smallCollection)
    (hbare : bytes ≠ encodeUtf8Text bareCollection) : smallPlatform.deflate bytes = 0 :: bytes := by
  simp only [smallPlatform, if_neg hsmall, if_neg hbare]

theorem compresses_smallPlatform : Compresses smallPlatform where
  inverse bytes := by
    by_cases hsmall : bytes = encodeUtf8Text smallCollection
    · rw [hsmall, deflate_smallCollection]
      decide +kernel
    by_cases hbare : bytes = encodeUtf8Text bareCollection
    · rw [hbare, deflate_bareCollection]
      decide +kernel
    rw [deflate_other hsmall hbare]
    rfl
  ne_nil bytes := by
    by_cases hsmall : bytes = encodeUtf8Text smallCollection
    · rw [hsmall, deflate_smallCollection]
      exact List.cons_ne_nil _ _
    by_cases hbare : bytes = encodeUtf8Text bareCollection
    · rw [hbare, deflate_bareCollection]
      exact List.cons_ne_nil _ _
    rw [deflate_other hsmall hbare]
    exact List.cons_ne_nil _ _
  ratio data bytes h := by
    have hsmall : (encodeUtf8Text smallCollection).length ≤ 1032 * smallDeflated.length := by
      decide +kernel
    have hbare : (encodeUtf8Text bareCollection).length ≤ 1032 * bareDeflated.length := by
      decide +kernel
    simp only [smallPlatform] at h
    split at h
    · cases h
      rw [List.length_cons]
      omega
    · split_ifs at h with hdata hdata
      · rw [← Option.some.inj h, hdata]
        exact hsmall
      · rw [← Option.some.inj h, hdata]
        exact hbare

theorem endsInNoughts_append (plain : List UInt8) :
    EndsInNoughts (plain ++ List.replicate tagBytes 0) := by
  rw [EndsInNoughts, List.length_append, List.length_replicate, Nat.add_sub_cancel,
    List.drop_left]

theorem bareKey_ne_smallKey : bareKey.raw ≠ smallKey.raw := by
  decide

theorem sharePage_smallPlatform : SharePage smallPlatform where
  compresses := compresses_smallPlatform
  length key plain := by
    simp only [smallPlatform]
    split_ifs with hsmall hbare
    · rw [hsmall.2.2]
      decide
    · rw [hbare.2.2]
      decide
    · rw [List.length_append, List.length_replicate]
  opens key plain := by
    by_cases hsmall : key.raw = smallKey.raw ∧ key.iv = smallKey.iv ∧ plain = smallDeflated
    · simp only [smallPlatform, hsmall, and_self, if_true]
    by_cases hbare : key.raw = bareKey.raw ∧ key.iv = bareKey.iv ∧ plain = bareDeflated
    · simp only [smallPlatform, if_neg hsmall, if_pos hbare]
      rw [if_neg fun h => bareKey_ne_smallKey (hbare.1.symm.trans h.1),
        if_pos ⟨hbare.1, hbare.2.1, trivial⟩, hbare.2.2]
    have hpadded : ∀ data, ¬ EndsInNoughts data → plain ++ List.replicate tagBytes 0 ≠ data := by
      rintro data hdata rfl
      exact hdata (endsInNoughts_append plain)
    simp only [smallPlatform, if_neg hsmall, if_neg hbare]
    rw [if_neg fun h => hpadded smallSealed (by decide) h.2.2,
      if_neg fun h => hpadded bareSealed (by decide) h.2.2, if_pos (endsInNoughts_append plain),
      List.length_append, List.length_replicate, Nat.add_sub_cancel, List.take_left]
  unmarked rest := by
    have hhead : ∀ t : Text, t.head? ≠ some 0xFEFF → 0xFEFF :: rest ≠ t := by
      rintro t ht rfl
      exact ht rfl
    simp only [smallPlatform, if_neg (hhead smallCollection (by decide)),
      if_neg (hhead bareCollection (by decide))]

/-- The links that were made on the page. -/
def smallLinks : List (LinkKey × Text) :=
  [(smallKey, smallCollection), (bareKey, bareCollection)]

/-- What does not end in noughts it opens only where it was sealed for one of them. -/
theorem authentic_smallPlatform :
    Authentic smallPlatform smallLinks fun _ _ data => ¬ EndsInNoughts data where
  drawn link hlink other hother hiv := by
    have hne : smallKey.iv ≠ bareKey.iv := by decide
    rw [smallLinks, List.mem_pair] at hlink hother
    rcases hlink with rfl | rfl <;> rcases hother with rfl | rfl
    · rfl
    · exact absurd hiv hne
    · exact absurd hiv.symm hne
    · rfl
  unforged raw iv data hdata hopens := by
    simp only [smallPlatform] at hopens
    split_ifs at hopens with hsmall hbare
    · refine ⟨(smallKey, smallCollection), List.mem_cons_self, hsmall.1, hsmall.2.1, ?_⟩
      rw [deflate_smallCollection]
      simp only [smallPlatform, and_self, if_true]
      exact hsmall.2.2
    · refine ⟨(bareKey, bareCollection), List.mem_cons_of_mem _ List.mem_cons_self, hbare.1,
        hbare.2.1, ?_⟩
      rw [deflate_bareCollection]
      simp only [smallPlatform, if_neg fun h => bareKey_ne_smallKey (And.left h), and_self, if_true]
      exact hbare.2.2
    · exact absurd rfl hopens

/-- Two links, what they open as, and the data of the one with the code of the other. -/
theorem smallLink_safe :
    openFragment smallPlatform
      (units ("#share=AAECAwQFBgcICQoL7FSE0om0cEmnDjvH-sUyQFGZSfs5MhJS8asq1rds" ++
        "AKDUxXAEDkXtR9OJqFWfFPo&key=AAECAwQFBgcICQoLDA0ODxAREhMUFRYXGBkaGxwdHh8")) [] =
      .ok smallCollection ∧
    openFragment smallPlatform
      (units ("#share=DA0ODxAREhMUFRYXSWwc_Hhssu30Gki4ufmp6nzZ5XgC5dRqbhRwT_lf" ++
        "QgrCR1Tx1b67B-Ejp2o_G31FAK0TwKNQheb6&key=" ++
        "ICEiIyQlJicoKSorLC0uLzAxMjM0NTY3ODk6Ozw9Pj8")) [] =
      .ok bareCollection ∧
    Fails (openFragment smallPlatform
      (units ("#share=AAECAwQFBgcICQoL7FSE0om0cEmnDjvH-sUyQFGZSfs5MhJS8asq1rds" ++
        "AKDUxXAEDkXtR9OJqFWfFPo&key=ICEiIyQlJicoKSorLC0uLzAxMjM0NTY3ODk6Ozw9Pj8")) []) := by
  have hsmall := shareLink_safe sharePage_smallPlatform smallKey smallCollection
  have hbare := shareLink_safe sharePage_smallPlatform bareKey bareCollection
  refine ⟨?_, ?_, ?_⟩
  · -- A link with its key opens as what was shared.
    have hlink : shareFragment (encodeShareLink smallPlatform smallKey smallCollection) true =
        units ("#share=AAECAwQFBgcICQoL7FSE0om0cEmnDjvH-sUyQFGZSfs5MhJS8asq1rds" ++
          "AKDUxXAEDkXtR9OJqFWfFPo&key=AAECAwQFBgcICQoLDA0ODxAREhMUFRYXGBkaGxwdHh8") := by
      decide +kernel
    rw [← hlink]
    refine hsmall.1.withCode ⟨by decide +kernel, by decide +kernel⟩ ?_ []
    rw [hlink]
    decide +kernel
  · -- So does a second genuine link, of another collection.
    have hlink : shareFragment (encodeShareLink smallPlatform bareKey bareCollection) true =
        units ("#share=DA0ODxAREhMUFRYXSWwc_Hhssu30Gki4ufmp6nzZ5XgC5dRqbhRwT_lf" ++
          "QgrCR1Tx1b67B-Ejp2o_G31FAK0TwKNQheb6&key=" ++
          "ICEiIyQlJicoKSorLC0uLzAxMjM0NTY3ODk6Ozw9Pj8") := by
      decide +kernel
    rw [← hlink]
    refine hbare.1.withCode ⟨by decide +kernel, by decide +kernel⟩ ?_ []
    rw [hlink]
    decide +kernel
  · -- The first link's text under the second one's key fails.
    have hlink : shareFragment (encodeShareLink smallPlatform smallKey smallCollection) false ++
        0x26 :: (keyParam ++ toBase64Url bareKey.raw) =
        units ("#share=AAECAwQFBgcICQoL7FSE0om0cEmnDjvH-sUyQFGZSfs5MhJS8asq1rds" ++
          "AKDUxXAEDkXtR9OJqFWfFPo&key=ICEiIyQlJicoKSorLC0uLzAxMjM0NTY3ODk6Ozw9Pj8") := by
      decide +kernel
    rw [← hlink]
    refine (hsmall.2 smallLinks _ authentic_smallPlatform List.mem_cons_self).longer false _ []
      (by decide +kernel) ?_
    intro fragment raw hparse _
    rw [shareFragment_false, List.append_assoc] at hparse
    obtain ⟨hread, -⟩ := code_of_parse separator_not_mem hparse
    have hdata := Except.ok.inj
      ((readSealed_sealText sharePage_smallPlatform smallKey smallCollection).symm.trans hread)
    rw [← hdata, drop_sealText, deflate_smallCollection]
    decide +kernel

end Wayfarer
