import Wayfarer.Library.ReadBack

/-!
# Bytes as texts

`toBase64Url` writes bytes with the URL-safe alphabet and without padding, and `fromBase64Url` reads
them back; `decodeFatal` reads UTF-8 and nothing else.

What is written is read back (`fromBase64Url_toBase64Url`, `decodeFatal_encodeUtf8Text`), and a text
that is cut short gives fewer bytes (`length_fromBase64Url`), the first ones
(`prefix_fromBase64Url_take`).
-/

set_option autoImplicit false

namespace Library

/-! ## Reading and writing -/

/-- Bytes as base64url, without padding. -/
def toBase64Url (bytes : List UInt8) : Text :=
  (unpadded (base64 (bytes.map UInt8.toNat))).map urlSafe

/-- The two characters of the URL-safe alphabet as the other writes them. -/
def urlUnsafe (c : CodeUnit) : CodeUnit :=
  if c = 0x2D then 0x2B else if c = 0x5F then 0x2F else c

/-- The bytes of a base64url text; `none` where `atob` throws. -/
def fromBase64Url (t : Text) : Option (List UInt8) :=
  (base64Decode (t.map urlUnsafe)).map fun binary => binary.map fun c => c.toNat.toUInt8

/-- A character of base64url: `[\w-]`. -/
def isBase64Url (c : CodeUnit) : Bool :=
  (0x30 ≤ c && c ≤ 0x39) || (0x41 ≤ c && c ≤ 0x5A) || (0x61 ≤ c && c ≤ 0x7A) || c = 0x5F || c = 0x2D

/-- A text without the mark in front of it. -/
def withoutByteOrderMark : Text → Text
  | 0xFEFF :: rest => rest
  | t => t

/-- The text of UTF-8 bytes, the mark in front left out; `none` where they are no UTF-8: where the
text they are read as is written otherwise. -/
def decodeFatal (bytes : List UInt8) : Option Text :=
  let t := ofCodePoints (utf8Points {} (bytes.map UInt8.toNat))
  if utf8Bytes t = bytes.map UInt8.toNat then some (withoutByteOrderMark t) else none

/-- What a text encoder gives. -/
def encodeUtf8Text (t : Text) : List UInt8 :=
  (utf8Bytes t).map Nat.toUInt8

/-! ## Groups of six bits -/

theorem unpadded_base64 (bytes : List Nat) :
    unpadded (base64 bytes) = (sextets bytes).map base64Digit := by
  rw [base64_eq]
  refine unpadded_append (fun c hc => ?_) fun c hc => ?_
  · obtain ⟨n, -, rfl⟩ := List.mem_map.mp hc
    exact base64Digit_mem n
  · have hpadding : ∀ pad ∈ [[], [base64Padding, base64Padding], [base64Padding]], ∀ c ∈ pad,
        c = base64Padding := by decide
    apply hpadding _ _ c hc
    rw [paddingOf]
    split_ifs <;> decide

theorem length_base64Bytes (values : List Nat) :
    (base64Bytes values).length = values.length * 3 / 4 := by
  induction values using base64Bytes.induct with
  | case1 p q r s rest ih =>
      rw [base64Bytes, List.length_cons, List.length_cons, List.length_cons, ih, List.length_cons,
        List.length_cons, List.length_cons, List.length_cons]
      omega
  | case2 p q r => simp [base64Bytes]
  | case3 p q => simp [base64Bytes]
  | case4 values h₁ h₂ h₃ =>
      rcases values with _ | ⟨p, _ | ⟨q, _ | ⟨r, _ | ⟨s, rest⟩⟩⟩⟩
      · rfl
      · simp [base64Bytes]
      · exact absurd rfl (h₃ p q)
      · exact absurd rfl (h₂ p q r)
      · exact absurd rfl (h₁ p q r s rest)

/-! ## What is written is read back -/

theorem mapM_base64Value {values : List Nat} (h : ∀ n ∈ values, n < 64) :
    (values.map base64Digit).mapM base64Value = some values := by
  rw [mapM_eq_some_iff, List.forall₂_map_left_iff, List.forall₂_same]
  exact fun n hn => base64Value_digit (h n hn)

theorem urlUnsafe_urlSafe {c : CodeUnit} (h : c ∈ base64Alphabet) : urlUnsafe (urlSafe c) = c := by
  have hall : ∀ c ∈ base64Alphabet, urlUnsafe (urlSafe c) = c := by decide
  exact hall c h

theorem isBase64Url_urlSafe {c : CodeUnit} (h : c ∈ base64Alphabet) :
    isBase64Url (urlSafe c) = true := by
  have hall : ∀ c ∈ base64Alphabet, isBase64Url (urlSafe c) = true := by decide
  exact hall c h

theorem urlUnsafe_mem {c : CodeUnit} (h : isBase64Url c = true) : urlUnsafe c ∈ base64Alphabet := by
  have hall : ∀ n < 0x80, isBase64Url n.toUInt16 = true →
      urlUnsafe n.toUInt16 ∈ base64Alphabet := by
    decide +kernel
  have hlt : c.toNat < 0x80 := by
    simp only [isBase64Url, Bool.or_eq_true, Bool.and_eq_true, decide_eq_true_eq,
      UInt16.le_iff_toNat_le] at h
    rcases h with (((h | h) | h) | rfl) | rfl
    · exact Nat.lt_of_le_of_lt h.2 (by decide)
    · exact Nat.lt_of_le_of_lt h.2 (by decide)
    · exact Nat.lt_of_le_of_lt h.2 (by decide)
    · decide
    · decide
  have hc : c.toNat.toUInt16 = c := UInt16.ofNat_toNat
  have hmem := hall c.toNat hlt
  rw [hc] at hmem
  exact hmem h

/-- A text of the alphabet has nothing that is left out. -/
theorem digits_of_alphabet {t : Text} (h : ∀ c ∈ t, c ∈ base64Alphabet) :
    withoutPadding (t.filter fun c => !isAsciiWhite c) = t := by
  have hwhite : ∀ c ∈ base64Alphabet, (!isAsciiWhite c) = true := by decide
  rw [List.filter_eq_self.mpr fun c hc => hwhite c (h c hc), withoutPadding]
  have hnot : ∀ pad : Text, base64Padding ∈ pad → ¬ pad.isSuffixOf t = true := by
    intro pad hpad hsuffix
    obtain ⟨front, hfront⟩ := List.isSuffixOf_iff_suffix.mp hsuffix
    exact padding_not_mem_alphabet (h _ (hfront ▸ List.mem_append_right front hpad))
  split_ifs with hlength htwo hone
  · exact absurd htwo (hnot _ (by decide))
  · exact absurd hone (hnot _ (by decide))
  · rfl
  · rfl

theorem toBase64Url_eq (bytes : List UInt8) :
    toBase64Url bytes = ((sextets (bytes.map UInt8.toNat)).map base64Digit).map urlSafe := by
  rw [toBase64Url, unpadded_base64]

theorem length_toBase64Url_mod (bytes : List UInt8) : (toBase64Url bytes).length % 4 ≠ 1 := by
  rw [toBase64Url_eq, List.length_map, List.length_map]
  exact (length_sextets _).2

/-- Only characters of base64url are written. -/
theorem isBase64Url_of_mem {bytes : List UInt8} {c : CodeUnit} (h : c ∈ toBase64Url bytes) :
    isBase64Url c = true := by
  rw [toBase64Url_eq] at h
  obtain ⟨d, hd, rfl⟩ := List.mem_map.mp h
  obtain ⟨n, -, rfl⟩ := List.mem_map.mp hd
  exact isBase64Url_urlSafe (base64Digit_mem n)

theorem map_toUInt8_toNat (bytes : List UInt8) :
    ((bytes.map UInt8.toNat).map Nat.toUInt16).map (fun c => c.toNat.toUInt8) = bytes := by
  rw [List.map_map, List.map_map]
  refine Eq.trans (List.map_congr_left fun b _ => ?_) (List.map_id bytes)
  have hlt : b.toNat < 0x10000 := by
    have := b.toNat_lt
    omega
  rw [Function.comp, Function.comp, toNat_toUInt16 hlt]
  exact UInt8.ofNat_toNat

/-- Bytes that are written are read back. -/
theorem fromBase64Url_toBase64Url (bytes : List UInt8) :
    fromBase64Url (toBase64Url bytes) = some bytes := by
  have hbytes : ∀ b ∈ bytes.map UInt8.toNat, b < 0x100 := by
    intro b hb
    obtain ⟨u, -, rfl⟩ := List.mem_map.mp hb
    exact u.toNat_lt
  have halphabet : ∀ c ∈ (sextets (bytes.map UInt8.toNat)).map base64Digit, c ∈ base64Alphabet := by
    intro c hc
    obtain ⟨n, -, rfl⟩ := List.mem_map.mp hc
    exact base64Digit_mem n
  have hunsafe : (toBase64Url bytes).map urlUnsafe =
      (sextets (bytes.map UInt8.toNat)).map base64Digit := by
    rw [toBase64Url_eq, List.map_map]
    exact Eq.trans (List.map_congr_left fun c hc => urlUnsafe_urlSafe (halphabet c hc))
      (List.map_id _)
  have hmod := (length_sextets (bytes.map UInt8.toNat)).2
  rw [fromBase64Url, hunsafe, base64Decode, digits_of_alphabet halphabet,
    if_neg (by rwa [List.length_map]), mapM_base64Value (sextets_lt hbytes), Option.map_some,
    Option.map_some, base64Bytes_sextets hbytes, map_toUInt8_toNat]

/-- Fewer characters hold fewer bytes. -/
theorem bytes_lt {m n : Nat} (h : m < n) (hm : m % 4 ≠ 1) (hn : n % 4 ≠ 1) :
    m * 3 / 4 < n * 3 / 4 := by
  have hm' : m % 4 = 0 ∨ m % 4 = 2 ∨ m % 4 = 3 := by omega
  have hn' : n % 4 = 0 ∨ n % 4 = 2 ∨ n % 4 = 3 := by omega
  rcases hm' with hm | hm | hm <;> rcases hn' with hn | hn | hn <;> omega

/-- The characters of base64url are those of the other alphabet, two of them
written in another way. -/
theorem map_urlUnsafe_mem {t : Text} (ht : ∀ c ∈ t, isBase64Url c = true) :
    ∀ c ∈ t.map urlUnsafe, c ∈ base64Alphabet := by
  intro c hc
  obtain ⟨d, hd, rfl⟩ := List.mem_map.mp hc
  exact urlUnsafe_mem (ht d hd)

/-- As many bytes are read as there are characters for. -/
theorem length_fromBase64Url {t : Text} {bytes : List UInt8} (ht : ∀ c ∈ t, isBase64Url c = true)
    (h : fromBase64Url t = some bytes) : bytes.length = t.length * 3 / 4 := by
  obtain ⟨binary, hbinary, rfl⟩ := Option.map_eq_some_iff.mp h
  rw [base64Decode, digits_of_alphabet (map_urlUnsafe_mem ht)] at hbinary
  split_ifs at hbinary
  obtain ⟨values, hvalues, rfl⟩ := Option.map_eq_some_iff.mp hbinary
  rw [List.length_map, List.length_map, length_base64Bytes,
    ← (mapM_eq_some_iff.mp hvalues).length_eq, List.length_map]

/-- The first groups of six bits hold the first bytes. -/
theorem prefix_base64Bytes_take (values : List Nat) (n : Nat) :
    base64Bytes (values.take n) <+: base64Bytes values := by
  -- Four digits are three bytes; two or three at the end are one or two, and one is none.
  induction values using base64Bytes.induct generalizing n with
  | case1 p q r s rest ih =>
      cases n with
      | zero => exact List.nil_prefix
      | succ n =>
          cases n with
          | zero => exact List.nil_prefix
          | succ n =>
              cases n with
              | zero => exact ⟨_, rfl⟩
              | succ n =>
                  cases n with
                  | zero => exact ⟨_, rfl⟩
                  | succ n =>
                      obtain ⟨tail, htail⟩ := ih n
                      refine ⟨tail, ?_⟩
                      rw [List.take_succ_cons, List.take_succ_cons, List.take_succ_cons,
                        List.take_succ_cons, base64Bytes, base64Bytes, ← htail]
                      rfl
  | case2 p q r =>
      cases n with
      | zero => exact List.nil_prefix
      | succ n =>
          cases n with
          | zero => exact List.nil_prefix
          | succ n =>
              cases n with
              | zero => exact ⟨_, rfl⟩
              | succ n =>
                  rw [List.take_of_length_le (by simp)]
  | case3 p q =>
      cases n with
      | zero => exact List.nil_prefix
      | succ n =>
          cases n with
          | zero => exact List.nil_prefix
          | succ n =>
              rw [List.take_of_length_le (by simp)]
  | case4 values hfour hthree htwo =>
      cases values with
      | nil =>
          rw [List.take_nil]
      | cons p rest =>
          cases rest with
          | nil =>
              cases n with
              | zero => exact List.nil_prefix
              | succ n => rw [List.take_of_length_le (by simp)]
          | cons q rest =>
              cases rest with
              | nil => exact absurd rfl (htwo p q)
              | cons r rest =>
                  cases rest with
                  | nil => exact absurd rfl (hthree p q r)
                  | cons s rest => exact absurd rfl (hfour p q r s rest)

/-- Of a text cut short the bytes that are read are the first ones. -/
theorem prefix_fromBase64Url_take {t : Text} {n : Nat} {bytes part : List UInt8}
    (ht : ∀ c ∈ t, isBase64Url c = true) (h : fromBase64Url t = some bytes)
    (hpart : fromBase64Url (t.take n) = some part) : part <+: bytes := by
  have hcut : ∀ c ∈ t.take n, isBase64Url c = true := fun c hc => ht c (List.mem_of_mem_take hc)
  obtain ⟨binary, hbinary, rfl⟩ := Option.map_eq_some_iff.mp h
  obtain ⟨binary', hbinary', rfl⟩ := Option.map_eq_some_iff.mp hpart
  rw [base64Decode, digits_of_alphabet (map_urlUnsafe_mem ht)] at hbinary
  rw [base64Decode, digits_of_alphabet (map_urlUnsafe_mem hcut)] at hbinary'
  split_ifs at hbinary hbinary'
  obtain ⟨values, hvalues, rfl⟩ := Option.map_eq_some_iff.mp hbinary
  obtain ⟨values', hvalues', rfl⟩ := Option.map_eq_some_iff.mp hbinary'
  have hsame : values' = values.take n := by
    rw [List.map_take] at hvalues'
    have hfirst := mapM_eq_some_iff.mpr (List.forall₂_take n (mapM_eq_some_iff.mp hvalues))
    exact Option.some.inj (hvalues'.symm.trans hfirst)
  rw [hsame]
  exact ((prefix_base64Bytes_take values n).map _).map _

/-! ## Text in UTF-8 -/

theorem map_toNat_encodeUtf8Text (t : Text) : (encodeUtf8Text t).map UInt8.toNat = utf8Bytes t := by
  rw [encodeUtf8Text, List.map_map]
  refine Eq.trans (List.map_congr_left fun b hb => ?_) (List.map_id _)
  obtain ⟨p, hp, hmem⟩ := List.mem_flatMap.mp hb
  have hlt := encodeUtf8_lt (isScalar_of_mem_map_scalar p hp).2 b hmem
  rw [Function.comp, Nat.toUInt8, UInt8.toNat_ofNat']
  exact Nat.mod_eq_of_lt hlt

/-- A text without lone surrogates is read back, but for a mark in front of it. -/
theorem decodeFatal_encodeUtf8Text {t : Text} (h : scrub t = t) :
    decodeFatal (encodeUtf8Text t) = some (withoutByteOrderMark t) := by
  have hread : ofCodePoints (utf8Points {} (utf8Bytes t)) = t := by
    rw [utf8Bytes, utf8Points_flatMap fun p hp => isScalar_of_mem_map_scalar p hp, ← scrub, h]
  rw [decodeFatal, map_toNat_encodeUtf8Text, hread]
  exact if_pos rfl

end Library
