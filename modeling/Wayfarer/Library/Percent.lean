import Wayfarer.Library.CodePoints

/-!
# Percent-encoding and form-encoding

`decodeURIComponent` is the language's own: it gives up on the whole text when one
escape is malformed. `percentUndone` undoes the escapes it can read and leaves the
others, as a server that is handed the text does. `formSerialize` writes name and
value pairs as a form or a query string.

What a form writes is always well-formed: `decodeURIComponent_formText` reads a
written text back, a space as whatever the plus sign it is written as has been
turned into, and `decodeURIComponent_append_cons` cuts a decoding at a character
that can be part of no escape.
-/

set_option autoImplicit false

namespace Library

/-! ## Hexadecimal digits -/

/-- An upper-case hexadecimal digit. -/
def hexDigit (n : Nat) : CodeUnit :=
  (if n < 10 then 0x30 + n else 0x37 + n).toUInt16

/-- What a hexadecimal digit stands for. -/
def hexValue (c : CodeUnit) : Option Nat :=
  if 0x30 ≤ c.toNat ∧ c.toNat ≤ 0x39 then some (c.toNat - 0x30)
  else if 0x41 ≤ c.toNat ∧ c.toNat ≤ 0x46 then some (c.toNat - 0x37)
  else if 0x61 ≤ c.toNat ∧ c.toNat ≤ 0x66 then some (c.toNat - 0x57)
  else none

theorem toNat_hexDigit {n : Nat} (h : n < 16) :
    (hexDigit n).toNat = if n < 10 then 0x30 + n else 0x37 + n := by
  unfold hexDigit
  apply toNat_toUInt16
  split_ifs <;> omega

theorem hexValue_hexDigit {n : Nat} (h : n < 16) :
    hexValue (hexDigit n) = some n := by
  unfold hexValue
  rw [toNat_hexDigit h]
  split_ifs <;> first | omega | (congr 1; omega)

/-- The per cent sign, which starts every escape. -/
def percentSign : CodeUnit := 0x25

/-- The plus sign, which stands for a space in a form. -/
def plusSign : CodeUnit := 0x2B

/-- The space. -/
def space : CodeUnit := 0x20

/-- The escape of a byte. -/
def percentByte (b : Nat) : Text :=
  [percentSign, hexDigit (b / 16), hexDigit (b % 16)]

/-! ## Reading escapes -/

/-- A character of an escaped text: one that stands for itself, or an escaped byte. -/
inductive PercentToken where
  /-- A character that stands for itself. -/
  | unit (c : CodeUnit)
  /-- An escaped byte. -/
  | byte (b : Nat)

/-- The text as tokens; `none` when a per cent sign is followed by no two
hexadecimal digits. -/
def percentTokens : Text → Option (List PercentToken)
  | [] => some []
  | [c] => if c = percentSign then none else some [.unit c]
  | [c, d] =>
      if c = percentSign then none else (percentTokens [d]).map (.unit c :: ·)
  | c :: d :: e :: rest =>
      if c = percentSign then
        match hexValue d, hexValue e with
        | some high, some low => (percentTokens rest).map (.byte (high * 16 + low) :: ·)
        | _, _ => none
      else (percentTokens (d :: e :: rest)).map (.unit c :: ·)

/-- The text the tokens stand for. `seen` is the bytes of the character that is
being read. `none` when the bytes are no UTF-8. -/
def decodeTokens (seen : List Nat) : List PercentToken → Option Text
  | [] => if seen = [] then some [] else none
  | .unit c :: rest => if seen = [] then (decodeTokens [] rest).map (c :: ·) else none
  | .byte b :: rest =>
      match utf8Length ((seen ++ [b]).headD 0) with
      | none => none
      | some n =>
          if (seen ++ [b]).length = n then
            match decodeUtf8 (seen ++ [b]) with
            | none => none
            | some p => (decodeTokens [] rest).map (unitsOf p ++ ·)
          else decodeTokens (seen ++ [b]) rest

/-- A text with its escapes undone; `none` where the language throws a `URIError`. -/
def decodeURIComponent (t : Text) : Option Text :=
  (percentTokens t).bind (decodeTokens [])

/-- The character escaped at the start of a text, and what follows it. -/
def escapeAt (t : Text) : Option (Text × Text) :=
  match t with
  | c :: d :: e :: _ =>
      if c = percentSign then
        match hexValue d, hexValue e with
        | some high, some low =>
            (utf8Length (high * 16 + low)).bind fun n =>
              (decodeURIComponent (t.take (3 * n))).map fun u => (u, t.drop (3 * n))
        | _, _ => none
      else none
  | _ => none

/-- Every escape that can be read undone, at most `steps` of them. -/
def percentUndoneIn : Nat → Text → Text
  | 0, t => t
  | _ + 1, [] => []
  | steps + 1, c :: rest =>
      match escapeAt (c :: rest) with
      | some (u, rest') => u ++ percentUndoneIn steps rest'
      | none => c :: percentUndoneIn steps rest

/-- A text with every escape that can be read undone, the others left as they are. -/
def percentUndone (t : Text) : Text :=
  percentUndoneIn t.length t

/-- A unit that can be part of an escape. -/
def isEscapeUnit (c : CodeUnit) : Bool :=
  c = percentSign || (hexValue c).isSome

/-! ## Writing escapes -/

/-- What `encodeURIComponent` leaves as it is, besides letters and digits. -/
def componentMarks : Text := units "-_.!~*'()"

/-- What a form leaves as it is, besides letters and digits. -/
def formMarks : Text := units "*-._"

/-- An ASCII letter or digit. -/
def isAlphanumeric (n : Nat) : Bool :=
  (0x30 ≤ n && n ≤ 0x39) || (0x41 ≤ n && n ≤ 0x5A) || (0x61 ≤ n && n ≤ 0x7A)

/-- A byte as a percent-encoder writes it that leaves `marks`. -/
def escapeByte (marks : Text) (b : Nat) : Text :=
  if isAlphanumeric b || marks.contains b.toUInt16 then [b.toUInt16] else percentByte b

/-- `encodeURIComponent`; `none` where it throws, at a lone surrogate. -/
def encodeURIComponent (t : Text) : Option Text :=
  if (codePoints t).any isSurrogate then none
  else some ((codePoints t).flatMap fun p => (encodeUtf8 p).flatMap (escapeByte componentMarks))

/-- A byte as a form writes it. -/
def formByte (b : Nat) : Text :=
  if b = 0x20 then [plusSign] else escapeByte formMarks b

/-- A name or a value as a form writes it. -/
def formText (t : Text) : Text :=
  ((codePoints t).map scalar).flatMap fun p => (encodeUtf8 p).flatMap formByte

/-- A pair as a form writes it. -/
def formPair (pair : Text × Text) : Text :=
  formText pair.1 ++ units "=" ++ formText pair.2

/-- The pairs as `application/x-www-form-urlencoded`: what `URLSearchParams` writes. -/
def formSerialize (pairs : List (Text × Text)) : Text :=
  joinWith (units "&") (pairs.map formPair)

/-- A text with every plus sign replaced by `c`. -/
def plusTo (c : CodeUnit) (t : Text) : Text :=
  t.map fun d => if d = plusSign then c else d

/-- A text with every space replaced by `c`. -/
def spaceTo (c : CodeUnit) (t : Text) : Text :=
  t.map fun d => if d = space then c else d

/-! ## Cutting a decoding -/

@[simp]
theorem percentTokens_nil :
    percentTokens [] = some [] := rfl

/-- A character that is no per cent sign stands for itself. -/
theorem percentTokens_cons {c : CodeUnit} (hc : c ≠ percentSign) (t : Text) :
    percentTokens (c :: t) = (percentTokens t).map (.unit c :: ·) := by
  match t with
  | [] => simp [percentTokens, hc]
  | [_] => simp [percentTokens, hc]
  | _ :: _ :: _ => simp [percentTokens, hc]

/-- An escape is one byte. -/
theorem percentTokens_escape {d e : CodeUnit} {high low : Nat} (hd : hexValue d = some high)
    (he : hexValue e = some low) (t : Text) :
    percentTokens (percentSign :: d :: e :: t) =
      (percentTokens t).map (.byte (high * 16 + low) :: ·) := by
  simp [percentTokens, hd, he]

theorem percentTokens_percentByte {b : Nat} (hb : b < 0x100) (t : Text) :
    percentTokens (percentByte b ++ t) = (percentTokens t).map (.byte b :: ·) := by
  have hhigh : hexValue (hexDigit (b / 16)) = some (b / 16) := hexValue_hexDigit (by omega)
  have hlow : hexValue (hexDigit (b % 16)) = some (b % 16) := hexValue_hexDigit (by omega)
  have hback : b / 16 * 16 + b % 16 = b := by omega
  have h := percentTokens_escape hhigh hlow t
  rw [hback] at h
  exact h

/-- The tokens of a text end before a character that can be part of no escape. -/
theorem percentTokens_append_cons {c : CodeUnit} (hc : isEscapeUnit c = false) (s t : Text) :
    percentTokens (s ++ c :: t) =
      (percentTokens s).bind fun x => (percentTokens t).map fun y => x ++ .unit c :: y := by
  have hpercent : c ≠ percentSign := by rintro rfl; simp [isEscapeUnit] at hc
  have hhex : hexValue c = none := by simp_all [isEscapeUnit]
  induction s using percentTokens.induct with
  | case1 => simp [percentTokens_cons hpercent]
  | case2 =>
      cases t <;> simp [percentTokens, hhex]
  | case3 d hd => simp [percentTokens_cons hd, percentTokens_cons hpercent, Function.comp_def]
  | case4 => cases t <;> simp [percentTokens, hhex]
  | case5 d e hd ih =>
      rw [List.cons_append, percentTokens_cons hd, percentTokens_cons hd, ih]
      simp [Option.map_bind, Option.bind_map, Function.comp_def]
  | case6 d e rest high low hlow hhigh ih =>
      rw [List.cons_append, List.cons_append, List.cons_append, percentTokens_escape hhigh hlow,
        percentTokens_escape hhigh hlow, ih]
      simp [Option.map_bind, Option.bind_map, Function.comp_def]
  | case7 d e rest hbad =>
      have hnone : ∀ u, percentTokens (percentSign :: d :: e :: u) = none := by
        intro u
        cases hd : hexValue d with
        | none => simp [percentTokens, hd]
        | some high =>
            cases he : hexValue e with
            | none => simp [percentTokens, hd, he]
            | some low => exact absurd he (hbad high low hd)
      simp [hnone]
  | case8 d e f rest hd ih =>
      rw [List.cons_append, percentTokens_cons hd, percentTokens_cons hd, ih]
      simp [Option.map_bind, Option.bind_map, Function.comp_def]

/-- A character that stands for itself ends the character before it. -/
theorem decodeTokens_append_unit (seen : List Nat) (x y : List PercentToken) (c : CodeUnit) :
    decodeTokens seen (x ++ .unit c :: y) =
      (decodeTokens seen x).bind fun u => (decodeTokens [] y).map fun v => u ++ c :: v := by
  induction x generalizing seen with
  | nil =>
      by_cases hseen : seen = []
      · simp [decodeTokens, hseen]
      · simp [decodeTokens, hseen]
  | cons token x ih =>
      cases token with
      | unit d =>
          by_cases hseen : seen = []
          · simp [decodeTokens, hseen, ih, Option.map_bind, Option.bind_map, Function.comp_def]
          · simp [decodeTokens, hseen]
      | byte b =>
          simp only [List.cons_append, decodeTokens]
          cases hlen : utf8Length ((seen ++ [b]).headD 0) with
          | none => simp
          | some n =>
              by_cases hfull : (seen ++ [b]).length = n
              · cases hpoint : decodeUtf8 (seen ++ [b]) with
                | none => simp [hfull]
                | some p =>
                    simp [hfull, ih, Option.map_bind, Option.bind_map, Function.comp_def]
              · simp only [if_neg hfull, ih]

/-- A text is decoded on either side of a character that can be part of no escape. -/
theorem decodeURIComponent_append_cons {c : CodeUnit} (hc : isEscapeUnit c = false)
    (s t : Text) :
    decodeURIComponent (s ++ c :: t) =
      (decodeURIComponent s).bind fun u => (decodeURIComponent t).map fun v => u ++ c :: v := by
  unfold decodeURIComponent
  rw [percentTokens_append_cons hc]
  cases hs : percentTokens s with
  | none => simp
  | some x =>
      cases ht : percentTokens t with
      | none => simp
      | some y => simp [decodeTokens_append_unit]

/-! ## Reading back what was written -/

/-- The bytes of a character that are left to read, after those `seen`. -/
theorem decodeTokens_tail {p : Nat} {seen left : List Nat} (hseen : seen ≠ [])
    (hleft : left ≠ []) (hp : IsScalar p) (hbytes : encodeUtf8 p = seen ++ left)
    (rest : List PercentToken) :
    decodeTokens seen (left.map .byte ++ rest) = (decodeTokens [] rest).map (unitsOf p ++ ·) := by
  obtain ⟨b₀, tail, henc, hlen, -⟩ := utf8Length_encodeUtf8 hp
  induction left generalizing seen with
  | nil => exact absurd rfl hleft
  | cons b left ih =>
      have hhead : (seen ++ [b]).headD 0 = b₀ := by
        cases seen with
        | nil => exact absurd rfl hseen
        | cons x seen =>
            rw [hbytes] at henc
            simpa using (List.cons.inj henc).1
      have hcount : seen.length + (left.length + 1) = tail.length + 1 := by
        have h := congrArg List.length (hbytes.symm.trans henc)
        simpa using h
      simp only [List.map_cons, List.cons_append, decodeTokens, hhead, hlen]
      by_cases hdone : left = []
      · subst hdone
        have hfull : (seen ++ [b]).length = tail.length + 1 := by simpa using hcount
        rw [if_pos hfull, ← hbytes, decodeUtf8_encodeUtf8 hp]
        rfl
      · have hmore : (seen ++ [b]).length ≠ tail.length + 1 := by
          have : 0 < left.length := List.length_pos_iff.mpr hdone
          simp; omega
        rw [if_neg hmore]
        exact ih (by simp) hdone (by simp [hbytes])

/-- The bytes of a character are read as that character. -/
theorem decodeTokens_bytes {p : Nat} (hp : IsScalar p) (rest : List PercentToken) :
    decodeTokens [] ((encodeUtf8 p).map .byte ++ rest) =
      (decodeTokens [] rest).map (unitsOf p ++ ·) := by
  obtain ⟨b, tail, henc, hlen, -⟩ := utf8Length_encodeUtf8 hp
  rw [henc]
  simp only [List.map_cons, List.cons_append, decodeTokens, List.nil_append, List.headD_cons, hlen]
  by_cases htail : tail = []
  · subst htail
    have hdec := decodeUtf8_encodeUtf8 hp
    rw [henc] at hdec
    simp [hdec]
  · have hmore : ([b] : List Nat).length ≠ tail.length + 1 := by
      have : 0 < tail.length := List.length_pos_iff.mpr htail
      simp; omega
    rw [if_neg hmore]
    exact decodeTokens_tail (by simp) htail hp (by simp [henc]) rest

/-- What a form writes for a byte, its plus signs replaced by `s`, as a token. -/
def formToken (s : CodeUnit) (b : Nat) : PercentToken :=
  if b = 0x20 then .unit s
  else if isAlphanumeric b || formMarks.contains b.toUInt16 then .unit b.toUInt16
  else .byte b

/-- A byte that a form leaves as it is, is ASCII and no plus or per cent sign. -/
theorem formPlain_bounds {b : Nat} (hb : b < 0x100)
    (h : (isAlphanumeric b || formMarks.contains b.toUInt16) = true) :
    b < 0x80 ∧ b.toUInt16 ≠ plusSign ∧ b.toUInt16 ≠ percentSign := by
  rcases Bool.or_eq_true_iff.mp h with hplain | hmark
  · have hrange : 0x30 ≤ b ∧ b ≤ 0x7A := by
      simp only [isAlphanumeric, Bool.or_eq_true, Bool.and_eq_true, decide_eq_true_eq] at hplain
      omega
    have hne : ∀ c : CodeUnit, c.toNat < 0x30 → b.toUInt16 ≠ c := by
      rintro c hc rfl
      rw [toNat_toUInt16 (by omega)] at hc
      omega
    exact ⟨by omega, hne _ (by decide), hne _ (by decide)⟩
  · have hmarks : ∀ c : CodeUnit, formMarks.contains c = true →
        c.toNat < 0x80 ∧ c ≠ plusSign ∧ c ≠ percentSign := by
      have hunits : formMarks = [0x2A, 0x2D, 0x2E, 0x5F] := by decide
      intro c hc
      rw [hunits] at hc
      simp only [List.contains_iff_mem, List.mem_cons, List.not_mem_nil, or_false] at hc
      rcases hc with rfl | rfl | rfl | rfl <;> decide
    have hsame := hmarks _ hmark
    rwa [toNat_toUInt16 (by omega)] at hsame

/-- The characters of an escape are no plus signs. -/
theorem plusTo_percentByte (s : CodeUnit) {b : Nat} (hb : b < 0x100) :
    plusTo s (percentByte b) = percentByte b := by
  have hdigit : ∀ n < 16, hexDigit n ≠ plusSign := by decide
  have hhigh := hdigit (b / 16) (by omega)
  have hlow := hdigit (b % 16) (by omega)
  have hsign : percentSign ≠ plusSign := by decide
  simp [plusTo, percentByte, hhigh, hlow, hsign]

theorem percentTokens_formByte {s : CodeUnit} (hs : s ≠ percentSign) {b : Nat} (hb : b < 0x100)
    (t : Text) :
    percentTokens (plusTo s (formByte b) ++ t) = (percentTokens t).map (formToken s b :: ·) := by
  unfold formByte formToken
  by_cases hspace : b = 0x20
  · simp [hspace, plusTo, percentTokens_cons hs]
  · rw [if_neg hspace, if_neg hspace]
    unfold escapeByte
    by_cases hplain : (isAlphanumeric b || formMarks.contains b.toUInt16) = true
    · obtain ⟨-, hplus, hpercent⟩ := formPlain_bounds hb hplain
      rw [if_pos hplain, if_pos hplain]
      simp [plusTo, hplus, percentTokens_cons hpercent]
    · rw [if_neg hplain, if_neg hplain, plusTo_percentByte s hb, percentTokens_percentByte hb]

/-- Bytes that a form wrote are read as their tokens. -/
theorem percentTokens_formBytes {s : CodeUnit} (hs : s ≠ percentSign) {bytes : List Nat}
    (hbytes : ∀ b ∈ bytes, b < 0x100) (t : Text) :
    percentTokens (plusTo s (bytes.flatMap formByte) ++ t) =
      (percentTokens t).map (bytes.map (formToken s) ++ ·) := by
  induction bytes with
  | nil => simp [plusTo]
  | cons b bytes ih =>
      have hb : b < 0x100 := hbytes b (by simp)
      have hrest : ∀ x ∈ bytes, x < 0x100 := fun x hx => hbytes x (by simp [hx])
      have hsplit : plusTo s ((b :: bytes).flatMap formByte) ++ t =
          plusTo s (formByte b) ++ (plusTo s (bytes.flatMap formByte) ++ t) := by
        simp [plusTo]
      rw [hsplit, percentTokens_formByte hs hb, ih hrest]
      simp [Function.comp_def]

/-- A character that a form wrote is read as that character, a space as `s`. -/
theorem decodeTokens_formTokens (s : CodeUnit) {p : Nat} (hp : IsScalar p)
    (rest : List PercentToken) :
    decodeTokens [] ((encodeUtf8 p).map (formToken s) ++ rest) =
      (decodeTokens [] rest).map (spaceTo s (unitsOf p) ++ ·) := by
  by_cases hascii : p < 0x80
  · have henc : encodeUtf8 p = [p] := by simp [encodeUtf8, hascii]
    have hunits : unitsOf p = [p.toUInt16] := by
      have : p < 0x10000 := by omega
      simp [unitsOf, this]
    have hspace : p.toUInt16 = space ↔ p = 0x20 := by
      have hall : ∀ p < 0x80, (p.toUInt16 = space ↔ p = 0x20) := by decide
      exact hall p hascii
    have hlen : utf8Length p = some 1 := by simp [utf8Length, hascii]
    rw [henc, hunits]
    simp only [List.map_cons, List.map_nil, List.cons_append, List.nil_append, formToken, spaceTo,
      hspace]
    split_ifs with h1 h2
    · rfl
    · rfl
    · simp [decodeTokens, hlen, decodeUtf8, hascii, hunits]
  · -- Every byte of such a character is escaped, and none of its units is a space.
    have hbytes : ∀ b ∈ encodeUtf8 p, formToken s b = .byte b := by
      intro b hb
      have hbig : 0x80 ≤ b := by
        unfold encodeUtf8 at hb
        rw [if_neg hascii] at hb
        split_ifs at hb <;> simp at hb <;> omega
      have hlt : b < 0x100 := encodeUtf8_lt hp.2 b hb
      have hplain : ¬ (isAlphanumeric b || formMarks.contains b.toUInt16) = true := fun h => by
        have := (formPlain_bounds hlt h).1
        omega
      rw [formToken, if_neg (by omega), if_neg hplain]
    have hunits : ∀ c ∈ unitsOf p, c ≠ space := by
      rintro c hc rfl
      have hval : (space.toNat : Nat) = 0x20 := by decide
      have hlt : p < 0x110000 := hp.2
      unfold unitsOf at hc
      split_ifs at hc with h
      · have h' := congrArg UInt16.toNat (List.mem_singleton.mp hc)
        rw [hval, toNat_toUInt16 h] at h'
        omega
      · rcases List.mem_cons.mp hc with h' | hc
        · have h' := congrArg UInt16.toNat h'
          rw [hval, toNat_toUInt16 (by omega)] at h'
          omega
        · have h' := congrArg UInt16.toNat (List.mem_singleton.mp hc)
          rw [hval, toNat_toUInt16 (by omega)] at h'
          omega
    have hmap : (encodeUtf8 p).map (formToken s) = (encodeUtf8 p).map .byte :=
      List.map_congr_left hbytes
    have hsame : spaceTo s (unitsOf p) = unitsOf p := by
      refine (List.map_congr_left fun c hc => ?_).trans (List.map_id' _)
      simp [hunits c hc]
    rw [hmap, hsame, decodeTokens_bytes hp]

/-- What a form wrote for a list of characters is read as them, a space as `s`. -/
theorem decodeURIComponent_formPoints {s : CodeUnit} (hs : s ≠ percentSign) {points : List Nat}
    (hpoints : ∀ p ∈ points, IsScalar p) :
    decodeURIComponent (plusTo s (points.flatMap fun p => (encodeUtf8 p).flatMap formByte)) =
      some (spaceTo s (ofCodePoints points)) := by
  have htokens : ∀ t, percentTokens
      (plusTo s (points.flatMap fun p => (encodeUtf8 p).flatMap formByte) ++ t) =
        (percentTokens t).map
          ((points.flatMap fun p => (encodeUtf8 p).map (formToken s)) ++ ·) := by
    intro t
    induction points with
    | nil => simp [plusTo]
    | cons p points ih =>
        have ih := ih fun q hq => hpoints q (by simp [hq])
        have hp : p < 0x110000 := (hpoints p (by simp)).2
        have hsplit : plusTo s ((p :: points).flatMap fun p => (encodeUtf8 p).flatMap formByte) ++ t
            = plusTo s ((encodeUtf8 p).flatMap formByte) ++
              (plusTo s (points.flatMap fun p => (encodeUtf8 p).flatMap formByte) ++ t) := by
          simp [plusTo]
        rw [hsplit, percentTokens_formBytes hs (encodeUtf8_lt hp), ih]
        simp [Function.comp_def]
  have hdecode : decodeTokens [] (points.flatMap fun p => (encodeUtf8 p).map (formToken s)) =
      some (spaceTo s (ofCodePoints points)) := by
    clear htokens
    induction points with
    | nil => rfl
    | cons p points ih =>
        rw [List.flatMap_cons, decodeTokens_formTokens s (hpoints p (by simp)),
          ih fun q hq => hpoints q (by simp [hq])]
        simp [spaceTo, ofCodePoints]
  have h := htokens []
  rw [List.append_nil, percentTokens_nil] at h
  simp [decodeURIComponent, h, hdecode]

/-- A name or value that a form wrote is read back, its lone surrogates replaced and
its spaces as `s`. -/
theorem decodeURIComponent_formText {s : CodeUnit} (hs : s ≠ percentSign) (t : Text) :
    decodeURIComponent (plusTo s (formText t)) = some (spaceTo s (scrub t)) := by
  apply decodeURIComponent_formPoints hs
  intro p hp
  obtain ⟨q, hq, rfl⟩ := List.mem_map.mp hp
  exact isScalar_scalar (codePoints_lt t q hq)

/-- A pair as it is read back. -/
def pairText (s : CodeUnit) (pair : Text × Text) : Text :=
  spaceTo s (scrub pair.1) ++ units "=" ++ spaceTo s (scrub pair.2)

theorem decodeURIComponent_formPair {s : CodeUnit} (hs : s ≠ percentSign) (pair : Text × Text) :
    decodeURIComponent (plusTo s (formPair pair)) = some (pairText s pair) := by
  have hequals : isEscapeUnit 0x3D = false := by decide
  have hkeep : (0x3D : CodeUnit) ≠ plusSign := by decide
  have hunits : units "=" = [0x3D] := by decide
  have hsplit : plusTo s (formPair pair) =
      plusTo s (formText pair.1) ++ 0x3D :: plusTo s (formText pair.2) := by
    simp [plusTo, formPair, hunits, hkeep]
  rw [hsplit, decodeURIComponent_append_cons hequals, decodeURIComponent_formText hs,
    decodeURIComponent_formText hs]
  simp [pairText, hunits]

/-- What a form wrote is read back as its pairs, joined as they were written. -/
theorem decodeURIComponent_formSerialize {s : CodeUnit} (hs : s ≠ percentSign)
    (pairs : List (Text × Text)) :
    decodeURIComponent (plusTo s (formSerialize pairs)) =
      some (joinWith (units "&") (pairs.map (pairText s))) := by
  have hand : isEscapeUnit 0x26 = false := by decide
  have hkeep : (0x26 : CodeUnit) ≠ plusSign := by decide
  have hunits : units "&" = [0x26] := by decide
  induction pairs with
  | nil => rfl
  | cons pair pairs ih =>
      cases pairs with
      | nil => simpa [formSerialize, joinWith] using decodeURIComponent_formPair hs pair
      | cons next rest =>
          have hsplit : plusTo s (formSerialize (pair :: next :: rest)) =
              plusTo s (formPair pair) ++ 0x26 :: plusTo s (formSerialize (next :: rest)) := by
            simp [plusTo, formSerialize, joinWith, hunits, hkeep]
          rw [hsplit, decodeURIComponent_append_cons hand, decodeURIComponent_formPair hs, ih]
          simp [joinWith, hunits]

/-- A character that a form writes: one it leaves as it is, or the sign of a space or an escape. -/
def isFormUnit (c : CodeUnit) : Bool :=
  isAlphanumeric c.toNat || formMarks.contains c || c = plusSign || c = percentSign

theorem isFormUnit_hexDigit {n : Nat} (hn : n < 16) : isFormUnit (hexDigit n) = true := by
  have hdigit : isAlphanumeric (hexDigit n).toNat = true := by
    rw [hexDigit]
    split_ifs with hten
    · rw [toNat_toUInt16 (by omega), isAlphanumeric]
      simp
      omega
    · rw [toNat_toUInt16 (by omega), isAlphanumeric]
      simp
      omega
  rw [isFormUnit, hdigit]
  rfl

theorem isFormUnit_of_mem_formByte {b : Nat} (hb : b < 0x100) {c : CodeUnit}
    (hc : c ∈ formByte b) : isFormUnit c = true := by
  rw [formByte, escapeByte] at hc
  split_ifs at hc with hspace hplain
  · rw [List.mem_singleton.mp hc]
    decide
  · -- A byte that is left as it is stands for the character of its number.
    rw [List.mem_singleton.mp hc, isFormUnit, toNat_toUInt16 (by omega), hplain]
    rfl
  · simp only [percentByte, List.mem_cons, List.not_mem_nil, or_false] at hc
    rcases hc with rfl | rfl | rfl
    · decide
    · exact isFormUnit_hexDigit (by omega)
    · exact isFormUnit_hexDigit (by omega)

/-- What a form writes of a text is made of such characters. -/
theorem isFormUnit_of_mem_formText {t : Text} {c : CodeUnit} (hc : c ∈ formText t) :
    isFormUnit c = true := by
  obtain ⟨p, hp, hbytes⟩ := List.mem_flatMap.mp hc
  obtain ⟨q, hq, rfl⟩ := List.mem_map.mp hp
  obtain ⟨b, hb, hbyte⟩ := List.mem_flatMap.mp hbytes
  exact isFormUnit_of_mem_formByte
    (encodeUtf8_lt (isScalar_scalar (codePoints_lt t q hq)).2 b hb) hbyte

theorem not_mem_formText_of_other {c : CodeUnit} (hc : isFormUnit c = false) {t : Text} :
    c ∉ formText t := by
  intro hmem
  rw [isFormUnit_of_mem_formText hmem] at hc
  cases hc

/-- A character that forms escape, and that joins nothing, is not in a written form. -/
theorem not_mem_formSerialize {c : CodeUnit} (hc : isFormUnit c = false)
    (hequals : c ≠ 0x3D) (hand : c ≠ 0x26) (pairs : List (Text × Text)) :
    c ∉ formSerialize pairs := by
  have hpair : ∀ pair : Text × Text, c ∉ formPair pair := by
    intro pair
    have hunits : units "=" = [0x3D] := by decide
    simp [formPair, hunits, not_mem_formText_of_other hc, hequals]
  have hunits : units "&" = [0x26] := by decide
  induction pairs with
  | nil => simp [formSerialize, joinWith]
  | cons pair pairs ih =>
      cases pairs with
      | nil => simpa [formSerialize, joinWith] using hpair pair
      | cons next rest =>
          have hsplit : formSerialize (pair :: next :: rest) =
              formPair pair ++ 0x26 :: formSerialize (next :: rest) := by
            simp [formSerialize, joinWith, hunits]
          simp [hsplit, hpair pair, ih, hand]

end Library
