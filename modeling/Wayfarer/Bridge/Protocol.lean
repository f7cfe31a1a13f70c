import Wayfarer.Bridge.Server
import Wayfarer.Transport.Bridge

/-!
# What the page and the bridge say to each other

The page posts a relay as JSON (`relayPayload`), and the bridge reads it strictly (`readPayload`)
and sends it on; the bridge answers with an envelope (`relayAnswer`), and the page reads that
strictly (`readAnswer`). `relay_speaks` is the agreement of the two: what the page asks for is what
is sent, and what the target answered is what the page reads.

Node writes a header's value only when it holds no control character but the tab, where a browser
refuses a line break inside and a NUL alone: `brokenHeader_not_relayed`.
-/

set_option autoImplicit false

namespace Wayfarer

open Library

/-! ## What the page posts -/

/-- The fields the bridge reads, and no other. -/
def relayPayload (m : RelayMessage) : Json :=
  .object ([(units "method", .string m.method), (units "url", .string m.url),
      (units "headers", .array (m.headers.map fun header =>
        .array [.string header.1, .string header.2]))] ++
    (match m.body with
      | none => []
      | some bytes => [(units "bodyB64", .string (base64 bytes))]) ++
    (match m.timeoutMs with
      | none => []
      | some ms => [(units "timeoutMs", .number (.ofNat ms))]) ++
    if m.tlsInsecure then [(units "tls", .object [(units "insecure", .bool true)])] else [])

/-! ## What Node refuses to write -/

/-- A character of a header's value: the tab, or one that is no control character. -/
def isHeaderUnit (c : CodeUnit) : Bool :=
  c = 0x09 || (decide (0x20 ≤ c.toNat) && decide (c.toNat ≤ 0xFF) && decide (c ≠ 0x7F))

/-- Why Node does not write a header. -/
def headerRefused (header : Text × List Text) : Option Text :=
  if header.1 = [] ∨ header.1.all isTokenUnit = false then
    some (units "Header name must be a valid HTTP token [\"" ++ header.1 ++ units "\"]")
  else if header.2.all (fun value => value.all isHeaderUnit) then none
  else some (units "Invalid character in header content [\"" ++ header.1 ++ units "\"]")

/-- Why Node does not write a request. -/
def nodeRefuses (outgoing : OutgoingRequest) : Option Text :=
  outgoing.headers.findSome? headerRefused

/-- The bridge on Node. -/
def onNode (P : Platform) : BridgePlatform where
  platform := P
  refuses := nodeRefuses

/-! ## What the bridge answers -/

/-- A way a body is encoded that Node can undo. -/
inductive Decoder where
  | gunzip
  | inflate
  | brotli

/-- A response of a target, as Node gives it. -/
structure TargetResponse where
  status : Nat
  message : Option Text
  /-- Names and values in turn. -/
  rawHeaders : List Text
  /-- `content-encoding`. -/
  encoding : Option Text
  chunks : List (List Nat)

/-- What a decoder makes of bytes, or what is wrong with them. -/
abbrev Decoding := Decoder → List Nat → Except Text (List Nat)

/-- What undoes an encoding: nothing where there is nothing to undo. `none`: Node cannot. -/
def decoderFor (P : Platform) (encoding : Option Text) : Option (Option Decoder) :=
  let name := P.toLowerCase (trim (encoding.getD []))
  if name = [] ∨ name = units "identity" then some none
  else if name = units "gzip" ∨ name = units "x-gzip" then some (some .gunzip)
  else if name = units "deflate" then some (some .inflate)
  else if name = units "br" then some (some .brotli)
  else none

/-- Node's flat headers as pairs. -/
def pairHeaders : List Text → List (Text × Text)
  | name :: value :: rest => (name, value) :: pairHeaders rest
  | _ => []

/-- The most bytes of a response, as received and as decoded. -/
def maxRelayBytes : Nat := 25 * 1024 * 1024

/-- A failure of a relay. -/
def relayFailure (status : Nat) (message code : Text) (before : List (Text × Text)) : HttpAnswer :=
  sendJson status (.object [(units "error", .object [(units "message", .string message),
    (units "code", .string code)])]) before []

/-- The bytes of a response, decoded. A response with no bytes has nothing to decode. -/
def decodedBody (decoding : Decoding) (decoder : Option Decoder) (r : TargetResponse) :
    Except Text (List Nat) :=
  match decoder with
  | none => .ok r.chunks.flatten
  | some decoder => if r.chunks.flatten = [] then .ok [] else decoding decoder r.chunks.flatten

/-- A list of pairs in JSON. -/
def pairsJson (pairs : List (Text × Text)) : Json :=
  .array (pairs.map fun pair => .array [.string pair.1, .string pair.2])

/-- The envelope of a response. -/
def relayEnvelope (r : TargetResponse) (bytes : List Nat) (timings : Json) : Json :=
  .object [(units "status", .number (.ofNat r.status)),
    (units "statusText", .string (r.message.getD [])),
    (units "headers", pairsJson (pairHeaders r.rawHeaders)),
    (units "bodyB64", .string (base64 bytes)),
    (units "encodedSize", .number (.ofNat r.chunks.flatten.length)),
    (units "decodedSize", .number (.ofNat bytes.length)), (units "timings", timings)]

/-- What the bridge answers when the target has responded. -/
def relayAnswer (P : Platform) (decoding : Decoding) (timings : Json)
    (before : List (Text × Text)) (r : TargetResponse) : HttpAnswer :=
  let tooLarge := relayFailure 502 (units "response body too large")
    (units "RELAY_RESPONSE_TOO_LARGE") before
  match decoderFor P r.encoding with
  | none =>
      relayFailure 502 (units "the response's Content-Encoding (" ++ r.encoding.getD [] ++
        units ") is not one the bridge can decode") (units "RELAY_DECODE_ERROR") before
  | some decoder =>
      if maxRelayBytes < r.chunks.flatten.length then tooLarge
      else
        match decodedBody decoding decoder r with
        | .error message =>
            relayFailure 502 (units "the response could not be decoded: " ++ message)
              (units "RELAY_DECODE_ERROR") before
        | .ok bytes =>
            if maxRelayBytes < bytes.length then tooLarge
            else sendJson 200 (relayEnvelope r bytes timings) before []

/-! ## What the page reads -/

/-- The bridge's answer to a relay. -/
structure RelayEnvelope where
  status : Json
  statusText : Text
  headers : List (Text × Text)
  bodyB64 : Text
  encodedSize : Json
  decodedSize : Json

/-- A whole number. -/
def wholeOf : Json → Option Nat
  | .number n => n.whole
  | _ => none

/-- The bridge's answer, every field checked. -/
def parseEnvelope (value : Option Json) : Option RelayEnvelope :=
  match value with
  | some (.object members) => do
      let status ← (field members (units "status")).filter fun value => isNumber (some value)
      let statusText ← textOf (field members (units "statusText"))
      let headers ← textPairs (field members (units "headers"))
      let bodyB64 ← textOf (field members (units "bodyB64"))
      let encodedSize ← (field members (units "encodedSize")).filter fun value =>
        isNumber (some value)
      let decodedSize ← (field members (units "decodedSize")).filter fun value =>
        isNumber (some value)
      return { status, statusText, headers, bodyB64, encodedSize, decodedSize }
  | _ => none

/-- What is said when the page and the bridge are of different versions. -/
def bridgeMismatch : Text :=
  units ("The Local Bridge that answered does not understand this page. Update the Local Bridge " ++
    "and reload Wayfarer, then start the bridge again.")

/-- The response in an envelope. A status is whole. -/
def toEnvelope (P : Platform) (relay : RelayEnvelope) (url : Text) (insecure : Bool) :
    Except TransportError ResponseEnvelope :=
  match base64Decode relay.bodyB64 with
  | none => .error { kind := .bridge, message := bridgeMismatch }
  | some bytes =>
      if wholeOf relay.decodedSize = some bytes.length then
        .ok { status := (wholeOf relay.status).getD 0
              statusText := relay.statusText
              headers := relay.headers.map fun header => (P.toLowerCase header.1, header.2)
              body := .bytes (bytes.map UInt16.toNat)
              redirected := false
              finalUrl := url
              route := .bridge
              encodedSize := wholeOf relay.encodedSize
              decodedSize := bytes.length
              tlsInsecure := insecure }
      else .error { kind := .bridge, message := bridgeMismatch }

/-- What a failure of the bridge says. -/
def describeError (body : Option Json) : Option Text :=
  match field (fieldsOf body) (units "error") with
  | some (.string t) => if t = [] then none else some t
  | some (.object members) => textOf (field members (units "message"))
  | _ => none

/-- What the page reads of the bridge's answer to a relay. -/
def readAnswer (P : Platform) (answer : HttpAnswer) (url : Text) (insecure : Bool) :
    Except TransportError ResponseEnvelope :=
  if answer.status = 404 then
    .error { kind := .bridge, message := bridgeMismatch, status := some 404 }
  else if ¬ (200 ≤ answer.status ∧ answer.status ≤ 299) then
    .error
      { kind := .bridge
        message := (describeError answer.body).getD
          (units "The bridge answered " ++ decimalText answer.status ++ units ".")
        status := some answer.status }
  else
    match parseEnvelope answer.body with
    | none => .error { kind := .bridge, message := bridgeMismatch }
    | some relay => toEnvelope P relay url insecure

/-! ## A relay as it is read -/

/-- The language's case changes, as far as ASCII goes. -/
structure AsciiCase (P : Platform) : Prop where
  lower : ∀ t : Text, (∀ c ∈ t, c.toNat < 0x80) → P.toLowerCase t = t.map asciiLower
  upper : ∀ t : Text, (∀ c ∈ t, c.toNat < 0x80) → P.toUpperCase t = t.map asciiUpper

/-- A method of the app is its own upper case. -/
theorem AsciiCase.upper_method {P : Platform} (h : AsciiCase P) {method : Text}
    (hmethod : isHttpMethod method = true) : P.toUpperCase method = method := by
  have hmarks : ∀ c ∈ methodMarks, c.toNat < 0x80 ∧ asciiUpper c = c := by decide
  rw [isHttpMethod, Bool.and_eq_true, List.all_eq_true] at hmethod
  have hmem : ∀ c ∈ method, c ∈ methodMarks := by
    intro c hc
    simpa using hmethod.2 c hc
  rw [h.upper method fun c hc => (hmarks c (hmem c hc)).1]
  apply (List.map_congr_left fun c hc => (hmarks c (hmem c hc)).2).trans
  exact List.map_id _

/-- A method of the app is one a relay may name. -/
theorem isRelayMethod_of_isHttpMethod {method : Text} (h : isHttpMethod method = true) :
    isRelayMethod method = true := by
  have hmarks : ∀ c ∈ methodMarks, isTokenUnit c = true := by decide
  rw [isHttpMethod, Bool.and_eq_true, List.all_eq_true] at h
  rw [isRelayMethod, Bool.and_eq_true, List.all_eq_true]
  refine ⟨h.1, fun c hc => hmarks c ?_⟩
  simpa using h.2 c hc

/-- Pairs written in JSON are read back. -/
theorem textPairs_pairsJson (pairs : List (Text × Text)) :
    textPairs (some (pairsJson pairs)) = some pairs := by
  rw [pairsJson, textPairs.eq_def]
  dsimp only
  rw [mapM_eq_some_iff, List.forall₂_map_left_iff, List.forall₂_same]
  exact fun pair _ => rfl

/-- The bytes of a body are read back. -/
theorem isBase64Text_base64 (bytes : List Nat) : isBase64Text (base64 bytes) = true := by
  have hdigits : ∀ c ∈ (sextets bytes).map base64Digit, base64Alphabet.contains c = true := by
    intro c hc
    obtain ⟨n, -, rfl⟩ := List.mem_map.mp hc
    simpa using base64Digit_mem n
  have hlength := (length_sextets bytes).1
  rw [← List.length_map (f := base64Digit), ← List.length_append, ← base64_eq] at hlength
  have hpadding : base64Padding ∉ base64Alphabet := padding_not_mem_alphabet
  have htake : (base64 bytes).takeWhile base64Alphabet.contains =
      (sextets bytes).map base64Digit := by
    rw [base64_eq, List.takeWhile_append_of_pos hdigits, paddingOf]
    split_ifs <;> simp [hpadding]
  have hcases : paddingOf bytes = [] ∨ paddingOf bytes = units "=" ∨
      paddingOf bytes = units "==" := by
    have hunits : units "=" = [base64Padding] ∧ units "==" = [base64Padding, base64Padding] := by
      decide
    rw [hunits.1, hunits.2, paddingOf]
    split_ifs <;> simp
  rw [isBase64Text, htake]
  have hdrop : (base64 bytes).drop ((sextets bytes).map base64Digit).length = paddingOf bytes := by
    rw [base64_eq, List.drop_left]
  rw [hdrop]
  simp only [Bool.and_eq_true, Bool.or_eq_true, decide_eq_true_eq]
  exact ⟨hlength, by rcases hcases with h | h | h <;> simp [h]⟩

theorem map_toNat_toUInt16 {bytes : List Nat} (h : ∀ b ∈ bytes, b < 0x100) :
    (bytes.map Nat.toUInt16).map UInt16.toNat = bytes := by
  rw [List.map_map]
  apply (List.map_congr_left fun b hb => _).trans (List.map_id _)
  intro b hb
  exact toNat_toUInt16 ((h b hb).trans (by decide))

/-- The members of a posted relay. -/
theorem relayPayload_members (m : RelayMessage) : ∃ members, relayPayload m = .object members ∧
    (∀ member ∈ members, member.1 ∈ relayFields) ∧
    field members (units "method") = some (.string m.method) ∧
    field members (units "url") = some (.string m.url) ∧
    field members (units "headers") = some (pairsJson m.headers) ∧
    field members (units "bodyB64") = m.body.map (fun bytes => .string (base64 bytes)) ∧
    field members (units "timeoutMs") = m.timeoutMs.map (fun ms => .number (.ofNat ms)) ∧
    field members (units "tls") =
      if m.tlsInsecure then some (.object [(units "insecure", .bool true)]) else none := by
  obtain ⟨method, url, headers, body, timeoutMs, insecure⟩ := m
  refine ⟨_, rfl, ?_⟩
  cases body with
  | none =>
      cases timeoutMs with
      | none => cases insecure <;> exact ⟨by simp [relayFields], rfl, rfl, rfl, rfl, rfl, rfl⟩
      | some ms => cases insecure <;> exact ⟨by simp [relayFields], rfl, rfl, rfl, rfl, rfl, rfl⟩
  | some bytes =>
      cases timeoutMs with
      | none => cases insecure <;> exact ⟨by simp [relayFields], rfl, rfl, rfl, rfl, rfl, rfl⟩
      | some ms => cases insecure <;> exact ⟨by simp [relayFields], rfl, rfl, rfl, rfl, rfl, rfl⟩

/-- A posted relay, as far as the bridge admits it. -/
structure Admits (P : Platform) (m : RelayMessage) (target : UrlRecord) : Prop where
  method : isHttpMethod m.method = true
  url : P.parseUrl m.url = some target
  protocol : target.protocol = units "http:" ∨ target.protocol = units "https:"
  bytes : ∀ bytes, m.body = some bytes → ∀ b ∈ bytes, b < 0x100
  timeout : ∀ ms, m.timeoutMs = some ms → 1 ≤ ms ∧ ms ≤ maxTimeoutMs
  host : (m.headers.filter fun header => P.toLowerCase header.1 = units "host").length ≤ 1

theorem ok_bind {ε α β : Type} (a : α) (f : α → Except ε β) :
    (Except.ok a >>= f) = f a := rfl

/-- What the page posts is read as it was meant, its timeout as the bridge reads one. -/
theorem readPayload_eq_map {P : Platform} (hcase : AsciiCase P) {m : RelayMessage}
    {target : UrlRecord} (hmethod : isHttpMethod m.method = true)
    (hurl : P.parseUrl m.url = some target)
    (hprotocol : target.protocol = units "http:" ∨ target.protocol = units "https:")
    (hbytes : ∀ bytes, m.body = some bytes → ∀ b ∈ bytes, b < 0x100)
    (hhost : (m.headers.filter fun header => P.toLowerCase header.1 = units "host").length ≤ 1) :
    readPayload P (relayPayload m) =
      (readTimeout (m.timeoutMs.map fun ms => .number (.ofNat ms))).map fun ms =>
        { method := m.method, target, headers := m.headers, body := m.body, timeoutMs := ms,
          insecure := m.tlsInsecure } := by
  obtain ⟨members, hpayload, hfields, hmethodField, hurlField, hheaders, hbody, htimeout, htls⟩ :=
    relayPayload_members m
  -- The members of the payload are known ones, and each is read as it was written.
  have hknown : members.find? (fun member => decide (member.1 ∉ relayFields)) = none := by
    rw [List.find?_eq_none]
    intro member hmember
    simpa using hfields member hmember
  have htlsRead : readTls (if m.tlsInsecure then some (.object [(units "insecure", .bool true)])
      else none) = .ok m.tlsInsecure := by
    cases m.tlsInsecure <;> rfl
  have hmethodRead : readMethod (some (.string m.method)) = .ok m.method :=
    if_pos (isRelayMethod_of_isHttpMethod hmethod)
  have hheadersRead : readHeaders (some (pairsJson m.headers)) = .ok m.headers := by
    rw [readHeaders, textPairs_pairsJson]
  have hbodyRead : readBodyB64 (m.body.map fun bytes => .string (base64 bytes)) = .ok m.body := by
    cases hsome : m.body with
    | none => rfl
    | some bytes =>
        have hlow := hbytes bytes hsome
        rw [Option.map_some, readBodyB64, if_pos (isBase64Text_base64 bytes),
          base64Decode_base64 hlow, Option.getD_some, map_toNat_toUInt16 hlow]
  have htargetRead : readTarget P (some (.string m.url)) = .ok target := by
    have htext : stringOf (.string m.url) = m.url := by rw [stringOf]
    rw [readTarget.eq_def]
    simp only [htext, hurl]
    exact if_pos hprotocol
  rw [hpayload, readPayload]
  simp only [hknown, hmethodField, hurlField, hheaders, hbody, htimeout, htls, htlsRead,
    hmethodRead, hheadersRead, hbodyRead, ok_bind]
  -- Only the timeout can be refused.
  cases readTimeout (m.timeoutMs.map fun ms => .number (.ofNat ms)) with
  | error e => rfl
  | ok ms =>
      simp only [ok_bind, if_neg (Nat.not_lt.mpr hhost), htargetRead, hcase.upper_method hmethod]
      rfl

/-- What the page posts is read as it was meant. -/
theorem readPayload_relayPayload {P : Platform} (hcase : AsciiCase P) {m : RelayMessage}
    {target : UrlRecord} (h : Admits P m target) :
    readPayload P (relayPayload m) =
      .ok { method := m.method, target, headers := m.headers, body := m.body,
            timeoutMs := m.timeoutMs.getD relayTimeoutMs, insecure := m.tlsInsecure } := by
  have htimeoutRead : readTimeout (m.timeoutMs.map fun ms => .number (.ofNat ms)) =
      .ok (m.timeoutMs.getD relayTimeoutMs) := by
    cases hms : m.timeoutMs with
    | none => rfl
    | some ms =>
        rw [Option.map_some, readTimeout, JsonNumber.whole_ofNat]
        exact if_pos (h.timeout ms hms)
  rw [readPayload_eq_map hcase h.method h.url h.protocol h.bytes h.host, htimeoutRead]
  rfl

/-! ## What is sent -/

/-- One header a name, whatever its case. -/
def OnePerName (P : Platform) (headers : List (Text × Text)) : Prop :=
  (headers.map fun header => P.toLowerCase header.1).Nodup

/-- Headers of different names are grouped by themselves. -/
theorem entries_grouped {headers : List (Text × Text)} (hnodup : (headers.map Prod.fst).Nodup)
    (m : OrderedMap Text (List Text)) (hnew : ∀ header ∈ headers, header.1 ∉ m.keys) :
    (headers.foldl (fun out header =>
        out.set header.1 ((out.get? header.1).getD [] ++ [header.2])) m).entries =
      m.entries ++ headers.map fun header => (header.1, [header.2]) := by
  induction headers generalizing m with
  | nil => simp
  | cons header headers ih =>
      rw [List.map_cons, List.nodup_cons] at hnodup
      have hmem := hnew header List.mem_cons_self
      have hnone : m.get? header.1 = none := OrderedMap.get?_eq_none_iff.mpr hmem
      rw [List.foldl_cons, hnone, ih hnodup.2]
      · rw [OrderedMap.entries_set_of_not_mem hmem, List.append_assoc]
        rfl
      · intro other hother hkeys
        rcases OrderedMap.mem_keys_set.mp hkeys with heq | hold
        · exact hnodup.1 (heq ▸ List.mem_map_of_mem hother)
        · exact hnew other (List.mem_cons_of_mem header hother) hold

/-- The headers that are forwarded: those that are not the connection's own. -/
def forwarded (P : Platform) (headers : List (Text × Text)) : List (Text × Text) :=
  headers.filter fun header => P.toLowerCase header.1 ∉ hopByHopHeaders

/-- Headers of one value a name are forwarded as they are. -/
theorem sanitize_of_onePerName {P : Platform} {headers : List (Text × Text)}
    (h : OnePerName P headers) :
    sanitizeOutgoingHeaders P headers =
      (forwarded P headers).map fun header => (header.1, [header.2]) := by
  have hkept : ((forwarded P headers).map Prod.fst).Nodup := by
    have hlower : (((forwarded P headers).map Prod.fst).map P.toLowerCase).Nodup := by
      rw [List.map_map]
      exact h.sublist (List.filter_sublist.map _)
    exact List.Nodup.of_map _ hlower
  have hentries := entries_grouped hkept .empty fun _ _ => List.not_mem_nil
  rw [forwarded] at hentries
  rw [sanitizeOutgoingHeaders, hentries, forwarded, OrderedMap.empty, List.nil_append, List.map_map]
  apply List.map_congr_left
  intro header _
  simp

/-- A name stands once among headers of different names. -/
theorem OnePerName.length_filter_le {P : Platform} {headers : List (Text × Text)}
    (h : OnePerName P headers) (name : Text) :
    (headers.filter fun header => P.toLowerCase header.1 = name).length ≤ 1 := by
  have hcount := List.nodup_iff_count_le_one.mp h name
  rw [List.count, List.countP_map, List.countP_eq_length_filter] at hcount
  refine le_trans (le_of_eq ?_) hcount
  congr 1
  apply List.filter_congr
  intro header _
  rw [Bool.eq_iff_iff]
  simp

/-- What is sent is what the page asked for. -/
structure SentAsAsked (P : Platform) (m : RelayMessage) (target : UrlRecord)
    (outgoing : OutgoingRequest) : Prop where
  method : outgoing.method = m.method
  target : outgoing.target = target
  /-- Every header that is not one of the connection's own, with its value. -/
  headers : ∀ header ∈ m.headers, P.toLowerCase header.1 ∉ hopByHopHeaders →
    (header.1, [header.2]) ∈ outgoing.headers
  /-- No other header, but the two the bridge adds. -/
  only : ∀ entry ∈ outgoing.headers, (∃ header ∈ m.headers, entry = (header.1, [header.2])) ∨
    entry.1 = units "Accept-Encoding" ∨ entry.1 = units "Content-Length"
  /-- Node keeps the last header of a name: there is one. -/
  once : (outgoing.headers.map fun entry => P.toLowerCase entry.1).Nodup
  body : outgoing.body = m.body
  timeout : outgoing.timeoutMs = m.timeoutMs.getD relayTimeoutMs
  insecure : outgoing.insecure = m.tlsInsecure

/-- The names in front of a `Content-Length`: one of each, and not that. -/
theorem nodup_front {P : Platform} (hcase : AsciiCase P) {headers : List (Text × Text)}
    (hnames : OnePerName P headers) :
    ((sanitizeOutgoingHeaders P headers ++ acceptEncodingOf P headers).map
        fun entry => P.toLowerCase entry.1).Nodup ∧
      units "content-length" ∉ (sanitizeOutgoingHeaders P headers ++
        acceptEncodingOf P headers).map fun entry => P.toLowerCase entry.1 := by
  have haccept : P.toLowerCase (units "Accept-Encoding") = units "accept-encoding" := by
    rw [hcase.lower _ (by decide)]
    decide
  have hkept : ((forwarded P headers).map fun header => P.toLowerCase header.1).Nodup :=
    hnames.sublist (List.filter_sublist.map _)
  have hown : units "content-length" ∉
      (forwarded P headers).map fun header => P.toLowerCase header.1 := by
    intro hmem
    obtain ⟨header, hheader, hname⟩ := List.mem_map.mp hmem
    have hnot := (List.mem_filter.mp hheader).2
    rw [hname] at hnot
    exact absurd hnot (by decide)
  rw [sanitize_of_onePerName hnames, acceptEncodingOf, List.map_append, List.map_map]
  by_cases hany : headers.any (fun header => P.toLowerCase header.1 = units "accept-encoding")
  · rw [if_pos hany, List.map_nil, List.append_nil]
    exact ⟨hkept, hown⟩
  · rw [if_neg hany, List.map_singleton, haccept]
    constructor
    · refine List.nodup_append.mpr ⟨hkept, List.nodup_singleton _, ?_⟩
      intro name hname other hother heq
      rw [List.mem_singleton.mp hother] at heq
      obtain ⟨header, hheader, hlower⟩ := List.mem_map.mp hname
      apply hany
      rw [List.any_eq_true]
      exact ⟨header, (List.mem_filter.mp hheader).1, by simpa using hlower.trans heq⟩
    · intro hmem
      rcases List.mem_append.mp hmem with hmem | hmem
      · exact hown hmem
      · exact absurd (List.mem_singleton.mp hmem) (by decide)

theorem sentAsAsked {P : Platform} (hcase : AsciiCase P) {m : RelayMessage} (target : UrlRecord)
    (hnames : OnePerName P m.headers) :
    SentAsAsked P m target (outgoingOf P
      { method := m.method, target, headers := m.headers, body := m.body,
        timeoutMs := m.timeoutMs.getD relayTimeoutMs, insecure := m.tlsInsecure }) where
  method := rfl
  target := rfl
  headers header hheader hown := by
    rw [outgoingOf, sanitize_of_onePerName hnames]
    apply List.mem_append_left
    apply List.mem_append_left
    refine List.mem_map.mpr ⟨header, List.mem_filter.mpr ⟨hheader, ?_⟩, rfl⟩
    simpa using hown
  only entry hentry := by
    rw [outgoingOf, sanitize_of_onePerName hnames] at hentry
    rcases List.mem_append.mp hentry with hentry | hlength
    · rcases List.mem_append.mp hentry with hkept | haccept
      · -- A header of the request, or one of the two the bridge adds.
        obtain ⟨header, hheader, rfl⟩ := List.mem_map.mp hkept
        exact .inl ⟨header, (List.mem_filter.mp hheader).1, rfl⟩
      · right
        left
        rw [acceptEncodingOf] at haccept
        split_ifs at haccept with hany
        · cases haccept
        · rw [List.mem_singleton.mp haccept]
    · right
      right
      cases hbody : m.body with
      | none =>
          rw [hbody] at hlength
          cases hlength
      | some bytes =>
          rw [hbody] at hlength
          rw [List.mem_singleton.mp hlength]
  once := by
    have hlength : P.toLowerCase (units "Content-Length") = units "content-length" := by
      rw [hcase.lower _ (by decide)]
      decide
    obtain ⟨hnodup, hown⟩ := nodup_front hcase hnames
    rw [outgoingOf, List.map_append]
    cases m.body with
    | none =>
        rw [contentLengthOf, List.map_nil, List.append_nil]
        exact hnodup
    | some bytes =>
        rw [contentLengthOf, List.map_singleton, hlength]
        -- The length is not among the names kept, which are different ones.
        refine List.nodup_append.mpr ⟨hnodup, List.nodup_singleton _, ?_⟩
        intro name hname other hother heq
        rw [List.mem_singleton.mp hother] at heq
        exact hown (heq ▸ hname)
  body := rfl
  timeout := rfl
  insecure := rfl

/-- A header that fetch and Node both write: a token, and a value without control characters. -/
def IsWritable (header : Text × Text) : Prop :=
  header.1 ≠ [] ∧ header.1.all isTokenUnit = true ∧ header.2.all isHeaderUnit = true

theorem headerRefused_of_writable {name value : Text} (h : IsWritable (name, value)) :
    headerRefused (name, [value]) = none := by
  obtain ⟨hne, htoken, hvalue⟩ := h
  rw [headerRefused, if_neg (by simp [hne, htoken]), if_pos (by simpa using hvalue)]

/-- Node writes what the bridge sends. -/
theorem nodeRefuses_eq_none {P : Platform} {request : RelayRequest}
    (hnames : OnePerName P request.headers) (h : ∀ header ∈ request.headers, IsWritable header) :
    nodeRefuses (outgoingOf P request) = none := by
  rw [nodeRefuses, List.findSome?_eq_none_iff, outgoingOf, sanitize_of_onePerName hnames]
  intro entry hentry
  rcases List.mem_append.mp hentry with hentry | hlength
  · rcases List.mem_append.mp hentry with hkept | haccept
    · obtain ⟨header, hheader, rfl⟩ := List.mem_map.mp hkept
      exact headerRefused_of_writable (h header (List.mem_filter.mp hheader).1)
    · rw [acceptEncodingOf] at haccept
      split_ifs at haccept with hany
      · cases haccept
      · rw [List.mem_singleton.mp haccept]
        exact headerRefused_of_writable ⟨by decide, by decide, by decide⟩
  · cases hbody : request.body with
    | none =>
        rw [hbody] at hlength
        cases hlength
    | some bytes =>
        rw [hbody] at hlength
        rw [List.mem_singleton.mp hlength]
        have hdigits : ∀ c ∈ units "0123456789", isHeaderUnit c = true := by decide
        have hname : units "Content-Length" ≠ [] ∧
            (units "Content-Length").all isTokenUnit = true := by decide
        refine headerRefused_of_writable ⟨hname.1, hname.2, ?_⟩
        rw [List.all_eq_true]
        exact fun c hc => hdigits c (mem_decimalText hc)

/-! ## Requests that are put together -/

/-- A built request as a transport is given it. -/
def BuiltRequest.toTransport (request : BuiltRequest) : TransportRequest :=
  { method := request.method, url := request.url, headers := request.headers, body := request.body }

/-- Every header is kept under its name in lower case. -/
def KeptByName (P : Platform) (m : OrderedMap Text (Text × Text)) : Prop :=
  ∀ e ∈ m.entries, P.toLowerCase e.2.1 = e.1

theorem KeptByName.set {P : Platform} {m : OrderedMap Text (Text × Text)} (h : KeptByName P m)
    {name lower : Text} (hname : P.toLowerCase name = lower) (value : Text) :
    KeptByName P (m.set lower (name, value)) := by
  intro e he
  rcases OrderedMap.mem_entries_set he with rfl | hold
  · exact hname
  · exact h e hold

theorem keptByName_headersByName {P : Platform} (hcase : AsciiCase P) (parts : ResolvedRequest) :
    KeptByName P (parts.headersByName P) := by
  have hrows : KeptByName P (OrderedMap.ofPairs (parts.headers.map fun header =>
      (P.toLowerCase header.1, header))) := by
    intro e he
    obtain ⟨header, -, rfl⟩ := List.mem_map.mp (OrderedMap.mem_of_mem_entries_ofPairs he)
    rfl
  have hauth : P.toLowerCase (units "Authorization") = units "authorization" := by
    rw [hcase.lower _ (by decide)]
    decide
  have hevent : P.toLowerCase (units "Last-Event-ID") = units "last-event-id" := by
    rw [hcase.lower _ (by decide)]
    decide
  have htype : P.toLowerCase (units "Content-Type") = units "content-type" := by
    rw [hcase.lower _ (by decide)]
    decide
  have htoken : ∀ m, KeptByName P m → KeptByName P (match parts.token with
      | none => m
      | some token => m.set (units "authorization")
          (units "Authorization", units "Bearer " ++ token)) := by
    intro m hm
    cases parts.token with
    | none => exact hm
    | some token => exact hm.set hauth _
  have hlast : ∀ m, KeptByName P m → KeptByName P (match parts.lastEventId with
      | none => m
      | some id => m.set (units "last-event-id") (units "Last-Event-ID", id)) := by
    intro m hm
    cases parts.lastEventId with
    | none => exact hm
    | some id => exact hm.set hevent _
  have hboth := hlast _ (htoken _ hrows)
  rw [ResolvedRequest.headersByName]
  split
  · exact hboth
  · split_ifs
    · exact hboth.set htype _
    · exact hboth

/-- A request that is put together has one header a name. -/
theorem onePerName_built {P : Platform} (hcase : AsciiCase P) (parts : ResolvedRequest)
    (findings : Findings) : OnePerName P (parts.built P findings).headers := by
  have hkeys : (parts.headersByName P).values.map (fun header => P.toLowerCase header.1) =
      (parts.headersByName P).keys := by
    rw [OrderedMap.values, List.map_map]
    exact List.map_congr_left (keptByName_headersByName hcase parts)
  rw [OnePerName, ResolvedRequest.built, hkeys]
  exact (parts.headersByName P).nodup

/-- A form's type takes the place of any other. -/
theorem OnePerName.wireBody {L : LinkPlatform} (hcase : AsciiCase L.platform)
    {request : TransportRequest} (h : OnePerName L.platform request.headers) :
    OnePerName L.platform (wireBody L request).1 := by
  have htype : L.platform.toLowerCase (units "Content-Type") = units "content-type" := by
    rw [hcase.lower _ (by decide)]
    decide
  rw [Wayfarer.wireBody]
  split
  · exact h
  · exact h
  · exact h
  · next entries hbody =>
      split
      · exact h
      · next bytes type hform =>
          rw [OnePerName, List.map_append, List.map_singleton, htype]
          refine List.nodup_append.mpr
            ⟨h.sublist (List.filter_sublist.map _), List.nodup_singleton _, ?_⟩
          intro name hname other hother heq
          rw [List.mem_singleton.mp hother] at heq
          obtain ⟨header, hheader, hlower⟩ := List.mem_map.mp hname
          have hnot := (List.mem_filter.mp hheader).2
          rw [decide_eq_true_eq] at hnot
          exact hnot (hlower.trans heq)

/-! ## Responses -/

/-- What the page reads is what the target responded. -/
structure ReadsResponse (P : Platform) (r : TargetResponse) (bytes : List Nat)
    (envelope : ResponseEnvelope) : Prop where
  status : envelope.status = r.status
  statusText : envelope.statusText = r.message.getD []
  /-- Names in lower case, one entry for each that was received, in order. -/
  headers : envelope.headers =
    (pairHeaders r.rawHeaders).map fun header => (P.toLowerCase header.1, header.2)
  body : envelope.body = .bytes bytes
  decodedSize : envelope.decodedSize = bytes.length
  encodedSize : envelope.encodedSize = some r.chunks.flatten.length

/-- The envelope of a response is read as the response. -/
theorem readAnswer_relayEnvelope {P : Platform} {r : TargetResponse} {bytes : List Nat}
    (hbytes : ∀ b ∈ bytes, b < 0x100) (timings : Json) (before : List (Text × Text)) (url : Text)
    (insecure : Bool) : ∃ envelope,
      readAnswer P (sendJson 200 (relayEnvelope r bytes timings) before []) url insecure =
        .ok envelope ∧ ReadsResponse P r bytes envelope := by
  have hparse : parseEnvelope (some (relayEnvelope r bytes timings)) =
      some { status := .number (.ofNat r.status)
             statusText := r.message.getD []
             headers := pairHeaders r.rawHeaders
             bodyB64 := base64 bytes
             encodedSize := .number (.ofNat r.chunks.flatten.length)
             decodedSize := .number (.ofNat bytes.length) } := by
    -- The envelope is read by its fields, each as it was written.
    have hfields : parseEnvelope (some (relayEnvelope r bytes timings)) =
        (textPairs (some (pairsJson (pairHeaders r.rawHeaders)))).bind fun headers =>
          some { status := .number (.ofNat r.status)
                 statusText := r.message.getD []
                 headers
                 bodyB64 := base64 bytes
                 encodedSize := .number (.ofNat r.chunks.flatten.length)
                 decodedSize := .number (.ofNat bytes.length) } := rfl
    rw [hfields, textPairs_pairsJson]
    rfl
  -- A whole number that was written is read as that number.
  have hwhole : ∀ n, wholeOf (.number (.ofNat n)) = some n := fun n => by
    rw [wholeOf, JsonNumber.whole_ofNat]
  have hread : readAnswer P (sendJson 200 (relayEnvelope r bytes timings) before []) url insecure =
      .ok { status := r.status
            statusText := r.message.getD []
            headers := (pairHeaders r.rawHeaders).map fun header =>
              (P.toLowerCase header.1, header.2)
            body := .bytes bytes
            redirected := false
            finalUrl := url
            route := .bridge
            encodedSize := some r.chunks.flatten.length
            decodedSize := bytes.length
            tlsInsecure := insecure } := by
    have hstatus : (sendJson 200 (relayEnvelope r bytes timings) before []).status = 200 := rfl
    have hbody : (sendJson 200 (relayEnvelope r bytes timings) before []).body =
        some (relayEnvelope r bytes timings) := rfl
    rw [readAnswer, hstatus, hbody, hparse, if_neg (by decide), if_neg (by decide)]
    dsimp only
    rw [toEnvelope, base64Decode_base64 hbytes]
    dsimp only
    rw [if_pos (by rw [hwhole, List.length_map]), hwhole, hwhole, map_toNat_toUInt16 hbytes,
      List.length_map]
    rfl
  exact ⟨_, hread, rfl, rfl, rfl, rfl, rfl, rfl⟩

/-- A relay that is answered with 200 was answered with the envelope of the response. -/
theorem relayAnswer_ok {P : Platform} {decoding : Decoding} {timings : Json}
    {before : List (Text × Text)} {r : TargetResponse}
    (h : (relayAnswer P decoding timings before r).status = 200) :
    ∃ decoder bytes, decoderFor P r.encoding = some decoder ∧
      decodedBody decoding decoder r = .ok bytes ∧
      relayAnswer P decoding timings before r =
        sendJson 200 (relayEnvelope r bytes timings) before [] := by
  have hfailed : ∀ {message code : Text} {before : List (Text × Text)},
      (relayFailure 502 message code before).status ≠ 200 := by
    intro message code before
    show (502 : Nat) ≠ 200
    decide
  rw [relayAnswer] at h ⊢
  cases hdecoder : decoderFor P r.encoding with
  | none =>
      rw [hdecoder] at h
      exact absurd h hfailed
  | some decoder =>
      simp only [hdecoder] at h ⊢
      by_cases hencoded : maxRelayBytes < r.chunks.flatten.length
      · rw [if_pos hencoded] at h
        exact absurd h hfailed
      rw [if_neg hencoded] at h ⊢
      cases hdecoded : decodedBody decoding decoder r with
      | error message =>
          rw [hdecoded] at h
          exact absurd h hfailed
      | ok bytes =>
          simp only [hdecoded] at h ⊢
          by_cases hlarge : maxRelayBytes < bytes.length
          · rw [if_pos hlarge] at h
            exact absurd h hfailed
          · rw [if_neg hlarge]
            exact ⟨decoder, bytes, rfl, hdecoded, rfl⟩

/-! ## The agreement -/

/-- What the page asks the bridge to send for a request that was put together. -/
def askedOf (L : LinkPlatform) (parts : ResolvedRequest) (findings : Findings)
    (options : RelayOptions) : RelayMessage :=
  relayMessage L options (parts.built L.platform findings).toTransport

/-- What the page asks for is what the bridge sends, and what the target responds is what the page
reads, for headers that fetch and Node both write. -/
theorem relay_speaks {L : LinkPlatform} (hcase : AsciiCase L.platform) {parts : ResolvedRequest}
    {findings : Findings} {options : RelayOptions} {target : UrlRecord}
    (hmethod : isHttpMethod parts.method = true)
    (htarget : L.platform.parseUrl (parts.url L.platform) = some target)
    (hprotocol : target.protocol = units "http:" ∨ target.protocol = units "https:")
    (htimeout : options.timeoutMs ≤ maxTimeoutMs)
    (hbytes : ∀ bytes, (askedOf L parts findings options).body = some bytes →
      ∀ b ∈ bytes, b < 0x100)
    (hwritable : ∀ header ∈ (askedOf L parts findings options).headers, IsWritable header) :
    (∀ before, ∃ outgoing,
      relay (onNode L.platform) (relayPayload (askedOf L parts findings options)) before =
        .relays outgoing ∧
      SentAsAsked L.platform (askedOf L parts findings options) target outgoing) ∧
    ∀ decoding timings before r,
      (∀ decoder bytes, decodedBody decoding decoder r = .ok bytes → ∀ b ∈ bytes, b < 0x100) →
      (relayAnswer L.platform decoding timings before r).status = 200 →
      ∃ decoder bytes envelope, decoderFor L.platform r.encoding = some decoder ∧
        decodedBody decoding decoder r = .ok bytes ∧
        readAnswer L.platform (relayAnswer L.platform decoding timings before r)
          (parts.url L.platform) options.tlsInsecure = .ok envelope ∧
        ReadsResponse L.platform r bytes envelope := by
  constructor
  · -- What the page asks for.
    intro before
    have hnames : OnePerName L.platform (askedOf L parts findings options).headers :=
      OnePerName.wireBody hcase (onePerName_built hcase parts findings)
    have hadmits : Admits L.platform (askedOf L parts findings options) target :=
      { method := hmethod
        url := htarget
        protocol := hprotocol
        bytes := hbytes
        timeout := by
          intro ms hms
          have hasked : (askedOf L parts findings options).timeoutMs =
              if 0 < options.timeoutMs then some options.timeoutMs else none := rfl
          rw [hasked] at hms
          split_ifs at hms with hpos
          cases hms
          exact ⟨hpos, htimeout⟩
        host := hnames.length_filter_le _ }
    have hread := readPayload_relayPayload hcase hadmits
    refine ⟨_, ?_, sentAsAsked hcase target hnames⟩
    rw [relay, onNode, hread]
    dsimp only
    rw [nodeRefuses_eq_none hnames hwritable]
  · -- What the page reads: an answer of status 200 is an envelope.
    intro decoding timings before r hdecoded hstatus
    obtain ⟨decoder, bytes, hdecoder, hbody, hanswer⟩ := relayAnswer_ok hstatus
    obtain ⟨envelope, hread, hsame⟩ := readAnswer_relayEnvelope (hdecoded decoder bytes hbody)
      timings before (parts.url L.platform) options.tlsInsecure
    exact ⟨decoder, bytes, envelope, hdecoder, hbody, hanswer ▸ hread, hsame⟩

/-! ## A line break at a value's end -/

/-- A header that fetch takes: a token, and a value of bytes with no NUL, and no line break but
around it, where fetch trims it. -/
def IsFetchable (header : Text × Text) : Prop :=
  header.1 ≠ [] ∧ header.1.all isTokenUnit = true ∧
    (trim header.2).all (fun c => c ≠ 0x00 && c ≠ 0x0A && c ≠ 0x0D && decide (c.toNat ≤ 0xFF)) =
      true

/-- A post of a text with one header, to one host. -/
def headerPost (value : Text) : ResolvedRequest where
  method := units "POST"
  auth := .none
  headers := [(units "X-Key", value)]
  address := units "https://a.test/"
  body := some (.raw .text (units "hi"))
  token := none
  lastEventId := none

/-- A relay with a timeout of its own. -/
def plainRelay : RelayOptions where
  timeoutMs := 5000
  redirects := none
  cookies := false
  tlsInsecure := false

theorem twoHostPlatform_asciiCase : AsciiCase twoHostPlatform.platform where
  lower _ _ := rfl
  upper _ _ := rfl

/-- The post without a line break is sent, and read. -/
theorem plainHeader_relayed : (∀ before, ∃ outgoing,
      relay (onNode twoHostPlatform.platform)
          (relayPayload (askedOf twoHostPlatform (headerPost (units "k")) {} plainRelay)) before =
        .relays outgoing ∧
      SentAsAsked twoHostPlatform.platform
        (askedOf twoHostPlatform (headerPost (units "k")) {} plainRelay)
        { head := units "https://a.test/", searchParams := [], fragment := none,
          host := units "a.test", hostname := units "a.test", protocol := units "https:",
          origin := units "https://a.test" } outgoing) ∧
    ∀ decoding timings before r,
      (∀ decoder bytes, decodedBody decoding decoder r = .ok bytes → ∀ b ∈ bytes, b < 0x100) →
      (relayAnswer twoHostPlatform.platform decoding timings before r).status = 200 →
      ∃ decoder bytes envelope, decoderFor twoHostPlatform.platform r.encoding = some decoder ∧
        decodedBody decoding decoder r = .ok bytes ∧
        readAnswer twoHostPlatform.platform
          (relayAnswer twoHostPlatform.platform decoding timings before r)
          ((headerPost (units "k")).url twoHostPlatform.platform) false = .ok envelope ∧
        ReadsResponse twoHostPlatform.platform r bytes envelope := by
  refine relay_speaks twoHostPlatform_asciiCase (by decide) ?_ (.inr (by decide)) (by decide) ?_ ?_
  · decide +kernel
  · intro bytes hbytes
    cases hbytes
    decide
  · intro header hheader
    have htwo : (askedOf twoHostPlatform (headerPost (units "k")) {} plainRelay).headers =
        [(units "X-Key", units "k"), (units "Content-Type", units "text/plain")] := by
      decide +kernel
    rw [htwo, List.mem_pair] at hheader
    rcases hheader with rfl | rfl
    · exact ⟨by decide, by decide, by decide⟩
    · exact ⟨by decide, by decide, by decide⟩

/-- The status of an answer; 0 where a request is sent. -/
def BridgeAct.status : BridgeAct → Nat
  | .answers answer => answer.status
  | .relays _ => 0

/-- A value with a line break at its end is one that fetch takes, and the bridge answers that it
cannot be sent. -/
theorem brokenHeader_not_relayed :
    isHttpMethod (headerPost (units "k\n")).method = true ∧
      (twoHostPlatform.platform.parseUrl
        ((headerPost (units "k\n")).url twoHostPlatform.platform)).map UrlRecord.protocol =
          some (units "https:") ∧
      (∀ header ∈ (askedOf twoHostPlatform (headerPost (units "k\n")) {} plainRelay).headers,
        IsFetchable header) ∧
      ∀ outgoing, relay (onNode twoHostPlatform.platform)
          (relayPayload (askedOf twoHostPlatform (headerPost (units "k\n")) {} plainRelay)) [] ≠
        .relays outgoing := by
  refine ⟨by decide, by decide +kernel, ?_, ?_⟩
  · intro header hheader
    have htwo : (askedOf twoHostPlatform (headerPost (units "k\n")) {} plainRelay).headers =
        [(units "X-Key", units "k\n"), (units "Content-Type", units "text/plain")] := by
      decide +kernel
    rw [htwo, List.mem_pair] at hheader
    rcases hheader with rfl | rfl
    · exact ⟨by decide, by decide, by decide⟩
    · exact ⟨by decide, by decide, by decide⟩
  · intro outgoing hrelays
    have hstatus : (relay (onNode twoHostPlatform.platform)
        (relayPayload (askedOf twoHostPlatform (headerPost (units "k\n")) {} plainRelay))
          []).status = 400 := by decide +kernel
    rw [hrelays] at hstatus
    cases hstatus

end Wayfarer
