import Wayfarer.Library.ReadBack
import Wayfarer.Model.Documents

/-!
# The Local Bridge

The bridge is an HTTP server on the user's machine that sends requests for the page. `handle` is
what it does when a request's headers have arrived: it answers, or reads the body on. `pair` is the
exchange of the code in the terminal for the token, and `readPayload` what a relay asks for;
`onBody` is what follows when a body has been read.

A run (`BridgeState.step`) is a list of events, each after some time: a request arrives, one body is
read to its end, one fails. The bridge notes down what it did for whom.
-/

set_option autoImplicit false

namespace Wayfarer

open Library

/-! ## Texts compared -/

/-- Whether two texts are the same bytes. -/
def timingSafeEqualStrings (a b : Option Text) : Bool :=
  utf8Bytes (a.getD []) = utf8Bytes (b.getD [])

/-- The names a loopback host goes by. -/
def loopbackNames : List Text :=
  [units "127.0.0.1", units "localhost", units "[::1]"]

/-- A decimal digit. -/
def isDecimal (c : CodeUnit) : Bool :=
  decide (0x30 ≤ c.toNat ∧ c.toNat ≤ 0x39)

/-- Nothing, or a colon and digits. -/
def isPortPart (t : Text) : Bool :=
  match t with
  | [] => true
  | c :: digits => c = 0x3A && digits ≠ [] && digits.all isDecimal

/-- Whether a Host is this machine's own, with or without a port. -/
def isLoopbackHost (host : Option Text) : Bool :=
  let text := host.getD []
  loopbackNames.any fun name =>
    name.isPrefixOf (text.map asciiLower) && isPortPart (text.drop name.length)

/-! ## Answers -/

/-- An answer of the bridge. -/
structure HttpAnswer where
  status : Nat
  headers : List (Text × Text)
  body : Option Json

/-- An answer with a JSON body. -/
def sendJson (status : Nat) (payload : Json) (before extra : List (Text × Text)) : HttpAnswer :=
  { status
    headers := before ++
      [(units "Content-Type", units "application/json; charset=utf-8"),
        (units "Content-Length", decimalText (utf8Bytes payload.stringify).length)] ++ extra
    body := some payload }

/-- An object with what went wrong. -/
def errorBody (message : Text) : Json :=
  .object [(units "error", .string message)]

/-- The headers that let a page read the answer. -/
def corsHeaders (origin : Text) : List (Text × Text) :=
  [(units "Access-Control-Allow-Origin", origin), (units "Vary", units "Origin"),
    (units "Access-Control-Allow-Methods", units "POST, GET, OPTIONS"),
    (units "Access-Control-Allow-Headers", units "Content-Type, X-Wayfarer-Bridge-Token"),
    (units "Access-Control-Max-Age", units "600")]

/-- The version in the package's file. -/
def bridgeVersion : Text := units "3.0.1"

/-! ## Pairing -/

/-- A code as the user may type it: case, white space and the dash do not matter. -/
def normalCode (P : Platform) (code : Text) : Text :=
  (P.toUpperCase code).filter fun c => !(isWhite c || c = 0x2D)

/-- After this many wrong codes in a row, pairing takes no code for a while. -/
def pairingTries : Nat := 3

/-- How long pairing takes no code, in milliseconds. -/
def pairingLockMs : Nat := 60000

/-- What pairing remembers: the code while it is not used, how many wrong ones came in a row, and
until when it takes none. -/
structure Pairing where
  remaining : Option Text
  wrong : Nat
  lockedUntil : Nat

/-- What pairing says. -/
inductive PairAnswer where
  /-- The body is not one code. -/
  | malformed
  /-- Too many wrong codes, with the seconds to wait. -/
  | locked (seconds : Nat)
  /-- There is no code. -/
  | spent
  | wrong
  | paired

/-- The code in a body that has one member, of at most 32 characters. -/
def codeOf (payload : Option Json) : Option Text :=
  match payload with
  | some (.object [(name, .string code)]) =>
      if name = units "code" ∧ code.length ≤ 32 then some code else none
  | _ => none

/-- The one-time exchange of the code for the token. -/
def pair (P : Platform) (pairing : Pairing) (payload : Option Json) (now : Nat) :
    Pairing × PairAnswer :=
  match codeOf payload with
  | none => (pairing, .malformed)
  | some code =>
      if now < pairing.lockedUntil then
        (pairing, .locked ((pairing.lockedUntil - now + 999) / 1000))
      else
        match pairing.remaining with
        | none => (pairing, .spent)
        | some remaining =>
            if timingSafeEqualStrings (some (normalCode P code)) (some remaining) then
              ({ pairing with remaining := none }, .paired)
            else if pairingTries ≤ pairing.wrong + 1 then
              ({ pairing with wrong := 0, lockedUntil := now + pairingLockMs }, .wrong)
            else ({ pairing with wrong := pairing.wrong + 1 }, .wrong)

/-- What pairing says, as an answer. -/
def PairAnswer.http (token : Text) (before : List (Text × Text)) : PairAnswer → HttpAnswer
  | .malformed =>
      sendJson 400 (errorBody (units "the request must be \x7b \"code\": \"…\" \x7d")) before []
  | .locked seconds =>
      sendJson 429 (errorBody (units "too many wrong codes: wait")) before
        [(units "Retry-After", decimalText seconds)]
  | .spent =>
      sendJson 410 (errorBody (units ("this bridge has no pairing code: it was used, or the " ++
        "bridge was started without one"))) before []
  | .wrong => sendJson 401 (errorBody (units "wrong pairing code")) before []
  | .paired => sendJson 200 (.object [(units "token", .string token)]) before []

/-! ## What a relay asks for -/

/-- The most time a relay may ask for, in milliseconds. -/
def maxTimeoutMs : Nat := 10 * 60000

/-- The time a relay has when it asks for none. -/
def relayTimeoutMs : Nat := 30000

mutual

/-- A value made a text. -/
def stringOf : Json → Text
  | .null => units "null"
  | .bool true => units "true"
  | .bool false => units "false"
  | .number n => n.text
  | .infinite true => units "-Infinity"
  | .infinite false => units "Infinity"
  | .string t => t
  | .array items => itemTexts items
  | .object _ => units "[object Object]"

/-- A list's items as texts, a comma between each two. Nothing stands for `null`. -/
def itemTexts : List Json → Text
  | [] => []
  | [.null] => []
  | [item] => stringOf item
  | .null :: next :: rest => units "," ++ itemTexts (next :: rest)
  | item :: next :: rest => stringOf item ++ units "," ++ itemTexts (next :: rest)

end

/-- The fields of a relay. -/
def relayFields : List Text :=
  [units "method", units "url", units "headers", units "bodyB64", units "timeoutMs", units "tls"]

/-- A character of a token. -/
def isTokenUnit (c : CodeUnit) : Bool :=
  methodMarks.contains (asciiUpper c)

/-- A method a relay may name. -/
def isRelayMethod (t : Text) : Bool :=
  1 ≤ t.length && t.length ≤ 32 && t.all isTokenUnit

/-- A list of pairs of texts, and nothing else. -/
def textPairs (value : Option Json) : Option (List (Text × Text)) :=
  match value with
  | some (.array items) => items.mapM fun pair =>
      match pair with
      | .array [.string name, .string value] => some (name, value)
      | _ => none
  | _ => none

/-- Characters of base64, then at most two of padding, to a multiple of four. -/
def isBase64Text (t : Text) : Bool :=
  let digits := t.takeWhile base64Alphabet.contains
  let padding := t.drop digits.length
  t.length % 4 = 0 && (padding = [] || padding = units "=" || padding = units "==")

/-- A request as a relay asks for it. -/
structure RelayRequest where
  method : Text
  target : UrlRecord
  headers : List (Text × Text)
  body : Option (List Nat)
  timeoutMs : Nat
  insecure : Bool

/-- Whether the certificate is not to be verified: exactly that, or nothing. -/
def readTls (value : Option Json) : Except Text Bool :=
  match value with
  | none => .ok false
  | some (.object [(name, .bool true)]) =>
      if name = units "insecure" then .ok true
      else .error (units "tls must be \x7b \"insecure\": true \x7d")
  | some _ => .error (units "tls must be \x7b \"insecure\": true \x7d")

/-- The method of a relay. -/
def readMethod (value : Option Json) : Except Text Text :=
  match value with
  | some (.string method) =>
      if isRelayMethod method then .ok method else .error (units "method must be an HTTP method")
  | _ => .error (units "method must be an HTTP method")

/-- The headers of a relay. -/
def readHeaders (value : Option Json) : Except Text (List (Text × Text)) :=
  match textPairs value with
  | some headers => .ok headers
  | none => .error (units "headers must be a list of [name, value] pairs of text")

/-- The bytes of a relay's body. -/
def readBodyB64 (value : Option Json) : Except Text (Option (List Nat)) :=
  match value with
  | none => .ok none
  | some (.string text) =>
      if isBase64Text text then .ok (some (((base64Decode text).getD []).map UInt16.toNat))
      else .error (units "bodyB64 must be base64 text")
  | some _ => .error (units "bodyB64 must be base64 text")

/-- The time a relay has. -/
def readTimeout (value : Option Json) : Except Text Nat :=
  let refused := units "timeoutMs must be a whole number from 1 to 600000"
  match value with
  | none => .ok relayTimeoutMs
  | some (.number n) =>
      match n.whole with
      | some ms => if 1 ≤ ms ∧ ms ≤ maxTimeoutMs then .ok ms else .error refused
      | none => .error refused
  | some _ => .error refused

/-- The address of a relay, which is made a text first. -/
def readTarget (P : Platform) (value : Option Json) : Except Text UrlRecord :=
  let url := match value with
    | none => []
    | some .null => []
    | some value => stringOf value
  match P.parseUrl url with
  | none => .error (units "invalid or missing target url")
  | some target =>
      if target.protocol = units "http:" ∨ target.protocol = units "https:" then .ok target
      else .error (units "unsupported protocol: " ++ target.protocol)

/-- What a relay asks for, or why it is refused. Every field is checked. -/
def readPayload (P : Platform) (payload : Json) : Except Text RelayRequest :=
  match payload with
  | .object members =>
      match members.find? fun member => member.1 ∉ relayFields with
      | some member => .error (units "unknown field: " ++ member.1)
      | none => do
          let insecure ← readTls (field members (units "tls"))
          let method ← readMethod (field members (units "method"))
          let headers ← readHeaders (field members (units "headers"))
          let body ← readBodyB64 (field members (units "bodyB64"))
          let timeoutMs ← readTimeout (field members (units "timeoutMs"))
          if 1 < (headers.filter fun header => P.toLowerCase header.1 = units "host").length then
            .error (units "a request has one Host header at most")
          let target ← readTarget P (field members (units "url"))
          return { method := P.toUpperCase method, target, headers, body, timeoutMs, insecure }
  | _ => .error (units "the request must be a JSON object")

/-! ## What is sent -/

/-- Headers that are not forwarded: the connection's own, which Node writes itself. -/
def hopByHopHeaders : List Text :=
  [units "connection", units "keep-alive", units "proxy-authenticate",
    units "proxy-authorization", units "te", units "trailer", units "transfer-encoding",
    units "upgrade", units "content-length"]

/-- The request's headers as Node takes them, without the ones Node writes itself. A name that
repeats keeps every value; of a Host the first is kept. -/
def sanitizeOutgoingHeaders (P : Platform) (headers : List (Text × Text)) :
    List (Text × List Text) :=
  let kept := headers.filter fun header => P.toLowerCase header.1 ∉ hopByHopHeaders
  let grouped := kept.foldl (fun out header =>
    out.set header.1 ((out.get? header.1).getD [] ++ [header.2])) OrderedMap.empty
  grouped.entries.map fun entry =>
    (entry.1, if P.toLowerCase entry.1 = units "host" then entry.2.take 1 else entry.2)

/-- What Node can decode. -/
def relayAcceptEncoding : Text := units "gzip, deflate, br"

/-- A request as the bridge sends it. -/
structure OutgoingRequest where
  method : Text
  target : UrlRecord
  headers : List (Text × List Text)
  body : Option (List Nat)
  timeoutMs : Nat
  /-- The certificate is not verified. -/
  insecure : Bool

/-- What is asked for when the request names nothing. -/
def acceptEncodingOf (P : Platform) (headers : List (Text × Text)) : List (Text × List Text) :=
  if headers.any fun header => P.toLowerCase header.1 = units "accept-encoding" then []
  else [(units "Accept-Encoding", [relayAcceptEncoding])]

/-- The length of the body that is sent. -/
def contentLengthOf : Option (List Nat) → List (Text × List Text)
  | none => []
  | some body => [(units "Content-Length", [decimalText body.length])]

/-- A relay's request as it is sent. -/
def outgoingOf (P : Platform) (request : RelayRequest) : OutgoingRequest :=
  { method := request.method
    target := request.target
    headers := sanitizeOutgoingHeaders P request.headers ++
      acceptEncodingOf P request.headers ++ contentLengthOf request.body
    body := request.body
    timeoutMs := request.timeoutMs
    insecure := request.insecure }

/-! ## The server -/

/-- What the bridge is started with. It does not start without a token. -/
structure BridgeServer where
  token : Text
  token_ne : token ≠ []
  allowedOrigins : List Text
  /-- The pairing code, where it is started with one. -/
  code : Option Text

/-- A request as its headers arrive. Node reads every byte of a header as one character. -/
structure RequestHead where
  method : Text
  url : Text
  host : Option Text
  origin : Option Text
  /-- `x-wayfarer-bridge-token`. -/
  token : Option Text
  token_bytes : ∀ t, token = some t → ∀ c ∈ t, c.toNat < 0x100
  /-- `access-control-request-private-network`. -/
  privateNetwork : Option Text

/-- What a body is read for. -/
inductive BodyUse where
  | pair
  | relay

/-- What is done when a request's headers have arrived. -/
inductive Handled where
  | answered (answer : HttpAnswer)
  /-- The body is read on, for an origin that is allowed. -/
  | reads (use : BodyUse) (origin : Text)

/-- The origin of a request, where it is allowed. -/
def BridgeServer.allowed (server : BridgeServer) (head : RequestHead) : Option Text :=
  head.origin.filter server.allowedOrigins.contains

/-- The refusal of an origin. -/
def originRefused (head : RequestHead) : HttpAnswer :=
  sendJson 403 (errorBody (units "origin not allowed: " ++
    head.origin.getD (units "(none sent)"))) [] []

/-- What the bridge does with a request's headers. -/
def BridgeServer.handle (server : BridgeServer) (head : RequestHead) : Handled :=
  let cors := ((server.allowed head).map corsHeaders).getD []
  -- A page whose host name was pointed at this machine names another Host.
  if isLoopbackHost head.host = false then
    .answered (sendJson 421 (errorBody (units "unexpected Host header")) [] [])
  else if head.method = units "OPTIONS" then
    .answered
      { status := 204
        headers := cors ++
          if (server.allowed head).isSome ∧ head.privateNetwork = some (units "true") then
            [(units "Access-Control-Allow-Private-Network", units "true")]
          else []
        body := none }
  else if head.url = units "/health" ∧ head.method = units "GET" then
    .answered (sendJson 200 (.object [(units "ok", .bool true),
      (units "name", .string (units "wayfarer-bridge")), (units "version", .string bridgeVersion)])
      cors [])
  else if head.url = units "/pair" ∧ head.method = units "POST" then
    match server.allowed head with
    | none => .answered (originRefused head)
    | some origin => .reads .pair origin
  else if head.url ≠ units "/relay" ∨ head.method ≠ units "POST" then
    .answered (sendJson 404 (errorBody (units "not found")) [] [])
  else
    match server.allowed head with
    | none => .answered (originRefused head)
    | some origin =>
        if timingSafeEqualStrings head.token (some server.token) then .reads .relay origin
        else
          .answered (sendJson 401 (errorBody (units "invalid or missing bridge token"))
            (corsHeaders origin) [])

/-! ## Events -/

/-- A request whose body is being read. -/
structure OpenRequest where
  id : Nat
  head : RequestHead
  use : BodyUse
  origin : Text

/-- What the bridge did for a request. -/
inductive BridgeAct where
  | answers (answer : HttpAnswer)
  /-- A request is sent to its target. -/
  | relays (outgoing : OutgoingRequest)

/-- One thing that the bridge did, when, and for which request. -/
structure BridgeEntry where
  time : Nat
  head : RequestHead
  /-- The JSON of the body, where there was any. -/
  payload : Option Json
  act : BridgeAct

/-- The bridge at one time. -/
structure BridgeState where
  now : Nat
  pairing : Pairing
  reading : List OpenRequest
  /-- The number the next request gets. -/
  next : Nat
  /-- All that the bridge did, in order. -/
  log : List BridgeEntry

/-- The bridge when it starts. -/
def BridgeServer.start (P : Platform) (server : BridgeServer) : BridgeState :=
  { now := 0
    pairing := { remaining := server.code.map (normalCode P), wrong := 0, lockedUntil := 0 }
    reading := []
    next := 0
    log := [] }

/-- Why a body was not read to its end. -/
inductive BodyFailure where
  | tooLarge
  | broke (message : Text)

/-- A failure as an answer. -/
def BodyFailure.http (before : List (Text × Text)) : BodyFailure → HttpAnswer
  | .tooLarge => sendJson 413 (errorBody (units "request body too large")) before []
  | .broke message => sendJson 400 (errorBody message) before []

/-- What happens to the bridge. -/
inductive BridgeHappening where
  | arrives (head : RequestHead)
  | bodyEnds (id : Nat) (raw : List Nat)
  | bodyFails (id : Nat) (failure : BodyFailure)

/-- Something happens, so many milliseconds after what happened before. -/
structure BridgeEvent where
  wait : Nat
  happening : BridgeHappening

/-- The parts of the bridge that are not its own: the language's, and what Node refuses to send. -/
structure BridgePlatform where
  platform : Platform
  /-- Why a request cannot be written, where it cannot. -/
  refuses : OutgoingRequest → Option Text

/-- Bytes read as text, what is not UTF-8 replaced. -/
def textOfBytes (raw : List Nat) : Text :=
  ofCodePoints (utf8Points {} raw)

/-- What is done for a relay. -/
def relay (B : BridgePlatform) (payload : Json) (before : List (Text × Text)) : BridgeAct :=
  match readPayload B.platform payload with
  | .error message => .answers (sendJson 400 (errorBody message) before [])
  | .ok request =>
      match B.refuses (outgoingOf B.platform request) with
      | some message => .answers (sendJson 400 (errorBody message) before [])
      | none => .relays (outgoingOf B.platform request)

/-- What follows when a body has been read, and what pairing remembers then. -/
def onBody (B : BridgePlatform) (server : BridgeServer) (pairing : Pairing) (now : Nat)
    (request : OpenRequest) (raw : List Nat) : Pairing × Option Json × BridgeAct :=
  let before := corsHeaders request.origin
  let parsed := B.platform.parseJson (textOfBytes raw)
  match request.use with
  | .pair =>
      let (after, said) := pair B.platform pairing parsed now
      (after, parsed, .answers (said.http server.token before))
  | .relay =>
      match if raw = [] then some (.object []) else parsed with
      | none =>
          (pairing, none, .answers (sendJson 400 (errorBody (units "invalid JSON body")) before []))
      | some payload => (pairing, some payload, relay B payload before)

namespace BridgeState

/-- The entry of what was done. -/
def noted (s : BridgeState) (head : RequestHead) (payload : Option Json) (act : BridgeAct) :
    BridgeState :=
  { s with log := s.log ++ [{ time := s.now, head, payload, act }] }

/-- What an event makes of the bridge. A body of a request that is not being
read changes nothing. -/
def step (B : BridgePlatform) (server : BridgeServer) (s : BridgeState) (event : BridgeEvent) :
    BridgeState :=
  let s := { s with now := s.now + event.wait }
  match event.happening with
  | .arrives head =>
      match server.handle head with
      | .answered answer => { s.noted head none (.answers answer) with next := s.next + 1 }
      | .reads use origin =>
          { s with
            reading := s.reading ++ [{ id := s.next, head, use, origin }]
            next := s.next + 1 }
  | .bodyEnds id raw =>
      match s.reading.find? fun request => request.id = id with
      | none => s
      | some request =>
          let (pairing, payload, act) := onBody B server s.pairing s.now request raw
          let rest := s.reading.filter fun other => other.id ≠ id
          { s.noted request.head payload act with pairing, reading := rest }
  | .bodyFails id failure =>
      match s.reading.find? fun request => request.id = id with
      | none => s
      | some request =>
          let rest := s.reading.filter fun other => other.id ≠ id
          let act := .answers (failure.http (corsHeaders request.origin))
          { s.noted request.head none act with reading := rest }

/-- The bridge after some events. -/
def after (B : BridgePlatform) (server : BridgeServer) (events : List BridgeEvent) : BridgeState :=
  events.foldl (step B server) (server.start B.platform)

end BridgeState

end Wayfarer
