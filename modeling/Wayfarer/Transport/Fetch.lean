import Wayfarer.Transport.Limits

/-!
# Sending from the page

A request on its way out, what either route returns, and the ways a send fails.
`fetchSend` is a send from the page: `fetch` under one deadline, then the body, read whole
or as an event stream. What the network does is a value (`FetchBehaviour`), chosen by an
adversary: whether the target gets the request, whether and with what it answers, after how
many pieces the body breaks off, and whether the time was up or the user had cancelled.

Every failure that is neither the timeout nor the cancel is named a network failure, also
one after the response began (`fetchSend_network`).
-/

set_option autoImplicit false

namespace Wayfarer

open Library

/-! ## Requests and responses -/

/-- A request with every variable replaced, as a transport takes it. -/
structure TransportRequest where
  method : Text
  url : Text
  /-- In order; a name may repeat. -/
  headers : List (Text × Text)
  body : Option WireBody := none

/-- What `browserLimits` reads of a request. -/
def TransportRequest.limits (request : TransportRequest) : LimitsRequest where
  method := request.method
  url := request.url
  headers := request.headers

/-- The body of a response: bytes to show, or a download above the display cap. -/
inductive ResponseBody where
  | bytes (data : List Nat)
  | blob (data : List Nat)

/-- The bytes of either. -/
def ResponseBody.data : ResponseBody → List Nat
  | .bytes data => data
  | .blob data => data

/-- How an event stream ended: by the caller, and whether only its start was kept. -/
structure StreamEnd where
  stopped : Bool
  truncated : Bool

/-- A redirect that was followed. -/
structure RedirectHop where
  status : Nat
  url : Text
  location : Text

/-- Why a redirect was not followed. -/
inductive RedirectStop where
  | off
  | limit
  | location
  | otherHost

/-- What either route returns. An HTTP error status is a response, not an error. -/
structure ResponseEnvelope where
  status : Nat
  statusText : Text
  headers : List (Text × Text)
  body : ResponseBody
  redirected : Bool
  finalUrl : Text
  route : Hop
  /-- How many bytes came over the wire, where the route can say. -/
  encodedSize : Option Nat := none
  decodedSize : Nat
  /-- Set when the body was an event stream read as it arrived. -/
  stream : Option StreamEnd := none
  /-- Set by the route that makes each hop of a redirect itself. -/
  redirects : Option (List RedirectHop × Option RedirectStop) := none
  /-- Sent with the server's certificate not verified. -/
  tlsInsecure : Bool := false

/-- Why no response was received. -/
inductive TransportErrorKind where
  | network
  | timeout
  | aborted
  | bridge
  deriving DecidableEq

/-- No response was received. `status` is the bridge's own answer, when it gave one. -/
structure TransportError where
  kind : TransportErrorKind
  message : Text
  status : Option Nat := none

/-- What a caller asks of a send. -/
structure TransportOptions where
  /-- 0 means no timeout. -/
  timeoutMs : Nat
  /-- The caller takes an event stream's events as they come. -/
  onEvent : Bool := false

/-! ## The deadline -/

/-- A duration in words. -/
def formatDuration (P : Platform) (ms : Nat) : Text :=
  if ms < 1000 then units (toString ms ++ " ms") else P.toFixedSeconds ms ++ units " s"

/-- What was thrown: an error with its message and, of its cause, the code, or another value. -/
inductive Thrown where
  | error (message : Text) (code : Option Text)
  | other (written : Text)

/-- A code as Node names its reasons: a capital, then capitals, digits and underscores. -/
def isErrorCode (code : Text) : Bool :=
  let isCapital := fun (c : CodeUnit) => decide (0x41 ≤ c) && decide (c ≤ 0x5A)
  match code with
  | [] => false
  | first :: rest => isCapital first && rest.all fun c => isCapital c || isDigitUnit c || c = 0x5F

/-- What a failed fetch says. -/
def networkMessage : Thrown → Text
  | .other written => written
  | .error message none => message
  | .error message (some code) =>
      if isErrorCode code then message ++ units " (" ++ code ++ units ")" else message

/-- What had happened when a send failed. -/
structure Deadline where
  /-- The timer of the timeout had run out. -/
  timedOut : Bool
  /-- The user had cancelled. -/
  cancelled : Bool

/-- How the sending itself failed. -/
inductive RunFailure where
  | transport (error : TransportError)
  | thrown (cause : Thrown)

/-- A send under the deadline, its failure named. `arrived`: the timeout had nothing more to say. -/
def withDeadline {α : Type} (P : Platform) (options : TransportOptions) (deadline : Deadline)
    (arrived : Bool) (run : Except RunFailure α) : Except TransportError α :=
  match run with
  | .ok a => .ok a
  | .error (.transport error) => .error error
  | .error (.thrown cause) =>
      if 0 < options.timeoutMs ∧ deadline.timedOut ∧ !arrived then
        .error { kind := .timeout
                 message := units "No response within " ++ formatDuration P options.timeoutMs ++
                   units ", the request timeout." }
      else if deadline.cancelled then
        .error { kind := .aborted, message := units "You stopped the request." }
      else .error { kind := .network, message := networkMessage cause }

/-! ## Reading a body -/

/-- A response as `fetch` gives it, and the body that arrives after it. -/
structure Response where
  status : Nat
  statusText : Text
  headers : List (Text × Text)
  redirected : Bool
  url : Text
  /-- The pieces of the body, as they arrive. -/
  chunks : List (List Nat)
  /-- Why the body broke off after them; absent when it ended. -/
  broken : Option Thrown

/-- Bodies up to this size are kept as bytes to show. -/
def displayCapBytes : Nat := 50 * 1024 * 1024

/-- How many bytes are held back before they are folded into the download. -/
def foldBytes : Nat := 8 * 1024 * 1024

/-- What a reader of a body holds: pieces not yet folded, and the download they go into. -/
structure BodyReader where
  pending : List Nat
  blob : Option (List Nat)

/-- One more piece of a body. -/
def BodyReader.push (cap : Nat) (reader : BodyReader) (chunk : List Nat) : BodyReader :=
  let pending := reader.pending ++ chunk
  if cap < pending.length ∨ (reader.blob.isSome ∧ foldBytes < pending.length) then
    { pending := [], blob := some (reader.blob.getD [] ++ pending) }
  else { reader with pending := pending }

/-- A body read whole. -/
def readBody (cap : Nat) (response : Response) : Except Thrown ResponseBody :=
  match response.broken with
  | some cause => .error cause
  | none =>
      let reader := response.chunks.foldl (BodyReader.push cap) { pending := [], blob := none }
      match reader.blob with
      | some blob => .ok (.blob (blob ++ reader.pending))
      | none => .ok (.bytes reader.pending)

/-- What a reader holds, in order. -/
def BodyReader.held (reader : BodyReader) : List Nat :=
  reader.blob.getD [] ++ reader.pending

/-- A piece is added at the end, wherever it is put. -/
theorem BodyReader.held_push (cap : Nat) (reader : BodyReader) (chunk : List Nat) :
    (reader.push cap chunk).held = reader.held ++ chunk := by
  simp only [BodyReader.push, BodyReader.held]
  split <;> simp

/-- Reading pieces adds them in order. -/
theorem BodyReader.held_foldl_push (cap : Nat) (chunks : List (List Nat)) (reader : BodyReader) :
    (chunks.foldl (BodyReader.push cap) reader).held = reader.held ++ chunks.flatten := by
  induction chunks generalizing reader with
  | nil => simp
  | cons chunk chunks ih =>
      rw [List.foldl_cons, ih, BodyReader.held_push, List.flatten_cons, List.append_assoc]

/-- A body that does not break off is read: every piece that arrived, in order, whatever the
cap. -/
theorem readBody_whole (cap : Nat) {response : Response} (h : response.broken = none) :
    ∃ body, readBody cap response = .ok body ∧ body.data = response.chunks.flatten := by
  have hheld := BodyReader.held_foldl_push cap response.chunks { pending := [], blob := none }
  simp only [readBody, h]
  split
  · next blob hblob =>
      refine ⟨_, rfl, ?_⟩
      simpa [BodyReader.held, hblob, ResponseBody.data] using hheld
  · next hblob =>
      refine ⟨_, rfl, ?_⟩
      simpa [BodyReader.held, hblob, ResponseBody.data] using hheld

/-- How much of an event stream is kept. -/
def streamBodyBytes : Nat := 1024 * 1024

/-- One more piece of a stream: as much as there is room for, and whether some was left. -/
def keepChunk (kept : List Nat × Bool) (chunk : List Nat) : List Nat × Bool :=
  let room := streamBodyBytes - kept.1.length
  (kept.1 ++ chunk.take room, kept.2 || room < chunk.length)

/-- An event stream, read as it arrives. `aborted`: the caller ended it. -/
def readEventStream (response : Response) (aborted : Bool) :
    Except Thrown (ResponseBody × StreamEnd) :=
  let kept := response.chunks.foldl keepChunk ([], false)
  match response.broken with
  | none => .ok (.bytes kept.1, { stopped := false, truncated := kept.2 })
  | some cause =>
      if aborted then .ok (.bytes kept.1, { stopped := true, truncated := kept.2 })
      else .error cause

/-! ## A send from the page -/

/-- What the network does with one request of the page. -/
structure FetchBehaviour where
  /-- The target gets the request. -/
  delivered : Bool
  /-- What `fetch` gives, or why it fails. -/
  answer : Except Thrown Response
  deadline : Deadline

/-- The response has begun to arrive. -/
def FetchBehaviour.began (net : FetchBehaviour) : Bool :=
  net.answer.toOption.isSome

/-- Whether a response says it is an event stream. -/
def isEventStream (response : Response) : Bool :=
  let word := units "text/event-stream"
  match response.headers.find? fun header => header.1 = units "content-type" with
  | none => false
  | some header =>
      word.isPrefixOf (header.2.map asciiLower) && !(header.2.drop word.length).head?.any isWordUnit

/-- The body of a response and, of an event stream the caller takes, how it ended. -/
def readResponse (options : TransportOptions) (deadline : Deadline) (response : Response) :
    Except Thrown (ResponseBody × Option StreamEnd) :=
  if options.onEvent && isEventStream response then
    (readEventStream response deadline.cancelled).map fun read => (read.1, some read.2)
  else (readBody displayCapBytes response).map fun body => (body, none)

/-- The envelope of a response whose body was read. -/
def Response.envelope (response : Response) (request : TransportRequest)
    (read : ResponseBody × Option StreamEnd) : ResponseEnvelope where
  status := response.status
  statusText := response.statusText
  headers := response.headers
  body := read.1
  redirected := response.redirected
  finalUrl := if response.url = [] then request.url else response.url
  route := .direct
  decodedSize := read.1.data.length
  stream := read.2

/-- A request sent from the page. -/
def fetchSend (P : Platform) (request : TransportRequest) (options : TransportOptions)
    (net : FetchBehaviour) : Except TransportError ResponseEnvelope :=
  match net.answer with
  | .error cause => withDeadline P options net.deadline false (.error (.thrown cause))
  | .ok response =>
      -- From here the timeout is over for a stream the caller takes, and a cancel is a stop.
      withDeadline P options net.deadline (options.onEvent && isEventStream response) <|
        match readResponse options net.deadline response with
        | .error cause => .error (.thrown cause)
        | .ok read => .ok (response.envelope request read)

/-- A response that did not break off is read. -/
theorem readResponse_whole (options : TransportOptions) (deadline : Deadline)
    {response : Response} (h : response.broken = none) :
    ∃ read, readResponse options deadline response = .ok read := by
  unfold readResponse
  split
  · simp [readEventStream, h, Except.map]
  · obtain ⟨body, hbody, -⟩ := readBody_whole displayCapBytes h
    exact ⟨(body, none), by simp [hbody, Except.map]⟩

/-- A send whose response arrived whole has that response. -/
theorem fetchSend_whole (P : Platform) (request : TransportRequest) (options : TransportOptions)
    {net : FetchBehaviour} {response : Response} (hanswer : net.answer = .ok response)
    (hwhole : response.broken = none) :
    ∃ envelope, fetchSend P request options net = .ok envelope := by
  obtain ⟨read, hread⟩ := readResponse_whole options net.deadline hwhole
  exact ⟨response.envelope request read, by simp [fetchSend, hanswer, hread, withDeadline]⟩

/-- A network failure of a send is a `fetch` that failed, or a response that broke off. -/
theorem fetchSend_network {P : Platform} {request : TransportRequest} {options : TransportOptions}
    {net : FetchBehaviour} {error : TransportError}
    (h : fetchSend P request options net = .error error) :
    (∃ cause, net.answer = .error cause) ∨
      ∃ response, net.answer = .ok response ∧ response.broken ≠ none := by
  cases hanswer : net.answer with
  | error cause => exact Or.inl ⟨cause, rfl⟩
  | ok response =>
      refine Or.inr ⟨response, rfl, fun hwhole => ?_⟩
      obtain ⟨envelope, hok⟩ :=
        fetchSend_whole P request options hanswer hwhole
      rw [hok] at h
      cases h

end Wayfarer
