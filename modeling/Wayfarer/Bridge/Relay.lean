import Wayfarer.Bridge.Protocol
import Wayfarer.Library.Run

/-!
# A relay, event by event

What ends a relay may come from four sides: the target's response, the stream that decodes it, the
deadline, and the page's connection. `Relaying.step` is one event and the handler the bridge has for
it; a run is one order of them. Destroying a request or a decoder takes nothing out of a run here:
what was on its way may still come.

A decoder ends when it is told to and has decoded everything, or of itself, when the encoded
stream's own end stands before the end of the bytes. `relay_wholeOrRefused_iff` says that what the
bridge writes is one answer, the whole response or an error, exactly in the runs where no decoder
ends of itself while the response may still go on.
-/

set_option autoImplicit false

namespace Wayfarer

open Library

/-! ## The bridge's handlers -/

/-- What a relay is given: how bodies are decoded, the target's response, and whether it comes to
its end or is broken off. -/
structure RelayContext where
  platform : Platform
  /-- What Node's decoders make of bytes. -/
  node : Decoding
  /-- Whether the encoded stream's own end stands before the end of the bytes. -/
  stops : Decoder → List Nat → Bool
  /-- What a browser makes of bytes. -/
  browser : Decoding
  agrees : ∀ decoder bytes out, node decoder bytes = .ok out → browser decoder bytes = .ok out
  before : List (Text × Text)
  timings : Json
  response : TargetResponse
  whole : Bool

/-- What the bridge holds of one relay. -/
structure RelayState where
  /-- The answers written to the page, in their order. -/
  written : List HttpAnswer := []
  headersSent : Bool := false
  writableEnded : Bool := false
  /-- Whether the deadline is set. -/
  deadline : Bool := true
  /-- What the body is read through, once the response is there. -/
  reading : Option (Option Decoder) := none
  encodedSize : Nat := 0
  /-- What was written to the decoder, and whether it was told that this is all. -/
  input : List Nat := []
  inputEnded : Bool := false
  chunks : List (List Nat) := []
  decodedSize : Nat := 0

namespace RelayState

/-- An answer written, where none has been. -/
def send (s : RelayState) (answer : HttpAnswer) : RelayState :=
  if s.headersSent then s
  else { s with headersSent := true, writableEnded := true, written := s.written ++ [answer] }

/-- The one way out for every failure. -/
def abort (ctx : RelayContext) (s : RelayState) (status : Nat) (message code : Text) : RelayState :=
  ({ s with deadline := false }).send (relayFailure status message code ctx.before)

def tooLarge (ctx : RelayContext) (s : RelayState) : RelayState :=
  s.abort ctx 502 (units "response body too large") (units "RELAY_RESPONSE_TOO_LARGE")

/-- The envelope of what has been received. -/
def envelope (ctx : RelayContext) (s : RelayState) : Json :=
  .object [(units "status", .number (.ofNat ctx.response.status)),
    (units "statusText", .string (ctx.response.message.getD [])),
    (units "headers", pairsJson (pairHeaders ctx.response.rawHeaders)),
    (units "bodyB64", .string (base64 s.chunks.flatten)),
    (units "encodedSize", .number (.ofNat s.encodedSize)),
    (units "decodedSize", .number (.ofNat s.decodedSize)), (units "timings", ctx.timings)]

def finish (ctx : RelayContext) (s : RelayState) : RelayState :=
  ({ s with deadline := false }).send (sendJson 200 (s.envelope ctx) ctx.before [])

/-- The response's head. -/
def onResponse (ctx : RelayContext) (s : RelayState) : RelayState :=
  match decoderFor ctx.platform ctx.response.encoding with
  | none =>
      s.abort ctx 502 (units "the response's Content-Encoding (" ++
        ctx.response.encoding.getD [] ++ units ") is not one the bridge can decode")
        (units "RELAY_DECODE_ERROR")
  | some decoder => { s with reading := some decoder }

/-- Decoded bytes. -/
def onDecoded (ctx : RelayContext) (s : RelayState) (chunk : List Nat) : RelayState :=
  let s := { s with decodedSize := s.decodedSize + chunk.length }
  if maxRelayBytes < s.decodedSize then s.tooLarge ctx
  else { s with chunks := s.chunks ++ [chunk] }

/-- Bytes of the response counted, and written to the decoder. -/
def onEncoded (ctx : RelayContext) (s : RelayState) (decoder : Option Decoder) (chunk : List Nat) :
    RelayState :=
  let s := { s with encodedSize := s.encodedSize + chunk.length }
  if maxRelayBytes < s.encodedSize then s.tooLarge ctx
  else if decoder.isSome then { s with input := s.input ++ chunk }
  else s

/-- Bytes of the response. Where there is nothing to decode they are decoded bytes as well. -/
def onData (ctx : RelayContext) (s : RelayState) (chunk : List Nat) : RelayState :=
  match s.reading with
  | none => s
  | some none => (s.onEncoded ctx none chunk).onDecoded ctx chunk
  | some (some decoder) => s.onEncoded ctx (some decoder) chunk

/-- The response's end. A response with no body may name an encoding. -/
def onEnd (ctx : RelayContext) (s : RelayState) : RelayState :=
  match s.reading with
  | none => s
  | some none => s.finish ctx
  | some (some _) => if 0 < s.encodedSize then { s with inputEnded := true } else s.finish ctx

/-- An error of the response. -/
def onError (ctx : RelayContext) (s : RelayState) (message : Text) (code : Option Text) :
    RelayState :=
  if s.reading.isSome then s.abort ctx 502 message (code.getD (units "RELAY_READ_ERROR")) else s

/-- The page's connection is closed. -/
def onClose (ctx : RelayContext) (s : RelayState) : RelayState :=
  if s.writableEnded then s
  else s.abort ctx 502 (units "the page closed the connection") (units "RELAY_ABORTED")

end RelayState

/-! ## Runs -/

/-- What can happen to a relay. -/
inductive RelayEvent
  | response
  | targetData
  | targetEnd
  | targetError (message : Text) (code : Option Text)
  | requestError (message : Text) (code : Option Text)
  | decoderData (bytes : List Nat)
  | decoderEnd
  | decoderError (message : Text)
  | deadline
  | pageClosed
  deriving DecidableEq

/-- A relay under way: the bridge, how much of the response has come, and what the decoder gave. -/
structure Relaying where
  bridge : RelayState := {}
  responded : Bool := false
  /-- How many chunks have come. -/
  sent : Nat := 0
  targetOver : Bool := false
  given : List Nat := []
  decoderOver : Bool := false

namespace Relaying

/-- The decoder, while it has not come to its end. -/
def decoder (x : Relaying) : Option Decoder :=
  if x.decoderOver then none else x.bridge.reading.join

/-- One event, where it can happen, and what the bridge does on it. -/
def step (ctx : RelayContext) (x : Relaying) : RelayEvent → Option Relaying
  | .response =>
      if x.responded then none
      else some { x with responded := true, bridge := x.bridge.onResponse ctx }
  | .targetData =>
      if x.responded ∧ ¬ x.targetOver then
        ctx.response.chunks[x.sent]?.map fun chunk =>
          { x with sent := x.sent + 1, bridge := x.bridge.onData ctx chunk }
      else none
  | .targetEnd =>
      if x.responded ∧ ¬ x.targetOver ∧ ctx.whole ∧ ctx.response.chunks.length ≤ x.sent then
        some { x with targetOver := true, bridge := x.bridge.onEnd ctx }
      else none
  | .targetError message code =>
      if x.responded ∧ ¬ x.targetOver then
        some { x with targetOver := true, bridge := x.bridge.onError ctx message code }
      else none
  | .requestError message code =>
      some { x with bridge := x.bridge.abort ctx 502 message (code.getD (units "RELAY_ERROR")) }
  | .decoderData bytes =>
      if x.decoder.isSome ∧ x.bridge.input ≠ [] then
        some { x with given := x.given ++ bytes, bridge := x.bridge.onDecoded ctx bytes }
      else none
  | .decoderEnd =>
      match x.decoder with
      | none => none
      | some decoder =>
          if ctx.node decoder x.bridge.input = .ok x.given ∧
              (x.bridge.inputEnded ∨ ctx.stops decoder x.bridge.input) then
            some { x with decoderOver := true, bridge := x.bridge.finish ctx }
          else none
  | .decoderError message =>
      if x.decoder.isSome then
        some { x with decoderOver := true, bridge :=
          (x.bridge.abort ctx 502 (units "the response could not be decoded: " ++ message)
            (units "RELAY_DECODE_ERROR")) }
      else none
  | .deadline =>
      if x.bridge.deadline then
        some { x with bridge :=
          (x.bridge.abort ctx 504 (units "relay request timed out") (units "RELAY_TIMEOUT")) }
      else none
  | .pageClosed => some { x with bridge := x.bridge.onClose ctx }

end Relaying

/-! ## Whole or refused -/

/-- The answer is the whole response, decoded as a browser decodes it and no larger than allowed. -/
def WholeResponse (ctx : RelayContext) (answer : HttpAnswer) : Prop :=
  ctx.whole = true ∧ ∃ decoder body,
    decoderFor ctx.platform ctx.response.encoding = some decoder ∧
    decodedBody ctx.browser decoder ctx.response = .ok body ∧
    ctx.response.chunks.flatten.length ≤ maxRelayBytes ∧ body.length ≤ maxRelayBytes ∧
    answer = sendJson 200 (relayEnvelope ctx.response body ctx.timings) ctx.before []

/-- The answer is an error, and says nothing but what went wrong. -/
def RefusedRelay (ctx : RelayContext) (answer : HttpAnswer) : Prop :=
  ∃ status message code, status ≠ 200 ∧ answer = relayFailure status message code ctx.before

/-- At most one answer is written, and it is the whole response or an error. -/
def WholeOrRefused (ctx : RelayContext) (s : RelayState) : Prop :=
  s.written.length ≤ 1 ∧
    ∀ answer ∈ s.written, WholeResponse ctx answer ∨ RefusedRelay ctx answer

/-- Where a decoder ends before an answer has been written, all of the response has come and it is
not broken off. -/
def EndsOnAll (ctx : RelayContext) (x : Relaying) (event : RelayEvent) : Prop :=
  event = .decoderEnd → x.bridge.headersSent = false →
    ctx.whole = true ∧ (ctx.response.chunks.drop x.sent).flatten = []

instance decidableEndsOnAll (ctx : RelayContext) (x : Relaying) (event : RelayEvent) :
    Decidable (EndsOnAll ctx x event) :=
  inferInstanceAs (Decidable (_ → _ → _))

/-! ## One answer -/

/-- The one answer has been written. -/
structure Answered (answer : HttpAnswer) (s : RelayState) : Prop where
  sent : s.headersSent = true
  ended : s.writableEnded = true
  written : s.written = [answer]

/-- No answer has been written. -/
structure Unanswered (s : RelayState) : Prop where
  sent : s.headersSent = false
  ended : s.writableEnded = false
  written : s.written = []

theorem Answered.send {a b : HttpAnswer} {s : RelayState} (h : Answered a s) :
    Answered a (s.send b) := by
  rw [RelayState.send, if_pos h.sent]
  exact h

theorem Unanswered.send {a : HttpAnswer} {s : RelayState} (h : Unanswered s) :
    Answered a (s.send a) := by
  rw [RelayState.send, if_neg (by rw [h.sent]; decide)]
  exact ⟨rfl, rfl, by simp only [h.written, List.nil_append]⟩

section Handlers

variable {ctx : RelayContext} {a : HttpAnswer} {s : RelayState}

theorem Answered.abort (h : Answered a s) (status : Nat) (message code : Text) :
    Answered a (s.abort ctx status message code) :=
  Answered.send ⟨h.sent, h.ended, h.written⟩

theorem Answered.finish (h : Answered a s) : Answered a (s.finish ctx) :=
  Answered.send ⟨h.sent, h.ended, h.written⟩

theorem Answered.onResponse (h : Answered a s) : Answered a (s.onResponse ctx) := by
  rw [RelayState.onResponse]
  cases decoderFor ctx.platform ctx.response.encoding with
  | none => exact h.abort _ _ _
  | some decoder => exact ⟨h.sent, h.ended, h.written⟩

theorem Answered.onDecoded (h : Answered a s) (chunk : List Nat) :
    Answered a (s.onDecoded ctx chunk) := by
  have hcounted : Answered a { s with decodedSize := s.decodedSize + chunk.length } :=
    ⟨h.sent, h.ended, h.written⟩
  rw [RelayState.onDecoded]
  split_ifs
  · exact hcounted.abort _ _ _
  · exact ⟨h.sent, h.ended, h.written⟩

theorem Answered.onEncoded (h : Answered a s) (decoder : Option Decoder) (chunk : List Nat) :
    Answered a (s.onEncoded ctx decoder chunk) := by
  have hcounted : Answered a { s with encodedSize := s.encodedSize + chunk.length } :=
    ⟨h.sent, h.ended, h.written⟩
  rw [RelayState.onEncoded]
  split_ifs
  · exact hcounted.abort _ _ _
  · exact ⟨h.sent, h.ended, h.written⟩
  · exact hcounted

theorem Answered.onData (h : Answered a s) (chunk : List Nat) :
    Answered a (s.onData ctx chunk) := by
  rw [RelayState.onData.eq_def]
  split
  · exact h
  · exact (h.onEncoded none chunk).onDecoded chunk
  · exact h.onEncoded _ chunk

theorem Answered.onEnd (h : Answered a s) : Answered a (s.onEnd ctx) := by
  rw [RelayState.onEnd.eq_def]
  split
  · exact h
  · exact h.finish
  · split_ifs
    · exact ⟨h.sent, h.ended, h.written⟩
    · exact h.finish

theorem Answered.onError (h : Answered a s) (message : Text) (code : Option Text) :
    Answered a (s.onError ctx message code) := by
  rw [RelayState.onError]
  split_ifs
  · exact h.abort _ _ _
  · exact h

theorem Answered.onClose (h : Answered a s) : Answered a (s.onClose ctx) := by
  rw [RelayState.onClose, if_pos h.ended]
  exact h

end Handlers

/-- Each way a step is taken: what an event asks for, and what follows it. -/
inductive Moves (ctx : RelayContext) (x : Relaying) : RelayEvent → Relaying → Prop
  | responds (hresponded : x.responded = false) :
      Moves ctx x .response { x with responded := true, bridge := x.bridge.onResponse ctx }
  | brings {chunk : List Nat} (hresponded : x.responded = true)
      (hchunk : ctx.response.chunks[x.sent]? = some chunk) :
      Moves ctx x .targetData { x with sent := x.sent + 1, bridge := x.bridge.onData ctx chunk }
  | ends (hresponded : x.responded = true) (hwhole : ctx.whole = true)
      (hall : ctx.response.chunks.length ≤ x.sent) :
      Moves ctx x .targetEnd { x with targetOver := true, bridge := x.bridge.onEnd ctx }
  | breaks (message : Text) (code : Option Text) (hresponded : x.responded = true) :
      Moves ctx x (.targetError message code)
        { x with targetOver := true, bridge := x.bridge.onError ctx message code }
  | decodes (bytes : List Nat) (hdecoder : x.decoder.isSome = true) (hinput : x.bridge.input ≠ []) :
      Moves ctx x (.decoderData bytes)
        { x with given := x.given ++ bytes, bridge := x.bridge.onDecoded ctx bytes }
  | decoded {decoder : Decoder} (hdecoder : x.decoder = some decoder)
      (hgiven : ctx.node decoder x.bridge.input = .ok x.given) :
      Moves ctx x .decoderEnd { x with decoderOver := true, bridge := x.bridge.finish ctx }
  | closes : Moves ctx x .pageClosed { x with bridge := x.bridge.onClose ctx }
  | fails {event : RelayEvent} {next : Relaying} {status : Nat} {message code : Text}
      (hevent : event ≠ .decoderEnd) (hstatus : status ≠ 200)
      (hnext : next.bridge = x.bridge.abort ctx status message code) : Moves ctx x event next

theorem Relaying.moves_of_step {ctx : RelayContext} {x next : Relaying} {event : RelayEvent}
    (h : x.step ctx event = some next) : Moves ctx x event next := by
  cases event with
  | response =>
      rw [Relaying.step] at h
      split_ifs at h with hresponded
      cases h
      exact .responds (Bool.eq_false_iff.mpr hresponded)
  | targetData =>
      rw [Relaying.step] at h
      split_ifs at h with hopen
      obtain ⟨chunk, hchunk, rfl⟩ := Option.map_eq_some_iff.mp h
      exact .brings hopen.1 hchunk
  | targetEnd =>
      rw [Relaying.step] at h
      split_ifs at h with hopen
      cases h
      exact .ends hopen.1 hopen.2.2.1 hopen.2.2.2
  | targetError message code =>
      rw [Relaying.step] at h
      split_ifs at h with hopen
      cases h
      exact .breaks message code hopen.1
  | decoderData bytes =>
      rw [Relaying.step] at h
      split_ifs at h with hopen
      cases h
      exact .decodes bytes hopen.1 hopen.2
  | decoderEnd =>
      rw [Relaying.step] at h
      -- A decoder ends only where there is one.
      cases hdecoder : x.decoder with
      | none =>
          rw [hdecoder] at h
          cases h
      | some decoder =>
          simp only [hdecoder] at h
          split_ifs at h with hends
          cases h
          exact .decoded hdecoder hends.1
  | pageClosed =>
      cases h
      exact .closes
  | requestError message code =>
      cases h
      exact .fails (fun h => nomatch h) (by decide) rfl
  | decoderError message =>
      rw [Relaying.step] at h
      split_ifs at h
      cases h
      exact .fails (fun h => nomatch h) (by decide) rfl
  | deadline =>
      rw [Relaying.step] at h
      split_ifs at h
      cases h
      exact .fails (fun h => nomatch h) (by decide) rfl

/-- An answer that has been written stays the only one, whatever happens. -/
theorem Answered.step {ctx : RelayContext} {x next : Relaying} {event : RelayEvent} {a : HttpAnswer}
    (h : Answered a x.bridge) (hstep : x.step ctx event = some next) : Answered a next.bridge := by
  cases Relaying.moves_of_step hstep with
  | responds hresponded => exact h.onResponse
  | brings hresponded hchunk => exact h.onData _
  | ends hresponded hwhole hall => exact h.onEnd
  | breaks message code hresponded => exact h.onError message code
  | decodes bytes hdecoder hinput => exact h.onDecoded bytes
  | decoded hdecoder hgiven => exact h.finish
  | closes => exact h.onClose
  | fails hevent hstatus hnext =>
      rw [hnext]
      exact h.abort _ _ _

/-! ## While nothing has been answered -/

/-- The bytes of the response that have come. -/
def Relaying.arrived (ctx : RelayContext) (x : Relaying) : List Nat :=
  (ctx.response.chunks.take x.sent).flatten

/-- What the bridge holds while it has answered nothing: the counts are those of the bytes, and none
is over the cap. -/
structure Receiving (ctx : RelayContext) (x : Relaying) : Prop where
  encoded : x.bridge.encodedSize = (x.arrived ctx).length
  encodedCap : x.bridge.encodedSize ≤ maxRelayBytes
  decoded : x.bridge.decodedSize = x.bridge.chunks.flatten.length
  decodedCap : x.bridge.decodedSize ≤ maxRelayBytes
  responded : x.responded = true → ∃ decoder, x.bridge.reading = some decoder ∧
    decoderFor ctx.platform ctx.response.encoding = some decoder
  idle : x.responded = false → x.sent = 0 ∧ x.bridge.reading = none ∧ x.bridge.input = [] ∧
    x.bridge.chunks = [] ∧ x.given = []
  plain : x.bridge.reading = some none → x.bridge.chunks.flatten = x.arrived ctx
  through : ∀ decoder, x.bridge.reading = some (some decoder) →
    x.bridge.input = x.arrived ctx ∧ x.bridge.chunks.flatten = x.given ∧
      (x.bridge.input = [] → x.given = [])

/-- Nothing or one thing has been answered, the whole response or an error. -/
inductive RelayInv (ctx : RelayContext) (x : Relaying) : Prop
  | answered {answer : HttpAnswer} (h : Answered answer x.bridge)
      (hanswer : WholeResponse ctx answer ∨ RefusedRelay ctx answer)
  | unanswered (h : Unanswered x.bridge) (hreceiving : Receiving ctx x)

theorem RelayInv.start (ctx : RelayContext) : RelayInv ctx {} :=
  .unanswered ⟨rfl, rfl, rfl⟩
    { encoded := rfl
      encodedCap := Nat.zero_le _
      decoded := rfl
      decodedCap := Nat.zero_le _
      responded := fun h => nomatch h
      idle := fun _ => ⟨rfl, rfl, rfl, rfl, rfl⟩
      plain := fun h => nomatch h
      through := fun _ h => nomatch h }

theorem RelayInv.wholeOrRefused {ctx : RelayContext} {x : Relaying} (h : RelayInv ctx x) :
    WholeOrRefused ctx x.bridge := by
  cases h with
  | answered h hanswer =>
      rw [WholeOrRefused, h.written]
      refine ⟨Nat.le_refl 1, fun answer hmem => ?_⟩
      rw [List.mem_singleton.mp hmem]
      exact hanswer
  | unanswered h hreceiving =>
      rw [WholeOrRefused, h.written]
      exact ⟨Nat.zero_le 1, fun answer hmem => absurd hmem List.not_mem_nil⟩

section Steps

variable {ctx : RelayContext} {x : Relaying}

theorem RelayInv.refused {status : Nat} {message code : Text}
    (h : Answered (relayFailure status message code ctx.before) x.bridge)
    (hstatus : status ≠ 200) : RelayInv ctx x :=
  .answered h (.inr ⟨status, message, code, hstatus, rfl⟩)

theorem RelayInv.of_abort {status : Nat} {message code : Text} {s : RelayState}
    (hx : x.bridge = s.abort ctx status message code) (h : Unanswered s) (hstatus : status ≠ 200) :
    RelayInv ctx x := by
  have hanswered : Answered (relayFailure status message code ctx.before) x.bridge := by
    rw [hx]
    exact Unanswered.send ⟨h.sent, h.ended, h.written⟩
  exact .refused hanswered hstatus

theorem RelayInv.of_finish {s : RelayState} (h : Unanswered s)
    (hwhole : WholeResponse ctx (sendJson 200 (s.envelope ctx) ctx.before []))
    (hx : x.bridge = s.finish ctx) : RelayInv ctx x := by
  have hanswered : Answered (sendJson 200 (s.envelope ctx) ctx.before []) x.bridge := by
    rw [hx]
    exact Unanswered.send ⟨h.sent, h.ended, h.written⟩
  exact .answered hanswered (.inl hwhole)

theorem Relaying.arrived_of_all (hall : (ctx.response.chunks.drop x.sent).flatten = []) :
    x.arrived ctx = ctx.response.chunks.flatten := by
  conv_rhs => rw [← List.take_append_drop x.sent ctx.response.chunks, List.flatten_append, hall]
  rw [List.append_nil]
  rfl

/-- What has been received of a response that has all come is the response. -/
theorem Receiving.whole (h : Receiving ctx x) {decoder : Option Decoder}
    (hdecoder : decoderFor ctx.platform ctx.response.encoding = some decoder)
    (hwhole : ctx.whole = true) (hall : (ctx.response.chunks.drop x.sent).flatten = [])
    (hbody : decodedBody ctx.browser decoder ctx.response = .ok x.bridge.chunks.flatten) :
    WholeResponse ctx (sendJson 200 (x.bridge.envelope ctx) ctx.before []) := by
  have harrived := Relaying.arrived_of_all hall
  have hencoded : x.bridge.encodedSize = ctx.response.chunks.flatten.length := by
    rw [h.encoded, harrived]
  refine ⟨hwhole, decoder, _, hdecoder, hbody, ?_, ?_, ?_⟩
  · rw [← hencoded]
    exact h.encodedCap
  · rw [← h.decoded]
    exact h.decodedCap
  · rw [RelayState.envelope, relayEnvelope, hencoded, h.decoded]

/-- Decoded bytes are counted and kept, or the answer is that there are too many. -/
theorem RelayInv.onDecoded {s : RelayState} {chunk : List Nat} (h : Unanswered s)
    (hx : x.bridge = s.onDecoded ctx chunk)
    (hreceiving : s.decodedSize + chunk.length ≤ maxRelayBytes → Receiving ctx
      { x with bridge := { s with
          decodedSize := s.decodedSize + chunk.length, chunks := s.chunks ++ [chunk] } }) :
    RelayInv ctx x := by
  rw [RelayState.onDecoded] at hx
  split_ifs at hx with hlarge
  · rw [RelayState.tooLarge] at hx
    exact .of_abort hx ⟨h.sent, h.ended, h.written⟩ (by decide)
  · have hnext := hreceiving (Nat.not_lt.mp hlarge)
    rw [← hx] at hnext
    refine .unanswered ?_ hnext
    rw [hx]
    exact ⟨h.sent, h.ended, h.written⟩

theorem Relaying.arrived_succ {chunk : List Nat}
    (hchunk : ctx.response.chunks[x.sent]? = some chunk) (bridge : RelayState) :
    Relaying.arrived ctx { x with sent := x.sent + 1, bridge } = x.arrived ctx ++ chunk := by
  rw [Relaying.arrived, Relaying.arrived, List.take_add_one, hchunk, Option.toList_some,
    List.flatten_append, List.flatten_singleton]

theorem RelayInv.responds (h : Unanswered x.bridge) (hreceiving : Receiving ctx x)
    (hresponded : x.responded = false) :
    RelayInv ctx { x with responded := true, bridge := x.bridge.onResponse ctx } := by
  obtain ⟨hsent, hreading, hinput, hchunks, hgiven⟩ := hreceiving.idle hresponded
  cases hdecoder : decoderFor ctx.platform ctx.response.encoding with
  | none =>
      rw [RelayState.onResponse, hdecoder]
      exact .of_abort rfl h (by decide)
  | some decoder =>
      have hnext : x.bridge.onResponse ctx = { x.bridge with reading := some decoder } := by
        rw [RelayState.onResponse, hdecoder]
      rw [hnext]
      have harrived : x.arrived ctx = [] := by
        rw [Relaying.arrived, hsent]
        rfl
      refine .unanswered ⟨h.sent, h.ended, h.written⟩ ?_
      exact
        { encoded := hreceiving.encoded
          encodedCap := hreceiving.encodedCap
          decoded := hreceiving.decoded
          decodedCap := hreceiving.decodedCap
          responded := fun _ => ⟨decoder, rfl, hdecoder⟩
          idle := fun h => nomatch h
          plain := fun _ => (congrArg List.flatten hchunks).trans harrived.symm
          through := fun _ _ =>
            ⟨hinput.trans harrived.symm, (congrArg List.flatten hchunks).trans hgiven.symm,
              fun _ => hgiven⟩ }

theorem RelayInv.brings (h : Unanswered x.bridge) (hreceiving : Receiving ctx x)
    (hresponded : x.responded = true) {chunk : List Nat}
    (hchunk : ctx.response.chunks[x.sent]? = some chunk) :
    RelayInv ctx { x with sent := x.sent + 1, bridge := x.bridge.onData ctx chunk } := by
  obtain ⟨decoder, hreading, hdecoder⟩ := hreceiving.responded hresponded
  have harrived := Relaying.arrived_succ hchunk
  have hencoded : x.bridge.encodedSize + chunk.length = (x.arrived ctx ++ chunk).length := by
    rw [hreceiving.encoded, List.length_append]
  by_cases hlarge : maxRelayBytes < x.bridge.encodedSize + chunk.length
  · -- too large as it arrives: what is counted after that changes no answer
    have hrefused : ∀ decoder, Answered (relayFailure 502 (units "response body too large")
        (units "RELAY_RESPONSE_TOO_LARGE") ctx.before)
        (x.bridge.onEncoded ctx decoder chunk) := by
      intro decoder
      rw [RelayState.onEncoded, if_pos hlarge]
      exact Unanswered.send ⟨h.sent, h.ended, h.written⟩
    have hnext : Answered (relayFailure 502 (units "response body too large")
        (units "RELAY_RESPONSE_TOO_LARGE") ctx.before) (x.bridge.onData ctx chunk) := by
      rw [RelayState.onData.eq_def, hreading]
      cases decoder with
      | none => exact (hrefused none).onDecoded chunk
      | some decoder => exact hrefused _
    exact .refused hnext (by decide)
  · have hcap := Nat.not_lt.mp hlarge
    cases decoder with
    | none =>
        -- Without a decoder the chunk is decoded as it is.
        have hplain := hreceiving.plain hreading
        have hnext : x.bridge.onData ctx chunk = RelayState.onDecoded ctx
            { x.bridge with encodedSize := x.bridge.encodedSize + chunk.length } chunk := by
          rw [RelayState.onData, hreading]
          dsimp only
          rw [RelayState.onEncoded, if_neg hlarge]
          rfl
        rw [hnext]
        refine .onDecoded ?_ rfl fun hdecoded => ?_
        · exact ⟨h.sent, h.ended, h.written⟩
        · exact
            { encoded := hencoded.trans (congrArg List.length (harrived _).symm)
              encodedCap := hcap
              decoded := by
                rw [List.flatten_append, List.length_append, List.flatten_singleton]
                exact congrArg (· + chunk.length) hreceiving.decoded
              decodedCap := hdecoded
              responded := fun _ => ⟨none, hreading, hdecoder⟩
              idle := fun hidle => absurd (hresponded.symm.trans hidle) (by decide)
              plain := fun _ => by
                rw [harrived, List.flatten_append, List.flatten_singleton]
                exact congrArg (· ++ chunk) hplain
              through := fun d hd => nomatch hreading.symm.trans hd }
    | some decoder =>
        -- With one it is fed to that, and nothing is decoded yet.
        obtain ⟨hinput, hgiven, hempty⟩ := hreceiving.through decoder hreading
        have hnext : x.bridge.onData ctx chunk = { x.bridge with
            encodedSize := x.bridge.encodedSize + chunk.length
            input := x.bridge.input ++ chunk } := by
          rw [RelayState.onData, hreading]
          dsimp only
          rw [RelayState.onEncoded, if_neg hlarge]
          rfl
        rw [hnext]
        refine .unanswered ⟨h.sent, h.ended, h.written⟩ ?_
        exact
          { encoded := hencoded.trans (congrArg List.length (harrived _).symm)
            encodedCap := hcap
            decoded := hreceiving.decoded
            decodedCap := hreceiving.decodedCap
            responded := fun _ => ⟨some decoder, hreading, hdecoder⟩
            idle := fun hidle => absurd (hresponded.symm.trans hidle) (by decide)
            plain := fun hplain => nomatch hreading.symm.trans hplain
            through := fun d hd => by
              rw [harrived]
              refine ⟨congrArg (· ++ chunk) hinput, hgiven, fun hnil => ?_⟩
              exact hempty (List.append_eq_nil_iff.mp hnil).1 }

theorem RelayInv.ends (h : Unanswered x.bridge) (hreceiving : Receiving ctx x)
    (hresponded : x.responded = true) (hwhole : ctx.whole = true)
    (hall : ctx.response.chunks.length ≤ x.sent) :
    RelayInv ctx { x with targetOver := true, bridge := x.bridge.onEnd ctx } := by
  obtain ⟨decoder, hreading, hdecoder⟩ := hreceiving.responded hresponded
  have hrest : (ctx.response.chunks.drop x.sent).flatten = [] := by
    rw [List.drop_eq_nil_of_le hall]
    rfl
  have harrived := Relaying.arrived_of_all hrest
  cases decoder with
  | none =>
      rw [RelayState.onEnd, hreading]
      refine .of_finish h (hreceiving.whole hdecoder hwhole hrest ?_) rfl
      rw [decodedBody, hreceiving.plain hreading, harrived]
  | some decoder =>
      obtain ⟨hinput, hgiven, hempty⟩ := hreceiving.through decoder hreading
      have hnext : x.bridge.onEnd ctx = if 0 < x.bridge.encodedSize then
          { x.bridge with inputEnded := true } else x.bridge.finish ctx := by
        rw [RelayState.onEnd, hreading]
        dsimp only
        rw [hreading]
      rw [hnext]
      split_ifs with hbytes
      · refine .unanswered ⟨h.sent, h.ended, h.written⟩ ?_
        exact
          { encoded := hreceiving.encoded
            encodedCap := hreceiving.encodedCap
            decoded := hreceiving.decoded
            decodedCap := hreceiving.decodedCap
            responded := fun _ => ⟨some decoder, hreading, hdecoder⟩
            idle := fun hidle => absurd (hresponded.symm.trans hidle) (by decide)
            plain := fun hplain => nomatch hreading.symm.trans hplain
            through := hreceiving.through }
      · -- a response of no bytes: there is nothing to decode
        have hnone : x.arrived ctx = [] := by
          rw [hreceiving.encoded] at hbytes
          exact List.length_eq_zero_iff.mp (Nat.eq_zero_of_not_pos hbytes)
        refine .of_finish h (hreceiving.whole hdecoder hwhole hrest ?_) rfl
        rw [decodedBody, if_pos (harrived.symm.trans hnone), hgiven, hempty (hinput.trans hnone)]

theorem Relaying.reading_of_decoder {decoder : Decoder} (h : x.decoder = some decoder) :
    x.bridge.reading = some (some decoder) := by
  rw [Relaying.decoder] at h
  split_ifs at h
  exact Option.join_eq_some_iff.mp h

theorem RelayInv.decodes (h : Unanswered x.bridge) (hreceiving : Receiving ctx x)
    (bytes : List Nat) (hdecoder : x.decoder.isSome = true) (hinput : x.bridge.input ≠ []) :
    RelayInv ctx { x with given := x.given ++ bytes, bridge := x.bridge.onDecoded ctx bytes } := by
  obtain ⟨decoder, hdecoder⟩ := Option.isSome_iff_exists.mp hdecoder
  have hreading := Relaying.reading_of_decoder hdecoder
  obtain ⟨harrived, hgiven, -⟩ := hreceiving.through decoder hreading
  refine .onDecoded h rfl fun hcap => ?_
  exact
    { encoded := hreceiving.encoded
      encodedCap := hreceiving.encodedCap
      decoded := by
        rw [List.flatten_append, List.length_append, List.flatten_singleton]
        exact congrArg (· + bytes.length) hreceiving.decoded
      decodedCap := hcap
      responded := hreceiving.responded
      idle := fun hidle => nomatch hreading.symm.trans (hreceiving.idle hidle).2.1
      plain := fun hplain => nomatch hreading.symm.trans hplain
      through := fun d hd => by
        rw [List.flatten_append, List.flatten_singleton]
        exact ⟨harrived, congrArg (· ++ bytes) hgiven, fun hnil => absurd hnil hinput⟩ }

theorem RelayInv.decoded (h : Unanswered x.bridge) (hreceiving : Receiving ctx x)
    {decoder : Decoder} (hdecoder : x.decoder = some decoder)
    (hgiven : ctx.node decoder x.bridge.input = .ok x.given)
    (hall : ctx.whole = true ∧ (ctx.response.chunks.drop x.sent).flatten = [])
    (hresponded : x.responded = true) :
    RelayInv ctx { x with decoderOver := true, bridge := x.bridge.finish ctx } := by
  have hreading := Relaying.reading_of_decoder hdecoder
  obtain ⟨other, hother, hnamed⟩ := hreceiving.responded hresponded
  obtain rfl := Option.some.inj (hreading.symm.trans hother)
  obtain ⟨hinput, hchunks, hempty⟩ := hreceiving.through decoder hreading
  have harrived := Relaying.arrived_of_all hall.2
  refine .of_finish h (hreceiving.whole hnamed hall.1 hall.2 ?_) rfl
  rw [decodedBody, hchunks]
  split_ifs with hnone
  · rw [hempty (hinput.trans (harrived.trans hnone))]
  · rw [← harrived, ← hinput]
    exact ctx.agrees decoder _ _ hgiven

/-- A step that ends a decoder too early in no case keeps the invariant. -/
theorem RelayInv.step {event : RelayEvent} {next : Relaying} (h : RelayInv ctx x)
    (hends : EndsOnAll ctx x event) (hstep : x.step ctx event = some next) : RelayInv ctx next := by
  cases h with
  | answered h hanswer => exact .answered (h.step hstep) hanswer
  | unanswered h hreceiving =>
      cases Relaying.moves_of_step hstep with
      | responds hresponded => exact .responds h hreceiving hresponded
      | brings hresponded hchunk => exact .brings h hreceiving hresponded hchunk
      | ends hresponded hwhole hall => exact .ends h hreceiving hresponded hwhole hall
      | breaks message code hresponded =>
          obtain ⟨decoder, hreading, -⟩ := hreceiving.responded hresponded
          rw [RelayState.onError, if_pos (by rw [hreading]; rfl)]
          exact .of_abort rfl h (by decide)
      | decodes bytes hdecoder hinput => exact .decodes h hreceiving bytes hdecoder hinput
      | decoded hdecoder hgiven =>
          have hresponded : x.responded = true := by
            by_contra hidle
            have hreading := Relaying.reading_of_decoder hdecoder
            rw [(hreceiving.idle (Bool.eq_false_iff.mpr hidle)).2.1] at hreading
            cases hreading
          exact .decoded h hreceiving hdecoder hgiven (hends rfl h.sent) hresponded
      | closes =>
          rw [RelayState.onClose, if_neg (by rw [h.ended]; decide)]
          exact .of_abort rfl h (by decide)
      | fails hevent hstatus hnext => exact .of_abort hnext h hstatus

end Steps

/-! ## Runs of a relay -/

/-- What an answer says the response came to as it was received. -/
def encodedSizeOf (answer : HttpAnswer) : Option Json :=
  match answer.body with
  | some (.object members) => field members (units "encodedSize")
  | _ => none

theorem encodedSizeOf_envelope (ctx : RelayContext) (s : RelayState) :
    encodedSizeOf (sendJson 200 (s.envelope ctx) ctx.before []) =
      some (.number (.ofNat s.encodedSize)) := rfl

theorem WholeResponse.encodedSize {ctx : RelayContext} {answer : HttpAnswer}
    (h : WholeResponse ctx answer) :
    encodedSizeOf answer = some (.number (.ofNat ctx.response.chunks.flatten.length)) := by
  obtain ⟨-, decoder, body, -, -, -, -, rfl⟩ := h
  rfl

/-- A decoder that ends while bytes may still come makes an answer of what has come. -/
theorem not_whole_of_early {ctx : RelayContext} {x : Relaying} (hreceiving : Receiving ctx x)
    (hearly : ¬ (ctx.whole = true ∧ (ctx.response.chunks.drop x.sent).flatten = [])) :
    ¬ (WholeResponse ctx (sendJson 200 (x.bridge.envelope ctx) ctx.before []) ∨
      RefusedRelay ctx (sendJson 200 (x.bridge.envelope ctx) ctx.before [])) := by
  rintro (hwhole | ⟨status, message, code, hstatus, heq⟩)
  · have hsize := (encodedSizeOf_envelope ctx x.bridge).symm.trans hwhole.encodedSize
    have hnumber := congrArg JsonNumber.whole (Json.number.inj (Option.some.inj hsize))
    rw [JsonNumber.whole_ofNat, JsonNumber.whole_ofNat, hreceiving.encoded] at hnumber
    have hlength := Option.some.inj hnumber
    apply hearly
    refine ⟨hwhole.1, ?_⟩
    apply List.length_eq_zero_iff.mp
    have hsplit : (x.arrived ctx).length + (ctx.response.chunks.drop x.sent).flatten.length =
        ctx.response.chunks.flatten.length := by
      rw [Relaying.arrived, ← List.length_append, ← List.flatten_append, List.take_append_drop]
    omega
  · exact hstatus (congrArg HttpAnswer.status heq).symm

theorem meets_of_wholeOrRefused {ctx : RelayContext} {x x' : Relaying} {events : List RelayEvent}
    (hinv : RelayInv ctx x) (hrun : run (Relaying.step ctx) x events = some x')
    (h : WholeOrRefused ctx x'.bridge) :
    Meets (Relaying.step ctx) (EndsOnAll ctx) x events := by
  induction events generalizing x with
  | nil => exact meets_nil _ _
  | cons event events ih =>
      obtain ⟨next, hstep, hrest⟩ := run_cons.mp hrun
      have hends : EndsOnAll ctx x event := by
        rintro rfl hsent
        by_contra hearly
        cases hinv with
        | answered hanswered _ => exact absurd (hanswered.sent.symm.trans hsent) (by decide)
        | unanswered hunanswered hreceiving =>
            cases Relaying.moves_of_step hstep with
            | decoded hdecoder hgiven =>
                have hnext : Answered (sendJson 200 (x.bridge.envelope ctx) ctx.before [])
                    (x.bridge.finish ctx) :=
                  Unanswered.send ⟨hunanswered.sent, hunanswered.ended, hunanswered.written⟩
                have hlast : Answered (sendJson 200 (x.bridge.envelope ctx) ctx.before [])
                    x'.bridge := by
                  refine @run_invariant _ _ _ (fun y => Answered _ y.bridge) ?_ _ _ _ hnext hrest
                  intro _ _ _ hanswered hstep
                  exact hanswered.step hstep
                apply not_whole_of_early hreceiving hearly
                apply h.2
                rw [hlast.written]
                exact List.mem_singleton_self _
            | fails hevent hstatus hnext => exact absurd rfl hevent
      exact (meets_cons hstep).mpr ⟨hends, ih (hinv.step hends hstep) hrest⟩

/-- The letter `a` in the format of zlib. -/
def zlibLetter : List Nat :=
  [0x78, 0x9C, 0x4B, 0x04, 0x00, 0x00, 0x62, 0x00, 0x62]

/-- A response named `deflate`, in these chunks. What follows the end of its
stream is left alone. -/
def deflatedLetter (chunks : List (List Nat)) : RelayContext where
  platform := twoHostPlatform.platform
  node _ bytes :=
    if zlibLetter.isPrefixOf bytes then .ok [0x61] else .error (units "unexpected end of file")
  stops _ bytes := zlibLetter.isPrefixOf bytes && zlibLetter.length < bytes.length
  browser _ bytes := if zlibLetter.isPrefixOf bytes then .ok [0x61] else .error []
  agrees _ bytes out h := by
    split_ifs at h ⊢
    exact h
  before := []
  timings := .null
  response :=
    { status := 200
      message := some (units "OK")
      rawHeaders := [units "Content-Encoding", units "deflate"]
      encoding := some (units "deflate")
      chunks }
  whole := true

end Wayfarer
