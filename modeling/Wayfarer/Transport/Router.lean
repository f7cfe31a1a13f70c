import Wayfarer.Send.Transmit
import Wayfarer.Transport.Fetch

/-!
# The route of a request

`TransportRouter.send` sends a request by its route: from the page, through the Local
Bridge, or Auto, from the page and then through the bridge after a network failure. It
leaves a log: each attempt, each time the target gets the request, each response that
begins to arrive, each answer of the user. The network and the relay are values an
adversary chooses.

`send_log` gives the log of any send. Two theorems are exact about it: the request is
delivered twice exactly when it is sent again after its first delivery
(`deliveries_le_one_iff`), and nothing is attempted after a response began unless the
page's own response broke off (`settled_iff`). `send_repeats_only_preflighted` is what the
route Auto keeps: an unsafe request is delivered twice only on the user's yes or where the
browser asks the server first.
-/

set_option autoImplicit false

namespace Wayfarer

open Library

/-! ## What a send meets -/

/-- What the relay does with one request of the page. Following a redirect is a request of its
own, which the response asks for. -/
structure RelayBehaviour where
  /-- The target gets the request. -/
  delivered : Bool
  /-- The target's response has begun to arrive. -/
  began : Bool
  /-- What the bridge answers with, or the failure it is read as. -/
  answer : Except TransportError ResponseEnvelope

/-- What the network and the relay do with a request. -/
structure Network where
  direct : FetchBehaviour
  relay : RelayBehaviour

/-- The bridge's settings, each as it is when the router reads it. -/
structure BridgeReads where
  /-- The address, as the send begins. -/
  url : Text
  /-- The address, after the page's send failed. -/
  urlAfter : Text
  /-- A token is in the tab or in the vault, locked or not. -/
  hasToken : Bool
  /-- The token in the tab. -/
  token : Text
  /-- The token the vault gives, once the user was asked to unlock it; empty without one. -/
  tokenForSend : Text

/-- How one request is routed. `ask`: what the user answers when asked whether to send the request
again; absent where no one is asked. -/
structure RoutePolicy where
  route : Route
  ask : Option Bool

/-- What happens while a request is sent. -/
inductive SendEvent where
  | attempt (hop : Hop)
  | delivered (hop : Hop)
  | began (hop : Hop)
  | asked (yes : Bool)
  deriving DecidableEq

/-- How a send ended, and what happened on the way. -/
structure Routed where
  outcome : Except TransportError ResponseEnvelope
  /-- Where the request went last. -/
  took : Hop
  /-- The page got no response, and there is no bridge to try. -/
  unpaired : Bool
  log : List SendEvent

/-- The events of one attempt. -/
def attemptLog (hop : Hop) (delivered began : Bool) : List SendEvent :=
  .attempt hop :: ((if delivered then [.delivered hop] else []) ++
    if began then [.began hop] else [])

/-! ## The router -/

/-- Where a request goes first. A bridge with no address is no route. -/
def firstHop (route : Route) (url : Text) : Hop :=
  if route = .bridge ∧ url ≠ [] then .bridge else .direct

/-- The token a request is sent through the bridge with; empty when there is none. -/
def BridgeReads.tokenUsed (bridge : BridgeReads) : Text :=
  if bridge.token ≠ [] then bridge.token else bridge.tokenForSend

/-- A bridge is paired, after the page's send failed. -/
def BridgeReads.paired (bridge : BridgeReads) : Bool :=
  bridge.urlAfter ≠ [] && bridge.hasToken

/-- The page has no token for the bridge. -/
def noTokenError : TransportError where
  kind := .bridge
  message := units ("The Local Bridge is on, and this tab does not have its token. Unlock the " ++
    "vault, or pair the bridge again in Settings › Local Bridge.")

/-- A request sent through the bridge. -/
def viaBridge (bridge : BridgeReads) (relay : RelayBehaviour) :
    Except TransportError ResponseEnvelope × List SendEvent :=
  if bridge.tokenUsed = [] then (.error noTokenError, [])
  else (relay.answer, attemptLog .bridge relay.delivered relay.began)

/-- Whether a request the page got no response to is sent again, and what the user was asked. -/
def retryable (P : Platform) (page : Text) (policy : RoutePolicy) (request : TransportRequest) :
    Bool × List SendEvent :=
  match afterDirectSend P request.limits page true with
  | .keep => (false, [])
  | .retry => (true, [])
  | .ask =>
      match policy.ask with
      | none => (false, [])
      | some yes => (yes, [.asked yes])

/-- What follows a network failure of the page's send. `sent`: what has happened so far. -/
def afterPageFailed (P : Platform) (page : Text) (bridge : BridgeReads) (policy : RoutePolicy)
    (request : TransportRequest) (net : Network) (error : TransportError)
    (sent : List SendEvent) : Routed :=
  -- With no bridge paired, that is said; and only `auto` has another way to try.
  if policy.route ≠ .auto ∨ bridge.paired = false then
    { outcome := .error error, took := .direct, unpaired := !bridge.paired, log := sent }
  else
    let again := retryable P page policy request
    if again.1 then
      let relayed := viaBridge bridge net.relay
      { outcome := relayed.1, took := .bridge, unpaired := false
        log := sent ++ again.2 ++ relayed.2 }
    else
      { outcome := .error error, took := .direct, unpaired := false, log := sent ++ again.2 }

/-- A request sent by its route, from the page of the origin `page`. -/
def TransportRouter.send (P : Platform) (page : Text) (bridge : BridgeReads)
    (policy : RoutePolicy) (request : TransportRequest) (options : TransportOptions)
    (net : Network) : Routed :=
  match firstHop policy.route bridge.url with
  | .bridge =>
      let relayed := viaBridge bridge net.relay
      { outcome := relayed.1, took := .bridge, unpaired := false, log := relayed.2 }
  | .direct =>
      let sent := attemptLog .direct net.direct.delivered net.direct.began
      match fetchSend P request options net.direct with
      | .ok envelope => { outcome := .ok envelope, took := .direct, unpaired := false, log := sent }
      | .error error =>
          if error.kind = .network then
            afterPageFailed P page bridge policy request net error sent
          else { outcome := .error error, took := .direct, unpaired := false, log := sent }

/-! ## The log of a send -/

/-- The page's send of a request failed as a network failure. -/
def PageFailed (P : Platform) (request : TransportRequest) (options : TransportOptions)
    (net : Network) : Prop :=
  ∃ error, fetchSend P request options net.direct = .error error ∧ error.kind = .network

/-- A request of the route Auto that the page sent without a response, and that is sent again. -/
structure SentAgain (P : Platform) (page : Text) (bridge : BridgeReads) (policy : RoutePolicy)
    (request : TransportRequest) (options : TransportOptions) (net : Network) : Prop where
  auto : policy.route = .auto
  failed : PageFailed P request options net
  paired : bridge.paired = true
  token : bridge.tokenUsed ≠ []
  retryable : (retryable P page policy request).1 = true

/-- The user's answers are all a decision logs, a yes of theirs is a yes, and none is needed where
the method is safe or the browser asks the server first. -/
theorem retryable_log (P : Platform) (page : Text) (policy : RoutePolicy)
    (request : TransportRequest) :
    (∀ event ∈ (retryable P page policy request).2,
        event = .asked (retryable P page policy request).1) ∧
      ((retryable P page policy request).1 = true →
        isSafeMethod P request.method = true ∨
          (browserLimits P request.limits page .direct).preflight ≠ [] ∨
          SendEvent.asked true ∈ (retryable P page policy request).2) := by
  cases hafter : afterDirectSend P request.limits page true with
  | keep => simp [retryable, hafter]
  | retry =>
      obtain hsafe | hpreflight := (afterDirectSend_eq_retry_iff P request.limits page).mp hafter
      · exact ⟨by simp [retryable, hafter], fun _ => Or.inl hsafe⟩
      · exact ⟨by simp [retryable, hafter], fun _ => Or.inr (Or.inl hpreflight)⟩
  | ask =>
      cases hask : policy.ask with
      | none => simp [retryable, hafter, hask]
      | some yes => cases yes <;> simp [retryable, hafter, hask]

section

variable (P : Platform) (page : Text) (bridge : BridgeReads) (policy : RoutePolicy)
  (request : TransportRequest) (options : TransportOptions) (net : Network)

/-- The log of a send that is not repeated: one attempt, or none where the page has no token, and
perhaps the user's answer. -/
def OneAttempt (log : List SendEvent) : Prop :=
  log = [] ∨ ∃ hop delivered began answers,
    (∀ event ∈ answers, ∃ yes, event = SendEvent.asked yes) ∧
      log = attemptLog hop delivered began ++ answers

/-- One attempt, and nothing asked. -/
theorem oneAttempt_attemptLog (hop : Hop) (delivered began : Bool) :
    OneAttempt (attemptLog hop delivered began) :=
  Or.inr ⟨hop, delivered, began, [], by simp, (List.append_nil _).symm⟩

/-- A send through the bridge is one attempt, made when there is a token. -/
theorem viaBridge_log :
    (viaBridge bridge net.relay).2 =
      if bridge.tokenUsed = [] then []
      else attemptLog .bridge net.relay.delivered net.relay.began := by
  unfold viaBridge
  split <;> rfl

/-- After a network failure of the page's send, the request is sent through the bridge under the
conditions of `SentAgain`; otherwise the user's answers are all that follows. -/
theorem afterPageFailed_log (error : TransportError) (sent : List SendEvent)
    (hfailed : PageFailed P request options net) :
    (SentAgain P page bridge policy request options net ∧
      (afterPageFailed P page bridge policy request net error sent).log =
        sent ++ (retryable P page policy request).2 ++
          attemptLog .bridge net.relay.delivered net.relay.began) ∨
    (¬ SentAgain P page bridge policy request options net ∧
      ∃ answers, (∀ event ∈ answers, ∃ yes, event = SendEvent.asked yes) ∧
        (afterPageFailed P page bridge policy request net error sent).log = sent ++ answers) := by
  have hasked : ∀ event ∈ (retryable P page policy request).2,
      ∃ yes, event = SendEvent.asked yes := fun event h =>
    ⟨_, (retryable_log P page policy request).1 event h⟩
  unfold afterPageFailed
  split
  · next hstays =>
      refine Or.inr ⟨fun again => ?_, [], by simp, (List.append_nil _).symm⟩
      simp [again.auto, again.paired] at hstays
  · next hgoes =>
      push Not at hgoes
      cases hretry : (retryable P page policy request).1 with
      | false =>
          refine Or.inr ⟨fun again => ?_, _, hasked, by simp [hretry]⟩
          simp [again.retryable] at hretry
      | true =>
          by_cases htoken : bridge.tokenUsed = []
          · exact Or.inr ⟨fun again => again.token htoken, _, hasked,
              by simp [hretry, viaBridge_log, htoken]⟩
          · refine Or.inl ⟨⟨hgoes.1, hfailed, by simpa using hgoes.2, htoken, hretry⟩, ?_⟩
            simp [hretry, viaBridge_log, htoken]

/-- The log of a send: an attempt from the page, the user's yes where it was asked for, and an
attempt through the bridge; or no more than one attempt. -/
theorem send_log :
    (SentAgain P page bridge policy request options net ∧
      (TransportRouter.send P page bridge policy request options net).log =
        attemptLog .direct net.direct.delivered net.direct.began ++
          (retryable P page policy request).2 ++
          attemptLog .bridge net.relay.delivered net.relay.began) ∨
    (¬ SentAgain P page bridge policy request options net ∧
      OneAttempt (TransportRouter.send P page bridge policy request options net).log) := by
  unfold TransportRouter.send
  cases hfirst : firstHop policy.route bridge.url with
  | bridge =>
      refine Or.inr ⟨fun again => ?_, ?_⟩
      · simp [firstHop, again.auto] at hfirst
      · simp only [viaBridge_log]
        split
        · exact Or.inl rfl
        · exact oneAttempt_attemptLog _ _ _
  | direct =>
      cases hfetch : fetchSend P request options net.direct with
      | ok envelope =>
          refine Or.inr ⟨fun again => ?_, oneAttempt_attemptLog _ _ _⟩
          obtain ⟨error, herror, -⟩ := again.failed
          rw [hfetch] at herror
          cases herror
      | error error =>
          by_cases hkind : error.kind = .network
          · simp only [if_pos hkind]
            obtain hagain | ⟨hnot, answers, hanswers, hlog⟩ :=
              afterPageFailed_log P page bridge policy request options net error
                (attemptLog .direct net.direct.delivered net.direct.began) ⟨error, hfetch, hkind⟩
            · exact Or.inl hagain
            · exact Or.inr ⟨hnot, Or.inr ⟨_, _, _, answers, hanswers, hlog⟩⟩
          · simp only [if_neg hkind]
            refine Or.inr ⟨fun again => ?_, oneAttempt_attemptLog _ _ _⟩
            obtain ⟨other, herror, hnetwork⟩ := again.failed
            rw [hfetch] at herror
            cases herror
            exact hkind hnetwork

/-! ## Deliveries -/

/-- How often the target gets the request. -/
def deliveries (log : List SendEvent) : Nat :=
  log.countP fun event => event = .delivered .direct || event = .delivered .bridge

/-- The user's answers deliver nothing. -/
theorem deliveries_eq_zero {answers : List SendEvent}
    (h : ∀ event ∈ answers, ∃ yes, event = SendEvent.asked yes) : deliveries answers = 0 := by
  refine List.countP_eq_zero.mpr fun event hevent => ?_
  obtain ⟨yes, rfl⟩ := h event hevent
  simp

/-- An attempt delivers the request once or not at all. -/
theorem deliveries_attemptLog (hop : Hop) (delivered began : Bool) :
    deliveries (attemptLog hop delivered began) = if delivered then 1 else 0 := by
  cases hop <;> cases delivered <;> cases began <;> rfl

theorem deliveries_append (a b : List SendEvent) :
    deliveries (a ++ b) = deliveries a + deliveries b :=
  List.countP_append ..

/-- A send that is not repeated delivers the request at most once. -/
theorem OneAttempt.deliveries_le_one {log : List SendEvent} (h : OneAttempt log) :
    deliveries log ≤ 1 := by
  obtain rfl | ⟨hop, delivered, began, answers, hanswers, rfl⟩ := h
  · exact Nat.zero_le _
  · rw [deliveries_append, deliveries_eq_zero hanswers, deliveries_attemptLog]
    cases delivered <;> simp

/-- The request is delivered more than once exactly when it is sent again, and the target got it
both times. -/
theorem deliveries_le_one_iff :
    deliveries (TransportRouter.send P page bridge policy request options net).log ≤ 1 ↔
      ¬ (SentAgain P page bridge policy request options net ∧
        net.direct.delivered = true ∧ net.relay.delivered = true) := by
  obtain ⟨hagain, hlog⟩ | ⟨hnot, hone⟩ := send_log P page bridge policy request options net
  · rw [hlog, deliveries_append, deliveries_append, deliveries_attemptLog, deliveries_attemptLog,
      deliveries_eq_zero fun event h => ⟨_, (retryable_log P page policy request).1 event h⟩]
    cases net.direct.delivered <;> cases net.relay.delivered <;> simp [hagain]
  · exact iff_of_true hone.deliveries_le_one fun h => hnot h.1

/-! ## After a response -/

/-- A response began to arrive. -/
def SendEvent.isBegan : SendEvent → Bool
  | .began _ => true
  | _ => false

/-- The request was attempted. -/
def SendEvent.isAttempt : SendEvent → Bool
  | .attempt _ => true
  | _ => false

/-- Nothing is attempted after a response began to arrive. -/
def SettledByResponse (log : List SendEvent) : Prop :=
  log.Pairwise fun earlier later => earlier.isBegan = true → later.isAttempt = false

/-- In one attempt, nothing is attempted after the response. -/
theorem settled_attemptLog (hop : Hop) (delivered began : Bool) :
    SettledByResponse (attemptLog hop delivered began) := by
  cases delivered <;> cases began <;>
    simp [SettledByResponse, attemptLog, SendEvent.isBegan, SendEvent.isAttempt]

/-- An attempt that is not answered begins no response. -/
theorem attemptLog_unanswered (hop : Hop) (delivered : Bool) :
    ∀ event ∈ attemptLog hop delivered false, event.isBegan = false := by
  cases delivered <;> simp [attemptLog, SendEvent.isBegan]

/-- What begins no response, or attempts nothing, may be put before or after a settled log. -/
theorem settled_append {a b : List SendEvent} (ha : SettledByResponse a)
    (hb : SettledByResponse b)
    (h : (∀ event ∈ a, event.isBegan = false) ∨ ∀ event ∈ b, event.isAttempt = false) :
    SettledByResponse (a ++ b) := by
  refine List.pairwise_append.mpr ⟨ha, hb, fun earlier hearlier later hlater hbegan => ?_⟩
  obtain hquiet | hidle := h
  · simp [hquiet earlier hearlier] at hbegan
  · exact hidle later hlater

/-- The user's answers neither begin a response nor attempt anything. -/
theorem answers_quiet {answers : List SendEvent}
    (h : ∀ event ∈ answers, ∃ yes, event = SendEvent.asked yes) :
    SettledByResponse answers ∧ (∀ event ∈ answers, event.isBegan = false) ∧
      ∀ event ∈ answers, event.isAttempt = false := by
  have hquiet : ∀ event ∈ answers, event.isBegan = false ∧ event.isAttempt = false := by
    intro event hevent
    obtain ⟨yes, rfl⟩ := h event hevent
    exact ⟨rfl, rfl⟩
  refine ⟨?_, fun event hevent => (hquiet event hevent).1,
    fun event hevent => (hquiet event hevent).2⟩
  exact List.Pairwise.imp_of_mem (fun hearlier _ _ hbegan => by
    simp [(hquiet _ hearlier).1] at hbegan) (List.pairwise_of_forall fun _ _ => trivial)

/-- A send that is not repeated attempts nothing after a response. -/
theorem OneAttempt.settled {log : List SendEvent} (h : OneAttempt log) :
    SettledByResponse log := by
  obtain rfl | ⟨hop, delivered, began, answers, hanswers, rfl⟩ := h
  · exact List.Pairwise.nil
  · obtain ⟨hsettled, -, hidle⟩ := answers_quiet hanswers
    exact settled_append (settled_attemptLog hop delivered began) hsettled (Or.inr hidle)

/-- Something is attempted after a response began exactly when the request is sent again although
the page's response had begun. -/
theorem settled_iff :
    SettledByResponse (TransportRouter.send P page bridge policy request options net).log ↔
      ¬ (SentAgain P page bridge policy request options net ∧ net.direct.began = true) := by
  obtain ⟨hagain, hlog⟩ | ⟨hnot, hone⟩ := send_log P page bridge policy request options net
  · obtain ⟨hsettled, hquiet, -⟩ := answers_quiet fun event h =>
      ⟨_, (retryable_log P page policy request).1 event h⟩
    rw [hlog]
    cases hbegan : net.direct.began with
    | true =>
        -- The response began in the first attempt, and the second follows it.
        refine iff_of_false (fun h => ?_) (by simp [hagain])
        have hlater := (List.pairwise_append.mp h).2.2 (.began .direct)
          (by simp [attemptLog]) (.attempt .bridge) (by simp [attemptLog]) rfl
        simp [SendEvent.isAttempt] at hlater
    | false =>
        refine iff_of_true ?_ (by simp)
        refine settled_append (settled_append (settled_attemptLog _ _ _) hsettled ?_)
          (settled_attemptLog _ _ _) (Or.inl ?_)
        · exact Or.inr (answers_quiet fun event h =>
            ⟨_, (retryable_log P page policy request).1 event h⟩).2.2
        · intro event hevent
          obtain h | h := List.mem_append.mp hevent
          · exact attemptLog_unanswered _ _ event h
          · exact hquiet event h
  · exact iff_of_true hone.settled fun h => hnot h.1

/-! ## What the route Auto keeps -/

/-- The response the page began to receive broke off while its body was read. -/
def FetchBehaviour.BrokeOff (net : FetchBehaviour) : Prop :=
  ∃ response, net.answer = .ok response ∧ response.broken ≠ none

/-- A request that is sent again after its response began has a response that broke off. -/
theorem brokeOff_of_sentAgain (h : SentAgain P page bridge policy request options net)
    (hbegan : net.direct.began = true) : net.direct.BrokeOff := by
  obtain ⟨error, herror, -⟩ := h.failed
  obtain ⟨cause, hcause⟩ | hbroken := fetchSend_network herror
  · simp [FetchBehaviour.began, hcause, Except.toOption] at hbegan
  · exact hbroken

/-- What a send of a request keeps, read off its log. -/
structure RepeatsOnlyPreflighted : Prop where
  /-- An unsafe request is delivered again only on the user's yes, or after a failure of the page's
  send where the browser asks the server first. -/
  unsafe_once : isSafeMethod P request.method = false →
    deliveries (TransportRouter.send P page bridge policy request options net).log ≤ 1 ∨
      SendEvent.asked true ∈
        (TransportRouter.send P page bridge policy request options net).log ∨
      (PageFailed P request options net ∧
        (browserLimits P request.limits page .direct).preflight ≠ [])
  /-- No request is delivered more than twice. -/
  at_most_twice :
    deliveries (TransportRouter.send P page bridge policy request options net).log ≤ 2
  /-- A response that does not break off is the answer. -/
  settled : ¬ net.direct.BrokeOff →
    SettledByResponse (TransportRouter.send P page bridge policy request options net).log

/-- Every send repeats a request only so. -/
theorem send_repeats_only_preflighted :
    RepeatsOnlyPreflighted P page bridge policy request options net := by
  have hwhole : ¬ net.direct.BrokeOff →
      SettledByResponse (TransportRouter.send P page bridge policy request options net).log :=
    fun hbroken => (settled_iff P page bridge policy request options net).mpr
      fun h => hbroken (brokeOff_of_sentAgain P page bridge policy request options net h.1 h.2)
  obtain ⟨hagain, hlog⟩ | ⟨-, hone⟩ := send_log P page bridge policy request options net
  · have hanswers := deliveries_eq_zero fun event h =>
      ⟨_, (retryable_log P page policy request).1 event h⟩
    refine ⟨fun hsafe => ?_, ?_, hwhole⟩
    · obtain hcontra | hpreflight | hyes :=
        (retryable_log P page policy request).2 hagain.retryable
      · simp [hsafe] at hcontra
      · exact Or.inr (Or.inr ⟨hagain.failed, hpreflight⟩)
      · exact Or.inr (Or.inl (by simp [hlog, hyes]))
    · rw [hlog, deliveries_append, deliveries_append, hanswers, deliveries_attemptLog,
        deliveries_attemptLog]
      split <;> split <;> omega
  · exact ⟨fun _ => Or.inl hone.deliveries_le_one, hone.deliveries_le_one.trans (by omega), hwhole⟩

end

/-! ## A request delivered twice -/

/-- A page of another origin than the target's. -/
def otherPage : Text := units "https://app.test"

/-- A request whose JSON body makes the browser ask the server first. -/
def jsonPost : TransportRequest where
  method := units "POST"
  url := units "https://api.test/"
  headers := [(units "Content-Type", units "application/json")]
  body := some (.text (units "\x7b\x7d"))

/-- A bridge with a token in the tab. -/
def pairedBridge : BridgeReads where
  url := units "http://127.0.0.1:7717"
  urlAfter := units "http://127.0.0.1:7717"
  hasToken := true
  token := units "t"
  tokenForSend := []

/-- A server that allows the preflight and gets the request, and whose answer the browser keeps from
the page; the relay reaches the same server. -/
def blockedAnswer : Network where
  direct :=
    { delivered := true
      answer := .error (.error (units "Failed to fetch") none)
      deadline := { timedOut := false, cancelled := false } }
  relay := { delivered := true, began := false, answer := .error noTokenError }

/-- A JSON POST whose preflight was allowed and whose answer was blocked is delivered twice, and
the user is not asked. -/
theorem jsonPost_delivered_twice :
    isSafeMethod oneAddressPlatform jsonPost.method = false ∧
      deliveries (TransportRouter.send oneAddressPlatform otherPage pairedBridge
        { route := .auto, ask := some false } jsonPost { timeoutMs := 0 } blockedAnswer).log = 2 ∧
      SendEvent.asked true ∉ (TransportRouter.send oneAddressPlatform otherPage pairedBridge
        { route := .auto, ask := some false } jsonPost { timeoutMs := 0 } blockedAnswer).log := by
  decide +kernel

end Wayfarer
