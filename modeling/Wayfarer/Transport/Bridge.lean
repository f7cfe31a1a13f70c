import Wayfarer.Send.Transmit
import Wayfarer.Transport.Redirect

/-!
# Sending through the Local Bridge

`BridgeTransport.send` relays a request through the bridge, which follows no redirect: each hop of
a chain is a relay of its own, made here. The jar's cookies are added to what is relayed, not to
the hop: the next hop asks the jar again.

What the jar gives at each hop and what the relay answers with are values an adversary chooses.
The hops of a send are a chain of `Follows` (`hops_isChain`); `send_safe` reads off it what no
answer can bring about.
-/

set_option autoImplicit false

namespace Wayfarer

open Library

/-! ## What is relayed -/

/-- Whether redirects are followed, and whether a hop that leaves the host is. -/
structure RedirectPolicy where
  follow : Bool
  stayOnHost : Bool

/-- What a caller asks of a send through the bridge. -/
structure RelayOptions where
  /-- 0 means no timeout. -/
  timeoutMs : Nat
  /-- Absent: a redirect is the response. -/
  redirects : Option RedirectPolicy
  /-- The caller has a cookie jar. -/
  cookies : Bool
  /-- Do not verify the server's certificate. -/
  tlsInsecure : Bool

/-- The most redirects that are followed for one request. -/
def maxRedirects : Nat := 20

/-- The request's body as the bytes that go on the wire, and its headers with them. -/
def wireBody (L : LinkPlatform) (request : TransportRequest) :
    List (Text × Text) × Option (List Nat) :=
  match request.body with
  | none => (request.headers, none)
  | some (.text t) => (request.headers, some (utf8Bytes t))
  | some (.file data) => (request.headers, some data.bytes)
  | some (.form entries) =>
      match L.writeForm entries with
      | (bytes, none) => (request.headers, some bytes)
      | (bytes, some type) =>
          ((request.headers.filter fun header =>
              L.platform.toLowerCase header.1 ≠ units "content-type") ++
            [(units "Content-Type", type)], some bytes)

/-- What the bridge is asked to send. -/
structure RelayMessage where
  method : Text
  url : Text
  headers : List (Text × Text)
  body : Option (List Nat)
  timeoutMs : Option Nat
  tlsInsecure : Bool

/-- A request as the bridge is asked to send it. -/
def relayMessage (L : LinkPlatform) (options : RelayOptions) (request : TransportRequest) :
    RelayMessage :=
  let written := wireBody L request
  { method := request.method
    url := request.url
    headers := written.1
    body := written.2
    timeoutMs := if 0 < options.timeoutMs then some options.timeoutMs else none
    tlsInsecure := options.tlsInsecure }

/-- A hop, and the cookies the jar gave for its address. -/
structure RelayedHop where
  hop : TransportRequest
  cookies : Option (List Cookie)

/-- The hop with the jar's cookies. -/
def RelayedHop.request (L : LinkPlatform) (relayed : RelayedHop) : TransportRequest :=
  match relayed.cookies with
  | none => relayed.hop
  | some cookies =>
      { relayed.hop with headers := withJarCookies L.platform relayed.hop.headers cookies }

/-- What the bridge is asked to send for the hop. -/
def RelayedHop.message (L : LinkPlatform) (options : RelayOptions) (relayed : RelayedHop) :
    RelayMessage :=
  relayMessage L options (relayed.request L)

/-! ## The send -/

/-- What one hop meets: the jar's cookies for its address, and the relay's answer, read. -/
structure HopMeets where
  jar : List Cookie
  answer : Except TransportError ResponseEnvelope

/-- How a send through the bridge ended, and what happened on the way. -/
structure BridgeSend where
  outcome : Except TransportError ResponseEnvelope
  /-- Each request that was relayed, in order. -/
  relayed : List RelayedHop
  /-- What the jar was told: an address, and the cookies its response set. -/
  stored : List (Text × List Text)

/-- The `Set-Cookie` headers of a response. -/
def setCookies (envelope : ResponseEnvelope) : List Text :=
  (envelope.headers.filter fun header => header.1 = units "set-cookie").map Prod.snd

/-- The `Location` of a response. -/
def locationOf (L : LinkPlatform) (envelope : ResponseEnvelope) : Option Text :=
  (envelope.headers.find? (isNamed L.platform (units "location"))).map Prod.snd

/-- What a response asks for, where redirects are looked at: the next request, or how the chain
ended here. -/
def afterAnswer (L : LinkPlatform) (redirects : RedirectPolicy) (hop : TransportRequest)
    (envelope : ResponseEnvelope) : TransportRequest ⊕ Option RedirectStop :=
  match locationOf L envelope with
  | none => .inr none
  | some location =>
      match nextHop L hop envelope.status (some location) redirects.stayOnHost with
      | none => .inr none
      | some next =>
          if redirects.follow = false then .inr (some .off)
          else
            match next with
            | .stopped why => .inr (some why)
            | .request request => .inl request

/-- A response, with the chain that led to it. -/
def ResponseEnvelope.ended (envelope : ResponseEnvelope) (chain : List RedirectHop)
    (stopped : Option RedirectStop) : ResponseEnvelope :=
  { envelope with redirected := chain ≠ [], redirects := some (chain, stopped) }

/-- A hop sent, after the redirects of `chain`. `left` more may be followed: `left` and the length
of the chain are `maxRedirects` together. -/
def BridgeTransport.sendFrom (L : LinkPlatform) (options : RelayOptions) (meets : Nat → HopMeets)
    (left : Nat) (chain : List RedirectHop) (hop : TransportRequest) : BridgeSend :=
  let met := meets chain.length
  let relayed : RelayedHop := { hop, cookies := if options.cookies then some met.jar else none }
  match met.answer with
  | .error error => { outcome := .error error, relayed := [relayed], stored := [] }
  | .ok envelope =>
      let stored := if options.cookies then [(hop.url, setCookies envelope)] else []
      match options.redirects with
      | none => { outcome := .ok envelope, relayed := [relayed], stored }
      | some redirects =>
          match afterAnswer L redirects hop envelope with
          | .inr stopped =>
              { outcome := .ok (envelope.ended chain stopped), relayed := [relayed], stored }
          | .inl request =>
              match left with
              | 0 =>
                  { outcome := .ok (envelope.ended chain (some .limit)), relayed := [relayed],
                    stored }
              | left + 1 =>
                  let followed : RedirectHop :=
                    { status := envelope.status, url := hop.url,
                      location := (locationOf L envelope).getD [] }
                  let rest := sendFrom L options meets left (chain ++ [followed]) request
                  { rest with relayed := relayed :: rest.relayed, stored := stored ++ rest.stored }

/-- A request sent through the bridge. -/
def BridgeTransport.send (L : LinkPlatform) (options : RelayOptions) (meets : Nat → HopMeets)
    (request : TransportRequest) : BridgeSend :=
  BridgeTransport.sendFrom L options meets maxRedirects [] request

/-! ## What no answer can bring about -/

/-- The message holds none of the request's own credentials: no `Authorization`, and no cookies but
the jar's. -/
def WithoutOwn (L : LinkPlatform) (options : RelayOptions) (relayed : RelayedHop) : Prop :=
  ∀ header ∈ (relayed.message L options).headers,
    L.platform.toLowerCase header.1 ≠ units "authorization" ∧
      (L.platform.toLowerCase header.1 = units "cookie" →
        ∃ jar, relayed.cookies = some jar ∧ header = (cookieName, cookieHeader jar))

/-- The message is a GET with no body and no header of one. -/
def BareMessage (L : LinkPlatform) (options : RelayOptions) (relayed : RelayedHop) : Prop :=
  (relayed.message L options).method = units "GET" ∧ (relayed.message L options).body = none ∧
    ∀ header ∈ (relayed.message L options).headers,
      L.platform.toLowerCase header.1 ∉ bodyHeaders

/-- What holds of every request that a send relays. -/
structure SafeRelays (L : LinkPlatform) (options : RelayOptions) (first : TransportRequest)
    (relayed : List RelayedHop) : Prop where
  /-- A request that is to stay on its host does. -/
  host : (∃ redirects, options.redirects = some redirects ∧ redirects.stayOnHost = true) →
    ∀ hop ∈ relayed, L.hostOf (hop.message L options).url = L.hostOf first.url
  /-- And no hop of it drops TLS. -/
  tls : (∃ redirects, options.redirects = some redirects ∧ redirects.stayOnHost = true) →
    ∀ (i : Nat) (a b : RelayedHop), relayed[i]? = some a → relayed[i + 1]? = some b →
      ¬(L.protocolOf (a.message L options).url = some (units "https:") ∧
        L.protocolOf (b.message L options).url = some (units "http:"))
  /-- From the first hop that leaves the origin on, the request's own credentials are gone. -/
  credentials : ∀ (i j : Nat) (a b : RelayedHop), i ≤ j → relayed[i]? = some a →
    relayed[j]? = some b → L.originOf (a.message L options).url ≠ L.originOf first.url →
      WithoutOwn L options b
  /-- From the hop that was turned into a GET on, there is no body. -/
  bare : ∀ (i j k : Nat) (a b c : RelayedHop), i < j → j ≤ k → relayed[i]? = some a →
    relayed[j]? = some b → relayed[k]? = some c → (a.message L options).method ≠ units "GET" →
      (b.message L options).method = units "GET" → BareMessage L options c
  /-- The first request is the caller's. -/
  starts : relayed.head?.map RelayedHop.hop = some first
  limit : relayed.length ≤ maxRedirects + 1
  /-- With following off nothing more is sent. -/
  off : (∀ redirects, options.redirects = some redirects → redirects.follow = false) →
    relayed.length = 1

/-! ## The hops are a chain -/

section Chain

variable {L : LinkPlatform} {options : RelayOptions} {meets : Nat → HopMeets}

theorem message_method (relayed : RelayedHop) :
    (relayed.message L options).method = relayed.hop.method := by
  unfold RelayedHop.message RelayedHop.request
  cases relayed.cookies <;> rfl

theorem message_url (relayed : RelayedHop) :
    (relayed.message L options).url = relayed.hop.url := by
  unfold RelayedHop.message RelayedHop.request
  cases relayed.cookies <;> rfl

/-- A response leads on only where redirects are followed. -/
theorem afterAnswer_follows {redirects : RedirectPolicy} {hop next : TransportRequest}
    {envelope : ResponseEnvelope} (h : afterAnswer L redirects hop envelope = .inl next) :
    redirects.follow = true ∧ Follows L redirects.stayOnHost hop next := by
  unfold afterAnswer at h
  split at h
  · cases h
  · next location hlocation =>
      split at h
      · cases h
      · next found hfound =>
          split_ifs at h with hoff
          split at h
          · cases h
          · cases h
            exact ⟨by simpa using hoff, envelope.status, some location, hfound⟩

/-- How the loop goes on from a hop: it ends there, or it follows a redirect. -/
theorem sendFrom_cases (L : LinkPlatform) (options : RelayOptions) (meets : Nat → HopMeets)
    (left : Nat) (chain : List RedirectHop) (hop : TransportRequest) :
    (∃ cookies, (BridgeTransport.sendFrom L options meets left chain hop).relayed =
      [{ hop, cookies }]) ∨
    ∃ left' redirects chain' next cookies, left = left' + 1 ∧ options.redirects = some redirects ∧
      redirects.follow = true ∧ Follows L redirects.stayOnHost hop next ∧
      (BridgeTransport.sendFrom L options meets left chain hop).relayed =
        { hop, cookies } ::
          (BridgeTransport.sendFrom L options meets left' chain' next).relayed := by
  rw [BridgeTransport.sendFrom]
  dsimp only
  split
  · exact Or.inl ⟨_, rfl⟩
  · next envelope hanswer =>
      split
      · exact Or.inl ⟨_, rfl⟩
      · next redirects hredirects =>
          split
          · exact Or.inl ⟨_, rfl⟩
          · next request hafter =>
              obtain ⟨hfollow, hnext⟩ := afterAnswer_follows hafter
              cases left with
              | zero => exact Or.inl ⟨_, rfl⟩
              | succ left' =>
                  exact Or.inr ⟨left', redirects, _, request, _, rfl, hredirects, hfollow, hnext,
                    rfl⟩

/-- The hops are a chain from the first, one longer at most than what is left. -/
theorem sendFrom_isChain (L : LinkPlatform) (options : RelayOptions) (meets : Nat → HopMeets)
    {R : TransportRequest → TransportRequest → Prop}
    (hstep : ∀ redirects a b, options.redirects = some redirects →
      Follows L redirects.stayOnHost a b → R a b)
    (left : Nat) (chain : List RedirectHop) (hop : TransportRequest) :
    ∃ rest, ((BridgeTransport.sendFrom L options meets left chain hop).relayed.map
        RelayedHop.hop) = hop :: rest ∧
      List.IsChain R (hop :: rest) ∧ rest.length ≤ left := by
  induction left generalizing chain hop with
  | zero =>
      obtain ⟨cookies, h⟩ | ⟨_, _, _, _, _, hleft, _⟩ :=
        sendFrom_cases L options meets 0 chain hop
      · exact ⟨[], by rw [h]; rfl, List.isChain_singleton _, le_rfl⟩
      · cases hleft
  | succ left ih =>
      obtain ⟨cookies, h⟩ | ⟨left', redirects, chain', next, cookies, hleft, hon, -, hnext, h⟩ :=
        sendFrom_cases L options meets (left + 1) chain hop
      · exact ⟨[], by rw [h]; rfl, List.isChain_singleton _, Nat.zero_le _⟩
      · cases hleft
        obtain ⟨rest, hrest, hchain, hlength⟩ := ih chain' next
        refine ⟨next :: rest, by rw [h, List.map_cons, hrest], ?_, Nat.succ_le_succ hlength⟩
        exact List.isChain_cons_cons.mpr ⟨hstep redirects hop next hon hnext, hchain⟩

/-- The hops of a send are a chain from its request. -/
theorem hops_isChain (L : LinkPlatform) (options : RelayOptions) (meets : Nat → HopMeets)
    {R : TransportRequest → TransportRequest → Prop}
    (hstep : ∀ redirects a b, options.redirects = some redirects →
      Follows L redirects.stayOnHost a b → R a b) (first : TransportRequest) :
    ((BridgeTransport.send L options meets first).relayed.map RelayedHop.hop).IsChain R := by
  obtain ⟨rest, hrest, hchain, -⟩ := sendFrom_isChain L options meets hstep maxRedirects [] first
  exact hrest ▸ hchain

end Chain

/-! ## What a message holds -/

section Message

variable {L : LinkPlatform} {options : RelayOptions} {relayed : RelayedHop}

theorem lower_cookieName (hlaw : L.Lawful) :
    L.platform.toLowerCase cookieName = units "cookie" :=
  (hlaw.lower _ (by decide)).trans (by decide)

theorem lower_contentType (hlaw : L.Lawful) :
    L.platform.toLowerCase (units "Content-Type") = units "content-type" :=
  (hlaw.lower _ (by decide)).trans (by decide)

/-- The headers that go on the wire are the request's, and the one that names a form's boundary. -/
theorem mem_wireBody {request : TransportRequest} {header : Text × Text}
    (h : header ∈ (wireBody L request).1) :
    header ∈ request.headers ∨ header.1 = units "Content-Type" := by
  unfold wireBody at h
  split at h
  · exact Or.inl h
  · exact Or.inl h
  · exact Or.inl h
  · split at h
    · exact Or.inl h
    · rw [List.mem_append, List.mem_singleton] at h
      obtain h | rfl := h
      · exact Or.inl (List.mem_of_mem_filter h)
      · exact Or.inr rfl

/-- A hop with no credentials of its own is relayed without any. -/
theorem withoutOwn_of_not_own (hlaw : L.Lawful) (h : ¬ Own L relayed.hop) :
    WithoutOwn L options relayed := by
  have hnone : ∀ header ∈ relayed.hop.headers,
      L.platform.toLowerCase header.1 ∉ otherOriginDropped :=
    fun header hmem hname => h ⟨header, hmem, hname⟩
  have hkept : ∀ header ∈ relayed.hop.headers,
      L.platform.toLowerCase header.1 ≠ units "authorization" ∧
        L.platform.toLowerCase header.1 ≠ units "cookie" := by
    intro header hmem
    simpa [otherOriginDropped] using hnone header hmem
  intro header hmem
  obtain hmem | hname := mem_wireBody hmem
  · unfold RelayedHop.request at hmem
    cases hcookies : relayed.cookies with
    | none =>
        rw [hcookies] at hmem
        exact ⟨(hkept header hmem).1, fun hname => absurd hname (hkept header hmem).2⟩
    | some jar =>
        rw [hcookies] at hmem
        have hown : ∀ header ∈ relayed.hop.headers,
            isNamed L.platform (units "cookie") header = false :=
          fun header hmem => decide_eq_false (hkept header hmem).2
        obtain hmem | rfl := mem_withJarCookies hown hmem
        · exact ⟨(hkept header hmem).1, fun hname => absurd hname (hkept header hmem).2⟩
        · rw [lower_cookieName hlaw]
          exact ⟨by decide, fun _ => ⟨jar, rfl, rfl⟩⟩
  · rw [hname, lower_contentType hlaw]
    exact ⟨by decide, fun hcookie => absurd hcookie (by decide)⟩

/-- The jar adds no header that describes a body. -/
theorem name_of_mem_request {header : Text × Text} (h : header ∈ (relayed.request L).headers) :
    (∃ own ∈ relayed.hop.headers, own.1 = header.1) ∨ header.1 = cookieName := by
  unfold RelayedHop.request at h
  cases hcookies : relayed.cookies with
  | none =>
      rw [hcookies] at h
      exact Or.inl ⟨header, h, rfl⟩
  | some jar =>
      rw [hcookies] at h
      have hname : header.1 ∈
          (withJarCookies L.platform relayed.hop.headers jar).map Prod.fst :=
        List.mem_map_of_mem h
      obtain hnames | hnames := names_withJarCookies L.platform relayed.hop.headers jar
      · rw [hnames] at hname
        exact Or.inl (List.mem_map.mp hname)
      · rw [hnames, List.mem_append, List.mem_singleton] at hname
        exact hname.imp List.mem_map.mp id

/-- A bare hop is relayed as one. -/
theorem bareMessage_of_bare (hlaw : L.Lawful) (h : Bare L relayed.hop) :
    BareMessage L options relayed := by
  obtain ⟨hget, hbody, hnames⟩ := h
  have hsame : (relayed.request L).body = none := by
    unfold RelayedHop.request
    cases relayed.cookies <;> exact hbody
  have hwritten : wireBody L (relayed.request L) = ((relayed.request L).headers, none) := by
    simp only [wireBody, hsame]
  refine ⟨(message_method relayed).trans hget, ?_, fun header hmem => ?_⟩
  · simp only [RelayedHop.message, relayMessage, hwritten]
  · simp only [RelayedHop.message, relayMessage, hwritten] at hmem
    obtain ⟨own, hown, hsame⟩ | hcookie := name_of_mem_request hmem
    · rw [← hsame]
      exact hnames own hown
    · rw [hcookie, lower_cookieName hlaw]
      decide

end Message

/-! ## Every send -/

section Send

variable {L : LinkPlatform} {options : RelayOptions} {meets : Nat → HopMeets}
  {first : TransportRequest} {relayed : List RelayedHop}

/-- The first hop of a send is its request. -/
theorem send_starts :
    (BridgeTransport.send L options meets first).relayed.head?.map RelayedHop.hop =
      some first := by
  obtain ⟨cookies, h⟩ | ⟨_, _, _, _, cookies, -, -, -, -, h⟩ :=
    sendFrom_cases L options meets maxRedirects [] first
  · rw [BridgeTransport.send, h]
    rfl
  · rw [BridgeTransport.send, h]
    rfl

/-- The hop at an index of the relays. -/
theorem hop_getElem? {i : Nat} {a : RelayedHop} (h : relayed[i]? = some a) :
    (relayed.map RelayedHop.hop)[i]? = some a.hop := by
  rw [List.getElem?_map, h]
  rfl

/-- The first of the hops. -/
theorem first_getElem? (hstarts : relayed.head?.map RelayedHop.hop = some first) :
    (relayed.map RelayedHop.hop)[0]? = some first := by
  rwa [List.getElem?_map, ← List.head?_eq_getElem?]

/-- What is sent to another origin than the first, and whatever is sent after it, is without the
request's own credentials. -/
theorem not_own_of_left (hchain : (relayed.map RelayedHop.hop).IsChain (KeepsOwn L))
    (hstarts : relayed.head?.map RelayedHop.hop = some first) {i j : Nat} {a b : RelayedHop}
    (hij : i ≤ j) (ha : relayed[i]? = some a) (hb : relayed[j]? = some b)
    (hleft : L.originOf a.hop.url ≠ L.originOf first.url) : ¬ Own L b.hop := by
  intro hown
  have htrans : ∀ a b c, KeepsOwn L a b → KeepsOwn L b c → KeepsOwn L a c :=
    fun _ _ _ => KeepsOwn.trans
  have hrefl : ∀ a, KeepsOwn L a a := fun a hown => ⟨hown, rfl⟩
  -- The later hop carries credentials, so the one before it does, on the same origin as the first.
  have hearlier := rel_of_isChain_of_le hrefl htrans hchain hij (hop_getElem? ha)
    (hop_getElem? hb) hown
  have hfromFirst := rel_of_isChain_of_le hrefl htrans hchain (Nat.zero_le i)
    (first_getElem? hstarts) (hop_getElem? ha) hearlier.1
  exact hleft hfromFirst.2.symm

/-- From the hop that became a GET on, every hop is bare. -/
theorem bare_of_turned (hchain : (relayed.map RelayedHop.hop).IsChain (KeepsBare L))
    {i j k : Nat} {a b c : RelayedHop} (hij : i < j) (hjk : j ≤ k) (ha : relayed[i]? = some a)
    (hb : relayed[j]? = some b) (hc : relayed[k]? = some c)
    (hnot : a.hop.method ≠ units "GET") (hget : b.hop.method = units "GET") : Bare L c.hop := by
  have htrans : ∀ a b c, KeepsBare L a b → KeepsBare L b c → KeepsBare L a c :=
    fun _ _ _ => KeepsBare.trans
  have hturned := rel_of_isChain htrans hchain hij (hop_getElem? ha) (hop_getElem? hb)
  have hbare := hturned.2.1 hnot hget
  obtain rfl | hlt := hjk.eq_or_lt
  · rw [hb] at hc
    cases hc
    exact hbare
  · exact (rel_of_isChain htrans hchain hlt (hop_getElem? hb) (hop_getElem? hc)).2.2 hbare

/-- A send that follows nothing relays its request, and no more. -/
theorem length_relayed_of_off
    (hoff : ∀ redirects, options.redirects = some redirects → redirects.follow = false) :
    (BridgeTransport.send L options meets first).relayed.length = 1 := by
  obtain ⟨cookies, h⟩ | ⟨_, redirects, _, _, _, -, hon, hfollow, -, -⟩ :=
    sendFrom_cases L options meets maxRedirects [] first
  · rw [BridgeTransport.send, h]
    rfl
  · rw [hoff redirects hon] at hfollow
    cases hfollow

/-- Whatever the relays answer and the jar gives, what a send through the bridge relays is safe. -/
theorem send_safe (hlaw : L.Lawful) :
    SafeRelays L options first (BridgeTransport.send L options meets first).relayed where
  host := by
    rintro ⟨redirects, hon, hstay⟩ hop hmem
    have hstep : ∀ redirects' a b, options.redirects = some redirects' →
        Follows L redirects'.stayOnHost a b → SameHost L a b := by
      intro redirects' a b hon' hfollows
      cases hon.symm.trans hon'
      exact Follows.sameHost hlaw (hstay ▸ hfollows)
    -- Each hop stays on the host of the one before, so all are on the first one's.
    have hchain := hops_isChain L options meets hstep first
    obtain ⟨i, hi⟩ := List.mem_iff_getElem?.mp hmem
    have htrans : ∀ a b c, SameHost L a b → SameHost L b c → SameHost L a c :=
      fun _ _ _ => SameHost.trans
    have hsame : SameHost L first hop.hop :=
      rel_of_isChain_of_le (fun _ => rfl) htrans hchain (Nat.zero_le i)
        (first_getElem? send_starts) (hop_getElem? hi)
    rw [message_url]
    exact hsame.symm
  tls := by
    rintro ⟨redirects, hon, hstay⟩ i a b ha hb
    have hstep : ∀ redirects' a b, options.redirects = some redirects' →
        Follows L redirects'.stayOnHost a b → KeepsTls L a b := by
      intro redirects' a b hon' hfollows
      cases hon.symm.trans hon'
      exact Follows.keepsTls hlaw (hstay ▸ hfollows)
    have hchain := hops_isChain L options meets hstep first
    rw [message_url, message_url]
    exact rel_next_of_isChain hchain (hop_getElem? ha) (hop_getElem? hb)
  credentials := by
    -- A header once left out stays out: the hop that leaves the origin drops it for good.
    intro i j a b hij ha hb hleft
    have hchain := hops_isChain L options meets
      (fun _ _ _ _ hfollows => hfollows.keepsOwn hlaw) first
    rw [message_url] at hleft
    exact withoutOwn_of_not_own hlaw (not_own_of_left hchain send_starts hij ha hb hleft)
  bare := by
    intro i j k a b c hij hjk ha hb hc hnot hget
    have hchain := hops_isChain L options meets
      (fun _ _ _ _ hfollows => hfollows.keepsBare) first
    rw [message_method] at hnot hget
    exact bareMessage_of_bare hlaw (bare_of_turned hchain hij hjk ha hb hc hnot hget)
  starts := send_starts
  limit := by
    obtain ⟨rest, hrest, -, hlength⟩ := sendFrom_isChain L options meets (R := fun _ _ => True)
      (fun _ _ _ _ _ => trivial) maxRedirects [] first
    have hcount := congrArg List.length hrest
    rw [List.length_map, List.length_cons] at hcount
    rw [BridgeTransport.send]
    omega
  off := length_relayed_of_off

end Send

/-! ## A chain over two hosts -/

/-- A platform that reads the addresses of two hosts. -/
def twoHostPlatform : LinkPlatform where
  platform :=
    { oneAddressPlatform with
      parseUrl t :=
        if t = units "https://a.test/" ∨ t = units "https://b.test/" then
          some { head := t, searchParams := [], fragment := none, host := (t.drop 8).take 6,
                 hostname := (t.drop 8).take 6, protocol := units "https:", origin := t.take 14 }
        else none }
  parseAgainst location _ :=
    if location = units "https://a.test/" ∨ location = units "https://b.test/" then
      some ({ head := location, searchParams := [], fragment := none,
              host := (location.drop 8).take 6, hostname := (location.drop 8).take 6,
              protocol := units "https:", origin := location.take 14 }, location)
    else none
  writeForm _ := ([], none)

theorem twoHostPlatform_lawful : twoHostPlatform.Lawful where
  href location base target href h := by
    simp only [twoHostPlatform] at h ⊢
    split_ifs at h with hread
    cases h
    exact ⟨_, if_pos hread, rfl, rfl, rfl⟩
  lower _ _ := rfl

/-- A post of a text with a bearer token, to the first host. -/
def tokenPost : TransportRequest where
  method := units "POST"
  url := units "https://a.test/"
  headers := [(units "Authorization", units "Bearer t"), (units "Content-Type", units "text/plain")]
  body := some (.text (units "payload"))

/-- The first host answers with a redirect to the second, which answers. -/
def crossing (n : Nat) : HopMeets where
  jar := [{ name := units "sid", value := units "1", domain := units "b.test", hostOnly := true,
            path := units "/", secure := true, httpOnly := true, created := 0 }]
  answer := .ok
    { status := if n = 0 then 302 else 200, statusText := [],
      headers := if n = 0 then [(units "location", units "https://b.test/")] else [],
      body := .bytes [], redirected := false, finalUrl := [], route := .bridge, decodedSize := 0 }

/-- The post becomes a GET of the second host: the jar's cookie goes along, and nothing of the
token or the body. -/
theorem tokenPost_crosses_safely :
    SafeRelays twoHostPlatform ⟨0, some ⟨true, false⟩, true, false⟩ tokenPost
      (BridgeTransport.send twoHostPlatform ⟨0, some ⟨true, false⟩, true, false⟩ crossing
        tokenPost).relayed ∧
    ((BridgeTransport.send twoHostPlatform ⟨0, some ⟨true, false⟩, true, false⟩ crossing
      tokenPost).relayed.map fun hop =>
        (hop.message twoHostPlatform ⟨0, some ⟨true, false⟩, true, false⟩).headers) =
      [[(units "Authorization", units "Bearer t"), (units "Content-Type", units "text/plain"),
        (units "Cookie", units "sid=1")], [(units "Cookie", units "sid=1")]] :=
  ⟨send_safe twoHostPlatform_lawful, by decide +kernel⟩

end Wayfarer
