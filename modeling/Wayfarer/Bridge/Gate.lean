import Wayfarer.Bridge.Server

/-!
# The bridge against any caller

`GateHolds` is what the bridge keeps whatever is sent to it, in any order and at any times: it
relays for a request of an allowed origin to a loopback name that carries its token, it gives the
token out once at most and for its code, and no stretch of time as long as a lock has more wrong
codes in it than the limit. `run_gateHolds` says so of every run.

Everything here is read off the log of what the bridge answered. What pairing remembers is tied to
it by `PairingInv`: the wrong codes since the last lock are counted, and those before it are as old
as a lock when the next code is taken.
-/

set_option autoImplicit false

namespace Wayfarer

open Library

/-! ## What is read off the log -/

/-- The answer that was given. -/
def BridgeEntry.answer (entry : BridgeEntry) : Option HttpAnswer :=
  match entry.act with
  | .answers answer => some answer
  | .relays _ => none

/-- A token is given out. -/
def BridgeEntry.givesToken (entry : BridgeEntry) : Bool :=
  entry.answer.any fun answer => (field (fieldsOf answer.body) (units "token")).isSome

/-- A code was compared, and was wrong. -/
def BridgeEntry.isWrongCode (entry : BridgeEntry) : Bool :=
  entry.head.url = units "/pair" && entry.answer.any fun answer => answer.status = 401

/-- When wrong codes were compared. -/
def wrongTimes (log : List BridgeEntry) : List Nat :=
  (log.filter BridgeEntry.isWrongCode).map BridgeEntry.time

/-- Every third of a list. -/
def thirds : List Nat → List Nat
  | _ :: _ :: c :: rest => c :: thirds rest
  | _ => []

/-- Pairing is locked: a third wrong code came less than a lock ago. -/
def LockedAfter (log : List BridgeEntry) (now : Nat) : Prop :=
  ∃ time ∈ thirds (wrongTimes log), now < time + pairingLockMs

/-- The code of the bridge, as far as case, white space and dashes go. -/
def RightCode (P : Platform) (server : BridgeServer) (payload : Option Json) : Prop :=
  ∃ code own, codeOf payload = some code ∧ server.code = some own ∧
    utf8Bytes (normalCode P code) = utf8Bytes (normalCode P own)

/-- A loopback name, in letters of either case, with or without a port. -/
def IsLoopback (host : Text) : Prop :=
  ∃ name port, host = name ++ port ∧ name.map asciiLower ∈ loopbackNames ∧
    (port = [] ∨ ∃ digits, port = 0x3A :: digits ∧ digits ≠ [] ∧ ∀ c ∈ digits, isDecimal c = true)

/-- A request of a page the bridge is for. -/
structure FromPage (server : BridgeServer) (head : RequestHead) : Prop where
  host : ∃ host, head.host = some host ∧ IsLoopback host
  origin : ∃ origin ∈ server.allowedOrigins, head.origin = some origin

/-- What the bridge keeps against any caller. -/
structure GateHolds (P : Platform) (server : BridgeServer) (log : List BridgeEntry) : Prop where
  /-- A request is sent for a page of an allowed origin that has the token. -/
  relays : ∀ entry ∈ log, ∀ outgoing, entry.act = .relays outgoing →
    FromPage server entry.head ∧ entry.head.token = some server.token
  /-- The token is given out once at most. -/
  once : log.countP BridgeEntry.givesToken ≤ 1
  /-- It is given to a page of an allowed origin, for the right code, not spent, with pairing not
  locked. -/
  given : ∀ before entry later, log = before ++ entry :: later → entry.givesToken = true →
    FromPage server entry.head ∧ RightCode P server entry.payload ∧
      (∀ earlier ∈ before, earlier.givesToken = false) ∧ ¬ LockedAfter before entry.time
  /-- A wrong code is compared while pairing is not locked and the code is not spent. -/
  compared : ∀ before entry later, log = before ++ entry :: later → entry.isWrongCode = true →
    (∀ earlier ∈ before, earlier.givesToken = false) ∧ ¬ LockedAfter before entry.time
  /-- However a stretch of time as long as a lock is laid, no more wrong codes than the limit are
  compared in it. -/
  windows : ∀ start, ((wrongTimes log).filter fun time =>
    start ≤ time ∧ time < start + pairingLockMs).length ≤ pairingTries

/-! ## The checks -/

theorem isLoopbackHost_iff {host : Option Text} (h : isLoopbackHost host = true) :
    ∃ text, host = some text ∧ IsLoopback text := by
  rw [isLoopbackHost, List.any_eq_true] at h
  obtain ⟨name, hname, h⟩ := h
  rw [Bool.and_eq_true, List.isPrefixOf_iff_prefix] at h
  obtain ⟨hstart, hport⟩ := h
  cases host with
  | none =>
      have hne : name ≠ [] := by
        rintro rfl
        exact absurd hname (by decide)
      exact absurd (List.prefix_nil.mp hstart) hne
  | some text =>
      refine ⟨text, rfl, text.take name.length, text.drop name.length,
        (List.take_append_drop _ _).symm, ?_, ?_⟩
      · rw [Option.getD_some] at hstart
        rw [List.map_take, ← List.prefix_iff_eq_take.mp hstart]
        exact hname
      · rw [Option.getD_some, isPortPart.eq_def] at hport
        split at hport
        · next hnil => exact .inl hnil
        · next c digits hcons =>
            simp only [Bool.and_eq_true, decide_eq_true_eq, List.all_eq_true] at hport
            obtain ⟨⟨rfl, hne⟩, hall⟩ := hport
            exact .inr ⟨digits, hcons, hne, hall⟩

/-- The token check passes for the token alone. -/
theorem headToken_of_checked {server : BridgeServer} {head : RequestHead}
    (h : timingSafeEqualStrings head.token (some server.token) = true) :
    head.token = some server.token := by
  rw [timingSafeEqualStrings, decide_eq_true_eq, Option.getD_some] at h
  cases htoken : head.token with
  | none =>
      rw [htoken] at h
      have hempty : server.token = [] := eq_of_utf8Bytes_eq (by simp) h.symm
      exact absurd hempty server.token_ne
  | some token =>
      rw [htoken, Option.getD_some] at h
      rw [eq_of_utf8Bytes_eq (head.token_bytes token htoken) h.symm]

/-- The origin that is allowed is the request's own. -/
theorem allowed_eq_some {server : BridgeServer} {head : RequestHead} {origin : Text}
    (h : server.allowed head = some origin) :
    origin ∈ server.allowedOrigins ∧ head.origin = some origin := by
  rw [BridgeServer.allowed, Option.filter_eq_some_iff] at h
  exact ⟨by simpa using h.2, h.1⟩

/-- A request that is read on came through the checks of its place. -/
structure Admitted (server : BridgeServer) (request : OpenRequest) : Prop where
  page : FromPage server request.head
  pair : request.use = .pair → request.head.url = units "/pair"
  relay : request.use = .relay → request.head.token = some server.token

/-- An entry that concerns neither pairing nor a relay. -/
structure Quiet (entry : BridgeEntry) : Prop where
  token : entry.givesToken = false
  code : entry.isWrongCode = false
  relays : ∀ outgoing, entry.act ≠ .relays outgoing

/-- An answer with no token in it is quiet, unless it is the one to a wrong code. -/
theorem quiet_answer {time : Nat} {head : RequestHead} {payload : Option Json} {answer : HttpAnswer}
    (hbody : field (fieldsOf answer.body) (units "token") = none)
    (hstatus : answer.status ≠ 401 ∨ head.url ≠ units "/pair") :
    Quiet { time, head, payload, act := .answers answer } where
  token := by
    rw [BridgeEntry.givesToken, BridgeEntry.answer, Option.any_some, hbody]
    rfl
  code := by
    rw [BridgeEntry.isWrongCode, BridgeEntry.answer, Option.any_some, Bool.and_eq_false_iff,
      decide_eq_false_iff_not, decide_eq_false_iff_not]
    exact hstatus.symm
  relays _ hrelays := by cases hrelays

/-- What went wrong is no token. -/
theorem field_errorBody (message : Text) :
    field (fieldsOf (some (errorBody message))) (units "token") = none := by
  have hname : units "error" ≠ units "token" := by decide
  simp [errorBody, fieldsOf, field, hname]

theorem quiet_error {time status : Nat} {head : RequestHead} {payload : Option Json}
    {message : Text} {before extra : List (Text × Text)}
    (h : status ≠ 401 ∨ head.url ≠ units "/pair") :
    Quiet
      { time, head, payload, act := .answers (sendJson status (errorBody message) before extra) } :=
  quiet_answer (field_errorBody message) h

/-- What is answered at once is quiet, and what is read on came through the checks. -/
theorem handle_spec (server : BridgeServer) (head : RequestHead) :
    (∃ answer, server.handle head = .answered answer ∧
      ∀ time, Quiet { time, head, payload := none, act := .answers answer }) ∨
    ∃ use origin, server.handle head = .reads use origin ∧
      ∀ id, Admitted server { id, head, use, origin } := by
  rw [BridgeServer.handle]
  -- The checks, in the order the bridge makes them: each answers, or the next is made.
  by_cases hhost : isLoopbackHost head.host = false
  · rw [if_pos hhost]
    exact .inl ⟨_, rfl, fun _ => quiet_error (.inl (by decide))⟩
  rw [if_neg hhost]
  have hloopback := isLoopbackHost_iff (by simpa using hhost)
  by_cases hoptions : head.method = units "OPTIONS"
  · rw [if_pos hoptions]
    have hstatus : (204 : Nat) ≠ 401 := by decide
    exact .inl ⟨_, rfl, fun _ => quiet_answer rfl (.inl hstatus)⟩
  rw [if_neg hoptions]
  by_cases hhealth : head.url = units "/health" ∧ head.method = units "GET"
  · rw [if_pos hhealth]
    have hstatus : (200 : Nat) ≠ 401 := by decide
    refine .inl ⟨_, rfl, fun _ => quiet_answer ?_ (.inl hstatus)⟩
    -- The health answer names no token.
    have hnames : units "ok" ≠ units "token" ∧ units "name" ≠ units "token" ∧
        units "version" ≠ units "token" := by decide
    simp [sendJson, fieldsOf, field, hnames]
  rw [if_neg hhealth]
  by_cases hpair : head.url = units "/pair" ∧ head.method = units "POST"
  · rw [if_pos hpair]
    cases hallowed : server.allowed head with
    | none => exact .inl ⟨_, rfl, fun _ => quiet_error (.inl (by decide))⟩
    | some origin =>
        refine .inr ⟨_, _, rfl, fun id => ⟨⟨hloopback, _, allowed_eq_some hallowed⟩, ?_, ?_⟩⟩
        · exact fun _ => hpair.1
        · exact fun h => by cases h
  rw [if_neg hpair]
  by_cases hrelay : head.url ≠ units "/relay" ∨ head.method ≠ units "POST"
  · rw [if_pos hrelay]
    exact .inl ⟨_, rfl, fun _ => quiet_error (.inl (by decide))⟩
  rw [if_neg hrelay]
  cases hallowed : server.allowed head with
  | none => exact .inl ⟨_, rfl, fun _ => quiet_error (.inl (by decide))⟩
  | some origin =>
      dsimp only
      by_cases htoken : timingSafeEqualStrings head.token (some server.token) = true
      · rw [if_pos htoken]
        refine .inr ⟨_, _, rfl, fun id => ⟨⟨hloopback, _, allowed_eq_some hallowed⟩, ?_, ?_⟩⟩
        · exact fun h => by cases h
        · exact fun _ => headToken_of_checked htoken
      · rw [if_neg htoken]
        -- A wrong token at `/relay` is refused with the status of a wrong code, but not at `/pair`.
        have hurl : head.url ≠ units "/pair" := by
          push Not at hrelay
          rw [hrelay.1]
          decide
        exact .inl ⟨_, rfl, fun _ => quiet_error (.inr hurl)⟩

/-! ## What pairing does -/

/-- What pairing remembers after a wrong code. -/
def Pairing.counted (pairing : Pairing) (now : Nat) : Pairing :=
  if pairingTries ≤ pairing.wrong + 1 then
    { pairing with wrong := 0, lockedUntil := now + pairingLockMs }
  else { pairing with wrong := pairing.wrong + 1 }

/-- Each thing that pairing can do with a body. -/
inductive Pairs (P : Platform) (pairing : Pairing) (payload : Option Json) (now : Nat) :
    Pairing → PairAnswer → Prop where
  /-- The body is refused, or there is no code, or pairing is locked. -/
  | refused {said : PairAnswer} (hpaired : said ≠ .paired) (hwrong : said ≠ .wrong) :
      Pairs P pairing payload now pairing said
  | wrong {code remaining : Text} (hcode : codeOf payload = some code)
      (hopen : pairing.lockedUntil ≤ now) (hremaining : pairing.remaining = some remaining) :
      Pairs P pairing payload now (pairing.counted now) .wrong
  | paired {code remaining : Text} (hcode : codeOf payload = some code)
      (hopen : pairing.lockedUntil ≤ now) (hremaining : pairing.remaining = some remaining)
      (hsame : utf8Bytes (normalCode P code) = utf8Bytes remaining) :
      Pairs P pairing payload now { pairing with remaining := none } .paired

theorem pairs_pair (P : Platform) (pairing : Pairing) (payload : Option Json) (now : Nat) :
    Pairs P pairing payload now (pair P pairing payload now).1 (pair P pairing payload now).2 := by
  rw [pair]
  cases hcode : codeOf payload with
  | none => exact .refused nofun nofun
  | some code =>
      dsimp only
      by_cases hlocked : now < pairing.lockedUntil
      · rw [if_pos hlocked]
        exact .refused nofun nofun
      · rw [if_neg hlocked]
        have hopen : pairing.lockedUntil ≤ now := Nat.le_of_not_lt hlocked
        cases hremaining : pairing.remaining with
        | none => exact .refused nofun nofun
        | some remaining =>
            dsimp only
            by_cases hsame :
              timingSafeEqualStrings (some (normalCode P code)) (some remaining) = true
            · rw [if_pos hsame]
              apply Pairs.paired hcode hopen hremaining
              simpa [timingSafeEqualStrings] using hsame
            · rw [if_neg hsame]
              have hwrong := Pairs.wrong (P := P) hcode hopen hremaining
              rw [Pairing.counted, hremaining] at hwrong
              by_cases htries : pairingTries ≤ pairing.wrong + 1
              · rw [if_pos htries] at hwrong ⊢
                exact hwrong
              · rw [if_neg htries] at hwrong ⊢
                exact hwrong

/-! ## One step -/

/-- Each thing that the bridge can note down, and what pairing remembers then. -/
inductive Noted (P : Platform) (server : BridgeServer) (pairing : Pairing) (entry : BridgeEntry) :
    Pairing → Prop where
  | quiet (h : Quiet entry) : Noted P server pairing entry pairing
  | relays {outgoing : OutgoingRequest} (hact : entry.act = .relays outgoing)
      (hpage : FromPage server entry.head) (htoken : entry.head.token = some server.token) :
      Noted P server pairing entry pairing
  | wrong {remaining : Text} {answer : HttpAnswer} (hact : entry.act = .answers answer)
      (hcode : entry.isWrongCode = true) (htoken : entry.givesToken = false)
      (hopen : pairing.lockedUntil ≤ entry.time) (hremaining : pairing.remaining = some remaining) :
      Noted P server pairing entry (pairing.counted entry.time)
  | paired {code remaining : Text} {answer : HttpAnswer} (hact : entry.act = .answers answer)
      (hwrong : entry.isWrongCode = false) (hpage : FromPage server entry.head)
      (hopen : pairing.lockedUntil ≤ entry.time) (hremaining : pairing.remaining = some remaining)
      (hcode : codeOf entry.payload = some code)
      (hsame : utf8Bytes (normalCode P code) = utf8Bytes remaining) :
      Noted P server pairing entry { pairing with remaining := none }

/-- What is noted down when a body has been read. -/
theorem noted_onBody (B : BridgePlatform) {server : BridgeServer} (pairing : Pairing) (now : Nat)
    {request : OpenRequest} (hrequest : Admitted server request) (raw : List Nat) :
    Noted B.platform server pairing
      { time := now, head := request.head, payload := (onBody B server pairing now request raw).2.1,
        act := (onBody B server pairing now request raw).2.2 }
      (onBody B server pairing now request raw).1 := by
  rw [onBody]
  cases huse : request.use with
  | pair =>
      dsimp only
      have hurl := hrequest.pair huse
      generalize hpayload : B.platform.parseJson (textOfBytes raw) = payload
      -- What the pairing makes of the payload decides what is noted: a code is counted only where
      -- it was compared.
      have hpairs := pairs_pair B.platform pairing payload now
      generalize pair B.platform pairing payload now = result at hpairs
      obtain ⟨after, said⟩ := result
      dsimp only at hpairs ⊢
      cases hpairs with
      | refused hpaired hwrong =>
          cases said with
          | malformed => exact .quiet (quiet_error (.inl (by decide)))
          | locked seconds => exact .quiet (quiet_error (.inl (by decide)))
          | spent => exact .quiet (quiet_error (.inl (by decide)))
          | wrong => exact absurd rfl hwrong
          | paired => exact absurd rfl hpaired
      | wrong hcode hopen hremaining =>
          refine .wrong rfl ?_ ?_ hopen hremaining
          · rw [BridgeEntry.isWrongCode, Bool.and_eq_true, decide_eq_true_eq]
            exact ⟨hurl, rfl⟩
          · rw [BridgeEntry.givesToken, BridgeEntry.answer, Option.any_some,
              PairAnswer.http, sendJson, field_errorBody]
            rfl
      | paired hcode hopen hremaining hsame =>
          refine .paired rfl ?_ hrequest.page hopen hremaining hcode hsame
          rw [BridgeEntry.isWrongCode, Bool.and_eq_false_iff]
          exact .inr rfl
  | relay =>
      dsimp only
      -- A relay leaves the pairing alone, and is refused or goes out.
      cases (if raw = [] then some (.object []) else B.platform.parseJson (textOfBytes raw)) with
      | none => exact .quiet (quiet_error (.inl (by decide)))
      | some payload =>
          dsimp only
          rw [relay]
          cases readPayload B.platform payload with
          | error message => exact .quiet (quiet_error (.inl (by decide)))
          | ok asked =>
              dsimp only
              cases B.refuses (outgoingOf B.platform asked) with
              | some message => exact .quiet (quiet_error (.inl (by decide)))
              | none => exact .relays rfl hrequest.page (hrequest.relay huse)

/-- What an event can make of the bridge, where every request that is read came through the
checks. -/
theorem BridgeState.step_cases (B : BridgePlatform) {server : BridgeServer} {s : BridgeState}
    (event : BridgeEvent) (hreading : ∀ request ∈ s.reading, Admitted server request) :
    (s.step B server event).now = s.now + event.wait ∧
      (∀ request ∈ (s.step B server event).reading, Admitted server request) ∧
      ((s.step B server event).log = s.log ∧ (s.step B server event).pairing = s.pairing ∨
        ∃ entry, (s.step B server event).log = s.log ++ [entry] ∧
          entry.time = s.now + event.wait ∧
          Noted B.platform server s.pairing entry (s.step B server event).pairing) := by
  obtain ⟨wait, happening⟩ := event
  cases happening with
  | arrives head =>
      rw [step]
      dsimp only
      -- A request is answered by its head, or its body is read.
      rcases handle_spec server head with ⟨answer, hhandle, hquiet⟩ |
        ⟨use, origin, hhandle, hadmitted⟩
      · rw [hhandle]
        exact ⟨rfl, hreading, .inr ⟨_, rfl, rfl, .quiet (hquiet _)⟩⟩
      · rw [hhandle]
        refine ⟨rfl, ?_, .inl ⟨rfl, rfl⟩⟩
        intro request hrequest
        rcases List.mem_append.mp hrequest with hold | hnew
        · exact hreading request hold
        · obtain rfl := List.mem_singleton.mp hnew
          exact hadmitted _
  | bodyEnds id raw =>
      rw [step]
      dsimp only
      -- A body of a request that is gone is let go.
      cases hfind : s.reading.find? fun request => request.id = id with
      | none => exact ⟨rfl, hreading, .inl ⟨rfl, rfl⟩⟩
      | some request =>
          have hmem := List.mem_of_find?_eq_some hfind
          refine ⟨rfl, fun other hother => hreading other (List.mem_filter.mp hother).1, .inr ?_⟩
          exact ⟨_, rfl, rfl, noted_onBody B s.pairing (s.now + wait) (hreading request hmem) raw⟩
  | bodyFails id failure =>
      rw [step]
      dsimp only
      cases hfind : s.reading.find? fun request => request.id = id with
      | none => exact ⟨rfl, hreading, .inl ⟨rfl, rfl⟩⟩
      | some request =>
          refine ⟨rfl, fun other hother => hreading other (List.mem_filter.mp hother).1, .inr ?_⟩
          refine ⟨_, rfl, rfl, .quiet ?_⟩
          cases failure with
          | tooLarge => exact quiet_error (.inl (by decide))
          | broke message => exact quiet_error (.inl (by decide))

/-! ## What pairing remembers -/

/-- What pairing remembers, tied to the log. -/
structure PairingInv (P : Platform) (server : BridgeServer) (s : BridgeState) : Prop where
  /-- The wrong codes since the last lock are counted. The lock has each one before it in it. -/
  counted : ∃ old recent, wrongTimes s.log = old ++ recent ∧ recent.length = s.pairing.wrong ∧
    3 ∣ old.length ∧ ∀ time ∈ old, time + pairingLockMs ≤ s.pairing.lockedUntil
  few : s.pairing.wrong < 3
  past : ∀ time ∈ wrongTimes s.log, time ≤ s.now
  /-- A wrong code and the third after it are a lock apart. -/
  spaced : ∀ a b c d, [a, b, c, d].Sublist (wrongTimes s.log) → a + pairingLockMs ≤ d
  /-- A code that is still there is the bridge's own, and nothing was given for it. -/
  unspent : ∀ remaining, s.pairing.remaining = some remaining →
    (∃ own, server.code = some own ∧ remaining = normalCode P own) ∧
      ∀ entry ∈ s.log, entry.givesToken = false

/-- No lock is left when the next code is taken. -/
theorem mem_of_mem_thirds {old recent : List Nat} {time : Nat} (hold : 3 ∣ old.length)
    (hrecent : recent.length < 3) (h : time ∈ thirds (old ++ recent)) : time ∈ old := by
  induction old using thirds.induct with
  | case1 a b c rest ih =>
      rw [List.cons_append, List.cons_append, List.cons_append, thirds] at h
      have hrest : 3 ∣ rest.length := by
        simp only [List.length_cons] at hold
        omega
      rcases List.mem_cons.mp h with rfl | h
      · simp
      · have hmem := ih hrest h
        simp [hmem]
  | case2 old hshort =>
      have hnil : old = [] := by
        match old with
        | [] => rfl
        | [_] => simp at hold
        | [_, _] => simp at hold
        | a :: b :: c :: rest => exact absurd rfl (hshort a b c rest)
      have hnone : thirds recent = [] := by
        match recent with
        | [] => rfl
        | [_] => rfl
        | [_, _] => rfl
        | a :: b :: c :: rest =>
            simp only [List.length_cons] at hrecent
            omega
      rw [hnil, List.nil_append, hnone] at h
      cases h

theorem wrongTimes_append (log : List BridgeEntry) (entry : BridgeEntry) :
    wrongTimes (log ++ [entry]) =
      wrongTimes log ++ if entry.isWrongCode then [entry.time] else [] := by
  rw [wrongTimes, wrongTimes, List.filter_append, List.map_append]
  cases hcode : entry.isWrongCode <;> simp [hcode]

/-- An entry of a log with one more in it is that one, or one of the log. -/
theorem split_concat {log before later : List BridgeEntry} {entry last : BridgeEntry}
    (h : log ++ [last] = before ++ entry :: later) :
    (before = log ∧ entry = last) ∨ ∃ later', log = before ++ entry :: later' := by
  rcases List.eq_nil_or_concat later with rfl | ⟨later', tail, rfl⟩
  · obtain ⟨hlog, hlast⟩ := List.append_inj' h rfl
    cases hlast
    exact .inl ⟨hlog.symm, rfl⟩
  · right
    have hsplit : log ++ [last] = (before ++ entry :: later') ++ [tail] := by
      rw [h]
      simp
    exact ⟨later', (List.append_inj' hsplit rfl).1⟩

namespace PairingInv

variable {P : Platform} {server : BridgeServer} {s : BridgeState}

/-- Pairing that takes a code is not locked. -/
theorem not_locked (h : PairingInv P server s) {now : Nat} (hopen : s.pairing.lockedUntil ≤ now) :
    ¬ LockedAfter s.log now := by
  rintro ⟨time, htime, hlocked⟩
  obtain ⟨old, recent, hsplit, hrecent, hold, hpast⟩ := h.counted
  rw [hsplit] at htime
  have hfew : recent.length < 3 := hrecent ▸ h.few
  have := hpast time (mem_of_mem_thirds hold hfew htime)
  omega

/-- A wrong code is a lock apart from the third before it. -/
theorem apart (h : PairingInv P server s) {now : Nat} (hopen : s.pairing.lockedUntil ≤ now)
    {a b c : Nat} (hsub : [a, b, c].Sublist (wrongTimes s.log)) : a + pairingLockMs ≤ now := by
  obtain ⟨old, recent, hsplit, hrecent, -, hpast⟩ := h.counted
  rw [hsplit, List.sublist_append_iff] at hsub
  obtain ⟨first, second, heq, hfirst, hsecond⟩ := hsub
  have hfew := h.few
  have hlength := hsecond.length_le
  cases first with
  | nil =>
      rw [List.nil_append] at heq
      rw [← heq, hrecent] at hlength
      simp only [List.length_cons, List.length_nil] at hlength
      omega
  | cons x first =>
      rw [List.cons_append] at heq
      obtain rfl := (List.cons.inj heq).1
      have := hpast a (hfirst.subset List.mem_cons_self)
      omega

/-- Time alone changes nothing. -/
theorem wait (h : PairingInv P server s) {s' : BridgeState} (hnow : s.now ≤ s'.now)
    (hlog : s'.log = s.log) (hpairing : s'.pairing = s.pairing) : PairingInv P server s' where
  counted := by rw [hlog, hpairing]; exact h.counted
  few := by rw [hpairing]; exact h.few
  past time htime := by
    rw [hlog] at htime
    exact (h.past time htime).trans hnow
  spaced := by rw [hlog]; exact h.spaced
  unspent := by rw [hlog, hpairing]; exact h.unspent

/-- An entry that is no wrong code leaves the count, and the code where no token was given. -/
theorem quiet (h : PairingInv P server s) {s' : BridgeState} {entry : BridgeEntry}
    (hnow : s.now ≤ s'.now) (hlog : s'.log = s.log ++ [entry])
    (hwrong : s'.pairing.wrong = s.pairing.wrong)
    (hlocked : s'.pairing.lockedUntil = s.pairing.lockedUntil)
    (hcode : entry.isWrongCode = false)
    (hremaining : ∀ remaining, s'.pairing.remaining = some remaining →
      s.pairing.remaining = some remaining ∧ entry.givesToken = false) :
    PairingInv P server s' := by
  have htimes : wrongTimes s'.log = wrongTimes s.log := by
    rw [hlog, wrongTimes_append, hcode]
    simp
  refine ⟨?_, ?_, ?_, ?_, ?_⟩
  · rw [htimes, hwrong, hlocked]
    exact h.counted
  · rw [hwrong]
    exact h.few
  · rw [htimes]
    exact fun time htime => (h.past time htime).trans hnow
  · rw [htimes]
    exact h.spaced
  · intro remaining hsome
    obtain ⟨hbefore, htoken⟩ := hremaining remaining hsome
    obtain ⟨hown, hnone⟩ := h.unspent remaining hbefore
    refine ⟨hown, ?_⟩
    rw [hlog]
    intro other hother
    rcases List.mem_append.mp hother with hold | hnew
    · exact hnone other hold
    · obtain rfl := List.mem_singleton.mp hnew
      exact htoken

/-- A wrong code is counted, and the third locks. -/
theorem wrong (h : PairingInv P server s) {s' : BridgeState} {entry : BridgeEntry}
    (hnow : s.now ≤ s'.now) (htime : entry.time = s'.now) (hlog : s'.log = s.log ++ [entry])
    (hpairing : s'.pairing = s.pairing.counted entry.time)
    (hcode : entry.isWrongCode = true) (htoken : entry.givesToken = false)
    (hopen : s.pairing.lockedUntil ≤ entry.time) : PairingInv P server s' := by
  have htimes : wrongTimes s'.log = wrongTimes s.log ++ [entry.time] := by
    rw [hlog, wrongTimes_append, hcode]
    simp
  have hpast : ∀ time ∈ wrongTimes s.log, time ≤ entry.time := by
    intro time hmem
    exact ((h.past time hmem).trans hnow).trans htime.ge
  -- The entry is counted last, and no earlier than the others.
  refine ⟨?_, ?_, ?_, ?_, ?_⟩
  · obtain ⟨old, recent, hsplit, hrecent, hold, hlocked⟩ := h.counted
    rw [htimes, hpairing, Pairing.counted]
    by_cases htries : pairingTries ≤ s.pairing.wrong + 1
    · -- The third in a row: all of them have the lock in front of them.
      rw [if_pos htries]
      refine ⟨wrongTimes s.log ++ [entry.time], [], (List.append_nil _).symm, rfl, ?_, ?_⟩
      · have hfew := h.few
        rw [pairingTries] at htries
        rw [hsplit, List.length_append, List.length_append, hrecent, List.length_singleton]
        omega
      · intro time hmem
        apply Nat.add_le_add_right
        rcases List.mem_append.mp hmem with hbefore | hlast
        · exact hpast time hbefore
        · exact (List.mem_singleton.mp hlast).le
    · -- One or two so far: they stay in the count.
      rw [if_neg htries]
      refine ⟨old, recent ++ [entry.time], ?_, ?_, hold, hlocked⟩
      · rw [hsplit, List.append_assoc]
      · rw [List.length_append, hrecent, List.length_singleton]
  · rw [hpairing, Pairing.counted]
    by_cases htries : pairingTries ≤ s.pairing.wrong + 1
    · rw [if_pos htries]
      exact Nat.zero_lt_succ 2
    · rw [if_neg htries]
      exact Nat.lt_of_not_le htries
  · rw [htimes]
    intro time hmem
    rcases List.mem_append.mp hmem with hbefore | hlast
    · exact (hpast time hbefore).trans htime.le
    · exact (List.mem_singleton.mp hlast).le.trans htime.le
  · rw [htimes]
    intro a b c d hsub
    obtain ⟨first, second, heq, hfirst, hsecond⟩ := List.sublist_append_iff.mp hsub
    rcases List.sublist_singleton.mp hsecond with rfl | rfl
    · rw [List.append_nil] at heq
      exact h.spaced a b c d (heq ▸ hfirst)
    · -- A window of four that ends with this one: the lock stood open, so that the first is past.
      have hsplit : [a, b, c] ++ [d] = first ++ [entry.time] := heq
      obtain ⟨rfl, hlast⟩ := List.append_inj' hsplit rfl
      obtain rfl := List.singleton_injective hlast
      exact h.apart hopen hfirst
  · intro remaining hsome
    have hbefore : s.pairing.remaining = some remaining := by
      rw [hpairing, Pairing.counted] at hsome
      split_ifs at hsome
      · exact hsome
      · exact hsome
    obtain ⟨hown, hnone⟩ := h.unspent remaining hbefore
    refine ⟨hown, ?_⟩
    rw [hlog]
    intro other hother
    rcases List.mem_append.mp hother with hold | hnew
    · exact hnone other hold
    · obtain rfl := List.mem_singleton.mp hnew
      exact htoken

end PairingInv

/-! ## Every run -/

/-- What every step of the bridge keeps. -/
structure GateInv (P : Platform) (server : BridgeServer) (s : BridgeState) : Prop where
  reading : ∀ request ∈ s.reading, Admitted server request
  pairing : PairingInv P server s
  gate : GateHolds P server s.log

theorem gateInv_start (P : Platform) (server : BridgeServer) :
    GateInv P server (server.start P) where
  reading _ h := by cases h
  pairing :=
    { counted := ⟨[], [], rfl, rfl, ⟨0, rfl⟩, by simp⟩
      few := Nat.zero_lt_succ 2
      past := by simp [BridgeServer.start, wrongTimes]
      spaced := by simp [BridgeServer.start, wrongTimes]
      unspent := by
        intro remaining hsome
        obtain ⟨own, hown, rfl⟩ := Option.map_eq_some_iff.mp hsome
        exact ⟨⟨own, hown, rfl⟩, by simp [BridgeServer.start]⟩ }
  gate :=
    { relays := by simp [BridgeServer.start]
      once := Nat.zero_le 1
      given := by simp [BridgeServer.start]
      compared := by simp [BridgeServer.start]
      windows := by simp [BridgeServer.start, wrongTimes] }

/-- Wrong codes a lock apart, each from the third after it, are three in a lock at most. -/
theorem windows_of_spaced {times : List Nat}
    (h : ∀ a b c d, [a, b, c, d].Sublist times → a + pairingLockMs ≤ d) (start : Nat) :
    (times.filter fun time => start ≤ time ∧ time < start + pairingLockMs).length ≤
      pairingTries := by
  by_contra hmany
  rw [pairingTries, Nat.not_le] at hmany
  have hsub := List.filter_sublist (l := times)
    (p := fun time => decide (start ≤ time ∧ time < start + pairingLockMs))
  generalize hinside : times.filter _ = inside at hmany hsub
  match inside with
  | [] => simp at hmany
  | [_] => simp at hmany
  | [_, _] => simp at hmany
  | [_, _, _] => simp at hmany
  | a :: b :: c :: d :: rest =>
      have hall : ∀ time ∈ a :: b :: c :: d :: rest,
          start ≤ time ∧ time < start + pairingLockMs := by
        rw [← hinside]
        intro time htime
        simpa using (List.mem_filter.mp htime).2
      have hfour : [a, b, c, d].Sublist (a :: b :: c :: d :: rest) :=
        List.sublist_append_left [a, b, c, d] rest
      have hspaced := h a b c d (hfour.trans hsub)
      have ha := (hall a (by simp)).1
      have hd := (hall d (by simp)).2
      omega

/-- The gate holds with one more entry that passed it. -/
theorem GateHolds.append {P : Platform} {server : BridgeServer} {log : List BridgeEntry}
    {entry : BridgeEntry} (h : GateHolds P server log)
    (hrelays : ∀ outgoing, entry.act = .relays outgoing →
      FromPage server entry.head ∧ entry.head.token = some server.token)
    (hgives : entry.givesToken = true → FromPage server entry.head ∧
      RightCode P server entry.payload ∧ ¬ LockedAfter log entry.time)
    (hwrong : entry.isWrongCode = true → ¬ LockedAfter log entry.time)
    (hnone : entry.givesToken = true ∨ entry.isWrongCode = true →
      ∀ earlier ∈ log, earlier.givesToken = false)
    (hspaced : ∀ a b c d, [a, b, c, d].Sublist (wrongTimes (log ++ [entry])) →
      a + pairingLockMs ≤ d) : GateHolds P server (log ++ [entry]) where
  relays other hother := by
    rcases List.mem_append.mp hother with hold | hnew
    · exact h.relays other hold
    · obtain rfl := List.mem_singleton.mp hnew
      exact hrelays
  once := by
    rw [List.countP_append]
    cases hgiven : entry.givesToken with
    | false =>
        have hzero : [entry].countP BridgeEntry.givesToken = 0 := by simp [hgiven]
        rw [hzero]
        exact h.once
    | true =>
        -- The token is given once: no earlier entry gave it.
        have hzero : log.countP BridgeEntry.givesToken = 0 := by
          rw [List.countP_eq_zero]
          intro other hother
          simp [hnone (.inl hgiven) other hother]
        rw [hzero, Nat.zero_add]
        exact List.countP_le_length
  given before other later hlog hgiven := by
    rcases split_concat hlog with ⟨rfl, rfl⟩ | ⟨later', hlog'⟩
    · obtain ⟨hpage, hright, hopen⟩ := hgives hgiven
      exact ⟨hpage, hright, hnone (.inl hgiven), hopen⟩
    · exact h.given before other later' hlog' hgiven
  compared before other later hlog hcode := by
    rcases split_concat hlog with ⟨rfl, rfl⟩ | ⟨later', hlog'⟩
    · exact ⟨hnone (.inr hcode), hwrong hcode⟩
    · exact h.compared before other later' hlog' hcode
  windows := windows_of_spaced hspaced

/-- Every step of the bridge keeps the gate. -/
theorem GateInv.step {B : BridgePlatform} {server : BridgeServer} {s : BridgeState}
    (h : GateInv B.platform server s) (event : BridgeEvent) :
    GateInv B.platform server (s.step B server event) := by
  obtain ⟨hnow, hreading, hcases⟩ := BridgeState.step_cases B event h.reading
  have hlater : s.now ≤ (s.step B server event).now := by
    rw [hnow]
    exact Nat.le_add_right _ _
  rcases hcases with ⟨hlog, hpairing⟩ | ⟨entry, hlog, htime, hnoted⟩
  · refine ⟨hreading, h.pairing.wait hlater hlog hpairing, ?_⟩
    rw [hlog]
    exact h.gate
  -- An entry is added: what it may be is one of four, by what was noted.
  rw [← hnow] at htime
  generalize (s.step B server event) = s' at hnow hreading hlater hlog htime hnoted
  obtain ⟨now, pairing, reading, next, log⟩ := s'
  dsimp only at hlog htime hnoted
  subst hlog
  cases hnoted with
  | quiet hquiet =>
      have hkept : PairingInv B.platform server ⟨now, s.pairing, reading, next, s.log ++ [entry]⟩ :=
        h.pairing.quiet hlater rfl rfl rfl hquiet.code fun _ hsome => ⟨hsome, hquiet.token⟩
      refine ⟨hreading, hkept, h.gate.append ?_ ?_ ?_ ?_ hkept.spaced⟩
      · exact fun outgoing hact => absurd hact (hquiet.relays outgoing)
      · simp [hquiet.token]
      · simp [hquiet.code]
      · simp [hquiet.token, hquiet.code]
  | relays hact hpage htoken =>
      have hanswer : entry.answer = none := by rw [BridgeEntry.answer, hact]
      have hgives : entry.givesToken = false := by rw [BridgeEntry.givesToken, hanswer]; rfl
      have hcode : entry.isWrongCode = false := by simp [BridgeEntry.isWrongCode, hanswer]
      have hkept : PairingInv B.platform server ⟨now, s.pairing, reading, next, s.log ++ [entry]⟩ :=
        h.pairing.quiet hlater rfl rfl rfl hcode fun _ hsome => ⟨hsome, hgives⟩
      refine ⟨hreading, hkept, h.gate.append ?_ ?_ ?_ ?_ hkept.spaced⟩
      · exact fun _ _ => ⟨hpage, htoken⟩
      · simp [hgives]
      · simp [hcode]
      · simp [hgives, hcode]
  | wrong hact hcode htoken hopen hremaining =>
      have hkept : PairingInv B.platform server
          ⟨now, s.pairing.counted entry.time, reading, next, s.log ++ [entry]⟩ :=
        h.pairing.wrong hlater htime rfl rfl hcode htoken hopen
      refine ⟨hreading, hkept, h.gate.append ?_ ?_ ?_ ?_ hkept.spaced⟩
      · intro outgoing hrelays
        rw [hact] at hrelays
        cases hrelays
      · simp [htoken]
      · exact fun _ => h.pairing.not_locked hopen
      · exact fun _ => (h.pairing.unspent _ hremaining).2
  | paired hact hcode hpage hopen hremaining hown hsame =>
      have hkept : PairingInv B.platform server
          ⟨now, { s.pairing with remaining := none }, reading, next, s.log ++ [entry]⟩ :=
        h.pairing.quiet hlater rfl rfl rfl hcode fun _ hsome => by cases hsome
      -- The pairing had not given its token yet, and never does again.
      obtain ⟨⟨own, hserver, rfl⟩, hnone⟩ := h.pairing.unspent _ hremaining
      refine ⟨hreading, hkept, h.gate.append ?_ ?_ ?_ ?_ hkept.spaced⟩
      · intro outgoing hrelays
        rw [hact] at hrelays
        cases hrelays
      · exact fun _ => ⟨hpage, ⟨_, own, hown, hserver, hsame⟩, h.pairing.not_locked hopen⟩
      · simp [hcode]
      · exact fun _ => hnone

/-- Whatever is sent to the bridge, in any order and at any times: it relays for a page of
an allowed origin with its token alone, it gives the token out once at most, for its code
and not while pairing is locked, and no lock's length of time has more wrong codes compared
in it than the limit. -/
theorem run_gateHolds (B : BridgePlatform) (server : BridgeServer) (events : List BridgeEvent) :
    GateHolds B.platform server (BridgeState.after B server events).log := by
  have hinv : GateInv B.platform server (BridgeState.after B server events) := by
    rw [BridgeState.after]
    have hstart := gateInv_start B.platform server
    generalize server.start B.platform = s at hstart
    induction events generalizing s with
    | nil => exact hstart
    | cons event events ih => exact ih _ (hstart.step event)
  exact hinv.gate

end Wayfarer
