import Mathlib.Data.Rat.Floor
import Wayfarer.Bridge.Protocol
import Wayfarer.Transport.Fetch

/-!
# The timeout that is set

The setting is a whole number of milliseconds, with 0 for no timeout. It goes to a timer of the
page, and through the Local Bridge also to the bridge, which checks it and sets a timer of its own.
A host takes a timer's delay as a signed number of 32 bits.

`timeout_kept_iff` says which settings both keep: those from 1 ms to the ten minutes that the bridge
admits. With none the bridge ends a relay after half a minute, a longer one it refuses, and from
2^31 ms on the page's own timer runs out at once.
-/

set_option autoImplicit false

namespace Wayfarer

open Library

/-! ## The setting -/

/-- A number of the language. -/
inductive JsNumber where
  | nan
  | infinite (negative : Bool)
  | finite (value : ℚ)

/-- `Math.floor` of a number that is finite and over 0, and 0 for any other. -/
def wholeOrNone : JsNumber → Nat
  | .finite value => if 0 < value then ⌊value⌋₊ else 0
  | _ => 0

/-- How the language turns texts into numbers and whole numbers into texts. -/
structure NumberTexts where
  /-- `Number`; of `null` too. -/
  number : Option Text → JsNumber
  /-- `String`. -/
  string : Nat → Text

/-- The timeout in force, and what `localStorage` has under its key. -/
structure TimeoutSetting where
  timeoutMs : Nat
  stored : Option Text

/-- `setTimeoutMs`. -/
def setTimeoutMs (T : NumberTexts) (value : JsNumber) : TimeoutSetting :=
  let next := wholeOrNone value
  { timeoutMs := next
    stored := if next = 0 then none else some (T.string next) }

/-- `number(TIMEOUT_KEY, 0)`: the setting as a page reads it when it starts. -/
def readTimeoutMs (T : NumberTexts) (stored : Option Text) : TimeoutSetting :=
  { timeoutMs := wholeOrNone (T.number stored), stored }

/-- Where the timeout in force comes from. -/
inductive TimeoutFrom where
  | set (value : JsNumber)
  | storage (stored : Option Text)

/-- The number it is made from. -/
def TimeoutFrom.number (T : NumberTexts) : TimeoutFrom → JsNumber
  | .set value => value
  | .storage stored => T.number stored

/-- The setting in force. -/
def TimeoutFrom.setting (T : NumberTexts) : TimeoutFrom → TimeoutSetting
  | .set value => setTimeoutMs T value
  | .storage stored => readTimeoutMs T stored

theorem TimeoutFrom.timeoutMs_eq (T : NumberTexts) (source : TimeoutFrom) :
    (source.setting T).timeoutMs = wholeOrNone (source.number T) := by
  cases source with
  | set value => rfl
  | storage stored => rfl

/-- A page that starts again has the timeout that was set, where the language reads back the text it
wrote for it. -/
theorem readTimeoutMs_setTimeoutMs (T : NumberTexts) (value : JsNumber)
    (hnull : wholeOrNone (T.number none) = 0)
    (hback : T.number (some (T.string (wholeOrNone value))) = .finite (wholeOrNone value : ℚ)) :
    (readTimeoutMs T (setTimeoutMs T value).stored).timeoutMs =
      (setTimeoutMs T value).timeoutMs := by
  rw [readTimeoutMs, setTimeoutMs]
  by_cases hnone : wholeOrNone value = 0
  · simp [hnone, hnull]
  · have hpos : (0 : ℚ) < (wholeOrNone value : ℚ) := by
      exact_mod_cast Nat.pos_of_ne_zero hnone
    simp only [if_neg hnone, hback]
    rw [wholeOrNone, if_pos hpos, Nat.floor_natCast]

/-- Which numbers give a timeout that is in a range. -/
theorem wholeOrNone_mem_iff (number : JsNumber) (most : Nat) :
    (1 ≤ wholeOrNone number ∧ wholeOrNone number ≤ most) ↔
      ∃ value, number = .finite value ∧ 1 ≤ value ∧ value < most + 1 := by
  cases number with
  | nan => simp [wholeOrNone]
  | infinite negative => simp [wholeOrNone]
  | finite value =>
      rw [wholeOrNone]
      by_cases hpos : 0 < value
      · have hmost : ⌊value⌋₊ ≤ most ↔ value < most + 1 := by
          rw [← Nat.lt_succ_iff, Nat.floor_lt hpos.le]
          push_cast
          rfl
        rw [if_pos hpos, Nat.one_le_floor_iff, hmost]
        simp
      · rw [if_neg hpos]
        constructor
        · rintro ⟨hone, -⟩
          exact absurd hone (by decide)
        · rintro ⟨other, heq, hone, -⟩
          cases heq
          exact absurd (lt_of_lt_of_le one_pos hone) hpos

/-! ## Timers -/

/-- The longest delay of a timer: a signed number of 32 bits. -/
def maxDelayMs : Nat := 2147483647

/-- The timers of a host: after how many milliseconds one runs out that is set with a delay. -/
structure HostTimer where
  waits : Nat → Nat
  /-- A delay that fits is waited for. -/
  fits : ∀ ms, ms ≤ maxDelayMs → waits ms = ms
  /-- One that does not runs out before its time. -/
  past : ∀ ms, maxDelayMs < ms → waits ms < ms

namespace HostTimer

variable (timer : HostTimer)

/-- Whether a timer has run out so long after it was set. -/
def ranOut (delay t : Nat) : Bool :=
  decide (timer.waits delay ≤ t)

/-- A timer is on time when its delay fits. -/
theorem ranOut_onTime_iff (ms : Nat) :
    (∀ t, timer.ranOut ms t = true → ms ≤ t) ↔ ms ≤ maxDelayMs := by
  constructor
  · intro h
    by_contra hlong
    have hearly := timer.past ms (Nat.lt_of_not_le hlong)
    exact absurd (h _ (decide_eq_true le_rfl)) (Nat.not_le.mpr hearly)
  · intro hfits t hout
    rw [← timer.fits ms hfits]
    exact of_decide_eq_true hout

end HostTimer

/-! ## Who gives a send up -/

/-- The page gives a send up for its timeout: what is sent has failed so long after it began, and
the failure is named a timeout. Both routes run under this deadline. -/
def PageGivesUp (timer : HostTimer) (timeoutMs t : Nat) : Prop :=
  ∃ (P : Platform) (onEvent cancelled arrived : Bool) (cause : Thrown) (error : TransportError),
    withDeadline P { timeoutMs, onEvent } { timedOut := timer.ranOut timeoutMs t, cancelled }
      arrived (.error (.thrown cause) : Except RunFailure Unit) = .error error ∧
      error.kind = .timeout

/-- The bridge gives up what it was asked for: its own timer has run out. -/
def BridgeGivesUp (timer : HostTimer) (relay : RelayRequest) (t : Nat) : Prop :=
  timer.ranOut relay.timeoutMs t = true

/-- The text of the refusal of a timeout. -/
def timeoutRefused : Text := units "timeoutMs must be a whole number from 1 to 600000"

/-- The timeout that is set is kept: the page gives a send up only after it, and the bridge neither
refuses a relay for it nor gives the relay up before. 0 is never. -/
structure TimeoutKept (page bridge : HostTimer) (timeoutMs : Nat) : Prop where
  page : ∀ t, PageGivesUp page timeoutMs t → timeoutMs ≠ 0 ∧ timeoutMs ≤ t
  notRefused : ∀ (L : LinkPlatform) (options : RelayOptions) (request : TransportRequest),
    options.timeoutMs = timeoutMs →
      readPayload L.platform (relayPayload (relayMessage L options request)) ≠ .error timeoutRefused
  bridge : ∀ (L : LinkPlatform) (options : RelayOptions) (request : TransportRequest)
    (relay : RelayRequest), options.timeoutMs = timeoutMs →
      readPayload L.platform (relayPayload (relayMessage L options request)) = .ok relay →
        ∀ t, BridgeGivesUp bridge relay t → timeoutMs ≠ 0 ∧ timeoutMs ≤ t

/-! ## The page -/

theorem pageGivesUp_iff (timer : HostTimer) (timeoutMs t : Nat) :
    PageGivesUp timer timeoutMs t ↔ 0 < timeoutMs ∧ timer.ranOut timeoutMs t = true := by
  constructor
  · rintro ⟨P, onEvent, cancelled, arrived, cause, error, hrun, hkind⟩
    rw [withDeadline] at hrun
    split_ifs at hrun with hout hcancelled
    · exact ⟨hout.1, hout.2.1⟩
    · obtain rfl := Except.error.inj hrun
      cases hkind
    · obtain rfl := Except.error.inj hrun
      cases hkind
  · rintro ⟨hpos, hout⟩
    refine ⟨twoHostPlatform.platform, false, false, false, .other [],
      { kind := .timeout
        message := units "No response within " ++
          formatDuration twoHostPlatform.platform timeoutMs ++ units ", the request timeout." },
      ?_, rfl⟩
    rw [withDeadline, if_pos ⟨hpos, hout, rfl⟩]

/-- The page is on time when its timer can hold the timeout. -/
theorem page_onTime_iff (timer : HostTimer) (timeoutMs : Nat) :
    (∀ t, PageGivesUp timer timeoutMs t → timeoutMs ≠ 0 ∧ timeoutMs ≤ t) ↔
      timeoutMs ≤ maxDelayMs := by
  rw [← timer.ranOut_onTime_iff timeoutMs]
  constructor
  · intro h t hout
    rcases Nat.eq_zero_or_pos timeoutMs with rfl | hpos
    · exact Nat.zero_le t
    · exact (h t ((pageGivesUp_iff timer timeoutMs t).mpr ⟨hpos, hout⟩)).2
  · intro h t hgives
    obtain ⟨hpos, hout⟩ := (pageGivesUp_iff timer timeoutMs t).mp hgives
    exact ⟨hpos.ne', h t hout⟩

/-! ## The bridge -/

/-- The time a relay has is the one that was read for it. -/
theorem readTimeout_of_ok {P : Platform} {members : Fields} {relay : RelayRequest}
    (h : readPayload P (.object members) = .ok relay) :
    readTimeout (field members (units "timeoutMs")) = .ok relay.timeoutMs := by
  rw [readPayload] at h
  split at h
  · cases h
  · obtain ⟨insecure, -, h⟩ := bind_eq_ok.mp h
    obtain ⟨method, -, h⟩ := bind_eq_ok.mp h
    obtain ⟨headers, -, h⟩ := bind_eq_ok.mp h
    obtain ⟨body, -, h⟩ := bind_eq_ok.mp h
    obtain ⟨timeoutMs, htimeout, h⟩ := bind_eq_ok.mp h
    split_ifs at h
    · obtain ⟨_, hnone, -⟩ := bind_eq_ok.mp h
      cases hnone
    · obtain ⟨target, -, h⟩ := bind_eq_ok.mp h
      cases h
      exact htimeout

theorem readTls_ne (value : Option Json) : readTls value ≠ .error timeoutRefused := by
  intro h
  rw [readTls.eq_def] at h
  split at h
  · cases h
  · split_ifs at h
    exact absurd (Except.error.inj h) (by decide)
  · exact absurd (Except.error.inj h) (by decide)

theorem readMethod_ne (value : Option Json) : readMethod value ≠ .error timeoutRefused := by
  intro h
  rw [readMethod.eq_def] at h
  split at h
  · split_ifs at h
    exact absurd (Except.error.inj h) (by decide)
  · exact absurd (Except.error.inj h) (by decide)

theorem readHeaders_ne (value : Option Json) : readHeaders value ≠ .error timeoutRefused := by
  intro h
  rw [readHeaders] at h
  split at h
  · cases h
  · exact absurd (Except.error.inj h) (by decide)

theorem readBodyB64_ne (value : Option Json) : readBodyB64 value ≠ .error timeoutRefused := by
  intro h
  rw [readBodyB64.eq_def] at h
  split at h
  · cases h
  · split_ifs at h
    exact absurd (Except.error.inj h) (by decide)
  · exact absurd (Except.error.inj h) (by decide)

theorem readTarget_ne (P : Platform) (value : Option Json) :
    readTarget P value ≠ .error timeoutRefused := by
  intro h
  rw [readTarget.eq_def] at h
  dsimp only at h
  split at h
  · exact absurd (Except.error.inj h) (by decide)
  · split_ifs at h
    -- The two texts begin with different letters.
    have hfirst : some (0x75 : CodeUnit) = some 0x74 :=
      congrArg List.head? (Except.error.inj h)
    exact absurd hfirst (by decide)

/-- A relay that is refused for its timeout has one that is refused. -/
theorem readTimeout_of_error {P : Platform} {members : Fields}
    (h : readPayload P (.object members) = .error timeoutRefused) :
    readTimeout (field members (units "timeoutMs")) = .error timeoutRefused := by
  rw [readPayload] at h
  split at h
  · rename_i member _
    cases h
  · rcases bind_eq_error.mp h with htls | ⟨insecure, -, h⟩
    · exact absurd htls (readTls_ne _)
    rcases bind_eq_error.mp h with hmethod | ⟨method, -, h⟩
    · exact absurd hmethod (readMethod_ne _)
    rcases bind_eq_error.mp h with hheaders | ⟨headers, -, h⟩
    · exact absurd hheaders (readHeaders_ne _)
    rcases bind_eq_error.mp h with hbody | ⟨body, -, h⟩
    · exact absurd hbody (readBodyB64_ne _)
    rcases bind_eq_error.mp h with htimeout | ⟨timeoutMs, -, h⟩
    · exact htimeout
    split_ifs at h
    · rcases bind_eq_error.mp h with hhost | ⟨_, hnone, -⟩
      · exact absurd (Except.error.inj hhost) (by decide)
      · cases hnone
    · rcases bind_eq_error.mp h with htarget | ⟨target, -, h⟩
      · exact absurd htarget (readTarget_ne P _)
      · cases h

/-- What becomes of a timeout at the bridge: its own for none, and none that is too long. -/
def bridgeTimeout (timeoutMs : Nat) : Except Text Nat :=
  if timeoutMs = 0 then .ok relayTimeoutMs
  else if timeoutMs ≤ maxTimeoutMs then .ok timeoutMs
  else .error timeoutRefused

/-- What the bridge reads as the timeout that the page asks for. -/
theorem readTimeout_asked (L : LinkPlatform) (options : RelayOptions)
    (request : TransportRequest) :
    readTimeout ((relayMessage L options request).timeoutMs.map fun ms => .number (.ofNat ms)) =
      bridgeTimeout options.timeoutMs := by
  rw [relayMessage, bridgeTimeout]
  rcases Nat.eq_zero_or_pos options.timeoutMs with hzero | hpos
  · simp [hzero, readTimeout]
  · simp only [if_pos hpos, Option.map_some, readTimeout, JsonNumber.whole_ofNat, hpos.ne',
      if_false, Nat.one_le_iff_ne_zero, ne_eq, not_false_eq_true, true_and]
    rfl

/-- What it reads as the timeout of a relay that the page posts. -/
theorem readTimeout_posted (L : LinkPlatform) (options : RelayOptions)
    (request : TransportRequest) : ∃ members,
      relayPayload (relayMessage L options request) = .object members ∧
        readTimeout (field members (units "timeoutMs")) = bridgeTimeout options.timeoutMs := by
  obtain ⟨members, hpayload, -, -, -, -, -, htimeout, -⟩ :=
    relayPayload_members (relayMessage L options request)
  exact ⟨members, hpayload, htimeout ▸ readTimeout_asked L options request⟩

/-- A post to one host, with nothing in it. -/
def emptyPost : TransportRequest where
  method := units "POST"
  url := units "https://a.test/"
  headers := []

/-- The bridge refuses it for nothing but its timeout. -/
theorem readPayload_emptyPost (options : RelayOptions) : ∃ relayOf : Nat → RelayRequest,
    (∀ ms, (relayOf ms).timeoutMs = ms) ∧
      readPayload twoHostPlatform.platform
          (relayPayload (relayMessage twoHostPlatform options emptyPost)) =
        (bridgeTimeout options.timeoutMs).map relayOf := by
  have hmethod : isHttpMethod emptyPost.method = true := by decide
  have hurl : ∃ target, twoHostPlatform.platform.parseUrl emptyPost.url = some target ∧
      target.protocol = units "https:" := ⟨_, rfl, rfl⟩
  obtain ⟨target, hurl, hprotocol⟩ := hurl
  have hread := readPayload_eq_map (m := relayMessage twoHostPlatform options emptyPost)
    twoHostPlatform_asciiCase hmethod hurl (.inr hprotocol) (fun bytes hbytes => by cases hbytes)
    (Nat.zero_le 1)
  rw [readTimeout_asked] at hread
  exact ⟨_, fun ms => rfl, hread⟩

/-- The timeouts that a page and a bridge keep, by the setting. -/
theorem timeoutKept_iff (page bridge : HostTimer) (timeoutMs : Nat) :
    TimeoutKept page bridge timeoutMs ↔ 1 ≤ timeoutMs ∧ timeoutMs ≤ maxTimeoutMs := by
  constructor
  · intro h
    let options : RelayOptions := { plainRelay with timeoutMs }
    obtain ⟨relayOf, htime, hread⟩ := readPayload_emptyPost options
    by_contra hout
    rcases Nat.eq_zero_or_pos timeoutMs with hzero | hpos
    · -- None is set: the bridge has one of its own.
      rw [bridgeTimeout, if_pos hzero] at hread
      have hgives :
          BridgeGivesUp bridge (relayOf relayTimeoutMs) (bridge.waits relayTimeoutMs) := by
        rw [BridgeGivesUp, htime]
        exact decide_eq_true le_rfl
      exact (h.bridge _ options _ _ rfl hread _ hgives).1 hzero
    · -- One is set that the bridge refuses.
      have hlong : ¬ timeoutMs ≤ maxTimeoutMs := fun hmost => hout ⟨hpos, hmost⟩
      rw [bridgeTimeout, if_neg hpos.ne', if_neg hlong] at hread
      exact h.notRefused _ options _ rfl hread
  · rintro ⟨hpos, hmost⟩
    have hfits : timeoutMs ≤ maxDelayMs := hmost.trans (by decide)
    refine ⟨(page_onTime_iff page timeoutMs).mpr hfits, ?_, ?_⟩
    · intro L options request htimeout hrefused
      obtain ⟨members, hpayload, hread⟩ := readTimeout_posted L options request
      rw [hpayload] at hrefused
      rw [readTimeout_of_error hrefused, htimeout, bridgeTimeout,
        if_neg (Nat.pos_iff_ne_zero.mp hpos), if_pos hmost] at hread
      cases hread
    · intro L options request relay htimeout hrelay t hgives
      obtain ⟨members, hpayload, hread⟩ := readTimeout_posted L options request
      rw [hpayload] at hrelay
      rw [readTimeout_of_ok hrelay, htimeout, bridgeTimeout, if_neg (Nat.pos_iff_ne_zero.mp hpos),
        if_pos hmost] at hread
      rw [BridgeGivesUp, Except.ok.inj hread] at hgives
      exact ⟨Nat.pos_iff_ne_zero.mp hpos, (bridge.ranOut_onTime_iff timeoutMs).mpr hfits t hgives⟩

/-- A host whose timers run out after a millisecond when their delay does not fit. -/
def plainTimer : HostTimer where
  waits ms := if ms ≤ maxDelayMs then ms else 1
  fits _ hfits := if_pos hfits
  past ms hpast := by
    rw [if_neg (Nat.not_le.mpr hpast)]
    exact lt_trans (by decide) hpast

/-- No texts are numbers. -/
def noTexts : NumberTexts where
  number _ := .finite 0
  string _ := []

end Wayfarer
