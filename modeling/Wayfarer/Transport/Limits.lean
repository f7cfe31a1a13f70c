import Wayfarer.Send.Build

/-!
# What a browser does to a request

`browserLimits` works out, before a request is sent, what the browser of a page will do
to it: the headers it drops, whether it asks the server first, whether the target is mixed
content, what it adds. `afterDirectSend` reads of it what the route Auto does when the
page got no response.

The list of reasons for a preflight is empty for a target of the page's own origin
(`preflight_sameOrigin`) and through the bridge, so a reason names a cross-origin target
(`crossOrigin_of_preflight`).
-/

set_option autoImplicit false

namespace Wayfarer

open Library

/-- The request as it would be sent: what `browserLimits` reads of it. -/
structure LimitsRequest where
  method : Text
  url : Text
  /-- In order, as the user wrote the names. -/
  headers : List (Text × Text)

/-- A way a request takes. -/
inductive Hop where
  | direct
  | bridge
  deriving DecidableEq

/-- What is said of an `http:` target of an `https:` page. -/
inductive MixedContent where
  | blocked
  | loopback

/-- What a browser does to a request a page sends. -/
structure BrowserLimits where
  route : Hop
  /-- Headers that are not sent as written. -/
  dropped : List Text
  /-- The target is not the page's own origin. -/
  crossOrigin : Bool
  /-- Why the browser asks the server first; empty when it does not. -/
  preflight : List Text
  mixedContent : Option MixedContent
  /-- Headers the browser adds on its own. -/
  adds : List Text
  /-- What the browser is told not to send. -/
  suppresses : List Text

/-! ## Headers a page cannot set -/

/-- The forbidden names of request headers. -/
def forbidden : List Text :=
  ["accept-charset", "accept-encoding", "access-control-request-headers",
    "access-control-request-method", "connection", "content-length", "cookie", "cookie2", "date",
    "dnt", "expect", "host", "keep-alive", "origin", "referer", "set-cookie", "te", "trailer",
    "transfer-encoding", "upgrade", "via"].map units

/-- Headers that name another method than the request's own. -/
def methodOverrides : List Text :=
  ["x-http-method", "x-http-method-override", "x-method-override"].map units

/-- The methods no page may send. -/
def forbiddenMethods : List Text :=
  ["connect", "trace", "track"].map units

/-- Whether one of the words stands in a text on its own. `inWord`: the text goes on a word. -/
def holdsWord (words : List Text) (inWord : Bool) : Text → Bool
  | [] => false
  | c :: rest =>
      (!inWord && words.any fun word =>
        word.isPrefixOf (c :: rest) && !((c :: rest).drop word.length).head?.any isWordUnit) ||
      holdsWord words (isWordUnit c) rest

/-- Whether a browser keeps a page from setting a header. -/
def isForbidden (P : Platform) (name value : Text) : Bool :=
  let lower := P.toLowerCase name
  forbidden.contains lower || (units "proxy-").isPrefixOf lower ||
    (units "sec-").isPrefixOf lower ||
    (methodOverrides.contains lower &&
      holdsWord forbiddenMethods false (value.map asciiLower))

/-! ## Headers that need a preflight -/

/-- The types of a body that need no preflight. -/
def safeContentTypes : List Text :=
  ["application/x-www-form-urlencoded", "multipart/form-data", "text/plain"].map units

/-- A control other than a tab, or one of `"():<>?@[\]` and the braces and DEL. -/
def isUnsafeByte (c : CodeUnit) : Bool :=
  c ≤ 0x08 || (0x0A ≤ c && c ≤ 0x1F) || c = 0x7B || c = 0x7D || c = 0x7F ||
    (units "\"():<>?@[\\]").contains c

/-- A digit. -/
def isDigitUnit (c : CodeUnit) : Bool :=
  0x30 ≤ c && c ≤ 0x39

/-- A character a list of languages may hold. -/
def isLanguageUnit (c : CodeUnit) : Bool :=
  isDigitUnit c || (0x41 ≤ c && c ≤ 0x5A) || (0x61 ≤ c && c ≤ 0x7A) ||
    (units " *,-.;=").contains c

/-- `bytes=`, digits, a dash and perhaps digits. -/
def isSimpleRange (value : Text) : Bool :=
  (units "bytes=").isPrefixOf value &&
    let range := value.drop 6
    range.takeWhile isDigitUnit ≠ [] &&
      match range.dropWhile isDigitUnit with
      | [] => false
      | dash :: rest => dash = 0x2D && rest.all isDigitUnit

/-- How many bytes a text is. -/
def byteLength (t : Text) : Nat :=
  (utf8Bytes t).length

/-- The text up to its first semicolon, trimmed and in small letters. -/
def essence (P : Platform) (value : Text) : Text :=
  P.toLowerCase (trim (cutAt 0x3B value).1)

/-- Why a header makes the request need a preflight, or nothing when it is safelisted. -/
def unsafeHeader (P : Platform) (name value : Text) : Option Text :=
  let lower := P.toLowerCase name
  let badValue := units "the value of " ++ name
  let unreadable := value.any isUnsafeByte || 128 < byteLength value
  if lower = units "accept" then
    if unreadable then some badValue else none
  else if lower = units "accept-language" ∨ lower = units "content-language" then
    if !value.all isLanguageUnit || 128 < byteLength value then some badValue else none
  else if lower = units "content-type" then
    if unreadable then some badValue
    else if safeContentTypes.contains (essence P value) then none
    else some (units "Content-Type: " ++ value)
  else if lower = units "range" then
    if isSimpleRange value then none else some badValue
  else some (units "the header " ++ name)

/-- The methods that need no preflight of their own. -/
def plainMethods : List Text :=
  ["GET", "HEAD", "POST"].map units

/-- How many bytes the safelisted headers hold together. -/
def safelistedBytes (P : Platform) (sent : List (Text × Text)) : Nat :=
  ((sent.filter fun header => (unsafeHeader P header.1 header.2).isNone).map
    fun header => byteLength header.2).sum

/-- Why the browser asks a server of another origin first. -/
def preflightReasons (P : Platform) (method : Text) (sent : List (Text × Text)) : List Text :=
  (if plainMethods.contains method then [] else [units "the method " ++ method]) ++
    sent.filterMap (fun header => unsafeHeader P header.1 header.2) ++
    (if 1024 < safelistedBytes P sent then
      [units "safelisted headers over 1024 bytes together"] else [])

/-! ## The statement about a request -/

/-- Whether a host is this machine. -/
def isLoopback (hostname : Text) : Bool :=
  hostname = units "localhost" || (units ".localhost").isSuffixOf hostname ||
    hostname = units "[::1]" ||
    match splitOn 0x2E hostname with
    | [first, a, b, c] =>
        first = units "127" && [a, b, c].all fun part =>
          part.all isDigitUnit && 1 ≤ part.length && part.length ≤ 3
    | _ => false

/-- What the bridge does not pass on. -/
def bridgeSets : List Text :=
  ["connection", "keep-alive", "proxy-authenticate", "proxy-authorization", "te", "trailer",
    "transfer-encoding", "upgrade", "content-length"].map units

/-- What is said of a target that may be mixed content. -/
def mixedContentOf (origin : Text) (target : Option UrlRecord) : Option MixedContent :=
  match target with
  | none => none
  | some target =>
      if (units "https:").isPrefixOf origin ∧ target.protocol = units "http:" then
        some (if isLoopback target.hostname then .loopback else .blocked)
      else none

/-- What the browser will do to a request when the page at `origin` sends it, or the bridge. -/
def browserLimits (P : Platform) (request : LimitsRequest) (origin : Text) (route : Hop) :
    BrowserLimits :=
  match route with
  | .bridge =>
      { route := .bridge
        dropped := (request.headers.filter fun header =>
          bridgeSets.contains (P.toLowerCase header.1)).map Prod.fst
        crossOrigin := false
        preflight := []
        mixedContent := none
        adds := []
        suppresses := [] }
  | .direct =>
      let sent := request.headers.filter fun header => !isForbidden P header.1 header.2
      let has := fun (name : Text) => sent.any fun header => P.toLowerCase header.1 = name
      let method := P.toUpperCase request.method
      let target := P.parseUrl request.url
      -- An address that cannot be parsed gets no statement about origins.
      let crossOrigin := target.any fun target => target.origin ≠ origin
      { route := .direct
        dropped := (request.headers.filter fun header =>
          isForbidden P header.1 header.2).map Prod.fst
        crossOrigin := crossOrigin
        preflight := if crossOrigin then preflightReasons P method sent else []
        mixedContent := mixedContentOf origin target
        adds :=
          (if crossOrigin || (method ≠ units "GET" && method ≠ units "HEAD") then
            [units "Origin"] else []) ++
          [units "Sec-Fetch-Dest", units "Sec-Fetch-Mode", units "Sec-Fetch-Site"] ++
          (if has (units "accept") then [] else [units "Accept"]) ++
          [units "Accept-Encoding"] ++
          (if has (units "accept-language") then [] else [units "Accept-Language"]) ++
          (if has (units "user-agent") then [] else [units "User-Agent"])
        suppresses := [units "Referer", units "Cookie"] }

/-- A reason for a preflight names a target of another origin. -/
theorem crossOrigin_of_preflight {P : Platform} {request : LimitsRequest} {origin : Text}
    {route : Hop} (h : (browserLimits P request origin route).preflight ≠ []) :
    ∃ target, P.parseUrl request.url = some target ∧ target.origin ≠ origin := by
  cases route with
  | bridge => simp [browserLimits] at h
  | direct =>
      have hcross : (P.parseUrl request.url).any (fun target => target.origin ≠ origin) = true := by
        by_contra hsame
        exact h (by simp only [browserLimits, if_neg hsame])
      simpa [Option.any_eq_true] using hcross

/-- A target of the page's own origin never needs a preflight. -/
theorem preflight_sameOrigin {P : Platform} {request : LimitsRequest} {target : UrlRecord}
    (route : Hop) (h : P.parseUrl request.url = some target) :
    (browserLimits P request target.origin route).preflight = [] := by
  by_contra hreason
  obtain ⟨other, hother, hne⟩ := crossOrigin_of_preflight hreason
  rw [h] at hother
  cases hother
  exact hne rfl

/-! ## The route Auto -/

/-- The route a request is sent by: its own, else its collection's, else the device's. -/
def routeOf (request collection : Option Route) (device : Route) : Route :=
  (request.or collection).getD device

/-- The methods that do no harm when they are sent twice. -/
def safeMethods : List Text :=
  ["GET", "HEAD", "OPTIONS"].map units

/-- Whether a method, in any case, is one of those. -/
def isSafeMethod (P : Platform) (method : Text) : Bool :=
  safeMethods.contains (P.toUpperCase method)

/-- What follows a request the page sent. -/
inductive AfterDirect where
  | keep
  | retry
  | ask

/-- What the route Auto does after the page sent a request itself. -/
def afterDirectSend (P : Platform) (request : LimitsRequest) (pageOrigin : Text)
    (failed : Bool) : AfterDirect :=
  if !failed then .keep
  else if isSafeMethod P request.method then .retry
  else if (browserLimits P request pageOrigin .direct).preflight ≠ [] then .retry
  else .ask

/-- A failed request is sent again unasked exactly when its method is safe or the browser has a
reason to ask the server first. -/
theorem afterDirectSend_eq_retry_iff (P : Platform) (request : LimitsRequest)
    (pageOrigin : Text) :
    afterDirectSend P request pageOrigin true = .retry ↔
      isSafeMethod P request.method = true ∨
        (browserLimits P request pageOrigin .direct).preflight ≠ [] := by
  unfold afterDirectSend
  split
  · simp_all
  · split
    · simp_all
    · split <;> simp_all

end Wayfarer
