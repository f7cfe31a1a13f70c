import Mathlib.Data.List.Induction
import Mathlib.Data.List.Sort
import Wayfarer.Cookies.Jar
import Wayfarer.Library.Base64

/-!
# The rules of the cookie jar

Which `Set-Cookie` headers a browser would keep (`parseSetCookie`), how one is put into the jar
(`storeCookie`) and which cookies a request carries (`cookiesFor`).

`jar_safe` is about the jar after any list of headers, from any addresses and at any times: one
cookie of a name, domain and path, no more than the limit, each as it was last set and with the time
it came into the jar; and a request is given a cookie only by the rules of its domain, path, expiry
and `Secure`. A cookie that was deleted and set again has the later time.
-/

set_option autoImplicit false

namespace Wayfarer

open Library

/-! ## Hosts and paths -/

/-- An address, as the rules read it. -/
structure CookieAddress where
  /-- The scheme, with its colon. -/
  protocol : Text
  hostname : Text
  pathname : Text

/-- What the rules use of the page. -/
structure CookiePlatform where
  /-- `URL.parse`. -/
  parseUrl : Text → Option CookieAddress
  /-- `toLowerCase`. -/
  toLowerCase : Text → Text
  /-- `Date.parse`; `none` where it is no date. -/
  parseDate : Text → Option Int

/-- The most bytes a cookie's name and value may have together. -/
def maxCookieBytes : Nat := 4096

/-- The most cookies a jar holds. -/
def maxCookies : Nat := 1000

/-- An ASCII digit. -/
def isCookieDigit (c : CodeUnit) : Bool :=
  0x30 ≤ c.toNat && c.toNat ≤ 0x39

/-- Four numbers of up to three digits. -/
def isIpv4 (host : Text) : Bool :=
  let numbers := splitOn 0x2E host
  numbers.length = 4 &&
    numbers.all fun number => 1 ≤ number.length && number.length ≤ 3 && number.all isCookieDigit

/-- A host that is an address of its own, and no name. -/
def isIp (host : Text) : Bool :=
  isIpv4 host || (units "[").isPrefixOf host

/-- An address of `http` or `https`. -/
def httpUrl (P : CookiePlatform) (url : Text) : Option CookieAddress :=
  (P.parseUrl url).filter fun parsed =>
    parsed.protocol = units "http:" || parsed.protocol = units "https:"

/-- A host in lower case. -/
def CookieAddress.host (P : CookiePlatform) (address : CookieAddress) : Text :=
  P.toLowerCase address.hostname

/-- `host` is `domain`, or a name under it. An IP address is only itself. -/
def domainMatches (host domain : Text) : Bool :=
  host = domain || (!isIp host && (units "." ++ domain).isSuffixOf host)

/-- A path up to its last slash. -/
def defaultPath (pathname : Text) : Text :=
  -- What stands before the last slash; nothing where that is the first character, or there is none.
  let upTo := (pathname.reverse.dropWhile (· ≠ 0x2F)).tail.reverse
  if upTo = [] then units "/" else upTo

/-- A path that a cookie's path covers. -/
def pathMatches (requestPath cookiePath : Text) : Bool :=
  requestPath = cookiePath ||
    (cookiePath.isPrefixOf requestPath &&
      ((units "/").isSuffixOf cookiePath || requestPath[cookiePath.length]? = some 0x2F))

/-! ## Reading a header -/

/-- A number of seconds: digits, with a sign or without. One too large for a number of the language
is later than any time there is, as it is there. -/
def maxAgeOf (text : Text) : Option Int :=
  let negative := (units "-").isPrefixOf text
  let digits := if negative then text.drop 1 else text
  if digits ≠ [] ∧ digits.all isCookieDigit = true then
    let value : Nat := digits.foldl (fun n c => 10 * n + (c.toNat - 0x30)) 0
    some (if negative then -value else value)
  else none

/-- An attribute of a header. -/
inductive CookieAttribute where
  | secure
  | httpOnly
  | path (text : Text)
  | sameSite (site : SameSite)
  | maxAge (seconds : Int)
  | expires (time : Int)
  | domain (text : Text)
  /-- One that says nothing here. -/
  | other

/-- The site rule a text names. -/
def sameSiteOf (text : Text) : Option SameSite :=
  if text = units "strict" then some .strict
  else if text = units "lax" then some .lax
  else if text = units "none" then some .none
  else none

/-- What an attribute says. -/
def readAttribute (P : CookiePlatform) (item : Text) : CookieAttribute :=
  let parts := cutAt 0x3D item
  let key := P.toLowerCase (trim parts.1)
  let text := trim (parts.2.getD [])
  if key = units "secure" then .secure
  else if key = units "httponly" then .httpOnly
  else if key = units "path" ∧ (units "/").isPrefixOf text = true then .path text
  else if key = units "samesite" then
    ((sameSiteOf (P.toLowerCase text)).map .sameSite).getD .other
  else if key = units "max-age" then ((maxAgeOf text).map .maxAge).getD .other
  else if key = units "expires" then ((P.parseDate text).map .expires).getD .other
  else if key = units "domain" ∧ text ≠ [] then .domain text
  else .other

/-- The domain a text names: in lower case, without a leading dot. -/
def domainOf (P : CookiePlatform) (text : Text) : Text :=
  P.toLowerCase (if (units ".").isPrefixOf text then text.drop 1 else text)

/-- A cookie of a host with a domain; `none` where the host does not belong to it. -/
def withDomain (P : CookiePlatform) (host : Text) (cookie : Cookie) (text : Text) : Option Cookie :=
  let domain := domainOf P text
  -- With no dot it is a suffix, or the host itself: only the host may name it.
  let wide := domain.contains 0x2E && !isIp domain
  if !domainMatches host domain then none
  else if !wide && domain ≠ host then none
  else some { cookie with domain, hostOnly := !wide }

/-- What an attribute makes of a cookie and the age it may have; `none` where a browser would not
keep it. -/
def applyAttribute (P : CookiePlatform) (host : Text) (p : Cookie × Option Int) (item : Text) :
    Option (Cookie × Option Int) :=
  match readAttribute P item with
  | .secure => some ({ p.1 with secure := true }, p.2)
  | .httpOnly => some ({ p.1 with httpOnly := true }, p.2)
  | .path text => some ({ p.1 with path := text }, p.2)
  | .sameSite site => some ({ p.1 with sameSite := some site }, p.2)
  | .maxAge seconds => some (p.1, some seconds)
  | .expires time => some ({ p.1 with expires := some time }, p.2)
  | .domain text => (withDomain P host p.1 text).map fun cookie => (cookie, p.2)
  | .other => some p

/-- A control character. -/
def isControl (c : CodeUnit) : Bool :=
  c.toNat ≤ 0x1F || c.toNat = 0x7F

/-- The parts of a header between semicolons: the pair, and the attributes. -/
def headerParts (header : Text) : Text × List Text :=
  match splitOn 0x3B header with
  | [] => ([], [])
  | pair :: attributes => (pair, attributes)

/-- The cookie of a pair, as it is before its attributes; `none` where a browser would not keep
it. -/
def pairCookie (P : CookiePlatform) (source : CookieAddress) (pair : Text) (now : Int) :
    Option Cookie :=
  let parts := cutAt 0x3D pair
  match parts.2 with
  | none => none
  | some text =>
      let name := trim parts.1
      let value := trim text
      if name = [] ∨ pair.any isControl = true ∨
          maxCookieBytes < (utf8Bytes (name ++ value)).length then none
      else some { name, value, domain := source.host P, hostOnly := true,
                  path := defaultPath source.pathname, secure := false, httpOnly := false,
                  created := now }

/-- A cookie with the age it may have. -/
def withMaxAge (cookie : Cookie) (maxAge : Option Int) (now : Int) : Cookie :=
  match maxAge with
  | none => cookie
  | some seconds =>
      { cookie with expires := some (if seconds ≤ 0 then 0 else now + seconds * 1000) }

/-- Whether a browser keeps a cookie: `Secure` needs TLS, and two prefixes of a name have their
rules. -/
def isKept (source : CookieAddress) (cookie : Cookie) : Bool :=
  (!cookie.secure || source.protocol = units "https:") &&
    (!(units "__Secure-").isPrefixOf cookie.name || cookie.secure) &&
    (!(units "__Host-").isPrefixOf cookie.name ||
      (cookie.secure && cookie.hostOnly && cookie.path = units "/"))

/-- One `Set-Cookie` header from the response of an address, or `none` when a browser would not keep
it. -/
def parseSetCookie (P : CookiePlatform) (header url : Text) (now : Int) : Option Cookie := do
  let source ← httpUrl P url
  let (pair, attributes) := headerParts header
  let cookie ← pairCookie P source pair now
  let (cookie, maxAge) ← attributes.foldlM (applyAttribute P (source.host P)) (cookie, none)
  let cookie := withMaxAge cookie maxAge now
  if isKept source cookie then some cookie else none

/-! ## The jar -/

/-- What a cookie is known by. -/
def Cookie.key (cookie : Cookie) : Text × Text × Text :=
  (cookie.name, cookie.domain, cookie.path)

/-- Whether a cookie's time is over. -/
def expired (cookie : Cookie) (now : Int) : Bool :=
  cookie.expires.any fun time => time ≤ now

/-- The jar with the first cookie of a key replaced by another, which has its time. -/
def replaceCookie (cookie : Cookie) : List Cookie → List Cookie
  | [] => []
  | held :: jar =>
      if held.key = cookie.key then { cookie with created := held.created } :: jar
      else held :: replaceCookie cookie jar

/-- The newest cookies, where there are more than the limit. -/
def newestCookies (jar : List Cookie) : List Cookie :=
  if maxCookies < jar.length then
    (jar.insertionSort fun a b => a.created ≤ b.created).drop (jar.length - maxCookies)
  else jar

/-- The jar with a cookie in it, in place of the one of its name, domain and path. One that has
expired takes that one out and is not kept. -/
def storeCookie (jar : List Cookie) (cookie : Cookie) (now : Int) : List Cookie :=
  if expired cookie now then jar.eraseP fun held => held.key = cookie.key
  else newestCookies
    (if jar.any fun held => held.key = cookie.key then replaceCookie cookie jar
    else jar ++ [cookie])

/-- Whether a cookie goes to an address. -/
def goesTo (P : CookiePlatform) (address : CookieAddress) (now : Int) (cookie : Cookie) : Bool :=
  !expired cookie now &&
    (if cookie.hostOnly then address.host P = cookie.domain
    else domainMatches (address.host P) cookie.domain) &&
    pathMatches address.pathname cookie.path &&
    (!cookie.secure || address.protocol = units "https:")

/-- Whether a cookie is sent before another: the longer path, then the one set earlier. -/
def sentFirst (a b : Cookie) : Prop :=
  b.path.length < a.path.length ∨ (a.path.length = b.path.length ∧ a.created ≤ b.created)

instance : DecidableRel sentFirst := fun a b =>
  inferInstanceAs (Decidable (b.path.length < a.path.length ∨ _))

/-- The cookies of a jar that a request carries, in the order they are sent. -/
def cookiesFor (P : CookiePlatform) (jar : List Cookie) (url : Text) (now : Int) : List Cookie :=
  match httpUrl P url with
  | none => []
  | some address => (jar.filter (goesTo P address now)).insertionSort sentFirst

/-! ## What a header sets -/

/-- The domain of a cookie set by a host: the host itself, or a domain with a dot in it that the
host lies under. -/
def DomainOf (host : Text) (cookie : Cookie) : Prop :=
  if cookie.hostOnly then cookie.domain = host
  else 0x2E ∈ cookie.domain ∧ isIp cookie.domain = false ∧ domainMatches host cookie.domain = true

/-- A domain a host belongs to is one of its own. -/
theorem withDomain_spec {P : CookiePlatform} {host text : Text} {cookie cookie' : Cookie}
    (h : withDomain P host cookie text = some cookie') :
    DomainOf host cookie' ∧ cookie'.created = cookie.created := by
  rw [withDomain] at h
  split at h
  · cases h
  · rename_i hmatches
    split at h
    · cases h
    · rename_i hnarrow
      obtain rfl := Option.some.inj h
      refine ⟨?_, rfl⟩
      unfold DomainOf
      dsimp only
      split
      · rename_i hnot
        simp only [hnot, Bool.true_and, decide_eq_true_eq, not_not] at hnarrow
        exact hnarrow
      · rename_i hwide
        obtain ⟨hdot, hname⟩ : 0x2E ∈ domainOf P text ∧ isIp (domainOf P text) = false := by
          simpa using hwide
        exact ⟨hdot, hname, by simpa using hmatches⟩

/-- An attribute keeps a cookie its time, and gives it a domain of the host. -/
theorem applyAttribute_spec {P : CookiePlatform} {host item : Text} {p p' : Cookie × Option Int}
    (h : applyAttribute P host p item = some p') (hdomain : DomainOf host p.1) :
    DomainOf host p'.1 ∧ p'.1.created = p.1.created := by
  rw [applyAttribute] at h
  split at h
  case h_7 =>
    obtain ⟨cookie, hcookie, rfl⟩ := Option.map_eq_some_iff.mp h
    exact withDomain_spec hcookie
  all_goals
    obtain rfl := Option.some.inj h
    exact ⟨hdomain, rfl⟩

/-- So do all of them. -/
theorem foldlM_applyAttribute_spec {P : CookiePlatform} {host : Text} {items : List Text}
    {p p' : Cookie × Option Int} (h : items.foldlM (applyAttribute P host) p = some p')
    (hdomain : DomainOf host p.1) : DomainOf host p'.1 ∧ p'.1.created = p.1.created := by
  induction items generalizing p with
  | nil =>
      obtain rfl := Option.some.inj h
      exact ⟨hdomain, rfl⟩
  | cons item items ih =>
      rw [List.foldlM_cons, Option.bind_eq_bind, Option.bind_eq_some_iff] at h
      obtain ⟨next, hnext, hlater⟩ := h
      obtain ⟨hdomain', hcreated⟩ := applyAttribute_spec hnext hdomain
      obtain ⟨hend, hcreated'⟩ := ih hlater hdomain'
      exact ⟨hend, hcreated'.trans hcreated⟩

theorem pairCookie_spec {P : CookiePlatform} {source : CookieAddress} {pair : Text} {now : Int}
    {cookie : Cookie} (h : pairCookie P source pair now = some cookie) :
    DomainOf (source.host P) cookie ∧ cookie.created = now := by
  rw [pairCookie] at h
  split at h
  · cases h
  · dsimp only at h
    split at h
    · cases h
    · obtain rfl := Option.some.inj h
      exact ⟨rfl, rfl⟩

theorem withMaxAge_spec (cookie : Cookie) (maxAge : Option Int) (now : Int) (host : Text) :
    (DomainOf host (withMaxAge cookie maxAge now) ↔ DomainOf host cookie) ∧
      (withMaxAge cookie maxAge now).created = cookie.created := by
  cases maxAge with
  | none => exact ⟨Iff.rfl, rfl⟩
  | some seconds => exact ⟨Iff.rfl, rfl⟩

/-- A cookie read from a header has a domain of the host it came from, and the time it came. -/
theorem parseSetCookie_spec {P : CookiePlatform} {header url : Text} {now : Int} {cookie : Cookie}
    (h : parseSetCookie P header url now = some cookie) :
    ∃ source, httpUrl P url = some source ∧ DomainOf (source.host P) cookie ∧
      cookie.created = now := by
  rw [parseSetCookie] at h
  simp only [Option.bind_eq_bind, Option.bind_eq_some_iff] at h
  obtain ⟨source, hsource, first, hfirst, p, hp, hkept⟩ := h
  refine ⟨source, hsource, ?_⟩
  obtain ⟨hstart, hnow⟩ := pairCookie_spec hfirst
  obtain ⟨hdomain, hcreated⟩ := foldlM_applyAttribute_spec hp hstart
  obtain ⟨-, hcookie⟩ := Option.ite_none_right_eq_some.mp hkept
  obtain rfl := Option.some.inj hcookie
  obtain ⟨hage, htime⟩ := withMaxAge_spec p.1 p.2 now (source.host P)
  exact ⟨hage.mpr hdomain, htime.trans (hcreated.trans hnow)⟩

/-! ## What storing does -/

/-- One cookie of a key at most. -/
def OneEach (jar : List Cookie) : Prop :=
  (jar.map Cookie.key).Nodup

theorem OneEach.subperm {jar jar' : List Cookie} (h : OneEach jar) (hsub : jar'.Subperm jar) :
    OneEach jar' := by
  obtain ⟨l, hperm, hsublist⟩ := hsub
  exact (hperm.map Cookie.key).nodup_iff.mp (h.sublist (hsublist.map Cookie.key))

/-- Two cookies of one key are one. -/
theorem OneEach.eq {jar : List Cookie} (h : OneEach jar) {c c' : Cookie} (hc : c ∈ jar)
    (hc' : c' ∈ jar) (hkey : c.key = c'.key) : c = c' :=
  List.inj_on_of_nodup_map h hc hc' hkey

/-- What a jar holds once the cookie of a key was taken out: the others. -/
theorem OneEach.mem_eraseP {jar : List Cookie} (h : OneEach jar) {key : Text × Text × Text}
    {c : Cookie} : c ∈ jar.eraseP (fun held => held.key = key) ↔ c ∈ jar ∧ c.key ≠ key := by
  induction jar with
  | nil => simp
  | cons held jar ih =>
      obtain ⟨hnot, hrest⟩ := List.nodup_cons.mp h
      by_cases hkey : held.key = key
      · rw [List.eraseP_cons_of_pos (by simpa using hkey), List.mem_cons]
        constructor
        · intro hc
          refine ⟨Or.inr hc, ?_⟩
          intro heq
          exact hnot (hkey.trans heq.symm ▸ List.mem_map_of_mem hc)
        · rintro ⟨rfl | hc, hne⟩
          · exact absurd hkey hne
          · exact hc
      · rw [List.eraseP_cons_of_neg (by simpa using hkey), List.mem_cons, ih hrest, List.mem_cons]
        constructor
        · rintro (rfl | ⟨hc, hne⟩)
          · exact ⟨Or.inl rfl, hkey⟩
          · exact ⟨Or.inr hc, hne⟩
        · rintro ⟨rfl | hc, hne⟩
          · exact Or.inl rfl
          · exact Or.inr ⟨hc, hne⟩

/-- A replaced cookie's place is the one of its key. -/
theorem map_key_replaceCookie (cookie : Cookie) (jar : List Cookie) :
    (replaceCookie cookie jar).map Cookie.key = jar.map Cookie.key := by
  induction jar with
  | nil => rfl
  | cons held jar ih =>
      rw [replaceCookie]
      split
      · rename_i hkey
        rw [List.map_cons, List.map_cons, hkey]
        rfl
      · rw [List.map_cons, List.map_cons, ih]

/-- What a jar holds once one was replaced: the others, and the new one with its time. -/
theorem mem_replaceCookie {cookie c : Cookie} {jar : List Cookie} (hone : OneEach jar)
    (h : c ∈ replaceCookie cookie jar) :
    c ∈ jar ∧ c.key ≠ cookie.key ∨
      ∃ held ∈ jar, held.key = cookie.key ∧ c = { cookie with created := held.created } := by
  induction jar with
  | nil => cases h
  | cons held jar ih =>
      obtain ⟨hnot, hrest⟩ := List.nodup_cons.mp hone
      rw [replaceCookie] at h
      split at h
      · rename_i hkey
        rcases List.mem_cons.mp h with rfl | hc
        · exact Or.inr ⟨held, List.mem_cons_self, hkey, rfl⟩
        · refine Or.inl ⟨List.mem_cons_of_mem _ hc, ?_⟩
          intro heq
          exact hnot (hkey.trans heq.symm ▸ List.mem_map_of_mem hc)
      · rename_i hkey
        rcases List.mem_cons.mp h with rfl | hc
        · exact Or.inl ⟨List.mem_cons_self, hkey⟩
        · rcases ih hrest hc with ⟨hmem, hne⟩ | ⟨other, hother, hkey', rfl⟩
          · exact Or.inl ⟨List.mem_cons_of_mem _ hmem, hne⟩
          · exact Or.inr ⟨other, List.mem_cons_of_mem _ hother, hkey', rfl⟩

/-- The newest of a jar are some of it. -/
theorem newestCookies_subperm (jar : List Cookie) : (newestCookies jar).Subperm jar := by
  rw [newestCookies]
  split
  · exact (List.drop_sublist _ _).subperm.trans (List.perm_insertionSort _ _).subperm
  · exact List.Subperm.refl _

theorem length_newestCookies_le (jar : List Cookie) : (newestCookies jar).length ≤ maxCookies := by
  rw [newestCookies]
  split
  · rename_i hmany
    rw [List.length_drop, List.length_insertionSort]
    omega
  · rename_i hfew
    exact Nat.le_of_not_lt hfew

/-- The jar before the limit is looked at. -/
theorem oneEach_added {jar : List Cookie} (h : OneEach jar) (cookie : Cookie) :
    OneEach (if jar.any fun held => held.key = cookie.key then replaceCookie cookie jar
      else jar ++ [cookie]) := by
  split
  · rw [OneEach, map_key_replaceCookie]
    exact h
  · rename_i hnone
    have hnot : cookie.key ∉ jar.map Cookie.key := by
      intro hmem
      obtain ⟨held, hheld, hkey⟩ := List.mem_map.mp hmem
      exact hnone (List.any_eq_true.mpr ⟨held, hheld, decide_eq_true hkey⟩)
    rw [OneEach, List.map_append]
    exact h.append (List.nodup_singleton _) (by simpa using hnot)

/-- A cookie stored leaves one of a key, and no more than the limit. -/
theorem oneEach_storeCookie {jar : List Cookie} (h : OneEach jar) (cookie : Cookie) (now : Int) :
    OneEach (storeCookie jar cookie now) := by
  rw [storeCookie]
  split
  · exact h.sublist (List.eraseP_sublist.map _)
  · exact (oneEach_added h cookie).subperm (newestCookies_subperm _)

theorem length_storeCookie_le {jar : List Cookie} (h : jar.length ≤ maxCookies) (cookie : Cookie)
    (now : Int) : (storeCookie jar cookie now).length ≤ maxCookies := by
  rw [storeCookie]
  split
  · exact List.eraseP_sublist.length_le.trans h
  · exact length_newestCookies_le _

/-- What a jar holds once a cookie was stored: others as they were, and that one as it was set, with
the time of the one it replaced or its own. -/
theorem mem_storeCookie {jar : List Cookie} {cookie c : Cookie} {now : Int} (hone : OneEach jar)
    (h : c ∈ storeCookie jar cookie now) :
    c ∈ jar ∧ c.key ≠ cookie.key ∨
      (∃ held ∈ jar, held.key = cookie.key ∧ c = { cookie with created := held.created }) ∨
      (∀ held ∈ jar, held.key ≠ cookie.key) ∧ c = cookie := by
  rw [storeCookie] at h
  split at h
  · exact Or.inl (hone.mem_eraseP.mp h)
  · have hadded := (newestCookies_subperm _).subset h
    split at hadded
    · exact (mem_replaceCookie hone hadded).imp_right Or.inl
    · rename_i hnone
      have hnot : ∀ held ∈ jar, held.key ≠ cookie.key := by
        intro held hheld hkey
        exact hnone (List.any_eq_true.mpr ⟨held, hheld, decide_eq_true hkey⟩)
      rcases List.mem_append.mp hadded with hold | hnew
      · exact Or.inl ⟨hold, hnot c hold⟩
      · exact Or.inr (Or.inr ⟨hnot, List.mem_singleton.mp hnew⟩)

/-! ## The jar after any headers -/

/-- A `Set-Cookie` header, the address it came from, and when. -/
structure SetCookie where
  header : Text
  url : Text
  now : Int

/-- The cookie a header sets. -/
def SetCookie.cookie? (P : CookiePlatform) (e : SetCookie) : Option Cookie :=
  parseSetCookie P e.header e.url e.now

/-- The jar after one more header. -/
def afterHeader (P : CookiePlatform) (jar : List Cookie) (e : SetCookie) : List Cookie :=
  match e.cookie? P with
  | none => jar
  | some cookie => storeCookie jar cookie e.now

/-- The jar after a list of headers. -/
def jarAfter (P : CookiePlatform) (events : List SetCookie) : List Cookie :=
  events.foldl (afterHeader P) []

theorem jarAfter_snoc (P : CookiePlatform) (events : List SetCookie) (e : SetCookie) :
    jarAfter P (events ++ [e]) = afterHeader P (jarAfter P events) e :=
  List.foldl_concat _ _ _ _

/-- A header that sets a cookie of a key. -/
def Sets (P : CookiePlatform) (e : SetCookie) (key : Text × Text × Text) : Prop :=
  ∃ cookie, e.cookie? P = some cookie ∧ cookie.key = key

/-- A cookie of a jar is as it was last set. -/
def AsLastSet (P : CookiePlatform) (events : List SetCookie) (cookie : Cookie) : Prop :=
  ∃ before e after last, events = before ++ e :: after ∧ e.cookie? P = some last ∧
    cookie = { last with created := cookie.created } ∧ ∀ e' ∈ after, ¬ Sets P e' cookie.key

/-- A cookie of a jar has the time of the header that put its name, domain and path there, where
they have been since. -/
def SinceCreated (P : CookiePlatform) (events : List SetCookie) (cookie : Cookie) : Prop :=
  ∃ before e after, events = before ++ e :: after ∧ Sets P e cookie.key ∧ e.now = cookie.created ∧
    (∀ held ∈ jarAfter P before, held.key ≠ cookie.key) ∧
    ∀ seen, seen <+: after → ∃ held ∈ jarAfter P (before ++ e :: seen), held.key = cookie.key

/-- A host lies under a domain with a dot in it: no IP address, the domain itself or a name that
ends in a dot and the domain. -/
def LiesUnder (host domain : Text) : Prop :=
  isIp host = false ∧ (host = domain ∨ (units "." ++ domain) <:+ host)

/-- A path covers another: it is that path, or it ends, or the other goes on, with a slash. -/
def Covers (path requestPath : Text) : Prop :=
  requestPath = path ∨ path <+: requestPath ∧
    ((units "/") <:+ path ∨ requestPath[path.length]? = some 0x2F)

/-- A request to an address may be given a cookie that a response of another address set. -/
structure MayHave (P : CookiePlatform) (source target : CookieAddress) (now : Int)
    (cookie : Cookie) : Prop where
  /-- A cookie without a domain of its own stays with the host that set it. -/
  hostOnly : cookie.hostOnly = true →
    cookie.domain = source.host P ∧ target.host P = source.host P
  /-- One with a domain is for what lies under it, and so does the host that set it. -/
  domain : cookie.hostOnly = false →
    0x2E ∈ cookie.domain ∧ isIp cookie.domain = false ∧
      LiesUnder (source.host P) cookie.domain ∧ LiesUnder (target.host P) cookie.domain
  path : Covers cookie.path target.pathname
  lives : expired cookie now = false
  secure : cookie.secure = true → target.protocol = units "https:"

/-- The jar is safe: one cookie of a key, no more than the limit, each as it was last set and with
the time it came into the jar; and a request is given one only by its rules. -/
structure JarSafe (P : CookiePlatform) (events : List SetCookie) : Prop where
  oneEach : OneEach (jarAfter P events)
  limit : (jarAfter P events).length ≤ maxCookies
  lastSet : ∀ cookie ∈ jarAfter P events, AsLastSet P events cookie
  created : ∀ cookie ∈ jarAfter P events, SinceCreated P events cookie
  given : ∀ url now, ∀ cookie ∈ cookiesFor P (jarAfter P events) url now,
    ∃ e ∈ events, ∃ last source target, e.cookie? P = some last ∧
      cookie = { last with created := cookie.created } ∧ httpUrl P e.url = some source ∧
      httpUrl P url = some target ∧ MayHave P source target now cookie

/-- One more header keeps one cookie of a key, and the limit. -/
theorem oneEach_jarAfter (P : CookiePlatform) (events : List SetCookie) :
    OneEach (jarAfter P events) ∧ (jarAfter P events).length ≤ maxCookies := by
  induction events using List.reverseRecOn with
  | nil => exact ⟨List.nodup_nil, Nat.zero_le _⟩
  | append_singleton events e ih =>
      rw [jarAfter_snoc, afterHeader]
      split
      · exact ih
      · exact ⟨oneEach_storeCookie ih.1 _ _, length_storeCookie_le ih.2 _ _⟩

/-- What a header leaves of a jar: cookies of other keys, and the one it sets. -/
theorem mem_jarAfter_snoc {P : CookiePlatform} {events : List SetCookie} {e : SetCookie}
    {cookie : Cookie} (h : cookie ∈ jarAfter P (events ++ [e])) :
    (cookie ∈ jarAfter P events ∧ ¬ Sets P e cookie.key) ∨
      ∃ last, e.cookie? P = some last ∧ cookie = { last with created := cookie.created } ∧
        ((∃ held ∈ jarAfter P events, held.key = cookie.key ∧ held.created = cookie.created) ∨
          (∀ held ∈ jarAfter P events, held.key ≠ cookie.key) ∧ cookie.created = e.now) := by
  rw [jarAfter_snoc, afterHeader] at h
  split at h
  · rename_i hnone
    refine Or.inl ⟨h, ?_⟩
    rintro ⟨last, hlast, -⟩
    rw [hnone] at hlast
    cases hlast
  · rename_i last hlast
    have hone := (oneEach_jarAfter P events).1
    rcases mem_storeCookie hone h with ⟨hmem, hne⟩ | ⟨held, hheld, hkey, rfl⟩ | ⟨hnone, rfl⟩
    · refine Or.inl ⟨hmem, ?_⟩
      rintro ⟨last', hlast', hkey⟩
      obtain rfl := Option.some.inj (hlast.symm.trans hlast')
      exact hne hkey.symm
    · exact Or.inr ⟨last, hlast, rfl, Or.inl ⟨held, hheld, hkey, rfl⟩⟩
    · obtain ⟨_, _, _, hcreated⟩ := parseSetCookie_spec hlast
      exact Or.inr ⟨cookie, hlast, rfl, Or.inr ⟨hnone, hcreated⟩⟩

theorem asLastSet_of_mem (P : CookiePlatform) (events : List SetCookie) :
    ∀ cookie ∈ jarAfter P events, AsLastSet P events cookie := by
  induction events using List.reverseRecOn with
  | nil =>
      intro cookie hcookie
      cases hcookie
  | append_singleton events e ih =>
      intro cookie hcookie
      rcases mem_jarAfter_snoc hcookie with ⟨hold, hnot⟩ | ⟨last, hlast, hsame, -⟩
      · obtain ⟨before, e', after, last, rfl, hlast, hsame, hlater⟩ := ih cookie hold
        refine ⟨before, e', after ++ [e], last, by simp, hlast, hsame, ?_⟩
        intro e'' he''
        rcases List.mem_append.mp he'' with hin | hnew
        · exact hlater e'' hin
        · rwa [List.mem_singleton.mp hnew]
      · exact ⟨events, e, [], last, rfl, hlast, hsame, fun e' he' => nomatch he'⟩

/-- The time a key came into the jar stays what it was while the key is there. -/
theorem SinceCreated.snoc {P : CookiePlatform} {events : List SetCookie} {e : SetCookie}
    {held cookie : Cookie} (h : SinceCreated P events held)
    (hcookie : cookie ∈ jarAfter P (events ++ [e])) (hkey : held.key = cookie.key)
    (hcreated : held.created = cookie.created) : SinceCreated P (events ++ [e]) cookie := by
  obtain ⟨before, e', after, rfl, hsets, hnow, hbefore, hsince⟩ := h
  rw [hkey] at hsets hbefore hsince
  refine ⟨before, e', after ++ [e], by simp, hsets, hnow.trans hcreated, hbefore, ?_⟩
  intro seen hseen
  rcases List.prefix_concat_iff.mp hseen with rfl | hprefix
  · exact ⟨cookie, by simpa using hcookie, rfl⟩
  · exact hsince seen hprefix

theorem sinceCreated_of_mem (P : CookiePlatform) (events : List SetCookie) :
    ∀ cookie ∈ jarAfter P events, SinceCreated P events cookie := by
  induction events using List.reverseRecOn with
  | nil =>
      intro cookie hcookie
      cases hcookie
  | append_singleton events e ih =>
      intro cookie hcookie
      rcases mem_jarAfter_snoc hcookie with ⟨hold, -⟩ | ⟨last, hlast, hsame, hwas⟩
      · exact (ih cookie hold).snoc hcookie rfl rfl
      · rcases hwas with ⟨held, hheld, hkey, hcreated⟩ | ⟨hnone, hnow⟩
        · exact (ih held hheld).snoc hcookie hkey hcreated
        · refine ⟨events, e, [], rfl, ⟨last, hlast, ?_⟩, hnow.symm, hnone, ?_⟩
          · rw [hsame]
            rfl
          · intro seen hseen
            rw [List.prefix_nil.mp hseen]
            exact ⟨cookie, hcookie, rfl⟩

/-! ## What a request is given -/

theorem liesUnder_of_domainMatches {host domain : Text} (hname : isIp domain = false)
    (h : domainMatches host domain = true) : LiesUnder host domain := by
  rcases Bool.or_eq_true_iff.mp h with heq | hunder
  · obtain rfl := of_decide_eq_true heq
    exact ⟨hname, Or.inl rfl⟩
  · obtain ⟨hip, hsuffix⟩ := Bool.and_eq_true_iff.mp hunder
    exact ⟨by simpa using hip, Or.inr (List.isSuffixOf_iff_suffix.mp hsuffix)⟩

theorem covers_of_pathMatches {requestPath path : Text} (h : pathMatches requestPath path = true) :
    Covers path requestPath := by
  rcases Bool.or_eq_true_iff.mp h with heq | hunder
  · exact Or.inl (of_decide_eq_true heq)
  · obtain ⟨hstarts, hslash⟩ := Bool.and_eq_true_iff.mp hunder
    refine Or.inr ⟨List.isPrefixOf_iff_prefix.mp hstarts, ?_⟩
    rcases Bool.or_eq_true_iff.mp hslash with hends | hnext
    · exact Or.inl (List.isSuffixOf_iff_suffix.mp hends)
    · exact Or.inr (of_decide_eq_true hnext)

/-- A cookie that goes to an address may be had there, where it has a domain of its own host. -/
theorem mayHave_of_goesTo {P : CookiePlatform} {source target : CookieAddress} {now : Int}
    {cookie : Cookie} (hdomain : DomainOf (source.host P) cookie)
    (h : goesTo P target now cookie = true) : MayHave P source target now cookie := by
  simp only [goesTo, Bool.and_eq_true] at h
  obtain ⟨⟨⟨hlives, hhost⟩, hpath⟩, hsecure⟩ := h
  rw [DomainOf] at hdomain
  refine ⟨?_, ?_, covers_of_pathMatches hpath, by simpa using hlives, ?_⟩
  · intro honly
    rw [if_pos honly] at hdomain
    rw [if_pos honly, decide_eq_true_eq] at hhost
    exact ⟨hdomain, hhost.trans hdomain⟩
  · intro hwide
    rw [hwide, if_neg Bool.false_ne_true] at hdomain hhost
    obtain ⟨hdot, hname, hsource⟩ := hdomain
    exact ⟨hdot, hname, liesUnder_of_domainMatches hname hsource,
      liesUnder_of_domainMatches hname hhost⟩
  · intro hcookie
    simpa [hcookie] using hsecure

/-- The jar is safe after any list of headers. -/
theorem jar_safe (P : CookiePlatform) (events : List SetCookie) : JarSafe P events := by
  obtain ⟨hone, hlimit⟩ := oneEach_jarAfter P events
  refine ⟨hone, hlimit, asLastSet_of_mem P events, sinceCreated_of_mem P events, ?_⟩
  intro url now cookie hcookie
  rw [cookiesFor] at hcookie
  split at hcookie
  · cases hcookie
  · rename_i target htarget
    obtain ⟨hheld, hgoes⟩ := List.mem_filter.mp ((List.mem_insertionSort _).mp hcookie)
    obtain ⟨before, e, after, last, rfl, hlast, hsame, -⟩ := asLastSet_of_mem P events cookie hheld
    obtain ⟨source, hsource, hdomain, -⟩ := parseSetCookie_spec hlast
    refine ⟨e, by simp, last, source, target, hlast, hsame, hsource, htarget, ?_⟩
    apply mayHave_of_goesTo _ hgoes
    rw [hsame]
    exact hdomain

/-- A page that knows one address. -/
def oneHost : CookiePlatform where
  parseUrl _ := some ⟨units "https:", units "a.example", units "/"⟩
  toLowerCase t := t.map asciiLower
  parseDate _ := none

/-- A cookie set, taken out and set again has the time it was set again, not the first. -/
theorem setAgain_created : ∃ cookie ∈ jarAfter oneHost
    [⟨units "n=1", [], 1⟩, ⟨units "n=1; Max-Age=0", [], 2⟩, ⟨units "n=1", [], 3⟩],
    Sets oneHost ⟨units "n=1", [], 1⟩ cookie.key ∧ cookie.created ≠ 1 := by
  refine ⟨⟨units "n", units "1", units "a.example", true, units "/", false, false, none, none, 3⟩,
    ?_, ⟨⟨units "n", units "1", units "a.example", true, units "/", false, false, none, none, 1⟩,
      ?_, rfl⟩, by decide⟩
  · decide +kernel
  · decide +kernel

end Wayfarer
