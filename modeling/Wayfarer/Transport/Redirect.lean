import Wayfarer.Cookies.Jar
import Wayfarer.Library.Chain
import Wayfarer.Transport.Fetch

/-!
# The request a redirect asks for

`nextHop` makes the next request of a chain of redirects, as a browser would make it: 303 makes a
GET of anything but GET and HEAD, 301 and 302 of a POST, 307 and 308 repeat the request; a hop to
another origin goes without `Authorization` and `Cookie`.

`nextHop_spec` says all that it can do. What follows from it is stated as relations of one request
to a later one (`SameHost`, `KeepsOwn`, `KeepsBare`), each of which is transitive.
-/

set_option autoImplicit false

namespace Wayfarer

open Library

/-- What the page's platform gives for following redirects. -/
structure LinkPlatform where
  platform : Platform
  /-- `URL.parse` of an address against another: what it reads, and how it is written back. -/
  parseAgainst : Text → Text → Option (UrlRecord × Text)
  /-- A form as `Response` writes it: its bytes and the type that names the boundary. -/
  writeForm : List (Text × FormValue) → List Nat × Option Text

/-- What the platform is relied on for: an address that is written back reads the same, and an
ASCII name is lowered letter by letter. -/
structure LinkPlatform.Lawful (L : LinkPlatform) : Prop where
  href : ∀ location base target href, L.parseAgainst location base = some (target, href) →
    ∃ again, L.platform.parseUrl href = some again ∧ again.host = target.host ∧
      again.origin = target.origin ∧ again.protocol = target.protocol
  lower : ∀ name : Text, (∀ c ∈ name, c.toNat < 0x80) →
    L.platform.toLowerCase name = name.map asciiLower

/-! ## The next hop -/

/-- The statuses of a redirect. -/
def redirectStatuses : List Nat := [301, 302, 303, 307, 308]

/-- Not sent on to another origin: they were written for the first one. -/
def otherOriginDropped : List Text := [units "authorization", units "cookie"]

/-- Gone with the body when a redirect turns the request into a GET. -/
def bodyHeaders : List Text :=
  [units "content-type", units "content-length", units "content-encoding",
    units "content-language", units "content-location"]

/-- What follows a redirect: a request, or why there is none. -/
inductive NextHop where
  | request (request : TransportRequest)
  | stopped (why : RedirectStop)

/-- A redirect of this status makes a GET of a request of this method. -/
def turnsToGet (status : Nat) (method : Text) : Bool :=
  (status = 303 && method ≠ units "GET" && method ≠ units "HEAD") ||
    ((status = 301 || status = 302) && method = units "POST")

/-- The request a redirect asks for. `none` for a response that is no redirect. -/
def nextHop (L : LinkPlatform) (request : TransportRequest) (status : Nat)
    (location : Option Text) (stayOnHost : Bool) : Option NextHop :=
  match location with
  | none => none
  | some location =>
      if redirectStatuses.contains status = false then none
      else
        match L.platform.parseUrl request.url, L.parseAgainst location request.url with
        | some from', some (target, href) =>
            if target.protocol ≠ units "http:" ∧ target.protocol ≠ units "https:" then
              some (.stopped .location)
            else if stayOnHost ∧ (from'.host ≠ target.host ∨
                (from'.protocol = units "https:" ∧ target.protocol = units "http:")) then
              some (.stopped .otherHost)
            else
              let toGet := turnsToGet status request.method
              let dropped := fun (name : Text) =>
                (toGet && bodyHeaders.contains name) ||
                  (from'.origin ≠ target.origin && otherOriginDropped.contains name)
              some (.request
                { method := if toGet then units "GET" else request.method
                  url := href
                  headers := request.headers.filter fun header =>
                    !dropped (L.platform.toLowerCase header.1)
                  body := if toGet then none else request.body })
        | _, _ => some (.stopped .location)

/-- All that a hop that is followed can be. -/
theorem nextHop_spec {L : LinkPlatform} {a b : TransportRequest} {status : Nat}
    {location : Option Text} {stayOnHost : Bool}
    (h : nextHop L a status location stayOnHost = some (.request b)) :
    ∃ text from' target, L.platform.parseUrl a.url = some from' ∧
      L.parseAgainst text a.url = some (target, b.url) ∧
      (stayOnHost = true → from'.host = target.host ∧
        ¬(from'.protocol = units "https:" ∧ target.protocol = units "http:")) ∧
      b.method = (if turnsToGet status a.method then units "GET" else a.method) ∧
      b.body = (if turnsToGet status a.method then none else a.body) ∧
      b.headers = a.headers.filter fun header =>
        !((turnsToGet status a.method && bodyHeaders.contains (L.platform.toLowerCase header.1)) ||
          (from'.origin ≠ target.origin &&
            otherOriginDropped.contains (L.platform.toLowerCase header.1))) := by
  unfold nextHop at h
  split at h
  · cases h
  · next text =>
      split_ifs at h with hstatus
      split at h
      · next from' target href hfrom hto =>
          split_ifs at h with hscheme hstay
          · cases h
          · cases h
          · cases h
            refine ⟨text, from', target, hfrom, hto, fun hon => ?_, rfl, rfl, rfl⟩
            simp only [hon, true_and, not_or, not_not] at hstay
            exact hstay
      · cases h

/-! ## What a hop keeps of the one before -/

/-- The host of an address. -/
def LinkPlatform.hostOf (L : LinkPlatform) (url : Text) : Option Text :=
  (L.platform.parseUrl url).map UrlRecord.host

/-- Whom an address belongs to. -/
def LinkPlatform.originOf (L : LinkPlatform) (url : Text) : Option Text :=
  (L.platform.parseUrl url).map UrlRecord.origin

/-- The scheme of an address. -/
def LinkPlatform.protocolOf (L : LinkPlatform) (url : Text) : Option Text :=
  (L.platform.parseUrl url).map UrlRecord.protocol

/-- One request is followed by another. -/
def Follows (L : LinkPlatform) (stayOnHost : Bool) (a b : TransportRequest) : Prop :=
  ∃ status location, nextHop L a status location stayOnHost = some (.request b)

/-- The two go to the same host. -/
def SameHost (L : LinkPlatform) (a b : TransportRequest) : Prop :=
  L.hostOf a.url = L.hostOf b.url

/-- The one is not sent with TLS and the other without. -/
def KeepsTls (L : LinkPlatform) (a b : TransportRequest) : Prop :=
  ¬(L.protocolOf a.url = some (units "https:") ∧ L.protocolOf b.url = some (units "http:"))

/-- A request carries credentials of its own. -/
def Own (L : LinkPlatform) (a : TransportRequest) : Prop :=
  ∃ header ∈ a.headers, L.platform.toLowerCase header.1 ∈ otherOriginDropped

/-- The later request carries credentials only where the earlier did, and on its origin. -/
def KeepsOwn (L : LinkPlatform) (a b : TransportRequest) : Prop :=
  Own L b → Own L a ∧ L.originOf a.url = L.originOf b.url

/-- A GET with no body and no header of one. -/
def Bare (L : LinkPlatform) (a : TransportRequest) : Prop :=
  a.method = units "GET" ∧ a.body = none ∧
    ∀ header ∈ a.headers, L.platform.toLowerCase header.1 ∉ bodyHeaders

/-- A GET stays one; a request that became one is bare, and stays so. -/
def KeepsBare (L : LinkPlatform) (a b : TransportRequest) : Prop :=
  (a.method = units "GET" → b.method = units "GET") ∧
    (a.method ≠ units "GET" → b.method = units "GET" → Bare L b) ∧ (Bare L a → Bare L b)

section Follows

variable {L : LinkPlatform} {stayOnHost : Bool} {a b c : TransportRequest}

theorem Follows.sameHost (hlaw : L.Lawful) (h : Follows L true a b) : SameHost L a b := by
  obtain ⟨_, _, h⟩ := h
  obtain ⟨_, from', target, hfrom, hto, hstay, -, -, -⟩ := nextHop_spec h
  obtain ⟨again, hagain, hhost, -, -⟩ := hlaw.href _ _ _ _ hto
  simp [SameHost, LinkPlatform.hostOf, hfrom, hagain, hhost, (hstay rfl).1]

theorem Follows.keepsTls (hlaw : L.Lawful) (h : Follows L true a b) : KeepsTls L a b := by
  obtain ⟨_, _, h⟩ := h
  obtain ⟨_, from', target, hfrom, hto, hstay, -, -, -⟩ := nextHop_spec h
  obtain ⟨again, hagain, -, -, hprotocol⟩ := hlaw.href _ _ _ _ hto
  simpa [KeepsTls, LinkPlatform.protocolOf, hfrom, hagain, hprotocol] using (hstay rfl).2

/-- Credentials are on the hop only where they were, and where the origin is the same. -/
theorem Follows.keepsOwn (hlaw : L.Lawful) (h : Follows L stayOnHost a b) : KeepsOwn L a b := by
  rintro ⟨header, hmem, hname⟩
  obtain ⟨_, _, h⟩ := h
  obtain ⟨_, from', target, hfrom, hto, -, -, -, hheaders⟩ := nextHop_spec h
  obtain ⟨again, hagain, -, horigin, -⟩ := hlaw.href _ _ _ _ hto
  rw [hheaders, List.mem_filter] at hmem
  refine ⟨⟨header, hmem.1, hname⟩, ?_⟩
  have hkept := hmem.2
  simp only [List.contains_iff_mem.mpr hname, Bool.and_true, Bool.not_eq_eq_eq_not, Bool.not_true,
    Bool.or_eq_false_iff, decide_eq_false_iff_not, not_not] at hkept
  simp [LinkPlatform.originOf, hfrom, hagain, horigin, hkept.2]

theorem turnsToGet_get (status : Nat) : turnsToGet status (units "GET") = false := by
  have hpost : units "GET" ≠ units "POST" := by decide
  simp [turnsToGet, hpost]

theorem Follows.keepsBare (h : Follows L stayOnHost a b) : KeepsBare L a b := by
  obtain ⟨status, _, h⟩ := h
  obtain ⟨_, from', target, -, -, -, hmethod, hbody, hheaders⟩ := nextHop_spec h
  refine ⟨fun hget => ?_, fun hnot hget => ?_, fun hbare => ?_⟩
  · rw [hmethod, hget]
    exact ite_self _
  · have hturns : turnsToGet status a.method = true := by
      by_contra hturns
      rw [hmethod, if_neg hturns] at hget
      exact hnot hget
    rw [hturns] at hbody hheaders
    refine ⟨hget, hbody, fun header hmem hname => ?_⟩
    rw [hheaders, List.mem_filter] at hmem
    simp [hname] at hmem
  · obtain ⟨hget, hnone, hnames⟩ := hbare
    rw [hget, turnsToGet_get] at hmethod hbody
    refine ⟨hmethod, hbody.trans hnone, fun header hmem => ?_⟩
    rw [hheaders, List.mem_filter] at hmem
    exact hnames header hmem.1

theorem SameHost.trans (hab : SameHost L a b) (hbc : SameHost L b c) : SameHost L a c :=
  Eq.trans hab hbc

theorem KeepsOwn.trans (hab : KeepsOwn L a b) (hbc : KeepsOwn L b c) : KeepsOwn L a c := by
  intro hown
  obtain ⟨hownB, hsameBc⟩ := hbc hown
  obtain ⟨hownA, hsameAb⟩ := hab hownB
  exact ⟨hownA, hsameAb.trans hsameBc⟩

theorem KeepsBare.trans (hab : KeepsBare L a b) (hbc : KeepsBare L b c) : KeepsBare L a c := by
  refine ⟨fun hget => hbc.1 (hab.1 hget), fun hnot hget => ?_, fun hbare => hbc.2.2 (hab.2.2 hbare)⟩
  by_cases hgetB : b.method = units "GET"
  · exact hbc.2.2 (hab.2.1 hnot hgetB)
  · exact hbc.2.1 hgetB hget

end Follows

end Wayfarer
