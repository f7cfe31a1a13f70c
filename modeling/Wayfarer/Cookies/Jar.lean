import Wayfarer.Send.Build

/-!
# The cookie jar

The cookies of requests that leave through the Local Bridge. `withJarCookies` puts those that the
jar gives for an address into a request's headers: into the `Cookie` header the request has, or
into one of its own.
-/

set_option autoImplicit false

namespace Wayfarer

open Library

/-- Whether a cookie goes along with a request from another site, as the server said it. -/
inductive SameSite where
  | strict
  | lax
  | none
  deriving DecidableEq

/-- A cookie of the jar. -/
structure Cookie where
  name : Text
  value : Text
  /-- Lower case, without a leading dot. -/
  domain : Text
  /-- Set without a `Domain`: sent to that host alone, not to what is under it. -/
  hostOnly : Bool
  path : Text
  secure : Bool
  httpOnly : Bool
  sameSite : Option SameSite := none
  /-- Milliseconds since 1970. Absent for a session cookie. -/
  expires : Option Int := none
  /-- When the cookie of this name, domain and path was first set. -/
  created : Int
  deriving DecidableEq

/-- The value of the header that sends cookies. -/
def cookieHeader (cookies : List Cookie) : Text :=
  joinWith (units "; ") (cookies.map fun cookie => cookie.name ++ units "=" ++ cookie.value)

/-- The name of the header that sends cookies. -/
def cookieName : Text := units "Cookie"

/-- A header of this name, in lower case. -/
def isNamed (P : Platform) (name : Text) (header : Text × Text) : Bool :=
  P.toLowerCase header.1 = name

/-- The names of the cookies that a `Cookie` header holds. -/
def ownCookies (value : Text) : List Text :=
  (splitOn 0x3B value).map fun pair => trim (cutAt 0x3D pair).1

/-- The headers with the jar's cookies in the `Cookie` header. A cookie that the request names
itself is the request's: the jar's of that name is left out. -/
def withJarCookies (P : Platform) (headers : List (Text × Text)) (cookies : List Cookie) :
    List (Text × Text) :=
  match headers.findIdx? (isNamed P (units "cookie")) with
  | none =>
      if cookies ≠ [] then headers ++ [(cookieName, cookieHeader cookies)] else headers
  | some at' =>
      let own := ((headers[at']?).map fun header => ownCookies header.2).getD []
      let added := cookies.filter fun cookie => !own.contains cookie.name
      if added = [] then headers
      else headers.modify at' fun header =>
        (header.1, header.2 ++ units "; " ++ cookieHeader added)

/-- The jar's cookies change no header's name, and add one of their own where there was none. -/
theorem names_withJarCookies (P : Platform) (headers : List (Text × Text)) (cookies : List Cookie) :
    (withJarCookies P headers cookies).map Prod.fst = headers.map Prod.fst ∨
      (withJarCookies P headers cookies).map Prod.fst = headers.map Prod.fst ++ [cookieName] := by
  unfold withJarCookies
  dsimp only
  split
  · split_ifs
    · exact Or.inr (by simp)
    · exact Or.inl rfl
  · split_ifs
    · exact Or.inl rfl
    · refine Or.inl (List.ext_getElem? fun i => ?_)
      simp only [List.getElem?_map, List.getElem?_modify]
      split_ifs <;> cases headers[i]? <;> rfl

/-- A request with no `Cookie` header of its own has the jar's, or none. -/
theorem mem_withJarCookies {P : Platform} {headers : List (Text × Text)} {cookies : List Cookie}
    (hown : ∀ header ∈ headers, isNamed P (units "cookie") header = false)
    {header : Text × Text} (h : header ∈ withJarCookies P headers cookies) :
    header ∈ headers ∨ header = (cookieName, cookieHeader cookies) := by
  have hnone : headers.findIdx? (isNamed P (units "cookie")) = none :=
    List.findIdx?_eq_none_iff.mpr hown
  simp only [withJarCookies, hnone] at h
  split_ifs at h
  · simpa using h
  · exact Or.inl h

end Wayfarer
