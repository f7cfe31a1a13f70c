import Wayfarer.Scripting.Host

/-!
# Checking what a file holds

A file is untrusted: every field of it is checked against what the app itself writes. A check is
given a value of the file and the path it stands at, and gives back what is wrong with it.
-/

set_option autoImplicit false

namespace Wayfarer

open Library

/-- What is wrong with a value, and where it stands. -/
structure ValidationIssue where
  path : Text
  message : Text
  deriving DecidableEq

/-- The members of an object. -/
abbrev Fields := List (Text × Json)

/-- An own field of an object. -/
def field (object : Fields) (key : Text) : Option Json :=
  (object.find? fun member => member.1 = key).map Prod.snd

namespace Checker

/-- The path of a member. -/
def member (path key : Text) : Text :=
  path ++ units "." ++ key

/-- The path of an item. -/
def item (path : Text) (index : Nat) : Text :=
  path ++ units "[" ++ units (toString index) ++ units "]"

/-- A check of an object's members, where the value is one. -/
def object (value : Option Json) (path : Text) (check : Fields → List ValidationIssue) :
    List ValidationIssue :=
  match value with
  | some (.object members) => check members
  | _ => [{ path, message := units "Value must be an object." }]

/-- A member that must be a string. -/
def string (object : Fields) (key path : Text) (optional : Bool := false) :
    List ValidationIssue :=
  match field object key with
  | some (.string _) => []
  | none =>
      if optional then []
      else [{ path := member path key, message := units "Value must be a string." }]
  | some _ => [{ path := member path key, message := units "Value must be a string." }]

/-- A check of every item, where the value is a list of objects. -/
def list (value : Option Json) (path : Text)
    (each : Fields → Text → List ValidationIssue) : List ValidationIssue :=
  match value with
  | some (.array items) =>
      items.zipIdx.flatMap fun entry =>
        object (some entry.1) (item path entry.2) fun members => each members (item path entry.2)
  | _ => [{ path, message := units "Value must be an array." }]

/-- A row says whether it is switched on. -/
def enabled (row : Fields) (path : Text) : List ValidationIssue :=
  match field row (units "enabled") with
  | some (.bool _) => []
  | _ =>
      [{ path := member path (units "enabled"), message := units "Value must be true or false." }]

/-- The mark of a value a script set, on a value that is JSON. -/
def jsonMark (P : Platform) (row : Fields) (path : Text) : List ValidationIssue :=
  match field row (units "json") with
  | none => []
  | some mark =>
      match mark, field row (units "value") with
      | .bool true, some (.string value) =>
          if isJsonText P value then []
          else [{ path := member path (units "json"),
                  message := units "Value must be true, on a value that is JSON." }]
      | _, _ => [{ path := member path (units "json"),
                   message := units "Value must be true, on a value that is JSON." }]

/-- A list of rows. -/
def rows (P : Platform) (value : Option Json) (path : Text) : List ValidationIssue :=
  list value path fun row path =>
    string row (units "key") path ++ string row (units "value") path ++ enabled row path ++
      jsonMark P row path

/-- A member that must be one of some texts. -/
def oneOf (object : Fields) (key path : Text) (allowed : List Text) (optional : Bool := false) :
    List ValidationIssue :=
  let issue : ValidationIssue :=
    { path := member path key,
      message := units "Value must be one of " ++ joinWith (units ", ") allowed ++ units "." }
  match field object key with
  | some (.string value) => if value ∈ allowed then [] else [issue]
  | none => if optional then [] else [issue]
  | some _ => [issue]

/-- A member that says yes or no. -/
def flag (object : Fields) (key path : Text) (optional : Bool := false) : List ValidationIssue :=
  match field object key with
  | some (.bool _) => []
  | none =>
      if optional then []
      else [{ path := member path key, message := units "Value must be true or false." }]
  | some _ => [{ path := member path key, message := units "Value must be true or false." }]

/-- The grants of OAuth 2.0, as they are written. -/
def oauthGrants : List Text :=
  [units "authorization_code", units "client_credentials", units "password"]

/-- The types of auth, as they are written. -/
def authTypes : List Text :=
  [units "inherit", units "none", units "bearer", units "basic", units "apikey", units "awsv4",
    units "oauth2"]

/-- An auth's type, where it is a text. -/
def authType (auth : Fields) : Option Text :=
  match field auth (units "type") with
  | some (.string type) => some type
  | _ => none

/-- What an auth holds beside its type, by the type. -/
def authParts (auth : Fields) (path : Text) : List ValidationIssue :=
  match authType auth with
  | none => []
  | some type =>
      if type = units "bearer" then string auth (units "token") path
      else if type = units "basic" then
        string auth (units "username") path ++ string auth (units "password") path
      else if type = units "apikey" then
        string auth (units "key") path ++ string auth (units "value") path ++
          oneOf auth (units "in") path [units "header", units "query"]
      else if type = units "awsv4" then
        [units "accessKey", units "secretKey", units "sessionToken", units "region",
          units "service"].flatMap fun key => string auth key path
      else if type = units "oauth2" then
        oneOf auth (units "grant") path oauthGrants ++
          ([units "authUrl", units "tokenUrl", units "clientId", units "clientSecret",
            units "scope", units "username", units "password"].flatMap fun key =>
              string auth key path) ++
          oneOf auth (units "clientAuth") path [units "header", units "body"] ++
          flag auth (units "retryOn401") path
      else []

/-- An auth. `inherit` is for a request and a folder: a collection has nothing above it. -/
def auth (value : Option Json) (path : Text) (inherit : Bool) : List ValidationIssue :=
  object value path fun auth =>
    oneOf auth (units "type") path
        (if inherit then authTypes else authTypes.filter fun type => type ≠ units "inherit") ++
      authParts auth path

/-- The two scripts of a holder. -/
def scripts (value : Option Json) (path : Text) : List ValidationIssue :=
  object value path fun scripts =>
    string scripts (units "pre") path ++ string scripts (units "post") path

/-- The name of a kept file. -/
def fileRef (object : Fields) (path : Text) : List ValidationIssue :=
  string object (units "fileId") path ++ string object (units "fileName") path

/-- The routes a holder may name. -/
def routes : List Text :=
  [units "auto", units "direct", units "bridge"]

end Checker

/-- Checks that a value is a list of rows with string keys and values. -/
def validateRows (P : Platform) (value : Option Json) (path : Text) : List ValidationIssue :=
  Checker.rows P value path

/-- What holds something for the requests in it. -/
inductive HolderKind where
  | collection
  | folder
  deriving DecidableEq

/-- Checks what a collection or a folder holds for the requests in it. -/
def validateInherited (P : Platform) (value : Option Json) (path : Text) (kind : HolderKind) :
    List ValidationIssue :=
  Checker.object value path fun node =>
    Checker.auth (field node (units "auth")) (Checker.member path (units "auth"))
        (kind = .folder) ++
      Checker.scripts (field node (units "scripts")) (Checker.member path (units "scripts")) ++
      match kind with
      | .folder =>
          Checker.rows P (field node (units "variables")) (Checker.member path (units "variables"))
      | .collection => Checker.oneOf node (units "route") path Checker.routes true

/-! ## A request's content -/

/-- The letters of a method. -/
def methodMarks : Text :=
  units "!#$%&'*+-.^_`|~0123456789ABCDEFGHIJKLMNOPQRSTUVWXYZ"

/-- Whether a text is an HTTP method as the app stores one. -/
def isHttpMethod (t : Text) : Bool :=
  1 ≤ t.length && t.length ≤ 32 && t.all methodMarks.contains

namespace Content

open Checker

/-- The method, and the address. -/
def opening (request : Fields) (path : Text) : List ValidationIssue :=
  (match field request (units "method") with
    | some (.string method) =>
        if isHttpMethod method then []
        else [{ path := member path (units "method"), message := units ("Value must be an HTTP " ++
                  "method: one word of at most 32 characters, in upper case.") }]
    | _ => [{ path := member path (units "method"), message := units ("Value must be an HTTP " ++
                "method: one word of at most 32 characters, in upper case.") }]) ++
    match field request (units "url") with
    | some (.string url) =>
        if trim url = [] then
          [{ path := member path (units "url"),
             message := units "Value must be a non-empty string." }]
        else []
    | _ => [{ path := member path (units "url"),
              message := units "Value must be a non-empty string." }]

/-- A part of the body: checked when it is there, and there when it is the one sent. -/
def part (body : Fields) (name : Text) (check : Option Json → List ValidationIssue) :
    List ValidationIssue :=
  match field body name, field body (units "mode") with
  | none, some (.string mode) => if mode = name then check none else []
  | none, _ => []
  | some value, _ => check (some value)

/-- The modes of a body. -/
def bodyModes : List Text :=
  [units "none", units "raw", units "urlencoded", units "multipart", units "binary",
    units "graphql"]

/-- The languages of a raw body. -/
def rawLanguages : List Text :=
  [units "json", units "text", units "xml", units "html", units "javascript"]

/-- A part of a multipart form. -/
def multipartItem (item : Fields) (path : Text) : List ValidationIssue :=
  let kind : Option Text :=
    match field item (units "kind") with
    | some (.string kind) => some kind
    | _ => none
  string item (units "key") path ++ enabled item path ++
    oneOf item (units "kind") path [units "text", units "file"] ++
    (if kind = some (units "text") then string item (units "value") path else []) ++
    if kind = some (units "file") then fileRef item path else []

/-- The body, every part of it. -/
def body (P : Platform) (body : Fields) (path : Text) : List ValidationIssue :=
  oneOf body (units "mode") path bodyModes ++
    part body (units "raw") (fun value =>
      object value (member path (units "raw")) fun raw =>
        oneOf raw (units "language") (member path (units "raw")) rawLanguages ++
          string raw (units "text") (member path (units "raw"))) ++
    part body (units "urlencoded") (fun value =>
      rows P value (member path (units "urlencoded"))) ++
    part body (units "multipart") (fun value =>
      list value (member path (units "multipart")) multipartItem) ++
    part body (units "graphql") (fun value =>
      object value (member path (units "graphql")) fun graphql =>
        string graphql (units "query") (member path (units "graphql")) ++
          string graphql (units "variables") (member path (units "graphql"))) ++
    -- A binary body with no file chosen yet has no `binary`.
    match field body (units "binary") with
    | none => []
    | some value =>
        object (some value) (member path (units "binary")) fun binary =>
          fileRef binary (member path (units "binary")) ++
            string binary (units "contentType") (member path (units "binary")) true

/-- What an assertion looks at. -/
def assertionTargets : List Text :=
  [units "status", units "body", units "header", units "duration"]

/-- How an assertion compares. -/
def assertionOperators : List Text :=
  [units "equals", units "not-equals", units "contains", units "not-contains", units "exists",
    units "not-exists", units "is-array", units "is-object", units "less-than",
    units "greater-than"]

/-- An assertion. -/
def test (test : Fields) (path : Text) : List ValidationIssue :=
  string test (units "id") path ++ oneOf test (units "target") path assertionTargets ++
    oneOf test (units "operator") path assertionOperators ++
    string test (units "key") path true ++ string test (units "expected") path true

/-- A time limit: a finite number, 0 or more. -/
def timeout (settings : Fields) (path : Text) : List ValidationIssue :=
  match field settings (units "timeoutMs") with
  | none => []
  | some (.number n) =>
      if n.text.head? = some 0x2D then
        [{ path := member path (units "timeoutMs"),
           message := units "Value must be a number, 0 or more." }]
      else []
  | some _ => [{ path := member path (units "timeoutMs"),
                 message := units "Value must be a number, 0 or more." }]

/-- A request's own settings. -/
def settings (settings : Fields) (path : Text) : List ValidationIssue :=
  timeout settings path ++ flag settings (units "followRedirects") path true ++
    oneOf settings (units "route") path routes true ++
    flag settings (units "tlsInsecure") path true

end Content

/-- Checks the request fields of an imported document against what the app itself writes. -/
def validateRequestContent (P : Platform) (value : Option Json) (path : Text) :
    List ValidationIssue :=
  Checker.object value path fun request =>
    let at' (key : Text) : Text := Checker.member path key
    Content.opening request path ++
      Checker.rows P (field request (units "params")) (at' (units "params")) ++
      Checker.rows P (field request (units "headers")) (at' (units "headers")) ++
      Checker.object (field request (units "body")) (at' (units "body")) (fun body =>
        Content.body P body (at' (units "body"))) ++
      Checker.auth (field request (units "auth")) (at' (units "auth")) true ++
      Checker.scripts (field request (units "scripts")) (at' (units "scripts")) ++
      Checker.list (field request (units "tests")) (at' (units "tests")) Content.test ++
      Checker.object (field request (units "settings")) (at' (units "settings")) fun settings =>
        Content.settings settings (at' (units "settings"))

/-! ## What the app writes -/

/-- A row as it is written. -/
def rowJson (row : Row) : Json :=
  .object ([(units "key", .string row.key), (units "value", .string row.value),
    (units "enabled", .bool row.enabled)] ++
      if row.json then [(units "json", .bool true)] else [])

/-- Rows as they are written. -/
def rowsJson (rows : List Row) : Json :=
  .array (rows.map rowJson)

/-- Every row that is marked holds JSON. -/
def JsonRows (P : Platform) (rows : List Row) : Prop :=
  ∀ row ∈ rows, row.json = true → isJsonText P row.value = true

/-- A list's items pass their check when the list does. -/
theorem Checker.list_eq_nil_iff {items : List Json} {path : Text}
    {each : Fields → Text → List ValidationIssue} :
    Checker.list (some (.array items)) path each = [] ↔
      ∀ entry ∈ items.zipIdx, Checker.object (some entry.1) (Checker.item path entry.2)
        (fun members => each members (Checker.item path entry.2)) = [] := by
  simp [Checker.list, List.flatMap_eq_nil_iff]

/-- The check of a row refuses exactly a mark on what is not JSON. -/
theorem Checker.row_eq_nil_iff {P : Platform} {row : Row} {path : Text} :
    Checker.object (some (rowJson row)) path (fun members =>
        Checker.string members (units "key") path ++ Checker.string members (units "value") path ++
          Checker.enabled members path ++ Checker.jsonMark P members path) = [] ↔
      (row.json = true → isJsonText P row.value = true) := by
  obtain ⟨key, value, enabled, json⟩ := row
  cases json with
  | false =>
      refine ⟨fun _ h => absurd h Bool.false_ne_true, fun _ => rfl⟩
  | true =>
      have hmark : Checker.object (some (rowJson ⟨key, value, enabled, true⟩)) path
          (fun members =>
            Checker.string members (units "key") path ++
              Checker.string members (units "value") path ++ Checker.enabled members path ++
                Checker.jsonMark P members path) =
          if isJsonText P value then []
          else [{ path := Checker.member path (units "json"),
                  message := units "Value must be true, on a value that is JSON." }] := rfl
      rw [hmark]
      split_ifs with hjson
      · simp [hjson]
      · simp [hjson]

/-- The check of rows accepts those whose every mark is on JSON. -/
theorem validateRows_eq_nil_iff {P : Platform} {rows : List Row} {path : Text} :
    validateRows P (some (rowsJson rows)) path = [] ↔ JsonRows P rows := by
  unfold validateRows Checker.rows rowsJson
  rw [Checker.list_eq_nil_iff]
  constructor
  · intro h row hmem
    obtain ⟨index, hindex⟩ := List.mem_iff_getElem?.mp hmem
    have hentry : (rowJson row, index) ∈ (rows.map rowJson).zipIdx := by
      rw [List.mk_mem_zipIdx_iff_getElem?, List.getElem?_map, hindex]
      rfl
    exact Checker.row_eq_nil_iff.mp (h _ hentry)
  · intro h entry hentry
    obtain ⟨row, hmem, hrow⟩ := List.mem_map.mp (List.fst_mem_of_mem_zipIdx hentry)
    rw [← hrow]
    exact Checker.row_eq_nil_iff.mpr (h row hmem)

end Wayfarer
