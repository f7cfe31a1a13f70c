import Mathlib.Data.List.Sort
import Wayfarer.Model.Documents

/-!
# A collection file

A file is read, checked (`validateCollection`), put into one order under one identity
(`normalizeExport`) and, where it is taken as a copy, given new ids (`remapIdentifiers`).
`importCollection` does all of it, and says what the import will store.
-/

set_option autoImplicit false

namespace Wayfarer

open Library

/-! ## What is read off a value -/

/-- A number of the language that is not `NaN`. -/
abbrev Numeric : Type := { value : Json // isNumber (some value) = true }

/-- What a check of files uses of the page. -/
structure FilePlatform where
  platform : Platform
  /-- `localeCompare`. -/
  localeCompare : Text → Text → Ordering
  /-- `Number` of a text; nothing where it is `NaN`. -/
  numberOf : Text → Option Numeric

/-- Whether a condition takes a value as true. -/
def truthy : Option Json → Bool
  | none => false
  | some .null => false
  | some (.bool b) => b
  | some (.number n) => n.text ≠ units "0"
  | some (.string t) => t ≠ []
  | some _ => true

/-- A property of a value: nothing where it is not an object. -/
def prop (value : Option Json) (key : Text) : Option Json :=
  field (fieldsOf value) key

/-- A value, or another where it is nothing or `null`. -/
def orElse (value other : Option Json) : Option Json :=
  match value with
  | none => other
  | some .null => other
  | some v => some v

/-! ## Checking -/

/-- A collection, its folders and its requests, as a file has them. -/
structure CollectionExport where
  metaBlock : Fields
  collection : Doc
  folders : List Doc
  requests : List Doc

/-- The format a collection file names. -/
def collectionFormat : Text := units "wayfarer/collection"

/-- The most a file may hold. -/
def maxImportBytes : Nat := 10 * 1024 * 1024

/-- A text that must not be blank. -/
def validateRequiredString (value : Option Json) (path : Text) : List ValidationIssue :=
  match value with
  | some (.string t) =>
      if trim t = [] then [{ path, message := units "Value must be a non-empty string." }] else []
  | _ => [{ path, message := units "Value must be a non-empty string." }]

/-- A text, where there is one. -/
def validateDescription (value : Option Json) (path : Text) : List ValidationIssue :=
  match value with
  | none => []
  | some (.string _) => []
  | some _ => [{ path, message := units "Value must be a string." }]

/-- A number. No number of a file is `NaN`. -/
def validateNumber (value : Option Json) (path : Text) : List ValidationIssue :=
  if isNumber value then [] else [{ path, message := units "Value must be a number." }]

/-- What is noted about a document. -/
def validateMeta (value : Option Json) (path : Text) : List ValidationIssue :=
  let check (m : Fields) : List ValidationIssue :=
    validateRequiredString (field m (units "id")) (Checker.member path (units "id")) ++
      (if isNumber (field m (units "createdAt")) then []
        else [{ path := Checker.member path (units "createdAt"),
                message := units "createdAt must be a number." }]) ++
      if isNumber (field m (units "updatedAt")) then []
      else [{ path := Checker.member path (units "updatedAt"),
              message := units "updatedAt must be a number." }]
  match value with
  | some (.object m) => check m
  -- A list is an object too, one without these members.
  | some (.array _) => check []
  | _ => [{ path, message := units "Meta must be an object." }]

/-- What every document holds: what is noted about it, its id, its name and its description. -/
def validateBase (doc : Option Json) (path : Text) (withCollection : Bool) :
    List ValidationIssue :=
  validateMeta (prop doc (units "meta")) (Checker.member path (units "meta")) ++
    validateRequiredString
      (orElse (prop doc (units "id")) (prop (prop doc (units "meta")) (units "id")))
      (Checker.member path (units "id")) ++
    (if withCollection then
      validateRequiredString (prop doc (units "collectionId"))
        (Checker.member path (units "collectionId"))
    else []) ++
    validateRequiredString (prop doc (units "name")) (Checker.member path (units "name")) ++
    validateDescription (prop doc (units "description"))
      (Checker.member path (units "description"))

/-- A collection. -/
def validateCollectionDoc (F : FilePlatform) (doc : Option Json) (path : Text) :
    List ValidationIssue :=
  validateBase doc path false ++
    validateNumber (prop doc (units "order")) (Checker.member path (units "order")) ++
    validateRows F.platform (prop doc (units "variables"))
      (Checker.member path (units "variables")) ++
    validateInherited F.platform doc path .collection

/-- A folder. -/
def validateFolderDoc (F : FilePlatform) (folder : Option Json) (path : Text) :
    List ValidationIssue :=
  validateBase folder path true ++
    validateNumber (prop folder (units "order")) (Checker.member path (units "order")) ++
    validateInherited F.platform folder path .folder

/-- A request. Its order is not looked at. -/
def validateRequestDoc (F : FilePlatform) (request : Option Json) (path : Text) :
    List ValidationIssue :=
  validateBase request path true ++ validateRequestContent F.platform request path

/-- The items of a list, each checked. -/
def validateItems (value : Option Json) (path missing : Text)
    (check : Option Json → Text → List ValidationIssue) : List ValidationIssue :=
  match value with
  | some (.array items) =>
      items.zipIdx.flatMap fun entry => check (some entry.1) (Checker.item path entry.2)
  | _ => [{ path, message := missing }]

/-- A value that must be there. -/
def validateBlock (value : Option Json) (path missing : Text)
    (check : Option Json → Text → List ValidationIssue) : List ValidationIssue :=
  if truthy value then check value path else [{ path, message := missing }]

/-- Everything that is wrong with a file of this format. -/
def payloadIssues (F : FilePlatform) (payload : Fields) : List ValidationIssue :=
  validateBlock (field payload (units "collection")) (units "collection")
      (units "Missing collection block.") (validateCollectionDoc F) ++
    validateItems (field payload (units "folders")) (units "folders")
      (units "Folders must be an array.") (validateFolderDoc F) ++
    validateItems (field payload (units "requests")) (units "requests")
      (units "Requests must be an array.") (validateRequestDoc F) ++
    validateBlock (field payload (units "meta")) (units "meta")
      (units "Missing export meta block.") validateMeta

/-- The documents of a list. -/
def docsOf : Option Json → List Doc
  | some (.array items) => items.map fun item => fieldsOf (some item)
  | _ => []

/-- The documents of a file. -/
def readExport (payload : Fields) : CollectionExport where
  metaBlock := fieldsOf (field payload (units "meta"))
  collection := fieldsOf (field payload (units "collection"))
  folders := docsOf (field payload (units "folders"))
  requests := docsOf (field payload (units "requests"))

/-- A file that was parsed, checked. -/
def validateCollection (F : FilePlatform) (payload : Option Json) :
    Except (List ValidationIssue) CollectionExport :=
  let check (members : Fields) : Except (List ValidationIssue) CollectionExport :=
    if textOf (field members (units "$id")) = some collectionFormat then
      match payloadIssues F members with
      | [] => .ok (readExport members)
      | issues => .error issues
    -- Nothing else is checked: a file in another format would fail on every field.
    else .error [{ path := units "$id",
                   message := units "Not a Wayfarer collection file: \"$id\" must be \"" ++
                     collectionFormat ++ units "\"." }]
  match payload with
  | some (.object members) => check members
  | some (.array _) => check []
  | _ => .error [{ path := units "root", message := units "Collection export must be an object." }]

/-- The same for a file's text. -/
def validateCollectionText (F : FilePlatform) (input : Text) :
    Except (List ValidationIssue) CollectionExport :=
  if maxImportBytes < input.length then
    .error [{ path := units "root",
              message := units
                "A file to import can be 10 MB at most, and this one is larger." }]
  else validateCollection F (F.platform.parseJson input)

/-! ## One order, one identity -/

/-- The place of a document among others: 0 where it is no number. -/
def orderOf (doc : Doc) : Json :=
  match field doc (units "order") with
  | some (.number n) => .number n
  | some (.infinite negative) => .infinite negative
  | _ => .number ⟨units "0", JsonNumber.marks_zero⟩

/-- How two places compare. -/
def compareOrders : Json → Json → Ordering
  | .number a, .number b => a.compare b
  | .infinite a, .infinite b => if a = b then .eq else if a then .lt else .gt
  | .infinite a, _ => if a then .lt else .gt
  | _, .infinite b => if b then .gt else .lt
  | _, _ => .eq

/-- The id a document goes by: its own, else its key. -/
def givenId (doc : Doc) : Text :=
  (textOf (orElse (field doc (units "id")) (field (Doc.metaFields doc) (units "id")))).getD []

/-- Whether a document may stand before another. -/
def beforeOrSame (F : FilePlatform) (a b : Doc) : Bool :=
  match compareOrders (orderOf a) (orderOf b) with
  | .lt => true
  | .gt => false
  | .eq => F.localeCompare (givenId a) (givenId b) ≠ .gt

/-- Documents by their order, then by their id. -/
def sortByOrder (F : FilePlatform) (docs : List Doc) : List Doc :=
  docs.insertionSort fun a b => beforeOrSame F a b = true

/-- A file with one identity a document and its documents in order. -/
def normalizeExport (F : FilePlatform) (payload : CollectionExport) : CollectionExport :=
  { payload with
    collection := Doc.ensureDocId payload.collection
    folders := sortByOrder F (payload.folders.map Doc.ensureDocId)
    requests := sortByOrder F (payload.requests.map Doc.ensureDocId) }

/-! ## New ids -/

mutual

/-- A value as the name of a property; nothing where it cannot be one. -/
def propertyKey : Json → Option Text
  | .null => some (units "null")
  | .bool b => some (if b then units "true" else units "false")
  | .number n => some n.text
  | .infinite negative => some (if negative then units "-Infinity" else units "Infinity")
  | .string t => some t
  | .array items => (itemKeys items).map (joinWith (units ","))
  -- An object with a `toString` of its own, which is no function, has no text.
  | .object members =>
      if (field members (units "toString")).isSome then none else some (units "[object Object]")

/-- The items of a list as its text has them: nothing of a `null`. -/
def itemKeys : List Json → Option (List Text)
  | [] => some []
  | .null :: items => (itemKeys items).map fun keys => [] :: keys
  | item :: items =>
      match propertyKey item, itemKeys items with
      | some key, some keys => some (key :: keys)
      | _, _ => none

end

/-- A link, to the new id of what it names where that has one. -/
def remapLink (idMap : OrderedMap Text Text) (link : Option Json) : Option (Option Json) :=
  match link with
  | some value =>
      if truthy (some value) then
        (propertyKey value).map fun key => some (((idMap.get? key).map Json.string).getD value)
      else some (some value)
  | none => some none

/-- A document with a link of it set. -/
def withLink (doc : Doc) (key : Text) : Option Json → Doc
  | some value => setField doc key value
  | none => removeField doc key

@[simp]
theorem field_withLink_self (doc : Doc) (key : Text) (value : Option Json) :
    field (withLink doc key value) key = value := by
  cases value with
  | none => exact field_removeField_self doc key
  | some value => exact field_setField_self doc key value

theorem field_withLink_of_ne {doc : Doc} {key key' : Text} {value : Option Json}
    (h : key ≠ key') : field (withLink doc key value) key' = field doc key' := by
  cases value with
  | none => exact field_removeField_of_ne h
  | some value => exact field_setField_of_ne h

theorem collectionId_withLink {doc : Doc} {key : Text} {value : Option Json}
    (h : key ≠ units "collectionId") :
    Doc.collectionId (withLink doc key value) = Doc.collectionId doc := by
  rw [Doc.collectionId, field_withLink_of_ne h, Doc.collectionId]

theorem metaId_withLink {doc : Doc} {key : Text} {link : Option Json} (h : key ≠ units "meta") :
    Doc.metaId (withLink doc key link) = Doc.metaId doc := by
  cases link with
  | none => exact Doc.metaId_removeField h
  | some value => exact Doc.metaId_setField h

/-- A folder or a request under its new id, in the new collection, changed now. -/
def renewed (doc : Doc) (id collectionId : Text) (now : Json) : Doc :=
  Doc.touched
    (Doc.withCollectionId (Doc.withMetaId (setField doc (units "id") (.string id)) id) collectionId)
    now

/-- A folder with its new id and its parent's. -/
def remapFolder (idMap : OrderedMap Text Text) (collectionId : Text) (now : Json) (folder : Doc) :
    Option Doc :=
  (remapLink idMap (field folder (units "parentFolderId"))).map fun parent =>
    withLink (renewed folder ((idMap.get? (givenId folder)).getD []) collectionId now)
      (units "parentFolderId") parent

/-- The requests with new ids, and with their folders': a request's own id is known to the ones
after it. -/
def remapRequests (collectionId : Text) (now : Json) :
    OrderedMap Text Text → List (Doc × Text) → Option (List Doc × OrderedMap Text Text)
  | idMap, [] => some ([], idMap)
  | idMap, (request, id) :: rest =>
      let known := idMap.set (givenId request) id
      match remapLink known (field request (units "folderId")),
          remapRequests collectionId now known rest with
      | some folder, some (requests, all) =>
          some (withLink (renewed request id collectionId now) (units "folderId") folder ::
            requests, all)
      | _, _ => none

/-- The ids of a file's collection and folders, and the new ones. -/
def folderIds (payload : CollectionExport) (newId : Nat → Text) : OrderedMap Text Text :=
  (OrderedMap.empty.set (givenId payload.collection) (newId 0)).setAll
    (payload.folders.zipIdx.map fun entry => (givenId entry.1, newId (entry.2 + 1)))

/-- A file under new ids: `newId` gives the first to the collection, then one to each folder and
one to each request. -/
def remapIdentifiers (payload : CollectionExport) (newId : Nat → Text) (now : Json) :
    Option (CollectionExport × OrderedMap Text Text) :=
  let collectionId := newId 0
  let collection := Doc.touched
    (Doc.withMetaId (setField payload.collection (units "id") (.string collectionId)) collectionId)
    now
  -- Every folder gets its new id before any parent is looked up: a folder may
  -- come before its parent.
  let idMap := folderIds payload newId
  let numbered := payload.requests.zipIdx.map fun entry =>
    (entry.1, newId (entry.2 + payload.folders.length + 1))
  match payload.folders.mapM (remapFolder idMap collectionId now),
      remapRequests collectionId now idMap numbered with
  | some folders, some (requests, idRemap) =>
      some ({ payload with collection, folders, requests }, idRemap)
  | _, _ => none

/-! ## The import -/

/-- What an import does with an entry of its plan. -/
inductive PlanAction where
  | create
  | overwrite

/-- What an entry of a plan is. -/
inductive PlanKind where
  | collection
  | folder
  | request

/-- An entry of what an import will do. -/
structure CollectionImportPlanEntry where
  kind : PlanKind
  name : Text
  id : Text
  action : PlanAction

/-- What an import will store, and what it says of that. -/
structure CollectionImportResult where
  payload : CollectionExport
  plan : List CollectionImportPlanEntry
  /-- How many folders and how many requests. -/
  folderCount : Nat
  requestCount : Nat
  idRemap : Option (OrderedMap Text Text)

/-- The name of a document. -/
def nameOf (doc : Doc) : Text :=
  (textOf (field doc (units "name"))).getD []

/-- What an import will do, entry by entry. -/
def buildPlan (payload : CollectionExport) (duplicate : Bool) : List CollectionImportPlanEntry :=
  let action := if duplicate then PlanAction.create else .overwrite
  let entry (kind : PlanKind) (name : Text) (doc : Doc) : CollectionImportPlanEntry :=
    { kind, name, id := Doc.metaId doc, action }
  entry .collection (nameOf payload.collection) payload.collection ::
    (payload.folders.map fun folder => entry .folder (nameOf folder) folder) ++
    payload.requests.map fun request =>
      entry .request
        (if nameOf request = [] then (textOf (field request (units "url"))).getD []
          else nameOf request)
        request

/-- A checked file as it will be stored; nothing where giving it new ids fails. -/
def importPayload (F : FilePlatform) (newId : Nat → Text) (now : Json) (duplicate : Bool)
    (checked : CollectionExport) : Option CollectionImportResult :=
  let normalized := normalizeExport F checked
  let result (payload : CollectionExport) (idRemap : Option (OrderedMap Text Text)) :
      CollectionImportResult :=
    { payload, plan := buildPlan payload duplicate, folderCount := payload.folders.length,
      requestCount := payload.requests.length, idRemap }
  if duplicate then
    (remapIdentifiers normalized newId now).map fun remapped =>
      result remapped.1 (some remapped.2)
  else some (result normalized none)

/-- A file checked, and made ready to be stored. -/
def importCollection (F : FilePlatform) (newId : Nat → Text) (now : Json) (duplicate : Bool)
    (input : Option Json) : Except (List ValidationIssue) (Option CollectionImportResult) :=
  (validateCollection F input).map (importPayload F newId now duplicate)

end Wayfarer
