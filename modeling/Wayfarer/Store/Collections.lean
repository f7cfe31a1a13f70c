import Wayfarer.Import.CollectionFile
import Wayfarer.Library.Forest
import Wayfarer.Library.Table

/-!
# The stores of collections, folders and requests

Three tables of documents, each under the id noted in it, and the transactions on them. A
transaction that throws is rolled back: it is nothing here. `Moment` is what a transaction takes
from the page: the time, new ids, and the place after the last one.
-/

set_option autoImplicit false

namespace Wayfarer

open Library

/-- A store of documents. -/
abbrev DocTable := Table Doc.metaId

/-- The three stores. -/
structure CollectionStores where
  collections : DocTable := .empty
  folders : DocTable := .empty
  requests : DocTable := .empty

/-- What a transaction took out, as it was stored. -/
structure Removed where
  collections : List Doc := []
  folders : List Doc := []
  requests : List Doc := []

/-- What a transaction takes from the page. -/
structure Moment where
  now : Json
  /-- The ids it is given, one after the other. -/
  newId : Nat → Text
  /-- An id is not blank. -/
  nonblank : ∀ i, newId i ≠ []
  /-- The place after the last. -/
  place : Json

/-! ## Documents as transactions write them -/

/-- What is noted about a new document. -/
def Moment.createMeta (m : Moment) (id : Text) : Json :=
  .object [(units "id", .string id), (units "createdAt", m.now), (units "updatedAt", m.now)]

/-- A document that names itself, by its key unless it does. -/
def ensureId (doc : Doc) : Doc :=
  if truthy (field doc (units "id")) then doc else Doc.ensureDocId doc

/-- Members that are there. -/
def members (fields : List (Text × Option Json)) : Fields :=
  fields.filterMap fun member => member.2.map fun value => (member.1, value)

/-- A text, trimmed, unless it is blank. -/
def trimmedText (t : Text) : Option Json :=
  if trim t = [] then none else some (.string (trim t))

/-- A copy of a document under a new id. -/
def Moment.copy (m : Moment) (id : Text) (doc : Doc) : Doc :=
  setField (setField doc (units "id") (.string id)) (units "meta") (m.createMeta id)

/-- The link of a folder to its parent. -/
def parentOf (folder : Doc) : Option Text :=
  textOf (field folder (units "parentFolderId"))

/-- The link of a request to its folder. -/
def folderOf (request : Doc) : Option Text :=
  textOf (field request (units "folderId"))

namespace CollectionStores

variable (stores : CollectionStores) (m : Moment)

/-- The documents of a collection. -/
def ofCollection (table : DocTable) (id : Text) : List Doc :=
  table.getAll fun doc => Doc.collectionId doc = id

/-- The folders in a folder. -/
def foldersIn (parent : Text) : List Doc :=
  stores.folders.getAll fun folder => parentOf folder = some parent

/-- The requests in a folder. -/
def requestsIn (folder : Text) : List Doc :=
  stores.requests.getAll fun request => folderOf request = some folder

/-- The folders inside a folder, at every depth, each after its parent. -/
def subtree (id : Text) : List Doc :=
  foundInside stores.foldersIn Doc.metaId (stores.folders.rows.length + 1) id

/-! ## Making -/

/-- A new collection. -/
def createCollection (name : Text) (description : Option Text) : Option CollectionStores :=
  let id := m.newId 0
  let doc := members [(units "id", some (.string id)), (units "meta", some (m.createMeta id)),
    (units "name", some (.string (trim name))), (units "description", description.bind trimmedText),
    (units "order", some m.place), (units "variables", some (.array [])),
    (units "auth", some (.object [(units "type", .string (units "none"))])),
    (units "scripts", some (.object [(units "pre", .string []), (units "post", .string [])])),
    (units "scriptTrust", some (.object [(units "trusted", .bool true)]))]
  (stores.collections.add doc).map fun collections => { stores with collections }

/-- A new folder. -/
def createFolder (collectionId name : Text) (parentFolderId : Option Text) (order : Option Json) :
    Option CollectionStores :=
  let id := m.newId 0
  let doc := members [(units "id", some (.string id)), (units "meta", some (m.createMeta id)),
    (units "collectionId", some (.string collectionId)),
    (units "parentFolderId", parentFolderId.map .string),
    (units "name", some (.string (trim name))), (units "order", some (order.getD m.place)),
    (units "variables", some (.array [])),
    (units "auth", some (.object [(units "type", .string (units "inherit"))])),
    (units "scripts", some (.object [(units "pre", .string []), (units "post", .string [])]))]
  (stores.folders.add doc).map fun folders => { stores with folders }

/-- A new request: what it holds is `content`, its place beside it. -/
def createRequest (content : Fields) (collectionId name : Text) (folderId : Option Text)
    (order : Option Json) : Option CollectionStores :=
  let id := m.newId 0
  let placed := withLink (setField content (units "collectionId") (.string collectionId))
    (units "folderId") (folderId.map .string)
  let doc := setField (setField (m.copy id placed) (units "name") (.string (trim name)))
    (units "order") (order.getD m.place)
  (stores.requests.add doc).map fun requests => { stores with requests }

/-! ## Changing -/

/-- A document of a table changed, and noted as changed now; nothing happens where it is gone. -/
def change (table : DocTable) (id : Text) (next : Doc → Doc) : DocTable :=
  match table.get? id with
  | none => table
  | some doc => table.put (Doc.touched (next doc) m.now)

/-- A collection's name and description, those that are given. -/
def renameCollection (id : Text) (name : Option Text) (description : Option Text) :
    CollectionStores :=
  { stores with
    collections := change m stores.collections id fun doc =>
      let named := match name with
        | none => doc
        | some name => setField doc (units "name") (.string (trim name))
      ensureId <| match description with
        | none => named
        | some description => withLink named (units "description") (trimmedText description) }

/-- A folder's name. -/
def renameFolder (id name : Text) : CollectionStores :=
  { stores with
    folders := change m stores.folders id fun doc =>
      ensureId (setField doc (units "name") (.string (trim name))) }

/-- A request's name. -/
def renameRequest (id name : Text) : CollectionStores :=
  { stores with
    requests := change m stores.requests id fun doc =>
      ensureId (setField doc (units "name") (.string (trim name))) }

/-- The new places of collections. -/
def reorderCollections (order : List (Text × Json)) : CollectionStores :=
  { stores with
    collections := order.foldl (fun table entry =>
      change m table entry.1 fun doc => setField doc (units "order") entry.2) stores.collections }

/-- The new place of a parent's folder or request. -/
def reorderChild (entry : Text × Json) : CollectionStores :=
  let placed (doc : Doc) : Doc := setField doc (units "order") entry.2
  match stores.folders.get? entry.1 with
  | some _ => { stores with folders := change m stores.folders entry.1 placed }
  | none => { stores with requests := change m stores.requests entry.1 placed }

/-- The new places of a parent's folders and requests. -/
def reorderChildren (order : List (Text × Json)) : CollectionStores :=
  order.foldl (fun stores entry => stores.reorderChild m entry) stores

/-! ## Copying -/

/-- A name for a copy. -/
def copyName (doc : Doc) : Json :=
  .string (nameOf doc ++ units " copy")

/-- Documents added one after the other. -/
def addAll (table : DocTable) (docs : List Doc) : Option DocTable :=
  docs.foldlM Table.add table

/-- The id a folder's copy gets, by the folder's. -/
def copyIds (m : Moment) (sourceFolders : List Doc) : OrderedMap Text Text :=
  OrderedMap.ofPairs (sourceFolders.zipIdx.map fun entry =>
    (Doc.metaId entry.1, m.newId (entry.2 + 1)))

/-- The copy of a folder, as a copy of its collection has it. -/
def folderCopy (m : Moment) (newC : Text) (ids : OrderedMap Text Text) (entry : Doc × Nat) : Doc :=
  let clone := Doc.withCollectionId (m.copy (m.newId (entry.2 + 1)) entry.1) newC
  -- A link to a folder that was not copied is left out.
  if truthy (field clone (units "parentFolderId")) then
    withLink clone (units "parentFolderId") (((parentOf clone).bind ids.get?).map .string)
  else clone

/-- The copy of a request, as a copy of its collection has it. -/
def requestCopy (m : Moment) (newC : Text) (taken : Nat) (ids : OrderedMap Text Text)
    (entry : Doc × Nat) : Doc :=
  withLink (Doc.withCollectionId (m.copy (m.newId (entry.2 + taken + 1)) entry.1) newC)
    (units "folderId")
    (if truthy (field entry.1 (units "folderId")) then
      ((folderOf entry.1).bind ids.get?).map .string
    else none)

/-- A copy of a collection with everything in it. -/
def duplicateCollection (id : Text) : Option CollectionStores :=
  match stores.collections.get? id with
  | none => some stores
  | some original =>
      let newId := m.newId 0
      let duplicate :=
        setField (setField (m.copy newId original) (units "name") (copyName original))
        (units "order") m.place
      let sourceFolders := ofCollection stores.folders id
      let sourceRequests := ofCollection stores.requests id
      let ids := copyIds m sourceFolders
      let folders := sourceFolders.zipIdx.map (folderCopy m newId ids)
      let requests := sourceRequests.zipIdx.map (requestCopy m newId sourceFolders.length ids)
      match stores.collections.add duplicate, addAll stores.folders folders,
          addAll stores.requests requests with
      | some collections, some folders, some requests => some { collections, folders, requests }
      | _, _, _ => none

/-- A folder's copy in the making: the stores so far, the new ids of the folders copied, and how
many ids were taken. -/
structure Copying where
  stores : CollectionStores
  copies : OrderedMap Text Text
  taken : Nat

/-- A folder copied, with the requests in it. -/
def copyFolder (m : Moment) (top collectionId : Text) (s : Copying) (folder : Doc) :
    Option Copying :=
  let id := m.newId s.taken
  let copied := m.copy id folder
  let clone :=
    if Doc.metaId folder = top then
      setField (setField copied (units "name") (copyName folder)) (units "order") m.place
    -- A folder inside keeps its name and its place, in the copy of its parent.
    else withLink copied (units "parentFolderId")
      ((s.copies.get? ((parentOf folder).getD [])).map .string)
  let inside := s.stores.requestsIn (Doc.metaId folder)
  let requests := inside.zipIdx.map fun entry =>
    Doc.withCollectionId
      (setField (m.copy (m.newId (s.taken + entry.2 + 1)) entry.1) (units "folderId") (.string id))
      collectionId
  match s.stores.folders.add clone, addAll s.stores.requests requests with
  | some folders, some requests =>
      some { stores := { s.stores with folders, requests },
             copies := s.copies.set (Doc.metaId folder) id,
             taken := s.taken + inside.length + 1 }
  | _, _ => none

/-- A copy of a folder with everything in it. -/
def duplicateFolder (id : Text) : Option CollectionStores :=
  match stores.folders.get? id with
  | none => some stores
  | some original =>
      -- Read whole before the first copy is written: a copy is a folder of the same parent.
      ((original :: stores.subtree id).foldlM (copyFolder m id (Doc.collectionId original))
        ⟨stores, .empty, 0⟩).map Copying.stores

/-- A copy of a request, in its folder. -/
def duplicateRequest (id : Text) : Option CollectionStores :=
  match stores.requests.get? id with
  | none => some stores
  | some doc =>
      let clone := setField (setField (m.copy (m.newId 0) doc) (units "name") (copyName doc))
        (units "order") m.place
      (stores.requests.add clone).map fun requests => { stores with requests }

/-! ## Deleting and putting back -/

/-- A collection deleted with everything in it. -/
def deleteCollection (id : Text) : CollectionStores × Removed :=
  let folders := ofCollection stores.folders id
  let requests := ofCollection stores.requests id
  ({ collections := stores.collections.delete id
     folders := stores.folders.deleteAll (folders.map Doc.metaId)
     requests := stores.requests.deleteAll (requests.map Doc.metaId) },
   { collections := (stores.collections.get? id).toList, folders, requests })

/-- A folder deleted with everything in it. -/
def deleteFolder (id : Text) : CollectionStores × Removed :=
  let folders := (stores.folders.get? id).toList ++ stores.subtree id
  let requests := folders.flatMap fun folder => stores.requestsIn (Doc.metaId folder)
  ({ stores with
     folders := stores.folders.deleteAll (folders.map Doc.metaId)
     requests := stores.requests.deleteAll (requests.map Doc.metaId) },
   { folders, requests })

/-- A request deleted. -/
def deleteRequest (id : Text) : CollectionStores × Removed :=
  ({ stores with requests := stores.requests.delete id },
   { requests := (stores.requests.get? id).toList })

/-- What a delete removed, put back. A folder or a request whose collection is gone stays gone. -/
def putBack (removed : Removed) : CollectionStores :=
  let collections := stores.collections.putAll removed.collections
  let back (doc : Doc) : Bool := (collections.get? (Doc.collectionId doc)).isSome
  { collections
    folders := stores.folders.putAll (removed.folders.filter back)
    requests := stores.requests.putAll (removed.requests.filter back) }

/-! ## Importing -/

/-- Whether a link names a folder of a file. -/
def namesFolder (folders : List Doc) (link : Option Json) : Bool :=
  match textOf link with
  | none => false
  | some id => folders.any fun folder => Doc.metaId folder = id || Doc.id folder = some id

/-- A request as an import stores it: of the collection, and in a folder of the file or in none. -/
def importedRequest (folders : List Doc) (collectionId : Text) (request : Doc) : Doc :=
  let placed := Doc.withCollectionId request collectionId
  if truthy (field placed (units "folderId")) &&
      !namesFolder folders (field placed (units "folderId")) then
    ensureId (removeField placed (units "folderId"))
  else ensureId placed

/-- The stored documents of other collections that have the key of one of a file. -/
def takenBy (table : DocTable) (collectionId : Text) (docs : List Doc) : List Doc :=
  docs.filterMap fun doc =>
    (table.get? (Doc.metaId doc)).filter fun other => Doc.collectionId other ≠ collectionId

/-- A file stored, over the collection of its id unless it is a copy; with it, what was replaced. -/
def importCollectionExport (payload : CollectionExport) (duplicateAsNew : Bool) :
    Option (CollectionStores × List Removed) :=
  let folders := payload.folders.map ensureId
  let requests := payload.requests.map ensureId
  match textOf (orElse (field (Doc.metaFields payload.collection) (units "id"))
      (field (ensureId payload.collection) (units "id"))) with
  | none => none
  | some [] => none
  | some collectionId =>
      let cleared := if duplicateAsNew then stores else (stores.deleteCollection collectionId).1
      let existing :=
        if duplicateAsNew || (stores.collections.get? collectionId).isNone then []
        else [(stores.deleteCollection collectionId).2]
      -- A file's scripts are not the user's own until they approve them.
      let collection := setField (ensureId payload.collection) (units "scriptTrust")
        (.object [(units "trusted", .bool false)])
      let taken : Removed :=
        { folders := takenBy cleared.folders collectionId folders
          requests := takenBy cleared.requests collectionId requests }
      let replaced :=
        if taken.folders.isEmpty && taken.requests.isEmpty then existing else existing ++ [taken]
      some ({ collections := cleared.collections.put collection
              folders := cleared.folders.putAll (folders.map fun folder =>
                ensureId (Doc.withCollectionId folder collectionId))
              requests := cleared.requests.putAll
                (requests.map (importedRequest folders collectionId)) },
            replaced)

end CollectionStores

end Wayfarer
