import Wayfarer.Library.Run
import Wayfarer.Store.Collections

/-!
# The tree in memory

A page keeps a tree of what is stored (`ShownEntry`). An operation writes, and then reads what it
wrote again: the whole tree, or the entry of one collection, whose position it looks up before it
reads (`Follow`). A write of another tab is followed by a notice, and a notice by a refresh of the
whole tree.

A refresh reads in several steps, and other refreshes and writes come between them (`Refresh`,
`CollectionsPage.step`).
-/

set_option autoImplicit false

namespace Wayfarer

open Library

/-! ## What the stores list -/

/-- Whether a document comes before another in a store's index of places. -/
def byOrder (a b : Doc) : Bool :=
  match compareOrders (orderOf a) (orderOf b) with
  | .lt => true
  | .gt => false
  | .eq => !decide (Doc.metaId b < Doc.metaId a)

/-- Whether a folder or a request comes before another of its collection. -/
def childBefore (F : FilePlatform) (a b : Doc) : Bool :=
  match compareOrders (orderOf a) (orderOf b) with
  | .lt => true
  | .gt => false
  | .eq => F.localeCompare (Doc.metaId a) (Doc.metaId b) ≠ .gt

/-- The collections. -/
def listCollections (stores : CollectionStores) : List Doc :=
  (stores.collections.rows.insertionSort fun a b => byOrder a b = true).map ensureId

/-- The folders or the requests of a collection. -/
def listChildren (F : FilePlatform) (table : DocTable) (collectionId : Text) : List Doc :=
  ((CollectionStores.ofCollection table collectionId).insertionSort
    fun a b => childBefore F a b = true).map ensureId

/-- The folders of a collection. -/
def listFolders (F : FilePlatform) (stores : CollectionStores) (collectionId : Text) : List Doc :=
  listChildren F stores.folders collectionId

/-- The requests of a collection. -/
def listRequests (F : FilePlatform) (stores : CollectionStores) (collectionId : Text) : List Doc :=
  listChildren F stores.requests collectionId

/-- An entry of the tree. It has no collection where it was written past the end of the tree. -/
structure ShownEntry where
  collection : Option Doc
  folders : List Doc
  requests : List Doc

/-- The collection an entry is of. -/
def ShownEntry.id? (entry : ShownEntry) : Option Text :=
  entry.collection.map Doc.metaId

/-- What the stores hold, as a tree. -/
def storedTree (F : FilePlatform) (stores : CollectionStores) : List ShownEntry :=
  (listCollections stores).map fun collection =>
    { collection := some collection
      folders := listFolders F stores (Doc.metaId collection)
      requests := listRequests F stores (Doc.metaId collection) }

/-! ## Operations -/

/-- What an operation makes of a document, which stays where it is. -/
structure Edit where
  apply : Doc → Doc
  key : ∀ doc, Doc.metaId (apply doc) = Doc.metaId doc
  collection : ∀ doc, Doc.collectionId (apply doc) = Doc.collectionId doc

/-- What an operation awaits after its transaction: nothing, the whole tree or one entry of it. -/
inductive Follow where
  | nothing
  | all
  | one (collectionId : Text)

/-- Digests of scripts recorded as approved; with `review`, these and no others. -/
structure Approval where
  moment : Moment
  collectionId : Text
  digests : List Text
  review : Bool

/-- Whether a collection's scripts are trusted. -/
def isTrusted (collection : Doc) : Bool :=
  truthy (prop (field collection (units "scriptTrust")) (units "trusted"))

/-- The digests approved for a collection so far. -/
def approvedOf (collection : Doc) : List Text :=
  match prop (field collection (units "scriptTrust")) (units "approved") with
  | some (.array items) => items.filterMap fun item => textOf (some item)
  | _ => []

/-- An approval, written; nothing where there is no such collection, or one that is not trusted. -/
def CollectionStores.approveScripts (stores : CollectionStores) (a : Approval) :
    Option CollectionStores :=
  match stores.collections.get? a.collectionId with
  | none => none
  | some doc =>
      if !a.review && !isTrusted doc then none
      else
        let approved :=
          if a.review then a.digests
          else (approvedOf doc ++ a.digests).foldl appendNew []
        some { stores with
          collections :=
            CollectionStores.change a.moment stores.collections a.collectionId fun doc =>
            setField doc (units "scriptTrust") (.object [(units "trusted", .bool true),
              (units "approved", .array (approved.map .string))]) }

/-- An operation of the page on what is stored. An edit is a renaming, a change of variables, of
what is inherited, or of a request's content. -/
inductive StoreOp where
  | createCollection (m : Moment) (name : Text) (description : Option Text)
  | editCollection (m : Moment) (id : Text) (edit : Edit)
  | approveScripts (approval : Approval)
  /-- The scripts are approved before they are written, where those held before were. -/
  | saveInherited (approval : Option Approval) (m : Moment) (collectionId : Text)
      (folderId : Option Text) (edit : Edit)
  | duplicateCollection (m : Moment) (id : Text)
  | deleteCollection (id : Text)
  | restore (removed : Removed)
  | reorderCollections (m : Moment) (order : List (Text × Json))
  | importCollection (payload : CollectionExport) (duplicateAsNew : Bool)
  | createFolder (m : Moment) (collectionId name : Text) (parent : Option Text)
      (order : Option Json)
  | editFolder (m : Moment) (id : Text) (edit : Edit)
  | duplicateFolder (m : Moment) (id : Text)
  | deleteFolder (id : Text)
  | reorderChildren (m : Moment) (order : List (Text × Json))
  | createRequest (m : Moment) (content : Fields) (collectionId name : Text)
      (folder : Option Text) (order : Option Json)
  | editRequest (m : Moment) (id : Text) (edit : Edit)
  | duplicateRequest (m : Moment) (id : Text)
  | deleteRequest (id : Text)

/-- The collection that the tree shows a folder in. -/
def findFolderCollectionId (tree : List ShownEntry) (id : Text) : Option Text :=
  (tree.find? fun entry => entry.folders.any fun folder => Doc.metaId folder = id).bind
    ShownEntry.id?

/-- The collection that the tree shows a request in. -/
def findRequestCollectionId (tree : List ShownEntry) (id : Text) : Option Text :=
  (tree.find? fun entry => entry.requests.any fun request => Doc.metaId request = id).bind
    ShownEntry.id?

/-- The collection an operation looks up in the tree before it writes. -/
def StoreOp.seen (tree : List ShownEntry) : StoreOp → Option Text
  | .deleteFolder id => findFolderCollectionId tree id
  | .deleteRequest id => findRequestCollectionId tree id
  | .reorderChildren _ [] => none
  | .reorderChildren _ (first :: _) =>
      (findFolderCollectionId tree first.1).or (findRequestCollectionId tree first.1)
  | _ => none

/-- What comes after a transaction of an operation: another one, or a refresh. -/
inductive Next where
  | write (op : StoreOp)
  | follow (follow : Follow)

/-- The entry of a collection that was looked up, or the whole tree. -/
def Follow.ofSeen : Option Text → Follow
  | some collectionId => .one collectionId
  | none => .all

/-- The entry of the collection a document is of; nothing where the document is gone. -/
def Follow.ofDoc : Option Doc → Follow
  | some doc => .one (Doc.collectionId doc)
  | none => .nothing

/-- An operation's next transaction, and what comes after it. Nothing where it is rolled back. -/
def StoreOp.write (stores : CollectionStores) (seen : Option Text) :
    StoreOp → Option (CollectionStores × Next)
  | .createCollection m name description =>
      (stores.createCollection m name description).map fun stores => (stores, .follow .all)
  | .editCollection m id edit =>
      some ({ stores with
        collections := CollectionStores.change m stores.collections id edit.apply }, .follow .all)
  | .approveScripts approval =>
      match stores.approveScripts approval with
      | some stores => some (stores, .follow .all)
      | none => some (stores, .follow .nothing)
  | .saveInherited (some approval) m collectionId folderId edit =>
      some ((stores.approveScripts approval).getD stores,
        .write (.saveInherited none m collectionId folderId edit))
  | .saveInherited none m _ (some folderId) edit =>
      some ({ stores with
        folders := CollectionStores.change m stores.folders folderId edit.apply }, .follow .all)
  | .saveInherited none m collectionId none edit =>
      some ({ stores with
        collections := CollectionStores.change m stores.collections collectionId edit.apply },
        .follow .all)
  | .duplicateCollection m id =>
      (stores.duplicateCollection m id).map fun stores => (stores, .follow .all)
  | .deleteCollection id => some ((stores.deleteCollection id).1, .follow .all)
  | .restore removed => some (stores.putBack removed, .follow .all)
  | .reorderCollections m order => some (stores.reorderCollections m order, .follow .all)
  | .importCollection payload duplicateAsNew =>
      (stores.importCollectionExport payload duplicateAsNew).map fun result =>
        (result.1, .follow .all)
  | .createFolder m collectionId name parent order =>
      (stores.createFolder m collectionId name parent order).map fun stores =>
        (stores, .follow (.one collectionId))
  | .editFolder m id edit =>
      some ({ stores with folders := CollectionStores.change m stores.folders id edit.apply },
        .follow (.ofDoc (stores.folders.get? id)))
  | .duplicateFolder m id =>
      (stores.duplicateFolder m id).map fun next =>
        (next, .follow (.ofDoc (stores.folders.get? id)))
  | .deleteFolder id => some ((stores.deleteFolder id).1, .follow (.ofSeen seen))
  | .reorderChildren m order => some (stores.reorderChildren m order, .follow (.ofSeen seen))
  | .createRequest m content collectionId name folder order =>
      (stores.createRequest m content collectionId name folder order).map fun stores =>
        (stores, .follow (.one collectionId))
  | .editRequest m id edit =>
      some ({ stores with requests := CollectionStores.change m stores.requests id edit.apply },
        .follow (.ofDoc (stores.requests.get? id)))
  | .duplicateRequest m id =>
      (stores.duplicateRequest m id).map fun next =>
        (next, .follow (.ofDoc (stores.requests.get? id)))
  | .deleteRequest id => some ((stores.deleteRequest id).1, .follow (.ofSeen seen))

/-! ## The page -/

/-- An operation under way: before its next transaction, with the collection it looked up in the
tree, or before its refresh. -/
inductive Call where
  | called (op : StoreOp) (seen : Option Text)
  | written (follow : Follow)

/-- A refresh under way, with what it read so far. -/
inductive Refresh where
  /-- Of the whole tree; it has read nothing yet. -/
  | started
  /-- Of the whole tree: the entries read, and the collections still to read, of the first of them
  the folders and the requests if they were read. -/
  | listed (trees : List ShownEntry) (rest : List Doc) (folders requests : Option (List Doc))
  /-- Of one collection's entry, at the position looked up. -/
  | single (collectionId : Text) (index : Nat) (folders requests : Option (List Doc))

/-- The refresh an operation begins. -/
def Follow.begin (tree : List ShownEntry) : Follow → List Refresh
  | .nothing => []
  | .all => [.started]
  | .one collectionId =>
      match tree.findIdx? fun entry => entry.id?.isNone || entry.id? = some collectionId with
      | none => [.started]
      | some index =>
          -- The search throws at an entry that has no collection.
          if (tree[index]?.bind ShownEntry.id?) = some collectionId then
            [.single collectionId index none none]
          else []

/-- The tree with the folders and the requests at a position replaced. Past the end it grows. -/
def patchAt (tree : List ShownEntry) (index : Nat) (folders requests : List Doc) :
    List ShownEntry :=
  if index < tree.length then tree.modify index fun entry => { entry with folders, requests }
  else
    tree ++ List.replicate (index - tree.length)
      { collection := none, folders := [], requests := [] }
      ++ [{ collection := none, folders, requests }]

/-- A page: the stores it shares with other tabs, the tree it shows, the operations and the
refreshes under way, and the notices of other tabs that have not arrived. -/
structure CollectionsPage where
  stores : CollectionStores
  tree : List ShownEntry := []
  calls : List Call := []
  refreshes : List Refresh := []
  notices : Nat := 0

/-- What happens at a page. -/
inductive PageAct where
  /-- An operation is called. -/
  | call (op : StoreOp)
  /-- The next transaction of an operation takes place. -/
  | write (i : Nat)
  /-- An operation begins its refresh. -/
  | follow (i : Nat)
  /-- The whole tree is asked for. -/
  | refresh
  /-- Another tab writes. -/
  | elsewhere (op : StoreOp) (seen : Option Text)
  /-- Its notice arrives. -/
  | notice
  | readCollections (i : Nat)
  | readFolders (i : Nat)
  | readRequests (i : Nat)
  /-- An entry is complete, and the next collection's turn comes. -/
  | turn (i : Nat)
  /-- A refresh ends: what it read is the tree, or a part of it. -/
  | publish (i : Nat)

/-- What reading the folders makes of a refresh. -/
def Refresh.withFolders (F : FilePlatform) (stores : CollectionStores) : Refresh → Option Refresh
  | .listed trees (collection :: rest) none requests =>
      some (.listed trees (collection :: rest)
        (some (listFolders F stores (Doc.metaId collection))) requests)
  | .single collectionId index none requests =>
      some (.single collectionId index (some (listFolders F stores collectionId)) requests)
  | _ => none

/-- What reading the requests makes of a refresh. -/
def Refresh.withRequests (F : FilePlatform) (stores : CollectionStores) : Refresh → Option Refresh
  | .listed trees (collection :: rest) folders none =>
      some (.listed trees (collection :: rest) folders
        (some (listRequests F stores (Doc.metaId collection))))
  | .single collectionId index folders none =>
      some (.single collectionId index folders (some (listRequests F stores collectionId)))
  | _ => none

/-- What reading the collections makes of a refresh. -/
def Refresh.withCollections (stores : CollectionStores) : Refresh → Option Refresh
  | .started => some (.listed [] (listCollections stores) none none)
  | _ => none

/-- The entry that was read, put with the others. -/
def Refresh.turned : Refresh → Option Refresh
  | .listed trees (collection :: rest) (some folders) (some requests) =>
      some (.listed (trees ++ [{ collection := some collection, folders, requests }])
        rest none none)
  | _ => none

/-- The tree once a refresh has ended. -/
def Refresh.published (tree : List ShownEntry) : Refresh → Option (List ShownEntry)
  | .listed trees [] _ _ => some trees
  | .single _ index (some folders) (some requests) => some (patchAt tree index folders requests)
  | _ => none

namespace CollectionsPage

/-- A page that was opened over stores, and asks for the tree. -/
def opened (stores : CollectionStores) : CollectionsPage :=
  { stores, refreshes := [.started] }

/-- A refresh that goes on. -/
def goesOn (s : CollectionsPage) (i : Nat) (next : Refresh → Option Refresh) :
    Option CollectionsPage :=
  (s.refreshes[i]?.bind next).map fun refresh =>
    { s with refreshes := s.refreshes.set i refresh }

/-- What an act makes of a page. -/
def step (F : FilePlatform) (s : CollectionsPage) : PageAct → Option CollectionsPage
  | .call op => some { s with calls := s.calls ++ [.called op (op.seen s.tree)] }
  | .write i =>
      match s.calls[i]? with
      | some (.called op seen) =>
          match op.write s.stores seen with
          | none => some { s with calls := s.calls.eraseIdx i }
          | some (stores, .write op) =>
              some { s with stores, calls := s.calls.set i (.called op seen) }
          | some (stores, .follow follow) =>
              some { s with stores, calls := s.calls.set i (.written follow) }
      | _ => none
  | .follow i =>
      match s.calls[i]? with
      | some (.written follow) =>
          some { s with
            calls := s.calls.eraseIdx i
            refreshes := s.refreshes ++ follow.begin s.tree }
      | _ => none
  | .refresh => some { s with refreshes := s.refreshes ++ [.started] }
  | .elsewhere op seen =>
      (op.write s.stores seen).map fun result =>
        { s with stores := result.1, notices := s.notices + 1 }
  | .notice =>
      if 0 < s.notices then
        some { s with notices := s.notices - 1, refreshes := s.refreshes ++ [.started] }
      else none
  | .readCollections i => s.goesOn i (Refresh.withCollections s.stores)
  | .readFolders i => s.goesOn i (Refresh.withFolders F s.stores)
  | .readRequests i => s.goesOn i (Refresh.withRequests F s.stores)
  | .turn i => s.goesOn i Refresh.turned
  | .publish i =>
      (s.refreshes[i]?.bind (Refresh.published s.tree)).map fun tree =>
        { s with tree, refreshes := s.refreshes.eraseIdx i }

/-- Nothing is under way. -/
def Idle (s : CollectionsPage) : Prop :=
  s.calls = [] ∧ s.refreshes = [] ∧ s.notices = 0

/-- Every entry of the tree is of a collection, and holds folders and requests of it only. -/
def Paired (s : CollectionsPage) : Prop :=
  ∀ entry ∈ s.tree, ∃ collection, entry.collection = some collection ∧
    (∀ folder ∈ entry.folders, Doc.collectionId folder = Doc.metaId collection) ∧
    ∀ request ∈ entry.requests, Doc.collectionId request = Doc.metaId collection

/-- The tree follows the stores: its entries are paired, and it is what the stores hold once nothing
is under way. -/
structure Follows (F : FilePlatform) (s : CollectionsPage) : Prop where
  paired : s.Paired
  settled : s.Idle → s.tree = storedTree F s.stores

end CollectionsPage

end Wayfarer
