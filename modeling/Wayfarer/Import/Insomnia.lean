import Wayfarer.Import.CollectionFile
import Wayfarer.Library.Effects
import Wayfarer.Library.Placed
import Wayfarer.Library.ReadBack

/-!
# An Insomnia export, format 4

A flat list of resources, each of which names its parent by id, is made into collections: one for
each workspace, and one for the requests and folders whose parent the file does not hold
(`format4`). A resource is placed once; ids may be missing or shared, and resources may name each
other in a ring.

`format4_places` says where each request and each folder of a file ends up.
-/

set_option autoImplicit false

namespace Wayfarer

open Library

namespace Insomnia

/-! ## Resources -/

/-- A value as text. -/
def text : Option Json → Text
  | none => []
  | some .null => []
  | some (.bool b) => if b then units "true" else units "false"
  | some (.number n) => n.text
  | some (.infinite negative) => if negative then units "-Infinity" else units "Infinity"
  | some (.string t) => t
  | some value => value.stringify

/-- One object of the list of resources, and its place in it. -/
structure Resource where
  index : Nat
  fields : Fields

/-- The objects of a list. -/
def objects : Option Json → List Fields
  | some (.array items) => items.filterMap fun
      | .object members => some members
      | _ => none
  | _ => []

/-- The resources of a file. -/
def resourcesOf (value : Fields) : List Resource :=
  (objects (field value (units "resources"))).zipIdx.map fun entry => ⟨entry.2, entry.1⟩

namespace Resource

variable (resource : Resource)

/-- What a resource is. -/
def kind : Text := text (field resource.fields (units "_type"))

/-- The id of a resource: one that is missing is the empty text. -/
def id : Text := text (field resource.fields (units "_id"))

/-- The id a resource names as its parent's. -/
def parentId : Text := text (field resource.fields (units "parentId"))

/-- Its name. -/
def name : Text := trim (text (field resource.fields (units "name")))

/-- The key its siblings are sorted by: 0 where it is no number. -/
def sortKey : Json :=
  match field resource.fields (units "metaSortKey") with
  | some (.number n) => .number n
  | some (.infinite negative) => .infinite negative
  | _ => .number ⟨units "0", JsonNumber.marks_zero⟩

/-- A request or a folder. -/
def IsItem : Prop := resource.kind = units "request" ∨ resource.kind = units "request_group"

instance : Decidable resource.IsItem := inferInstanceAs (Decidable (_ ∨ _))

/-- What a request or a folder can be in: a workspace or a folder. -/
def Holds : Prop := resource.kind = units "workspace" ∨ resource.kind = units "request_group"

instance : Decidable resource.Holds := inferInstanceAs (Decidable (_ ∨ _))

end Resource

/-- The resources by the parent they name, in the order of the file. -/
def grouped (resources : List Resource) : OrderedMap Text (List Resource) :=
  resources.foldl
    (fun children resource =>
      children.set resource.parentId ((children.get? resource.parentId).getD [] ++ [resource]))
    .empty

/-- The children of a parent, sorted; nothing is a child of the empty id. -/
def childrenOf (resources : List Resource) (parent : Text) : List Resource :=
  if parent = [] then []
  else (((grouped resources).get? parent).getD []).insertionSort fun a b =>
    compareOrders a.sortKey b.sortKey ≠ .gt

/-- The children of a parent that are of a kind. -/
def under (resources : List Resource) (parent kind : Text) : List Resource :=
  (childrenOf resources parent).filter fun resource => resource.kind = kind

/-! ## The trees -/

/-- Folders in folders: a file nested deeper than this is not a collection anyone made. -/
def maxDepth : Nat := 64

/-- The error of a file that is nested too deep. -/
def tooDeep : Text := units "The file's folders are nested more than 64 deep."

/-- An item of a collection: the resource it is made of, and what a folder holds. -/
abbrev Item : Type := OutlineNode Resource Resource

/-- The resources of a list that were not placed yet, placed one after the other, where `go` places
what is in a folder. -/
def levelItems (go : Text → List Nat → Except Text (List Item × List Nat)) :
    List Resource → List Nat → Except Text (List Item × List Nat)
  | [], placed => .ok ([], placed)
  | source :: rest, placed =>
      if source.index ∈ placed ∨ ¬ source.IsItem then levelItems go rest placed
      else if source.kind = units "request_group" then do
        let inside ← go source.id (source.index :: placed)
        let later ← levelItems go rest inside.2
        .ok (.branch source inside.1 :: later.1, later.2)
      else do
        let later ← levelItems go rest (source.index :: placed)
        .ok (.leaf source :: later.1, later.2)

/-- What is under a parent, where so many levels may still be entered. -/
def level (resources : List Resource) : Nat → Text → List Nat →
    Except Text (List Item × List Nat)
  | 0, _, _ => .error tooDeep
  | depth + 1, parent, placed =>
      levelItems (level resources depth) (childrenOf resources parent) placed

/-- What is under each of some parents, one after the other. -/
def levels (resources : List Resource) : List Text → List Nat →
    Except Text (List (List Item) × List Nat)
  | [], placed => .ok ([], placed)
  | parent :: parents, placed => do
      let first ← level resources maxDepth parent placed
      let later ← levels resources parents first.2
      .ok (first.1 :: later.1, later.2)

/-! ## The file -/

/-- The name of a collection made from requests whose workspace the file does not hold,
or that has no name. -/
def unnamed : Text := units "Imported from Insomnia"

/-- A collection: the workspace it is made of, where it is made of one, the base environments whose
values are its variables, and its items. -/
structure MadeCollection where
  name : Text
  description : Option Json
  workspace : Option Resource
  bases : List Resource
  item : List Item

/-- Something of the file that could not be kept. -/
structure Warning where
  item : Text
  message : Text

/-- What a file is made into: its collections, its environments, each as the resource it is made of,
and what could not be kept. -/
structure InsomniaExport where
  collections : List MadeCollection
  environments : List Resource
  warnings : List Warning

/-- What is said of requests and folders that are in nothing. -/
def leftOutWarnings (unplaced : Nat) : List Warning :=
  if unplaced = 0 then []
  else
    let one := decide (unplaced = 1)
    [{ item := units "file",
       message := decimalText unplaced ++
         (if one then units " request or folder is" else units " requests and folders are") ++
         units " left out: the file does not say which collection " ++
         (if one then units "it is" else units "they are") ++ units " in." }]

/-- What is said of each request that is not one over HTTP. -/
def otherRequestWarnings (resources : List Resource) : List Warning :=
  (resources.filter fun resource => units "_request" <:+ resource.kind).map fun resource =>
    { item := units "request \"" ++
        (if resource.name = [] then units "Request" else resource.name) ++ units "\"",
      message := units
        "It is not an HTTP request (gRPC, WebSocket or Socket.IO) and is left out." }

/-- Whether a resource is one that nothing is made of and nothing else is said of. -/
def isOther (resource : Resource) : Bool :=
  resource.kind ∉ [units "workspace", units "request", units "request_group",
      units "environment"] &&
    !decide (units "_request" <:+ resource.kind) &&
    !(resource.kind = units "cookie_jar" &&
      (objects (field resource.fields (units "cookies"))).isEmpty) &&
    !(resource.kind = units "api_spec" &&
      trim (text (field resource.fields (units "contents"))) = [])

/-- What is said of the rest of the file. -/
def otherWarnings (resources : List Resource) : List Warning :=
  let others := ((resources.filter isOther).map fun resource => resource.kind.take 30).eraseDups
  if others = [] then []
  else
    [{ item := units "file",
       message := units ("What the file holds that is not a request, a folder or an environment " ++
         "is left out (") ++ joinWith (units ", ") (others.take 8) ++ units ")." }]

/-- Whether a version is the number 4. -/
def isVersion4 : Option Json → Bool
  | some (.number n) => n.whole = some 4
  | _ => false

/-- The error of an export of another format. -/
def wrongFormat (version : Option Json) : Text :=
  units "This is an Insomnia export of " ++
    (if version = none then units "a format with no number"
      else units "format " ++ (text version).take 20) ++
    units (", which Wayfarer does not read. Export from a current Insomnia (format 4 or 5) and " ++
      "import that.")

/-- The parents the resources name that the file does not hold. -/
def unknownParents (resources : List Resource) : List Text :=
  let known := (resources.filter fun resource => resource.Holds).map Resource.id
  (grouped resources).keys.filter fun parent => parent ≠ [] ∧ parent ∉ known

/-- The collection of a workspace. -/
def workspaceCollection (resources : List Resource) (workspace : Resource) (item : List Item) :
    MadeCollection where
  name := if workspace.name = [] then unnamed else workspace.name
  description := field workspace.fields (units "description")
  workspace := some workspace
  bases := under resources workspace.id (units "environment")
  item := item

/-- The requests and folders that nothing was made of. -/
def unplacedOf (resources : List Resource) (placed : List Nat) : List Resource :=
  resources.filter fun resource => resource.IsItem ∧ resource.index ∉ placed

/-- What is made of the resources: the items of each workspace, those whose parent the file does not
hold, and what was placed. -/
def exportOf (resources : List Resource) (trees : List (List Item)) (loose : List Item)
    (placed : List Nat) : InsomniaExport :=
  let workspaces := resources.filter fun resource => resource.kind = units "workspace"
  -- An environment under a base environment is an environment of the app.
  let bases := (workspaces.flatMap fun workspace =>
    under resources workspace.id (units "environment")).map Resource.index
  { collections := List.zipWith (workspaceCollection resources) workspaces trees ++
      if loose = [] then []
      else [{ name := unnamed, description := none, workspace := none, bases := [], item := loose }]
    environments := resources.filter fun resource =>
      resource.kind = units "environment" ∧ resource.index ∉ bases
    warnings := leftOutWarnings (unplacedOf resources placed).length ++
      otherRequestWarnings resources ++ otherWarnings resources }

/-- A flat list of resources, each naming its parent. -/
def format4 (value : Fields) : Except Text InsomniaExport :=
  let version := field value (units "__export_format")
  if isVersion4 version = false then .error (wrongFormat version)
  else do
    let resources := resourcesOf value
    let workspaces := resources.filter fun resource => resource.kind = units "workspace"
    let trees ← levels resources (workspaces.map Resource.id) []
    -- Requests and folders whose parent the file does not hold: a selection is exported that way.
    let loose ← levels resources (unknownParents resources) trees.2
    .ok (exportOf resources trees.1 loose.1.flatten loose.2)

/-! ## Where things stand -/

/-- The requests and folders of an outline. -/
def resourcesIn (items : List Item) : List Resource :=
  (placesOf none items).map fun stands => stands.2.elim id id

/-- The requests and folders of a collection, each with the folder or the workspace it is directly
in; nothing stands for the top of a collection that no workspace is made into. -/
def MadeCollection.stands (collection : MadeCollection) : List (Option Resource × Resource) :=
  (placesOf collection.workspace collection.item).map fun stands => (stands.1, stands.2.elim id id)

/-- The requests and folders of the collections. -/
def InsomniaExport.stands (made : InsomniaExport) : List (Option Resource × Resource) :=
  made.collections.flatMap MadeCollection.stands

/-- Each request and each folder of a file stands once in the collections, in a folder or a
workspace that has the id it names, or at the top of the unnamed collection where the file has no
such one; or it is one of those that are said to be left out. -/
structure PlacedOrCounted (value : Fields) (made : InsomniaExport) : Prop where
  once : (made.stands.map fun stands => stands.2.index).Nodup
  items : ∀ stands ∈ made.stands, stands.2 ∈ resourcesOf value ∧ stands.2.IsItem
  inParent : ∀ place item, (some place, item) ∈ made.stands →
    place ∈ resourcesOf value ∧ place.Holds ∧ place.id = item.parentId
  atTop : ∀ item, (none, item) ∈ made.stands →
    ∀ resource ∈ resourcesOf value, resource.Holds → resource.id ≠ item.parentId
  unnamed : ∀ collection ∈ made.collections, collection.workspace = none →
    collection.name = Insomnia.unnamed
  counted : made.warnings = leftOutWarnings ((resourcesOf value).filter fun resource =>
      resource.IsItem ∧ resource.index ∉ made.stands.map fun stands => stands.2.index).length ++
    otherRequestWarnings (resourcesOf value) ++ otherWarnings (resourcesOf value)

/-- Folders, the first of them under a parent and each other one in the one before it. -/
def Nested (resources : List Resource) : Text → List Resource → Prop
  | _, [] => True
  | parent, folder :: folders =>
      folder ∈ resources ∧ folder.kind = units "request_group" ∧
        folder.parentId ≠ [] ∧ folder.parentId = parent ∧ Nested resources folder.id folders

/-- So many different folders are in one another under a parent, none of them among the `placed`. -/
def Deep (resources : List Resource) (placed : List Nat) (parent : Text) (depth : Nat) : Prop :=
  ∃ folders : List Resource, folders.length = depth ∧ (folders.map Resource.index).Nodup ∧
    (∀ folder ∈ folders, folder.index ∉ placed) ∧ Nested resources parent folders

/-- A parent that a collection starts at: a workspace's id, or one that no workspace and no folder
of the file has. -/
def IsTop (resources : List Resource) (parent : Text) : Prop :=
  (∃ workspace ∈ resources, workspace.kind = units "workspace" ∧ workspace.id = parent) ∨
    ∀ resource ∈ resources, resource.Holds → resource.id ≠ parent

/-- A file with as many folders in one another as no collection has. -/
def TooDeep (value : Fields) : Prop :=
  ∃ parent, IsTop (resourcesOf value) parent ∧ Deep (resourcesOf value) [] parent maxDepth

/-! ## Children -/

theorem get?_foldl_grouped (resources : List Resource) (children : OrderedMap Text (List Resource))
    (parent : Text) :
    ((resources.foldl
      (fun children resource =>
        children.set resource.parentId ((children.get? resource.parentId).getD [] ++ [resource]))
      children).get? parent).getD [] =
    (children.get? parent).getD [] ++ resources.filter fun resource =>
      resource.parentId = parent := by
  induction resources generalizing children with
  | nil => rw [List.foldl_nil, List.filter_nil, List.append_nil]
  | cons resource resources ih =>
      rw [List.foldl_cons, ih, OrderedMap.get?_set]
      by_cases heq : resource.parentId = parent
      · rw [if_pos heq, Option.getD_some, List.append_assoc, List.singleton_append, heq,
          List.filter_cons_of_pos
            (p := fun resource : Resource => decide (resource.parentId = parent))
            (decide_eq_true heq)]
      · rw [if_neg heq, List.filter_cons_of_neg (by rwa [decide_eq_true_iff])]

/-- The children of a parent are the resources that name it. -/
theorem mem_childrenOf {resources : List Resource} {parent : Text} {resource : Resource} :
    resource ∈ childrenOf resources parent ↔
      parent ≠ [] ∧ resource ∈ resources ∧ resource.parentId = parent := by
  rw [childrenOf]
  by_cases hblank : parent = []
  · rw [if_pos hblank]
    exact iff_of_false List.not_mem_nil fun h => h.1 hblank
  · rw [if_neg hblank, List.mem_insertionSort, grouped, get?_foldl_grouped, OrderedMap.get?_empty,
      Option.getD_none, List.nil_append, List.mem_filter, decide_eq_true_iff]
    exact ⟨fun h => ⟨hblank, h⟩, fun h => h.2⟩

/-! ## One level -/

/-- A request or a folder stands directly under its parent: in what the outline stands in, whose key
it names, or in a folder with the id it names. -/
def StandsUnder (resources : List Resource) (outside : Option Resource) (key : Text)
    (place : Option Resource) (item : Resource) : Prop :=
  item ∈ resources ∧ item.IsItem ∧
    (place = outside ∧ item.parentId = key ∨
      ∃ folder ∈ resources, place = some folder ∧ folder.Holds ∧ folder.id = item.parentId)

/-- What was placed under a key. -/
structure Levelled (resources : List Resource) (key : Text) (placed : List Nat) (nodes : List Item)
    (placed' : List Nat) : Prop where
  perm : placed'.Perm ((resourcesIn nodes).map Resource.index ++ placed)
  nodup : placed.Nodup → placed'.Nodup
  under : ∀ outside, ∀ stands ∈ placesOf outside nodes,
    StandsUnder resources outside key stands.1 (stands.2.elim id id)

theorem resourcesIn_leaf (source : Resource) (nodes : List Item) :
    resourcesIn (.leaf source :: nodes) = source :: resourcesIn nodes :=
  rfl

/-- The requests and folders of an outline are those of it wherever it stands. -/
theorem map_placesOf (outside : Option Resource) (nodes : List Item) :
    (placesOf outside nodes).map (fun stands => stands.2.elim id id) = resourcesIn nodes := by
  have hmap := congrArg (List.map (Sum.elim id id)) (map_snd_placesOf outside none nodes)
  rw [List.map_map, List.map_map] at hmap
  exact hmap

theorem resourcesIn_branch (source : Resource) (inside nodes : List Item) :
    resourcesIn (.branch source inside :: nodes) =
      source :: (resourcesIn inside ++ resourcesIn nodes) := by
  have hinside := map_placesOf (some source) inside
  rw [resourcesIn, placesOf, OutlineNode.places, List.cons_append, List.map_cons, List.map_append,
    hinside]
  rfl

variable {resources : List Resource}

/-- A list of children, where what is in a folder is placed under its id. -/
theorem levelItems_spec {go : Text → List Nat → Except Text (List Item × List Nat)}
    (hgo : ∀ key placed nodes placed', go key placed = .ok (nodes, placed') →
      Levelled resources key placed nodes placed') {key : Text} {sources : List Resource}
    (hsources : ∀ source ∈ sources, source ∈ resources ∧ source.parentId = key)
    {placed : List Nat} {nodes : List Item} {placed' : List Nat}
    (h : levelItems go sources placed = .ok (nodes, placed')) :
    Levelled resources key placed nodes placed' := by
  induction sources generalizing placed nodes with
  | nil =>
      cases h
      exact ⟨List.Perm.refl _, id, fun _ _ hmem => absurd hmem List.not_mem_nil⟩
  | cons source rest ih =>
      have hrest : ∀ source ∈ rest, source ∈ resources ∧ source.parentId = key :=
        fun other hother => hsources other (List.mem_cons_of_mem _ hother)
      obtain ⟨hsource, hparent⟩ := hsources source List.mem_cons_self
      rw [levelItems] at h
      by_cases hskip : source.index ∈ placed ∨ ¬ source.IsItem
      · rw [if_pos hskip] at h
        exact ih hrest h
      · rw [if_neg hskip] at h
        obtain ⟨hfresh, hitem⟩ := not_or.mp hskip
        have hitem := not_not.mp hitem
        by_cases hfolder : source.kind = units "request_group"
        · rw [if_pos hfolder] at h
          obtain ⟨⟨inside, between⟩, hinside, h⟩ := bind_eq_ok.mp h
          obtain ⟨⟨later, last⟩, hlater, h⟩ := bind_eq_ok.mp h
          cases h
          -- What the folder holds is placed first, and what stands after it then.
          have hin := hgo _ _ _ _ hinside
          have hout := ih hrest hlater
          refine ⟨?_, ?_, ?_⟩
          · rw [resourcesIn_branch, List.map_cons, List.map_append]
            refine (hout.perm.trans (hin.perm.append_left _)).trans ?_
            rw [← List.append_assoc, List.cons_append]
            refine List.perm_middle.trans (List.Perm.cons _ ?_)
            exact List.perm_append_comm.append_right _
          · exact fun hnodup => hout.nodup (hin.nodup (List.nodup_cons.mpr ⟨hfresh, hnodup⟩))
          · intro outside stands hmem
            rw [placesOf, OutlineNode.places, List.cons_append, List.mem_cons, List.mem_append]
              at hmem
            -- The folder itself, what it holds, and what comes after.
            rcases hmem with rfl | hmem | hmem
            · exact ⟨hsource, hitem, Or.inl ⟨rfl, hparent⟩⟩
            · obtain ⟨hthere, hkind, hplace⟩ := hin.under (some source) stands hmem
              refine ⟨hthere, hkind, Or.inr ?_⟩
              rcases hplace with ⟨hplace, hid⟩ | hplace
              · exact ⟨source, hsource, hplace, Or.inr hfolder, hid.symm⟩
              · exact hplace
            · exact hout.under outside stands hmem
        · rw [if_neg hfolder] at h
          obtain ⟨⟨later, last⟩, hlater, h⟩ := bind_eq_ok.mp h
          cases h
          have hout := ih hrest hlater
          refine ⟨?_, ?_, ?_⟩
          · rw [resourcesIn_leaf, List.map_cons]
            exact hout.perm.trans List.perm_middle
          · exact fun hnodup => hout.nodup (List.nodup_cons.mpr ⟨hfresh, hnodup⟩)
          · intro outside stands hmem
            rw [placesOf, OutlineNode.places, List.cons_append, List.mem_cons, List.nil_append]
              at hmem
            rcases hmem with rfl | hmem
            · exact ⟨hsource, hitem, Or.inl ⟨rfl, hparent⟩⟩
            · exact hout.under outside stands hmem

/-- What is under a parent. -/
theorem level_spec {depth : Nat} {key : Text} {placed : List Nat} {nodes : List Item}
    {placed' : List Nat} (h : level resources depth key placed = .ok (nodes, placed')) :
    Levelled resources key placed nodes placed' := by
  induction depth generalizing key placed nodes placed' with
  | zero => cases h
  | succ depth ih =>
      exact levelItems_spec (fun _ _ _ _ => ih)
        (fun _ hsource => (mem_childrenOf.mp hsource).2) h

/-- What was placed before a list of children is placed after it. -/
theorem Levelled.subset {key : Text} {placed : List Nat} {nodes : List Item} {placed' : List Nat}
    (h : Levelled resources key placed nodes placed') : placed ⊆ placed' :=
  fun _ hmem => h.perm.mem_iff.mpr (List.mem_append_right _ hmem)

/-- The folder that a chain is in comes first in a chain one longer. -/
theorem Deep.cons {source : Resource} {placed : List Nat} {depth : Nat}
    (h : Deep resources (source.index :: placed) source.id depth) (hsource : source ∈ resources)
    (hfolder : source.kind = units "request_group") (hparent : source.parentId ≠ [])
    (hfresh : source.index ∉ placed) : Deep resources placed source.parentId (depth + 1) := by
  obtain ⟨folders, hlength, hnodup, hunplaced, hnested⟩ := h
  refine ⟨source :: folders, by rw [List.length_cons, hlength], ?_, ?_,
    hsource, hfolder, hparent, rfl, hnested⟩
  · rw [List.map_cons, List.nodup_cons]
    refine ⟨fun hmem => ?_, hnodup⟩
    obtain ⟨folder, hin, hindex⟩ := List.mem_map.mp hmem
    exact hunplaced folder hin (hindex ▸ List.mem_cons_self)
  · intro folder hmem
    rcases List.mem_cons.mp hmem with rfl | hmem
    · exact hfresh
    · exact fun hplaced => hunplaced folder hmem (List.mem_cons_of_mem _ hplaced)

/-- A chain of folders that are not placed yet was one before. -/
theorem Deep.mono {placed placed' : List Nat} {parent : Text} {depth : Nat}
    (h : Deep resources placed' parent depth) (hsub : placed ⊆ placed') :
    Deep resources placed parent depth := by
  obtain ⟨folders, hlength, hnodup, hunplaced, hnested⟩ := h
  exact ⟨folders, hlength, hnodup, fun folder hmem hplaced => hunplaced folder hmem (hsub hplaced),
    hnested⟩

/-- Children fail only where what is in a folder of them does, a folder not placed before. -/
theorem levelItems_error {go : Text → List Nat → Except Text (List Item × List Nat)} {depth : Nat}
    (hgo : ∀ key placed e, go key placed = .error e →
      e = tooDeep ∧ Deep resources placed key depth)
    (hspec : ∀ key placed nodes placed', go key placed = .ok (nodes, placed') →
      Levelled resources key placed nodes placed') {parent : Text} {sources : List Resource}
    (hsources : ∀ source ∈ sources, parent ≠ [] ∧ source ∈ resources ∧ source.parentId = parent)
    {placed : List Nat} {e : Text} (h : levelItems go sources placed = .error e) :
    e = tooDeep ∧ Deep resources placed parent (depth + 1) := by
  induction sources generalizing placed with
  | nil => cases h
  | cons source rest ih =>
      have ih := fun placed => @ih
        (fun other hother => hsources other (List.mem_cons_of_mem _ hother)) placed
      obtain ⟨hblank, hsource, rfl⟩ := hsources source List.mem_cons_self
      rw [levelItems] at h
      split_ifs at h with hskip hfolder
      · exact ih _ h
      · have hfresh : source.index ∉ placed := fun hmem => hskip (Or.inl hmem)
        rcases bind_eq_error.mp h with hinside | ⟨inside, hinside, h⟩
        · obtain ⟨rfl, hdeep⟩ := hgo _ _ _ hinside
          exact ⟨rfl, hdeep.cons hsource hfolder hblank hfresh⟩
        · rcases bind_eq_error.mp h with hlater | ⟨later, -, h⟩
          · obtain ⟨rfl, hdeep⟩ := ih _ hlater
            refine ⟨rfl, hdeep.mono fun index hmem => ?_⟩
            exact (hspec _ _ _ _ hinside).subset (List.mem_cons_of_mem _ hmem)
          · cases h
      · rcases bind_eq_error.mp h with hlater | ⟨later, -, h⟩
        · obtain ⟨rfl, hdeep⟩ := ih _ hlater
          exact ⟨rfl, hdeep.mono fun index hmem => List.mem_cons_of_mem _ hmem⟩
        · cases h

/-- The only error of a level is that of the nesting, and it says that so many folders, none of them
placed yet, are in one another under the parent. -/
theorem level_error {depth : Nat} {key : Text} {placed : List Nat} {e : Text}
    (h : level resources depth key placed = .error e) :
    e = tooDeep ∧ Deep resources placed key depth := by
  induction depth generalizing key placed e with
  | zero =>
      cases h
      exact ⟨rfl, [], rfl, List.nodup_nil, fun _ hmem => absurd hmem List.not_mem_nil, trivial⟩
  | succ depth ih =>
      exact levelItems_error (fun _ _ _ => ih) (fun _ _ _ _ => level_spec)
        (fun _ => mem_childrenOf.mp) h

/-! ## Several levels -/

/-- One of the parents has folders in one another that are too many. -/
theorem levels_error {parents : List Text} {placed : List Nat} {e : Text}
    (h : levels resources parents placed = .error e) :
    e = tooDeep ∧ ∃ parent ∈ parents, Deep resources [] parent maxDepth := by
  induction parents generalizing placed with
  | nil => cases h
  | cons parent parents ih =>
      rw [levels] at h
      rcases bind_eq_error.mp h with hfirst | ⟨first, -, h⟩
      · obtain ⟨rfl, hdeep⟩ := level_error hfirst
        exact ⟨rfl, parent, List.mem_cons_self, hdeep.mono (List.nil_subset _)⟩
      · rcases bind_eq_error.mp h with hlater | ⟨later, -, h⟩
        · obtain ⟨rfl, other, hother, hdeep⟩ := ih hlater
          exact ⟨rfl, other, List.mem_cons_of_mem _ hother, hdeep⟩
        · cases h

/-- What is under each of some parents. -/
theorem levels_spec {parents : List Text} {placed : List Nat} {trees : List (List Item)}
    {placed' : List Nat} (h : levels resources parents placed = .ok (trees, placed')) :
    placed'.Perm ((trees.flatMap resourcesIn).map Resource.index ++ placed) ∧
      (placed.Nodup → placed'.Nodup) ∧
      List.Forall₂ (fun parent nodes => ∀ outside, ∀ stands ∈ placesOf outside nodes,
        StandsUnder resources outside parent stands.1 (stands.2.elim id id)) parents trees := by
  induction parents generalizing placed trees with
  | nil =>
      cases h
      exact ⟨List.Perm.refl _, id, List.Forall₂.nil⟩
  | cons parent parents ih =>
      rw [levels] at h
      obtain ⟨⟨first, between⟩, hfirst, h⟩ := bind_eq_ok.mp h
      obtain ⟨⟨later, last⟩, hlater, h⟩ := bind_eq_ok.mp h
      cases h
      have hspec := level_spec hfirst
      obtain ⟨hperm, hnodup, hunder⟩ := ih hlater
      refine ⟨?_, fun h => hnodup (hspec.nodup h), List.Forall₂.cons hspec.under hunder⟩
      rw [List.flatMap_cons, List.map_append]
      refine (hperm.trans (hspec.perm.append_left _)).trans ?_
      rw [← List.append_assoc]
      exact List.perm_append_comm.append_right _

/-! ## The file -/

theorem map_stands (collection : MadeCollection) :
    collection.stands.map Prod.snd = resourcesIn collection.item := by
  rw [MadeCollection.stands, List.map_map]
  exact map_placesOf collection.workspace collection.item

/-- What stands in the collections of the workspaces. -/
theorem stands_workspaces {workspaces : List Resource} {trees : List (List Item)}
    (h : List.Forall₂ (fun parent nodes => ∀ outside, ∀ stands ∈ placesOf outside nodes,
      StandsUnder resources outside parent stands.1 (stands.2.elim id id))
      (workspaces.map Resource.id) trees) :
    ((List.zipWith (workspaceCollection resources) workspaces trees).flatMap
        MadeCollection.stands).map Prod.snd = trees.flatMap resourcesIn ∧
      ∀ stands ∈ (List.zipWith (workspaceCollection resources) workspaces trees).flatMap
          MadeCollection.stands,
        ∃ workspace ∈ workspaces,
          StandsUnder resources (some workspace) workspace.id stands.1 stands.2 := by
  induction workspaces generalizing trees with
  | nil =>
      cases h
      exact ⟨rfl, fun _ hmem => absurd hmem List.not_mem_nil⟩
  | cons workspace workspaces ih =>
      cases h with
      | cons hfirst hlater =>
          obtain ⟨hmap, hunder⟩ := ih hlater
          rw [List.zipWith_cons_cons, List.flatMap_cons, List.flatMap_cons,
            List.map_append, map_stands, hmap]
          refine ⟨rfl, fun stands hmem => ?_⟩
          rcases List.mem_append.mp hmem with hmem | hmem
          · obtain ⟨given, hgiven, rfl⟩ := List.mem_map.mp hmem
            exact ⟨workspace, List.mem_cons_self, hfirst (some workspace) given hgiven⟩
          · obtain ⟨other, hother, hstands⟩ := hunder stands hmem
            exact ⟨other, List.mem_cons_of_mem _ hother, hstands⟩

theorem placesOf_flatten (outside : Option Resource) (trees : List (List Item)) :
    placesOf outside trees.flatten = trees.flatMap (placesOf outside) := by
  induction trees with
  | nil => rfl
  | cons nodes trees ih => rw [List.flatten_cons, placesOf_append, ih, List.flatMap_cons]

theorem resourcesIn_flatten (trees : List (List Item)) :
    resourcesIn trees.flatten = trees.flatMap resourcesIn := by
  rw [resourcesIn, placesOf_flatten, List.map_flatMap]
  rfl

/-- What stands in the collections made of the resources. -/
theorem stands_exportOf (trees : List (List Item)) (loose : List Item) (placed : List Nat) :
    (exportOf resources trees loose placed).stands =
      (List.zipWith (workspaceCollection resources)
        (resources.filter fun resource => resource.kind = units "workspace") trees).flatMap
          MadeCollection.stands ++
        (placesOf none loose).map fun stands => (stands.1, stands.2.elim id id) := by
  rw [InsomniaExport.stands, exportOf, List.flatMap_append]
  by_cases hloose : loose = []
  · subst hloose
    rw [if_pos rfl]
    rfl
  · rw [if_neg hloose, List.flatMap_singleton]
    rfl

theorem mem_filter_iff {α : Type} {p : α → Prop} [DecidablePred p] {l : List α} {a : α} :
    a ∈ l.filter (fun b => p b) ↔ a ∈ l ∧ p a := by
  rw [List.mem_filter, decide_eq_true_iff]

/-- The requests and folders that were placed, and what is said of the others. -/
theorem placedOrCounted_of_levels {value : Fields} {trees loose : List (List Item) × List Nat}
    (htrees : levels (resourcesOf value)
      (((resourcesOf value).filter fun resource => resource.kind = units "workspace").map
        Resource.id) [] = .ok trees)
    (hloose : levels (resourcesOf value) (unknownParents (resourcesOf value)) trees.2 = .ok loose) :
    PlacedOrCounted value (exportOf (resourcesOf value) trees.1 loose.1.flatten loose.2) := by
  obtain ⟨htreesPerm, htreesNodup, htreesUnder⟩ := levels_spec htrees
  obtain ⟨hloosePerm, hlooseNodup, hlooseUnder⟩ := levels_spec hloose
  obtain ⟨hworkspaces, hunder⟩ := stands_workspaces htreesUnder
  -- The indices that were placed are those of what stands in the result.
  have hindices : loose.2.Perm ((exportOf (resourcesOf value) trees.1 loose.1.flatten
      loose.2).stands.map fun stands => stands.2.index) := by
    rw [stands_exportOf, List.map_append, List.map_map]
    have hfirst := congrArg (List.map Resource.index) hworkspaces
    rw [List.map_map] at hfirst
    have hsecond : (placesOf none loose.1.flatten).map
        (fun stands => (stands.2.elim id id : Resource).index) =
        (loose.1.flatMap resourcesIn).map Resource.index := by
      rw [← resourcesIn_flatten, resourcesIn, List.map_map]
      rfl
    have hboth : loose.2.Perm ((loose.1.flatMap resourcesIn).map Resource.index ++
        (trees.1.flatMap resourcesIn).map Resource.index) := by
      refine hloosePerm.trans (List.Perm.append_left _ ?_)
      rw [List.append_nil] at htreesPerm
      exact htreesPerm
    rw [← hsecond, ← hfirst] at hboth
    exact hboth.trans List.perm_append_comm
  -- What stands in it stands under a workspace, or under a parent that the file does not have.
  have hplaces : ∀ stands ∈ (exportOf (resourcesOf value) trees.1 loose.1.flatten loose.2).stands,
      (∃ workspace ∈ (resourcesOf value).filter fun resource => resource.kind = units "workspace",
        StandsUnder (resourcesOf value) (some workspace) workspace.id stands.1 stands.2) ∨
      ∃ parent ∈ unknownParents (resourcesOf value),
        StandsUnder (resourcesOf value) none parent stands.1 stands.2 := by
    intro stands hmem
    rw [stands_exportOf, placesOf_flatten] at hmem
    rcases List.mem_append.mp hmem with hmem | hmem
    · exact Or.inl (hunder stands hmem)
    · obtain ⟨given, hgiven, rfl⟩ := List.mem_map.mp hmem
      obtain ⟨nodes, hnodes, hgiven⟩ := List.mem_flatMap.mp hgiven
      obtain ⟨i, hi⟩ := List.mem_iff_getElem?.mp hnodes
      obtain ⟨hlength, hstands⟩ := List.forall₂_iff_get.mp hlooseUnder
      obtain ⟨hbound, rfl⟩ := List.getElem?_eq_some_iff.mp hi
      exact Or.inr ⟨_, List.get_mem _ ⟨i, hlength ▸ hbound⟩,
        hstands i (hlength ▸ hbound) hbound none given hgiven⟩
  refine ⟨?_, ?_, ?_, ?_, ?_, ?_⟩
  · exact hindices.nodup_iff.mp (hlooseNodup (htreesNodup List.nodup_nil))
  · intro stands hmem
    rcases hplaces stands hmem with ⟨_, _, hthere, hitem, _⟩ | ⟨_, _, hthere, hitem, _⟩
    · exact ⟨hthere, hitem⟩
    · exact ⟨hthere, hitem⟩
  · intro place item hmem
    rcases hplaces _ hmem with ⟨workspace, hworkspace, -, -, hplace⟩ | ⟨parent, -, -, -, hplace⟩
    · obtain ⟨hthere, hkind⟩ := mem_filter_iff.mp hworkspace
      rcases hplace with ⟨hplace, hid⟩ | ⟨folder, hfolder, hplace, hholds, hid⟩
      · cases hplace
        exact ⟨hthere, Or.inl hkind, hid.symm⟩
      · cases hplace
        exact ⟨hfolder, hholds, hid⟩
    · rcases hplace with ⟨hplace, -⟩ | ⟨folder, hfolder, hplace, hholds, hid⟩
      · cases hplace
      · cases hplace
        exact ⟨hfolder, hholds, hid⟩
  · intro item hmem resource hresource hholds hid
    rcases hplaces _ hmem with ⟨workspace, -, -, -, hplace⟩ | ⟨parent, hparent, -, -, hplace⟩
    · rcases hplace with ⟨hplace, -⟩ | ⟨folder, -, hplace, -, -⟩
      · cases hplace
      · cases hplace
    · rcases hplace with ⟨-, hnames⟩ | ⟨folder, -, hplace, -, -⟩
      · obtain ⟨-, hunknown⟩ := mem_filter_iff.mp hparent
        apply hunknown.2
        rw [← hnames, ← hid]
        exact List.mem_map_of_mem (mem_filter_iff.mpr ⟨hresource, hholds⟩)
      · cases hplace
  · intro collection hcollection hnone
    rcases List.mem_append.mp hcollection with hmem | hmem
    · rw [← List.map_uncurry_zip_eq_zipWith] at hmem
      obtain ⟨pair, -, rfl⟩ := List.mem_map.mp hmem
      cases hnone
    · split_ifs at hmem with hempty
      · cases hmem
      · rw [List.mem_singleton] at hmem
        rw [hmem]
  · -- What is counted is what has no place.
    have hsame : unplacedOf (resourcesOf value) loose.2 = (resourcesOf value).filter fun resource =>
        resource.IsItem ∧ resource.index ∉ (exportOf (resourcesOf value) trees.1 loose.1.flatten
          loose.2).stands.map fun stands => stands.2.index := by
      apply List.filter_congr
      intro resource _
      rw [decide_eq_decide, hindices.mem_iff]
    rw [← hsame]
    rfl

/-- A parent the file does not hold is one that a collection starts at. -/
theorem isTop_of_mem_unknownParents {parent : Text} (h : parent ∈ unknownParents resources) :
    IsTop resources parent := by
  obtain ⟨-, hunknown⟩ := mem_filter_iff.mp h
  refine Or.inr fun resource hresource hholds hid => hunknown.2 ?_
  rw [← hid]
  exact List.mem_map_of_mem (mem_filter_iff.mpr ⟨hresource, hholds⟩)

/-- A workspace's id is one that a collection starts at. -/
theorem isTop_of_mem_workspaces {parent : Text}
    (h : parent ∈ (resources.filter fun resource => resource.kind = units "workspace").map
      Resource.id) : IsTop resources parent := by
  obtain ⟨workspace, hworkspace, hid⟩ := List.mem_map.mp h
  obtain ⟨hthere, hkind⟩ := mem_filter_iff.mp hworkspace
  exact Or.inl ⟨workspace, hthere, hkind, hid⟩

/-- A version 4 file is made into collections, and every request and folder of it stands once in
them, under its parent, or is said to be left out; the only error is that of the nesting, of a file
whose folders are in one another that deep. -/
theorem format4_places (value : Fields) :
    (isVersion4 (field value (units "__export_format")) = false ∧
      format4 value = .error (wrongFormat (field value (units "__export_format")))) ∨
    (TooDeep value ∧ format4 value = .error tooDeep) ∨
    ∃ made, format4 value = .ok made ∧ PlacedOrCounted value made := by
  unfold format4
  dsimp only
  by_cases hversion : isVersion4 (field value (units "__export_format")) = false
  · exact Or.inl ⟨hversion, by rw [if_pos hversion]⟩
  rw [if_neg hversion]
  refine Or.inr ?_
  cases htrees : levels (resourcesOf value)
      (((resourcesOf value).filter fun resource => resource.kind = units "workspace").map
        Resource.id) [] with
  | error e =>
      obtain ⟨rfl, parent, hparent, hdeep⟩ := levels_error htrees
      exact Or.inl ⟨⟨parent, isTop_of_mem_workspaces hparent, hdeep⟩, rfl⟩
  | ok trees =>
      change (_ ∧ (levels (resourcesOf value) (unknownParents (resourcesOf value)) trees.2 >>= _) =
          _) ∨
        ∃ made, (levels (resourcesOf value) (unknownParents (resourcesOf value)) trees.2 >>= _) =
          .ok made ∧ _
      cases hloose : levels (resourcesOf value) (unknownParents (resourcesOf value)) trees.2 with
      | error e =>
          obtain ⟨rfl, parent, hparent, hdeep⟩ := levels_error hloose
          exact Or.inl ⟨⟨parent, isTop_of_mem_unknownParents hparent, hdeep⟩, rfl⟩
      | ok loose =>
          exact Or.inr ⟨_, rfl, placedOrCounted_of_levels htrees hloose⟩

end Insomnia

end Wayfarer
