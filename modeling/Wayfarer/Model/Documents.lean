import Wayfarer.Model.Validate

/-!
# Documents as they are stored

A collection, a folder and a saved request are kept as a file would have them: an object, with
members nobody reads kept too. `metaId` is the key of its store; `collectionId`, `parentFolderId`
and `folderId` are its place in the tree (`placeFields`), and the rest is its own (`own`).
-/

set_option autoImplicit false

namespace Wayfarer

open Library

/-! ## Members of an object -/

/-- The members of a value; none where it is not an object. -/
def fieldsOf : Option Json → Fields
  | some (.object members) => members
  | _ => []

/-- The text of a value; none where it is not a text. -/
def textOf : Option Json → Option Text
  | some (.string t) => some t
  | _ => none

/-- Whether a value is a number. -/
def isNumber : Option Json → Bool
  | some (.number _) => true
  | some (.infinite _) => true
  | _ => false

/-- A member set: its value replaced where it stands, or a new member at the end. -/
def setField (object : Fields) (key : Text) (value : Json) : Fields :=
  if (field object key).isSome then OrderedMap.replaced object key value
  else object ++ [(key, value)]

/-- A member set to nothing. -/
def removeField (object : Fields) (key : Text) : Fields :=
  object.filter fun member => member.1 ≠ key

/-- What a member holds after another, or it, was set. -/
theorem field_setField (object : Fields) (key key' : Text) (value : Json) :
    field (setField object key value) key' =
      if key = key' then some value else field object key' := by
  have hreplaced := OrderedMap.find?_replaced object key key' value
  unfold setField
  split_ifs with hsome hkey hkey
  · rw [if_pos hkey] at hreplaced
    obtain ⟨old, hold⟩ := Option.isSome_iff_exists.mp hsome
    obtain ⟨member, hmember, -⟩ := Option.map_eq_some_iff.mp hold
    rw [hmember] at hreplaced
    exact hreplaced
  · rwa [if_neg hkey] at hreplaced
  · have hnone : field object key = none := by simpa using hsome
    rw [field, Option.map_eq_none_iff] at hnone
    rw [field, List.find?_append, ← hkey, hnone]
    simp
  · simp [field, List.find?_append, hkey]

@[simp]
theorem field_setField_self (object : Fields) (key : Text) (value : Json) :
    field (setField object key value) key = some value := by
  rw [field_setField, if_pos rfl]

theorem field_setField_of_ne {object : Fields} {key key' : Text} {value : Json}
    (h : key ≠ key') : field (setField object key value) key' = field object key' := by
  rw [field_setField, if_neg h]

@[simp]
theorem field_removeField_self (object : Fields) (key : Text) :
    field (removeField object key) key = none := by
  simp [field, removeField, List.find?_eq_none]

theorem field_removeField_of_ne {object : Fields} {key key' : Text} (h : key ≠ key') :
    field (removeField object key) key' = field object key' := by
  induction object with
  | nil => rfl
  | cons member object ih =>
      have hcons : removeField (member :: object) key =
          if member.1 = key then removeField object key
          else member :: removeField object key := by
        by_cases hkey : member.1 = key <;> simp [removeField, hkey]
      rw [hcons]
      split_ifs with hkey
      · have hne : ¬ member.1 = key' := fun h' => h (hkey.symm.trans h')
        simpa [field, hne] using ih
      · by_cases hmember : member.1 = key'
        · simp [field, hmember]
        · simpa [field, hmember] using ih

/-! ## Documents -/

/-- A stored document. -/
abbrev Doc := Fields

namespace Doc

/-- The id a document names itself with. -/
def id (doc : Doc) : Option Text :=
  textOf (field doc (units "id"))

/-- What is noted about a document: its id, and when it was made and changed. -/
def metaFields (doc : Doc) : Fields :=
  fieldsOf (field doc (units "meta"))

/-- The key of a document's store. -/
def metaId (doc : Doc) : Text :=
  (textOf (field (Doc.metaFields doc) (units "id"))).getD []

/-- The collection a folder or a request is of. -/
def collectionId (doc : Doc) : Text :=
  (textOf (field doc (units "collectionId"))).getD []

/-- The members that say which document it is, and where it stands. -/
def placeFields : List Text :=
  [units "id", units "meta", units "collectionId", units "parentFolderId", units "folderId",
    units "scriptTrust"]

/-- What a document holds beside its identity and its place. -/
def own (doc : Doc) : Fields :=
  doc.filter fun member => member.1 ∉ placeFields

/-- A document under another key. -/
def withMetaId (doc : Doc) (id : Text) : Doc :=
  setField doc (units "meta") (.object (setField (Doc.metaFields doc) (units "id") (.string id)))

/-- What is noted about a document, changed now. -/
def touched (doc : Doc) (now : Json) : Doc :=
  setField doc (units "meta") (.object (setField (Doc.metaFields doc) (units "updatedAt") now))

/-- A document that says it is of a collection. -/
def withCollectionId (doc : Doc) (collectionId : Text) : Doc :=
  setField doc (units "collectionId") (.string collectionId)

/-- A document that names itself by its key. -/
def ensureDocId (doc : Doc) : Doc :=
  setField doc (units "id") (.string (Doc.metaId doc))

/-! ### What the updates change -/

theorem own_setField {doc : Doc} {key : Text} {value : Json} (h : key ∈ placeFields) :
    own (setField doc key value) = own doc := by
  unfold setField
  split_ifs with hsome
  · clear hsome
    induction doc with
    | nil => rfl
    | cons member doc ih =>
        by_cases hkey : member.1 = key
        · simpa [own, OrderedMap.replaced, hkey, h] using ih
        · by_cases hplace : member.1 ∈ placeFields
          · simpa [own, OrderedMap.replaced, hkey, hplace] using ih
          · simpa [own, OrderedMap.replaced, hkey, hplace] using ih
  · simp [own, h]

theorem own_removeField {doc : Doc} {key : Text} (h : key ∈ placeFields) :
    own (removeField doc key) = own doc := by
  unfold own removeField
  rw [List.filter_filter]
  refine List.filter_congr fun member _ => ?_
  by_cases hkey : member.1 = key
  · simp [hkey, h]
  · simp [hkey]

@[simp]
theorem own_withMetaId (doc : Doc) (id : Text) : own (withMetaId doc id) = own doc :=
  own_setField (by decide)

@[simp]
theorem own_touched (doc : Doc) (now : Json) : own (touched doc now) = own doc :=
  own_setField (by decide)

@[simp]
theorem own_withCollectionId (doc : Doc) (c : Text) : own (withCollectionId doc c) = own doc :=
  own_setField (by decide)

@[simp]
theorem own_ensureDocId (doc : Doc) : own (ensureDocId doc) = own doc :=
  own_setField (by decide)

theorem metaFields_setField {doc : Doc} {key : Text} {value : Json} (h : key ≠ units "meta") :
    metaFields (setField doc key value) = metaFields doc := by
  rw [metaFields, field_setField_of_ne h, metaFields]

theorem metaId_setField {doc : Doc} {key : Text} {value : Json} (h : key ≠ units "meta") :
    metaId (setField doc key value) = metaId doc := by
  rw [metaId, metaFields_setField h, metaId]

theorem metaId_removeField {doc : Doc} {key : Text} (h : key ≠ units "meta") :
    metaId (removeField doc key) = metaId doc := by
  rw [metaId, metaFields, field_removeField_of_ne h, metaId, metaFields]

@[simp]
theorem metaFields_withMetaId (doc : Doc) (id : Text) :
    metaFields (withMetaId doc id) = setField (metaFields doc) (units "id") (.string id) := by
  rw [metaFields, withMetaId, field_setField_self]
  rfl

@[simp]
theorem metaId_withMetaId (doc : Doc) (id : Text) : metaId (withMetaId doc id) = id := by
  rw [metaId, metaFields_withMetaId, field_setField_self]
  rfl

@[simp]
theorem metaId_touched (doc : Doc) (now : Json) : metaId (touched doc now) = metaId doc := by
  rw [metaId, metaFields, touched, field_setField_self, fieldsOf,
    field_setField_of_ne (by decide), metaId]

@[simp]
theorem metaId_withCollectionId (doc : Doc) (c : Text) :
    metaId (withCollectionId doc c) = metaId doc :=
  metaId_setField (by decide)

@[simp]
theorem metaId_ensureDocId (doc : Doc) : metaId (ensureDocId doc) = metaId doc :=
  metaId_setField (by decide)

@[simp]
theorem id_ensureDocId (doc : Doc) : id (ensureDocId doc) = some (metaId doc) := by
  rw [id, ensureDocId, field_setField_self]
  rfl

theorem collectionId_setField {doc : Doc} {key : Text} {value : Json}
    (h : key ≠ units "collectionId") :
    collectionId (setField doc key value) = collectionId doc := by
  rw [collectionId, field_setField_of_ne h, collectionId]

@[simp]
theorem collectionId_withCollectionId (doc : Doc) (c : Text) :
    collectionId (withCollectionId doc c) = c := by
  rw [collectionId, withCollectionId, field_setField_self]
  rfl

end Doc

end Wayfarer
