import Wayfarer.Library.Cut
import Wayfarer.Store.Collections
import Wayfarer.Variables.References

/-!
# The address of a Postman request

`addressParts` cuts an address the way Postman does, its variables held aside as private characters
so that no cut falls inside one; `postmanUrl` writes the parts, and `address` is what an import
makes of them.

`rejoins_iff` says when the address comes back as it was: while there are private characters for its
variables.
-/

set_option autoImplicit false

namespace Wayfarer

open Library

/-! ## Variables held aside -/

/-- The variables of a text, in their order, by what stands between their braces. -/
def placeholders (t : Text) : List Text :=
  (parts placeholderAt t).filterMap Sum.getRight?

/-- The character that says a variable is held. -/
def hold : CodeUnit := 0xE000

/-- A text with its variables held, each as `hold` and a character for its number. -/
def holdFrom : Nat → List (CodeUnit ⊕ Text) → Text
  | _, [] => []
  | index, .inl c :: rest => c :: holdFrom index rest
  | index, .inr _ :: rest => hold :: (0xE001 + index).toUInt16 :: holdFrom (index + 1) rest

/-- An address with its variables held aside, and the variables. One that holds `hold`
already stays as it is. -/
def holdAside (raw : Text) : Text × List Text :=
  if raw.contains hold then (raw, [])
  else (holdFrom 0 (parts placeholderAt raw), (placeholders raw).map placeholderText)

/-- The number of the variable that is held at the start of a text, and what follows it. -/
def heldAt : Text → Option (Nat × Text)
  | a :: b :: rest =>
      if a = hold ∧ 0xE001 ≤ b.toNat ∧ b.toNat ≤ 0xF8FF then some (b.toNat - 0xE001, rest) else none
  | _ => none

/-- A part of an address with its variables in it. -/
def back (held : List Text) (part : Text) : Text :=
  if held = [] then part
  else replaceMarks heldAt (fun index => held[index]?.getD (units "undefined")) part

/-! ## The parts of an address -/

/-- The parts of an address. -/
structure AddressParts where
  protocol : Option Text
  /-- The user, and the password. -/
  auth : Option (Text × Option Text)
  host : List Text
  port : Option Text
  path : Option (List Text)
  query : Option (List (Text × Option Text))
  hash : Option Text

namespace AddressParts

/-- Each text of the parts changed. -/
def map (f : Text → Text) (p : AddressParts) : AddressParts where
  protocol := p.protocol.map f
  auth := p.auth.map fun login => (f login.1, login.2.map f)
  host := p.host.map f
  port := p.port.map f
  path := p.path.map (List.map f)
  query := p.query.map (List.map fun pair => (f pair.1, pair.2.map f))
  hash := p.hash.map f

/-- The texts of the parts, as they stand in the address. -/
def texts (p : AddressParts) : List Text :=
  p.protocol.toList ++ (p.auth.elim [] fun login => login.1 :: login.2.toList) ++ p.host ++
    p.port.toList ++ p.path.getD [] ++
    ((p.query.getD []).flatMap fun pair => pair.1 :: pair.2.toList) ++ p.hash.toList

end AddressParts

/-- The scheme in front of an address, and what follows it. -/
def cutScheme (rest : Text) : Option Text × Text :=
  match cutAtWord (units "://") rest with
  | some (scheme, after) =>
      if scheme ≠ [] ∧ 0x2F ∉ scheme then (some scheme, after) else (none, rest)
  | none => (none, rest)

/-- The user in front of a host, and the host. -/
def cutUser (authority : Text) : Option Text × Text :=
  match cutAtLast 0x40 authority with
  | some (user, host) => (some user, host)
  | none => (none, authority)

/-- A host, and the port behind it. A host in brackets is not cut at its own colons. -/
def cutPort (authority : Text) : Text × Option Text :=
  if authority.head? = some 0x5B then
    match cutAtWord (units "]:") authority with
    | some (host, port) => (host ++ [0x5D], some port)
    | none => (authority, none)
  else
    match cutAtLast 0x3A authority with
    | some (host, port) => (host, some port)
    | none => (authority, none)

/-- An address cut as text. -/
def cutAddress (raw : Text) : AddressParts :=
  let (beforeHash, hash) := cutAt 0x23 raw
  let (beforeQuery, queryText) := cutAt 0x3F beforeHash
  let (protocol, rest) := cutScheme beforeQuery
  let (authority, path) := cutAt 0x2F rest
  let (user, hostAndPort) := cutUser authority
  let (host, port) := cutPort hostAndPort
  { protocol
    auth := user.map (cutAt 0x3A)
    host := if host.head? = some 0x5B then [host] else splitOn 0x2E host
    port
    path := path.map (splitOn 0x2F)
    query := queryText.map fun text => (splitOn 0x26 text).map (cutAt 0x3D)
    hash }

/-- The parts of an address, never cut inside a variable. -/
def addressParts (raw : Text) : AddressParts :=
  (cutAddress (holdAside raw).1).map (back (holdAside raw).2)

/-! ## The file -/

/-- A pair of the query, as the file has it. -/
def queryEntry (pair : Text × Option Text) : Json :=
  .object [(units "key", .string pair.1), (units "value", pair.2.elim .null .string)]

/-- A row that is switched off, as the file has it. -/
def disabledEntry (row : Row) : Json :=
  .object [(units "key", .string row.key), (units "value", .string row.value),
    (units "disabled", .bool true)]

/-- The query that is sent, with the rows that are switched off in their places. -/
def queryWithRows : List Row → List (Text × Option Text) → List Json
  | [], sent => sent.map queryEntry
  | row :: rows, sent =>
      if row.enabled then
        match sent with
        | [] => queryWithRows rows []
        | next :: sent => queryEntry next :: queryWithRows rows sent
      else disabledEntry row :: queryWithRows rows sent

/-- The members of Postman's `auth`. -/
def authMembers (login : Text × Option Text) : List (Text × Option Json) :=
  [(units "user", some (.string login.1)), (units "password", login.2.map .string)]

/-- The members of Postman's `url`, from the parts of the address and the query with its rows. -/
def urlMembers (raw : Text) (p : AddressParts) (query : List Json) : List (Text × Option Json) :=
  [(units "raw", some (.string raw)),
    (units "protocol", p.protocol.map .string),
    (units "auth", p.auth.map fun login => .object (members (authMembers login))),
    (units "host", some (.array (p.host.map .string))),
    (units "port", p.port.map .string),
    (units "path", p.path.map fun path => .array (path.map .string)),
    (units "query", if query.isEmpty then none else some (.array query)),
    (units "hash", p.hash.map .string)]

/-- Postman's `url`. -/
def postmanUrl (raw : Text) (params : List Row) : Fields :=
  let p := addressParts raw
  members (urlMembers raw p (queryWithRows params (p.query.getD [])))

/-! ## The import -/

/-- A value as text: numbers and booleans too, and nothing for none. -/
def postmanText : Option Json → Text
  | none => []
  | some .null => []
  | some (.string t) => t
  | some (.bool true) => units "true"
  | some (.bool false) => units "false"
  | some (.number n) => n.text
  | some (.infinite false) => units "Infinity"
  | some (.infinite true) => units "-Infinity"
  | some (.array items) => (Json.array items).stringify
  | some (.object members) => (Json.object members).stringify

/-- The objects of a list. -/
def postmanObjects : Option Json → List Fields
  | some (.array items) => items.filterMap fun
      | .object members => some members
      | _ => none
  | _ => []

/-- A part as its own text, where it holds nothing that an address is cut at but in a variable. -/
def kept (marks part : Text) : Text :=
  (parts placeholderAt part).flatMap fun
    | .inl c => if c ∈ marks then percentByte c.toNat else [c]
    | .inr inside => placeholderText inside

/-- The path variable of the file that a part names. -/
def pathVariable (listed : List Fields) : Text → Option Fields
  | 0x3A :: name => listed.find? fun entry => textOf (field entry (units "key")) = some name
  | _ => none

/-- A part of the path, with a path variable replaced by its value or by a variable of its name. -/
def segment (listed : List Fields) (part : Text) : Text :=
  match pathVariable listed part with
  | none => part
  | some entry =>
      match postmanText (field entry (units "value")) with
      | [] => placeholderText (part.drop 1)
      | given => given

/-- A part of the path, as the address has it. -/
def inPath (listed : List Fields) (part : Text) : Text :=
  kept (units "?#") (segment listed part)

/-- A pair of the query, as the address has it. -/
def queryPair (entry : Fields) : Text :=
  match field entry (units "value") with
  | none | some .null => kept (units "#&=") (postmanText (field entry (units "key")))
  | some value =>
      kept (units "#&=") (postmanText (field entry (units "key"))) ++ units "=" ++
        kept (units "#&") (postmanText (some value))

/-- Whether an entry of the query is sent. -/
def isSent (entry : Fields) : Bool :=
  match field entry (units "disabled") with
  | some (.bool true) => false
  | _ => true

/-- The path of the file, as the address has it. -/
def pathText (listed : List Fields) : Json → Text
  | .array segments =>
      joinWith (units "/") (segments.map fun part => inPath listed (postmanText (some part)))
  | path =>
      let text := postmanText (some path)
      let text := if text.head? = some 0x2F then text.drop 1 else text
      joinWith (units "/") ((splitOn 0x2F text).map (inPath listed))

/-- The address that the parts of a file say. -/
def addressText (value : Fields) (host : Json) : Text :=
  let query := ((postmanObjects (field value (units "query"))).filter isSent).map queryPair
  ((field value (units "protocol")).elim [] fun protocol =>
      postmanText (some protocol) ++ units "://") ++
    ((match field value (units "auth") with
      | some (.object login) =>
          postmanText (field login (units "user")) ++
            ((field login (units "password")).elim [] fun password =>
              units ":" ++ postmanText (some password)) ++ units "@"
      | _ => []) ++
    ((match host with
      | .array labels => joinWith (units ".") (labels.map fun label => postmanText (some label))
      | host => postmanText (some host)) ++
    (((field value (units "port")).elim [] fun port => units ":" ++ postmanText (some port)) ++
    (((field value (units "path")).elim [] fun path =>
      units "/" ++ pathText (postmanObjects (field value (units "variable"))) path) ++
    ((if query.isEmpty then [] else units "?" ++ joinWith (units "&") query) ++
    ((field value (units "hash")).elim [] fun hash => units "#" ++ postmanText (some hash)))))))

/-- The rows of an address that is one text. -/
def rowsInText (url : Text) : List Row :=
  ((addressParts url).query.getD []).map fun pair =>
    { key := pair.1, value := pair.2.getD [], enabled := true }

/-- An entry of the query as a row. One that is switched off is not in the address, and
stays as it is written. -/
def queryRow (entry : Fields) : Row :=
  let key := postmanText (field entry (units "key"))
  let value := postmanText (field entry (units "value"))
  if isSent entry then
    { key := kept (units "#&=") key, value := kept (units "#&") value, enabled := true }
  else { key, value, enabled := false }

/-- An imported address and its rows. -/
structure ImportedAddress where
  url : Text
  params : List Row

/-- The address of a request in the file. -/
def address : Option Json → ImportedAddress
  | some (.object value) =>
      let params := (postmanObjects (field value (units "query"))).map queryRow
      match field value (units "host") with
      | none =>
          let raw := postmanText (field value (units "raw"))
          { url := raw, params := if params.isEmpty then rowsInText raw else params }
      | some host => { url := addressText value host, params }
  | value => { url := postmanText value, params := rowsInText (postmanText value) }

/-- The parts, joined by the import's rule, are the address, and no variable is cut. -/
structure Rejoins (raw : Text) : Prop where
  whole : ∀ params, (address (some (.object (postmanUrl raw params)))).url = raw
  uncut : (addressParts raw).texts.flatMap placeholders = placeholders raw

/-! ## What is held -/

/-- How many variables there are private characters for. -/
def heldCount : Nat := 0xF8FF - 0xE000

/-- A variable that is held, as it is written. -/
def IsHeld (index : Nat) (written : Text) : Prop :=
  index < heldCount ∧ written = [hold, (0xE001 + index).toUInt16]

/-- A character that is no private one. -/
def IsCutMark (c : CodeUnit) : Prop :=
  c.toNat < 0xE000

theorem readsHeld : ReadsMarks heldAt IsHeld where
  read {t index after} hat := by
    simp only [heldAt.eq_def] at hat
    split at hat
    · next a b rest =>
        split_ifs at hat with hheld
        obtain ⟨rfl, rfl⟩ := Prod.mk.inj (Option.some.inj hat)
        obtain ⟨rfl, hfirst, hlast⟩ := hheld
        have hunit : 0xE001 + (b.toNat - 0xE001) = b.toNat := Nat.add_sub_cancel' hfirst
        refine ⟨[hold, b], ⟨by rw [heldCount]; omega, ?_⟩, rfl⟩
        rw [hunit, Nat.toUInt16, UInt16.ofNat_toNat]
    · cases hat
  unread {index written} hmark after := by
    obtain ⟨hindex, rfl⟩ := hmark
    rw [heldCount] at hindex
    have hunit : ((0xE001 + index).toUInt16).toNat = 0xE001 + index := by
      rw [Nat.toUInt16, UInt16.toNat_ofNat']
      omega
    have hheld : hold = hold ∧ 0xE001 ≤ ((0xE001 + index).toUInt16).toNat ∧
        ((0xE001 + index).toUInt16).toNat ≤ 0xF8FF := by
      rw [hunit]
      exact ⟨rfl, by omega, by omega⟩
    rw [List.cons_append, List.cons_append, List.nil_append, heldAt, if_pos hheld, hunit,
      Nat.add_sub_cancel_left]
  ne_nil {index written} hmark := by
    rw [hmark.2]
    exact List.cons_ne_nil _ _

/-- No variable that is held reaches into what starts with another character. -/
theorem unreached_held {c : CodeUnit} (hc : IsCutMark c) (after : Text) :
    Unreached IsHeld (c :: after) := by
  intro index written before rest hmark hbefore heq
  obtain ⟨hindex, rfl⟩ := hmark
  rw [heldCount] at hindex
  match before, hbefore with
  | [x], _ =>
      -- Its second character would be the other one.
      have hsecond : (0xE001 + index).toUInt16 = c := by
        have := congrArg (fun t => t[1]?) heq
        simpa using this
      rw [IsCutMark, ← hsecond, Nat.toUInt16, UInt16.toNat_ofNat'] at hc
      omega
  | x :: y :: before, _ =>
      obtain ⟨rfl, htail⟩ := List.cons.inj heq
      obtain ⟨rfl, -⟩ := List.cons.inj htail
      exact ⟨before, rfl⟩

theorem heldAt_of_ne {c : CodeUnit} (hc : c ≠ hold) (rest : Text) : heldAt (c :: rest) = none := by
  cases rest with
  | nil => rfl
  | cons d rest => exact if_neg fun h => hc h.1

theorem IsCutMark.ne_hold {c : CodeUnit} (hc : IsCutMark c) : c ≠ hold := by
  rintro rfl
  exact absurd hc (Nat.lt_irrefl _)

theorem back_cut (held : List Text) {c : CodeUnit} (hc : IsCutMark c) (front after : Text) :
    back held (front ++ c :: after) = back held front ++ c :: back held after := by
  rw [back, back, back]
  split_ifs
  · rfl
  · rw [readsHeld.replaceMarks_append (unreached_held hc after),
      replaceMarks_of_none _ (heldAt_of_ne hc.ne_hold after)]

theorem back_nil (held : List Text) : back held [] = [] := by
  rw [back]
  split_ifs <;> rfl

/-- A part with its variables is read piece by piece. -/
theorem readsBack (held : List Text) :
    ReadsApart IsCutMark (fun _ => True) (fun c => [c]) (back held) where
  good_nil := trivial
  read_nil := back_nil held
  cut hc _ := ⟨trivial, trivial, trivial, back_cut held hc _ _⟩

/-! ## The parts, put together -/

namespace AddressParts

universe u

variable {γ : Type u}

/-- The parts in one, with what an address is cut at between them. -/
def glue (write : CodeUnit → List γ) (read : Text → List γ) (p : AddressParts) : List γ :=
  (p.protocol.elim [] fun t => read t ++ (write 0x3A ++ (write 0x2F ++ write 0x2F))) ++
    ((p.auth.elim [] fun login =>
      (read login.1 ++ login.2.elim [] fun t => write 0x3A ++ read t) ++ write 0x40) ++
    ((write 0x2E).intercalate (p.host.map read) ++
    ((p.port.elim [] fun t => write 0x3A ++ read t) ++
    ((p.path.elim [] fun path => write 0x2F ++ (write 0x2F).intercalate (path.map read)) ++
    ((p.query.elim [] fun pairs => write 0x3F ++ (write 0x26).intercalate
      (pairs.map fun pair => read pair.1 ++ pair.2.elim [] fun t => write 0x3D ++ read t)) ++
    (p.hash.elim [] fun t => write 0x23 ++ read t))))))

/-- The address of the parts. -/
def joined (p : AddressParts) : Text :=
  p.glue (fun c => [c]) id

theorem glue_map (write : CodeUnit → List γ) (read : Text → List γ) (f : Text → Text)
    (p : AddressParts) : (p.map f).glue write read = p.glue write (read ∘ f) := by
  obtain ⟨protocol, auth, host, port, path, query, hash⟩ := p
  rw [glue, glue, map]
  simp only [Option.elim_map, List.map_map, Function.comp_def]

theorem intercalate_nil (items : List (List γ)) :
    ([] : List γ).intercalate items = items.flatten := by
  induction items with
  | nil => rfl
  | cons a items ih =>
      cases items with
      | nil => simp
      | cons b items =>
          rw [List.intercalate_cons_cons, ih, List.append_nil]
          exact List.flatten_cons.symm

/-- Without what stands between them, the parts are their texts. -/
theorem glue_texts (read : Text → List γ) (p : AddressParts) :
    p.glue (fun _ => []) read = p.texts.flatMap read := by
  have hoption : ∀ o : Option Text,
      (o.elim [] fun t => [] ++ read t) = o.toList.flatMap read := by
    intro o
    cases o with
    | none => rfl
    | some t => exact (List.append_nil _).symm
  obtain ⟨protocol, auth, host, port, path, query, hash⟩ := p
  rw [glue, texts]
  simp only [intercalate_nil, hoption, List.append_nil, List.flatMap_append, List.append_assoc,
    ← List.flatMap_def, List.flatMap_assoc]
  congr 1
  · cases protocol <;> simp
  · congr 1
    · cases auth <;> simp
    · congr 2
      congr 1
      · cases path <;> simp [List.flatMap_def]
      · congr 1
        cases query <;> simp

/-- A reading that goes piece by piece reads an address part by part. -/
theorem reads_joined {Good : Text → Prop} {write : CodeUnit → List γ} {read : Text → List γ}
    (h : ReadsApart IsCutMark Good write read) (p : AddressParts) :
    h.Reads p.joined (p.glue write read) := by
  have hmark : ∀ c ∈ units "://?#@.&=", IsCutMark c := by
    unfold IsCutMark
    decide
  have hcolon := hmark 0x3A (by decide)
  have hslash := hmark 0x2F (by decide)
  have hat := hmark 0x40 (by decide)
  have hself : ∀ t, h.Reads t (read t) := h.reads_self
  have hpair : ∀ pair : Text × Option Text,
      h.Reads (pair.1 ++ pair.2.elim [] fun t => [0x3D] ++ t)
        (read pair.1 ++ pair.2.elim [] fun t => write 0x3D ++ read t) := fun pair =>
    ReadsApart.Reads.append h (hself pair.1) (h.reads_behind (hmark 0x3D (by decide)) hself pair.2)
      (ReadsApart.opens_behind (hmark 0x3D (by decide)) pair.2 id)
  -- From the back: each part that may be missing starts with its separator.
  have hhash := h.reads_behind (hmark 0x23 (by decide)) hself p.hash
  have hquery := h.reads_behind (hmark 0x3F (by decide)) (fun pairs : List (Text × Option Text) =>
    h.reads_joinWith (hmark 0x26 (by decide)) fun pair (_ : pair ∈ pairs) => hpair pair) p.query
  have hpath := h.reads_behind hslash (fun path : List Text =>
    h.reads_joinWith hslash fun t (_ : t ∈ path) => hself t) p.path
  have hport := h.reads_behind hcolon hself p.port
  have hhost := h.reads_joinWith (hmark 0x2E (by decide)) fun t (_ : t ∈ p.host) => hself t
  have hopensHash := ReadsApart.opens_behind (hmark 0x23 (by decide)) p.hash id
  have hopensQuery := ReadsApart.opens_append (ReadsApart.opens_behind (hmark 0x3F (by decide))
    p.query fun pairs => joinWith [0x26] (pairs.map fun pair =>
      pair.1 ++ pair.2.elim [] fun t => [0x3D] ++ t)) hopensHash
  have hopensPath := ReadsApart.opens_append (ReadsApart.opens_behind hslash p.path fun path =>
    joinWith [0x2F] (path.map id)) hopensQuery
  have hopensPort := ReadsApart.opens_append (ReadsApart.opens_behind hcolon p.port id) hopensPath
  have hbehind := ReadsApart.Reads.append h hhost (ReadsApart.Reads.append h hport
    (ReadsApart.Reads.append h hpath (ReadsApart.Reads.append h hquery hhash hopensHash)
      hopensQuery) hopensPath) hopensPort
  -- What stands in front of the host ends with a separator.
  have hauth : h.Leads
      (p.auth.elim [] fun login => (login.1 ++ login.2.elim [] fun t => [0x3A] ++ t) ++ [0x40])
      (p.auth.elim [] fun login =>
        (read login.1 ++ login.2.elim [] fun t => write 0x3A ++ read t) ++ write 0x40) := by
    cases p.auth with
    | none => exact h.leads_nil
    | some login =>
        exact ReadsApart.Reads.leads h (ReadsApart.Reads.append h (hself login.1)
          (h.reads_behind hcolon hself login.2) (ReadsApart.opens_behind hcolon login.2 id)) hat
  have hprotocol : h.Leads
      (p.protocol.elim [] fun t => t ++ ([0x3A] ++ ([0x2F] ++ [0x2F])))
      (p.protocol.elim [] fun t => read t ++ (write 0x3A ++ (write 0x2F ++ write 0x2F))) := by
    cases p.protocol with
    | none => exact h.leads_nil
    | some t =>
        have hfirst := ReadsApart.Reads.leads h (hself t) hcolon
        have hwhole := ReadsApart.Leads.append h hfirst
          (ReadsApart.Leads.append h (h.leads_sep hslash) (h.leads_sep hslash))
        rw [List.append_assoc, List.append_assoc] at hwhole
        exact hwhole
  exact ReadsApart.Leads.append_reads h hprotocol (ReadsApart.Leads.append_reads h hauth hbehind)

end AddressParts

/-! ## The cuts of an address -/

theorem append_cutScheme (t : Text) :
    ((cutScheme t).1.elim [] fun scheme => scheme ++ units "://") ++ (cutScheme t).2 = t := by
  rw [cutScheme]
  cases hcut : cutAtWord (units "://") t with
  | none => rfl
  | some cut =>
      dsimp only
      split_ifs
      · rw [append_of_cutAtWord hcut, Option.elim_some, List.append_assoc]
      · rfl

theorem append_cutUser (t : Text) :
    ((cutUser t).1.elim [] fun user => user ++ [0x40]) ++ (cutUser t).2 = t := by
  rw [cutUser]
  cases hcut : cutAtLast 0x40 t with
  | none => rfl
  | some cut =>
      rw [append_of_cutAtLast hcut, Option.elim_some, List.append_assoc]
      rfl

theorem append_cutPort (t : Text) :
    (cutPort t).1 ++ ((cutPort t).2.elim [] fun port => [0x3A] ++ port) = t := by
  rw [cutPort]
  split_ifs
  · cases hcut : cutAtWord (units "]:") t with
    | none => exact List.append_nil t
    | some cut =>
        rw [append_of_cutAtWord hcut, Option.elim_some, List.append_assoc]
        rfl
  · cases hcut : cutAtLast 0x3A t with
    | none => exact List.append_nil t
    | some cut =>
        rw [append_of_cutAtLast hcut, Option.elim_some]
        rfl

theorem joinWith_cutPairs (t : Text) :
    joinWith [0x26] (((splitOn 0x26 t).map (cutAt 0x3D)).map fun pair =>
      pair.1 ++ pair.2.elim [] fun t => [0x3D] ++ t) = t := by
  have hpair : ((fun pair : Text × Option Text => pair.1 ++ pair.2.elim [] fun t => [0x3D] ++ t) ∘
      cutAt 0x3D) = id := funext fun t => append_cutAt 0x3D t
  rw [List.map_map, hpair, List.map_id]
  exact joinWith_splitOn 0x26 t

/-- An address that was cut is put together again. -/
theorem joined_cutAddress (raw : Text) : (cutAddress raw).joined = raw := by
  have hhost : ∀ host : Text, joinWith [0x2E]
      ((if host.head? = some 0x5B then [host] else splitOn 0x2E host).map id) = host := by
    intro host
    rw [List.map_id]
    split_ifs
    · exact List.intercalate_singleton
    · exact joinWith_splitOn 0x2E host
  have hpath : ∀ t : Text, (cutAt 0x2F t).1 ++ (((cutAt 0x2F t).2.map (splitOn 0x2F)).elim []
      fun path => [0x2F] ++ joinWith [0x2F] (path.map id)) = t := by
    intro t
    conv_rhs => rw [← append_cutAt 0x2F t]
    cases (cutAt 0x2F t).2 with
    | none => rfl
    | some path => rw [Option.map_some, Option.elim_some, List.map_id, joinWith_splitOn]; rfl
  have hquery : ∀ t : Text, (cutAt 0x3F t).1 ++ (((cutAt 0x3F t).2.map fun query =>
      (splitOn 0x26 query).map (cutAt 0x3D)).elim [] fun pairs =>
        [0x3F] ++ joinWith [0x26] (pairs.map fun pair =>
          pair.1 ++ pair.2.elim [] fun t => [0x3D] ++ t)) = t := by
    intro t
    conv_rhs => rw [← append_cutAt 0x3F t]
    cases (cutAt 0x3F t).2 with
    | none => rfl
    | some query => rw [Option.map_some, Option.elim_some, joinWith_cutPairs]; rfl
  have huser : ∀ t : Text, (((cutUser t).1.map (cutAt 0x3A)).elim [] fun login =>
      (login.1 ++ login.2.elim [] fun t => [0x3A] ++ t) ++ [0x40]) ++ (cutUser t).2 = t := by
    intro t
    conv_rhs => rw [← append_cutUser t]
    cases (cutUser t).1 with
    | none => rfl
    | some user =>
        rw [Option.map_some, Option.elim_some, Option.elim_some]
        congr 2
        exact append_cutAt 0x3A user
  -- The cuts are undone one after another, from the last.
  have hbeforeHash := append_cutAt 0x23 raw
  have hbeforeQuery := hquery (cutAt 0x23 raw).1
  have hscheme := append_cutScheme (cutAt 0x3F (cutAt 0x23 raw).1).1
  have hrest := hpath (cutScheme (cutAt 0x3F (cutAt 0x23 raw).1).1).2
  have hauthority := huser (cutAt 0x2F (cutScheme (cutAt 0x3F (cutAt 0x23 raw).1).1).2).1
  have hport := append_cutPort (cutUser (cutAt 0x2F
    (cutScheme (cutAt 0x3F (cutAt 0x23 raw).1).1).2).1).2
  rw [← hhost (cutPort (cutUser (cutAt 0x2F
    (cutScheme (cutAt 0x3F (cutAt 0x23 raw).1).1).2).1).2).1] at hport
  have hundone : ∀ {scheme user host port path query hash beforePort beforePath afterScheme
      beforeQuery beforeHash : Text}, host ++ port = beforePort → user ++ beforePort = beforePath →
      beforePath ++ path = afterScheme → scheme ++ afterScheme = beforeQuery →
      beforeQuery ++ query = beforeHash → beforeHash ++ hash = raw →
      scheme ++ (user ++ (host ++ (port ++ (path ++ (query ++ hash))))) = raw := by
    rintro scheme user host port path query hash _ _ _ _ _ rfl rfl rfl rfl rfl rfl
    simp only [List.append_assoc]
  exact hundone hport hauthority hrest hscheme hbeforeQuery hbeforeHash

/-! ## What is escaped on the way back -/

theorem placeholderText_of_isPlaceholder (inside written : Text)
    (h : IsPlaceholder inside written) :
    written = placeholderText inside :=
  h.2

/-- A part that holds no mark but in its variables stays as it is. -/
theorem kept_eq {marks part : Text} (h : ∀ c, .inl c ∈ parts placeholderAt part → c ∉ marks) :
    kept marks part = part := by
  refine Eq.trans ?_
    (readsPlaceholders.replaceMarks_self placeholderText_of_isPlaceholder part)
  rw [kept, replaceMarks, ofParts]
  refine List.flatMap_congr fun piece hpiece => ?_
  cases piece with
  | inl c => exact if_neg (h c hpiece)
  | inr inside => rfl

theorem mem_of_inl_mem_parts {t : Text} {c : CodeUnit} (h : .inl c ∈ parts placeholderAt t) :
    c ∈ t := by
  induction t using readsPlaceholders.induct with
  | nil => cases h
  | mark t inside after hat ih =>
      obtain ⟨written, -, rfl⟩ := readsPlaceholders.read hat
      rw [readsPlaceholders.parts_of_mark hat] at h
      rcases List.mem_cons.mp h with heq | h
      · cases heq
      · exact List.mem_append_right _ (ih h)
  | plain d rest hat ih =>
      rw [parts_of_none hat] at h
      rcases List.mem_cons.mp h with heq | h
      · cases heq
        exact List.mem_cons_self
      · exact List.mem_cons_of_mem _ (ih h)

/-- Variables. -/
def AreHeld (held : List Text) : Prop :=
  ∀ t ∈ held, ∃ inside, IsPlaceholder inside t

/-- A character outside the variables of a part was in the part before, unless the variable was not
there. -/
theorem mem_of_inl_mem_back {held : List Text} (hheld : AreHeld held) {part : Text} {c : CodeUnit}
    (h : .inl c ∈ parts placeholderAt (back held part)) : c ∈ part ∨ c ∈ units "undefined" := by
  have hreplaced : ∀ front, .inl c ∈ parts placeholderAt (front ++
      replaceMarks heldAt (fun index => held[index]?.getD (units "undefined")) part) →
      c ∈ front ∨ c ∈ part ∨ c ∈ units "undefined" := by
    clear h
    -- A held mark is read as what it holds, and one of no variable as `undefined`.
    induction part using readsHeld.induct with
    | nil =>
        intro front h
        rw [replaceMarks_nil, List.append_nil] at h
        exact .inl (mem_of_inl_mem_parts h)
    | mark part index after hat ih =>
        intro front h
        obtain ⟨written, -, rfl⟩ := readsHeld.read hat
        rw [readsHeld.replaceMarks_of_mark hat] at h
        cases hget : held[index]? with
        | none =>
            rw [hget, Option.getD_none, ← List.append_assoc] at h
            rcases ih _ h with hmem | hmem | hmem
            · rcases List.mem_append.mp hmem with hmem | hmem
              · exact .inl hmem
              · exact .inr (.inr hmem)
            · exact .inr (.inl (List.mem_append_right _ hmem))
            · exact .inr (.inr hmem)
        | some variable' =>
            obtain ⟨inside, hinside, rfl⟩ := hheld _ (List.mem_of_getElem? hget)
            -- A variable that was held aside is one placeholder again.
            rw [hget, Option.getD_some, readsPlaceholders.parts_append
              (unreached_placeholder isPlaceholder_self inside _), List.mem_append,
              readsPlaceholders.parts_of_mark
                (readsPlaceholders.unread ⟨hinside, rfl⟩ _)] at h
            rcases h with h | h
            · exact .inl (mem_of_inl_mem_parts h)
            · rcases List.mem_cons.mp h with heq | h
              · cases heq
              · rcases ih [] h with hmem | hmem | hmem
                · cases hmem
                · exact .inr (.inl (List.mem_append_right _ hmem))
                · exact .inr (.inr hmem)
    | plain d rest hat ih =>
        intro front h
        rw [replaceMarks_of_none _ hat, ← List.singleton_append, ← List.append_assoc] at h
        rcases ih _ h with hmem | hmem | hmem
        · rcases List.mem_append.mp hmem with hmem | hmem
          · exact .inl hmem
          · exact .inr (.inl (List.mem_singleton.mp hmem ▸ List.mem_cons_self))
        · exact .inr (.inl (List.mem_cons_of_mem _ hmem))
        · exact .inr (.inr hmem)
  rw [back] at h
  split_ifs at h
  · exact .inl (mem_of_inl_mem_parts h)
  · rcases hreplaced [] h with hmem | hmem
    · cases hmem
    · exact hmem

/-- A part that is cut at the marks stays as it is. -/
theorem kept_back {held : List Text} (hheld : AreHeld held) {marks part : Text}
    (hmarks : ∀ c ∈ units "undefined", c ∉ marks) (hpart : ∀ c ∈ part, c ∉ marks) :
    kept marks (back held part) = back held part := by
  refine kept_eq fun c hc => ?_
  rcases mem_of_inl_mem_back hheld hc with hmem | hmem
  · exact hpart c hmem
  · exact hmarks c hmem

/-- The parts of a path and of a query hold nothing that is escaped in them. -/
structure KeptAsIs (p : AddressParts) : Prop where
  path : ∀ path, p.path = some path → ∀ t ∈ path, kept (units "?#") t = t
  query : ∀ query, p.query = some query → query ≠ []
  keys : ∀ query, p.query = some query → ∀ pair ∈ query, kept (units "#&=") pair.1 = pair.1
  values : ∀ query, p.query = some query → ∀ pair ∈ query, ∀ value, pair.2 = some value →
    kept (units "#&") value = value

theorem areHeld_holdAside (raw : Text) : AreHeld (holdAside raw).2 := by
  intro t ht
  rw [holdAside] at ht
  split_ifs at ht
  · cases ht
  · obtain ⟨inside, hinside, rfl⟩ := List.mem_map.mp ht
    obtain ⟨part, hpart, hget⟩ := List.mem_filterMap.mp hinside
    rw [Sum.getRight?_eq_some_iff.mp hget] at hpart
    obtain ⟨-, written, -, hwritten, -⟩ := readsPlaceholders.exists_of_mem_parts hpart
    exact ⟨inside, hwritten.1, rfl⟩

/-- The path holds no mark that ends it. -/
theorem marks_path {raw : Text} {path : List Text} (hpath : (cutAddress raw).path = some path) :
    ∀ t ∈ path, ∀ c ∈ t, c ∉ units "?#" := by
  intro t ht c hc
  obtain ⟨text, htext, rfl⟩ := Option.map_eq_some_iff.mp hpath
  have hrest := mem_cutAt.2 text htext ((mem_splitOn ht).2 c hc)
  have hquery : c ∈ (cutAt 0x3F (cutAt 0x23 raw).1).1 := by
    rw [← append_cutScheme (cutAt 0x3F (cutAt 0x23 raw).1).1]
    exact List.mem_append_right _ hrest
  have hmarks : c ≠ 0x3F ∧ c ≠ 0x23 := by
    constructor
    · rintro rfl
      exact not_mem_cutAt 0x3F _ hquery
    · rintro rfl
      exact not_mem_cutAt 0x23 _ (mem_cutAt.1 hquery)
  have hunits : units "?#" = [0x3F, 0x23] := rfl
  rw [hunits]
  simp [hmarks]

/-- A pair of the query holds no mark that ends it, and its key no equals sign. -/
theorem marks_query {raw : Text} {query : List (Text × Option Text)}
    (hquery : (cutAddress raw).query = some query) :
    query ≠ [] ∧ ∀ pair ∈ query, (∀ c ∈ pair.1, c ∉ units "#&=") ∧
      ∀ value, pair.2 = some value → ∀ c ∈ value, c ∉ units "#&" := by
  obtain ⟨text, htext, rfl⟩ := Option.map_eq_some_iff.mp hquery
  refine ⟨fun hnil => splitOn_ne_nil _ _ (List.map_eq_nil_iff.mp hnil), fun pair hpair => ?_⟩
  obtain ⟨piece, hpiece, rfl⟩ := List.mem_map.mp hpair
  have hmarks : ∀ c ∈ piece, c ≠ 0x23 ∧ c ≠ 0x26 := by
    intro c hc
    constructor
    · rintro rfl
      exact not_mem_cutAt 0x23 raw (mem_cutAt.2 text htext ((mem_splitOn hpiece).2 _ hc))
    · rintro rfl
      exact (mem_splitOn hpiece).1 hc
  constructor
  · intro c hc
    have hequals : c ≠ 0x3D := by
      rintro rfl
      exact not_mem_cutAt 0x3D piece hc
    have hunits : units "#&=" = [0x23, 0x26, 0x3D] := rfl
    rw [hunits]
    simp [hmarks c (mem_cutAt.1 hc), hequals]
  · intro value hvalue c hc
    have hunits : units "#&" = [0x23, 0x26] := rfl
    rw [hunits]
    simp [hmarks c (mem_cutAt.2 value hvalue hc)]

/-- What an address is cut at is in none of its parts. -/
theorem keptAsIs_addressParts (raw : Text) : KeptAsIs (addressParts raw) where
  path path hpath t ht := by
    obtain ⟨cut, hcut, rfl⟩ := Option.map_eq_some_iff.mp hpath
    obtain ⟨piece, hpiece, rfl⟩ := List.mem_map.mp ht
    exact kept_back (areHeld_holdAside raw) (by decide) (marks_path hcut piece hpiece)
  query query hquery := by
    obtain ⟨cut, hcut, rfl⟩ := Option.map_eq_some_iff.mp hquery
    exact fun hnil => (marks_query hcut).1 (List.map_eq_nil_iff.mp hnil)
  keys query hquery pair hpair := by
    obtain ⟨cut, hcut, rfl⟩ := Option.map_eq_some_iff.mp hquery
    obtain ⟨piece, hpiece, rfl⟩ := List.mem_map.mp hpair
    exact kept_back (areHeld_holdAside raw) (by decide) ((marks_query hcut).2 piece hpiece).1
  values query hquery pair hpair value hvalue := by
    obtain ⟨cut, hcut, rfl⟩ := Option.map_eq_some_iff.mp hquery
    obtain ⟨piece, hpiece, rfl⟩ := List.mem_map.mp hpair
    obtain ⟨text, htext, rfl⟩ := Option.map_eq_some_iff.mp hvalue
    exact kept_back (areHeld_holdAside raw) (by decide)
      (((marks_query hcut).2 piece hpiece).2 text htext)

/-! ## The file read back -/

theorem members_cons_some (name : Text) (value : Json) (rest : List (Text × Option Json)) :
    members ((name, some value) :: rest) = (name, value) :: members rest :=
  rfl

theorem field_members_of_ne {key name : Text} (h : name ≠ key) (value : Option Json)
    (rest : List (Text × Option Json)) :
    field (members ((name, value) :: rest)) key = field (members rest) key := by
  cases value with
  | none => rw [members, List.filterMap_cons_none rfl, ← members]
  | some value =>
      rw [members_cons_some, field, List.find?_cons_of_neg, ← field]
      exact fun hkey => h (of_decide_eq_true hkey)

theorem field_members_of_not_mem {key : Text} {fields : List (Text × Option Json)}
    (h : key ∉ fields.map Prod.fst) : field (members fields) key = none := by
  induction fields with
  | nil => rfl
  | cons member rest ih =>
      rw [List.map_cons, List.mem_cons, not_or] at h
      rw [field_members_of_ne (Ne.symm h.1), ih h.2]

/-- A member is what was written under its name. -/
theorem field_members {key : Text} {value : Option Json} {fields : List (Text × Option Json)}
    (hnames : (fields.map Prod.fst).Nodup) (hmem : (key, value) ∈ fields) :
    field (members fields) key = value := by
  induction fields with
  | nil => cases hmem
  | cons member rest ih =>
      rw [List.map_cons, List.nodup_cons] at hnames
      rcases List.mem_cons.mp hmem with rfl | hmem
      · cases value with
        | none =>
            rw [members, List.filterMap_cons_none rfl, ← members]
            exact field_members_of_not_mem hnames.1
        | some value =>
            rw [members_cons_some, field, List.find?_cons_of_pos]
            · rfl
            · exact decide_eq_true rfl
      · have hne : member.1 ≠ key := by
          rintro rfl
          exact hnames.1 (List.mem_map.mpr ⟨_, hmem, rfl⟩)
        rw [field_members_of_ne hne, ih hnames.2 hmem]

/-- The members of a pair of the query. -/
def queryFields (pair : Text × Option Text) : Fields :=
  [(units "key", .string pair.1), (units "value", pair.2.elim .null .string)]

theorem isSent_queryFields (pair : Text × Option Text) : isSent (queryFields pair) = true :=
  rfl

theorem postmanObjects_cons (object : Fields) (items : List Json) :
    postmanObjects (some (.array (.object object :: items))) =
      object :: postmanObjects (some (.array items)) :=
  rfl

theorem sent_cons (pair : Text × Option Text) (items : List Json) :
    (postmanObjects (some (.array (queryEntry pair :: items)))).filter isSent =
      queryFields pair :: (postmanObjects (some (.array items))).filter isSent := by
  rw [queryEntry, postmanObjects_cons]
  exact List.filter_cons_of_pos (isSent_queryFields pair)

/-- The rows that are switched off are left out: what is sent is the query of the text. -/
theorem sent_queryWithRows (rows : List Row) (sent : List (Text × Option Text)) :
    (postmanObjects (some (.array (queryWithRows rows sent)))).filter isSent =
      sent.map queryFields := by
  induction rows generalizing sent with
  | nil =>
      induction sent with
      | nil => rfl
      | cons pair sent ih =>
          rw [queryWithRows] at ih ⊢
          rw [List.map_cons, sent_cons, ih, List.map_cons]
  | cons row rows ih =>
      rw [queryWithRows.eq_def]
      dsimp only
      split_ifs
      · cases sent with
        | nil => exact ih []
        | cons pair sent => rw [sent_cons, ih, List.map_cons]
      · rw [disabledEntry, postmanObjects_cons, List.filter_cons_of_neg, ih]
        exact Bool.false_ne_true

/-- A pair is written as the query has it. -/
theorem queryPair_queryFields {pair : Text × Option Text}
    (hkey : kept (units "#&=") pair.1 = pair.1)
    (hvalue : ∀ value, pair.2 = some value → kept (units "#&") value = value) :
    queryPair (queryFields pair) = pair.1 ++ pair.2.elim [] fun t => [0x3D] ++ t := by
  obtain ⟨key, value⟩ := pair
  have hfields : field (queryFields (key, value)) (units "key") = some (.string key) ∧
      field (queryFields (key, value)) (units "value") = some (value.elim .null .string) :=
        ⟨rfl, rfl⟩
  rw [queryPair.eq_def, hfields.1, hfields.2]
  cases value with
  | none => exact hkey.trans (List.append_nil _).symm
  | some value =>
      have hkept := hvalue value rfl
      dsimp only [Option.elim_some, postmanText] at hkey hkept ⊢
      rw [hkey, hkept, List.append_assoc]
      rfl

theorem isEmpty_queryWithRows {rows : List Row} {sent : List (Text × Option Text)}
    (h : (queryWithRows rows sent).isEmpty = true) : sent = [] := by
  have hsent := sent_queryWithRows rows sent
  rw [List.isEmpty_iff.mp h] at hsent
  exact List.map_eq_nil_iff.mp hsent.symm

/-- A member of the login is what was written under its name. -/
theorem field_auth {login : Text × Option Text} {key : Text} {value : Option Json} (i : Nat)
    (hget : (authMembers login)[i]? = some (key, value)) :
    field (members (authMembers login)) key = value := by
  have hnames : ([units "user", units "password"] : List Text).Nodup := by decide
  refine field_members ?_ (List.mem_of_getElem? hget)
  exact hnames

/-- A member of the address is what was written under its name. -/
theorem field_url {raw : Text} {p : AddressParts} {query : List Json} {key : Text}
    {value : Option Json} (i : Nat) (hget : (urlMembers raw p query)[i]? = some (key, value)) :
    field (members (urlMembers raw p query)) key = value := by
  have hnames : ([units "raw", units "protocol", units "auth", units "host", units "port",
    units "path", units "query", units "hash"] : List Text).Nodup := by decide
  refine field_members ?_ (List.mem_of_getElem? hget)
  exact hnames

theorem field_url_other {raw : Text} {p : AddressParts} {query : List Json} :
    field (members (urlMembers raw p query)) (units "variable") = none := by
  have hnames : units "variable" ∉ ([units "raw", units "protocol", units "auth", units "host",
    units "port", units "path", units "query", units "hash"] : List Text) := by decide
  refine field_members_of_not_mem ?_
  exact hnames

theorem joinWith_strings (sep : Text) (f : Text → Text) (items : List Text) :
    joinWith sep ((items.map Json.string).map fun part => f (postmanText (some part))) =
      joinWith sep (items.map f) := by
  rw [List.map_map]
  rfl

/-- The path that is written is read back. -/
theorem pathText_array {path : List Text} (h : ∀ t ∈ path, kept (units "?#") t = t) :
    pathText [] (.array (path.map .string)) = joinWith [0x2F] path := by
  have hinPath : path.map (inPath []) = path := by
    refine Eq.trans (List.map_congr_left fun t ht => ?_) (List.map_id path)
    have hsegment : segment [] t = t := by
      have hnone : pathVariable [] t = none := by
        rw [pathVariable.eq_def]
        split <;> rfl
      rw [segment, hnone]
    rw [inPath, hsegment]
    exact h t ht
  rw [pathText, joinWith_strings, hinPath]
  rfl

/-- The parts of a written address are joined again. -/
theorem addressText_urlMembers {raw : Text} {p : AddressParts} {rows : List Row}
    (hkept : KeptAsIs p) :
    addressText (members (urlMembers raw p (queryWithRows rows (p.query.getD []))))
      (.array (p.host.map .string)) = p.joined := by
  have hsent := sent_queryWithRows rows (p.query.getD [])
  have hempty := @isEmpty_queryWithRows rows (p.query.getD [])
  generalize hquery : queryWithRows rows (p.query.getD []) = query at hsent hempty
  rw [addressText, field_url 1 rfl, field_url 2 rfl, field_url 4 rfl, field_url 5 rfl,
    field_url 6 rfl, field_url 7 rfl, field_url_other, AddressParts.joined, AddressParts.glue]
  -- Part by part, in the order they stand in.
  refine congr (congrArg _ ?_) (congr (congrArg _ ?_) (congr (congrArg _ ?_)
    (congr (congrArg _ ?_) (congr (congrArg _ ?_) (congr (congrArg _ ?_) ?_)))))
  · cases p.protocol <;> rfl
  · cases p.auth with
    | none => rfl
    | some login =>
        dsimp only [Option.map_some]
        rw [field_auth 0 rfl, field_auth 1 rfl, Option.elim_map, Option.elim_some]
        rfl
  · exact joinWith_strings (units ".") id p.host
  · cases p.port <;> rfl
  · cases hpath : p.path with
    | none => rfl
    | some path =>
        rw [Option.map_some, Option.elim_some, Option.elim_some, List.map_id]
        exact congrArg _ (pathText_array (hkept.path path hpath))
  · cases hpairs : p.query with
    | none =>
        rw [hpairs] at hsent
        have hnone : ((postmanObjects (if query.isEmpty then none else some (.array query))).filter
            isSent) = [] := by
          split_ifs
          · rfl
          · exact hsent
        rw [hnone]
        rfl
    | some pairs =>
        rw [hpairs, Option.getD_some] at hsent
        have hne := hkept.query pairs hpairs
        have hfull : ¬ query.isEmpty = true := by
          intro hquery
          rw [hpairs] at hempty
          exact hne (hempty hquery)
        have htexts : (pairs.map queryFields).map queryPair =
            pairs.map fun pair => pair.1 ++ pair.2.elim [] fun t => [0x3D] ++ t := by
          rw [List.map_map]
          refine List.map_congr_left fun pair hpair => ?_
          exact queryPair_queryFields (hkept.keys pairs hpairs pair hpair)
            (hkept.values pairs hpairs pair hpair)
        rw [if_neg hfull, hsent, htexts, if_neg, Option.elim_some]
        · rfl
        · rw [List.isEmpty_iff, List.map_eq_nil_iff]
          exact hne
  · cases p.hash <;> rfl

/-- The import joins the parts that were written. -/
theorem url_postmanUrl (raw : Text) (rows : List Row) :
    (address (some (.object (postmanUrl raw rows)))).url = (addressParts raw).joined := by
  rw [address, postmanUrl, field_url 3 rfl]
  exact addressText_urlMembers (keptAsIs_addressParts raw)

/-- The address that comes back is the text that was held, with its variables. -/
theorem url_eq_back (raw : Text) (rows : List Row) :
    (address (some (.object (postmanUrl raw rows)))).url =
      back (holdAside raw).2 (holdAside raw).1 := by
  rw [url_postmanUrl, addressParts, AddressParts.joined, AddressParts.glue_map]
  have hread := AddressParts.reads_joined (readsBack (holdAside raw).2)
    (cutAddress (holdAside raw).1)
  rw [joined_cutAddress] at hread
  exact (ReadsApart.Reads.read_eq _ hread trivial).symm

/-! ## Variables that are held one by one -/

section Held

variable {insides : List Text}

/-- The variable of a number. -/
def insideOf (insides : List Text) (index : Nat) : Text :=
  insides[index]?.getD []

/-- A piece of the address whose variables are those that are held in it. -/
structure IsHeldApart (insides : List Text) (piece : Text) : Prop where
  known : ∀ index, .inr index ∈ parts heldAt piece → index < insides.length
  read : parts placeholderAt (back (insides.map placeholderText) piece) =
    (parts heldAt piece).map (Sum.map id (insideOf insides))

/-- With its variables in it, a piece is its characters and its variables. -/
theorem back_eq_ofParts {piece : Text}
    (hknown : ∀ index, .inr index ∈ parts heldAt piece → index < insides.length) :
    back (insides.map placeholderText) piece =
      ofParts placeholderText ((parts heldAt piece).map (Sum.map id (insideOf insides))) := by
  rw [ofParts_map, back]
  split_ifs with hnone
  · rw [List.map_eq_nil_iff] at hnone
    -- Nothing is held: the piece is its characters.
    have hself : replaceMarks heldAt (fun index => [hold, (0xE001 + index).toUInt16]) piece =
        piece := readsHeld.replaceMarks_self (fun index written h => h.2) piece
    refine hself.symm.trans (ofParts_congr fun index hindex => ?_)
    have hlt := hknown index hindex
    rw [hnone] at hlt
    exact absurd hlt (Nat.not_lt_zero _)
  · refine ofParts_congr fun index hindex => ?_
    have hlt := hknown index hindex
    rw [Function.comp, insideOf, List.getElem?_map, List.getElem?_eq_getElem hlt]
    rfl

theorem parts_held_cut {c : CodeUnit} (hc : IsCutMark c) (front after : Text) :
    parts heldAt (front ++ c :: after) = parts heldAt front ++ .inl c :: parts heldAt after := by
  rw [readsHeld.parts_append (unreached_held hc after),
    parts_of_none (heldAt_of_ne hc.ne_hold after)]

/-- A piece is cut between its variables. -/
theorem IsHeldApart.cut {front after : Text} {c : CodeUnit} (hc : IsCutMark c)
    (h : IsHeldApart insides (front ++ c :: after)) :
    IsHeldApart insides front ∧ IsHeldApart insides (c :: after) ∧ IsHeldApart insides after := by
  have hparts := parts_held_cut hc front after
  have hrest : parts heldAt (c :: after) = .inl c :: parts heldAt after :=
    parts_of_none (heldAt_of_ne hc.ne_hold after)
  have hknown := h.known
  rw [hparts] at hknown
  have hfront : ∀ index, .inr index ∈ parts heldAt front → index < insides.length :=
    fun index hindex => hknown index (List.mem_append_left _ hindex)
  have hwhole : ∀ index, .inr index ∈ parts heldAt (c :: after) → index < insides.length := by
    intro index hindex
    rw [hrest] at hindex
    exact hknown index (List.mem_append_right _ hindex)
  have hafter : ∀ index, .inr index ∈ parts heldAt after → index < insides.length :=
    fun index hindex => hwhole index (hrest ▸ List.mem_cons_of_mem _ hindex)
  have hread := h.read
  rw [hparts, List.map_append] at hread
  obtain ⟨hreadFront, hreadWhole⟩ := readsPlaceholders.parts_ofParts
    placeholderText_of_isPlaceholder hread
  have hend : (parts heldAt front).map (Sum.map id (insideOf insides)) ++
      (.inl c :: parts heldAt after).map (Sum.map id (insideOf insides)) =
        ((parts heldAt front).map (Sum.map id (insideOf insides)) ++ [.inl c]) ++
          (parts heldAt after).map (Sum.map id (insideOf insides)) := by
    rw [List.append_assoc]
    rfl
  obtain ⟨-, hreadAfter⟩ := readsPlaceholders.parts_ofParts placeholderText_of_isPlaceholder
    (hread.trans hend)
  refine ⟨⟨hfront, ?_⟩, ⟨hwhole, ?_⟩, ⟨hafter, ?_⟩⟩
  · rw [back_eq_ofParts hfront]
    exact hreadFront
  · rw [back_eq_ofParts hwhole, hrest]
    exact hreadWhole
  · rw [back_eq_ofParts hafter]
    exact hreadAfter

theorem isHeldApart_nil : IsHeldApart insides [] where
  known index h := by cases h
  read := by
    rw [back_nil]
    rfl

/-- The variables of an address are read piece by piece. -/
theorem readsPlaceholdersApart (insides : List Text) :
    ReadsApart IsCutMark (IsHeldApart insides) (fun _ => ([] : List Text))
      (placeholders ∘ back (insides.map placeholderText)) where
  good_nil := isHeldApart_nil
  read_nil := by
    rw [Function.comp, back_nil]
    rfl
  cut {front after c} hc h := by
    obtain ⟨hfront, hwhole, hafter⟩ := h.cut hc
    refine ⟨hfront, hwhole, hafter, ?_⟩
    rw [Function.comp, Function.comp, Function.comp, placeholders, h.read, parts_held_cut hc,
      placeholders, hfront.read, placeholders, hafter.read, List.map_append, List.filterMap_append,
      List.nil_append]
    rfl

theorem filterMap_inr (inside : Text) (segs : List (CodeUnit ⊕ Text)) :
    (Sum.inr inside :: segs).filterMap Sum.getRight? =
      inside :: segs.filterMap Sum.getRight? :=
  rfl

/-- What is held is read back as it was, where there are private characters for it. -/
theorem parts_holdFrom {segs : List (CodeUnit ⊕ Text)} (hhold : ∀ c, .inl c ∈ segs → c ≠ hold)
    (before : List Text)
    (hcount : before.length + (segs.filterMap Sum.getRight?).length ≤ heldCount)
    (hinsides : insides = before ++ segs.filterMap Sum.getRight?) :
    (∀ index, .inr index ∈ parts heldAt (holdFrom before.length segs) → index < insides.length) ∧
      (parts heldAt (holdFrom before.length segs)).map (Sum.map id (insideOf insides)) = segs := by
  -- Each variable is held under the number of those before it.
  induction segs generalizing before with
  | nil => exact ⟨fun index h => (by cases h), rfl⟩
  | cons part segs ih =>
      have hrest : ∀ c, .inl c ∈ segs → c ≠ hold := fun c hc => hhold c (List.mem_cons_of_mem _ hc)
      cases part with
      | inl c =>
          obtain ⟨hknown, hread⟩ := ih hrest before hcount hinsides
          rw [holdFrom, parts_of_none (heldAt_of_ne (hhold c List.mem_cons_self) _)]
          refine ⟨fun index hindex => ?_, ?_⟩
          · rcases List.mem_cons.mp hindex with heq | hindex
            · cases heq
            · exact hknown index hindex
          · rw [List.map_cons, hread]
            rfl
      | inr inside =>
          rw [filterMap_inr] at hcount hinsides
          rw [List.length_cons] at hcount
          obtain ⟨hknown, hread⟩ := ih hrest (before ++ [inside])
            (by rw [List.length_append, List.length_singleton]; omega)
            (by rw [hinsides, List.append_assoc, List.singleton_append])
          rw [List.length_append, List.length_singleton] at hknown hread
          have hat : heldAt (holdFrom before.length (.inr inside :: segs)) =
              some (before.length, holdFrom (before.length + 1) segs) :=
            readsHeld.unread ⟨by omega, rfl⟩ _
          have hget : insideOf insides before.length = inside := by
            rw [insideOf, hinsides, List.getElem?_append_right (Nat.le_refl _), Nat.sub_self]
            rfl
          rw [readsHeld.parts_of_mark hat]
          refine ⟨fun index hindex => ?_, ?_⟩
          · rcases List.mem_cons.mp hindex with heq | hindex
            · cases heq
              rw [hinsides, List.length_append, List.length_cons]
              omega
            · exact hknown index hindex
          · rw [List.map_cons, hread, Sum.map_inr, hget]

/-- A variable that there is no private character for stays held. -/
theorem hold_mem_replaceMarks (write : Nat → Text) {segs : List (CodeUnit ⊕ Text)}
    (hhold : ∀ c, .inl c ∈ segs → c ≠ hold) {index : Nat} (hindex : index ≤ heldCount)
    (hcount : heldCount < index + (segs.filterMap Sum.getRight?).length) :
    hold ∈ replaceMarks heldAt write (holdFrom index segs) := by
  induction segs generalizing index with
  | nil => exact absurd hcount (Nat.not_lt.mpr hindex)
  | cons part segs ih =>
      have hrest : ∀ c, .inl c ∈ segs → c ≠ hold := fun c hc => hhold c (List.mem_cons_of_mem _ hc)
      cases part with
      | inl c =>
          rw [holdFrom, replaceMarks_of_none _ (heldAt_of_ne (hhold c List.mem_cons_self) _)]
          exact List.mem_cons_of_mem _ (ih hrest hindex hcount)
      | inr inside =>
          rw [filterMap_inr, List.length_cons] at hcount
          by_cases hlt : index < heldCount
          · have hat : heldAt (holdFrom index (.inr inside :: segs)) =
                some (index, holdFrom (index + 1) segs) := readsHeld.unread ⟨hlt, rfl⟩ _
            rw [readsHeld.replaceMarks_of_mark hat]
            exact List.mem_append_right _ (ih hrest hlt (by omega))
          · -- The first character behind the private ones is no number of a variable.
            have hlast : index = heldCount := Nat.le_antisymm hindex (Nat.not_lt.mp hlt)
            have hnot : ¬ (hold = hold ∧ 0xE001 ≤ (0xE001 + heldCount).toUInt16.toNat ∧
                (0xE001 + heldCount).toUInt16.toNat ≤ 0xF8FF) := by decide
            have hat : heldAt (holdFrom index (.inr inside :: segs)) = none := by
              rw [hlast, holdFrom, heldAt, if_neg hnot]
            rw [holdFrom] at hat ⊢
            rw [replaceMarks_of_none _ hat]
            exact List.mem_cons_self

end Held

/-! ## When the address comes back -/

theorem holdAside_of_not_mem {raw : Text} (h : hold ∉ raw) : holdAside raw =
    (holdFrom 0 (parts placeholderAt raw), (placeholders raw).map placeholderText) := by
  rw [holdAside, if_neg]
  rwa [List.contains_iff_mem]

theorem not_hold_of_not_mem {raw : Text} (h : hold ∉ raw) :
    ∀ c, .inl c ∈ parts placeholderAt raw → c ≠ hold := by
  rintro c hc rfl
  exact h (mem_of_inl_mem_parts hc)

/-- With private characters for its variables, the address is held apart. -/
theorem isHeldApart_holdAside {raw : Text} (h : hold ∉ raw)
    (hcount : (placeholders raw).length ≤ heldCount) :
    back ((placeholders raw).map placeholderText) (holdFrom 0 (parts placeholderAt raw)) = raw ∧
      IsHeldApart (placeholders raw) (holdFrom 0 (parts placeholderAt raw)) := by
  have hheld := @parts_holdFrom (placeholders raw) _ (not_hold_of_not_mem h) []
    (by rwa [List.length_nil, Nat.zero_add]) (List.nil_append _).symm
  rw [List.length_nil] at hheld
  have hback := back_eq_ofParts hheld.1
  rw [hheld.2] at hback
  have hself := readsPlaceholders.replaceMarks_self placeholderText_of_isPlaceholder raw
  refine ⟨hback.trans hself, hheld.1, ?_⟩
  rw [hback.trans hself]
  exact hheld.2.symm

/-- With more variables than private characters, one stays held. -/
theorem hold_mem_url {raw : Text} (h : hold ∉ raw) (hcount : heldCount < (placeholders raw).length)
    (rows : List Row) : hold ∈ (address (some (.object (postmanUrl raw rows)))).url := by
  rw [url_eq_back, holdAside_of_not_mem h, back, if_neg]
  · exact hold_mem_replaceMarks _ (not_hold_of_not_mem h) (Nat.zero_le _)
      (by rwa [Nat.zero_add])
  · intro hnil
    rw [List.map_eq_nil_iff.mp hnil] at hcount
    exact absurd hcount (Nat.not_lt_zero _)

/-- The variables of the parts are those of the address, one after another. -/
theorem placeholders_texts {raw : Text} (h : hold ∉ raw)
    (hcount : (placeholders raw).length ≤ heldCount) :
    (addressParts raw).texts.flatMap placeholders = placeholders raw := by
  obtain ⟨hback, happart⟩ := isHeldApart_holdAside h hcount
  rw [addressParts, holdAside_of_not_mem h, ← AddressParts.glue_texts, AddressParts.glue_map]
  have hread := AddressParts.reads_joined (readsPlaceholdersApart (placeholders raw))
    (cutAddress (holdFrom 0 (parts placeholderAt raw)))
  rw [joined_cutAddress] at hread
  rw [← ReadsApart.Reads.read_eq _ hread happart, Function.comp, hback]

/-- The parts rejoin, and no variable is cut, exactly where there is a private character for each
variable. -/
theorem rejoins_iff {raw : Text} (h : hold ∉ raw) :
    Rejoins raw ↔ (placeholders raw).length ≤ heldCount := by
  constructor
  · intro hrejoins
    apply Nat.not_lt.mp
    intro hcount
    have hmem := hold_mem_url h hcount []
    rw [hrejoins.whole []] at hmem
    exact h hmem
  · intro hcount
    refine ⟨fun rows => ?_, placeholders_texts h hcount⟩
    rw [url_eq_back, holdAside_of_not_mem h]
    exact (isHeldApart_holdAside h hcount).1

/-- An address cut at marks that its variable holds too comes back. -/
theorem marksInside_rejoins : Rejoins (units "a://{{b/c?d#e}}:1/f?g=h") :=
  (rejoins_iff (by decide)).mpr (by decide)

theorem placeholders_replicate (n : Nat) :
    placeholders (List.replicate n (placeholderText [])).flatten = List.replicate n [] := by
  induction n with
  | zero => rfl
  | succ n ih =>
      rw [List.replicate_succ, List.flatten_cons, placeholders, readsPlaceholders.parts_of_mark
        (readsPlaceholders.unread ⟨fun c hc => absurd hc List.not_mem_nil, rfl⟩ _),
        filterMap_inr, ← placeholders, ih, List.replicate_succ]

/-- An address of one variable more than there are private characters comes back with one held. -/
theorem manyVariables_not_rejoined :
    hold ∉ (List.replicate 6400 (placeholderText [])).flatten ∧
      ¬ Rejoins (List.replicate 6400 (placeholderText [])).flatten := by
  have hnot : hold ∉ (List.replicate 6400 (placeholderText [])).flatten := by
    intro h
    obtain ⟨t, ht, hmem⟩ := List.mem_flatten.mp h
    rw [List.eq_of_mem_replicate ht] at hmem
    exact absurd hmem (by decide)
  refine ⟨hnot, fun hrejoins => ?_⟩
  have hmem := hold_mem_url hnot (by
    rw [placeholders_replicate, List.length_replicate]
    decide) []
  rw [hrejoins.whole []] at hmem
  exact hnot hmem

end Wayfarer
