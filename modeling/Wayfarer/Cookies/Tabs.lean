import Wayfarer.Cookies.Rules
import Wayfarer.Library.Run
import Wayfarer.Library.Table
import Wayfarer.Redact.Redactor

/-!
# The jar in several browser tabs

Each browser tab holds a jar of its own beside the stored one: it changes its jar at once and writes
later, and a notice that another tab wrote makes it read the stored cookies in place of its own. A
cookie that repeats a vault secret stays in the memory of its tab.

`Alone` is the condition on the steps under which every tab's jar has one cookie of a name, domain
and path, and is the stored one beside that memory when nothing is pending: a tab changes its jar
with no read of it on its way, a read begins with no write of its tab pending, no write lands while
another tab is in its first read, before it hears of writes, and no cookie is in one tab's memory
and stored by another.
-/

set_option autoImplicit false

namespace Wayfarer

open Library

/-! ## A tab -/

/-- The key of a stored cookie. -/
def Cookie.keyText (cookie : Cookie) : Text :=
  cookie.domain ++ units "|" ++ cookie.path ++ units "|" ++ cookie.name

/-- The stored jar. -/
abbrev StoredJar := Table Cookie.keyText

/-- A write of a tab that has not landed. -/
inductive JarWrite where
  | clear
  /-- A cookie stored, and keys taken out. -/
  | change (kept : Option Cookie) (removed : List Text)

/-- The cookie a write stores. -/
def JarWrite.kept : JarWrite → Option Cookie
  | .clear => none
  | .change kept _ => kept

/-- The stored jar once a write has landed. -/
def JarWrite.land (stored : StoredJar) : JarWrite → StoredJar
  | .clear => Table.empty
  | .change kept removed => (stored.putAll kept.toList).deleteAll removed

/-- A browser tab: its jar, the keys of the cookies that are not stored, the writes that have not
landed, whether it hears of the writes of others, how many reads are still to begin, and what the
reads on their way will give. -/
structure JarTab where
  held : List Cookie := []
  unstored : List Text := []
  writes : List JarWrite := []
  -- A tab hears of writes once its first read is done.
  hears : Bool := false
  notices : Nat := 1
  reads : List StoredJar := []

/-- The cookie that a jar keeps of the one it was given. -/
def keptOf (held : List Cookie) (cookie : Cookie) (now : Int) : Option Cookie :=
  (storeCookie held cookie now).find? fun kept => kept.keyText = cookie.keyText

/-- The keys that a cookie given to a jar takes out of it. -/
def goneOf (held : List Cookie) (cookie : Cookie) (now : Int) : List Text :=
  (held.map Cookie.keyText).filter fun was =>
    !(storeCookie held cookie now).any fun kept => kept.keyText = was

namespace JarTab

variable (tab : JarTab)

/-- Whether a cookie is in this tab's memory only. -/
def inMemoryOnly (cookie : Cookie) : Bool :=
  tab.unstored.contains cookie.keyText

/-- `put`: the jar changes now, and a write follows. -/
def put (cookie : Cookie) (memoryOnly : Bool) (now : Int) : JarTab :=
  let kept := keptOf tab.held cookie now
  let gone := goneOf tab.held cookie now
  { tab with
    held := storeCookie tab.held cookie now
    unstored :=
      if kept.isSome && memoryOnly then cookie.keyText :: tab.unstored
      else tab.unstored.filter fun key => key ≠ cookie.keyText
    -- A cookie that is now memory-only may have been stored with another value before.
    writes := tab.writes ++ [.change (if memoryOnly then none else kept)
      (if kept.isSome && memoryOnly then gone ++ [cookie.keyText] else gone)] }

/-- What was stored takes the place of the jar, beside what is in memory only. -/
def take (stored : StoredJar) : JarTab :=
  { tab with held := stored.rows ++ tab.held.filter tab.inMemoryOnly, hears := true }

/-- A tab once another wrote: it has a read to begin, where it hears of it. -/
def told : JarTab :=
  if tab.hears then { tab with notices := tab.notices + 1 } else tab

end JarTab

/-! ## The tabs -/

/-- The tabs and the stored jar. `met` is every cookie that was ever put into a jar. -/
structure JarTabs (n : Nat) where
  tabs : Fin n → JarTab
  stored : StoredJar
  met : List Cookie

/-- What happens in the tabs. -/
inductive JarStep (n : Nat) where
  /-- One `Set-Cookie` header of a response, and the secrets that went into its request. -/
  | receive (i : Fin n) (header url : Text) (secrets : List Text) (now : Int)
  | setValue (i : Fin n) (cookie : Cookie) (value : Text) (now : Int)
  | remove (i : Fin n) (cookie : Cookie) (now : Int)
  | clear (i : Fin n)
  | land (i : Fin n)
  | beginRead (i : Fin n)
  | endRead (i : Fin n)
  /-- The page is opened anew. -/
  | reload (i : Fin n)

namespace JarTabs

variable {n : Nat} (P : CookiePlatform) (s : JarTabs n)

/-- One tab changed. -/
def setTab (i : Fin n) (tab : JarTab) : JarTabs n :=
  { s with tabs := Function.update s.tabs i tab }

/-- A cookie put into a tab's jar. -/
def put (i : Fin n) (cookie : Cookie) (memoryOnly : Bool) (now : Int) : JarTabs n :=
  { s.setTab i ((s.tabs i).put cookie memoryOnly now) with met := cookie :: s.met }

/-- Whether a cookie repeats a secret of its request: such a one is not stored. -/
def repeatsSecret (secrets : List Text) (cookie : Cookie) : Bool :=
  let redactor := Redactor.new secrets
  redactor.text cookie.value ≠ cookie.value || redactor.text cookie.name ≠ cookie.name

/-- The cookie a step puts into a tab's jar, whether in memory only, and when. -/
def putBy : JarStep n → Option (Fin n × Cookie × Bool × Int)
  | .receive i header url secrets now =>
      (parseSetCookie P header url now).map fun cookie =>
        (i, cookie, repeatsSecret secrets cookie, now)
  | .setValue i cookie value now =>
      some (i, { cookie with value := trim value }, (s.tabs i).inMemoryOnly cookie, now)
  | .remove i cookie now => some (i, { cookie with expires := some 0 }, false, now)
  | _ => none

/-- A write landed: the other tabs are told. -/
def landed (i : Fin n) (write : JarWrite) (writes : List JarWrite) : JarTabs n where
  tabs j := if j = i then { s.tabs i with writes } else (s.tabs j).told
  stored := write.land s.stored
  met := s.met

/-- What a step makes of the tabs. -/
def step (step : JarStep n) : Option (JarTabs n) :=
  match step with
  | .clear i =>
      let tab := s.tabs i
      some (s.setTab i { tab with held := [], unstored := [], writes := tab.writes ++ [.clear] })
  | .land i =>
      match (s.tabs i).writes with
      | [] => none
      | write :: writes => some (s.landed i write writes)
  | .beginRead i =>
      match (s.tabs i).notices with
      | 0 => none
      | notices + 1 =>
          let tab := s.tabs i
          some (s.setTab i { tab with notices, reads := tab.reads ++ [s.stored] })
  | .endRead i =>
      match (s.tabs i).reads with
      | [] => none
      | stored :: reads => some (s.setTab i { (s.tabs i).take stored with reads })
  | .reload i => some (s.setTab i {})
  | put => some (match s.putBy P put with
      | none => s
      | some (i, cookie, memoryOnly, now) => s.put i cookie memoryOnly now)

/-! ## What is promised -/

/-- Nothing is pending in a tab. -/
def Quiet (i : Fin n) : Prop :=
  (s.tabs i).writes = [] ∧ (s.tabs i).notices = 0 ∧ (s.tabs i).reads = []

/-- One jar: in each tab one cookie of a key, and with nothing pending the stored ones, beside those
in memory only. -/
structure OneJar : Prop where
  oneEach : ∀ i, OneEach (s.tabs i).held
  stored : ∀ i, s.Quiet i → ∀ cookie,
    cookie ∈ s.stored ↔ cookie ∈ (s.tabs i).held ∧ (s.tabs i).inMemoryOnly cookie = false

/-- A cookie may be put into a tab's jar: no read is on its way there, the cookie's key is no other
cookie's, and it is not in memory only here and stored there. -/
structure MayPut (i : Fin n) (cookie : Cookie) (memoryOnly : Bool) : Prop where
  alone : (s.tabs i).reads.isEmpty = true
  apart : ∀ other ∈ s.met, other.keyText = cookie.keyText → other.key = cookie.key
  stores : memoryOnly = false → ∀ j, j ≠ i → cookie.keyText ∉ (s.tabs j).unstored
  hides : memoryOnly = true → ∀ j, j ≠ i → ∀ write ∈ (s.tabs j).writes, ∀ kept ∈ write.kept,
    kept.keyText ≠ cookie.keyText

/-- A step that no read of its tab crosses, with a cookie that is in memory only everywhere or
nowhere; and no write lands while another tab is in its first read. -/
def Alone (step : JarStep n) : Prop :=
  match step with
  | .clear i => (s.tabs i).reads.isEmpty = true
  | .beginRead i => (s.tabs i).writes.isEmpty = true
  | .land i => ∀ j, j ≠ i → (s.tabs j).hears = false → (s.tabs j).reads.isEmpty = true
  | .endRead _ => True
  | .reload _ => True
  | put => ∀ p ∈ s.putBy P put, s.MayPut p.1 p.2.1 p.2.2.1

/-- The tabs when they are opened, over nothing stored. -/
def start (n : Nat) : JarTabs n where
  tabs _ := {}
  stored := Table.empty
  met := []

end JarTabs

end Wayfarer
