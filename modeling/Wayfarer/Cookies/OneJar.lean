import Wayfarer.Cookies.Tabs

/-!
# The page's jar and the stored jar stay one

`run_oneJar` is about every interleaving of the browser tabs' steps that meet `Alone`: each tab's
jar has one cookie of a name, domain and path, and with nothing pending in a tab the stored cookies
are those of its jar that are not in memory only. A read that began before the tab's own change
takes that change out of the tab's jar (`readAcross_loses`).

The invariant is about one tab at a time (`JarTab.Fits`): what it holds is what will be stored once
its writes have landed. Two tabs meet in one clause only: no tab writes a cookie that is in
another's memory only.
-/

set_option autoImplicit false

namespace Wayfarer

open Library

/-! ## Writes that land -/

/-- The stored jar once a list of writes has landed. -/
def landAll (stored : StoredJar) (writes : List JarWrite) : StoredJar :=
  writes.foldl JarWrite.land stored

@[simp]
theorem landAll_nil (stored : StoredJar) : landAll stored [] = stored := rfl

@[simp]
theorem landAll_cons (stored : StoredJar) (write : JarWrite) (writes : List JarWrite) :
    landAll stored (write :: writes) = landAll (write.land stored) writes := rfl

theorem landAll_snoc (stored : StoredJar) (writes : List JarWrite) (write : JarWrite) :
    landAll stored (writes ++ [write]) = write.land (landAll stored writes) :=
  List.foldl_concat _ _ _ _

@[simp]
theorem mem_land_clear {stored : StoredJar} {cookie : Cookie} :
    cookie ∉ JarWrite.clear.land stored :=
  Table.not_mem_empty cookie

/-- What is stored once a change has landed: its cookie, and every other one but those taken out. -/
theorem mem_land_change {stored : StoredJar} {kept : Option Cookie} {removed : List Text}
    {cookie : Cookie} :
    cookie ∈ (JarWrite.change kept removed).land stored ↔
      (cookie ∈ kept ∨ cookie ∈ stored ∧ ∀ new ∈ kept, cookie.keyText ≠ new.keyText) ∧
        cookie.keyText ∉ removed := by
  rw [JarWrite.land, Table.mem_deleteAll]
  refine and_congr_left fun _ => ?_
  cases kept with
  | none => simp [Table.putAll]
  | some new =>
      have hput : stored.putAll (Option.toList (some new)) = stored.put new := rfl
      rw [hput, Table.mem_put, Option.mem_some_iff, eq_comm]
      simp

/-- A stored cookie was stored before a write landed, or is the write's. -/
theorem mem_of_land {stored : StoredJar} {write : JarWrite} {cookie : Cookie}
    (h : cookie ∈ write.land stored) : cookie ∈ write.kept ∨ cookie ∈ stored := by
  cases write with
  | clear => exact absurd h mem_land_clear
  | change kept removed => exact (mem_land_change.mp h).1.imp_right And.left

/-- Of a key, no more is stored after the same writes over less. -/
theorem landAll_mono {stored stored' : StoredJar} {key : Text} (writes : List JarWrite)
    (hless : ∀ cookie ∈ stored', cookie.keyText = key → cookie ∈ stored) :
    ∀ cookie ∈ landAll stored' writes, cookie.keyText = key → cookie ∈ landAll stored writes := by
  induction writes generalizing stored stored' with
  | nil => exact hless
  | cons write writes ih =>
      apply ih
      intro cookie hcookie hkey
      cases write with
      | clear => exact absurd hcookie mem_land_clear
      | change kept removed =>
          obtain ⟨hmem, hnot⟩ := mem_land_change.mp hcookie
          rw [mem_land_change]
          exact ⟨hmem.imp_right fun h => ⟨hless cookie h.1 hkey, h.2⟩, hnot⟩

/-! ## One tab -/

/-- A cookie of a key that was put into a jar. -/
def IsMet (met : List Cookie) (cookie : Cookie) : Prop :=
  ∃ other ∈ met, other.key = cookie.key

theorem IsMet.mono {met met' : List Cookie} {cookie : Cookie} (hmore : met ⊆ met')
    (h : IsMet met cookie) : IsMet met' cookie :=
  let ⟨other, hother, hkey⟩ := h
  ⟨other, hmore hother, hkey⟩

/-- Of the cookies that were put into a jar no two share the text of their keys. -/
def KeysApart (met : List Cookie) : Prop :=
  ∀ a ∈ met, ∀ b ∈ met, a.keyText = b.keyText → a.key = b.key

theorem Cookie.keyText_of_key {a b : Cookie} (h : a.key = b.key) : a.keyText = b.keyText := by
  obtain ⟨hname, hdomain, hpath⟩ : a.name = b.name ∧ a.domain = b.domain ∧ a.path = b.path := by
    simpa [Cookie.key] using h
  simp [Cookie.keyText, hname, hdomain, hpath]

theorem KeysApart.key {met : List Cookie} (h : KeysApart met) {a b : Cookie} (ha : IsMet met a)
    (hb : IsMet met b) (htext : a.keyText = b.keyText) : a.key = b.key := by
  obtain ⟨a', ha', hkeya⟩ := ha
  obtain ⟨b', hb', hkeyb⟩ := hb
  have hsame : a'.keyText = b'.keyText := by
    rw [Cookie.keyText_of_key hkeya, Cookie.keyText_of_key hkeyb, htext]
  rw [← hkeya, ← hkeyb]
  exact h a' ha' b' hb' hsame

/-- What holds of one tab beside the stored jar. -/
structure JarTab.Fits (met : List Cookie) (stored : StoredJar) (tab : JarTab) : Prop where
  oneEach : OneEach tab.held
  heldMet : ∀ cookie ∈ tab.held, IsMet met cookie
  keptMet : ∀ write ∈ tab.writes, ∀ cookie ∈ write.kept, IsMet met cookie
  readMet : ∀ snapshot ∈ tab.reads, ∀ cookie ∈ snapshot, IsMet met cookie
  /-- A read on its way began with nothing of this tab to land, and nothing came since. -/
  waits : tab.reads ≠ [] → tab.writes = []
  deaf : tab.hears = false → tab.reads = [] → tab.notices ≠ 0
  /-- What is in memory only will not be stored, and no read brings it. -/
  hidden : ∀ cookie ∈ landAll stored tab.writes, cookie.keyText ∉ tab.unstored
  unread : ∀ snapshot ∈ tab.reads, ∀ cookie ∈ snapshot, cookie.keyText ∉ tab.unstored
  /-- With no read to come, the jar is what will be stored. -/
  same : tab.notices = 0 → tab.reads = [] → ∀ cookie,
    cookie ∈ landAll stored tab.writes ↔ cookie ∈ tab.held ∧ cookie.keyText ∉ tab.unstored
  /-- With none to begin, the last one on its way brings what is stored. -/
  newest : tab.notices = 0 → ∀ snapshot ∈ tab.reads.getLast?, snapshot = stored

namespace JarTab.Fits

variable {met : List Cookie} {stored : StoredJar} {tab : JarTab}

theorem mono {met' : List Cookie} (hmore : met ⊆ met') (h : tab.Fits met stored) :
    tab.Fits met' stored where
  oneEach := h.oneEach
  heldMet cookie hcookie := (h.heldMet cookie hcookie).mono hmore
  keptMet write hwrite cookie hcookie := (h.keptMet write hwrite cookie hcookie).mono hmore
  readMet snapshot hsnapshot cookie hcookie :=
    (h.readMet snapshot hsnapshot cookie hcookie).mono hmore
  waits := h.waits
  deaf := h.deaf
  hidden := h.hidden
  unread := h.unread
  same := h.same
  newest := h.newest

/-- A page that was just opened. -/
theorem opened : ({} : JarTab).Fits met stored where
  oneEach := List.nodup_nil
  heldMet := by simp
  keptMet := by simp
  readMet := by simp
  waits _ := rfl
  deaf := by simp
  hidden := by simp
  unread := by simp
  same := by simp
  newest := by simp

theorem clear (h : tab.Fits met stored) (hreads : tab.reads = []) :
    JarTab.Fits met stored { tab with held := [], unstored := [], writes := tab.writes ++ [.clear] }
    where
  oneEach := List.nodup_nil
  heldMet := by simp
  keptMet write hwrite cookie hcookie := by
    rcases List.mem_append.mp hwrite with hold | hnew
    · exact h.keptMet write hold cookie hcookie
    · obtain rfl := List.mem_singleton.mp hnew
      cases hcookie
  readMet := h.readMet
  waits hsome := absurd hreads hsome
  deaf := h.deaf
  hidden := by simp
  unread := by simp
  same _ _ cookie := by simp [landAll_snoc]
  newest := h.newest

/-- The first of a tab's writes landed. -/
theorem landed {write : JarWrite} {writes : List JarWrite} (h : tab.Fits met stored)
    (hwrites : tab.writes = write :: writes) :
    JarTab.Fits met (write.land stored) { tab with writes } := by
  have hreads : tab.reads = [] := by
    by_contra hsome
    rw [h.waits hsome] at hwrites
    cases hwrites
  have hland : landAll stored tab.writes = landAll (write.land stored) writes := by
    rw [hwrites, landAll_cons]
  constructor
  · exact h.oneEach
  · exact h.heldMet
  · intro later hlater
    exact h.keptMet later (hwrites ▸ List.mem_cons_of_mem _ hlater)
  · exact h.readMet
  · intro hsome
    exact absurd hreads hsome
  · exact h.deaf
  · exact hland ▸ h.hidden
  · exact h.unread
  · exact hland ▸ h.same
  · intro _ snapshot hsnapshot
    simp [hreads] at hsnapshot

/-- Another tab's write landed. -/
theorem told {write : JarWrite} (h : tab.Fits met stored)
    (hfirst : tab.hears = false → tab.reads = [])
    (hother : ∀ cookie ∈ write.kept, cookie.keyText ∉ tab.unstored) :
    JarTab.Fits met (write.land stored) tab.told := by
  have hhidden : ∀ cookie ∈ landAll (write.land stored) tab.writes,
      cookie.keyText ∉ tab.unstored := by
    intro cookie hcookie hkey
    refine h.hidden cookie ?_ hkey
    apply landAll_mono tab.writes ?_ cookie hcookie rfl
    intro before hbefore hsame
    rcases mem_of_land hbefore with hkept | hstored
    · exact absurd (hsame ▸ hkey) (hother before hkept)
    · exact hstored
  by_cases hhears : tab.hears = true
  · rw [JarTab.told, if_pos hhears]
    constructor
    · exact h.oneEach
    · exact h.heldMet
    · exact h.keptMet
    · exact h.readMet
    · exact h.waits
    · intro hdeaf
      exact absurd (hhears.symm.trans hdeaf) (by decide)
    · exact hhidden
    · exact h.unread
    · intro hnone
      cases hnone
    · intro hnone
      cases hnone
  · rw [JarTab.told, if_neg hhears]
    have hreads := hfirst (by simpa using hhears)
    have hmore := h.deaf (by simpa using hhears) hreads
    -- The tab has its first read still to begin.
    exact ⟨h.oneEach, h.heldMet, h.keptMet, h.readMet, h.waits, h.deaf, hhidden, h.unread,
      fun hnone => absurd hnone hmore, fun hnone => absurd hnone hmore⟩

/-- A read begins, with nothing of the tab's to land. -/
theorem beginRead (notices : Nat) (h : tab.Fits met stored)
    (hstored : ∀ cookie ∈ stored, IsMet met cookie) (hwrites : tab.writes = []) :
    JarTab.Fits met stored { tab with notices, reads := tab.reads ++ [stored] } := by
  constructor
  · exact h.oneEach
  · exact h.heldMet
  · exact h.keptMet
  · intro snapshot hsnapshot cookie hcookie
    rcases List.mem_append.mp hsnapshot with hold | hnew
    · exact h.readMet snapshot hold cookie hcookie
    · obtain rfl := List.mem_singleton.mp hnew
      exact hstored cookie hcookie
  · intro _
    exact hwrites
  · intro _ hnone
    simp at hnone
  · exact h.hidden
  · intro snapshot hsnapshot cookie hcookie
    rcases List.mem_append.mp hsnapshot with hold | hnew
    · exact h.unread snapshot hold cookie hcookie
    · obtain rfl := List.mem_singleton.mp hnew
      exact h.hidden cookie (by simpa [hwrites] using hcookie)
  · intro _ hnone
    simp at hnone
  · intro _ snapshot hsnapshot
    simpa [eq_comm] using hsnapshot

/-- The first read on its way is done. -/
theorem endRead {snapshot : StoredJar} {reads : List StoredJar} (h : tab.Fits met stored)
    (hreads : tab.reads = snapshot :: reads) :
    JarTab.Fits met stored { tab.take snapshot with reads } := by
  have hsnapshot : snapshot ∈ tab.reads := hreads ▸ List.mem_cons_self
  have hlater : ∀ later ∈ reads, later ∈ tab.reads := fun later hlater =>
    hreads ▸ List.mem_cons_of_mem _ hlater
  have hwrites : tab.writes = [] := h.waits (by simp [hreads])
  have hmem : ∀ cookie, cookie ∈ (tab.take snapshot).held ↔
      cookie ∈ snapshot ∨ cookie ∈ tab.held ∧ cookie.keyText ∈ tab.unstored := by
    intro cookie
    simp [JarTab.take, JarTab.inMemoryOnly, Table.mem_def]
  have hmet : ∀ cookie ∈ (tab.take snapshot).held, IsMet met cookie := by
    intro cookie hcookie
    rcases (hmem cookie).mp hcookie with hread | ⟨hheld, -⟩
    · exact h.readMet snapshot hsnapshot cookie hread
    · exact h.heldMet cookie hheld
  constructor
  · -- What was read has one cookie for each key, and so has what is in memory only; a key of the
    -- one is not in the other.
    show OneEach (snapshot.rows ++ tab.held.filter tab.inMemoryOnly)
    have hrows : (snapshot.rows.map Cookie.key).Nodup := by
      apply List.Nodup.map_on
      · intro a ha b hb hkey
        exact Table.eq_of_key_eq ha hb (Cookie.keyText_of_key hkey)
      · exact snapshot.nodup.of_map
    have hrest : ((tab.held.filter tab.inMemoryOnly).map Cookie.key).Nodup :=
      h.oneEach.sublist (List.filter_sublist.map _)
    rw [OneEach, List.map_append]
    apply hrows.append hrest
    intro key hread hheld
    obtain ⟨a, ha, rfl⟩ := List.mem_map.mp hread
    obtain ⟨b, hb, hkey⟩ := List.mem_map.mp hheld
    have hunstored : b.keyText ∈ tab.unstored := by
      simpa [JarTab.inMemoryOnly] using (List.mem_filter.mp hb).2
    rw [Cookie.keyText_of_key hkey] at hunstored
    exact h.unread snapshot hsnapshot a ha hunstored
  · exact hmet
  · exact h.keptMet
  · intro later hmem'
    exact h.readMet later (hlater later hmem')
  · intro _
    exact hwrites
  · intro hdeaf
    cases hdeaf
  · exact h.hidden
  · intro later hmem'
    exact h.unread later (hlater later hmem')
  · intro hnone hempty cookie
    -- The last read of the tab: it was of what is stored now.
    obtain rfl : reads = [] := hempty
    have hnew : snapshot = stored := h.newest hnone snapshot (by simp [hreads])
    subst hnew
    have hout : cookie ∈ snapshot → cookie.keyText ∉ tab.unstored :=
      h.unread snapshot hsnapshot cookie
    show cookie ∈ landAll snapshot tab.writes ↔
      cookie ∈ (tab.take snapshot).held ∧ cookie.keyText ∉ tab.unstored
    rw [hwrites, landAll_nil, hmem]
    tauto
  · intro hnone later hmem'
    apply h.newest hnone later
    rw [hreads, List.getLast?_cons]
    rw [Option.mem_def] at hmem'
    show some (reads.getLast?.getD snapshot) = some later
    rw [show reads.getLast? = some later from hmem']
    rfl

end JarTab.Fits

/-! ## A cookie put into a jar -/

section Put

variable {met : List Cookie} {held : List Cookie} {cookie : Cookie} {now : Int}

/-- A jar with another cookie stored holds no other new one. -/
theorem key_or_mem_of_storeCookie (hone : OneEach held) {c : Cookie}
    (h : c ∈ storeCookie held cookie now) : c.key = cookie.key ∨ c ∈ held := by
  rcases mem_storeCookie hone h with ⟨hold, -⟩ | ⟨was, -, -, rfl⟩ | ⟨-, rfl⟩
  · exact Or.inr hold
  · exact Or.inl rfl
  · exact Or.inl rfl

/-- All it holds was put into a jar. -/
theorem isMet_of_storeCookie (cookie : Cookie) (now : Int) (hone : OneEach held)
    (hmet : ∀ c ∈ held, IsMet met c) :
    ∀ c ∈ storeCookie held cookie now, IsMet (cookie :: met) c := by
  intro c hc
  rcases key_or_mem_of_storeCookie hone hc with hkey | hold
  · exact ⟨cookie, List.mem_cons_self, hkey.symm⟩
  · exact (hmet c hold).mono (List.subset_cons_self _ _)

/-- A cookie of another key stays where one of its key stays. -/
theorem mem_storeCookie_of_stays (hone : OneEach held) (hmet : ∀ c ∈ held, IsMet met c)
    (hapart : KeysApart met) {c : Cookie} (hc : c ∈ held) (hother : c.keyText ≠ cookie.keyText)
    (hstays : ∃ c' ∈ storeCookie held cookie now, c'.keyText = c.keyText) :
    c ∈ storeCookie held cookie now := by
  obtain ⟨c', hc', htext⟩ := hstays
  rcases key_or_mem_of_storeCookie hone hc' with hkey | hold
  · exact absurd (htext.symm.trans (Cookie.keyText_of_key hkey)) hother
  · have hkey : c'.key = c.key := hapart.key (hmet c' hold) (hmet c hc) htext
    rwa [← hone.eq hold hc hkey]

/-- The cookie it keeps is the one of that key. -/
theorem mem_keptOf (hone : OneEach held) (hmet : ∀ c ∈ held, IsMet met c)
    (hapart : KeysApart (cookie :: met)) {c : Cookie} :
    c ∈ keptOf held cookie now ↔
      c ∈ storeCookie held cookie now ∧ c.keyText = cookie.keyText := by
  constructor
  · intro h
    exact ⟨List.mem_of_find?_eq_some h, by simpa using List.find?_some h⟩
  · rintro ⟨hc, htext⟩
    cases hkept : keptOf held cookie now with
    | none =>
        have hnone := List.find?_eq_none.mp hkept c hc
        simp [htext] at hnone
    | some c' =>
        have hc' : c' ∈ storeCookie held cookie now := List.mem_of_find?_eq_some hkept
        have htext' : c'.keyText = cookie.keyText := by simpa using List.find?_some hkept
        have hall := isMet_of_storeCookie cookie now hone hmet
        have hkey : c'.key = c.key := hapart.key (hall c' hc') (hall c hc) (htext'.trans htext.symm)
        rw [Option.mem_some_iff]
        exact (oneEach_storeCookie hone cookie now).eq hc' hc hkey

theorem mem_goneOf {text : Text} :
    text ∈ goneOf held cookie now ↔
      (∃ c ∈ held, c.keyText = text) ∧ ∀ c ∈ storeCookie held cookie now, c.keyText ≠ text := by
  simp [goneOf]

/-- A cookie the jar held, of another key, is still there where its key was not taken out. -/
theorem mem_storeCookie_iff_of_ne (hone : OneEach held) (hmet : ∀ c ∈ held, IsMet met c)
    (hapart : KeysApart met) {c : Cookie} (hother : c.keyText ≠ cookie.keyText) :
    c ∈ storeCookie held cookie now ↔ c ∈ held ∧ c.keyText ∉ goneOf held cookie now := by
  rw [mem_goneOf]
  constructor
  · intro hc
    refine ⟨?_, fun hgone => hgone.2 c hc rfl⟩
    rcases key_or_mem_of_storeCookie hone hc with hkey | hold
    · exact absurd (Cookie.keyText_of_key hkey) hother
    · exact hold
  · rintro ⟨hc, hnot⟩
    apply mem_storeCookie_of_stays hone hmet hapart hc hother
    by_contra hnone
    push Not at hnone
    exact hnot ⟨⟨c, hc, rfl⟩, hnone⟩

end Put

namespace JarTab

variable {met : List Cookie} {stored : StoredJar} {tab : JarTab} {cookie : Cookie}
  {memoryOnly : Bool} {now : Int}

theorem mem_unstored_put {text : Text} :
    text ∈ (tab.put cookie memoryOnly now).unstored ↔
      if (keptOf tab.held cookie now).isSome && memoryOnly then
        text = cookie.keyText ∨ text ∈ tab.unstored
      else text ∈ tab.unstored ∧ text ≠ cookie.keyText := by
  simp only [put]
  split_ifs <;> simp

/-- What the write of a cookie put into the jar will make of what is stored. -/
theorem mem_landAll_put {c : Cookie} :
    c ∈ landAll stored (tab.put cookie memoryOnly now).writes ↔
      ((memoryOnly = false ∧ c ∈ keptOf tab.held cookie now) ∨
        c ∈ landAll stored tab.writes ∧
          (memoryOnly = false → ∀ new ∈ keptOf tab.held cookie now, c.keyText ≠ new.keyText)) ∧
      c.keyText ∉ goneOf tab.held cookie now ∧
      ((keptOf tab.held cookie now).isSome && memoryOnly → c.keyText ≠ cookie.keyText) := by
  simp only [put]
  rw [landAll_snoc, mem_land_change]
  cases memoryOnly with
  | false => simp
  | true =>
      cases hkept : keptOf tab.held cookie now with
      | none => simp
      | some kept => simp

/-- What a tab's jar will make of what is stored goes with the jar, once more cookies came into
it. -/
theorem same_put (h : tab.Fits met stored) (hapart : KeysApart (cookie :: met))
    (hsame : ∀ c, c ∈ landAll stored tab.writes ↔ c ∈ tab.held ∧ c.keyText ∉ tab.unstored)
    (c : Cookie) :
    c ∈ landAll stored (tab.put cookie memoryOnly now).writes ↔
      c ∈ storeCookie tab.held cookie now ∧
        c.keyText ∉ (tab.put cookie memoryOnly now).unstored := by
  have hmem : c ∈ keptOf tab.held cookie now ↔
      c ∈ storeCookie tab.held cookie now ∧ c.keyText = cookie.keyText :=
    mem_keptOf h.oneEach h.heldMet hapart
  have hnew : ∀ new ∈ keptOf tab.held cookie now, new.keyText = cookie.keyText := by
    intro new hkept
    exact ((mem_keptOf h.oneEach h.heldMet hapart).mp hkept).2
  have hbefore : KeysApart met := fun a ha b hb =>
    hapart a (List.mem_cons_of_mem _ ha) b (List.mem_cons_of_mem _ hb)
  rw [mem_landAll_put, mem_unstored_put, hsame c]
  by_cases htext : c.keyText = cookie.keyText
  · -- The cookie's own key: what is kept of it, unless in memory only.
    have hnotGone : c ∈ storeCookie tab.held cookie now → c.keyText ∉ goneOf tab.held cookie now :=
      fun hc hgone => (mem_goneOf.mp hgone).2 c hc rfl
    cases hkept : keptOf tab.held cookie now with
    | none =>
        have hout : c ∉ storeCookie tab.held cookie now := by
          intro hc
          have := hmem.mpr ⟨hc, htext⟩
          simp [hkept] at this
        have hgone : c ∈ tab.held → c.keyText ∈ goneOf tab.held cookie now := by
          intro hc
          refine mem_goneOf.mpr ⟨⟨c, hc, rfl⟩, ?_⟩
          intro c' hc' htext'
          have := (mem_keptOf h.oneEach h.heldMet hapart).mpr ⟨hc', htext'.trans htext⟩
          simp [hkept] at this
        cases memoryOnly <;> simp <;> tauto
    | some kept =>
        have hself : kept.keyText = cookie.keyText := hnew kept hkept
        rw [hkept, Option.mem_some_iff] at hmem
        cases memoryOnly with
        | true => simp [htext]
        | false =>
            constructor
            · rintro ⟨⟨-, hc⟩ | ⟨-, hne⟩, -⟩
              · exact ⟨(hmem.mp (Option.mem_some_iff.mp hc)).1, by simp [htext]⟩
              · exact absurd (htext.trans hself.symm) (hne rfl kept rfl)
            · rintro ⟨hc, -⟩
              exact ⟨Or.inl ⟨rfl, Option.mem_some_iff.mpr (hmem.mpr ⟨hc, htext⟩)⟩, hnotGone hc,
                by simp⟩
  · -- Another key: the jar's and the stored one go or stay together.
    rw [mem_storeCookie_iff_of_ne h.oneEach h.heldMet hbefore htext]
    have hnotKept : c ∉ keptOf tab.held cookie now := fun hc => htext (hnew c hc)
    have hdiffer : ∀ new ∈ keptOf tab.held cookie now, c.keyText ≠ new.keyText := by
      intro new hkept heq
      exact htext (heq.trans (hnew new hkept))
    split_ifs <;> tauto

/-- A cookie put into the jar of a tab with no read on its way. -/
theorem Fits.put (h : tab.Fits met stored) (hapart : KeysApart (cookie :: met))
    (hreads : tab.reads = []) : (tab.put cookie memoryOnly now).Fits (cookie :: met) stored := by
  have hmet := isMet_of_storeCookie cookie now h.oneEach h.heldMet
  constructor
  · exact oneEach_storeCookie h.oneEach cookie now
  · exact hmet
  · intro write hwrite c hc
    rcases List.mem_append.mp hwrite with hold | hnew
    · exact (h.keptMet write hold c hc).mono (List.subset_cons_self _ _)
    · obtain rfl := List.mem_singleton.mp hnew
      cases memoryOnly with
      | true => cases hc
      | false => exact hmet c ((mem_keptOf h.oneEach h.heldMet hapart).mp hc).1
  · intro snapshot hsnapshot
    exact absurd hsnapshot (by simp [JarTab.put, hreads])
  · intro hsome
    exact absurd hreads hsome
  · exact h.deaf
  · intro c hc
    obtain ⟨hfrom, -, hmemory⟩ := mem_landAll_put.mp hc
    rw [mem_unstored_put]
    split_ifs with hunstored
    · rintro (htext | hold)
      · exact hmemory hunstored htext
      · rcases hfrom with ⟨rfl, -⟩ | ⟨hstored, -⟩
        · simp at hunstored
        · exact h.hidden c hstored hold
    · rintro ⟨hold, hother⟩
      rcases hfrom with ⟨-, hkept⟩ | ⟨hstored, -⟩
      · exact hother ((mem_keptOf h.oneEach h.heldMet hapart).mp hkept).2
      · exact h.hidden c hstored hold
  · intro snapshot hsnapshot
    exact absurd hsnapshot (by simp [JarTab.put, hreads])
  · intro hnone _
    exact same_put h hapart (h.same hnone hreads)
  · intro _ snapshot hsnapshot
    exact absurd hsnapshot (by simp [JarTab.put, hreads])

end JarTab

/-! ## All the tabs -/

namespace JarTabs

variable {n : Nat} {P : CookiePlatform} {s : JarTabs n}

/-- What holds in every state: of each tab, and between two of them. -/
structure Fits (s : JarTabs n) : Prop where
  tab : ∀ i, (s.tabs i).Fits s.met s.stored
  apart : KeysApart s.met
  storedMet : ∀ cookie ∈ s.stored, IsMet s.met cookie
  /-- No tab writes what is in another's memory only. -/
  others : ∀ i j, j ≠ i → ∀ write ∈ (s.tabs j).writes, ∀ cookie ∈ write.kept,
    cookie.keyText ∉ (s.tabs i).unstored

/-- One tab changed, and with it what was put into a jar. -/
theorem Fits.setTab {i : Fin n} {tab : JarTab} {met : List Cookie} (h : s.Fits)
    (hmore : s.met ⊆ met) (hapart : KeysApart met) (htab : tab.Fits met s.stored)
    (hwrites : ∀ j, j ≠ i → ∀ write ∈ tab.writes, ∀ cookie ∈ write.kept,
      cookie.keyText ∉ (s.tabs j).unstored)
    (hunstored : ∀ j, j ≠ i → ∀ write ∈ (s.tabs j).writes, ∀ cookie ∈ write.kept,
      cookie.keyText ∉ tab.unstored) : Fits { s.setTab i tab with met } := by
  have hself : (s.setTab i tab).tabs i = tab := Function.update_self ..
  have hother : ∀ j, j ≠ i → (s.setTab i tab).tabs j = s.tabs j := fun j hne =>
    Function.update_of_ne hne ..
  constructor
  · intro j
    by_cases hji : j = i
    · subst hji
      exact hself.symm ▸ htab
    · show ((s.setTab i tab).tabs j).Fits met s.stored
      rw [hother j hji]
      exact (h.tab j).mono hmore
  · exact hapart
  · intro cookie hcookie
    exact (h.storedMet cookie hcookie).mono hmore
  · intro j k hne
    show ∀ write ∈ ((s.setTab i tab).tabs k).writes, ∀ cookie ∈ write.kept,
      cookie.keyText ∉ ((s.setTab i tab).tabs j).unstored
    by_cases hji : j = i
    · subst hji
      rw [hself, hother k hne]
      exact hunstored k hne
    · rw [hother j hji]
      by_cases hki : k = i
      · subst hki
        rw [hself]
        exact hwrites j hji
      · rw [hother k hki]
        exact h.others j k hne

theorem KeysApart.cons {met : List Cookie} {cookie : Cookie} (h : KeysApart met)
    (hnew : ∀ other ∈ met, other.keyText = cookie.keyText → other.key = cookie.key) :
    KeysApart (cookie :: met) := by
  intro a ha b hb htext
  rcases List.mem_cons.mp ha with rfl | haold
  · rcases List.mem_cons.mp hb with rfl | hbold
    · rfl
    · exact (hnew b hbold htext.symm).symm
  · rcases List.mem_cons.mp hb with rfl | hbold
    · exact hnew a haold htext
    · exact h a haold b hbold htext

theorem Fits.put {i : Fin n} {cookie : Cookie} {memoryOnly : Bool} (now : Int) (h : s.Fits)
    (hmay : s.MayPut i cookie memoryOnly) : (s.put i cookie memoryOnly now).Fits := by
  have hreads : (s.tabs i).reads = [] := List.isEmpty_iff.mp hmay.alone
  have hapart : KeysApart (cookie :: s.met) := KeysApart.cons h.apart hmay.apart
  apply h.setTab (List.subset_cons_self _ _) hapart ((h.tab i).put hapart hreads)
  · intro j hne write hwrite c hc
    rcases List.mem_append.mp hwrite with hold | hnew
    · exact h.others j i hne.symm write hold c hc
    · obtain rfl := List.mem_singleton.mp hnew
      cases memoryOnly with
      | true => cases hc
      | false =>
          have htab := h.tab i
          rw [((mem_keptOf htab.oneEach htab.heldMet hapart).mp hc).2]
          exact hmay.stores rfl j hne
  · intro j hne write hwrite c hc
    rw [JarTab.mem_unstored_put]
    split_ifs with hunstored
    · have hmemory : memoryOnly = true := (Bool.and_eq_true_iff.mp hunstored).2
      rintro (htext | hold)
      · exact hmay.hides hmemory j hne write hwrite c hc htext
      · exact h.others i j hne write hwrite c hc hold
    · rintro ⟨hold, -⟩
      exact h.others i j hne write hwrite c hc hold

theorem told_writes (tab : JarTab) :
    tab.told.writes = tab.writes ∧ tab.told.unstored = tab.unstored := by
  rw [JarTab.told]
  split_ifs <;> exact ⟨rfl, rfl⟩

theorem Fits.landed {i : Fin n} {write : JarWrite} {writes : List JarWrite} (h : s.Fits)
    (hwrites : (s.tabs i).writes = write :: writes)
    (hfirst : ∀ j, j ≠ i → (s.tabs j).hears = false → (s.tabs j).reads.isEmpty = true) :
    (s.landed i write writes).Fits := by
  have hwrite : write ∈ (s.tabs i).writes := hwrites ▸ List.mem_cons_self
  have hself : (s.landed i write writes).tabs i = { s.tabs i with writes } := if_pos rfl
  have hother : ∀ j, j ≠ i → (s.landed i write writes).tabs j = (s.tabs j).told :=
    fun j hne => if_neg hne
  -- What is pending afterwards was so before, and what is in memory only stays so.
  have hpending : ∀ j, ∀ later ∈ ((s.landed i write writes).tabs j).writes,
      later ∈ (s.tabs j).writes := by
    intro j later hlater
    by_cases hji : j = i
    · subst hji
      rw [hself] at hlater
      exact hwrites ▸ List.mem_cons_of_mem _ hlater
    · rw [hother j hji, (told_writes _).1] at hlater
      exact hlater
  have hunstored : ∀ j, ((s.landed i write writes).tabs j).unstored = (s.tabs j).unstored := by
    intro j
    by_cases hji : j = i
    · subst hji
      rw [hself]
    · rw [hother j hji, (told_writes _).2]
  constructor
  · intro j
    by_cases hji : j = i
    · subst hji
      rw [hself]
      exact (h.tab j).landed hwrites
    · rw [hother j hji]
      apply (h.tab j).told
      · intro hdeaf
        exact List.isEmpty_iff.mp (hfirst j hji hdeaf)
      · exact h.others j i (Ne.symm hji) write hwrite
  · exact h.apart
  · intro cookie hcookie
    rcases mem_of_land hcookie with hkept | hstored
    · exact (h.tab i).keptMet write hwrite cookie hkept
    · exact h.storedMet cookie hstored
  · intro j k hne later hlater
    rw [hunstored j]
    exact h.others j k hne later (hpending k later hlater)

/-- One step. -/
theorem Fits.step {step : JarStep n} {s' : JarTabs n} (h : s.Fits) (halone : s.Alone P step)
    (hstep : s.step P step = some s') : s'.Fits := by
  -- Three of the steps put a cookie in, where they find one.
  have hput : ∀ {put : Option (Fin n × Cookie × Bool × Int)} {i cookie memoryOnly now},
      put = some (i, cookie, memoryOnly, now) → (∀ p ∈ put, s.MayPut p.1 p.2.1 p.2.2.1) →
      (s.put i cookie memoryOnly now).Fits := by
    rintro put i cookie memoryOnly now rfl hmay
    exact h.put now (hmay _ rfl)
  cases step with
  | receive i header url secrets now =>
      obtain rfl := Option.some.inj hstep
      split
      · exact h
      · next hfound => exact hput hfound halone
  | setValue i cookie value now =>
      obtain rfl := Option.some.inj hstep
      split
      · exact h
      · next hfound => exact hput hfound halone
  | remove i cookie now =>
      obtain rfl := Option.some.inj hstep
      split
      · exact h
      · next hfound => exact hput hfound halone
  | clear i =>
      obtain rfl := Option.some.inj hstep
      apply h.setTab (List.Subset.refl _) h.apart ((h.tab i).clear (List.isEmpty_iff.mp halone))
      · intro j hne write hwrite c hc
        rcases List.mem_append.mp hwrite with hold | hnew
        · exact h.others j i hne.symm write hold c hc
        · obtain rfl := List.mem_singleton.mp hnew
          cases hc
      · intro j hne write hwrite c hc
        exact List.not_mem_nil
  | land i =>
      rw [JarTabs.step] at hstep
      split at hstep
      · cases hstep
      · rename_i write writes hwrites
        obtain rfl := Option.some.inj hstep
        exact h.landed hwrites halone
  | beginRead i =>
      rw [JarTabs.step] at hstep
      split at hstep
      · cases hstep
      · rename_i notices hnotices
        obtain rfl := Option.some.inj hstep
        -- A tab that has a write of its own under way does not read.
        have hwrites : (s.tabs i).writes = [] := List.isEmpty_iff.mp halone
        apply h.setTab (List.Subset.refl _) h.apart
          ((h.tab i).beginRead notices h.storedMet hwrites)
        · intro j hne
          exact h.others j i hne.symm
        · intro j hne
          exact h.others i j hne
  | endRead i =>
      rw [JarTabs.step] at hstep
      split at hstep
      · cases hstep
      · rename_i snapshot reads hreads
        obtain rfl := Option.some.inj hstep
        apply h.setTab (List.Subset.refl _) h.apart ((h.tab i).endRead hreads)
        · intro j hne
          exact h.others j i hne.symm
        · intro j hne
          exact h.others i j hne
  | reload i =>
      obtain rfl := Option.some.inj hstep
      apply h.setTab (List.Subset.refl _) h.apart JarTab.Fits.opened
      · intro j hne write hwrite
        cases hwrite
      · intro j hne write hwrite c hc
        exact List.not_mem_nil

/-- The tabs as they are opened. -/
theorem fits_start (n : Nat) : (start n).Fits where
  tab _ := JarTab.Fits.opened
  apart a ha := by cases ha
  storedMet cookie hcookie := absurd hcookie (Table.not_mem_empty cookie)
  others i j hne write hwrite := by cases hwrite

/-- What holds in every state is what is promised. -/
theorem Fits.oneJar (h : s.Fits) : s.OneJar where
  oneEach i := (h.tab i).oneEach
  stored i hquiet cookie := by
    obtain ⟨hwrites, hnotices, hreads⟩ := hquiet
    have hsame := (h.tab i).same hnotices hreads cookie
    rw [hwrites, landAll_nil] at hsame
    simpa [JarTab.inMemoryOnly] using hsame

/-- After every interleaving of such steps each tab's jar has one cookie of a name, domain and path,
and a tab with nothing pending holds the stored cookies, beside those in its memory only. -/
theorem run_oneJar {steps : List (JarStep n)} {s' : JarTabs n}
    (halone : Meets (JarTabs.step P) (Alone P) (start n) steps)
    (hrun : run (JarTabs.step P) (start n) steps = some s') : s'.OneJar := by
  have hfits : s'.Fits :=
    run_induction (fun _ _ _ hbefore hmeets hstep => hbefore.step hmeets hstep)
    (fits_start n) halone hrun
  exact hfits.oneJar

/-! ## A condition that is met, and a read that crosses a change -/

set_option synthInstance.maxSize 400 in
instance (i : Fin n) (cookie : Cookie) (memoryOnly : Bool) :
    Decidable (s.MayPut i cookie memoryOnly) :=
  decidable_of_iff
    ((s.tabs i).reads.isEmpty = true ∧
      (∀ other ∈ s.met, other.keyText = cookie.keyText → other.key = cookie.key) ∧
      (memoryOnly = false → ∀ j, j ≠ i → cookie.keyText ∉ (s.tabs j).unstored) ∧
      (memoryOnly = true → ∀ j, j ≠ i → ∀ write ∈ (s.tabs j).writes, ∀ kept ∈ write.kept,
        kept.keyText ≠ cookie.keyText))
    ⟨fun h => ⟨h.1, h.2.1, h.2.2.1, h.2.2.2⟩, fun h => ⟨h.alone, h.apart, h.stores, h.hides⟩⟩

instance (step : JarStep n) : Decidable (s.Alone P step) :=
  match step with
  | .clear _ => inferInstanceAs (Decidable (_ = true))
  | .beginRead _ => inferInstanceAs (Decidable (_ = true))
  | .land i => inferInstanceAs (Decidable (∀ j, j ≠ i → _ → _))
  | .endRead _ => isTrue trivial
  | .reload _ => isTrue trivial
  | .receive i header url secrets now =>
      inferInstanceAs (Decidable
        (∀ p ∈ s.putBy P (.receive i header url secrets now), s.MayPut p.1 p.2.1 p.2.2.1))
  | .setValue i cookie value now =>
      inferInstanceAs (Decidable
        (∀ p ∈ s.putBy P (.setValue i cookie value now), s.MayPut p.1 p.2.1 p.2.2.1))
  | .remove i cookie now =>
      inferInstanceAs (Decidable
        (∀ p ∈ s.putBy P (.remove i cookie now), s.MayPut p.1 p.2.1 p.2.2.1))

/-- A tab reads at its start, and then receives a cookie that lands: its jar is the stored one. -/
def readThenReceive : List (JarStep 2) :=
  [.beginRead 0, .endRead 0, .beginRead 1, .endRead 1, .receive 1 (units "n=1") [] [] 1, .land 1,
    .beginRead 0, .endRead 0]

theorem run_oneJar_readThenReceive : ∃ s' : JarTabs 2,
    run (JarTabs.step oneHost) (start 2) readThenReceive = some s' ∧ s'.OneJar ∧
      ∀ i, (s'.tabs i).held ≠ [] := by
  have hmeets : Meets (JarTabs.step oneHost) (Alone oneHost) (start 2) readThenReceive := by
    decide +kernel
  have hany : (run (JarTabs.step oneHost) (start 2) readThenReceive).any
      (fun s' => decide (∀ i, (s'.tabs i).held ≠ [])) = true := by
    decide +kernel
  obtain ⟨s', hrun, hheld⟩ := exists_run_of_any hany
  exact ⟨s', hrun, run_oneJar hmeets hrun, of_decide_eq_true hheld⟩

/-- Another tab wrote; while this one reads what is stored a response sets a cookie here. The read
ends, and the cookie lands. -/
def readAcrossReceive : List (JarStep 2) :=
  [.beginRead 0, .endRead 0, .beginRead 1, .endRead 1, .receive 1 (units "b=2") [] [] 1, .land 1,
    .beginRead 0, .receive 0 (units "a=1") [] [] 2, .endRead 0, .land 0]

/-- The cookie is stored then, and not in this tab's jar, with nothing pending in it. -/
theorem readAcross_loses : ∃ s' : JarTabs 2,
    run (JarTabs.step oneHost) (start 2) readAcrossReceive = some s' ∧
      s'.Quiet 0 ∧ ¬ s'.OneJar := by
  have hany : (run (JarTabs.step oneHost) (start 2) readAcrossReceive).any
      (fun s' => decide ((s'.tabs 0).writes = [] ∧ (s'.tabs 0).notices = 0) &&
        (s'.tabs 0).reads.isEmpty &&
        s'.stored.rows.any fun cookie => !(s'.tabs 0).held.contains cookie) = true := by
    decide +kernel
  obtain ⟨s', hrun, htest⟩ := exists_run_of_any hany
  simp only [Bool.and_eq_true, decide_eq_true_eq, List.isEmpty_iff, List.any_eq_true,
    Bool.not_eq_true', List.contains_eq_mem, decide_eq_false_iff_not] at htest
  obtain ⟨⟨⟨hwrites, hnotices⟩, hreads⟩, cookie, hstored, hlost⟩ := htest
  have hquiet : s'.Quiet 0 := ⟨hwrites, hnotices, hreads⟩
  exact ⟨s', hrun, hquiet, fun hone => hlost ((hone.stored 0 hquiet cookie).mp hstored).1⟩

end JarTabs

end Wayfarer
