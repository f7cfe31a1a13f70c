import Wayfarer.Library.Form

/-!
# Cutting texts and putting them together

A text is cut at a word, at the last of its separators, or at each of them, and the pieces with the
separators between them are the text again.

`ReadsApart` is a reading of texts that goes piece by piece wherever a separator stands. `Reads` and
`Leads` say how a text that was put together is read, and compose as the text does.
-/

set_option autoImplicit false

namespace Library

/-! ## Cuts -/

/-- A text cut where a word first stands: what stands before it, and what stands after it. -/
def cutAtWord (word : Text) : Text → Option (Text × Text)
  | [] => none
  | c :: rest =>
      if word.isPrefixOf (c :: rest) then some ([], (c :: rest).drop word.length)
      else (cutAtWord word rest).map fun cut => (c :: cut.1, cut.2)

/-- A text cut at its last `sep`: what stands before it, and what stands after it. -/
def cutAtLast (sep : CodeUnit) : Text → Option (Text × Text)
  | [] => none
  | c :: rest =>
      match cutAtLast sep rest with
      | some cut => some (c :: cut.1, cut.2)
      | none => if c = sep then some ([], rest) else none

theorem append_of_cutAtWord {word t a b : Text} (h : cutAtWord word t = some (a, b)) :
    t = a ++ (word ++ b) := by
  induction t generalizing a with
  | nil => cases h
  | cons c rest ih =>
      rw [cutAtWord] at h
      split_ifs at h with hword
      · cases h
        obtain ⟨after, hafter⟩ := List.isPrefixOf_iff_prefix.mp hword
        rw [← hafter, List.drop_left, List.nil_append]
      · obtain ⟨cut, hcut, heq⟩ := Option.map_eq_some_iff.mp h
        cases heq
        rw [List.cons_append, ← ih hcut]

theorem append_of_cutAtLast {sep : CodeUnit} {t a b : Text} (h : cutAtLast sep t = some (a, b)) :
    t = a ++ sep :: b := by
  induction t generalizing a with
  | nil => cases h
  | cons c rest ih =>
      rw [cutAtLast] at h
      cases hcut : cutAtLast sep rest with
      | some cut =>
          rw [hcut] at h
          cases h
          rw [List.cons_append, ← ih hcut]
      | none =>
          rw [hcut] at h
          dsimp only at h
          split_ifs at h with hc
          cases h
          rw [hc, List.nil_append]

/-- The two parts of a cut are the text. -/
theorem append_cutAt (sep : CodeUnit) (t : Text) :
    (cutAt sep t).1 ++ (cutAt sep t).2.elim [] (fun after => sep :: after) = t := by
  cases hcut : (cutAt sep t).2 with
  | none =>
      rw [cutAt_of_not_mem (cutAt_eq_none_iff.mp hcut), Option.elim_none, List.append_nil]
  | some after => exact (append_of_cutAt (Prod.ext rfl hcut)).symm

theorem mem_cutAt {sep c : CodeUnit} {t : Text} :
    (c ∈ (cutAt sep t).1 → c ∈ t) ∧ (∀ after, (cutAt sep t).2 = some after → c ∈ after → c ∈ t) :=
  ⟨fun h => mem_of_mem_cutAt (.inl h),
    fun after hafter h => mem_of_mem_cutAt (.inr ⟨after, hafter, h⟩)⟩

/-- The pieces of a text, joined, are the text. -/
theorem joinWith_splitOn (sep : CodeUnit) (t : Text) : joinWith [sep] (splitOn sep t) = t := by
  induction t with
  | nil => rfl
  | cons c t ih =>
      rw [splitOn]
      cases hpieces : splitOn sep t with
      | nil => exact absurd hpieces (splitOn_ne_nil sep t)
      | cons piece pieces =>
          rw [hpieces] at ih
          split_ifs with hc
          · rw [joinWith, List.intercalate_cons_cons, ← joinWith, ih, hc]
            rfl
          · cases pieces with
            | nil =>
                rw [joinWith, List.intercalate_singleton] at ih ⊢
                rw [ih]
            | cons next pieces =>
                rw [joinWith, List.intercalate_cons_cons] at ih ⊢
                rw [List.cons_append, List.cons_append, ih]

/-- A piece holds no separator, and nothing that the text does not hold. -/
theorem mem_splitOn {sep : CodeUnit} {t piece : Text} (h : piece ∈ splitOn sep t) :
    sep ∉ piece ∧ ∀ c ∈ piece, c ∈ t := by
  induction t generalizing piece with
  | nil =>
      rw [splitOn, List.mem_singleton] at h
      rw [h]
      exact ⟨List.not_mem_nil, fun c hc => hc⟩
  | cons d t ih =>
      rw [splitOn] at h
      cases hpieces : splitOn sep t with
      | nil => exact absurd hpieces (splitOn_ne_nil sep t)
      | cons first others =>
          rw [hpieces] at h ih
          split_ifs at h with hd
          · rcases List.mem_cons.mp h with rfl | h
            · exact ⟨List.not_mem_nil, fun c hc => absurd hc List.not_mem_nil⟩
            · exact ⟨(ih h).1, fun c hc => List.mem_cons_of_mem _ ((ih h).2 c hc)⟩
          · rcases List.mem_cons.mp h with rfl | h
            · obtain ⟨hsep, hmem⟩ := ih List.mem_cons_self
              refine ⟨?_, fun c hc => ?_⟩
              · rw [List.mem_cons, not_or]
                exact ⟨Ne.symm hd, hsep⟩
              · rcases List.mem_cons.mp hc with rfl | hc
                · exact List.mem_cons_self
                · exact List.mem_cons_of_mem _ (hmem c hc)
            · obtain ⟨hsep, hmem⟩ := ih (List.mem_cons_of_mem _ h)
              exact ⟨hsep, fun c hc => List.mem_cons_of_mem _ (hmem c hc)⟩

/-! ## Reading piece by piece -/

universe u

variable {γ : Type u}

/-- A reading of texts, `Good` ones where it matters, that goes piece by piece where a separator
stands. -/
structure ReadsApart (IsSep : CodeUnit → Prop) (Good : Text → Prop) (write : CodeUnit → List γ)
    (read : Text → List γ) : Prop where
  good_nil : Good []
  read_nil : read [] = []
  cut : ∀ {front after : Text} {c : CodeUnit}, IsSep c → Good (front ++ c :: after) →
    Good front ∧ Good (c :: after) ∧ Good after ∧
      read (front ++ c :: after) = read front ++ (write c ++ read after)

namespace ReadsApart

variable {IsSep : CodeUnit → Prop} {Good : Text → Prop} {write : CodeUnit → List γ}
  {read : Text → List γ}

/-- A text that is empty or starts with a separator. -/
def Opens (IsSep : CodeUnit → Prop) (t : Text) : Prop :=
  ∀ c ∈ t.head?, IsSep c

/-- How a text is read in front of a separator. -/
def Reads (_ : ReadsApart IsSep Good write read) (t : Text) (out : List γ) : Prop :=
  ∀ after, Opens IsSep after → Good (t ++ after) →
    Good after ∧ read (t ++ after) = out ++ read after

/-- How a text is read in front of any other. -/
def Leads (_ : ReadsApart IsSep Good write read) (t : Text) (out : List γ) : Prop :=
  ∀ after, Good (t ++ after) → Good after ∧ read (t ++ after) = out ++ read after

variable (h : ReadsApart IsSep Good write read)

include h

theorem leads_nil : h.Leads [] [] :=
  fun _ hgood => ⟨hgood, rfl⟩

theorem leads_sep {c : CodeUnit} (hc : IsSep c) : h.Leads [c] (write c) := by
  intro after hgood
  obtain ⟨-, -, hafter, hread⟩ := @ReadsApart.cut _ _ _ _ _ h [] after c hc hgood
  refine ⟨hafter, ?_⟩
  rw [List.nil_append, h.read_nil, List.nil_append] at hread
  exact hread

theorem Leads.append {a b : Text} {out out' : List γ} (ha : h.Leads a out) (hb : h.Leads b out') :
    h.Leads (a ++ b) (out ++ out') := by
  intro after hgood
  rw [List.append_assoc] at hgood ⊢
  obtain ⟨hgood, hread⟩ := ha _ hgood
  obtain ⟨hafter, hread'⟩ := hb _ hgood
  exact ⟨hafter, by rw [hread, hread', List.append_assoc]⟩

theorem Leads.reads {t : Text} {out : List γ} (ht : h.Leads t out) : h.Reads t out :=
  fun after _ hgood => ht after hgood

/-- A text is read as it is read alone. -/
theorem reads_self (t : Text) : h.Reads t (read t) := by
  intro after hopens hgood
  cases after with
  | nil => exact ⟨h.good_nil, by rw [h.read_nil, List.append_nil, List.append_nil]⟩
  | cons c after =>
      have hc := hopens c rfl
      obtain ⟨-, hgood', -, hread⟩ := h.cut hc hgood
      have hafter := (h.leads_sep hc after hgood').2
      rw [List.singleton_append] at hafter
      exact ⟨hgood', by rw [hread, hafter]⟩

theorem Leads.append_reads {a b : Text} {out out' : List γ} (ha : h.Leads a out)
    (hb : h.Reads b out') : h.Reads (a ++ b) (out ++ out') := by
  intro after hopens hgood
  rw [List.append_assoc] at hgood ⊢
  obtain ⟨hgood, hread⟩ := ha _ hgood
  obtain ⟨hafter, hread'⟩ := hb _ hopens hgood
  exact ⟨hafter, by rw [hread, hread', List.append_assoc]⟩

theorem Reads.append {a b : Text} {out out' : List γ} (ha : h.Reads a out) (hb : h.Reads b out')
    (hopens : Opens IsSep b) : h.Reads (a ++ b) (out ++ out') := by
  intro after hafter hgood
  have hboth : Opens IsSep (b ++ after) := by
    cases b with
    | nil => exact hafter
    | cons c b => exact fun d hd => hopens d hd
  rw [List.append_assoc] at hgood ⊢
  obtain ⟨hgood, hread⟩ := ha _ hboth hgood
  obtain ⟨hgood, hread'⟩ := hb _ hafter hgood
  exact ⟨hgood, by rw [hread, hread', List.append_assoc]⟩

/-- What is followed by a separator may be followed by anything. -/
theorem Reads.leads {t : Text} {out : List γ} {c : CodeUnit} (ht : h.Reads t out) (hc : IsSep c) :
    h.Leads (t ++ [c]) (out ++ write c) := by
  intro after hgood
  rw [List.append_assoc, List.singleton_append] at hgood ⊢
  obtain ⟨hgood, hread⟩ := ht (c :: after) (fun d hd => Option.some.inj hd ▸ hc) hgood
  obtain ⟨hafter, hread'⟩ := h.leads_sep hc after hgood
  rw [List.singleton_append] at hread'
  exact ⟨hafter, by rw [hread, hread', List.append_assoc]⟩

/-- Joined texts are read one by one. -/
theorem reads_joinWith {c : CodeUnit} (hc : IsSep c) {α : Type} {texts : α → Text}
    {outs : α → List γ} {items : List α} (hitems : ∀ a ∈ items, h.Reads (texts a) (outs a)) :
    h.Reads (joinWith [c] (items.map texts)) ((write c).intercalate (items.map outs)) := by
  induction items with
  | nil => exact Leads.reads h h.leads_nil
  | cons a items ih =>
      obtain ⟨ha, hrest⟩ := List.forall_mem_cons.mp hitems
      cases items with
      | nil =>
          rw [List.map_singleton, List.map_singleton, joinWith, List.intercalate_singleton,
            List.intercalate_singleton]
          exact ha
      | cons b items =>
          rw [List.map_cons, List.map_cons, List.map_cons, List.map_cons, joinWith,
            List.intercalate_cons_cons, List.intercalate_cons_cons]
          exact Leads.append_reads h (Reads.leads h ha hc) (ih hrest)

omit h in
theorem opens_append {a b : Text} (ha : Opens IsSep a) (hb : Opens IsSep b) :
    Opens IsSep (a ++ b) := by
  cases a with
  | nil => exact hb
  | cons c a => exact fun d hd => ha d hd

omit h in
theorem opens_behind {α : Type} {c : CodeUnit} (hc : IsSep c) (o : Option α) (texts : α → Text) :
    Opens IsSep (o.elim [] fun a => [c] ++ texts a) := by
  cases o with
  | none => exact fun d hd => nomatch hd
  | some a => exact fun d hd => Option.some.inj hd ▸ hc

/-- What stands behind a separator, where it is there at all. -/
theorem reads_behind {α : Type} {c : CodeUnit} (hc : IsSep c) {texts : α → Text}
    {outs : α → List γ} (hitem : ∀ a, h.Reads (texts a) (outs a)) (o : Option α) :
    h.Reads (o.elim [] fun a => [c] ++ texts a) (o.elim [] fun a => write c ++ outs a) := by
  cases o with
  | none => exact Leads.reads h h.leads_nil
  | some a => exact Leads.append_reads h (h.leads_sep hc) (hitem a)

/-- A good text that was put together is read as its pieces are. -/
theorem Reads.read_eq {t : Text} {out : List γ} (ht : h.Reads t out) (hgood : Good t) :
    read t = out := by
  have hread := (ht [] (fun c hc => nomatch hc) (by rwa [List.append_nil])).2
  rwa [List.append_nil, h.read_nil, List.append_nil] at hread

end ReadsApart

end Library
