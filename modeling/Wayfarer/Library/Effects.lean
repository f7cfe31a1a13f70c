import Mathlib.Data.List.Forall2
import Mathlib.Order.Nat

/-!
# What a fallible computation does to its state

Five properties of computations with a state that can fail, each closed under the ways such
computations are put together. `Keeps R` says that the state it leaves is related to the one it was
given. `Counted count` says that a counter in the state only grows, and that a run that leaves the
counter as it was gives the same value from every other state too: such a run did not depend on the
state. `Gives` says that it succeeds, with one value, whatever the state. `Carries R` says of two
computations that whatever the one can give, the other gives something related to it, from every
state. `FailsAlike` says of two that the one fails from a state where the other fails from any, and
with one error: whether they fail depends on no state.
-/

set_option autoImplicit false

namespace Library

universe u

variable {σ ε α β : Type u}

/-- The state left is related to the state given. -/
def Keeps (R : σ → σ → Prop) (x : StateT σ (Except ε) α) : Prop :=
  ∀ s a s', x.run s = .ok (a, s') → R s s'

/-- A counter that only grows and, where it does not, a value that is the same from every state. -/
def Counted (count : σ → Nat) (x : StateT σ (Except ε) α) : Prop :=
  ∀ s a s', x.run s = .ok (a, s') →
    count s ≤ count s' ∧
      (count s' = count s → ∀ t, ∃ t', x.run t = .ok (a, t') ∧ count t' = count t)

/-- The value it gives, from every state. -/
def Gives (x : StateT σ (Except ε) α) (a : α) : Prop :=
  ∀ s, ∃ s', x.run s = .ok (a, s')

/-- Two steps that can fail give a result when the first gives one and the second does with it. -/
theorem bind_eq_ok {x : Except ε α} {f : α → Except ε β} {b : β} :
    (x >>= f) = .ok b ↔ ∃ a, x = .ok a ∧ f a = .ok b := by
  cases x with
  | error e => exact iff_of_false (fun h => nomatch h) fun ⟨a, ha, _⟩ => nomatch ha
  | ok a =>
      constructor
      · exact fun h => ⟨a, rfl, h⟩
      · rintro ⟨a', ha, hb⟩
        cases ha
        exact hb

/-- Two steps that can fail give an error when the first does, or the second with
what the first gives. -/
theorem bind_eq_error {x : Except ε α} {f : α → Except ε β} {e : ε} :
    (x >>= f) = .error e ↔ x = .error e ∨ ∃ a, x = .ok a ∧ f a = .error e := by
  cases x with
  | error e' =>
      constructor
      · intro h
        cases h
        exact .inl rfl
      · rintro (h | ⟨a, ha, -⟩)
        · cases h
          rfl
        · cases ha
  | ok a =>
      constructor
      · exact fun h => .inr ⟨a, rfl, h⟩
      · rintro (h | ⟨a', ha, hb⟩)
        · cases h
        · cases ha
          exact hb

/-- A run of two computations is a run of the one and then of the other. -/
theorem run_bind_eq_ok {x : StateT σ (Except ε) α} {f : α → StateT σ (Except ε) β} {s s' : σ}
    {b : β} : (x >>= f).run s = .ok (b, s') ↔
      ∃ a middle, x.run s = .ok (a, middle) ∧ (f a).run middle = .ok (b, s') := by
  rw [StateT.run_bind]
  cases x.run s with
  | error e =>
      refine ⟨fun h => ?_, fun ⟨_, _, h, _⟩ => ?_⟩ <;> cases h
  | ok result =>
      refine ⟨fun h => ⟨result.1, result.2, rfl, h⟩, fun ⟨a, middle, hresult, h⟩ => ?_⟩
      cases hresult
      exact h

/-- What is related to an element of the first list is in the second. -/
theorem mem_of_forall₂_left {R : α → β → Prop} {as : List α} {bs : List β}
    (h : List.Forall₂ R as bs) {a : α} (ha : a ∈ as) : ∃ b ∈ bs, R a b := by
  induction h with
  | nil => cases ha
  | cons hab _ ih =>
      rcases List.mem_cons.mp ha with rfl | ha
      · exact ⟨_, by simp, hab⟩
      · obtain ⟨b, hb, hr⟩ := ih ha
        exact ⟨b, by simp [hb], hr⟩

/-- A list of computations gives, item by item, what each gives from the state it finds. -/
theorem forall₂_of_run_mapM {f : α → StateT σ (Except ε) β} {as : List α} {bs : List β}
    {s s' : σ} (h : (as.mapM f).run s = .ok (bs, s')) :
    List.Forall₂ (fun a b => ∃ t t', (f a).run t = .ok (b, t')) as bs := by
  induction as generalizing bs s with
  | nil =>
      rw [List.mapM_nil] at h
      cases h
      exact List.Forall₂.nil
  | cons a as ih =>
      rw [List.mapM_cons] at h
      obtain ⟨b, t, hfirst, hrest⟩ := run_bind_eq_ok.mp h
      obtain ⟨rest, t', hlater, hpure⟩ := run_bind_eq_ok.mp hrest
      cases hpure
      exact List.Forall₂.cons ⟨s, t, hfirst⟩ (ih hlater)

/-- Two lists of computations that agree item by item are one computation. -/
theorem mapM_congr_of_mem {f g : α → StateT σ (Except ε) β} {as : List α}
    (h : ∀ a ∈ as, f a = g a) : as.mapM f = as.mapM g := by
  induction as with
  | nil => rw [List.mapM_nil, List.mapM_nil]
  | cons a as ih =>
      rw [List.mapM_cons, List.mapM_cons, h a List.mem_cons_self]
      have hrest := ih fun a' ha' => h a' (List.mem_cons_of_mem a ha')
      rw [hrest]

/-- A list of computations without a state gives what each gives, or nothing. -/
theorem mapM_eq_some_iff {f : α → Option β} {as : List α} {bs : List β} :
    as.mapM f = some bs ↔ List.Forall₂ (fun a b => f a = some b) as bs := by
  induction as generalizing bs with
  | nil =>
      rw [List.mapM_nil]
      cases bs with
      | nil => simp
      | cons b bs => simp [pure]
  | cons a as ih =>
      rw [List.mapM_cons]
      constructor
      · intro h
        obtain ⟨b, hb, hrest⟩ := Option.bind_eq_some_iff.mp h
        obtain ⟨bs', hbs', hpure⟩ := Option.bind_eq_some_iff.mp hrest
        cases hpure
        exact List.Forall₂.cons hb (ih.mp hbs')
      · intro h
        cases h with
        | cons hb hrest =>
            rw [hb, ih.mpr hrest]
            rfl

/-- Computations that each give what is made of their item, or nothing. -/
theorem mapM_eq_some_map_iff {f : α → Option β} {good : α → Prop} {g : α → β}
    (h : ∀ a b, f a = some b ↔ good a ∧ b = g a) {as : List α} {bs : List β} :
    as.mapM f = some bs ↔ (∀ a ∈ as, good a) ∧ bs = as.map g := by
  rw [mapM_eq_some_iff]
  constructor
  · intro hall
    induction hall with
    | nil => exact ⟨fun a ha => absurd ha (List.not_mem_nil), rfl⟩
    | @cons a b as bs hab _ ih =>
        obtain ⟨hgood, rfl⟩ := (h a b).mp hab
        obtain ⟨hrest, rfl⟩ := ih
        exact ⟨List.forall_mem_cons.mpr ⟨hgood, hrest⟩, rfl⟩
  · rintro ⟨hgood, rfl⟩
    rw [List.forall₂_map_right_iff, List.forall₂_same]
    exact fun a ha => (h a (g a)).mpr ⟨hgood a ha, rfl⟩

/-- Computations of which none fails. -/
theorem mapM_ok {f : α → Except ε β} {g : α → β} {as : List α}
    (h : ∀ a ∈ as, f a = .ok (g a)) : as.mapM f = .ok (as.map g) := by
  induction as with
  | nil => rfl
  | cons a as ih =>
      rw [List.mapM_cons, h a (List.mem_cons_self ..),
        ih fun b hb => h b (List.mem_cons_of_mem a hb)]
      rfl

/-- Computations of which one fails: the first such one gives the error. -/
theorem mapM_error {f : α → Except ε β} {as : List α}
    (h : ∃ a ∈ as, ∃ e, f a = .error e) :
    ∃ a ∈ as, ∃ e, f a = .error e ∧ as.mapM f = .error e := by
  induction as with
  | nil =>
      obtain ⟨a, ha, -⟩ := h
      exact absurd ha (List.not_mem_nil)
  | cons a as ih =>
      cases hfirst : f a with
      | error e =>
          refine ⟨a, List.mem_cons_self .., e, hfirst, ?_⟩
          rw [List.mapM_cons, hfirst]
          rfl
      | ok b =>
          obtain ⟨other, hother, e, he⟩ := h
          have hlater : other ∈ as := by
            rcases List.mem_cons.mp hother with rfl | hmem
            · rw [hfirst] at he
              cases he
            · exact hmem
          obtain ⟨found, hfound, e', he', hall⟩ := ih ⟨other, hlater, e, he⟩
          refine ⟨found, List.mem_cons_of_mem a hfound, e', he', ?_⟩
          rw [List.mapM_cons, hfirst, hall]
          rfl

/-- Each item of the list gave one of the results. -/
theorem exists_run_of_mem_mapM {f : α → StateT σ (Except ε) β} {as : List α} {bs : List β}
    {s s' : σ} (h : (as.mapM f).run s = .ok (bs, s')) {a : α} (ha : a ∈ as) :
    ∃ b ∈ bs, ∃ t t', (f a).run t = .ok (b, t') := by
  have hall := forall₂_of_run_mapM h
  clear h
  induction hall with
  | nil => cases ha
  | cons hhead _ ih =>
      obtain rfl | ha := List.mem_cons.mp ha
      · exact ⟨_, List.mem_cons_self, hhead⟩
      · obtain ⟨b, hb, hrun⟩ := ih ha
        exact ⟨b, List.mem_cons_of_mem _ hb, hrun⟩

section Keeps

variable {R : σ → σ → Prop}

theorem keeps_pure (hrefl : ∀ s, R s s) (a : α) : Keeps R (pure a : StateT σ (Except ε) α) := by
  intro s b s' h
  cases h
  exact hrefl s

theorem keeps_throw (e : ε) : Keeps R (throw e : StateT σ (Except ε) α) := by
  intro s b s' h
  cases h

theorem keeps_modify {f : σ → σ} (h : ∀ s, R s (f s)) :
    Keeps R (modify f : StateT σ (Except ε) PUnit) := by
  intro s b s' hrun
  cases hrun
  exact h s

theorem keeps_bind (htrans : ∀ a b c, R a b → R b c → R a c) {x : StateT σ (Except ε) α}
    {f : α → StateT σ (Except ε) β} (hx : Keeps R x) (hf : ∀ a, Keeps R (f a)) :
    Keeps R (x >>= f) := by
  intro s b s' h
  obtain ⟨a, middle, hfirst, hsecond⟩ := run_bind_eq_ok.mp h
  exact htrans _ _ _ (hx _ _ _ hfirst) (hf a _ _ _ hsecond)

theorem keeps_mapM (hrefl : ∀ s, R s s) (htrans : ∀ a b c, R a b → R b c → R a c)
    {f : α → StateT σ (Except ε) β} (hf : ∀ a, Keeps R (f a)) (as : List α) :
    Keeps R (as.mapM f) := by
  induction as with
  | nil =>
      rw [List.mapM_nil]
      exact keeps_pure hrefl _
  | cons a as ih =>
      rw [List.mapM_cons]
      exact keeps_bind htrans (hf a) fun b =>
        keeps_bind htrans ih fun bs => keeps_pure hrefl _

end Keeps

section Counted

variable {count : σ → Nat}

theorem counted_pure (a : α) : Counted count (pure a : StateT σ (Except ε) α) := by
  intro s b s' h
  cases h
  exact ⟨le_rfl, fun _ t => ⟨t, rfl, rfl⟩⟩

theorem counted_throw (e : ε) : Counted count (throw e : StateT σ (Except ε) α) := by
  intro s b s' h
  cases h

/-- A change of the state that leaves the counter alone. -/
theorem counted_modify {f : σ → σ} (h : ∀ s, count (f s) = count s) :
    Counted count (modify f : StateT σ (Except ε) PUnit) := by
  intro s b s' hrun
  cases hrun
  exact ⟨(h s).ge, fun _ t => ⟨f t, rfl, h t⟩⟩

/-- A computation that always counts one up may depend on the state. -/
theorem counted_of_lt {x : StateT σ (Except ε) α}
    (h : ∀ s a s', x.run s = .ok (a, s') → count s < count s') : Counted count x := by
  intro s a s' hrun
  have hlt := h s a s' hrun
  exact ⟨hlt.le, fun heq => absurd heq hlt.ne'⟩

theorem counted_bind {x : StateT σ (Except ε) α} {f : α → StateT σ (Except ε) β}
    (hx : Counted count x) (hf : ∀ a, Counted count (f a)) : Counted count (x >>= f) := by
  intro s b s' h
  obtain ⟨a, middle, hfirst, hsecond⟩ := run_bind_eq_ok.mp h
  obtain ⟨hle, hsame⟩ := hx _ _ _ hfirst
  obtain ⟨hle', hsame'⟩ := hf a _ _ _ hsecond
  refine ⟨hle.trans hle', fun heq t => ?_⟩
  -- The counter stands still in both halves, so each gives the same value from `t`.
  obtain ⟨t₁, hrun₁, hcount₁⟩ := hsame (by omega) t
  obtain ⟨t₂, hrun₂, hcount₂⟩ := hsame' (by omega) t₁
  exact ⟨t₂, run_bind_eq_ok.mpr ⟨a, t₁, hrun₁, hrun₂⟩, hcount₂.trans hcount₁⟩

theorem counted_mapM {f : α → StateT σ (Except ε) β} (hf : ∀ a, Counted count (f a))
    (as : List α) : Counted count (as.mapM f) := by
  induction as with
  | nil =>
      rw [List.mapM_nil]
      exact counted_pure _
  | cons a as ih =>
      rw [List.mapM_cons]
      exact counted_bind (hf a) fun b => counted_bind ih fun bs => counted_pure _

/-- A run that leaves the counter as it was gives the same value from every state. -/
theorem Counted.value_eq {x : StateT σ (Except ε) α} (hx : Counted count x) {s s' t t' : σ}
    {a b : α} (hs : x.run s = .ok (a, s')) (hstill : count s' = count s)
    (ht : x.run t = .ok (b, t')) : b = a := by
  obtain ⟨t'', hrun, -⟩ := (hx _ _ _ hs).2 hstill t
  rw [ht] at hrun
  cases hrun
  rfl

end Counted

section Gives

theorem gives_pure (a : α) : Gives (pure a : StateT σ (Except ε) α) a := by
  intro s
  exact ⟨s, rfl⟩

theorem gives_modify (f : σ → σ) : Gives (modify f : StateT σ (Except ε) PUnit) ⟨⟩ := by
  intro s
  exact ⟨f s, rfl⟩

theorem gives_bind {x : StateT σ (Except ε) α} {f : α → StateT σ (Except ε) β} {a : α} {b : β}
    (hx : Gives x a) (hf : Gives (f a) b) : Gives (x >>= f) b := by
  intro s
  obtain ⟨middle, hfirst⟩ := hx s
  obtain ⟨s', hsecond⟩ := hf middle
  exact ⟨s', run_bind_eq_ok.mpr ⟨a, middle, hfirst, hsecond⟩⟩

/-- What is read from the state does not matter. -/
theorem gives_get_bind {f : σ → StateT σ (Except ε) β} {b : β} (hf : ∀ s, Gives (f s) b) :
    Gives (get >>= f) b := by
  intro s
  obtain ⟨s', hrun⟩ := hf s s
  exact ⟨s', run_bind_eq_ok.mpr ⟨s, s, rfl, hrun⟩⟩

theorem gives_mapM {f : α → StateT σ (Except ε) β} {g : α → β} {l : List α}
    (h : ∀ a ∈ l, Gives (f a) (g a)) : Gives (l.mapM f) (l.map g) := by
  induction l with
  | nil =>
      rw [List.mapM_nil]
      exact gives_pure _
  | cons a l ih =>
      rw [List.mapM_cons]
      apply gives_bind (h a List.mem_cons_self)
      apply gives_bind (ih fun a' ha' => h a' (List.mem_cons_of_mem _ ha'))
      exact gives_pure _

/-- It gives that value and no other. -/
theorem Gives.value_eq {x : StateT σ (Except ε) α} {a b : α} {s s' : σ} (hx : Gives x a)
    (hrun : x.run s = .ok (b, s')) : b = a := by
  obtain ⟨t, ht⟩ := hx s
  rw [ht] at hrun
  cases hrun
  rfl

end Gives

/-! ## Two computations side by side -/

/-- A value that it gives from some state. -/
def CanGive (x : StateT σ (Except ε) α) (a : α) : Prop :=
  ∃ s s', x.run s = .ok (a, s')

/-- Whatever the first can give, the second gives something related to it, from every state. They
may differ in their states and in how they fail. -/
def Carries {σ' ε' : Type u} (R : α → β → Prop) (x : StateT σ (Except ε) α)
    (y : StateT σ' (Except ε') β) : Prop :=
  ∀ a, CanGive x a → ∃ b, R a b ∧ Gives y b

section Carries

variable {σ' ε' γ δ : Type u} {R : α → β → Prop} {x : StateT σ (Except ε) α}
  {y : StateT σ' (Except ε') β}

/-- A value that is given from every state is given from one. -/
theorem Gives.canGive [Inhabited σ] {a : α} (h : Gives x a) : CanGive x a := by
  obtain ⟨s', hrun⟩ := h default
  exact ⟨default, s', hrun⟩

theorem CanGive.eq_of_gives {a b : α} (h : CanGive x b) (hgives : Gives x a) : b = a := by
  obtain ⟨s, s', hrun⟩ := h
  exact hgives.value_eq hrun

/-- What can be given is given by the other too, where they come to the same. -/
theorem Carries.gives {y : StateT σ' (Except ε') α} {a : α} (h : Carries Eq x y)
    (ha : CanGive x a) :
    Gives y a := by
  obtain ⟨_, rfl, hb⟩ := h a ha
  exact hb

theorem carries_pure {a : α} {b : β} (h : R a b) :
    Carries R (pure a : StateT σ (Except ε) α) (pure b : StateT σ' (Except ε') β) := by
  rintro a' ⟨s, s', hrun⟩
  cases hrun
  exact ⟨b, h, gives_pure b⟩

/-- A computation that fails gives nothing to be carried over. -/
theorem carries_throw (e : ε) : Carries R (throw e : StateT σ (Except ε) α) y := by
  rintro a ⟨s, s', hrun⟩
  cases hrun

theorem Carries.imp {R' : α → β → Prop} (h : Carries R x y)
    (himp : ∀ a b, CanGive x a → R a b → R' a b) : Carries R' x y := by
  intro a ha
  obtain ⟨b, hR, hb⟩ := h a ha
  exact ⟨b, himp a b ha hR, hb⟩

theorem carries_bind {S : γ → δ → Prop} {f : α → StateT σ (Except ε) γ}
    {g : β → StateT σ' (Except ε') δ} (hx : Carries R x y)
    (hf : ∀ a b, CanGive x a → R a b → Carries S (f a) (g b)) : Carries S (x >>= f) (y >>= g) := by
  rintro c ⟨s, s', hrun⟩
  obtain ⟨a, middle, hfirst, hsecond⟩ := run_bind_eq_ok.mp hrun
  obtain ⟨b, hR, hb⟩ := hx a ⟨s, middle, hfirst⟩
  obtain ⟨d, hS, hd⟩ := hf a b ⟨s, middle, hfirst⟩ hR c ⟨middle, s', hsecond⟩
  exact ⟨d, hS, gives_bind hb hd⟩

/-- Where both give the same, they go on from the same. -/
theorem carries_bind_eq {S : γ → δ → Prop} {x : StateT σ (Except ε) α} {y : StateT σ' (Except ε') α}
    {f : α → StateT σ (Except ε) γ} {g : α → StateT σ' (Except ε') δ} (hx : Carries Eq x y)
    (hf : ∀ a, CanGive x a → Carries S (f a) (g a)) : Carries S (x >>= f) (y >>= g) := by
  apply carries_bind hx
  rintro a _ ha rfl
  exact hf a ha

theorem carries_mapM {l : List γ} {f : γ → StateT σ (Except ε) α} {g : γ → StateT σ' (Except ε') β}
    (h : ∀ c ∈ l, Carries R (f c) (g c)) : Carries (List.Forall₂ R) (l.mapM f) (l.mapM g) := by
  induction l with
  | nil =>
      rw [List.mapM_nil, List.mapM_nil]
      exact carries_pure .nil
  | cons c l ih =>
      rw [List.mapM_cons, List.mapM_cons]
      apply carries_bind (h c List.mem_cons_self)
      intro a b _ hR
      apply carries_bind (ih fun c' hc' => h c' (List.mem_cons_of_mem c hc'))
      intro as bs _ hrest
      exact carries_pure (.cons hR hrest)

/-- What both give one after the other is the same list. -/
theorem carries_mapM_eq {l : List γ} {f : γ → StateT σ (Except ε) α}
    {g : γ → StateT σ' (Except ε') α} (h : ∀ c ∈ l, Carries Eq (f c) (g c)) :
    Carries Eq (l.mapM f) (l.mapM g) :=
  (carries_mapM h).imp fun _ _ _ hall => List.forall₂_eq_eq_eq ▸ hall

end Carries

/-! ## Failing -/

/-- The two fail alike, whatever states they are run from. -/
def FailsAlike (x : StateT σ (Except ε) α) (y : StateT σ (Except ε) β) : Prop :=
  ∀ s t e, x.run s = .error e ↔ y.run t = .error e

/-- A run of two computations fails where the first does, or the second after it. -/
theorem run_bind_eq_error {x : StateT σ (Except ε) α} {f : α → StateT σ (Except ε) β} {s : σ}
    {e : ε} : (x >>= f).run s = .error e ↔
      x.run s = .error e ∨ ∃ a middle, x.run s = .ok (a, middle) ∧ (f a).run middle = .error e := by
  rw [StateT.run_bind]
  cases x.run s with
  | error e' =>
      constructor
      · intro h
        cases h
        exact .inl rfl
      · rintro (h | ⟨a, middle, h, -⟩)
        · cases h
          rfl
        · cases h
  | ok result =>
      constructor
      · exact fun h => .inr ⟨result.1, result.2, rfl, h⟩
      · rintro (h | ⟨a, middle, h, hf⟩)
        · cases h
        · cases h
          exact hf

/-- Two continuations that run alike on what the first computation gives may
stand for each other. -/
theorem run_bind_congr {x : StateT σ (Except ε) α} {f g : α → StateT σ (Except ε) β} {s : σ}
    (h : ∀ a s', x.run s = .ok (a, s') → (f a).run s' = (g a).run s') :
    (x >>= f).run s = (x >>= g).run s := by
  rw [StateT.run_bind, StateT.run_bind]
  cases hx : x.run s with
  | error e => rfl
  | ok result => exact h result.1 result.2 hx

section FailsAlike

variable {γ δ : Type u}

theorem failsAlike_throw (e : ε) :
    FailsAlike (throw e : StateT σ (Except ε) α) (throw e : StateT σ (Except ε) β) := by
  intro s t e'
  constructor <;>
  · intro h
    cases h
    rfl

/-- Computations that never fail. -/
theorem failsAlike_of_ok {x : StateT σ (Except ε) α} {y : StateT σ (Except ε) β}
    (hx : ∀ s, ∃ result, x.run s = .ok result) (hy : ∀ s, ∃ result, y.run s = .ok result) :
    FailsAlike x y := by
  intro s t e
  obtain ⟨result, hs⟩ := hx s
  obtain ⟨result', ht⟩ := hy t
  rw [hs, ht]
  constructor <;>
  · intro h
    cases h

theorem failsAlike_bind {x : StateT σ (Except ε) α} {y : StateT σ (Except ε) β}
    {f : α → StateT σ (Except ε) γ} {g : β → StateT σ (Except ε) δ} (hxy : FailsAlike x y)
    (hfg : ∀ a b, FailsAlike (f a) (g b)) : FailsAlike (x >>= f) (y >>= g) := by
  intro s t e
  rw [run_bind_eq_error, run_bind_eq_error, hxy s t e]
  refine or_congr_right ?_
  -- Where the first of one does not fail, neither does the first of the other.
  have hok : ∀ {s t}, (∃ a s', x.run s = .ok (a, s')) → ∃ b t', y.run t = .ok (b, t') := by
    rintro s t ⟨a, s', hs⟩
    cases ht : y.run t with
    | ok result => exact ⟨result.1, result.2, rfl⟩
    | error e' =>
        rw [(hxy s t e').mpr ht] at hs
        cases hs
  have hok' : ∀ {s t}, (∃ b t', y.run t = .ok (b, t')) → ∃ a s', x.run s = .ok (a, s') := by
    rintro s t ⟨b, t', ht⟩
    cases hs : x.run s with
    | ok result => exact ⟨result.1, result.2, rfl⟩
    | error e' =>
        rw [(hxy s t e').mp hs] at ht
        cases ht
  constructor
  · rintro ⟨a, s', hs, hf⟩
    obtain ⟨b, t', ht⟩ := @hok s t ⟨a, s', hs⟩
    exact ⟨b, t', ht, (hfg a b s' t' e).mp hf⟩
  · rintro ⟨b, t', ht, hg⟩
    obtain ⟨a, s', hs⟩ := @hok' s t ⟨b, t', ht⟩
    exact ⟨a, s', hs, (hfg a b s' t' e).mpr hg⟩

theorem failsAlike_mapM {f g : α → StateT σ (Except ε) β} {as : List α}
    (h : ∀ a ∈ as, FailsAlike (f a) (g a)) : FailsAlike (as.mapM f) (as.mapM g) := by
  have hpure : ∀ bs : List β, ∀ s : σ,
      ∃ result, (pure bs : StateT σ (Except ε) (List β)).run s = .ok result :=
    fun bs s => ⟨(bs, s), rfl⟩
  induction as with
  | nil =>
      rw [List.mapM_nil, List.mapM_nil]
      exact failsAlike_of_ok (hpure []) (hpure [])
  | cons a as ih =>
      rw [List.mapM_cons, List.mapM_cons]
      apply failsAlike_bind (h a List.mem_cons_self)
      intro b b'
      apply failsAlike_bind (ih fun a' ha' => h a' (List.mem_cons_of_mem _ ha'))
      intro bs bs'
      exact failsAlike_of_ok (hpure _) (hpure _)

end FailsAlike

end Library
