import Mathlib.Data.List.Basic

/-!
# Computations whose state outlives a throw

A computation changes a state and gives a value or throws. What it changed before it threw stays
changed, as with the variables of a function that throws. `Leaves R P` says of such a computation
that the state it leaves is related to the one it was given, thrown or not, and that what it throws
is of a kind. It is closed under the ways such computations are put together.
-/

set_option autoImplicit false

namespace Library

universe u

variable {σ ε α β : Type u}

/-- A computation that gives a value or throws, and the state it leaves. -/
abbrev Mutates (σ ε α : Type u) : Type u := ExceptT ε (StateM σ) α

/-- A computation, as what it gives and leaves from a state. -/
def Mutates.runFrom (x : Mutates σ ε α) (s : σ) : Except ε α × σ :=
  x.run.run s

/-- `finally`: whatever a computation does, a change is made at its end. -/
def ensuring (x : Mutates σ ε α) (change : σ → σ) : Mutates σ ε α :=
  ExceptT.mk fun s => ((x.runFrom s).1, change (x.runFrom s).2)

/-- The state left is related to the state given, and what is thrown is of a kind. -/
def Leaves (R : σ → σ → Prop) (P : ε → Prop) (x : Mutates σ ε α) : Prop :=
  ∀ s, R s (x.runFrom s).2 ∧ ∀ e, (x.runFrom s).1 = .error e → P e

/-- A computation goes on where its first part gives a value. -/
theorem runFrom_bind (x : Mutates σ ε α) (f : α → Mutates σ ε β) (s : σ) :
    (x >>= f).runFrom s =
      match x.runFrom s with
      | (.ok a, s') => (f a).runFrom s'
      | (.error e, s') => (.error e, s') := by
  rcases h : x.runFrom s with ⟨result, s'⟩
  rw [Mutates.runFrom, ExceptT.run_bind, StateT.run_bind]
  rw [Mutates.runFrom] at h
  cases result with
  | ok a => simp only [h]; rfl
  | error e => simp only [h]; rfl

section

variable {R : σ → σ → Prop} {P : ε → Prop}

theorem leaves_pure (hrefl : ∀ s, R s s) (a : α) : Leaves R P (pure a : Mutates σ ε α) := by
  intro s
  exact ⟨hrefl s, fun e h => nomatch h⟩

theorem leaves_throw (hrefl : ∀ s, R s s) {e : ε} (he : P e) :
    Leaves R P (throw e : Mutates σ ε α) := by
  intro s
  refine ⟨hrefl s, fun e' h => ?_⟩
  cases h
  exact he

theorem leaves_bind (htrans : ∀ a b c, R a b → R b c → R a c) {x : Mutates σ ε α}
    {f : α → Mutates σ ε β} (hx : Leaves R P x) (hf : ∀ a, Leaves R P (f a)) :
    Leaves R P (x >>= f) := by
  intro s
  obtain ⟨hleft, hthrown⟩ := hx s
  rw [runFrom_bind]
  rcases h : x.runFrom s with ⟨result, s'⟩
  rw [h] at hleft hthrown
  cases result with
  | ok a => exact ⟨htrans _ _ _ hleft (hf a s').1, (hf a s').2⟩
  | error e => exact ⟨hleft, fun e' he => hthrown e' (by simpa using he)⟩

theorem leaves_mapM (hrefl : ∀ s, R s s) (htrans : ∀ a b c, R a b → R b c → R a c)
    {f : α → Mutates σ ε β} {l : List α} (hf : ∀ a ∈ l, Leaves R P (f a)) :
    Leaves R P (l.mapM f) := by
  induction l with
  | nil =>
      rw [List.mapM_nil]
      exact leaves_pure hrefl []
  | cons a l ih =>
      rw [List.mapM_cons]
      apply leaves_bind htrans (hf a List.mem_cons_self)
      intro b
      apply leaves_bind htrans (ih fun a' ha' => hf a' (List.mem_cons_of_mem _ ha'))
      intro bs
      exact leaves_pure hrefl (b :: bs)

end

end Library
