import Mathlib.Data.List.Basic

/-!
# Machines that read and write

A machine that reads a list item by item, changes its state, writes a list for each item, and may
refuse an item. What is read of two lists one after the other is put together from what is read of
each (`transduce_append`).
-/

set_option autoImplicit false

namespace Library

universe u v w

variable {σ : Type u} {α : Type v} {β : Type w} {step : σ → α → Option (σ × List β)}

/-- The state behind a list and what is written for it. -/
def transduce (step : σ → α → Option (σ × List β)) (s : σ) : List α → Option (σ × List β)
  | [] => some (s, [])
  | a :: rest => do
      let (s', out) ← step s a
      let (last, more) ← transduce step s' rest
      return (last, out ++ more)

theorem transduce_nil (s : σ) : transduce step s [] = some (s, []) :=
  rfl

/-- An item that is refused. -/
theorem transduce_refused {s : σ} {a : α} (h : step s a = none) (rest : List α) :
    transduce step s (a :: rest) = none := by
  rw [transduce, h]
  rfl

/-- An item for which nothing is written. -/
theorem transduce_silent {s s' : σ} {a : α} (h : step s a = some (s', [])) (rest : List α) :
    transduce step s (a :: rest) = transduce step s' rest := by
  rw [transduce, h]
  cases hrest : transduce step s' rest <;> simp [hrest]

theorem transduce_append (s : σ) (a b : List α) :
    transduce step s (a ++ b) =
      (transduce step s a).bind fun r =>
        (transduce step r.1 b).map fun r' => (r'.1, r.2 ++ r'.2) := by
  induction a generalizing s with
  | nil => simp [transduce]
  | cons c a ih =>
      rw [List.cons_append, transduce, transduce]
      cases step s c with
      | none => rfl
      | some r =>
          simp only [Option.bind_eq_bind, Option.bind_some, ih]
          cases transduce step r.1 a with
          | none => rfl
          | some r' =>
              cases hb : transduce step r'.1 b <;> simp [hb]

/-- A list that is read to its end, and one behind it. -/
theorem transduce_append_of_eq {s s' : σ} {a : List α} {out : List β}
    (h : transduce step s a = some (s', out)) (b : List α) :
    transduce step s (a ++ b) = (transduce step s' b).map fun r => (r.1, out ++ r.2) := by
  rw [transduce_append, h, Option.bind_some]

end Library
