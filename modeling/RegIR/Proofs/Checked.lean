import Mathlib.Data.List.Forall2
import RegIR.Program
/-!
# Checked computations

A checked computation answers with a result or an error.  It answers with a result exactly when
each of its parts does.
-/

namespace RegIR

variable {ε α β : Type}

theorem Except.bind_eq_ok {x : Except ε α} {f : α → Except ε β} {y : β} :
    (x >>= f) = .ok y ↔ ∃ a, x = .ok a ∧ f a = .ok y := by
  cases x with
  | error e => simp [bind, Except.bind]
  | ok a => simp [bind, Except.bind]

theorem Except.map_eq_ok {x : Except ε α} {f : α → β} {y : β} :
    x.map f = .ok y ↔ ∃ a, x = .ok a ∧ f a = y := by
  cases x with
  | error e => simp [Except.map]
  | ok a => simp [Except.map]

theorem Except.toOption_eq_some {x : Except ε α} {a : α} : x.toOption = some a ↔ x = .ok a := by
  cases x with
  | error e => simp [Except.toOption]
  | ok b => simp [Except.toOption]

/-- A list of checked computations has a result at the positions of the list, and nowhere else. -/
theorem getElem?_of_mapM {f : α → Except ε β} {xs : List α} {ys : List β}
    (h : xs.mapM f = .ok ys) (i : Nat) :
    (∃ x y, xs[i]? = some x ∧ ys[i]? = some y ∧ f x = .ok y) ∨ xs[i]? = none ∧ ys[i]? = none := by
  induction xs generalizing ys i with
  | nil =>
    cases h
    exact Or.inr ⟨List.getElem?_nil, List.getElem?_nil⟩
  | cons x xs ih =>
    rw [List.mapM_cons] at h
    obtain ⟨y, hx, h⟩ := Except.bind_eq_ok.mp h
    obtain ⟨ys', hxs, h⟩ := Except.bind_eq_ok.mp h
    cases h
    cases i with
    | zero => exact Or.inl ⟨x, y, rfl, rfl, hx⟩
    | succ i => exact ih hxs i

/-- Lists that are related position by position. -/
theorem getElem?_of_forall₂ {γ δ : Type} {R : γ → δ → Prop} {xs : List γ} {ys : List δ}
    (h : List.Forall₂ R xs ys) {i : Nat} {x : γ} (hx : xs[i]? = some x) :
    ∃ y, ys[i]? = some y ∧ R x y := by
  induction h generalizing i with
  | nil => cases hx
  | cons hxy _ ih =>
    cases i with
    | zero =>
      cases hx
      exact ⟨_, rfl, hxy⟩
    | succ i => exact ih hx

end RegIR
