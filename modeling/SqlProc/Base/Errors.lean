import SqlProc.Base.Exec

/-!
# Errors

Library `Base`. What holds of every error of a computation; and triples, which say what a step
keeps, and what holds of the value that it returns and of its error.
-/

namespace SqlProc.Base

variable {σ α β : Type} {P : ErrorInfo → Prop}

/-- Every error of the result satisfies `P`. -/
def Fails (P : ErrorInfo → Prop) (x : Except ErrorInfo α) : Prop := ∀ e, x = .error e → P e

theorem fails_ok (a : α) : Fails P (.ok a) := by
  intro e h
  cases h

theorem fails_error {e : ErrorInfo} (h : P e) : Fails P (.error e : Except ErrorInfo α) := by
  intro e' he
  cases he
  exact h

theorem fails_bind {x : Except ErrorInfo α} {f : α → Except ErrorInfo β} (hx : Fails P x)
    (hf : ∀ a, x = .ok a → Fails P (f a)) : Fails P (x >>= f) := by
  intro e h
  cases hr : x with
  | error e' =>
    rw [hr] at h
    obtain rfl := Except.error.inj h
    exact hx e' hr
  | ok a =>
    rw [hr] at h
    exact hf a hr e h

/-! ### Places -/

/-- An error with a message, at one of the places. -/
def Explained (place : Int → Int → Prop) (e : ErrorInfo) : Prop :=
  e.message ≠ "" ∧ place e.line e.column

/-- A location that is one of the places. -/
def SourceLocation.Placed (place : Int → Int → Prop) (location : SourceLocation) : Prop :=
  place location.line location.column

/-! ### Triples -/

namespace Exec

/-- In states with `I` the step keeps `I`, the value that it returns satisfies `Q`, and its error
satisfies `P`. -/
def Triple (I : σ → Prop) (x : Exec σ α) (Q : α → Prop) (P : ErrorInfo → Prop) : Prop :=
  ∀ s, I s → I (x s).2 ∧ (∀ a, (x s).1 = .ok a → Q a) ∧ ∀ e, (x s).1 = .error e → P e

variable {I : σ → Prop} {Q : α → Prop} {Q' : β → Prop} {x : Exec σ α}

theorem triple_bind {f : α → Exec σ β} (hx : Triple I x Q P) (hf : ∀ a, Q a → Triple I (f a) Q' P) :
    Triple I (x >>= f) Q' P := by
  intro s hs
  obtain ⟨hkeep, hreturn, hraise⟩ := hx s hs
  rw [bind_apply]
  generalize x s = run at hkeep hreturn hraise ⊢
  obtain ⟨result, s'⟩ := run
  cases result with
  | ok a => exact hf a (hreturn a rfl) s' hkeep
  | error e =>
    refine ⟨hkeep, ?_, ?_⟩
    · intro b h
      cases h
    · intro e' h
      obtain rfl := Except.error.inj h
      exact hraise e rfl

theorem triple_pure {a : α} (h : Q a) : Triple I (pure a : Exec σ α) Q P := by
  intro s hs
  refine ⟨hs, ?_, ?_⟩
  · intro b hb
    obtain rfl := Except.ok.inj hb
    exact h
  · intro e he
    cases he

theorem triple_fail {e : ErrorInfo} (h : P e) : Triple I (fail e : Exec σ α) Q P := by
  intro s hs
  refine ⟨hs, ?_, ?_⟩
  · intro b hb
    cases hb
  · intro e' he
    obtain rfl := Except.error.inj he
    exact h

end Exec
end SqlProc.Base
