import Mathlib.Order.Defs.Unbundled

/-!
# Steps that change a state and may fail

Library `Base`. A function of the program changes a state and either returns a value or
fails with an `ErrorInfo`. What it had changed before it failed stays changed.
-/

namespace SqlProc.Base

/-- `ErrorInfo`. -/
structure ErrorInfo where
  message : String
  line : Int
  column : Int
  deriving DecidableEq, Repr

/-- `SourceLocation`. -/
structure SourceLocation where
  line : Int
  column : Int
  deriving DecidableEq, Repr

/-- `set_error` of the modules that know no location: schema loader and storage. -/
def fileError (message : String) : ErrorInfo := ⟨message, 0, 0⟩

/-- `set_runtime_error`. -/
def runtimeError (message : String) (location : SourceLocation) : ErrorInfo :=
  ⟨message, location.line, location.column⟩

/-- The location of errors that concern no token. -/
def noLocation : SourceLocation := ⟨0, 0⟩

/-- A sequence of two computations succeeds when both do. -/
theorem except_bind_eq_ok_iff {ε α β : Type} {x : Except ε α} {f : α → Except ε β} {b : β} :
    (x >>= f) = .ok b ↔ ∃ a, x = .ok a ∧ f a = .ok b := by
  cases x with
  | error e => exact ⟨nofun, nofun⟩
  | ok a => exact ⟨fun h ↦ ⟨a, rfl, h⟩, fun ⟨_, ha, h⟩ ↦ Except.ok.inj ha ▸ h⟩

/-- A step on states `σ`: its result and the state after it. -/
def Exec (σ α : Type) := σ → Except ErrorInfo α × σ

variable {σ τ α β : Type}

namespace Exec

instance : Monad (Exec σ) where
  pure a := fun s ↦ (.ok a, s)
  bind x f := fun s ↦
    match x s with
    | (.ok a, s) => f a s
    | (.error e, s) => (.error e, s)

/-- Fail, leaving the state as it is. -/
def fail (e : ErrorInfo) : Exec σ α := fun s ↦ (.error e, s)

/-- A check or a computation that does not touch the state. -/
def lift (x : Except ErrorInfo α) : Exec σ α := fun s ↦ (x, s)

/-- The state. -/
def get : Exec σ σ := fun s ↦ (.ok s, s)

/-- Change the state. -/
def modify (f : σ → σ) : Exec σ Unit := fun s ↦ (.ok (), f s)

/-- A step on a part of the state. -/
def zoom (view : τ → σ) (update : τ → σ → τ) (x : Exec σ α) : Exec τ α := fun t ↦
  ((x (view t)).1, update t (x (view t)).2)

@[simp] theorem pure_apply (a : α) (s : σ) : (pure a : Exec σ α) s = (.ok a, s) := rfl

theorem bind_apply (x : Exec σ α) (f : α → Exec σ β) (s : σ) :
    (x >>= f) s =
      match x s with
      | (.ok a, s) => f a s
      | (.error e, s) => (.error e, s) := rfl

theorem bind_ok {x : Exec σ α} {s s' : σ} {a : α} (h : x s = (.ok a, s')) (f : α → Exec σ β) :
    (x >>= f) s = f a s' := by
  rw [bind_apply, h]

theorem bind_error {x : Exec σ α} {s s' : σ} {e : ErrorInfo} (h : x s = (.error e, s'))
    (f : α → Exec σ β) : (x >>= f) s = (.error e, s') := by
  rw [bind_apply, h]

/-- A sequence succeeds when both its steps do. -/
theorem bind_eq_ok_iff {x : Exec σ α} {f : α → Exec σ β} {s s' : σ} {b : β} :
    (x >>= f) s = (.ok b, s') ↔ ∃ a t, x s = (.ok a, t) ∧ f a t = (.ok b, s') := by
  rw [bind_apply]
  cases hx : x s with
  | mk r t =>
    cases r with
    | ok a =>
      constructor
      · intro h
        exact ⟨a, t, rfl, h⟩
      · rintro ⟨_, _, ⟨⟩, h⟩
        exact h
    | error e => simp

@[simp] theorem fail_apply (e : ErrorInfo) (s : σ) : (fail e : Exec σ α) s = (.error e, s) := rfl

@[simp] theorem lift_apply (x : Except ErrorInfo α) (s : σ) : (lift x : Exec σ α) s = (x, s) := rfl

@[simp] theorem get_apply (s : σ) : (get : Exec σ σ) s = (.ok s, s) := rfl

@[simp] theorem modify_apply (f : σ → σ) (s : σ) : modify f s = (.ok (), f s) := rfl

/-- A run that returns a value, with the state that it leaves. -/
theorem eq_ok_of_fst {run : Except ErrorInfo α × σ} {a : α} (h : run.1 = .ok a) :
    run = (.ok a, run.2) := Prod.ext h rfl

/-! ### Steps within a relation -/

/-- Whatever its result, the step leads to a state that is related to the one before. -/
def Within (R : σ → σ → Prop) (x : Exec σ α) : Prop := ∀ s, R s (x s).2

variable {R : σ → σ → Prop}

/-- A sequence stays within a transitive relation when both its steps do. -/
theorem within_bind [IsTrans σ R] {x : Exec σ α} {f : α → Exec σ β} (hx : Within R x)
    (hf : ∀ a, Within R (f a)) : Within R (x >>= f) := by
  intro s
  have hs := hx s
  rw [bind_apply]
  cases h : x s with
  | mk r t =>
    rw [h] at hs
    cases r with
    | ok a => exact trans_of R hs (hf a t)
    | error e => exact hs

theorem within_pure [Std.Refl R] (a : α) : Within R (pure a : Exec σ α) := fun s ↦ refl_of R s

theorem within_fail [Std.Refl R] (e : ErrorInfo) : Within R (fail e : Exec σ α) :=
  fun s ↦ refl_of R s

theorem within_lift [Std.Refl R] (x : Except ErrorInfo α) : Within R (lift x : Exec σ α) :=
  fun s ↦ refl_of R s

theorem within_get [Std.Refl R] : Within R (get : Exec σ σ) := fun s ↦ refl_of R s

/-! ### Errors -/

/-- Every error of the step satisfies `P`. -/
def Raises (P : ErrorInfo → Prop) (x : Exec σ α) : Prop := ∀ s e, (x s).1 = .error e → P e

variable {P : ErrorInfo → Prop}

theorem raises_bind {x : Exec σ α} {f : α → Exec σ β} (hx : Raises P x)
    (hf : ∀ a, Raises P (f a)) : Raises P (x >>= f) := by
  intro s e h
  rw [bind_apply] at h
  cases hr : x s with
  | mk r t =>
    rw [hr] at h
    cases r with
    | ok a => exact hf a t e h
    | error e' =>
      obtain rfl : e' = e := Except.error.inj h
      exact hx s e' (by rw [hr])

theorem raises_pure (a : α) : Raises P (pure a : Exec σ α) := by
  intro s e h
  cases h

theorem raises_fail {e : ErrorInfo} (he : P e) : Raises P (fail e : Exec σ α) := by
  intro s e' h
  cases h
  exact he

theorem raises_lift {x : Except ErrorInfo α} (h : ∀ e, x = .error e → P e) :
    Raises P (lift x : Exec σ α) := fun _ e he ↦ h e he

theorem raises_get : Raises P (get : Exec σ σ) := by
  intro s e h
  cases h

theorem raises_modify (f : σ → σ) : Raises P (modify f) := by
  intro s e h
  cases h

theorem raises_zoom {view : τ → σ} {update : τ → σ → τ} {x : Exec σ α} (h : Raises P x) :
    Raises P (zoom view update x) := fun t e he ↦ h (view t) e he

/-! ### Results -/

/-- In states with `I` the step keeps `I`, and what it returns satisfies `Q`. -/
def Ensures (I : σ → Prop) (x : Exec σ α) (Q : α → Prop) : Prop :=
  ∀ s, I s → I (x s).2 ∧ ∀ a, (x s).1 = .ok a → Q a

variable {I : σ → Prop} {Q : α → Prop}

theorem ensures_bind {Q' : β → Prop} {x : Exec σ α} {f : α → Exec σ β} (hx : Ensures I x Q)
    (hf : ∀ a, Q a → Ensures I (f a) Q') : Ensures I (x >>= f) Q' := by
  intro s hs
  obtain ⟨ht, hq⟩ := hx s hs
  rw [bind_apply]
  cases h : x s with
  | mk r t =>
    rw [h] at ht hq
    cases r with
    | ok a => exact hf a (hq a rfl) t ht
    | error e => exact ⟨ht, nofun⟩

theorem ensures_pure {a : α} (h : Q a) : Ensures I (pure a : Exec σ α) Q := by
  intro s hs
  refine ⟨hs, fun b hb ↦ ?_⟩
  obtain rfl := Except.ok.inj hb
  exact h

theorem ensures_fail (e : ErrorInfo) : Ensures I (fail e : Exec σ α) Q := fun _ hs ↦ ⟨hs, nofun⟩

end Exec
end SqlProc.Base
