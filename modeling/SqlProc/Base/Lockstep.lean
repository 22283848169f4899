import SqlProc.Base.Exec

/-!
# Two runs in lockstep

Library `Base`. Steps that, from related states, give the same result and lead to related
states again; a sequence of such steps is one.
-/

namespace SqlProc.Base.Exec

variable {σ τ α β : Type} {R : σ → σ → Prop} {s t : σ}

/-- From the one state and from the other, the steps give the same result and lead to related
states. -/
structure AgreeAt (R : σ → σ → Prop) (x y : Exec σ α) (s t : σ) : Prop where
  result : (y t).1 = (x s).1
  state : R (x s).2 (y t).2

/-- The steps agree in all related states. -/
def Agree (R : σ → σ → Prop) (x y : Exec σ α) : Prop := ∀ s t, R s t → AgreeAt R x y s t

/-- After first steps that succeed, maybe with different results, what follows decides. -/
theorem agreeAt_bind_ok {x y : Exec σ α} {f g : α → Exec σ β} {a b : α} {s' t' : σ}
    (hx : x s = (.ok a, s')) (hy : y t = (.ok b, t')) (h : AgreeAt R (f a) (g b) s' t') :
    AgreeAt R (x >>= f) (y >>= g) s t := by
  constructor
  · rw [bind_ok hx, bind_ok hy]
    exact h.result
  · rw [bind_ok hx, bind_ok hy]
    exact h.state

/-- First steps that fail with the same error. -/
theorem agreeAt_bind_error {x y : Exec σ α} {f g : α → Exec σ β} {e : ErrorInfo} {s' t' : σ}
    (hx : x s = (.error e, s')) (hy : y t = (.error e, t')) (h : R s' t') :
    AgreeAt R (x >>= f) (y >>= g) s t := by
  constructor
  · rw [bind_error hx, bind_error hy]
  · rw [bind_error hx, bind_error hy]
    exact h

/-- After a step that agrees, the later steps start in related states. -/
theorem AgreeAt.bind {x y : Exec σ α} {f g : α → Exec σ β} (hx : AgreeAt R x y s t)
    (hf : ∀ a, Agree R (f a) (g a)) : AgreeAt R (x >>= f) (y >>= g) s t := by
  obtain ⟨hr, hs⟩ := hx
  cases hx : x s with
  | mk r s' =>
    cases hy : y t with
    | mk r' t' =>
      rw [hx, hy] at hr hs
      obtain rfl : r' = r := hr
      cases r' with
      | error e => exact agreeAt_bind_error hx hy hs
      | ok a => exact agreeAt_bind_ok hx hy (hf a s' t' hs)

theorem agree_bind {x y : Exec σ α} {f g : α → Exec σ β} (hx : Agree R x y)
    (hf : ∀ a, Agree R (f a) (g a)) : Agree R (x >>= f) (y >>= g) :=
  fun s t h ↦ (hx s t h).bind hf

theorem agreeAt_pure (h : R s t) (a : α) : AgreeAt R (pure a) (pure a) s t := ⟨rfl, h⟩

theorem agreeAt_fail (h : R s t) (e : ErrorInfo) :
    AgreeAt R (fail e : Exec σ α) (fail e) s t := ⟨rfl, h⟩

theorem agree_pure (a : α) : Agree R (pure a) (pure a) := fun _ _ h ↦ agreeAt_pure h a

theorem agree_fail (e : ErrorInfo) : Agree R (fail e : Exec σ α) (fail e) :=
  fun _ _ h ↦ agreeAt_fail h e

theorem agree_lift (x : Except ErrorInfo α) : Agree R (lift x) (lift x) := fun _ _ h ↦ ⟨rfl, h⟩

/-- Steps that read the state agree when what they do with it does. -/
theorem agreeAt_get_bind {f g : σ → Exec σ α} (h : AgreeAt R (f s) (g t) s t) :
    AgreeAt R (get >>= f) (get >>= g) s t := ⟨h.result, h.state⟩

theorem agree_get_bind {f g : σ → Exec σ α}
    (h : ∀ s t, R s t → AgreeAt R (f s) (g t) s t) : Agree R (get >>= f) (get >>= g) :=
  fun s t hs ↦ agreeAt_get_bind (h s t hs)

theorem agree_modify {f g : σ → σ} (h : ∀ s t, R s t → R (f s) (g t)) :
    Agree R (modify f) (modify g) := fun s t hs ↦ ⟨rfl, h s t hs⟩

/-- Steps on a part of the state. -/
theorem agree_zoom {view : τ → σ} {update : τ → σ → τ} {R' : τ → τ → Prop} {x y : Exec σ α}
    (hview : ∀ s t, R' s t → R (view s) (view t))
    (hupdate : ∀ s t a b, R' s t → R a b → R' (update s a) (update t b)) (h : Agree R x y) :
    Agree R' (zoom view update x) (zoom view update y) := by
  intro s t hs
  have hxy := h _ _ (hview s t hs)
  exact ⟨hxy.result, hupdate s t _ _ hs hxy.state⟩

/-! ### Runs that may differ in their errors -/

/-- From the state, the steps succeed together and with the same result, and lead to the same
state. -/
structure SameAt (x y : Exec σ α) (s : σ) : Prop where
  result : ∀ a, (y s).1 = .ok a ↔ (x s).1 = .ok a
  state : (y s).2 = (x s).2

theorem sameAt_refl (x : Exec σ α) (s : σ) : SameAt x x s := ⟨fun _ ↦ Iff.rfl, rfl⟩

/-- Steps that both fail and leave the state alone. -/
theorem sameAt_of_error {x y : Exec σ α} {e e' : ErrorInfo} (hx : x s = (.error e, s))
    (hy : y s = (.error e', s)) : SameAt x y s := by
  refine ⟨fun a ↦ ?_, by rw [hx, hy]⟩
  rw [hx, hy]
  exact ⟨nofun, nofun⟩

/-- What follows runs from the same state with the same value, or not at all. -/
theorem SameAt.bind {x y : Exec σ α} {f g : α → Exec σ β} (h : SameAt x y s)
    (hf : ∀ a t, SameAt (f a) (g a) t) : SameAt (x >>= f) (y >>= g) s := by
  obtain ⟨hr, hs⟩ := h
  cases hx : x s with
  | mk r s' =>
    cases hy : y s with
    | mk r' t' =>
      rw [hx, hy] at hr hs
      obtain rfl : t' = s' := hs
      cases r with
      | ok a =>
        obtain rfl : r' = .ok a := (hr a).mpr rfl
        refine ⟨fun b ↦ ?_, ?_⟩
        · rw [bind_ok hx, bind_ok hy]
          exact (hf a t').result b
        · rw [bind_ok hx, bind_ok hy]
          exact (hf a t').state
      | error e =>
        cases r' with
        | ok b => exact nomatch (hr b).mp rfl
        | error e' =>
          refine ⟨fun b ↦ ?_, by rw [bind_error hx, bind_error hy]⟩
          rw [bind_error hx, bind_error hy]
          exact ⟨nofun, nofun⟩

end SqlProc.Base.Exec
