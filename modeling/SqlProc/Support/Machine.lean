import Mathlib.Data.Prod.Basic
import Mathlib.Order.Defs.Unbundled

/-!
# Machines that answer

Library `Support`. A machine is a step function: in a state it answers an input and moves to
another state. A machine simulates another one when, from related states, it gives the same
answer to every input and the states stay related; then it answers every sequence of inputs
alike. A machine that may refuse an input can take inputs as one batch, up to the first that is
refused.
-/

namespace Support

variable {σ τ υ ι ο : Type*}

/-- The answers to inputs one after the other, and the state after them. -/
def runMachine (step : σ → ι → ο × σ) : List ι → σ → List ο × σ
  | [], s => ([], s)
  | i :: is, s =>
    let (o, s) := step s i
    let (os, s) := runMachine step is s
    (o :: os, s)

theorem runMachine_cons (step : σ → ι → ο × σ) (i : ι) (is : List ι) (s : σ) :
    runMachine step (i :: is) s =
      ((step s i).1 :: (runMachine step is (step s i).2).1,
        (runMachine step is (step s i).2).2) := rfl

/-- What every step does within a preorder, every run does. -/
theorem runMachine_within {P : σ → σ → Prop} [IsPreorder σ P] {step : σ → ι → ο × σ}
    (h : ∀ s i, P s (step s i).2) (is : List ι) (s : σ) : P s (runMachine step is s).2 := by
  induction is generalizing s with
  | nil => exact refl_of P s
  | cons i is ih => exact trans_of P (h s i) (ih (step s i).2)

/-- What holds of every answer of a step holds of every answer of a run. -/
theorem forall_mem_runMachine {P : ο → Prop} {step : σ → ι → ο × σ} (h : ∀ s i, P (step s i).1)
    (is : List ι) (s : σ) : ∀ o ∈ (runMachine step is s).1, P o := by
  induction is generalizing s with
  | nil => exact List.forall_mem_nil _
  | cons i is ih => exact List.forall_mem_cons.mpr ⟨h s i, ih (step s i).2⟩

/-- In related states the machines give the same answer to an input, and move to related
states. -/
def Simulates (R : σ → τ → Prop) (step : σ → ι → ο × σ) (step' : τ → ι → ο × τ) : Prop :=
  ∀ s t i, R s t → (step s i).1 = (step' t i).1 ∧ R (step s i).2 (step' t i).2

variable {R : σ → τ → Prop} {step : σ → ι → ο × σ} {step' : τ → ι → ο × τ}

/-- A simulation extends to runs. -/
theorem Simulates.run (h : Simulates R step step') {s : σ} {t : τ} (hr : R s t) (is : List ι) :
    (runMachine step is s).1 = (runMachine step' is t).1 ∧
      R (runMachine step is s).2 (runMachine step' is t).2 := by
  induction is generalizing s t with
  | nil => exact ⟨rfl, hr⟩
  | cons i is ih =>
    obtain ⟨ho, hs⟩ := h s t i hr
    obtain ⟨hos, hfinal⟩ := ih hs
    rw [runMachine_cons, runMachine_cons, ho, hos]
    exact ⟨rfl, hfinal⟩

/-! ### Restarts -/

/-- The answers of a machine that is restarted after each list of inputs. -/
def runLives (step : σ → ι → ο × σ) (restart : σ → σ) : List (List ι) → σ → List (List ο) × σ
  | [], s => ([], s)
  | is :: lives, s =>
    let (os, s) := runMachine step is s
    let (oss, s) := runLives step restart lives (restart s)
    (os :: oss, s)

theorem runLives_cons (step : σ → ι → ο × σ) (restart : σ → σ) (is : List ι)
    (lives : List (List ι)) (s : σ) :
    runLives step restart (is :: lives) s =
      ((runMachine step is s).1 ::
          (runLives step restart lives (restart (runMachine step is s).2)).1,
        (runLives step restart lives (restart (runMachine step is s).2)).2) := rfl

/-- What every step and every restart do within a preorder, every run does. -/
theorem runLives_within {P : σ → σ → Prop} [IsPreorder σ P] {step : σ → ι → ο × σ}
    {restart : σ → σ} (h : ∀ s i, P s (step s i).2) (hrestart : ∀ s, P s (restart s))
    (lives : List (List ι)) (s : σ) : P s (runLives step restart lives s).2 := by
  induction lives generalizing s with
  | nil => exact refl_of P s
  | cons is lives ih =>
    exact trans_of P (runMachine_within h is s) (trans_of P (hrestart _) (ih _))

/-- The machine is always in a good state when it is restarted. -/
def RestartsIn (step : σ → ι → ο × σ) (restart : σ → σ) (good : σ → Prop) :
    List (List ι) → σ → Prop
  | [], _ => True
  | is :: lives, s =>
    good (runMachine step is s).2 ∧
      RestartsIn step restart good lives (restart (runMachine step is s).2)

/-- A simulation that restarts keep extends to lives. -/
theorem Simulates.runLives {restart : σ → σ} {restart' : τ → τ} {good : τ → Prop}
    (h : Simulates R step step') (hrestart : ∀ s t, R s t → good t → R (restart s) (restart' t))
    {lives : List (List ι)} {s : σ} {t : τ} (hr : R s t)
    (hgood : RestartsIn step' restart' good lives t) :
    (runLives step restart lives s).1 = (runLives step' restart' lives t).1 ∧
      R (runLives step restart lives s).2 (runLives step' restart' lives t).2 := by
  induction lives generalizing s t with
  | nil => exact ⟨rfl, hr⟩
  | cons is lives ih =>
    obtain ⟨hend, hlater⟩ := hgood
    obtain ⟨hos, hs⟩ := h.run hr is
    obtain ⟨hoss, hfinal⟩ := ih (hrestart _ _ hs hend) hlater
    rw [runLives_cons, runLives_cons, hos, hoss]
    exact ⟨rfl, hfinal⟩

/-! ### Batches -/

variable {exec : σ → ι → Option (List ο) × σ}

/-- Inputs as one batch, which ends at the first that is refused: whether there is none, and the
answers. -/
def runBatch (exec : σ → ι → Option (List ο) × σ) : List ι → σ → (Bool × List ο) × σ
  | [], s => ((true, []), s)
  | i :: is, s =>
    match exec s i with
    | (none, s) => ((false, []), s)
    | (some os, s) =>
      let ((done, later), s) := runBatch exec is s
      ((done, os ++ later), s)

/-- A batch in two parts: the second is run unless the first is refused. -/
theorem runBatch_append (is js : List ι) (s : σ) :
    runBatch exec (is ++ js) s =
      match runBatch exec is s with
      | ((false, os), s) => ((false, os), s)
      | ((true, os), s) =>
        (((runBatch exec js s).1.1, os ++ (runBatch exec js s).1.2), (runBatch exec js s).2) := by
  induction is generalizing s with
  | nil => rfl
  | cons i is ih =>
    rw [List.cons_append, runBatch, runBatch]
    obtain ⟨answer, s'⟩ := exec s i
    cases answer with
    | none => rfl
    | some os =>
      simp only [ih]
      obtain ⟨⟨done, later⟩, s''⟩ := runBatch exec is s'
      cases done with
      | false => rfl
      | true => simp only [List.append_assoc]

/-- One batch has done what its parts do one by one: it stops where a part is refused, and else
answers and leaves the same. -/
structure Joins (one : (Bool × List ο) × σ) (parts : List (Bool × List ο) × σ) : Prop where
  done_iff : one.1.1 = true ↔ ∀ answer ∈ parts.1, answer.1 = true
  answers : one.1.2 <+: parts.1.flatMap Prod.snd
  same : one.1.1 = true → one.1.2 = parts.1.flatMap Prod.snd ∧ one.2 = parts.2

/-- Batches one after the other, each run even if one before it was refused, or as one batch. -/
theorem joins_runBatch (batches : List (List ι)) (s : σ) :
    Joins (runBatch exec batches.flatten s)
      (runMachine (fun s batch ↦ runBatch exec batch s) batches s) := by
  induction batches generalizing s with
  | nil =>
    exact ⟨iff_of_true rfl (List.forall_mem_nil _), List.prefix_rfl, fun _ ↦ ⟨rfl, rfl⟩⟩
  | cons batch batches ih =>
    rw [List.flatten_cons, runBatch_append, runMachine_cons]
    obtain ⟨⟨done, os⟩, s'⟩ := runBatch exec batch s
    cases done with
    | false =>
      refine ⟨iff_of_false Bool.false_ne_true fun h ↦ ?_, List.prefix_append _ _,
        fun h ↦ (Bool.false_ne_true h).elim⟩
      exact Bool.false_ne_true (h _ List.mem_cons_self)
    | true =>
      obtain ⟨hdone, hanswers, hsame⟩ := ih s'
      refine ⟨?_, ?_, fun h ↦ ?_⟩
      · rw [List.forall_mem_cons]
        exact hdone.trans (and_iff_right rfl).symm
      · exact (List.prefix_append_right_inj os).mpr hanswers
      · obtain ⟨hos, hs⟩ := hsame h
        exact ⟨congrArg (os ++ ·) hos, hs⟩

end Support
