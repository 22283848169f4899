import Mathlib.Data.List.DropRight
import SqlProc.Executor.Execute
import SqlProc.Front.Parser
import SqlProc.Storage.Rows

/-!
# Interactive mode

Library `App`. Models `run_sql_text` and `run_interactive_program` of `src/app.c`, without the
prompts. Standard input is cut into lines by `fgets`, whose buffer a line may overrun.
-/

namespace SqlProc.App

open Base Front Storage Executor Support

/-! ### The model -/

/-- `run_sql_text`. -/
def runSqlText (config : AppConfig) (sqlText : Bytes) : Exec World Unit := do
  let tokens ← Exec.lift (tokenizeSql sqlText)
  let program ← Exec.lift (parseProgram tokens)
  executeProgram config program

/-- `is_exit_command`. -/
def isExitCommand (line : Bytes) : Bool :=
  line = text ".exit" || line = text "exit" || line = text "quit"

/-- The bytes that `trim_line_end` removes. -/
def isLineEnd (c : UInt8) : Bool := c = lf || c = cr

/-- `trim_line_end`. -/
def trimLineEnd (line : Bytes) : Bytes := line.rdropWhile isLineEnd

/-- What is done with a line that is not empty, and where in the input the line was read: it is
passed to `run_sql_text`, whose error is printed, or it ends the session. -/
inductive Action where
  | run (position : Nat) (sqlText : Bytes) (result : Except ErrorInfo Unit)
  | exit (position : Nat) (line : Bytes)

/-- The loop of `run_interactive_program`. The first argument bounds the number of its steps. -/
def interactiveLoop (config : AppConfig) : Nat → CFile → World → List Action × World
  | 0, _, w => ([], w)
  | fuel + 1, stdin, w =>
    match fgets maxSqlSize stdin with
    | none => ([], w)
    | some (line, rest) =>
      let line := trimLineEnd line
      if isExitCommand line then ([.exit stdin.position line], w)
      else if line = [] then interactiveLoop config fuel rest w
      else
        let (result, w) := runSqlText config line w
        let (actions, w) := interactiveLoop config fuel rest w
        (.run stdin.position line result :: actions, w)

/-- `run_interactive_program` on what is left of standard input. -/
def runInteractiveProgram (config : AppConfig) (input : Bytes) (w : World) :
    List Action × World :=
  interactiveLoop config (input.length + 1) (.start input) w

/-! ### What it is for -/

/-- The text that an action runs. -/
def Action.ran : Action → Option (Nat × Bytes)
  | .run position sqlText _ => some (position, sqlText)
  | .exit .. => none

/-- The command at which an action ends the session. -/
def Action.exited : Action → Option (Nat × Bytes)
  | .run .. => none
  | .exit position line => some (position, line)

/-- Lines without their ends. -/
def trimLines (lines : List (Nat × Bytes)) : List (Nat × Bytes) :=
  lines.map fun p ↦ (p.1, trimLineEnd p.2)

/-- The lines of the input without their ends, and where they start. -/
def wholeLines (input : Bytes) : List (Nat × Bytes) := trimLines (lines input)

/-- The lines before the first exit command. -/
def beforeExit (lines : List (Nat × Bytes)) : List (Nat × Bytes) :=
  lines.takeWhile fun p ↦ !isExitCommand p.2

/-- The first exit command. -/
def firstExit (lines : List (Nat × Bytes)) : Option (Nat × Bytes) :=
  lines.find? fun p ↦ isExitCommand p.2

/-- Nothing but whole lines is run or ends the session. -/
structure RunsWholeLines (input : Bytes) (actions : List Action) : Prop where
  runs : (actions.filterMap Action.ran).Sublist (beforeExit (wholeLines input))
  exits : ∀ p ∈ actions.filterMap Action.exited, firstExit (wholeLines input) = some p

/-! ### Pieces -/

/-- What `fgets` reads of a text. -/
def chunk (rest : Bytes) : Bytes := fgetsChunk (maxSqlSize - 1) rest

/-- What is read of a text until its end, without the line ends, and where it starts. -/
def pieces (position : Nat) (rest : Bytes) : List (Nat × Bytes) :=
  if _h : chunk rest = [] then []
  else (position, trimLineEnd (chunk rest)) ::
    pieces (position + (chunk rest).length) (rest.drop (chunk rest).length)
termination_by rest.length
decreasing_by
  have hpos := List.length_pos_of_ne_nil _h
  have hle := (isPrefix_fgetsChunk (maxSqlSize - 1) rest).length_le
  rw [List.length_drop]
  exact Nat.sub_lt (Nat.lt_of_lt_of_le hpos hle) hpos

/-- The pieces that are run: those before the exit command that are not empty. -/
def handled (pieces : List (Nat × Bytes)) : List (Nat × Bytes) :=
  (beforeExit pieces).filter fun p ↦ p.2 ≠ []

theorem handled_exit (position : Nat) {line : Bytes} (h : isExitCommand line = true)
    (ps : List (Nat × Bytes)) : handled ((position, line) :: ps) = [] ∧
      firstExit ((position, line) :: ps) = some (position, line) := by
  constructor
  · rw [handled, beforeExit, List.takeWhile_cons_of_neg (by simpa using h), List.filter_nil]
  · exact List.find?_cons_of_pos h

theorem handled_nil (position : Nat) (ps : List (Nat × Bytes)) :
    handled ((position, []) :: ps) = handled ps ∧
      firstExit ((position, []) :: ps) = firstExit ps := by
  constructor
  · rw [handled, beforeExit, List.takeWhile_cons_of_pos rfl, List.filter_cons_of_neg (by simp)]
    rfl
  · exact List.find?_cons_of_neg Bool.false_ne_true

theorem handled_run (position : Nat) {line : Bytes} (h : isExitCommand line = false)
    (hne : line ≠ []) (ps : List (Nat × Bytes)) :
    handled ((position, line) :: ps) = (position, line) :: handled ps ∧
      firstExit ((position, line) :: ps) = firstExit ps := by
  constructor
  · rw [handled, beforeExit, List.takeWhile_cons_of_pos (by simp [h]),
      List.filter_cons_of_pos (by simpa using hne)]
    rfl
  · exact List.find?_cons_of_neg (by simp [h])

/-- What is left of a stream. -/
abbrev remaining (file : CFile) : Bytes := file.content.drop file.position

theorem fgets_chunk {file : CFile} (hn : nul ∉ file.content) :
    chunk (remaining file) = [] ∧ fgets maxSqlSize file = none ∨
      chunk (remaining file) ≠ [] ∧ ∃ eof, fgets maxSqlSize file =
        some (chunk (remaining file),
          ⟨file.content, file.position + (chunk (remaining file)).length, eof⟩) := by
  by_cases hc : chunk (remaining file) = []
  · exact Or.inl ⟨hc, if_pos hc⟩
  · have hnul : nul ∉ chunk (remaining file) := fun hm ↦
      hn (List.drop_subset _ _ ((isPrefix_fgetsChunk _ _).subset hm))
    have hcstr : cstr (chunk (remaining file)) = chunk (remaining file) := cstr_eq_self hnul
    exact Or.inr ⟨hc, _, (if_neg hc).trans (congrArg some (Prod.ext hcstr rfl))⟩

/-- The loop runs pieces. -/
theorem interactiveLoop_pieces {config : AppConfig} {fuel : Nat} {stdin : CFile} {w : World}
    (hn : nul ∉ stdin.content) (hf : (remaining stdin).length < fuel) :
    (interactiveLoop config fuel stdin w).1.filterMap Action.ran =
        handled (pieces stdin.position (remaining stdin)) ∧
      (interactiveLoop config fuel stdin w).1.filterMap Action.exited =
        (firstExit (pieces stdin.position (remaining stdin))).toList := by
  induction fuel generalizing stdin w with
  | zero => exact absurd hf (Nat.not_lt_zero _)
  | succ fuel ih =>
    rw [pieces]
    rcases fgets_chunk hn with ⟨hc, hget⟩ | ⟨hc, eof, hget⟩
    · rw [dif_pos hc]
      simp only [interactiveLoop, hget]
      exact ⟨rfl, rfl⟩
    · rw [dif_neg hc]
      let next : CFile := ⟨stdin.content, stdin.position + (chunk (remaining stdin)).length, eof⟩
      have hnext : remaining next = (remaining stdin).drop (chunk (remaining stdin)).length := by
        rw [remaining, ← List.drop_drop]
      have hlen : (remaining next).length < fuel :=
        Nat.lt_of_lt_of_le (length_drop_of_fgets hget) (Nat.le_of_lt_succ hf)
      rw [← hnext]
      simp only [interactiveLoop, hget]
      generalize trimLineEnd (chunk (remaining stdin)) = line
      by_cases hexit : isExitCommand line = true
      · obtain ⟨hhandled, hfirst⟩ := handled_exit stdin.position hexit
          (pieces next.position (remaining next))
        rw [if_pos hexit, hhandled, hfirst]
        exact ⟨rfl, rfl⟩
      · rw [if_neg hexit]
        by_cases hnil : line = []
        · obtain ⟨hhandled, hfirst⟩ := handled_nil stdin.position
            (pieces next.position (remaining next))
          subst hnil
          rw [if_pos rfl, hhandled, hfirst]
          exact ih hn hlen
        · obtain ⟨hhandled, hfirst⟩ := handled_run stdin.position (Bool.not_eq_true _ ▸ hexit) hnil
            (pieces next.position (remaining next))
          have hn' : nul ∉ next.content := hn
          obtain ⟨hran, hexited⟩ := ih (w := (runSqlText config line w).2) hn' hlen
          rw [if_neg hnil, hhandled, hfirst]
          exact ⟨congrArg (List.cons (stdin.position, line)) hran, hexited⟩

/-! ### Lines -/

theorem trimLineEnd_append {line ends : Bytes} (h : ∀ c ∈ ends, isLineEnd c = true) :
    trimLineEnd (line ++ ends) = trimLineEnd line := by
  induction ends using List.reverseRecOn with
  | nil => rw [List.append_nil]
  | append_singleton ends c ih =>
    obtain ⟨hends, hc⟩ := List.forall_mem_append.mp h
    rw [← List.append_assoc, trimLineEnd,
      List.rdropWhile_concat_pos _ _ _ (hc c List.mem_cons_self)]
    exact ih hends

/-- A line is its trimmed text and what is cut off. -/
theorem exists_eq_trimLineEnd_append (line : Bytes) :
    ∃ ends, line = trimLineEnd line ++ ends ∧ ∀ c ∈ ends, isLineEnd c = true :=
  ⟨line.rtakeWhile isLineEnd, (List.rdropWhile_append_rtakeWhile ..).symm, fun _ hc ↦
    List.mem_rtakeWhile_imp hc⟩

theorem trimLineEnd_eq_nil_iff {line : Bytes} :
    trimLineEnd line = [] ↔ ∀ c ∈ line, isLineEnd c = true := List.rdropWhile_eq_nil_iff

theorem trimLineEnd_trimLineEnd (line : Bytes) :
    trimLineEnd (trimLineEnd line) = trimLineEnd line := List.rdropWhile_idempotent isLineEnd line

/-- What follows a line: its line feed and the next lines, or nothing. -/
def Follows (tail : Bytes) : Prop := tail = [] ∨ ∃ later, tail = lf :: later

theorem pieces_nil (position : Nat) : pieces position [] = [] := by
  have hchunk : chunk [] = [] := rfl
  rw [pieces, dif_pos hchunk]

/-- A line that fits is one piece. -/
theorem pieces_of_lt (position : Nat) {line tail : Bytes} (hlf : lf ∉ line) (ht : Follows tail)
    (hne : line ++ tail ≠ []) (hlt : line.length < maxSqlSize - 1) :
    pieces position (line ++ tail) = (position, trimLineEnd line) ::
      pieces (position + (line ++ tail.take 1).length) (tail.drop 1) := by
  have hchunk : chunk (line ++ tail) = line ++ tail.take 1 := by
    rcases ht with rfl | ⟨later, rfl⟩
    · rw [List.take_nil, List.append_nil]
      exact fgetsChunk_last hlf (Nat.le_of_lt hlt)
    · exact fgetsChunk_line hlf hlt
  have hends : ∀ c ∈ tail.take 1, isLineEnd c = true := by
    rcases ht with rfl | ⟨later, rfl⟩
    · exact List.forall_mem_nil _
    · exact List.forall_mem_singleton.mpr rfl
  have hsplit : line ++ tail = (line ++ tail.take 1) ++ tail.drop 1 := by
    rw [List.append_assoc, List.take_append_drop]
  have hne' : line ++ tail.take 1 ≠ [] := by
    rcases ht with rfl | ⟨later, rfl⟩
    · rwa [List.take_nil]
    · exact List.append_ne_nil_of_right_ne_nil _ (List.cons_ne_nil _ _)
  have hdrop : (line ++ tail).drop (line ++ tail.take 1).length = tail.drop 1 := by
    rw [hsplit, List.drop_left]
  rw [pieces, hchunk, dif_neg hne', trimLineEnd_append hends, hdrop]

/-- A line that does not fit has more than one piece. -/
theorem pieces_of_le (position : Nat) {line tail : Bytes} (hlf : lf ∉ line)
    (hle : maxSqlSize - 1 ≤ line.length) :
    pieces position (line ++ tail) = (position, trimLineEnd (line.take (maxSqlSize - 1))) ::
      pieces (position + (maxSqlSize - 1)) (line.drop (maxSqlSize - 1) ++ tail) := by
  have hchunk : chunk (line ++ tail) = line.take (maxSqlSize - 1) := fgetsChunk_full hlf hle
  have hlen : (chunk (line ++ tail)).length = maxSqlSize - 1 := by
    rw [hchunk, List.length_take, Nat.min_eq_left hle]
  have hne : chunk (line ++ tail) ≠ [] := List.ne_nil_of_length_pos (by rw [hlen]; decide)
  rw [pieces, dif_neg hne, hlen, hchunk, List.drop_append_of_le_length hle]

/-- The start of a line that is cut off, and what follows it in the line, when only carriage
returns are lost. -/
theorem trimLineEnd_take {line : Bytes} {n : Nat} (h : (trimLineEnd line).length ≤ n) :
    trimLineEnd (line.take n) = trimLineEnd line ∧ ∀ c ∈ line.drop n, isLineEnd c = true := by
  obtain ⟨ends, hline, hends⟩ := exists_eq_trimLineEnd_append line
  have htake : line.take n = trimLineEnd line ++ ends.take (n - (trimLineEnd line).length) := by
    conv_lhs => rw [hline]
    rw [List.take_append, List.take_of_length_le h]
  have hdrop : line.drop n = ends.drop (n - (trimLineEnd line).length) := by
    conv_lhs => rw [hline]
    rw [List.drop_append, List.drop_of_length_le h, List.nil_append]
  constructor
  · rw [htake, trimLineEnd_append fun c hc ↦ hends c (List.mem_of_mem_take hc),
      trimLineEnd_trimLineEnd]
  · rw [hdrop]
    exact fun c hc ↦ hends c (List.mem_of_mem_drop hc)

theorem length_drop_lt {line : Bytes} (hle : maxSqlSize - 1 ≤ line.length) :
    (line.drop (maxSqlSize - 1)).length < line.length := by
  have hpos : 0 < maxSqlSize - 1 := by decide
  rw [List.length_drop]
  omega

theorem position_drop {position : Nat} {line ends : Bytes} (hle : maxSqlSize - 1 ≤ line.length) :
    position + (maxSqlSize - 1) + (line.drop (maxSqlSize - 1) ++ ends).length =
      position + (line ++ ends).length := by
  rw [List.length_append, List.length_append, List.length_drop]
  omega

theorem position_next {position : Nat} {line later : Bytes} :
    position + (line ++ (lf :: later).take 1).length = position + line.length + 1 := by
  rw [List.length_append, List.take_succ_cons, List.take_zero, List.length_singleton,
    Nat.add_assoc]

/-- Pieces without text. -/
def Blank (blanks : List (Nat × Bytes)) : Prop := ∀ p ∈ blanks, p.2 = []

/-- The pieces of carriage returns at the end of a line are empty. -/
theorem pieces_of_blank (position : Nat) {line tail : Bytes} (hlf : lf ∉ line)
    (ht : Follows tail) (hblank : ∀ c ∈ line, isLineEnd c = true) :
    ∃ blanks, Blank blanks ∧ pieces position (line ++ tail) =
      blanks ++ pieces (position + (line ++ tail.take 1).length) (tail.drop 1) := by
  generalize hn : line.length = n
  induction n using Nat.strong_induction_on generalizing position line with
  | _ n ih =>
    by_cases hne : line ++ tail = []
    · obtain ⟨rfl, rfl⟩ := List.append_eq_nil_iff.mp hne
      exact ⟨[], List.forall_mem_nil _, rfl⟩
    · by_cases hlt : line.length < maxSqlSize - 1
      · refine ⟨[(position, trimLineEnd line)], ?_, pieces_of_lt position hlf ht hne hlt⟩
        exact List.forall_mem_singleton.mpr (trimLineEnd_eq_nil_iff.mpr hblank)
      · have hle := Nat.le_of_not_lt hlt
        have hdrop := length_drop_lt hle
        rw [hn] at hdrop
        obtain ⟨blanks, hblanks, hpieces⟩ := ih _ hdrop (position + (maxSqlSize - 1))
          (fun hm ↦ hlf (List.mem_of_mem_drop hm)) (fun c hc ↦ hblank c (List.mem_of_mem_drop hc))
          rfl
        refine ⟨(position, trimLineEnd (line.take (maxSqlSize - 1))) :: blanks, ?_, ?_⟩
        · refine List.forall_mem_cons.mpr ⟨trimLineEnd_eq_nil_iff.mpr fun c hc ↦ ?_, hblanks⟩
          exact hblank c (List.mem_of_mem_take hc)
        · rw [pieces_of_le position hlf hle, hpieces, List.cons_append, position_drop hle]

/-- A line that fits without its end is one piece, and pieces without text. -/
theorem pieces_of_short (position : Nat) {line tail : Bytes} (hlf : lf ∉ line)
    (ht : Follows tail) (hne : line ++ tail ≠ []) (hs : (trimLineEnd line).length < maxSqlSize) :
    ∃ blanks, Blank blanks ∧ pieces position (line ++ tail) = (position, trimLineEnd line) ::
      (blanks ++ pieces (position + (line ++ tail.take 1).length) (tail.drop 1)) := by
  by_cases hlt : line.length < maxSqlSize - 1
  · exact ⟨[], List.forall_mem_nil _, pieces_of_lt position hlf ht hne hlt⟩
  · have hle := Nat.le_of_not_lt hlt
    obtain ⟨htake, hblank⟩ := trimLineEnd_take (Nat.le_sub_one_of_lt hs)
    obtain ⟨blanks, hblanks, hpieces⟩ := pieces_of_blank (position + (maxSqlSize - 1))
      (fun hm ↦ hlf (List.mem_of_mem_drop hm)) ht hblank
    refine ⟨blanks, hblanks, ?_⟩
    rw [pieces_of_le position hlf hle, htake, hpieces, position_drop hle]

/-- The first piece of a line that has text, and where it starts. -/
theorem pieces_of_text (position : Nat) {line tail : Bytes} (hlf : lf ∉ line)
    (ht : Follows tail) (htext : trimLineEnd line ≠ []) :
    ∃ blanks piece later, pieces position (line ++ tail) = blanks ++ piece :: later ∧
      Blank blanks ∧ piece.2 ≠ [] ∧ piece.2.length < maxSqlSize ∧
        position ≤ piece.1 ∧ piece.1 < position + line.length := by
  generalize hn : line.length = n
  induction n using Nat.strong_induction_on generalizing position line with
  | _ n ih =>
    have hpos : 0 < line.length := by
      apply List.length_pos_of_ne_nil
      rintro rfl
      exact htext rfl
    have hlen : ∀ s : Bytes, (trimLineEnd s).length ≤ s.length := fun s ↦
      (List.rdropWhile_prefix isLineEnd s).length_le
    by_cases hlt : line.length < maxSqlSize - 1
    · have hne : line ++ tail ≠ [] :=
        List.append_ne_nil_of_left_ne_nil (List.ne_nil_of_length_pos hpos) _
      exact ⟨[], _, _, pieces_of_lt position hlf ht hne hlt, List.forall_mem_nil _, htext,
        Nat.lt_of_le_of_lt (hlen line) (Nat.lt_of_lt_of_le hlt (Nat.sub_le _ _)), Nat.le_refl _,
        by omega⟩
    · have hle := Nat.le_of_not_lt hlt
      by_cases hfirst : trimLineEnd (line.take (maxSqlSize - 1)) = []
      · have hrest : trimLineEnd (line.drop (maxSqlSize - 1)) ≠ [] := by
          -- else the line would consist of carriage returns
          intro hrest
          refine htext (trimLineEnd_eq_nil_iff.mpr ?_)
          rw [← List.take_append_drop (maxSqlSize - 1) line]
          exact List.forall_mem_append.mpr
            ⟨trimLineEnd_eq_nil_iff.mp hfirst, trimLineEnd_eq_nil_iff.mp hrest⟩
        have hdrop := length_drop_lt hle
        rw [hn] at hdrop
        obtain ⟨blanks, piece, later, hpieces, hblanks, hne, hlt, hl, hu⟩ :=
          ih _ hdrop (position + (maxSqlSize - 1)) (fun hm ↦ hlf (List.mem_of_mem_drop hm)) hrest
            rfl
        rw [List.length_drop] at hu
        refine ⟨(position, []) :: blanks, piece, later, ?_, ?_, hne, hlt, by omega, by omega⟩
        · rw [pieces_of_le position hlf hle, hfirst, hpieces, List.cons_append]
        · exact List.forall_mem_cons.mpr ⟨rfl, hblanks⟩
      · refine ⟨[], _, _, pieces_of_le position hlf hle, List.forall_mem_nil _, hfirst, ?_,
          Nat.le_refl _, by omega⟩
        have := hlen (line.take (maxSqlSize - 1))
        rw [List.length_take, Nat.min_eq_left hle] at this
        exact Nat.lt_of_le_of_lt this (by decide)

/-! ### Whole inputs -/

theorem handled_blanks {blanks : List (Nat × Bytes)} (hb : Blank blanks)
    (ps : List (Nat × Bytes)) :
    handled (blanks ++ ps) = handled ps ∧ firstExit (blanks ++ ps) = firstExit ps := by
  induction blanks with
  | nil => exact ⟨rfl, rfl⟩
  | cons p blanks ih =>
    obtain ⟨position, line⟩ := p
    obtain ⟨hline, hblanks⟩ := List.forall_mem_cons.mp hb
    obtain rfl : line = [] := hline
    obtain ⟨hhandled, hfirst⟩ := handled_nil position (blanks ++ ps)
    rw [List.cons_append, hhandled, hfirst]
    exact ih hblanks

theorem handled_cons_congr {position : Nat} {line : Bytes} {ps qs : List (Nat × Bytes)}
    (h : isExitCommand line = false → handled ps = handled qs ∧ firstExit ps = firstExit qs) :
    handled ((position, line) :: ps) = handled ((position, line) :: qs) ∧
      firstExit ((position, line) :: ps) = firstExit ((position, line) :: qs) := by
  by_cases hexit : isExitCommand line = true
  · obtain ⟨hp, hfp⟩ := handled_exit position hexit ps
    obtain ⟨hq, hfq⟩ := handled_exit position hexit qs
    exact ⟨hp.trans hq.symm, hfp.trans hfq.symm⟩
  · rw [Bool.not_eq_true] at hexit
    obtain ⟨hhandled, hfirst⟩ := h hexit
    by_cases hnil : line = []
    · subst hnil
      obtain ⟨hp, hfp⟩ := handled_nil position ps
      obtain ⟨hq, hfq⟩ := handled_nil position qs
      rw [hp, hq, hfp, hfq]
      exact ⟨hhandled, hfirst⟩
    · obtain ⟨hp, hfp⟩ := handled_run position hexit hnil ps
      obtain ⟨hq, hfq⟩ := handled_run position hexit hnil qs
      rw [hp, hq, hfp, hfq, hhandled]
      exact ⟨rfl, hfirst⟩

/-- The first piece that has text is handled. -/
theorem handled_of_text {blanks later : List (Nat × Bytes)} {piece : Nat × Bytes}
    (hb : Blank blanks) (hne : piece.2 ≠ []) :
    piece ∈ handled (blanks ++ piece :: later) ∨
      firstExit (blanks ++ piece :: later) = some piece := by
  obtain ⟨hhandled, hfirst⟩ := handled_blanks hb (piece :: later)
  rw [hhandled, hfirst]
  cases hexit : isExitCommand piece.2 with
  | true => exact Or.inr (handled_exit piece.1 hexit later).2
  | false =>
    apply Or.inl
    rw [(handled_run piece.1 hexit hne later).1]
    exact List.mem_cons_self

/-- What is handled later is handled. -/
theorem handled_of_later {position : Nat} {line : Bytes} {ps : List (Nat × Bytes)}
    {piece : Nat × Bytes} (hexit : isExitCommand line = false)
    (h : piece ∈ handled ps ∨ firstExit ps = some piece) :
    piece ∈ handled ((position, line) :: ps) ∨
      firstExit ((position, line) :: ps) = some piece := by
  by_cases hnil : line = []
  · obtain ⟨hhandled, hfirst⟩ := handled_nil position ps
    rw [hnil, hhandled, hfirst]
    exact h
  · obtain ⟨hhandled, hfirst⟩ := handled_run position hexit hnil ps
    rw [hhandled, hfirst]
    exact h.imp_left (List.mem_cons_of_mem _)

theorem mem_of_handled {ps : List (Nat × Bytes)} {piece : Nat × Bytes}
    (h : piece ∈ handled ps ∨ firstExit ps = some piece) : piece ∈ ps := by
  rcases h with h | h
  · exact (List.takeWhile_subset _) (List.mem_of_mem_filter h)
  · exact List.mem_of_find?_eq_some h

theorem le_of_mem_pieces {position : Nat} {rest : Bytes} {piece : Nat × Bytes}
    (h : piece ∈ pieces position rest) : position ≤ piece.1 := by
  generalize hn : rest.length = n
  induction n using Nat.strong_induction_on generalizing position rest with
  | _ n ih =>
    rw [pieces] at h
    split at h
    · cases h
    · next hne =>
      rcases List.mem_cons.mp h with rfl | h
      · exact Nat.le_refl _
      · have hpos := List.length_pos_of_ne_nil hne
        have hle := (isPrefix_fgetsChunk (maxSqlSize - 1) rest).length_le
        have hlt : (rest.drop (chunk rest).length).length < n := by
          rw [List.length_drop, ← hn]
          exact Nat.sub_lt (Nat.lt_of_lt_of_le hpos hle) hpos
        exact (Nat.le_add_right _ _).trans (ih _ hlt h rfl)

theorem length_of_isExitCommand {line : Bytes} (h : isExitCommand line = true) :
    line.length < maxSqlSize := by
  rw [isExitCommand, Bool.or_eq_true, Bool.or_eq_true, decide_eq_true_eq, decide_eq_true_eq,
    decide_eq_true_eq] at h
  rcases h with (rfl | rfl) | rfl <;> decide

theorem beforeExit_cons {position : Nat} {line : Bytes} {ls : List (Nat × Bytes)}
    (h : isExitCommand line = false) :
    beforeExit ((position, line) :: ls) = (position, line) :: beforeExit ls :=
  List.takeWhile_cons_of_pos (by rw [h]; rfl)

theorem length_first_lt {position : Nat} {line : Bytes} {ls : List (Nat × Bytes)}
    (h : ∀ p ∈ beforeExit ((position, line) :: ls), p.2.length < maxSqlSize) :
    line.length < maxSqlSize := by
  cases hexit : isExitCommand line with
  | true => exact length_of_isExitCommand hexit
  | false =>
    rw [beforeExit_cons hexit] at h
    exact h _ List.mem_cons_self

theorem mem_beforeExit_cons {position : Nat} {line : Bytes} {ls : List (Nat × Bytes)}
    {p : Nat × Bytes} (h : p ∈ beforeExit ((position, line) :: ls)) :
    isExitCommand line = false ∧ (p = (position, line) ∨ p ∈ beforeExit ls) := by
  cases hexit : isExitCommand line with
  | true =>
    rw [beforeExit, List.takeWhile_cons_of_neg (by simpa using hexit)] at h
    cases h
  | false =>
    rw [beforeExit_cons hexit] at h
    exact ⟨rfl, List.mem_cons.mp h⟩

theorem ne_nil_of_long {line : Bytes} (h : maxSqlSize ≤ line.length) : line ≠ [] := by
  rintro rfl
  exact absurd h (by decide)

/-- When the lines fit, they are what is run. -/
theorem handled_pieces_of_short {start : Nat} {input : Bytes} {ls : List (Nat × Bytes)}
    (h : CutsInto lf start input ls)
    (hs : ∀ p ∈ beforeExit (trimLines ls), p.2.length < maxSqlSize) :
    handled (pieces start input) = handled (trimLines ls) ∧
      firstExit (pieces start input) = firstExit (trimLines ls) := by
  induction h with
  | nil start =>
    rw [pieces_nil]
    exact ⟨rfl, rfl⟩
  | @last start record hlf hne =>
    have htail : Follows [] := Or.inl rfl
    obtain ⟨blanks, hb, hpieces⟩ := pieces_of_short start hlf htail
      (List.append_ne_nil_of_left_ne_nil hne _) (length_first_lt hs)
    rw [List.append_nil, List.drop_nil, pieces_nil, List.append_nil] at hpieces
    rw [hpieces]
    apply handled_cons_congr
    intro _
    have hblanks := handled_blanks hb []
    rwa [List.append_nil] at hblanks
  | @cons start record rest later hlf ht ih =>
    have htail : Follows (lf :: rest) := Or.inr ⟨rest, rfl⟩
    obtain ⟨blanks, hb, hpieces⟩ := pieces_of_short start hlf htail
      (List.append_ne_nil_of_right_ne_nil _ (List.cons_ne_nil _ _)) (length_first_lt hs)
    rw [position_next, List.drop_succ_cons, List.drop_zero] at hpieces
    rw [hpieces]
    apply handled_cons_congr
    intro hexit
    obtain ⟨hhandled, hfirst⟩ := handled_blanks hb (pieces (start + record.length + 1) rest)
    rw [hhandled, hfirst]
    refine ih fun p hp ↦ hs p ?_
    rw [trimLines, List.map_cons, beforeExit_cons hexit]
    exact List.mem_cons_of_mem _ hp

/-- When a line does not fit, something else is run, or ends the session. -/
theorem exists_handled_of_long {start : Nat} {input : Bytes} {ls : List (Nat × Bytes)}
    (h : CutsInto lf start input ls) {long : Nat × Bytes}
    (hm : long ∈ beforeExit (trimLines ls)) (hlong : maxSqlSize ≤ long.2.length) :
    ∃ piece, (piece ∈ handled (pieces start input) ∨
        firstExit (pieces start input) = some piece) ∧ piece ∉ trimLines ls := by
  induction h with
  | nil start => cases hm
  | @last start record hlf hne =>
    obtain ⟨-, hrecord⟩ := mem_beforeExit_cons hm
    obtain rfl := hrecord.resolve_right List.not_mem_nil
    obtain ⟨blanks, piece, later, hpieces, hb, htext, hlt, -⟩ :=
      pieces_of_text start hlf (Or.inl rfl) (ne_nil_of_long hlong)
    rw [List.append_nil] at hpieces
    refine ⟨piece, hpieces ▸ handled_of_text hb htext, fun hmem ↦ ?_⟩
    rw [List.mem_singleton.mp hmem] at hlt
    exact Nat.not_lt.mpr hlong hlt
  | @cons start record rest later hlf ht ih =>
    have htail : Follows (lf :: rest) := Or.inr ⟨rest, rfl⟩
    obtain ⟨hexit, hrecord⟩ := mem_beforeExit_cons hm
    have hlater : ∀ p ∈ trimLines later, start + record.length + 1 ≤ p.1 := by
      intro p hp
      obtain ⟨q, hq, rfl⟩ := List.mem_map.mp hp
      rw [cutsInto_iff.mp ht] at hq
      exact (drop_of_mem_records lf hq).1
    by_cases hs : (trimLineEnd record).length < maxSqlSize
    · have hm : long ∈ beforeExit (trimLines later) := by
        apply hrecord.resolve_left
        rintro rfl
        exact Nat.not_lt.mpr hlong hs
      obtain ⟨piece, hpiece, hnot⟩ := ih hm
      obtain ⟨blanks, hb, hpieces⟩ := pieces_of_short start hlf htail
        (List.append_ne_nil_of_right_ne_nil _ (List.cons_ne_nil _ _)) hs
      obtain ⟨hhandled, hfirst⟩ := handled_blanks hb (pieces (start + record.length + 1) rest)
      rw [position_next, List.drop_succ_cons, List.drop_zero] at hpieces
      rw [hpieces]
      refine ⟨piece, handled_of_later hexit ?_, fun hmem ↦ ?_⟩
      · rw [hhandled, hfirst]
        exact hpiece
      · rcases List.mem_cons.mp hmem with rfl | hmem
        · have hle : start + record.length + 1 ≤ start :=
            le_of_mem_pieces (mem_of_handled hpiece)
          omega
        · exact hnot hmem
    · have hs := Nat.le_of_not_lt hs
      obtain ⟨blanks, piece, later', hpieces, hb, htext, hlt, -, hu⟩ :=
        pieces_of_text start hlf htail (ne_nil_of_long hs)
      rw [hpieces]
      refine ⟨piece, handled_of_text hb htext, fun hmem ↦ ?_⟩
      rcases List.mem_cons.mp hmem with rfl | hmem
      · exact Nat.not_lt.mpr hs hlt
      · have hle := hlater piece hmem
        omega

/-- What is run and what ends the session are pieces of the input. -/
theorem runInteractiveProgram_pieces (config : AppConfig) {input : Bytes} (w : World)
    (hn : nul ∉ input) :
    (runInteractiveProgram config input w).1.filterMap Action.ran = handled (pieces 0 input) ∧
      (runInteractiveProgram config input w).1.filterMap Action.exited =
        (firstExit (pieces 0 input)).toList :=
  @interactiveLoop_pieces config _ (.start input) w hn (Nat.lt_succ_self _)

/-- A session that runs whole lines handles no other piece. -/
theorem mem_wholeLines_of_handled {config : AppConfig} {input : Bytes} {w : World}
    (hn : nul ∉ input) (h : RunsWholeLines input (runInteractiveProgram config input w).1)
    {piece : Nat × Bytes} (hpiece : piece ∈ handled (pieces 0 input) ∨
      firstExit (pieces 0 input) = some piece) : piece ∈ wholeLines input := by
  obtain ⟨hran, hexited⟩ := runInteractiveProgram_pieces config w hn
  rcases hpiece with hpiece | hpiece
  · rw [← hran] at hpiece
    exact (List.takeWhile_subset _) (h.runs.subset hpiece)
  · rw [← Option.mem_toList, ← hexited] at hpiece
    exact List.mem_of_find?_eq_some (h.exits piece hpiece)

/-- Interactive mode runs whole lines exactly when every line before the exit command fits the
buffer without its end. -/
theorem runInteractiveProgram_runsWholeLines (config : AppConfig) {input : Bytes} (w : World)
    (hn : nul ∉ input) :
    RunsWholeLines input (runInteractiveProgram config input w).1 ↔
      ∀ p ∈ beforeExit (wholeLines input), p.2.length < maxSqlSize := by
  have hcuts : CutsInto lf 0 input (lines input) := cutsInto_iff.mpr rfl
  constructor
  · intro h long hm
    by_contra hlong
    obtain ⟨piece, hpiece, hnot⟩ := exists_handled_of_long hcuts hm (Nat.le_of_not_lt hlong)
    exact hnot (mem_wholeLines_of_handled hn h hpiece)
  · intro hs
    obtain ⟨hran, hexited⟩ := runInteractiveProgram_pieces config w hn
    obtain ⟨hhandled, hfirst⟩ := handled_pieces_of_short hcuts hs
    refine ⟨?_, ?_⟩
    · rw [hran, hhandled]
      exact List.filter_sublist
    · rw [hexited, hfirst]
      exact fun p hp ↦ Option.mem_toList.mp hp

theorem runInteractiveProgram_runsWholeLines_sample :
    RunsWholeLines (text "SELECT * FROM t;\nquit\n") (runInteractiveProgram
        ⟨text "s", text "d", by decide, by decide⟩ (text "SELECT * FROM t;\nquit\n")
        ⟨⟨fun _ ↦ none, []⟩, []⟩).1 ↔
      ∀ p ∈ beforeExit (wholeLines (text "SELECT * FROM t;\nquit\n")),
        p.2.length < maxSqlSize :=
  runInteractiveProgram_runsWholeLines _ _ (by decide)

/-- A line whose end looks like a command. -/
def longLine : Bytes := List.replicate (maxSqlSize - 1) 97 ++ text "quit"

theorem notMem_longLine {c : UInt8} (ha : c ≠ 97) (hquit : c ∉ text "quit") : c ∉ longLine := by
  rw [longLine, List.mem_append, not_or]
  exact ⟨fun hm ↦ ha (List.eq_of_mem_replicate hm), hquit⟩

theorem length_longLine : longLine.length = maxSqlSize + 3 := by
  have hquit : (text "quit").length = 4 := rfl
  rw [longLine, List.length_append, List.length_replicate, hquit]
  rfl

theorem trimLineEnd_longLine : trimLineEnd longLine = longLine := by
  have hlf : lf ∉ longLine := notMem_longLine (by decide) (by decide)
  have hcr : cr ∉ longLine := notMem_longLine (by decide) (by decide)
  rw [trimLineEnd, List.rdropWhile_eq_self_iff]
  intro hne hend
  rw [isLineEnd, Bool.or_eq_true, decide_eq_true_eq, decide_eq_true_eq] at hend
  have hmem := List.getLast_mem hne
  rcases hend with hend | hend
  · exact hlf (hend ▸ hmem)
  · exact hcr (hend ▸ hmem)

/-- A line that does not fit is not run whole. -/
theorem not_runsWholeLines_of_long {config : AppConfig} {line : Bytes} {w : World}
    (hlf : lf ∉ line) (hnul : nul ∉ line) (hlong : maxSqlSize ≤ (trimLineEnd line).length) :
    ¬ RunsWholeLines (line ++ [lf]) (runInteractiveProgram config (line ++ [lf]) w).1 := by
  intro h
  have hn : nul ∉ line ++ [lf] := by
    rw [List.mem_append, List.mem_singleton, not_or]
    exact ⟨hnul, by decide⟩
  have hlines : lines (line ++ [lf]) = [(0, line)] := records_line lf 0 hlf
  have hexit : isExitCommand (trimLineEnd line) = false := by
    rw [← Bool.not_eq_true]
    exact fun hexit ↦ Nat.not_lt.mpr hlong (length_of_isExitCommand hexit)
  have hbefore : (0, trimLineEnd line) ∈ beforeExit (trimLines [(0, line)]) := by
    rw [trimLines, List.map_singleton, beforeExit_cons hexit]
    exact List.mem_cons_self
  have hcuts : CutsInto lf 0 (line ++ [lf]) [(0, line)] := cutsInto_iff.mpr hlines.symm
  obtain ⟨piece, hpiece, hnot⟩ := exists_handled_of_long hcuts hbefore hlong
  have hmem := mem_wholeLines_of_handled hn h hpiece
  rw [wholeLines, hlines] at hmem
  exact hnot hmem

theorem runInteractiveProgram_longLine :
    ¬ RunsWholeLines (longLine ++ [lf]) (runInteractiveProgram
      ⟨text "s", text "d", by decide, by decide⟩ (longLine ++ [lf])
      ⟨⟨fun _ ↦ none, []⟩, []⟩).1 := by
  have hlong : maxSqlSize ≤ (trimLineEnd longLine).length := by
    rw [trimLineEnd_longLine, length_longLine]
    exact Nat.le_add_right _ _
  exact not_runsWholeLines_of_long (notMem_longLine (by decide) (by decide))
    (notMem_longLine (by decide) (by decide)) hlong

end SqlProc.App
