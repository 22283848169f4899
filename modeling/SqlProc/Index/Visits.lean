import SqlProc.Index.Range

/-!
# The calls of a range visit

Library `Index`. Which calls `bptree_visit_greater_than` and `bptree_visit_less_than` of
`src/bptree.c` make, for any visitor and any tree that a run of insertions has built: the
entries on their side of the bound, in ascending order, up to the first call that returns zero.
-/

namespace SqlProc.Index

open Support

variable {σ : Type}

/-- The visitor, with a record of its calls. -/
def recording (visit : BptreeVisitFn σ) : BptreeVisitFn (σ × List (Int × Int)) :=
  fun key offset state ↦
    ((visit key offset state.1).1, (visit key offset state.1).2, state.2 ++ [(key, offset)])

/-- The visitor that accepts every entry and collects them. -/
def collect : BptreeVisitFn (List (Int × Int)) := fun key offset seen ↦
  (true, seen ++ [(key, offset)])

/-- What the visitor returns on these calls, made one after the other. -/
def answers (visit : BptreeVisitFn σ) : List (Int × Int) → σ → List Bool
  | [], _ => []
  | (key, offset) :: rest, userData =>
    (visit key offset userData).1 :: answers visit rest (visit key offset userData).2

/-- The calls are those on the entries, in order, cut off right after the first one that
returned zero; the result is zero when there is one. -/
structure CutOff (visit : BptreeVisitFn σ) (userData : σ) (es calls : List (Int × Int))
    (result : Bool) : Prop where
  isPrefix : calls <+: es
  complete : result = true → calls = es
  last : result = false →
    ∃ earlier, answers visit calls userData = earlier ++ [false] ∧ false ∉ earlier
  result_iff : result = false ↔ false ∈ answers visit calls userData

/-- The loop over cells makes the calls on them, up to the first that returns zero. -/
theorem visitCells_recording (visit : BptreeVisitFn σ) (es : List (Int × Int)) (userData : σ)
    (log : List (Int × Int)) :
    ∃ calls, visitCells (recording visit) es (userData, log) =
        ((visitCells visit es userData).1, (visitCells visit es userData).2, log ++ calls) ∧
      CutOff visit userData es calls (visitCells visit es userData).1 := by
  induction es generalizing userData log with
  | nil =>
    refine ⟨[], by rw [List.append_nil]; rfl, List.prefix_refl [], fun _ ↦ rfl, fun h ↦ ?_, ?_⟩
    · cases h
    · simp [visitCells, answers]
  | cons e es ih =>
    obtain ⟨key, offset⟩ := e
    simp only [visitCells, recording]
    cases hv : visit key offset userData with
    | mk answer userData' =>
      cases answer with
      | false =>
        refine ⟨[(key, offset)], rfl, ⟨es, rfl⟩, fun h ↦ ?_, fun _ ↦ ⟨[], ?_, ?_⟩, ?_⟩
        · cases h
        · simp [answers, hv]
        · exact List.not_mem_nil
        · simp [answers, hv]
      | true =>
        obtain ⟨calls, hrun, hcut⟩ := ih userData' (log ++ [(key, offset)])
        refine ⟨(key, offset) :: calls, ?_, ?_, fun h ↦ ?_, fun h ↦ ?_, ?_⟩
        · rw [List.append_assoc] at hrun
          exact hrun
        · exact (List.prefix_cons_inj _).mpr hcut.isPrefix
        · rw [hcut.complete h]
        · obtain ⟨earlier, ha, hn⟩ := hcut.last h
          refine ⟨true :: earlier, ?_, ?_⟩
          · rw [answers, hv, ha, List.cons_append]
          · simpa using hn
        · rw [answers, hv, List.mem_cons]
          simpa using hcut.result_iff

theorem visitCells_collect (es seen : List (Int × Int)) :
    visitCells collect es seen = (true, seen ++ es) := by
  induction es generalizing seen with
  | nil => rw [List.append_nil]; rfl
  | cons e es ih =>
    rw [visitCells, collect]
    simp only
    rw [ih, ← List.append_cons]

/-- On every tree that insertions have built, the range visitors call the visitor on exactly
the stored entries on their side of the bound, and two scans and a search see every entry
once. -/
theorem visits_exact (inserts : List (Int × Int)) :
    ∃ tree returned es, insertAll (bptreeCreate fun _ ↦ true) inserts = some (tree, returned) ∧
      SortedKeys es ∧
      (∀ key offset, (key, offset) ∈ es ↔ bptreeSearch tree key = some (some offset)) ∧
      (∀ (σ : Type) (visit : BptreeVisitFn σ) (key : Int) (userData : σ),
        (∃ result userData' calls,
          bptreeVisitGreaterThan tree key visit userData = some (result, userData') ∧
          bptreeVisitGreaterThan tree key (recording visit) (userData, []) =
            some (result, userData', calls) ∧
          CutOff visit userData (es.filter (key < ·.1)) calls result) ∧
        ∃ result userData' calls,
          bptreeVisitLessThan tree key visit userData = some (result, userData') ∧
          bptreeVisitLessThan tree key (recording visit) (userData, []) =
            some (result, userData', calls) ∧
          CutOff visit userData (es.filter (·.1 < key)) calls result) ∧
      ∀ key, ∃ below found above, bptreeVisitLessThan tree key collect [] = some (true, below) ∧
        bptreeSearch tree key = some found ∧
        bptreeVisitGreaterThan tree key collect [] = some (true, above) ∧
        below ++ (found.toList.map fun offset ↦ (key, offset)) ++ above = es := by
  obtain ⟨tree, returned, es, hrun, hrep, -⟩ :=
    insertAll_spec (fun _ ↦ rfl) (represents_create fun _ ↦ true) inserts
  refine ⟨tree, returned, es, hrun, hrep.sortedKeys, fun key offset ↦ ?_,
    fun σ visit key userData ↦ ⟨?_, ?_⟩, fun key ↦ ?_⟩
  · rw [bptreeSearch_spec hrep, Option.some.injEq, findEntry_eq_some_iff hrep.sortedKeys]
  · obtain ⟨calls, hrecord, hcut⟩ :=
      visitCells_recording visit (es.filter (key < ·.1)) userData []
    refine ⟨_, _, calls, bptreeVisitGreaterThan_spec hrep key visit userData, ?_, hcut⟩
    rw [bptreeVisitGreaterThan_spec hrep, hrecord, List.nil_append]
  · obtain ⟨calls, hrecord, hcut⟩ :=
      visitCells_recording visit (es.filter (·.1 < key)) userData []
    refine ⟨_, _, calls, bptreeVisitLessThan_spec hrep key visit userData, ?_, hcut⟩
    rw [bptreeVisitLessThan_spec hrep, hrecord, List.nil_append]
  · refine ⟨es.filter (·.1 < key), findEntry key es, es.filter (key < ·.1), ?_,
      bptreeSearch_spec hrep key, ?_, filter_lt_append_filter_gt hrep.sortedKeys key⟩
    · rw [bptreeVisitLessThan_spec hrep, visitCells_collect, List.nil_append]
    · rw [bptreeVisitGreaterThan_spec hrep, visitCells_collect, List.nil_append]

end SqlProc.Index
