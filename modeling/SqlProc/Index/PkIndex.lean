import SqlProc.Index.Range

/-!
# The primary-key index of a table

Library `Index`. `pk_index` of a table's runtime state: a well-formed tree whose node
allocations succeed, so that every operation of `src/bptree.c` on it has a result. Its
contents are a sorted list of keys with offsets.
-/

namespace SqlProc.Index

open Support

/-- A well-formed tree whose node allocations succeed. -/
structure PkIndex where
  tree : BPlusTree
  wellFormed : ∃ es, Represents tree es
  calloc : ∀ i, tree.heap.calloc i = true

namespace PkIndex

/-- `bptree_create`. -/
def create : PkIndex := ⟨bptreeCreate fun _ ↦ true, ⟨[], represents_create _⟩, fun _ ↦ rfl⟩

/-- The keys with their offsets, by ascending key. -/
noncomputable def entries (idx : PkIndex) : List (Int × Int) := Classical.choose idx.wellFormed

theorem represents (idx : PkIndex) : Represents idx.tree idx.entries :=
  Classical.choose_spec idx.wellFormed

theorem sortedKeys_entries (idx : PkIndex) : SortedKeys idx.entries := idx.represents.sortedKeys

theorem entries_eq {idx : PkIndex} {es : List (Int × Int)} (h : Represents idx.tree es) :
    idx.entries = es := by
  apply idx.sortedKeys_entries.ext h.sortedKeys
  intro k
  have he := bptreeSearch_spec idx.represents k
  rw [bptreeSearch_spec h k] at he
  exact (Option.some.inj he).symm

@[simp] theorem entries_create : create.entries = [] := entries_eq (represents_create _)

theorem isSome_bptreeInsert (idx : PkIndex) (key offset : Int) :
    (bptreeInsert idx.tree key offset).isSome = true := by
  obtain ⟨tree, h, -⟩ := bptreeInsert_spec idx.calloc idx.represents key offset
  rw [h]
  rfl

/-- `bptree_insert`; the flag is its return value. -/
def insert (idx : PkIndex) (key offset : Int) : PkIndex × Bool :=
  let out := (bptreeInsert idx.tree key offset).get (idx.isSome_bptreeInsert key offset)
  (⟨out.1, by
    obtain ⟨tree, h, -, hr⟩ := bptreeInsert_spec idx.calloc idx.represents key offset
    simp only [out, h]
    exact ⟨_, hr⟩, by
    obtain ⟨tree, h, hc, -⟩ := bptreeInsert_spec idx.calloc idx.represents key offset
    simp only [out, h]
    intro i
    rw [Option.get_some, hc]
    exact idx.calloc i⟩, out.2)

@[simp] theorem entries_insert (idx : PkIndex) (key offset : Int) :
    (idx.insert key offset).1.entries = insertNew key offset idx.entries := by
  obtain ⟨tree, h, -, hr⟩ := bptreeInsert_spec idx.calloc idx.represents key offset
  apply entries_eq
  simp only [insert, h]
  exact hr

@[simp] theorem insert_snd (idx : PkIndex) (key offset : Int) :
    (idx.insert key offset).2 = (findEntry key idx.entries).isNone := by
  obtain ⟨tree, h, -⟩ := bptreeInsert_spec idx.calloc idx.represents key offset
  simp only [insert, h, Option.get_some]

theorem isSome_bptreeSearch (idx : PkIndex) (key : Int) :
    (bptreeSearch idx.tree key).isSome = true := by
  rw [bptreeSearch_spec idx.represents]
  rfl

/-- `bptree_search`; empty when the key is not found. -/
def search (idx : PkIndex) (key : Int) : Option Int :=
  (bptreeSearch idx.tree key).get (idx.isSome_bptreeSearch key)

@[simp] theorem search_eq (idx : PkIndex) (key : Int) :
    idx.search key = findEntry key idx.entries := by
  simp only [search, bptreeSearch_spec idx.represents, Option.get_some]

variable {σ : Type}

theorem isSome_bptreeVisitGreaterThan (idx : PkIndex) (key : Int) (visit : BptreeVisitFn σ)
    (userData : σ) : (bptreeVisitGreaterThan idx.tree key visit userData).isSome = true := by
  rw [bptreeVisitGreaterThan_spec idx.represents]
  rfl

/-- `bptree_visit_greater_than`: its return value and the user data after it. -/
def visitGreaterThan (idx : PkIndex) (key : Int) (visit : BptreeVisitFn σ) (userData : σ) :
    Bool × σ :=
  (bptreeVisitGreaterThan idx.tree key visit userData).get
    (idx.isSome_bptreeVisitGreaterThan key visit userData)

@[simp] theorem visitGreaterThan_eq (idx : PkIndex) (key : Int) (visit : BptreeVisitFn σ)
    (userData : σ) : idx.visitGreaterThan key visit userData =
      visitCells visit (idx.entries.filter (key < ·.1)) userData := by
  simp only [visitGreaterThan, bptreeVisitGreaterThan_spec idx.represents, Option.get_some]

theorem isSome_bptreeVisitLessThan (idx : PkIndex) (key : Int) (visit : BptreeVisitFn σ)
    (userData : σ) : (bptreeVisitLessThan idx.tree key visit userData).isSome = true := by
  rw [bptreeVisitLessThan_spec idx.represents]
  rfl

/-- `bptree_visit_less_than`: its return value and the user data after it. -/
def visitLessThan (idx : PkIndex) (key : Int) (visit : BptreeVisitFn σ) (userData : σ) :
    Bool × σ :=
  (bptreeVisitLessThan idx.tree key visit userData).get
    (idx.isSome_bptreeVisitLessThan key visit userData)

@[simp] theorem visitLessThan_eq (idx : PkIndex) (key : Int) (visit : BptreeVisitFn σ)
    (userData : σ) : idx.visitLessThan key visit userData =
      visitCells visit (idx.entries.filter (·.1 < key)) userData := by
  simp only [visitLessThan, bptreeVisitLessThan_spec idx.represents, Option.get_some]

end PkIndex
end SqlProc.Index
