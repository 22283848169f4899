import SqlProc.Index.Refine
import Mathlib.Data.List.Perm.Subperm

/-!
# The tree of the index is a finite map

Library `Index`. `bptree_insert` and `bptree_search` of `src/bptree.c` on a well-formed tree
insert into and look up a sorted list of entries; neither can get stuck. A run of
insertions keeps for every key the offset that was inserted first.
-/

namespace SqlProc.Index

open Support

/-- The heap of a tree stores the library tree `t`, unshared, ordered and filled. -/
structure Stores (tree : BPlusTree) (n : Nat) (t : BPlus Int Int n) : Prop where
  root : tree.root = some (BPlus.label n t)
  holds : Holds tree.heap n t none
  unshared : (BPlus.labels n t).Nodup
  ordered : BPlus.Ordered n t
  filled : BPlus.Filled bptreeMaxKeys 0 n t

/-- The tree is well formed and holds the entries, in the order of their keys. -/
inductive Represents (tree : BPlusTree) : List (Int × Int) → Prop
  | empty (h : tree.root = none) : Represents tree []
  | stored (n : Nat) (t : BPlus Int Int n) (h : Stores tree n t) :
      Represents tree (BPlus.entries n t)

theorem Represents.sortedKeys {tree : BPlusTree} {es : List (Int × Int)}
    (h : Represents tree es) : SortedKeys es := by
  cases h with
  | empty => exact List.Pairwise.nil
  | stored n t hs => exact BPlus.sortedKeys_entries hs.ordered

theorem Stores.length_labels_le {tree : BPlusTree} {n : Nat} {t : BPlus Int Int n}
    (h : Stores tree n t) : (BPlus.labels n t).length ≤ tree.heap.nodes.length := by
  have hsub : BPlus.labels n t ⊆ List.range tree.heap.nodes.length := fun a ha ↦
    List.mem_range.mpr (h.holds.lt a ha)
  have hle := (h.unshared.subperm hsub).length_le
  rwa [List.length_range] at hle

/-- The fuel of the recursive functions, the number of nodes, exceeds the depth. -/
theorem Stores.depth_lt {tree : BPlusTree} {n : Nat} {t : BPlus Int Int n}
    (h : Stores tree n t) : n < tree.heap.nodes.length :=
  Nat.lt_of_lt_of_le (BPlus.lt_length_labels n t) h.length_labels_le

/-- `bptree_create` gives the empty map. -/
theorem represents_create (calloc : Nat → Bool) : Represents (bptreeCreate calloc) [] :=
  .empty rfl

/-! ### Insertion -/

/-- The tree that `bptree_insert` starts from stores the same entries. -/
theorem rootOrEmptyLeaf_spec {tree : BPlusTree} {es : List (Int × Int)}
    (hca : ∀ i, tree.heap.calloc i = true) (h : Represents tree es) :
    ∃ root heap n t, rootOrEmptyLeaf tree = some (root, heap) ∧ Stores ⟨some root, heap⟩ n t ∧
      BPlus.entries n t = es ∧ heap.calloc = tree.heap.calloc := by
  cases h with
  | empty hr =>
    refine ⟨tree.heap.nodes.length, tree.heap.alloc (.leaf [] none), 0,
      Leaf.mk tree.heap.nodes.length [], ?_, ⟨rfl, ?_, ?_, ?_, ?_⟩, rfl, ?_⟩
    · rw [rootOrEmptyLeaf, hr]
      exact tree.heap.createNode_eq hca _
    · change (tree.heap.nodes ++ [_])[_]? = _
      simp
    · exact List.pairwise_singleton _ _
    · exact List.Pairwise.nil
    · exact ⟨Nat.le_refl _, Nat.zero_le _⟩
    · rfl
  | stored n t hs =>
    refine ⟨BPlus.label n t, tree.heap, n, t, ?_, ⟨rfl, hs.holds, hs.unshared, hs.ordered,
      hs.filled⟩, rfl, rfl⟩
    rw [rootOrEmptyLeaf, hs.root]

/-- Fresh labels are no labels of a stored tree. -/
private theorem nodup_labels_fresh {h : Heap} {n : Nat} {t : BPlus Int Int n}
    {exit : Option NodePtr} (hh : Holds h n t exit) (hnd : (BPlus.labels n t).Nodup) (k : Nat) :
    (BPlus.labels n t ++ List.range' h.nodes.length k).Nodup := by
  refine List.nodup_append.mpr ⟨hnd, List.nodup_range', ?_⟩
  rintro a ha _ hb rfl
  exact absurd (hh.lt a ha) (Nat.not_lt.mpr (List.mem_range'_1.mp hb).1)

/-- The tree whose new root has the two halves of the old one as its children. -/
def grow (h : Heap) (s : Int) (left right : NodePtr) : BPlusTree :=
  ⟨some h.nodes.length,
    (h.alloc (.internal [])).set h.nodes.length ⟨[s], .internal [left, right]⟩⟩

/-- A root that was split becomes the first child of a new root. -/
theorem stores_newRoot {h : Heap} {n : Nat} {l r : BPlus Int Int n} {s : Int}
    (hl : Holds h n l (some (BPlus.firstLeaf n r))) (hr : Holds h n r none)
    (hnd : (BPlus.labels n l ++ BPlus.labels n r).Nodup)
    (ho : BPlus.Ordered n l ∧ BPlus.Ordered n r)
    (hs : (∀ e ∈ BPlus.entries n l, e.1 < s) ∧ ∀ e ∈ BPlus.entries n r, s ≤ e.1)
    (hf : BPlus.Filled bptreeMaxKeys 2 n l ∧ BPlus.Filled bptreeMaxKeys 2 n r) :
    Stores (grow h s (BPlus.label n l) (BPlus.label n r)) (n + 1)
      (Branch.mk h.nodes.length l [(s, r)]) := by
  have hframe : ∀ a < h.nodes.length,
      (grow h s (BPlus.label n l) (BPlus.label n r)).heap.get a = h.get a := by
    intro a ha
    exact (Heap.get_set_ne _ (Nat.ne_of_lt ha) _).trans (h.get_alloc ha _)
  refine ⟨rfl, ⟨?_, ?_, ?_⟩, ?_, ⟨ho.1, ?_, hs.1, hs.2, ?_, trivial⟩, ?_, ?_, hf.1, ?_⟩
  · exact Heap.get_set_self _ (by simp) _
  · exact hl.congr fun a ha ↦ hframe a (hl.lt a ha)
  · exact hr.congr fun a ha ↦ hframe a (hr.lt a ha)
  · change (h.nodes.length :: forest (BPlus.labels n) l [(s, r)]).Nodup
    rw [forest_cons, forest_nil]
    refine List.nodup_cons.mpr ⟨fun hm ↦ ?_, hnd⟩
    rcases List.mem_append.mp hm with hm | hm
    · exact absurd (hl.lt _ hm) (Nat.lt_irrefl _)
    · exact absurd (hr.lt _ hm) (Nat.lt_irrefl _)
  · intro e he
    rw [List.mem_singleton.mp he]
    exact ho.2
  · intro d hd
    cases hd
  · exact Nat.le_refl _
  · exact Nat.le_of_ble_eq_true rfl
  · intro e he
    rw [List.mem_singleton.mp he]
    exact hf.2

/-- `bptree_insert` on a well-formed tree returns 1 and adds the entry when the key is new,
and returns 0 and changes no entry when it is there. -/
theorem bptreeInsert_spec {tree : BPlusTree} {es : List (Int × Int)}
    (hca : ∀ i, tree.heap.calloc i = true) (h : Represents tree es) (key offset : Int) :
    ∃ tree', bptreeInsert tree key offset = some (tree', (findEntry key es).isNone) ∧
      tree'.heap.calloc = tree.heap.calloc ∧
      Represents tree' (insertNew key offset es) := by
  obtain ⟨root, heap, n, t, hroot, hst, rfl, hcal⟩ := rootOrEmptyLeaf_spec hca h
  have hca' : ∀ i, heap.calloc i = true := fun i ↦ by rw [hcal]; exact hca i
  have hlabel : root = BPlus.label n t := Option.some.inj hst.root
  have hreal := insertRecursive_realizes hca' hst.depth_lt key offset hst.holds hst.unshared
  have hspec := BPlus.insert_spec (by decide) key offset heap.nodes.length hst.ordered hst.filled
  have hlab := BPlus.insert_labels bptreeMaxKeys key offset n heap.nodes.length t
  have hsorted := BPlus.sortedKeys_entries hst.ordered
  subst hlabel
  simp only [bptreeInsert, hroot]
  cases hi : BPlus.insert bptreeMaxKeys key offset n heap.nodes.length t with
  | duplicate =>
    rw [hi] at hreal hspec
    obtain ⟨w, hw⟩ := hspec
    have hfind := (findEntry_eq_some_iff hsorted).mpr hw
    simp only [Realizes] at hreal
    refine ⟨⟨some (BPlus.label n t), heap⟩, ?_, hcal, ?_⟩
    · rw [hreal, hfind]
      rfl
    · rw [insertNew, hfind]
      exact .stored n t hst
  | done t' next =>
    rw [hi] at hreal hspec hlab
    obtain ⟨heap', r, hout, ⟨hs, hd, hf⟩, hu, hh⟩ := hreal
    obtain ⟨hk, he, ho, hfill⟩ := hspec
    obtain ⟨-, hperm, hl, -⟩ := hlab
    have hfind := (findEntry_eq_none_iff hsorted).mpr hk
    refine ⟨⟨some (BPlus.label n t), heap'⟩, ?_, hu.calloc.trans hcal, ?_⟩
    · simp [hout, hs, hd, hf, hfind]
    · rw [insertNew, hfind]
      simp only [Option.isNone_none, if_true]
      rw [← he]
      refine .stored n t' ⟨by rw [hl], hh, ?_, ho, hfill⟩
      exact hperm.nodup_iff.mpr (nodup_labels_fresh hst.holds hst.unshared _)
  | split l s r next =>
    rw [hi] at hreal hspec hlab
    obtain ⟨heap', hout, hu, hhl, hhr⟩ := hreal
    obtain ⟨hk, he, ho, hsep, hfill⟩ := hspec
    obtain ⟨-, hperm, hl, -⟩ := hlab
    have hfind := (findEntry_eq_none_iff hsorted).mpr hk
    have hnew := stores_newRoot hhl hhr
      (hperm.nodup_iff.mpr (nodup_labels_fresh hst.holds hst.unshared _)) ho hsep hfill
    have hca'' : ∀ i, heap'.calloc i = true := fun i ↦ by rw [hu.calloc]; exact hca' i
    rw [hl] at hnew
    refine ⟨grow heap' s (BPlus.label n t) (BPlus.label n r), ?_, hu.calloc.trans hcal, ?_⟩
    · simp [hout, InsertResult.zero, heap'.createNode_eq hca'', hfind, grow]
    · rw [insertNew, hfind]
      simp only [Option.isNone_none, if_true]
      rw [← he]
      have hent : BPlus.entries (n + 1) (Branch.mk heap'.nodes.length l [(s, r)]) =
          BPlus.entries n l ++ BPlus.entries n r := by
        change forest _ _ _ = _
        rw [forest_cons, forest_nil]
      rw [← hent]
      exact .stored (n + 1) _ hnew

/-! ### Search -/

/-- The descent of `find_leaf` and `bptree_search` ends at the leaf responsible for the key. -/
theorem descendToLeaf_spec {h : Heap} {n fuel : Nat} (hfuel : n < fuel) {t : BPlus Int Int n}
    {exit : Option NodePtr} (hh : Holds h n t exit) (key : Int) :
    descendToLeaf fuel h (BPlus.label n t) key = some (BPlus.leafFor key n t).label ∧
      ∃ ex, Holds h 0 (BPlus.leafFor key n t) ex := by
  induction n generalizing fuel exit with
  | zero =>
    obtain ⟨fuel, rfl⟩ : ∃ f, fuel = f + 1 := ⟨fuel - 1, by omega⟩
    have hg : h.get (BPlus.label 0 t) = some _ := hh
    rw [descendToLeaf, hg]
    exact ⟨rfl, exit, hh⟩
  | succ n ih =>
    obtain ⟨fuel, rfl⟩ : ∃ f, fuel = f + 1 := ⟨fuel - 1, by omega⟩
    have hg : h.get (BPlus.label (n + 1) t) = some _ := hh.1
    obtain ⟨ex, hc⟩ := hh.child _ (descend_mem key _ _)
    simp only [descendToLeaf, hg, getElem?_findChildPosition (BPlus.label n) key]
    exact ih (by omega) hc

/-- `bptree_search` on a well-formed tree looks the key up among the entries. -/
theorem bptreeSearch_spec {tree : BPlusTree} {es : List (Int × Int)} (h : Represents tree es)
    (key : Int) : bptreeSearch tree key = some (findEntry key es) := by
  cases h with
  | empty hr =>
    rw [bptreeSearch, hr]
    rfl
  | stored n t hs =>
    obtain ⟨hd, ex, hleaf⟩ := descendToLeaf_spec hs.depth_lt hs.holds key
    have hg : tree.heap.get (BPlus.leafFor key n t).label = some _ := hleaf
    simp only [bptreeSearch, hs.root, hd, hg, getElem?_findLeafPosition,
      ← BPlus.findEntry_leafFor hs.ordered]
    cases hf : findEntry key (BPlus.leafFor key n t).entries with
    | none => rfl
    | some v =>
      rw [getElem?_offset key _ hf]
      rfl

/-! ### Runs of insertions -/

/-- Calls of `bptree_insert` one after the other: the tree they leave and their return
values. -/
def insertAll (tree : BPlusTree) : List (Int × Int) → Option (BPlusTree × List Bool)
  | [] => some (tree, [])
  | (key, offset) :: calls =>
    match bptreeInsert tree key offset with
    | none => none
    | some (tree, inserted) =>
      match insertAll tree calls with
      | none => none
      | some (tree, returned) => some (tree, inserted :: returned)

/-- A run from a well-formed tree: which calls return 1, and what the tree holds then. -/
theorem insertAll_spec {tree : BPlusTree} {es : List (Int × Int)}
    (hca : ∀ i, tree.heap.calloc i = true) (h : Represents tree es) (calls : List (Int × Int)) :
    ∃ tree' returned es', insertAll tree calls = some (tree', returned) ∧
      Represents tree' es' ∧ returned.length = calls.length ∧
      (∀ i call, calls[i]? = some call → returned[i]? =
        some ((findEntry call.1 es).isNone && decide (∀ e ∈ calls.take i, e.1 ≠ call.1))) ∧
      ∀ k, findEntry k es' = (findEntry k es).or ((calls.find? (·.1 = k)).map Prod.snd) := by
  induction calls generalizing tree es with
  | nil => exact ⟨tree, [], es, rfl, h, rfl, by simp, by simp⟩
  | cons call calls ih =>
    obtain ⟨key, offset⟩ := call
    obtain ⟨tree₁, hins, hcal, hrep⟩ := bptreeInsert_spec hca h key offset
    obtain ⟨tree', returned, es', hrun, hrep', hlen, hret, hfind⟩ :=
      ih (fun i ↦ by rw [hcal]; exact hca i) hrep
    refine ⟨tree', (findEntry key es).isNone :: returned, es', ?_, hrep', by simp [hlen], ?_, ?_⟩
    · rw [insertAll, hins]
      simp only [hrun]
    · intro i c hc
      cases i with
      | zero =>
        obtain rfl : (key, offset) = c := by simpa using hc
        simp
      | succ i =>
        rw [List.getElem?_cons_succ, hret i c (by simpa using hc),
          findEntry_insertNew h.sortedKeys, List.take_succ_cons, Option.some.injEq,
          Bool.eq_iff_iff, Bool.and_eq_true, Bool.and_eq_true, decide_eq_true_eq,
          decide_eq_true_eq, List.forall_mem_cons]
        by_cases hk : key = c.1
        · simp [hk]
        · simp [hk]
    · intro k
      rw [hfind, findEntry_insertNew h.sortedKeys, Option.or_assoc, List.find?_cons]
      by_cases hk : key = k
      · simp [hk]
      · simp [hk]

/-- From an empty tree, a call returns 1 exactly when its key was not inserted before, and
search finds for every key the offset of its first insertion. -/
theorem insertAll_firstWins {calloc : Nat → Bool} (hca : ∀ i, calloc i = true)
    (calls : List (Int × Int)) :
    ∃ tree returned, insertAll (bptreeCreate calloc) calls = some (tree, returned) ∧
      returned.length = calls.length ∧
      (∀ i call, calls[i]? = some call →
        returned[i]? = some (decide (∀ earlier ∈ calls.take i, earlier.1 ≠ call.1))) ∧
      ∀ k, bptreeSearch tree k = some ((calls.find? (·.1 = k)).map Prod.snd) := by
  obtain ⟨tree, returned, es, hrun, hrep, hlen, hret, hfind⟩ :=
    insertAll_spec hca (represents_create calloc) calls
  refine ⟨tree, returned, hrun, hlen, fun i call hc ↦ ?_, fun k ↦ ?_⟩
  · rw [hret i call hc]
    rfl
  · rw [bptreeSearch_spec hrep, hfind]
    rfl

theorem insertAll_firstWins_split :
    ∃ tree returned, insertAll (bptreeCreate fun _ ↦ true)
        [(20, 0), (10, 9), (30, 18), (20, 27), (-5, 36)] = some (tree, returned) ∧
      returned.length = 5 ∧ bptreeSearch tree 20 = some (some 0) := by
  obtain ⟨tree, returned, hrun, hlen, -, hsearch⟩ := insertAll_firstWins
    (fun _ ↦ rfl) [(20, 0), (10, 9), (30, 18), (20, 27), (-5, 36)]
  exact ⟨tree, returned, hrun, hlen, hsearch 20⟩

end SqlProc.Index
