import SqlProc.Index.Grow

/-!
# The memory of a tree over a run of insertions

Library `Index`. Whatever allocations fail in the calls of `bptree_insert` of `src/bptree.c`,
later calls, searches, walks and `bptree_destroy` only follow pointers to allocated nodes and come
to an end, and no node is freed twice. What a run can lose is memory.
-/

namespace SqlProc.Index

/-! ### The tree -/

/-- The links of a tree, and the nodes that it has lost. -/
structure Owns (tree : BPlusTree) (lost : List NodePtr) : Prop where
  sound : tree.heap.Sound
  empty : tree.root = none → tree.heap.nodes = [] ∧ lost = []
  stored : ∀ root, tree.root = some root → ∃ n, Stands tree.heap n root ∧
    (nodesBelow tree.heap n root ++ lost).Perm (List.range tree.heap.nodes.length)

theorem owns_create (calloc : Nat → Bool) : Owns (bptreeCreate calloc) [] := by
  refine ⟨⟨?_, none, [], rfl, List.nodup_nil, ?_⟩, fun _ ↦ ⟨rfl, rfl⟩, ?_⟩
  · intro p node hp
    simp [bptreeCreate, Heap.get] at hp
  · intro p keys offsets next hp
    simp [bptreeCreate, Heap.get] at hp
  · intro root hr
    cases hr

/-- There are fewer levels below the root than nodes. -/
theorem Owns.depth_lt {h : Heap} {n : Nat} {root : NodePtr} {lost : List NodePtr}
    (hst : Stands h n root)
    (hperm : (nodesBelow h n root ++ lost).Perm (List.range h.nodes.length)) :
    n < h.nodes.length := by
  have hlen := hperm.length_eq
  have hlt := hst.lt_length
  rw [List.length_append, List.length_range] at hlen
  omega

theorem nodup_nodesBelow {h : Heap} {n : Nat} {root : NodePtr} {lost : List NodePtr}
    (hperm : (nodesBelow h n root ++ lost).Perm (List.range h.nodes.length)) :
    (nodesBelow h n root).Nodup :=
  (List.nodup_append.mp (hperm.nodup_iff.mpr List.nodup_range)).1

/-- The nodes below the root after an insertion below it. -/
theorem perm_after {h h' : Heap} {n : Nat} {root : NodePtr} {r : InsertResult}
    {lost : List NodePtr} (hg : Grows h h' n root r)
    (hperm : (nodesBelow h n root ++ lost).Perm (List.range h.nodes.length)) :
    ∃ more, (nodesBelow h' n root ++ rightNodes h' n r ++ (lost ++ more)).Perm
        (List.range h'.nodes.length) ∧
      (more = [] ↔ ((r.duplicate || r.failed) = true →
        h'.nodes.length = h.nodes.length)) := by
  obtain ⟨more, hnodes, hmore⟩ := hg.nodes
  refine ⟨more, ?_, hmore⟩
  have hrange : List.range h'.nodes.length = List.range h.nodes.length ++ fresh h h' := by
    have hadd := Nat.add_sub_cancel' hg.le
    rw [fresh, ← hadd, List.range_eq_range', List.range_eq_range', Nat.add_sub_cancel_left,
      ← List.range'_append_1, Nat.zero_add]
  rw [hrange, List.perm_iff_count]
  intro a
  have hold := hperm.count_eq a
  have hnew := hnodes.count_eq a
  simp only [List.count_append] at hold hnew ⊢
  omega

/-- A root over the old one and its right half. -/
theorem stands_newRoot {h : Heap} {n : Nat} {root right : NodePtr} (hst : Stands h n root)
    (hstr : Stands h n right) (promotedKey : Int) :
    Stands ((h.alloc (.internal [])).set h.nodes.length ⟨[promotedKey], .internal [root, right]⟩)
        (n + 1) h.nodes.length ∧
      nodesBelow ((h.alloc (.internal [])).set h.nodes.length
          ⟨[promotedKey], .internal [root, right]⟩) (n + 1) h.nodes.length =
        nodesBelow h n root ++ nodesBelow h n right ++ [h.nodes.length] := by
  have hget := h.get_set_alloc (.internal []) ⟨[promotedKey], .internal [root, right]⟩
  have hnew : ∀ {c}, Stands h n c → Stands h n c ∧ h.nodes.length ∉ nodesBelow h n c := by
    intro c hc
    exact ⟨hc, fun hm ↦ Nat.lt_irrefl _ (hc.lt _ hm)⟩
  obtain ⟨hs, hn⟩ := @stands_written h _ n h.nodes.length h.nodes.length [promotedKey]
    [root, right]
    (fun a ha hne ↦ by rw [hget, if_neg hne])
    (by
      intro c hc
      rcases List.mem_cons.mp hc with rfl | hc
      · exact hnew hst
      · rw [List.mem_singleton.mp hc]
        exact hnew hstr)
    (by rw [hget, if_pos rfl]) rfl
  refine ⟨hs, hn.trans ?_⟩
  simp

theorem sound_newRoot {h : Heap} (hs : h.Sound) (promotedKey : Int) (root right : NodePtr) :
    ((h.alloc (.internal [])).set h.nodes.length
      ⟨[promotedKey], .internal [root, right]⟩).Sound := by
  have hget := h.get_set_alloc (.internal []) ⟨[promotedKey], .internal [root, right]⟩
  apply hs.of_internal
  · intro p node hp
    rw [hget] at hp
    split at hp
    · rw [← Option.some.inj hp]
      exact ⟨Nat.le_add_left 1 2, rfl⟩
    · exact hs.fits p node hp
  · intro p keys offsets next
    rw [hget]
    split
    · next he =>
      rw [he, Heap.get, List.getElem?_eq_none (Nat.le_refl _)]
      simp
    · rfl

/-- An insertion into a tree that has a root. -/
theorem insertFrom_owns {h : Heap} {root : NodePtr} {lost : List NodePtr}
    (ho : Owns ⟨some root, h⟩ lost) (key offset : Int) :
    ∃ after inserted more, insertFrom root h key offset = some (after, inserted) ∧
      Owns after (lost ++ more) ∧ h.nodes.length ≤ after.heap.nodes.length ∧
      (more = [] ↔ (inserted = false → after.heap.nodes.length = h.nodes.length)) := by
  obtain ⟨n, hst, hperm⟩ := ho.stored root rfl
  obtain ⟨h', r, hrun, hg⟩ := insertRecursive_grows ho.sound (Owns.depth_lt hst hperm) hst
    (nodup_nodesBelow hperm) key offset
  obtain ⟨more, hafter, hmore⟩ := perm_after hg hperm
  unfold insertFrom
  simp only [hrun]
  cases hs : r.split with
  | false =>
    rw [rightNodes_of_none (hg.whole hs), List.append_nil] at hafter
    have hown : Owns ⟨some root, h'⟩ (lost ++ more) := by
      refine ⟨hg.sound, fun hr ↦ ?_, fun root' hr ↦ ?_⟩
      · cases hr
      · cases hr
        exact ⟨n, hg.stands, hafter⟩
    cases hd : (r.duplicate || r.failed) with
    | true =>
      refine ⟨_, false, more, by simp, hown, hg.le, ?_⟩
      rw [hmore, hd]
      simp
    | false =>
      refine ⟨_, true, more, by simp, hown, hg.le, ?_⟩
      rw [hmore, hd]
      simp
  | true =>
    obtain ⟨hd, hf, hlt, right, hr, hstr⟩ := hg.split hs
    rw [rightNodes_of_some hr] at hafter
    obtain rfl : more = [] := hmore.mpr (by simp [hd, hf])
    rw [List.append_nil] at hafter
    simp only [hd, hf, hr, Bool.or_self, Bool.false_eq_true, if_false, if_true]
    cases hc : h'.calloc h'.nodes.length with
    | false =>
      rw [createNode_of_not_calloc hc]
      refine ⟨_, _, nodesBelow h' n right, rfl, ⟨hg.sound, fun hr ↦ ?_, fun root' hr ↦ ?_⟩,
        hg.le, ?_⟩
      · cases hr
      · cases hr
        refine ⟨n, hg.stands, ?_⟩
        rw [List.perm_iff_count]
        intro a
        have hcount := hafter.count_eq a
        simp only [List.count_append] at hcount ⊢
        omega
      · constructor
        · intro he
          exact absurd he (List.ne_nil_of_mem (self_mem_nodesBelow h' n right))
        · intro he
          exact absurd (he rfl) (Nat.ne_of_gt hlt)
    | true =>
      rw [createNode_of_calloc hc]
      obtain ⟨hstand, hnodes⟩ := stands_newRoot hg.stands hstr r.promotedKey
      refine ⟨_, _, [], rfl, ⟨sound_newRoot hg.sound _ _ _, fun hr ↦ ?_, fun root' hr ↦ ?_⟩,
        ?_, by simp⟩
      · cases hr
      · cases hr
        refine ⟨n + 1, hstand, ?_⟩
        rw [hnodes, Heap.length_nodes_set, Heap.length_nodes_alloc, List.range_succ,
          List.perm_iff_count]
        intro a
        have hcount := hafter.count_eq a
        simp only [List.count_append, List.append_nil] at hcount ⊢
        omega
      · simp only [Heap.length_nodes_set, Heap.length_nodes_alloc]
        exact Nat.le_succ_of_le hg.le

/-- The first leaf of a tree. -/
theorem owns_firstLeaf {h : Heap} (hn : h.nodes = []) :
    Owns ⟨some h.nodes.length, h.alloc (.leaf [] none)⟩ [] := by
  have hget : ∀ p, (h.alloc (.leaf [] none)).get p =
      if p = 0 then some ⟨[], .leaf [] none⟩ else none := by
    intro p
    cases p with
    | zero => simp [Heap.get, Heap.alloc, hn]
    | succ p => simp [Heap.get, Heap.alloc, hn]
  have hroot : (h.alloc (.leaf [] none)).get h.nodes.length = some ⟨[], .leaf [] none⟩ := by
    rw [hget, hn, List.length_nil, if_pos rfl]
  refine ⟨⟨?_, some h.nodes.length, [h.nodes.length], ⟨rfl, [], [], none, hroot, rfl⟩,
    List.nodup_singleton _, ?_⟩, fun hr ↦ ?_, fun root hr ↦ ?_⟩
  · intro p node hp
    rw [hget] at hp
    split at hp
    · rw [← Option.some.inj hp]
      exact ⟨Nat.zero_le _, rfl⟩
    · cases hp
  · intro p keys offsets next hp
    rw [hget] at hp
    split at hp
    · next he => simp [he, hn]
    · cases hp
  · cases hr
  · cases hr
    refine ⟨0, ⟨[], [], none, hroot⟩, ?_⟩
    simp [nodesBelow, hn]

/-- The first insertion into a new leaf succeeds. -/
theorem insertFrom_firstLeaf {h : Heap} (hn : h.nodes = []) (key offset : Int) :
    ∃ after, insertFrom h.nodes.length (h.alloc (.leaf [] none)) key offset =
      some (after, true) := by
  have hroot : (h.alloc (.leaf [] none)).get 0 = some ⟨[], .leaf [] none⟩ := by
    simp [Heap.get, Heap.alloc, hn]
  simp [insertFrom, insertRecursive, hn, hroot, insertIntoLeaf, InsertResult.zero]

/-- One call of `bptree_insert`: the nodes that it loses are none exactly when it has inserted
the entry or allocated nothing. -/
theorem bptreeInsert_owns {tree : BPlusTree} {lost : List NodePtr} (ho : Owns tree lost)
    (key offset : Int) :
    ∃ after inserted more, bptreeInsert tree key offset = some (after, inserted) ∧
      Owns after (lost ++ more) ∧
      (more = [] ↔ (inserted = false →
        after.heap.nodes.length - tree.heap.nodes.length = 0)) := by
  obtain ⟨root, h⟩ := tree
  cases root with
  | some root =>
    obtain ⟨after, inserted, more, hrun, hown, hle, hmore⟩ := insertFrom_owns ho key offset
    refine ⟨after, inserted, more, ?_, hown, ?_⟩
    · rw [bptreeInsert_eq_insertFrom rfl, hrun]
    · have hsame : after.heap.nodes.length - h.nodes.length = 0 ↔
          after.heap.nodes.length = h.nodes.length := by
        omega
      rw [hmore, hsame]
  | none =>
    obtain ⟨hn, rfl⟩ := ho.empty rfl
    cases hc : h.calloc h.nodes.length with
    | false =>
      have hroot : rootOrEmptyLeaf ⟨none, h⟩ = none := createNode_of_not_calloc hc _
      refine ⟨⟨none, h⟩, false, [], ?_, ho, by simp⟩
      simp only [bptreeInsert, hroot]
    | true =>
      have hroot : rootOrEmptyLeaf ⟨none, h⟩ =
          some (h.nodes.length, h.alloc (.leaf [] none)) := createNode_of_calloc hc _
      obtain ⟨after, inserted, more, hrun, hown, -, hmore⟩ :=
        insertFrom_owns (owns_firstLeaf hn) key offset
      obtain ⟨after', hrun'⟩ := insertFrom_firstLeaf hn key offset
      rw [hrun] at hrun'
      obtain ⟨-, rfl⟩ := Prod.mk.inj (Option.some.inj hrun')
      refine ⟨after, true, more, ?_, hown, ?_⟩
      · rw [bptreeInsert_eq_insertFrom hroot, hrun]
      · rw [hmore]
        simp

theorem Owns.withCalloc {tree : BPlusTree} {lost : List NodePtr} (ho : Owns tree lost)
    (calloc : Nat → Bool) : Owns (tree.withCalloc calloc) lost := by
  obtain ⟨start, leaves, hc, hnd, hall⟩ := ho.sound.chained
  refine ⟨⟨ho.sound.fits, start, leaves, hc.congr fun _ _ ↦ rfl, hnd, hall⟩, ho.empty, ?_⟩
  intro root hr
  obtain ⟨n, hst, hperm⟩ := ho.stored root hr
  refine ⟨n, hst.congr fun _ _ ↦ rfl, ?_⟩
  have heq : nodesBelow (tree.withCalloc calloc).heap n root = nodesBelow tree.heap n root :=
    nodesBelow_congr fun _ _ ↦ rfl
  rw [heq]
  exact hperm

/-! ### Reading the tree -/

/-- The chain is no longer than there are nodes. -/
theorem FollowsNext.length_le {h : Heap} {start : Option NodePtr} {leaves : List NodePtr}
    (hc : FollowsNext h start leaves) (hnd : leaves.Nodup) :
    leaves.length ≤ h.nodes.length := by
  have hsub : leaves.Subperm (List.range h.nodes.length) :=
    List.subperm_of_subset hnd fun a ha ↦ List.mem_range.mpr (hc.lt a ha)
  have hle := hsub.length_le
  rwa [List.length_range] at hle

/-- The chain from a leaf on, which a walk can follow to its end. -/
theorem Heap.Sound.chain {h : Heap} (hs : h.Sound) {leaf : NodePtr} {keys offsets : List Int}
    {next : Option NodePtr} (hg : h.get leaf = some ⟨keys, .leaf offsets next⟩) :
    ∃ leaves, FollowsNext h (some leaf) leaves ∧ leaves.length ≤ h.nodes.length := by
  obtain ⟨start, before, after, hc, -, hnd, -⟩ := hs.around hg
  exact ⟨leaf :: after, hc.suffix, hc.suffix.length_le (List.nodup_append.mp hnd).2.1⟩

section Walks

variable {σ : Type} (visit : BptreeVisitFn σ)

theorem isSome_visitFrom {h : Heap} {start : Option NodePtr} {leaves : List NodePtr}
    {fuel : Nat} (hc : FollowsNext h start leaves) (hfuel : leaves.length ≤ fuel)
    (position : Nat) (userData : σ) :
    (visitFrom visit fuel h start position userData).isSome = true := by
  induction leaves generalizing start fuel position userData with
  | nil =>
    obtain rfl : start = none := hc
    cases fuel with
    | zero => rfl
    | succ fuel => rfl
  | cons leaf leaves ih =>
    obtain ⟨rfl, keys, offsets, next, hg, hc⟩ := hc
    obtain ⟨fuel, rfl⟩ : ∃ f, fuel = f + 1 := ⟨fuel - 1, by simp at hfuel; omega⟩
    simp only [visitFrom, hg]
    split
    · rfl
    · exact ih hc (Nat.le_of_succ_le_succ hfuel) _ _

theorem isSome_visitBelow {h : Heap} {start : Option NodePtr} {leaves : List NodePtr}
    {fuel : Nat} (hc : FollowsNext h start leaves) (hfuel : leaves.length ≤ fuel)
    (key : Int) (userData : σ) : (visitBelow visit key fuel h start userData).isSome = true := by
  induction leaves generalizing start fuel userData with
  | nil =>
    obtain rfl : start = none := hc
    cases fuel with
    | zero => rfl
    | succ fuel => rfl
  | cons leaf leaves ih =>
    obtain ⟨rfl, keys, offsets, next, hg, hc⟩ := hc
    obtain ⟨fuel, rfl⟩ : ∃ f, fuel = f + 1 := ⟨fuel - 1, by simp at hfuel; omega⟩
    simp only [visitBelow, hg]
    split
    · rfl
    · exact ih hc (Nat.le_of_succ_le_succ hfuel) _

variable {tree : BPlusTree} {lost : List NodePtr} (ho : Owns tree lost) (key : Int) (userData : σ)
include ho

theorem Owns.isSome_visitGreaterThan :
    (bptreeVisitGreaterThan tree key visit userData).isSome = true := by
  unfold bptreeVisitGreaterThan findLeaf
  cases hr : tree.root with
  | none => rfl
  | some root =>
    obtain ⟨n, hst, hperm⟩ := ho.stored root hr
    obtain ⟨leaf, keys, offsets, next, hd, hg⟩ :=
      hst.descendToLeaf (Owns.depth_lt hst hperm) key
    obtain ⟨leaves, hc, hlen⟩ := ho.sound.chain hg
    simp only [hd, Option.map_some, hg]
    exact isSome_visitFrom visit hc hlen _ userData

theorem Owns.isSome_visitLessThan :
    (bptreeVisitLessThan tree key visit userData).isSome = true := by
  unfold bptreeVisitLessThan leftmostLeaf
  cases hr : tree.root with
  | none =>
    have hc : FollowsNext tree.heap none [] := rfl
    exact isSome_visitBelow visit hc (Nat.zero_le _) key userData
  | some root =>
    obtain ⟨n, hst, hperm⟩ := ho.stored root hr
    obtain ⟨leaf, keys, offsets, next, hd, hg⟩ :=
      hst.descendLeftmost (Owns.depth_lt hst hperm)
    obtain ⟨leaves, hc, hlen⟩ := ho.sound.chain hg
    simp only [hd, Option.map_some]
    exact isSome_visitBelow visit hc hlen key userData

omit visit userData in
theorem Owns.isSome_search : (bptreeSearch tree key).isSome = true := by
  unfold bptreeSearch
  cases hr : tree.root with
  | none => rfl
  | some root =>
    obtain ⟨n, hst, hperm⟩ := ho.stored root hr
    obtain ⟨leaf, keys, offsets, next, hd, hg⟩ :=
      hst.descendToLeaf (Owns.depth_lt hst hperm) key
    simp only [hd, hg]
    split
    · rfl
    · rfl

end Walks

/-! ### Releasing the tree -/

/-- `bptree_destroy` frees every node that is not lost, once. -/
theorem Owns.destroy {tree : BPlusTree} {lost : List NodePtr} (ho : Owns tree lost) :
    ∃ freed, bptreeDestroy tree = some freed ∧
      (freed ++ lost).Perm (List.range tree.heap.nodes.length) := by
  unfold bptreeDestroy
  cases hr : tree.root with
  | none =>
    obtain ⟨hn, rfl⟩ := ho.empty hr
    exact ⟨[], rfl, by simp [hn]⟩
  | some root =>
    obtain ⟨n, hst, hperm⟩ := ho.stored root hr
    refine ⟨nodesBelow tree.heap n root, ?_, hperm⟩
    exact destroyNode_eq hst (Owns.depth_lt hst hperm) (nodup_nodesBelow hperm)

/-! ### Runs -/

/-- A call of `bptree_insert`, with the allocations that succeed in it. -/
structure InsertCall where
  key : Int
  offset : Int
  calloc : Nat → Bool

/-- What a call has returned, and how many nodes it has allocated. -/
structure InsertOutcome where
  inserted : Bool
  allocated : Nat
  deriving DecidableEq, Repr

/-- The calls of a run, one after the other. -/
def insertEach : BPlusTree → List InsertCall → Option (BPlusTree × List InsertOutcome)
  | tree, [] => some (tree, [])
  | tree, call :: calls =>
    match bptreeInsert (tree.withCalloc call.calloc) call.key call.offset with
    | none => none
    | some (after, inserted) =>
      match insertEach after calls with
      | none => none
      | some (last, outcomes) =>
        some (last, ⟨inserted, after.heap.nodes.length - tree.heap.nodes.length⟩ :: outcomes)

/-- A run loses nodes exactly when one of its calls fails after an allocation. -/
theorem insertEach_owns {tree : BPlusTree} {lost : List NodePtr} (ho : Owns tree lost)
    (calls : List InsertCall) :
    ∃ last outcomes more, insertEach tree calls = some (last, outcomes) ∧
      Owns last (lost ++ more) ∧
      (more = [] ↔ ∀ o ∈ outcomes, o.inserted = false → o.allocated = 0) := by
  induction calls generalizing tree lost with
  | nil => exact ⟨tree, [], [], rfl, by rwa [List.append_nil], by simp⟩
  | cons call calls ih =>
    obtain ⟨after, inserted, first, hcall, hown, hfirst⟩ :=
      bptreeInsert_owns (ho.withCalloc call.calloc) call.key call.offset
    obtain ⟨last, outcomes, more, hrun, hlast, hmore⟩ := ih hown
    refine ⟨last, ⟨inserted, after.heap.nodes.length - tree.heap.nodes.length⟩ :: outcomes,
      first ++ more, ?_, ?_, ?_⟩
    · simp only [insertEach, hcall, hrun]
    · rwa [← List.append_assoc]
    · rw [List.append_eq_nil_iff, hfirst, hmore, List.forall_mem_cons]
      rfl

/-- Whatever allocations fail in a run of insertions, every node fits its arrays, searches and
walks come to an end without a dangling pointer, and `bptree_destroy` frees allocated nodes and
none of them twice. It frees them all exactly when no call has failed after an allocation. -/
theorem insertEach_memory (calls : List InsertCall) :
    ∃ tree outcomes freed,
      insertEach (bptreeCreate fun _ ↦ true) calls = some (tree, outcomes) ∧
      (∀ p node, tree.heap.get p = some node → node.Fits) ∧
      (∀ key, (bptreeSearch tree key).isSome = true) ∧
      (∀ (σ : Type) (visit : BptreeVisitFn σ) (key : Int) (userData : σ),
        (bptreeVisitGreaterThan tree key visit userData).isSome = true ∧
          (bptreeVisitLessThan tree key visit userData).isSome = true) ∧
      bptreeDestroy tree = some freed ∧ freed.Nodup ∧
      (∀ p ∈ freed, p < tree.heap.nodes.length) ∧
      ((∀ p < tree.heap.nodes.length, p ∈ freed) ↔
        ∀ o ∈ outcomes, o.inserted = false → o.allocated = 0) := by
  obtain ⟨tree, outcomes, lost, hrun, ho, hlost⟩ := insertEach_owns (owns_create _) calls
  rw [List.nil_append] at ho
  obtain ⟨freed, hfree, hperm⟩ := ho.destroy
  have hnd := hperm.nodup_iff.mpr List.nodup_range
  refine ⟨tree, outcomes, freed, hrun, ho.sound.fits, ho.isSome_search, ?_, hfree,
    (List.nodup_append.mp hnd).1, ?_, ?_⟩
  · intro σ visit key userData
    exact ⟨ho.isSome_visitGreaterThan visit key userData,
      ho.isSome_visitLessThan visit key userData⟩
  · intro p hp
    exact List.mem_range.mp (hperm.subset (List.mem_append_left _ hp))
  · rw [← hlost]
    constructor
    · intro hall
      cases lost with
      | nil => rfl
      | cons p lost =>
        -- a lost node would be freed as well
        have hp : p < tree.heap.nodes.length :=
          List.mem_range.mp (hperm.subset (List.mem_append_right _ List.mem_cons_self))
        exact absurd rfl
          ((List.nodup_append.mp hnd).2.2 p (hall p hp) p List.mem_cons_self)
    · rintro rfl p hp
      rw [List.append_nil] at hperm
      exact hperm.symm.subset (List.mem_range.mpr hp)

end SqlProc.Index
