import SqlProc.Index.Destroy
import SqlProc.Index.Failure
import SqlProc.Index.Shape

/-!
# One insertion and the nodes of the heap

Library `Index`. What `insert_recursive` of `src/bptree.c` does to the nodes below a node when
any of its allocations can fail: they still form a tree, the leaves still form one chain, and the
only nodes that get out of reach are those of a right half that no parent has taken.
-/

namespace SqlProc.Index

/-! ### The heap -/

/-- The cells of a node lie within its arrays, and each of them was written. -/
def BPlusTreeNode.Fits (node : BPlusTreeNode) : Prop :=
  node.keys.length ≤ bptreeMaxKeys ∧
    match node.data with
    | .leaf offsets _ => offsets.length = node.keys.length
    | .internal children => children.length = node.keys.length + 1

/-- The nodes fit their arrays, and one chain runs through all leaves, also through those that
no internal node points to any more. -/
structure Heap.Sound (h : Heap) : Prop where
  fits : ∀ p node, h.get p = some node → node.Fits
  chained : ∃ start leaves, FollowsNext h start leaves ∧ leaves.Nodup ∧
    ∀ p keys offsets next, h.get p = some ⟨keys, .leaf offsets next⟩ → p ∈ leaves

theorem FollowsNext.congr {h h' : Heap} {start : Option NodePtr} {leaves : List NodePtr}
    (hc : FollowsNext h start leaves) (hf : ∀ a ∈ leaves, h'.get a = h.get a) :
    FollowsNext h' start leaves := by
  induction leaves generalizing start with
  | nil => exact hc
  | cons p ps ih =>
    obtain ⟨hs, keys, offsets, next, hg, hc⟩ := hc
    refine ⟨hs, keys, offsets, next, (hf p List.mem_cons_self).trans hg, ih hc ?_⟩
    intro a ha
    exact hf a (List.mem_cons_of_mem _ ha)

theorem FollowsNext.lt {h : Heap} {start : Option NodePtr} {leaves : List NodePtr}
    (hc : FollowsNext h start leaves) : ∀ a ∈ leaves, a < h.nodes.length := by
  induction leaves generalizing start with
  | nil =>
    intro a ha
    cases ha
  | cons p ps ih =>
    obtain ⟨-, keys, offsets, next, hg, hc⟩ := hc
    intro a ha
    rcases List.mem_cons.mp ha with rfl | ha
    · exact h.lt_of_get hg
    · exact ih hc a ha

/-- The chain from one of its leaves on. -/
theorem FollowsNext.suffix {h : Heap} {start : Option NodePtr} {before : List NodePtr}
    {leaf : NodePtr} {after : List NodePtr} (hc : FollowsNext h start (before ++ leaf :: after)) :
    FollowsNext h (some leaf) (leaf :: after) := by
  induction before generalizing start with
  | nil =>
    obtain ⟨rfl, hc⟩ := hc
    exact ⟨rfl, hc⟩
  | cons p ps ih =>
    obtain ⟨-, keys, offsets, next, -, hc⟩ := hc
    exact ih hc

/-- A chain whose end was replaced from one of its leaves on. -/
theorem FollowsNext.splice {h h' : Heap} {start : Option NodePtr} {before : List NodePtr}
    {leaf : NodePtr} {after after' : List NodePtr}
    (hc : FollowsNext h start (before ++ leaf :: after))
    (hf : ∀ a ∈ before, h'.get a = h.get a) (hc' : FollowsNext h' (some leaf) (leaf :: after')) :
    FollowsNext h' start (before ++ leaf :: after') := by
  induction before generalizing start with
  | nil =>
    obtain ⟨rfl, -⟩ := hc
    exact hc'
  | cons p ps ih =>
    obtain ⟨hs, keys, offsets, next, hg, hc⟩ := hc
    refine ⟨hs, keys, offsets, next, (hf p List.mem_cons_self).trans hg, ih hc ?_⟩
    intro a ha
    exact hf a (List.mem_cons_of_mem _ ha)

/-- Writing internal nodes does not touch the chain. -/
theorem Heap.Sound.of_internal {h h' : Heap} (hs : h.Sound)
    (hfits : ∀ p node, h'.get p = some node → node.Fits)
    (hleaf : ∀ p keys offsets next, h'.get p = some ⟨keys, .leaf offsets next⟩ ↔
      h.get p = some ⟨keys, .leaf offsets next⟩) : h'.Sound := by
  obtain ⟨start, leaves, hc, hnd, hall⟩ := hs.chained
  refine ⟨hfits, start, leaves, ?_, hnd, fun p keys offsets next hg ↦
    hall p keys offsets next ((hleaf p keys offsets next).mp hg)⟩
  clear hnd hall
  induction leaves generalizing start with
  | nil => exact hc
  | cons p ps ih =>
    obtain ⟨hst, keys, offsets, next, hg, hc⟩ := hc
    exact ⟨hst, keys, offsets, next, (hleaf p keys offsets next).mpr hg, ih next hc⟩

theorem Heap.get_set {h : Heap} {p : NodePtr} (hp : p < h.nodes.length) (node : BPlusTreeNode)
    (q : NodePtr) : (h.set p node).get q = if q = p then some node else h.get q := by
  split
  · next he => rw [he, h.get_set_self hp]
  · next hne => exact h.get_set_ne hne node

theorem Heap.get_alloc_ne {h : Heap} {q : NodePtr} (hq : q ≠ h.nodes.length)
    (data : BPlusTreeNodeData) : (h.alloc data).get q = h.get q := by
  rcases Nat.lt_or_ge q h.nodes.length with hlt | hge
  · exact h.get_alloc hlt data
  · have hge' : (h.alloc data).nodes.length ≤ q := by
      rw [length_nodes_alloc]
      exact Nat.lt_of_le_of_ne hge (Ne.symm hq)
    exact (List.getElem?_eq_none hge').trans (List.getElem?_eq_none hge).symm

/-- A node that was written right after it was allocated. -/
theorem Heap.get_set_alloc (h : Heap) (data : BPlusTreeNodeData) (node : BPlusTreeNode)
    (q : NodePtr) : ((h.alloc data).set h.nodes.length node).get q =
      if q = h.nodes.length then some node else h.get q := by
  rw [Heap.get_set (by simp)]
  split
  · rfl
  · next hq => exact Heap.get_alloc_ne hq data

/-- A node whose cells were moved in part to a new node. -/
theorem Heap.get_split {h : Heap} {p : NodePtr} (hp : p < h.nodes.length)
    (data : BPlusTreeNodeData) (left right : BPlusTreeNode) (q : NodePtr) :
    (((h.alloc data).set p left).set h.nodes.length right).get q =
      if q = h.nodes.length then some right else if q = p then some left else h.get q := by
  have hp' : p < (h.alloc data).nodes.length := by
    rw [length_nodes_alloc]
    exact Nat.lt_succ_of_lt hp
  rw [Heap.get_set (by simp), Heap.get_set hp']
  split
  · rfl
  · next hq => rw [Heap.get_alloc_ne hq data]

/-- The leaves around one of them. -/
theorem Heap.Sound.around {h : Heap} (hs : h.Sound) {leaf : NodePtr} {keys offsets : List Int}
    {next : Option NodePtr} (hg : h.get leaf = some ⟨keys, .leaf offsets next⟩) :
    ∃ start before after, FollowsNext h start (before ++ leaf :: after) ∧
      FollowsNext h next after ∧ (before ++ leaf :: after).Nodup ∧
      ∀ p keys offsets next, h.get p = some ⟨keys, .leaf offsets next⟩ →
        p ∈ before ++ leaf :: after := by
  obtain ⟨start, leaves, hc, hnd, hall⟩ := hs.chained
  obtain ⟨before, after, rfl⟩ := List.append_of_mem (hall _ _ _ _ hg)
  obtain ⟨-, keys', offsets', next', hg', hafter⟩ := hc.suffix
  rw [hg] at hg'
  cases hg'
  exact ⟨start, before, after, hc, hafter, hnd, hall⟩

/-- Overwriting the cells of a leaf. -/
theorem Heap.Sound.set_leaf {h : Heap} (hs : h.Sound) {leaf : NodePtr} {keys offsets : List Int}
    {next : Option NodePtr} (hg : h.get leaf = some ⟨keys, .leaf offsets next⟩)
    {keys' offsets' : List Int} (hfit : BPlusTreeNode.Fits ⟨keys', .leaf offsets' next⟩) :
    (h.set leaf ⟨keys', .leaf offsets' next⟩).Sound := by
  have hlt := h.lt_of_get hg
  constructor
  · intro p node hp
    rw [Heap.get_set hlt] at hp
    split at hp
    · rw [← Option.some.inj hp]
      exact hfit
    · exact hs.fits p node hp
  · obtain ⟨start, before, after, hc, hafter, hnd, hall⟩ := hs.around hg
    have hne := List.nodup_append.mp hnd
    have hleaf := List.nodup_cons.mp hne.2.1
    refine ⟨start, before ++ leaf :: after, hc.splice ?_ ?_, hnd, ?_⟩
    · intro a ha
      apply h.get_set_ne
      exact hne.2.2 a ha leaf List.mem_cons_self
    · refine ⟨rfl, keys', offsets', next, h.get_set_self hlt _, hafter.congr ?_⟩
      intro a ha
      apply h.get_set_ne
      rintro rfl
      exact hleaf.1 ha
    · intro p keys'' offsets'' next'' hp
      rw [Heap.get_set hlt] at hp
      split at hp
      · next he => simp [he]
      · exact hall p _ _ _ hp

/-- Moving cells of a leaf to a new leaf that follows it. -/
theorem Heap.Sound.split_leaf {h : Heap} (hs : h.Sound) {leaf : NodePtr}
    {keys offsets : List Int} {next : Option NodePtr}
    (hg : h.get leaf = some ⟨keys, .leaf offsets next⟩) {lk lo rk ro : List Int}
    (hl : BPlusTreeNode.Fits ⟨lk, .leaf lo (some h.nodes.length)⟩)
    (hr : BPlusTreeNode.Fits ⟨rk, .leaf ro next⟩) :
    (((h.alloc (.leaf [] none)).set leaf ⟨lk, .leaf lo (some h.nodes.length)⟩).set
      h.nodes.length ⟨rk, .leaf ro next⟩).Sound := by
  have hlt := h.lt_of_get hg
  have hget := Heap.get_split hlt (.leaf [] none) ⟨lk, .leaf lo (some h.nodes.length)⟩
    ⟨rk, .leaf ro next⟩
  generalize (((h.alloc _).set leaf _).set _ _) = h' at hget ⊢
  constructor
  · intro p node hp
    rw [hget] at hp
    split at hp
    · rw [← Option.some.inj hp]
      exact hr
    · split at hp
      · rw [← Option.some.inj hp]
        exact hl
      · exact hs.fits p node hp
  · obtain ⟨start, before, after, hc, hafter, hnd, hall⟩ := hs.around hg
    have hne := List.nodup_append.mp hnd
    have hleaf := List.nodup_cons.mp hne.2.1
    have hold : ∀ a ∈ before ++ leaf :: after, a ≠ h.nodes.length := by
      intro a ha
      exact Nat.ne_of_lt (hc.lt a ha)
    refine ⟨start, before ++ leaf :: h.nodes.length :: after, hc.splice ?_ ?_, ?_, ?_⟩
    · intro a ha
      rw [hget, if_neg (hold a (List.mem_append_left _ ha)), if_neg]
      exact hne.2.2 a ha leaf List.mem_cons_self
    · refine ⟨rfl, lk, lo, some h.nodes.length, ?_, rfl, rk, ro, next, ?_, hafter.congr ?_⟩
      · rw [hget, if_neg (Nat.ne_of_lt hlt), if_pos rfl]
      · rw [hget, if_pos rfl]
      · intro a ha
        rw [hget, if_neg (hold a (by simp [ha])), if_neg]
        rintro rfl
        exact hleaf.1 ha
    · have hperm : (before ++ leaf :: h.nodes.length :: after).Perm
          (h.nodes.length :: (before ++ leaf :: after)) := by
        have hmid : (before ++ [leaf] ++ h.nodes.length :: after).Perm
            (h.nodes.length :: (before ++ [leaf] ++ after)) := List.perm_middle
        simpa using hmid
      rw [hperm.nodup_iff, List.nodup_cons]
      exact ⟨fun hm ↦ hold _ hm rfl, hnd⟩
    · intro p keys'' offsets'' next'' hp
      rw [hget] at hp
      split at hp
      · next he => simp [he]
      · split at hp
        · next he => simp [he]
        · have hm := hall p _ _ _ hp
          simp only [List.mem_append, List.mem_cons] at hm ⊢
          tauto

/-! ### One insertion below a node -/

/-- The nodes that were allocated between two heaps. -/
def fresh (h h' : Heap) : List NodePtr :=
  List.range' h.nodes.length (h'.nodes.length - h.nodes.length)

/-- The nodes below the right half that an insertion returns. -/
def rightNodes (h : Heap) (n : Nat) (r : InsertResult) : List NodePtr :=
  match r.rightNode with
  | some right => nodesBelow h n right
  | none => []

/-- What `insert_recursive` makes of a heap, for a node that stands `n` levels above its leaves.
Of the nodes that there were below the node and of the new ones, each one is below the node, or
below the right half that is returned, or lost. -/
structure Grows (h h' : Heap) (n : Nat) (node : NodePtr) (r : InsertResult) : Prop where
  sound : h'.Sound
  calloc : h'.calloc = h.calloc
  le : h.nodes.length ≤ h'.nodes.length
  frame : ∀ a < h.nodes.length, a ∉ nodesBelow h n node → h'.get a = h.get a
  stands : Stands h' n node
  split : r.split = true → r.duplicate = false ∧ r.failed = false ∧
    h.nodes.length < h'.nodes.length ∧ ∃ right, r.rightNode = some right ∧ Stands h' n right
  whole : r.split = false → r.rightNode = none
  nodes : ∃ lost, (nodesBelow h' n node ++ rightNodes h' n r ++ lost).Perm
      (nodesBelow h n node ++ fresh h h') ∧
    (lost = [] ↔ ((r.duplicate || r.failed) = true → h'.nodes.length = h.nodes.length))

theorem fresh_self (h : Heap) : fresh h h = [] := by
  simp [fresh]

theorem fresh_succ {h h₁ h₂ : Heap} (hle : h.nodes.length ≤ h₁.nodes.length)
    (hsize : h₂.nodes.length = h₁.nodes.length + 1) :
    fresh h h₂ = fresh h h₁ ++ [h₁.nodes.length] := by
  rw [fresh, fresh, hsize, Nat.succ_sub hle, List.range'_1_concat, Nat.add_sub_cancel' hle]

theorem rightNodes_of_some {r : InsertResult} {right : NodePtr} (hr : r.rightNode = some right)
    (h : Heap) (n : Nat) : rightNodes h n r = nodesBelow h n right := by
  rw [rightNodes, hr]

theorem rightNodes_of_none {r : InsertResult} (hr : r.rightNode = none) (h : Heap) (n : Nat) :
    rightNodes h n r = [] := by
  rw [rightNodes, hr]

/-- An insertion that stops without writing. -/
theorem Grows.refl {h : Heap} (hs : h.Sound) {n : Nat} {node : NodePtr} (hst : Stands h n node)
    {r : InsertResult} (hr : r.split = false) (hright : r.rightNode = none) :
    Grows h h n node r := by
  refine ⟨hs, rfl, Nat.le_refl _, fun _ _ _ ↦ rfl, hst, ?_, fun _ ↦ hright, [], ?_, by simp⟩
  · intro hsplit
    rw [hr] at hsplit
    cases hsplit
  · simp [rightNodes, hright, fresh_self]

/-- A leaf that takes one more entry. -/
theorem Grows.set_leaf {h : Heap} (hs : h.Sound) {leaf : NodePtr} {keys offsets : List Int}
    {next : Option NodePtr} (hg : h.get leaf = some ⟨keys, .leaf offsets next⟩)
    {keys' offsets' : List Int} (hfit : BPlusTreeNode.Fits ⟨keys', .leaf offsets' next⟩) :
    Grows h (h.set leaf ⟨keys', .leaf offsets' next⟩) 0 leaf .zero := by
  have hlt := h.lt_of_get hg
  refine ⟨hs.set_leaf hg hfit, rfl, ?_, ?_, ⟨keys', offsets', next, h.get_set_self hlt _⟩, ?_,
    fun _ ↦ rfl, [], ?_, by simp⟩
  · rw [Heap.length_nodes_set]
  · intro a _ ha
    exact h.get_set_ne (fun he ↦ ha (List.mem_singleton.mpr he)) _
  · intro hsplit
    cases hsplit
  · simp [nodesBelow, rightNodes, InsertResult.zero, fresh]

/-- A leaf that is split. -/
theorem Grows.split_leaf {h : Heap} (hs : h.Sound) {leaf : NodePtr} {keys offsets : List Int}
    {next : Option NodePtr} (hg : h.get leaf = some ⟨keys, .leaf offsets next⟩)
    {lk lo rk ro : List Int} (hl : BPlusTreeNode.Fits ⟨lk, .leaf lo (some h.nodes.length)⟩)
    (hr : BPlusTreeNode.Fits ⟨rk, .leaf ro next⟩) (promotedKey : Int) :
    Grows h (((h.alloc (.leaf [] none)).set leaf ⟨lk, .leaf lo (some h.nodes.length)⟩).set
      h.nodes.length ⟨rk, .leaf ro next⟩) 0 leaf
      ⟨true, false, false, promotedKey, some h.nodes.length⟩ := by
  have hlt := h.lt_of_get hg
  have hget := Heap.get_split hlt (.leaf [] none) ⟨lk, .leaf lo (some h.nodes.length)⟩
    ⟨rk, .leaf ro next⟩
  refine ⟨hs.split_leaf hg hl hr, rfl, ?_, ?_, ⟨lk, lo, some h.nodes.length, ?_⟩, ?_, ?_, [], ?_,
    by simp⟩
  · simp
  · intro a hlt ha
    rw [hget, if_neg (Nat.ne_of_lt hlt), if_neg fun he ↦ ha (List.mem_singleton.mpr he)]
  · rw [hget, if_neg (Nat.ne_of_lt hlt), if_pos rfl]
  · intro _
    refine ⟨rfl, rfl, by simp, h.nodes.length, rfl, rk, ro, next, ?_⟩
    rw [hget, if_pos rfl]
  · intro hsplit
    cases hsplit
  · simp [nodesBelow, rightNodes, fresh]

theorem findLeafPosition_le (keys : List Int) (key : Int) :
    findLeafPosition keys key ≤ keys.length :=
  (List.takeWhile_sublist _).length_le

/-- An insertion into a leaf. -/
theorem insertIntoLeaf_grows {h : Heap} (hs : h.Sound) {leaf : NodePtr} {keys offsets : List Int}
    {next : Option NodePtr} (hg : h.get leaf = some ⟨keys, .leaf offsets next⟩)
    (key offset : Int) :
    Grows h (insertIntoLeaf h leaf keys offsets next key offset).1 0 leaf
      (insertIntoLeaf h leaf keys offsets next key offset).2 := by
  have hst : Stands h 0 leaf := ⟨keys, offsets, next, hg⟩
  obtain ⟨hmax, hoff⟩ := hs.fits leaf _ hg
  simp only at hmax hoff
  have hpos := findLeafPosition_le keys key
  have hkeys : (keys.insertIdx (findLeafPosition keys key) key).length = keys.length + 1 :=
    List.length_insertIdx_of_le_length hpos _
  have hoffs : (offsets.insertIdx (findLeafPosition keys key) offset).length =
      keys.length + 1 := by
    rw [List.length_insertIdx_of_le_length (by omega), hoff]
  unfold insertIntoLeaf
  simp only
  split
  · exact Grows.refl hs hst rfl rfl
  · split
    · next hroom =>
      apply Grows.set_leaf hs hg
      simp only [BPlusTreeNode.Fits, hkeys, hoffs, and_true]
      exact hroom
    · next hfull =>
      have hthree : keys.length = 3 := by
        have : ¬ keys.length < 3 := hfull
        have : keys.length ≤ 3 := hmax
        omega
      unfold splitLeafAndInsert
      cases hc : h.calloc h.nodes.length with
      | false =>
        rw [createNode_of_not_calloc hc]
        exact Grows.refl hs hst rfl rfl
      | true =>
        rw [createNode_of_calloc hc]
        apply Grows.split_leaf hs hg
        · simp [BPlusTreeNode.Fits, hkeys, hoffs, hthree]
        · simp [BPlusTreeNode.Fits, hkeys, hoffs, hthree]

/-- An internal node, one child of which has taken an insertion. -/
structure ChildGrows (h h₁ : Heap) (n : Nat) (node : NodePtr) (keys : List Int)
    (before : List NodePtr) (child : NodePtr) (after : List NodePtr) (r : InsertResult) :
    Prop where
  get : h.get node = some ⟨keys, .internal (before ++ child :: after)⟩
  size : (before ++ child :: after).length = keys.length + 1
  stands : ∀ c ∈ before ++ child :: after, Stands h n c
  unshared : (nodesBelow h (n + 1) node).Nodup
  grows : Grows h h₁ n child r

namespace ChildGrows

variable {h h₁ : Heap} {n : Nat} {node : NodePtr} {keys : List Int} {before : List NodePtr}
  {child : NodePtr} {after : List NodePtr} {r : InsertResult}

theorem nodes_eq (hg : ChildGrows h h₁ n node keys before child after r) :
    nodesBelow h (n + 1) node = before.flatMap (nodesBelow h n) ++ (nodesBelow h n child ++
      (after.flatMap (nodesBelow h n) ++ [node])) := by
  rw [nodesBelow_internal hg.get]
  simp

/-- The nodes below the other children are not below the child. -/
theorem apart (hg : ChildGrows h h₁ n node keys before child after r) {c a : NodePtr}
    (hc : c ∈ before ++ after) (ha : a ∈ nodesBelow h n c) : a ∉ nodesBelow h n child := by
  have hnd := hg.unshared
  rw [hg.nodes_eq] at hnd
  obtain ⟨-, hnd, hbefore⟩ := List.nodup_append.mp hnd
  obtain ⟨-, -, hafter⟩ := List.nodup_append.mp hnd
  intro hm
  rcases List.mem_append.mp hc with hc | hc
  · exact hbefore a (List.mem_flatMap.mpr ⟨c, hc, ha⟩) a (List.mem_append_left _ hm) rfl
  · exact hafter a hm a
      (List.mem_append_left _ (List.mem_flatMap.mpr ⟨c, hc, ha⟩)) rfl

theorem node_not_mem (hg : ChildGrows h h₁ n node keys before child after r) {c : NodePtr}
    (hc : c ∈ before ++ child :: after) : node ∉ nodesBelow h n c := by
  have hnd := hg.unshared
  rw [nodesBelow_internal hg.get] at hnd
  intro hm
  exact (List.nodup_append.mp hnd).2.2 node (List.mem_flatMap.mpr ⟨c, hc, hm⟩) node
    (List.mem_singleton.mpr rfl) rfl

theorem child_mem : child ∈ before ++ child :: after := by
  simp

/-- The node itself was not written. -/
theorem get_after (hg : ChildGrows h h₁ n node keys before child after r) :
    h₁.get node = some ⟨keys, .internal (before ++ child :: after)⟩ := by
  rw [hg.grows.frame node (h.lt_of_get hg.get) (hg.node_not_mem child_mem), hg.get]

/-- The other children are as they were. -/
theorem sibling (hg : ChildGrows h h₁ n node keys before child after r) {c : NodePtr}
    (hc : c ∈ before ++ after) : nodesBelow h₁ n c = nodesBelow h n c ∧ Stands h₁ n c := by
  have hst := hg.stands c (by
    simp only [List.mem_append, List.mem_cons] at hc ⊢
    tauto)
  have hf : ∀ a ∈ nodesBelow h n c, h₁.get a = h.get a := by
    intro a ha
    exact hg.grows.frame a (hst.lt a ha) (hg.apart hc ha)
  exact ⟨nodesBelow_congr hf, hst.congr hf⟩

theorem before_eq (hg : ChildGrows h h₁ n node keys before child after r) :
    before.flatMap (nodesBelow h₁ n) = before.flatMap (nodesBelow h n) :=
  List.flatMap_congr fun _ hc ↦ (hg.sibling (List.mem_append_left _ hc)).1

theorem after_eq (hg : ChildGrows h h₁ n node keys before child after r) :
    after.flatMap (nodesBelow h₁ n) = after.flatMap (nodesBelow h n) :=
  List.flatMap_congr fun _ hc ↦ (hg.sibling (List.mem_append_right _ hc)).1

/-- A node that is below the child or its right half after the insertion is not the parent. -/
theorem ne_node (hg : ChildGrows h h₁ n node keys before child after r) {a : NodePtr}
    (ha : a ∈ nodesBelow h₁ n child ++ rightNodes h₁ n r) : a ≠ node := by
  obtain ⟨lost, hperm, -⟩ := hg.grows.nodes
  have hm := hperm.subset (List.mem_append_left _ ha)
  rintro rfl
  rcases List.mem_append.mp hm with hm | hm
  · exact hg.node_not_mem child_mem hm
  · exact Nat.lt_irrefl _ (Nat.lt_of_lt_of_le (h.lt_of_get hg.get) (List.mem_range'_1.mp hm).1)

/-- The children and the right half that there are for the parent to hold. -/
theorem parts (hg : ChildGrows h h₁ n node keys before child after r) {right : NodePtr}
    (hr : r.rightNode = some right) (hst : Stands h₁ n right) :
    ∀ c ∈ before ++ child :: right :: after, Stands h₁ n c ∧ node ∉ nodesBelow h₁ n c := by
  intro c hc
  have hcases : c ∈ before ++ after ∨ c = child ∨ c = right := by
    simp only [List.mem_append, List.mem_cons] at hc ⊢
    tauto
  rcases hcases with hc | rfl | rfl
  · obtain ⟨heq, hst⟩ := hg.sibling hc
    refine ⟨hst, ?_⟩
    rw [heq]
    apply hg.node_not_mem
    simp only [List.mem_append, List.mem_cons] at hc ⊢
    tauto
  · exact ⟨hg.grows.stands, fun hm ↦ hg.ne_node (List.mem_append_left _ hm) rfl⟩
  · refine ⟨hst, fun hm ↦ hg.ne_node (List.mem_append_right _ ?_) rfl⟩
    rw [rightNodes, hr]
    exact hm

/-- The frame of the child is a frame of its parent. -/
theorem frame (hg : ChildGrows h h₁ n node keys before child after r) {a : NodePtr}
    (ha : a < h.nodes.length) (hn : a ∉ nodesBelow h (n + 1) node) :
    h₁.get a = h.get a ∧ a ≠ node := by
  rw [hg.nodes_eq] at hn
  simp only [List.mem_append, List.mem_singleton, not_or] at hn
  exact ⟨hg.grows.frame a ha hn.2.1, hn.2.2.2⟩

/-- A parent that is left as it is. -/
theorem kept (hg : ChildGrows h h₁ n node keys before child after r) {r' : InsertResult}
    (hs : r'.split = false) (hr : r'.rightNode = none) {lost : List NodePtr}
    (hperm : (nodesBelow h₁ n child ++ lost).Perm (nodesBelow h n child ++ fresh h h₁))
    (hlost : lost = [] ↔
      ((r'.duplicate || r'.failed) = true → h₁.nodes.length = h.nodes.length)) :
    Grows h h₁ (n + 1) node r' := by
  refine ⟨hg.grows.sound, hg.grows.calloc, hg.grows.le, fun a ha hn ↦ (hg.frame ha hn).1,
    ⟨keys, _, hg.get_after, hg.size, ?_⟩, ?_, fun _ ↦ hr, lost, ?_, hlost⟩
  · intro c hc
    have hcases : c ∈ before ++ after ∨ c = child := by
      simp only [List.mem_append, List.mem_cons] at hc ⊢
      tauto
    rcases hcases with hc | rfl
    · exact (hg.sibling hc).2
    · exact hg.grows.stands
  · intro hsplit
    rw [hs] at hsplit
    cases hsplit
  · rw [hg.nodes_eq, nodesBelow_internal hg.get_after, rightNodes, hr, List.perm_iff_count]
    intro a
    have hcount := hperm.count_eq a
    simp only [List.flatMap_append, List.flatMap_cons, hg.before_eq, hg.after_eq,
      List.count_append, List.append_nil] at hcount ⊢
    omega

/-- The new nodes and the nodes below the children, when the child was split. -/
theorem parts_perm (hg : ChildGrows h h₁ n node keys before child after r)
    (hs : r.split = true) {right : NodePtr} (hr : r.rightNode = some right) :
    ((before ++ child :: right :: after).flatMap (nodesBelow h₁ n) ++ [node]).Perm
      (nodesBelow h (n + 1) node ++ fresh h h₁) := by
  obtain ⟨hd, hf, -⟩ := hg.grows.split hs
  obtain ⟨lost, hperm, hlost⟩ := hg.grows.nodes
  obtain rfl : lost = [] := hlost.mpr (by simp [hd, hf])
  rw [rightNodes, hr] at hperm
  rw [hg.nodes_eq, List.perm_iff_count]
  intro a
  have hcount := hperm.count_eq a
  simp only [List.flatMap_append, List.flatMap_cons, hg.before_eq, hg.after_eq,
    List.count_append, List.append_nil] at hcount ⊢
  omega

end ChildGrows

/-- A node that was written over standing children. -/
theorem stands_written {h₁ h₂ : Heap} {n : Nat} {node q : NodePtr} {keys : List Int}
    {children : List NodePtr} (hf : ∀ a < h₁.nodes.length, a ≠ node → h₂.get a = h₁.get a)
    (hc : ∀ c ∈ children, Stands h₁ n c ∧ node ∉ nodesBelow h₁ n c)
    (hq : h₂.get q = some ⟨keys, .internal children⟩)
    (hlen : children.length = keys.length + 1) :
    Stands h₂ (n + 1) q ∧
      nodesBelow h₂ (n + 1) q = children.flatMap (nodesBelow h₁ n) ++ [q] := by
  have hsame : ∀ c ∈ children, ∀ a ∈ nodesBelow h₁ n c, h₂.get a = h₁.get a := by
    intro c hm a ha
    apply hf a ((hc c hm).1.lt a ha)
    rintro rfl
    exact (hc c hm).2 ha
  constructor
  · exact ⟨keys, children, hq, hlen, fun c hm ↦ (hc c hm).1.congr (hsame c hm)⟩
  · rw [nodesBelow_internal hq, List.flatMap_congr fun c hm ↦ nodesBelow_congr (hsame c hm)]

namespace ChildGrows

variable {h h₁ : Heap} {n : Nat} {node : NodePtr} {keys : List Int} {before : List NodePtr}
  {child : NodePtr} {after : List NodePtr} {r : InsertResult}

/-- A parent that takes the right half of its child. -/
theorem taken (hg : ChildGrows h h₁ n node keys before child after r) (hs : r.split = true)
    {right : NodePtr} (hr : r.rightNode = some right) (hst : Stands h₁ n right)
    {keys' : List Int} (hlen : keys'.length = keys.length + 1) (hroom : keys.length < 3) :
    Grows h (h₁.set node ⟨keys', .internal (before ++ child :: right :: after)⟩) (n + 1) node
      { r with split := false, rightNode := none } := by
  obtain ⟨hd, hf, -⟩ := hg.grows.split hs
  have hlt := h₁.lt_of_get hg.get_after
  have hsize : (before ++ child :: right :: after).length = keys'.length + 1 := by
    have hold := hg.size
    simp only [List.length_append, List.length_cons] at hold ⊢
    omega
  have hget := Heap.get_set hlt ⟨keys', .internal (before ++ child :: right :: after)⟩
  obtain ⟨hstands, hnodes⟩ := @stands_written _ (h₁.set node _) _ _ _ _ _
    (fun a _ hne ↦ h₁.get_set_ne hne _) (hg.parts hr hst) (h₁.get_set_self hlt _) hsize
  refine ⟨hg.grows.sound.of_internal ?_ ?_, hg.grows.calloc, ?_, ?_, hstands, ?_, fun _ ↦ rfl,
    [], ?_, by simp [hd, hf]⟩
  · intro p x hp
    rw [hget] at hp
    split at hp
    · rw [← Option.some.inj hp]
      refine ⟨?_, hsize⟩
      simp only [hlen]
      exact hroom
    · exact hg.grows.sound.fits p x hp
  · intro p ks offsets next
    rw [hget]
    split
    · next he =>
      rw [he, hg.get_after]
      simp
    · rfl
  · rw [Heap.length_nodes_set]
    exact hg.grows.le
  · intro a ha hn
    obtain ⟨hframe, hne⟩ := hg.frame ha hn
    rw [h₁.get_set_ne hne, hframe]
  · intro hsplit
    cases hsplit
  · have hperm := hg.parts_perm hs hr
    rw [hnodes]
    simp only [rightNodes, List.append_nil, fresh, Heap.length_nodes_set] at hperm ⊢
    exact hperm

/-- A parent that is split in turn. -/
theorem cut (hg : ChildGrows h h₁ n node keys before child after r) (hs : r.split = true)
    {right : NodePtr} (hr : r.rightNode = some right) (hst : Stands h₁ n right)
    {lk rk : List Int} {lc rc : List NodePtr}
    (hcs : lc ++ rc = before ++ child :: right :: after)
    (hl : BPlusTreeNode.Fits ⟨lk, .internal lc⟩) (hrt : BPlusTreeNode.Fits ⟨rk, .internal rc⟩)
    (promotedKey : Int) :
    Grows h (((h₁.alloc (.internal [])).set node ⟨lk, .internal lc⟩).set h₁.nodes.length
      ⟨rk, .internal rc⟩) (n + 1) node
      ⟨true, false, false, promotedKey, some h₁.nodes.length⟩ := by
  have hlt := h₁.lt_of_get hg.get_after
  have hget := Heap.get_split hlt (.internal []) ⟨lk, .internal lc⟩ ⟨rk, .internal rc⟩
  have hsize : (((h₁.alloc (.internal [])).set node ⟨lk, .internal lc⟩).set h₁.nodes.length
      ⟨rk, .internal rc⟩).nodes.length = h₁.nodes.length + 1 := by
    simp
  have hcal : (((h₁.alloc (.internal [])).set node ⟨lk, .internal lc⟩).set h₁.nodes.length
      ⟨rk, .internal rc⟩).calloc = h₁.calloc := rfl
  generalize (((h₁.alloc _).set node _).set _ _) = h₂ at hget hsize hcal ⊢
  have hleft : h₂.get node = some ⟨lk, .internal lc⟩ := by
    rw [hget, if_neg (Nat.ne_of_lt hlt), if_pos rfl]
  have hright : h₂.get h₁.nodes.length = some ⟨rk, .internal rc⟩ := by
    rw [hget, if_pos rfl]
  have hf : ∀ a < h₁.nodes.length, a ≠ node → h₂.get a = h₁.get a := by
    intro a ha hne
    rw [hget, if_neg (Nat.ne_of_lt ha), if_neg hne]
  have hparts := hg.parts hr hst
  rw [← hcs] at hparts
  obtain ⟨hstl, hnl⟩ := stands_written hf
    (fun c hc ↦ hparts c (List.mem_append_left _ hc)) hleft hl.2
  obtain ⟨hstr, hnr⟩ := stands_written hf
    (fun c hc ↦ hparts c (List.mem_append_right _ hc)) hright hrt.2
  refine ⟨hg.grows.sound.of_internal ?_ ?_, hcal.trans hg.grows.calloc, ?_, ?_, hstl, ?_, ?_,
    [], ?_, by simp⟩
  · intro p x hp
    rw [hget] at hp
    split at hp
    · rw [← Option.some.inj hp]
      exact hrt
    · split at hp
      · rw [← Option.some.inj hp]
        exact hl
      · exact hg.grows.sound.fits p x hp
  · intro p ks offsets next
    rw [hget]
    split
    · next he =>
      rw [he, Heap.get, List.getElem?_eq_none (Nat.le_refl _)]
      simp
    · split
      · next he =>
        rw [he, hg.get_after]
        simp
      · rfl
  · rw [hsize]
    exact Nat.le_succ_of_le hg.grows.le
  · intro a ha hn
    obtain ⟨hframe, hne⟩ := hg.frame ha hn
    rw [hf a (Nat.lt_of_lt_of_le ha hg.grows.le) hne, hframe]
  · intro _
    refine ⟨rfl, rfl, ?_, _, rfl, hstr⟩
    rw [hsize]
    exact Nat.lt_succ_of_le hg.grows.le
  · intro hsplit
    cases hsplit
  · have hperm := hg.parts_perm hs hr
    rw [hnl, rightNodes_of_some rfl, hnr, fresh_succ hg.grows.le hsize, List.perm_iff_count]
    rw [← hcs, List.flatMap_append] at hperm
    intro a
    have hcount := hperm.count_eq a
    simp only [List.count_append, List.append_nil] at hcount ⊢
    omega

end ChildGrows

/-- Cutting the cells of a full node with one more key and one more child. -/
theorem fits_cut {keys : List Int} {children : List NodePtr} (hkeys : keys.length = 4)
    (hchildren : children.length = 5) :
    BPlusTreeNode.Fits ⟨keys.take 2, .internal (children.take 3)⟩ ∧
      BPlusTreeNode.Fits ⟨keys.drop 3, .internal (children.drop 3)⟩ := by
  simp [BPlusTreeNode.Fits, hkeys, hchildren]

/-- The right half goes right after the child. -/
theorem insertIdx_child (before : List NodePtr) (child : NodePtr) (after : List NodePtr)
    (right : NodePtr) : (before ++ child :: after).insertIdx (before.length + 1) right =
      before ++ child :: right :: after := by
  induction before with
  | nil => rfl
  | cons c before ih => rw [List.cons_append, List.length_cons, List.insertIdx_succ_cons, ih]; rfl

theorem splitInternalAndInsert_grows {h h₁ : Heap} {n : Nat} {node : NodePtr} {keys : List Int}
    {before : List NodePtr} {child : NodePtr} {after : List NodePtr} {r : InsertResult}
    (hg : ChildGrows h h₁ n node keys before child after r) (hs : r.split = true)
    {right : NodePtr} (hr : r.rightNode = some right) (hst : Stands h₁ n right)
    (hpos : before.length ≤ keys.length) (hfull : keys.length = 3) (promotedKey : Int) :
    Grows h
      (splitInternalAndInsert h₁ node keys (before ++ child :: after) before.length promotedKey
        right).1 (n + 1) node
      (splitInternalAndInsert h₁ node keys (before ++ child :: after) before.length promotedKey
        right).2 := by
  have hsize := hg.size
  unfold splitInternalAndInsert
  cases hc : h₁.calloc h₁.nodes.length with
  | false =>
    rw [createNode_of_not_calloc hc]
    obtain ⟨hd, hf, hlt, -⟩ := hg.grows.split hs
    obtain ⟨lost, hperm, -⟩ := hg.grows.nodes
    rw [List.append_assoc] at hperm
    -- the right half that no parent takes is lost
    apply hg.kept rfl rfl hperm
    have hne : rightNodes h₁ n r ++ lost ≠ [] := by
      rw [rightNodes_of_some hr]
      exact List.ne_nil_of_mem (List.mem_append_left _ (self_mem_nodesBelow h₁ n right))
    constructor
    · intro he
      exact absurd he hne
    · intro he
      exact absurd (he rfl) (Nat.ne_of_gt hlt)
  | true =>
    rw [createNode_of_calloc hc]
    have hkeys : (keys.insertIdx before.length promotedKey).length = 4 := by
      rw [List.length_insertIdx_of_le_length hpos, hfull]
    have hchildren : (before ++ child :: right :: after).length = 5 := by
      simp only [List.length_append, List.length_cons] at hsize ⊢
      omega
    obtain ⟨hl, hrt⟩ := fits_cut hkeys hchildren
    simp only [insertIdx_child, hfull]
    exact hg.cut hs hr hst (List.take_append_drop 3 _) hl hrt _

/-- One call of `insert_recursive`, whatever allocations fail in it. -/
theorem insertRecursive_grows {h : Heap} (hs : h.Sound) {n fuel : Nat} (hfuel : n < fuel)
    {node : NodePtr} (hst : Stands h n node) (hnd : (nodesBelow h n node).Nodup)
    (key offset : Int) :
    ∃ h' r, insertRecursive fuel h node key offset = some (h', r) ∧ Grows h h' n node r := by
  induction n generalizing node fuel with
  | zero =>
    obtain ⟨fuel, rfl⟩ : ∃ f, fuel = f + 1 := ⟨fuel - 1, by omega⟩
    obtain ⟨keys, offsets, next, hg⟩ := hst
    refine ⟨_, _, ?_, insertIntoLeaf_grows hs hg key offset⟩
    simp only [insertRecursive, hg]
  | succ n ih =>
    obtain ⟨fuel, rfl⟩ : ∃ f, fuel = f + 1 := ⟨fuel - 1, by omega⟩
    obtain ⟨keys, children, hg, hlen, hc⟩ := hst
    obtain ⟨before, child, after, rfl, hpos, hat⟩ := exists_child hlen key
    have hndc : (nodesBelow h n child).Nodup := by
      rw [nodesBelow_internal hg] at hnd
      simp only [List.flatMap_append, List.flatMap_cons, List.append_assoc] at hnd
      exact (List.nodup_append.mp (List.nodup_append.mp hnd).2.1).1
    obtain ⟨h₁, r, hrun, hgrows⟩ :=
      ih (Nat.lt_of_succ_lt_succ hfuel) (hc child (by simp)) hndc
    have hcg : ChildGrows h h₁ n node keys before child after r := ⟨hg, hlen, hc, hnd, hgrows⟩
    simp only [insertRecursive, hg, hat, hrun]
    cases hsplit : r.split with
    | false =>
      obtain ⟨lost, hperm, hlost⟩ := hgrows.nodes
      have hright := hgrows.whole hsplit
      rw [rightNodes_of_none hright, List.append_nil] at hperm
      exact ⟨h₁, r, rfl, hcg.kept hsplit hright hperm hlost⟩
    | true =>
      obtain ⟨hd, hf, -, right, hr, hstr⟩ := hgrows.split hsplit
      have hle := findChildPosition_le keys key
      simp only [hd, hf, hr, hcg.get_after, Bool.not_true, Bool.or_self, Bool.false_eq_true,
        if_false]
      split
      · next hroom =>
        refine ⟨_, _, rfl, ?_⟩
        rw [insertInternalWithoutSplit, ← hpos, insertIdx_child]
        have htaken := hcg.taken hsplit hr hstr
          (List.length_insertIdx_of_le_length (hpos ▸ hle) r.promotedKey) hroom
        rw [hd, hf] at htaken
        exact htaken
      · next hfull =>
        refine ⟨_, _, rfl, ?_⟩
        have hthree : keys.length = 3 := by
          have hmax : keys.length ≤ 3 := (hs.fits node _ hg).1
          have : ¬ keys.length < 3 := hfull
          omega
        rw [← hpos]
        exact splitInternalAndInsert_grows hcg hsplit hr hstr (hpos ▸ hle) hthree _

end SqlProc.Index
