import SqlProc.Index.Range

/-!
# The shape of the index tree, read off the heap

Library `Index`. The representation invariant of the nodes of `src/bptree.c`, stated on
addresses and pointers alone: uniform depth, node sizes, key order, separator bounds,
no sharing, and a leaf chain in tree order. Every run of insertions keeps it.
-/

namespace SqlProc.Index

open Support

/-- The keys in a node. -/
def keysAt (h : Heap) (p : NodePtr) : List Int :=
  match h.get p with
  | some node => node.keys
  | none => []

/-- The child pointers in a node. -/
def childrenAt (h : Heap) (p : NodePtr) : List NodePtr :=
  match h.get p with
  | some ⟨_, .internal children⟩ => children
  | _ => []

/-- The nodes that are reached from `p` in at most `d` steps down, each as often as it is
reached. -/
def nodesUnder (h : Heap) : Nat → NodePtr → List NodePtr
  | 0, p => [p]
  | d + 1, p => p :: (childrenAt h p).flatMap (nodesUnder h d)

/-- The nodes that are reached from `p` in exactly `d` steps down, from left to right. -/
def leavesUnder (h : Heap) : Nat → NodePtr → List NodePtr
  | 0, p => [p]
  | d + 1, p => (childrenAt h p).flatMap (leavesUnder h d)

/-- All keys in the nodes under `p`, those of internal nodes included. -/
def keysUnder (h : Heap) (d : Nat) (p : NodePtr) : List Int :=
  (nodesUnder h d p).flatMap (keysAt h)

/-- The node at `p` is the root of a subtree with `d` levels above its leaves: nodes hold at
most `bptreeMaxKeys` ascending keys, a leaf at `p` itself at least `lo` and any other leaf at
least two; an internal node has one child more than keys, and every key bounds all keys
under its two neighbours. -/
def WellShaped (h : Heap) : (lo d : Nat) → NodePtr → Prop
  | lo, 0, p =>
    ∃ keys offsets next, h.get p = some ⟨keys, .leaf offsets next⟩ ∧
      offsets.length = keys.length ∧ lo ≤ keys.length ∧ keys.length ≤ bptreeMaxKeys ∧
      keys.Pairwise (· < ·)
  | _, d + 1, p =>
    ∃ keys children, h.get p = some ⟨keys, .internal children⟩ ∧
      children.length = keys.length + 1 ∧ 1 ≤ keys.length ∧ keys.length ≤ bptreeMaxKeys ∧
      keys.Pairwise (· < ·) ∧ (∀ c ∈ children, WellShaped h 2 d c) ∧
      ∀ i key, keys[i]? = some key →
        ∃ left right, children[i]? = some left ∧ children[i + 1]? = some right ∧
          (∀ x ∈ keysUnder h d left, x < key) ∧ ∀ x ∈ keysUnder h d right, key ≤ x

/-- Following the `next` pointers from `start` visits the leaves in turn and then ends. -/
def FollowsNext (h : Heap) : Option NodePtr → List NodePtr → Prop
  | start, [] => start = none
  | start, p :: ps =>
    start = some p ∧
      ∃ keys offsets next, h.get p = some ⟨keys, .leaf offsets next⟩ ∧ FollowsNext h next ps

/-- The representation invariant of a tree with `d` levels above its leaves. -/
structure TreeShape (tree : BPlusTree) (root : NodePtr) (d : Nat) : Prop where
  root_eq : tree.root = some root
  shaped : WellShaped tree.heap 0 d root
  unshared : (nodesUnder tree.heap d root).Nodup
  chained : ∃ first, leftmostLeaf tree = some (some first) ∧
    FollowsNext tree.heap (some first) (leavesUnder tree.heap d root)
  size : 1 ≤ d → 2 ^ (d + 1) ≤ ((leavesUnder tree.heap d root).flatMap (keysAt tree.heap)).length

/-! ### Reading a stored tree -/

section Stored

variable {h : Heap} {n : Nat} {exit : Option NodePtr}

theorem Holds.childrenAt_eq {t : BPlus Int Int (n + 1)} (hh : Holds h (n + 1) t exit) :
    childrenAt h (BPlus.label (n + 1) t) =
      (Branch.first t :: (Branch.rest t).map Prod.snd).map (BPlus.label n) := by
  have hg : h.get (BPlus.label (n + 1) t) = some _ := hh.1
  simp only [childrenAt, hg, List.map_cons, List.map_map]
  rfl

theorem Holds.keysAt_branch {t : BPlus Int Int (n + 1)} (hh : Holds h (n + 1) t exit) :
    keysAt h (BPlus.label (n + 1) t) = (Branch.rest t).map Prod.fst := by
  have hg : h.get (BPlus.label (n + 1) t) = some _ := hh.1
  simp only [keysAt, hg]

/-- A list computed for every child pointer is one computed for every child. -/
private theorem flatMap_childrenAt {β : Type} {t : BPlus Int Int (n + 1)}
    (hh : Holds h (n + 1) t exit) {f : NodePtr → List β} {g : BPlus Int Int n → List β}
    (hfg : ∀ c ex, Holds h n c ex → f (BPlus.label n c) = g c) :
    (childrenAt h (BPlus.label (n + 1) t)).flatMap f =
      forest g (Branch.first t) (Branch.rest t) := by
  rw [hh.childrenAt_eq, forest_eq_flatMap, List.flatMap_map]
  apply List.flatMap_congr
  intro c hc
  obtain ⟨ex, hex⟩ := hh.child c hc
  exact hfg c ex hex

theorem Holds.nodesUnder_eq {t : BPlus Int Int n} (hh : Holds h n t exit) :
    nodesUnder h n (BPlus.label n t) = BPlus.labels n t := by
  induction n generalizing exit with
  | zero => rfl
  | succ n ih =>
    rw [nodesUnder, flatMap_childrenAt hh fun c ex hc ↦ ih hc]
    rfl

theorem Holds.leavesUnder_eq {t : BPlus Int Int n} (hh : Holds h n t exit) :
    leavesUnder h n (BPlus.label n t) = (BPlus.leaves n t).map Leaf.label := by
  induction n generalizing exit with
  | zero => rfl
  | succ n ih =>
    rw [leavesUnder, flatMap_childrenAt hh fun c ex hc ↦ ih hc]
    change _ = (forest _ _ _).map _
    rw [forest_eq_flatMap, forest_eq_flatMap, List.map_flatMap]

/-- Every key under a node lies between two entries. -/
theorem Holds.keysUnder_between {lo : Nat} {t : BPlus Int Int n} (hh : Holds h n t exit)
    (ho : BPlus.Ordered n t) (hf : BPlus.Filled bptreeMaxKeys lo n t) :
    ∀ x ∈ keysUnder h n (BPlus.label n t),
      (∃ e ∈ BPlus.entries n t, e.1 ≤ x) ∧ ∃ e ∈ BPlus.entries n t, x ≤ e.1 := by
  induction n generalizing exit lo with
  | zero =>
    have hg : h.get (BPlus.label 0 t) = some _ := hh
    intro x hx
    simp only [keysUnder, nodesUnder, keysAt, List.flatMap_singleton, hg] at hx
    obtain ⟨e, he, rfl⟩ := List.mem_map.mp hx
    exact ⟨⟨e, he, Int.le_refl _⟩, e, he, Int.le_refl _⟩
  | succ n ih =>
    have hmem : ∀ c ∈ Branch.first t :: (Branch.rest t).map Prod.snd,
        ∀ e ∈ BPlus.entries n c, e ∈ BPlus.entries (n + 1) t := by
      intro c hc e he
      change e ∈ forest _ _ _
      rw [forest_eq_flatMap]
      exact List.mem_flatMap.mpr ⟨c, hc, he⟩
    intro x hx
    rw [keysUnder, nodesUnder, List.flatMap_cons, List.mem_append, hh.keysAt_branch] at hx
    rcases hx with hx | hx
    · -- a separator: the children on its two sides hold entries
      obtain ⟨e, he, rfl⟩ := List.mem_map.mp hx
      obtain ⟨left, right, hrest⟩ := List.append_of_mem he
      have hsep := ho.2.2
      rw [hrest] at hsep
      obtain ⟨-, -, hlt, hge, -⟩ := separated_append_cons.mp hsep
      obtain ⟨a, ha⟩ := List.exists_mem_of_ne_nil _
        (hf.2.2.1.entries_ne_nil (by decide) (by decide))
      obtain ⟨b, hb⟩ := List.exists_mem_of_ne_nil _
        ((hf.2.2.2 e he).entries_ne_nil (by decide) (by decide))
      refine ⟨⟨a, hmem _ List.mem_cons_self a ha, ?_⟩, b, hmem e.2 ?_ b hb, hge b hb⟩
      · exact (hlt a (mem_forest.mpr (Or.inl ha))).le
      · exact List.mem_cons_of_mem _ (List.mem_map_of_mem he)
    · obtain ⟨p, hp, hx⟩ := List.mem_flatMap.mp hx
      rw [hh.childrenAt_eq] at hp
      obtain ⟨q, hq, hp⟩ := List.mem_flatMap.mp hp
      obtain ⟨c, hc, rfl⟩ := List.mem_map.mp hq
      obtain ⟨ex, hex⟩ := hh.child c hc
      obtain ⟨⟨a, ha, hax⟩, b, hb, hbx⟩ :=
        ih hex (ho.child c hc) (hf.child c hc) x (List.mem_flatMap.mpr ⟨p, hp, hx⟩)
      exact ⟨⟨a, hmem c hc a ha, hax⟩, b, hmem c hc b hb, hbx⟩

/-- A stored, ordered and filled tree has the shape of a B+ tree. -/
theorem Holds.wellShaped {lo : Nat} {t : BPlus Int Int n} (hh : Holds h n t exit)
    (ho : BPlus.Ordered n t) (hf : BPlus.Filled bptreeMaxKeys lo n t) :
    WellShaped h lo n (BPlus.label n t) := by
  induction n generalizing exit lo with
  | zero =>
    refine ⟨_, _, _, hh, ?_, ?_, ?_, ?_⟩
    · rw [List.length_map, List.length_map]
    · rw [List.length_map]
      exact hf.1
    · rw [List.length_map]
      exact hf.2
    · exact List.pairwise_map.mpr ho
  | succ n ih =>
    refine ⟨_, _, hh.1, ?_, ?_, ?_, ?_, ?_, ?_⟩
    · rw [List.length_cons, List.length_map, List.length_map]
    · rw [List.length_map]
      exact hf.1
    · rw [List.length_map]
      exact hf.2.1
    · exact List.pairwise_map.mpr ho.2.2.pairwise
    · intro p hp
      have hp' : p ∈ (Branch.first t :: (Branch.rest t).map Prod.snd).map (BPlus.label n) := by
        simpa using hp
      obtain ⟨c, hc, rfl⟩ := List.mem_map.mp hp'
      obtain ⟨ex, hex⟩ := hh.child c hc
      exact ih hex (ho.child c hc) (hf.child c hc)
    · intro i key hi
      obtain ⟨e, he, rfl⟩ : ∃ e, (Branch.rest t)[i]? = some e ∧ e.1 = key := by
        simpa using hi
      obtain ⟨left, hleft, hlt, hge⟩ := ho.2.2.neighbours he
      have hl := List.mem_of_getElem? hleft
      have hr : e.2 ∈ Branch.first t :: (Branch.rest t).map Prod.snd :=
        List.mem_cons_of_mem _ (List.mem_map_of_mem (List.mem_of_getElem? he))
      obtain ⟨ex, hex⟩ := hh.child _ hl
      obtain ⟨ex', hex'⟩ := hh.child _ hr
      refine ⟨BPlus.label n left, BPlus.label n e.2, ?_, ?_, ?_, ?_⟩
      · have hc := List.getElem?_map (f := BPlus.label n)
          (l := Branch.first t :: (Branch.rest t).map Prod.snd) (i := i)
        rw [hleft, List.map_cons, List.map_map] at hc
        exact hc
      · rw [List.getElem?_cons_succ, List.getElem?_map, he]
        rfl
      · intro x hx
        obtain ⟨-, b, hb, hle⟩ := hex.keysUnder_between (ho.child _ hl) (hf.child _ hl) x hx
        exact Int.lt_of_le_of_lt hle (hlt b hb)
      · intro x hx
        obtain ⟨⟨a, ha, hle⟩, -⟩ :=
          hex'.keysUnder_between (ho.child _ hr) (hf.child _ hr) x hx
        exact Int.le_trans (hge a ha) hle

theorem LeafChain.followsNext {start : Option NodePtr} {ls : List (Leaf Int Int)}
    (hc : LeafChain h start ls none) : FollowsNext h start (ls.map Leaf.label) := by
  induction ls generalizing start with
  | nil => exact hc
  | cons l ls ih =>
    obtain ⟨hs, next, hg, hc⟩ := hc
    exact ⟨hs, _, _, next, hg, ih hc⟩

theorem LeafChain.keysAt_eq {start : Option NodePtr} {ls : List (Leaf Int Int)}
    (hc : LeafChain h start ls exit) :
    (ls.map Leaf.label).flatMap (keysAt h) = (ls.flatMap Leaf.entries).map Prod.fst := by
  induction ls generalizing start with
  | nil => rfl
  | cons l ls ih =>
    obtain ⟨-, next, hg, hc⟩ := hc
    rw [List.map_cons, List.flatMap_cons, ih hc, List.flatMap_cons, List.map_append]
    simp only [keysAt, hg]

end Stored

/-- A tree that stores a library tree has the shape of a B+ tree. -/
theorem Stores.treeShape {tree : BPlusTree} {n : Nat} {t : BPlus Int Int n}
    (h : Stores tree n t) : TreeShape tree (BPlus.label n t) n := by
  refine ⟨h.root, h.holds.wellShaped h.ordered h.filled, ?_, ⟨BPlus.firstLeaf n t, ?_, ?_⟩, ?_⟩
  · rw [h.holds.nodesUnder_eq]
    exact h.unshared
  · rw [leftmostLeaf, h.root]
    simp only [descendLeftmost_spec h.depth_lt h.holds, Option.map_some]
  · rw [h.holds.leavesUnder_eq]
    exact h.holds.leafChain.followsNext
  · intro hn
    rw [h.holds.leavesUnder_eq, h.holds.leafChain.keysAt_eq, List.length_map,
      ← BPlus.entries_eq_flatMap_leaves]
    -- below the root every leaf is at least half full
    have hfill : BPlus.Filled bptreeMaxKeys 2 n t := by
      cases n with
      | zero => omega
      | succ n => exact h.filled
    exact hfill.pow_le_length (by decide) (by decide)

/-- Every run of insertions from an empty tree leaves a tree of B+ tree shape. -/
theorem insertAll_treeShape {calloc : Nat → Bool} (hca : ∀ i, calloc i = true)
    (calls : List (Int × Int)) :
    ∃ tree returned, insertAll (bptreeCreate calloc) calls = some (tree, returned) ∧
      (calls = [] ∧ tree.root = none ∨ ∃ root d, TreeShape tree root d) := by
  obtain ⟨tree, returned, es, hrun, hrep, -, -, hfind⟩ :=
    insertAll_spec hca (represents_create calloc) calls
  refine ⟨tree, returned, hrun, ?_⟩
  cases hrep with
  | empty hr =>
    left
    refine ⟨?_, hr⟩
    cases calls with
    | nil => rfl
    | cons call calls =>
      have := hfind call.1
      simp [findEntry] at this
  | stored n t hs => exact Or.inr ⟨_, n, hs.treeShape⟩

theorem insertAll_treeShape_split :
    ∃ tree returned, insertAll (bptreeCreate fun _ ↦ true)
        [(1, 0), (2, 1), (3, 2), (4, 3)] = some (tree, returned) ∧
      ∃ root d, TreeShape tree root d := by
  obtain ⟨tree, returned, hrun, ⟨hc, -⟩ | hshape⟩ :=
    insertAll_treeShape (fun _ ↦ rfl) [(1, 0), (2, 1), (3, 2), (4, 3)]
  · cases hc
  · exact ⟨tree, returned, hrun, hshape⟩

end SqlProc.Index
