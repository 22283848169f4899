import SqlProc.Index.Holds
import Mathlib.Data.List.Perm.Subperm

/-!
# The nodes of a tree and their release

Library `Index`. `bptree_destroy` of `src/bptree.c`, and what it needs of a heap: the links below
the root form a tree of uniform depth, in which no node is reached twice. No order of keys is
asked for, so this also speaks about a tree that a failed insertion has left with a lost half.
-/

namespace SqlProc.Index

/-! ### The source -/

/-- `free`, with the nodes freed so far; a node that is freed twice has no result. -/
def freeNode (freed : List NodePtr) (node : NodePtr) : Option (List NodePtr) :=
  if node ∈ freed then none else some (freed ++ [node])

/-- `destroy_node`; a freed node that is read, or a child that was never written, has no
result. -/
def destroyNode : Nat → Heap → List NodePtr → NodePtr → Option (List NodePtr)
  | 0, _, _, _ => none
  | fuel + 1, h, freed, node =>
    if node ∈ freed then none
    else
      match h.get node with
      | none => none
      | some ⟨_, .leaf _ _⟩ => freeNode freed node
      | some ⟨keys, .internal children⟩ =>
        if children.length ≤ keys.length then none
        else
          match (children.take (keys.length + 1)).foldlM (destroyNode fuel h) freed with
          | none => none
          | some freed => freeNode freed node

/-- `bptree_destroy`; the nodes in the order in which they are freed. -/
def bptreeDestroy (tree : BPlusTree) : Option (List NodePtr) :=
  match tree.root with
  | none => some []
  | some root => destroyNode tree.heap.nodes.length tree.heap [] root

/-! ### The nodes below a node -/

/-- The nodes at most `n` levels below a node, each one after its children. -/
def nodesBelow (h : Heap) : Nat → NodePtr → List NodePtr
  | 0, node => [node]
  | n + 1, node =>
    match h.get node with
    | some ⟨_, .internal children⟩ => children.flatMap (nodesBelow h n) ++ [node]
    | _ => [node]

/-- The links from a node lead to leaves, all of them `n` levels below it. -/
def Stands (h : Heap) : Nat → NodePtr → Prop
  | 0, node => ∃ keys offsets next, h.get node = some ⟨keys, .leaf offsets next⟩
  | n + 1, node => ∃ keys children, h.get node = some ⟨keys, .internal children⟩ ∧
      children.length = keys.length + 1 ∧ ∀ child ∈ children, Stands h n child

theorem nodesBelow_internal {h : Heap} {node : NodePtr} {keys : List Int}
    {children : List NodePtr} (hg : h.get node = some ⟨keys, .internal children⟩) (n : Nat) :
    nodesBelow h (n + 1) node = children.flatMap (nodesBelow h n) ++ [node] := by
  simp only [nodesBelow, hg]

theorem self_mem_nodesBelow (h : Heap) (n : Nat) (node : NodePtr) :
    node ∈ nodesBelow h n node := by
  cases n with
  | zero => exact List.mem_singleton.mpr rfl
  | succ n =>
    rw [nodesBelow]
    split
    · exact List.mem_append_right _ (List.mem_singleton.mpr rfl)
    · exact List.mem_singleton.mpr rfl

/-- Every node below a standing node is allocated. -/
theorem Stands.lt {h : Heap} {n : Nat} {node : NodePtr} (hs : Stands h n node) :
    ∀ a ∈ nodesBelow h n node, a < h.nodes.length := by
  induction n generalizing node with
  | zero =>
    obtain ⟨keys, offsets, next, hg⟩ := hs
    intro a ha
    rw [List.mem_singleton.mp ha]
    exact h.lt_of_get hg
  | succ n ih =>
    obtain ⟨keys, children, hg, -, hc⟩ := hs
    intro a ha
    rw [nodesBelow_internal hg, List.mem_append, List.mem_flatMap, List.mem_singleton] at ha
    rcases ha with ⟨child, hm, ha⟩ | rfl
    · exact ih (hc child hm) a ha
    · exact h.lt_of_get hg

/-- There are more nodes below a node than levels. -/
theorem Stands.lt_length {h : Heap} {n : Nat} {node : NodePtr} (hs : Stands h n node) :
    n < (nodesBelow h n node).length := by
  induction n generalizing node with
  | zero => exact Nat.zero_lt_one
  | succ n ih =>
    obtain ⟨keys, children, hg, hlen, hc⟩ := hs
    cases children with
    | nil => simp at hlen
    | cons child rest =>
      have hfirst := ih (hc child List.mem_cons_self)
      rw [nodesBelow_internal hg, List.flatMap_cons]
      simp only [List.length_append, List.length_singleton]
      omega

/-- The nodes below a node only depend on their own contents. -/
theorem nodesBelow_congr {h h' : Heap} {n : Nat} {node : NodePtr}
    (hf : ∀ a ∈ nodesBelow h n node, h'.get a = h.get a) :
    nodesBelow h' n node = nodesBelow h n node := by
  induction n generalizing node with
  | zero => rfl
  | succ n ih =>
    have hself := hf node (self_mem_nodesBelow h (n + 1) node)
    simp only [nodesBelow, hself] at hf ⊢
    split
    · next keys children hg =>
      simp only [hg] at hf
      rw [List.flatMap_congr fun child hm ↦ ih fun a ha ↦
        hf a (List.mem_append_left _ (List.mem_flatMap.mpr ⟨child, hm, ha⟩))]
    · rfl

theorem Stands.congr {h h' : Heap} {n : Nat} {node : NodePtr} (hs : Stands h n node)
    (hf : ∀ a ∈ nodesBelow h n node, h'.get a = h.get a) : Stands h' n node := by
  induction n generalizing node with
  | zero =>
    obtain ⟨keys, offsets, next, hg⟩ := hs
    exact ⟨keys, offsets, next, (hf node (List.mem_singleton.mpr rfl)).trans hg⟩
  | succ n ih =>
    obtain ⟨keys, children, hg, hlen, hc⟩ := hs
    rw [nodesBelow_internal hg] at hf
    refine ⟨keys, children, ?_, hlen, ?_⟩
    · exact (hf node (List.mem_append_right _ (List.mem_singleton.mpr rfl))).trans hg
    · intro child hm
      apply ih (hc child hm)
      intro a ha
      exact hf a (List.mem_append_left _ (List.mem_flatMap.mpr ⟨child, hm, ha⟩))

/-! ### Descents and release -/

theorem findChildPosition_le (keys : List Int) (key : Int) :
    findChildPosition keys key ≤ keys.length :=
  (List.takeWhile_sublist _).length_le

/-- The child that a descent for the key follows. -/
theorem exists_child {keys : List Int} {children : List NodePtr}
    (hlen : children.length = keys.length + 1) (key : Int) :
    ∃ before child after, children = before ++ child :: after ∧
      before.length = findChildPosition keys key ∧
      children[findChildPosition keys key]? = some child := by
  have hle := findChildPosition_le keys key
  have hlt : findChildPosition keys key < children.length := by omega
  refine ⟨children.take (findChildPosition keys key), children[findChildPosition keys key],
    children.drop (findChildPosition keys key + 1), ?_, ?_, List.getElem?_eq_getElem hlt⟩
  · rw [← List.drop_eq_getElem_cons hlt, List.take_append_drop]
  · rw [List.length_take]
    omega

/-- A descent ends at a leaf. -/
theorem Stands.descendToLeaf {h : Heap} {n fuel : Nat} {node : NodePtr} (hs : Stands h n node)
    (hfuel : n < fuel) (key : Int) :
    ∃ leaf keys offsets next, descendToLeaf fuel h node key = some leaf ∧
      h.get leaf = some ⟨keys, .leaf offsets next⟩ := by
  induction n generalizing node fuel with
  | zero =>
    obtain ⟨fuel, rfl⟩ : ∃ f, fuel = f + 1 := ⟨fuel - 1, by omega⟩
    obtain ⟨keys, offsets, next, hg⟩ := hs
    exact ⟨node, keys, offsets, next, by simp only [Index.descendToLeaf, hg], hg⟩
  | succ n ih =>
    obtain ⟨fuel, rfl⟩ : ∃ f, fuel = f + 1 := ⟨fuel - 1, by omega⟩
    obtain ⟨keys, children, hg, hlen, hc⟩ := hs
    obtain ⟨before, child, after, heq, -, hat⟩ := exists_child hlen key
    have hm : child ∈ children := by simp [heq]
    obtain ⟨leaf, keys, offsets, next, hd, hl⟩ := ih (hc child hm) (Nat.lt_of_succ_lt_succ hfuel)
    exact ⟨leaf, keys, offsets, next, by simp only [Index.descendToLeaf, hg, hat, hd], hl⟩

/-- The descent to the leftmost leaf ends at a leaf. -/
theorem Stands.descendLeftmost {h : Heap} {n fuel : Nat} {node : NodePtr} (hs : Stands h n node)
    (hfuel : n < fuel) :
    ∃ leaf keys offsets next, descendLeftmost fuel h node = some leaf ∧
      h.get leaf = some ⟨keys, .leaf offsets next⟩ := by
  induction n generalizing node fuel with
  | zero =>
    obtain ⟨fuel, rfl⟩ : ∃ f, fuel = f + 1 := ⟨fuel - 1, by omega⟩
    obtain ⟨keys, offsets, next, hg⟩ := hs
    exact ⟨node, keys, offsets, next, by simp only [Index.descendLeftmost, hg], hg⟩
  | succ n ih =>
    obtain ⟨fuel, rfl⟩ : ∃ f, fuel = f + 1 := ⟨fuel - 1, by omega⟩
    obtain ⟨keys, children, hg, hlen, hc⟩ := hs
    cases children with
    | nil => simp at hlen
    | cons child rest =>
      obtain ⟨leaf, keys, offsets, next, hd, hl⟩ :=
        ih (hc child List.mem_cons_self) (Nat.lt_of_succ_lt_succ hfuel)
      exact ⟨leaf, keys, offsets, next,
        by simp only [Index.descendLeftmost, hg, List.getElem?_cons_zero, hd], hl⟩

/-- `destroy_node` frees the nodes below a node, none of them twice. -/
theorem destroyNode_eq {h : Heap} {n fuel : Nat} {freed : List NodePtr} {node : NodePtr}
    (hs : Stands h n node) (hfuel : n < fuel) (hnd : (freed ++ nodesBelow h n node).Nodup) :
    destroyNode fuel h freed node = some (freed ++ nodesBelow h n node) := by
  induction n generalizing node fuel freed with
  | zero =>
    obtain ⟨fuel, rfl⟩ : ∃ f, fuel = f + 1 := ⟨fuel - 1, by omega⟩
    obtain ⟨keys, offsets, next, hg⟩ := hs
    have hnew : node ∉ freed := by
      intro hm
      exact (List.nodup_append.mp hnd).2.2 node hm node (List.mem_singleton.mpr rfl) rfl
    simp only [destroyNode, freeNode, hg, if_neg hnew, nodesBelow]
  | succ n ih =>
    obtain ⟨fuel, rfl⟩ : ∃ f, fuel = f + 1 := ⟨fuel - 1, by omega⟩
    obtain ⟨keys, children, hg, hlen, hc⟩ := hs
    have hfuel' : n < fuel := Nat.lt_of_succ_lt_succ hfuel
    rw [nodesBelow_internal hg, ← List.append_assoc] at hnd ⊢
    obtain ⟨hndc, -, hdis⟩ := List.nodup_append.mp hnd
    have hnew : node ∉ freed ++ children.flatMap (nodesBelow h n) := by
      intro hm
      exact hdis node hm node (List.mem_singleton.mpr rfl) rfl
    -- the children one after the other, with what is freed before them
    have hloop : ∀ (cs : List NodePtr) (freed : List NodePtr), (∀ c ∈ cs, Stands h n c) →
        (freed ++ cs.flatMap (nodesBelow h n)).Nodup →
        cs.foldlM (destroyNode fuel h) freed = some (freed ++ cs.flatMap (nodesBelow h n)) := by
      intro cs
      induction cs with
      | nil =>
        intro freed _ _
        simp
      | cons c cs ihc =>
        intro freed hcs hnd
        rw [List.flatMap_cons, ← List.append_assoc] at hnd ⊢
        have hfirst := ih (hcs c List.mem_cons_self) hfuel' (List.nodup_append.mp hnd).1
        rw [List.foldlM_cons, hfirst]
        exact ihc _ (fun d hd ↦ hcs d (List.mem_cons_of_mem _ hd)) hnd
    have htake : children.take (keys.length + 1) = children :=
      List.take_of_length_le (Nat.le_of_eq hlen)
    rw [List.mem_append, not_or] at hnew
    simp only [destroyNode, freeNode, hg, if_neg hnew.1, htake, hloop children freed hc hndc]
    rw [if_neg (by omega), if_neg (by simp [hnew.1, hnew.2])]

end SqlProc.Index
