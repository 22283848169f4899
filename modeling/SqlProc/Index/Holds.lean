import SqlProc.Index.Node
import SqlProc.Support.BPlusInsert
import Mathlib.Data.Int.Order.Basic

/-!
# Library trees stored in the node heap

Library `Index`. `Holds` says that the nodes of a library tree stand in the heap under
their labels, linked from parent to child and from each leaf to the next. The positions
that the loops of `src/bptree.c` compute are those of the library, and a stored tree only
depends on its own nodes.
-/

namespace SqlProc.Index

open Support

/-- The children of a node hold one after the other: each leaf chain ends at the leftmost
leaf of the next child, and the last one at `exit`. -/
def HoldsChildren {T : Type} (P : T → Option NodePtr → Prop) (leftmost : T → NodePtr) :
    T → List (Int × T) → Option NodePtr → Prop
  | c, [], exit => P c exit
  | c, e :: rest, exit => P c (some (leftmost e.2)) ∧ HoldsChildren P leftmost e.2 rest exit

/-- The heap stores the tree `t`, whose last leaf points to `exit`. -/
def Holds (h : Heap) : (n : Nat) → BPlus Int Int n → Option NodePtr → Prop
  | 0, t, exit =>
    h.get (Leaf.label t) =
      some ⟨(Leaf.entries t).map Prod.fst, .leaf ((Leaf.entries t).map Prod.snd) exit⟩
  | n + 1, t, exit =>
    h.get (Branch.label t) =
      some ⟨(Branch.rest t).map Prod.fst,
        .internal (BPlus.label n (Branch.first t) ::
          (Branch.rest t).map fun e ↦ BPlus.label n e.2)⟩ ∧
      HoldsChildren (Holds h n) (BPlus.firstLeaf n) (Branch.first t) (Branch.rest t) exit

section Children

variable {T : Type} {P Q : T → Option NodePtr → Prop} {leftmost : T → NodePtr}

theorem HoldsChildren.imp {c : T} {rest : List (Int × T)} {exit : Option NodePtr}
    (h : HoldsChildren P leftmost c rest exit) (hc : ∀ e, P c e → Q c e)
    (hr : ∀ d ∈ rest, ∀ e, P d.2 e → Q d.2 e) : HoldsChildren Q leftmost c rest exit := by
  induction rest generalizing c with
  | nil => exact hc _ h
  | cons e rest ih =>
    exact ⟨hc _ h.1, ih h.2 (hr e (by simp)) fun d hd ↦ hr d (List.mem_cons_of_mem _ hd)⟩

theorem holdsChildren_append_cons {c : T} {left right : List (Int × T)} {e : Int × T}
    {exit : Option NodePtr} :
    HoldsChildren P leftmost c (left ++ e :: right) exit ↔
      HoldsChildren P leftmost c left (some (leftmost e.2)) ∧
        HoldsChildren P leftmost e.2 right exit := by
  induction left generalizing c with
  | nil => exact Iff.rfl
  | cons d left ih =>
    rw [List.cons_append, HoldsChildren, ih, HoldsChildren, and_assoc]

/-- Every child of a run holds, each with an exit of its own. -/
theorem HoldsChildren.exists_exit {c : T} {rest : List (Int × T)} {exit : Option NodePtr}
    (h : HoldsChildren P leftmost c rest exit) :
    ∀ d ∈ c :: rest.map Prod.snd, ∃ ex, P d ex := by
  induction rest generalizing c with
  | nil =>
    intro d hd
    rw [List.mem_singleton.mp hd]
    exact ⟨exit, h⟩
  | cons e rest ih => exact List.forall_mem_cons.mpr ⟨⟨_, h.1⟩, ih h.2⟩

/-- A run of children cut at an index. -/
theorem HoldsChildren.cut {c : T} {rest : List (Int × T)} {exit : Option NodePtr}
    (h : HoldsChildren P leftmost c rest exit) (i : Fin rest.length) :
    HoldsChildren P leftmost c (rest.take i) (some (leftmost (rest.get i).2)) ∧
      HoldsChildren P leftmost (rest.get i).2 (rest.drop (i + 1)) exit := by
  apply holdsChildren_append_cons.mp
  rw [List.get_eq_getElem, ← List.drop_eq_getElem_cons i.isLt, List.take_append_drop]
  exact h

end Children

/-! ### Positions of the C loops and children of the library -/

section Positions

variable {T α : Type} (f : T → α) (k : Int)

/-- `find_child_position` selects the child responsible for the key. -/
theorem getElem?_findChildPosition (first : T) (rest : List (Int × T)) :
    (f first :: rest.map fun e ↦ f e.2)[findChildPosition (rest.map Prod.fst) k]? =
      some (f (descend k first rest)) := by
  induction rest generalizing first with
  | nil => rfl
  | cons e rest ih =>
    by_cases hk : k < e.1
    · simp [findChildPosition, descend, hk]
    · have hle : e.1 ≤ k := Int.not_lt.mp hk
      simpa [findChildPosition, descend, hk, hle] using ih e.2

/-- Replacing one child by one child keeps the separators. -/
theorem map_fst_replace_one (c : T) (first : T) (rest : List (Int × T)) :
    (replace k (c, []) first rest).2.map Prod.fst = rest.map Prod.fst := by
  induction rest generalizing first with
  | nil => rfl
  | cons e rest ih =>
    rw [replace]
    split
    · rfl
    · simp [ih e.2]

/-- Replacing one child by one with the same label keeps the child pointers. -/
theorem map_label_replace_one {c : T} {first : T} {rest : List (Int × T)}
    (h : f c = f (descend k first rest)) :
    f (replace k (c, []) first rest).1 :: (replace k (c, []) first rest).2.map (fun e ↦ f e.2) =
      f first :: rest.map fun e ↦ f e.2 := by
  induction rest generalizing first with
  | nil => simpa [replace, descend] using h
  | cons e rest ih =>
    rw [descend] at h
    rw [replace]
    split
    · next hk => simpa [hk] using h
    · next hk =>
      rw [if_neg hk] at h
      simpa using ih h

/-- A split child puts its separator at the position of the C loops. -/
theorem map_fst_replace_two (l r : T) (s : Int) (first : T) (rest : List (Int × T)) :
    (replace k (l, [(s, r)]) first rest).2.map Prod.fst =
      (rest.map Prod.fst).insertIdx (findChildPosition (rest.map Prod.fst) k) s := by
  induction rest generalizing first with
  | nil => rfl
  | cons e rest ih =>
    by_cases hk : k < e.1
    · simp [replace, findChildPosition, hk]
    · have hle : e.1 ≤ k := Int.not_lt.mp hk
      have hi := ih e.2
      simp only [findChildPosition] at hi
      simp [replace, findChildPosition, hk, hle, hi]

/-- A split child puts its right half one position after its left half. -/
theorem map_label_replace_two {l r : T} {s : Int} {first : T} {rest : List (Int × T)}
    (h : f l = f (descend k first rest)) :
    f (replace k (l, [(s, r)]) first rest).1 ::
        (replace k (l, [(s, r)]) first rest).2.map (fun e ↦ f e.2) =
      (f first :: rest.map fun e ↦ f e.2).insertIdx
        (findChildPosition (rest.map Prod.fst) k + 1) (f r) := by
  induction rest generalizing first with
  | nil => simpa [replace, descend, findChildPosition] using h
  | cons e rest ih =>
    by_cases hk : k < e.1
    · simpa [replace, findChildPosition, descend, hk] using h
    · have hle : e.1 ≤ k := Int.not_lt.mp hk
      simp only [descend, hk, if_false] at h
      have hi := ih h
      simp only [findChildPosition] at hi
      simp [replace, findChildPosition, hk, hle, hi]

/-- `find_leaf_position` finds a key exactly when the leaf holds it. -/
theorem getElem?_findLeafPosition (es : List (Int × Int)) :
    (es.map Prod.fst)[findLeafPosition (es.map Prod.fst) k]? = some k ↔
      (findEntry k es).isSome = true := by
  induction es with
  | nil => simp [findLeafPosition, findEntry]
  | cons e es ih =>
    by_cases hk : e.1 < k
    · simpa [findLeafPosition, findEntry, hk] using ih
    · by_cases he : e.1 = k
      · simp [findLeafPosition, findEntry, he]
      · simp [findLeafPosition, findEntry, hk, he]

/-- The offset at the position of a key is its entry. -/
theorem getElem?_offset (es : List (Int × Int)) {v : Int} (h : findEntry k es = some v) :
    (es.map Prod.snd)[findLeafPosition (es.map Prod.fst) k]? = some v := by
  induction es with
  | nil => cases h
  | cons e es ih =>
    by_cases hk : e.1 < k
    · simp only [findEntry, hk, if_true] at h
      simpa [findLeafPosition, hk] using ih h
    · simp only [findEntry, hk, if_false] at h
      split at h
      · simpa [findLeafPosition, hk] using h
      · cases h

/-- Shifting the keys of a leaf inserts the entry in order. -/
theorem map_fst_insertEntry (v : Int) (es : List (Int × Int)) :
    (insertEntry k v es).map Prod.fst =
      (es.map Prod.fst).insertIdx (findLeafPosition (es.map Prod.fst) k) k := by
  induction es with
  | nil => rfl
  | cons e es ih =>
    by_cases hk : e.1 < k
    · simp only [findLeafPosition] at ih
      simp [insertEntry, findLeafPosition, hk, ih]
    · simp [insertEntry, findLeafPosition, hk]

/-- Shifting the offsets of a leaf inserts the entry in order. -/
theorem map_snd_insertEntry (v : Int) (es : List (Int × Int)) :
    (insertEntry k v es).map Prod.snd =
      (es.map Prod.snd).insertIdx (findLeafPosition (es.map Prod.fst) k) v := by
  induction es with
  | nil => rfl
  | cons e es ih =>
    by_cases hk : e.1 < k
    · simp only [findLeafPosition] at ih
      simp [insertEntry, findLeafPosition, hk, ih]
    · simp [insertEntry, findLeafPosition, hk]

end Positions

/-! ### The heap -/

namespace Heap

variable (h : Heap)

theorem get_set_self {p : NodePtr} (hp : p < h.nodes.length) (node : BPlusTreeNode) :
    (h.set p node).get p = some node := by
  simp [Heap.get, Heap.set, hp]

theorem get_set_ne {p q : NodePtr} (hne : q ≠ p) (node : BPlusTreeNode) :
    (h.set p node).get q = h.get q := by
  simp [Heap.get, Heap.set, Ne.symm hne]

@[simp] theorem length_nodes_set (p : NodePtr) (node : BPlusTreeNode) :
    (h.set p node).nodes.length = h.nodes.length := by
  simp [Heap.set]

theorem lt_of_get {p : NodePtr} {node : BPlusTreeNode} (hg : h.get p = some node) :
    p < h.nodes.length := (List.getElem?_eq_some_iff.mp hg).1

/-- The heap with one more node. -/
def alloc (data : BPlusTreeNodeData) : Heap := { h with nodes := h.nodes ++ [⟨[], data⟩] }

@[simp] theorem length_nodes_alloc (data : BPlusTreeNodeData) :
    (h.alloc data).nodes.length = h.nodes.length + 1 := by
  simp [alloc]

theorem get_alloc {p : NodePtr} (hp : p < h.nodes.length) (data : BPlusTreeNodeData) :
    (h.alloc data).get p = h.get p := List.getElem?_append_left hp

theorem createNode_eq (hc : ∀ i, h.calloc i = true) (data : BPlusTreeNodeData) :
    createNode h data = some (h.nodes.length, h.alloc data) := by
  simp [createNode, hc, alloc]

end Heap

/-- What an operation on the nodes `touched` leaves of a heap that had `old` nodes. -/
structure Update (h h' : Heap) (touched : List NodePtr) (next : Nat) : Prop where
  frame : ∀ a < h.nodes.length, a ∉ touched → h'.get a = h.get a
  size : h'.nodes.length = next
  calloc : h'.calloc = h.calloc

theorem Update.trans {h h₁ h₂ : Heap} {touched₁ touched₂ touched : List NodePtr} {next₁ next₂ : Nat}
    (hu : Update h h₁ touched₁ next₁) (hv : Update h₁ h₂ touched₂ next₂)
    (hle : h.nodes.length ≤ next₁) (ht₁ : ∀ a ∈ touched₁, a ∈ touched)
    (ht₂ : ∀ a ∈ touched₂, a ∈ touched) : Update h h₂ touched next₂ := by
  refine ⟨fun a ha hn ↦ ?_, hv.size, hv.calloc.trans hu.calloc⟩
  have ha' : a < h₁.nodes.length := by
    rw [hu.size]
    omega
  rw [hv.frame a ha' fun hm ↦ hn (ht₂ a hm), hu.frame a ha fun hm ↦ hn (ht₁ a hm)]

/-- Overwriting one node. -/
theorem update_set (h : Heap) (p : NodePtr) (node : BPlusTreeNode) :
    Update h (h.set p node) [p] h.nodes.length :=
  ⟨fun _ _ hn ↦ h.get_set_ne (fun he ↦ hn (List.mem_singleton.mpr he)) node,
    h.length_nodes_set p node, rfl⟩

/-- A node split overwrites one node and writes one new node. -/
theorem update_split (h : Heap) {p : NodePtr} (hp : p < h.nodes.length)
    (data : BPlusTreeNodeData) (left right : BPlusTreeNode) :
    Update h (((h.alloc data).set p left).set h.nodes.length right) [p] (h.nodes.length + 1) ∧
      (((h.alloc data).set p left).set h.nodes.length right).get p = some left ∧
      (((h.alloc data).set p left).set h.nodes.length right).get h.nodes.length = some right := by
  refine ⟨⟨fun a ha hn ↦ ?_, ?_, rfl⟩, ?_, ?_⟩
  · have hap : a ≠ p := fun he ↦ hn (List.mem_singleton.mpr he)
    rw [Heap.get_set_ne _ (Nat.ne_of_lt ha), Heap.get_set_ne _ hap, h.get_alloc ha]
  · simp
  · rw [Heap.get_set_ne _ (Nat.ne_of_lt hp), Heap.get_set_self]
    rw [Heap.length_nodes_alloc]
    exact Nat.lt_succ_of_lt hp
  · rw [Heap.get_set_self _ (by simp)]

/-! ### Frames -/

/-- Every node of a stored tree is allocated. -/
theorem Holds.lt {h : Heap} {n : Nat} {t : BPlus Int Int n} {exit : Option NodePtr}
    (hh : Holds h n t exit) : ∀ a ∈ BPlus.labels n t, a < h.nodes.length := by
  induction n generalizing exit with
  | zero =>
    intro a ha
    rw [List.mem_singleton.mp ha]
    exact h.lt_of_get hh
  | succ n ih =>
    have hc : ∀ (c : BPlus Int Int n) (rest : List (Int × BPlus Int Int n)) (e : Option NodePtr),
        HoldsChildren (Holds h n) (BPlus.firstLeaf n) c rest e →
          ∀ a ∈ forest (BPlus.labels n) c rest, a < h.nodes.length := by
      intro c rest
      induction rest generalizing c with
      | nil =>
        intro e he a ha
        rw [forest_nil] at ha
        exact ih he a ha
      | cons d rest ihr =>
        intro e he a ha
        rw [forest_cons, List.mem_append] at ha
        rcases ha with ha | ha
        · exact ih he.1 a ha
        · exact ihr d.2 e he.2 a ha
    intro a ha
    rcases List.mem_cons.mp ha with rfl | ha
    · exact h.lt_of_get hh.1
    · exact hc _ _ _ hh.2 a ha

/-- Every child of a stored branch is stored. -/
theorem Holds.child {h : Heap} {n : Nat} {t : BPlus Int Int (n + 1)} {exit : Option NodePtr}
    (hh : Holds h (n + 1) t exit) :
    ∀ c ∈ Branch.first t :: (Branch.rest t).map Prod.snd, ∃ ex, Holds h n c ex :=
  hh.2.exists_exit

/-- A stored tree only depends on its own nodes. -/
theorem Holds.congr {h h' : Heap} {n : Nat} {t : BPlus Int Int n} {exit : Option NodePtr}
    (hh : Holds h n t exit) (hf : ∀ a ∈ BPlus.labels n t, h'.get a = h.get a) :
    Holds h' n t exit := by
  induction n generalizing exit with
  | zero => exact (hf _ (List.mem_singleton.mpr rfl)).trans hh
  | succ n ih =>
    refine ⟨(hf _ List.mem_cons_self).trans hh.1, hh.2.imp ?_ ?_⟩
    · intro e he
      exact ih he fun a ha ↦
        hf a (List.mem_cons_of_mem _ (mem_forest.mpr (Or.inl ha)))
    · intro d hd e he
      exact ih he fun a ha ↦
        hf a (List.mem_cons_of_mem _ (mem_forest.mpr (Or.inr ⟨d, hd, ha⟩)))

theorem HoldsChildren.congr {h h' : Heap} {n : Nat} {c : BPlus Int Int n}
    {rest : List (Int × BPlus Int Int n)} {exit : Option NodePtr}
    (hh : HoldsChildren (Holds h n) (BPlus.firstLeaf n) c rest exit)
    (hf : ∀ a ∈ forest (BPlus.labels n) c rest, h'.get a = h.get a) :
    HoldsChildren (Holds h' n) (BPlus.firstLeaf n) c rest exit := by
  apply hh.imp
  · intro e he
    exact he.congr fun a ha ↦ hf a (mem_forest.mpr (Or.inl ha))
  · intro d hd e he
    exact he.congr fun a ha ↦ hf a (mem_forest.mpr (Or.inr ⟨d, hd, ha⟩))

/-- Every node below a run of stored children is allocated. -/
theorem HoldsChildren.lt {h : Heap} {n : Nat} {c : BPlus Int Int n}
    {rest : List (Int × BPlus Int Int n)} {exit : Option NodePtr}
    (hh : HoldsChildren (Holds h n) (BPlus.firstLeaf n) c rest exit) :
    ∀ a ∈ forest (BPlus.labels n) c rest, a < h.nodes.length := by
  induction rest generalizing c with
  | nil =>
    intro a ha
    rw [forest_nil] at ha
    exact Holds.lt hh a ha
  | cons d rest ih =>
    intro a ha
    rw [forest_cons, List.mem_append] at ha
    rcases ha with ha | ha
    · exact Holds.lt hh.1 a ha
    · exact ih hh.2 a ha

/-- Children that take the place of the one responsible for `k`, in a heap that is otherwise
unchanged, complete the chain of children again. -/
def Refocus (h : Heap) (n : Nat) (k : Int) (first : BPlus Int Int n)
    (rest : List (Int × BPlus Int Int n)) (ex exit : Option NodePtr) : Prop :=
  ∀ (h' : Heap) (new : BPlus Int Int n × List (Int × BPlus Int Int n)),
    BPlus.firstLeaf n new.1 = BPlus.firstLeaf n (descend k first rest) →
    HoldsChildren (Holds h' n) (BPlus.firstLeaf n) new.1 new.2 ex →
    (∀ a ∈ forest (BPlus.labels n) first rest,
      a ∉ BPlus.labels n (descend k first rest) → h'.get a = h.get a) →
    HoldsChildren (Holds h' n) (BPlus.firstLeaf n) (replace k new first rest).1
      (replace k new first rest).2 exit

/-- The child responsible for a key stands in the heap and can be replaced. -/
theorem HoldsChildren.focus {h : Heap} {n : Nat} {first : BPlus Int Int n}
    {rest : List (Int × BPlus Int Int n)} {exit : Option NodePtr} (k : Int)
    (hh : HoldsChildren (Holds h n) (BPlus.firstLeaf n) first rest exit)
    (hnd : (forest (BPlus.labels n) first rest).Nodup) :
    ∃ ex, Holds h n (descend k first rest) ex ∧ Refocus h n k first rest ex exit := by
  induction rest generalizing first with
  | nil => exact ⟨exit, hh, fun h' new _ hn _ ↦ hn⟩
  | cons e rest ih =>
    rw [forest_cons, List.nodup_append] at hnd
    obtain ⟨-, hndr, hdis⟩ := hnd
    by_cases hk : k < e.1
    · simp only [Refocus, descend, replace, hk, if_true]
      refine ⟨_, hh.1, fun h' new hl hn hf ↦ ?_⟩
      refine holdsChildren_append_cons.mpr ⟨hn, ?_⟩
      have hr : ∀ a ∈ forest (BPlus.labels n) e.2 rest, h'.get a = h.get a := by
        intro a ha
        refine hf a ?_ fun hm ↦ hdis a hm a ha rfl
        rw [forest_cons]
        exact List.mem_append_right _ ha
      exact hh.2.congr hr
    · simp only [Refocus, descend, replace, hk, if_false]
      obtain ⟨ex, hc, hn⟩ := ih hh.2 hndr
      refine ⟨ex, hc, fun h' new hl hnew hf ↦ ⟨?_, ?_⟩⟩
      · rw [BPlus.firstLeaf_replace hl]
        apply hh.1.congr
        intro a ha
        apply hf a (by rw [forest_cons]; exact List.mem_append_left _ ha)
        intro hm
        obtain ⟨xs, ys, hfo, -⟩ := forest_replace (BPlus.labels n) k e.2 rest
        refine hdis a ha a ?_ rfl
        rw [hfo]
        simp [hm]
      · apply hn h' new hl hnew
        intro a ha
        exact hf a (by rw [forest_cons]; exact List.mem_append_right _ ha)

end SqlProc.Index
