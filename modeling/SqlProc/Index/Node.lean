import Mathlib.Data.List.Basic

/-!
# The B+ tree of the index: nodes, insertion, search and range visits

Library `Index`. Models `src/bptree.c`. Nodes live in a heap and are linked by
pointers; `calloc` hands out the next address. An array of `key_count` meaningful
cells is the list of these cells, and the loops that shift cells to make room are
list insertions. A function that follows a dangling pointer, or runs deeper than the
number of nodes, has no result.
-/

namespace SqlProc.Index

/-- `BPTREE_ORDER`. -/
abbrev bptreeOrder : Nat := 4

/-- `BPTREE_MAX_KEYS`. -/
abbrev bptreeMaxKeys : Nat := bptreeOrder - 1

/-- The address of a node. -/
abbrev NodePtr := Nat

/-- `BPlusTreeNodeData`, the union selected by `is_leaf`. -/
inductive BPlusTreeNodeData where
  | leaf (offsets : List Int) (next : Option NodePtr)
  | internal (children : List NodePtr)
  deriving DecidableEq, Repr

/-- `struct BPlusTreeNode`; `key_count` is the length of `keys`. -/
structure BPlusTreeNode where
  keys : List Int
  data : BPlusTreeNodeData
  deriving DecidableEq, Repr

/-- The allocated nodes, in the order of their addresses, and whether `calloc` succeeds
when that many nodes are allocated. -/
structure Heap where
  nodes : List BPlusTreeNode
  calloc : Nat → Bool

/-- `struct BPlusTree`, with the heap that holds its nodes. -/
structure BPlusTree where
  root : Option NodePtr
  heap : Heap

/-- `InsertResult`. -/
structure InsertResult where
  split : Bool
  duplicate : Bool
  failed : Bool
  promotedKey : Int
  rightNode : Option NodePtr
  deriving DecidableEq, Repr

/-- `memset(&result, 0, sizeof(result))`. -/
def InsertResult.zero : InsertResult := ⟨false, false, false, 0, none⟩

/-- Dereference a pointer. -/
def Heap.get (h : Heap) (p : NodePtr) : Option BPlusTreeNode := h.nodes[p]?

/-- Overwrite a node. -/
def Heap.set (h : Heap) (p : NodePtr) (node : BPlusTreeNode) : Heap :=
  { h with nodes := h.nodes.set p node }

/-- `create_node`; `data` is the zeroed union member that `is_leaf` selects. -/
def createNode (h : Heap) (data : BPlusTreeNodeData) : Option (NodePtr × Heap) :=
  if h.calloc h.nodes.length then
    some (h.nodes.length, { h with nodes := h.nodes ++ [⟨[], data⟩] })
  else none

/-- `bptree_create`. -/
def bptreeCreate (calloc : Nat → Bool) : BPlusTree := ⟨none, ⟨[], calloc⟩⟩

/-- `find_leaf_position`. -/
def findLeafPosition (keys : List Int) (key : Int) : Nat := (keys.takeWhile (· < key)).length

/-- `find_child_position`. -/
def findChildPosition (keys : List Int) (key : Int) : Nat := (keys.takeWhile (· ≤ key)).length

/-- `insert_leaf_without_split`. -/
def insertLeafWithoutSplit (h : Heap) (leaf : NodePtr) (keys offsets : List Int)
    (next : Option NodePtr) (position : Nat) (key offset : Int) : Heap :=
  h.set leaf ⟨keys.insertIdx position key, .leaf (offsets.insertIdx position offset) next⟩

/-- `split_leaf_and_insert`. -/
def splitLeafAndInsert (h : Heap) (leaf : NodePtr) (keys offsets : List Int)
    (next : Option NodePtr) (key offset : Int) : Heap × InsertResult :=
  match createNode h (.leaf [] none) with
  | none => (h, { InsertResult.zero with failed := true })
  | some (right, h) =>
    let insertPosition := findLeafPosition keys key
    let tempKeys := keys.insertIdx insertPosition key
    let tempOffsets := offsets.insertIdx insertPosition offset
    let totalCount := keys.length + 1
    let splitIndex := totalCount / 2
    let rightKeys := tempKeys.drop splitIndex
    let h := h.set leaf ⟨tempKeys.take splitIndex, .leaf (tempOffsets.take splitIndex) (some right)⟩
    let h := h.set right ⟨rightKeys, .leaf (tempOffsets.drop splitIndex) next⟩
    (h, { InsertResult.zero with
      split := true, promotedKey := rightKeys.headD 0, rightNode := some right })

/-- `insert_into_leaf`. -/
def insertIntoLeaf (h : Heap) (leaf : NodePtr) (keys offsets : List Int)
    (next : Option NodePtr) (key offset : Int) : Heap × InsertResult :=
  let position := findLeafPosition keys key
  if keys[position]? = some key then (h, { InsertResult.zero with duplicate := true })
  else if keys.length < bptreeMaxKeys then
    (insertLeafWithoutSplit h leaf keys offsets next position key offset, .zero)
  else splitLeafAndInsert h leaf keys offsets next key offset

/-- `insert_internal_without_split`. -/
def insertInternalWithoutSplit (h : Heap) (node : NodePtr) (keys : List Int)
    (children : List NodePtr) (position : Nat) (promotedKey : Int) (rightChild : NodePtr) : Heap :=
  h.set node ⟨keys.insertIdx position promotedKey,
    .internal (children.insertIdx (position + 1) rightChild)⟩

/-- `split_internal_and_insert`. -/
def splitInternalAndInsert (h : Heap) (node : NodePtr) (keys : List Int)
    (children : List NodePtr) (position : Nat) (promotedKey : Int) (rightChild : NodePtr) :
    Heap × InsertResult :=
  match createNode h (.internal []) with
  | none => (h, { InsertResult.zero with failed := true })
  | some (right, h) =>
    let tempKeys := keys.insertIdx position promotedKey
    let tempChildren := children.insertIdx (position + 1) rightChild
    let totalKeys := keys.length + 1
    let splitIndex := totalKeys / 2
    let h := h.set node ⟨tempKeys.take splitIndex, .internal (tempChildren.take (splitIndex + 1))⟩
    let h := h.set right
      ⟨tempKeys.drop (splitIndex + 1), .internal (tempChildren.drop (splitIndex + 1))⟩
    (h, { InsertResult.zero with
      split := true, promotedKey := tempKeys.getD splitIndex 0, rightNode := some right })

/-- `insert_recursive`; the first argument bounds the depth of the recursion. -/
def insertRecursive : Nat → Heap → NodePtr → Int → Int → Option (Heap × InsertResult)
  | 0, _, _, _, _ => none
  | fuel + 1, h, node, key, offset =>
    match h.get node with
    | none => none
    | some ⟨keys, .leaf offsets next⟩ => some (insertIntoLeaf h node keys offsets next key offset)
    | some ⟨keys, .internal children⟩ =>
      let childPosition := findChildPosition keys key
      match children[childPosition]? with
      | none => none
      | some child =>
        match insertRecursive fuel h child key offset with
        | none => none
        | some (h, childResult) =>
          if !childResult.split || childResult.duplicate || childResult.failed then
            some (h, childResult)
          else
            match h.get node, childResult.rightNode with
            | some ⟨keys, .internal children⟩, some rightChild =>
              if keys.length < bptreeMaxKeys then
                some (insertInternalWithoutSplit h node keys children childPosition
                  childResult.promotedKey rightChild,
                  { childResult with split := false, rightNode := none })
              else
                some (splitInternalAndInsert h node keys children childPosition
                  childResult.promotedKey rightChild)
            | _, _ => none

/-- The root that `bptree_insert` starts from: an empty tree gets an empty leaf. -/
def rootOrEmptyLeaf (tree : BPlusTree) : Option (NodePtr × Heap) :=
  match tree.root with
  | some root => some (root, tree.heap)
  | none => createNode tree.heap (.leaf [] none)

/-- `bptree_insert`; the flag is its return value. -/
def bptreeInsert (tree : BPlusTree) (key offset : Int) : Option (BPlusTree × Bool) :=
  match rootOrEmptyLeaf tree with
  | none => some (tree, false)
  | some (root, h) =>
    match insertRecursive h.nodes.length h root key offset with
    | none => none
    | some (h, result) =>
      if result.duplicate || result.failed then some (⟨some root, h⟩, false)
      else if result.split then
        match createNode h (.internal []), result.rightNode with
        | none, _ => some (⟨some root, h⟩, false)
        | some (newRoot, h), some rightNode =>
          let h := h.set newRoot ⟨[result.promotedKey], .internal [root, rightNode]⟩
          some (⟨some newRoot, h⟩, true)
        | _, none => none
      else some (⟨some root, h⟩, true)

/-- The leaf that `find_leaf` and `bptree_search` reach from a node. -/
def descendToLeaf : Nat → Heap → NodePtr → Int → Option NodePtr
  | 0, _, _, _ => none
  | fuel + 1, h, node, key =>
    match h.get node with
    | none => none
    | some ⟨_, .leaf _ _⟩ => some node
    | some ⟨keys, .internal children⟩ =>
      match children[findChildPosition keys key]? with
      | none => none
      | some child => descendToLeaf fuel h child key

/-- `bptree_search`; the inner option is empty when the key is not found. -/
def bptreeSearch (tree : BPlusTree) (key : Int) : Option (Option Int) :=
  match tree.root with
  | none => some none
  | some root =>
    match descendToLeaf tree.heap.nodes.length tree.heap root key with
    | none => none
    | some leaf =>
      match tree.heap.get leaf with
      | some ⟨keys, .leaf offsets _⟩ =>
        let position := findLeafPosition keys key
        if keys[position]? = some key then some offsets[position]? else some none
      | _ => none

/-- The leaf that `leftmost_leaf` reaches from a node. -/
def descendLeftmost : Nat → Heap → NodePtr → Option NodePtr
  | 0, _, _ => none
  | fuel + 1, h, node =>
    match h.get node with
    | none => none
    | some ⟨_, .leaf _ _⟩ => some node
    | some ⟨_, .internal children⟩ =>
      match children[0]? with
      | none => none
      | some child => descendLeftmost fuel h child

/-- `leftmost_leaf`. -/
def leftmostLeaf (tree : BPlusTree) : Option (Option NodePtr) :=
  match tree.root with
  | none => some none
  | some root => (descendLeftmost tree.heap.nodes.length tree.heap root).map some

/-- `find_leaf`. -/
def findLeaf (tree : BPlusTree) (key : Int) : Option (Option NodePtr) :=
  match tree.root with
  | none => some none
  | some root => (descendToLeaf tree.heap.nodes.length tree.heap root key).map some

variable {σ : Type}

/-- `BptreeVisitFn`: the return value and the user data after the call. -/
abbrev BptreeVisitFn (σ : Type) := Int → Int → σ → Bool × σ

/-- The loop over the cells of one leaf: a visit that returns zero ends the walk. -/
def visitCells (visit : BptreeVisitFn σ) : List (Int × Int) → σ → Bool × σ
  | [], userData => (true, userData)
  | (key, offset) :: rest, userData =>
    match visit key offset userData with
    | (false, userData) => (false, userData)
    | (true, userData) => visitCells visit rest userData

/-- The loop of `bptree_visit_greater_than` along the leaf chain; `position` is where it
starts in the first leaf. -/
def visitFrom (visit : BptreeVisitFn σ) : Nat → Heap → Option NodePtr → Nat → σ →
    Option (Bool × σ)
  | _, _, none, _, userData => some (true, userData)
  | 0, _, some _, _, _ => none
  | fuel + 1, h, some node, position, userData =>
    match h.get node with
    | some ⟨keys, .leaf offsets next⟩ =>
      match visitCells visit ((keys.zip offsets).drop position) userData with
      | (false, userData) => some (false, userData)
      | (true, userData) => visitFrom visit fuel h next 0 userData
    | _ => none

/-- `bptree_visit_greater_than`. -/
def bptreeVisitGreaterThan (tree : BPlusTree) (key : Int) (visit : BptreeVisitFn σ)
    (userData : σ) : Option (Bool × σ) :=
  match findLeaf tree key with
  | none => none
  | some none => some (true, userData)
  | some (some node) =>
    match tree.heap.get node with
    | some ⟨keys, .leaf _ _⟩ =>
      let position := findLeafPosition keys key
      let position := position + ((keys.drop position).takeWhile (· ≤ key)).length
      visitFrom visit tree.heap.nodes.length tree.heap (some node) position userData
    | _ => none

/-- The loop of `bptree_visit_less_than` over the cells of one leaf; the first flag says
whether the walk goes on. -/
def visitCellsBelow (visit : BptreeVisitFn σ) (key : Int) :
    List (Int × Int) → σ → Bool × Bool × σ
  | [], userData => (true, true, userData)
  | (k, offset) :: rest, userData =>
    if k ≥ key then (false, true, userData)
    else
      match visit k offset userData with
      | (false, userData) => (false, false, userData)
      | (true, userData) => visitCellsBelow visit key rest userData

/-- The loop of `bptree_visit_less_than` along the leaf chain. -/
def visitBelow (visit : BptreeVisitFn σ) (key : Int) : Nat → Heap → Option NodePtr → σ →
    Option (Bool × σ)
  | _, _, none, userData => some (true, userData)
  | 0, _, some _, _ => none
  | fuel + 1, h, some node, userData =>
    match h.get node with
    | some ⟨keys, .leaf offsets next⟩ =>
      match visitCellsBelow visit key (keys.zip offsets) userData with
      | (false, result, userData) => some (result, userData)
      | (true, _, userData) => visitBelow visit key fuel h next userData
    | _ => none

/-- `bptree_visit_less_than`. -/
def bptreeVisitLessThan (tree : BPlusTree) (key : Int) (visit : BptreeVisitFn σ)
    (userData : σ) : Option (Bool × σ) :=
  match leftmostLeaf tree with
  | none => none
  | some node => visitBelow visit key tree.heap.nodes.length tree.heap node userData

end SqlProc.Index
