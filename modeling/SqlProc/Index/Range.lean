import SqlProc.Index.Map

/-!
# Range visits of the index

Library `Index`. The leaf chain of a stored tree passes all its leaves from left to right,
so `bptree_visit_greater_than` and `bptree_visit_less_than` of `src/bptree.c` call the
visitor on exactly the entries on their side of the bound, in ascending order, until it
returns zero.
-/

namespace SqlProc.Index

open Support

variable {σ : Type}

/-! ### The leaf chain -/

/-- Following the `next` pointers from `start` visits the leaves and arrives at `exit`. -/
def LeafChain (h : Heap) : Option NodePtr → List (Leaf Int Int) → Option NodePtr → Prop
  | start, [], exit => start = exit
  | start, l :: ls, exit =>
    start = some l.label ∧ ∃ next, h.get l.label =
      some ⟨l.entries.map Prod.fst, .leaf (l.entries.map Prod.snd) next⟩ ∧ LeafChain h next ls exit

theorem leafChain_append {h : Heap} {start exit : Option NodePtr} {ls rs : List (Leaf Int Int)} :
    LeafChain h start (ls ++ rs) exit ↔
      ∃ middle, LeafChain h start ls middle ∧ LeafChain h middle rs exit := by
  induction ls generalizing start with
  | nil => simp [LeafChain]
  | cons l ls ih =>
    rw [List.cons_append, LeafChain]
    simp only [ih, LeafChain]
    constructor
    · rintro ⟨hs, next, hg, middle, hl, hr⟩
      exact ⟨middle, ⟨hs, next, hg, hl⟩, hr⟩
    · rintro ⟨middle, ⟨hs, next, hg, hl⟩, hr⟩
      exact ⟨hs, next, hg, middle, hl, hr⟩

/-- The chain of a stored tree runs through all its leaves, from left to right. -/
theorem Holds.leafChain {h : Heap} {n : Nat} {t : BPlus Int Int n} {exit : Option NodePtr}
    (hh : Holds h n t exit) :
    LeafChain h (some (BPlus.firstLeaf n t)) (BPlus.leaves n t) exit := by
  induction n generalizing exit with
  | zero => exact ⟨rfl, exit, hh, rfl⟩
  | succ n ih =>
    have hchain : ∀ (rest : List (Int × BPlus Int Int n)) (c : BPlus Int Int n),
        HoldsChildren (Holds h n) (BPlus.firstLeaf n) c rest exit →
          LeafChain h (some (BPlus.firstLeaf n c)) (forest (BPlus.leaves n) c rest) exit := by
      intro rest
      induction rest with
      | nil =>
        intro c hc
        rw [forest_nil]
        exact ih hc
      | cons e rest ihr =>
        intro c hc
        rw [forest_cons]
        exact leafChain_append.mpr ⟨_, ih hc.1, ihr e.2 hc.2⟩
    exact hchain _ _ hh.2

/-- `leftmost_leaf` reaches the first leaf. -/
theorem descendLeftmost_spec {h : Heap} {n fuel : Nat} (hfuel : n < fuel) {t : BPlus Int Int n}
    {exit : Option NodePtr} (hh : Holds h n t exit) :
    descendLeftmost fuel h (BPlus.label n t) = some (BPlus.firstLeaf n t) := by
  induction n generalizing fuel exit with
  | zero =>
    obtain ⟨fuel, rfl⟩ : ∃ f, fuel = f + 1 := ⟨fuel - 1, by omega⟩
    have hg : h.get (BPlus.label 0 t) = some _ := hh
    rw [descendLeftmost, hg]
    rfl
  | succ n ih =>
    obtain ⟨fuel, rfl⟩ : ∃ f, fuel = f + 1 := ⟨fuel - 1, by omega⟩
    have hg : h.get (BPlus.label (n + 1) t) = some _ := hh.1
    obtain ⟨ex, hfirst⟩ := hh.child _ List.mem_cons_self
    simp only [descendLeftmost, hg, List.getElem?_cons_zero]
    exact ih (by omega) hfirst

/-! ### Visits -/

theorem visitCells_append (visit : BptreeVisitFn σ) (xs ys : List (Int × Int)) (userData : σ) :
    visitCells visit (xs ++ ys) userData =
      match visitCells visit xs userData with
      | (false, userData) => (false, userData)
      | (true, userData) => visitCells visit ys userData := by
  induction xs generalizing userData with
  | nil => rfl
  | cons x xs ih =>
    rw [List.cons_append, visitCells, visitCells]
    split
    · rfl
    · exact ih _

private theorem zip_map (es : List (Int × Int)) :
    (es.map Prod.fst).zip (es.map Prod.snd) = es := by
  rw [List.zip_map', List.map_id']

@[simp] theorem visitBelow_none (visit : BptreeVisitFn σ) (key : Int) (fuel : Nat) (h : Heap)
    (userData : σ) : visitBelow visit key fuel h none userData = some (true, userData) := by
  cases fuel <;> rfl

/-- The walk of `bptree_visit_greater_than` visits what is left of the first leaf and all
leaves after it. -/
theorem visitFrom_spec {h : Heap} (visit : BptreeVisitFn σ) {l : Leaf Int Int}
    {rs : List (Leaf Int Int)} {start : Option NodePtr} {fuel : Nat}
    (hc : LeafChain h start (l :: rs) none) (hfuel : rs.length < fuel) (position : Nat)
    (userData : σ) :
    visitFrom visit fuel h start position userData =
      some (visitCells visit (l.entries.drop position ++ rs.flatMap Leaf.entries) userData) := by
  induction rs generalizing l start fuel position userData with
  | nil =>
    obtain ⟨fuel, rfl⟩ : ∃ f, fuel = f + 1 := ⟨fuel - 1, by omega⟩
    obtain ⟨rfl, next, hg, rfl⟩ := hc
    simp only [visitFrom, hg, zip_map, List.flatMap_nil, List.append_nil]
    generalize visitCells visit (l.entries.drop position) userData = out
    obtain ⟨goOn, userData⟩ := out
    cases goOn <;> rfl
  | cons r rs ih =>
    obtain ⟨fuel, rfl⟩ : ∃ f, fuel = f + 1 := ⟨fuel - 1, by omega⟩
    obtain ⟨rfl, next, hg, hc⟩ := hc
    simp only [visitFrom, hg, zip_map, List.flatMap_cons, visitCells_append visit _ (_ ++ _)]
    generalize visitCells visit (l.entries.drop position) userData = out
    obtain ⟨goOn, userData⟩ := out
    cases goOn with
    | false => rfl
    | true => exact ih hc (by simp only [List.length_cons] at hfuel; omega) 0 userData

/-- In one sorted leaf, `bptree_visit_less_than` visits the cells below the bound and goes on
when these are all. -/
theorem visitCellsBelow_spec (visit : BptreeVisitFn σ) (key : Int) {es : List (Int × Int)}
    (hs : SortedKeys es) (userData : σ) :
    visitCellsBelow visit key es userData =
      match visitCells visit (es.filter (·.1 < key)) userData with
      | (false, userData) => (false, false, userData)
      | (true, userData) => (es.all (·.1 < key), true, userData) := by
  induction es generalizing userData with
  | nil => rfl
  | cons e es ih =>
    obtain ⟨hlt, hs⟩ := sortedKeys_cons.mp hs
    by_cases hk : e.1 < key
    · simp only [visitCellsBelow, Int.not_le.mpr hk, if_false, hk, decide_true,
        List.filter_cons_of_pos, visitCells, List.all_cons, Bool.true_and]
      split
      · rfl
      · exact ih hs _
    · have hle : key ≤ e.1 := Int.not_lt.mp hk
      have hnone : (e :: es).filter (·.1 < key) = [] := by
        apply List.filter_eq_nil_iff.mpr
        intro x hx
        rcases List.mem_cons.mp hx with rfl | hx
        · simpa using hle
        · have := hlt x hx
          simp only [decide_eq_true_eq]
          omega
      rw [hnone]
      simp [visitCellsBelow, hle, visitCells]

/-- The walk of `bptree_visit_less_than` visits the entries below the bound. -/
theorem visitBelow_spec {h : Heap} (visit : BptreeVisitFn σ) {key : Int}
    {ls : List (Leaf Int Int)} {start : Option NodePtr} {fuel : Nat}
    (hc : LeafChain h start ls none) (hfuel : ls.length ≤ fuel)
    (hs : SortedKeys (ls.flatMap Leaf.entries)) (userData : σ) :
    visitBelow visit key fuel h start userData =
      some (visitCells visit ((ls.flatMap Leaf.entries).filter (·.1 < key)) userData) := by
  induction ls generalizing start fuel userData with
  | nil =>
    obtain rfl : start = none := hc
    rw [visitBelow_none]
    rfl
  | cons l ls ih =>
    obtain ⟨fuel, rfl⟩ : ∃ f, fuel = f + 1 := ⟨fuel - 1, by simp at hfuel; omega⟩
    obtain ⟨rfl, next, hg, hc⟩ := hc
    rw [List.flatMap_cons] at hs
    obtain ⟨hsl, hsr, hlr⟩ := sortedKeys_append.mp hs
    simp only [visitBelow, hg, zip_map, visitCellsBelow_spec visit key hsl, List.flatMap_cons,
      List.filter_append, visitCells_append]
    cases hv : visitCells visit (l.entries.filter (·.1 < key)) userData with
    | mk goOn userData =>
      cases goOn with
      | false => rfl
      | true =>
        cases hall : l.entries.all (·.1 < key) with
        | true => exact ih hc (by simp only [List.length_cons] at hfuel; omega) hsr userData
        | false =>
          -- an entry at or above the bound: all later leaves lie above it
          obtain ⟨e, he, hk⟩ := List.all_eq_false.mp hall
          have hnone : (ls.flatMap Leaf.entries).filter (·.1 < key) = [] := by
            apply List.filter_eq_nil_iff.mpr
            intro x hx
            have := hlr e he x hx
            simp only [decide_eq_true_eq] at hk ⊢
            omega
          rw [hnone]
          rfl

/-- Leaves are nodes, so the number of nodes bounds the length of the leaf chain. -/
theorem Stores.length_leaves_le {tree : BPlusTree} {n : Nat} {t : BPlus Int Int n}
    (h : Stores tree n t) : (BPlus.leaves n t).length ≤ tree.heap.nodes.length :=
  Nat.le_trans (BPlus.length_leaves_le n t) h.length_labels_le

private theorem drop_takeWhile_le (key : Int) {es : List (Int × Int)} (hs : SortedKeys es) :
    es.drop ((es.map Prod.fst).takeWhile (· ≤ key)).length = es.filter (key < ·.1) := by
  induction es with
  | nil => rfl
  | cons e es ih =>
    obtain ⟨hlt, hs⟩ := sortedKeys_cons.mp hs
    by_cases hk : e.1 ≤ key
    · simpa [hk, Int.not_lt.mpr hk] using ih hs
    · have hall : (e :: es).filter (key < ·.1) = e :: es := by
        apply List.filter_eq_self.mpr
        intro x hx
        rcases List.mem_cons.mp hx with rfl | hx
        · simpa using hk
        · have := hlt x hx
          simp only [decide_eq_true_eq]
          omega
      rw [hall]
      simp [hk]

/-- Where `bptree_visit_greater_than` starts in the first leaf. -/
private theorem drop_start (key : Int) {es : List (Int × Int)} (hs : SortedKeys es) :
    es.drop (findLeafPosition (es.map Prod.fst) key + (((es.map Prod.fst).drop
      (findLeafPosition (es.map Prod.fst) key)).takeWhile (· ≤ key)).length) =
        es.filter (key < ·.1) := by
  induction es with
  | nil => rfl
  | cons e es ih =>
    by_cases hk : e.1 < key
    · have hi := ih (sortedKeys_cons.mp hs).2
      have hp : findLeafPosition ((e :: es).map Prod.fst) key =
          findLeafPosition (es.map Prod.fst) key + 1 := by
        simp [findLeafPosition, hk]
      rw [hp, List.map_cons, List.drop_succ_cons, Nat.add_right_comm, List.drop_succ_cons, hi,
        List.filter_cons_of_neg (by simp; omega)]
    · have hp : findLeafPosition ((e :: es).map Prod.fst) key = 0 := by
        simp [findLeafPosition, hk]
      rw [hp, List.drop_zero, Nat.zero_add]
      exact drop_takeWhile_le key hs

/-- `bptree_visit_greater_than` visits exactly the entries above the bound, in ascending
order. -/
theorem bptreeVisitGreaterThan_spec {tree : BPlusTree} {es : List (Int × Int)}
    (h : Represents tree es) (key : Int) (visit : BptreeVisitFn σ) (userData : σ) :
    bptreeVisitGreaterThan tree key visit userData =
      some (visitCells visit (es.filter (key < ·.1)) userData) := by
  cases h with
  | empty hr =>
    simp [bptreeVisitGreaterThan, findLeaf, hr, visitCells]
  | stored n t hs =>
    obtain ⟨hd, ex, hleaf⟩ := descendToLeaf_spec hs.depth_lt hs.holds key
    have hg : tree.heap.get (BPlus.leafFor key n t).label = some _ := hleaf
    obtain ⟨ls, rs, he, hlt, hgt⟩ := BPlus.leaves_eq_append_leafFor hs.ordered key
    have hsorted := BPlus.sortedKeys_entries hs.ordered
    have hchain := hs.holds.leafChain
    have hlen := hs.length_leaves_le
    rw [BPlus.entries_eq_flatMap_leaves] at hsorted ⊢
    rw [he, List.flatMap_append, List.flatMap_cons] at hsorted ⊢
    rw [he] at hchain hlen
    rw [List.length_append, List.length_cons] at hlen
    obtain ⟨middle, -, hright⟩ := leafChain_append.mp hchain
    obtain rfl : middle = some (BPlus.leafFor key n t).label := hright.1
    have hsleaf := (sortedKeys_append.mp (sortedKeys_append.mp hsorted).2.1).1
    have hleft : (ls.flatMap Leaf.entries).filter (key < ·.1) = [] := by
      apply List.filter_eq_nil_iff.mpr
      intro x hx
      have := hlt x hx
      simp only [decide_eq_true_eq]
      omega
    have hrights : (rs.flatMap Leaf.entries).filter (key < ·.1) = rs.flatMap Leaf.entries :=
      List.filter_eq_self.mpr fun x hx ↦ decide_eq_true (hgt x hx)
    simp only [bptreeVisitGreaterThan, findLeaf, hs.root, hd, Option.map_some, hg]
    rw [visitFrom_spec visit hright (by omega), drop_start key hsleaf, List.filter_append,
      List.filter_append, hleft, hrights, List.nil_append]

/-- `bptree_visit_less_than` visits exactly the entries below the bound, in ascending order. -/
theorem bptreeVisitLessThan_spec {tree : BPlusTree} {es : List (Int × Int)}
    (h : Represents tree es) (key : Int) (visit : BptreeVisitFn σ) (userData : σ) :
    bptreeVisitLessThan tree key visit userData =
      some (visitCells visit (es.filter (·.1 < key)) userData) := by
  cases h with
  | empty hr =>
    simp [bptreeVisitLessThan, leftmostLeaf, hr, visitCells]
  | stored n t hs =>
    have hsorted := BPlus.sortedKeys_entries hs.ordered
    rw [BPlus.entries_eq_flatMap_leaves] at hsorted ⊢
    simp only [bptreeVisitLessThan, leftmostLeaf, hs.root,
      descendLeftmost_spec hs.depth_lt hs.holds, Option.map_some]
    exact visitBelow_spec visit hs.holds.leafChain hs.length_leaves_le hsorted userData

end SqlProc.Index
