import SqlProc.Index.Range

/-!
# Insertions whose allocations fail

Library `Index`. What `bptree_insert` of `src/bptree.c` leaves behind when `create_node` fails
in the middle of it. A call whose first allocation fails changes nothing; one that fails later
has already cut a leaf in two, and the entries of the right half are out of the reach of a
search.
-/

namespace SqlProc.Index

open Support

/-- The same nodes, when no later allocation fails. -/
def Heap.reliable (h : Heap) : Heap := { h with calloc := fun _ ↦ true }

/-- The same nodes, when later allocations succeed as `calloc` says. -/
def Heap.withCalloc (h : Heap) (calloc : Nat → Bool) : Heap := { h with calloc := calloc }

@[simp] theorem Heap.reliable_get (h : Heap) (p : NodePtr) : h.reliable.get p = h.get p := rfl

@[simp] theorem Heap.reliable_nodes (h : Heap) : h.reliable.nodes = h.nodes := rfl

@[simp] theorem Heap.withCalloc_get (h : Heap) (calloc : Nat → Bool) (p : NodePtr) :
    (h.withCalloc calloc).get p = h.get p := rfl

@[simp] theorem Heap.withCalloc_nodes (h : Heap) (calloc : Nat → Bool) :
    (h.withCalloc calloc).nodes = h.nodes := rfl

/-- The allocations that lead from one number of nodes to another all succeed. -/
def Heap.Allocates (h : Heap) (next : Nat) : Prop :=
  ∀ i, h.nodes.length ≤ i → i < next → h.calloc i = true

/-! ### Successful allocations -/

theorem createNode_reliable (h : Heap) (data : BPlusTreeNodeData) :
    createNode h.reliable data = some (h.nodes.length, (h.alloc data).reliable) := by
  simp [createNode, Heap.alloc, Heap.reliable]

theorem createNode_of_calloc {h : Heap} (hc : h.calloc h.nodes.length = true)
    (data : BPlusTreeNodeData) : createNode h data = some (h.nodes.length, h.alloc data) := by
  rw [createNode, if_pos hc]
  rfl

theorem createNode_of_not_calloc {h : Heap} (hc : h.calloc h.nodes.length = false)
    (data : BPlusTreeNodeData) : createNode h data = none := by
  rw [createNode, hc]
  rfl

/-- When its allocations succeed, an insertion into a leaf does what it does without failures. -/
theorem insertIntoLeaf_reliable {h h' : Heap} {r : InsertResult} {leaf : NodePtr}
    {keys offsets : List Int} {next : Option NodePtr} {key offset : Int}
    (hrun : insertIntoLeaf h.reliable leaf keys offsets next key offset = (h', r))
    (hall : h.Allocates h'.nodes.length) :
    insertIntoLeaf h leaf keys offsets next key offset = (h'.withCalloc h.calloc, r) := by
  simp only [insertIntoLeaf] at hrun ⊢
  split
  · next hdup =>
    rw [if_pos hdup] at hrun
    obtain ⟨rfl, rfl⟩ := Prod.mk.inj hrun
    rfl
  · next hdup =>
    rw [if_neg hdup] at hrun
    split
    · next hroom =>
      rw [if_pos hroom] at hrun
      obtain ⟨rfl, rfl⟩ := Prod.mk.inj hrun
      rfl
    · next hroom =>
      rw [if_neg hroom] at hrun
      simp only [splitLeafAndInsert, createNode_reliable] at hrun
      obtain ⟨rfl, rfl⟩ := Prod.mk.inj hrun
      have hc : h.calloc h.nodes.length = true := hall _ (Nat.le_refl _) (by simp)
      simp only [splitLeafAndInsert, createNode_of_calloc hc]
      rfl

/-- The next free label after an insertion of the library. -/
def nextLabel {T : Type} (fresh : Nat) : Inserted Int T → Nat
  | .duplicate => fresh
  | .done _ next => next
  | .split _ _ _ next => next

theorem le_nextLabel (key offset : Int) (n fresh : Nat) (t : BPlus Int Int n) :
    fresh ≤ nextLabel fresh (BPlus.insert bptreeMaxKeys key offset n fresh t) := by
  have hlab := BPlus.insert_labels bptreeMaxKeys key offset n fresh t
  cases hi : BPlus.insert bptreeMaxKeys key offset n fresh t with
  | duplicate => exact Nat.le_refl _
  | done t' next =>
    rw [hi] at hlab
    exact hlab.1
  | split l s r next =>
    rw [hi] at hlab
    exact hlab.1

section Branch

variable {n : Nat} {t : BPlus Int Int (n + 1)} {key offset : Int} {fresh : Nat}

/-- A branch whose child did not split needs the nodes that the child needed. -/
theorem nextLabel_of_child {out : Inserted Int (BPlus Int Int n)}
    (hi : BPlus.insert bptreeMaxKeys key offset n fresh (child key t) = out)
    (hs : ∀ l s r next, out ≠ .split l s r next) :
    nextLabel fresh (BPlus.insert bptreeMaxKeys key offset (n + 1) fresh t) =
      nextLabel fresh out := by
  rw [BPlus.insert, hi]
  cases out with
  | duplicate => rfl
  | done c next => rfl
  | split l s r next => exact absurd rfl (hs l s r next)

/-- A branch whose child split is split in turn when it is full. -/
theorem nextLabel_of_child_split {l r : BPlus Int Int n} {s : Int} {next : Nat}
    (hi : BPlus.insert bptreeMaxKeys key offset n fresh (child key t) = .split l s r next) :
    nextLabel fresh (BPlus.insert bptreeMaxKeys key offset (n + 1) fresh t) =
      if (Branch.rest t).length < bptreeMaxKeys then next else next + 1 := by
  rw [BPlus.insert, hi]
  have hlen := length_replace key (l, [(s, r)]) (Branch.first t) (Branch.rest t)
  rw [List.length_singleton] at hlen
  simp only [Branch.put]
  by_cases hfull : (Branch.rest t).length < bptreeMaxKeys
  · rw [dif_pos (by rw [hlen]; omega), if_pos hfull]
    rfl
  · rw [dif_neg (by rw [hlen]; omega), if_neg hfull]
    rfl

end Branch

/-- The nodes that there are after an insertion. -/
theorem Realizes.length_nodes {h h' : Heap} {n : Nat} {t : BPlus Int Int n}
    {exit : Option NodePtr} {out : Inserted Int (BPlus Int Int n)} {r : InsertResult}
    (hr : Realizes h n t exit out (some (h', r))) :
    h'.nodes.length = nextLabel h.nodes.length out := by
  cases out with
  | duplicate =>
    obtain ⟨rfl, -⟩ := Prod.mk.inj (Option.some.inj hr)
    rfl
  | done t' next =>
    obtain ⟨_, _, hout, -, hu, -⟩ := hr
    obtain ⟨rfl, -⟩ := Prod.mk.inj (Option.some.inj hout)
    exact hu.size
  | split l s r next =>
    obtain ⟨_, hout, hu, -⟩ := hr
    obtain ⟨rfl, -⟩ := Prod.mk.inj (Option.some.inj hout)
    exact hu.size

/-- The child of a stored branch that an insertion descends into. -/
theorem exists_holds_child {h : Heap} {n : Nat} {t : BPlus Int Int (n + 1)} {exit : Option NodePtr}
    (hh : Holds h (n + 1) t exit) (hnd : (BPlus.labels (n + 1) t).Nodup) (key : Int) :
    (∃ ex, Holds h n (child key t) ex) ∧ (BPlus.labels n (child key t)).Nodup ∧
      (∀ a ∈ BPlus.labels n (child key t), a ∈ BPlus.labels (n + 1) t) ∧
      Branch.label t ∉ BPlus.labels n (child key t) := by
  obtain ⟨hroot, hndc⟩ := List.nodup_cons.mp hnd
  obtain ⟨xs, ys, hforest, -⟩ :=
    forest_replace (BPlus.labels n) key (Branch.first t) (Branch.rest t)
  have hsub : ∀ a ∈ BPlus.labels n (child key t),
      a ∈ forest (BPlus.labels n) (Branch.first t) (Branch.rest t) := by
    intro a ha
    rw [hforest]
    simp [ha]
  refine ⟨hh.child _ (descend_mem key _ _), ?_, fun a ha ↦ List.mem_cons_of_mem _ (hsub a ha),
    fun hm ↦ hroot (hsub _ hm)⟩
  rw [hforest, List.append_assoc, List.nodup_append] at hndc
  exact (List.nodup_append.mp hndc.2.1).1

/-- A call whose allocations succeed does what it does without failures. -/
theorem insertRecursive_reliable {h : Heap} {n fuel : Nat} (hfuel : n < fuel)
    {t : BPlus Int Int n} {exit : Option NodePtr} (key offset : Int) (hh : Holds h n t exit)
    (hnd : (BPlus.labels n t).Nodup)
    (hall : h.Allocates
      (nextLabel h.nodes.length (BPlus.insert bptreeMaxKeys key offset n h.nodes.length t))) :
    insertRecursive fuel h (BPlus.label n t) key offset =
      (insertRecursive fuel h.reliable (BPlus.label n t) key offset).map fun out ↦
        (out.1.withCalloc h.calloc, out.2) := by
  have hreal : ∀ {n fuel} {t : BPlus Int Int n} {exit}, n < fuel → Holds h n t exit →
      (BPlus.labels n t).Nodup →
      Realizes h.reliable n t exit (BPlus.insert bptreeMaxKeys key offset n h.nodes.length t)
        (insertRecursive fuel h.reliable (BPlus.label n t) key offset) :=
    fun hfuel hh hnd ↦ insertRecursive_realizes (fun _ ↦ rfl) hfuel key offset
      (hh.congr fun _ _ ↦ rfl) hnd
  induction n generalizing exit fuel with
  | zero =>
    have hr := hreal hfuel hh hnd
    obtain ⟨fuel, rfl⟩ : ∃ f, fuel = f + 1 := ⟨fuel - 1, by omega⟩
    have hg : h.get (BPlus.label 0 t) = some _ := hh
    simp only [insertRecursive, Heap.reliable_get, hg] at hr ⊢
    generalize hout : insertIntoLeaf h.reliable _ _ _ _ _ _ = out at hr ⊢
    obtain ⟨h', r⟩ := out
    have hlen := hr.length_nodes
    rw [Heap.reliable_nodes] at hlen
    rw [← hlen] at hall
    rw [insertIntoLeaf_reliable hout hall]
    rfl
  | succ n ih =>
    have hr := hreal hfuel hh hnd
    obtain ⟨fuel, rfl⟩ : ∃ f, fuel = f + 1 := ⟨fuel - 1, by omega⟩
    have hg : h.get (BPlus.label (n + 1) t) = some _ := hh.1
    obtain ⟨⟨ex, hchild⟩, hndc, hsub, hroot⟩ := exists_holds_child hh hnd key
    have hrc := hreal (Nat.lt_of_succ_lt_succ hfuel) hchild hndc
    have hstep := ih (Nat.lt_of_succ_lt_succ hfuel) hchild hndc
    simp only [insertRecursive, Heap.reliable_get, hg,
      getElem?_findChildPosition (BPlus.label n) key]
    cases hi : BPlus.insert bptreeMaxKeys key offset n h.nodes.length (child key t) with
    | duplicate =>
      rw [hi] at hrc hstep
      rw [nextLabel_of_child hi (by simp)] at hall
      simp only [Realizes] at hrc
      rw [hstep hall, hrc]
      rfl
    | done c next =>
      rw [hi] at hrc hstep
      rw [nextLabel_of_child hi (by simp)] at hall
      obtain ⟨h', r, hout, ⟨hs, hd, hf⟩, -, -⟩ := hrc
      rw [hstep hall, hout]
      simp only [Option.map_some, hs, Bool.not_false, Bool.true_or, if_true]
    | split l s r next =>
      rw [hi] at hrc hstep
      rw [nextLabel_of_child_split hi] at hall
      obtain ⟨h', hout, hu, -, -⟩ := hrc
      have hnext : h.Allocates next := by
        intro i hlo hlt
        apply hall i hlo
        split
        · exact hlt
        · exact Nat.lt_succ_of_lt hlt
      have hg' : h'.get (BPlus.label (n + 1) t) = some _ :=
        (hu.frame _ (h.lt_of_get hg) hroot).trans hg
      have hout' : insertRecursive fuel h (BPlus.label n (child key t)) key offset = _ :=
        hstep hnext
      rw [hout, Option.map_some] at hout'
      simp only [hout, hout', hg', Heap.withCalloc_get, InsertResult.zero, Bool.not_true,
        Bool.or_self, Bool.false_eq_true, if_false]
      split
      · rfl
      · next hfull =>
        rw [List.length_map] at hfull
        rw [if_neg hfull] at hall
        have hc : h.calloc h'.nodes.length = true := by
          rw [hu.size]
          have hle := le_nextLabel key offset n h.nodes.length (child key t)
          rw [hi] at hle
          exact hall next hle (Nat.lt_succ_self next)
        have hc' : h'.calloc h'.nodes.length = true := by rw [hu.calloc]; rfl
        simp only [splitInternalAndInsert, createNode_of_calloc hc',
          createNode_of_calloc (h := h'.withCalloc h.calloc) hc]
        rfl

/-! ### Failing allocations -/

/-- A search for the key below the node ends at a leaf that does not hold it. -/
def Misses (h : Heap) (n : Nat) (node : NodePtr) (key : Int) : Prop :=
  ∀ fuel, n < fuel → ∃ leaf keys offsets next, descendToLeaf fuel h node key = some leaf ∧
    h.get leaf = some ⟨keys, .leaf offsets next⟩ ∧ key ∉ keys

/-- A search in a stored tree misses the keys that it does not hold. -/
theorem misses_of_holds {h : Heap} {n : Nat} {t : BPlus Int Int n} {exit : Option NodePtr}
    (hh : Holds h n t exit) (ho : BPlus.Ordered n t) {key : Int}
    (hk : ∀ e ∈ BPlus.entries n t, e.1 ≠ key) : Misses h n (BPlus.label n t) key := by
  intro fuel hfuel
  obtain ⟨hd, ex, hleaf⟩ := descendToLeaf_spec hfuel hh key
  obtain ⟨ls, rs, he, -⟩ := BPlus.leaves_eq_append_leafFor ho key
  refine ⟨_, _, _, ex, hd, hleaf, fun hm ↦ ?_⟩
  obtain ⟨e, hm, rfl⟩ := List.mem_map.mp hm
  refine hk e ?_ rfl
  rw [BPlus.entries_eq_flatMap_leaves, he]
  simp only [List.flatMap_append, List.flatMap_cons, List.mem_append]
  exact Or.inr (Or.inl hm)

/-- A search misses a key when it does so below the child that holds the key. -/
theorem misses_of_child {h h' : Heap} {n : Nat} {t : BPlus Int Int (n + 1)}
    {exit : Option NodePtr} (hh : Holds h (n + 1) t exit) (ho : BPlus.Ordered (n + 1) t)
    (hroot : h'.get (Branch.label t) = h.get (Branch.label t)) (key : Int) {e : Int × Int}
    (he : e ∈ BPlus.entries n (child key t))
    (hm : Misses h' n (BPlus.label n (child key t)) e.1) :
    Misses h' (n + 1) (BPlus.label (n + 1) t) e.1 := by
  intro fuel hfuel
  obtain ⟨fuel, rfl⟩ : ∃ f, fuel = f + 1 := ⟨fuel - 1, by omega⟩
  have hg : h'.get (BPlus.label (n + 1) t) = some _ := hroot.trans hh.1
  have hchild : descend e.1 (Branch.first t) (Branch.rest t) = child key t :=
    ho.2.2.descend_eq key he
  simp only [descendToLeaf, hg, getElem?_findChildPosition (BPlus.label n) e.1, hchild]
  exact hm fuel (Nat.lt_of_succ_lt_succ hfuel)

/-- The right half of a split holds an entry that was there before. -/
theorem exists_mem_right {n : Nat} {l r : BPlus Int Int n} {es : List (Int × Int)}
    {key offset : Int} (he : BPlus.entries n l ++ BPlus.entries n r = insertEntry key offset es)
    (ho : BPlus.Ordered n r) (hf : BPlus.Filled bptreeMaxKeys 2 n r) :
    ∃ e ∈ BPlus.entries n r, e ∈ es := by
  have hlen := hf.pow_le_length (by decide) (Nat.le_refl 2)
  have hpow : 2 ≤ 2 ^ (n + 1) := by
    rw [Nat.pow_succ]
    have := Nat.one_le_two_pow (n := n)
    omega
  have hold : ∀ e ∈ BPlus.entries n r, e.1 ≠ key → e ∈ es := by
    intro e hm hne
    have hins : e ∈ insertEntry key offset es := by
      rw [← he]
      exact List.mem_append_right _ hm
    rcases mem_insertEntry.mp hins with rfl | hm
    · exact absurd rfl hne
    · exact hm
  have hsorted := BPlus.sortedKeys_entries ho
  cases hr : BPlus.entries n r with
  | nil =>
    rw [hr, List.length_nil] at hlen
    omega
  | cons a rest =>
    cases rest with
    | nil =>
      rw [hr, List.length_singleton] at hlen
      omega
    | cons b rest =>
      rw [hr] at hsorted hold
      have hlt : a.1 < b.1 := (sortedKeys_cons.mp hsorted).1 b List.mem_cons_self
      by_cases hka : a.1 = key
      · have hb : b ∈ a :: b :: rest := List.mem_cons_of_mem _ List.mem_cons_self
        exact ⟨b, hb, hold b hb (by omega)⟩
      · exact ⟨a, List.mem_cons_self, hold a List.mem_cons_self hka⟩

theorem lt_of_insert_eq_split {key offset : Int} {n fresh next : Nat} {t l r : BPlus Int Int n}
    {s : Int} (hi : BPlus.insert bptreeMaxKeys key offset n fresh t = .split l s r next) :
    fresh < next := by
  cases n with
  | zero =>
    simp only [BPlus.insert, Leaf.insert] at hi
    split at hi
    · cases hi
    · split at hi
      · cases hi
      · cases hi
        exact Nat.lt_succ_self fresh
  | succ n =>
    have hnext :
        nextLabel fresh (BPlus.insert bptreeMaxKeys key offset (n + 1) fresh t) = next := by
      rw [hi]
      rfl
    have hle := le_nextLabel key offset n fresh (child key t)
    cases hc : BPlus.insert bptreeMaxKeys key offset n fresh (child key t) with
    | duplicate =>
      rw [BPlus.insert, hc] at hi
      cases hi
    | done c next' =>
      rw [BPlus.insert, hc] at hi
      cases hi
    | split l' s' r' next' =>
      rw [hc] at hle
      rw [nextLabel_of_child_split hc] at hnext
      have hle' : fresh ≤ next' := hle
      split at hnext
      · next hroom =>
        -- a branch with room does not split
        rw [BPlus.insert, hc] at hi
        have hlen := length_replace key (l', [(s', r')]) (Branch.first t) (Branch.rest t)
        rw [List.length_singleton] at hlen
        simp only [Branch.put] at hi
        rw [dif_pos (by rw [hlen]; omega)] at hi
        cases hi
      · omega

/-- What a call leaves whose allocation fails when there are `i` nodes. -/
structure FailedCall (h : Heap) (n : Nat) (t : BPlus Int Int n) (i : Nat) (h' : Heap) : Prop where
  size : h'.nodes.length = i
  frame : ∀ a < h.nodes.length, a ∉ BPlus.labels n t → h'.get a = h.get a
  unchanged : i = h.nodes.length → h' = h
  misses : h.nodes.length < i → ∃ e ∈ BPlus.entries n t, Misses h' n (BPlus.label n t) e.1

/-- A call that fails below a child fails at the parent. -/
theorem FailedCall.parent {h h' : Heap} {n i : Nat} {t : BPlus Int Int (n + 1)}
    {exit : Option NodePtr} {key : Int} (hc : FailedCall h n (child key t) i h')
    (hh : Holds h (n + 1) t exit) (hnd : (BPlus.labels (n + 1) t).Nodup)
    (ho : BPlus.Ordered (n + 1) t) : FailedCall h (n + 1) t i h' := by
  obtain ⟨-, -, hsub, hroot⟩ := exists_holds_child hh hnd key
  refine ⟨hc.size, fun a ha hn ↦ hc.frame a ha fun hm ↦ hn (hsub a hm), hc.unchanged,
    fun hlt ↦ ?_⟩
  obtain ⟨e, he, hm⟩ := hc.misses hlt
  obtain ⟨xs, ys, hforest, -⟩ :=
    forest_replace (BPlus.entries n) key (Branch.first t) (Branch.rest t)
  refine ⟨e, ?_, misses_of_child hh ho (hc.frame _ (h.lt_of_get hh.1) hroot) key he hm⟩
  change e ∈ forest _ _ _
  rw [hforest]
  exact List.mem_append_left _ (List.mem_append_right _ he)

/-- A call that splits its node fails when the caller creates no node above it: the right half
has left the tree. -/
theorem insertRecursive_of_split {h : Heap} {n fuel lo next : Nat} (hfuel : n < fuel)
    {t l r : BPlus Int Int n} {s : Int} {exit : Option NodePtr} (key offset : Int)
    (hh : Holds h n t exit) (hnd : (BPlus.labels n t).Nodup) (ho : BPlus.Ordered n t)
    (hf : BPlus.Filled bptreeMaxKeys lo n t)
    (hc : BPlus.insert bptreeMaxKeys key offset n h.nodes.length t = .split l s r next)
    (hall : h.Allocates next) :
    ∃ h', insertRecursive fuel h (BPlus.label n t) key offset =
        some (h', { InsertResult.zero with
          split := true, promotedKey := s, rightNode := some (BPlus.label n r) }) ∧
      h'.calloc = h.calloc ∧ FailedCall h n t next h' := by
  have hrun := insertRecursive_reliable hfuel key offset hh hnd (by rw [hc]; exact hall)
  have hreal := insertRecursive_realizes (h := h.reliable) (fun _ ↦ rfl) hfuel key offset
    (hh.congr fun _ _ ↦ rfl) hnd
  have hspec := BPlus.insert_spec (by decide) key offset h.nodes.length ho hf
  have hlab := BPlus.insert_labels bptreeMaxKeys key offset n h.nodes.length t
  rw [Heap.reliable_nodes, hc] at hreal
  rw [hc] at hspec hlab
  obtain ⟨h', hout, hu, hhl, -⟩ := hreal
  obtain ⟨-, hent, ⟨hol, hor⟩, ⟨hlow, hhigh⟩, -, hfr⟩ := hspec
  obtain ⟨e, her, het⟩ := exists_mem_right hent hor hfr
  rw [hout, Option.map_some] at hrun
  refine ⟨h'.withCalloc h.calloc, hrun, rfl, hu.size, hu.frame, fun he ↦ ?_,
    fun _ ↦ ⟨e, het, ?_⟩⟩
  · exact absurd he (Nat.ne_of_gt (lt_of_insert_eq_split hc))
  · have hl : Holds (h'.withCalloc h.calloc) n l (some (BPlus.firstLeaf n r)) :=
      hhl.congr fun _ _ ↦ rfl
    rw [← hlab.2.2.1]
    apply misses_of_holds hl hol
    intro x hx
    have h1 := hlow x hx
    have h2 := hhigh e her
    omega

/-- A call fails at its first allocation that does. -/
theorem insertRecursive_fails {h : Heap} {n fuel lo i : Nat} (hfuel : n < fuel)
    {t : BPlus Int Int n} {exit : Option NodePtr} (key offset : Int) (hh : Holds h n t exit)
    (hnd : (BPlus.labels n t).Nodup) (ho : BPlus.Ordered n t)
    (hf : BPlus.Filled bptreeMaxKeys lo n t) (hlo : h.nodes.length ≤ i)
    (hi : i < nextLabel h.nodes.length
      (BPlus.insert bptreeMaxKeys key offset n h.nodes.length t))
    (hprev : h.Allocates i) (hfail : h.calloc i = false) :
    ∃ h' r, insertRecursive fuel h (BPlus.label n t) key offset = some (h', r) ∧
      r.failed = true ∧ FailedCall h n t i h' := by
  induction n generalizing exit fuel lo with
  | zero =>
    obtain ⟨fuel, rfl⟩ : ∃ f, fuel = f + 1 := ⟨fuel - 1, by omega⟩
    have hg : h.get (BPlus.label 0 t) = some _ := hh
    simp only [insertRecursive, hg, insertIntoLeaf, getElem?_findLeafPosition, List.length_map]
    simp only [BPlus.insert, Leaf.insert] at hi
    split
    · next hdup =>
      rw [if_pos hdup] at hi
      exact absurd hi (Nat.not_lt.mpr hlo)
    · next hdup =>
      rw [if_neg hdup] at hi
      split
      · next hroom =>
        rw [if_pos hroom] at hi
        exact absurd hi (Nat.not_lt.mpr hlo)
      · next hroom =>
        rw [if_neg hroom] at hi
        obtain rfl : i = h.nodes.length := Nat.le_antisymm (Nat.le_of_lt_succ hi) hlo
        simp only [splitLeafAndInsert, createNode_of_not_calloc hfail]
        exact ⟨h, _, rfl, rfl, rfl, fun _ _ _ ↦ rfl, fun _ ↦ rfl,
          fun hlt ↦ absurd hlt (Nat.lt_irrefl _)⟩
  | succ n ih =>
    obtain ⟨fuel, rfl⟩ : ∃ f, fuel = f + 1 := ⟨fuel - 1, by omega⟩
    have hfuel' : n < fuel := Nat.lt_of_succ_lt_succ hfuel
    have hg : h.get (BPlus.label (n + 1) t) = some _ := hh.1
    obtain ⟨⟨ex, hchild⟩, hndc, -, hroot⟩ := exists_holds_child hh hnd key
    have hoc := ho.child _ (descend_mem key _ _)
    have hfc := hf.child _ (descend_mem key _ _)
    -- the child needs the allocation that fails: it fails, and so does the call
    have hbelow : i < nextLabel h.nodes.length
        (BPlus.insert bptreeMaxKeys key offset n h.nodes.length (child key t)) →
        ∃ h' r, insertRecursive (fuel + 1) h (BPlus.label (n + 1) t) key offset =
          some (h', r) ∧ r.failed = true ∧ FailedCall h (n + 1) t i h' := by
      intro hlt
      obtain ⟨h', r, hout, hr, hcall⟩ := ih hfuel' hchild hndc hoc hfc hlt
      refine ⟨h', r, ?_, hr, hcall.parent hh hnd ho⟩
      simp only [insertRecursive, hg, getElem?_findChildPosition (BPlus.label n) key, hout, hr,
        Bool.or_true, if_true]
    cases hc : BPlus.insert bptreeMaxKeys key offset n h.nodes.length (child key t) with
    | duplicate =>
      rw [nextLabel_of_child hc (by simp)] at hi
      exact hbelow (by rw [hc]; exact hi)
    | done c next =>
      rw [nextLabel_of_child hc (by simp)] at hi
      exact hbelow (by rw [hc]; exact hi)
    | split l s r next =>
      rw [nextLabel_of_child_split hc] at hi
      by_cases hlt : i < next
      · exact hbelow (by rw [hc]; exact hlt)
      · -- the child was split and the node above it is not created
        split at hi
        · exact absurd hi hlt
        · next hfull =>
          obtain rfl : i = next := Nat.le_antisymm (Nat.le_of_lt_succ hi) (Nat.not_lt.mp hlt)
          obtain ⟨h', hout, hcalloc, hcall⟩ :=
            insertRecursive_of_split hfuel' key offset hchild hndc hoc hfc hc hprev
          have hg' : h'.get (BPlus.label (n + 1) t) = some _ :=
            (hcall.frame _ (h.lt_of_get hg) hroot).trans hg
          have hfail' : h'.calloc h'.nodes.length = false := by
            rw [hcalloc, hcall.size]
            exact hfail
          refine ⟨h', { InsertResult.zero with failed := true }, ?_, rfl, hcall.parent hh hnd ho⟩
          simp only [insertRecursive, hg, getElem?_findChildPosition (BPlus.label n) key, hout,
            InsertResult.zero, Bool.not_true, Bool.or_self, Bool.false_eq_true, if_false, hg',
            List.length_map, if_neg hfull, splitInternalAndInsert,
            createNode_of_not_calloc hfail']

/-! ### The whole call -/

/-- `bptree_insert` after it has found or created the root. -/
def insertFrom (root : NodePtr) (h : Heap) (key offset : Int) : Option (BPlusTree × Bool) :=
  match insertRecursive h.nodes.length h root key offset with
  | none => none
  | some (h, result) =>
    if result.duplicate || result.failed then some (⟨some root, h⟩, false)
    else if result.split then
      match createNode h (.internal []), result.rightNode with
      | none, _ => some (⟨some root, h⟩, false)
      | some (newRoot, h), some rightNode =>
        let h := h.set newRoot ⟨[result.promotedKey], .internal [root, rightNode]⟩
        some (⟨some newRoot, h⟩, true)
      | _, none => none
    else some (⟨some root, h⟩, true)

theorem bptreeInsert_eq_insertFrom {tree : BPlusTree} {root : NodePtr} {h : Heap}
    (hr : rootOrEmptyLeaf tree = some (root, h)) (key offset : Int) :
    bptreeInsert tree key offset = insertFrom root h key offset := by
  simp only [bptreeInsert, hr]
  rfl

/-- The number of nodes after an insertion into a tree, its new root included. -/
def nodesAfter {T : Type} (fresh : Nat) : Inserted Int T → Nat
  | .split _ _ _ next => next + 1
  | out => nextLabel fresh out

theorem nextLabel_le_nodesAfter {T : Type} (fresh : Nat) (out : Inserted Int T) :
    nextLabel fresh out ≤ nodesAfter fresh out := by
  cases out with
  | duplicate => exact Nat.le_refl _
  | done t next => exact Nat.le_refl _
  | split l s r next => exact Nat.le_succ next

section Stored

variable {h : Heap} {n : Nat} {t : BPlus Int Int n} (key offset : Int)

/-- A call whose allocations succeed does what it does without failures. -/
theorem insertFrom_reliable (hs : Stores ⟨some (BPlus.label n t), h⟩ n t)
    (hall : h.Allocates (nodesAfter h.nodes.length
      (BPlus.insert bptreeMaxKeys key offset n h.nodes.length t))) :
    insertFrom (BPlus.label n t) h key offset =
      (insertFrom (BPlus.label n t) h.reliable key offset).map fun out ↦
        (⟨out.1.root, out.1.heap.withCalloc h.calloc⟩, out.2) := by
  have hrun := insertRecursive_reliable hs.depth_lt key offset hs.holds hs.unshared
    fun i hlo hlt ↦ hall i hlo (Nat.lt_of_lt_of_le hlt (nextLabel_le_nodesAfter _ _))
  have hreal := insertRecursive_realizes (h := h.reliable) (fun _ ↦ rfl) hs.depth_lt key offset
    (hs.holds.congr fun _ _ ↦ rfl) hs.unshared
  rw [Heap.reliable_nodes] at hreal
  simp only [insertFrom, Heap.reliable_nodes]
  cases hi : BPlus.insert bptreeMaxKeys key offset n h.nodes.length t with
  | duplicate =>
    rw [hi] at hreal
    simp only [Realizes] at hreal
    rw [hrun, hreal]
    rfl
  | done t' next =>
    rw [hi] at hreal
    obtain ⟨h', r, hout, ⟨hsplit, hdup, hfailed⟩, -, -⟩ := hreal
    rw [hrun, hout]
    simp only [Option.map_some, hsplit, hdup, hfailed, Bool.or_self, Bool.false_eq_true, if_false]
  | split l s r next =>
    rw [hi] at hreal hall
    obtain ⟨h', hout, hu, -, -⟩ := hreal
    have hc : h.calloc h'.nodes.length = true := by
      rw [hu.size]
      exact hall next (Nat.le_of_lt (lt_of_insert_eq_split hi)) (Nat.lt_succ_self next)
    have hc' : h'.calloc h'.nodes.length = true := by rw [hu.calloc]; rfl
    rw [hrun, hout]
    simp only [Option.map_some, InsertResult.zero, Bool.or_self, Bool.false_eq_true, if_false,
      if_true, createNode_of_calloc hc', createNode_of_calloc (h := h'.withCalloc h.calloc) hc]
    rfl

/-- A call that fails at its first allocation changes nothing; one that fails later loses an
entry. -/
theorem insertFrom_fails (hs : Stores ⟨some (BPlus.label n t), h⟩ n t) {i : Nat}
    (hlo : h.nodes.length ≤ i)
    (hi : i < nodesAfter h.nodes.length
      (BPlus.insert bptreeMaxKeys key offset n h.nodes.length t))
    (hprev : h.Allocates i) (hfail : h.calloc i = false) :
    ∃ h', insertFrom (BPlus.label n t) h key offset =
        some (⟨some (BPlus.label n t), h'⟩, false) ∧
      (i = h.nodes.length → h' = h) ∧
      (h.nodes.length < i → ∃ e ∈ BPlus.entries n t,
        bptreeSearch ⟨some (BPlus.label n t), h'⟩ e.1 = some none) := by
  have hsearch : ∀ {h' : Heap}, FailedCall h n t i h' → h.nodes.length < i →
      ∃ e ∈ BPlus.entries n t, bptreeSearch ⟨some (BPlus.label n t), h'⟩ e.1 = some none := by
    intro h' hcall hlt
    obtain ⟨e, he, hm⟩ := hcall.misses hlt
    obtain ⟨leaf, keys, offsets, next, hd, hg, hk⟩ :=
      hm h'.nodes.length (by rw [hcall.size]; exact Nat.lt_of_lt_of_le hs.depth_lt hlo)
    have hne : keys[findLeafPosition keys e.1]? ≠ some e.1 := fun he ↦
      hk (List.mem_of_getElem? he)
    refine ⟨e, he, ?_⟩
    simp only [bptreeSearch, hd, hg, if_neg hne]
  by_cases hlt : i < nextLabel h.nodes.length
      (BPlus.insert bptreeMaxKeys key offset n h.nodes.length t)
  · obtain ⟨h', r, hout, hr, hcall⟩ := insertRecursive_fails hs.depth_lt key offset hs.holds
      hs.unshared hs.ordered hs.filled hlo hlt hprev hfail
    refine ⟨h', ?_, hcall.unchanged, hsearch hcall⟩
    simp only [insertFrom, hout, hr, Bool.or_true, if_true]
  · -- the old root was split and the new one is not created
    cases hc : BPlus.insert bptreeMaxKeys key offset n h.nodes.length t with
    | duplicate =>
      rw [hc] at hi hlt
      exact absurd hi hlt
    | done t' next =>
      rw [hc] at hi hlt
      exact absurd hi hlt
    | split l s r next =>
      rw [hc] at hi hlt
      obtain rfl : i = next := Nat.le_antisymm (Nat.le_of_lt_succ hi) (Nat.not_lt.mp hlt)
      obtain ⟨h', hout, hcalloc, hcall⟩ := insertRecursive_of_split hs.depth_lt key offset
        hs.holds hs.unshared hs.ordered hs.filled hc hprev
      have hfail' : h'.calloc h'.nodes.length = false := by
        rw [hcalloc, hcall.size]
        exact hfail
      refine ⟨h', ?_, hcall.unchanged, hsearch hcall⟩
      simp only [insertFrom, hout, InsertResult.zero, Bool.or_self, Bool.false_eq_true, if_false,
        if_true, createNode_of_not_calloc hfail']

end Stored

/-! ### The nodes that a call needs -/

/-- How many nodes an insertion splits below a node, that node included, and whether it splits
the node itself: the full ones from the leaf up to the first with room. -/
def splitsBelow : Nat → Heap → NodePtr → Int → Nat × Bool
  | 0, _, _, _ => (0, false)
  | fuel + 1, h, node, key =>
    match h.get node with
    | none => (0, false)
    | some ⟨keys, .leaf _ _⟩ =>
      if key ∈ keys ∨ keys.length < bptreeMaxKeys then (0, false) else (1, true)
    | some ⟨keys, .internal children⟩ =>
      match children[findChildPosition keys key]? with
      | none => (0, false)
      | some child =>
        let below := splitsBelow fuel h child key
        if below.2 && !decide (keys.length < bptreeMaxKeys) then (below.1 + 1, true)
        else (below.1, false)

/-- How many nodes an insertion has to create: one for every node that it splits, and a root
when the tree is empty or its root is split. -/
def nodesNeeded (tree : BPlusTree) (key : Int) : Nat :=
  match tree.root with
  | none => 1
  | some root =>
    let splits := splitsBelow tree.heap.nodes.length tree.heap root key
    if splits.2 then splits.1 + 1 else splits.1

/-- The outcome of an insertion is a split. -/
def isSplit {T : Type} : Inserted Int T → Bool
  | .split _ _ _ _ => true
  | _ => false

/-- An insertion of the library splits the nodes that are counted. -/
theorem splitsBelow_spec {h : Heap} {n fuel : Nat} (hfuel : n < fuel) {t : BPlus Int Int n}
    {exit : Option NodePtr} (key offset : Int) (fresh : Nat) (hh : Holds h n t exit)
    (ho : BPlus.Ordered n t) :
    nextLabel fresh (BPlus.insert bptreeMaxKeys key offset n fresh t) =
        fresh + (splitsBelow fuel h (BPlus.label n t) key).1 ∧
      isSplit (BPlus.insert bptreeMaxKeys key offset n fresh t) =
        (splitsBelow fuel h (BPlus.label n t) key).2 := by
  induction n generalizing exit fuel with
  | zero =>
    obtain ⟨fuel, rfl⟩ : ∃ f, fuel = f + 1 := ⟨fuel - 1, by omega⟩
    have hg : h.get (BPlus.label 0 t) = some _ := hh
    have hmem : (findEntry key (Leaf.entries t)).isSome = true ↔
        key ∈ (Leaf.entries t).map Prod.fst := by
      rw [Option.isSome_iff_ne_none, Ne, findEntry_eq_none_iff ho]
      simp [List.mem_map]
    simp only [splitsBelow, hg, BPlus.insert, Leaf.insert, List.length_map, ← hmem]
    by_cases hdup : (findEntry key (Leaf.entries t)).isSome = true
    · simp only [hdup, true_or, if_true]
      exact ⟨rfl, rfl⟩
    · by_cases hroom : (Leaf.entries t).length < bptreeMaxKeys
      · simp only [if_neg hdup, hroom, or_true, if_true]
        exact ⟨rfl, rfl⟩
      · simp only [hdup, hroom, Bool.false_eq_true, or_self, if_false]
        exact ⟨rfl, rfl⟩
  | succ n ih =>
    obtain ⟨fuel, rfl⟩ : ∃ f, fuel = f + 1 := ⟨fuel - 1, by omega⟩
    have hg : h.get (BPlus.label (n + 1) t) = some _ := hh.1
    obtain ⟨ex, hchild⟩ := hh.child _ (descend_mem key _ _)
    obtain ⟨hnext, hsplit⟩ := ih (Nat.lt_of_succ_lt_succ hfuel) hchild
      (ho.child _ (descend_mem key _ _))
    simp only [splitsBelow, hg, getElem?_findChildPosition (BPlus.label n) key, List.length_map]
    rw [← hsplit]
    cases hc : BPlus.insert bptreeMaxKeys key offset n fresh (child key t) with
    | duplicate =>
      rw [hc] at hnext
      rw [BPlus.insert, hc]
      exact ⟨hnext, rfl⟩
    | done c next =>
      rw [hc] at hnext
      rw [BPlus.insert, hc]
      exact ⟨hnext, rfl⟩
    | split l s r next =>
      rw [hc] at hnext
      have hlen := length_replace key (l, [(s, r)]) (Branch.first t) (Branch.rest t)
      rw [List.length_singleton] at hlen
      have hnext' : next = fresh + (splitsBelow fuel h (BPlus.label n (child key t)) key).1 := hnext
      rw [BPlus.insert, hc]
      simp only [Branch.put, isSplit]
      by_cases hroom : (Branch.rest t).length < bptreeMaxKeys
      · rw [dif_pos (by rw [hlen]; omega)]
        simp only [hroom, decide_true, Bool.not_true, Bool.and_false, Bool.false_eq_true, if_false]
        exact ⟨hnext, trivial⟩
      · rw [dif_neg (by rw [hlen]; omega)]
        simp only [hroom, decide_false, Bool.not_false, Bool.and_self, if_true]
        refine ⟨?_, trivial⟩
        change next + 1 = fresh + ((splitsBelow fuel h (BPlus.label n (child key t)) key).1 + 1)
        omega

theorem nodesAfter_eq {h : Heap} {n : Nat} {t : BPlus Int Int n}
    (hs : Stores ⟨some (BPlus.label n t), h⟩ n t) (key offset : Int) :
    nodesAfter h.nodes.length (BPlus.insert bptreeMaxKeys key offset n h.nodes.length t) =
      h.nodes.length + nodesNeeded ⟨some (BPlus.label n t), h⟩ key := by
  obtain ⟨hnext, hsplit⟩ :=
    splitsBelow_spec hs.depth_lt key offset h.nodes.length hs.holds hs.ordered
  simp only [nodesNeeded, ← hsplit]
  cases hc : BPlus.insert bptreeMaxKeys key offset n h.nodes.length t with
  | duplicate =>
    rw [hc] at hnext
    exact hnext
  | done t' next =>
    rw [hc] at hnext
    exact hnext
  | split l s r next =>
    rw [hc] at hnext
    have hnext' : next = _ := hnext
    change next + 1 = _ + (_ + 1)
    rw [hnext', Nat.add_assoc]

/-- An insertion into the empty leaf that becomes the root needs no further node. -/
theorem nodesNeeded_emptyLeaf (h : Heap) (key : Int) :
    nodesNeeded ⟨some h.nodes.length, h.alloc (.leaf [] none)⟩ key = 0 := by
  have hg : (h.alloc (.leaf [] none)).get h.nodes.length = some ⟨[], .leaf [] none⟩ := by
    simp [Heap.get, Heap.alloc]
  simp [nodesNeeded, splitsBelow, hg]

/-! ### What a failed insertion leaves visible -/

/-- The same tree, when later allocations succeed as `calloc` says. -/
def BPlusTree.withCalloc (tree : BPlusTree) (calloc : Nat → Bool) : BPlusTree :=
  ⟨tree.root, tree.heap.withCalloc calloc⟩

theorem splitsBelow_withCalloc (fuel : Nat) (h : Heap) (calloc : Nat → Bool) (node : NodePtr)
    (key : Int) :
    splitsBelow fuel (h.withCalloc calloc) node key = splitsBelow fuel h node key := by
  induction fuel generalizing node with
  | zero => rfl
  | succ fuel ih => simp only [splitsBelow, Heap.withCalloc_get, ih]

/-- The nodes that a call needs do not depend on the allocations. -/
theorem nodesNeeded_withCalloc (tree : BPlusTree) (calloc : Nat → Bool) (key : Int) :
    nodesNeeded (tree.withCalloc calloc) key = nodesNeeded tree key := by
  simp only [nodesNeeded, BPlusTree.withCalloc, Heap.withCalloc_nodes, splitsBelow_withCalloc]

/-- Searches and range visits see the same entries in both trees. -/
structure SameView (tree tree' : BPlusTree) : Prop where
  search : ∀ key, bptreeSearch tree' key = bptreeSearch tree key
  visitGreaterThan : ∀ (σ : Type) (key : Int) (visit : BptreeVisitFn σ) (userData : σ),
    bptreeVisitGreaterThan tree' key visit userData = bptreeVisitGreaterThan tree key visit userData
  visitLessThan : ∀ (σ : Type) (key : Int) (visit : BptreeVisitFn σ) (userData : σ),
    bptreeVisitLessThan tree' key visit userData = bptreeVisitLessThan tree key visit userData

/-- Trees with the same entries look the same. -/
theorem sameView_of_represents {tree tree' : BPlusTree} {es : List (Int × Int)}
    (h : Represents tree es) (h' : Represents tree' es) : SameView tree tree' := by
  refine ⟨fun key ↦ ?_, fun σ key visit userData ↦ ?_, fun σ key visit userData ↦ ?_⟩
  · rw [bptreeSearch_spec h, bptreeSearch_spec h']
  · rw [bptreeVisitGreaterThan_spec h, bptreeVisitGreaterThan_spec h']
  · rw [bptreeVisitLessThan_spec h, bptreeVisitLessThan_spec h']

theorem Stores.withCalloc {tree : BPlusTree} {n : Nat} {t : BPlus Int Int n}
    (hs : Stores tree n t) (calloc : Nat → Bool) : Stores (tree.withCalloc calloc) n t :=
  ⟨hs.root, hs.holds.congr fun _ _ ↦ rfl, hs.unshared, hs.ordered, hs.filled⟩

theorem Represents.withCalloc {tree : BPlusTree} {es : List (Int × Int)}
    (h : Represents tree es) (calloc : Nat → Bool) : Represents (tree.withCalloc calloc) es := by
  cases h with
  | empty hr => exact .empty hr
  | stored n t hs => exact .stored n t (hs.withCalloc calloc)

/-- The first allocation that fails, when not all succeed. -/
theorem Heap.exists_first_failure {h : Heap} {next : Nat} (hn : ¬ h.Allocates next) :
    ∃ i, h.nodes.length ≤ i ∧ i < next ∧ h.Allocates i ∧ h.calloc i = false := by
  induction next with
  | zero => exact absurd (fun i _ hi ↦ absurd hi (Nat.not_lt_zero i)) hn
  | succ next ih =>
    by_cases hprev : h.Allocates next
    · have hlast : h.nodes.length ≤ next ∧ h.calloc next = false := by
        by_contra hc
        apply hn
        intro i hlo hi
        rcases Nat.lt_succ_iff_lt_or_eq.mp hi with hlt | rfl
        · exact hprev i hlo hlt
        · simpa [hlo] using hc
      exact ⟨next, hlast.1, Nat.lt_succ_self next, hprev, hlast.2⟩
    · obtain ⟨i, hlo, hi, hall, hf⟩ := ih hprev
      exact ⟨i, hlo, Nat.lt_succ_of_lt hi, hall, hf⟩

/-- A call on a stored tree whose allocations succeed inserts the entry. -/
theorem insertFrom_spec {h : Heap} {n : Nat} {t : BPlus Int Int n} (key offset : Int)
    (hs : Stores ⟨some (BPlus.label n t), h⟩ n t)
    (hall : h.Allocates (h.nodes.length + nodesNeeded ⟨some (BPlus.label n t), h⟩ key)) :
    ∃ after, insertFrom (BPlus.label n t) h key offset =
        some (after, (findEntry key (BPlus.entries n t)).isNone) ∧
      Represents after (insertNew key offset (BPlus.entries n t)) := by
  rw [← nodesAfter_eq hs key offset] at hall
  have hreliable : Represents ⟨some (BPlus.label n t), h.reliable⟩ (BPlus.entries n t) :=
    .stored n t (hs.withCalloc _)
  obtain ⟨after, hrun, -, hrep⟩ := bptreeInsert_spec (fun _ ↦ rfl) hreliable key offset
  rw [bptreeInsert_eq_insertFrom rfl] at hrun
  refine ⟨after.withCalloc h.calloc, ?_, hrep.withCalloc _⟩
  rw [insertFrom_reliable key offset hs hall, hrun]
  rfl

/-- A call whose allocations succeed inserts the entry. -/
theorem bptreeInsert_of_allocates {tree : BPlusTree} {es : List (Int × Int)}
    (h : Represents tree es) (key offset : Int)
    (hall : tree.heap.Allocates (tree.heap.nodes.length + nodesNeeded tree key)) :
    ∃ after, bptreeInsert tree key offset = some (after, (findEntry key es).isNone) ∧
      Represents after (insertNew key offset es) := by
  obtain ⟨root, heap⟩ := tree
  cases h with
  | empty hr =>
    obtain rfl : root = none := hr
    have hroot : rootOrEmptyLeaf ⟨none, heap⟩ =
        some (heap.nodes.length, heap.alloc (.leaf [] none)) :=
      createNode_of_calloc (hall _ (Nat.le_refl _) (Nat.lt_succ_self _)) _
    have hs : Stores ⟨some heap.nodes.length, heap.alloc (.leaf [] none)⟩ 0
        (Leaf.mk heap.nodes.length []) := by
      refine ⟨rfl, ?_, List.pairwise_singleton _ _, List.Pairwise.nil, Nat.le_refl _,
        Nat.zero_le _⟩
      change (heap.nodes ++ [_])[_]? = _
      simp
    rw [bptreeInsert_eq_insertFrom hroot]
    have hneed := nodesNeeded_emptyLeaf heap key
    have hspec := insertFrom_spec (n := 0) (t := Leaf.mk heap.nodes.length []) key offset hs
    apply hspec
    intro i hlo hi
    change i < _ + nodesNeeded ⟨some heap.nodes.length, _⟩ key at hi
    rw [hneed] at hi
    omega
  | stored n t hs =>
    obtain rfl : root = some (BPlus.label n t) := hs.root
    rw [bptreeInsert_eq_insertFrom rfl]
    exact insertFrom_spec key offset hs hall

/-- A call that fails at its first allocation changes nothing; one that fails later loses an
entry. -/
theorem bptreeInsert_of_failure {tree : BPlusTree} {es : List (Int × Int)}
    (h : Represents tree es) (key offset : Int) {i : Nat} (hlo : tree.heap.nodes.length ≤ i)
    (hi : i < tree.heap.nodes.length + nodesNeeded tree key) (hprev : tree.heap.Allocates i)
    (hfail : tree.heap.calloc i = false) :
    ∃ after, bptreeInsert tree key offset = some (after, false) ∧
      (i = tree.heap.nodes.length → after = tree) ∧
      (tree.heap.nodes.length < i → ∃ e ∈ es, bptreeSearch after e.1 = some none) := by
  obtain ⟨root, heap⟩ := tree
  cases h with
  | empty hr =>
    obtain rfl : root = none := hr
    obtain rfl : i = heap.nodes.length := Nat.le_antisymm (Nat.le_of_lt_succ hi) hlo
    refine ⟨_, ?_, fun _ ↦ rfl, fun hlt ↦ absurd hlt (Nat.lt_irrefl _)⟩
    simp only [bptreeInsert, rootOrEmptyLeaf, createNode_of_not_calloc hfail]
  | stored n t hs =>
    obtain rfl : root = some (BPlus.label n t) := hs.root
    rw [bptreeInsert_eq_insertFrom rfl]
    rw [← nodesAfter_eq hs key offset] at hi
    obtain ⟨h', hrun, hsame, hlost⟩ := insertFrom_fails key offset hs hlo hi hprev hfail
    refine ⟨_, hrun, fun he ↦ ?_, hlost⟩
    rw [hsame he]

/-- A failed call leaves searches and range visits as they were exactly when no allocation
fails after an earlier one of the same call has succeeded. -/
theorem failedInsert_sameView_iff {inserts : List (Int × Int)} {tree : BPlusTree}
    {returned : List Bool}
    (hr : insertAll (bptreeCreate fun _ ↦ true) inserts = some (tree, returned))
    (calloc : Nat → Bool) (key offset : Int) :
    (∀ after, bptreeInsert (tree.withCalloc calloc) key offset = some (after, false) →
        SameView (tree.withCalloc calloc) after) ↔
      (calloc tree.heap.nodes.length = true →
        ∀ i < nodesNeeded tree key, calloc (tree.heap.nodes.length + i) = true) := by
  obtain ⟨tree', _, es, hrun, hrep, -⟩ :=
    insertAll_spec (fun _ ↦ rfl) (represents_create fun _ ↦ true) inserts
  obtain ⟨rfl, -⟩ := Prod.mk.inj (Option.some.inj (hr.symm.trans hrun))
  have hrep' := hrep.withCalloc calloc
  have hneed := nodesNeeded_withCalloc tree calloc key
  have hall : (tree.withCalloc calloc).heap.Allocates (tree.heap.nodes.length +
      nodesNeeded tree key) ↔
        ∀ i < nodesNeeded tree key, calloc (tree.heap.nodes.length + i) = true := by
    constructor
    · intro h i hi
      exact h _ (Nat.le_add_right _ _) (Nat.add_lt_add_left hi _)
    · intro h i hlo hi
      have hlo' : tree.heap.nodes.length ≤ i := hlo
      have := h (i - tree.heap.nodes.length) (by omega)
      rwa [Nat.add_sub_cancel' hlo'] at this
  rw [← hall]
  constructor
  · intro hview hfirst
    by_contra hn
    obtain ⟨i, hlo, hi, hprev, hfail⟩ := Heap.exists_first_failure hn
    rw [← hneed] at hi
    obtain ⟨after, hcall, -, hlost⟩ :=
      bptreeInsert_of_failure hrep' key offset hlo hi hprev hfail
    have hne : tree.heap.nodes.length ≠ i := by
      rintro rfl
      exact absurd hfirst (by rw [show calloc tree.heap.nodes.length = false from hfail]; decide)
    obtain ⟨e, he, hsearch⟩ := hlost (Nat.lt_of_le_of_ne hlo hne)
    have hsame := (hview after hcall).search e.1
    rw [hsearch, bptreeSearch_spec hrep',
      (findEntry_eq_some_iff hrep'.sortedKeys).mpr he] at hsame
    cases hsame
  · intro h after hcall
    by_cases hfull : (tree.withCalloc calloc).heap.Allocates (tree.heap.nodes.length +
        nodesNeeded tree key)
    · rw [← hneed] at hfull
      obtain ⟨after', hcall', hrep''⟩ := bptreeInsert_of_allocates hrep' key offset hfull
      obtain ⟨rfl, hflag⟩ := Prod.mk.inj (Option.some.inj (hcall.symm.trans hcall'))
      apply sameView_of_represents hrep'
      rw [insertNew, if_neg (by rw [← hflag]; decide)] at hrep''
      exact hrep''
    · obtain ⟨i, hlo, hi, hprev, hfail⟩ := Heap.exists_first_failure hfull
      rw [← hneed] at hi
      obtain ⟨after', hcall', hsame, -⟩ :=
        bptreeInsert_of_failure hrep' key offset hlo hi hprev hfail
      obtain ⟨rfl, -⟩ := Prod.mk.inj (Option.some.inj (hcall.symm.trans hcall'))
      have hfirst : i = tree.heap.nodes.length := by
        by_contra hne
        refine hfull (h (hprev _ (Nat.le_refl _) ?_))
        exact Nat.lt_of_le_of_ne hlo (Ne.symm hne)
      rw [hsame hfirst]
      exact sameView_of_represents hrep' hrep'

theorem failedInsert_sameView_iff_firstAllocation :
    ∃ after, bptreeInsert (BPlusTree.withCalloc
        ⟨some 0, ⟨[⟨[10, 20, 30], .leaf [0, 9, 18] none⟩], fun _ ↦ true⟩⟩ fun _ ↦ false) 40 27 =
          some (after, false) ∧
      SameView (BPlusTree.withCalloc
        ⟨some 0, ⟨[⟨[10, 20, 30], .leaf [0, 9, 18] none⟩], fun _ ↦ true⟩⟩ fun _ ↦ false) after := by
  have hr : insertAll (bptreeCreate fun _ ↦ true) [(10, 0), (20, 9), (30, 18)] =
      some (⟨some 0, ⟨[⟨[10, 20, 30], .leaf [0, 9, 18] none⟩], fun _ ↦ true⟩⟩,
        [true, true, true]) := rfl
  refine ⟨_, rfl, (failedInsert_sameView_iff hr (fun _ ↦ false) 40 27).mpr (fun h ↦ ?_) _ rfl⟩
  cases h

/-- The leaf is split and the new root is not created. -/
theorem failedInsert_not_sameView :
    ∃ tree returned after,
      insertAll (bptreeCreate fun _ ↦ true) [(10, 0), (20, 9), (30, 18)] =
        some (tree, returned) ∧
      bptreeInsert (tree.withCalloc fun i ↦ decide (i ≠ 2)) 40 27 = some (after, false) ∧
      ¬ SameView (tree.withCalloc fun i ↦ decide (i ≠ 2)) after := by
  refine ⟨⟨some 0, ⟨[⟨[10, 20, 30], .leaf [0, 9, 18] none⟩], fun _ ↦ true⟩⟩, _, _, rfl, rfl,
    fun h ↦ ?_⟩
  exact absurd (h.search 30) (by decide)

end SqlProc.Index
