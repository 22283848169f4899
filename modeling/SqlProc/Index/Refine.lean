import SqlProc.Index.Holds

/-!
# Heap insertion performs the library insertion

Library `Index`. `insert_recursive` of `src/bptree.c` performs the insertion of the B+ tree
library on the tree that the heap stores, splits included, and touches no other node.
-/

namespace SqlProc.Index

open Support

/-- What `insert_recursive` has done to the heap when the library insertion has ended with
the given outcome. -/
def Realizes (h : Heap) (n : Nat) (t : BPlus Int Int n) (exit : Option NodePtr) :
    Inserted Int (BPlus Int Int n) → Option (Heap × InsertResult) → Prop
  | .duplicate, out => out = some (h, { InsertResult.zero with duplicate := true })
  | .done t' next, out =>
    ∃ h' r, out = some (h', r) ∧ (r.split = false ∧ r.duplicate = false ∧ r.failed = false) ∧
      Update h h' (BPlus.labels n t) next ∧ Holds h' n t' exit
  | .split left s right next, out =>
    ∃ h', out = some (h', { InsertResult.zero with
        split := true, promotedKey := s, rightNode := some (BPlus.label n right) }) ∧
      Update h h' (BPlus.labels n t) next ∧
      Holds h' n left (some (BPlus.firstLeaf n right)) ∧ Holds h' n right exit

private theorem headD_drop_map {es : List (Int × Int)} (i : Fin es.length) :
    ((es.map Prod.fst).drop i).headD 0 = (es.get i).1 := by
  rw [← List.map_drop, List.drop_eq_getElem_cons i.isLt]
  rfl

/-- `insert_into_leaf` performs the library insertion on a stored leaf. -/
theorem insertIntoLeaf_realizes {h : Heap} (hc : ∀ i, h.calloc i = true) (t : Leaf Int Int)
    (exit : Option NodePtr) (key offset : Int) (hh : Holds h 0 t exit) :
    Realizes h 0 t exit (Leaf.insert bptreeMaxKeys key offset h.nodes.length t)
      (some (insertIntoLeaf h t.label (t.entries.map Prod.fst) (t.entries.map Prod.snd) exit
        key offset)) := by
  have hlt : t.label < h.nodes.length := Holds.lt hh _ (List.mem_singleton.mpr rfl)
  simp only [Leaf.insert, insertIntoLeaf, getElem?_findLeafPosition, List.length_map]
  split
  · rfl
  · split
    · refine ⟨_, _, rfl, ⟨rfl, rfl, rfl⟩, ⟨?_, ?_, rfl⟩, ?_⟩
      · intro a _ ha
        exact h.get_set_ne (fun he ↦ ha (List.mem_singleton.mpr he)) _
      · exact h.length_nodes_set _ _
      · apply (h.get_set_self hlt _).trans
        simp only [map_fst_insertEntry, map_snd_insertEntry]
    · let i : Fin (insertEntry key offset t.entries).length :=
        ⟨(insertEntry key offset t.entries).length / 2, by rw [length_insertEntry]; omega⟩
      have hi : (t.entries.length + 1) / 2 = i := by
        simp only [i, length_insertEntry]
      obtain ⟨hu, hl, hr⟩ := update_split h hlt (.leaf [] none)
        ⟨((insertEntry key offset t.entries).take i).map Prod.fst,
          .leaf (((insertEntry key offset t.entries).take i).map Prod.snd)
            (some h.nodes.length)⟩
        ⟨((insertEntry key offset t.entries).drop i).map Prod.fst,
          .leaf (((insertEntry key offset t.entries).drop i).map Prod.snd) exit⟩
      refine ⟨_, ?_, hu, hl, hr⟩
      simp only [splitLeafAndInsert, h.createNode_eq hc, List.length_map, hi,
        ← map_fst_insertEntry key offset, ← map_snd_insertEntry key offset, headD_drop_map,
        List.map_take, List.map_drop]
      rfl

section Branch

variable {h h' : Heap} {n next : Nat} {t : BPlus Int Int (n + 1)} {exit : Option NodePtr}
  {key offset : Int}

/-- The child that insertion descends into. -/
abbrev child (key : Int) (t : BPlus Int Int (n + 1)) : BPlus Int Int n :=
  descend key (Branch.first t) (Branch.rest t)

private theorem labels_child_subset (key : Int) (t : BPlus Int Int (n + 1)) :
    ∀ a ∈ BPlus.labels n (child key t), a ∈ BPlus.labels (n + 1) t := by
  intro a ha
  obtain ⟨xs, ys, hf, -⟩ := forest_replace (BPlus.labels n) key (Branch.first t) (Branch.rest t)
  apply List.mem_cons_of_mem _
  rw [hf]
  simp [ha]

/-- An operation below one child leaves the parent and the other children alone. -/
private theorem update_parent (hnd : (BPlus.labels (n + 1) t).Nodup)
    (hh : Holds h (n + 1) t exit) (hu : Update h h' (BPlus.labels n (child key t)) next) :
    h'.get (Branch.label t) = h.get (Branch.label t) ∧
      ∀ a ∈ forest (BPlus.labels n) (Branch.first t) (Branch.rest t),
        a ∉ BPlus.labels n (child key t) → h'.get a = h.get a := by
  obtain ⟨hroot, -⟩ := List.nodup_cons.mp hnd
  obtain ⟨xs, ys, hf, -⟩ := forest_replace (BPlus.labels n) key (Branch.first t) (Branch.rest t)
  refine ⟨hu.frame _ (h.lt_of_get hh.1) fun hm ↦ hroot ?_, fun a ha hn ↦ ?_⟩
  · rw [hf]
    simp [hm]
  · exact hu.frame a (hh.lt a (List.mem_cons_of_mem _ ha)) hn

/-- A child that did not split stays where it was. -/
theorem realizes_done (hnd : (BPlus.labels (n + 1) t).Nodup) (hh : Holds h (n + 1) t exit)
    {c : BPlus Int Int n} {ex : Option NodePtr}
    (hl : BPlus.label n c = BPlus.label n (child key t))
    (hf : BPlus.firstLeaf n c = BPlus.firstLeaf n (child key t))
    (hu : Update h h' (BPlus.labels n (child key t)) next) (hc : Holds h' n c ex)
    (hfocus : Refocus h n key (Branch.first t) (Branch.rest t) ex exit) :
    Update h h' (BPlus.labels (n + 1) t) next ∧
      Holds h' (n + 1)
        (Branch.mk (Branch.label t) (replace key (c, []) (Branch.first t) (Branch.rest t)).1
          (replace key (c, []) (Branch.first t) (Branch.rest t)).2) exit := by
  obtain ⟨hp, hother⟩ := update_parent hnd hh hu
  refine ⟨⟨fun a ha hn ↦ ?_, hu.size, hu.calloc⟩, ?_, hfocus h' (c, []) hf hc hother⟩
  · exact hu.frame a ha fun hm ↦ hn (labels_child_subset key t a hm)
  · refine hp.trans (hh.1.trans ?_)
    rw [map_fst_replace_one, map_label_replace_one (BPlus.label n) key hl]

/-- The loops that put a promoted key and its right child into a parent perform the library
step, splitting the parent when it is full. -/
theorem realizes_put (hca : ∀ i, h'.calloc i = true) (hnd : (BPlus.labels (n + 1) t).Nodup)
    (hh : Holds h (n + 1) t exit) {l r : BPlus Int Int n} {s : Int} {ex : Option NodePtr}
    (hl : BPlus.label n l = BPlus.label n (child key t))
    (hf : BPlus.firstLeaf n l = BPlus.firstLeaf n (child key t))
    (hroot : Branch.label t ∉ BPlus.labels n l ++ BPlus.labels n r)
    (hu : Update h h' (BPlus.labels n (child key t)) next) (hle : h.nodes.length ≤ next)
    (hhl : Holds h' n l (some (BPlus.firstLeaf n r))) (hhr : Holds h' n r ex)
    (hfocus : Refocus h n key (Branch.first t) (Branch.rest t) ex exit) :
    Realizes h (n + 1) t exit
      (Branch.put bptreeMaxKeys (Branch.label t) next
        (replace key (l, [(s, r)]) (Branch.first t) (Branch.rest t)))
      (some
        (if ((Branch.rest t).map Prod.fst).length < bptreeMaxKeys then
          (insertInternalWithoutSplit h' (Branch.label t) ((Branch.rest t).map Prod.fst)
            (BPlus.label n (Branch.first t) :: (Branch.rest t).map fun e ↦ BPlus.label n e.2)
            (findChildPosition ((Branch.rest t).map Prod.fst) key) s (BPlus.label n r),
            { InsertResult.zero with promotedKey := s })
        else
          splitInternalAndInsert h' (Branch.label t) ((Branch.rest t).map Prod.fst)
            (BPlus.label n (Branch.first t) :: (Branch.rest t).map fun e ↦ BPlus.label n e.2)
            (findChildPosition ((Branch.rest t).map Prod.fst) key) s (BPlus.label n r))) := by
  obtain rfl := hu.size
  obtain ⟨hp, hother⟩ := update_parent hnd hh hu
  have hchain := hfocus h' (l, [(s, r)]) hf ⟨hhl, hhr⟩ hother
  have hkeys := map_fst_replace_two key l r s (Branch.first t) (Branch.rest t)
  have hptrs := map_label_replace_two (BPlus.label n) key (l := l) (r := r) (s := s) hl
  have hlen := length_replace key (l, [(s, r)]) (Branch.first t) (Branch.rest t)
  have hnew : Branch.label t ∉ forest (BPlus.labels n)
      (replace key (l, [(s, r)]) (Branch.first t) (Branch.rest t)).1
      (replace key (l, [(s, r)]) (Branch.first t) (Branch.rest t)).2 := by
    obtain ⟨xs, ys, ho, hr⟩ := forest_replace (BPlus.labels n) key (Branch.first t) (Branch.rest t)
    have hold := (List.nodup_cons.mp hnd).1
    rw [ho] at hold
    rw [hr, forest_cons, forest_nil]
    simp only [List.mem_append, not_or] at hold hroot ⊢
    exact ⟨⟨hold.1.1, hroot⟩, hold.2⟩
  have hlt : Branch.label t < h'.nodes.length := h'.lt_of_get (hp.trans hh.1)
  simp only [List.length_singleton] at hlen
  simp only [insertInternalWithoutSplit, splitInternalAndInsert, h'.createNode_eq hca, ← hkeys,
    ← hptrs, List.length_map]
  generalize replace key (l, [(s, r)]) (Branch.first t) (Branch.rest t) = children at *
  obtain ⟨first, rest⟩ := children
  have htrans {h'' : Heap} {next' : Nat} (hu'' : Update h' h'' [Branch.label t] next') :
      Update h h'' (BPlus.labels (n + 1) t) next' ∧
        HoldsChildren (Holds h'' n) (BPlus.firstLeaf n) first rest exit := by
    refine ⟨hu.trans hu'' hle (labels_child_subset key t) ?_, hchain.congr fun a ha ↦ ?_⟩
    · intro a ha
      rw [List.mem_singleton.mp ha]
      exact BPlus.label_mem_labels (n + 1) t
    · refine hu''.frame a (hchain.lt a ha) fun hm ↦ hnew ?_
      rw [← List.mem_singleton.mp hm]
      exact ha
  rw [Branch.put]
  by_cases hfull : (Branch.rest t).length < bptreeMaxKeys
  · rw [dif_pos (by simp only [hlen]; omega), if_pos hfull]
    obtain ⟨hu'', hc''⟩ := htrans (update_set h' (Branch.label t) _)
    exact ⟨_, _, rfl, ⟨rfl, rfl, rfl⟩, hu'', h'.get_set_self hlt _, hc''⟩
  · rw [dif_neg (by simp only [hlen]; omega), if_neg hfull]
    let i : Fin rest.length := ⟨rest.length / 2, by simp only [hlen]; omega⟩
    have hi : ((Branch.rest t).length + 1) / 2 = i := by rw [← hlen]
    obtain ⟨hu₁, hl₁, hr₁⟩ := update_split h' hlt (.internal [])
      ⟨(rest.take i).map Prod.fst, .internal (BPlus.label n first ::
        (rest.take i).map fun e ↦ BPlus.label n e.2)⟩
      ⟨(rest.drop (i + 1)).map Prod.fst, .internal (BPlus.label n (rest.get i).2 ::
        (rest.drop (i + 1)).map fun e ↦ BPlus.label n e.2)⟩
    obtain ⟨hu'', hc''⟩ := htrans hu₁
    obtain ⟨hcl, hcr⟩ := hc''.cut i
    refine ⟨_, ?_, hu'', ⟨hl₁, hcl⟩, ⟨hr₁, hcr⟩⟩
    have hsep : (rest.map Prod.fst).getD i 0 = (rest.get i).1 := by simp
    have hright : (BPlus.label n first :: rest.map fun e ↦ BPlus.label n e.2).drop (i + 1) =
        BPlus.label n (rest.get i).2 ::
          (rest.drop (i + 1)).map fun e ↦ BPlus.label n e.2 := by
      rw [List.drop_succ_cons, ← List.map_drop, List.drop_eq_getElem_cons i.isLt]
      rfl
    simp only [hi, hright, hsep, List.take_succ_cons, List.map_take, List.map_drop]
    rfl

end Branch

/-- `insert_recursive` performs the library insertion on a stored tree. -/
theorem insertRecursive_realizes {h : Heap} (hca : ∀ i, h.calloc i = true) {n fuel : Nat}
    (hfuel : n < fuel) {t : BPlus Int Int n} {exit : Option NodePtr} (key offset : Int)
    (hh : Holds h n t exit) (hnd : (BPlus.labels n t).Nodup) :
    Realizes h n t exit (BPlus.insert bptreeMaxKeys key offset n h.nodes.length t)
      (insertRecursive fuel h (BPlus.label n t) key offset) := by
  induction n generalizing exit fuel with
  | zero =>
    obtain ⟨fuel, rfl⟩ : ∃ f, fuel = f + 1 := ⟨fuel - 1, by omega⟩
    have hg : h.get (BPlus.label 0 t) = some _ := hh
    rw [insertRecursive, hg]
    exact insertIntoLeaf_realizes hca t exit key offset hh
  | succ n ih =>
    obtain ⟨fuel, rfl⟩ : ∃ f, fuel = f + 1 := ⟨fuel - 1, by omega⟩
    have hg : h.get (BPlus.label (n + 1) t) = some _ := hh.1
    obtain ⟨hroot, hndc⟩ := List.nodup_cons.mp hnd
    obtain ⟨xs, ys, hforest, -⟩ :=
      forest_replace (BPlus.labels n) key (Branch.first t) (Branch.rest t)
    obtain ⟨ex, hchild, hfocus⟩ := hh.2.focus key hndc
    have hndchild : (BPlus.labels n (child key t)).Nodup := by
      rw [hforest, List.append_assoc, List.nodup_append] at hndc
      exact (List.nodup_append.mp hndc.2.1).1
    have hr := ih (Nat.lt_of_succ_lt_succ hfuel) hchild hndchild
    have hlab := BPlus.insert_labels bptreeMaxKeys key offset n h.nodes.length (child key t)
    simp only [insertRecursive, hg, getElem?_findChildPosition (BPlus.label n) key]
    rw [BPlus.insert]
    cases hi : BPlus.insert bptreeMaxKeys key offset n h.nodes.length (child key t) with
    | duplicate =>
      rw [hi] at hr
      simp only [Realizes] at hr ⊢
      rw [hr]
      rfl
    | done c next =>
      rw [hi] at hr hlab
      obtain ⟨h', r, hout, ⟨hs, hd, hf⟩, hu, hc⟩ := hr
      simp only [hout, hs, Bool.not_false, Bool.true_or, if_true]
      exact ⟨h', r, rfl, ⟨hs, hd, hf⟩,
        realizes_done hnd hh hlab.2.2.1 hlab.2.2.2 hu hc hfocus⟩
    | split l s r next =>
      rw [hi] at hr hlab
      obtain ⟨h', hout, hu, hl, hr⟩ := hr
      obtain ⟨hle, hperm, hlabel, hfirst⟩ := hlab
      have hfresh : Branch.label t ∉ BPlus.labels n l ++ BPlus.labels n r := by
        rw [hperm.mem_iff, List.mem_append, List.mem_range'_1, not_or]
        refine ⟨fun hm ↦ hroot ?_, fun hm ↦ ?_⟩
        · rw [hforest]
          simp [hm]
        · exact absurd (h.lt_of_get hh.1) (Nat.not_lt.mpr hm.1)
      have hg' : h'.get (BPlus.label (n + 1) t) = some _ :=
        (update_parent hnd hh hu).1.trans hh.1
      have hput := realizes_put (s := s) (fun i ↦ by rw [hu.calloc]; exact hca i) hnd hh hlabel
        hfirst hfresh hu hle hl hr hfocus
      rw [apply_ite some] at hput
      simp only [InsertResult.zero] at hput
      simp only [hout, hg', InsertResult.zero, Bool.not_true, Bool.or_self,
        Bool.false_eq_true, if_false]
      exact hput

end SqlProc.Index
