import SqlProc.Support.BPlusTree
import Mathlib.Data.List.Perm.Basic

/-!
# Insertion into a B+ tree

Library `Support`. Insertion descends to the leaf responsible for the key, splits nodes
that exceed `m` keys and hands the new right sibling and its separator to the parent. A
split node keeps its label; its right sibling takes the next fresh label.
-/

namespace Support

/-- Outcome of an insertion into a subtree; `next` is the next fresh label. -/
inductive Inserted (K T : Type) where
  | duplicate
  | done (tree : T) (next : Nat)
  | split (left : T) (sep : K) (right : T) (next : Nat)

variable {K V : Type}

/-- A branch with `children`, split in the middle when it has more than `m` separators. -/
def Branch.put {T : Type} (m label fresh : Nat) (children : T × List (K × T)) :
    Inserted K (Branch K T) :=
  if h : children.2.length ≤ m then .done ⟨label, children.1, children.2⟩ fresh
  else
    let i : Fin children.2.length := ⟨children.2.length / 2, by omega⟩
    .split ⟨label, children.1, children.2.take i⟩ (children.2.get i).1
      ⟨fresh, (children.2.get i).2, children.2.drop (i + 1)⟩ (fresh + 1)

variable [LinearOrder K]

/-- Insertion into a leaf of at most `m` entries. -/
def Leaf.insert (m : Nat) (k : K) (v : V) (fresh : Nat) (t : Leaf K V) : Inserted K (Leaf K V) :=
  if (findEntry k t.entries).isSome then .duplicate
  else if t.entries.length < m then .done ⟨t.label, insertEntry k v t.entries⟩ fresh
  else
    let es := insertEntry k v t.entries
    let i : Fin es.length := ⟨es.length / 2, by simp only [es, length_insertEntry]; omega⟩
    .split ⟨t.label, es.take i⟩ (es.get i).1 ⟨fresh, es.drop i⟩ (fresh + 1)

namespace BPlus

/-- Insertion into a tree of nodes with at most `m` keys. -/
def insert (m : Nat) (k : K) (v : V) : (n : Nat) → Nat → BPlus K V n →
    Inserted K (BPlus K V n)
  | 0, fresh, t => Leaf.insert m k v fresh t
  | n + 1, fresh, t =>
    match insert m k v n fresh (descend k (Branch.first t) (Branch.rest t)) with
    | .duplicate => .duplicate
    | .done c next =>
      let children := replace k (c, []) (Branch.first t) (Branch.rest t)
      .done (Branch.mk (Branch.label t) children.1 children.2) next
    | .split l s r next =>
      Branch.put m (Branch.label t) next
        (replace k (l, [(s, r)]) (Branch.first t) (Branch.rest t))

/-! ### Contents, order and node sizes -/

/-- What an insertion may leave: a refusal when the key is there, else the entries with
the new one among them, in ordered and filled trees. -/
def InsertSpec (m lo : Nat) (k : K) (v : V) (n : Nat) (t : BPlus K V n) :
    Inserted K (BPlus K V n) → Prop
  | .duplicate => ∃ w, (k, w) ∈ entries n t
  | .done t' _ =>
    (∀ e ∈ entries n t, e.1 ≠ k) ∧ entries n t' = insertEntry k v (entries n t) ∧
      Ordered n t' ∧ Filled m lo n t'
  | .split l s r _ =>
    (∀ e ∈ entries n t, e.1 ≠ k) ∧ entries n l ++ entries n r = insertEntry k v (entries n t) ∧
      (Ordered n l ∧ Ordered n r) ∧
      ((∀ e ∈ entries n l, e.1 < s) ∧ ∀ e ∈ entries n r, s ≤ e.1) ∧
      Filled m ((m + 1) / 2) n l ∧ Filled m ((m + 1) / 2) n r

/-- A sorted list cut at an index: the entry there separates the two parts. -/
theorem sortedKeys_cut {es : List (K × V)} (h : SortedKeys es) (i : Fin es.length) :
    (∀ e ∈ es.take i, e.1 < (es.get i).1) ∧ ∀ e ∈ es.drop i, (es.get i).1 ≤ e.1 := by
  have hd : es.drop i = es.get i :: es.drop (i + 1) := List.drop_eq_getElem_cons i.isLt
  have hs : SortedKeys (es.take i ++ es.drop i) := by
    rw [List.take_append_drop]
    exact h
  obtain ⟨-, hr, hlr⟩ := sortedKeys_append.mp hs
  rw [hd] at hr hlr ⊢
  refine ⟨fun e he ↦ hlr e he _ List.mem_cons_self, fun e he ↦ ?_⟩
  rcases List.mem_cons.mp he with rfl | he
  · exact le_rfl
  · exact ((sortedKeys_cons.mp hr).1 e he).le

private theorem insertSpec_leaf {m lo : Nat} (hm : 2 ≤ m) (k : K) (v : V) (fresh : Nat)
    (t : Leaf K V) (ho : SortedKeys t.entries)
    (hf : lo ≤ t.entries.length ∧ t.entries.length ≤ m) :
    InsertSpec m lo k v 0 t (Leaf.insert m k v fresh t) := by
  rw [Leaf.insert]
  split
  · next h =>
    obtain ⟨w, hw⟩ := Option.isSome_iff_exists.mp h
    exact ⟨w, (findEntry_eq_some_iff ho).mp hw⟩
  · next h =>
    have hk : ∀ e ∈ t.entries, e.1 ≠ k := (findEntry_eq_none_iff ho).mp (by simpa using h)
    have hs := sortedKeys_insertEntry (v := v) ho hk
    split
    · next hlt =>
      refine ⟨hk, rfl, hs, ?_, ?_⟩
      · change lo ≤ (insertEntry k v t.entries).length
        rw [length_insertEntry]
        omega
      · change (insertEntry k v t.entries).length ≤ m
        rw [length_insertEntry]
        omega
    · have hl : (insertEntry k v t.entries).length = t.entries.length + 1 :=
        length_insertEntry k v t.entries
      refine ⟨hk, List.take_append_drop _ _, ⟨?_, ?_⟩, sortedKeys_cut hs _, ?_, ?_⟩
      · exact hs.sublist (List.take_sublist _ _)
      · exact hs.sublist (List.drop_sublist _ _)
      · change (m + 1) / 2 ≤ (List.take _ _).length ∧ (List.take _ _).length ≤ m
        rw [List.length_take]
        dsimp only
        omega
      · change (m + 1) / 2 ≤ (List.drop _ _).length ∧ (List.drop _ _).length ≤ m
        rw [List.length_drop]
        dsimp only
        omega

/-- Children that are ordered, separated and filled, and at most one too many for a
branch of `m` separators. -/
private theorem put_spec {m n : Nat} (label fresh : Nat) (hm : 2 ≤ m)
    {children : BPlus K V n × List (K × BPlus K V n)}
    (ho : Ordered n children.1 ∧ ∀ e ∈ children.2, Ordered n e.2)
    (hs : Separated (entries n) children.1 children.2)
    (hf : Filled m ((m + 1) / 2) n children.1 ∧ ∀ e ∈ children.2, Filled m ((m + 1) / 2) n e.2)
    (hl : 1 ≤ children.2.length ∧ children.2.length ≤ m + 1) :
    match Branch.put m label fresh children with
    | .duplicate => False
    | .done t _ =>
      entries (n + 1) t = forest (entries n) children.1 children.2 ∧ Ordered (n + 1) t ∧
        Filled m 0 (n + 1) t
    | .split l s r _ =>
      entries (n + 1) l ++ entries (n + 1) r = forest (entries n) children.1 children.2 ∧
        (Ordered (n + 1) l ∧ Ordered (n + 1) r) ∧
        ((∀ e ∈ entries (n + 1) l, e.1 < s) ∧ ∀ e ∈ entries (n + 1) r, s ≤ e.1) ∧
        Filled m 0 (n + 1) l ∧ Filled m 0 (n + 1) r := by
  obtain ⟨first, rest⟩ := children
  simp only at ho hs hf hl ⊢
  rw [Branch.put]
  by_cases h : rest.length ≤ m
  · simp only [h, dite_true]
    exact ⟨rfl, ⟨ho.1, ho.2, hs⟩, hl.1, h, hf.1, hf.2⟩
  · simp only [h, dite_false]
    have hi : rest.length / 2 < rest.length := by omega
    have hrest : rest = rest.take (rest.length / 2) ++
        rest[rest.length / 2] :: rest.drop (rest.length / 2 + 1) := by
      rw [← List.drop_eq_getElem_cons hi, List.take_append_drop]
    have hs' := hs
    rw [hrest] at hs'
    obtain ⟨hsl, hsr, hlt, hge, -, hright⟩ := separated_append_cons.mp hs'
    have hmem : rest[rest.length / 2] ∈ rest := List.getElem_mem hi
    refine ⟨?_, ⟨⟨ho.1, fun e he ↦ ho.2 e (List.mem_of_mem_take he), hsl⟩,
        ho.2 _ hmem, fun e he ↦ ho.2 e (List.mem_of_mem_drop he), hsr⟩,
      ⟨hlt, hsr.le_of_mem hge hright⟩,
      ⟨?_, ?_, hf.1, fun e he ↦ hf.2 e (List.mem_of_mem_take he)⟩,
      ?_, ?_, hf.2 _ hmem, fun e he ↦ hf.2 e (List.mem_of_mem_drop he)⟩
    · conv_rhs => rw [hrest, forest_append_cons]
      rfl
    · change 1 ≤ (List.take _ _).length
      rw [List.length_take]
      omega
    · change (List.take _ _).length ≤ m
      rw [List.length_take]
      omega
    · change 1 ≤ (List.drop _ _).length
      rw [List.length_drop]
      omega
    · change (List.drop _ _).length ≤ m
      rw [List.length_drop]
      omega

private theorem insertSpec_done {m lo n next : Nat} {k : K} {v : V} {t : BPlus K V (n + 1)}
    {c : BPlus K V n} (ho : Ordered (n + 1) t) (hf : Filled m lo (n + 1) t)
    (h : InsertSpec m ((m + 1) / 2) k v n (descend k (Branch.first t) (Branch.rest t))
      (.done c next)) :
    InsertSpec m lo k v (n + 1) t
      (.done (Branch.mk (Branch.label t) (replace k (c, []) (Branch.first t) (Branch.rest t)).1
        (replace k (c, []) (Branch.first t) (Branch.rest t)).2) next) := by
  obtain ⟨hk, he, hoc, hfc⟩ := h
  obtain ⟨xs, ys, hfo, hx, hy, hnew⟩ := ho.2.2.focus k
  have hent :
      entries (n + 1) t = xs ++ entries n (descend k (Branch.first t) (Branch.rest t)) ++ ys :=
    hfo
  have hnil : ∀ {P : BPlus K V n → Prop}, ∀ e ∈ (c, ([] : List (K × BPlus K V n))).2, P e.2 :=
    List.forall_mem_nil _
  have hord := forall_replace k hoc hnil ho.1 ho.2.1
  have hfill := forall_replace k hfc hnil hf.2.2.1 hf.2.2.2
  have hlen := length_replace k (c, []) (Branch.first t) (Branch.rest t)
  refine ⟨?_, ?_, ⟨hord.1, hord.2, ?_⟩, ?_, ?_, hfill.1, hfill.2⟩
  · intro e hm
    rw [hent, List.mem_append, List.mem_append] at hm
    rcases hm with (hm | hm) | hm
    · exact (hx e hm).ne
    · exact hk e hm
    · exact (hy e hm).ne'
  · rw [hent, insertEntry_append_right hy, insertEntry_append_left hx, ← he]
    exact (hnew (c, [])).trans (by rw [forest_nil])
  · refine ho.2.2.replace (by trivial) ?_ (by simp) (by simp)
    intro x hxm
    rw [forest_nil, he] at hxm
    rcases mem_insertEntry.mp hxm with rfl | hxm
    · exact Or.inl rfl
    · exact Or.inr ⟨x, hxm, rfl⟩
  · have := hf.1
    change 1 ≤ List.length _
    rw [hlen]
    omega
  · have := hf.2.1
    change List.length _ ≤ m
    rw [hlen]
    simpa using this

private theorem insertSpec_split {m lo n next : Nat} (hm : 2 ≤ m) {k : K} {v : V}
    {t : BPlus K V (n + 1)} {l r : BPlus K V n} {s : K} (ho : Ordered (n + 1) t)
    (hf : Filled m lo (n + 1) t)
    (h : InsertSpec m ((m + 1) / 2) k v n (descend k (Branch.first t) (Branch.rest t))
      (.split l s r next)) :
    InsertSpec m lo k v (n + 1) t
      (Branch.put m (Branch.label t) next
        (replace k (l, [(s, r)]) (Branch.first t) (Branch.rest t))) := by
  obtain ⟨hk, he, ⟨hol, hor⟩, ⟨hlt, hge⟩, hfl, hfr⟩ := h
  obtain ⟨xs, ys, hfo, hx, hy, hnew⟩ := ho.2.2.focus k
  have hent :
      entries (n + 1) t = xs ++ entries n (descend k (Branch.first t) (Branch.rest t)) ++ ys :=
    hfo
  have hkt : ∀ e ∈ entries (n + 1) t, e.1 ≠ k := by
    intro e hm
    rw [hent, List.mem_append, List.mem_append] at hm
    rcases hm with (hm | hm) | hm
    · exact (hx e hm).ne
    · exact hk e hm
    · exact (hy e hm).ne'
  have hone : ∀ {P : BPlus K V n → Prop}, P r → ∀ e ∈ (l, [(s, r)]).2, P e.2 :=
    fun h ↦ List.forall_mem_singleton.mpr h
  have hord := forall_replace k hol (hone hor) ho.1 ho.2.1
  have hfill := forall_replace k hfl (hone hfr) hf.2.2.1 hf.2.2.2
  have hlen := length_replace k (l, [(s, r)]) (Branch.first t) (Branch.rest t)
  have hforest : forest (entries n) l [(s, r)] = entries n l ++ entries n r := by simp
  have hsep : Separated (entries n) (replace k (l, [(s, r)]) (Branch.first t) (Branch.rest t)).1
      (replace k (l, [(s, r)]) (Branch.first t) (Branch.rest t)).2 := by
    -- both halves hold an entry, so the new separator lies strictly between its neighbours
    obtain ⟨x, hxl⟩ := List.exists_mem_of_ne_nil _ (hfl.entries_ne_nil (by omega) (by omega))
    obtain ⟨y, hyr⟩ := List.exists_mem_of_ne_nil _ (hfr.entries_ne_nil (by omega) (by omega))
    refine ho.2.2.replace ⟨hlt, hge, by simp, trivial⟩ ?_ ?_ ?_
    · intro z hz
      rw [hforest, he] at hz
      rcases mem_insertEntry.mp hz with rfl | hz
      · exact Or.inl rfl
      · exact Or.inr ⟨z, hz, rfl⟩
    · intro d hd
      obtain rfl := List.mem_singleton.mp hd
      exact ⟨x, by rw [hforest]; exact List.mem_append_left _ hxl, hlt x hxl⟩
    · intro d hd
      obtain rfl := List.mem_singleton.mp hd
      exact ⟨y, by rw [hforest]; exact List.mem_append_right _ hyr, hge y hyr⟩
  have hforest' : forest (entries n) (replace k (l, [(s, r)]) (Branch.first t) (Branch.rest t)).1
      (replace k (l, [(s, r)]) (Branch.first t) (Branch.rest t)).2 =
        insertEntry k v (entries (n + 1) t) := by
    rw [hent, insertEntry_append_right hy, insertEntry_append_left hx, ← he, hnew, hforest]
  have hlen' : 1 ≤ (replace k (l, [(s, r)]) (Branch.first t) (Branch.rest t)).2.length ∧
      (replace k (l, [(s, r)]) (Branch.first t) (Branch.rest t)).2.length ≤ m + 1 := by
    have h1 := hf.1
    have h2 := hf.2.1
    rw [hlen, List.length_singleton]
    omega
  have hp := put_spec (Branch.label t) next hm hord hsep hfill hlen'
  rw [hforest'] at hp
  cases hput : Branch.put m (Branch.label t) next
      (replace k (l, [(s, r)]) (Branch.first t) (Branch.rest t)) with
  | duplicate =>
    rw [hput] at hp
    exact hp.elim
  | done t' _ =>
    rw [hput] at hp
    exact ⟨hkt, hp⟩
  | split l' s' r' _ =>
    rw [hput] at hp
    exact ⟨hkt, hp⟩

/-- Insertion adds exactly its entry to an ordered, filled tree without the key, keeps it
ordered and filled, and refuses a key that is there. -/
theorem insert_spec {m lo n : Nat} (hm : 2 ≤ m) (k : K) (v : V) (fresh : Nat)
    {t : BPlus K V n} (ho : Ordered n t) (hf : Filled m lo n t) :
    InsertSpec m lo k v n t (insert m k v n fresh t) := by
  induction n generalizing lo fresh with
  | zero => exact insertSpec_leaf hm k v fresh t ho hf
  | succ n ih =>
    have hc := ih fresh (ho.child _ (descend_mem k _ _)) (hf.child _ (descend_mem k _ _))
    rw [insert]
    cases hi : insert m k v n fresh (descend k (Branch.first t) (Branch.rest t)) with
    | duplicate =>
      rw [hi] at hc
      obtain ⟨w, hw⟩ := hc
      obtain ⟨xs, ys, he, -⟩ := ho.2.2.focus k
      refine ⟨w, ?_⟩
      change (k, w) ∈ forest _ _ _
      rw [he]
      simp [hw]
    | done c next =>
      rw [hi] at hc
      exact insertSpec_done ho hf hc
    | split l s r next =>
      rw [hi] at hc
      exact insertSpec_split hm ho hf hc

/-! ### Labels -/

/-- What an insertion does to node identities: the nodes that were there stay, the new ones
take the fresh labels in turn, and a split leaves the root and the leftmost leaf in place. -/
def LabelSpec (n fresh : Nat) (t : BPlus K V n) : Inserted K (BPlus K V n) → Prop
  | .duplicate => True
  | .done t' next =>
    fresh ≤ next ∧ (labels n t').Perm (labels n t ++ List.range' fresh (next - fresh)) ∧
      label n t' = label n t ∧ firstLeaf n t' = firstLeaf n t
  | .split l _ r next =>
    fresh ≤ next ∧
      (labels n l ++ labels n r).Perm (labels n t ++ List.range' fresh (next - fresh)) ∧
      label n l = label n t ∧ firstLeaf n l = firstLeaf n t

omit [LinearOrder K] in
private theorem range'_next {fresh next : Nat} (h : fresh ≤ next) :
    List.range' fresh (next + 1 - fresh) = List.range' fresh (next - fresh) ++ [next] := by
  rw [show next + 1 - fresh = next - fresh + 1 by omega, List.range'_1_concat]
  congr 2
  omega

/-- The leftmost leaf survives a replacement that keeps the leftmost leaf of the child. -/
theorem firstLeaf_replace {n : Nat} {k : K} {first : BPlus K V n}
    {rest : List (K × BPlus K V n)} {new : BPlus K V n × List (K × BPlus K V n)}
    (h : firstLeaf n new.1 = firstLeaf n (descend k first rest)) :
    firstLeaf n (replace k new first rest).1 = firstLeaf n first := by
  cases rest with
  | nil => exact h
  | cons e rest =>
    rw [descend] at h
    rw [replace]
    split
    · next hk => simpa [hk] using h
    · rfl

omit [LinearOrder K] in
private theorem labelSpec_put {m n fresh next : Nat} {t : BPlus K V (n + 1)}
    {children : BPlus K V n × List (K × BPlus K V n)} (hle : fresh ≤ next)
    (hp : (forest (labels n) children.1 children.2).Perm
      (forest (labels n) (Branch.first t) (Branch.rest t) ++ List.range' fresh (next - fresh)))
    (hf : firstLeaf n children.1 = firstLeaf n (Branch.first t)) :
    LabelSpec (n + 1) fresh t (Branch.put m (Branch.label t) next children) := by
  obtain ⟨first, rest⟩ := children
  rw [Branch.put]
  by_cases h : rest.length ≤ m
  · simp only [h, dite_true]
    exact ⟨hle, hp.cons _, rfl, hf⟩
  · simp only [h, dite_false]
    have hi : rest.length / 2 < rest.length := by omega
    have hrest : rest = rest.take (rest.length / 2) ++
        rest[rest.length / 2] :: rest.drop (rest.length / 2 + 1) := by
      rw [← List.drop_eq_getElem_cons hi, List.take_append_drop]
    refine ⟨by omega, ?_, rfl, hf⟩
    rw [range'_next hle]
    change (Branch.label t :: forest (labels n) first _ ++
      (next :: forest (labels n) rest[rest.length / 2].2 _)).Perm
        ((Branch.label t :: forest (labels n) (Branch.first t) (Branch.rest t)) ++ _)
    rw [hrest, forest_append_cons] at hp
    apply List.perm_iff_count.mpr
    intro a
    have ha := hp.count_eq a
    simp only [List.count_append, List.count_cons, List.count_nil, List.cons_append] at ha ⊢
    omega

private theorem labelSpec_leaf (m : Nat) (k : K) (v : V) (fresh : Nat) (t : Leaf K V) :
    LabelSpec 0 fresh t (Leaf.insert m k v fresh t) := by
  rw [Leaf.insert]
  split
  · trivial
  · split
    · refine ⟨Nat.le_refl _, ?_, rfl, rfl⟩
      rw [Nat.sub_self, List.range'_zero, List.append_nil]
      exact List.Perm.refl _
    · refine ⟨Nat.le_succ _, ?_, rfl, rfl⟩
      rw [Nat.add_sub_cancel_left, List.range'_one]
      exact List.Perm.refl _

/-- Insertion keeps node identities and gives the fresh labels to new right siblings. -/
theorem insert_labels (m : Nat) (k : K) (v : V) (n fresh : Nat) (t : BPlus K V n) :
    LabelSpec n fresh t (insert m k v n fresh t) := by
  induction n generalizing fresh with
  | zero => exact labelSpec_leaf m k v fresh t
  | succ n ih =>
    have hc := ih fresh (descend k (Branch.first t) (Branch.rest t))
    obtain ⟨xs, ys, hf, hnew⟩ :=
      forest_replace (labels n) k (Branch.first t) (Branch.rest t)
    rw [insert]
    cases hi : insert m k v n fresh (descend k (Branch.first t) (Branch.rest t)) with
    | duplicate => trivial
    | done c next =>
      rw [hi] at hc
      obtain ⟨hle, hp, -, hl⟩ := hc
      refine ⟨hle, ?_, rfl, firstLeaf_replace hl⟩
      change (_ :: forest _ _ _).Perm ((_ :: forest _ _ _) ++ _)
      rw [hf, hnew, forest_nil]
      apply List.perm_iff_count.mpr
      intro a
      have ha := hp.count_eq a
      simp only [List.count_append, List.count_cons, List.cons_append] at ha ⊢
      omega
    | split l s r next =>
      rw [hi] at hc
      obtain ⟨hle, hp, -, hl⟩ := hc
      refine labelSpec_put hle ?_ (firstLeaf_replace hl)
      rw [hf, hnew, forest_cons, forest_nil]
      apply List.perm_iff_count.mpr
      intro a
      have ha := hp.count_eq a
      simp only [List.count_append] at ha ⊢
      omega

end BPlus
end Support
