import Mathlib.Algebra.Group.Nat.Defs
import Mathlib.Order.Basic
import Mathlib.Data.List.Sort

/-!
# Key-sorted entry lists

Library `Support`. A finite map as a list of entries with strictly increasing keys:
lookup, insertion of an absent key and the entries on one side of a bound.
-/

namespace Support

variable {K V : Type*} [LinearOrder K]

/-- Strictly increasing keys. -/
def SortedKeys (entries : List (K × V)) : Prop := entries.Pairwise (fun a b ↦ a.1 < b.1)

/-- The value of a key, looked for at the first entry whose key is not smaller. -/
def findEntry (k : K) : List (K × V) → Option V
  | [] => none
  | e :: rest => if e.1 < k then findEntry k rest else if e.1 = k then some e.2 else none

/-- Insert before the first entry whose key is not smaller. -/
def insertEntry (k : K) (v : V) : List (K × V) → List (K × V)
  | [] => [(k, v)]
  | e :: rest => if e.1 < k then e :: insertEntry k v rest else (k, v) :: e :: rest

/-- Sortedness of a longer list. -/
theorem sortedKeys_cons {e : K × V} {es : List (K × V)} :
    SortedKeys (e :: es) ↔ (∀ x ∈ es, e.1 < x.1) ∧ SortedKeys es := List.pairwise_cons

/-- Sortedness of a concatenation. -/
theorem sortedKeys_append {xs ys : List (K × V)} :
    SortedKeys (xs ++ ys) ↔
      SortedKeys xs ∧ SortedKeys ys ∧ ∀ x ∈ xs, ∀ y ∈ ys, x.1 < y.1 := List.pairwise_append

/-- In a sorted list, lookup finds exactly the entries. -/
theorem findEntry_eq_some_iff {k : K} {v : V} {es : List (K × V)} (h : SortedKeys es) :
    findEntry k es = some v ↔ (k, v) ∈ es := by
  induction es with
  | nil => simp [findEntry]
  | cons e es ih =>
    obtain ⟨hlt, hs⟩ := sortedKeys_cons.mp h
    rw [findEntry, List.mem_cons]
    split
    · next hk =>
      rw [ih hs]
      refine ⟨Or.inr, ?_⟩
      rintro (rfl | hm)
      · exact absurd hk (lt_irrefl _)
      · exact hm
    · next hk =>
      split
      · next he =>
        subst he
        rw [Option.some.injEq]
        constructor
        · rintro rfl
          exact Or.inl rfl
        · rintro (he | hm)
          · rw [← he]
          · exact absurd (hlt _ hm) (lt_irrefl _)
      · next he =>
        constructor
        · intro hc
          cases hc
        · rintro (rfl | hm)
          · exact absurd rfl he
          · exact absurd (hlt _ hm) hk

/-- In a sorted list, a failed lookup means an absent key. -/
theorem findEntry_eq_none_iff {k : K} {es : List (K × V)} (h : SortedKeys es) :
    findEntry k es = none ↔ ∀ e ∈ es, e.1 ≠ k := by
  rw [Option.eq_none_iff_forall_ne_some]
  constructor
  · rintro hn ⟨k', v⟩ he rfl
    exact hn v ((findEntry_eq_some_iff h).mpr he)
  · intro hn v hv
    exact hn _ ((findEntry_eq_some_iff h).mp hv) rfl

/-- Lookup passes over a prefix of smaller keys. -/
theorem findEntry_append_left {k : K} {xs ys : List (K × V)} (h : ∀ x ∈ xs, x.1 < k) :
    findEntry k (xs ++ ys) = findEntry k ys := by
  induction xs with
  | nil => rfl
  | cons x xs ih =>
    rw [List.cons_append, findEntry, if_pos (h x (by simp))]
    exact ih fun y hy ↦ h y (List.mem_cons_of_mem _ hy)

/-- Lookup does not reach a suffix of larger keys. -/
theorem findEntry_append_right {k : K} {xs ys : List (K × V)} (h : ∀ y ∈ ys, k < y.1) :
    findEntry k (xs ++ ys) = findEntry k xs := by
  induction xs with
  | nil =>
    cases ys with
    | nil => rfl
    | cons y ys =>
      have hy := h y (by simp)
      simp only [List.nil_append, findEntry, if_neg (lt_asymm hy), if_neg hy.ne']
  | cons x xs ih => simp only [List.cons_append, findEntry, ih]

/-- Insertion adds exactly its entry. -/
theorem mem_insertEntry {k : K} {v : V} {es : List (K × V)} {e : K × V} :
    e ∈ insertEntry k v es ↔ e = (k, v) ∨ e ∈ es := by
  induction es with
  | nil => simp [insertEntry]
  | cons x es ih =>
    rw [insertEntry]
    split
    · rw [List.mem_cons, ih, List.mem_cons, or_left_comm]
    · rw [List.mem_cons]

/-- Insertion makes the list one longer. -/
@[simp] theorem length_insertEntry (k : K) (v : V) (es : List (K × V)) :
    (insertEntry k v es).length = es.length + 1 := by
  induction es with
  | nil => rfl
  | cons x es ih =>
    rw [insertEntry]
    split
    · rw [List.length_cons, ih, List.length_cons]
    · rfl

/-- Inserting an absent key keeps the list sorted. -/
theorem sortedKeys_insertEntry {k : K} {v : V} {es : List (K × V)} (h : SortedKeys es)
    (hk : ∀ e ∈ es, e.1 ≠ k) : SortedKeys (insertEntry k v es) := by
  induction es with
  | nil => exact List.pairwise_singleton _ _
  | cons x es ih =>
    obtain ⟨hlt, hs⟩ := sortedKeys_cons.mp h
    rw [insertEntry]
    split
    · next hx =>
      refine sortedKeys_cons.mpr ⟨?_, ih hs fun e he ↦ hk e (List.mem_cons_of_mem _ he)⟩
      intro y hy
      rcases mem_insertEntry.mp hy with rfl | hy
      · exact hx
      · exact hlt y hy
    · next hx =>
      have hkx : k < x.1 := lt_of_le_of_ne (le_of_not_gt hx) (Ne.symm (hk x (by simp)))
      refine sortedKeys_cons.mpr ⟨?_, h⟩
      intro y hy
      rcases List.mem_cons.mp hy with rfl | hy
      · exact hkx
      · exact hkx.trans (hlt y hy)

/-- Insertion passes over a prefix of smaller keys. -/
theorem insertEntry_append_left {k : K} {v : V} {xs ys : List (K × V)}
    (h : ∀ x ∈ xs, x.1 < k) : insertEntry k v (xs ++ ys) = xs ++ insertEntry k v ys := by
  induction xs with
  | nil => rfl
  | cons x xs ih =>
    rw [List.cons_append, insertEntry, if_pos (h x (by simp)),
      ih fun y hy ↦ h y (List.mem_cons_of_mem _ hy), List.cons_append]

/-- Insertion does not reach a suffix of larger keys. -/
theorem insertEntry_append_right {k : K} {v : V} {xs ys : List (K × V)}
    (h : ∀ y ∈ ys, k < y.1) : insertEntry k v (xs ++ ys) = insertEntry k v xs ++ ys := by
  induction xs with
  | nil =>
    cases ys with
    | nil => rfl
    | cons y ys =>
      have hy := h y (by simp)
      simp only [List.nil_append, insertEntry, if_neg (lt_asymm hy), List.cons_append]
  | cons x xs ih =>
    rw [List.cons_append, insertEntry, insertEntry, ih]
    split <;> rfl

/-- Lookup after an insertion. -/
theorem findEntry_insertEntry {k : K} {v : V} {es : List (K × V)} (h : SortedKeys es)
    (hk : ∀ e ∈ es, e.1 ≠ k) (k' : K) :
    findEntry k' (insertEntry k v es) = if k = k' then some v else findEntry k' es := by
  have hs := sortedKeys_insertEntry (v := v) h hk
  apply Option.ext
  intro w
  rw [findEntry_eq_some_iff hs, mem_insertEntry]
  split
  · next he =>
    subst he
    rw [Option.some.injEq]
    constructor
    · rintro (he | hm)
      · exact (Prod.ext_iff.mp he).2.symm
      · exact absurd rfl (hk _ hm)
    · rintro rfl
      exact Or.inl rfl
  · next hne =>
    rw [findEntry_eq_some_iff h]
    refine ⟨fun hm ↦ ?_, Or.inr⟩
    rcases hm with he | hm
    · exact absurd (Prod.ext_iff.mp he).1.symm hne
    · exact hm

/-- Insertion that keeps the entry of a key that is there. -/
def insertNew (k : K) (v : V) (es : List (K × V)) : List (K × V) :=
  if (findEntry k es).isNone then insertEntry k v es else es

/-- Insertion that keeps old entries only adds an entry for an absent key. -/
theorem findEntry_insertNew {es : List (K × V)} (h : SortedKeys es) (k : K) (v : V) (k' : K) :
    findEntry k' (insertNew k v es) =
      (findEntry k' es).or (if k = k' then some v else none) := by
  unfold insertNew
  cases hk : findEntry k es with
  | none =>
    rw [Option.isNone_none, if_pos rfl,
      findEntry_insertEntry h ((findEntry_eq_none_iff h).mp hk)]
    split
    · next he => rw [← he, hk, Option.none_or]
    · rw [Option.or_none]
  | some w =>
    rw [Option.isNone_some, if_neg Bool.false_ne_true]
    split
    · next he => rw [← he, hk, Option.some_or]
    · rw [Option.or_none]

/-- The entries with a key are what lookup finds. -/
theorem filter_eq_findEntry {es : List (K × V)} (h : SortedKeys es) (k : K) :
    es.filter (·.1 = k) = (findEntry k es).toList.map fun v ↦ (k, v) := by
  induction es with
  | nil => rfl
  | cons e es ih =>
    obtain ⟨hlt, hs⟩ := sortedKeys_cons.mp h
    by_cases hk : e.1 < k
    · rw [findEntry, if_pos hk, List.filter_cons_of_neg (by simpa using ne_of_lt hk), ih hs]
    · have hrest : e.1 = k → es.filter (·.1 = k) = [] := by
        intro he
        rw [List.filter_eq_nil_iff]
        intro x hx
        simpa using (ne_of_lt (he ▸ hlt x hx)).symm
      rw [findEntry, if_neg hk]
      by_cases he : e.1 = k
      · rw [if_pos he, List.filter_cons_of_pos (by simpa using he), hrest he, ← he]
        rfl
      · have hnone : findEntry k es = none := by
          rw [findEntry_eq_none_iff hs]
          intro x hx hxk
          exact hk (hxk ▸ hlt x hx)
        rw [if_neg he, List.filter_cons_of_neg (by simpa using he), ih hs, hnone]

/-- The entries below, at and above a key are all entries. -/
theorem filter_lt_append_filter_gt {es : List (K × V)} (h : SortedKeys es) (k : K) :
    es.filter (·.1 < k) ++ ((findEntry k es).toList.map fun v ↦ (k, v)) ++
      es.filter (k < ·.1) = es := by
  rw [← filter_eq_findEntry h]
  induction es with
  | nil => rfl
  | cons e es ih =>
    obtain ⟨hlt, hs⟩ := sortedKeys_cons.mp h
    have hi := ih hs
    rcases lt_or_ge e.1 k with hk | hk
    · simp only [hk, hk.ne, hk.not_gt, decide_true, decide_false, List.filter_cons_of_pos,
        List.filter_cons_of_neg, Bool.false_eq_true, not_false_eq_true, List.cons_append]
      rw [hi]
    · -- all later keys are above the bound
      have hbelow : es.filter (·.1 < k) = [] :=
        List.filter_eq_nil_iff.mpr fun x hx ↦ by simpa using (hk.trans_lt (hlt x hx)).le
      have hat : es.filter (·.1 = k) = [] :=
        List.filter_eq_nil_iff.mpr fun x hx ↦ by simpa using (hk.trans_lt (hlt x hx)).ne'
      rw [hbelow, hat, List.append_nil, List.nil_append] at hi
      rcases hk.lt_or_eq with hgt | rfl
      · simp [hgt, hgt.not_gt, hgt.ne', hbelow, hat, hi]
      · simp [hbelow, hat, hi]

/-- Insertion adds its entry and keeps the others. -/
theorem insertEntry_perm (k : K) (v : V) (es : List (K × V)) :
    (insertEntry k v es).Perm ((k, v) :: es) := by
  induction es with
  | nil => exact List.Perm.refl _
  | cons x es ih =>
    rw [insertEntry]
    split
    · exact (ih.cons x).trans (List.Perm.swap (k, v) x es)
    · exact List.Perm.refl _

/-- An absent key gets its entry. -/
theorem insertNew_of_none {k : K} {es : List (K × V)} (h : findEntry k es = none) (v : V) :
    insertNew k v es = insertEntry k v es := by
  rw [insertNew, h, Option.isNone_none, if_pos rfl]

/-- Sorted lists are determined by lookup. -/
theorem SortedKeys.ext {es es' : List (K × V)} (h : SortedKeys es) (h' : SortedKeys es')
    (hf : ∀ k, findEntry k es = findEntry k es') : es = es' := by
  have : Std.Irrefl (fun a b : K × V ↦ a.1 < b.1) := ⟨fun a ↦ lt_irrefl a.1⟩
  have : Std.Antisymm (fun a b : K × V ↦ a.1 < b.1) :=
    ⟨fun _ _ hab hba ↦ absurd hab (lt_asymm hba)⟩
  apply List.Pairwise.eq_of_mem_iff h h'
  intro e
  rw [← findEntry_eq_some_iff h, ← findEntry_eq_some_iff h', hf]

end Support
