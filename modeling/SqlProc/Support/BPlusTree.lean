import SqlProc.Support.SortedEntries

/-!
# B+ trees of uniform depth with node identities

Library `Support`. A tree is indexed by its depth, so all leaves lie at one depth by
construction. Every node carries a label, its identity across updates. A branch has a
first child and further children, each with the separator before it: keys below the
separator lie to its left, keys from the separator on to its right.
-/

namespace Support

/-- A leaf: its label and its entries. -/
structure Leaf (K V : Type) where
  label : Nat
  entries : List (K × V)

/-- A branch over children of type `T`: its label, its first child and the remaining
children, each with the separator before it. -/
structure Branch (K T : Type) where
  label : Nat
  first : T
  rest : List (K × T)

/-- Trees with `n` levels of branches above the leaves. -/
def BPlus (K V : Type) : Nat → Type
  | 0 => Leaf K V
  | n + 1 => Branch K (BPlus K V n)

/-! ### Children of one branch -/

section Forest

variable {K T β : Type}

/-- A list computed for every child, concatenated from left to right. -/
def forest (f : T → List β) (first : T) (rest : List (K × T)) : List β :=
  f first ++ rest.flatMap fun e ↦ f e.2

/-- One child alone. -/
@[simp] theorem forest_nil (f : T → List β) (first : T) :
    forest f first ([] : List (K × T)) = f first := by
  rw [forest, List.flatMap_nil, List.append_nil]

/-- The first child, then the others. -/
@[simp] theorem forest_cons (f : T → List β) (first : T) (e : K × T) (rest : List (K × T)) :
    forest f first (e :: rest) = f first ++ forest f e.2 rest := by
  rw [forest, List.flatMap_cons, forest]

/-- All children in one list. -/
theorem forest_eq_flatMap (f : T → List β) (first : T) (rest : List (K × T)) :
    forest f first rest = (first :: rest.map Prod.snd).flatMap f := by
  rw [forest, List.flatMap_cons, List.flatMap_map]

/-- Lengths compare child by child. -/
theorem length_forest_le {γ : Type} {f : T → List β} {g : T → List γ}
    (h : ∀ c, (f c).length ≤ (g c).length) (first : T) (rest : List (K × T)) :
    (forest f first rest).length ≤ (forest g first rest).length := by
  induction rest generalizing first with
  | nil => simpa using h first
  | cons e rest ih =>
    simp only [forest_cons, List.length_append]
    exact Nat.add_le_add (h first) (ih e.2)

/-- Two runs of children, joined at a separator. -/
theorem forest_append_cons (f : T → List β) (first : T) (left : List (K × T)) (e : K × T)
    (right : List (K × T)) :
    forest f first (left ++ e :: right) = forest f first left ++ forest f e.2 right := by
  induction left generalizing first with
  | nil => rw [List.nil_append, forest_cons, forest_nil]
  | cons d left ih => rw [List.cons_append, forest_cons, ih, forest_cons, List.append_assoc]

/-- A child contributes to the whole. -/
theorem mem_forest {f : T → List β} {first : T} {rest : List (K × T)} {b : β} :
    b ∈ forest f first rest ↔ b ∈ f first ∨ ∃ e ∈ rest, b ∈ f e.2 := by
  rw [forest, List.mem_append, List.mem_flatMap]

variable [LinearOrder K]

/-- The child responsible for a key: the last one whose separator is not above it. -/
def descend (k : K) : T → List (K × T) → T
  | c, [] => c
  | c, e :: rest => if k < e.1 then c else descend k e.2 rest

/-- Put one or more children in the place of the child responsible for a key. -/
def replace (k : K) (new : T × List (K × T)) : T → List (K × T) → T × List (K × T)
  | _, [] => new
  | c, e :: rest =>
    if k < e.1 then (new.1, new.2 ++ e :: rest)
    else (c, (e.1, (replace k new e.2 rest).1) :: (replace k new e.2 rest).2)

/-- The child responsible for a key is one of the children. -/
theorem descend_mem (k : K) (first : T) (rest : List (K × T)) :
    descend k first rest ∈ first :: rest.map Prod.snd := by
  induction rest generalizing first with
  | nil => exact List.mem_cons_self
  | cons e rest ih =>
    rw [descend]
    split
    · exact List.mem_cons_self
    · exact List.mem_cons_of_mem _ (ih e.2)

/-- Replacement changes a concatenation only where the replaced child stood. -/
theorem forest_replace (f : T → List β) (k : K) (first : T) (rest : List (K × T)) :
    ∃ xs ys, forest f first rest = xs ++ f (descend k first rest) ++ ys ∧
      ∀ new : T × List (K × T),
        forest f (replace k new first rest).1 (replace k new first rest).2 =
          xs ++ forest f new.1 new.2 ++ ys := by
  induction rest generalizing first with
  | nil => exact ⟨[], [], by simp [descend], fun new ↦ by simp [replace]⟩
  | cons e rest ih =>
    by_cases hk : k < e.1
    · refine ⟨[], forest f e.2 rest, ?_, fun new ↦ ?_⟩
      · simp [descend, hk]
      · simp [replace, hk, forest_append_cons]
    · obtain ⟨xs, ys, hd, hr⟩ := ih e.2
      refine ⟨f first ++ xs, ys, ?_, fun new ↦ ?_⟩
      · simp [descend, hk, hd]
      · simp [replace, hk, hr new]

/-- Replacing one child by one child keeps the number of separators; replacing it by two
adds one. -/
theorem length_replace (k : K) (new : T × List (K × T)) (first : T) (rest : List (K × T)) :
    (replace k new first rest).2.length = rest.length + new.2.length := by
  induction rest generalizing first with
  | nil => simp [replace]
  | cons e rest ih =>
    rw [replace]
    split
    · simp
      omega
    · simp [ih e.2]
      omega

/-- A property of all children survives a replacement by children that have it. -/
theorem forall_replace {P : T → Prop} (k : K) {new : T × List (K × T)} {first : T}
    {rest : List (K × T)} (hn : P new.1) (hns : ∀ e ∈ new.2, P e.2) (hf : P first)
    (hr : ∀ e ∈ rest, P e.2) :
    P (replace k new first rest).1 ∧ ∀ e ∈ (replace k new first rest).2, P e.2 := by
  induction rest generalizing first with
  | nil => exact ⟨hn, hns⟩
  | cons e rest ih =>
    rw [replace]
    split
    · refine ⟨hn, fun d hd ↦ ?_⟩
      rcases List.mem_append.mp hd with hd | hd
      · exact hns d hd
      · exact hr d hd
    · obtain ⟨h1, h2⟩ := ih (hr e (by simp)) fun d hd ↦ hr d (List.mem_cons_of_mem _ hd)
      refine ⟨hf, fun d hd ↦ ?_⟩
      rcases List.mem_cons.mp hd with rfl | hd
      · exact h1
      · exact h2 d hd

/-- A property of all separators survives a replacement by separators that have it. -/
theorem separators_replace {P : K → Prop} {k : K} {new : T × List (K × T)} {first : T}
    {rest : List (K × T)} (hr : ∀ e ∈ rest, P e.1) (hn : ∀ e ∈ new.2, P e.1) :
    ∀ e ∈ (replace k new first rest).2, P e.1 := by
  induction rest generalizing first with
  | nil => exact hn
  | cons e rest ih =>
    have ht : ∀ d ∈ rest, P d.1 := fun d hd ↦ hr d (List.mem_cons_of_mem _ hd)
    rw [replace]
    split
    · intro d hd
      rcases List.mem_append.mp hd with hd | hd
      · exact hn d hd
      · exact hr d hd
    · intro d hd
      rcases List.mem_cons.mp hd with rfl | hd
      · exact hr e (by simp)
      · exact ih ht d hd

variable {V : Type}

/-- Separators increase and each bounds the entries of the children on its two sides. -/
def Separated (ents : T → List (K × V)) : T → List (K × T) → Prop
  | _, [] => True
  | c, e :: rest =>
    (∀ x ∈ ents c, x.1 < e.1) ∧ (∀ x ∈ ents e.2, e.1 ≤ x.1) ∧ (∀ d ∈ rest, e.1 < d.1) ∧
      Separated ents e.2 rest

/-- Separators increase. -/
theorem Separated.pairwise {ents : T → List (K × V)} {c : T} {rest : List (K × T)}
    (h : Separated ents c rest) : rest.Pairwise (fun a b ↦ a.1 < b.1) := by
  induction rest generalizing c with
  | nil => exact List.Pairwise.nil
  | cons e rest ih => exact List.Pairwise.cons h.2.2.1 (ih h.2.2.2)

/-- A separator bounds the entries of its two neighbours. -/
theorem Separated.neighbours {ents : T → List (K × V)} {c : T} {rest : List (K × T)}
    (h : Separated ents c rest) {i : Nat} {e : K × T} (he : rest[i]? = some e) :
    ∃ left, (c :: rest.map Prod.snd)[i]? = some left ∧ (∀ x ∈ ents left, x.1 < e.1) ∧
      ∀ x ∈ ents e.2, e.1 ≤ x.1 := by
  induction rest generalizing c i with
  | nil => cases he
  | cons d rest ih =>
    cases i with
    | zero =>
      obtain rfl := Option.some.inj he
      exact ⟨c, rfl, h.1, h.2.1⟩
    | succ i => exact ih h.2.2.2 he

/-- All entries right of a separator are at least as large. -/
theorem Separated.le_of_mem {ents : T → List (K × V)} {s : K} {c : T} {rest : List (K × T)}
    (h : Separated ents c rest) (hc : ∀ x ∈ ents c, s ≤ x.1) (hs : ∀ d ∈ rest, s < d.1) :
    ∀ x ∈ forest ents c rest, s ≤ x.1 := by
  induction rest generalizing c with
  | nil => simpa using hc
  | cons e rest ih =>
    obtain ⟨-, hr, -, ht⟩ := h
    intro x hx
    rw [forest_cons, List.mem_append] at hx
    rcases hx with hx | hx
    · exact hc x hx
    · have he := hs e (by simp)
      exact ih ht (fun y hy ↦ he.le.trans (hr y hy)) (fun d hd ↦ hs d (List.mem_cons_of_mem _ hd))
        x hx

/-- All entries right of the first separator are at least as large. -/
theorem Separated.le_forest {ents : T → List (K × V)} {c : T} {e : K × T} {rest : List (K × T)}
    (h : Separated ents c (e :: rest)) : ∀ x ∈ forest ents e.2 rest, e.1 ≤ x.1 :=
  h.2.2.2.le_of_mem h.2.1 h.2.2.1

/-- The two runs of children around a separator, and the bounds it gives. -/
theorem separated_append_cons {ents : T → List (K × V)} {c : T} {left right : List (K × T)}
    {e : K × T} :
    Separated ents c (left ++ e :: right) ↔
      Separated ents c left ∧ Separated ents e.2 right ∧
        (∀ x ∈ forest ents c left, x.1 < e.1) ∧ (∀ x ∈ ents e.2, e.1 ≤ x.1) ∧
        (∀ d ∈ left, d.1 < e.1) ∧ (∀ d ∈ right, e.1 < d.1) := by
  induction left generalizing c with
  | nil =>
    simp only [List.nil_append, Separated, forest_nil, List.not_mem_nil, false_imp_iff,
      implies_true, true_and]
    tauto
  | cons d left ih =>
    simp only [List.cons_append, Separated, ih, forest_cons, List.mem_append, List.mem_cons]
    constructor
    · rintro ⟨h1, h2, h3, h4, h5, h6, h7, h8, h9⟩
      have hde : d.1 < e.1 := h3 e (Or.inr (Or.inl rfl))
      refine ⟨⟨h1, h2, fun x hx ↦ h3 x (Or.inl hx), h4⟩, h5, ?_, h7, ?_, h9⟩
      · rintro x (hx | hx)
        · exact (h1 x hx).trans hde
        · exact h6 x hx
      · rintro x (rfl | hx)
        · exact hde
        · exact h8 x hx
    · rintro ⟨⟨h1, h2, h3, h4⟩, h5, h6, h7, h8, h9⟩
      have hde : d.1 < e.1 := h8 d (Or.inl rfl)
      refine ⟨h1, h2, ?_, h4, h5, fun x hx ↦ h6 x (Or.inr hx), h7,
        fun x hx ↦ h8 x (Or.inr hx), h9⟩
      rintro x (hx | rfl | hx)
      · exact h3 x hx
      · exact hde
      · exact hde.trans (h9 x hx)

/-- The entries left and right of the child responsible for a key are smaller and larger. -/
theorem Separated.focus {ents : T → List (K × V)} {first : T} {rest : List (K × T)}
    (h : Separated ents first rest) (k : K) :
    ∃ xs ys, forest ents first rest = xs ++ ents (descend k first rest) ++ ys ∧
      (∀ x ∈ xs, x.1 < k) ∧ (∀ y ∈ ys, k < y.1) ∧
      ∀ new : T × List (K × T),
        forest ents (replace k new first rest).1 (replace k new first rest).2 =
          xs ++ forest ents new.1 new.2 ++ ys := by
  induction rest generalizing first with
  | nil => exact ⟨[], [], by simp [descend], by simp, by simp, fun new ↦ by simp [replace]⟩
  | cons e rest ih =>
    by_cases hk : k < e.1
    · refine ⟨[], forest ents e.2 rest, ?_, by simp, fun y hy ↦ hk.trans_le (h.le_forest y hy), ?_⟩
      · simp [descend, hk]
      · intro new
        simp [replace, hk, forest_append_cons]
    · obtain ⟨xs, ys, hd, hx, hy, hn⟩ := ih h.2.2.2
      refine ⟨ents first ++ xs, ys, ?_, ?_, hy, ?_⟩
      · simp [descend, hk, hd]
      · intro x hm
        rcases List.mem_append.mp hm with hm | hm
        · exact (h.1 x hm).trans_le (le_of_not_gt hk)
        · exact hx x hm
      · intro new
        simp [replace, hk, hn new]

/-- Children left of the one responsible for a key hold smaller keys, those right of it
larger ones. -/
theorem Separated.split {ents : T → List (K × V)} {first : T} {rest : List (K × T)}
    (h : Separated ents first rest) (k : K) :
    ∃ ls rs, first :: rest.map Prod.snd = ls ++ descend k first rest :: rs ∧
      (∀ c ∈ ls, ∀ x ∈ ents c, x.1 < k) ∧ ∀ c ∈ rs, ∀ x ∈ ents c, k < x.1 := by
  induction rest generalizing first with
  | nil => exact ⟨[], [], by simp [descend], by simp, by simp⟩
  | cons e rest ih =>
    by_cases hk : k < e.1
    · refine ⟨[], e.2 :: rest.map Prod.snd, by simp [descend, hk], by simp, ?_⟩
      intro c hc x hx
      refine hk.trans_le (h.le_forest x (mem_forest.mpr ?_))
      rcases List.mem_cons.mp hc with rfl | hc
      · exact Or.inl hx
      · obtain ⟨d, hd, rfl⟩ := List.mem_map.mp hc
        exact Or.inr ⟨d, hd, hx⟩
    · obtain ⟨ls, rs, he, hl, hr⟩ := ih h.2.2.2
      refine ⟨first :: ls, rs, by simp [descend, hk, he], fun c hc x hx ↦ ?_, hr⟩
      rcases List.mem_cons.mp hc with rfl | hc
      · exact (h.1 x hx).trans_le (le_of_not_gt hk)
      · exact hl c hc x hx

/-- The child that holds an entry is responsible for its key. -/
theorem Separated.descend_eq {ents : T → List (K × V)} {first : T} {rest : List (K × T)}
    (h : Separated ents first rest) (k : K) {x : K × V}
    (hx : x ∈ ents (descend k first rest)) :
    descend x.1 first rest = descend k first rest := by
  induction rest generalizing first with
  | nil => rfl
  | cons e rest ih =>
    rw [descend] at hx ⊢
    by_cases hk : k < e.1
    · rw [if_pos hk] at hx
      rw [if_pos (h.1 x hx), descend, if_pos hk]
    · rw [if_neg hk] at hx
      have hle : e.1 ≤ x.1 := by
        refine h.le_forest x (mem_forest.mpr ?_)
        rcases List.mem_cons.mp (descend_mem k e.2 rest) with he | hm
        · rw [he] at hx
          exact Or.inl hx
        · obtain ⟨d, hd, he⟩ := List.mem_map.mp hm
          rw [← he] at hx
          exact Or.inr ⟨d, hd, hx⟩
      rw [if_neg (not_lt.mpr hle), descend, if_neg hk]
      exact ih h.2.2.2 hx

/-- Sorted children between separators make a sorted whole. -/
theorem Separated.sortedKeys {ents : T → List (K × V)} {first : T} {rest : List (K × T)}
    (h : Separated ents first rest) (hf : SortedKeys (ents first))
    (hr : ∀ e ∈ rest, SortedKeys (ents e.2)) : SortedKeys (forest ents first rest) := by
  induction rest generalizing first with
  | nil => simpa using hf
  | cons e rest ih =>
    rw [forest_cons]
    refine sortedKeys_append.mpr
      ⟨hf, ?_, fun x hx y hy ↦ (h.1 x hx).trans_le (h.le_forest y hy)⟩
    exact ih h.2.2.2 (hr e (by simp)) fun d hd ↦ hr d (List.mem_cons_of_mem _ hd)

/-- Children put in the place of the one responsible for `k` stay between its separators
when they hold no key but `k` and its own, and their separators are bounded by entries. -/
theorem Separated.replace {ents : T → List (K × V)} {k : K} {new : T × List (K × T)}
    {first : T} {rest : List (K × T)} (h : Separated ents first rest)
    (hnew : Separated ents new.1 new.2)
    (hkeys : ∀ x ∈ forest ents new.1 new.2,
      x.1 = k ∨ ∃ y ∈ ents (descend k first rest), y.1 = x.1)
    (hlow : ∀ d ∈ new.2, ∃ x ∈ forest ents new.1 new.2, x.1 < d.1)
    (hhigh : ∀ d ∈ new.2, ∃ x ∈ forest ents new.1 new.2, d.1 ≤ x.1) :
    Separated ents (Support.replace k new first rest).1 (Support.replace k new first rest).2 := by
  induction rest generalizing first with
  | nil => exact hnew
  | cons e rest ih =>
    obtain ⟨h1, h2, h3, h4⟩ := h
    by_cases hk : k < e.1
    · simp only [descend, hk, if_true] at hkeys
      simp only [Support.replace, hk, if_true]
      have hlt : ∀ x ∈ forest ents new.1 new.2, x.1 < e.1 := by
        intro x hx
        rcases hkeys x hx with he | ⟨y, hy, he⟩
        · exact he ▸ hk
        · exact he ▸ h1 y hy
      refine separated_append_cons.mpr ⟨hnew, h4, hlt, h2, ?_, h3⟩
      intro d hd
      obtain ⟨x, hx, hle⟩ := hhigh d hd
      exact hle.trans_lt (hlt x hx)
    · simp only [descend, hk, if_false] at hkeys
      simp only [Support.replace, hk, if_false]
      have hge : ∀ x ∈ forest ents new.1 new.2, e.1 ≤ x.1 := by
        intro x hx
        rcases hkeys x hx with he | ⟨y, hy, he⟩
        · exact he ▸ le_of_not_gt hk
        · obtain ⟨xs, ys, hf, -⟩ := h4.focus k
          have hm : y ∈ forest ents e.2 rest := by
            rw [hf]
            simp [hy]
          exact he ▸ h4.le_of_mem h2 h3 y hm
      have hsep : ∀ d ∈ new.2, e.1 < d.1 := by
        intro d hd
        obtain ⟨x, hx, hlt⟩ := hlow d hd
        exact (hge x hx).trans_lt hlt
      have hchild : ∀ x ∈ ents (Support.replace k new e.2 rest).1, e.1 ≤ x.1 := by
        cases rest with
        | nil =>
          intro x hx
          exact hge x (mem_forest.mpr (Or.inl hx))
        | cons d rest =>
          simp only [Support.replace]
          split
          · intro x hx
            exact hge x (mem_forest.mpr (Or.inl hx))
          · exact h2
      have hseps : ∀ d ∈ (Support.replace k new e.2 rest).2, e.1 < d.1 :=
        separators_replace h3 hsep
      exact ⟨h1, hchild, hseps, ih h4 hkeys⟩

end Forest

/-! ### Whole trees -/

namespace BPlus

variable {K V : Type}

/-- The label of the root node. -/
def label : (n : Nat) → BPlus K V n → Nat
  | 0, t => Leaf.label t
  | _ + 1, t => Branch.label t

/-- The entries from left to right. -/
def entries : (n : Nat) → BPlus K V n → List (K × V)
  | 0, t => Leaf.entries t
  | n + 1, t => forest (entries n) (Branch.first t) (Branch.rest t)

/-- The leaves from left to right. -/
def leaves : (n : Nat) → BPlus K V n → List (Leaf K V)
  | 0, t => [t]
  | n + 1, t => forest (leaves n) (Branch.first t) (Branch.rest t)

/-- The labels of all nodes. -/
def labels : (n : Nat) → BPlus K V n → List Nat
  | 0, t => [Leaf.label t]
  | n + 1, t => Branch.label t :: forest (labels n) (Branch.first t) (Branch.rest t)

/-- The label of the leftmost leaf. -/
def firstLeaf : (n : Nat) → BPlus K V n → Nat
  | 0, t => Leaf.label t
  | n + 1, t => firstLeaf n (Branch.first t)

/-- The root is a node of the tree. -/
theorem label_mem_labels (n : Nat) (t : BPlus K V n) : label n t ∈ labels n t := by
  cases n with
  | zero => exact List.mem_singleton.mpr rfl
  | succ n => exact List.mem_cons_self

/-- A tree has more nodes than levels of branches. -/
theorem lt_length_labels (n : Nat) (t : BPlus K V n) : n < (labels n t).length := by
  induction n with
  | zero => exact Nat.one_pos
  | succ n ih =>
    have hf := ih (Branch.first t)
    change n + 1 < (_ :: forest (labels n) (Branch.first t) (Branch.rest t)).length
    rw [forest, List.length_cons, List.length_append]
    omega

/-- The entries of a tree are those of its leaves. -/
theorem entries_eq_flatMap_leaves (n : Nat) (t : BPlus K V n) :
    entries n t = (leaves n t).flatMap Leaf.entries := by
  induction n with
  | zero => exact (List.append_nil _).symm
  | succ n ih =>
    change forest _ _ _ = List.flatMap _ (forest _ _ _)
    simp only [forest, ih, List.flatMap_append, List.flatMap_assoc]

/-- A tree has at least as many nodes as leaves. -/
theorem length_leaves_le (n : Nat) (t : BPlus K V n) :
    (leaves n t).length ≤ (labels n t).length := by
  induction n with
  | zero => exact Nat.le_refl _
  | succ n ih =>
    change (forest _ _ _).length ≤ (_ :: forest _ _ _).length
    rw [List.length_cons]
    exact Nat.le_succ_of_le (length_forest_le ih _ _)

/-- Node sizes for at most `m` keys a node: leaves hold at least `lo` entries at the root
and at least half of `m + 1` elsewhere, and branches have at least one separator. -/
def Filled (m : Nat) : (lo n : Nat) → BPlus K V n → Prop
  | lo, 0, t => lo ≤ (Leaf.entries t).length ∧ (Leaf.entries t).length ≤ m
  | _, n + 1, t =>
    1 ≤ (Branch.rest t).length ∧ (Branch.rest t).length ≤ m ∧
      Filled m ((m + 1) / 2) n (Branch.first t) ∧
      ∀ e ∈ Branch.rest t, Filled m ((m + 1) / 2) n e.2

/-- Every child of a filled branch is filled. -/
theorem Filled.child {m lo n : Nat} {t : BPlus K V (n + 1)} (h : Filled m lo (n + 1) t) :
    ∀ c ∈ Branch.first t :: (Branch.rest t).map Prod.snd, Filled m ((m + 1) / 2) n c :=
  List.forall_mem_cons.mpr ⟨h.2.2.1, List.forall_mem_map.mpr h.2.2.2⟩

/-- A tree that is not an empty root leaf holds an entry. -/
theorem Filled.entries_ne_nil {m lo n : Nat} {t : BPlus K V n} (hm : 1 ≤ m) (hlo : 1 ≤ lo)
    (h : Filled m lo n t) : entries n t ≠ [] := by
  induction n generalizing lo with
  | zero => exact List.ne_nil_of_length_pos (Nat.le_trans hlo h.1)
  | succ n ih =>
    have hf := ih (by omega) h.2.2.1
    change forest _ _ _ ≠ _
    unfold forest
    simp [hf]

/-- A filled tree holds exponentially many entries in its depth. -/
theorem Filled.pow_le_length {m lo n : Nat} {t : BPlus K V n} (hm : 3 ≤ m) (hlo : 2 ≤ lo)
    (h : Filled m lo n t) : 2 ^ (n + 1) ≤ (entries n t).length := by
  induction n generalizing lo with
  | zero => exact Nat.le_trans hlo h.1
  | succ n ih =>
    obtain ⟨h1, -, hf, hr⟩ := h
    obtain ⟨e, rest, he⟩ := List.exists_cons_of_length_pos h1
    have hlf := ih (by omega) hf
    have hle := ih (by omega) (hr e (by simp [he]))
    change _ ≤ (forest _ _ _).length
    rw [he, forest_cons, List.length_append, forest, List.length_append, Nat.pow_succ]
    omega

variable [LinearOrder K]

/-- The search-tree order: leaves are sorted, and the separators of every branch bound
the entries below it. -/
def Ordered : (n : Nat) → BPlus K V n → Prop
  | 0, t => SortedKeys (Leaf.entries t)
  | n + 1, t =>
    Ordered n (Branch.first t) ∧ (∀ e ∈ Branch.rest t, Ordered n e.2) ∧
      Separated (entries n) (Branch.first t) (Branch.rest t)

/-- The leaf responsible for a key. -/
def leafFor (k : K) : (n : Nat) → BPlus K V n → Leaf K V
  | 0, t => t
  | n + 1, t => leafFor k n (descend k (Branch.first t) (Branch.rest t))

/-- The entries of an ordered tree are sorted. -/
theorem sortedKeys_entries {n : Nat} {t : BPlus K V n} (h : Ordered n t) :
    SortedKeys (entries n t) := by
  induction n with
  | zero => exact h
  | succ n ih => exact h.2.2.sortedKeys (ih h.1) fun e he ↦ ih (h.2.1 e he)

/-- Every child of an ordered branch is ordered. -/
theorem Ordered.child {n : Nat} {t : BPlus K V (n + 1)} (h : Ordered (n + 1) t) :
    ∀ c ∈ Branch.first t :: (Branch.rest t).map Prod.snd, Ordered n c :=
  List.forall_mem_cons.mpr ⟨h.1, List.forall_mem_map.mpr h.2.1⟩

/-- The leaf responsible for a key divides the leaves: smaller keys to its left, larger
keys to its right. -/
theorem leaves_eq_append_leafFor {n : Nat} {t : BPlus K V n} (h : Ordered n t) (k : K) :
    ∃ ls rs, leaves n t = ls ++ leafFor k n t :: rs ∧
      (∀ x ∈ ls.flatMap Leaf.entries, x.1 < k) ∧ ∀ x ∈ rs.flatMap Leaf.entries, k < x.1 := by
  induction n with
  | zero => exact ⟨[], [], rfl, by simp, by simp⟩
  | succ n ih =>
    obtain ⟨ls, rs, hl, hlt, hgt⟩ := ih (h.child _ (descend_mem k _ _))
    obtain ⟨cs, ds, hc, hcl, hcr⟩ := h.2.2.split k
    have hleaves : leaves (n + 1) t = cs.flatMap (leaves n) ++
        (leaves n (Support.descend k (Branch.first t) (Branch.rest t)) ++
          ds.flatMap (leaves n)) := by
      change forest _ _ _ = _
      rw [forest_eq_flatMap, hc, List.flatMap_append, List.flatMap_cons]
    refine ⟨cs.flatMap (leaves n) ++ ls, rs ++ ds.flatMap (leaves n), ?_, ?_, ?_⟩
    · rw [hleaves, hl, List.append_assoc, List.append_assoc]
      rfl
    · intro x hx
      rw [List.flatMap_append, List.mem_append, List.flatMap_assoc] at hx
      rcases hx with hx | hx
      · obtain ⟨c, hc, hx⟩ := List.mem_flatMap.mp hx
        rw [← entries_eq_flatMap_leaves] at hx
        exact hcl c hc x hx
      · exact hlt x hx
    · intro x hx
      rw [List.flatMap_append, List.mem_append, List.flatMap_assoc] at hx
      rcases hx with hx | hx
      · exact hgt x hx
      · obtain ⟨c, hc, hx⟩ := List.mem_flatMap.mp hx
        rw [← entries_eq_flatMap_leaves] at hx
        exact hcr c hc x hx

/-- Descending to a leaf looks the key up among all entries. -/
theorem findEntry_leafFor {n : Nat} {t : BPlus K V n} (h : Ordered n t) (k : K) :
    findEntry k (leafFor k n t).entries = findEntry k (entries n t) := by
  obtain ⟨ls, rs, he, hl, hr⟩ := leaves_eq_append_leafFor h k
  rw [entries_eq_flatMap_leaves, he, List.flatMap_append, List.flatMap_cons,
    findEntry_append_left hl, findEntry_append_right hr]

end BPlus
end Support
