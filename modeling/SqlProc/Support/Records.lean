import Mathlib.Data.List.TakeWhile

/-!
# Records of a separated sequence and where they start

Library `Support`. A sequence cut at every separator, each piece with the position
of its first element. A separator ends the record before it, so a final one opens
no further record; a last record may be left unterminated.
-/

namespace Support

variable {α : Type*} [DecidableEq α]

/-- The records of `xs`, whose first element has position `start`. -/
def records (sep : α) : Nat → List α → List (Nat × List α)
  | _, [] => []
  | start, x :: xs =>
    if x = sep then (start, []) :: records sep (start + 1) xs
    else
      match records sep (start + 1) xs with
      | [] => [(start, [x])]
      | (_, record) :: rest => (start, x :: record) :: rest

/-- `xs` is empty or its last element is the separator: the next element opens a record. -/
def Terminated (sep : α) (xs : List α) : Prop := xs = [] ∨ ∃ ys, xs = ys ++ [sep]

variable (sep : α)

/-- The empty sequence has no record. -/
@[simp] theorem records_nil (start : Nat) : records sep start [] = [] := rfl

/-- A separator alone is one empty record. -/
theorem records_cons_sep (start : Nat) (xs : List α) :
    records sep start (sep :: xs) = (start, []) :: records sep (start + 1) xs := by
  rw [records, if_pos rfl]

/-- A nonempty sequence has a first record, and it starts where the sequence does. -/
theorem records_cons (start : Nat) (x : α) (xs : List α) :
    ∃ record rest, records sep start (x :: xs) = (start, record) :: rest := by
  rw [records]
  split
  · exact ⟨_, _, rfl⟩
  · split
    · exact ⟨_, _, rfl⟩
    · exact ⟨_, _, rfl⟩

/-- Records are found independently on the two sides of a separator. -/
theorem records_append_sep (start : Nat) (xs ys : List α) :
    records sep start (xs ++ sep :: ys) =
      records sep start (xs ++ [sep]) ++ records sep (start + xs.length + 1) ys := by
  induction xs generalizing start with
  | nil => simp [records_cons_sep]
  | cons x xs ih =>
    have ht := ih (start + 1)
    have hp : start + 1 + xs.length + 1 = start + (x :: xs).length + 1 := by
      rw [List.length_cons]
      omega
    rw [hp] at ht
    rw [List.cons_append, List.cons_append, records, ht, records]
    split
    · simp
    · cases hr : records sep (start + 1) (xs ++ [sep]) with
      | nil =>
        exfalso
        cases xs with
        | nil => simp [records_cons_sep] at hr
        | cons y ys =>
          obtain ⟨_, _, he⟩ := records_cons sep (start + 1) y (ys ++ [sep])
          rw [List.cons_append, he] at hr
          cases hr
      | cons first rest => rfl

/-- A terminated sequence without another separator is one record. -/
theorem records_line (start : Nat) {xs : List α} (h : sep ∉ xs) :
    records sep start (xs ++ [sep]) = [(start, xs)] := by
  induction xs generalizing start with
  | nil => rw [List.nil_append, records_cons_sep, records_nil]
  | cons x xs ih =>
    rw [List.mem_cons, not_or] at h
    rw [List.cons_append, records, if_neg (Ne.symm h.1), ih (start + 1) h.2]

/-- A separator ends the first record. -/
theorem records_line_append (start : Nat) {line : List α} (h : sep ∉ line) (ys : List α) :
    records sep start (line ++ sep :: ys) =
      (start, line) :: records sep (start + line.length + 1) ys := by
  rw [records_append_sep, records_line sep start h]
  rfl

/-- Lines that are ended one after another are the records. -/
theorem map_snd_records_flatMap {ι : Type*} (start : Nat) (line : ι → List α) {is : List ι}
    (h : ∀ i ∈ is, sep ∉ line i) :
    (records sep start (is.flatMap fun i ↦ line i ++ [sep])).map Prod.snd = is.map line := by
  induction is generalizing start with
  | nil => rfl
  | cons i is ih =>
    obtain ⟨hi, his⟩ := List.forall_mem_cons.mp h
    rw [List.flatMap_cons, List.append_assoc, List.singleton_append,
      records_line_append sep start hi, List.map_cons, List.map_cons, ih _ his]

/-- After a terminated prefix the records start anew. -/
theorem records_append_of_terminated (start : Nat) {xs : List α} (h : Terminated sep xs)
    (ys : List α) :
    records sep start (xs ++ ys) =
      records sep start xs ++ records sep (start + xs.length) ys := by
  rcases h with rfl | ⟨zs, rfl⟩
  · simp
  · rw [List.append_assoc, List.singleton_append, records_append_sep, List.length_append,
      List.length_singleton, Nat.add_assoc]

/-- An unterminated sequence without a separator is one record. -/
theorem records_last (start : Nat) {xs : List α} (h : sep ∉ xs) (hne : xs ≠ []) :
    records sep start xs = [(start, xs)] := by
  induction xs generalizing start with
  | nil => exact absurd rfl hne
  | cons x xs ih =>
    rw [List.mem_cons, not_or] at h
    rw [records, if_neg (Ne.symm h.1)]
    cases xs with
    | nil => rfl
    | cons y ys => rw [ih (start + 1) h.2 (List.cons_ne_nil y ys)]

/-- Terminating the last record of a sequence changes no record. -/
theorem records_append_singleton_of_not_terminated (start : Nat) {xs : List α}
    (h : ¬ Terminated sep xs) : records sep start (xs ++ [sep]) = records sep start xs := by
  induction xs generalizing start with
  | nil => exact absurd (Or.inl rfl) h
  | cons x xs ih =>
    have hx : xs = [] → x ≠ sep := by
      rintro rfl rfl
      exact h (Or.inr ⟨[], rfl⟩)
    by_cases hxs : Terminated sep xs
    · rcases hxs with rfl | ⟨ys, rfl⟩
      · simp [records, hx rfl]
      · exact absurd (Or.inr ⟨x :: ys, rfl⟩) h
    · rw [List.cons_append, records, ih (start + 1) hxs, records]

/-- A record holds no separator. -/
theorem sep_notMem_of_mem_records {start : Nat} {xs : List α} {p : Nat × List α}
    (h : p ∈ records sep start xs) : sep ∉ p.2 := by
  induction xs generalizing start p with
  | nil => cases h
  | cons x xs ih =>
    rw [records] at h
    split at h
    · rcases List.mem_cons.mp h with rfl | h
      · exact List.not_mem_nil
      · exact ih h
    · next hx =>
      split at h
      · rw [List.mem_singleton] at h
        subst h
        simpa using Ne.symm hx
      · next q record rest hr =>
        rcases List.mem_cons.mp h with rfl | h
        · rw [List.mem_cons, not_or]
          exact ⟨Ne.symm hx, ih (p := (q, record)) (by rw [hr]; exact List.mem_cons_self)⟩
        · exact ih (p := p) (by rw [hr]; exact List.mem_cons_of_mem _ h)

/-- What a record at position `p` says about the sequence: the record stands there,
followed by a separator or, when it is not empty, by the end. -/
theorem drop_of_mem_records {start : Nat} {xs : List α} {p : Nat × List α}
    (h : p ∈ records sep start xs) :
    start ≤ p.1 ∧ p.1 < start + xs.length ∧
      ∃ tail, xs.drop (p.1 - start) = p.2 ++ tail ∧
        (tail = [] ∧ p.2 ≠ [] ∨ ∃ rest, tail = sep :: rest) := by
  induction xs generalizing start p with
  | nil => cases h
  | cons x xs ih =>
    have later : ∀ q : Nat × List α, q ∈ records sep (start + 1) xs →
        start ≤ q.1 ∧ q.1 < start + (x :: xs).length ∧
          ∃ tail, (x :: xs).drop (q.1 - start) = q.2 ++ tail ∧
            (tail = [] ∧ q.2 ≠ [] ∨ ∃ rest, tail = sep :: rest) := by
      intro q hq
      obtain ⟨hl, hu, hd⟩ := ih hq
      have hs : q.1 - start = (q.1 - (start + 1)) + 1 := by omega
      rw [List.length_cons, hs, List.drop_succ_cons]
      exact ⟨by omega, by omega, hd⟩
    rw [records] at h
    split at h
    · next hx =>
      rcases List.mem_cons.mp h with rfl | h
      · refine ⟨Nat.le_refl _, by simp, x :: xs, by simp, Or.inr ⟨xs, by rw [hx]⟩⟩
      · exact later p h
    · next hx =>
      split at h
      · next hr =>
        rw [List.mem_singleton] at h
        subst h
        have hxs : xs = [] := by
          cases xs with
          | nil => rfl
          | cons y ys =>
            obtain ⟨_, _, he⟩ := records_cons sep (start + 1) y ys
            rw [he] at hr
            cases hr
        subst hxs
        exact ⟨Nat.le_refl _, by simp, [], by simp, Or.inl ⟨rfl, by simp⟩⟩
      · next q record rest hr =>
        rcases List.mem_cons.mp h with rfl | h
        · obtain ⟨y, ys, rfl⟩ : ∃ y ys, xs = y :: ys := by
            cases xs with
            | nil => cases hr
            | cons y ys => exact ⟨y, ys, rfl⟩
          obtain ⟨r', rest', he⟩ := records_cons sep (start + 1) y ys
          rw [he] at hr
          obtain ⟨rfl, rfl⟩ : start + 1 = q ∧ r' = record := by
            simpa using (List.cons.inj hr).1
          obtain ⟨-, -, tail, hd, ht⟩ := ih (p := (start + 1, r')) (by
            rw [he]
            exact List.mem_cons_self)
          refine ⟨Nat.le_refl _, by simp, tail, by simpa using hd, ?_⟩
          rcases ht with ⟨ht, -⟩ | ht
          · exact Or.inl ⟨ht, by simp⟩
          · exact Or.inr ht
        · exact later p (by rw [hr]; exact List.mem_cons_of_mem _ h)

/-- A record is not longer than the sequence. -/
theorem length_le_of_mem_records {start : Nat} {xs : List α} {p : Nat × List α}
    (h : p ∈ records sep start xs) : p.2.length ≤ xs.length := by
  obtain ⟨-, -, tail, hdrop, -⟩ := drop_of_mem_records sep h
  have hlen := congrArg List.length hdrop
  rw [List.length_drop, List.length_append] at hlen
  omega

/-- The first record, what follows it, and the other records. -/
theorem exists_of_records_eq_cons {start : Nat} {xs : List α} {p : Nat × List α}
    {rest : List (Nat × List α)} (h : records sep start xs = p :: rest) :
    p.1 = start ∧ sep ∉ p.2 ∧ ∃ tail, xs = p.2 ++ tail ∧
      (tail = [] ∧ p.2 ≠ [] ∧ rest = [] ∨
        ∃ ys, tail = sep :: ys ∧ rest = records sep (start + p.2.length + 1) ys) := by
  have hline : sep ∉ xs.takeWhile (· ≠ sep) := by
    intro hm
    simpa using List.mem_takeWhile_imp hm
  have hxs := List.takeWhile_append_dropWhile (p := (· ≠ sep)) (l := xs)
  cases hd : xs.dropWhile (· ≠ sep) with
  | nil =>
    rw [hd, List.append_nil] at hxs
    rw [hxs] at hline
    have hne : xs ≠ [] := by
      rintro rfl
      cases h
    rw [records_last sep start hline hne] at h
    obtain ⟨rfl, rfl⟩ := List.cons.inj h
    exact ⟨rfl, hline, [], by simp, Or.inl ⟨rfl, hne, rfl⟩⟩
  | cons x ys =>
    obtain rfl : x = sep := by
      have hne : xs.dropWhile (· ≠ sep) ≠ [] := by
        rw [hd]
        exact List.cons_ne_nil x ys
      have hx := List.head_dropWhile_not (p := (· ≠ sep)) hne
      simpa only [hd, List.head_cons, decide_eq_false_iff_not, ne_eq, not_not] using hx
    rw [hd] at hxs
    rw [← hxs, records_line_append x start hline] at h
    obtain ⟨rfl, rfl⟩ := List.cons.inj h
    exact ⟨rfl, hline, x :: ys, hxs.symm, Or.inr ⟨ys, rfl, rfl⟩⟩

/-- Only the empty sequence has no record. -/
theorem records_eq_nil_iff {start : Nat} {xs : List α} : records sep start xs = [] ↔ xs = [] := by
  constructor
  · intro h
    cases xs with
    | nil => rfl
    | cons x xs =>
      obtain ⟨_, _, he⟩ := records_cons sep start x xs
      rw [he] at h
      cases h
  · rintro rfl
    rfl

/-- There are at most as many records as elements. -/
theorem length_records_le (start : Nat) (xs : List α) :
    (records sep start xs).length ≤ xs.length := by
  induction xs generalizing start with
  | nil => exact Nat.le_refl _
  | cons x xs ih =>
    have hi := ih (start + 1)
    rw [records]
    split
    · simpa using hi
    · split
      · simp
      · next hr =>
        rw [hr] at hi
        simpa using Nat.le_succ_of_le hi

/-- The sequence is cut into these records: each starts where the one before it and its
separator end, and only the last may lack its separator. -/
inductive CutsInto (sep : α) : Nat → List α → List (Nat × List α) → Prop
  | nil (start : Nat) : CutsInto sep start [] []
  | last (start : Nat) {record : List α} (h : sep ∉ record) (hne : record ≠ []) :
      CutsInto sep start record [(start, record)]
  | cons (start : Nat) {record rest : List α} {later : List (Nat × List α)} (h : sep ∉ record)
      (ht : CutsInto sep (start + record.length + 1) rest later) :
      CutsInto sep start (record ++ sep :: rest) ((start, record) :: later)

omit sep in
/-- `records` is the only way to cut the sequence. -/
theorem cutsInto_iff {sep : α} {start : Nat} {xs : List α} {ls : List (Nat × List α)} :
    CutsInto sep start xs ls ↔ ls = records sep start xs := by
  constructor
  · intro h
    induction h with
    | nil => rfl
    | last start h hne => rw [records_last sep start h hne]
    | cons start h ht ih => rw [records_line_append sep start h, ih]
  · rintro rfl
    generalize hl : xs.length = n
    induction n using Nat.strong_induction_on generalizing start xs with
    | _ n ih =>
      cases hr : records sep start xs with
      | nil =>
        obtain rfl := (records_eq_nil_iff sep).mp hr
        exact .nil start
      | cons p rest =>
        obtain ⟨hp, hsep, tail, rfl, htail⟩ := exists_of_records_eq_cons sep hr
        obtain ⟨position, record⟩ := p
        obtain rfl : position = start := hp
        rcases htail with ⟨rfl, hne, rfl⟩ | ⟨ys, rfl, rfl⟩
        · rw [List.append_nil]
          exact .last position hsep hne
        · refine .cons position hsep (ih ys.length ?_ rfl)
          rw [← hl, List.length_append, List.length_cons]
          omega

end Support
