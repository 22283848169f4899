import SqlProc.Base.Bytes

/-!
# `strtol` and `snprintf("%d")`

Library `Base`. `strtol` follows the C standard: leading white space, an optional
sign, the longest run of digits; without a digit the value is zero and the end
pointer is the start of the string; a value outside `long` is clamped and sets
`ERANGE`. `int` has 32 bits and `long` has 64.
-/

namespace SqlProc.Base

/-- `INT_MIN`. -/
abbrev intMin : Int := -2147483648

/-- `INT_MAX`. -/
abbrev intMax : Int := 2147483647

/-- `LONG_MIN`. -/
abbrev longMin : Int := -9223372036854775808

/-- `LONG_MAX`. -/
abbrev longMax : Int := 9223372036854775807

/-- The value of a run of decimal digits. -/
def digitsValue (digits : Bytes) : Nat :=
  digits.foldl (fun value c ↦ 10 * value + (c.toNat - 48)) 0

/-- What one call of `strtol` leaves: its value, the text its end pointer points at
and whether `errno` is `ERANGE`. -/
structure StrtolResult where
  value : Int
  endPtr : Bytes
  erange : Bool
  deriving DecidableEq, Repr

/-- `strtol` on the text after the sign: `negative` is the sign that was read and
`start` is the whole string, which the end pointer returns to without a digit. -/
def strtolDigits (negative : Bool) (start digits : Bytes) : StrtolResult :=
  if digits.takeWhile isdigit = [] then ⟨0, start, false⟩
  else
    let magnitude : Int := digitsValue (digits.takeWhile isdigit)
    let value := if negative then -magnitude else magnitude
    let endPtr := digits.dropWhile isdigit
    if value < longMin then ⟨longMin, endPtr, true⟩
    else if longMax < value then ⟨longMax, endPtr, true⟩
    else ⟨value, endPtr, false⟩

/-- `strtol(s, &end_ptr, 10)`. -/
def strtol (s : Bytes) : StrtolResult :=
  match s.dropWhile isspace with
  | [] => ⟨0, s, false⟩
  | c :: rest =>
    if c = minus then strtolDigits true s rest
    else if c = 43 then strtolDigits false s rest
    else strtolDigits false s (c :: rest)

/-- The check that the program makes after every `strtol` call: `ERANGE`, a byte left
at the end pointer and a value outside `int` all reject the text. -/
def strtolInt (s : Bytes) : Option Int :=
  let r := strtol s
  if r.erange || r.endPtr ≠ [] || r.value < intMin || r.value > intMax then none
  else some r.value

/-- The decimal digits of a natural number. -/
def decimal (n : Nat) : Bytes := (Nat.toDigits 10 n).map Char.toUInt8

/-- `snprintf(dest, size, "%d", n)` into a buffer that is large enough. -/
def snprintfInt : Int → Bytes
  | .ofNat n => decimal n
  | .negSucc n => minus :: decimal (n + 1)

/-- A value that passes the check lies in `int`. -/
theorem strtolInt_range {s : Bytes} {v : Int} (h : strtolInt s = some v) :
    intMin ≤ v ∧ v ≤ intMax := by
  simp only [strtolInt] at h
  split at h
  · cases h
  · next hc =>
    simp only [Bool.or_eq_true, decide_eq_true_eq, not_or, Int.not_lt] at hc
    obtain rfl := Option.some.inj h
    exact ⟨hc.1.2, hc.2⟩

private theorem toUInt8_digitChar {d : Nat} (h : d < 10) :
    (Nat.digitChar d).toUInt8 = UInt8.ofNat (48 + d) := by
  revert d
  decide

private theorem decimal_eq (n : Nat) :
    decimal n = (if n < 10 then [] else decimal (n / 10)) ++ [UInt8.ofNat (48 + n % 10)] := by
  rw [decimal, Nat.toDigits_eq_if (by decide)]
  split
  · next h => simp [toUInt8_digitChar h, Nat.mod_eq_of_lt h]
  · simp [decimal, toUInt8_digitChar (Nat.mod_lt n (by decide : 10 > 0))]

private theorem isdigit_ofNat {d : Nat} (h : d < 10) :
    isdigit (UInt8.ofNat (48 + d)) = true ∧ (UInt8.ofNat (48 + d)).toNat - 48 = d := by
  revert d
  decide

/-- Decimal text holds only digits. -/
theorem isdigit_of_mem_decimal {n : Nat} {c : UInt8} (h : c ∈ decimal n) : isdigit c = true := by
  induction n using Nat.strongRecOn with
  | ind n ih =>
    rw [decimal_eq, List.mem_append, List.mem_singleton] at h
    rcases h with h | rfl
    · split at h
      · cases h
      · exact ih (n / 10) (by omega) h
    · exact (isdigit_ofNat (Nat.mod_lt n (by decide))).1

/-- Decimal text has at least one digit. -/
theorem decimal_ne_nil (n : Nat) : decimal n ≠ [] := by
  rw [decimal_eq]
  simp

/-- Decimal text of a number below `10 ^ k` has at most `k` digits. -/
theorem length_decimal_le {n k : Nat} (hk : 0 < k) (h : n < 10 ^ k) : (decimal n).length ≤ k := by
  rw [decimal, List.length_map]
  exact (Nat.length_toDigits_le_iff (by decide) hk).mpr h

/-- Reading decimal text gives the number back. -/
theorem digitsValue_decimal (n : Nat) : digitsValue (decimal n) = n := by
  induction n using Nat.strongRecOn with
  | ind n ih =>
    have hd := (isdigit_ofNat (Nat.mod_lt n (by decide : 10 > 0))).2
    rw [decimal_eq, digitsValue, List.foldl_append]
    simp only [List.foldl_cons, List.foldl_nil, hd]
    split
    · simp only [List.foldl_nil]
      omega
    · have hq := ih (n / 10) (by omega)
      unfold digitsValue at hq
      rw [hq]
      omega

private theorem strtolDigits_decimal (negative : Bool) (start : Bytes) (n : Nat)
    (h : (n : Int) ≤ longMax) :
    strtolDigits negative start (decimal n) = ⟨if negative then -(n : Int) else n, [], false⟩ := by
  have ht : (decimal n).takeWhile isdigit = decimal n :=
    List.takeWhile_eq_self_iff.mpr fun c hc ↦ isdigit_of_mem_decimal hc
  have hd : (decimal n).dropWhile isdigit = [] :=
    List.dropWhile_eq_nil_iff.mpr fun c hc ↦ isdigit_of_mem_decimal hc
  simp only [strtolDigits, ht, hd, decimal_ne_nil, if_false, digitsValue_decimal]
  simp only [longMin, longMax] at h ⊢
  rw [if_neg (by split <;> omega), if_neg (by split <;> omega)]

private theorem dropWhile_isspace_cons {c : UInt8} {rest : Bytes} (h : isspace c = false) :
    (c :: rest).dropWhile isspace = c :: rest := by
  rw [List.dropWhile_cons_of_neg (by simp [h])]

/-- A digit is neither white space nor a sign. -/
theorem isspace_of_isdigit {c : UInt8} (h : isdigit c = true) :
    isspace c = false ∧ c ≠ minus ∧ c ≠ 43 := by
  refine ⟨?_, ?_, ?_⟩
  · simp only [isdigit, Bool.and_eq_true, decide_eq_true_eq, UInt8.le_iff_toNat_le] at h
    simp only [isspace, Bool.or_eq_false_iff, decide_eq_false_iff_not, Bool.and_eq_false_iff,
      UInt8.le_iff_toNat_le]
    refine ⟨?_, ?_⟩
    · rintro rfl
      revert h
      decide
    · right
      have h48 : (48 : UInt8).toNat = 48 := rfl
      have h13 : (13 : UInt8).toNat = 13 := rfl
      omega
  · rintro rfl
    exact absurd h (by decide)
  · rintro rfl
    exact absurd h (by decide)

private theorem strtol_decimal (n : Nat) (h : (n : Int) ≤ longMax) :
    strtol (decimal n) = ⟨n, [], false⟩ := by
  cases hd : decimal n with
  | nil => exact absurd hd (decimal_ne_nil n)
  | cons c rest =>
    have hc : isdigit c = true := isdigit_of_mem_decimal (n := n) (by simp [hd])
    obtain ⟨hs, hm, hp⟩ := isspace_of_isdigit hc
    have hr := strtolDigits_decimal false (c :: rest) n h
    rw [hd] at hr
    rw [strtol, dropWhile_isspace_cons hs]
    simpa [hm, hp] using hr

private theorem strtol_minus_decimal (n : Nat) (h : (n : Int) ≤ longMax) :
    strtol (minus :: decimal n) = ⟨-(n : Int), [], false⟩ := by
  rw [strtol, dropWhile_isspace_cons (by decide)]
  simpa using strtolDigits_decimal true (minus :: decimal n) n h

/-- The reader of the program recovers every `int` that `snprintf` wrote. -/
theorem strtolInt_snprintfInt {n : Int} (hl : intMin ≤ n) (hu : n ≤ intMax) :
    strtolInt (snprintfInt n) = some n := by
  have hv : strtol (snprintfInt n) = ⟨n, [], false⟩ := by
    simp only [intMin, intMax] at hl hu
    cases n with
    | ofNat n =>
      rw [Int.ofNat_eq_natCast] at hu
      exact strtol_decimal n (by simp only [longMax]; omega)
    | negSucc n =>
      rw [snprintfInt, strtol_minus_decimal (n + 1) (by simp only [longMax]; omega),
        Int.negSucc_eq]
      simp
  have hl' : ¬ n < intMin := Int.not_lt.mpr hl
  have hu' : ¬ n > intMax := Int.not_lt.mpr hu
  simp [strtolInt, hv, hl', hu']

/-- The bytes of a printed `int`. -/
theorem mem_snprintfInt {n : Int} {c : UInt8} (h : c ∈ snprintfInt n) :
    isdigit c = true ∨ c = minus := by
  cases n with
  | ofNat n => exact Or.inl (isdigit_of_mem_decimal h)
  | negSucc n =>
    rcases List.mem_cons.mp h with rfl | h
    · exact Or.inr rfl
    · exact Or.inl (isdigit_of_mem_decimal h)

/-- A printed `int` has at most eleven bytes. -/
theorem length_snprintfInt_le {n : Int} (hl : intMin ≤ n) (hu : n ≤ intMax) :
    (snprintfInt n).length ≤ 11 := by
  simp only [intMin, intMax] at hl hu
  cases n with
  | ofNat n =>
    rw [Int.ofNat_eq_natCast] at hu
    have hn : n < 10 ^ 10 := by omega
    have := length_decimal_le (by decide) hn
    rw [snprintfInt]
    omega
  | negSucc n =>
    have hn : n + 1 < 10 ^ 10 := by omega
    have := length_decimal_le (by decide) hn
    rw [snprintfInt, List.length_cons]
    omega

/-! ### The text that the reader accepts -/

/-- Digits with at least one of them. -/
structure IsDigits (digits : Bytes) : Prop where
  ne_nil : digits ≠ []
  isdigit : ∀ c ∈ digits, isdigit c = true

/-- A decimal integer: blanks, an optional sign and at least one digit. -/
inductive IsDecimal : Bytes → Int → Prop
  | unsigned {blanks digits : Bytes} (hb : ∀ c ∈ blanks, isspace c = true)
      (hd : IsDigits digits) : IsDecimal (blanks ++ digits) (digitsValue digits)
  | plus {blanks digits : Bytes} (hb : ∀ c ∈ blanks, isspace c = true)
      (hd : IsDigits digits) : IsDecimal (blanks ++ 43 :: digits) (digitsValue digits)
  | minus {blanks digits : Bytes} (hb : ∀ c ∈ blanks, isspace c = true)
      (hd : IsDigits digits) : IsDecimal (blanks ++ minus :: digits) (-digitsValue digits)

/-- A decimal integer is not the empty text. -/
theorem IsDecimal.ne_nil {s : Bytes} {v : Int} (h : IsDecimal s v) : s ≠ [] := by
  cases h with
  | unsigned hb hd => exact List.append_ne_nil_of_right_ne_nil _ hd.ne_nil
  | plus hb hd => simp
  | minus hb hd => simp

/-- The check passes a result with this value. -/
structure StrtolResult.Passes (r : StrtolResult) (v : Int) : Prop where
  erange : r.erange = false
  endPtr : r.endPtr = []
  value : r.value = v
  range : intMin ≤ v ∧ v ≤ intMax

theorem strtolInt_eq_some_iff_passes {s : Bytes} {v : Int} :
    strtolInt s = some v ↔ (strtol s).Passes v := by
  simp only [strtolInt]
  split
  · next h =>
    refine ⟨fun hn ↦ ?_, fun hp ↦ ?_⟩
    · cases hn
    · simp only [Bool.or_eq_true, decide_eq_true_eq, hp.erange, hp.endPtr, hp.value] at h
      obtain ⟨hl, hu⟩ := hp.range
      simp only [Bool.false_eq_true, ne_eq, not_true_eq_false, or_self, false_or] at h
      omega
  · next h =>
    simp only [Bool.or_eq_true, decide_eq_true_eq, not_or, Bool.not_eq_true, ne_eq, not_not,
      Int.not_lt] at h
    obtain ⟨⟨⟨he, hp⟩, hl⟩, hu⟩ := h
    refine ⟨fun hv ↦ ?_, fun hp' ↦ congrArg some hp'.value⟩
    obtain rfl := Option.some.inj hv
    exact ⟨he, hp, rfl, hl, hu⟩

private theorem strtolDigits_passes_iff {negative : Bool} {start digits : Bytes} {v : Int}
    (hs : start ≠ []) :
    (strtolDigits negative start digits).Passes v ↔
      IsDigits digits ∧ v = (if negative then -(digitsValue digits : Int) else digitsValue digits) ∧
        intMin ≤ v ∧ v ≤ intMax := by
  by_cases ht : digits.takeWhile isdigit = []
  · rw [strtolDigits, if_pos ht]
    refine ⟨fun h ↦ absurd h.endPtr hs, fun h ↦ ?_⟩
    rw [List.takeWhile_eq_self_iff.mpr h.1.isdigit] at ht
    exact absurd ht h.1.ne_nil
  · have hend : digits.dropWhile isdigit = [] ↔ IsDigits digits := by
      rw [List.dropWhile_eq_nil_iff]
      refine ⟨fun h ↦ ⟨?_, h⟩, fun h ↦ h.isdigit⟩
      rintro rfl
      exact ht rfl
    rw [strtolDigits, if_neg ht]
    by_cases hd : IsDigits digits
    · have hall : digits.takeWhile isdigit = digits :=
        List.takeWhile_eq_self_iff.mpr hd.isdigit
      simp only [hall, hend.mpr hd, hd, true_and]
      generalize (if negative then -(digitsValue digits : Int) else digitsValue digits) = value
      split
      · refine ⟨fun h ↦ ?_, fun h ↦ ?_⟩
        · cases h.erange
        · simp only [longMin, intMin] at *
          omega
      · split
        · refine ⟨fun h ↦ ?_, fun h ↦ ?_⟩
          · cases h.erange
          · simp only [longMax, intMax] at *
            omega
        · exact ⟨fun h ↦ ⟨h.value.symm, h.range⟩, fun h ↦ ⟨rfl, rfl, h.1.symm, h.2⟩⟩
    · refine ⟨fun h ↦ absurd (hend.mp ?_) hd, fun h ↦ absurd h.1 hd⟩
      have he := h.endPtr
      simp only at he
      generalize (if negative then -(digitsValue (digits.takeWhile isdigit) : Int)
        else digitsValue (digits.takeWhile isdigit)) = value at he
      split at he
      · exact he
      · split at he
        · exact he
        · exact he

private theorem dropWhile_blanks {blanks rest : Bytes} {c : UInt8}
    (hb : ∀ c ∈ blanks, isspace c = true) (hc : isspace c = false) :
    (blanks ++ c :: rest).dropWhile isspace = c :: rest := by
  rw [List.dropWhile_append_of_pos hb, dropWhile_isspace_cons hc]

/-- The reader of the program accepts decimal integers in the range of `int`, and the empty
text as zero. -/
theorem strtolInt_eq_some_iff {s : Bytes} {v : Int} :
    strtolInt s = some v ↔
      s = [] ∧ v = 0 ∨ IsDecimal s v ∧ intMin ≤ v ∧ v ≤ intMax := by
  rw [strtolInt_eq_some_iff_passes, strtol]
  have hblanks : ∀ c ∈ s.takeWhile isspace, isspace c = true := fun c hc ↦
    List.mem_takeWhile_imp hc
  have hs := List.takeWhile_append_dropWhile (p := isspace) (l := s)
  constructor
  · intro h
    cases hd : s.dropWhile isspace with
    | nil =>
      rw [hd] at h
      exact Or.inl ⟨h.endPtr, h.value.symm⟩
    | cons c rest =>
      rw [hd] at h hs
      have hne : s ≠ [] := by
        rintro rfl
        cases hd
      simp only at h
      right
      rw [← hs]
      split at h
      · next hm =>
        obtain ⟨hdigits, rfl, hrange⟩ := (strtolDigits_passes_iff hne).mp h
        subst hm
        exact ⟨.minus hblanks hdigits, hrange⟩
      · split at h
        · next hp =>
          obtain ⟨hdigits, rfl, hrange⟩ := (strtolDigits_passes_iff hne).mp h
          subst hp
          exact ⟨.plus hblanks hdigits, hrange⟩
        · obtain ⟨hdigits, rfl, hrange⟩ := (strtolDigits_passes_iff hne).mp h
          exact ⟨.unsigned hblanks hdigits, hrange⟩
  · rintro (⟨rfl, rfl⟩ | ⟨h, hrange⟩)
    · exact ⟨rfl, rfl, rfl, by decide⟩
    · have hne := h.ne_nil
      cases h with
      | unsigned hb hd =>
        rename_i blanks digits
        cases digits with
        | nil => exact absurd rfl hd.ne_nil
        | cons c rest =>
          obtain ⟨hspace, hm, hp⟩ := isspace_of_isdigit (hd.isdigit c List.mem_cons_self)
          rw [dropWhile_blanks hb hspace]
          simp only [if_neg hm, if_neg hp]
          exact (strtolDigits_passes_iff hne).mpr ⟨hd, rfl, hrange⟩
      | plus hb hd =>
        rw [dropWhile_blanks hb (by decide)]
        simp only [if_neg (show (43 : UInt8) ≠ minus by decide), if_true]
        exact (strtolDigits_passes_iff hne).mpr ⟨hd, rfl, hrange⟩
      | minus hb hd =>
        rw [dropWhile_blanks hb (by decide)]
        simp only [if_true]
        exact (strtolDigits_passes_iff hne).mpr ⟨hd, rfl, hrange⟩

end SqlProc.Base
