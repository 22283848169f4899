import Mathlib.Data.FinEnum
import Mathlib.Data.List.TakeWhile

/-!
# Bytes, C strings and the C character classes

Library `Base`. The program reads and writes `char` buffers; a buffer is modelled
by the bytes of its C string, up to and excluding the terminator. Character
classes are those of the "C" locale, the only locale the program runs in.
-/

namespace SqlProc.Base

/-- A sequence of bytes: a file's content, or the text of a C string. -/
abbrev Bytes := List UInt8

/-- The string terminator. -/
abbrev nul : UInt8 := 0

/-- Horizontal tab, which separates printed cells. -/
abbrev tab : UInt8 := 9

/-- Line feed, the only byte at which `fgets` stops. -/
abbrev lf : UInt8 := 10

/-- Carriage return. -/
abbrev cr : UInt8 := 13

/-- The blank. -/
abbrev space : UInt8 := 32

/-- The double quote of CSV fields. -/
abbrev dquote : UInt8 := 34

/-- The single quote of SQL string literals. -/
abbrev squote : UInt8 := 39

/-- The comma. -/
abbrev comma : UInt8 := 44

/-- The minus sign. -/
abbrev minus : UInt8 := 45

/-- The colon of schema entries. -/
abbrev colon : UInt8 := 58

/-- The underscore of identifiers. -/
abbrev underscore : UInt8 := 95

/-- The bytes of a string constant of the source; every such constant that reaches
a file, a token or a comparison is ASCII. -/
def text (s : String) : Bytes := s.toList.map Char.toUInt8

/-- The C string at the start of a buffer: what `strlen` counts. -/
def cstr (buffer : Bytes) : Bytes := buffer.takeWhile (· ≠ nul)

/-- `snprintf(dest, size, "%s", src)`: the C string left in `dest`. -/
def snprintfStr (size : Nat) (src : Bytes) : Bytes := src.take (size - 1)

/-- `isdigit`. -/
def isdigit (c : UInt8) : Bool := 48 ≤ c && c ≤ 57

/-- `isupper`. -/
def isupper (c : UInt8) : Bool := 65 ≤ c && c ≤ 90

/-- `islower`. -/
def islower (c : UInt8) : Bool := 97 ≤ c && c ≤ 122

/-- `isalpha`. -/
def isalpha (c : UInt8) : Bool := isupper c || islower c

/-- `isalnum`. -/
def isalnum (c : UInt8) : Bool := isalpha c || isdigit c

/-- `isspace`. -/
def isspace (c : UInt8) : Bool := c = space || (9 ≤ c && c ≤ 13)

/-- `tolower`. -/
def tolower (c : UInt8) : UInt8 := if isupper c then c + 32 else c

/-- Text without the bytes that end a string or a line. -/
structure OneLine (s : Bytes) : Prop where
  nul_notMem : nul ∉ s
  lf_notMem : lf ∉ s
  cr_notMem : cr ∉ s

instance (s : Bytes) : Decidable (OneLine s) :=
  decidable_of_iff (nul ∉ s ∧ lf ∉ s ∧ cr ∉ s)
    ⟨fun h ↦ ⟨h.1, h.2.1, h.2.2⟩, fun h ↦ ⟨h.1, h.2, h.3⟩⟩

theorem OneLine.mono {s t : Bytes} (h : OneLine s) (hs : t ⊆ s) : OneLine t :=
  ⟨fun hm ↦ h.1 (hs hm), fun hm ↦ h.2 (hs hm), fun hm ↦ h.3 (hs hm)⟩

theorem oneLine_iff {s : Bytes} : OneLine s ↔ ∀ c ∈ s, c ≠ nul ∧ c ≠ lf ∧ c ≠ cr := by
  constructor
  · intro h c hc
    exact ⟨ne_of_mem_of_not_mem hc h.nul_notMem, ne_of_mem_of_not_mem hc h.lf_notMem,
      ne_of_mem_of_not_mem hc h.cr_notMem⟩
  · intro h
    exact ⟨fun hm ↦ (h _ hm).1 rfl, fun hm ↦ (h _ hm).2.1 rfl, fun hm ↦ (h _ hm).2.2 rfl⟩

/-- Text of one character class holds no byte of another. -/
theorem notMem_of_forall {s : Bytes} {p : UInt8 → Bool} (hs : ∀ c ∈ s, p c = true) {c : UInt8}
    (hc : p c = false) : c ∉ s := fun hm ↦ Bool.false_ne_true (hc.symm.trans (hs c hm))

theorem oneLine_of_forall {s : Bytes} {p : UInt8 → Bool} (hs : ∀ c ∈ s, p c = true)
    (hn : p nul = false) (hl : p lf = false) (hc : p cr = false) : OneLine s :=
  ⟨notMem_of_forall hs hn, notMem_of_forall hs hl, notMem_of_forall hs hc⟩

/-- A buffer without a terminator inside it is its own C string. -/
theorem cstr_eq_self {s : Bytes} (h : nul ∉ s) : cstr s = s := by
  rw [cstr, List.takeWhile_eq_self_iff]
  intro c hc
  have hne : c ≠ nul := fun he ↦ h (he ▸ hc)
  simpa using hne

/-- A C string holds no terminator. -/
theorem nul_notMem_cstr (s : Bytes) : nul ∉ cstr s := by
  intro h
  simpa using List.mem_takeWhile_imp h

/-- A copy into a large enough buffer is exact. -/
theorem snprintfStr_of_lt {size : Nat} {src : Bytes} (h : src.length < size) :
    snprintfStr size src = src := by
  rw [snprintfStr, List.take_of_length_le (by omega)]

theorem length_snprintfStr_lt {size : Nat} (hs : 0 < size) (src : Bytes) :
    (snprintfStr size src).length < size := by
  rw [snprintfStr, List.length_take]
  omega

/-- Lower-casing keeps the character class of words. -/
theorem isalnum_tolower (c : UInt8) : isalnum (tolower c) = isalnum c := by
  revert c
  decide +kernel

/-- Lower-casing keeps letters. -/
theorem isalpha_tolower (c : UInt8) : isalpha (tolower c) = isalpha c := by
  revert c
  decide +kernel

/-- Lower-casing neither makes nor removes an underscore. -/
theorem tolower_eq_underscore_iff (c : UInt8) : tolower c = underscore ↔ c = underscore := by
  revert c
  decide +kernel

/-- Lower-casing makes no byte that has a meaning in a file. -/
theorem tolower_eq_iff_of_mem {c d : UInt8}
    (hd : d ∈ [nul, lf, cr, dquote, comma, colon]) : tolower c = d ↔ c = d := by
  simp only [List.mem_cons, List.not_mem_nil, or_false] at hd
  rcases hd with rfl | rfl | rfl | rfl | rfl | rfl <;> revert c <;> decide +kernel

end SqlProc.Base
