import Hermes.CLib.Bytes
import Hermes.CLib.Outcome
import Mathlib.Data.Nat.Digits.Lemmas

/-!
# Decimal numerals

`strtol` and `atoi` as glibc computes them on a 64-bit `long`, and the `%d` conversion of
`printf`. `strtol` skips white space, takes one sign, reads the longest run of digits and
saturates. It reports neither an empty run nor the bytes behind it. `atoi` then keeps the
low 32 bits. On a numeral that fits in an `int`, both give its value (`atoi_numeral`), and
`%d` prints such a numeral (`atoi_decimal`).
-/

namespace CLib

/-- The number a run of decimal digits spells. -/
def digitsValue (ds : List UInt8) : ℕ :=
  Nat.ofDigits 10 (ds.reverse.map fun c => c.toNat - 48)

/-- `n` limited to the range of `long`. -/
def saturate (n : ℤ) : ℤ :=
  max longMin (min longMax n)

/-- `strtol(s, NULL, 10)`. -/
def strtol (s : List UInt8) : ℤ :=
  match s.dropWhile isspace with
  | [] => 0
  | c :: t =>
    if c = minus then saturate (-digitsValue (t.takeWhile isdigit))
    else if c = plus then saturate (digitsValue (t.takeWhile isdigit))
    else saturate (digitsValue ((c :: t).takeWhile isdigit))

/-- `atoi(s)`, which is also the `(int)` of `strtol`. -/
def atoi (s : List UInt8) : ℤ :=
  toInt (strtol s)

/-- A plain decimal numeral : digits only, at least one. -/
def IsNumeral (s : List UInt8) : Prop :=
  s ≠ [] ∧ ∀ c ∈ s, isdigit c = true

instance (s : List UInt8) : Decidable (IsNumeral s) :=
  inferInstanceAs (Decidable (_ ∧ _))

/-- The decimal numeral of `n`. -/
def decimal (n : ℕ) : List UInt8 :=
  if n = 0 then [48] else ((Nat.digits 10 n).map fun d => (48 + d).toUInt8).reverse

/-- `sprintf(s, "%d", n)`. -/
def sprintfInt (n : ℤ) : List UInt8 :=
  if n < 0 then minus :: decimal n.natAbs else decimal n.natAbs

/-! ## Reading a numeral -/

theorem isdigit_iff {c : UInt8} : isdigit c = true ↔ 48 ≤ c.toNat ∧ c.toNat ≤ 57 := by
  simp [isdigit, UInt8.le_iff_toNat_le]

theorem isspace_iff {c : UInt8} :
    isspace c = true ↔ c.toNat = 32 ∨ (9 ≤ c.toNat ∧ c.toNat ≤ 13) := by
  simp only [isspace, UInt8.le_iff_toNat_le, ← UInt8.toNat_inj, beq_iff_eq, Bool.or_eq_true,
    Bool.and_eq_true, decide_eq_true_eq]
  rfl

theorem not_isspace_of_isdigit {c : UInt8} (h : isdigit c = true) : isspace c = false := by
  rw [Bool.eq_false_iff, Ne, isspace_iff]
  have := isdigit_iff.1 h
  omega

theorem ne_of_isdigit {c d : UInt8} (h : isdigit c = true) (hd : isdigit d = false) : c ≠ d := by
  rintro rfl
  simp [h] at hd

/-- `strtol` on a numeral is its value, at most `LONG_MAX`. -/
theorem strtol_numeral {s : List UInt8} (hs : IsNumeral s) :
    strtol s = min longMax (digitsValue s) := by
  obtain ⟨hne, hd⟩ := hs
  cases s with
  | nil => exact absurd rfl hne
  | cons c t =>
    have hc := hd c (by simp)
    have hspace : (c :: t).dropWhile isspace = c :: t :=
      List.dropWhile_cons_of_neg (by simp [not_isspace_of_isdigit hc])
    have hall : (c :: t).takeWhile isdigit = c :: t := List.takeWhile_eq_self_iff.2 hd
    simp only [strtol, hspace, if_neg (ne_of_isdigit hc (by decide : isdigit minus = false)),
      if_neg (ne_of_isdigit hc (by decide : isdigit plus = false)), hall]
    unfold saturate longMin longMax
    omega

/-- A numeral that fits in an `int` is read as its value. -/
theorem atoi_numeral {s : List UInt8} (hs : IsNumeral s) (hmax : (digitsValue s : ℤ) ≤ intMax) :
    atoi s = digitsValue s := by
  have hlong : min longMax (digitsValue s : ℤ) = digitsValue s := by
    unfold longMax intMax at *
    omega
  rw [atoi, strtol_numeral hs, hlong, toInt_of_range (by unfold intMin; omega) hmax]

/-! ## Printing a numeral -/

theorem digit_toNat {d : ℕ} (hd : d < 10) : ((48 + d).toUInt8).toNat = 48 + d := by
  simp
  omega

theorem isNumeral_decimal (n : ℕ) : IsNumeral (decimal n) := by
  unfold decimal
  split_ifs with h0
  · decide
  · refine ⟨by simp [Nat.digits_ne_nil_iff_ne_zero.2 h0], fun c hc => ?_⟩
    simp only [List.mem_reverse, List.mem_map] at hc
    obtain ⟨d, hd, rfl⟩ := hc
    have hlt := Nat.digits_lt_base (by decide : 1 < 10) hd
    rw [isdigit_iff, digit_toNat hlt]
    omega

theorem digitsValue_decimal (n : ℕ) : digitsValue (decimal n) = n := by
  unfold decimal
  split_ifs with h0
  · subst h0
    decide
  · have hmap : (Nat.digits 10 n).map (fun d => ((48 + d).toUInt8).toNat - 48) =
        Nat.digits 10 n := by
      refine (List.map_congr_left fun d hd => ?_).trans (List.map_id _)
      rw [digit_toNat (Nat.digits_lt_base (by decide) hd)]
      simp
    simp only [digitsValue, List.reverse_reverse, List.map_map, Function.comp_def, hmap,
      Nat.ofDigits_digits]

/-- Reading back what `%d` printed. -/
theorem atoi_decimal {n : ℕ} (hn : (n : ℤ) ≤ intMax) : atoi (decimal n) = n := by
  rw [atoi_numeral (isNumeral_decimal n) (by rwa [digitsValue_decimal]), digitsValue_decimal]

theorem sprintfInt_natCast (n : ℕ) : sprintfInt n = decimal n := by
  simp [sprintfInt]

/-! ## Lengths of numerals -/

theorem digitsValue_lt {ds : List UInt8} (h : ∀ c ∈ ds, isdigit c = true) :
    digitsValue ds < 10 ^ ds.length := by
  have hlt := Nat.ofDigits_lt_base_pow_length (b := 10)
    (l := ds.reverse.map fun c => c.toNat - 48) (by decide) fun d hd => by
      obtain ⟨c, hc, rfl⟩ := List.mem_map.1 hd
      have := isdigit_iff.1 (h c (List.mem_reverse.1 hc))
      omega
  simpa [digitsValue] using hlt

theorem length_decimal_le {n k : ℕ} (hn : n < 10 ^ k) (hk : 0 < k) : (decimal n).length ≤ k := by
  unfold decimal
  split_ifs with h0
  · exact hk
  · rw [List.length_reverse, List.length_map]
    exact (Nat.digits_length_le_iff (by decide) n).2 hn

/-- What `strtol` reads is bounded by the digits it reads. -/
theorem exists_digits (s : List UInt8) : ∃ ds : List UInt8, ds.length ≤ s.length ∧
    (∀ c ∈ ds, isdigit c = true) ∧
      -(digitsValue ds : ℤ) ≤ strtol s ∧ strtol s ≤ digitsValue ds := by
  have hlen : (s.dropWhile isspace).length ≤ s.length := (List.dropWhile_suffix _).length_le
  have htake : ∀ t : List UInt8, (t.takeWhile isdigit).length ≤ t.length := fun t =>
    (List.takeWhile_prefix _).length_le
  have hdigits : ∀ t : List UInt8, ∀ c ∈ t.takeWhile isdigit, isdigit c = true := fun t c =>
    List.mem_takeWhile_imp
  have hsat : ∀ n : ℕ, -(n : ℤ) ≤ saturate n ∧ saturate n ≤ n ∧
      -(n : ℤ) ≤ saturate (-n) ∧ saturate (-n) ≤ n := fun n => by
    unfold saturate longMin longMax
    omega
  unfold strtol
  split
  · exact ⟨[], by simp, by simp, by decide, by decide⟩
  · rename_i c t hs
    rw [hs, List.length_cons] at hlen
    split_ifs
    · exact ⟨t.takeWhile isdigit, (htake t).trans (by omega), hdigits t, (hsat _).2.2.1,
        (hsat _).2.2.2⟩
    · exact ⟨t.takeWhile isdigit, (htake t).trans (by omega), hdigits t, (hsat _).1,
        (hsat _).2.1⟩
    · exact ⟨(c :: t).takeWhile isdigit, (htake _).trans (by simpa using hlen), hdigits _,
        (hsat _).1, (hsat _).2.1⟩

/-- A positive length printed is no longer than the text it was read from. -/
theorem length_decimal_atoi_le {s : List UInt8} {n : ℕ} (h : atoi s = n) (hn : 0 < n) :
    (decimal n).length ≤ s.length := by
  obtain ⟨ds, hlen, hds, hlo, hhi⟩ := exists_digits s
  have hrange := toInt_range (strtol s)
  have hle : n ≤ digitsValue ds := by
    unfold atoi toInt at h
    unfold toInt intMin intMax at hrange
    rw [Int.bmod_def] at h hrange
    omega
  have hlt := digitsValue_lt hds
  have hpos : 0 < ds.length := by
    by_contra h0
    have : ds.length = 0 := by omega
    rw [this] at hlt
    omega
  exact (length_decimal_le (lt_of_le_of_lt hle hlt) hpos).trans hlen

theorem IsNumeral.trimmed {s : List UInt8} (h : IsNumeral s) : Trimmed isspace s :=
  ⟨fun c hc => not_isspace_of_isdigit (h.2 c (List.mem_of_mem_head? hc)),
    fun c hc => not_isspace_of_isdigit (h.2 c (List.mem_of_mem_getLast? hc))⟩

theorem IsNumeral.not_mem {s : List UInt8} (h : IsNumeral s) {d : UInt8}
    (hd : isdigit d = false) : d ∉ s :=
  fun hmem => ne_of_isdigit (h.2 d hmem) hd rfl

end CLib
