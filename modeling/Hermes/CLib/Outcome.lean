import Mathlib.Data.Int.Order.Basic
import Mathlib.Tactic.Ring
import Mathlib.Tactic.Linarith

/-!
# Outcomes of a C program

A C function is a function into `Run` : it returns, or it ends in a `Fault`. A failed
assertion terminates the process (`Fault.assertion`). A step the C standard leaves
without a meaning is `Fault.undefined` : an `int` overflow, an access outside an object,
a read of a byte that was never written. A theorem that a function returns rules out both.

Pointers carry no addresses here. A pointer that may be `NULL` is an `Option`, any other
pointer argument is the value it points to.
-/

namespace CLib

/-- Why a run ends without a result. -/
inductive Fault
  | assertion
  | undefined
  deriving DecidableEq, Repr

/-- The outcome of a C function. -/
abbrev Run (α : Type) := Except Fault α

section Bind

variable {α β : Type}

@[simp] theorem ok_bind (a : α) (f : α → Run β) : (Except.ok a >>= f : Run β) = f a :=
  rfl

@[simp] theorem error_bind (e : Fault) (f : α → Run β) :
    (Except.error e >>= f : Run β) = Except.error e :=
  rfl

@[simp] theorem pure_eq_ok (a : α) : (pure a : Run α) = Except.ok a :=
  rfl

@[simp] theorem throw_eq_error (e : Fault) : (throw e : Run α) = Except.error e :=
  rfl

/-- A sequence returns exactly when both halves do. -/
theorem bind_eq_ok {x : Run α} {f : α → Run β} {b : β} :
    x >>= f = .ok b ↔ ∃ a, x = .ok a ∧ f a = .ok b := by
  cases x <;> simp

/-- A part of an outcome is known. -/
theorem map_eq_ok {x : Run α} {f : α → β} {b : β} :
    x.map f = .ok b ↔ ∃ a, x = .ok a ∧ f a = b := by
  cases x <;> simp [Except.map]

theorem map_eq_error {x : Run α} {f : α → β} {e : Fault} :
    x.map f = .error e ↔ x = .error e := by
  cases x <;> simp [Except.map]

end Bind

/-! ## Runs that end alike -/

section Alike

variable {α β γ δ : Type} {R : α → β → Prop} {S : γ → δ → Prop}

/-- Two runs return results that `R` relates, or end in the same fault. -/
inductive Alike (R : α → β → Prop) : Run α → Run β → Prop
  | ok {a b} (h : R a b) : Alike R (.ok a) (.ok b)
  | error (e : Fault) : Alike R (.error e) (.error e)

/-- The same first half. -/
theorem Alike.bind_same {x : Run α} {f : α → Run γ} {g : α → Run δ}
    (hfg : ∀ a, Alike S (f a) (g a)) : Alike S (x >>= f) (x >>= g) := by
  cases x with
  | ok a => exact hfg a
  | error e => exact .error e

theorem Alike.ok_left {a : α} {y : Run β} (h : Alike R (.ok a) y) : ∃ b, y = .ok b ∧ R a b := by
  cases h with
  | ok h => exact ⟨_, rfl, h⟩

theorem Alike.ok_right {b : β} {x : Run α} (h : Alike R x (.ok b)) : ∃ a, x = .ok a ∧ R a b := by
  cases h with
  | ok h => exact ⟨_, rfl, h⟩

end Alike

/-! ## Assertions -/

/-- `assert(p)`. -/
def assert (p : Prop) [Decidable p] : Run Unit :=
  if p then .ok () else .error .assertion

@[simp] theorem assert_of {p : Prop} [Decidable p] (h : p) : assert p = .ok () :=
  if_pos h

@[simp] theorem assert_of_not {p : Prop} [Decidable p] (h : ¬p) :
    assert p = .error .assertion :=
  if_neg h

/-! ## Machine integers

`int` has 32 bits, `long` and `size_t` have 64. -/

/-- `INT_MAX`. -/
def intMax : ℤ := 2147483647

/-- `INT_MIN`. -/
def intMin : ℤ := -2147483648

/-- `LONG_MAX`. -/
def longMax : ℤ := 9223372036854775807

/-- `LONG_MIN`. -/
def longMin : ℤ := -9223372036854775808

/-- `PTRDIFF_MAX`. -/
def ptrdiffMax : ℕ := 9223372036854775807

/-- Conversion to `int` : the low 32 bits, read in two's complement. -/
def toInt (x : ℤ) : ℤ :=
  x.bmod 4294967296

/-- Conversion to `unsigned` : the value modulo `2 ^ 32`. -/
def toUnsigned (x : ℤ) : ℕ :=
  (x % 4294967296).toNat

/-- Conversion to `size_t` : the value modulo `2 ^ 64`. -/
def toSize (x : ℤ) : ℕ :=
  (x % 18446744073709551616).toNat

/-- `int` addition. Overflow is undefined. -/
def addInt (x y : ℤ) : Run ℤ :=
  if intMin ≤ x + y ∧ x + y ≤ intMax then .ok (x + y) else .error .undefined

theorem toInt_of_range {x : ℤ} (hlo : intMin ≤ x) (hhi : x ≤ intMax) : toInt x = x := by
  unfold toInt intMin intMax at *
  rw [Int.bmod_def]
  omega

theorem toInt_range (x : ℤ) : intMin ≤ toInt x ∧ toInt x ≤ intMax := by
  unfold toInt intMin intMax
  rw [Int.bmod_def]
  omega

theorem addInt_ok {x y : ℤ} (hlo : intMin ≤ x + y) (hhi : x + y ≤ intMax) :
    addInt x y = .ok (x + y) :=
  if_pos ⟨hlo, hhi⟩

/-- A count as an `int`. A count that does not fit has overflowed on the way. -/
def countInt (n : ℕ) : Run ℤ :=
  if (n : ℤ) ≤ intMax then .ok n else .error .undefined

theorem countInt_ok {n : ℕ} (h : (n : ℤ) ≤ intMax) : countInt n = .ok (n : ℤ) :=
  if_pos h

theorem countInt_eq_ok {n : ℕ} {x : ℤ} : countInt n = .ok x ↔ (n : ℤ) ≤ intMax ∧ x = n := by
  unfold countInt
  split_ifs with h
  · simp [h, eq_comm]
  · simp [h]

/-- Adding to a count. -/
theorem countInt_addInt (n k : ℕ) : (countInt n >>= fun x => addInt x k) = countInt (n + k) := by
  have hadd : addInt n k = countInt (n + k) := by
    unfold addInt countInt
    refine if_congr ?_ (by push_cast; rfl) rfl
    unfold intMin
    push_cast
    omega
  by_cases h : (n : ℤ) ≤ intMax
  · rw [countInt_ok h, ok_bind, hadd]
  · rw [countInt, countInt, if_neg h, if_neg (by push_cast; omega), error_bind]

/-- Adding to a count over a list. -/
theorem countInt_foldlM {α : Type} (f : α → ℕ) : ∀ (l : List α) (n : ℕ),
    (countInt n >>= fun x => l.foldlM (fun x a => addInt x (f a)) x) =
      countInt (n + (l.map f).sum)
  | [], n => by
    simp only [List.foldlM_nil, List.map_nil, List.sum_nil, Nat.add_zero]
    exact bind_pure (countInt n)
  | a :: l, n => by
    have hassoc : n + ((a :: l).map f).sum = n + f a + (l.map f).sum := by
      simp
      omega
    rw [hassoc, ← countInt_foldlM f l (n + f a), ← countInt_addInt n (f a), bind_assoc]
    simp only [List.foldlM_cons]

theorem toUnsigned_of_nonneg {x : ℤ} (h0 : 0 ≤ x) (hx : x ≤ intMax) : toUnsigned x = x.toNat := by
  unfold toUnsigned intMax at *
  rw [Int.emod_eq_of_lt h0 (by omega)]

theorem toSize_of_nonneg {x : ℤ} (h0 : 0 ≤ x) (hx : x ≤ intMax) : toSize x = x.toNat := by
  unfold toSize intMax at *
  rw [Int.emod_eq_of_lt h0 (by omega)]

/-! ## The allocator -/

/-- Whether `malloc(size)` gives storage. A request of at most `2 ^ 31` bytes is served, an
empty one included, and one above `PTRDIFF_MAX` is refused. Nothing is assumed in between. -/
def malloc (size : ℕ) : Run Bool :=
  if size ≤ 2147483648 then .ok true
  else if ptrdiffMax < size then .ok false
  else .error .undefined

theorem malloc_served {n : ℕ} (h : n ≤ 2147483648) : malloc n = .ok true :=
  if_pos h

theorem malloc_refused {n : ℕ} (h : ptrdiffMax < n) : malloc n = .ok false := by
  unfold malloc ptrdiffMax at *
  rw [if_neg (by omega), if_pos h]

/-- A negative `int` above `INT_MIN` is refused when it reaches `malloc` as a size. -/
theorem malloc_negative {x : ℤ} (hlo : intMin ≤ x) (hx : x < 0) : malloc (toSize x) = .ok false :=
  malloc_refused (by
    unfold toSize ptrdiffMax intMin at *
    omega)

theorem malloc_nonneg {x : ℤ} (h0 : 0 ≤ x) (hx : x ≤ intMax) : malloc (toSize x) = .ok true := by
  rw [toSize_of_nonneg h0 hx]
  exact malloc_served (by unfold intMax at hx; omega)

end CLib
