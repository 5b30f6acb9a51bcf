import Hermes.CLib.Tokens
import Mathlib.Data.List.TakeWhile

/-!
# Bytes and C strings

Bytes are `UInt8`, classified as the `C` locale does. A `CString` is what a `char *`
argument or field denotes : the bytes before the terminating NUL, so it holds none.
`CString.ofBytes` reads one from a list, up to the first NUL.
-/

namespace CLib

/-! ## Bytes -/

abbrev nul : UInt8 := 0
abbrev tab : UInt8 := 9
abbrev newline : UInt8 := 10
abbrev carriageReturn : UInt8 := 13
abbrev space : UInt8 := 32
abbrev plus : UInt8 := 43
abbrev minus : UInt8 := 45
abbrev dot : UInt8 := 46
abbrev colon : UInt8 := 58

/-- A list of bytes is checked element by element. There is also a check of all the bytes
there are, and a longer one. -/
instance (priority := high) decidableBytes (p : UInt8 → Prop) [DecidablePred p]
    (l : List UInt8) : Decidable (∀ c ∈ l, p c) :=
  List.decidableBAll p l

/-- The bytes of an ASCII literal. -/
def ascii (s : String) : List UInt8 :=
  s.toList.map fun c => c.toNat.toUInt8

/-- `isspace` : space, and the five control characters from tab to carriage return. -/
def isspace (c : UInt8) : Bool :=
  c == space || (tab ≤ c && c ≤ carriageReturn)

/-- `isdigit`. -/
def isdigit (c : UInt8) : Bool :=
  48 ≤ c && c ≤ 57

/-- `tolower`. -/
def tolower (c : UInt8) : UInt8 :=
  if 65 ≤ c ∧ c ≤ 90 then c + 32 else c

@[simp] theorem isspace_nul : isspace nul = false := by
  decide

@[simp] theorem isspace_space : isspace space = true := by
  decide

@[simp] theorem isspace_newline : isspace newline = true := by
  decide

/-! ## Comparison ignoring case -/

/-- `strcasecmp(s, t) == 0`. -/
def caseEq (s t : List UInt8) : Bool :=
  s.map tolower == t.map tolower

theorem caseEq_iff {s t : List UInt8} : caseEq s t = true ↔ s.map tolower = t.map tolower := by
  simp [caseEq]

@[simp] theorem caseEq_refl (s : List UInt8) : caseEq s s = true := by
  simp [caseEq]

theorem caseEq_comm (s t : List UInt8) : caseEq s t = caseEq t s := by
  rw [Bool.eq_iff_iff, caseEq_iff, caseEq_iff, eq_comm]

theorem caseEq_trans {s t u : List UInt8} (h1 : caseEq s t = true) (h2 : caseEq t u = true) :
    caseEq s u = true := by
  rw [caseEq_iff] at *
  exact h1.trans h2

/-- Strings equal ignoring case are equal to the same strings. -/
theorem caseEq_congr_left {s t : List UInt8} (h : caseEq s t = true) (u : List UInt8) :
    caseEq s u = caseEq t u := by
  rw [caseEq_iff] at h
  simp [caseEq, h]

theorem length_eq_of_caseEq {s t : List UInt8} (h : caseEq s t = true) : s.length = t.length := by
  simpa using congrArg List.length (caseEq_iff.1 h)

/-! ## C strings -/

/-- A NUL-terminated string, without its NUL. -/
@[ext]
structure CString where
  bytes : List UInt8
  noNul : nul ∉ bytes
  deriving DecidableEq, Repr

/-- The bytes before the first NUL. -/
def beforeNul (l : List UInt8) : List UInt8 :=
  l.takeWhile (· != nul)

theorem nul_not_mem_beforeNul (l : List UInt8) : nul ∉ beforeNul l := by
  intro h
  simpa using List.mem_takeWhile_imp h

theorem beforeNul_of_not_mem {l : List UInt8} (h : nul ∉ l) : beforeNul l = l := by
  rw [beforeNul, List.takeWhile_eq_self_iff]
  intro c hc
  simpa using fun h0 : c = nul => h (h0 ▸ hc)

theorem beforeNul_append {a : List UInt8} (h : nul ∉ a) (b : List UInt8) :
    beforeNul (a ++ b) = a ++ beforeNul b := by
  refine List.takeWhile_append_of_pos fun c hc => ?_
  simpa using fun h0 : c = nul => h (h0 ▸ hc)

theorem beforeNul_isPrefix (l : List UInt8) : beforeNul l <+: l :=
  List.takeWhile_prefix _

theorem length_beforeNul_eq_iff {l : List UInt8} :
    (beforeNul l).length = l.length ↔ nul ∉ l := by
  refine ⟨fun h => ?_, fun h => by rw [beforeNul_of_not_mem h]⟩
  rw [← (beforeNul_isPrefix l).eq_of_length h]
  exact nul_not_mem_beforeNul l

theorem mem_of_mem_beforeNul {l : List UInt8} {c : UInt8} (h : c ∈ beforeNul l) : c ∈ l :=
  (beforeNul_isPrefix l).subset h

/-- A text is its C string, or its C string, a NUL, and bytes no `char *` reader sees. -/
theorem eq_beforeNul_or (l : List UInt8) :
    l = beforeNul l ∨ ∃ hidden, l = beforeNul l ++ nul :: hidden := by
  cases h : l.dropWhile (· != nul) with
  | nil =>
    left
    conv_lhs => rw [← List.takeWhile_append_dropWhile (p := (· != nul)) (l := l), h]
    simp [beforeNul]
  | cons c r =>
    right
    obtain rfl : c = nul := by simpa using dropWhile_eq_cons h
    refine ⟨r, ?_⟩
    conv_lhs => rw [← List.takeWhile_append_dropWhile (p := (· != nul)) (l := l), h]
    rfl

namespace CString

/-- The C string at the start of `l`. -/
def ofBytes (l : List UInt8) : CString :=
  ⟨beforeNul l, nul_not_mem_beforeNul l⟩

theorem bytes_ofBytes {l : List UInt8} (h : nul ∉ l) : (ofBytes l).bytes = l :=
  beforeNul_of_not_mem h

@[simp] theorem ofBytes_bytes (s : CString) : ofBytes s.bytes = s :=
  CString.ext (bytes_ofBytes s.noNul)

/-- `strlen`. -/
def length (s : CString) : ℕ :=
  s.bytes.length

/-- `strcasecmp(s, t) == 0`. -/
def caseEq (s t : CString) : Bool :=
  CLib.caseEq s.bytes t.bytes

end CString

end CLib
