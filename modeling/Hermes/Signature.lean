import Hermes.Md5

/-!
# Signatures as text

`md5_sig_to_string` writes the two hexadecimal digits of each byte of a signature, as long as
two more bytes fit, and a NUL if there is room for it. `md5_sig_from_string` looks the digits
up again. It knows lower case only, and takes a NUL for a digit of value sixteen.
-/

open CLib

namespace Hermes

/-- `HEX_STRING`. -/
def hexString : List UInt8 :=
  ascii "0123456789abcdef"

/-- `HEX_STRING[n]`. -/
def hexDigit (n : ℕ) : UInt8 :=
  hexString.getD n nul

/-- The loop of `md5_sig_to_string` over `n` bytes, with `str_p` at `p`. -/
def sigToStringLoop (strLen : ℤ) : ℕ → Buffer → Buffer → ℕ → Run (Buffer × ℕ)
  | 0, _, str, p => .ok (str, p)
  | n + 1, sig, str, p => do
    let c ← load sig 0
    if (p : ℤ) + 1 ≥ strLen then
      return (str, p)
    else
      let str ← store str p (hexDigit (c.toNat / 16))
      let str ← store str (p + 1) (hexDigit (c.toNat % 16))
      sigToStringLoop strLen n (sig.drop 1) str (p + 2)

/-- `md5_sig_to_string`. -/
def md5SigToString (signature str : Buffer) (strLen : ℤ) : Run Buffer := do
  let (str, p) ← sigToStringLoop strLen 16 signature str 0
  if (p : ℤ) < strLen then store str p nul else return str

/-- `strchr(hex, c) - hex`. Nothing is said of a difference to `NULL`. -/
def hexIndex (c : UInt8) : Run ℕ := do
  match ← strchr (cells hexString ++ [some nul]) 0 c with
  | some i => return i
  | none => .error .undefined

/-- The loop of `md5_sig_from_string` for `n` bytes, with `str_p` at `p`. -/
def sigFromStringLoop (str : Buffer) : ℕ → ℕ → Run (List UInt8)
  | 0, _ => .ok []
  | n + 1, p => do
    let high ← hexIndex (← load str p)
    let low ← hexIndex (← load str (p + 1))
    return (high * 16 + low).toUInt8 :: (← sigFromStringLoop str n (p + 2))

/-- `md5_sig_from_string`. -/
def md5SigFromString (str : Buffer) : Run (List UInt8) :=
  sigFromStringLoop str 16 0

/-- The digits of a signature. -/
def hexText (sig : List UInt8) : List UInt8 :=
  sig.flatMap fun c => [hexDigit (c.toNat / 16), hexDigit (c.toNat % 16)]

@[simp] theorem hexText_nil : hexText [] = [] :=
  rfl

@[simp] theorem hexText_cons (c : UInt8) (sig : List UInt8) :
    hexText (c :: sig) = hexDigit (c.toNat / 16) :: hexDigit (c.toNat % 16) :: hexText sig :=
  rfl

theorem length_hexText (sig : List UInt8) : (hexText sig).length = 2 * sig.length := by
  induction sig with
  | nil => rfl
  | cons c sig ih =>
    rw [hexText_cons, List.length_cons, List.length_cons, List.length_cons, ih]
    omega

/-- The digits are found where they stand. -/
theorem hexIndex_hexDigit {n : ℕ} (hn : n < 16) : hexIndex (hexDigit n) = .ok n := by
  have hall : ∀ n ∈ List.range 16, hexIndex (hexDigit n) = .ok n := by decide
  exact hall n (List.mem_range.2 hn)

theorem hexDigit_ne_nul {n : ℕ} (hn : n < 16) : hexDigit n ≠ nul := by
  have hall : ∀ n ∈ List.range 16, hexDigit n ≠ nul := by decide
  exact hall n (List.mem_range.2 hn)

theorem nul_notMem_hexText (sig : List UInt8) : nul ∉ hexText sig := by
  induction sig with
  | nil => simp
  | cons c sig ih =>
    have hc := c.toNat_lt
    have hhigh := hexDigit_ne_nul (n := c.toNat / 16) (by omega)
    have hlow := hexDigit_ne_nul (n := c.toNat % 16) (by omega)
    simp only [hexText_cons, List.mem_cons, not_or]
    exact ⟨hhigh.symm, hlow.symm, ih⟩

/-! ## Writing -/

/-- The loop writes pairs of digits behind `done` as long as two bytes fit. -/
theorem sigToStringLoop_ok (strLen : ℕ) : ∀ (sig done : List UInt8) (old rest : Buffer),
    strLen ≤ done.length + old.length →
      sigToStringLoop strLen sig.length (cells sig ++ rest) (cells done ++ old) done.length =
        .ok (cells (done ++ hexText (sig.take ((strLen - done.length) / 2))) ++
          old.drop (2 * min sig.length ((strLen - done.length) / 2)),
          done.length + 2 * min sig.length ((strLen - done.length) / 2))
  | [], _, _, _, _ => by simp [sigToStringLoop]
  | c :: sig, done, old, rest, hroom => by
    have hload : load (cells (c :: sig) ++ rest) 0 = .ok c := rfl
    rw [List.length_cons, sigToStringLoop, hload, ok_bind]
    split_ifs with hfull
    · have hzero : (strLen - done.length) / 2 = 0 := by omega
      rw [hzero]
      simp
    · obtain ⟨k, hk⟩ : ∃ k, (strLen - done.length) / 2 = k + 1 :=
        ⟨(strLen - done.length) / 2 - 1, by omega⟩
      have hnext : (strLen - (done.length + 2)) / 2 = k := by omega
      have hhigh := copyTo_append done [hexDigit (c.toNat / 16)] old
        (by simp; omega) rfl
      have hlow := copyTo_append (done ++ [hexDigit (c.toNat / 16)]) [hexDigit (c.toNat % 16)]
        (old.drop 1) (i := done.length + 1)
        (by simp; omega) (by simp)
      rw [← store_eq_copyTo, List.length_singleton] at hhigh hlow
      have ih := sigToStringLoop_ok strLen sig
        (done ++ [hexDigit (c.toNat / 16)] ++ [hexDigit (c.toNat % 16)]) (old.drop 2) rest
        (by simp; omega)
      simp only [List.length_append, List.length_singleton, Nat.add_assoc, Nat.reduceAdd, hnext]
        at ih
      rw [hhigh, ok_bind, hlow, ok_bind, List.drop_drop, cells_cons, List.cons_append,
        List.drop_succ_cons, List.drop_zero, ih, hk, List.take_succ_cons, hexText_cons,
        List.drop_drop]
      congr 2
      · congr 2
        · simp
        · omega
      · omega

/-- What `md5_sig_to_string` writes for any length : as many digits as fit in pairs, then a NUL
when there is room for one. The bytes behind it are left alone. -/
theorem md5SigToString_eq {sig : List UInt8} {str : Buffer} {strLen : ℕ} (hsig : sig.length = 16)
    (hroom : strLen ≤ str.length) : md5SigToString (cells sig) str strLen =
      .ok (cells (hexText (sig.take (strLen / 2)) ++
          if 2 * min 16 (strLen / 2) < strLen then [nul] else []) ++
        str.drop (2 * min 16 (strLen / 2) + if 2 * min 16 (strLen / 2) < strLen then 1 else 0)) := by
  have hloop := sigToStringLoop_ok strLen sig [] str [] (by simpa using hroom)
  simp only [hsig, List.append_nil, cells_nil, List.nil_append, List.length_nil, Nat.sub_zero,
    Nat.zero_add] at hloop
  rw [md5SigToString, hloop, ok_bind]
  have hcast : ((2 * min 16 (strLen / 2) : ℕ) : ℤ) < strLen ↔ 2 * min 16 (strLen / 2) < strLen := by
    omega
  have htake : (hexText (sig.take (strLen / 2))).length = 2 * min 16 (strLen / 2) := by
    rw [length_hexText, List.length_take, hsig, Nat.min_comm]
  simp only [hcast]
  split_ifs with hnul
  · rw [store_eq_copyTo, copyTo_append _ _ _ (by simp; omega) htake.symm, List.drop_drop]
    rfl
  · simp

/-! ## Reading back -/

theorem sigFromStringLoop_hexText (rest : Buffer) : ∀ (sig : List UInt8) (pre : Buffer),
    sigFromStringLoop (pre ++ (cells (hexText sig) ++ rest)) sig.length pre.length = .ok sig
  | [], _ => rfl
  | c :: sig, pre => by
    have hc := c.toNat_lt
    have hhigh := load_at pre (hexDigit (c.toNat / 16))
      (some (hexDigit (c.toNat % 16)) :: (cells (hexText sig) ++ rest)) rfl
    have hlow := load_at (pre ++ [some (hexDigit (c.toNat / 16))]) (hexDigit (c.toNat % 16))
      (cells (hexText sig) ++ rest) (i := pre.length + 1) (by simp)
    have ih := sigFromStringLoop_hexText rest sig
      (pre ++ [some (hexDigit (c.toNat / 16)), some (hexDigit (c.toNat % 16))])
    have hbyte : (c.toNat / 16 * 16 + c.toNat % 16).toUInt8 = c := by
      rw [Nat.mul_comm, Nat.div_add_mod]
      simp
    simp only [List.append_assoc, List.cons_append, List.nil_append, List.length_append,
      List.length_cons, List.length_nil, Nat.zero_add, Nat.reduceAdd] at hhigh hlow ih
    simp only [hexText_cons, cells_cons, List.cons_append, List.length_cons, sigFromStringLoop,
      hhigh, hlow, ok_bind, hexIndex_hexDigit (n := c.toNat / 16) (by omega),
      hexIndex_hexDigit (n := c.toNat % 16) (by omega), ih, hbyte]
    rfl

/-- A signature written to a string of 33 bytes or more is read back, and it is a C string of its
digits there. -/
theorem md5SigFromString_toString {sig : List UInt8} {str : Buffer} {strLen : ℕ}
    (hsig : sig.length = 16) (hlen : 33 ≤ strLen) (hroom : strLen ≤ str.length) :
    ∃ s, md5SigToString (cells sig) str strLen = .ok s ∧ md5SigFromString s = .ok sig ∧
      stringAt s 0 = .ok (CString.ofBytes (hexText sig)) := by
  have hmin : min 16 (strLen / 2) = 16 := by omega
  have htake : sig.take (strLen / 2) = sig := List.take_of_length_le (by omega)
  refine ⟨_, md5SigToString_eq hsig hroom, ?_, ?_⟩
  · have hread := sigFromStringLoop_hexText (some nul :: str.drop 33) sig []
    rw [hsig] at hread
    rw [md5SigFromString, hmin, if_pos (by omega), if_pos (by omega), htake, cells_append,
      List.append_assoc]
    exact hread
  · have hstring := stringAt_at [] (str.drop 33) (nul_notMem_hexText sig) (i := 0) rfl
    rw [hmin, if_pos (by omega), if_pos (by omega), htake, cells_append, List.append_assoc]
    exact hstring

/-- The signature of no bytes. -/
def noBytesSig : List UInt8 :=
  [0xd4, 0x1d, 0x8c, 0xd9, 0x8f, 0x00, 0xb2, 0x04, 0xe9, 0x80, 0x09, 0x98, 0xec, 0xf8, 0x42, 0x7e]

theorem hexText_noBytesSig : hexText noBytesSig = ascii "d41d8cd98f00b204e9800998ecf8427e" := by
  decide

theorem md5SigFromString_toString_noBytes : ∃ s,
    md5SigToString (cells noBytesSig) (Buffer.uninit 40) (40 : ℕ) = .ok s ∧
      md5SigFromString s = .ok noBytesSig ∧
      stringAt s 0 = .ok (CString.ofBytes (ascii "d41d8cd98f00b204e9800998ecf8427e")) := by
  rw [← hexText_noBytesSig]
  exact md5SigFromString_toString (by decide) (by decide) (by decide)

/-- The characters that are looked up. -/
theorem hexIndex_returns_iff (c : UInt8) : (∃ n, hexIndex c = .ok n) ↔ c ∈ hexString ∨ c = nul := by
  constructor
  · rintro ⟨n, hn⟩
    by_contra hnot
    rw [not_or] at hnot
    have hhex : ∀ x ∈ hexString, x ≠ nul := by decide
    have hnone := strchr_at [] [] (s := hexString) (c := c) (d := nul) (i := 0)
      (fun x hx => ⟨hhex x hx, fun h => hnot.1 (h ▸ hx)⟩) (Or.inl rfl) rfl
    rw [if_neg (Ne.symm hnot.2), List.nil_append] at hnone
    rw [hexIndex, hnone] at hn
    cases hn
  · rintro (hc | rfl)
    · have hdigits : ∀ c ∈ hexString, ∃ n ∈ List.range 16, hexDigit n = c := by decide
      obtain ⟨n, hn, rfl⟩ := hdigits c hc
      exact ⟨n, hexIndex_hexDigit (List.mem_range.1 hn)⟩
    · exact ⟨16, by decide⟩

theorem sigFromStringLoop_returns_iff (rest : Buffer) : ∀ (n : ℕ) (text : List UInt8) (pre : Buffer),
    text.length = 2 * n →
      ((∃ sig, sigFromStringLoop (pre ++ (cells text ++ rest)) n pre.length = .ok sig) ↔
        ∀ c ∈ text, c ∈ hexString ∨ c = nul)
  | 0, text, _, hlen => by
    obtain rfl := List.eq_nil_of_length_eq_zero hlen
    simp [sigFromStringLoop]
  | n + 1, [], _, hlen => by simp at hlen
  | n + 1, [_], _, hlen => by simp at hlen; omega
  | n + 1, a :: b :: text, pre, hlen => by
    have hhigh := load_at pre a (some b :: (cells text ++ rest)) rfl
    have hlow := load_at (pre ++ [some a]) b (cells text ++ rest) (i := pre.length + 1) (by simp)
    have ih := sigFromStringLoop_returns_iff rest n text (pre ++ [some a, some b])
      (by simpa [Nat.mul_succ] using hlen)
    simp only [List.append_assoc, List.cons_append, List.nil_append, List.length_append,
      List.length_cons, List.length_nil, Nat.zero_add, Nat.reduceAdd] at hhigh hlow ih
    simp only [← hexIndex_returns_iff] at ih ⊢
    simp only [cells_cons, List.cons_append, sigFromStringLoop, hhigh, hlow, ok_bind, bind_eq_ok,
      List.forall_mem_cons, ← ih]
    constructor
    · rintro ⟨sig, i, hi, j, hj, sig', hsig, -⟩
      exact ⟨⟨i, hi⟩, ⟨j, hj⟩, sig', hsig⟩
    · rintro ⟨⟨i, hi⟩, ⟨j, hj⟩, sig', hsig⟩
      exact ⟨_, i, hi, j, hj, sig', hsig, rfl⟩

/-- `md5_sig_from_string` looks up 32 characters, whatever they are. It goes wrong exactly when
one of them is neither a lower case digit nor NUL. -/
theorem md5SigFromString_returns_iff {text : List UInt8} (hlen : text.length = 32) (rest : Buffer) :
    (∃ sig, md5SigFromString (cells text ++ rest) = .ok sig) ↔
      ∀ c ∈ text, c ∈ hexString ∨ c = nul :=
  sigFromStringLoop_returns_iff rest 16 text [] hlen

end Hermes
