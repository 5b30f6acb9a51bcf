import Hermes.CLib.Bytes
import Hermes.CLib.Outcome
import Mathlib.Data.List.ReduceOption

/-!
# Character buffers and `strtok_r`

A buffer is a list of cells, a pointer into it an index. A cell is empty until it is
written. Reading an empty cell, or touching one past the end, is undefined, so a function
that returns has read and written inside the buffer and read only what was written.

The text a pointer sees is stated by splitting the buffer there : `pre ++ (cells s ++ some
nul :: rest)` holds the C string `s` at index `pre.length`. Each `string.h` function has one
lemma of this form. `strtokFor` is the loop `for (t = strtok_r(s, sep, &save); t; t =
strtok_r(NULL, sep, &save))`. Its body may overwrite the token it is given. By
`strtokFor_tokens` the loop visits the tokens of the text all the same : no write reaches
the bytes after the token.
-/

namespace CLib

/-- Storage for bytes, each empty until it is written. -/
abbrev Buffer := List (Option UInt8)

/-- What `malloc(n)` returns. -/
def Buffer.uninit (n : ℕ) : Buffer :=
  List.replicate n none

/-- Cells that hold `s`. -/
def cells (s : List UInt8) : Buffer :=
  s.map some

@[simp] theorem length_uninit (n : ℕ) : (Buffer.uninit n).length = n :=
  List.length_replicate

@[simp] theorem length_cells (s : List UInt8) : (cells s).length = s.length :=
  List.length_map some

@[simp] theorem cells_nil : cells [] = [] :=
  rfl

@[simp] theorem cells_cons (c : UInt8) (s : List UInt8) : cells (c :: s) = some c :: cells s :=
  rfl

@[simp] theorem cells_append (s t : List UInt8) : cells (s ++ t) = cells s ++ cells t :=
  List.map_append

/-! ## Loads, stores and scans -/

/-- `b[i]`. -/
def load (b : Buffer) (i : ℕ) : Run UInt8 :=
  match b[i]? with
  | some (some c) => .ok c
  | _ => .error .undefined

/-- `b[i] = c`. -/
def store (b : Buffer) (i : ℕ) (c : UInt8) : Run Buffer :=
  if i < b.length then .ok (b.set i (some c)) else .error .undefined

/-- Number of bytes before the first that fails `p`. -/
def spanCells (p : UInt8 → Bool) : Buffer → Run ℕ
  | some c :: b => if p c then do return (← spanCells p b) + 1 else .ok 0
  | _ => .error .undefined

/-- Number of bytes from `b[i]` on before the first that fails `p`. -/
def span (p : UInt8 → Bool) (b : Buffer) (i : ℕ) : Run ℕ :=
  spanCells p (b.drop i)

/-- Store `src` from `b[i]` on : `strncpy(b + i, src, strlen(src))`. -/
def copyTo (b : Buffer) (i : ℕ) : List UInt8 → Run Buffer
  | [] => .ok b
  | c :: src => do copyTo (← store b i c) (i + 1) src

/-- The first `n` bytes of `b`. -/
def bytesOf (b : Buffer) (n : ℕ) : Run (List UInt8) :=
  if (b.take n).length = n ∧ none ∉ b.take n then .ok (b.take n).reduceOption
  else .error .undefined

/-! ## `string.h` -/

/-- `strlen`. -/
def strlen (b : Buffer) (i : ℕ) : Run ℕ :=
  span (· != nul) b i

/-- The string at `b[i]`, as `strdup` copies it. -/
def stringAt (b : Buffer) (i : ℕ) : Run CString := do
  let n ← strlen b i
  return CString.ofBytes ((b.drop i).take n).reduceOption

/-- `strchr`. -/
def strchr (b : Buffer) (i : ℕ) (c : UInt8) : Run (Option ℕ) := do
  let n ← span (fun x => x != nul && x != c) b i
  return if (← load b (i + n)) = c then some (i + n) else none

/-- `strtok_r` from `s` : the buffer, the token and the save pointer. -/
def strtokR (sep : UInt8 → Bool) (b : Buffer) (s : ℕ) : Run (Buffer × Option ℕ × ℕ) := do
  let s := s + (← span (fun c => c != nul && sep c) b s)
  if (← load b s) = nul then
    return (b, none, s)
  let stop := s + (← span (fun c => c != nul && !sep c) b s)
  if (← load b stop) = nul then
    return (b, some s, stop)
  return (← store b stop nul, some s, stop + 1)

/-- The `for` loop over `strtok_r`. The body gets the buffer, the token and the loop's
state, and says whether to go on. `fuel` bounds the number of calls. -/
def strtokFor {σ : Type} (sep : UInt8 → Bool) (body : Buffer → ℕ → σ → Run (Buffer × σ × Bool)) :
    ℕ → Buffer → ℕ → σ → Run (Buffer × σ)
  | 0, _, _, _ => .error .undefined
  | fuel + 1, b, s, st => do
    let (b, token, save) ← strtokR sep b s
    match token with
    | none => return (b, st)
    | some t =>
      let (b, st, go) ← body b t st
      if go then strtokFor sep body fuel b save st else return (b, st)

/-! ## At a split buffer -/

section Split

variable {i : ℕ} {p : UInt8 → Bool}

theorem load_at (pre : Buffer) (c : UInt8) (rest : Buffer) (hi : i = pre.length) :
    load (pre ++ some c :: rest) i = .ok c := by
  subst hi
  simp [load]

theorem store_at (pre : Buffer) (o : Option UInt8) (rest : Buffer) (c : UInt8)
    (hi : i = pre.length) : store (pre ++ o :: rest) i c = .ok (pre ++ some c :: rest) := by
  subst hi
  simp [store]

theorem store_ok {b : Buffer} (hi : i < b.length) (c : UInt8) :
    ∃ b', store b i c = .ok b' ∧ b'.length = b.length :=
  ⟨_, if_pos hi, List.length_set⟩

/-- A store leaves the cells behind it as they are. -/
theorem drop_of_store {b b' : Buffer} {c : UInt8} {k : ℕ} (h : store b i c = .ok b')
    (hi : i < k) : b'.drop k = b.drop k := by
  unfold store at h
  split at h
  · cases h
    rw [List.drop_set, if_pos hi]
  · cases h

theorem spanCells_cells (rest : Buffer) {d : UInt8} (hd : p d = false) :
    ∀ s : List UInt8, spanCells p (cells s ++ some d :: rest) = .ok (s.takeWhile p).length
  | [] => by simp [spanCells, hd]
  | c :: s => by
    have ih := spanCells_cells rest hd s
    by_cases hc : p c = true <;> simp [spanCells, hc, ih]

/-- A scan of a text counts its longest start that passes the test. -/
theorem span_takeWhile (pre : Buffer) (s : List UInt8) (d : UInt8) (rest : Buffer)
    (hd : p d = false) (hi : i = pre.length) :
    span p (pre ++ (cells s ++ some d :: rest)) i = .ok (s.takeWhile p).length := by
  subst hi
  rw [span, List.drop_left, spanCells_cells rest hd s]

/-- A scan stops at the first byte that fails the test. -/
theorem span_at (pre : Buffer) {s : List UInt8} (d : UInt8) (rest : Buffer)
    (hs : ∀ c ∈ s, p c = true) (hd : p d = false) (hi : i = pre.length) :
    span p (pre ++ (cells s ++ some d :: rest)) i = .ok s.length := by
  rw [span_takeWhile pre s d rest hd hi, List.takeWhile_eq_self_iff.2 hs]

theorem strlen_at (pre : Buffer) {s : List UInt8} (rest : Buffer) (hs : nul ∉ s)
    (hi : i = pre.length) : strlen (pre ++ (cells s ++ some nul :: rest)) i = .ok s.length :=
  span_at pre nul rest (fun c hc => by simpa using fun h : c = nul => hs (h ▸ hc)) (by simp) hi

theorem reduceOption_cells (s : List UInt8) : (cells s).reduceOption = s := by
  simp [cells, List.reduceOption, List.filterMap_map]

theorem stringAt_at (pre : Buffer) {s : List UInt8} (rest : Buffer) (hs : nul ∉ s)
    (hi : i = pre.length) :
    stringAt (pre ++ (cells s ++ some nul :: rest)) i = .ok (CString.ofBytes s) := by
  have htake : (cells s ++ some nul :: rest).take s.length = cells s :=
    List.take_left' (length_cells s)
  rw [stringAt, strlen_at pre rest hs hi, hi, List.drop_left]
  simp [htake, reduceOption_cells]

/-- What `strchr` reads of a string `s` without the byte it looks for. -/
theorem strchr_at (pre : Buffer) {s : List UInt8} {c d : UInt8} (rest : Buffer)
    (hs : ∀ x ∈ s, x ≠ nul ∧ x ≠ c) (hd : d = nul ∨ d = c) (hi : i = pre.length) :
    strchr (pre ++ (cells s ++ some d :: rest)) i c =
      .ok (if d = c then some (i + s.length) else none) := by
  have hspan : span (fun x => x != nul && x != c) (pre ++ (cells s ++ some d :: rest)) i =
      .ok s.length :=
    span_at pre d rest (fun x hx => by simpa using hs x hx) (by rcases hd with rfl | rfl <;> simp) hi
  have hload := load_at (pre ++ cells s) d rest (i := i + s.length) (by simp [hi])
  rw [List.append_assoc] at hload
  simp [strchr, hspan, hload]

/-- A string that never ends. -/
theorem stringAt_unterminated {s : List UInt8} (hs : nul ∉ s) :
    stringAt (cells s) 0 = .error .undefined := by
  have hspan : ∀ s : List UInt8, nul ∉ s → spanCells (· != nul) (cells s) = .error .undefined := by
    intro s hs
    induction s with
    | nil => rfl
    | cons c s ih =>
      rw [List.mem_cons, not_or] at hs
      have hc : (c != nul) = true := bne_iff_ne.2 (Ne.symm hs.1)
      rw [cells_cons, spanCells, if_pos hc, ih hs.2, error_bind]
  rw [stringAt, strlen, span, List.drop_zero, hspan s hs, error_bind]

theorem copyTo_at (rest : Buffer) : ∀ {src : List UInt8} {old : Buffer} (pre : Buffer) {i : ℕ},
    old.length = src.length → i = pre.length →
      copyTo (pre ++ (old ++ rest)) i src = .ok (pre ++ (cells src ++ rest))
  | [], old, pre, i, hlen, _ => by
    obtain rfl := List.length_eq_zero_iff.1 hlen
    rfl
  | c :: src, [], pre, i, hlen, _ => by simp at hlen
  | c :: src, o :: old, pre, i, hlen, hi => by
    have hstore := store_at pre o (old ++ rest) c hi
    have hlen' : old.length = src.length := by simpa using hlen
    have ih := copyTo_at rest (pre ++ [some c]) hlen' (i := i + 1) (by simp [hi])
    rw [copyTo, List.cons_append, hstore]
    simpa using ih

theorem bytesOf_cells (s : List UInt8) (rest : Buffer) :
    bytesOf (cells s ++ rest) s.length = .ok s := by
  have htake : (cells s ++ rest).take s.length = cells s := List.take_left' (length_cells s)
  rw [bytesOf, htake, if_pos ⟨length_cells s, by simp [cells]⟩, reduceOption_cells]

/-- The first bytes of a text. -/
theorem bytesOf_take {s : List UInt8} {k : ℕ} (hk : k ≤ s.length) (rest : Buffer) :
    bytesOf (cells s ++ rest) k = .ok (s.take k) := by
  have hlen : (s.take k).length = k := List.length_take_of_le hk
  have h := bytesOf_cells (s.take k) (cells (s.drop k) ++ rest)
  rwa [← List.append_assoc, ← cells_append, List.take_append_drop, hlen] at h

/-- A copy into a buffer that has room for it. -/
theorem copyTo_room (pre old : Buffer) (src : List UInt8) (h : src.length ≤ old.length)
    (hi : i = pre.length) :
    copyTo (pre ++ old) i src = .ok (pre ++ (cells src ++ old.drop src.length)) := by
  conv_lhs => rw [← List.take_append_drop src.length old]
  exact copyTo_at _ pre (List.length_take_of_le h) hi

/-- A copy behind the bytes that are there. -/
theorem copyTo_append (s src : List UInt8) (old : Buffer) (h : src.length ≤ old.length)
    (hi : i = s.length) :
    copyTo (cells s ++ old) i src = .ok (cells (s ++ src) ++ old.drop src.length) := by
  rw [copyTo_room (cells s) old src h (by rw [hi, length_cells]), cells_append, List.append_assoc]

/-- A copy past the end of the buffer. -/
theorem copyTo_overflow : ∀ {src : List UInt8} {b : Buffer} {i : ℕ}, src ≠ [] →
    b.length < i + src.length → copyTo b i src = .error .undefined
  | [], _, _, hne, _ => absurd rfl hne
  | c :: src, b, i, _, h => by
    rw [List.length_cons] at h
    by_cases hi : i < b.length
    · have hsrc : src ≠ [] := by
        rintro rfl
        rw [List.length_nil] at h
        omega
      have ih := copyTo_overflow (b := b.set i (some c)) (i := i + 1) hsrc
        (by rw [List.length_set]; omega)
      rw [copyTo, store, if_pos hi, ok_bind, ih]
    · rw [copyTo, store, if_neg hi, error_bind]

theorem store_eq_copyTo (b : Buffer) (i : ℕ) (c : UInt8) : store b i c = copyTo b i [c] := by
  rw [copyTo, funext fun b : Buffer => copyTo.eq_1 b (i + 1)]
  exact (bind_pure (store b i c)).symm

end Split

/-! ## `strtok_r` at a split buffer -/

section Strtok

variable {sep : UInt8 → Bool} {seps t : List UInt8}

/-- Only separators are left : no token. -/
theorem strtokR_none (pre rest : Buffer) (hs : ∀ c ∈ seps, c ≠ nul ∧ sep c = true) :
    strtokR sep (pre ++ (cells seps ++ some nul :: rest)) pre.length =
      .ok (pre ++ (cells seps ++ some nul :: rest), none, pre.length + seps.length) := by
  have hspan : span (fun c => c != nul && sep c) (pre ++ (cells seps ++ some nul :: rest))
      pre.length = .ok seps.length :=
    span_at pre nul rest (fun c hc => by simpa using hs c hc) (by simp) rfl
  have hload := load_at (pre ++ cells seps) nul rest (i := pre.length + seps.length) (by simp)
  rw [List.append_assoc] at hload
  simp [strtokR, hspan, hload]

/-- A token that ends at `d`, a separator or the NUL of the text. A separator becomes a NUL
and the next call starts behind it. -/
theorem strtokR_token (pre : Buffer) {d : UInt8} (rest : Buffer)
    (hs : ∀ c ∈ seps, c ≠ nul ∧ sep c = true) (hne : t ≠ [])
    (ht : ∀ c ∈ t, c ≠ nul ∧ sep c = false) (hd : d = nul ∨ sep d = true) :
    strtokR sep (pre ++ (cells seps ++ (cells t ++ some d :: rest))) pre.length =
      .ok (pre ++ (cells seps ++ (cells t ++ some nul :: rest)), some (pre.length + seps.length),
        pre.length + seps.length + t.length + if d = nul then 0 else 1) := by
  obtain ⟨a, t', rfl⟩ := List.exists_cons_of_ne_nil hne
  have ha := ht a (by simp)
  have hspan : span (fun c => c != nul && sep c)
      (pre ++ (cells seps ++ some a :: (cells t' ++ some d :: rest))) pre.length =
        .ok seps.length :=
    span_at pre a _ (fun c hc => by simpa using hs c hc) (by simp [ha.2]) rfl
  have hload := load_at (pre ++ cells seps) a (cells t' ++ some d :: rest)
    (i := pre.length + seps.length) (by simp)
  have hstop : span (fun c => c != nul && !sep c)
      (pre ++ cells seps ++ (cells (a :: t') ++ some d :: rest)) (pre.length + seps.length) =
        .ok (a :: t').length :=
    span_at (pre ++ cells seps) d rest (fun c hc => by simpa using ht c hc)
      (by rcases hd with rfl | hd <;> simp [*]) (by simp)
  have hi : pre.length + seps.length + (a :: t').length =
      (pre ++ (cells seps ++ cells (a :: t'))).length := by
    simp
    omega
  have hend := load_at (pre ++ (cells seps ++ cells (a :: t'))) d rest hi
  have hstore := store_at (pre ++ (cells seps ++ cells (a :: t'))) (some d) rest nul hi
  simp only [List.append_assoc, cells_cons, List.cons_append] at hload hstop hend hstore ⊢
  simp only [strtokR, hspan, hload, hstop, hend, hstore, ok_bind, if_neg ha.1]
  split_ifs with h0
  · rw [h0]
    rfl
  · rfl

/-- A call on the text `T` behind `pre` : the separators it skips, the token, and the text `r`
that is left. Behind the token stands the NUL of the text, or one in place of the separator
that ended it. -/
structure CutsToken (sep : UInt8 → Bool) (T : List UInt8) (pre rest : Buffer)
    (seps t r : List UInt8) (rest' : Buffer) (save : ℕ) : Prop where
  skipped : ∀ c ∈ seps, sep c = true
  ne : t ≠ []
  token : ∀ c ∈ t, c ≠ nul ∧ sep c = false
  noNul : nul ∉ r
  tokens_eq : tokens sep T = t :: tokens sep r
  length_eq : (pre ++ cells seps ++ (cells t ++ some nul :: rest')).length =
    (pre ++ (cells T ++ some nul :: rest)).length
  left : r = [] ∧ rest' = rest ∧ save = (pre ++ cells seps ++ cells t).length ∨
    rest' = cells r ++ some nul :: rest ∧ save = (pre ++ cells seps ++ cells t).length + 1

/-- A call returns no token, or cuts one off. -/
theorem strtokR_cases (sep : UInt8 → Bool) {T : List UInt8} (pre rest : Buffer) (hT : nul ∉ T) :
    tokens sep T = [] ∧ (∃ save, strtokR sep (pre ++ (cells T ++ some nul :: rest)) pre.length =
        .ok (pre ++ (cells T ++ some nul :: rest), none, save)) ∨
      ∃ seps t r rest' save, CutsToken sep T pre rest seps t r rest' save ∧
        strtokR sep (pre ++ (cells T ++ some nul :: rest)) pre.length =
          .ok (pre ++ cells seps ++ (cells t ++ some nul :: rest'),
            some (pre ++ cells seps).length, save) := by
  have hmem : ∀ {c}, c ∈ T → c ≠ nul := fun hc h0 => hT (h0 ▸ hc)
  by_cases hall : ∀ c ∈ T, sep c = true
  · exact Or.inl ⟨tokens_seps hall, _, strtokR_none pre rest fun c hc => ⟨hmem hc, hall c hc⟩⟩
  right
  obtain ⟨seps, t, r, rfl, hs, hne, ht, hr⟩ := exists_token T hall
  have hs' : ∀ c ∈ seps, c ≠ nul ∧ sep c = true := fun c hc => ⟨hmem (by simp [hc]), hs c hc⟩
  have ht' : ∀ c ∈ t, c ≠ nul ∧ sep c = false := fun c hc => ⟨hmem (by simp [hc]), ht c hc⟩
  have htokens := tokens_of_split hs hne ht hr
  rcases hr with rfl | ⟨d, r, rfl, hd⟩
  · -- the token ends at the NUL of the text
    refine ⟨seps, t, [], rest, _, ⟨hs, hne, ht', by simp, htokens, by simp,
      Or.inl ⟨rfl, rfl, rfl⟩⟩, ?_⟩
    have hrun := strtokR_token pre rest hs' hne ht' (Or.inl rfl)
    rw [if_pos rfl] at hrun
    simpa [Nat.add_assoc] using hrun
  · -- the token ends at a separator, which becomes a NUL
    rw [tokens_cons_sep hd] at htokens
    refine ⟨seps, t, r, _, _, ⟨hs, hne, ht', fun h => hmem (by simp [h]) rfl, htokens, by simp,
      Or.inr ⟨rfl, rfl⟩⟩, ?_⟩
    have hrun := strtokR_token pre (cells r ++ some nul :: rest) hs' hne ht' (Or.inr hd)
    rw [if_neg (hmem (by simp))] at hrun
    simpa [Nat.add_assoc] using hrun

section CutsToken

variable {T r : List UInt8} {pre pre' rest rest' : Buffer} {save : ℕ}
  (h : CutsToken sep T pre rest seps t r rest' save)
include h

theorem CutsToken.ne_nil : T ≠ [] := by
  rintro rfl
  simpa using h.tokens_eq

theorem CutsToken.token_noNul : nul ∉ t :=
  fun hmem => (h.token nul hmem).1 rfl

/-- The text of the next call, when what stood up to the end of the token is overwritten. -/
theorem CutsToken.next (hlen : pre'.length = (pre ++ cells seps ++ cells t).length) :
    ∃ pre₂, pre' ++ some nul :: rest' = pre₂ ++ (cells r ++ some nul :: rest) ∧
      save = pre₂.length ∧ (pre₂ ++ cells r).length = (pre ++ cells T).length ∧
      r.length < T.length ∧ (r ≠ [] → pre₂ = pre' ++ [some nul]) := by
  have hpos := List.length_pos_iff.2 h.ne
  have hlength := h.length_eq
  rcases h.left with ⟨rfl, rfl, rfl⟩ | ⟨rfl, rfl⟩
  · simp only [List.length_append, List.length_cons, length_cells] at hlength hlen ⊢
    exact ⟨pre', by simp, by omega, by simp; omega, by simp; omega, fun h => absurd rfl h⟩
  · simp only [List.length_append, List.length_cons, length_cells] at hlength hlen ⊢
    exact ⟨pre' ++ [some nul], by simp, by simp; omega, by simp; omega, by omega, fun _ => rfl⟩

end CutsToken

end Strtok

/-! ## The loop rule -/

section Loop

variable {σ : Type} {sep : UInt8 → Bool} {body : Buffer → ℕ → σ → Run (Buffer × σ × Bool)}

/-- The loop rule. Let the body, on a buffer that holds the token `t` behind `pre`, take the
state `st` to `step st t`, keep the bytes after the token and stay inside what is before
them. It may use `Q st pre`, which holds of the first token and behind every later one,
where the NUL that ended the token before it stands before the separators. Then the loop
over the text `T` takes `st` to `foldUntil step st (tokens sep T)`. -/
theorem strtokFor_tokens {step : σ → List UInt8 → σ × Bool} {Q : σ → Buffer → Prop}
    (hbody : ∀ st pre t rest, Q st pre → t ≠ [] → (∀ c ∈ t, c ≠ nul ∧ sep c = false) →
      ∃ pre', pre'.length = (pre ++ cells t).length ∧
        body (pre ++ (cells t ++ some nul :: rest)) pre.length st =
          .ok (pre' ++ some nul :: rest, step st t))
    (hnext : ∀ st t st' pre seps, step st t = (st', true) → (∀ c ∈ seps, sep c = true) →
      Q st' (pre ++ some nul :: cells seps)) (rest : Buffer) :
    ∀ (fuel : ℕ) (T : List UInt8) (pre : Buffer) (st : σ), T.length < fuel → nul ∉ T →
      (T ≠ [] → ∀ seps, (∀ c ∈ seps, sep c = true) → Q st (pre ++ cells seps)) →
      ∃ pre', pre'.length = (pre ++ cells T).length ∧
        strtokFor sep body fuel (pre ++ (cells T ++ some nul :: rest)) pre.length st =
          .ok (pre' ++ some nul :: rest, foldUntil step st (tokens sep T))
  | 0, T, _, _, hfuel, _, _ => by simp at hfuel
  | fuel + 1, T, pre, st, hfuel, hT, hQ => by
    rcases strtokR_cases sep pre rest hT with ⟨hnone, save, htoken⟩ |
      ⟨seps, t, r, rest', save, hcut, htoken⟩
    · refine ⟨pre ++ cells T, rfl, ?_⟩
      rw [strtokFor, htoken, hnone, List.append_assoc]
      rfl
    obtain ⟨pre', hlen, hrun⟩ := hbody st (pre ++ cells seps) t rest'
      (hQ hcut.ne_nil seps hcut.skipped) hcut.ne hcut.token
    obtain ⟨pre₂, hbuffer, rfl, hlen₂, hshorter, hpre₂⟩ := hcut.next hlen
    rw [hbuffer] at hrun
    have hiter : strtokFor sep body (fuel + 1) (pre ++ (cells T ++ some nul :: rest)) pre.length
        st = if (step st t).2 then
          strtokFor sep body fuel (pre₂ ++ (cells r ++ some nul :: rest)) pre₂.length (step st t).1
        else .ok (pre₂ ++ (cells r ++ some nul :: rest), (step st t).1) := by
      simp only [strtokFor, htoken, hrun, ok_bind, pure_eq_ok]
    rw [hiter, hcut.tokens_eq]
    rcases hstep : step st t with ⟨st', go⟩
    cases go with
    | false =>
      rw [foldUntil_stop hstep, ← List.append_assoc]
      exact ⟨pre₂ ++ cells r, hlen₂, rfl⟩
    | true =>
      rw [foldUntil_go hstep]
      obtain ⟨pre₃, hlen₃, hrest⟩ := strtokFor_tokens hbody hnext rest fuel r pre₂ st'
        (by omega) hcut.noNul fun hr seps' hs' => by
          simpa [hpre₂ hr] using hnext st t st' pre' seps' hstep hs'
      exact ⟨pre₃, hlen₃.trans hlen₂, hrest⟩

/-- The calls of the body in a run of the loop from the buffer, the save pointer and the state
given : the buffer, the token and the state of each. -/
inductive StrtokCall (sep : UInt8 → Bool) (body : Buffer → ℕ → σ → Run (Buffer × σ × Bool)) :
    Buffer → ℕ → σ → Buffer → ℕ → σ → Prop
  | here {b b₁ : Buffer} {s t save : ℕ} {st : σ}
      (htoken : strtokR sep b s = .ok (b₁, some t, save)) : StrtokCall sep body b s st b₁ t st
  | next {b b₁ b₂ bc : Buffer} {s t save tc : ℕ} {st st₂ stc : σ}
      (htoken : strtokR sep b s = .ok (b₁, some t, save))
      (hbody : body b₁ t st = .ok (b₂, st₂, true))
      (hcall : StrtokCall sep body b₂ save st₂ bc tc stc) : StrtokCall sep body b s st bc tc stc

/-- What the body is given, under the hypotheses of the loop rule : a token of the text, behind
something that `Q` holds of, in a buffer of the same length. -/
theorem StrtokCall.at_token {step : σ → List UInt8 → σ × Bool} {Q : σ → Buffer → Prop}
    (hbody : ∀ st pre t rest, Q st pre → t ≠ [] → (∀ c ∈ t, c ≠ nul ∧ sep c = false) →
      ∃ pre', pre'.length = (pre ++ cells t).length ∧
        body (pre ++ (cells t ++ some nul :: rest)) pre.length st =
          .ok (pre' ++ some nul :: rest, step st t))
    (hnext : ∀ st t st' pre seps, step st t = (st', true) → (∀ c ∈ seps, sep c = true) →
      Q st' (pre ++ some nul :: cells seps))
    {b bc : Buffer} {s tc : ℕ} {st stc : σ} (h : StrtokCall sep body b s st bc tc stc) :
    ∀ (T : List UInt8) (pre rest : Buffer), b = pre ++ (cells T ++ some nul :: rest) →
      s = pre.length → nul ∉ T →
      (T ≠ [] → ∀ seps, (∀ c ∈ seps, sep c = true) → Q st (pre ++ cells seps)) →
      ∃ t ∈ tokens sep T, ∃ pre' rest', bc = pre' ++ (cells t ++ some nul :: rest') ∧
        tc = pre'.length ∧ nul ∉ t ∧ Q stc pre' ∧ bc.length = b.length := by
  induction h with
  | here htoken =>
    rintro T pre rest rfl rfl hT hQ
    rcases strtokR_cases sep pre rest hT with ⟨-, save, hnone⟩ |
      ⟨seps, t, r, rest', save, hcut, hcall⟩
    · rw [hnone] at htoken
      cases htoken
    · rw [hcall] at htoken
      cases htoken
      exact ⟨t, by simp [hcut.tokens_eq], _, rest', rfl, rfl, hcut.token_noNul,
        hQ hcut.ne_nil seps hcut.skipped, hcut.length_eq⟩
  | next htoken hrun _ ih =>
    rintro T pre rest rfl rfl hT hQ
    rcases strtokR_cases sep pre rest hT with ⟨-, save, hnone⟩ |
      ⟨seps, t, r, rest', save, hcut, hcall⟩
    · rw [hnone] at htoken
      cases htoken
    rw [hcall] at htoken
    cases htoken
    obtain ⟨pre', hlen, hrun'⟩ := hbody _ _ t rest' (hQ hcut.ne_nil seps hcut.skipped) hcut.ne
      hcut.token
    obtain ⟨pre₂, hbuffer, hsave, hlen₂, -, hpre₂⟩ := hcut.next hlen
    rw [hrun'] at hrun
    obtain ⟨rfl, hstep⟩ := Prod.mk.inj (Except.ok.inj hrun)
    obtain ⟨t', hmem, pre₃, rest₃, hb, htc, hnul, hQ', hlen₃⟩ :=
      ih r pre₂ rest hbuffer hsave hcut.noNul fun hr seps' hs' => by
        simpa [hpre₂ hr] using hnext _ t _ pre' seps' hstep hs'
    refine ⟨t', by simp [hcut.tokens_eq, hmem], pre₃, rest₃, hb, htc, hnul, hQ', hlen₃.trans ?_⟩
    rw [hbuffer]
    simp only [List.length_append, List.length_cons] at hlen₂ ⊢
    omega

end Loop

end CLib
