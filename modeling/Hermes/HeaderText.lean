import Hermes.Parser

/-!
# What a header text says

The parser cuts a header in place, with two nested `strtok_r` loops and a trimming that
writes in front of the pointer it is given. `readHeader` reads the same text as a list of
lines and writes nothing : the first line is a list of words, every other line is split at
its first colon and both halves are trimmed.

`hmsParseHeader_eq` says that `__hms_parse_header` computes it. The point is where the
in-place writes land. Trimming an empty key runs backwards over the newlines in front of the
line and stops at the NUL that ended the line before, so the invariant of the outer loop is
that such a NUL stands there (`Guarded`).
-/

open CLib

namespace Hermes

/-! ## The reading of a text -/

/-- The key of a named-header line. -/
def keyText (line : List UInt8) : List UInt8 :=
  trim isspace (line.takeWhile (· != colon))

/-- The value of a named-header line. -/
def valText (line : List UInt8) : List UInt8 :=
  trim isspace ((line.dropWhile (· != colon)).drop 1)

/-- A line gives the length of the body. -/
def IsLength (line : List UInt8) : Prop :=
  caseEq (keyText line) hmsContentLength.bytes = true

instance (line : List UInt8) : Decidable (IsLength line) :=
  inferInstanceAs (Decidable (_ = _))

/-- The first word is the verb, the others are the headers. -/
def readWords (msg : HmsMsg) (verb : List UInt8) (words : List (List UInt8)) : HmsMsg :=
  (words.map CString.ofBytes).foldl hmsMsgAddHeader (hmsMsgSetVerb msg (CString.ofBytes verb))

/-- The message with the named header of a line. -/
def readNamed (msg : HmsMsg) (line : List UInt8) : HmsMsg :=
  hmsMsgAddNamedHeader msg (CString.ofBytes (keyText line)) (CString.ofBytes (valText line))

/-- What one line does. -/
def headerStep (st : HeaderLines) (line : List UInt8) : HeaderLines × Bool :=
  if st.count = 0 then
    match tokens wordSep line with
    | [] => ({ st with erred := true }, false)
    | verb :: words =>
      ({ st with msg := readWords st.msg verb words, count := st.count + 1 }, true)
  else if colon ∈ line then
    if IsLength line then
      if atoi (valText line) = 0 then ({ st with bodyLen := 0, erred := true }, false)
      else
        ({ st with
          msg := readNamed st.msg line
          bodyLen := atoi (valText line)
          count := st.count + 1 }, true)
    else ({ st with msg := readNamed st.msg line, count := st.count + 1 }, true)
  else ({ st with erred := true }, false)

/-- The state before the first line. -/
def headerStart : HeaderLines :=
  ⟨hmsMsgCreate, 0, 0, false⟩

/-- The lines of a text as the parser sees them, up to the first NUL. -/
def headerLines (text : List UInt8) : List (List UInt8) :=
  tokens lineSep (beforeNul text)

/-- The reading of a header text. -/
def readHeader (text : List UInt8) : HeaderLines :=
  foldUntil headerStep headerStart (headerLines text)

/-! ## The verb line -/

/-- What one word does. -/
def verbStep (st : VerbLine) (word : List UInt8) : VerbLine × Bool :=
  if st.count = 0 then
    (⟨hmsMsgSetVerb st.msg (CString.ofBytes word), st.count + 1, true⟩, true)
  else (⟨hmsMsgAddHeader st.msg (CString.ofBytes word), st.count + 1, st.foundVerb⟩, true)

theorem foldUntil_verbStep_pos :
    ∀ (words : List (List UInt8)) {st : VerbLine}, 0 < st.count →
      (foldUntil verbStep st words).msg =
          (words.map CString.ofBytes).foldl hmsMsgAddHeader st.msg ∧
        (foldUntil verbStep st words).foundVerb = st.foundVerb
  | [], _, _ => ⟨rfl, rfl⟩
  | word :: words, st, h => by
    have hstep : verbStep st word =
        (⟨hmsMsgAddHeader st.msg (CString.ofBytes word), st.count + 1, st.foundVerb⟩, true) :=
      if_neg (by omega)
    rw [foldUntil_go hstep]
    exact foldUntil_verbStep_pos words (by simp)

/-- The words of a line, read in order. -/
theorem foldUntil_verbStep (msg : HmsMsg) (verb : List UInt8) (words : List (List UInt8)) :
    (foldUntil verbStep ⟨msg, 0, false⟩ (verb :: words)).msg = readWords msg verb words ∧
      (foldUntil verbStep ⟨msg, 0, false⟩ (verb :: words)).foundVerb = true := by
  have hstep : verbStep ⟨msg, 0, false⟩ verb =
      (⟨hmsMsgSetVerb msg (CString.ofBytes verb), 1, true⟩, true) :=
    rfl
  rw [foldUntil_go hstep]
  exact foldUntil_verbStep_pos words Nat.one_pos

/-- The loop over the words, on a line that stands in a buffer. -/
theorem hmsParseVerbLine_at (msg : HmsMsg) (pre rest : Buffer) {line : List UInt8}
    (hnul : nul ∉ line) :
    ∃ pre', pre'.length = (pre ++ cells line).length ∧
      hmsParseVerbLine msg (pre ++ (cells line ++ some nul :: rest)) pre.length =
        .ok (match tokens wordSep line with
          | [] => (-1, msg, pre' ++ some nul :: rest)
          | verb :: words => (0, readWords msg verb words, pre' ++ some nul :: rest)) := by
  have hbody : ∀ (st : VerbLine) (pre : Buffer) (t : List UInt8) (rest : Buffer), True → t ≠ [] →
      (∀ c ∈ t, c ≠ nul ∧ wordSep c = false) → ∃ pre', pre'.length = (pre ++ cells t).length ∧
        verbLineBody (pre ++ (cells t ++ some nul :: rest)) pre.length st =
          .ok (pre' ++ some nul :: rest, verbStep st t) := by
    intro st pre t rest _ _ ht
    refine ⟨pre ++ cells t, rfl, ?_⟩
    rw [verbLineBody, stringAt_at pre rest (fun h => (ht nul h).1 rfl) rfl, ok_bind,
      List.append_assoc]
    unfold verbStep
    split_ifs <;> rfl
  obtain ⟨pre', hlen, hrun⟩ := strtokFor_tokens (Q := fun _ _ => True) hbody
    (fun _ _ _ _ _ _ _ => trivial) rest
    ((pre ++ (cells line ++ some nul :: rest)).length + 1) line pre ⟨msg, 0, false⟩
    (by simp; omega) hnul fun _ _ _ => trivial
  refine ⟨pre', hlen, ?_⟩
  rw [hmsParseVerbLine, hrun, ok_bind]
  cases tokens wordSep line with
  | nil => rfl
  | cons verb words =>
    obtain ⟨h1, h2⟩ := foldUntil_verbStep msg verb words
    simp [h1, h2]

/-! ## Trimming in place -/

/-- Bytes overwritten by NUL. -/
def blanked (s : List UInt8) : List UInt8 :=
  List.replicate s.length nul

@[simp] theorem length_blanked (s : List UInt8) : (blanked s).length = s.length :=
  List.length_replicate

/-- A blanked tail in front of a NUL is a NUL and something. -/
theorem blanked_append_nul (s : List UInt8) (rest : Buffer) :
    ∃ rest', cells (blanked s) ++ some nul :: rest = some nul :: rest' := by
  cases s with
  | nil => exact ⟨rest, rfl⟩
  | cons c s => exact ⟨_, rfl⟩

/-- The backward loop clears white space up to a byte that is none. -/
theorem clearBack_at (pre rest : Buffer) {c : UInt8} (hc : isspace c = false)
    {sp : List UInt8} (hsp : ∀ x ∈ sp, isspace x = true) :
    clearBack (pre ++ some c :: (cells sp ++ rest)) (pre.length + 1 + sp.length) =
      .ok (pre ++ some c :: (cells (blanked sp) ++ rest)) := by
  induction sp using List.reverseRecOn generalizing rest with
  | nil =>
    have hload := load_at pre c rest rfl
    simp [clearBack, hload, hc, blanked]
  | append_singleton sp x ih =>
    have hi : pre.length + 1 + sp.length = (pre ++ some c :: cells sp).length := by
      simp
      omega
    have hx := hsp x (by simp)
    have hload := load_at (pre ++ some c :: cells sp) x rest hi
    have hstore := store_at (pre ++ some c :: cells sp) (some x) rest nul hi
    have hrest := ih (some nul :: rest) fun y hy => hsp y (by simp [hy])
    have hblank : blanked (sp ++ [x]) = blanked sp ++ [nul] := by
      simp [blanked, List.replicate_succ']
    simp only [List.append_assoc, List.cons_append] at hload hstore
    rw [hblank, List.length_append, List.length_singleton, ← Nat.add_assoc, clearBack]
    simp only [cells_append, cells_cons, cells_nil, List.append_assoc, List.cons_append,
      List.nil_append, hload, hstore, ok_bind, hx, if_true]
    exact hrest

/-- The call skips the white space in front and clears backwards from the end of the text. -/
theorem hmsStrStrip_eq (pre rest : Buffer) {s : List UInt8} {i : ℕ} (hs : nul ∉ s)
    (hi : i = pre.length) : hmsStrStrip (pre ++ (cells s ++ some nul :: rest)) i =
      clearBack (pre ++ (cells s ++ some nul :: rest)) (i + s.length) >>= fun b =>
        .ok (b, i + (s.takeWhile isspace).length) := by
  have hsplit := List.takeWhile_append_dropWhile (p := isspace) (l := s)
  have hspan := span_takeWhile pre s nul rest isspace_nul hi
  have hstrlen : strlen (pre ++ (cells s ++ some nul :: rest))
      (i + (s.takeWhile isspace).length) = .ok (s.dropWhile isspace).length := by
    have hnul : nul ∉ s.dropWhile isspace := fun h => hs ((List.dropWhile_sublist _).mem h)
    have hlen := strlen_at (pre ++ cells (s.takeWhile isspace)) rest hnul
      (i := i + (s.takeWhile isspace).length) (by simp [hi])
    rwa [List.append_assoc, ← List.append_assoc (cells _), ← cells_append, hsplit] at hlen
  have hend : i + (s.takeWhile isspace).length + (s.dropWhile isspace).length = i + s.length := by
    conv_rhs => rw [← hsplit, List.length_append]
    omega
  simp only [hmsStrStrip, hspan, hstrlen, ok_bind, hend, pure_eq_ok]

theorem hmsStrStrip_of {pre rest b : Buffer} {s : List UInt8} {i : ℕ} (hs : nul ∉ s)
    (hi : i = pre.length)
    (hclear : clearBack (pre ++ (cells s ++ some nul :: rest)) (i + s.length) = .ok b) :
    hmsStrStrip (pre ++ (cells s ++ some nul :: rest)) i =
      .ok (b, i + (s.takeWhile isspace).length) := by
  rw [hmsStrStrip_eq pre rest hs hi, hclear, ok_bind]

theorem nul_not_mem_of_isspace {s : List UInt8} (hs : ∀ c ∈ s, isspace c = true) : nul ∉ s :=
  fun h => absurd (hs nul h) (by simp)

/-- A text that is all white space is cleared, and so is the white space before it : the
backward loop runs down to the NUL there. -/
theorem hmsStrStrip_blank (g rest : Buffer) {sp s : List UInt8}
    (hsp : ∀ c ∈ sp, isspace c = true) (hs : ∀ c ∈ s, isspace c = true) :
    hmsStrStrip (g ++ some nul :: (cells sp ++ (cells s ++ some nul :: rest)))
        (g.length + 1 + sp.length) =
      .ok (g ++ some nul :: (cells (blanked (sp ++ s)) ++ some nul :: rest),
        g.length + 1 + sp.length + s.length) := by
  have hboth : ∀ c ∈ sp ++ s, isspace c = true := fun c hc =>
    (List.mem_append.1 hc).elim (hsp c) (hs c)
  have hclear := clearBack_at g (some nul :: rest) isspace_nul hboth
  have hi : g.length + 1 + (sp ++ s).length = g.length + 1 + sp.length + s.length := by
    simp
    omega
  have hpre : g.length + 1 + sp.length = (g ++ some nul :: cells sp).length := by
    simp
    omega
  rw [hi, cells_append, List.append_assoc, ← List.cons_append, ← List.append_assoc] at hclear
  have hrun := hmsStrStrip_of (nul_not_mem_of_isspace hs) hpre hclear
  rw [List.takeWhile_eq_self_iff.2 hs] at hrun
  simpa only [List.append_assoc, List.cons_append] using hrun

/-- A text that is not all white space is trimmed at its own bytes. -/
theorem hmsStrStrip_text (pre rest : Buffer) {a t b : List UInt8}
    (ha : ∀ c ∈ a, isspace c = true) (hb : ∀ c ∈ b, isspace c = true) (ht : Trimmed isspace t)
    (hne : t ≠ []) (hnul : nul ∉ t) :
    hmsStrStrip (pre ++ (cells a ++ (cells t ++ (cells b ++ some nul :: rest)))) pre.length =
      .ok (pre ++ (cells a ++ (cells t ++ (cells (blanked b) ++ some nul :: rest))),
        pre.length + a.length) := by
  have hnul' : nul ∉ a ++ (t ++ b) := by
    simp [nul_not_mem_of_isspace ha, nul_not_mem_of_isspace hb, hnul]
  have hstart : (a ++ (t ++ b)).takeWhile isspace = a := by
    obtain ⟨d, t', rfl⟩ := List.exists_cons_of_ne_nil hne
    rw [List.takeWhile_append_of_pos ha, List.cons_append,
      List.takeWhile_cons_of_neg (by simp [ht.1 d rfl]), List.append_nil]
  have hclear : clearBack (pre ++ (cells (a ++ (t ++ b)) ++ some nul :: rest))
      (pre.length + (a ++ (t ++ b)).length) =
        .ok (pre ++ (cells a ++ (cells t ++ (cells (blanked b) ++ some nul :: rest)))) := by
    obtain ⟨t', c, rfl⟩ := (List.eq_nil_or_concat' t).resolve_left hne
    have hclear := clearBack_at (pre ++ (cells a ++ cells t')) (some nul :: rest)
      (ht.2 c (by simp)) hb
    have hi : (pre ++ (cells a ++ cells t')).length + 1 + b.length =
        pre.length + (a ++ (t' ++ [c] ++ b)).length := by
      simp
      omega
    rw [hi] at hclear
    simpa only [cells_append, cells_cons, cells_nil, List.append_assoc, List.cons_append,
      List.nil_append] using hclear
  have hrun := hmsStrStrip_of hnul' rfl hclear
  rw [hstart] at hrun
  simpa only [cells_append, List.append_assoc] using hrun

/-- Trimming the text `s` that stands behind a NUL and white space. What is written is in
front of the NUL that ends `s`, and not in front of the NUL before it. -/
theorem hmsStrStrip_at (g rest : Buffer) {sp s : List UInt8} (hsp : ∀ c ∈ sp, isspace c = true)
    (hs : nul ∉ s) :
    ∃ p q, p.length + (trim isspace s).length + q.length = sp.length + s.length ∧
      hmsStrStrip (g ++ some nul :: (cells sp ++ (cells s ++ some nul :: rest)))
          (g.length + 1 + sp.length) =
        .ok (g ++ some nul :: (cells p ++ (cells (trim isspace s) ++
          (cells (blanked q) ++ some nul :: rest))), g.length + 1 + p.length) := by
  obtain ⟨a, b, hab, ha, hb⟩ := exists_trim isspace s
  have hlen : s.length = a.length + ((trim isspace s).length + b.length) := by
    simpa using congrArg List.length hab
  by_cases ht : trim isspace s = []
  · have hall : ∀ c ∈ s, isspace c = true := by
      rw [hab, ht, List.nil_append]
      exact fun c hc => (List.mem_append.1 hc).elim (ha c) (hb c)
    refine ⟨blanked (sp ++ s), [], by simp [ht], ?_⟩
    rw [hmsStrStrip_blank g rest hsp hall, ht]
    simp [blanked]
    omega
  · have htext := hmsStrStrip_text (g ++ some nul :: cells sp) rest ha hb
      (trimmed_trim isspace s) ht fun h => hs (mem_of_mem_trim h)
    have hi : (g ++ some nul :: cells sp).length = g.length + 1 + sp.length := by
      simp
      omega
    refine ⟨sp ++ a, b, by simp; omega, ?_⟩
    conv_lhs => rw [hab]
    rw [hi] at htext
    simpa [Nat.add_assoc] using htext

/-! ## A named header -/

/-- In front of the token stand the NUL of the line before and newlines. -/
def Guarded (pre : Buffer) : Prop :=
  ∃ g sp, pre = g ++ some nul :: cells sp ∧ ∀ c ∈ sp, lineSep c = true

theorem isspace_of_lineSep {c : UInt8} (h : lineSep c = true) : isspace c = true := by
  obtain rfl : c = newline := by simpa [lineSep] using h
  exact isspace_newline

/-- A line with a colon splits at the first one. -/
theorem exists_split_colon {line : List UInt8} (h : colon ∈ line) :
    ∃ k v, line = k ++ colon :: v ∧ colon ∉ k ∧ keyText line = trim isspace k ∧
      valText line = trim isspace v := by
  have hnot : line.dropWhile (· != colon) ≠ [] := by
    rw [Ne, List.dropWhile_eq_nil_iff]
    exact fun hall => by simpa using hall colon h
  obtain ⟨d, v, hd⟩ := List.exists_cons_of_ne_nil hnot
  obtain rfl : d = colon := by simpa using dropWhile_eq_cons hd
  refine ⟨line.takeWhile (· != colon), v, ?_, fun hmem => ?_, rfl, by rw [valText, hd]; rfl⟩
  · conv_lhs => rw [← List.takeWhile_append_dropWhile (p := (· != colon)) (l := line), hd]
  · simpa using List.mem_takeWhile_imp hmem

theorem strchr_colon (pre rest : Buffer) {k : List UInt8} (v : List UInt8) (hk : nul ∉ k)
    (hcolon : colon ∉ k) :
    strchr (pre ++ (cells (k ++ colon :: v) ++ some nul :: rest)) pre.length colon =
      .ok (some (pre.length + k.length)) := by
  have := strchr_at pre (cells v ++ some nul :: rest) (s := k) (c := colon) (d := colon)
    (fun x hx => ⟨fun h => hk (h ▸ hx), fun h => hcolon (h ▸ hx)⟩) (Or.inr rfl) rfl
  simpa only [cells_append, cells_cons, List.append_assoc, List.cons_append, if_true] using this

theorem store_colon (pre rest : Buffer) (k v : List UInt8) :
    store (pre ++ (cells (k ++ colon :: v) ++ some nul :: rest)) (pre.length + k.length) nul =
      .ok (pre ++ (cells k ++ some nul :: (cells v ++ some nul :: rest))) := by
  have := store_at (pre ++ cells k) (some colon) (cells v ++ some nul :: rest) nul
    (i := pre.length + k.length) (by simp)
  simpa only [cells_append, cells_cons, List.append_assoc, List.cons_append] using this

/-- The key is trimmed against the line before, then the value against the key. Both are
read back trimmed. -/
theorem stripNamed_at {pre : Buffer} (rest : Buffer) {k v : List UInt8} (hpre : Guarded pre)
    (hk : nul ∉ k) (hv : nul ∉ v) :
    ∃ b pre' key val, pre'.length = pre.length + k.length + 1 + v.length ∧
      hmsStrStrip (pre ++ (cells k ++ some nul :: (cells v ++ some nul :: rest))) pre.length =
        .ok (b, key) ∧
      hmsStrStrip b (pre.length + k.length + 1) = .ok (pre' ++ some nul :: rest, val) ∧
      stringAt (pre' ++ some nul :: rest) key = .ok (CString.ofBytes (trim isspace k)) ∧
      stringAt (pre' ++ some nul :: rest) val = .ok (CString.ofBytes (trim isspace v)) := by
  obtain ⟨g, sp, rfl, hsp⟩ := hpre
  obtain ⟨p, q, hlen, hstrip⟩ := hmsStrStrip_at g (cells v ++ some nul :: rest)
    (fun c hc => isspace_of_lineSep (hsp c hc)) hk
  -- `G` is the buffer up to the NUL that was the colon
  set G := g ++ some nul :: (cells p ++ (cells (trim isspace k) ++ cells (blanked q))) with hG
  have hi : (g ++ some nul :: cells sp).length = g.length + 1 + sp.length := by
    simp
    omega
  have hGlen : G.length = (g ++ some nul :: cells sp).length + k.length := by
    simp [hG]
    omega
  have hnone : ∀ c ∈ ([] : List UInt8), isspace c = true := by simp
  obtain ⟨p', q', hlen', hstrip'⟩ := hmsStrStrip_at G rest hnone hv
  set pre' := G ++ some nul :: (cells p' ++ (cells (trim isspace v) ++ cells (blanked q')))
    with hpre'
  refine ⟨G ++ some nul :: (cells v ++ some nul :: rest), pre', g.length + 1 + p.length,
    G.length + 1 + p'.length, ?_, ?_, ?_, ?_, ?_⟩
  · simp only [List.length_nil, Nat.zero_add] at hlen'
    rw [← hGlen]
    simp [hpre']
    omega
  · rw [hi]
    simpa [hG] using hstrip
  · rw [← hGlen]
    simpa [hpre'] using hstrip'
  · obtain ⟨r, hr⟩ := blanked_append_nul q
      (cells p' ++ (cells (trim isspace v) ++ (cells (blanked q') ++ some nul :: rest)))
    have := stringAt_at (g ++ some nul :: cells p) (s := trim isspace k) r
      (fun h => hk (mem_of_mem_trim h)) (i := g.length + 1 + p.length) (by simp; omega)
    rw [← this, hpre', hG, ← hr]
    simp
  · obtain ⟨r, hr⟩ := blanked_append_nul q' rest
    have := stringAt_at (G ++ some nul :: cells p') (s := trim isspace v) r
      (fun h => hv (mem_of_mem_trim h)) (i := G.length + 1 + p'.length) (by simp; omega)
    rw [← this, hpre', ← hr]
    simp

/-- What `__hms_parse_named_header` does with a line that stands behind a guard. -/
theorem hmsParseNamedHeader_at (msg : HmsMsg) (bodyLen : ℤ) {pre : Buffer} (rest : Buffer)
    {line : List UInt8} (hpre : Guarded pre) (hnul : nul ∉ line) :
    ∃ pre', pre'.length = (pre ++ cells line).length ∧
      hmsParseNamedHeader msg (pre ++ (cells line ++ some nul :: rest)) pre.length bodyLen =
        .ok (if colon ∈ line then
            if IsLength line then
              if atoi (valText line) = 0 then (-1, msg, 0, pre' ++ some nul :: rest)
              else (0, readNamed msg line, atoi (valText line), pre' ++ some nul :: rest)
            else (0, readNamed msg line, bodyLen, pre' ++ some nul :: rest)
          else (-1, msg, bodyLen, pre' ++ some nul :: rest)) := by
  by_cases hcolon : colon ∈ line
  swap
  · have hchr := strchr_at pre rest (c := colon) (d := nul)
      (fun x hx => ⟨fun h => hnul (h ▸ hx), fun h => hcolon (h ▸ hx)⟩) (Or.inl rfl) rfl
    refine ⟨pre ++ cells line, rfl, ?_⟩
    rw [hmsParseNamedHeader, hchr, ok_bind, if_neg (by decide), if_neg hcolon]
    simp
  obtain ⟨k, v, rfl, hk, hkey, hval⟩ := exists_split_colon hcolon
  have hk0 : nul ∉ k := fun h => hnul (List.mem_append_left _ h)
  have hv0 : nul ∉ v := fun h => hnul (List.mem_append_right _ (List.mem_cons_of_mem _ h))
  obtain ⟨b, pre', key, val, hlen, hstripKey, hstripVal, hkeyAt, hvalAt⟩ :=
    stripNamed_at rest hpre hk0 hv0
  refine ⟨pre', by simp [hlen]; omega, ?_⟩
  rw [← hkey] at hkeyAt
  rw [← hval] at hvalAt
  have hkeyBytes : (CString.ofBytes (keyText (k ++ colon :: v))).bytes = keyText (k ++ colon :: v) :=
    CString.bytes_ofBytes fun h => hk0 (mem_of_mem_trim (by rwa [← hkey]))
  have hvalBytes : (CString.ofBytes (valText (k ++ colon :: v))).bytes = valText (k ++ colon :: v) :=
    CString.bytes_ofBytes fun h => hv0 (mem_of_mem_trim (by rwa [← hval]))
  have hlength : (CString.ofBytes (keyText (k ++ colon :: v))).caseEq hmsContentLength = true ↔
      IsLength (k ++ colon :: v) := by
    rw [CString.caseEq, hkeyBytes]
    rfl
  have hatoi : toInt (strtol (valText (k ++ colon :: v))) = atoi (valText (k ++ colon :: v)) := rfl
  rw [if_pos hcolon, hmsParseNamedHeader, strchr_colon pre rest v hk0 hk, ok_bind]
  simp only [store_colon pre rest k v, hstripKey, hstripVal, hkeyAt, hvalAt, ok_bind, hlength,
    hvalBytes, hatoi]
  by_cases hl : IsLength (k ++ colon :: v)
  · by_cases h0 : atoi (valText (k ++ colon :: v)) = 0
    · rw [if_pos hl, if_pos h0, if_pos hl, if_pos h0, h0]
      rfl
    · rw [if_pos hl, if_neg h0, if_pos hl, if_neg h0]
      rfl
  · rw [if_neg hl, if_neg hl]
    rfl

/-! ## The lines -/

theorem headerBody_at (st : HeaderLines) {pre : Buffer} (rest : Buffer) {line : List UInt8}
    (hpre : 0 < st.count → Guarded pre) (hline : ∀ c ∈ line, c ≠ nul ∧ lineSep c = false) :
    ∃ pre', pre'.length = (pre ++ cells line).length ∧
      headerBody (pre ++ (cells line ++ some nul :: rest)) pre.length st =
        .ok (pre' ++ some nul :: rest, headerStep st line) := by
  have hnul : nul ∉ line := fun h => (hline nul h).1 rfl
  by_cases h0 : st.count = 0
  · obtain ⟨pre', hlen, hrun⟩ := hmsParseVerbLine_at st.msg pre rest hnul
    refine ⟨pre', hlen, ?_⟩
    rw [headerBody, if_pos h0, hrun, headerStep, if_pos h0]
    cases tokens wordSep line <;> rfl
  · obtain ⟨pre', hlen, hrun⟩ :=
      hmsParseNamedHeader_at st.msg st.bodyLen rest (hpre (by omega)) hnul
    refine ⟨pre', hlen, ?_⟩
    rw [headerBody, if_neg h0, hrun, headerStep, if_neg h0]
    split_ifs <;> rfl

/-- `headerBody_at` as the loop rule asks for it. -/
theorem headerBody_token (st : HeaderLines) (pre : Buffer) (t : List UInt8) (rest : Buffer)
    (hpre : 0 < st.count → Guarded pre) (_ : t ≠ []) (ht : ∀ c ∈ t, c ≠ nul ∧ lineSep c = false) :
    ∃ pre', pre'.length = (pre ++ cells t).length ∧
      headerBody (pre ++ (cells t ++ some nul :: rest)) pre.length st =
        .ok (pre' ++ some nul :: rest, headerStep st t) :=
  headerBody_at st rest hpre ht

/-- A text in a buffer ends at its first NUL. -/
theorem cells_beforeNul (text : List UInt8) (rest : Buffer) :
    ∃ rest', cells text ++ some nul :: rest = cells (beforeNul text) ++ some nul :: rest' := by
  rcases eq_beforeNul_or text with h | ⟨hidden, h⟩
  · exact ⟨rest, by rw [← h]⟩
  · refine ⟨cells hidden ++ some nul :: rest, ?_⟩
    conv_lhs => rw [h]
    simp

/-- `__hms_parse_header` reads the text before the first NUL of its buffer. -/
theorem hmsParseHeader_eq (text : List UInt8) (rest : Buffer) (len : ℤ) :
    ∃ buffer', hmsParseHeader hmsMsgCreate (cells text ++ some nul :: rest) len 0 =
      .ok (if (readHeader text).erred then -1 else 0, (readHeader text).msg,
        (readHeader text).bodyLen, buffer') := by
  obtain ⟨rest', hsplit⟩ := cells_beforeNul text rest
  obtain ⟨pre', -, hrun⟩ := strtokFor_tokens headerBody_token
    (fun _ _ _ pre seps _ hseps _ => ⟨pre, seps, rfl, hseps⟩) rest'
    ((cells text ++ some nul :: rest).length + 1) (beforeNul text) [] headerStart
    (by rw [hsplit]; simp) (nul_not_mem_beforeNul text)
    (fun _ _ _ h => by simp [headerStart] at h)
  have hloop : strtokFor lineSep headerBody ((cells text ++ some nul :: rest).length + 1)
      (cells text ++ some nul :: rest) 0 headerStart =
        .ok (pre' ++ some nul :: rest', readHeader text) := by
    conv_lhs => rw [hsplit]
    rw [hsplit] at hrun
    exact hrun
  refine ⟨pre' ++ some nul :: rest', ?_⟩
  rw [hmsParseHeader]
  show (strtokFor lineSep headerBody _ _ 0 headerStart >>= _) = _
  rw [hloop]
  rfl

end Hermes
