import Hermes.Decode

/-!
# Accepted headers

A header is accepted if its first line has a word, every other line has a colon, and no
`Content-Length` line has the value zero (`HeaderOk`). `headerMsg` is the message it gives
and `bodyLength` the length of the body, that of the last `Content-Length` line.

`decode_eq_some` and `decode_eq_error` say when the decoder returns a message and when it
faults, as conditions on the stream.
-/

open CLib

namespace Hermes

/-! ## Conditions on lines -/

/-- A named-header line that is accepted. -/
def NamedOk (line : List UInt8) : Prop :=
  colon ∈ line ∧ (IsLength line → atoi (valText line) ≠ 0)

instance (line : List UInt8) : Decidable (NamedOk line) :=
  inferInstanceAs (Decidable (_ ∧ _))

/-- The lines of a header that is accepted. -/
def HeaderOk : List (List UInt8) → Prop
  | [] => True
  | first :: named => tokens wordSep first ≠ [] ∧ ∀ line ∈ named, NamedOk line

/-- The message with the words of the first line. -/
def verbMsg (first : List UInt8) : HmsMsg :=
  match tokens wordSep first with
  | [] => hmsMsgCreate
  | verb :: words => readWords hmsMsgCreate verb words

/-- The message that the lines of a header give. -/
def headerMsg : List (List UInt8) → HmsMsg
  | [] => hmsMsgCreate
  | first :: named => named.foldl readNamed (verbMsg first)

/-- The length of the body after one more line. -/
def lengthAfter (n : ℤ) (line : List UInt8) : ℤ :=
  if IsLength line then atoi (valText line) else n

/-- The length of the body, zero for none. -/
def bodyLength (lines : List (List UInt8)) : ℤ :=
  lines.tail.foldl lengthAfter 0

/-- The last `Content-Length` line. -/
def lengthLine (lines : List (List UInt8)) : Option (List UInt8) :=
  (lines.tail.filter fun line => IsLength line).getLast?

/-! ## The loop over the lines -/

section Loop

variable {st : HeaderLines}

theorem headerStep_verb {first verb : List UInt8} {words : List (List UInt8)}
    (h : tokens wordSep first = verb :: words) : headerStep headerStart first =
      (⟨readWords hmsMsgCreate verb words, 1, 0, false⟩, true) := by
  have h0 : headerStart.count = 0 := rfl
  rw [headerStep, if_pos h0, h]
  rfl

theorem headerStep_noVerb {first : List UInt8} (h : tokens wordSep first = []) :
    headerStep headerStart first = ({ headerStart with erred := true }, false) := by
  have h0 : headerStart.count = 0 := rfl
  rw [headerStep, if_pos h0, h]

theorem headerStep_namedOk (hc : 0 < st.count) {line : List UInt8} (h : NamedOk line) :
    headerStep st line = ({ st with
      msg := readNamed st.msg line
      bodyLen := lengthAfter st.bodyLen line
      count := st.count + 1 }, true) := by
  rw [headerStep, if_neg (by omega), if_pos h.1, lengthAfter]
  split_ifs with h1 h2
  · exact absurd h2 (h.2 h1)
  · rfl
  · rfl

theorem headerStep_not_namedOk (hc : 0 < st.count) {line : List UInt8} (h : ¬NamedOk line) :
    (headerStep st line).1.erred = true ∧ (headerStep st line).2 = false := by
  rw [headerStep, if_neg (by omega)]
  split_ifs with h1 h2 h3
  · exact ⟨rfl, rfl⟩
  · exact absurd ⟨h1, fun _ => h3⟩ h
  · exact absurd ⟨h1, fun h3 => absurd h3 h2⟩ h
  · exact ⟨rfl, rfl⟩

theorem foldUntil_namedOk : ∀ {named : List (List UInt8)} {st : HeaderLines}, 0 < st.count →
    (∀ line ∈ named, NamedOk line) → foldUntil headerStep st named = { st with
      msg := named.foldl readNamed st.msg
      bodyLen := named.foldl lengthAfter st.bodyLen
      count := st.count + named.length }
  | [], _, _, _ => rfl
  | line :: named, st, hc, h => by
    rw [foldUntil_go (headerStep_namedOk hc (h line (by simp))),
      foldUntil_namedOk (Nat.succ_pos _) fun l hl => h l (by simp [hl])]
    simp only [List.foldl_cons, List.length_cons]
    congr 1
    omega

theorem foldUntil_not_namedOk : ∀ {named : List (List UInt8)} {st : HeaderLines}, 0 < st.count →
    (¬∀ line ∈ named, NamedOk line) → (foldUntil headerStep st named).erred = true
  | [], _, _, h => by simp at h
  | line :: named, st, hc, h => by
    by_cases hl : NamedOk line
    · rw [foldUntil_go (headerStep_namedOk hc hl)]
      refine foldUntil_not_namedOk (Nat.succ_pos _) fun hall => h ?_
      simpa [hl] using hall
    · obtain ⟨h1, h2⟩ := headerStep_not_namedOk hc hl
      have hstop : headerStep st line = ((headerStep st line).1, false) := Prod.ext rfl h2
      rwa [foldUntil_stop hstop]

/-- An accepted header : no error, its message and the length of its body. -/
theorem readHeader_of_ok {text : List UInt8} (h : HeaderOk (headerLines text)) :
    (readHeader text).erred = false ∧ (readHeader text).msg = headerMsg (headerLines text) ∧
      (readHeader text).bodyLen = bodyLength (headerLines text) := by
  unfold readHeader
  cases hl : headerLines text with
  | nil => exact ⟨rfl, rfl, rfl⟩
  | cons first named =>
    rw [hl] at h
    obtain ⟨verb, words, hw⟩ := List.exists_cons_of_ne_nil h.1
    rw [foldUntil_go (headerStep_verb hw), foldUntil_namedOk Nat.one_pos h.2, headerMsg, verbMsg, hw]
    exact ⟨rfl, rfl, rfl⟩

theorem readHeader_of_not_ok {text : List UInt8} (h : ¬HeaderOk (headerLines text)) :
    (readHeader text).erred = true := by
  unfold readHeader
  cases hl : headerLines text with
  | nil =>
    rw [hl] at h
    exact absurd trivial h
  | cons first named =>
    rw [hl] at h
    cases hw : tokens wordSep first with
    | nil => rw [foldUntil_stop (headerStep_noVerb hw)]
    | cons verb words =>
      rw [foldUntil_go (headerStep_verb hw)]
      exact foldUntil_not_namedOk Nat.one_pos fun hall => h ⟨by simp [hw], hall⟩

end Loop

/-! ## The length of the body -/

theorem foldl_lengthAfter (named : List (List UInt8)) (n : ℤ) :
    named.foldl lengthAfter n =
      ((named.filter fun line => IsLength line).getLast?.map fun line => atoi (valText line)).getD
        n := by
  induction named using List.reverseRecOn with
  | nil => rfl
  | append_singleton named line ih =>
    rw [List.foldl_append, List.foldl_cons, List.foldl_nil, ih, List.filter_append]
    by_cases hl : IsLength line <;> simp [lengthAfter, hl]

/-- The length of the body is the `int` of the last `Content-Length` line. -/
theorem bodyLength_eq (lines : List (List UInt8)) :
    bodyLength lines = ((lengthLine lines).map fun line => atoi (valText line)).getD 0 :=
  foldl_lengthAfter lines.tail 0

theorem mem_of_lengthLine {lines : List (List UInt8)} {line : List UInt8}
    (h : lengthLine lines = some line) : line ∈ lines.tail ∧ IsLength line := by
  simpa using List.mem_of_getLast? h

/-- In an accepted header the length is zero only if there is no `Content-Length` line. -/
theorem bodyLength_eq_zero {lines : List (List UInt8)} (h : HeaderOk lines) :
    bodyLength lines = 0 ↔ lengthLine lines = none := by
  rw [bodyLength_eq]
  cases hl : lengthLine lines with
  | none => simp
  | some line =>
    obtain ⟨hmem, hlen⟩ := mem_of_lengthLine hl
    cases lines with
    | nil => simp at hmem
    | cons first named => simpa using (h.2 line hmem).2 hlen

/-! ## Accepted streams -/

/-- The message of a frame whose body is in the stream, and the bytes behind it. -/
structure Decodes {s : List UInt8} (f : Frame s) (msg : HmsMsg) (left : List UInt8) : Prop where
  nonempty : 2 < f.size
  header : HeaderOk (headerLines f.parsed)
  body : (lengthLine (headerLines f.parsed) = none ∧ msg = headerMsg (headerLines f.parsed) ∧
      left = f.rest) ∨
    ∃ n : ℕ, bodyLength (headerLines f.parsed) = n ∧ 0 < n ∧ (n : ℤ) < intMax ∧
      n ≤ f.rest.length ∧ msg = withBody (headerMsg (headerLines f.parsed)) (f.rest.take n) ∧
      left = f.rest.drop n

section Streams

variable {maxHdrLen : ℤ} {s left : List UInt8}

/-- The decoder does not fault for a bound that is a positive `int` below `INT_MAX` unless a
frame fits. -/
theorem decode_cases (maxHdrLen : ℤ) (s : List UInt8) :
    (maxHdrLen < 0 ∨ intMax ≤ maxHdrLen) ∧ decode maxHdrLen s = .error .undefined ∨
    maxHdrLen = 0 ∧ decode maxHdrLen s = .error .assertion ∨
    (0 < maxHdrLen ∧ maxHdrLen < intMax) ∧
      ((∀ f : Frame s, maxHdrLen < f.size) ∧ decode maxHdrLen s = .ok (none, s.drop maxHdrLen.toNat) ∨
        ∃ f : Frame s, (f.size : ℤ) ≤ maxHdrLen ∧ decode maxHdrLen s =
          if 2 < f.size then decodeText f.parsed f.rest else .ok (none, f.rest)) := by
  by_cases hrange : maxHdrLen < 0 ∨ intMax ≤ maxHdrLen
  · exact Or.inl ⟨hrange, if_pos hrange⟩
  refine Or.inr ?_
  by_cases h0 : maxHdrLen = 0
  · exact Or.inl ⟨h0, by rw [decode, if_neg hrange, if_pos h0]⟩
  refine Or.inr ⟨by omega, ?_⟩
  by_cases hf : ∃ f : Frame s, (f.size : ℤ) ≤ maxHdrLen
  · obtain ⟨f, hf⟩ := hf
    exact Or.inr ⟨f, hf, decode_frame (by omega) (by omega) f hf⟩
  · have hno : ∀ f : Frame s, maxHdrLen < f.size := fun f => by
      by_contra hle
      exact hf ⟨f, by omega⟩
    exact Or.inl ⟨hno, decode_noFrame (by omega) (by omega) hno⟩

theorem decodeText_of_not_ok {text : List UInt8} (h : ¬HeaderOk (headerLines text))
    (rest : List UInt8) : decodeText text rest = .ok (none, rest) := by
  rw [decodeText, readHeader_of_not_ok h]
  rfl

theorem decodeText_of_ok {text : List UInt8} (h : HeaderOk (headerLines text))
    (rest : List UInt8) : decodeText text rest =
      if bodyLength (headerLines text) = 0 then .ok (some (headerMsg (headerLines text)), rest)
      else decodeBody (headerMsg (headerLines text)) (bodyLength (headerLines text)) rest := by
  obtain ⟨h1, h2, h3⟩ := readHeader_of_ok h
  rw [decodeText, h1, h2, h3]
  rfl

/-- A frame with an accepted header decodes to a message as `Decodes` says. -/
theorem decodeText_eq_some (f : Frame s) (h2 : 2 < f.size) {msg : HmsMsg} :
    decodeText f.parsed f.rest = .ok (some msg, left) ↔ Decodes f msg left := by
  by_cases hok : HeaderOk (headerLines f.parsed)
  swap
  · rw [decodeText_of_not_ok hok]
    exact ⟨fun h => by simp at h, fun h => absurd h.header hok⟩
  rw [decodeText_of_ok hok]
  by_cases h0 : bodyLength (headerLines f.parsed) = 0
  · have hnone := (bodyLength_eq_zero hok).1 h0
    rw [if_pos h0]
    constructor
    · intro h
      simp only [Except.ok.injEq, Prod.mk.injEq, Option.some.injEq] at h
      exact ⟨h2, hok, Or.inl ⟨hnone, h.1.symm, h.2.symm⟩⟩
    · rintro ⟨-, -, ⟨-, rfl, rfl⟩ | ⟨n, hn, hpos, -⟩⟩
      · rfl
      · omega
  rw [if_neg h0, decodeBody]
  have hsome : lengthLine (headerLines f.parsed) ≠ none := fun h =>
    h0 ((bodyLength_eq_zero hok).2 h)
  have hbound := readHeader_bodyLen_range f.parsed
  rw [(readHeader_of_ok hok).2.2] at hbound
  constructor
  · intro h
    split_ifs at h with h3 h4 h5 h6
    · simp at h
    · simp only [Except.ok.injEq, Prod.mk.injEq, Option.some.injEq] at h
      exact ⟨h2, hok, Or.inr ⟨_, (Int.toNat_of_nonneg (by omega)).symm, by omega, by omega,
        by omega, h.1.symm, h.2.symm⟩⟩
    · simp at h
  · rintro ⟨-, -, ⟨hn, -⟩ | ⟨n, hn, hpos, hmax, hle, rfl, rfl⟩⟩
    · exact absurd hn hsome
    · rw [hn, if_neg (by omega), if_neg (by omega), if_neg (by omega), if_pos (by omega),
        Int.toNat_natCast]

/-- When the decoder returns a message. -/
theorem decode_eq_some {msg : HmsMsg} : decode maxHdrLen s = .ok (some msg, left) ↔
    (0 < maxHdrLen ∧ maxHdrLen < intMax) ∧
      ∃ f : Frame s, (f.size : ℤ) ≤ maxHdrLen ∧ Decodes f msg left := by
  rcases decode_cases maxHdrLen s with ⟨h1, h2⟩ | ⟨h1, h2⟩ | ⟨h1, ⟨h2, h3⟩ | ⟨f, h2, h3⟩⟩
  · rw [h2]
    exact ⟨fun h => by simp at h, fun h => by omega⟩
  · rw [h2]
    exact ⟨fun h => by simp at h, fun h => by omega⟩
  · rw [h3]
    refine ⟨fun h => by simp at h, fun ⟨_, f, hf, _⟩ => ?_⟩
    have := h2 f
    omega
  · rw [h3]
    constructor
    · intro h
      split_ifs at h with hsize
      · exact ⟨h1, f, h2, (decodeText_eq_some f hsize).1 h⟩
      · simp at h
    · rintro ⟨-, g, -, hg⟩
      obtain rfl := f.subsingleton g
      rw [if_pos hg.nonempty]
      exact (decodeText_eq_some f hg.nonempty).2 hg

/-- When the decoder faults : a bad bound, or a header whose length is `-1` or `INT_MAX`. -/
theorem decode_eq_error : (∃ e, decode maxHdrLen s = .error e) ↔
    (maxHdrLen ≤ 0 ∨ intMax ≤ maxHdrLen) ∨
      ∃ f : Frame s, (f.size : ℤ) ≤ maxHdrLen ∧ 2 < f.size ∧ HeaderOk (headerLines f.parsed) ∧
        (bodyLength (headerLines f.parsed) = -1 ∨ bodyLength (headerLines f.parsed) = intMax) := by
  rcases decode_cases maxHdrLen s with ⟨h1, h2⟩ | ⟨h1, h2⟩ | ⟨h1, ⟨h2, h3⟩ | ⟨f, h2, h3⟩⟩
  · exact ⟨fun _ => Or.inl (by omega), fun _ => ⟨_, h2⟩⟩
  · exact ⟨fun _ => Or.inl (by omega), fun _ => ⟨_, h2⟩⟩
  · rw [h3]
    constructor
    · rintro ⟨e, h⟩
      simp at h
    · rintro (h | ⟨f, hf, -⟩)
      · omega
      · have := h2 f
        omega
  · rw [h3]
    constructor
    · rintro ⟨e, h⟩
      refine Or.inr ⟨f, h2, ?_⟩
      split_ifs at h with hsize
      by_cases hok : HeaderOk (headerLines f.parsed)
      · refine ⟨hsize, hok, ?_⟩
        rw [decodeText_of_ok hok, decodeBody] at h
        split_ifs at h with h4 h5 h6
        · exact Or.inr h5
        · exact Or.inl h6
      · simp [decodeText_of_not_ok hok] at h
    · rintro (h | ⟨g, -, hsize, hok, hlen⟩)
      · omega
      obtain rfl := f.subsingleton g
      rw [if_pos hsize, decodeText_of_ok hok, decodeBody]
      rcases hlen with hlen | hlen
      · rw [hlen]
        exact ⟨.assertion, rfl⟩
      · rw [hlen]
        exact ⟨.undefined, rfl⟩

end Streams

end Hermes
