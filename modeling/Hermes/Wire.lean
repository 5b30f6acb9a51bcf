import Hermes.Accept
import Hermes.Encode

/-!
# Printed headers on the wire

A printed header is a list of lines and a line with just a period. Followed by any bytes it
is a stream whose frame ends at the first line that ends in a period, up to blanks, and so
at the last line just if no other one does (`exists_frame_unlines`, `size_lt_of_dotEnded`).

A message is `WireClean` if its fields keep to themselves : no separator inside a word, no
newline inside a named header, no period where it would end the header. It `Survives` as well
if its length is spelled in another way. `decode_encode` says that such a message is decoded
to `received`, the message with its counters filled in and its `Content-Length` header at the
end.
-/

open CLib

namespace Hermes

/-! ## Periods at the end of a line -/

/-- Only what follows the last byte that is no blank matters. -/
theorem dotEnded_append_right {a l : List UInt8} (hl : ∃ c ∈ l, ¬Blank c) :
    DotEnded (a ++ l) ↔ DotEnded l := by
  constructor
  · rintro ⟨x, b, h, hb⟩
    rcases List.append_eq_append_iff.1 h with ⟨y, rfl, hy⟩ | ⟨y, rfl, hy⟩
    · exact ⟨y, b, hy, hb⟩
    · cases y with
      | nil => exact ⟨[], b, by simpa using hy.symm, hb⟩
      | cons d y =>
        simp only [List.cons_append, List.cons.injEq] at hy
        obtain ⟨c, hc, hcb⟩ := hl
        exact absurd (hb c (by simp [hy.2, hc])) hcb
  · rintro ⟨x, b, rfl, hb⟩
    exact ⟨a ++ x, b, by simp, hb⟩

theorem dotEnded_cons {c : UInt8} (hc : c ≠ dot) (l : List UInt8) :
    DotEnded (c :: l) ↔ DotEnded l := by
  constructor
  · rintro ⟨x, b, h, hb⟩
    cases x with
    | nil => exact absurd (List.cons.inj h).1 hc
    | cons d x => exact ⟨x, b, (List.cons.inj h).2, hb⟩
  · rintro ⟨x, b, rfl, hb⟩
    exact ⟨c :: x, b, rfl, hb⟩

/-- A byte that is neither a blank nor a period starts afresh. -/
theorem dotEnded_append_cons (a : List UInt8) {c : UInt8} (hb : ¬Blank c) (hc : c ≠ dot)
    (l : List UInt8) : DotEnded (a ++ c :: l) ↔ DotEnded l := by
  rw [dotEnded_append_right ⟨c, by simp, hb⟩, dotEnded_cons hc]

theorem dotEnded_iff_getLast {w : List UInt8} (h : ∀ c ∈ w, ¬Blank c) :
    DotEnded w ↔ w.getLast? = some dot := by
  constructor
  · rintro ⟨a, b, rfl, hb⟩
    cases b with
    | nil => simp
    | cons c b => exact absurd (hb c (by simp)) (h c (by simp))
  · intro hw
    obtain ⟨a, rfl⟩ := List.getLast?_eq_some_iff.1 hw
    exact dotEnded_append_dot a

/-! ## Frames of lines -/

/-- Lines, each with its newline. -/
def unlines (ls : List (List UInt8)) : List UInt8 :=
  ls.flatMap fun l => l ++ [newline]

theorem dotEnded_unlines_append (ls : List (List UInt8)) (l : List UInt8) :
    DotEnded (unlines ls ++ l) ↔ DotEnded l := by
  rcases List.eq_nil_or_concat ls with rfl | ⟨ls, k, rfl⟩
  · rfl
  · have hassoc : unlines (ls.concat k) ++ l = (unlines ls ++ k) ++ newline :: l := by
      simp [unlines]
    rw [hassoc, dotEnded_append_cons _ (by decide) (by decide)]

/-- A prefix that ends at a newline is some full lines and one more. -/
theorem exists_line_of_prefix : ∀ {ls : List (List UInt8)} {p : List UInt8},
    (∀ l ∈ ls, newline ∉ l) → p ++ [newline] <+: unlines ls →
    ∃ ls₁ l ls₂, ls = ls₁ ++ l :: ls₂ ∧ p = unlines ls₁ ++ l
  | [], p, _, h => by
    have := h.length_le
    simp [unlines] at this
  | l :: ls, p, hls, h => by
    have hcons : unlines (l :: ls) = (l ++ [newline]) ++ unlines ls := by simp [unlines]
    rw [hcons] at h
    rcases Nat.lt_trichotomy p.length l.length with hlt | heq | hgt
    · exfalso
      have hp : p ++ [newline] <+: l := by
        refine List.prefix_of_prefix_length_le h ⟨[newline] ++ unlines ls, by simp⟩ ?_
        simpa using hlt
      exact hls l (by simp) (hp.subset (by simp))
    · refine ⟨[], l, ls, rfl, ?_⟩
      have hp : p ++ [newline] <+: l ++ [newline] :=
        List.prefix_of_prefix_length_le h (List.prefix_append _ _) (by simp [heq])
      simpa [unlines] using (List.append_inj (hp.eq_of_length (by simp [heq])) heq).1
    · have hp : l ++ [newline] <+: p :=
        List.prefix_of_prefix_length_le (List.prefix_append _ _)
          ((List.prefix_append p [newline]).trans h) (by simpa using hgt)
      obtain ⟨q, rfl⟩ := hp
      rw [List.append_assoc, List.prefix_append_right_inj] at h
      obtain ⟨ls₁, k, ls₂, rfl, rfl⟩ :=
        exists_line_of_prefix (fun k hk => hls k (by simp [hk])) h
      exact ⟨l :: ls₁, k, ls₂, rfl, by simp [unlines]⟩

section Lines

variable {ls : List (List UInt8)} (t : List UInt8)

/-- If no line ends in a period, the frame ends at the line with just a period. -/
theorem exists_frame_unlines (hls : ∀ l ∈ ls, newline ∉ l) (hdot : ∀ l ∈ ls, ¬DotEnded l) :
    ∃ f : Frame (unlines ls ++ [dot, newline] ++ t),
      f.text = unlines ls ∧ f.blanks = [] ∧ f.rest = t := by
  refine ⟨⟨unlines ls, [], t, by simp, by simp, fun p hp hlt hterm => ?_⟩, rfl, rfl, rfl⟩
  obtain ⟨p', hp', rfl⟩ := hterm
  have hshort : p' ++ [newline] <+: unlines ls ++ [dot] := by
    refine List.prefix_of_prefix_length_le hp ⟨[newline] ++ t, by simp⟩ ?_
    simp at hlt ⊢
    omega
  have hline : p' ++ [newline] <+: unlines ls := by
    rcases List.prefix_concat_iff.1 hshort with h | h
    · exact absurd (List.singleton_inj.1 (List.append_inj' h rfl).2) (by decide)
    · exact h
  obtain ⟨ls₁, l, ls₂, hsplit, rfl⟩ := exists_line_of_prefix hls hline
  exact hdot l (by simp [hsplit]) ((dotEnded_unlines_append ls₁ l).1 hp')

/-- The text of a header that has no other period. -/
theorem parsed_unlines {s : List UInt8} (f : Frame s) {lines : List (List UInt8)}
    {t : List UInt8} (hs : s = unlines lines ++ [dot, newline] ++ t)
    (h : ∀ l ∈ lines, newline ∉ l ∧ dot ∉ l) : f.parsed = (unlines lines).map crToSpace := by
  subst hs
  obtain ⟨g, htext, -, -⟩ := exists_frame_unlines t (fun l hl => (h l hl).1)
    fun l hl hdot => (h l hl).2 hdot.dot_mem
  obtain rfl := f.subsingleton g
  rw [Frame.parsed, htext]

/-- If a line ends in a period, the frame ends before the line with just a period. -/
theorem size_lt_of_dotEnded {l : List UInt8} (hl : l ∈ ls) (hdot : DotEnded l)
    (f : Frame (unlines ls ++ [dot, newline] ++ t)) : f.size < (unlines ls).length + 2 := by
  obtain ⟨ls₁, ls₂, rfl⟩ := List.append_of_mem hl
  by_contra hge
  have hsplit : unlines (ls₁ ++ l :: ls₂) = (unlines ls₁ ++ l ++ [newline]) ++ unlines ls₂ := by
    simp [unlines]
  have hlen := congrArg List.length hsplit
  rw [List.length_append] at hlen
  unfold Frame.size at hge
  exact f.first (unlines ls₁ ++ l ++ [newline])
    ⟨unlines ls₂ ++ [dot, newline] ++ t, by rw [hsplit]; simp⟩ (by omega)
    ⟨_, (dotEnded_unlines_append ls₁ l).2 hdot, rfl⟩

end Lines

/-! ## The lines of a message -/

/-- A word of the verb line : not empty, and without separators. -/
def IsWord (w : List UInt8) : Prop :=
  w ≠ [] ∧ ∀ c ∈ w, c ≠ space ∧ c ≠ tab ∧ c ≠ newline ∧ c ≠ carriageReturn

namespace HmsMsg

variable (msg : HmsMsg)

/-- The words of the verb line. -/
def words : List CString :=
  msg.verb.toList ++ msg.headers

/-- The lines of the header. -/
def lines : List (List UInt8) :=
  msg.verbLine :: msg.namedHeaders.map HmsMsgNheader.line

theorem headerText_eq : msg.headerText = unlines msg.lines := by
  simp [headerText, unlines, lines, List.flatMap_map]

instance (w : List UInt8) : Decidable (IsWord w) :=
  inferInstanceAs (Decidable (_ ∧ _))

/-- What keeps the lines of a header apart. -/
structure LineClean (msg : HmsMsg) : Prop where
  verb : msg.verb ≠ none
  words : ∀ w ∈ msg.words, IsWord w.bytes
  key : ∀ hdr ∈ msg.namedHeaders, ∀ c ∈ hdr.key.bytes, c ≠ colon ∧ c ≠ newline ∧ c ≠ carriageReturn
  val : ∀ hdr ∈ msg.namedHeaders, ∀ c ∈ hdr.val.bytes, c ≠ newline ∧ c ≠ carriageReturn

instance : Decidable msg.LineClean :=
  decidable_of_iff (msg.verb ≠ none ∧ (∀ w ∈ msg.words, IsWord w.bytes) ∧
    (∀ hdr ∈ msg.namedHeaders, ∀ c ∈ hdr.key.bytes,
      c ≠ colon ∧ c ≠ newline ∧ c ≠ carriageReturn) ∧
    ∀ hdr ∈ msg.namedHeaders, ∀ c ∈ hdr.val.bytes, c ≠ newline ∧ c ≠ carriageReturn)
    ⟨fun ⟨h1, h2, h3, h4⟩ => ⟨h1, h2, h3, h4⟩, fun h => ⟨h.verb, h.words, h.key, h.val⟩⟩

end HmsMsg

theorem IsWord.not_blank {w : List UInt8} (h : IsWord w) : ∀ c ∈ w, ¬Blank c := by
  rintro c hc (hb | hb)
  · exact (h.2 c hc).1 hb
  · exact (h.2 c hc).2.2.2 hb

namespace HmsMsg.LineClean

variable {msg : HmsMsg} (h : msg.LineClean)
include h

/-- The verb line is the first word and the others, each behind a space. -/
theorem exists_words : ∃ (verb : CString) (words : List CString),
    msg.verb = some verb ∧ msg.words = verb :: words ∧ msg.headers = words ∧
      msg.verbLine = verb.bytes ++ words.flatMap fun w => space :: w.bytes := by
  obtain ⟨verb, hv⟩ := Option.ne_none_iff_exists'.1 h.verb
  exact ⟨verb, msg.headers, hv, by simp [HmsMsg.words, hv], rfl, by simp [verbLine, hv]⟩

theorem mem_verbLine {c : UInt8} (hc : c ∈ msg.verbLine) :
    c = space ∨ ∃ w ∈ msg.words, c ∈ w.bytes := by
  obtain ⟨verb, words, -, hw, -, hline⟩ := h.exists_words
  rw [hline, List.mem_append, List.mem_flatMap] at hc
  rw [hw]
  rcases hc with hc | ⟨w, hw, hc⟩
  · exact Or.inr ⟨verb, by simp, hc⟩
  · rcases List.mem_cons.1 hc with hc | hc
    · exact Or.inl hc
    · exact Or.inr ⟨w, by simp [hw], hc⟩

/-- No line holds a separator of lines, a carriage return or a NUL. -/
theorem mem_lines {l : List UInt8} (hl : l ∈ msg.lines) {c : UInt8} (hc : c ∈ l) :
    c ≠ newline ∧ c ≠ carriageReturn ∧ c ≠ nul := by
  rcases List.mem_cons.1 hl with rfl | hl
  · rcases h.mem_verbLine hc with rfl | ⟨w, hw, hc⟩
    · decide
    · obtain ⟨-, -, h3, h4⟩ := (h.words w hw).2 c hc
      exact ⟨h3, h4, fun h0 => w.noNul (h0 ▸ hc)⟩
  · obtain ⟨hdr, hmem, rfl⟩ := List.mem_map.1 hl
    rcases List.mem_append.1 hc with hc | hc
    · obtain ⟨-, h2, h3⟩ := h.key hdr hmem c hc
      exact ⟨h2, h3, fun h0 => hdr.key.noNul (h0 ▸ hc)⟩
    · rcases List.mem_cons.1 hc with rfl | hc
      · decide
      · obtain ⟨h1, h2⟩ := h.val hdr hmem c hc
        exact ⟨h1, h2, fun h0 => hdr.val.noNul (h0 ▸ hc)⟩

theorem lines_ne_nil {l : List UInt8} (hl : l ∈ msg.lines) : l ≠ [] := by
  rcases List.mem_cons.1 hl with rfl | hl
  · obtain ⟨verb, words, -, hw, -, hline⟩ := h.exists_words
    have := (h.words verb (by simp [hw])).1
    rw [hline]
    simp [this]
  · obtain ⟨hdr, -, rfl⟩ := List.mem_map.1 hl
    simp [HmsMsgNheader.line]

/-- The verb line ends in a period if its last word does. -/
theorem dotEnded_verbLine :
    DotEnded msg.verbLine ↔ ∃ w ∈ msg.words.getLast?, w.bytes.getLast? = some dot := by
  obtain ⟨verb, words, -, hw, -, hline⟩ := h.exists_words
  rw [hw, hline]
  rcases List.eq_nil_or_concat words with rfl | ⟨words, w, rfl⟩
  · have hword := h.words verb (by simp [hw])
    simpa using dotEnded_iff_getLast hword.not_blank
  · have hword := h.words w (by simp [hw])
    obtain ⟨c, hc⟩ := List.exists_mem_of_ne_nil _ hword.1
    have hassoc : verb.bytes ++ (words.concat w).flatMap (fun w => space :: w.bytes) =
        (verb.bytes ++ words.flatMap (fun w => space :: w.bytes) ++ [space]) ++ w.bytes := by
      simp
    rw [hassoc, dotEnded_append_right ⟨c, hc, hword.not_blank c hc⟩,
      dotEnded_iff_getLast hword.not_blank]
    have hlast : (verb :: words.concat w).getLast? = some w := by
      rw [List.concat_eq_append, ← List.cons_append, List.getLast?_concat]
    rw [hlast]
    simp

omit h in
/-- A named-header line ends in a period if its value does. -/
theorem dotEnded_line (hdr : HmsMsgNheader) : DotEnded hdr.line ↔ DotEnded hdr.val.bytes :=
  dotEnded_append_cons _ (by decide) (by decide) _

/-- Which lines of a header end in a period. -/
theorem dotEnded_lines : (∃ l ∈ msg.lines, DotEnded l) ↔
    (∃ w ∈ msg.words.getLast?, w.bytes.getLast? = some dot) ∨
      ∃ hdr ∈ msg.namedHeaders, DotEnded hdr.val.bytes := by
  rw [← h.dotEnded_verbLine]
  simp [lines, dotEnded_line]

theorem mem_headerText {c : UInt8} (hc : c ∈ msg.headerText) : c ≠ carriageReturn ∧ c ≠ nul := by
  rw [headerText_eq, unlines, List.mem_flatMap] at hc
  obtain ⟨l, hl, hc⟩ := hc
  rcases List.mem_append.1 hc with hc | hc
  · exact (h.mem_lines hl hc).2
  · rw [List.mem_singleton.1 hc]
    decide

/-- The parser finds a printed header as it is. -/
theorem map_crToSpace : msg.headerText.map crToSpace = msg.headerText :=
  (List.map_congr_left fun _ hc => if_neg (h.mem_headerText hc).1).trans (List.map_id' _)

theorem nul_not_mem : nul ∉ msg.headerText := fun hc =>
  (h.mem_headerText hc).2 rfl

/-- A printed header is read back as its lines. -/
theorem headerLines_eq : headerLines (msg.headerText.map crToSpace) = msg.lines := by
  rw [headerLines, h.map_crToSpace, beforeNul_of_not_mem h.nul_not_mem, headerText_eq]
  refine tokens_flatMap_append (by decide) msg.lines fun l hl => ⟨h.lines_ne_nil hl, ?_⟩
  intro c hc
  simpa [lineSep] using (h.mem_lines hl hc).1

/-- The words of the verb line are read back. -/
theorem verbMsg_eq : verbMsg msg.verbLine =
    { hmsMsgCreate with
      verb := msg.verb
      headers := msg.headers
      numHeaders := msg.headers.length } := by
  obtain ⟨verb, words, hv, hw, hh, hline⟩ := h.exists_words
  have hsep : ∀ u ∈ verb.bytes :: words.map CString.bytes, u ≠ [] ∧ ∀ c ∈ u, wordSep c = false := by
    intro u hu
    obtain ⟨w, hmem, rfl⟩ : ∃ w ∈ msg.words, w.bytes = u := by
      rw [hw]
      simpa [eq_comm] using hu
    refine ⟨(h.words w hmem).1, fun c hc => ?_⟩
    obtain ⟨h1, h2, -, -⟩ := (h.words w hmem).2 c hc
    simp [wordSep, h1, h2]
  have htokens : tokens wordSep msg.verbLine = verb.bytes :: words.map CString.bytes := by
    have := tokens_append_flatMap_cons (d := space) (by decide) verb.bytes
      (words.map CString.bytes) hsep
    rwa [List.flatMap_map, ← hline] at this
  have hmap : (words.map CString.bytes).map CString.ofBytes = words := by
    rw [List.map_map]
    exact (List.map_congr_left fun w _ => CString.ofBytes_bytes w).trans (List.map_id words)
  rw [verbMsg, htokens, hv, hh]
  simp only [readWords]
  rw [hmap, foldl_addHeader, CString.ofBytes_bytes]
  simp [hmsMsgSetVerb, hmsMsgCreate]

end HmsMsg.LineClean

/-! ## Clean messages -/

namespace HmsMsg

/-- What survives printing and parsing. -/
structure WireClean (msg : HmsMsg) : Prop extends msg.LineClean where
  lastWord : ∀ w ∈ msg.words.getLast?, w.bytes.getLast? ≠ some dot
  keyTrimmed : ∀ hdr ∈ msg.namedHeaders, Trimmed isspace hdr.key.bytes
  valTrimmed : ∀ hdr ∈ msg.namedHeaders, Trimmed isspace hdr.val.bytes
  valDot : ∀ hdr ∈ msg.namedHeaders, hdr.val.bytes.getLast? ≠ some dot
  distinct : msg.KeysDistinct
  bodySize : ∀ body ∈ msg.content, 0 < body.length ∧ (body.length : ℤ) < intMax
  bodyHeader : msg.lookup hmsContentLength =
    msg.content.map fun body => CString.ofBytes (decimal body.length)

instance (msg : HmsMsg) : Decidable msg.KeysDistinct :=
  inferInstanceAs (Decidable (List.Pairwise _ _))

instance (msg : HmsMsg) : Decidable msg.WireClean :=
  decidable_of_iff (msg.LineClean ∧ (∀ w ∈ msg.words.getLast?, w.bytes.getLast? ≠ some dot) ∧
    (∀ hdr ∈ msg.namedHeaders, Trimmed isspace hdr.key.bytes) ∧
    (∀ hdr ∈ msg.namedHeaders, Trimmed isspace hdr.val.bytes) ∧
    (∀ hdr ∈ msg.namedHeaders, hdr.val.bytes.getLast? ≠ some dot) ∧ msg.KeysDistinct ∧
    (∀ body ∈ msg.content, 0 < body.length ∧ (body.length : ℤ) < intMax) ∧
    msg.lookup hmsContentLength =
      msg.content.map fun body => CString.ofBytes (decimal body.length))
    ⟨fun ⟨h1, h2, h3, h4, h5, h6, h7, h8⟩ => ⟨h1, h2, h3, h4, h5, h6, h7, h8⟩,
      fun h => ⟨h.toLineClean, h.lastWord, h.keyTrimmed, h.valTrimmed, h.valDot, h.distinct,
        h.bodySize, h.bodyHeader⟩⟩

/-- What survives printing and parsing if the length is spelled in another way : its value
need only read as the size of the body. -/
structure Survives (msg : HmsMsg) : Prop extends msg.LineClean where
  lastWord : ∀ w ∈ msg.words.getLast?, w.bytes.getLast? ≠ some dot
  keyTrimmed : ∀ hdr ∈ msg.namedHeaders, Trimmed isspace hdr.key.bytes
  valTrimmed : ∀ hdr ∈ msg.namedHeaders, Trimmed isspace hdr.val.bytes
  valDot : ∀ hdr ∈ msg.namedHeaders, hdr.val.bytes.getLast? ≠ some dot
  distinct : msg.KeysDistinct
  bodySize : ∀ body ∈ msg.content, 0 < body.length ∧ (body.length : ℤ) < intMax
  lengthValue : ∀ v, msg.lookup hmsContentLength = some v →
    ∃ body, msg.content = some body ∧ atoi v.bytes = body.length
  lengthHeader : msg.lookup hmsContentLength = none → msg.content = none

theorem WireClean.survives {msg : HmsMsg} (h : msg.WireClean) : msg.Survives := by
  refine ⟨h.toLineClean, h.lastWord, h.keyTrimmed, h.valTrimmed, h.valDot, h.distinct, h.bodySize,
    fun v hv => ?_, fun hnone => ?_⟩
  · rw [h.bodyHeader, Option.map_eq_some_iff] at hv
    obtain ⟨body, hbody, rfl⟩ := hv
    refine ⟨body, hbody, ?_⟩
    rw [CString.bytes_ofBytes (nul_not_mem_decimal _), atoi_decimal (h.bodySize body hbody).2.le]
  · rwa [h.bodyHeader, Option.map_eq_none_iff] at hnone

/-- The message with its counters filled in, and its `Content-Length` header last. -/
def received (msg : HmsMsg) : HmsMsg :=
  let named := msg.namedHeaders.filter (fun hdr => !hdr.hasKey hmsContentLength) ++
    (msg.content.map fun body =>
      ⟨hmsContentLength, CString.ofBytes (decimal body.length)⟩).toList
  { verb := msg.verb
    headers := msg.headers
    numHeaders := msg.headers.length
    namedHeaders := named
    numNamedHeaders := named.length
    contentLen := msg.body.length
    content := msg.content }

end HmsMsg

/-- A text that ends in no blank ends in a period if it does so exactly. -/
theorem dotEnded_of_trimmed {l : List UInt8} (ht : Trimmed isspace l) (h : DotEnded l) :
    l.getLast? = some dot := by
  obtain ⟨a, b, rfl, hb⟩ := h
  rcases List.eq_nil_or_concat b with rfl | ⟨b, c, rfl⟩
  · simp
  · have hlast : (a ++ dot :: b.concat c).getLast? = some c := by
      rw [List.concat_eq_append, ← List.cons_append, ← List.append_assoc, List.getLast?_concat]
    have hc := ht.2 c hlast
    rcases hb c (by simp) with rfl | rfl <;> exact absurd hc (by decide)

theorem keyText_line {hdr : HmsMsgNheader} (hc : colon ∉ hdr.key.bytes)
    (ht : Trimmed isspace hdr.key.bytes) : keyText hdr.line = hdr.key.bytes := by
  have htake : hdr.line.takeWhile (· != colon) = hdr.key.bytes := by
    rw [HmsMsgNheader.line, List.takeWhile_append_of_pos fun c hmem => by
      simpa using fun h0 : c = colon => hc (h0 ▸ hmem)]
    simp
  rw [keyText, htake, trim_eq_self ht]

theorem valText_line {hdr : HmsMsgNheader} (hc : colon ∉ hdr.key.bytes)
    (ht : Trimmed isspace hdr.val.bytes) : valText hdr.line = hdr.val.bytes := by
  have hdrop : hdr.line.dropWhile (· != colon) = colon :: hdr.val.bytes := by
    rw [HmsMsgNheader.line, List.dropWhile_append_of_pos fun c hmem => by
      simpa using fun h0 : c = colon => hc (h0 ▸ hmem)]
    simp
  rw [valText, hdrop]
  exact trim_eq_self ht

namespace HmsMsg.Survives

variable {msg : HmsMsg} (h : msg.Survives)
include h

theorem not_dotEnded {l : List UInt8} (hl : l ∈ msg.lines) : ¬DotEnded l := by
  intro hd
  rcases h.dotEnded_lines.1 ⟨l, hl, hd⟩ with ⟨w, hw, hlast⟩ | ⟨hdr, hmem, hval⟩
  · exact h.lastWord w hw hlast
  · exact h.valDot hdr hmem (dotEnded_of_trimmed (h.valTrimmed hdr hmem) hval)

theorem readNamed_line {hdr : HmsMsgNheader} (hmem : hdr ∈ msg.namedHeaders) (m : HmsMsg) :
    readNamed m hdr.line = hmsMsgAddNamedHeader m hdr.key hdr.val := by
  have hc : colon ∉ hdr.key.bytes := fun hc => (h.key hdr hmem colon hc).1 rfl
  rw [readNamed, keyText_line hc (h.keyTrimmed hdr hmem), valText_line hc (h.valTrimmed hdr hmem),
    CString.ofBytes_bytes, CString.ofBytes_bytes]

/-- A `Content-Length` line of a clean message spells the length of its body. -/
theorem isLength_line {l : List UInt8} (hl : l ∈ msg.namedHeaders.map HmsMsgNheader.line)
    (hlen : IsLength l) : ∃ body, msg.content = some body ∧ 0 < body.length ∧
      (body.length : ℤ) < intMax ∧ atoi (valText l) = body.length := by
  obtain ⟨hdr, hmem, rfl⟩ := List.mem_map.1 hl
  have hc : colon ∉ hdr.key.bytes := fun hc => (h.key hdr hmem colon hc).1 rfl
  rw [IsLength, keyText_line hc (h.keyTrimmed hdr hmem)] at hlen
  have hlookup := lookup_of_mem h.distinct hmem (k := hmsContentLength) hlen
  obtain ⟨body, hcontent, hval⟩ := h.lengthValue _ hlookup
  obtain ⟨hpos, hmax⟩ := h.bodySize body hcontent
  refine ⟨body, hcontent, hpos, hmax, ?_⟩
  rw [valText_line hc (h.valTrimmed hdr hmem), hval]

theorem headerOk : HeaderOk msg.lines := by
  refine ⟨fun hnil => ?_, fun l hl => ?_⟩
  · have hverb := congrArg HmsMsg.verb h.verbMsg_eq
    rw [verbMsg, hnil] at hverb
    exact h.verb hverb.symm
  · refine ⟨?_, fun hlen h0 => ?_⟩
    · obtain ⟨hdr, -, rfl⟩ := List.mem_map.1 hl
      simp [HmsMsgNheader.line]
    · obtain ⟨body, -, hpos, -, hval⟩ := h.isLength_line hl hlen
      omega

/-- Lines of distinct keys are added one behind the other. -/
theorem foldl_readNamed_lines : ∀ (hdrs : List HmsMsgNheader) (m : HmsMsg),
    (∀ hdr ∈ hdrs, hdr ∈ msg.namedHeaders) →
    CLib.KeysDistinct CString.caseEq HmsMsgNheader.key (m.namedHeaders ++ hdrs) →
    (hdrs.map HmsMsgNheader.line).foldl readNamed m = { m with
      namedHeaders := m.namedHeaders ++ hdrs
      numNamedHeaders := m.numNamedHeaders + hdrs.length }
  | [], m, _, _ => by simp
  | hdr :: hdrs, m, hmem, hd => by
    have hnot : hmsMsgDelNamedHeader m hdr.key = m := by
      refine if_neg fun hany => ?_
      obtain ⟨b, hb, hsame⟩ := List.any_eq_true.1 hany
      have := (List.pairwise_append.1 hd).2.2 b hb hdr (by simp)
      rw [HmsMsgNheader.hasKey, this] at hsame
      exact absurd hsame (by decide)
    have hadd : hmsMsgAddNamedHeader m hdr.key hdr.val = { m with
        namedHeaders := m.namedHeaders ++ [hdr]
        numNamedHeaders := m.numNamedHeaders + 1 } := by
      rw [hmsMsgAddNamedHeader, hnot]
    rw [List.map_cons, List.foldl_cons, h.readNamed_line (hmem hdr (by simp)), hadd,
      foldl_readNamed_lines hdrs _ (fun x hx => hmem x (by simp [hx])) (by simpa using hd)]
    simp only [List.append_assoc, List.singleton_append, List.length_cons]
    congr 1
    push_cast
    ring

/-- The lines of a clean message give back its headers. -/
theorem headerMsg_lines : headerMsg msg.lines = { msg with
    numHeaders := msg.headers.length
    numNamedHeaders := msg.namedHeaders.length
    contentLen := 0
    content := none } := by
  have hnil : (verbMsg msg.verbLine).namedHeaders = [] := by
    rw [h.verbMsg_eq]
    rfl
  have hdistinct : CLib.KeysDistinct CString.caseEq HmsMsgNheader.key
      ((verbMsg msg.verbLine).namedHeaders ++ msg.namedHeaders) := by
    rw [hnil, List.nil_append]
    exact h.distinct
  show (msg.namedHeaders.map HmsMsgNheader.line).foldl readNamed (verbMsg msg.verbLine) = _
  rw [h.foldl_readNamed_lines msg.namedHeaders _ (fun _ hx => hx) hdistinct, h.verbMsg_eq]
  simp [hmsMsgCreate]

/-- The length that the lines of a clean message give is that of its body. -/
theorem bodyLength_lines : bodyLength msg.lines = msg.body.length := by
  rw [bodyLength_eq]
  cases hline : lengthLine msg.lines with
  | some l =>
    obtain ⟨hmem, hlen⟩ := mem_of_lengthLine hline
    obtain ⟨body, hcontent, -, -, hval⟩ := h.isLength_line hmem hlen
    simp [HmsMsg.body, hcontent, hval]
  | none =>
    cases hcontent : msg.content with
    | none => simp [HmsMsg.body, hcontent]
    | some body =>
      -- the header of the body would be a `Content-Length` line
      have hlookup : msg.lookup hmsContentLength ≠ none := fun hnone => by
        simp [h.lengthHeader hnone] at hcontent
      obtain ⟨v, hv⟩ := Option.ne_none_iff_exists'.1 hlookup
      obtain ⟨hdr, hmem, hkey, -⟩ := exists_of_lookup hv
      have hc : colon ∉ hdr.key.bytes := fun hc => (h.key hdr hmem colon hc).1 rfl
      have hlen : IsLength hdr.line := by
        rw [IsLength, keyText_line hc (h.keyTrimmed hdr hmem)]
        exact hkey
      have hfilter : hdr.line ∈ msg.lines.tail.filter fun l => IsLength l := by
        simpa [HmsMsg.lines, hlen] using ⟨hdr, hmem, rfl⟩
      rw [List.getLast?_eq_none_iff.1 hline] at hfilter
      simp at hfilter

theorem received_of_none (hc : msg.content = none) : msg.received = headerMsg msg.lines := by
  have hlookup : msg.lookup hmsContentLength = none := by
    refine Option.eq_none_iff_forall_ne_some.2 fun v hv => ?_
    obtain ⟨body, hbody, -⟩ := h.lengthValue v hv
    simp [hc] at hbody
  have hfilter : (msg.namedHeaders.filter fun hdr => !hdr.hasKey hmsContentLength) =
      msg.namedHeaders := by
    refine List.filter_eq_self.2 fun hdr hmem => ?_
    cases hk : hdr.hasKey hmsContentLength with
    | false => rfl
    | true => simp [lookup_of_mem h.distinct hmem hk] at hlookup
  rw [h.headerMsg_lines, HmsMsg.received, hfilter]
  simp [HmsMsg.body, hc]

theorem received_of_some {body : List UInt8} (hc : msg.content = some body) :
    msg.received = withBody (headerMsg msg.lines) body := by
  have hcounted : (withBody (headerMsg msg.lines) body).Counted := by
    refine HmsMsg.Counted.withBody ?_ body
    rw [h.headerMsg_lines]
    exact ⟨rfl, rfl⟩
  have hnamed : msg.received.namedHeaders = (withBody (headerMsg msg.lines) body).namedHeaders := by
    rw [withBody, namedHeaders_addNamedHeader, h.headerMsg_lines, upsert,
      eraseKey_eq_filter keyEquiv_caseEq _ h.distinct]
    simp [HmsMsg.received, hc, HmsMsgNheader.hasKey]
  refine HmsMsg.ext ?_ ?_ ?_ hnamed ?_ ?_ ?_
  · simp [HmsMsg.received, withBody, h.headerMsg_lines]
  · simp [HmsMsg.received, withBody, h.headerMsg_lines]
  · simp [HmsMsg.received, withBody, h.headerMsg_lines]
  · rw [hcounted.namedHeaders, ← hnamed]
    rfl
  · simp [HmsMsg.received, withBody, HmsMsg.body, hc]
  · simp [HmsMsg.received, withBody, hc]

/-- Decoding what was encoded, whatever follows on the stream. -/
theorem decode_encode {maxHdrLen : ℤ} (hlen : ((encodeHeader msg).length : ℤ) ≤ maxHdrLen)
    (hmax : maxHdrLen < intMax) (t : List UInt8) :
    decode maxHdrLen (encode msg ++ t) = .ok (some msg.received, t) := by
  have hstream : encode msg ++ t = unlines msg.lines ++ [dot, newline] ++ (msg.body ++ t) := by
    simp [encode, encodeHeader, HmsMsg.headerText_eq]
  have hnewline : ∀ l ∈ msg.lines, newline ∉ l := fun l hl hc => (h.mem_lines hl hc).1 rfl
  obtain ⟨f, htext, hblanks, hrest⟩ :=
    exists_frame_unlines (msg.body ++ t) hnewline fun l hl => h.not_dotEnded hl
  have hsize : f.size = (encodeHeader msg).length := by
    simp [Frame.size, htext, hblanks, encodeHeader, HmsMsg.headerText_eq]
  have hlines : headerLines f.parsed = msg.lines := by
    rw [Frame.parsed, htext, ← HmsMsg.headerText_eq, h.headerLines_eq]
  have h2 : 2 < f.size := by
    have := h.lines_ne_nil (l := msg.verbLine) (by simp [HmsMsg.lines])
    have := List.length_pos_iff.2 this
    simp [hsize, encodeHeader, HmsMsg.headerText]
    omega
  rw [hstream, decode_frame (by omega) hmax f (by rw [hsize]; exact hlen), if_pos h2,
    decodeText_eq_some f h2]
  refine ⟨h2, by rw [hlines]; exact h.headerOk, ?_⟩
  rw [hlines, hrest]
  cases hc : msg.content with
  | none =>
    have h0 : bodyLength msg.lines = 0 := by simp [h.bodyLength_lines, HmsMsg.body, hc]
    exact Or.inl ⟨(bodyLength_eq_zero h.headerOk).1 h0, h.received_of_none hc,
      by simp [HmsMsg.body, hc]⟩
  | some body =>
    have hbody := h.bodySize body hc
    have hb : msg.body = body := by simp [HmsMsg.body, hc]
    refine Or.inr ⟨body.length, by rw [h.bodyLength_lines, hb], hbody.1, hbody.2, ?_, ?_, ?_⟩
    · simp [hb]
    · rw [hb, List.take_left]
      exact h.received_of_some hc
    · rw [hb, List.drop_left]

end HmsMsg.Survives

/-- A header that is not the length is received as it was sent. -/
theorem lookup_received {msg : HmsMsg} {key : CString}
    (hkey : hmsContentLength.caseEq key = false) : msg.received.lookup key = msg.lookup key := by
  have hfilter : ∀ hdrs : List HmsMsgNheader,
      (hdrs.filter fun hdr => !hdr.hasKey hmsContentLength).find? (HmsMsgNheader.hasKey key) =
        hdrs.find? (HmsMsgNheader.hasKey key) := by
    intro hdrs
    rw [List.find?_filter]
    congr 1
    funext hdr
    cases hk : hdr.hasKey key with
    | false => simp
    | true =>
      cases hl : hdr.hasKey hmsContentLength with
      | false => simp
      | true =>
        have hcase := keyEquiv_caseEq.congr key hl
        rw [hkey] at hcase
        exact absurd (hk.symm.trans hcase) (by decide)
  have hlast : ∀ o : Option (List UInt8), (o.map fun body =>
      (⟨hmsContentLength, CString.ofBytes (decimal body.length)⟩ : HmsMsgNheader)).toList.find?
        (HmsMsgNheader.hasKey key) = none := by
    rintro (- | body)
    · rfl
    · simp [HmsMsgNheader.hasKey, hkey]
  simp only [HmsMsg.lookup, HmsMsg.received, List.find?_append, hfilter, hlast, Option.or_none]

/-! ## Building clean messages -/

/-- A named header that goes through the wire. -/
structure HmsMsgNheader.Clean (hdr : HmsMsgNheader) : Prop where
  key : ∀ c ∈ hdr.key.bytes, c ≠ colon ∧ c ≠ newline ∧ c ≠ carriageReturn
  val : ∀ c ∈ hdr.val.bytes, c ≠ newline ∧ c ≠ carriageReturn
  keyTrimmed : Trimmed isspace hdr.key.bytes
  valTrimmed : Trimmed isspace hdr.val.bytes
  valDot : hdr.val.bytes.getLast? ≠ some dot

/-- The header of a number is clean. -/
theorem clean_decimal {key : CString} (hkey : ∀ c ∈ key.bytes,
    c ≠ colon ∧ c ≠ newline ∧ c ≠ carriageReturn) (htrimmed : Trimmed isspace key.bytes) (n : ℕ) :
    (⟨key, CString.ofBytes (decimal n)⟩ : HmsMsgNheader).Clean := by
  have hnum := isNumeral_decimal n
  have hbytes : (CString.ofBytes (decimal n)).bytes = decimal n :=
    CString.bytes_ofBytes (nul_not_mem_decimal _)
  refine ⟨hkey, ?_, htrimmed, ?_, ?_⟩
  all_goals dsimp only; rw [hbytes]
  · intro c hc
    exact ⟨ne_of_isdigit (hnum.2 c hc) (by decide), ne_of_isdigit (hnum.2 c hc) (by decide)⟩
  · exact hnum.trimmed
  · intro hlast
    exact ne_of_isdigit (hnum.2 dot (List.mem_of_getLast? hlast)) (by decide) rfl

/-- The header of a length is clean. -/
theorem clean_length (n : ℕ) :
    (⟨hmsContentLength, CString.ofBytes (decimal n)⟩ : HmsMsgNheader).Clean := by
  have hkey : (∀ c ∈ hmsContentLength.bytes, c ≠ colon ∧ c ≠ newline ∧ c ≠ carriageReturn) ∧
      Trimmed isspace hmsContentLength.bytes := by
    decide
  exact clean_decimal hkey.1 hkey.2 n

/-- What every named header satisfies still holds after one is added that satisfies it. -/
theorem forall_addNamedHeader {msg : HmsMsg} {p : HmsMsgNheader → Prop} {key value : CString}
    (hall : ∀ x ∈ msg.namedHeaders, p x) (hnew : p ⟨key, value⟩) :
    ∀ x ∈ (hmsMsgAddNamedHeader msg key value).namedHeaders, p x := by
  intro x hx
  rw [namedHeaders_addNamedHeader] at hx
  rcases mem_upsert hx with rfl | hx
  · exact hnew
  · exact hall x hx

namespace HmsMsg.WireClean

variable {msg : HmsMsg} (h : msg.WireClean)
include h

theorem addNamedHeader {hdr : HmsMsgNheader} (hclean : hdr.Clean)
    (hkey : hdr.key.caseEq hmsContentLength = false) :
    (hmsMsgAddNamedHeader msg hdr.key hdr.val).WireClean where
  verb := by
    rw [verb_addNamedHeader]
    exact h.verb
  words := by
    rw [HmsMsg.words, verb_addNamedHeader, headers_addNamedHeader]
    exact h.words
  key := forall_addNamedHeader h.key hclean.key
  val := forall_addNamedHeader h.val hclean.val
  lastWord := by
    rw [HmsMsg.words, verb_addNamedHeader, headers_addNamedHeader]
    exact h.lastWord
  keyTrimmed := forall_addNamedHeader h.keyTrimmed hclean.keyTrimmed
  valTrimmed := forall_addNamedHeader h.valTrimmed hclean.valTrimmed
  valDot := forall_addNamedHeader h.valDot hclean.valDot
  distinct := h.distinct.addNamedHeader _ _
  bodySize := by
    rw [content_addNamedHeader]
    exact h.bodySize
  bodyHeader := by
    rw [lookup_addNamedHeader h.distinct, content_addNamedHeader, hkey]
    exact h.bodyHeader

theorem withBody {body : List UInt8} (hne : body ≠ []) (hmax : (body.length : ℤ) < intMax) :
    (withBody msg body).WireClean where
  verb := by
    rw [Hermes.withBody, verb_addNamedHeader]
    exact h.verb
  words := by
    rw [Hermes.withBody, HmsMsg.words, verb_addNamedHeader, headers_addNamedHeader]
    exact h.words
  key := forall_addNamedHeader h.key (clean_length body.length).key
  val := forall_addNamedHeader h.val (clean_length body.length).val
  lastWord := by
    rw [Hermes.withBody, HmsMsg.words, verb_addNamedHeader, headers_addNamedHeader]
    exact h.lastWord
  keyTrimmed := forall_addNamedHeader h.keyTrimmed (clean_length body.length).keyTrimmed
  valTrimmed := forall_addNamedHeader h.valTrimmed (clean_length body.length).valTrimmed
  valDot := forall_addNamedHeader h.valDot (clean_length body.length).valDot
  distinct := h.distinct.withBody body
  bodySize := by
    rw [Hermes.withBody, content_addNamedHeader]
    intro b hb
    obtain rfl : body = b := Option.some.inj hb
    exact ⟨List.length_pos_iff.2 hne, hmax⟩
  bodyHeader := by
    rw [lookup_withBody h.distinct, Hermes.withBody, content_addNamedHeader]
    rfl

end HmsMsg.WireClean

end Hermes
