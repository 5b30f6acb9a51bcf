import Hermes.Parsed

/-!
# What a peer can do

Three things a peer can do to the parser with the bytes it sends. A header whose length reads
as `-1` or `INT_MAX` terminates the process (`FatalLength`, `parse_returns`), a length that is
no numeral or does not fit in an `int` is taken for another one (`parsed_length`), and the
lines behind a NUL are dropped (`parsed_ignores_nothing`).
-/

open CLib

namespace Hermes

set_option maxRecDepth 8000

/-! ## Headers that terminate the process -/

/-- The stream starts with a header that is accepted as far as its lines go, and whose last
`Content-Length` value reads as `-1` or `INT_MAX`. -/
def FatalLength (s : List UInt8) : Prop :=
  ∃ f : Frame s, (f.size : ℤ) ≤ hermesMaxHdrSize ∧ 2 < f.size ∧ HeaderOk (headerLines f.parsed) ∧
    ∃ line, lengthLine (headerLines f.parsed) = some line ∧
      (atoi (valText line) = -1 ∨ atoi (valText line) = intMax)

theorem bodyLength_eq_iff {lines : List (List UInt8)} {n : ℤ} (h0 : n ≠ 0) :
    bodyLength lines = n ↔ ∃ line, lengthLine lines = some line ∧ atoi (valText line) = n := by
  rw [bodyLength_eq]
  cases lengthLine lines with
  | none => simpa using h0.symm
  | some line => simp

/-- The parser returns unless the length is fatal, whatever the bytes and however they come. -/
theorem parse_returns (sock : ReadSide) :
    (∃ r, hmsMsgParse sock hermesMaxHdrSize = .ok r) ↔ ¬FatalLength sock.unread := by
  have herror : (∃ e, hmsMsgParse sock hermesMaxHdrSize = .error e) ↔ FatalLength sock.unread := by
    simp only [hmsMsgParse_error_iff]
    rw [decode_eq_error, or_iff_right (by decide)]
    refine exists_congr fun f => and_congr_right fun _ => and_congr_right fun _ =>
      and_congr_right fun _ => ?_
    rw [bodyLength_eq_iff (by decide), bodyLength_eq_iff (by decide), ← exists_or]
    exact exists_congr fun line => and_or_left.symm
  rw [← herror]
  cases hmsMsgParse sock hermesMaxHdrSize <;> simp

/-- A length of `-1` fails an assertion and one of `INT_MAX` overflows. -/
theorem parse_returns_fatal :
    hmsMsgParse ⟨ascii "A\nContent-Length:-1\n.\n", fun _ => 0⟩ hermesMaxHdrSize =
        .error .assertion ∧
      hmsMsgParse ⟨ascii "A\nContent-Length:2147483647\n.\n", fun _ => 0⟩ hermesMaxHdrSize =
        .error .undefined := by
  have hassert : (hmsMsgParse ⟨ascii "A\nContent-Length:-1\n.\n", fun _ => 0⟩
      hermesMaxHdrSize).map Prod.fst = .error .assertion := by
    decide
  have hover : (hmsMsgParse ⟨ascii "A\nContent-Length:2147483647\n.\n", fun _ => 0⟩
      hermesMaxHdrSize).map Prod.fst = .error .undefined := by
    decide
  exact ⟨map_eq_error.1 hassert, map_eq_error.1 hover⟩

/-! ## Lengths that are no numbers -/

/-- The lines of a header up to its period, those behind a NUL too. -/
def rawLines {s : List UInt8} (f : Frame s) : List (List UInt8) :=
  tokens lineSep f.parsed

theorem rawLines_eq {s : List UInt8} {f : Frame s} (h : nul ∉ f.parsed) :
    rawLines f = headerLines f.parsed := by
  rw [headerLines, beforeNul_of_not_mem h, rawLines]

/-- The lines before the first NUL give the length `n`, zero if none of them gives one. -/
def VisibleLength {s : List UInt8} (f : Frame s) (n : ℕ) : Prop :=
  match lengthLine (headerLines f.parsed) with
  | none => n = 0
  | some line => atoi (valText line) = n

theorem visibleLength_iff {s : List UInt8} (f : Frame s) (n : ℕ) :
    VisibleLength f n ↔ bodyLength (headerLines f.parsed) = n := by
  unfold VisibleLength
  rw [bodyLength_eq]
  cases lengthLine (headerLines f.parsed) with
  | none => simp [eq_comm]
  | some line => simp

/-- The length of a parsed message is the one its visible lines give, and as many bytes are
taken from the stream. -/
theorem Decodes.contentLen_eq {s left : List UInt8} {f : Frame s} {msg : HmsMsg}
    (h : Decodes f msg left) : bodyLength (headerLines f.parsed) = msg.contentLen ∧
      msg.contentLen < intMax ∧ f.rest.length = msg.contentLen + left.length := by
  have hlen : msg.contentLen = msg.body.length := h.bodyAgrees.length
  refine ⟨?_, ?_, by rw [h.rest_eq, hlen]; simp⟩
  all_goals rcases h.body with ⟨hnone, rfl, -⟩ | ⟨n, hn, -, hmax, hle, rfl, -⟩
  · rw [bodyless_headerMsg.contentLen, bodyLength_eq, hnone]
    rfl
  · simp [hn, withBody, hle]
  · rw [bodyless_headerMsg.contentLen]
    decide
  · simpa [withBody, hle] using hmax

/-- The length of the body is what the last `Content-Length` line spells if that is a numeral,
fits in an `int`, and no NUL hides it from the parser. -/
theorem parsed_length {sock sock' : ReadSide} {maxHdrLen : ℤ} {msg : HmsMsg}
    (hparse : hmsMsgParse sock maxHdrLen = .ok (some msg, sock')) :
    ∃ f : Frame sock.unread, (f.size : ℤ) ≤ maxHdrLen ∧
      ∀ line, lengthLine (rawLines f) = some line →
        ((IsNumeral (valText line) ∧ msg.contentLen = digitsValue (valText line) ∧
            ∃ body, f.rest = body ++ sock'.unread ∧ body.length = digitsValue (valText line)) ↔
          IsNumeral (valText line) ∧ (digitsValue (valText line) : ℤ) ≤ intMax ∧
            (nul ∈ f.parsed → VisibleLength f (digitsValue (valText line)))) := by
  obtain ⟨-, f, hf, hdec⟩ := decode_eq_some.1 (hmsMsgParse_ok_iff.1 ⟨sock', hparse, rfl⟩)
  obtain ⟨hlen, hmax, hrest⟩ := hdec.contentLen_eq
  refine ⟨f, hf, fun line hline => and_congr_right fun hnum => ?_⟩
  rw [visibleLength_iff, hlen]
  constructor
  · rintro ⟨hval, -⟩
    exact ⟨by omega, fun _ => hval⟩
  · rintro ⟨hfits, hnul⟩
    have hval : msg.contentLen = digitsValue (valText line) := by
      by_cases h0 : nul ∈ f.parsed
      · exact hnul h0
      · rw [rawLines_eq h0] at hline
        rw [← hlen, bodyLength_eq, hline, Option.map_some, Option.getD_some,
          atoi_numeral hnum hfits]
    refine ⟨hval, msg.body, hdec.rest_eq, ?_⟩
    have := hdec.bodyAgrees.length
    omega

/-- The stream of a length that is read as it is spelled. -/
def helloStream : List UInt8 :=
  unlines [ascii "GET", ascii "Content-Length: 5"] ++ [dot, newline] ++ ascii "helloBYE\n.\n"

theorem parsed_length_hello : ∃ (msg : HmsMsg) (sock' : ReadSide) (f : Frame helloStream),
    hmsMsgParse ⟨helloStream, fun _ => 1⟩ hermesMaxHdrSize = .ok (some msg, sock') ∧
      (msg.contentLen = digitsValue (ascii "5") ∧
        ∃ body, f.rest = body ++ sock'.unread ∧ body.length = digitsValue (ascii "5")) := by
  have hrun : (hmsMsgParse ⟨helloStream, fun _ => 1⟩ hermesMaxHdrSize).map Prod.fst =
      .ok (some (withBody (headerMsg [ascii "GET", ascii "Content-Length: 5"])
        (ascii "hello"))) := by
    decide
  obtain ⟨sock', hparse⟩ := exists_of_map_fst hrun
  obtain ⟨f, -, hf⟩ := parsed_length hparse
  have hparsed := parsed_unlines f rfl (by decide)
  have hline : lengthLine (rawLines f) = some (ascii "Content-Length: 5") := by
    rw [rawLines, hparsed]
    decide
  have hnul : nul ∉ f.parsed := by
    rw [hparsed]
    decide
  have hval : valText (ascii "Content-Length: 5") = ascii "5" := by decide
  have hspelled := hf _ hline
  rw [hval] at hspelled
  exact ⟨_, sock', f, hparse, (hspelled.2 ⟨by decide, by decide,
    fun h0 => absurd h0 hnul⟩).2⟩

/-- A length of `2 ^ 32 + 5` is read as `5`. -/
theorem parsed_length_wraps : ∃ (sock : ReadSide) (msg : HmsMsg) (sock' : ReadSide)
    (f : Frame sock.unread) (line : List UInt8),
    sock.unread = ascii "A\nContent-Length:4294967301\n.\nhello" ∧
      hmsMsgParse sock hermesMaxHdrSize = .ok (some msg, sock') ∧
      lengthLine (rawLines f) = some line ∧ IsNumeral (valText line) ∧
      digitsValue (valText line) = 4294967301 ∧ msg.contentLen = 5 := by
  have hrun : (hmsMsgParse ⟨unlines [ascii "A", ascii "Content-Length:4294967301"] ++
      [dot, newline] ++ ascii "hello", fun _ => 0⟩ hermesMaxHdrSize).map Prod.fst =
        .ok (some (withBody (headerMsg [ascii "A", ascii "Content-Length:4294967301"])
          (ascii "hello"))) := by
    decide
  obtain ⟨sock', hparse⟩ := exists_of_map_fst hrun
  obtain ⟨-, f, -⟩ := decode_eq_some.1 (hmsMsgParse_ok_iff.1 ⟨sock', hparse, rfl⟩)
  have hparsed := parsed_unlines f rfl (by decide)
  refine ⟨_, _, sock', f, ascii "Content-Length:4294967301", ?_, hparse, ?_, ?_, ?_, ?_⟩
  · decide
  · rw [rawLines, hparsed]
    decide
  all_goals decide

/-! ## Lines that are dropped -/

/-- The first line is the verb line, word for word, and the others are named headers. -/
def NothingIgnored {s : List UInt8} (f : Frame s) (msg : HmsMsg) : Prop :=
  match rawLines f with
  | [] => True
  | first :: named =>
    (∃ verb, msg.verb = some verb ∧
      verb.bytes :: msg.headers.map CString.bytes = tokens wordSep first) ∧
    ∀ line ∈ named, colon ∈ line ∧
      ∃ hdr ∈ msg.namedHeaders, caseEq hdr.key.bytes (keyText line) = true

/-- No NUL hides a line : the first line has none, and every other line has a colon and the
key of a line before the first NUL. -/
def NothingHidden {s : List UInt8} (f : Frame s) : Prop :=
  match rawLines f with
  | [] => True
  | first :: named =>
    nul ∉ first ∧ ∀ line ∈ named, colon ∈ line ∧
      ∃ seen ∈ (headerLines f.parsed).tail, caseEq (keyText line) (keyText seen) = true

/-- A first line without a NUL is the first line that the parser sees. -/
theorem exists_headerLines_cons {text first : List UInt8} {named : List (List UInt8)}
    (h : tokens lineSep text = first :: named) (hnul : nul ∉ first) :
    ∃ seen, headerLines text = first :: seen := by
  by_cases hall : ∀ c ∈ text, lineSep c = true
  · rw [tokens_seps hall] at h
    simp at h
  obtain ⟨seps, t, r, rfl, hs, hne, ht, hr⟩ := exists_token text hall
  rw [tokens_of_split hs hne ht hr, List.cons.injEq] at h
  obtain ⟨rfl, -⟩ := h
  have hseps : nul ∉ seps := fun hc => by
    have := hs nul hc
    revert this
    decide
  have hvisible : beforeNul r = [] ∨ ∃ d r', beforeNul r = d :: r' ∧ lineSep d = true := by
    rcases hr with rfl | ⟨d, r', rfl, hd⟩
    · exact Or.inl rfl
    · obtain rfl : d = newline := by simpa [lineSep] using hd
      exact Or.inr ⟨newline, beforeNul r', rfl, hd⟩
  refine ⟨tokens lineSep (beforeNul r), ?_⟩
  rw [headerLines, beforeNul_append hseps, beforeNul_append hnul,
    tokens_of_split hs hne ht hvisible]

/-- The keys of a parsed message are those of the lines the parser saw. -/
theorem Decodes.any_hasKey {s left : List UInt8} {f : Frame s} {msg : HmsMsg}
    (h : Decodes f msg left) (k : CString) : msg.namedHeaders.any (HmsMsgNheader.hasKey k) =
      (headerLines f.parsed).tail.any fun l => (lineHeader l).hasKey k := by
  rcases h.body with ⟨-, rfl, -⟩ | ⟨n, hn, hpos, -, -, rfl, -⟩
  · exact any_hasKey_headerMsg _ k
  · have hupsert : (upsert CString.caseEq HmsMsgNheader.key
        (headerMsg (headerLines f.parsed)).namedHeaders ⟨hmsContentLength, CString.ofBytes
          (decimal (f.rest.take n).length)⟩).any (fun b => b.key.caseEq k) = _ :=
      any_upsert keyEquiv_caseEq k _ _
    rw [withBody, namedHeaders_addNamedHeader]
    refine hupsert.trans ?_
    rw [← any_hasKey_headerMsg]
    refine Bool.or_eq_right_iff_imp.2 fun hk => ?_
    -- the body has a length, so the header has its line
    obtain ⟨line, hline, -⟩ := (bodyLength_eq_iff (by omega)).1 hn
    obtain ⟨hmem, hlen⟩ := mem_of_lengthLine hline
    have hkey := (lineBytes_headerLines f (List.mem_of_mem_tail hmem)).hasKey_length.2 hlen
    refine (any_hasKey_headerMsg _ k).trans (List.any_eq_true.2 ⟨line, hmem, ?_⟩)
    exact caseEq_trans hkey hk

theorem Decodes.exists_key_iff {s left : List UInt8} {f : Frame s} {msg : HmsMsg}
    (h : Decodes f msg left) (line : List UInt8) :
    (∃ hdr ∈ msg.namedHeaders, caseEq hdr.key.bytes (keyText line) = true) ↔
      ∃ seen ∈ (headerLines f.parsed).tail, caseEq (keyText line) (keyText seen) = true := by
  have hbytes : ∀ l ∈ (headerLines f.parsed).tail, LineBytes l := fun l hl =>
    lineBytes_headerLines f (List.mem_of_mem_tail hl)
  constructor
  · rintro ⟨hdr, hmem, hkey⟩
    have hany := h.any_hasKey hdr.key
    rw [List.any_eq_true.2 ⟨hdr, hmem, keyEquiv_caseEq.refl _⟩, eq_comm, List.any_eq_true] at hany
    obtain ⟨seen, hseen, hsame⟩ := hany
    rw [HmsMsgNheader.hasKey, CString.caseEq, (hbytes seen hseen).bytes_key] at hsame
    refine ⟨seen, hseen, ?_⟩
    rw [caseEq_comm]
    exact caseEq_trans hsame hkey
  · rintro ⟨seen, hseen, hsame⟩
    have hany := h.any_hasKey (lineHeader seen).key
    rw [List.any_eq_true.2 ⟨seen, hseen, keyEquiv_caseEq.refl _⟩, List.any_eq_true] at hany
    obtain ⟨hdr, hmem, hkey⟩ := hany
    rw [HmsMsgNheader.hasKey, CString.caseEq, (hbytes seen hseen).bytes_key] at hkey
    refine ⟨hdr, hmem, caseEq_trans hkey ?_⟩
    rwa [caseEq_comm]

/-- The words of the first visible line are the verb and the unnamed headers. -/
theorem Decodes.exists_verb {s left : List UInt8} {f : Frame s} {msg : HmsMsg}
    (h : Decodes f msg left) {first : List UInt8} {named : List (List UInt8)}
    (hl : headerLines f.parsed = first :: named) : ∃ verb, msg.verb = some verb ∧
      verb.bytes :: msg.headers.map CString.bytes = tokens wordSep first := by
  have hv : msg.verb ≠ none := fun h0 => by simp [h.verb_eq_none.1 h0] at hl
  obtain ⟨verb, hverb⟩ := Option.ne_none_iff_exists'.1 hv
  have hwords := h.words_eq
  rw [hl, words_headerMsg_cons, HmsMsg.words, hverb] at hwords
  have hbytes := congrArg (List.map CString.bytes) hwords
  rw [List.map_map] at hbytes
  refine ⟨verb, hverb, hbytes.trans ?_⟩
  refine (List.map_congr_left fun t ht => ?_).trans (List.map_id _)
  refine CString.bytes_ofBytes fun hc => ?_
  have hmem := ((mem_tokens ht).2 nul hc).2
  exact (lineBytes_headerLines f (by simp [hl]) nul hmem).2.2 rfl

/-- Nothing in an accepted header is ignored unless a NUL hides it. -/
theorem parsed_ignores_nothing {sock sock' : ReadSide} {maxHdrLen : ℤ} {msg : HmsMsg}
    (hparse : hmsMsgParse sock maxHdrLen = .ok (some msg, sock')) :
    ∃ f : Frame sock.unread, (f.size : ℤ) ≤ maxHdrLen ∧
      (NothingIgnored f msg ↔ nul ∉ f.parsed ∨ NothingHidden f) := by
  obtain ⟨-, f, hf, hdec⟩ := decode_eq_some.1 (hmsMsgParse_ok_iff.1 ⟨sock', hparse, rfl⟩)
  refine ⟨f, hf, ?_⟩
  unfold NothingIgnored NothingHidden
  cases hraw : rawLines f with
  | nil => simp
  | cons first named =>
    constructor
    · rintro ⟨⟨verb, -, hwords⟩, hnamed⟩
      refine Or.inr ⟨fun hnul => ?_, fun line hl => ⟨(hnamed line hl).1, ?_⟩⟩
      · -- a NUL of the first line is in one of its words
        have hsep : wordSep nul = false := by decide
        obtain ⟨word, hword, hmem⟩ := exists_mem_tokens hnul hsep
        rw [← hwords, List.mem_cons, List.mem_map] at hword
        rcases hword with rfl | ⟨w, -, rfl⟩
        · exact verb.noNul hmem
        · exact w.noNul hmem
      · exact (hdec.exists_key_iff line).1 (hnamed line hl).2
    · rintro (hnul | ⟨hnul, hnamed⟩)
      · rw [rawLines_eq hnul] at hraw
        refine ⟨hdec.exists_verb hraw, fun line hl => ⟨?_, ?_⟩⟩
        · have hok := hdec.header
          rw [hraw] at hok
          exact (hok.2 line hl).1
        · refine (hdec.exists_key_iff line).2 ⟨line, ?_, caseEq_refl _⟩
          rwa [hraw]
      · obtain ⟨seen, hseen⟩ := exists_headerLines_cons hraw hnul
        refine ⟨hdec.exists_verb hseen, fun line hl => ⟨(hnamed line hl).1, ?_⟩⟩
        exact (hdec.exists_key_iff line).2 (hnamed line hl).2

/-- A header with a NUL that hides no line. -/
def nulStream : List UInt8 :=
  unlines [ascii "GET a", ascii "K:1\x00 2"] ++ [dot, newline]

theorem parsed_ignores_nothing_nul : ∃ (msg : HmsMsg) (sock' : ReadSide) (f : Frame nulStream),
    hmsMsgParse ⟨nulStream, fun _ => 0⟩ hermesMaxHdrSize = .ok (some msg, sock') ∧
      nul ∈ f.parsed ∧ NothingIgnored f msg := by
  have hrun : (hmsMsgParse ⟨nulStream, fun _ => 0⟩ hermesMaxHdrSize).map Prod.fst =
      .ok (some (headerMsg [ascii "GET a", ascii "K:1"])) := by
    decide
  obtain ⟨sock', hparse⟩ := exists_of_map_fst hrun
  obtain ⟨f, -, hf⟩ := parsed_ignores_nothing hparse
  have hparsed : f.parsed = (unlines [ascii "GET a", ascii "K:1\x00 2"]).map crToSpace :=
    parsed_unlines f (List.append_nil _).symm (by decide)
  refine ⟨_, sock', f, hparse, ?_, hf.2 (Or.inr ?_)⟩
  · rw [hparsed]
    decide
  · have hraw : rawLines f = [ascii "GET a", ascii "K:1\x00 2"] := by
      rw [rawLines, hparsed]
      decide
    rw [NothingHidden, hraw, hparsed]
    decide

/-- A NUL at the end of the first line hides the `Content-Length` line behind it. -/
theorem parsed_ignores_length : ∃ (sock : ReadSide) (msg : HmsMsg) (sock' : ReadSide)
    (f : Frame sock.unread), sock.unread = ascii "A\x00\nContent-Length:5\n.\nhello" ∧
      hmsMsgParse sock hermesMaxHdrSize = .ok (some msg, sock') ∧
      ascii "Content-Length:5" ∈ (rawLines f).tail ∧ msg.namedHeaders = [] ∧
      ¬NothingIgnored f msg := by
  have hrun : (hmsMsgParse ⟨unlines [ascii "A\x00", ascii "Content-Length:5"] ++ [dot, newline] ++
      ascii "hello", fun _ => 0⟩ hermesMaxHdrSize).map Prod.fst =
        .ok (some (headerMsg [ascii "A"])) := by
    decide
  obtain ⟨sock', hparse⟩ := exists_of_map_fst hrun
  obtain ⟨-, f, -⟩ := decode_eq_some.1 (hmsMsgParse_ok_iff.1 ⟨sock', hparse, rfl⟩)
  have hparsed := parsed_unlines f rfl (by decide)
  have hlines : rawLines f = [ascii "A\x00", ascii "Content-Length:5"] := by
    rw [rawLines, hparsed]
    decide
  refine ⟨_, _, sock', f, ?_, hparse, ?_, rfl, fun h => ?_⟩
  · decide
  · simp [hlines]
  · rw [NothingIgnored, hlines] at h
    obtain ⟨-, hdr, hmem, -⟩ := h.2 _ (List.mem_singleton_self _)
    exact absurd hmem (List.not_mem_nil)

end Hermes
