import Hermes.Parsed

/-!
# Round trips

Printing and parsing, as `hms_msg.c` and `hms_parser.c` do them. `parse_printed` takes a clean
message through the wire, `reprint_parsed` shows that what the parser returns is a fixed point
of printing and parsing, and `readHeader_printed` says for which messages the reader stops at
the end of a printed header : those none of whose lines ends in a period.

A header may end in a period behind its last line, and the printer puts the period on a line of
its own. `parsed_relays` says which headers can be passed on under the limit they were received
under.
-/

open CLib

namespace Hermes

set_option maxRecDepth 8000

theorem printedHeader_eq_ok {msg : HmsMsg} (hv : msg.verb ≠ none) {hdr : List UInt8}
    (h : printedHeader msg = .ok hdr) :
    hdr = encodeHeader msg ∧ ((encodeHeader msg).length : ℤ) ≤ intMax := by
  obtain ⟨verb, hverb⟩ := Option.ne_none_iff_exists'.1 hv
  have hmax : ((encodeHeader msg).length : ℤ) ≤ intMax := by
    obtain ⟨size, hsize, -⟩ := bind_eq_ok.1 h
    rw [getHeaderSize_eq hverb, countInt_eq_ok] at hsize
    exact hsize.1
  rw [printedHeader_eq hverb hmax, Except.ok.injEq] at h
  exact ⟨h.symm, hmax⟩

/-! ## Where the reader stops in a printed header -/

/-- The reader stops at the end of a printed header if no line of it ends in a period. -/
theorem readHeader_printed {msg : HmsMsg} (h : msg.LineClean) {hdr t : List UInt8}
    (hp : printedHeader msg = .ok hdr) {sock : ReadSide} (hs : sock.unread = hdr ++ t)
    {buffer : Buffer} {bufLen : ℤ} (hlen : hdr.length ≤ bufLen) (hmax : bufLen ≤ intMax)
    (hbuf : bufLen ≤ buffer.length) :
    (∃ buffer' sock', hmsParseReadHeader sock buffer bufLen =
        .ok ((hdr.length : ℤ), buffer', sock') ∧ sock'.unread = t) ↔
      (∀ w ∈ msg.words.getLast?, w.bytes.getLast? ≠ some dot) ∧
        ∀ hdr ∈ msg.namedHeaders, ¬DotEnded hdr.val.bytes := by
  obtain ⟨rfl, -⟩ := printedHeader_eq_ok h.verb hp
  have hstream : sock.unread = unlines msg.lines ++ [dot, newline] ++ t := by
    rw [hs, encodeHeader, HmsMsg.headerText_eq]
  have hsize : (encodeHeader msg).length = (unlines msg.lines).length + 2 := by
    simp [encodeHeader, HmsMsg.headerText_eq]
  have hlines : (∀ l ∈ msg.lines, ¬DotEnded l) ↔
      (∀ w ∈ msg.words.getLast?, w.bytes.getLast? ≠ some dot) ∧
        ∀ hdr ∈ msg.namedHeaders, ¬DotEnded hdr.val.bytes := by
    have := not_congr h.dotEnded_lines
    push Not at this
    exact this
  rw [← hlines]
  constructor
  · -- a line that ends in a period ends the frame, and the reader stops there
    rintro ⟨buffer', sock', hrun, -⟩ l hl hdot
    by_cases hframe : ∃ f : Frame sock.unread, (f.size : ℤ) ≤ bufLen
    · obtain ⟨f, hf⟩ := hframe
      obtain ⟨tail, sock'', hread, -, -⟩ := hmsParseReadHeader_frame f hmax hbuf hf
      rw [hread, Except.ok.injEq, Prod.mk.injEq] at hrun
      have hlt : f.size < (unlines msg.lines).length + 2 := by
        revert f
        rw [hstream]
        exact fun f _ _ _ => size_lt_of_dotEnded t hl hdot f
      omega
    · have hno : ∀ f : Frame sock.unread, bufLen < f.size := fun f => by
        by_contra hle
        exact hframe ⟨f, by omega⟩
      obtain ⟨buffer'', sock'', hread, -, -⟩ :=
        hmsParseReadHeader_noFrame (by omega) hmax hbuf hno
      rw [hread, Except.ok.injEq, Prod.mk.injEq] at hrun
      omega
  · intro hdot
    obtain ⟨f, htext, hblanks, hrest⟩ : ∃ f : Frame sock.unread,
        f.text = unlines msg.lines ∧ f.blanks = [] ∧ f.rest = t := by
      rw [hstream]
      exact exists_frame_unlines t (fun l hl hc => (h.mem_lines hl hc).1 rfl) hdot
    have hfsize : f.size = (encodeHeader msg).length := by
      rw [hsize, Frame.size, htext, hblanks]
      rfl
    obtain ⟨tail, sock', hread, hleft, -⟩ :=
      hmsParseReadHeader_frame f hmax hbuf (by rw [hfsize]; exact hlen)
    rw [hfsize] at hread
    exact ⟨_, sock', hread, hleft.trans hrest⟩

/-- A named value that ends in a period ends the header. -/
theorem readHeader_printed_valueDot : ∃ (msg : HmsMsg) (hdr : List UInt8), msg.LineClean ∧
    printedHeader msg = .ok hdr ∧ hdr = ascii "A\nK:v.\n.\n" ∧
    ¬∃ buffer' sock', hmsParseReadHeader ⟨hdr, fun _ => 0⟩ (Buffer.uninit hdr.length) hdr.length =
      .ok ((hdr.length : ℤ), buffer', sock') ∧ sock'.unread = [] := by
  refine ⟨⟨some (CString.ofBytes (ascii "A")), [], 0,
    [⟨CString.ofBytes (ascii "K"), CString.ofBytes (ascii "v.")⟩], 1, 0, none⟩, _,
    by decide, by decide, rfl, ?_⟩
  rintro ⟨buffer', sock', hrun, -⟩
  have hstop : (hmsParseReadHeader ⟨ascii "A\nK:v.\n.\n", fun _ => 0⟩
      (Buffer.uninit (ascii "A\nK:v.\n.\n").length) (ascii "A\nK:v.\n.\n").length).map
        Prod.fst = .ok 7 := by
    decide
  rw [hrun] at hstop
  have h7 : ((ascii "A\nK:v.\n.\n").length : ℤ) = 7 := Except.ok.inj hstop
  exact absurd h7 (by decide)

/-- The copy client's message, with its body. -/
def copyMsg : HmsMsg where
  verb := some (CString.ofBytes (ascii "COPY"))
  headers := []
  numHeaders := 0
  namedHeaders := [⟨CString.ofBytes (ascii "Filename"), CString.ofBytes (ascii "blah")⟩,
    ⟨CString.ofBytes (ascii "content-length"), CString.ofBytes (ascii "12")⟩,
    ⟨CString.ofBytes (ascii "Offset"), CString.ofBytes (ascii "0")⟩]
  numNamedHeaders := 3
  contentLen := 12
  content := some (ascii "hello world!")

theorem readHeader_printed_copyMsg : ∃ hdr, printedHeader copyMsg = .ok hdr ∧
    ∃ buffer' sock', hmsParseReadHeader ⟨hdr ++ ascii "PING", fun _ => 0⟩
      (Buffer.uninit hdr.length) hdr.length = .ok ((hdr.length : ℤ), buffer', sock') ∧
        sock'.unread = ascii "PING" := by
  have hp : printedHeader copyMsg =
      .ok (ascii "COPY\nFilename:blah\ncontent-length:12\nOffset:0\n.\n") := by
    decide
  refine ⟨_, hp, (readHeader_printed (by decide) hp rfl le_rfl (by decide)
    (by simp)).2 ⟨by decide, ?_⟩⟩
  have hlast : ∀ hdr ∈ copyMsg.namedHeaders, hdr.val.bytes.getLast? ≠ some dot := by
    decide
  have htrim : ∀ hdr ∈ copyMsg.namedHeaders, Trimmed isspace hdr.val.bytes := by
    decide
  exact fun hdr hmem hdot => hlast hdr hmem (dotEnded_of_trimmed (htrim hdr hmem) hdot)

/-! ## Printing, then parsing -/

/-- A clean message goes through the wire : whatever follows it and however `read` cuts the
stream, it is parsed back with its `Content-Length` at the end. -/
theorem parse_printed {msg : HmsMsg} (h : msg.WireClean) {size maxHdrLen : ℤ}
    (hsize : hmsMsgGetHeaderSize msg = .ok size) (hle : size ≤ maxHdrLen)
    (hmax : maxHdrLen < intMax) (t : List UInt8) :
    ∃ hdr, printedHeader msg = .ok hdr ∧
      ∀ sock : ReadSide, sock.unread = hdr ++ msg.body ++ t →
        ∃ msg' sock', hmsMsgParse sock maxHdrLen = .ok (some msg', sock') ∧ sock'.unread = t ∧
          msg'.verb = msg.verb ∧ msg'.headers = msg.headers ∧ msg'.content = msg.content ∧
          msg'.contentLen = msg.body.length ∧
          msg'.namedHeaders =
            msg.namedHeaders.filter (fun hdr => !hdr.hasKey hmsContentLength) ++
              (msg.content.map fun body =>
                ⟨hmsContentLength, CString.ofBytes (decimal body.length)⟩).toList := by
  obtain ⟨verb, hverb⟩ := Option.ne_none_iff_exists'.1 h.verb
  rw [getHeaderSize_eq hverb, countInt_eq_ok] at hsize
  obtain ⟨hfits, rfl⟩ := hsize
  refine ⟨encodeHeader msg, printedHeader_eq hverb hfits, fun sock hs => ?_⟩
  have hdecode := h.survives.decode_encode hle hmax t
  rw [encode, ← hs] at hdecode
  obtain ⟨sock', hparse, hleft⟩ := hmsMsgParse_ok_iff.2 hdecode
  exact ⟨msg.received, sock', hparse, hleft, rfl, rfl, rfl, rfl, rfl⟩

theorem parse_printed_copyMsg : ∃ hdr, printedHeader copyMsg = .ok hdr ∧
    ∀ sock : ReadSide, sock.unread = hdr ++ copyMsg.body ++ ascii "BYE .\n" →
      ∃ msg' sock', hmsMsgParse sock 1024 = .ok (some msg', sock') ∧
        sock'.unread = ascii "BYE .\n" ∧ msg'.verb = copyMsg.verb ∧
        msg'.headers = copyMsg.headers ∧ msg'.content = copyMsg.content ∧
        msg'.contentLen = copyMsg.body.length ∧
        msg'.namedHeaders =
          copyMsg.namedHeaders.filter (fun hdr => !hdr.hasKey hmsContentLength) ++
            (copyMsg.content.map fun body =>
              ⟨hmsContentLength, CString.ofBytes (decimal body.length)⟩).toList := by
  have hsize : hmsMsgGetHeaderSize copyMsg = .ok 48 := by decide
  exact parse_printed (by decide) hsize (by decide) (by decide) _

/-- A limit of `INT_MAX` overflows the size of the buffer, and a `content-length` comes back
in the library's own spelling. -/
theorem parse_printed_limits :
    (copyMsg.WireClean ∧ (∃ size, hmsMsgGetHeaderSize copyMsg = .ok size ∧ size ≤ intMax) ∧
      ∀ sock, hmsMsgParse sock intMax = .error .undefined) ∧
    ∃ hdr msg' sock', printedHeader copyMsg = .ok hdr ∧
      hmsMsgParse ⟨hdr ++ copyMsg.body, fun n => n⟩ 1024 = .ok (some msg', sock') ∧
        msg'.namedHeaders ≠
          copyMsg.namedHeaders.filter (fun hdr => !hdr.hasKey hmsContentLength) ++
            copyMsg.namedHeaders.filter (fun hdr => hdr.hasKey hmsContentLength) := by
  have hsize : hmsMsgGetHeaderSize copyMsg = .ok 48 := by decide
  have hp : printedHeader copyMsg =
      .ok (ascii "COPY\nFilename:blah\ncontent-length:12\nOffset:0\n.\n") := by
    decide
  refine ⟨⟨by decide, ⟨48, hsize, by decide⟩, fun sock => ?_⟩, ?_⟩
  · rw [hmsMsgParse, headerBuffer_overflow le_rfl, error_bind]
  · have hrun : (hmsMsgParse ⟨ascii "COPY\nFilename:blah\ncontent-length:12\nOffset:0\n.\n" ++
        copyMsg.body, fun n => n⟩ 1024).map Prod.fst = .ok (some copyMsg.received) := by
      decide
    obtain ⟨sock', hparse⟩ := exists_of_map_fst hrun
    exact ⟨_, copyMsg.received, sock', hp, hparse, by decide⟩

/-! ## Parsing, then printing -/

/-- What the parser returns is a fixed point of printing and parsing. -/
theorem reprint_parsed {sock sock' : ReadSide} {maxHdrLen : ℤ} {msg : HmsMsg}
    (hparse : hmsMsgParse sock maxHdrLen = .ok (some msg, sock')) (hv : msg.verb ≠ none)
    (hlast : ∀ w ∈ msg.words.getLast?, w.bytes.getLast? ≠ some dot)
    (hdot : ∀ hdr ∈ msg.namedHeaders, hdr.val.bytes.getLast? ≠ some dot) :
    ∃ size hdr, hmsMsgGetHeaderSize msg = .ok size ∧ printedHeader msg = .ok hdr ∧
      hdr.length = size ∧ ∀ maxHdrLen' : ℤ, size ≤ maxHdrLen' → maxHdrLen' < intMax →
        ∀ (t : List UInt8) (sock₂ : ReadSide), sock₂.unread = hdr ++ msg.body ++ t →
          ∃ sock₂', hmsMsgParse sock₂ maxHdrLen' = .ok (some msg, sock₂') ∧
            sock₂'.unread = t := by
  obtain ⟨⟨-, hmax⟩, f, hf, hdec⟩ := decode_eq_some.1 (hmsMsgParse_ok_iff.1 ⟨sock', hparse, rfl⟩)
  have hclean := hdec.wireClean hv hlast hdot
  have hfits : ((encodeHeader msg).length : ℤ) ≤ intMax := by
    have := (hdec.length_encodeHeader hv).1
    omega
  obtain ⟨verb, hverb⟩ := Option.ne_none_iff_exists'.1 hv
  refine ⟨(encodeHeader msg).length, encodeHeader msg,
    by rw [getHeaderSize_eq hverb, countInt_ok hfits], printedHeader_eq hverb hfits, rfl, ?_⟩
  intro maxHdrLen' hle hmax' t sock₂ hs
  have hdecode := hclean.survives.decode_encode hle hmax' t
  rw [encode, ← hs, hdec.received_eq] at hdecode
  exact hmsMsgParse_ok_iff.2 hdecode

/-- A sloppy stream : blank lines, tabs, carriage returns, a key given twice, and a signed
length. -/
def sloppyStream : ReadSide where
  unread := ascii "\n\n GET \t a\r\n k : 1 \nK:2\ncontent-LENGTH: +3x\n. \nabcPING .\n"
  chunks n := n % 3

/-- What `sloppyStream` is parsed as. -/
def tidyMsg : HmsMsg where
  verb := some (CString.ofBytes (ascii "GET"))
  headers := [CString.ofBytes (ascii "a")]
  numHeaders := 1
  namedHeaders := [⟨CString.ofBytes (ascii "K"), CString.ofBytes (ascii "2")⟩,
    ⟨CString.ofBytes (ascii "Content-Length"), CString.ofBytes (ascii "3")⟩]
  numNamedHeaders := 2
  contentLen := 3
  content := some (ascii "abc")

theorem parse_sloppyStream : ∃ sock', hmsMsgParse sloppyStream 1024 = .ok (some tidyMsg, sock') :=
  exists_of_map_fst (by decide)

theorem reprint_parsed_sloppyStream :
    ∃ size hdr, hmsMsgGetHeaderSize tidyMsg = .ok size ∧ printedHeader tidyMsg = .ok hdr ∧
      hdr.length = size ∧ ∀ maxHdrLen' : ℤ, size ≤ maxHdrLen' → maxHdrLen' < intMax →
        ∀ (t : List UInt8) (sock₂ : ReadSide), sock₂.unread = hdr ++ tidyMsg.body ++ t →
          ∃ sock₂', hmsMsgParse sock₂ maxHdrLen' = .ok (some tidyMsg, sock₂') ∧
            sock₂'.unread = t := by
  obtain ⟨sock', hparse⟩ := parse_sloppyStream
  exact reprint_parsed hparse (by decide) (by decide) (by decide)

/-- With a limit of `INT_MAX` the second parse overflows the size of its buffer. -/
theorem reprint_parsed_limit : ∃ sock', hmsMsgParse sloppyStream 1024 = .ok (some tidyMsg, sock') ∧
    tidyMsg.verb ≠ none ∧ (∀ w ∈ tidyMsg.words.getLast?, w.bytes.getLast? ≠ some dot) ∧
    (∀ hdr ∈ tidyMsg.namedHeaders, hdr.val.bytes.getLast? ≠ some dot) ∧
    (∃ size, hmsMsgGetHeaderSize tidyMsg = .ok size ∧ size ≤ intMax) ∧
    ∀ sock₂, hmsMsgParse sock₂ intMax = .error .undefined := by
  obtain ⟨sock', hparse⟩ := parse_sloppyStream
  have hsize : hmsMsgGetHeaderSize tidyMsg = .ok 29 := by decide
  refine ⟨sock', hparse, by decide, by decide, by decide,
    ⟨29, hsize, by decide⟩, fun sock₂ => ?_⟩
  rw [hmsMsgParse, headerBuffer_overflow le_rfl, error_bind]

/-! ## Relaying a message -/

/-- No line of a header ends in a period when it is printed : neither the last word nor a value
that is kept as it is. -/
structure Frame.Undotted {s : List UInt8} (f : Frame s) : Prop where
  word : ∀ first ∈ (headerLines f.parsed).head?, ∀ w ∈ (tokens wordSep first).getLast?,
    w.getLast? ≠ some dot
  value : ∀ before line after, (headerLines f.parsed).tail = before ++ line :: after →
    ¬IsLength line → (∀ l ∈ after, caseEq (keyText l) (keyText line) = false) →
      (valText line).getLast? ≠ some dot

/-- A named header is kept if no later line has its key. -/
theorem mem_namedHeaders_headerMsg (lines : List (List UInt8)) (hdr : HmsMsgNheader) :
    hdr ∈ (headerMsg lines).namedHeaders ↔
      ∃ before line after, lines.tail = before ++ line :: after ∧ lineHeader line = hdr ∧
        ∀ l ∈ after, (lineHeader l).hasKey (lineHeader line).key = false := by
  cases lines with
  | nil =>
    have hnil : (headerMsg []).namedHeaders = [] := rfl
    simp [hnil]
  | cons first named =>
    rw [headerMsg, namedHeaders_foldl_readNamed, namedHeaders_verbMsg,
      mem_foldl_upsert keyEquiv_caseEq]
    constructor
    · rintro ⟨before, after, hsplit, hafter⟩
      obtain ⟨before', rest, hnamed, rfl, hrest⟩ := List.map_eq_append_iff.1 hsplit
      obtain ⟨line, after', rfl, rfl, rfl⟩ := List.map_eq_cons_iff.1 hrest
      exact ⟨before', line, after', hnamed, rfl, fun l hl => hafter _ (List.mem_map_of_mem hl)⟩
    · rintro ⟨before, line, after, hnamed, rfl, hafter⟩
      have hmap := congrArg (List.map lineHeader) hnamed
      rw [List.map_append, List.map_cons] at hmap
      refine ⟨_, _, hmap, fun b hb => ?_⟩
      obtain ⟨l, hl, rfl⟩ := List.mem_map.1 hb
      exact hafter l hl

namespace Decodes

variable {s left : List UInt8} {f : Frame s} {msg : HmsMsg} (h : Decodes f msg left)
include h

/-- The length aside, a parsed message has the named headers of its lines. -/
theorem mem_namedHeaders {hdr : HmsMsgNheader} (hk : hdr.hasKey hmsContentLength = false) :
    hdr ∈ msg.namedHeaders ↔ hdr ∈ (headerMsg (headerLines f.parsed)).namedHeaders := by
  rcases h.body with ⟨-, rfl, -⟩ | ⟨n, -, -, -, -, rfl, -⟩
  · exact Iff.rfl
  · have hb : (headerMsg (headerLines f.parsed)).KeysDistinct := bodyless_headerMsg.distinct
    have herase : eraseKey CString.caseEq HmsMsgNheader.key hmsContentLength
        (headerMsg (headerLines f.parsed)).namedHeaders = _ :=
      eraseKey_eq_filter keyEquiv_caseEq hmsContentLength hb
    have hne : ∀ v, hdr ≠ ⟨hmsContentLength, v⟩ := by
      rintro v rfl
      have hsame : HmsMsgNheader.hasKey hmsContentLength ⟨hmsContentLength, v⟩ = true :=
        keyEquiv_caseEq.refl _
      simp [hsame] at hk
    rw [withBody, namedHeaders_addNamedHeader, upsert, herase, List.mem_append, List.mem_filter,
      List.mem_singleton]
    have hkey : hdr.key.caseEq hmsContentLength = false := hk
    simp [hne, hkey]

/-- A length does not end in a period. -/
theorem length_undotted {hdr : HmsMsgNheader} (hmem : hdr ∈ msg.namedHeaders)
    (hk : hdr.hasKey hmsContentLength = true) : hdr.val.bytes.getLast? ≠ some dot := by
  have hlookup := lookup_of_mem h.distinct hmem hk
  rcases h.body with ⟨hnone, rfl, -⟩ | ⟨n, -, -, -, -, rfl, -⟩
  · simp [lookup_length, hnone] at hlookup
  · rw [lookup_withBody bodyless_headerMsg.distinct, Option.some.injEq] at hlookup
    rw [← hlookup, CString.bytes_ofBytes (nul_not_mem_decimal _)]
    intro hlast
    exact (isNumeral_decimal _).not_mem (by decide) (List.mem_of_getLast? hlast)

/-- The last word of a parsed message is that of the first line. -/
theorem lastWord_iff (hv : msg.verb ≠ none) :
    (∀ w ∈ msg.words.getLast?, w.bytes.getLast? ≠ some dot) ↔
      ∀ first ∈ (headerLines f.parsed).head?, ∀ w ∈ (tokens wordSep first).getLast?,
        w.getLast? ≠ some dot := by
  obtain ⟨first, named, hl⟩ := List.exists_cons_of_ne_nil fun hnil => hv (h.verb_eq_none.2 hnil)
  have hfirst : LineBytes first := lineBytes_headerLines f (by simp [hl])
  have hbytes : ∀ w ∈ (tokens wordSep first).getLast?, (CString.ofBytes w).bytes = w :=
    fun w hw => CString.bytes_ofBytes fun hc =>
      (hfirst nul ((mem_tokens (List.mem_of_getLast? hw)).2 nul hc).2).2.2 rfl
  rw [h.words_eq, hl, words_headerMsg_cons, List.getLast?_map]
  constructor
  · rintro hlast _ ⟨⟩ w hw
    have := hlast (CString.ofBytes w) (Option.mem_map_of_mem _ hw)
    rwa [hbytes w hw] at this
  · intro hlast w' hw'
    obtain ⟨w, hw, rfl⟩ := Option.mem_map.1 hw'
    rw [hbytes w hw]
    exact hlast first rfl w hw

/-- Which printed lines end in a period is seen in the header received. -/
theorem undotted_iff (hv : msg.verb ≠ none) :
    ((∀ w ∈ msg.words.getLast?, w.bytes.getLast? ≠ some dot) ∧
      ∀ hdr ∈ msg.namedHeaders, hdr.val.bytes.getLast? ≠ some dot) ↔ f.Undotted := by
  have hline : ∀ l ∈ (headerLines f.parsed).tail, LineBytes l := fun l hl =>
    lineBytes_headerLines f (List.mem_of_mem_tail hl)
  rw [h.lastWord_iff hv]
  constructor
  · rintro ⟨hword, hval⟩
    refine ⟨hword, fun before line after hsplit hlen hafter => ?_⟩
    have hb := hline line (by simp [hsplit])
    have hkey : (lineHeader line).hasKey hmsContentLength = false := by
      rw [Bool.eq_false_iff]
      exact fun hk => hlen (hb.hasKey_length.1 hk)
    rw [← hb.bytes_val]
    refine hval _ ((h.mem_namedHeaders hkey).2 ?_)
    refine (mem_namedHeaders_headerMsg _ _).2 ⟨before, line, after, hsplit, rfl, fun l hl => ?_⟩
    rw [HmsMsgNheader.hasKey, CString.caseEq, (hline l (by simp [hsplit, hl])).bytes_key, hb.bytes_key]
    exact hafter l hl
  · rintro ⟨hword, hval⟩
    refine ⟨hword, fun hdr hmem => ?_⟩
    cases hk : hdr.hasKey hmsContentLength
    · obtain ⟨before, line, after, hsplit, rfl, hafter⟩ :=
        (mem_namedHeaders_headerMsg _ _).1 ((h.mem_namedHeaders hk).1 hmem)
      have hb := hline line (by simp [hsplit])
      rw [hb.bytes_val]
      refine hval before line after hsplit (fun hlen => ?_) fun l hl => ?_
      · simp [hb.hasKey_length.2 hlen] at hk
      · have := hafter l hl
        rwa [HmsMsgNheader.hasKey, CString.caseEq, (hline l (by simp [hsplit, hl])).bytes_key,
          hb.bytes_key] at this
    · exact h.length_undotted hmem hk

end Decodes

/-- A message can be passed on under the limit it was received under : it fits, it prints, and a
peer with the same limit receives it. -/
structure Relays (msg : HmsMsg) (maxHdrLen : ℤ) : Prop where
  size : ∃ size, hmsMsgGetHeaderSize msg = .ok size ∧ size ≤ maxHdrLen
  print : ∀ buffer : Buffer, (buffer.length : ℤ) = maxHdrLen →
    ∃ buffer', hmsMsgPrintHeader msg buffer maxHdrLen = .ok (0, buffer')
  peer : ∃ hdr, printedHeader msg = .ok hdr ∧
    ∀ (t : List UInt8) (sock : ReadSide), sock.unread = hdr ++ msg.body ++ t →
      ∃ sock', hmsMsgParse sock maxHdrLen = .ok (some msg, sock') ∧ sock'.unread = t

/-- If a message is read back from what is printed of it, no printed line ends in a period : the
frame that is read is the whole header, and so does not end at a line before. -/
theorem not_dotEnded_of_readBack {msg : HmsMsg} {maxHdrLen : ℤ} {sock sock' : ReadSide}
    (hs : sock.unread = encodeHeader msg ++ msg.body)
    (hparse : hmsMsgParse sock maxHdrLen = .ok (some msg, sock')) (hleft : sock'.unread = []) :
    ∀ l ∈ msg.lines, ¬DotEnded l := by
  intro l hl hdot
  have hstream : encodeHeader msg ++ msg.body =
      unlines msg.lines ++ [dot, newline] ++ msg.body := by
    rw [encodeHeader, HmsMsg.headerText_eq]
  obtain ⟨-, f, -, hdec⟩ := decode_eq_some.1 (hmsMsgParse_ok_iff.1 ⟨sock', hparse, hleft⟩)
  have hrest := congrArg List.length (hdec.rest_eq.symm.trans f.rest_eq)
  revert f
  rw [hs, hstream]
  intro f _ hrest
  have hlt := size_lt_of_dotEnded msg.body hl hdot f
  simp at hrest
  omega

/-- A parsed message can be passed on under its limit just if its header was shorter than the
limit or had something that printing drops, and no printed line ends in a period. -/
theorem parsed_relays {sock sock' : ReadSide} {maxHdrLen : ℤ} {msg : HmsMsg}
    (hparse : hmsMsgParse sock maxHdrLen = .ok (some msg, sock')) (hv : msg.verb ≠ none) :
    ∃ f : Frame sock.unread, (f.size : ℤ) ≤ maxHdrLen ∧
      (Relays msg maxHdrLen ↔ ((f.size : ℤ) < maxHdrLen ∨ ¬f.Tight) ∧ f.Undotted) := by
  obtain ⟨⟨hpos, hmax⟩, f, hf, hdec⟩ :=
    decode_eq_some.1 (hmsMsgParse_ok_iff.1 ⟨sock', hparse, rfl⟩)
  obtain ⟨hle, htight⟩ := hdec.length_encodeHeader hv
  obtain ⟨verb, hverb⟩ := Option.ne_none_iff_exists'.1 hv
  have hfits : ((encodeHeader msg).length : ℤ) ≤ intMax := by omega
  have hsize : hmsMsgGetHeaderSize msg = .ok ((encodeHeader msg).length : ℤ) := by
    rw [getHeaderSize_eq hverb, countInt_ok hfits]
  have hprinted := printedHeader_eq hverb hfits
  have hroom : ((encodeHeader msg).length : ℤ) ≤ maxHdrLen ↔
      (f.size : ℤ) < maxHdrLen ∨ ¬f.Tight := by
    rw [← htight]
    omega
  refine ⟨f, hf, ?_⟩
  rw [← hroom, ← hdec.undotted_iff hv]
  constructor
  · rintro ⟨⟨size, hget, hsizeLe⟩, -, hdr, hp, hpeer⟩
    rw [hsize, Except.ok.injEq] at hget
    rw [hprinted, Except.ok.injEq] at hp
    subst hget hp
    have hclean := hdec.lineClean hv
    obtain ⟨sock₂, hrecv, hleft⟩ := hpeer [] ⟨encodeHeader msg ++ msg.body, fun _ => 0⟩ (by simp)
    have hlines : ¬∃ l ∈ msg.lines, DotEnded l := fun ⟨l, hl, hdot⟩ =>
      not_dotEnded_of_readBack rfl hrecv hleft l hl hdot
    rw [hclean.dotEnded_lines] at hlines
    refine ⟨hsizeLe, fun w hw hlast => hlines (.inl ⟨w, hw, hlast⟩), fun hdr hmem hlast =>
      hlines (.inr ⟨hdr, hmem, ?_⟩)⟩
    obtain ⟨a, ha⟩ := List.getLast?_eq_some_iff.1 hlast
    rw [ha]
    exact dotEnded_append_dot a
  · rintro ⟨hsizeLe, hlast, hdot⟩
    obtain ⟨size, hdr, hget, hp, -, hpeer⟩ := reprint_parsed hparse hv hlast hdot
    rw [hsize, Except.ok.injEq] at hget
    subst hget
    refine ⟨⟨_, hsize, hsizeLe⟩, fun buffer hbuf => ?_, hdr, hp, hpeer maxHdrLen hsizeLe hmax⟩
    exact ⟨_, printHeader_eq hverb hfits (by omega) maxHdrLen⟩

theorem parsed_relays_sloppyStream : Relays tidyMsg 1024 := by
  obtain ⟨sock', hparse⟩ := parse_sloppyStream
  obtain ⟨f, -, hrelays⟩ := parsed_relays hparse (by decide)
  obtain ⟨-, g, -, hdec⟩ := decode_eq_some.1 (hmsMsgParse_ok_iff.1 ⟨sock', hparse, rfl⟩)
  obtain rfl := f.subsingleton g
  have hlen : sloppyStream.unread.length < 1024 := by decide
  have hsize := f.size_le
  exact hrelays.2 ⟨.inl (by omega), (hdec.undotted_iff (by decide)).1 ⟨by decide, by decide⟩⟩

/-- A header of just the limit whose period is not on a line of its own prints in one byte
more. -/
theorem parsed_relays_overflow : ∃ (msg : HmsMsg) (sock' : ReadSide),
    hmsMsgParse ⟨ascii "A.\n", fun _ => 0⟩ 3 = .ok (some msg, sock') ∧ msg.verb ≠ none ∧
      hmsMsgGetHeaderSize msg = .ok 4 ∧
      hmsMsgPrintHeader msg (Buffer.uninit 3) 3 = .error .undefined ∧ ¬Relays msg 3 := by
  have hrun : (hmsMsgParse ⟨ascii "A.\n", fun _ => 0⟩ 3).map Prod.fst =
      .ok (some (hmsMsgSetVerb hmsMsgCreate (CString.ofBytes (ascii "A")))) := by
    decide
  obtain ⟨sock', hparse⟩ := exists_of_map_fst hrun
  have hsize : hmsMsgGetHeaderSize (hmsMsgSetVerb hmsMsgCreate (CString.ofBytes (ascii "A"))) =
      .ok 4 := by
    decide
  refine ⟨_, sock', hparse, by decide, hsize, by decide, ?_⟩
  rintro ⟨⟨size, hget, hle⟩, -, -⟩
  rw [hsize, Except.ok.injEq] at hget
  omega

end Hermes
