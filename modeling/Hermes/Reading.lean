import Hermes.Parsed

/-!
# What the parser reads

`__hms_parse_header` writes into the text it reads. Its result is that of a split which writes
nothing (`parseHeader_split`) : the lines are the non-empty segments between newlines, the words
those between blanks, and a named header is the two trimmed halves of its line.

`hms_msg_parse` reads a header and as many bytes as it says, and nothing behind them. So its
result depends on these bytes only, and not on how `read` delivers them (`parse_consumed`).
-/

open CLib

namespace Hermes

/-! ## The split -/

/-- The named headers of lines, an earlier one with an equal key taken out for each. -/
def splitNamed (named : List (List UInt8)) : List HmsMsgNheader :=
  named.foldl (fun hdrs line =>
    hdrs.filter (fun hdr => !hdr.hasKey (lineHeader line).key) ++ [lineHeader line]) []

/-- The lines that the parser accepts are read as the split says. -/
theorem namedHeaders_headerMsg (first : List UInt8) (named : List (List UInt8)) :
    (headerMsg (first :: named)).namedHeaders = splitNamed named := by
  have hfold : ∀ (ls : List (List UInt8)) (hdrs : List HmsMsgNheader),
      CLib.KeysDistinct CString.caseEq HmsMsgNheader.key hdrs →
      (ls.map lineHeader).foldl (upsert CString.caseEq HmsMsgNheader.key) hdrs =
        ls.foldl (fun hdrs line =>
          hdrs.filter (fun hdr => !hdr.hasKey (lineHeader line).key) ++ [lineHeader line]) hdrs := by
    intro ls
    induction ls with
    | nil => exact fun _ _ => rfl
    | cons line ls ih =>
      intro hdrs hd
      have herase : upsert CString.caseEq HmsMsgNheader.key hdrs (lineHeader line) =
          hdrs.filter (fun hdr => !hdr.hasKey (lineHeader line).key) ++ [lineHeader line] :=
        congrArg (· ++ [lineHeader line]) (eraseKey_eq_filter keyEquiv_caseEq _ hd)
      rw [List.map_cons, List.foldl_cons, ih _ (hd.upsert keyEquiv_caseEq _), List.foldl_cons,
        herase]
  rw [headerMsg, namedHeaders_foldl_readNamed, namedHeaders_verbMsg, hfold _ _ List.Pairwise.nil,
    splitNamed]

/-- A text with a line is accepted just if its first line has a word and every other line is a
named header whose length, if it gives one, is not zero. Then the message is that of the split. -/
theorem parseHeader_split {text first : List UInt8} {named : List (List UInt8)}
    (hnul : nul ∉ text) (hlines : tokens lineSep text = first :: named) (rest : Buffer) (len : ℤ) :
    ∃ ret msg bodyLen buffer,
      hmsParseHeader hmsMsgCreate (cells text ++ some nul :: rest) len 0 =
        .ok (ret, msg, bodyLen, buffer) ∧
      (ret = 0 ↔ (∃ c ∈ first, c ≠ space ∧ c ≠ tab) ∧ ∀ line ∈ named,
        colon ∈ line ∧ (IsLength line → atoi (valText line) ≠ 0)) ∧
      (ret = 0 → ∃ verb words, tokens wordSep first = verb :: words ∧
        msg.verb = some (CString.ofBytes verb) ∧ msg.headers = words.map CString.ofBytes ∧
        msg.namedHeaders = splitNamed named ∧
        bodyLen = (((named.filter fun line => IsLength line).getLast?).map fun line =>
          atoi (valText line)).getD 0) := by
  obtain ⟨buffer, hrun⟩ := hmsParseHeader_eq text rest len
  have htext : headerLines text = first :: named := by
    rw [headerLines, beforeNul_of_not_mem hnul, hlines]
  have hword : tokens wordSep first ≠ [] ↔ ∃ c ∈ first, c ≠ space ∧ c ≠ tab := by
    rw [Ne, tokens_eq_nil_iff]
    simp [wordSep]
  refine ⟨_, _, _, buffer, hrun, ?_, fun hret => ?_⟩
  · rw [← hword]
    by_cases hok : HeaderOk (headerLines text)
    · rw [(readHeader_of_ok hok).1]
      rw [htext] at hok
      exact iff_of_true rfl hok
    · rw [readHeader_of_not_ok hok]
      rw [htext] at hok
      exact iff_of_false (by decide) hok
  · have hok : HeaderOk (headerLines text) := by
      by_contra hno
      rw [readHeader_of_not_ok hno] at hret
      exact absurd hret (by decide)
    obtain ⟨-, hmsg, hlen⟩ := readHeader_of_ok hok
    rw [hmsg, hlen, bodyLength_eq]
    rw [htext] at hok ⊢
    obtain ⟨verb, words, hw⟩ := List.exists_cons_of_ne_nil hok.1
    obtain ⟨hverb, hheaders⟩ := verbLine_foldl_readNamed named (verbMsg first)
    refine ⟨verb, words, hw, hverb.trans ?_, hheaders.trans ?_,
      namedHeaders_headerMsg first named, rfl⟩
    · simp [verbMsg, hw, readWords, foldl_addHeader, hmsMsgSetVerb]
    · simp [verbMsg, hw, readWords, foldl_addHeader, hmsMsgSetVerb, hmsMsgCreate]

/-- A header with a repeated key, and with a blank one in front of a length. -/
theorem parseHeader_split_repeated : ∃ msg buffer,
    hmsParseHeader hmsMsgCreate
      (cells (ascii "GET \t x\n\nK: 1\n : \nk:2\ncontent-length:\t7") ++ [some nul]) 0 0 =
        .ok (0, msg, 7, buffer) ∧
      msg.namedHeaders.map (fun hdr => (hdr.key.bytes, hdr.val.bytes)) =
        [([], []), (ascii "k", ascii "2"), (ascii "content-length", ascii "7")] := by
  have hlines : tokens lineSep (ascii "GET \t x\n\nK: 1\n : \nk:2\ncontent-length:\t7") =
      ascii "GET \t x" ::
        [ascii "K: 1", ascii " : ", ascii "k:2", ascii "content-length:\t7"] := by
    decide
  obtain ⟨ret, msg, bodyLen, buffer, hrun, hiff, hread⟩ :=
    parseHeader_split (by decide) hlines [] 0
  have hret : ret = 0 := hiff.2 ⟨by decide, by decide⟩
  obtain ⟨-, -, -, -, -, hnamed, hlen⟩ := hread hret
  have h7 : bodyLen = 7 := hlen.trans (by decide)
  rw [hret, h7] at hrun
  refine ⟨msg, buffer, hrun, ?_⟩
  rw [hnamed]
  decide

/-! ## The bytes consumed -/

/-- The same header in front of other bytes. -/
def Frame.withRest {s : List UInt8} (f : Frame s) (rest : List UInt8) :
    Frame (f.text ++ dot :: f.blanks ++ [newline] ++ rest) where
  text := f.text
  blanks := f.blanks
  rest := rest
  split := rfl
  blank := f.blank
  first p hp hlt := by
    have hlen : p.length < (f.text ++ dot :: f.blanks ++ [newline]).length := by
      rwa [f.length_header]
    have hpre : p <+: f.text ++ dot :: f.blanks ++ [newline] :=
      List.prefix_of_prefix_length_le hp (List.prefix_append _ _) hlen.le
    refine f.first p (hpre.trans ?_) hlt
    exact ⟨f.rest, f.split.symm⟩

namespace Decodes

variable {s left : List UInt8} {f : Frame s} {msg : HmsMsg} (h : Decodes f msg left)
include h

/-- The bytes consumed are the header and the body. -/
theorem take_eq : s.take (f.size + msg.body.length) =
    f.text ++ dot :: f.blanks ++ [newline] ++ msg.body := by
  have hs : s = f.text ++ dot :: f.blanks ++ [newline] ++ msg.body ++ left := by
    rw [List.append_assoc _ msg.body, ← h.rest_eq]
    exact f.split
  refine (congrArg (List.take (f.size + msg.body.length)) hs).trans (List.take_left' ?_)
  rw [List.length_append, f.length_header]

theorem eq_take_append : s = s.take (f.size + msg.body.length) ++ left := by
  rw [h.take_eq, List.append_assoc, ← h.rest_eq]
  exact f.split

/-- What is behind the message does not matter. -/
theorem withRest (other : List UInt8) : Decodes (f.withRest (msg.body ++ other)) msg other := by
  refine ⟨h.nonempty, h.header, ?_⟩
  rcases h.body with ⟨hnone, hmsg, -⟩ | ⟨n, hn, hpos, hmax, hle, hmsg, -⟩
  · have hbody : msg.body = [] := by rw [hmsg, HmsMsg.body, bodyless_headerMsg.content]; rfl
    exact .inl ⟨hnone, hmsg, by rw [hbody]; rfl⟩
  · have hbody : msg.body = f.rest.take n := by simp [hmsg, HmsMsg.body, withBody]
    have hlen : msg.body.length = n := by simpa [hbody] using hle
    have htake : (msg.body ++ other).take n = msg.body := List.take_left' hlen
    refine .inr ⟨n, hn, hpos, hmax, ?_, ?_, (List.drop_left' hlen).symm⟩
    · change n ≤ (msg.body ++ other).length
      rw [List.length_append]
      omega
    · change msg = Hermes.withBody _ ((msg.body ++ other).take n)
      rw [htake, hbody]
      exact hmsg

end Decodes

/-- Two schedules of `read` for one stream give the same result and leave the same bytes. If it
is a message, it took the header and the body, and it stays the same whatever follows these. -/
theorem parse_consumed (maxHdrLen : ℤ) (s : List UInt8) (chunks chunks' : ℕ → ℕ) :
    (hmsMsgParse ⟨s, chunks⟩ maxHdrLen).map parsedAs =
        (hmsMsgParse ⟨s, chunks'⟩ maxHdrLen).map parsedAs ∧
      ∀ msg sock, hmsMsgParse ⟨s, chunks⟩ maxHdrLen = .ok (some msg, sock) →
        ∃ (f : Frame s) (n : ℕ), msg.contentLen = n ∧
          s = s.take (f.size + n) ++ sock.unread ∧ f.size + n ≤ s.length ∧
          ∀ other, ∃ sock', hmsMsgParse ⟨s.take (f.size + n) ++ other, chunks'⟩ maxHdrLen =
            .ok (some msg, sock') ∧ sock'.unread = other := by
  refine ⟨by rw [hmsMsgParse_decode, hmsMsgParse_decode], fun msg sock hparse => ?_⟩
  obtain ⟨hmax, f, hf, hdec⟩ := decode_eq_some.1 (hmsMsgParse_ok_iff.1 ⟨sock, hparse, rfl⟩)
  refine ⟨f, msg.body.length, hdec.bodyAgrees.length, hdec.eq_take_append, ?_, fun other => ?_⟩
  · have hlen := f.size_le
    have hrest := congrArg List.length (hdec.rest_eq.symm.trans f.rest_eq)
    rw [List.length_append, List.length_drop] at hrest
    change f.size ≤ s.length at hlen
    change msg.body.length + sock.unread.length = s.length - f.size at hrest
    omega
  · refine hmsMsgParse_ok_iff.2 ?_
    rw [hdec.take_eq, List.append_assoc]
    exact decode_eq_some.2 ⟨hmax, f.withRest (msg.body ++ other), hf, hdec.withRest other⟩

end Hermes
