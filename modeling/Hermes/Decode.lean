import Hermes.Framing
import Hermes.HeaderText
import Hermes.Consistency

/-!
# The decoder

`decode` says what `hms_msg_parse` makes of a byte stream, without sockets, buffers or
loops : it finds the frame, reads its text as a list of lines and cuts the body off the rest.
`hmsMsgParse_decode` is the refinement : whatever the schedule of `read`, the function has
the outcome of `decode` and leaves the bytes that `decode` leaves.
-/

open CLib

namespace Hermes

/-! ## Messages without a body -/

/-- What the header loop keeps of the message it fills. -/
structure Bodyless (msg : HmsMsg) : Prop where
  counted : msg.Counted
  distinct : msg.KeysDistinct
  content : msg.content = none
  contentLen : msg.contentLen = 0

theorem bodyless_create : Bodyless hmsMsgCreate :=
  ⟨counted_create, List.Pairwise.nil, rfl, rfl⟩

theorem Bodyless.readWords {msg : HmsMsg} (h : Bodyless msg) (verb : List UInt8)
    (words : List (List UInt8)) : Bodyless (readWords msg verb words) := by
  have hfold : ∀ (l : List CString) (msg : HmsMsg), Bodyless msg →
      Bodyless (l.foldl hmsMsgAddHeader msg) := by
    intro l
    induction l with
    | nil => exact fun _ h => h
    | cons w l ih =>
      intro msg h
      exact ih _ ⟨h.counted.addHeader w, h.distinct, h.content, h.contentLen⟩
  exact hfold _ _ ⟨h.counted.setVerb _, h.distinct, h.content, h.contentLen⟩

theorem Bodyless.addNamedHeader {msg : HmsMsg} (h : Bodyless msg) (key value : CString) :
    Bodyless (hmsMsgAddNamedHeader msg key value) :=
  ⟨h.counted.addNamedHeader _ _, h.distinct.addNamedHeader _ _,
    (content_addNamedHeader _ _ _).trans h.content,
    (contentLen_addNamedHeader _ _ _).trans h.contentLen⟩

theorem Bodyless.readNamed {msg : HmsMsg} (h : Bodyless msg) (line : List UInt8) :
    Bodyless (readNamed msg line) :=
  h.addNamedHeader _ _

theorem Bodyless.headerStep {st : HeaderLines} (h : Bodyless st.msg) (line : List UInt8) :
    Bodyless (headerStep st line).1.msg := by
  unfold Hermes.headerStep
  split_ifs
  · cases tokens wordSep line with
    | nil => exact h
    | cons verb words => exact h.readWords verb words
  · exact h
  · exact h.readNamed line
  · exact h.readNamed line
  · exact h

theorem bodyless_readHeader (text : List UInt8) : Bodyless (readHeader text).msg :=
  foldUntil_invariant (P := fun st : HeaderLines => Bodyless st.msg)
    (fun _ line h => h.headerStep line) _ _ bodyless_create

theorem Bodyless.bodyAgrees {msg : HmsMsg} (h : Bodyless msg)
    (hl : msg.lookup hmsContentLength = none) : msg.BodyAgrees where
  length := by simp [h.contentLen, HmsMsg.body, h.content]
  le_max := by
    rw [h.contentLen]
    decide
  header v hv := by simp [hl] at hv
  noHeader _ := h.content

/-! ## The body loop -/

/-- The body loop is to read `n` bytes and has stored `got`. -/
structure BodyInv (n : ℕ) (got : List UInt8) (st : BodyRead) : Prop where
  stored : ∃ rest, st.buffer = cells got ++ rest
  readIn : st.readIn = got.length
  length_le : got.length ≤ n
  room : n ≤ st.buffer.length

namespace BodyInv

variable {n : ℕ} {got : List UInt8} {st : BodyRead} (hinv : BodyInv n got st) (fuel : ℕ)
include hinv

/-- All bytes are read. -/
theorem readBodyLoop_stop (hlen : n ≤ got.length) : readBodyLoop n fuel st = .ok st := by
  have hstop : ¬(st.readIn : ℤ) < n := by
    rw [hinv.readIn]
    omega
  cases fuel <;> rw [readBodyLoop, if_neg hstop]

/-- One iteration on the bytes `chunk` that `read` gives. -/
theorem readBodyLoop_read (hlt : got.length < n) {chunk : List UInt8} {sock : ReadSide}
    (hread : st.sock.read (n - got.length) = (chunk, sock)) :
    readBodyLoop n (fuel + 1) st =
      if chunk.length = 0 then .ok { st with erred := true, sock }
      else copyTo st.buffer st.readIn chunk >>= fun buffer =>
        readBodyLoop n fuel { st with buffer, readIn := st.readIn + chunk.length, sock } := by
  have hask : ((n : ℤ) - st.readIn).toNat = n - got.length := by
    rw [hinv.readIn]
    omega
  have hmore : (st.readIn : ℤ) < n := by
    rw [hinv.readIn]
    omega
  rw [readBodyLoop, if_pos hmore, hask, hread]
  rfl

/-- At the end of the stream the loop gives up. -/
theorem readBodyLoop_eof (hlt : got.length < n) (hs : st.sock.unread = []) :
    ∃ sock, readBodyLoop n (fuel + 1) st = .ok { st with erred := true, sock } ∧
      sock.unread = [] := by
  obtain ⟨hnone, hleft⟩ := ReadSide.read_eof (n := n - got.length) hs
  refine ⟨_, ?_, hleft⟩
  rw [hinv.readBodyLoop_read fuel hlt (Prod.ext hnone rfl)]
  rfl

/-- What is given fits behind what is stored. -/
theorem exists_copyTo {chunk : List UInt8} (hchunk : got.length + chunk.length ≤ n) :
    ∃ rest, copyTo st.buffer st.readIn chunk = .ok (cells (got ++ chunk) ++ rest) ∧
      (cells (got ++ chunk) ++ rest).length = st.buffer.length := by
  obtain ⟨rest, hbuf⟩ := hinv.stored
  have hlen : st.buffer.length = got.length + rest.length := by simp [hbuf]
  have hroom := hinv.room
  have hold : (rest.take chunk.length).length = chunk.length :=
    List.length_take_of_le (by omega)
  have hcopy := copyTo_at (rest.drop chunk.length) (cells got) hold
    (i := st.readIn) (by simp [hinv.readIn])
  rw [List.take_append_drop, ← hbuf] at hcopy
  refine ⟨rest.drop chunk.length, by rw [hcopy, cells_append, List.append_assoc], ?_⟩
  simp
  omega

/-- Before the end of the stream an iteration stores at least one byte more. -/
theorem readBodyLoop_step (hlt : got.length < n) (hs : st.sock.unread ≠ []) :
    ∃ chunk st', chunk ≠ [] ∧ st.sock.unread = chunk ++ st'.sock.unread ∧
      BodyInv n (got ++ chunk) st' ∧ st'.erred = st.erred ∧
      readBodyLoop n (fuel + 1) st = readBodyLoop n fuel st' := by
  have happ := ReadSide.read_append st.sock (n - got.length)
  have hle := ReadSide.length_read_le st.sock (n - got.length)
  have hpos := ReadSide.read_pos (n := n - got.length) (by omega) hs
  obtain ⟨chunk, sock, hread⟩ : ∃ chunk sock, st.sock.read (n - got.length) = (chunk, sock) :=
    ⟨_, _, rfl⟩
  rw [hread] at happ hle hpos
  dsimp only at happ hle hpos
  have hfit : got.length + chunk.length ≤ n := by omega
  obtain ⟨rest, hcopy, hlen⟩ := hinv.exists_copyTo hfit
  rw [hinv.readBodyLoop_read fuel hlt hread, if_neg (by omega), hcopy, ok_bind]
  refine ⟨chunk, _, List.ne_nil_of_length_pos hpos, happ.symm, ?_, ?_, rfl⟩
  · refine ⟨⟨rest, rfl⟩, by simp [hinv.readIn], by simpa using hfit, ?_⟩
    rw [hlen]
    exact hinv.room
  · rfl

end BodyInv

/-- A run of the body loop. It ends with the `n` bytes it was to read in the buffer, or at
the end of the stream. -/
theorem readBodyLoop_run {n : ℕ} : ∀ (fuel : ℕ) {st : BodyRead} {got : List UInt8},
    BodyInv n got st → n ≤ got.length + fuel →
    ∃ st', readBodyLoop n fuel st = .ok st' ∧
      if n - got.length ≤ st.sock.unread.length then
        BodyInv n (got ++ st.sock.unread.take (n - got.length)) st' ∧ st'.erred = st.erred ∧
          st'.sock.unread = st.sock.unread.drop (n - got.length)
      else st'.erred = true ∧ st'.sock.unread = [] := by
  intro fuel
  induction fuel with
  | zero =>
    intro st got hinv hfuel
    have heq : n - got.length = 0 := by omega
    refine ⟨st, hinv.readBodyLoop_stop 0 hfuel, ?_⟩
    rw [heq, if_pos (Nat.zero_le _), List.take_zero, List.append_nil]
    exact ⟨hinv, rfl, rfl⟩
  | succ fuel ih =>
    intro st got hinv hfuel
    rcases Nat.lt_or_ge got.length n with hlt | hge
    swap
    · have heq : n - got.length = 0 := by omega
      refine ⟨st, hinv.readBodyLoop_stop (fuel + 1) hge, ?_⟩
      rw [heq, if_pos (Nat.zero_le _), List.take_zero, List.append_nil]
      exact ⟨hinv, rfl, rfl⟩
    by_cases hs : st.sock.unread = []
    · obtain ⟨sock, hrun, hleft⟩ := hinv.readBodyLoop_eof fuel hlt hs
      refine ⟨_, hrun, ?_⟩
      rw [hs, if_neg (by simp; omega)]
      exact ⟨rfl, hleft⟩
    obtain ⟨chunk, st₁, hne, happ, hinv₁, herr, hrun₁⟩ := hinv.readBodyLoop_step fuel hlt hs
    have hpos := List.length_pos_iff.2 hne
    have hlen₁ : (got ++ chunk).length = got.length + chunk.length := List.length_append
    have hle₁ := hinv₁.length_le
    obtain ⟨st', hrun, hpost⟩ := ih hinv₁ (by omega)
    refine ⟨st', hrun₁.trans hrun, ?_⟩
    -- what is left to read is the chunk and what is left after it
    have hleft : n - got.length = chunk.length + (n - (got ++ chunk).length) := by omega
    have hunread : (chunk ++ st₁.sock.unread).length = chunk.length + st₁.sock.unread.length :=
      List.length_append
    rw [happ, hleft, List.take_length_add_append, List.drop_length_add_append,
      ← List.append_assoc, ← herr, hunread]
    simpa only [Nat.add_le_add_iff_left] using hpost

/-! ## The decoder -/

/-- The body of length `n` that follows the header of `msg`. -/
def decodeBody (msg : HmsMsg) (n : ℤ) (rest : List UInt8) : Run (Option HmsMsg × List UInt8) :=
  if n = intMax then .error .undefined
  else if n = -1 then .error .assertion
  else if n < 0 then .ok (none, rest)
  else if n ≤ rest.length then .ok (some (withBody msg (rest.take n.toNat)), rest.drop n.toNat)
  else .ok (none, [])

/-- The message with the header text `text`. -/
def decodeText (text rest : List UInt8) : Run (Option HmsMsg × List UInt8) :=
  let st := readHeader text
  if st.erred then .ok (none, rest)
  else if st.bodyLen = 0 then .ok (some st.msg, rest)
  else decodeBody st.msg st.bodyLen rest

/-- The text of a header as it is parsed : carriage returns read as spaces. -/
def Frame.parsed {s : List UInt8} (f : Frame s) : List UInt8 :=
  f.text.map crToSpace

open Classical in
/-- What `hms_msg_parse` makes of the stream `s`, and the bytes it leaves. -/
noncomputable def decode (maxHdrLen : ℤ) (s : List UInt8) : Run (Option HmsMsg × List UInt8) :=
  if maxHdrLen < 0 ∨ intMax ≤ maxHdrLen then .error .undefined
  else if maxHdrLen = 0 then .error .assertion
  else if h : ∃ f : Frame s, (f.size : ℤ) ≤ maxHdrLen then
    if 2 < h.choose.size then decodeText h.choose.parsed h.choose.rest
    else .ok (none, h.choose.rest)
  else .ok (none, s.drop maxHdrLen.toNat)

section Equations

variable {maxHdrLen : ℤ} {s : List UInt8}

theorem decode_frame (hpos : 0 < maxHdrLen) (hmax : maxHdrLen < intMax) (f : Frame s)
    (hf : (f.size : ℤ) ≤ maxHdrLen) : decode maxHdrLen s =
      if 2 < f.size then decodeText f.parsed f.rest else .ok (none, f.rest) := by
  have h : ∃ f : Frame s, (f.size : ℤ) ≤ maxHdrLen := ⟨f, hf⟩
  rw [decode, if_neg (by omega), if_neg (by omega), dif_pos h, Frame.subsingleton h.choose f]

theorem decode_noFrame (hpos : 0 < maxHdrLen) (hmax : maxHdrLen < intMax)
    (hno : ∀ f : Frame s, maxHdrLen < f.size) :
    decode maxHdrLen s = .ok (none, s.drop maxHdrLen.toNat) := by
  rw [decode, if_neg (by omega), if_neg (by omega), dif_neg]
  rintro ⟨f, hf⟩
  have := hno f
  omega

end Equations

/-! ## The parser computes the decoder -/

/-- The outcome of a parse, with the bytes left on the socket. -/
def parsedAs (r : Option HmsMsg × ReadSide) : Option HmsMsg × List UInt8 :=
  (r.1, r.2.unread)

/-- A length that is no size : the request for storage wraps, overflows or is refused. -/
theorem hmsParseReadBody_negative {msg : HmsMsg} (sock : ReadSide) {n : ℤ} (hlo : intMin ≤ n)
    (hn : n < -1) : hmsParseReadBody sock msg n = .ok (-1, msg, sock) := by
  have hadd : addInt n 1 = .ok (n + 1) := addInt_ok (by omega) (by unfold intMax; omega)
  have hrefused := malloc_negative (x := n + 1) (by omega) (by omega)
  have hloop : readBodyLoop n n.toNat ⟨[], 0, true, sock⟩ = .ok ⟨[], 0, true, sock⟩ := by
    rw [Int.toNat_of_nonpos (by omega), readBodyLoop, if_neg (by simp; omega)]
  simp [hmsParseReadBody, hadd, hrefused, hloop]

theorem hmsParseReadBody_minusOne {msg : HmsMsg} (sock : ReadSide) :
    hmsParseReadBody sock msg (-1) = .error .assertion := by
  have hadd : addInt (-1) 1 = .ok 0 := rfl
  have hserved : malloc (toSize 0) = .ok true := malloc_nonneg (by decide) (by decide)
  have hloop : readBodyLoop (-1) 0 ⟨Buffer.uninit (toSize 0), 0, false, sock⟩ =
      .ok ⟨Buffer.uninit (toSize 0), 0, false, sock⟩ := rfl
  simp [hmsParseReadBody, hadd, hserved, hloop]

/-- A positive length : that many bytes, or the end of the stream. -/
theorem hmsParseReadBody_positive {msg : HmsMsg} (h : Bodyless msg) (sock : ReadSide) {n : ℕ}
    (hpos : 0 < n) (hmax : (n : ℤ) < intMax) :
    ∃ sock', if n ≤ sock.unread.length then
        hmsParseReadBody sock msg n = .ok (0, withBody msg (sock.unread.take n), sock') ∧
          sock'.unread = sock.unread.drop n
      else hmsParseReadBody sock msg n = .ok (-1, msg, sock') ∧ sock'.unread = [] := by
  have hadd : addInt n 1 = .ok ((n : ℤ) + 1) := addInt_ok (by unfold intMin; omega) (by omega)
  have hserved := malloc_nonneg (x := (n : ℤ) + 1) (by omega) (by omega)
  have hsize : toSize ((n : ℤ) + 1) = n + 1 := by
    rw [toSize_of_nonneg (by omega) (by omega)]
    omega
  have hstart : BodyInv n [] ⟨Buffer.uninit (n + 1), 0, false, sock⟩ :=
    ⟨⟨Buffer.uninit (n + 1), rfl⟩, rfl, Nat.zero_le n, by simp⟩
  obtain ⟨st', hrun, hpost⟩ := readBodyLoop_run n hstart (by simp)
  refine ⟨st'.sock, ?_⟩
  simp only [List.length_nil, Nat.sub_zero, List.nil_append] at hpost
  have hfun : hmsParseReadBody sock msg n =
      if st'.erred then .ok (-1, msg, st'.sock)
      else assert ((st'.readIn : ℤ) = n) >>= fun _ =>
        hmsMsgSetBody msg st'.buffer n >>= fun msg => .ok (0, msg, st'.sock) := by
    rw [hmsParseReadBody, hadd, ok_bind, hserved, ok_bind, hsize]
    simp only [if_true, Int.toNat_natCast, Bool.not_true, hrun, ok_bind, pure_eq_ok]
  split_ifs at hpost ⊢ with hn
  · obtain ⟨hinv, herr, hleft⟩ := hpost
    obtain ⟨rest', hbuf⟩ := hinv.stored
    refine ⟨?_, hleft⟩
    have hlen : (sock.unread.take n).length = n := by simpa using hn
    have hne : sock.unread.take n ≠ [] := fun h0 => by
      rw [h0, List.length_nil] at hlen
      omega
    have hset := setBody_eq h.content h.contentLen hne (by omega) rest'
    rw [hlen] at hset
    rw [hfun, herr, hinv.readIn, hlen, hbuf, hset]
    simp
  · rw [hfun, hpost.1]
    exact ⟨rfl, hpost.2⟩

theorem finishMsg_erred {msg : HmsMsg} (h : msg.Counted) (sock : ReadSide) (bodyLen : ℤ) :
    finishMsg sock (-1) msg bodyLen = .ok (none, sock) := by
  simp [finishMsg, h.destroy]

theorem finishMsg_bodyless (msg : HmsMsg) (sock : ReadSide) :
    finishMsg sock 0 msg 0 = .ok (some msg, sock) := by
  simp [finishMsg]

theorem finishMsg_body (msg : HmsMsg) (sock : ReadSide) {bodyLen : ℤ} (h0 : bodyLen ≠ 0) :
    finishMsg sock 0 msg bodyLen = hmsParseReadBody sock msg bodyLen >>= fun r =>
      if r.1 ≠ 0 then hmsMsgDestroy r.2.1 >>= fun _ => .ok (none, r.2.2)
      else .ok (some r.2.1, r.2.2) := by
  rw [finishMsg, if_pos rfl, if_pos h0]
  cases hmsParseReadBody sock msg bodyLen with
  | error e => rfl
  | ok r => by_cases hr : r.1 = 0 <;> simp [hr]

/-- The body of a message whose header is read. -/
theorem finishMsg_decodeBody {msg : HmsMsg} (h : Bodyless msg) (sock : ReadSide) {n : ℤ}
    (hlo : intMin ≤ n) (hhi : n ≤ intMax) (h0 : n ≠ 0) :
    (finishMsg sock 0 msg n).map parsedAs = decodeBody msg n sock.unread := by
  have hdestroy := h.counted.destroy
  rw [finishMsg_body msg sock h0, decodeBody]
  by_cases hmax : n = intMax
  · have hadd : addInt intMax 1 = .error .undefined := rfl
    rw [if_pos hmax, hmax]
    simp [hmsParseReadBody, hadd, Except.map]
  rw [if_neg hmax]
  by_cases hone : n = -1
  · rw [if_pos hone, hone, hmsParseReadBody_minusOne]
    rfl
  rw [if_neg hone]
  rcases lt_or_ge n 0 with hneg | hpos
  · rw [if_pos hneg, hmsParseReadBody_negative sock hlo (by omega)]
    simp [hdestroy, Except.map, parsedAs]
  · obtain ⟨n, rfl⟩ := Int.eq_ofNat_of_zero_le hpos
    obtain ⟨sock', hbody⟩ := hmsParseReadBody_positive h sock (n := n) (by omega) (by omega)
    rw [if_neg (by omega), Int.toNat_natCast]
    by_cases hle : n ≤ sock.unread.length
    · rw [if_pos hle] at hbody
      rw [if_pos (by omega), hbody.1]
      simp [Except.map, parsedAs, hbody.2]
    · rw [if_neg hle] at hbody
      rw [if_neg (by omega), hbody.1]
      simp [hdestroy, Except.map, parsedAs, hbody.2]

theorem headerStep_bodyLen_range {st : HeaderLines}
    (h : intMin ≤ st.bodyLen ∧ st.bodyLen ≤ intMax) (line : List UInt8) :
    intMin ≤ (headerStep st line).1.bodyLen ∧ (headerStep st line).1.bodyLen ≤ intMax := by
  unfold headerStep
  split_ifs
  · cases tokens wordSep line <;> exact h
  · exact ⟨(by decide : intMin ≤ 0), (by decide : 0 ≤ intMax)⟩
  · exact toInt_range _
  · exact h
  · exact h

/-- The length that a header gives is an `int`. -/
theorem readHeader_bodyLen_range (text : List UInt8) :
    intMin ≤ (readHeader text).bodyLen ∧ (readHeader text).bodyLen ≤ intMax :=
  foldUntil_invariant (P := fun st : HeaderLines => intMin ≤ st.bodyLen ∧ st.bodyLen ≤ intMax)
    (fun _ line h => headerStep_bodyLen_range h line) _ _ ⟨by decide, by decide⟩

/-- The text of a frame, parsed. -/
theorem finishMsg_decodeText (text : List UInt8) (sock : ReadSide) :
    (finishMsg sock (if (readHeader text).erred then -1 else 0) (readHeader text).msg
      (readHeader text).bodyLen).map parsedAs = decodeText text sock.unread := by
  have h := bodyless_readHeader text
  obtain ⟨hlo, hhi⟩ := readHeader_bodyLen_range text
  rw [decodeText]
  cases (readHeader text).erred with
  | true =>
    simp [finishMsg_erred h.counted, Except.map, parsedAs]
  | false =>
    by_cases h0 : (readHeader text).bodyLen = 0
    · simp [h0, finishMsg_bodyless, Except.map, parsedAs]
    · simp [h0, finishMsg_decodeBody h sock hlo hhi h0]

/-- A negative `max_hdr_len` is written at as an index. -/
theorem headerBuffer_negative {maxHdrLen : ℤ} (h : maxHdrLen < 0) :
    headerBuffer maxHdrLen = .error .undefined := by
  unfold headerBuffer addInt
  split_ifs
  · rw [ok_bind]
    unfold malloc
    split_ifs <;> simp [not_le.2 h]
  · rfl

theorem headerBuffer_overflow {maxHdrLen : ℤ} (h : intMax ≤ maxHdrLen) :
    headerBuffer maxHdrLen = .error .undefined := by
  have hover : addInt maxHdrLen 1 = .error .undefined := if_neg (by omega)
  rw [headerBuffer, hover, error_bind]

theorem headerBuffer_ok {maxHdrLen : ℤ} (h0 : 0 ≤ maxHdrLen) (hmax : maxHdrLen < intMax) :
    ∃ buffer, headerBuffer maxHdrLen = .ok buffer ∧ maxHdrLen ≤ buffer.length := by
  have hadd : addInt maxHdrLen 1 = .ok (maxHdrLen + 1) :=
    addInt_ok (by unfold intMin; omega) (by omega)
  have hserved := malloc_nonneg (x := maxHdrLen + 1) (by omega) (by omega)
  have hsize : toSize (maxHdrLen + 1) = maxHdrLen.toNat + 1 := by
    rw [toSize_of_nonneg (by omega) (by omega)]
    omega
  obtain ⟨buffer, hstore, hlen⟩ := store_ok (b := Buffer.uninit (maxHdrLen.toNat + 1))
    (i := maxHdrLen.toNat) (by simp) nul
  refine ⟨buffer, ?_, by simp [hlen]; omega⟩
  rw [headerBuffer, hadd, ok_bind, hserved, ok_bind, if_pos ⟨rfl, h0⟩, hsize, hstore]

/-- `hms_msg_parse` refines `decode`, under every schedule of `read`. -/
theorem hmsMsgParse_decode (sock : ReadSide) (maxHdrLen : ℤ) :
    (hmsMsgParse sock maxHdrLen).map parsedAs = decode maxHdrLen sock.unread := by
  rcases lt_or_ge maxHdrLen 0 with hneg | hnonneg
  · rw [decode, if_pos (Or.inl hneg), hmsMsgParse, headerBuffer_negative hneg]
    rfl
  rcases le_or_gt intMax maxHdrLen with hbig | hmax
  · rw [decode, if_pos (Or.inr hbig), hmsMsgParse, headerBuffer_overflow hbig]
    rfl
  obtain ⟨buffer, hbuffer, hlen⟩ := headerBuffer_ok hnonneg hmax
  rw [hmsMsgParse, hbuffer, ok_bind]
  by_cases h0 : maxHdrLen = 0
  · rw [decode, if_neg (by omega), if_pos h0, h0]
    rfl
  by_cases hframe : ∃ f : Frame sock.unread, (f.size : ℤ) ≤ maxHdrLen
  · obtain ⟨f, hf⟩ := hframe
    obtain ⟨tail, sock', hread, hrest, -⟩ := hmsParseReadHeader_frame f hmax.le hlen hf
    rw [decode_frame (by omega) hmax f hf, hread, ok_bind]
    by_cases h2 : 2 < f.size
    · obtain ⟨buffer', hheader⟩ := hmsParseHeader_eq f.parsed
        (cells ((f.blanks ++ [newline]).map crToSpace) ++ tail) f.size
      rw [if_pos h2, ← hrest, ← finishMsg_decodeText]
      show Except.map parsedAs (if (f.size : ℤ) > 2 then _ else _) = _
      rw [if_pos (by omega)]
      show Except.map parsedAs (hmsParseHeader hmsMsgCreate
        (cells f.parsed ++ some nul :: _) f.size 0 >>= _) = _
      rw [hheader]
      rfl
    · rw [if_neg h2]
      show Except.map parsedAs (if (f.size : ℤ) > 2 then _ else _) = _
      rw [if_neg (by omega)]
      simp [Except.map, parsedAs, hrest]
  · have hno : ∀ f : Frame sock.unread, maxHdrLen < f.size := fun f => by
      by_contra hle
      exact hframe ⟨f, by omega⟩
    obtain ⟨buffer', sock', hread, -, hrest⟩ :=
      hmsParseReadHeader_noFrame (by omega) hmax.le hlen hno
    rw [decode_noFrame (by omega) hmax hno, hread]
    simp [Except.map, parsedAs, hrest]

/-- A parse returns what the decoder says. -/
theorem hmsMsgParse_ok_iff {sock : ReadSide} {maxHdrLen : ℤ} {o : Option HmsMsg}
    {left : List UInt8} :
    (∃ sock', hmsMsgParse sock maxHdrLen = .ok (o, sock') ∧ sock'.unread = left) ↔
      decode maxHdrLen sock.unread = .ok (o, left) := by
  rw [← hmsMsgParse_decode]
  constructor
  · rintro ⟨sock', h, rfl⟩
    rw [h]
    rfl
  · intro h
    cases hp : hmsMsgParse sock maxHdrLen with
    | error e => simp [hp, Except.map] at h
    | ok r =>
      simp only [hp, Except.map, Except.ok.injEq, parsedAs, Prod.mk.injEq] at h
      exact ⟨r.2, by rw [← h.1], h.2⟩

/-- A run with a known result. -/
theorem exists_of_map_fst {α β : Type} {x : Run (α × β)} {a : α}
    (h : x.map Prod.fst = .ok a) : ∃ b, x = .ok (a, b) := by
  obtain ⟨r, hr, rfl⟩ := map_eq_ok.1 h
  exact ⟨r.2, hr⟩

/-- A parse faults as the decoder does. -/
theorem hmsMsgParse_error_iff {sock : ReadSide} {maxHdrLen : ℤ} {e : Fault} :
    hmsMsgParse sock maxHdrLen = .error e ↔ decode maxHdrLen sock.unread = .error e := by
  rw [← hmsMsgParse_decode]
  cases hmsMsgParse sock maxHdrLen <;> simp [Except.map]

end Hermes
