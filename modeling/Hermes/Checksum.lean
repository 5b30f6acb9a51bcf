import Hermes.Signature
import Hermes.Wire

/-!
# The build with checksums

With `HERMES_ENABLE_CHECKSUMS`, `hms_msg_set_body` adds a `Content-Checksum` header, the
signature of the body as text, and `__hms_parse_read_body` rejects a message that has the
header with another value. The rest of the library is the same code.

`hmsMsgParseSums_iff` compares the two builds on every stream : the one with checksums
returns what the plain one returns, checked and labelled. `checksum_guards` is what this means
for a message whose body was replaced on its way.
-/

open CLib

namespace Hermes

/-! ## The functions of this build -/

/-- `md5_buffer` and `md5_sig_to_string` into `computed_checksum`, as the string it then is. -/
def computedChecksum (buffer : Buffer) (len : ℤ) : Run CString := do
  let hexChecksum ← md5Buffer buffer (.ofNat (toUnsigned len))
  let computed ← md5SigToString (cells hexChecksum) (Buffer.uninit 33) 33
  stringAt computed 0

/-- `hms_msg_set_body`, built with checksums. -/
def hmsMsgSetBodySums (msg : HmsMsg) (data : Buffer) (len : ℤ) : Run HmsMsg := do
  let msg ← hmsMsgSetBody msg data len
  let computed ← computedChecksum (cells (msg.content.getD [])) msg.contentLen
  return hmsMsgAddNamedHeader msg hmsContentChecksum computed

/-- The test of `__hms_parse_read_body`. `strncasecmp` compares with the whole text computed, its
NUL included. -/
def checksumErred (msg : HmsMsg) (computed : CString) : Bool :=
  match hmsMsgGetNamedHeader msg hmsContentChecksum with
  | (0, some given) => !given.caseEq computed
  | _ => false

/-- `__hms_parse_read_body`, built with checksums. A message that fails the test gets its body all
the same. -/
def hmsParseReadBodySums (sock : ReadSide) (msg : HmsMsg) (bodyLen : ℤ) :
    Run (ℤ × HmsMsg × ReadSide) := do
  let size ← addInt bodyLen 1
  let served ← malloc (toSize size)
  let buffer := if served then Buffer.uninit (toSize size) else []
  let st ← readBodyLoop bodyLen bodyLen.toNat ⟨buffer, 0, !served, sock⟩
  if st.erred then
    return (-1, msg, st.sock)
  else
    let computed ← computedChecksum st.buffer bodyLen
    let erred := checksumErred msg computed
    assert (st.readIn = bodyLen)
    let msg ← hmsMsgSetBodySums msg st.buffer bodyLen
    return (if erred then -1 else 0, msg, st.sock)

/-- The rest of `hms_msg_parse`, with `ret` the status of `__hms_parse_header`. -/
def finishMsgSums (sock : ReadSide) (ret : ℤ) (msg : HmsMsg) (bodyLen : ℤ) :
    Run (Option HmsMsg × ReadSide) := do
  let (erred, msg, sock) ←
    if ret = 0 then
      if bodyLen ≠ 0 then do
        let (ret, msg, sock) ← hmsParseReadBodySums sock msg bodyLen
        pure (decide (ret ≠ 0), msg, sock)
      else
        pure (false, msg, sock)
    else
      pure (true, msg, sock)
  if erred then
    hmsMsgDestroy msg
    return (none, sock)
  return (some msg, sock)

/-- `hms_msg_parse`, built with checksums. -/
def hmsMsgParseSums (sock : ReadSide) (maxHdrLen : ℤ) : Run (Option HmsMsg × ReadSide) := do
  let buffer ← headerBuffer maxHdrLen
  let (hdrLen, buffer, sock) ← hmsParseReadHeader sock buffer maxHdrLen
  if hdrLen > 2 then
    let (ret, msg, bodyLen, _) ← hmsParseHeader hmsMsgCreate buffer hdrLen 0
    finishMsgSums sock ret msg bodyLen
  else
    return (none, sock)

/-! ## The checksum of a body -/

/-- The checksum of a body, as the header has it. -/
def checksum (body : List UInt8) : CString :=
  ⟨hexText (digest body), nul_notMem_hexText _⟩

theorem computedChecksum_ok {body : List UInt8} (hmax : (body.length : ℤ) ≤ intMax)
    (rest : Buffer) : computedChecksum (cells body ++ rest) body.length = .ok (checksum body) := by
  have hlen : (UInt32.ofNat (toUnsigned body.length)).toNat = body.length := by
    rw [toUnsigned_of_nonneg (by omega) hmax, UInt32.toNat_ofNat']
    unfold intMax at hmax
    omega
  have hroom : 33 ≤ (Buffer.uninit 33).length := le_rfl
  obtain ⟨s, hs, -, hstring⟩ := md5SigFromString_toString (length_digest body) le_rfl hroom
  have hvalue : CString.ofBytes (hexText (digest body)) = checksum body :=
    CString.ext (CString.bytes_ofBytes (nul_notMem_hexText _))
  rw [Nat.cast_ofNat] at hs
  rw [computedChecksum, md5Buffer_ok hlen, ok_bind, hs, ok_bind, hstring, hvalue]

theorem hexDigit_lower {n : ℕ} (hn : n < 16) : tolower (hexDigit n) = hexDigit n := by
  have hall : ∀ n ∈ List.range 16, tolower (hexDigit n) = hexDigit n := by decide
  exact hall n (List.mem_range.2 hn)

theorem map_tolower_hexText (sig : List UInt8) : (hexText sig).map tolower = hexText sig := by
  induction sig with
  | nil => rfl
  | cons c sig ih =>
    have hc := c.toNat_lt
    rw [hexText_cons, List.map_cons, List.map_cons, ih, hexDigit_lower (by omega),
      hexDigit_lower (by omega)]

/-- The text of a signature determines it. -/
theorem hexText_injective {sig sig' : List UInt8} (h : hexText sig = hexText sig') :
    sig = sig' := by
  have hlen : sig.length = sig'.length := by
    have := congrArg List.length h
    rw [length_hexText, length_hexText] at this
    omega
  have hread := sigFromStringLoop_hexText [] sig []
  rw [h, hlen, sigFromStringLoop_hexText [] sig' [], Except.ok.injEq] at hread
  exact hread.symm

/-- Checksums agree when the digests do, also ignoring case. -/
theorem checksum_caseEq_iff (body body' : List UInt8) :
    (checksum body).caseEq (checksum body') = true ↔ digest body = digest body' := by
  rw [CString.caseEq, caseEq_iff, checksum, checksum, map_tolower_hexText, map_tolower_hexText]
  exact ⟨hexText_injective, fun h => by rw [h]⟩

/-! ## The two builds -/

/-- `msg` labelled with the checksum of `body`. -/
def labelled (msg : HmsMsg) (body : List UInt8) : HmsMsg :=
  hmsMsgAddNamedHeader msg hmsContentChecksum (checksum body)

/-- What this build makes of a message that the plain build returns. -/
def accepted (msg : HmsMsg) : Option HmsMsg :=
  match msg.content with
  | none => some msg
  | some body => if checksumErred msg (checksum body) then none else some (labelled msg body)

theorem checksumErred_eq (msg : HmsMsg) (computed : CString) :
    checksumErred msg computed =
      ((msg.lookup hmsContentChecksum).map fun given => !given.caseEq computed).getD false := by
  rw [checksumErred, getNamedHeader_eq]
  cases msg.lookup hmsContentChecksum <;> rfl

/-- The given checksum is looked up before or after the body is set. -/
theorem checksumErred_withBody {msg : HmsMsg} (h : msg.KeysDistinct) (body : List UInt8)
    (computed : CString) :
    checksumErred (withBody msg body) computed = checksumErred msg computed := by
  have h' : ({ msg with content := some body, contentLen := body.length } : HmsMsg).KeysDistinct := h
  have hkey : hmsContentLength.caseEq hmsContentChecksum = false := by decide
  rw [checksumErred_eq, checksumErred_eq, withBody, lookup_addNamedHeader h', hkey]
  rfl

/-- Setting a body : the header of the length, then that of the checksum. -/
theorem setBodySums_eq {msg m : HmsMsg} {data : Buffer} {len : ℤ} (body : List UInt8)
    (hset : hmsMsgSetBody msg data len = .ok m) (hc : m.content = some body)
    (hlen : m.contentLen = body.length) (hmax : (body.length : ℤ) ≤ intMax) :
    hmsMsgSetBodySums msg data len = .ok (labelled m body) := by
  have hcomputed := computedChecksum_ok hmax []
  rw [List.append_nil] at hcomputed
  rw [hmsMsgSetBodySums, hset, ok_bind, hc, hlen, Option.getD_some, hcomputed]
  rfl

/-- `y` is what this build returns where the plain one returns `x`. -/
def Checks (x y : Run (Option HmsMsg × ReadSide)) : Prop :=
  ∀ r, y = .ok r ↔ ∃ o sock, x = .ok (o, sock) ∧ r = (o.bind accepted, sock)

theorem Checks.error (e e' : Fault) : Checks (.error e) (.error e') := by
  simp [Checks]

theorem Checks.ok (o : Option HmsMsg) (sock : ReadSide) :
    Checks (.ok (o, sock)) (.ok (o.bind accepted, sock)) := by
  intro r
  constructor
  · intro h
    exact ⟨o, sock, rfl, (Except.ok.inj h).symm⟩
  · rintro ⟨o', sock', h, rfl⟩
    obtain ⟨rfl, rfl⟩ := Prod.mk.inj (Except.ok.inj h)
    rfl

/-- Both builds read a body of `n` bytes in the same way. -/
theorem hmsParseReadBody_both {msg : HmsMsg} (h : Bodyless msg) (sock : ReadSide) {n : ℕ}
    (hpos : 0 < n) (hmax : (n : ℤ) < intMax) :
    (∃ sock', hmsParseReadBody sock msg n = .ok (-1, msg, sock') ∧
      hmsParseReadBodySums sock msg n = .ok (-1, msg, sock')) ∨
    ∃ body sock', hmsParseReadBody sock msg n = .ok (0, withBody msg body, sock') ∧
      hmsParseReadBodySums sock msg n =
        .ok (if checksumErred msg (checksum body) then -1 else 0,
          labelled (withBody msg body) body, sock') := by
  have hadd : addInt n 1 = .ok ((n : ℤ) + 1) := addInt_ok (by unfold intMin; omega) (by omega)
  have hserved := malloc_nonneg (x := (n : ℤ) + 1) (by omega) (by omega)
  have hsize : toSize ((n : ℤ) + 1) = n + 1 := by
    rw [toSize_of_nonneg (by omega) (by omega)]
    omega
  rw [hsize] at hserved
  have hstart : BodyInv n [] ⟨Buffer.uninit (n + 1), 0, false, sock⟩ :=
    ⟨⟨Buffer.uninit (n + 1), rfl⟩, rfl, Nat.zero_le n, by simp⟩
  obtain ⟨st', hrun, hpost⟩ := readBodyLoop_run n hstart (by simp)
  simp only [List.length_nil, Nat.sub_zero, List.nil_append] at hpost
  by_cases hn : n ≤ sock.unread.length
  · rw [if_pos hn] at hpost
    obtain ⟨hinv, herr, -⟩ := hpost
    obtain ⟨rest, hbuf⟩ := hinv.stored
    have hlen : (sock.unread.take n).length = n := List.length_take_of_le hn
    generalize sock.unread.take n = body at *
    have hne : body ≠ [] := by
      rintro rfl
      rw [List.length_nil] at hlen
      omega
    have hset := setBody_eq h.content h.contentLen hne (by omega) rest
    have hsums := setBodySums_eq body hset (by simp [withBody]) (by simp [withBody]) (by omega)
    have hmaxLen : (body.length : ℤ) ≤ intMax := by omega
    have hcomputed := computedChecksum_ok hmaxLen rest
    rw [hlen] at hset hsums hcomputed
    refine Or.inr ⟨body, st'.sock, ?_, ?_⟩
    · simp [hmsParseReadBody, hadd, hserved, hsize, hrun, herr, hinv.readIn, hlen, hbuf, hset]
    · simp [hmsParseReadBodySums, hadd, hserved, hsize, hrun, herr, hinv.readIn, hlen, hbuf, hsums,
        hcomputed]
  · rw [if_neg hn] at hpost
    refine Or.inl ⟨st'.sock, ?_, ?_⟩
    · simp [hmsParseReadBody, hadd, hserved, hsize, hrun, hpost.1]
    · simp [hmsParseReadBodySums, hadd, hserved, hsize, hrun, hpost.1]

theorem hmsParseReadBodySums_minusOne (sock : ReadSide) (msg : HmsMsg) :
    ∃ e, hmsParseReadBodySums sock msg (-1) = .error e := by
  have hadd : addInt (-1) 1 = .ok 0 := rfl
  have hserved : malloc (toSize 0) = .ok true := malloc_nonneg (by decide) (by decide)
  have hloop : readBodyLoop (-1) 0 ⟨Buffer.uninit (toSize 0), 0, false, sock⟩ =
      .ok ⟨Buffer.uninit (toSize 0), 0, false, sock⟩ := rfl
  -- the signature of a body of `-1` bytes, and then the assertion
  cases hcomputed : computedChecksum (Buffer.uninit (toSize 0)) (-1) with
  | error e => exact ⟨e, by simp [hmsParseReadBodySums, hadd, hserved, hloop, hcomputed]⟩
  | ok c => exact ⟨.assertion, by simp [hmsParseReadBodySums, hadd, hserved, hloop, hcomputed]⟩

theorem hmsParseReadBodySums_negative {msg : HmsMsg} (sock : ReadSide) {n : ℤ} (hlo : intMin ≤ n)
    (hn : n < -1) : hmsParseReadBodySums sock msg n = .ok (-1, msg, sock) := by
  have hadd : addInt n 1 = .ok (n + 1) := addInt_ok (by omega) (by unfold intMax; omega)
  have hrefused := malloc_negative (x := n + 1) (by omega) (by omega)
  have hloop : readBodyLoop n n.toNat ⟨[], 0, true, sock⟩ = .ok ⟨[], 0, true, sock⟩ := by
    rw [Int.toNat_of_nonpos (by omega), readBodyLoop, if_neg (by simp; omega)]
  simp [hmsParseReadBodySums, hadd, hrefused, hloop]

theorem finishMsgSums_body (msg : HmsMsg) (sock : ReadSide) {bodyLen : ℤ} (h0 : bodyLen ≠ 0) :
    finishMsgSums sock 0 msg bodyLen = hmsParseReadBodySums sock msg bodyLen >>= fun r =>
      if r.1 ≠ 0 then hmsMsgDestroy r.2.1 >>= fun _ => .ok (none, r.2.2)
      else .ok (some r.2.1, r.2.2) := by
  rw [finishMsgSums, if_pos rfl, if_pos h0]
  cases hmsParseReadBodySums sock msg bodyLen with
  | error e => rfl
  | ok r => by_cases hr : r.1 = 0 <;> simp [hr]

/-- The rest of the parse, behind a header that both builds read alike. -/
theorem finishMsg_checks {msg : HmsMsg} (h : Bodyless msg) (sock : ReadSide) (erred : Bool) {n : ℤ}
    (hlo : intMin ≤ n) (hhi : n ≤ intMax) :
    Checks (finishMsg sock (if erred then -1 else 0) msg n)
      (finishMsgSums sock (if erred then -1 else 0) msg n) := by
  have hdestroy := h.counted.destroy
  cases erred with
  | true => simpa [finishMsg, finishMsgSums, hdestroy] using Checks.ok none sock
  | false =>
    rw [if_neg (by decide)]
    by_cases h0 : n = 0
    · have hok := Checks.ok (some msg) sock
      simpa [finishMsg, finishMsgSums, h0, accepted, h.content] using hok
    rw [finishMsg_body msg sock h0, finishMsgSums_body msg sock h0]
    by_cases hmax : n = intMax
    · have hadd : addInt intMax 1 = .error .undefined := rfl
      simpa [hmsParseReadBody, hmsParseReadBodySums, hmax, hadd] using Checks.error _ _
    by_cases hone : n = -1
    · obtain ⟨e, he⟩ := hmsParseReadBodySums_minusOne sock msg
      rw [hone, hmsParseReadBody_minusOne, he]
      exact Checks.error _ _
    rcases lt_or_ge n 0 with hneg | hpos
    · rw [hmsParseReadBody_negative sock hlo (by omega),
        hmsParseReadBodySums_negative sock hlo (by omega)]
      simpa [hdestroy] using Checks.ok none sock
    obtain ⟨n, rfl⟩ := Int.eq_ofNat_of_zero_le hpos
    rcases hmsParseReadBody_both h sock (n := n) (by omega) (by omega) with
      ⟨sock', hplain, hsums⟩ | ⟨body, sock', hplain, hsums⟩
    · rw [hplain, hsums]
      simpa [hdestroy] using Checks.ok none sock'
    · have hcounted := (h.counted.withBody body).addNamedHeader hmsContentChecksum (checksum body)
      have hcontent : (withBody msg body).content = some body := by simp [withBody]
      have hok := Checks.ok (some (withBody msg body)) sock'
      rw [Option.bind_some, accepted, hcontent] at hok
      dsimp only at hok
      rw [checksumErred_withBody h.distinct] at hok
      rw [hplain, hsums]
      cases herr : checksumErred msg (checksum body) with
      | true => simpa [herr, labelled, hcounted.destroy] using hok
      | false => simpa [herr] using hok

/-- On every stream, the build with checksums returns what the plain build returns, checked and
labelled, and leaves the same bytes. -/
theorem hmsMsgParseSums_iff (sock : ReadSide) (maxHdrLen : ℤ) (r : Option HmsMsg × ReadSide) :
    hmsMsgParseSums sock maxHdrLen = .ok r ↔
      ∃ o sock', hmsMsgParse sock maxHdrLen = .ok (o, sock') ∧ r = (o.bind accepted, sock') := by
  suffices hchecks : Checks (hmsMsgParse sock maxHdrLen) (hmsMsgParseSums sock maxHdrLen) from
    hchecks r
  rcases lt_or_ge maxHdrLen 0 with hneg | hnonneg
  · rw [hmsMsgParse, hmsMsgParseSums, headerBuffer_negative hneg]
    exact Checks.error _ _
  rcases le_or_gt intMax maxHdrLen with hbig | hmax
  · rw [hmsMsgParse, hmsMsgParseSums, headerBuffer_overflow hbig]
    exact Checks.error _ _
  obtain ⟨buffer, hbuffer, hlen⟩ := headerBuffer_ok hnonneg hmax
  rw [hmsMsgParse, hmsMsgParseSums, hbuffer, ok_bind, ok_bind]
  by_cases h0 : maxHdrLen = 0
  · rw [h0]
    exact Checks.error _ _
  by_cases hframe : ∃ f : Frame sock.unread, (f.size : ℤ) ≤ maxHdrLen
  · obtain ⟨f, hf⟩ := hframe
    obtain ⟨tail, sock', hread, -, -⟩ := hmsParseReadHeader_frame f hmax.le hlen hf
    rw [hread, ok_bind, ok_bind]
    by_cases h2 : 2 < f.size
    · obtain ⟨buffer', hheader⟩ := hmsParseHeader_eq f.parsed
        (cells ((f.blanks ++ [newline]).map crToSpace) ++ tail) f.size
      have hrange := readHeader_bodyLen_range f.parsed
      have hfinish := finishMsg_checks (bodyless_readHeader f.parsed) sock'
        (readHeader f.parsed).erred hrange.1 hrange.2
      rw [Frame.parsed] at hheader hfinish
      show Checks (if (f.size : ℤ) > 2 then _ else _) (if (f.size : ℤ) > 2 then _ else _)
      rw [if_pos (by omega), if_pos (by omega), hheader]
      exact hfinish
    · show Checks (if (f.size : ℤ) > 2 then _ else _) (if (f.size : ℤ) > 2 then _ else _)
      rw [if_neg (by omega), if_neg (by omega)]
      exact Checks.ok none sock'
  · have hno : ∀ f : Frame sock.unread, maxHdrLen < f.size := fun f => by
      by_contra hle
      exact hframe ⟨f, by omega⟩
    obtain ⟨buffer', sock', hread, -, -⟩ :=
      hmsParseReadHeader_noFrame (by omega) hmax.le hlen hno
    rw [hread]
    exact Checks.ok none sock'

/-! ## A body replaced on its way -/

theorem content_of_setBody {m m' : HmsMsg} {body : List UInt8}
    (hset : hmsMsgSetBody m (cells body) body.length = .ok m') :
    m'.content = some body ∧ m'.contentLen = body.length := by
  obtain ⟨_, -, hset⟩ := bind_eq_ok.1 hset
  obtain ⟨_, -, hset⟩ := bind_eq_ok.1 hset
  obtain ⟨_, -, hset⟩ := bind_eq_ok.1 hset
  obtain ⟨_, -, hset⟩ := bind_eq_ok.1 hset
  obtain ⟨_, -, hset⟩ := bind_eq_ok.1 hset
  obtain ⟨_, -, hset⟩ := bind_eq_ok.1 hset
  obtain ⟨copy, hcopy, hset⟩ := bind_eq_ok.1 hset
  have hbytes := bytesOf_cells body []
  rw [List.append_nil] at hbytes
  rw [Int.toNat_natCast, hbytes] at hcopy
  obtain rfl := Except.ok.inj hcopy
  obtain rfl := Except.ok.inj hset
  simp

/-- A message whose body this build has set. -/
theorem setBodySums_eq_ok {m msg : HmsMsg} {body : List UInt8}
    (hset : hmsMsgSetBodySums m (cells body) body.length = .ok msg)
    (hmax : ∀ body ∈ msg.content, (body.length : ℤ) < intMax) :
    msg.content = some body ∧ ∃ m', msg = labelled m' body := by
  obtain ⟨m', hset', hrest⟩ := bind_eq_ok.1 hset
  obtain ⟨hcontent, hlen⟩ := content_of_setBody hset'
  have hmsg : msg.content = some body := by
    obtain ⟨computed, -, hrest⟩ := bind_eq_ok.1 hrest
    obtain rfl := Except.ok.inj hrest
    rw [content_addNamedHeader, hcontent]
  rw [setBodySums_eq body hset' hcontent hlen (hmax body hmsg).le] at hset
  exact ⟨hmsg, m', (Except.ok.inj hset).symm⟩

/-- The label is the checksum that is looked up. -/
theorem lookup_labelled {m : HmsMsg} {body : List UInt8} (h : (labelled m body).KeysDistinct) :
    (labelled m body).lookup hmsContentChecksum = some (checksum body) := by
  have hmem : (⟨hmsContentChecksum, checksum body⟩ : HmsMsgNheader) ∈
      (labelled m body).namedHeaders := by
    rw [labelled, namedHeaders_addNamedHeader, upsert]
    simp
  exact lookup_of_mem h hmem (keyEquiv_caseEq.refl _)

/-- A label keeps a message clean. -/
theorem HmsMsg.WireClean.labelled {msg : HmsMsg} (h : msg.WireClean) (body : List UInt8) :
    (labelled msg body).WireClean := by
  have hhex : ∀ c ∈ (checksum body).bytes, c ∈ hexString := by
    have hdigit : ∀ n ∈ List.range 16, hexDigit n ∈ hexString := by decide
    intro c hc
    obtain ⟨b, -, hb⟩ := List.mem_flatMap.1 hc
    have hlt := b.toNat_lt
    rcases List.mem_cons.1 hb with rfl | hb
    · exact hdigit _ (List.mem_range.2 (by omega))
    · rw [List.mem_singleton.1 hb]
      exact hdigit _ (List.mem_range.2 (by omega))
  have hclean : ∀ c ∈ hexString,
      c ≠ newline ∧ c ≠ carriageReturn ∧ c ≠ dot ∧ isspace c = false := by
    decide
  have hkey : (∀ c ∈ hmsContentChecksum.bytes, c ≠ colon ∧ c ≠ newline ∧ c ≠ carriageReturn) ∧
      Trimmed isspace hmsContentChecksum.bytes := by
    decide
  have hother : hmsContentChecksum.caseEq hmsContentLength = false := by decide
  have hhdr : (⟨hmsContentChecksum, checksum body⟩ : HmsMsgNheader).Clean := by
    refine ⟨hkey.1, fun c hc => ?_, hkey.2, ⟨fun c hc => ?_, fun c hc => ?_⟩, fun hlast => ?_⟩
    · obtain ⟨h1, h2, -, -⟩ := hclean c (hhex c hc)
      exact ⟨h1, h2⟩
    · exact (hclean c (hhex c (List.mem_of_mem_head? hc))).2.2.2
    · exact (hclean c (hhex c (List.mem_of_getLast? hc))).2.2.2
    · exact (hclean dot (hhex dot (List.mem_of_getLast? hlast))).2.2.1 rfl
  exact h.addNamedHeader hhdr hother

/-- A message whose body this build has set is sent, and the body is another one of the same size
when it arrives. This build returns a message exactly when the digests agree, and the plain build
in any case. -/
theorem checksum_guards {m msg : HmsMsg} {body body' : List UInt8}
    (hset : hmsMsgSetBodySums m (cells body) body.length = .ok msg) (h : msg.WireClean)
    (hlen : body'.length = body.length) {maxHdrLen : ℤ}
    (hfits : ((encodeHeader msg).length : ℤ) ≤ maxHdrLen) (hmax : maxHdrLen < intMax)
    {t : List UInt8} {sock : ReadSide} (hs : sock.unread = encodeHeader msg ++ body' ++ t) :
    ∃ o sock', hmsMsgParseSums sock maxHdrLen = .ok (o, sock') ∧ sock'.unread = t ∧
      (o = none ↔ digest body' ≠ digest body) ∧
      (∀ msg' ∈ o, msg'.content = some body' ∧
        msg'.lookup hmsContentChecksum = some (checksum body')) ∧
      ∃ plain, hmsMsgParse sock maxHdrLen = .ok (some plain, sock') ∧
        plain.content = some body' := by
  obtain ⟨hcontent, m', rfl⟩ := setBodySums_eq_ok hset fun b hb => (h.bodySize b hb).2
  have hgiven := lookup_labelled h.distinct
  generalize labelled m' body = msg at *
  have hsize := h.bodySize body hcontent
  -- the message with the other body is clean too, and its header is the same
  have h' : ({ msg with content := some body' } : HmsMsg).WireClean := by
    refine ⟨⟨h.verb, h.words, h.key, h.val⟩, h.lastWord, h.keyTrimmed, h.valTrimmed, h.valDot,
      h.distinct, ?_, ?_⟩
    · intro b hb
      obtain rfl : body' = b := Option.some.inj hb
      rwa [hlen]
    · have hheader := h.bodyHeader
      rw [hcontent, Option.map_some, ← hlen] at hheader
      exact hheader
  generalize hmsg' : ({ msg with content := some body' } : HmsMsg) = other at h'
  have hstream : sock.unread = encode other ++ t := by
    rw [hs, encode, ← hmsg']
    rfl
  have hfits' : ((encodeHeader other).length : ℤ) ≤ maxHdrLen := by
    rw [← hmsg']
    exact hfits
  have hdecode := h'.survives.decode_encode hfits' hmax t
  rw [← hstream] at hdecode
  obtain ⟨sock', hplain, hleft⟩ := hmsMsgParse_ok_iff.2 hdecode
  have hreceived : other.received.content = some body' := by
    rw [← hmsg']
    rfl
  have hkept : other.received.lookup hmsContentChecksum = some (checksum body) := by
    rw [lookup_received (by decide), ← hmsg']
    exact hgiven
  have herred : checksumErred other.received (checksum body') = true ↔ digest body' ≠ digest body := by
    have hcase := checksum_caseEq_iff body body'
    rw [checksumErred_eq, hkept, Option.map_some, Option.getD_some, Bool.not_eq_true',
      ← Bool.not_eq_true, hcase, ne_comm]
  have hsums := (hmsMsgParseSums_iff sock maxHdrLen _).2 ⟨_, _, hplain, rfl⟩
  have haccepted : accepted other.received =
      if checksumErred other.received (checksum body') then none
      else some (labelled other.received body') := by
    rw [accepted, hreceived]
  rw [Option.bind_some, haccepted] at hsums
  refine ⟨_, sock', hsums, hleft, ?_, ?_, other.received, hplain, hreceived⟩
  · rw [← herred]
    split_ifs with hbad <;> simp [hbad]
  · intro msg' hmsg
    split_ifs at hmsg with hbad
    · cases hmsg
    · obtain rfl := Option.some.inj hmsg
      have hdistinct : other.received.KeysDistinct := by
        have hcontent' : other.content = some body' := by rw [← hmsg']
        rw [h'.survives.received_of_some hcontent', h'.survives.headerMsg_lines]
        refine HmsMsg.KeysDistinct.withBody ?_ body'
        exact h'.distinct
      exact ⟨by rw [labelled, content_addNamedHeader, hreceived],
        lookup_labelled (hdistinct.addNamedHeader _ _)⟩

/-- A message of this build with the body `hello`. -/
def labelledHello : HmsMsg :=
  labelled (withBody (hmsMsgSetVerb hmsMsgCreate (CString.ofBytes (ascii "COPY"))) (ascii "hello"))
    (ascii "hello")

theorem checksum_guards_hello : ∃ o sock',
    hmsMsgParseSums ⟨encodeHeader labelledHello ++ ascii "jello" ++ [], fun _ => 0⟩ 1024 =
      .ok (o, sock') ∧ sock'.unread = [] ∧
    (o = none ↔ digest (ascii "jello") ≠ digest (ascii "hello")) ∧
    (∀ msg' ∈ o, msg'.content = some (ascii "jello") ∧
      msg'.lookup hmsContentChecksum = some (checksum (ascii "jello"))) ∧
    ∃ plain, hmsMsgParse ⟨encodeHeader labelledHello ++ ascii "jello" ++ [], fun _ => 0⟩ 1024 =
      .ok (some plain, sock') ∧ plain.content = some (ascii "jello") := by
  have hset : hmsMsgSetBody (hmsMsgSetVerb hmsMsgCreate (CString.ofBytes (ascii "COPY")))
      (cells (ascii "hello") ++ []) (ascii "hello").length = .ok _ :=
    setBody_eq rfl rfl (by decide) (by decide) []
  rw [List.append_nil] at hset
  have hverb : (hmsMsgSetVerb hmsMsgCreate (CString.ofBytes (ascii "COPY"))).WireClean := by decide
  have hclean : labelledHello.WireClean :=
    HmsMsg.WireClean.labelled (hverb.withBody (by decide) (by decide)) _
  exact checksum_guards (setBodySums_eq _ hset rfl rfl (by decide)) hclean (by decide) (by decide)
    (by decide) rfl

end Hermes
