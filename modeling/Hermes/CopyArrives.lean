import Hermes.CopyServer

/-!
# A file arrives

The client's requests for a file are clean messages, so a server gets them as they were sent, and
each writes its chunk at its offset (`copySession_chunks`). `copy_arrives` joins the two programs :
whatever the chunk size, and however the stream is cut, the server's file is then the client's
file, followed by what an older and longer one had behind it.

`copyClient_returns_iff` says when the client returns, and that it then returns zero whatever became
of its requests.
-/

open CLib

namespace Hermes

set_option maxRecDepth 8000

/-! ## The requests for a file -/

/-- The request to write `p.2` at `p.1`. -/
def chunkMsg (dst : CString) (p : ℕ × List UInt8) : HmsMsg :=
  withBody (chunkRequest dst p.1) p.2

/-- A name that goes through the wire, of a length that leaves room for the rest of the header. -/
structure Destination (dst : CString) : Prop where
  clean : (⟨filenameKey, dst⟩ : HmsMsgNheader).Clean
  length : dst.length ≤ 963

section Requests

variable {dst : CString} {p : ℕ × List UInt8}

theorem bodyless_chunkRequest (dst : CString) (offset : ℤ) : Bodyless (chunkRequest dst offset) :=
  ((bodyless_create.readWords (ascii "COPY") []).addNamedHeader filenameKey dst).addNamedHeader
    offsetKey (CString.ofBytes (sprintfInt offset))

theorem chunkMsg_content (dst : CString) (p : ℕ × List UInt8) :
    (chunkMsg dst p).content = some p.2 := by
  simp [chunkMsg, withBody]

theorem chunkMsg_verb (dst : CString) (p : ℕ × List UInt8) :
    (chunkMsg dst p).verb = some copyVerb := by
  simp only [chunkMsg, withBody, chunkRequest, verb_addNamedHeader]
  rfl

theorem chunkMsg_hasVerb (dst : CString) (p : ℕ × List UInt8) :
    (chunkMsg dst p).hasVerb "COPY" = true := by
  rw [HmsMsg.hasVerb, chunkMsg_verb]
  exact keyEquiv_caseEq.refl _

/-- A header that the body does not have. -/
theorem lookup_withBody_of_ne {msg : HmsMsg} (h : msg.KeysDistinct) {key : CString}
    (hkey : hmsContentLength.caseEq key = false) (body : List UInt8) :
    (withBody msg body).lookup key = msg.lookup key := by
  have h' :
      ({ msg with content := some body, contentLen := body.length } : HmsMsg).KeysDistinct := h
  rw [withBody, lookup_addNamedHeader h', hkey]
  rfl

theorem chunkMsg_lookup_filename (dst : CString) (p : ℕ × List UInt8) :
    (chunkMsg dst p).lookup filenameKey = some dst := by
  have hverb : Bodyless (hmsMsgSetVerb hmsMsgCreate copyVerb) :=
    bodyless_create.readWords (ascii "COPY") []
  have hname := hverb.addNamedHeader filenameKey dst
  have hkey : hmsContentLength.caseEq filenameKey = false := by decide
  have hother : offsetKey.caseEq filenameKey = false := by decide
  rw [chunkMsg, lookup_withBody_of_ne (bodyless_chunkRequest dst p.1).distinct hkey, chunkRequest,
    lookup_addNamedHeader hname.distinct, hother, lookup_addNamedHeader hverb.distinct,
    if_neg Bool.false_ne_true, if_pos (keyEquiv_caseEq.refl _)]

theorem chunkMsg_lookup_offset (dst : CString) (p : ℕ × List UInt8) :
    (chunkMsg dst p).lookup offsetKey = some (CString.ofBytes (decimal p.1)) := by
  have hname : Bodyless
      (hmsMsgAddNamedHeader (hmsMsgSetVerb hmsMsgCreate copyVerb) filenameKey dst) :=
    (bodyless_create.readWords (ascii "COPY") []).addNamedHeader filenameKey dst
  have hkey : hmsContentLength.caseEq offsetKey = false := by decide
  rw [chunkMsg, lookup_withBody_of_ne (bodyless_chunkRequest dst p.1).distinct hkey, chunkRequest,
    lookup_addNamedHeader hname.distinct, if_pos (keyEquiv_caseEq.refl _), sprintfInt_natCast]

/-- The number of bytes of a named header and of one that is added to it. -/
theorem sum_addNamedHeader_le (msg : HmsMsg) (key value : CString) :
    ((hmsMsgAddNamedHeader msg key value).namedHeaders.map
      fun nhdr => nhdr.key.length + 1 + nhdr.val.length + 1).sum ≤
    (msg.namedHeaders.map fun nhdr => nhdr.key.length + 1 + nhdr.val.length + 1).sum +
      (key.length + 1 + value.length + 1) := by
  rw [namedHeaders_addNamedHeader]
  exact sum_upsert_le _ _ _ _ _

/-- A number that is an `int` has at most ten digits. -/
theorem length_ofBytes_decimal_le {n : ℕ} (hn : (n : ℤ) ≤ intMax) :
    (CString.ofBytes (decimal n)).length ≤ 10 := by
  rw [CString.length, CString.bytes_ofBytes (nul_not_mem_decimal _)]
  exact length_decimal_le (by unfold intMax at hn; omega) (by omega)

/-- The header of a request is not long. -/
theorem length_encodeHeader_chunkMsg (dst : CString) {p : ℕ × List UInt8}
    (hp : (p.1 : ℤ) ≤ intMax) (hlen : (p.2.length : ℤ) ≤ intMax) :
    (encodeHeader (chunkMsg dst p)).length ≤ dst.length + 61 := by
  have hwords : copyVerb.length = 4 ∧ filenameKey.length = 8 ∧ offsetKey.length = 6 ∧
      hmsContentLength.length = 14 := by decide
  have hheaders : (chunkMsg dst p).headers = [] := by
    simp only [chunkMsg, withBody, chunkRequest, headers_addNamedHeader]
    rfl
  have h1 := sum_addNamedHeader_le (hmsMsgSetVerb hmsMsgCreate copyVerb) filenameKey dst
  have h2 := sum_addNamedHeader_le (hmsMsgAddNamedHeader (hmsMsgSetVerb hmsMsgCreate copyVerb)
    filenameKey dst) offsetKey (CString.ofBytes (decimal p.1))
  have h3 := sum_addNamedHeader_le { chunkRequest dst p.1 with
    content := some p.2, contentLen := p.2.length } hmsContentLength
    (CString.ofBytes (decimal p.2.length))
  have h0 : ((hmsMsgSetVerb hmsMsgCreate copyVerb).namedHeaders.map
      fun nhdr => nhdr.key.length + 1 + nhdr.val.length + 1).sum = 0 := rfl
  have hd1 := length_ofBytes_decimal_le hp
  have hd2 := length_ofBytes_decimal_le hlen
  rw [length_encodeHeader _ (chunkMsg_verb dst p), hheaders, List.map_nil, List.sum_nil, chunkMsg,
    withBody]
  simp only [chunkRequest, sprintfInt_natCast] at h3 ⊢
  omega

theorem chunkMsg_clean (hd : Destination dst) (hne : p.2 ≠ []) (hlen : (p.2.length : ℤ) < intMax) :
    (chunkMsg dst p).WireClean := by
  have hverb : (hmsMsgSetVerb hmsMsgCreate copyVerb).WireClean := by decide
  have hkeys : filenameKey.caseEq hmsContentLength = false ∧
      offsetKey.caseEq hmsContentLength = false := by decide
  have hoffset : (∀ c ∈ offsetKey.bytes, c ≠ colon ∧ c ≠ newline ∧ c ≠ carriageReturn) ∧
      Trimmed isspace offsetKey.bytes := by decide
  have hrequest := (hverb.addNamedHeader hd.clean hkeys.1).addNamedHeader
    (clean_decimal hoffset.1 hoffset.2 p.1) hkeys.2
  rw [← sprintfInt_natCast] at hrequest
  exact hrequest.withBody hne hlen

/-- A server can take a request off the wire. -/
theorem chunkMsg_deliverable (hd : Destination dst) (hp : (p.1 : ℤ) ≤ intMax) (hne : p.2 ≠ [])
    (hlen : (p.2.length : ℤ) < intMax) : Deliverable (chunkMsg dst p) := by
  have hsize := length_encodeHeader_chunkMsg dst hp hlen.le
  have hshort := hd.length
  refine ⟨(chunkMsg_clean hd hne hlen).survives, ?_⟩
  unfold hermesMaxHdrSize
  omega

end Requests

/-! ## What the server does with them -/

/-- A request writes its chunk. -/
theorem copyEffect_chunk {disk : Files} {n : ℕ} (hdisk : disk.Serves n) (dst : CString)
    {p : ℕ × List UInt8} (hp : (p.1 : ℤ) ≤ intMax) (hlen : p.2.length ≤ n) :
    ∃ disk', copyEffect disk (chunkMsg dst p) = some (true, disk') ∧ disk'.Serves n ∧
      disk'.files = Function.update disk.files dst (some (overlay (disk.held dst) p.1 p.2)) := by
  have hoffset : atoi (CString.ofBytes (decimal p.1)).bytes = p.1 := by
    rw [CString.bytes_ofBytes (nul_not_mem_decimal _), atoi_decimal hp]
  have hopened := hdisk.afterOpen.setFile dst (disk.held dst)
  have hwrite := hopened.pwrite dst hlen p.1
  rw [Disk.held_setFile] at hwrite
  refine ⟨_, ?_, hopened.afterTransfer.setFile dst (overlay (disk.held dst) p.1 p.2),
    Disk.files_setFile_afterTransfer_setFile _ _ _ _⟩
  rw [copyEffect, chunkMsg_lookup_filename, chunkMsg_lookup_offset]
  dsimp only
  rw [hdisk.openWrite, chunkMsg_content]
  dsimp only
  rw [hoffset, hwrite]
  simp

/-- The files after a list of writes to one of them. No write makes no file. -/
def written (files : CString → Option (List UInt8)) (dst : CString)
    (parts : List (ℕ × List UInt8)) : CString → Option (List UInt8) :=
  if parts = [] then files
  else Function.update files dst (some (writeAll ((files dst).getD []) parts))

theorem written_cons (files : CString → Option (List UInt8)) (dst : CString) (p : ℕ × List UInt8)
    (parts : List (ℕ × List UInt8)) :
    written (Function.update files dst (some (overlay ((files dst).getD []) p.1 p.2))) dst parts =
      written files dst (p :: parts) := by
  unfold written
  by_cases hnil : parts = []
  · rw [if_pos hnil, if_neg (List.cons_ne_nil p parts), hnil]
    rfl
  · rw [if_neg hnil, if_neg (List.cons_ne_nil p parts), Function.update_idem, Function.update_self]
    rfl

/-- A session of requests for one file. -/
theorem copySession_chunks (clock : ℕ → CString) (dst : CString) {n : ℕ} :
    ∀ (parts : List (ℕ × List UInt8)) {disk : Files}, disk.Serves n →
      (∀ p ∈ parts, (p.1 : ℤ) ≤ intMax ∧ p.2.length ≤ n) →
      ∃ disk', copySession clock disk (parts.map (chunkMsg dst)) = some (disk', []) ∧
        disk'.files = written disk.files dst parts
  | [], disk, _, _ => ⟨disk, rfl, rfl⟩
  | p :: parts, disk, hdisk, hparts => by
    obtain ⟨hp, hlen⟩ := hparts p (by simp)
    obtain ⟨disk₁, heffect, hdisk₁, hfiles⟩ := copyEffect_chunk hdisk dst hp hlen
    obtain ⟨disk', hsession, hfiles'⟩ :=
      copySession_chunks clock dst parts hdisk₁ fun q hq => hparts q (by simp [hq])
    have hcopy := chunkMsg_hasVerb dst p
    refine ⟨disk', ?_, ?_⟩
    · rw [List.map_cons, copySession, if_pos hcopy, heffect]
      exact hsession
    · rw [hfiles', hfiles]
      exact written_cons _ _ _ _

/-! ## The client -/

section Client

variable {disk : Files} {n : ℕ} {src dst : CString}

/-- A request that is built goes out as far as the socket takes it. -/
theorem sendData_ok (debug : Bool) (hd : Destination dst) {p : ℕ × List UInt8}
    (hp : (p.1 : ℤ) ≤ intMax) (hne : p.2 ≠ []) (hlen : (p.2.length : ℤ) ≤ intMax) (w : WriteSide)
    (rest : Buffer) :
    sendData debug w (chunkRequest dst p.1) (cells p.2 ++ rest) p.2.length =
      (if debug then debugPrintMsgHeader (chunkMsg dst p) else .ok ()) >>= fun _ =>
        .ok (chunkMsg dst p, afterMsg w (chunkMsg dst p)) := by
  have hrequest := bodyless_chunkRequest dst p.1
  have hset := setBody_eq hrequest.content hrequest.contentLen hne hlen rest
  have hagrees : (chunkMsg dst p).BodyAgrees := BodyAgrees.withBody hrequest.distinct hlen
  have hhdr := length_encodeHeader_chunkMsg dst hp hlen
  have hshort := hd.length
  have hsent := connectorSend_eq w (by simp [chunkMsg_verb]) hagrees (by unfold intMax; omega)
  rw [sendData, hset, ok_bind]
  show (hmsConnectorSendMsg w (chunkMsg dst p) >>= fun r => _) = _
  rw [hsent, ok_bind]
  cases debug <;> rfl

/-- A chunk is read and its request sent. -/
theorem sendChunk_eq (debug : Bool) (hdisk : disk.Serves n)
    (hfile : (disk.files src).isSome = true) (dst : CString) (off : ℕ) {len : ℕ} (hlen : 0 < len)
    (hfits : off + len ≤ (disk.held src).length) (hn : len ≤ n)
    (hmax : ((disk.held src).length : ℤ) < intMax) (w : WriteSide) :
    ∃ rest, sendChunk debug disk w src dst off len =
      sendData debug w (chunkRequest dst off)
        (cells (((disk.held src).drop off).take len) ++ rest) len >>= fun r =>
          hmsMsgDestroy r.1 >>= fun _ => .ok (0, disk.afterOpen.afterTransfer, r.2) := by
  have hadd : addInt len 1 = .ok ((len : ℤ) + 1) := addInt_ok (by unfold intMin; omega) (by omega)
  have hserved := malloc_nonneg (x := (len : ℤ) + 1) (by omega) (by omega)
  have hsize : toSize ((len : ℤ) + 1) = len + 1 := by
    rw [toSize_of_nonneg (by omega) (by omega)]
    omega
  have hlenSize : toSize (len : ℤ) = len := by
    rw [toSize_of_nonneg (by omega) (by omega), Int.toNat_natCast]
  rw [hsize] at hserved
  have hread := hdisk.afterOpen.pread src hn off
  have hchunk : (((disk.held src).drop off).take len).length = len := by
    rw [List.length_take, List.length_drop]
    omega
  set chunk := ((disk.held src).drop off).take len with hset
  have hcopy := copyTo_room [] (Buffer.uninit (len + 1)) chunk (by simp [hchunk]) rfl
  have htoInt : toInt (chunk.length : ℤ) = len := by
    rw [hchunk, toInt_of_range (by unfold intMin; omega) (by omega)]
  have hreadChunk : readChunk disk.afterOpen src (Buffer.uninit (len + 1)) off len =
      .ok (len, cells chunk ++ (Buffer.uninit (len + 1)).drop chunk.length,
        disk.afterOpen.afterTransfer) := by
    rw [readChunk, hlenSize, hread]
    show (copyTo (Buffer.uninit (len + 1)) 0 chunk >>= fun data =>
      Except.ok (toInt (chunk.length : ℤ), data, disk.afterOpen.afterTransfer)) = _
    rw [htoInt]
    exact congrArg (· >>= _) hcopy
  refine ⟨(Buffer.uninit (len + 1)).drop chunk.length, ?_⟩
  rw [sendChunk, hdisk.openRead hfile]
  dsimp only
  rw [if_pos rfl, hadd, ok_bind, hsize, hserved, ok_bind, if_pos rfl, hreadChunk, ok_bind]
  dsimp only
  rw [if_neg (by simp)]
  rfl

/-- A chunk goes out. -/
theorem sendChunk_ok (hdisk : disk.Serves n) (hfile : (disk.files src).isSome = true)
    (hd : Destination dst) (off : ℕ) {len : ℕ} (hlen : 0 < len)
    (hfits : off + len ≤ (disk.held src).length) (hn : len ≤ n)
    (hmax : ((disk.held src).length : ℤ) < intMax) (w : WriteSide) :
    sendChunk false disk w src dst off len = .ok (0, disk.afterOpen.afterTransfer,
      afterMsg w (chunkMsg dst (off, ((disk.held src).drop off).take len))) := by
  obtain ⟨rest, hchunk⟩ := sendChunk_eq false hdisk hfile dst off hlen hfits hn hmax w
  have htaken : (((disk.held src).drop off).take len).length = len := by
    rw [List.length_take, List.length_drop]
    omega
  have hdestroy : hmsMsgDestroy
      (chunkMsg dst (off, ((disk.held src).drop off).take len)) = .ok () :=
    ((bodyless_chunkRequest dst off).counted.withBody _).destroy
  have hsend := sendData_ok false hd (p := (off, ((disk.held src).drop off).take len))
    (by dsimp only; omega) (List.ne_nil_of_length_pos (by dsimp only; omega))
    (by dsimp only; omega) w rest
  dsimp only at hsend
  rw [htaken] at hsend
  rw [hchunk, hsend]
  simp [hdestroy]

/-- The debug print of a request reads past its buffer. -/
theorem debugPrint_undefined (hd : Destination dst) {p : ℕ × List UInt8}
    (hp : (p.1 : ℤ) ≤ intMax) (hlen : (p.2.length : ℤ) ≤ intMax) :
    debugPrintMsgHeader (chunkMsg dst p) = .error .undefined := by
  have hhdr := length_encodeHeader_chunkMsg dst hp hlen
  have hshort := hd.length
  have hverb := chunkMsg_verb dst p
  have hmax : ((encodeHeader (chunkMsg dst p)).length : ℤ) ≤ intMax := by unfold intMax; omega
  have hunsigned : toUnsigned ((encodeHeader (chunkMsg dst p)).length : ℤ) =
      (encodeHeader (chunkMsg dst p)).length := by
    rw [toUnsigned_of_nonneg (by omega) hmax, Int.toNat_natCast]
  have hserved : malloc (encodeHeader (chunkMsg dst p)).length = .ok true :=
    malloc_served (by omega)
  have hroom : (encodeHeader (chunkMsg dst p)).length ≤
      (Buffer.uninit (encodeHeader (chunkMsg dst p)).length).length := by simp
  have hprint := printHeader_eq hverb hmax hroom (toInt (encodeHeader (chunkMsg dst p)).length)
  rw [List.drop_of_length_le (by simp), List.append_nil] at hprint
  have hread := stringAt_unterminated (nul_not_mem_encodeHeader (chunkMsg dst p))
  rw [debugPrintMsgHeader, getHeaderSize_eq hverb, countInt_ok hmax, ok_bind, hunsigned]
  dsimp only
  rw [hserved, ok_bind, if_pos rfl, hprint, ok_bind]
  dsimp only
  rw [hread, error_bind]

/-- The loop sends the requests for the rest of the file. -/
theorem sendChunks_ok {bytes : List UInt8} (hmax : (bytes.length : ℤ) < intMax)
    (hn : bytes.length ≤ n) (hd : Destination dst) {chunkSize : ℕ} (hpos : 0 < chunkSize) :
    ∀ (fuel off left : ℕ) {disk : Files} (w : WriteSide), disk.Serves n →
      disk.files src = some bytes → off + left = bytes.length → left < fuel →
      ∃ disk' parts, sendChunks false src dst chunkSize fuel disk w left off =
        .ok (0, disk', (parts.map (chunkMsg dst)).foldl afterMsg w) ∧
        Pieces off (bytes.drop off) parts
  | 0, _, _, _, _, _, _, _, hfuel => absurd hfuel (Nat.not_lt_zero _)
  | fuel + 1, off, left, disk, w, hdisk, hfile, hoff, hfuel => by
    have hheld : disk.held src = bytes := by rw [Disk.held, hfile, Option.getD_some]
    have hsome : (disk.files src).isSome = true := by rw [hfile]; rfl
    rcases Nat.eq_zero_or_pos left with rfl | hleft
    · refine ⟨disk, [], ?_, ?_⟩
      · rw [sendChunks, if_neg (by simp)]
        rfl
      · rw [List.drop_of_length_le (by omega)]
        exact .nil
    -- the next chunk has `len` bytes
    have hstep : ∀ len : ℕ, 0 < len → len ≤ left →
        sendChunk false disk w src dst off len = .ok (0, disk.afterOpen.afterTransfer,
          afterMsg w (chunkMsg dst (off, (bytes.drop off).take len))) := fun len h0 hle => by
      have h := sendChunk_ok hdisk hsome hd off h0 (by rw [hheld]; omega) (by omega)
        (by rw [hheld]; exact hmax) w
      rwa [hheld] at h
    have hcut : ∀ len : ℕ, 0 < len → len ≤ left →
        ∀ parts, Pieces (off + len) (bytes.drop (off + len)) parts →
        Pieces off (bytes.drop off) ((off, (bytes.drop off).take len) :: parts) := by
      intro len h0 hle parts hparts
      have hlen : ((bytes.drop off).take len).length = len := by
        rw [List.length_take, List.length_drop]
        omega
      rw [← hlen] at hparts
      have h := Pieces.cons (List.ne_nil_of_length_pos (by omega)) hparts
      rwa [hlen, ← List.drop_drop, List.take_append_drop] at h
    have hmore := fun (len : ℕ) (hle : len ≤ left) (h0 : 0 < len) =>
      sendChunks_ok hmax hn hd hpos fuel (off + len) (left - len)
        (afterMsg w (chunkMsg dst (off, (bytes.drop off).take len)))
        hdisk.afterOpen.afterTransfer hfile (by omega) (by omega)
    have hadd : ∀ len : ℕ, len ≤ left → addInt off len = .ok ((off + len : ℕ) : ℤ) := by
      intro len hle
      rw [addInt_ok (by unfold intMin; omega) (by omega), Nat.cast_add]
    rw [sendChunks, if_pos (by omega)]
    by_cases hbig : (left : ℤ) > chunkSize
    · obtain ⟨disk', parts, hrest, hparts⟩ := hmore chunkSize (by omega) hpos
      have hsub : addInt left (-chunkSize) = .ok ((left - chunkSize : ℕ) : ℤ) := by
        rw [addInt_ok (by unfold intMin; omega) (by omega)]
        congr 1
        omega
      refine ⟨disk', _, ?_, hcut chunkSize hpos (by omega) parts hparts⟩
      rw [if_pos hbig, hstep chunkSize hpos (by omega), ok_bind]
      dsimp only
      rw [hadd chunkSize (by omega), ok_bind, hsub, ok_bind, if_neg (by omega), hrest]
      rfl
    · obtain ⟨disk', parts, hrest, hparts⟩ := hmore left le_rfl hleft
      refine ⟨disk', _, ?_, hcut left hleft le_rfl parts hparts⟩
      rw [Nat.sub_self] at hrest
      rw [if_neg hbig, hstep left hleft le_rfl, ok_bind]
      dsimp only
      rw [hadd left le_rfl, ok_bind, if_neg (by omega)]
      exact hrest

/-- The client sends the requests for the file, and returns zero whatever becomes of them. -/
theorem copyClient_ok {bytes : List UInt8} (hmax : (bytes.length : ℤ) < intMax)
    (hdisk : disk.Serves bytes.length) (hfile : disk.files src = some bytes) (hd : Destination dst)
    {chunkSize : ℤ} (hpos : 0 < chunkSize) (w : WriteSide) :
    ∃ disk' parts, copyClient false disk w src dst chunkSize =
      .ok (0, disk', (parts.map (chunkMsg dst)).foldl afterMsg w) ∧ Pieces 0 bytes parts := by
  have hheld : disk.held src = bytes := by rw [Disk.held, hfile, Option.getD_some]
  obtain ⟨chunkSize, rfl⟩ := Int.eq_ofNat_of_zero_le hpos.le
  obtain ⟨disk', parts, hrun, hparts⟩ := sendChunks_ok hmax le_rfl hd (by omega : 0 < chunkSize)
    (bytes.length + 1) 0 bytes.length w hdisk.afterOpen hfile (Nat.zero_add _) (Nat.lt_succ_self _)
  have hlen : toInt (bytes.length : ℤ) = bytes.length :=
    toInt_of_range (by unfold intMin; omega) (by omega)
  have hafter : disk.afterOpen.held src = bytes := hheld
  refine ⟨disk', parts, ?_, hparts⟩
  rw [copyClient, hdisk.openRead (by rw [hfile]; rfl)]
  dsimp only
  rw [hafter, hlen, Int.toNat_natCast]
  exact hrun

/-- With the debug print, nothing is sent but a request for an empty file. -/
theorem copyClient_debug {bytes : List UInt8} (hmax : (bytes.length : ℤ) < intMax)
    (hdisk : disk.Serves bytes.length) (hfile : disk.files src = some bytes) (hd : Destination dst)
    {chunkSize : ℤ} (hpos : 0 < chunkSize) (hne : bytes ≠ []) (w : WriteSide) :
    copyClient true disk w src dst chunkSize = .error .undefined := by
  have hheld : disk.afterOpen.held src = bytes := by
    show (disk.files src).getD [] = bytes
    rw [hfile, Option.getD_some]
  have hlen := List.length_pos_iff.2 hne
  have hfirst : ∀ len : ℕ, 0 < len → len ≤ bytes.length →
      sendChunk true disk.afterOpen w src dst 0 len = .error .undefined := fun len h0 hle => by
    obtain ⟨rest, hchunk⟩ := sendChunk_eq true hdisk.afterOpen
      (by show (disk.files src).isSome = true; rw [hfile]; rfl) dst 0 h0
      (by rw [hheld]; omega) hle (by rw [hheld]; exact hmax) w
    rw [hheld, List.drop_zero] at hchunk
    have htaken : (bytes.take len).length = len := List.length_take_of_le hle
    have hzero : ((0 : ℕ) : ℤ) ≤ intMax := by decide
    have hsend := sendData_ok true hd (p := (0, bytes.take len)) hzero
      (List.ne_nil_of_length_pos (by dsimp only; omega)) (by dsimp only; omega) w rest
    have hdebug := debugPrint_undefined hd (p := (0, bytes.take len)) hzero
      (by dsimp only; omega)
    rw [if_pos rfl, hdebug, error_bind] at hsend
    dsimp only at hsend
    rw [htaken] at hsend
    rw [Nat.cast_zero] at hchunk hsend
    rw [hchunk, hsend, error_bind]
  have htoInt : toInt (bytes.length : ℤ) = bytes.length :=
    toInt_of_range (by unfold intMin; omega) (by omega)
  obtain ⟨chunkSize, rfl⟩ := Int.eq_ofNat_of_zero_le hpos.le
  rw [copyClient, hdisk.openRead (by rw [hfile]; rfl)]
  dsimp only
  rw [hheld, htoInt, sendChunks, if_pos (by omega)]
  by_cases hbig : (bytes.length : ℤ) > chunkSize
  · rw [if_pos hbig, hfirst chunkSize (by omega) (by omega), error_bind]
  · rw [if_neg hbig, hfirst bytes.length hlen le_rfl, error_bind]

/-- No request is sent for an empty file. -/
theorem copyClient_empty {m : ℕ} (hdisk : disk.Serves m) (hfile : disk.files src = some [])
    (dst : CString) (debug : Bool) (chunkSize : ℤ) (w : WriteSide) :
    copyClient debug disk w src dst chunkSize = .ok (0, disk.afterOpen, w) := by
  have hheld : disk.afterOpen.held src = [] := by
    show (disk.files src).getD [] = []
    rw [hfile, Option.getD_some]
  rw [copyClient, hdisk.openRead (by rw [hfile]; rfl)]
  dsimp only
  rw [hheld]
  rfl

/-- A client whose file `a` holds a word. -/
def wordDisk : Files :=
  ⟨fun name => if name = CString.ofBytes (ascii "a") then some (ascii "hello") else none,
    fun _ => true, fun _ => some 99⟩

theorem wordDisk_serves : wordDisk.Serves (ascii "hello").length :=
  ⟨fun _ => rfl, fun _ => ⟨99, rfl, by decide⟩⟩

theorem wordDisk_file : wordDisk.files (CString.ofBytes (ascii "a")) = some (ascii "hello") :=
  rfl

theorem destination_b : Destination (CString.ofBytes (ascii "b")) :=
  ⟨⟨by decide, by decide, by decide, by decide, by decide⟩, by decide⟩

/-- The client returns unless it prints a request. It then returns zero, whatever becomes of its
requests. -/
theorem copyClient_returns_iff {bytes : List UInt8} (hmax : (bytes.length : ℤ) < intMax)
    (hdisk : disk.Serves bytes.length) (hfile : disk.files src = some bytes) (hd : Destination dst)
    {chunkSize : ℤ} (hpos : 0 < chunkSize) (debug : Bool) (w : WriteSide) :
    ((∃ r, copyClient debug disk w src dst chunkSize = .ok r) ↔ debug = false ∨ bytes = []) ∧
      ∀ r, copyClient debug disk w src dst chunkSize = .ok r → r.1 = 0 := by
  rcases eq_or_ne bytes [] with rfl | hne
  · have hempty := copyClient_empty hdisk hfile dst debug chunkSize w
    exact ⟨⟨fun _ => .inr rfl, fun _ => ⟨_, hempty⟩⟩, fun r hr => by
      rw [hempty] at hr
      exact congrArg Prod.fst (Except.ok.inj hr).symm⟩
  · cases debug with
    | false =>
      obtain ⟨disk', parts, hrun, -⟩ := copyClient_ok hmax hdisk hfile hd hpos w
      exact ⟨⟨fun _ => .inl rfl, fun _ => ⟨_, hrun⟩⟩, fun r hr => by
        rw [hrun] at hr
        exact congrArg Prod.fst (Except.ok.inj hr).symm⟩
    | true =>
      have hrun := copyClient_debug hmax hdisk hfile hd hpos hne w
      refine ⟨⟨fun ⟨r, hr⟩ => ?_, fun h => ?_⟩, fun r hr => ?_⟩
      · rw [hrun] at hr
        cases hr
      · rcases h with h | h
        · cases h
        · exact absurd h hne
      · rw [hrun] at hr
        cases hr

theorem copyClient_returns_iff_word :
    ((∃ r, copyClient true wordDisk stillEnv.out (CString.ofBytes (ascii "a"))
      (CString.ofBytes (ascii "b")) 2 = .ok r) ↔ true = false ∨ ascii "hello" = []) ∧
      ∀ r, copyClient true wordDisk stillEnv.out (CString.ofBytes (ascii "a"))
        (CString.ofBytes (ascii "b")) 2 = .ok r → r.1 = 0 :=
  copyClient_returns_iff (by decide) wordDisk_serves wordDisk_file destination_b (by decide) true _

end Client

/-! ## From end to end -/

/-- A file after a copy to it : nothing is cut off from what was there, and of no bytes none is
made. -/
def copied (files : CString → Option (List UInt8)) (dst : CString) (bytes : List UInt8) :
    CString → Option (List UInt8) :=
  if bytes = [] then files
  else Function.update files dst (some (bytes ++ ((files dst).getD []).drop bytes.length))

/-- The pieces of a file, written in any order. -/
theorem written_pieces {bytes : List UInt8} {parts qs : List (ℕ × List UInt8)}
    (hparts : Pieces 0 bytes parts) (hqs : qs.Perm parts)
    (files : CString → Option (List UInt8)) (dst : CString) :
    written files dst qs = copied files dst bytes := by
  have hnil : qs = [] ↔ bytes = [] := by
    rw [← hparts.eq_nil_iff]
    exact ⟨fun h => by simpa [h] using hqs, fun h => by simpa [h] using hqs⟩
  unfold written copied
  rw [← writeAll_perm hparts.apart hqs.symm, hparts.writeAll, overlay_zero]
  simp only [hnil]

/-- The bytes of messages that are sent one behind the other. -/
theorem sent_foldl_afterMsg : ∀ (msgs : List HmsMsg) {w : WriteSide}, (∀ i, w.outcomes i ≠ none) →
    (msgs.foldl afterMsg w).sent = w.sent ++ msgs.flatMap encode
  | [], w, _ => by simp
  | msg :: msgs, w, hw => by
    obtain ⟨hsent, hw'⟩ := sent_afterMsg_of_forall hw msg
    rw [List.foldl_cons, sent_foldl_afterMsg msgs hw', hsent, List.flatMap_cons, List.append_assoc]

/-- A server takes the requests for a file off the wire. -/
theorem pieces_deliverable {bytes : List UInt8} {parts : List (ℕ × List UInt8)}
    (hparts : Pieces 0 bytes parts) (hmax : (bytes.length : ℤ) < intMax) {dst : CString}
    (hd : Destination dst) : ∀ msg ∈ parts.map (chunkMsg dst), Deliverable msg := by
  intro msg hmsg
  obtain ⟨p, hp, rfl⟩ := List.mem_map.1 hmsg
  obtain ⟨hne, -, hend⟩ := hparts.mem hp
  exact chunkMsg_deliverable hd (by omega) hne (by omega)

/-- A file that the client sends arrives. -/
theorem copy_arrives {bytes : List UInt8} (hmax : (bytes.length : ℤ) < intMax) {disk : Files}
    {src dst : CString} (hdisk : disk.Serves bytes.length) (hfile : disk.files src = some bytes)
    (hd : Destination dst) {chunkSize : ℤ} (hpos : 0 < chunkSize) {w : WriteSide}
    (hnew : w.sent = []) (hw : ∀ i, w.outcomes i ≠ none) :
    ∃ disk' w', copyClient false disk w src dst chunkSize = .ok (0, disk', w') ∧
      ∀ sock : ReadSide, sock.unread = w'.sent →
      ∀ env : Env Files, env.state.Serves bytes.length → ∃ log sock' env',
        (hmsEndpointInit sock env copyOps).loop = .ok (log, sock', env') ∧
        env'.out.sent = env.out.sent ∧ env'.state.files = copied env.state.files dst bytes := by
  obtain ⟨disk', parts, hclient, hparts⟩ := copyClient_ok hmax hdisk hfile hd hpos w
  refine ⟨disk', _, hclient, fun sock hs env hstate => ?_⟩
  rw [sent_foldl_afterMsg _ hw, hnew, List.nil_append] at hs
  obtain ⟨disk'', hsession, hfiles⟩ := copySession_chunks (fun i => (env.clock i).text) dst parts
    hstate fun p hp => by
      obtain ⟨-, -, hend⟩ := hparts.mem hp
      exact ⟨by omega, by omega⟩
  have hcopy : ∀ msg ∈ parts.map (chunkMsg dst),
      msg.hasVerb "COPY" = true ∨ ∀ i, env.out.outcomes i ≠ none := by
    intro msg hmsg
    obtain ⟨p, -, rfl⟩ := List.mem_map.1 hmsg
    exact .inl (chunkMsg_hasVerb dst p)
  have hrun := loop_copy (pieces_deliverable hparts hmax hd) hs hcopy
  rw [hsession] at hrun
  obtain ⟨log, sock', env', hrun, hstate', hsent⟩ := hrun
  refine ⟨log, sock', env', hrun, by simpa using hsent, ?_⟩
  rw [hstate', hfiles, written_pieces hparts (List.Perm.refl parts)]

theorem copy_arrives_word : ∃ disk' w',
    copyClient false wordDisk ⟨[], fun _ => some 9⟩ (CString.ofBytes (ascii "a"))
      (CString.ofBytes (ascii "b")) 2 = .ok (0, disk', w') ∧
      ∀ sock : ReadSide, sock.unread = w'.sent →
      ∀ env : Env Files, env.state.Serves (ascii "hello").length → ∃ log sock' env',
        (hmsEndpointInit sock env copyOps).loop = .ok (log, sock', env') ∧
        env'.out.sent = env.out.sent ∧
        env'.state.files = copied env.state.files (CString.ofBytes (ascii "b")) (ascii "hello") :=
  copy_arrives (by decide) wordDisk_serves wordDisk_file destination_b (by decide) rfl
    fun _ => Option.some_ne_none 9

end Hermes
