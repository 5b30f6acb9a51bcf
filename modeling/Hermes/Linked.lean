import Hermes.ListHead
import Hermes.Message

/-!
# Messages in memory

`hms_msg.c` once more, on the lists as they stand in memory. In `Message` a message has its
headers as lists and each loop over one is a function of lists. Here it has a list head and the
nodes behind it (`ListMem`), a header is made, linked in, unlinked and freed, and every loop is
one of the two macros of `hms_list.h`. A function that makes a node gets the address that
`calloc` gives it.

`HmsMsg.Models` says that a message in memory is one of `Message`. Each function does to it what
its namesake there does : it returns when that one returns, the same and a message that models
the same, and fails where that one fails. No node is leaked, used after it was freed or freed
twice, and `hms_msg_destroy` leaves none (`HmsMsg.Models.destroy`).
-/

open CLib

namespace Hermes

namespace Linked

/-- `hms_msg`, its lists as they stand in memory. -/
structure HmsMsg where
  verb : Option CString
  headers : ListMem CString
  numHeaders : ℤ
  namedHeaders : ListMem HmsMsgNheader
  numNamedHeaders : ℤ
  contentLen : ℤ
  content : Option (List UInt8)

/-- `hms_msg_create`. -/
def hmsMsgCreate : HmsMsg where
  verb := none
  headers := emptyList
  numHeaders := 0
  namedHeaders := emptyList
  numNamedHeaders := 0
  contentLen := 0
  content := none

/-! ## Nodes -/

/-- `__hms_create_header`. -/
def hmsCreateHeader (m : ListMem CString) (a : ℕ) (value : CString) : Run (ListMem CString) :=
  createNode m a value

/-- `__hms_destroy_header`. -/
def hmsDestroyHeader (m : ListMem CString) (hdr : Ptr) : Run (ListMem CString) :=
  m.free hdr

/-- `__hms_create_named_header`. -/
def hmsCreateNamedHeader (m : ListMem HmsMsgNheader) (a : ℕ) (key value : CString) :
    Run (ListMem HmsMsgNheader) :=
  createNode m a ⟨key, value⟩

/-- `__hms_destroy_named_header`. -/
def hmsDestroyNamedHeader (m : ListMem HmsMsgNheader) (hdr : Ptr) :
    Run (ListMem HmsMsgNheader) :=
  m.free hdr

/-! ## The message -/

/-- `hms_msg_get_header_size`. -/
def hmsMsgGetHeaderSize (msg : HmsMsg) : Run ℤ :=
  match msg.verb with
  | none => .ok 0
  | some verb => do
    let size ← addInt 0 verb.length
    let (_, size) ← hmsListForEachEntry msg.headers (fun uhdr size => do
      let val ← msg.headers.value uhdr
      return (← addInt size (1 + val.length), true)) size
    let size ← addInt size 1
    let (_, size) ← hmsListForEachEntry msg.namedHeaders (fun nhdr size => do
      let hdr ← msg.namedHeaders.value nhdr
      return (← addInt size (hdr.key.length + 1 + hdr.val.length + 1), true)) size
    addInt size 2

/-- `hms_msg_print_header` : the status and the buffer. -/
def hmsMsgPrintHeader (msg : HmsMsg) (buffer : Buffer) (_len : ℤ) : Run (ℤ × Buffer) := do
  let hdrLen ← hmsMsgGetHeaderSize msg
  let out ← match msg.verb with
    | some verb => printBytes (buffer, 0) verb.bytes
    | none => pure (buffer, 0)
  let (_, out) ← hmsListForEachEntry msg.headers (fun uhdr out => do
    let val ← msg.headers.value uhdr
    return (← printBytes (← printBytes out [space]) val.bytes, true)) out
  let out ← printBytes out [newline]
  let (_, out) ← hmsListForEachEntry msg.namedHeaders (fun nhdr out => do
    let hdr ← msg.namedHeaders.value nhdr
    let out ← printBytes out hdr.key.bytes
    let out ← printBytes out [colon]
    let out ← printBytes out hdr.val.bytes
    return (← printBytes out [newline], true)) out
  let out ← printBytes out [dot, newline]
  hmsAssertEquals hdrLen (toInt out.2)
  return (0, out.1)

/-- The body of the first loop of `hms_msg_destroy`. -/
def destroyHeaderBody (m : ListMem CString) (hdr : Ptr) (n : ℤ) :
    Run (ListMem CString × ℤ × Bool) := do
  let m ← hmsListDel m hdr
  let m ← hmsDestroyHeader m hdr
  return (m, n - 1, true)

/-- The body of the second loop of `hms_msg_destroy`. -/
def destroyNamedHeaderBody (m : ListMem HmsMsgNheader) (hdr : Ptr) (n : ℤ) :
    Run (ListMem HmsMsgNheader × ℤ × Bool) := do
  let m ← hmsListDel m hdr
  let m ← hmsDestroyNamedHeader m hdr
  return (m, n - 1, true)

/-- `hms_msg_destroy` : what is left of the two lists. -/
def hmsMsgDestroy (msg : HmsMsg) : Run (ListMem CString × ListMem HmsMsgNheader) := do
  let (headers, n) ← hmsListForEachEntrySafe msg.headers destroyHeaderBody msg.numHeaders
  hmsAssertEquals 0 n
  let (namedHeaders, n) ←
    hmsListForEachEntrySafe msg.namedHeaders destroyNamedHeaderBody msg.numNamedHeaders
  hmsAssertEquals 0 n
  return (headers, namedHeaders)

/-! ## Verb -/

/-- `hms_msg_set_verb`. -/
def hmsMsgSetVerb (msg : HmsMsg) (verb : CString) : HmsMsg :=
  { msg with verb := some verb }

/-- `hms_msg_get_verb`. -/
def hmsMsgGetVerb (msg : HmsMsg) : ℤ × Option CString :=
  match msg.verb with
  | none => (-1, none)
  | some verb => (0, some verb)

/-! ## Headers -/

/-- `hms_msg_add_header`. -/
def hmsMsgAddHeader (msg : HmsMsg) (value : CString) (a : ℕ) : Run HmsMsg := do
  let headers ← hmsCreateHeader msg.headers a value
  let headers ← hmsListAddTail headers (.node a) .head
  return { msg with headers, numHeaders := msg.numHeaders + 1 }

/-- `hms_msg_get_header`. -/
def hmsMsgGetHeader (msg : HmsMsg) (index : ℤ) : Run (ℤ × Option CString) :=
  if msg.numHeaders ≤ 0 ∨ index < 0 ∨ index ≥ msg.numHeaders then .ok (-1, none)
  else do
    let (hdr, _) ← hmsListForEachEntry msg.headers (fun _ i => .ok (i + 1, i ≠ index)) (0 : ℤ)
    let val ← msg.headers.value hdr
    return (0, some val)

/-- The body of the loop of `hms_msg_del_header`, with `i` and the counter. -/
def delHeaderBody (index : ℤ) (m : ListMem CString) (hdr : Ptr) (st : ℤ × ℤ) :
    Run (ListMem CString × (ℤ × ℤ) × Bool) := do
  if st.1 = index then
    let m ← hmsListDel m hdr
    let m ← hmsDestroyHeader m hdr
    return (m, (st.1 + 1, st.2 - 1), false)
  return (m, (st.1 + 1, st.2), true)

/-- `hms_msg_del_header`. -/
def hmsMsgDelHeader (msg : HmsMsg) (index : ℤ) : Run (ℤ × HmsMsg) :=
  if msg.numHeaders ≤ 0 ∨ index < 0 ∨ index ≥ msg.numHeaders then .ok (-1, msg)
  else do
    let (headers, _, numHeaders) ←
      hmsListForEachEntrySafe msg.headers (delHeaderBody index) (0, msg.numHeaders)
    return (0, { msg with headers, numHeaders })

/-- `hms_msg_num_headers`. -/
def hmsMsgNumHeaders (msg : HmsMsg) : ℤ :=
  msg.numHeaders

/-! ## Named headers -/

/-- The body of the loop of `hms_msg_del_named_header`, with the counter. -/
def delNamedHeaderBody (key : CString) (m : ListMem HmsMsgNheader) (hdr : Ptr) (n : ℤ) :
    Run (ListMem HmsMsgNheader × ℤ × Bool) := do
  if (← m.value hdr).hasKey key then
    let m ← hmsListDel m hdr
    let m ← hmsDestroyNamedHeader m hdr
    return (m, n - 1, false)
  return (m, n, true)

/-- `hms_msg_del_named_header`. -/
def hmsMsgDelNamedHeader (msg : HmsMsg) (key : CString) : Run HmsMsg := do
  let (namedHeaders, numNamedHeaders) ←
    hmsListForEachEntrySafe msg.namedHeaders (delNamedHeaderBody key) msg.numNamedHeaders
  return { msg with namedHeaders, numNamedHeaders }

/-- `hms_msg_add_named_header`. -/
def hmsMsgAddNamedHeader (msg : HmsMsg) (key value : CString) (a : ℕ) : Run HmsMsg := do
  let msg ← hmsMsgDelNamedHeader msg key
  let namedHeaders ← hmsCreateNamedHeader msg.namedHeaders a key value
  let namedHeaders ← hmsListAddTail namedHeaders (.node a) .head
  return { msg with namedHeaders, numNamedHeaders := msg.numNamedHeaders + 1 }

/-- `hms_msg_get_named_header`. -/
def hmsMsgGetNamedHeader (msg : HmsMsg) (key : CString) : Run (ℤ × Option CString) := do
  let (hdr, found) ← hmsListForEachEntry msg.namedHeaders (fun hdr _ => do
    if (← msg.namedHeaders.value hdr).hasKey key then return (true, false)
    return (false, true)) false
  if found then
    let hdr ← msg.namedHeaders.value hdr
    return (0, some hdr.val)
  return (-1, none)

/-- `hms_msg_num_named_headers`. -/
def hmsMsgNumNamedHeaders (msg : HmsMsg) : ℤ :=
  msg.numNamedHeaders

/-! ## Content -/

/-- `hms_msg_get_body_size`. -/
def hmsMsgGetBodySize (msg : HmsMsg) : Run ℤ := do
  let (ret, value) ← hmsMsgGetNamedHeader msg hmsContentLength
  if ret = 0 then
    let contentLen ← atoiValue value
    hmsAssertEquals msg.contentLen contentLen
    return msg.contentLen
  hmsAssertEquals 0 msg.contentLen
  return 0

/-- `hms_msg_get_body` : the status, the copy and its length. -/
def hmsMsgGetBody (msg : HmsMsg) : Run (ℤ × Option (List UInt8) × ℤ) :=
  match msg.content with
  | some content => do
    let (ret, value) ← hmsMsgGetNamedHeader msg hmsContentLength
    hmsAssertEquals 0 ret
    let contentLen ← atoiValue value
    hmsAssertEquals msg.contentLen contentLen
    let data ← malloc (toSize msg.contentLen)
    assert (data = true)
    let copy ← bytesOf (cells content) msg.contentLen.toNat
    return (0, some copy, msg.contentLen)
  | none => .ok (0, none, 0)

/-- `hms_msg_del_body`. -/
def hmsMsgDelBody (msg : HmsMsg) : Run HmsMsg :=
  match msg.content with
  | some _ => do
    let (ret, value) ← hmsMsgGetNamedHeader msg hmsContentLength
    hmsAssertEquals 0 ret
    let contentLen ← atoiValue value
    hmsAssertEquals msg.contentLen contentLen
    let msg ← hmsMsgDelNamedHeader msg hmsContentLength
    let msg ← hmsMsgDelNamedHeader msg hmsContentChecksum
    return { msg with content := none, contentLen := 0 }
  | none => .ok msg

/-- `hms_msg_set_body`, built without checksums. -/
def hmsMsgSetBody (msg : HmsMsg) (data : Buffer) (len : ℤ) (a : ℕ) : Run HmsMsg := do
  hmsAssertNotEquals 0 len
  let msg ← hmsMsgDelBody msg
  hmsAssertEquals 0 (address msg.content)
  hmsAssertEquals 0 msg.contentLen
  let content ← malloc (toSize len)
  assert (content = true)
  let copy ← bytesOf data len.toNat
  let msg := { msg with content := some copy, contentLen := len }
  hmsMsgAddNamedHeader msg hmsContentLength (CString.ofBytes (sprintfInt len)) a

/-! ## What a message in memory is -/

/-- The message in memory is `msg`. -/
structure HmsMsg.Models (m : HmsMsg) (msg : Hermes.HmsMsg) : Prop where
  verb : m.verb = msg.verb
  headers : m.headers.HasValues msg.headers
  numHeaders : m.numHeaders = msg.numHeaders
  namedHeaders : m.namedHeaders.HasValues msg.namedHeaders
  numNamedHeaders : m.numNamedHeaders = msg.numNamedHeaders
  contentLen : m.contentLen = msg.contentLen
  content : m.content = msg.content

theorem models_create : hmsMsgCreate.Models Hermes.hmsMsgCreate where
  verb := rfl
  headers := hasValues_emptyList
  numHeaders := rfl
  namedHeaders := hasValues_emptyList
  numNamedHeaders := rfl
  contentLen := rfl
  content := rfl

/-- Any message can be in memory. -/
theorem exists_models (msg : Hermes.HmsMsg) : ∃ m : HmsMsg, m.Models msg := by
  obtain ⟨headers, hheaders⟩ := ListMem.HasValues.exists_of_values msg.headers
  obtain ⟨namedHeaders, hnamed⟩ := ListMem.HasValues.exists_of_values msg.namedHeaders
  exact ⟨⟨msg.verb, headers, msg.numHeaders, namedHeaders, msg.numNamedHeaders, msg.contentLen,
    msg.content⟩, rfl, hheaders, rfl, hnamed, rfl, rfl, rfl⟩

/-! ## What the loops that delete do -/

theorem visits_destroyHeaderBody : Visits destroyHeaderBody (visitAll fun n => n - 1) :=
  fun _ _ _ _ _ => rfl

theorem visits_destroyNamedHeaderBody : Visits destroyNamedHeaderBody (visitAll fun n => n - 1) :=
  fun _ _ _ _ _ => rfl

theorem visits_delHeaderBody (index : ℤ) :
    Visits (delHeaderBody index) (visitIndex index fun n => n - 1) := by
  intro m a v st _
  by_cases hi : st.1 = index
  · rw [delHeaderBody, visitIndex, if_pos hi, if_pos hi]
    rfl
  · rw [delHeaderBody, visitIndex, if_neg hi, if_neg hi]
    rfl

theorem visits_delNamedHeaderBody (key : CString) :
    Visits (delNamedHeaderBody key) (visitFind (HmsMsgNheader.hasKey key) fun n => n - 1) := by
  intro m a v n hv
  unfold delNamedHeaderBody visitFind
  rw [value_of_lookup hv, ok_bind]
  by_cases hk : v.hasKey key
  · rw [if_pos hk, if_pos hk]
    rfl
  · rw [if_neg hk, if_neg hk]
    rfl

namespace HmsMsg.Models

variable {m : HmsMsg} {msg : Hermes.HmsMsg} (h : m.Models msg)
include h

/-! ## Functions that read -/

theorem getHeaderSize : hmsMsgGetHeaderSize m = Hermes.hmsMsgGetHeaderSize msg := by
  rw [hmsMsgGetHeaderSize, Hermes.hmsMsgGetHeaderSize, h.verb]
  cases msg.verb with
  | none => rfl
  | some verb =>
    refine bind_congr fun size => ?_
    have hnamed := h.namedHeaders.fold
      (fun size nhdr => addInt size (nhdr.key.length + 1 + nhdr.val.length + 1))
      (fun size => addInt size 2)
    have hunnamed := h.headers.fold (fun size uhdr => addInt size (1 + uhdr.length))
      (fun size => addInt size 1 >>= fun size => hmsListForEachEntry m.namedHeaders (fun nhdr size =>
        m.namedHeaders.value nhdr >>= fun hdr =>
          addInt size (hdr.key.length + 1 + hdr.val.length + 1) >>= fun size =>
            .ok (size, true)) size >>= fun r => addInt r.2 2) size
    exact hunnamed.trans (bind_congr fun size => bind_congr fun size => hnamed size)

theorem printHeader (buffer : Buffer) (len : ℤ) :
    hmsMsgPrintHeader m buffer len = Hermes.hmsMsgPrintHeader msg buffer len := by
  rw [hmsMsgPrintHeader, Hermes.hmsMsgPrintHeader, h.getHeaderSize, h.verb]
  refine bind_congr fun hdrLen => ?_
  have hnamed := h.namedHeaders.fold
    (fun out nhdr => printBytes out nhdr.key.bytes >>= fun out => printBytes out [colon] >>=
      fun out => printBytes out nhdr.val.bytes >>= fun out => printBytes out [newline])
    (fun out => printBytes out [dot, newline] >>= fun out =>
      hmsAssertEquals hdrLen (toInt out.2) >>= fun _ => .ok ((0 : ℤ), out.1))
  have hunnamed := h.headers.fold
    (fun out uhdr => printBytes out [space] >>= fun out => printBytes out uhdr.bytes)
    (fun out => printBytes out [newline] >>= fun out => hmsListForEachEntry m.namedHeaders
      (fun nhdr out => m.namedHeaders.value nhdr >>= fun hdr =>
        (printBytes out hdr.key.bytes >>= fun out => printBytes out [colon] >>= fun out =>
          printBytes out hdr.val.bytes >>= fun out => printBytes out [newline]) >>= fun out =>
            .ok (out, true)) out >>= fun r => printBytes r.2 [dot, newline] >>= fun out =>
              hmsAssertEquals hdrLen (toInt out.2) >>= fun _ => .ok ((0 : ℤ), out.1))
  simp only [bind_assoc] at hunnamed hnamed
  have hrest := fun out =>
    (hunnamed out).trans (bind_congr fun out => bind_congr fun out => hnamed out)
  cases msg.verb with
  | none => exact bind_congr hrest
  | some verb => exact bind_congr hrest

theorem getHeader (index : ℤ) : hmsMsgGetHeader m index = Hermes.hmsMsgGetHeader msg index := by
  rw [hmsMsgGetHeader, Hermes.hmsMsgGetHeader, h.numHeaders]
  split_ifs with hout
  · rfl
  · obtain ⟨j, hscan⟩ := scan_index index msg.headers 0 (by omega)
    have hloop : (hmsListForEachEntry m.headers (fun _ i => .ok (i + 1, decide (i ≠ index))) 0 >>=
        fun r => m.headers.value r.1 >>= fun val => .ok ((0 : ℤ), some val)) =
      (scan (fun _ i => .ok (i + 1, decide (i ≠ index))) msg.headers 0 >>= fun r =>
        match r.1 with
        | some val => .ok ((0 : ℤ), some val)
        | none => .error .undefined) :=
      h.headers.forEachEntry (fun _ _ _ _ => rfl) (fun _ => rfl)
        (fun a v st hv => by rw [value_of_lookup hv]; rfl) 0
    rw [hscan, ok_bind, Int.sub_zero] at hloop
    exact hloop

theorem getNamedHeader (key : CString) :
    hmsMsgGetNamedHeader m key = .ok (Hermes.hmsMsgGetNamedHeader msg key) := by
  have hloop : hmsMsgGetNamedHeader m key =
      (scan (fun nhdr _ => .ok (nhdr.hasKey key, !nhdr.hasKey key)) msg.namedHeaders false >>=
        fun r => if r.2 then r.1.elim (.error .undefined) fun hdr => .ok ((0 : ℤ), some hdr.val)
          else .ok (-1, none)) := by
    refine h.namedHeaders.forEachEntry (fun a v st hv => ?_) (fun st => ?_) (fun a v st hv => ?_) false
    · rw [value_of_lookup hv, ok_bind]
      cases v.hasKey key <;> rfl
    · rfl
    · simp only [value_of_lookup hv, ok_bind]
      rfl
  rw [hloop, scan_find, ok_bind, Hermes.hmsMsgGetNamedHeader, ← List.isSome_find?]
  show (if (msg.namedHeaders.find? (HmsMsgNheader.hasKey key)).isSome then _ else _) = _
  cases msg.namedHeaders.find? (HmsMsgNheader.hasKey key) <;> rfl

theorem getBodySize : hmsMsgGetBodySize m = Hermes.hmsMsgGetBodySize msg := by
  rw [hmsMsgGetBodySize, Hermes.hmsMsgGetBodySize, h.getNamedHeader, ok_bind, h.contentLen]

theorem getBody : hmsMsgGetBody m = Hermes.hmsMsgGetBody msg := by
  rw [hmsMsgGetBody, Hermes.hmsMsgGetBody, h.getNamedHeader, h.contentLen, h.content]
  cases msg.content <;> rfl

/-! ## Functions that delete nodes -/

theorem delHeader (index : ℤ) :
    ∃ m', hmsMsgDelHeader m index = .ok ((Hermes.hmsMsgDelHeader msg index).1, m') ∧
      m'.Models (Hermes.hmsMsgDelHeader msg index).2 := by
  rw [hmsMsgDelHeader, Hermes.hmsMsgDelHeader, h.numHeaders]
  by_cases hout : msg.numHeaders ≤ 0 ∨ index < 0 ∨ index ≥ msg.numHeaders
  · rw [if_pos hout, if_pos hout]
    exact ⟨m, rfl, h⟩
  rw [if_neg hout, if_neg hout]
  obtain ⟨j, hsweep⟩ := sweep_index index (fun n : ℤ => n - 1) msg.headers 0 msg.numHeaders (by omega)
  obtain ⟨headers, hloop, hvalues⟩ :=
    h.headers.forEachEntrySafe (visits_delHeaderBody index) (0, msg.numHeaders)
  rw [hsweep, Int.sub_zero] at hloop hvalues
  rw [hloop, ok_bind]
  by_cases hin : index.toNat < msg.headers.length
  · rw [if_pos hin, if_pos hin]
    exact ⟨_, rfl, h.verb, hvalues, rfl, h.namedHeaders, h.numNamedHeaders, h.contentLen, h.content⟩
  · rw [if_neg hin, if_neg hin]
    rw [List.eraseIdx_of_length_le (by omega)] at hvalues
    exact ⟨_, rfl, h.verb, hvalues, rfl, h.namedHeaders, h.numNamedHeaders, h.contentLen, h.content⟩

theorem delNamedHeader (key : CString) : ∃ m', hmsMsgDelNamedHeader m key = .ok m' ∧
    m'.Models (Hermes.hmsMsgDelNamedHeader msg key) := by
  obtain ⟨namedHeaders, hloop, hvalues⟩ :=
    h.namedHeaders.forEachEntrySafe (visits_delNamedHeaderBody key) m.numNamedHeaders
  rw [sweep_find] at hloop hvalues
  rw [hmsMsgDelNamedHeader, hloop, ok_bind, Hermes.hmsMsgDelNamedHeader, h.numNamedHeaders]
  by_cases hany : msg.namedHeaders.any (HmsMsgNheader.hasKey key)
  · rw [if_pos hany, if_pos hany]
    exact ⟨_, rfl, h.verb, h.headers, h.numHeaders, hvalues, rfl, h.contentLen, h.content⟩
  · rw [if_neg hany, if_neg hany]
    rw [List.eraseP_of_forall_not fun b hb hk => hany (List.any_eq_true.2 ⟨b, hb, hk⟩)] at hvalues
    exact ⟨_, rfl, h.verb, h.headers, h.numHeaders, hvalues, rfl, h.contentLen, h.content⟩

theorem delBody : Alike HmsMsg.Models (hmsMsgDelBody m) (Hermes.hmsMsgDelBody msg) := by
  rw [hmsMsgDelBody, Hermes.hmsMsgDelBody, h.content, h.contentLen]
  cases msg.content with
  | none => exact .ok h
  | some body =>
    rw [h.getNamedHeader, ok_bind]
    refine .bind_same fun _ => .bind_same fun _ => .bind_same fun _ => ?_
    obtain ⟨m₁, hdel₁, h₁⟩ := h.delNamedHeader hmsContentLength
    obtain ⟨m₂, hdel₂, h₂⟩ := h₁.delNamedHeader hmsContentChecksum
    rw [hdel₁, ok_bind, hdel₂, ok_bind]
    exact .ok ⟨h₂.verb, h₂.headers, h₂.numHeaders, h₂.namedHeaders, h₂.numNamedHeaders, rfl, rfl⟩

/-- `hms_msg_destroy` leaves no node. -/
theorem destroy : Alike (fun rest _ => rest.1.HasValues [] ∧ rest.2.HasValues [])
    (hmsMsgDestroy m) (Hermes.hmsMsgDestroy msg) := by
  obtain ⟨headers, hloop, hvalues⟩ :=
    h.headers.forEachEntrySafe visits_destroyHeaderBody m.numHeaders
  obtain ⟨namedHeaders, hloop', hvalues'⟩ :=
    h.namedHeaders.forEachEntrySafe visits_destroyNamedHeaderBody m.numNamedHeaders
  rw [sweep_all] at hloop hloop' hvalues hvalues'
  rw [hmsMsgDestroy, Hermes.hmsMsgDestroy, hloop, ok_bind, hloop', h.numHeaders, h.numNamedHeaders]
  refine .bind_same fun _ => ?_
  rw [ok_bind, ← bind_pure (hmsAssertEquals 0 (msg.namedHeaders.foldl _ msg.numNamedHeaders))]
  exact .bind_same fun _ => .ok ⟨hvalues, hvalues'⟩

/-! ## Functions that make a node -/

theorem addHeader {m' : HmsMsg} {value : CString} {a : ℕ}
    (hrun : hmsMsgAddHeader m value a = .ok m') : m'.Models (Hermes.hmsMsgAddHeader msg value) := by
  obtain ⟨headers, hcreate, hrun⟩ := bind_eq_ok.1 hrun
  obtain ⟨headers', hadd, hrun⟩ := bind_eq_ok.1 hrun
  cases hrun
  have hvalues := h.headers.add_of_ok (bind_eq_ok.2 ⟨headers, hcreate, hadd⟩)
  exact ⟨h.verb, hvalues, congrArg (· + 1) h.numHeaders, h.namedHeaders, h.numNamedHeaders,
    h.contentLen, h.content⟩

/-- It returns if the allocator gives a free address. -/
theorem addHeader_returns {a : ℕ} (ha : a ∉ m.headers.nodes) (value : CString) :
    ∃ m', hmsMsgAddHeader m value a = .ok m' := by
  obtain ⟨headers', hrun, -⟩ := h.headers.add ha value
  obtain ⟨headers, hcreate, hadd⟩ := bind_eq_ok.1 hrun
  exact ⟨_, bind_eq_ok.2 ⟨headers, hcreate, bind_eq_ok.2 ⟨headers', hadd, rfl⟩⟩⟩

theorem addNamedHeader {m' : HmsMsg} {key value : CString} {a : ℕ}
    (hrun : hmsMsgAddNamedHeader m key value a = .ok m') :
    m'.Models (Hermes.hmsMsgAddNamedHeader msg key value) := by
  obtain ⟨m₁, hdel, h₁⟩ := h.delNamedHeader key
  rw [hmsMsgAddNamedHeader, hdel, ok_bind] at hrun
  obtain ⟨namedHeaders, hcreate, hrun⟩ := bind_eq_ok.1 hrun
  obtain ⟨namedHeaders', hadd, hrun⟩ := bind_eq_ok.1 hrun
  cases hrun
  have hvalues := h₁.namedHeaders.add_of_ok (bind_eq_ok.2 ⟨namedHeaders, hcreate, hadd⟩)
  exact ⟨h₁.verb, h₁.headers, h₁.numHeaders, hvalues, congrArg (· + 1) h₁.numNamedHeaders,
    h₁.contentLen, h₁.content⟩

/-- It returns for some address. -/
theorem addNamedHeader_returns (key value : CString) :
    ∃ a m', hmsMsgAddNamedHeader m key value a = .ok m' := by
  obtain ⟨m₁, hdel, h₁⟩ := h.delNamedHeader key
  obtain ⟨a, ha⟩ := m₁.namedHeaders.exists_free
  obtain ⟨namedHeaders', hrun, -⟩ := h₁.namedHeaders.add ha ⟨key, value⟩
  obtain ⟨namedHeaders, hcreate, hadd⟩ := bind_eq_ok.1 hrun
  exact ⟨a, _, bind_eq_ok.2 ⟨m₁, hdel, bind_eq_ok.2 ⟨namedHeaders, hcreate,
    bind_eq_ok.2 ⟨namedHeaders', hadd, rfl⟩⟩⟩⟩

/-- It returns for some address if it does on the message. -/
theorem setBody_returns {msg' : Hermes.HmsMsg} {data : Buffer} {len : ℤ}
    (hrun : Hermes.hmsMsgSetBody msg data len = .ok msg') :
    ∃ a m', hmsMsgSetBody m data len a = .ok m' := by
  obtain ⟨_, h0, hrun⟩ := bind_eq_ok.1 hrun
  obtain ⟨msg₁, hdel, hrun⟩ := bind_eq_ok.1 hrun
  have hdel' := h.delBody
  rw [hdel] at hdel'
  obtain ⟨m₁, hdel', h₁⟩ := hdel'.ok_right
  obtain ⟨_, h2, hrun⟩ := bind_eq_ok.1 hrun
  obtain ⟨_, h3, hrun⟩ := bind_eq_ok.1 hrun
  obtain ⟨content, h4, hrun⟩ := bind_eq_ok.1 hrun
  obtain ⟨_, h5, hrun⟩ := bind_eq_ok.1 hrun
  obtain ⟨copy, h6, -⟩ := bind_eq_ok.1 hrun
  have hset : HmsMsg.Models { m₁ with content := some copy, contentLen := len }
      { msg₁ with content := some copy, contentLen := len } :=
    ⟨h₁.verb, h₁.headers, h₁.numHeaders, h₁.namedHeaders, h₁.numNamedHeaders, rfl, rfl⟩
  obtain ⟨a, m', hadd⟩ :=
    hset.addNamedHeader_returns hmsContentLength (CString.ofBytes (sprintfInt len))
  rw [← h₁.content] at h2
  rw [← h₁.contentLen] at h3
  refine ⟨a, m', ?_⟩
  rw [hmsMsgSetBody, h0, ok_bind, hdel', ok_bind, h2, ok_bind, h3, ok_bind, h4, ok_bind, h5,
    ok_bind, h6]
  exact hadd

theorem setBody {m' : HmsMsg} {data : Buffer} {len : ℤ} {a : ℕ}
    (hrun : hmsMsgSetBody m data len a = .ok m') :
    ∃ msg', Hermes.hmsMsgSetBody msg data len = .ok msg' ∧ m'.Models msg' := by
  obtain ⟨_, h0, hrun⟩ := bind_eq_ok.1 hrun
  obtain ⟨m₁, hdel, hrun⟩ := bind_eq_ok.1 hrun
  have hdel' := h.delBody
  rw [hdel] at hdel'
  obtain ⟨msg₁, hdel', h₁⟩ := hdel'.ok_left
  rw [h₁.content, h₁.contentLen] at hrun
  obtain ⟨_, h2, hrun⟩ := bind_eq_ok.1 hrun
  obtain ⟨_, h3, hrun⟩ := bind_eq_ok.1 hrun
  obtain ⟨content, h4, hrun⟩ := bind_eq_ok.1 hrun
  obtain ⟨_, h5, hrun⟩ := bind_eq_ok.1 hrun
  obtain ⟨copy, h6, hrun⟩ := bind_eq_ok.1 hrun
  have hset : HmsMsg.Models { m₁ with content := some copy, contentLen := len }
      { msg₁ with content := some copy, contentLen := len } :=
    ⟨h₁.verb, h₁.headers, h₁.numHeaders, h₁.namedHeaders, h₁.numNamedHeaders, rfl, rfl⟩
  refine ⟨_, ?_, hset.addNamedHeader hrun⟩
  rw [Hermes.hmsMsgSetBody, h0, ok_bind, hdel', ok_bind, h2, ok_bind, h3, ok_bind, h4, ok_bind, h5,
    ok_bind, h6]
  rfl

end HmsMsg.Models

end Linked

end Hermes
