import Hermes.CLib.Memory
import Hermes.CLib.Numeral

/-!
# Messages

The message of `hms_msg.c`, without the request id, which nothing reads. A message has a
verb, unnamed headers, named headers and a body, each list with its counter as the struct
has it. The length of the body is kept twice, in `contentLen` and as the decimal value of
the `Content-Length` header, and the body functions assert that the two agree.

Functions that return `0` whatever happens return the message only. The list macros walk
the list in order, so `hms_list_add_tail` appends, a loop that deletes the first match is
`List.eraseP` and one that stops at it is `List.find?`. Storage for strings and list nodes
is always there.
-/

open CLib

namespace Hermes

/-! ## Assertions of `hms_util.c` -/

/-- `hms_assert_equals`. -/
def hmsAssertEquals (expected condition : ℤ) : Run Unit :=
  assert (condition = expected)

/-- `hms_assert_not_equals`. Its parameters are `int`, so of a pointer it compares the low 32 bits.
No object is taken to lie at an address whose low 32 bits are zero. -/
def hmsAssertNotEquals (expected condition : ℤ) : Run Unit :=
  assert (condition ≠ expected)

/-- A pointer as the assertions compare it : `0` for `NULL`, and not `0` for any other one. -/
def address {α : Type} (p : Option α) : ℤ :=
  if p.isNone then 0 else 1

/-! ## The message -/

/-- `HMS_CONTENT_LENGTH`. -/
def hmsContentLength : CString :=
  CString.ofBytes (ascii "Content-Length")

/-- `HMS_CONTENT_CHECKSUM`. -/
def hmsContentChecksum : CString :=
  CString.ofBytes (ascii "Content-Checksum")

/-- `hms_msg_nheader`. -/
@[ext]
structure HmsMsgNheader where
  key : CString
  val : CString
  deriving DecidableEq, Repr

/-- `hms_msg`. -/
@[ext]
structure HmsMsg where
  verb : Option CString
  headers : List CString
  numHeaders : ℤ
  namedHeaders : List HmsMsgNheader
  numNamedHeaders : ℤ
  contentLen : ℤ
  content : Option (List UInt8)
  deriving DecidableEq, Repr

/-- `hms_msg_create`. -/
def hmsMsgCreate : HmsMsg where
  verb := none
  headers := []
  numHeaders := 0
  namedHeaders := []
  numNamedHeaders := 0
  contentLen := 0
  content := none

/-- `hms_msg_get_header_size`. The sums are of `size_t`, and what one beyond `INT_MAX` becomes in
the `int` is up to the implementation. Here it is undefined. -/
def hmsMsgGetHeaderSize (msg : HmsMsg) : Run ℤ :=
  match msg.verb with
  | none => .ok 0
  | some verb => do
    let size ← addInt 0 verb.length
    let size ← msg.headers.foldlM (fun size uhdr => addInt size (1 + uhdr.length)) size
    let size ← addInt size 1
    let size ← msg.namedHeaders.foldlM
      (fun size nhdr => addInt size (nhdr.key.length + 1 + nhdr.val.length + 1)) size
    addInt size 2

/-- `strncpy(offset, src, n); offset += n` with the `n` bytes of `src`. -/
def printBytes (out : Buffer × ℕ) (src : List UInt8) : Run (Buffer × ℕ) := do
  return (← copyTo out.1 out.2 src, out.2 + src.length)

/-- `hms_msg_print_header` : the status and the buffer. -/
def hmsMsgPrintHeader (msg : HmsMsg) (buffer : Buffer) (_len : ℤ) : Run (ℤ × Buffer) := do
  let hdrLen ← hmsMsgGetHeaderSize msg
  let out ← match msg.verb with
    | some verb => printBytes (buffer, 0) verb.bytes
    | none => pure (buffer, 0)
  let out ← msg.headers.foldlM
    (fun out uhdr => do printBytes (← printBytes out [space]) uhdr.bytes) out
  let out ← printBytes out [newline]
  let out ← msg.namedHeaders.foldlM
    (fun out nhdr => do
      let out ← printBytes out nhdr.key.bytes
      let out ← printBytes out [colon]
      let out ← printBytes out nhdr.val.bytes
      printBytes out [newline]) out
  let out ← printBytes out [dot, newline]
  hmsAssertEquals hdrLen (toInt out.2)
  return (0, out.1)

/-- `hms_msg_destroy`. Each node freed takes one off its counter. -/
def hmsMsgDestroy (msg : HmsMsg) : Run Unit := do
  hmsAssertEquals 0 (msg.headers.foldl (fun n _ => n - 1) msg.numHeaders)
  hmsAssertEquals 0 (msg.namedHeaders.foldl (fun n _ => n - 1) msg.numNamedHeaders)

/-! ## Verb -/

/-- `hms_msg_set_verb`. -/
def hmsMsgSetVerb (msg : HmsMsg) (verb : CString) : HmsMsg :=
  { msg with verb := some verb }

/-- `hms_msg_get_verb`. -/
def hmsMsgGetVerb (msg : HmsMsg) : ℤ × Option CString :=
  match msg.verb with
  | none => (-1, none)
  | some verb => (0, some verb)

/-! ## Headers -/

/-- `hms_msg_add_header`. -/
def hmsMsgAddHeader (msg : HmsMsg) (value : CString) : HmsMsg :=
  { msg with headers := msg.headers ++ [value], numHeaders := msg.numHeaders + 1 }

/-- `hms_msg_get_header`. An index the counter allows and the list does not have reads past
the list. -/
def hmsMsgGetHeader (msg : HmsMsg) (index : ℤ) : Run (ℤ × Option CString) :=
  if msg.numHeaders ≤ 0 ∨ index < 0 ∨ index ≥ msg.numHeaders then .ok (-1, none)
  else
    match msg.headers[index.toNat]? with
    | some val => .ok (0, some val)
    | none => .error .undefined

/-- `hms_msg_del_header`. -/
def hmsMsgDelHeader (msg : HmsMsg) (index : ℤ) : ℤ × HmsMsg :=
  if msg.numHeaders ≤ 0 ∨ index < 0 ∨ index ≥ msg.numHeaders then (-1, msg)
  else if index.toNat < msg.headers.length then
    (0, { msg with
      headers := msg.headers.eraseIdx index.toNat
      numHeaders := msg.numHeaders - 1 })
  else (0, msg)

/-- `hms_msg_num_headers`. -/
def hmsMsgNumHeaders (msg : HmsMsg) : ℤ :=
  msg.numHeaders

/-! ## Named headers -/

/-- `strcasecmp(hdr->key, key) == 0`. -/
def HmsMsgNheader.hasKey (key : CString) (hdr : HmsMsgNheader) : Bool :=
  hdr.key.caseEq key

/-- `hms_msg_del_named_header`. -/
def hmsMsgDelNamedHeader (msg : HmsMsg) (key : CString) : HmsMsg :=
  if msg.namedHeaders.any (HmsMsgNheader.hasKey key) then
    { msg with
      namedHeaders := msg.namedHeaders.eraseP (HmsMsgNheader.hasKey key)
      numNamedHeaders := msg.numNamedHeaders - 1 }
  else msg

/-- `hms_msg_add_named_header`. -/
def hmsMsgAddNamedHeader (msg : HmsMsg) (key value : CString) : HmsMsg :=
  let msg := hmsMsgDelNamedHeader msg key
  { msg with
    namedHeaders := msg.namedHeaders ++ [⟨key, value⟩]
    numNamedHeaders := msg.numNamedHeaders + 1 }

/-- `hms_msg_get_named_header`. -/
def hmsMsgGetNamedHeader (msg : HmsMsg) (key : CString) : ℤ × Option CString :=
  match msg.namedHeaders.find? (HmsMsgNheader.hasKey key) with
  | some hdr => (0, some hdr.val)
  | none => (-1, none)

/-- `hms_msg_num_named_headers`. -/
def hmsMsgNumNamedHeaders (msg : HmsMsg) : ℤ :=
  msg.numNamedHeaders

/-! ## Content -/

/-- `atoi` of a header value. A `NULL` value is undefined. -/
def atoiValue (value : Option CString) : Run ℤ :=
  match value with
  | some value => .ok (atoi value.bytes)
  | none => .error .undefined

/-- `hms_msg_get_body_size`. -/
def hmsMsgGetBodySize (msg : HmsMsg) : Run ℤ := do
  let (ret, value) := hmsMsgGetNamedHeader msg hmsContentLength
  if ret = 0 then
    let contentLen ← atoiValue value
    hmsAssertEquals msg.contentLen contentLen
    return msg.contentLen
  hmsAssertEquals 0 msg.contentLen
  return 0

/-- `hms_msg_get_body` : the status, the copy and its length. -/
def hmsMsgGetBody (msg : HmsMsg) : Run (ℤ × Option (List UInt8) × ℤ) :=
  match msg.content with
  | some content => do
    let (ret, value) := hmsMsgGetNamedHeader msg hmsContentLength
    hmsAssertEquals 0 ret
    let contentLen ← atoiValue value
    hmsAssertEquals msg.contentLen contentLen
    let data ← malloc (toSize msg.contentLen)
    assert (data = true)
    let copy ← bytesOf (cells content) msg.contentLen.toNat
    return (0, some copy, msg.contentLen)
  | none => .ok (0, none, 0)

/-- `hms_msg_del_body`. -/
def hmsMsgDelBody (msg : HmsMsg) : Run HmsMsg :=
  match msg.content with
  | some _ => do
    let (ret, value) := hmsMsgGetNamedHeader msg hmsContentLength
    hmsAssertEquals 0 ret
    let contentLen ← atoiValue value
    hmsAssertEquals msg.contentLen contentLen
    let msg := hmsMsgDelNamedHeader msg hmsContentLength
    let msg := hmsMsgDelNamedHeader msg hmsContentChecksum
    return { msg with content := none, contentLen := 0 }
  | none => .ok msg

/-- `hms_msg_set_body`, built without checksums. -/
def hmsMsgSetBody (msg : HmsMsg) (data : Buffer) (len : ℤ) : Run HmsMsg := do
  hmsAssertNotEquals 0 len
  let msg ← hmsMsgDelBody msg
  hmsAssertEquals 0 (address msg.content)
  hmsAssertEquals 0 msg.contentLen
  let content ← malloc (toSize len)
  assert (content = true)
  let copy ← bytesOf data len.toNat
  let msg := { msg with content := some copy, contentLen := len }
  return hmsMsgAddNamedHeader msg hmsContentLength (CString.ofBytes (sprintfInt len))

end Hermes
