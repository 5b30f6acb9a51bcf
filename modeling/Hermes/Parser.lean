import Hermes.CLib.Socket
import Hermes.Message

/-!
# The parser

`hms_parser.c`, statement by statement. `hmsMsgParse` reads a header byte by byte into a
buffer of `max_hdr_len + 1` bytes (`hmsParseReadHeader`), cuts it into lines and words in
place (`hmsParseHeader`), and reads as many body bytes as the last `Content-Length` says
(`hmsParseReadBody`).

A loop takes the number of its remaining iterations as fuel. `readHeaderLoop` runs while
the buffer has room, so its fuel is that room. The other loops start with more fuel than
they use, and running out of it is `Fault.undefined`.
-/

open CLib

namespace Hermes

/-! ## Reading the header -/

/-- The locals of `__hms_parse_read_header`. -/
structure HeaderScan where
  buffer : Buffer
  hdrLen : ℕ
  dotSeen : Bool
  dotPtr : Option ℕ
  isDone : Bool
  sock : ReadSide

/-- The loop of `__hms_parse_read_header` with `room` cells left. -/
def readHeaderLoop : ℕ → HeaderScan → Run HeaderScan
  | 0, st => .ok st
  | room + 1, st =>
    match st.sock.read 1 with
    | ([c], sock) => do
      let c := if c = carriageReturn then space else c
      let buffer ← store st.buffer st.hdrLen c
      let st := { st with buffer, hdrLen := st.hdrLen + 1, sock }
      if c = dot then
        readHeaderLoop room { st with dotSeen := true, dotPtr := some (st.hdrLen - 1) }
      else if st.dotSeen ∧ c = newline then
        return { st with isDone := true }
      else if st.dotSeen ∧ c ≠ space ∧ c ≠ carriageReturn ∧ c ≠ newline then
        readHeaderLoop room { st with dotSeen := false, dotPtr := none }
      else
        readHeaderLoop room st
    | (_, sock) => .ok { st with sock }

/-- `if(p) *p = '\0'`. -/
def storeNul (buffer : Buffer) (p : Option ℕ) : Run Buffer :=
  match p with
  | some i => store buffer i nul
  | none => .ok buffer

/-- `__hms_parse_read_header` : the header length or `-1`, and the buffer. The bound is
compared with an unsigned length. -/
def hmsParseReadHeader (sock : ReadSide) (buffer : Buffer) (bufLen : ℤ) :
    Run (ℤ × Buffer × ReadSide) := do
  hmsAssertNotEquals 0 bufLen
  let st ← readHeaderLoop (toUnsigned bufLen) ⟨buffer, 0, false, none, false, sock⟩
  let buffer ← storeNul st.buffer st.dotPtr
  let buffer ← storeNul buffer (if st.hdrLen < toUnsigned bufLen then some st.hdrLen else none)
  return (if st.isDone then toInt st.hdrLen else -1, buffer, st.sock)

/-! ## Cutting the header into lines -/

/-- `line_sep`. -/
def lineSep (c : UInt8) : Bool :=
  c == newline

/-- `word_sep`. -/
def wordSep (c : UInt8) : Bool :=
  c == space || c == tab

/-- The locals of `__hms_parse_verb_line`. -/
structure VerbLine where
  msg : HmsMsg
  count : ℕ
  foundVerb : Bool

/-- The body of the loop of `__hms_parse_verb_line`. -/
def verbLineBody (buffer : Buffer) (word : ℕ) (st : VerbLine) : Run (Buffer × VerbLine × Bool) := do
  let value ← stringAt buffer word
  if st.count = 0 then
    return (buffer, ⟨hmsMsgSetVerb st.msg value, st.count + 1, true⟩, true)
  else
    return (buffer, ⟨hmsMsgAddHeader st.msg value, st.count + 1, st.foundVerb⟩, true)

/-- `__hms_parse_verb_line`. -/
def hmsParseVerbLine (msg : HmsMsg) (buffer : Buffer) (line : ℕ) : Run (ℤ × HmsMsg × Buffer) := do
  let (buffer, st) ← strtokFor wordSep verbLineBody (buffer.length + 1) buffer line ⟨msg, 0, false⟩
  return (if st.foundVerb then 0 else -1, st.msg, buffer)

/-- The second loop of `__hms_str_strip`, for `last` one before the index given. -/
def clearBack (buffer : Buffer) : ℕ → Run Buffer
  | 0 => .error .undefined
  | last + 1 => do
    if isspace (← load buffer last) then
      clearBack (← store buffer last nul) last
    else
      return buffer

/-- `__hms_str_strip` : the buffer and the moved pointer. -/
def hmsStrStrip (buffer : Buffer) (str : ℕ) : Run (Buffer × ℕ) := do
  let str := str + (← span isspace buffer str)
  let buffer ← clearBack buffer (str + (← strlen buffer str))
  return (buffer, str)

/-- `__hms_parse_named_header` : the status, the message, `*body_len` and the buffer. -/
def hmsParseNamedHeader (msg : HmsMsg) (buffer : Buffer) (line : ℕ) (bodyLen : ℤ) :
    Run (ℤ × HmsMsg × ℤ × Buffer) := do
  match ← strchr buffer line colon with
  | none => return (-1, msg, bodyLen, buffer)
  | some val =>
    let buffer ← store buffer val nul
    let (buffer, key) ← hmsStrStrip buffer line
    let (buffer, val) ← hmsStrStrip buffer (val + 1)
    let key ← stringAt buffer key
    let val ← stringAt buffer val
    if key.caseEq hmsContentLength then
      let bodyLen := toInt (strtol val.bytes)
      if bodyLen = 0 then
        return (-1, msg, bodyLen, buffer)
      return (0, hmsMsgAddNamedHeader msg key val, bodyLen, buffer)
    return (0, hmsMsgAddNamedHeader msg key val, bodyLen, buffer)

/-- The locals of `__hms_parse_header`. -/
@[ext]
structure HeaderLines where
  msg : HmsMsg
  count : ℕ
  bodyLen : ℤ
  erred : Bool

/-- The body of the loop of `__hms_parse_header`. -/
def headerBody (buffer : Buffer) (line : ℕ) (st : HeaderLines) :
    Run (Buffer × HeaderLines × Bool) :=
  if st.count = 0 then do
    let (ret, msg, buffer) ← hmsParseVerbLine st.msg buffer line
    if ret ≠ 0 then
      return (buffer, { st with msg, erred := true }, false)
    return (buffer, { st with msg, count := st.count + 1 }, true)
  else do
    let (ret, msg, bodyLen, buffer) ← hmsParseNamedHeader st.msg buffer line st.bodyLen
    if ret ≠ 0 then
      return (buffer, { st with msg, bodyLen, erred := true }, false)
    return (buffer, { st with msg, bodyLen, count := st.count + 1 }, true)

/-- `__hms_parse_header` : the status, the message, `*body_len` and the buffer. -/
def hmsParseHeader (msg : HmsMsg) (buffer : Buffer) (_len : ℤ) (bodyLen : ℤ) :
    Run (ℤ × HmsMsg × ℤ × Buffer) := do
  let (buffer, st) ←
    strtokFor lineSep headerBody (buffer.length + 1) buffer 0 ⟨msg, 0, bodyLen, false⟩
  return (if st.erred then -1 else 0, st.msg, st.bodyLen, buffer)

/-! ## Reading the body -/

/-- The locals of `__hms_parse_read_body`. -/
structure BodyRead where
  buffer : Buffer
  readIn : ℕ
  erred : Bool
  sock : ReadSide

/-- The loop of `__hms_parse_read_body`. -/
def readBodyLoop (bodyLen : ℤ) : ℕ → BodyRead → Run BodyRead
  | 0, st => if st.readIn < bodyLen then .error .undefined else .ok st
  | fuel + 1, st =>
    if st.readIn < bodyLen then do
      let (chunk, sock) := st.sock.read (bodyLen - st.readIn).toNat
      if chunk.length = 0 then
        return { st with erred := true, sock }
      let buffer ← copyTo st.buffer st.readIn chunk
      readBodyLoop bodyLen fuel { st with buffer, readIn := st.readIn + chunk.length, sock }
    else
      .ok st

/-- `__hms_parse_read_body`, built without checksums. A `NULL` buffer has no cells. -/
def hmsParseReadBody (sock : ReadSide) (msg : HmsMsg) (bodyLen : ℤ) :
    Run (ℤ × HmsMsg × ReadSide) := do
  let size ← addInt bodyLen 1
  let served ← malloc (toSize size)
  let buffer := if served then Buffer.uninit (toSize size) else []
  let st ← readBodyLoop bodyLen bodyLen.toNat ⟨buffer, 0, !served, sock⟩
  if st.erred then
    return (-1, msg, st.sock)
  else
    assert (st.readIn = bodyLen)
    let msg ← hmsMsgSetBody msg st.buffer bodyLen
    return (0, msg, st.sock)

/-! ## The message -/

/-- `HERMES_MAX_HDR_SIZE` of `hermes.h`, the bound that servers and clients parse with. -/
def hermesMaxHdrSize : ℤ := 1024

/-- The buffer of `hms_msg_parse`, with a NUL in its last cell. -/
def headerBuffer (maxHdrLen : ℤ) : Run Buffer := do
  let size ← addInt maxHdrLen 1
  let served ← malloc (toSize size)
  if served ∧ 0 ≤ maxHdrLen then
    store (Buffer.uninit (toSize size)) maxHdrLen.toNat nul
  else
    .error .undefined

/-- The rest of `hms_msg_parse`, with `ret` the status of `__hms_parse_header`. -/
def finishMsg (sock : ReadSide) (ret : ℤ) (msg : HmsMsg) (bodyLen : ℤ) :
    Run (Option HmsMsg × ReadSide) := do
  let (erred, msg, sock) ←
    if ret = 0 then
      if bodyLen ≠ 0 then do
        let (ret, msg, sock) ← hmsParseReadBody sock msg bodyLen
        pure (decide (ret ≠ 0), msg, sock)
      else
        pure (false, msg, sock)
    else
      pure (true, msg, sock)
  if erred then
    hmsMsgDestroy msg
    return (none, sock)
  return (some msg, sock)

/-- `hms_msg_parse` : the message, `none` for `NULL`, and the socket after it. -/
def hmsMsgParse (sock : ReadSide) (maxHdrLen : ℤ) : Run (Option HmsMsg × ReadSide) := do
  let buffer ← headerBuffer maxHdrLen
  let (hdrLen, buffer, sock) ← hmsParseReadHeader sock buffer maxHdrLen
  if hdrLen > 2 then
    let (ret, msg, bodyLen, _) ← hmsParseHeader hmsMsgCreate buffer hdrLen 0
    finishMsg sock ret msg bodyLen
  else
    return (none, sock)

end Hermes
