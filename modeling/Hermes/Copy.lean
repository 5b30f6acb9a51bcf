import Hermes.CLib.Files
import Hermes.Endpoint

/-!
# Copying a file

The two programs that copy a file, from `copy_server.c` and `copy_client.c`. The server has
callbacks for the verb `COPY` : a request names a file, an offset and the bytes to write there.
The client cuts a file into chunks and sends one request for each. The files of a process and the
calls on them are a `Disk`.

`copy_client.c` defines `__DEBUG_PRINT_MSG_HEADER__`. Here this is a parameter.
-/

open CLib

namespace Hermes

/-! ## The server -/

/-- The verb of a request. -/
def copyVerb : CString :=
  CString.ofBytes (ascii "COPY")

/-- The header with the name of the file. -/
def filenameKey : CString :=
  CString.ofBytes (ascii "Filename")

/-- The header with the offset. -/
def offsetKey : CString :=
  CString.ofBytes (ascii "Offset")

/-- The files of a process. -/
abbrev Files := Disk CString

/-- `__copy_validate`. The flag for the verb is set to false wherever it is set. -/
def copyValidate : Callback Files := fun env msg => do
  let isCopy := false
  let isCopy :=
    match hmsMsgGetVerb msg with
    | (0, some verb) => if !verb.caseEq copyVerb then false else isCopy
    | _ => isCopy
  let isValid ←
    if isCopy && decide (hmsMsgNumHeaders msg ≤ 0) then pure false
    else if isCopy && decide (hmsMsgNumNamedHeaders msg ≠ 3) then pure false
    else if isCopy then do
      let size ← hmsMsgGetBodySize msg
      pure (decide (0 < size))
    else pure true
  return (if isValid then 0 else -1, env, msg)

/-- `__copy_accepts`. -/
def copyAccepts : Callback Files := fun env msg =>
  match (hmsMsgGetVerb msg).2 with
  | none => .ok (-1, env, msg)
  | some verb => .ok (if verb.caseEq copyVerb then 0 else -1, env, msg)

/-- `__copy_handle` up to `open` : the name of the file and the text of the offset. A jump from here
to the clean-up leaves `data` without a value, and the clean-up reads it. -/
def copyOpen (disk : Files) (msg : HmsMsg) : Run ((CString × CString) × Files) :=
  match (hmsMsgGetNamedHeader msg filenameKey).2, (hmsMsgGetNamedHeader msg offsetKey).2 with
  | some filename, some offsetStr =>
    match disk.openWrite filename with
    | (true, disk) => .ok ((filename, offsetStr), disk)
    | (false, _) => .error .undefined
  | _, _ => .error .undefined

/-- What `__copy_handle` does with the file once it is open : whether it erred. -/
def copyWrite (disk : Files) (filename offsetStr : CString) (msg : HmsMsg) :
    Run (Bool × Files) := do
  let offset := atoi offsetStr.bytes
  let length ← hmsMsgGetBodySize msg
  let (_, data, dataLen) ← hmsMsgGetBody msg
  match data with
  | none => return (true, disk)
  | some data =>
    if dataLen ≠ length then return (true, disk)
    else do
      let bytes ← bytesOf (cells data) (toSize length)
      match disk.pwrite filename bytes offset with
      | (some n, disk) => return (decide ((n : ℤ) ≠ length), disk)
      | (none, disk) => return (decide ((-1 : ℤ) ≠ length), disk)

/-- `__copy_handle`. -/
def copyHandle : Callback Files := fun env msg => do
  let ((filename, offsetStr), disk) ← copyOpen env.state msg
  let (erred, disk) ← copyWrite disk filename offsetStr msg
  return (if erred then -1 else 0, { env with state := disk }, msg)

/-- `ops` of the server. -/
def copyOps : HmsOps Files where
  hmsValidate := some copyValidate
  hmsAccepts := some copyAccepts
  hmsHandle := some copyHandle

/-! ## The client -/

/-- What `__DEBUG_PRINT_MSG_HEADER__` puts behind the sending of a request. -/
def debugPrintMsgHeader (request : HmsMsg) : Run Unit := do
  let debugBufSize ← hmsMsgGetHeaderSize request
  let size := toUnsigned debugBufSize
  let served ← malloc size
  let (_, debugBuf) ←
    hmsMsgPrintHeader request (if served then Buffer.uninit size else []) (toInt size)
  let _ ← stringAt debugBuf 0
  return ()

/-- The request that `__send_chunk` builds, without its body. -/
def chunkRequest (dst : CString) (offset : ℤ) : HmsMsg :=
  let request := hmsMsgSetVerb hmsMsgCreate copyVerb
  let request := hmsMsgAddNamedHeader request filenameKey dst
  hmsMsgAddNamedHeader request offsetKey (CString.ofBytes (sprintfInt offset))

/-- `__send_chunk` with the chunk in `data` : the status of the sending is dropped. -/
def sendData (debug : Bool) (w : WriteSide) (request : HmsMsg) (data : Buffer) (len : ℤ) :
    Run (HmsMsg × WriteSide) := do
  let request ← hmsMsgSetBody request data len
  let (_, w) ← hmsConnectorSendMsg w request
  if debug then
    debugPrintMsgHeader request
  return (request, w)

/-- `pread` of `__send_chunk` : what it returns, and the buffer. -/
def readChunk (disk : Files) (src : CString) (data : Buffer) (offset len : ℤ) :
    Run (ℤ × Buffer × Files) :=
  match disk.pread src (toSize len) offset with
  | (none, disk) => .ok (-1, data, disk)
  | (some bytes, disk) => do
    let data ← copyTo data 0 bytes
    return (toInt bytes.length, data, disk)

/-- `__send_chunk`. -/
def sendChunk (debug : Bool) (disk : Files) (w : WriteSide) (src dst : CString) (offset len : ℤ) :
    Run (ℤ × Files × WriteSide) := do
  let request := chunkRequest dst offset
  let (fd, disk) := disk.openRead src
  if fd then
    let size ← addInt len 1
    if ← malloc (toSize size) then
      let (ret, data, disk) ← readChunk disk src (Buffer.uninit (toSize size)) offset len
      if ret ≠ len then
        hmsMsgDestroy request
        return (-1, disk, w)
      else
        let (request, w) ← sendData debug w request data len
        hmsMsgDestroy request
        return (0, disk, w)
    else
      hmsMsgDestroy request
      return (-1, disk, w)
  else
    hmsMsgDestroy request
    return (-1, disk, w)

/-- The loop of `main`, of at most `fuel` chunks. -/
def sendChunks (debug : Bool) (src dst : CString) (chunkSize : ℤ) :
    ℕ → Files → WriteSide → ℤ → ℤ → Run (ℤ × Files × WriteSide)
  | 0, _, _, _, _ => .error .undefined
  | fuel + 1, disk, w, left, offset =>
    if left > 0 then
      if left > chunkSize then do
        let (status, disk, w) ← sendChunk debug disk w src dst offset chunkSize
        let offset ← addInt offset chunkSize
        let left ← addInt left (-chunkSize)
        if status = -1 then return (-1, disk, w)
        else sendChunks debug src dst chunkSize fuel disk w left offset
      else do
        let (status, disk, w) ← sendChunk debug disk w src dst offset left
        let offset ← addInt offset left
        if status = -1 then return (-1, disk, w)
        else sendChunks debug src dst chunkSize fuel disk w 0 offset
    else .ok (0, disk, w)

/-- `main` of the client, on a connection. A chunk without a byte fails an assertion, so there are
no more iterations than bytes, and one at the end. -/
def copyClient (debug : Bool) (disk : Files) (w : WriteSide) (src dst : CString) (chunkSize : ℤ) :
    Run (ℤ × Files × WriteSide) :=
  match disk.openRead src with
  | (false, disk) => .ok (-1, disk, w)
  | (true, disk) =>
    let fileLen := toInt (disk.held src).length
    sendChunks debug src dst chunkSize (fileLen.toNat + 1) disk w fileLen 0

end Hermes
