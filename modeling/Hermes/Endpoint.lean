import Hermes.Parser

/-!
# Endpoints and connectors

The two ends of a connection, from `hermes.c`. `hmsEndpointSendMsg` and `hmsConnectorSendMsg`
put a message on the socket, `HmsEndpoint.loop` is the server's loop over one connection, and
`hmsDefaultHandle` answers `PING` and `INFO`. `hmsHandleEndpoint` puts the ends around the loop :
the lock before it, and behind it the close and an unlock in memory that is freed.

A callback of `hms_ops` gets the message and what it can change (`Env`) : the outgoing half of
the socket, the clock and a state of its own. It does not read from the socket. The loop
returns the calls it made (`Event`).
-/

open CLib

namespace Hermes

/-! ## Sending -/

/-- The loop of `__send_all` on the bytes `p`, behind `done` bytes that are sent. -/
def sendAllLoop : ℕ → WriteSide → List UInt8 → ℕ → Run (ℤ × WriteSide)
  | 0, _, _, _ => .error .undefined
  | fuel + 1, w, p, done =>
    match w.send p with
    | (none, w) => .ok (-1, w)
    | (some n, w) =>
      if 0 < p.length - n then sendAllLoop fuel w (p.drop n) (done + n)
      else .ok (((done + n : ℕ) : ℤ), w)

/-- `__send_all` : the number of bytes sent or `-1`. A negative length is a size beyond any
object. -/
def sendAll (w : WriteSide) (buf : Buffer) (len : ℤ) : Run (ℤ × WriteSide) := do
  hmsAssertNotEquals 0 len
  if len < 0 then
    .error .undefined
  else
    let p ← bytesOf buf len.toNat
    sendAllLoop p.length w p 0

/-- The first half of the send functions : whether it erred. -/
def sendHeader (w : WriteSide) (msg : HmsMsg) : Run (Bool × WriteSide) := do
  let hdrLen ← hmsMsgGetHeaderSize msg
  hmsAssertNotEquals 0 hdrLen
  let size ← addInt hdrLen 1
  let served ← malloc (toSize size)
  assert (served = true)
  let (ret, hdrBuf) ← hmsMsgPrintHeader msg (Buffer.uninit (toSize size)) hdrLen
  if ret = 0 then
    let (n, w) ← sendAll w hdrBuf hdrLen
    return (decide (n = -1), w)
  else
    return (true, w)

/-- The body of the send functions, for a body size above zero : whether it erred. -/
def sendBody (w : WriteSide) (msg : HmsMsg) : Run (Bool × WriteSide) := do
  match ← hmsMsgGetBody msg with
  | (0, some body, bodyLen) =>
    let (n, w) ← sendAll w (cells body) bodyLen
    return (decide (n = -1), w)
  | _ => return (true, w)

/-- `hms_endpoint_send_msg`. -/
def hmsEndpointSendMsg (w : WriteSide) (msg : HmsMsg) : Run (ℤ × WriteSide) := do
  let (hdrErred, w) ← sendHeader w msg
  let bodySize ← hmsMsgGetBodySize msg
  let (bodyErred, w) ← if bodySize > 0 then sendBody w msg else pure (false, w)
  return (if hdrErred || bodyErred then -1 else 0, w)

/-- `hms_connector_send_msg`. A message without a body is an error here. -/
def hmsConnectorSendMsg (w : WriteSide) (msg : HmsMsg) : Run (ℤ × WriteSide) := do
  let (hdrErred, w) ← sendHeader w msg
  let bodySize ← hmsMsgGetBodySize msg
  let (bodyErred, w) ← if bodySize > 0 then sendBody w msg else pure (true, w)
  return (if hdrErred || bodyErred then -1 else 0, w)

/-! ## Receiving -/

/-- `hms_endpoint_recv_msg` : the status and the message. -/
def hmsEndpointRecvMsg (sock : ReadSide) : Run (ℤ × Option HmsMsg × ReadSide) := do
  match ← hmsMsgParse sock hermesMaxHdrSize with
  | (none, sock) => return (-1, none, sock)
  | (some msg, sock) => return (0, some msg, sock)

/-- `hms_connector_recv_msg` : the status and the message. -/
def hmsConnectorRecvMsg (sock : ReadSide) : Run (ℤ × Option HmsMsg × ReadSide) := do
  match ← hmsMsgParse sock hermesMaxHdrSize with
  | (none, sock) => return (-1, none, sock)
  | (some msg, sock) => return (0, some msg, sock)

/-! ## Callbacks -/

/-- What `asctime_r` writes, at most 26 bytes with the NUL. -/
structure ClockText where
  text : CString
  fits : text.length < 26

/-- What a callback can change besides the message. -/
structure Env (σ : Type) where
  out : WriteSide
  /-- The texts of the coming times. -/
  clock : ℕ → ClockText
  state : σ

/-- A callback : its status, and the message as it leaves it. -/
abbrev Callback (σ : Type) := Env σ → HmsMsg → Run (ℤ × Env σ × HmsMsg)

/-- `hms_ops`, with `none` for `NULL`. -/
structure HmsOps (σ : Type) where
  hmsValidate : Option (Callback σ)
  hmsAccepts : Option (Callback σ)
  hmsHandle : Option (Callback σ)

section Defaults

variable {σ : Type}

/-- `hms_endpoint_send_msg` in a handler that drops the status. -/
def Env.send (env : Env σ) (msg : HmsMsg) : Run (Env σ) := do
  let (_, out) ← hmsEndpointSendMsg env.out msg
  return { env with out }

/-- `time`, `localtime_r` and `asctime_r`. -/
def Env.time (env : Env σ) : ClockText × Env σ :=
  (env.clock 0, { env with clock := fun i => env.clock (i + 1) })

/-- `_hms_default_validate`. -/
def hmsDefaultValidate : Callback σ := fun env msg =>
  .ok (0, env, msg)

/-- `_hms_default_accepts`. -/
def hmsDefaultAccepts : Callback σ := fun env msg =>
  .ok (-1, env, msg)

/-- `_hms_default_handle`. -/
def hmsDefaultHandle : Callback σ := fun env msg => do
  let reply := hmsMsgCreate
  let (_, verb) := hmsMsgGetVerb msg
  let (erred, env, reply) ←
    match verb with
    | none => do
      let reply := hmsMsgSetVerb reply (CString.ofBytes (ascii "ERROR"))
      pure (true, ← env.send reply, reply)
    | some verb =>
      if verb.caseEq (CString.ofBytes (ascii "PING")) then do
        let reply := hmsMsgSetVerb reply (CString.ofBytes (ascii "PONG"))
        pure (false, ← env.send reply, reply)
      else if verb.caseEq (CString.ofBytes (ascii "INFO")) then do
        let reply := hmsMsgSetVerb reply (CString.ofBytes (ascii "INFO"))
        let (time, env) := env.time
        let reply := hmsMsgAddNamedHeader reply (CString.ofBytes (ascii "Localtime")) time.text
        pure (false, ← env.send reply, reply)
      else if verb.caseEq (CString.ofBytes (ascii "BYE")) then
        pure (true, env, reply)
      else
        pure (true, env, reply)
  hmsMsgDestroy reply
  return (if erred then -1 else 0, env, msg)

/-- `hms_endpoint`, without its start time and its status. -/
structure HmsEndpoint (σ : Type) where
  sock : ReadSide
  env : Env σ
  ops : HmsOps σ
  /-- `meta_lock` is held. -/
  metaLock : Bool

/-- `hms_endpoint_init`. -/
def hmsEndpointInit (sock : ReadSide) (env : Env σ) (ops : HmsOps σ) : HmsEndpoint σ where
  sock := sock
  env := env
  ops :=
    { hmsValidate := ops.hmsValidate.orElse fun _ => some hmsDefaultValidate
      hmsAccepts := ops.hmsAccepts.orElse fun _ => some hmsDefaultAccepts
      hmsHandle := ops.hmsHandle.orElse fun _ => some hmsDefaultHandle }
  metaLock := false

/-! The memory of an endpoint is the endpoint, or `none` once it is freed. -/

/-- `pthread_mutex_lock(&endpoint->meta_lock)`. No other thread asks for the lock. -/
def lockMeta : Option (HmsEndpoint σ) → Run (Option (HmsEndpoint σ))
  | some endpoint => .ok (some { endpoint with metaLock := true })
  | none => .error .undefined

/-- `pthread_mutex_unlock(&endpoint->meta_lock)`. -/
def unlockMeta : Option (HmsEndpoint σ) → Run (Option (HmsEndpoint σ))
  | some endpoint => .ok (some { endpoint with metaLock := false })
  | none => .error .undefined

/-- `hms_endpoint_destroy` : the socket is closed and the memory freed. -/
def hmsEndpointDestroy : Option (HmsEndpoint σ) → Run (Option (HmsEndpoint σ))
  | some _ => .ok none
  | none => .error .undefined

end Defaults

/-! ## The loop of a connection -/

/-- A call of the loop, with the message it passed and the status it got. -/
inductive Event
  | validate (msg : HmsMsg) (status : ℤ)
  | accepts (msg : HmsMsg) (status : ℤ)
  | handle (msg : HmsMsg) (status : ℤ)
  | defaultHandle (msg : HmsMsg) (status : ℤ)
  deriving DecidableEq, Repr

section Loop

variable {σ : Type}

/-- A call through a pointer of `hms_ops`. -/
def callOp (op : Option (Callback σ)) : Callback σ := fun env msg =>
  match op with
  | some f => f env msg
  | none => .error .undefined

/-- What `_hms_handle_endpoint` does with a message : the new handler status. -/
def handleMsg (ops : HmsOps σ) (env : Env σ) (handlerStatus : ℤ) (msg : HmsMsg) :
    Run (ℤ × Env σ × List Event) := do
  let (valid, env, msg₁) ←
    if ops.hmsValidate.isNone then pure (0, env, msg) else callOp ops.hmsValidate env msg
  if valid = 0 then
    let (accepts, env, msg₂) ← callOp ops.hmsAccepts env msg₁
    if accepts = 0 then
      let (status, env, msg₃) ← callOp ops.hmsHandle env msg₂
      hmsMsgDestroy msg₃
      return (status, env, [.validate msg valid, .accepts msg₁ accepts, .handle msg₂ status])
    else
      let (status, env, msg₃) ← hmsDefaultHandle env msg₂
      hmsMsgDestroy msg₃
      return (status, env,
        [.validate msg valid, .accepts msg₁ accepts, .defaultHandle msg₂ status])
  else
    hmsMsgDestroy msg₁
    return (handlerStatus, env, [.validate msg valid])

/-- The loop of `_hms_handle_endpoint` : the calls it makes. -/
def handleEndpointLoop (ops : HmsOps σ) :
    ℕ → ReadSide → Env σ → ℤ → Run (List Event × ReadSide × Env σ)
  | 0, _, _, _ => .error .undefined
  | fuel + 1, sock, env, handlerStatus => do
    match ← hmsEndpointRecvMsg sock with
    | (0, some msg, sock) =>
      let (handlerStatus, env, events) ← handleMsg ops env handlerStatus msg
      if handlerStatus ≠ 0 then
        return (events, sock, env)
      else
        let (log, sock, env) ← handleEndpointLoop ops fuel sock env handlerStatus
        return (events ++ log, sock, env)
    | (_, _, sock) => return ([], sock, env)

/-- The loop of `_hms_handle_endpoint` on an endpoint, which ends before the connection is closed.
Every message takes bytes off the stream, so there are no more iterations than bytes, and one at
the end of the stream. -/
def HmsEndpoint.loop (endpoint : HmsEndpoint σ) : Run (List Event × ReadSide × Env σ) :=
  handleEndpointLoop endpoint.ops (endpoint.sock.unread.length + 1) endpoint.sock endpoint.env 0

/-- `_hms_handle_endpoint`. It closes the connection and frees the endpoint before it unlocks it. -/
def hmsHandleEndpoint (endpoint : HmsEndpoint σ) : Run (List Event × ReadSide × Env σ) := do
  let memory ← lockMeta (some endpoint)
  let result ← endpoint.loop
  let memory ← hmsEndpointDestroy memory
  let _ ← unlockMeta memory
  return result

/-- Behind a loop that has ended, the lock that is released is in freed memory. -/
theorem hmsHandleEndpoint_of_loop {endpoint : HmsEndpoint σ} {r : List Event × ReadSide × Env σ}
    (h : endpoint.loop = .ok r) : hmsHandleEndpoint endpoint = .error .undefined := by
  rw [hmsHandleEndpoint, lockMeta, ok_bind, h, ok_bind, hmsEndpointDestroy, ok_bind, unlockMeta,
    error_bind]

end Loop

end Hermes
