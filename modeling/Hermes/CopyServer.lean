import Hermes.Copy
import Hermes.DefaultServer

/-!
# The server that copies

`copyEffect` is what a `COPY` request does to the files : it goes wrong, or it leaves them as they
then are and says whether all bytes were written. `copySession` is what a connection does : a
request that goes wrong is the end of the server, one that fails the end of the loop.

`copyServer_session` says that the loop of the connection does just this, whatever the messages
are and however they are cut. `copyValidate` does not stop any message on the way.
-/

open CLib

namespace Hermes

set_option maxRecDepth 8000

/-! ## One request -/

/-- What a request does to the files : `none` if it goes wrong, else whether all was written. -/
def copyEffect (disk : Files) (msg : HmsMsg) : Option (Bool × Files) :=
  match msg.lookup filenameKey, msg.lookup offsetKey with
  | some filename, some offsetStr =>
    match disk.openWrite filename, msg.content with
    | (false, _), _ => none
    | (true, disk), none => some (false, disk)
    | (true, disk), some body =>
      some (decide ((disk.pwrite filename body (atoi offsetStr.bytes)).1 = some body.length),
        (disk.pwrite filename body (atoi offsetStr.bytes)).2)
  | _, _ => none

section OneRequest

variable {msg : HmsMsg} (env : Env Files)

/-- Every message is valid. -/
theorem copyValidate_eq (msg : HmsMsg) : copyValidate env msg = .ok (0, env, msg) := by
  rw [copyValidate, hmsMsgGetVerb]
  cases msg.verb with
  | none => rfl
  | some verb => cases h : verb.caseEq copyVerb <;> simp [h]

theorem copyAccepts_eq (msg : HmsMsg) :
    copyAccepts env msg = .ok (if msg.hasVerb "COPY" then 0 else -1, env, msg) := by
  rw [copyAccepts, hmsMsgGetVerb, HmsMsg.hasVerb]
  cases msg.verb <;> rfl

theorem copyWrite_eq (h : msg.BodyAgrees) (disk : Files) (filename offsetStr : CString) :
    copyWrite disk filename offsetStr msg = .ok
      (match msg.content with
      | none => (true, disk)
      | some body =>
        (!decide ((disk.pwrite filename body (atoi offsetStr.bytes)).1 = some body.length),
          (disk.pwrite filename body (atoi offsetStr.bytes)).2)) := by
  rw [copyWrite, h.getBodySize, ok_bind]
  cases hc : msg.content with
  | none =>
    rw [hmsMsgGetBody, hc]
    rfl
  | some body =>
    have hlen : msg.contentLen = body.length := by rw [h.length, HmsMsg.body, hc]; rfl
    have hmax := h.le_max
    have hbytes := bytesOf_cells body []
    have hsize : toSize (body.length : ℤ) = body.length := by
      rw [toSize_of_nonneg (by omega) (by omega), Int.toNat_natCast]
    rw [List.append_nil] at hbytes
    rw [h.getBody hc, ok_bind, hlen]
    dsimp only
    rw [if_neg (by simp), hsize, hbytes, ok_bind]
    cases hw : disk.pwrite filename body (atoi offsetStr.bytes) with
    | mk n disk' =>
      cases n with
      | none => simp
      | some n => simp

/-- The handler does what the request says. -/
theorem copyHandle_eq (h : msg.BodyAgrees) : copyHandle env msg =
    match copyEffect env.state msg with
    | none => .error .undefined
    | some (done, disk) => .ok (if done then 0 else -1, { env with state := disk }, msg) := by
  rw [copyHandle, copyOpen, copyEffect, getNamedHeader_eq, getNamedHeader_eq]
  cases msg.lookup filenameKey with
  | none => rfl
  | some filename =>
    cases msg.lookup offsetKey with
    | none => rfl
    | some offsetStr =>
      dsimp only
      rcases hopen : env.state.openWrite filename with ⟨opened, disk⟩
      cases opened with
      | false => rfl
      | true =>
        dsimp only
        rw [ok_bind]
        dsimp only
        rw [copyWrite_eq h]
        cases msg.content with
        | none => rfl
        | some body =>
          rw [ok_bind]
          dsimp only
          by_cases hdone : (disk.pwrite filename body (atoi offsetStr.bytes)).1 = some body.length
          · simp [hdone]
          · simp [hdone]

end OneRequest

/-- A request goes wrong exactly if a header is missing or the file is not opened. -/
theorem copyEffect_eq_none {disk : Files} {msg : HmsMsg} : copyEffect disk msg = none ↔
    msg.lookup filenameKey = none ∨ msg.lookup offsetKey = none ∨ disk.opened 0 = false := by
  rw [copyEffect]
  cases msg.lookup filenameKey with
  | none => simp
  | some filename =>
    cases msg.lookup offsetKey with
    | none => simp
    | some offsetStr =>
      dsimp only
      rw [Disk.openWrite]
      cases disk.opened 0 <;> cases msg.content <;> simp

/-! ## A connection -/

/-- What a connection does to the files and what it answers : `none` if a request goes wrong. -/
def copySession : (ℕ → CString) → Files → List HmsMsg → Option (Files × List HmsMsg)
  | _, disk, [] => some (disk, [])
  | clock, disk, msg :: msgs =>
    if msg.hasVerb "COPY" then
      match copyEffect disk msg with
      | none => none
      | some (true, disk) => copySession clock disk msgs
      | some (false, disk) => some (disk, [])
    else if msg.hasVerb "PING" then
      (copySession clock disk msgs).map fun r => (r.1, pongReply :: r.2)
    else if msg.hasVerb "INFO" then
      (copySession (fun i => clock (i + 1)) disk msgs).map fun r =>
        (r.1, infoReply (clock 0) :: r.2)
    else some (disk, [])

/-- The loop of a connection ends as the session says. Its answers come behind the bytes `sent`. -/
def EndsAs (sent : List UInt8) (run : Run (List Event × ReadSide × Env Files)) :
    Option (Files × List HmsMsg) → Prop
  | none => run = .error .undefined
  | some (disk, answers) => ∃ log sock env, run = .ok (log, sock, env) ∧ env.state = disk ∧
      env.out.sent = sent ++ answers.flatMap encode

/-- The calls and answers in front of the rest of a session. -/
theorem EndsAs.behind {sent sent' : List UInt8} {run : Run (List Event × ReadSide × Env Files)}
    {o : Option (Files × List HmsMsg)} (h : EndsAs sent' run o) (answers : List HmsMsg)
    (hsent' : sent' = sent ++ answers.flatMap encode) (events : List Event) :
    EndsAs sent (run >>= fun t => .ok (events ++ t.1, t.2.1, t.2.2))
      (o.map fun r => (r.1, answers ++ r.2)) := by
  cases o with
  | none =>
    obtain rfl : run = .error .undefined := h
    rfl
  | some r =>
    obtain ⟨log, sock, env, rfl, hstate, hsent⟩ := h
    exact ⟨_, _, _, rfl, hstate, by
      rw [hsent, hsent', List.flatMap_append, List.append_assoc]⟩

/-- A request arrives as it was sent, up to its counters and its length. -/
theorem copyEffect_received (disk : Files) (msg : HmsMsg) :
    copyEffect disk msg.received = copyEffect disk msg := by
  have hf : msg.received.lookup filenameKey = msg.lookup filenameKey := lookup_received (by decide)
  have ho : msg.received.lookup offsetKey = msg.lookup offsetKey := lookup_received (by decide)
  rw [copyEffect, copyEffect, hf, ho]
  rfl

theorem Deliverable.bodyAgrees {msg : HmsMsg} (h : Deliverable msg) : msg.received.BodyAgrees := by
  have hdec := h.decode []
  rw [List.append_nil] at hdec
  obtain ⟨-, f, -, hf⟩ := decode_eq_some.1 hdec
  exact hf.bodyAgrees

/-- No callback is left to the defaults. -/
theorem ops_hmsEndpointInit_copy (sock : ReadSide) (env : Env Files) :
    (hmsEndpointInit sock env copyOps).ops = copyOps :=
  rfl

/-- What the loop does with a message. -/
theorem handleMsg_copy (env : Env Files) (msg : HmsMsg) :
    handleMsg copyOps env 0 msg =
      if msg.hasVerb "COPY" then
        copyHandle env msg >>= fun r => hmsMsgDestroy r.2.2 >>= fun _ =>
          .ok (r.1, r.2.1, [.validate msg 0, .accepts msg 0, .handle msg r.1])
      else
        hmsDefaultHandle env msg >>= fun r => hmsMsgDestroy r.2.2 >>= fun _ =>
          .ok (r.1, r.2.1, [.validate msg 0, .accepts msg (-1), .defaultHandle msg r.1]) := by
  have hval := copyValidate_eq env msg
  have hacc := copyAccepts_eq env msg
  show (copyValidate env msg >>= fun r => _) = _
  rw [hval, ok_bind]
  dsimp only
  rw [if_pos rfl]
  show (copyAccepts env msg >>= fun r => _) = _
  rw [hacc, ok_bind]
  cases msg.hasVerb "COPY" <;> rfl

/-- The loop does what the session says to the messages whose bytes are unread. -/
theorem handleEndpointLoop_copy (msgs : List HmsMsg) (hmsgs : ∀ msg ∈ msgs, Deliverable msg)
    {fuel : ℕ} (hfuel : msgs.length < fuel) {sock : ReadSide}
    (hs : sock.unread = msgs.flatMap encode) {env : Env Files}
    (hsend : ∀ msg ∈ msgs, msg.hasVerb "COPY" = true ∨ ∀ i, env.out.outcomes i ≠ none) :
    EndsAs env.out.sent
      (handleEndpointLoop copyOps fuel sock env 0)
      (copySession (fun i => (env.clock i).text) env.state msgs) := by
  obtain ⟨fuel, rfl⟩ := Nat.exists_eq_add_one_of_ne_zero (Nat.ne_zero_of_lt hfuel)
  induction msgs generalizing fuel sock env with
  | nil =>
    have hdec := decode_nil
    rw [List.flatMap_nil] at hs
    rw [← hs] at hdec
    obtain ⟨sock', hloop⟩ := handleEndpointLoop_none copyOps hdec fuel env
    exact ⟨_, _, _, hloop, rfl, by simp⟩
  | cons msg msgs ih =>
    rw [List.length_cons, Nat.add_lt_add_iff_right] at hfuel
    obtain ⟨fuel, rfl⟩ := Nat.exists_eq_add_one_of_ne_zero (Nat.ne_zero_of_lt hfuel)
    have hmsg := hmsgs msg (by simp)
    have hdec := hmsg.decode (msgs.flatMap encode)
    rw [← List.flatMap_cons, ← hs] at hdec
    obtain ⟨sock₁, hleft, hloop⟩ := handleEndpointLoop_some copyOps hdec
    have hdestroy : hmsMsgDestroy msg.received = .ok () := HmsMsg.Counted.destroy ⟨rfl, rfl⟩
    have hrest := fun (env₁ : Env Files)
        (h₁ : ∀ m ∈ msgs, m.hasVerb "COPY" = true ∨ ∀ i, env₁.out.outcomes i ≠ none) =>
      ih (fun m hm => hmsgs m (by simp [hm])) hleft h₁ fuel hfuel
    -- the parser keeps the verb
    have hverb : ∀ word : String, msg.received.hasVerb word = msg.hasVerb word := fun _ => rfl
    have hv : msg.received.verb ≠ none := hmsg.1.verb
    rw [hloop, handleMsg_copy, hverb, copySession]
    by_cases hcopy : msg.hasVerb "COPY" = true
    · rw [if_pos hcopy, if_pos hcopy, copyHandle_eq env hmsg.bodyAgrees, copyEffect_received]
      rcases copyEffect env.state msg with - | ⟨done, disk⟩
      · rfl
      · cases done with
        | false =>
          simp only [ok_bind, hdestroy]
          exact ⟨_, _, _, rfl, rfl, by simp⟩
        | true =>
          have hnext := (hrest { env with state := disk } fun m hm =>
            hsend m (List.mem_cons_of_mem msg hm)).behind []
            (List.append_nil env.out.sent).symm
            [.validate msg.received 0, .accepts msg.received 0, .handle msg.received 0]
          simp only [ok_bind, hdestroy]
          simpa using hnext
    · rw [if_neg hcopy, if_neg hcopy]
      have hsend := (hsend msg (by simp)).resolve_left hcopy
      cases hp : msg.hasVerb "PING" with
      | true =>
        have hping : msg.received.hasVerb "PING" = true := hp
        obtain ⟨hsent, hsend₁⟩ := sent_afterMsg_of_forall hsend pongReply
        have hnext := (hrest { env with out := afterMsg env.out pongReply }
          fun _ _ => .inr hsend₁).behind [pongReply] (by simpa using hsent)
          [.validate msg.received 0, .accepts msg.received (-1), .defaultHandle msg.received 0]
        rw [defaultHandle_ping env hping, ok_bind, hdestroy, ok_bind, ok_bind, if_neg (by simp),
          if_pos rfl]
        exact hnext
      | false =>
        have hping : msg.received.hasVerb "PING" = false := hp
        rw [if_neg (by simp)]
        cases hi : msg.hasVerb "INFO" with
        | true =>
          have hinfo : msg.received.hasVerb "INFO" = true := hi
          obtain ⟨hsent, hsend₁⟩ := sent_afterMsg_of_forall hsend (infoReply (env.clock 0).text)
          have hnext := (hrest { env.time.2 with
            out := afterMsg env.out (infoReply (env.clock 0).text) } fun _ _ => .inr hsend₁).behind
            [infoReply (env.clock 0).text] (by simpa using hsent)
            [.validate msg.received 0, .accepts msg.received (-1), .defaultHandle msg.received 0]
          rw [defaultHandle_info env hping hinfo, ok_bind, hdestroy, ok_bind, ok_bind,
            if_neg (by simp), if_pos rfl]
          exact hnext
        | false =>
          have hinfo : msg.received.hasVerb "INFO" = false := hi
          rw [defaultHandle_other env hv hping hinfo, ok_bind, hdestroy, ok_bind, ok_bind,
            if_pos (by simp), if_neg (by simp)]
          exact ⟨_, _, _, rfl, rfl, by simp⟩

/-- The loop of a connection has bytes enough for its messages. -/
theorem loop_copy {msgs : List HmsMsg} (hmsgs : ∀ msg ∈ msgs, Deliverable msg)
    {sock : ReadSide} (hs : sock.unread = msgs.flatMap encode) {env : Env Files}
    (hsend : ∀ msg ∈ msgs, msg.hasVerb "COPY" = true ∨ ∀ i, env.out.outcomes i ≠ none) :
    EndsAs env.out.sent (hmsEndpointInit sock env copyOps).loop
      (copySession (fun i => (env.clock i).text) env.state msgs) := by
  have hfuel : msgs.length < sock.unread.length + 1 :=
    Nat.lt_succ_of_le (hs ▸ length_le_unread msgs)
  rw [HmsEndpoint.loop, ops_hmsEndpointInit_copy]
  exact handleEndpointLoop_copy msgs hmsgs hfuel hs hsend

/-- The loop of a connection to a server that copies ends as the session says, if its answers go
out. -/
theorem copyServer_session {msgs : List HmsMsg} (hmsgs : ∀ msg ∈ msgs, Deliverable msg)
    {sock : ReadSide} (hs : sock.unread = msgs.flatMap encode) {env : Env Files}
    (hsend : ∀ i, env.out.outcomes i ≠ none) :
    EndsAs env.out.sent (hmsEndpointInit sock env copyOps).loop
      (copySession (fun i => (env.clock i).text) env.state msgs) :=
  loop_copy hmsgs hs fun _ _ => .inr hsend

/-- A request that arrives at a server without files. -/
def copyHello : HmsMsg :=
  withBody (chunkRequest (CString.ofBytes (ascii "b")) 0) (ascii "hello")

def emptyEnv : Env Files where
  out := stillEnv.out
  clock := stillEnv.clock
  state := ⟨fun _ => none, fun _ => true, fun _ => some 99⟩

theorem copyServer_session_hello :
    EndsAs emptyEnv.out.sent
      (hmsEndpointInit ⟨[copyHello].flatMap encode, fun _ => 0⟩ emptyEnv copyOps).loop
      (copySession (fun i => (emptyEnv.clock i).text) emptyEnv.state [copyHello]) := by
  have hclean : copyHello.WireClean := by decide
  have hlen : ((encodeHeader copyHello).length : ℤ) ≤ hermesMaxHdrSize := by decide
  refine copyServer_session (fun msg hmsg => ?_) rfl fun _ => Option.some_ne_none 999
  rw [List.mem_singleton.1 hmsg]
  exact ⟨hclean.survives, hlen⟩

end Hermes
