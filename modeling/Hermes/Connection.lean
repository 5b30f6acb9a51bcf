import Hermes.Send
import Hermes.RoundTrip

/-!
# A connection to the server

`Conversation` says which calls a connection is to make, given the messages on it and the
callbacks : each message is validated once and in order, a message that is not valid is
dropped, a valid one goes to one handler, and the first handler that does not return zero is
the last call.

`handleEndpoint_delivers` is the refinement : on the bytes of the messages, whatever their
values and however `read` cuts them, the loop of `_hms_handle_endpoint` has the conversation
about these messages, as the parser hands them out.
-/

open CLib

namespace Hermes

set_option maxRecDepth 8000

variable {σ : Type}

/-! ## The conversation -/

/-- What becomes of one message : the calls, the handler's status and what it leaves. A
message that is dropped counts as status zero. -/
inductive Handled (ops : HmsOps σ) (env : Env σ) (msg : HmsMsg) :
    List Event → ℤ → Env σ → Prop
  | dropped {valid env₁ msg₁} (hval : callOp ops.hmsValidate env msg = .ok (valid, env₁, msg₁))
      (hv : valid ≠ 0) : Handled ops env msg [.validate msg valid] 0 env₁
  | user {env₁ msg₁ env₂ msg₂ status env₃ msg₃}
      (hval : callOp ops.hmsValidate env msg = .ok (0, env₁, msg₁))
      (hacc : callOp ops.hmsAccepts env₁ msg₁ = .ok (0, env₂, msg₂))
      (hhandle : callOp ops.hmsHandle env₂ msg₂ = .ok (status, env₃, msg₃)) :
      Handled ops env msg
        [.validate msg 0, .accepts msg₁ 0, .handle msg₂ status] status env₃
  | default {env₁ msg₁ accepts env₂ msg₂ status env₃ msg₃}
      (hval : callOp ops.hmsValidate env msg = .ok (0, env₁, msg₁))
      (hacc : callOp ops.hmsAccepts env₁ msg₁ = .ok (accepts, env₂, msg₂)) (ha : accepts ≠ 0)
      (hhandle : hmsDefaultHandle env₂ msg₂ = .ok (status, env₃, msg₃)) :
      Handled ops env msg
        [.validate msg 0, .accepts msg₁ accepts, .defaultHandle msg₂ status] status env₃

/-- The calls that a connection with the messages `msgs` makes. -/
inductive Conversation (ops : HmsOps σ) : Env σ → List HmsMsg → List Event → Env σ → Prop
  | closed {env} : Conversation ops env [] [] env
  | next {env msg msgs events env₁ log env'} (h : Handled ops env msg events 0 env₁)
      (rest : Conversation ops env₁ msgs log env') :
      Conversation ops env (msg :: msgs) (events ++ log) env'
  | stop {env msg msgs events status env'} (h : Handled ops env msg events status env')
      (hs : status ≠ 0) : Conversation ops env (msg :: msgs) events env'

/-- The message that a call validates. -/
def Event.validated : Event → Option HmsMsg
  | .validate msg _ => some msg
  | _ => none

/-- The messages presented to validation. -/
def presented (log : List Event) : List HmsMsg :=
  log.filterMap Event.validated

/-- A handler that does not return zero. -/
def Event.Fails : Event → Prop
  | .handle _ status => status ≠ 0
  | .defaultHandle _ status => status ≠ 0
  | _ => False

section Conversations

variable {ops : HmsOps σ} {env env' : Env σ} {msg : HmsMsg} {events : List Event} {status : ℤ}

/-- A message is presented once, and a handler is the last call it makes. -/
theorem Handled.presented (h : Handled ops env msg events status env') :
    presented events = [msg] ∧ (∀ e ∈ events.dropLast, ¬e.Fails) ∧
      if status = 0 then ∀ e ∈ events, ¬e.Fails else ∃ e ∈ events.getLast?, e.Fails := by
  cases h with
  | dropped hval hv => simp [Hermes.presented, Event.validated, Event.Fails]
  | user hval hacc hhandle =>
    refine ⟨rfl, by simp [Event.Fails], ?_⟩
    split_ifs with hs
    · simp [Event.Fails, hs]
    · exact ⟨_, rfl, hs⟩
  | default hval hacc ha hhandle =>
    refine ⟨rfl, by simp [Event.Fails], ?_⟩
    split_ifs with hs
    · simp [Event.Fails, hs]
    · exact ⟨_, rfl, hs⟩

/-- The messages are presented in order, all of them unless a handler fails, and no call
follows one that fails. -/
theorem Conversation.presented {msgs : List HmsMsg} {log : List Event}
    (h : Conversation ops env msgs log env') :
    presented log <+: msgs ∧ (∀ e ∈ log.dropLast, ¬e.Fails) ∧
      (presented log = msgs ∨ ∃ e ∈ log.getLast?, e.Fails) := by
  induction h with
  | closed => exact ⟨List.prefix_rfl, by simp, Or.inl rfl⟩
  | @next env msg msgs events env₁ log env' hmsg rest ih =>
    obtain ⟨hone, -, hgo⟩ := hmsg.presented
    rw [if_pos rfl] at hgo
    obtain ⟨hpre, hbefore, hend⟩ := ih
    have happ : Hermes.presented (events ++ log) = msg :: Hermes.presented log := by
      rw [Hermes.presented, List.filterMap_append]
      exact congrArg (· ++ Hermes.presented log) hone
    refine ⟨?_, fun e he => ?_, ?_⟩
    · rw [happ]
      exact (List.prefix_cons_inj msg).2 hpre
    · rcases eq_or_ne log [] with rfl | hne
      · rw [List.append_nil] at he
        exact hgo e (List.mem_of_mem_dropLast he)
      · rw [List.dropLast_append_of_ne_nil hne, List.mem_append] at he
        rcases he with he | he
        · exact hgo e he
        · exact hbefore e he
    · rcases hend with hall | ⟨e, he, hfails⟩
      · exact Or.inl (by rw [happ, hall])
      · refine Or.inr ⟨e, ?_, hfails⟩
        rw [Option.mem_def] at he ⊢
        rw [List.getLast?_append, he]
        rfl
  | @stop env msg msgs events status env' hmsg hs =>
    obtain ⟨hone, hbefore, hlast⟩ := hmsg.presented
    rw [if_neg hs] at hlast
    refine ⟨?_, hbefore, Or.inr hlast⟩
    rw [hone]
    exact ⟨msgs, rfl⟩

end Conversations

/-! ## Callbacks that return -/

/-- A callback returns, and leaves a message whose counters are right. -/
def Callback.Returns (f : Callback σ) : Prop :=
  ∀ env msg, msg.Counted → ∃ status env' msg', f env msg = .ok (status, env', msg') ∧ msg'.Counted

/-- The callbacks return. -/
structure HmsOps.Return (ops : HmsOps σ) : Prop where
  validate : ∀ f ∈ ops.hmsValidate, Callback.Returns f
  accepts : ∀ f ∈ ops.hmsAccepts, Callback.Returns f
  handle : ∀ f ∈ ops.hmsHandle, Callback.Returns f

theorem defaultValidate_returns : Callback.Returns (hmsDefaultValidate (σ := σ)) :=
  fun env msg h => ⟨0, env, msg, rfl, h⟩

theorem defaultAccepts_returns : Callback.Returns (hmsDefaultAccepts (σ := σ)) :=
  fun env msg h => ⟨-1, env, msg, rfl, h⟩

/-- A short reply without a body is sent and freed. -/
theorem reply_sent (env : Env σ) {reply : HmsMsg} (h : Bodyless reply)
    (hl : reply.lookup hmsContentLength = none) (hv : reply.verb ≠ none)
    (hmax : ((encodeHeader reply).length : ℤ) < intMax) :
    env.send reply = .ok { env with out := afterMsg env.out reply } ∧
      hmsMsgDestroy reply = .ok () := by
  refine ⟨?_, h.counted.destroy⟩
  rw [Env.send, endpointSend_eq env.out hv (h.bodyAgrees hl) hmax]
  rfl

/-- The reply with the verb `verb`. -/
theorem verbReply_sent (env : Env σ) (verb : CString) (hverb : verb.length ≤ 5) :
    env.send (hmsMsgSetVerb hmsMsgCreate verb) =
        .ok { env with out := afterMsg env.out (hmsMsgSetVerb hmsMsgCreate verb) } ∧
      hmsMsgDestroy (hmsMsgSetVerb hmsMsgCreate verb) = .ok () := by
  have hbodyless : Bodyless (hmsMsgSetVerb hmsMsgCreate verb) :=
    ⟨counted_create.setVerb verb, List.Pairwise.nil, rfl, rfl⟩
  have hheaders : (hmsMsgSetVerb hmsMsgCreate verb).headers = [] := rfl
  have hnamed : (hmsMsgSetVerb hmsMsgCreate verb).namedHeaders = [] := rfl
  have hlen := length_encodeHeader (hmsMsgSetVerb hmsMsgCreate verb) rfl
  have hshort : ((encodeHeader (hmsMsgSetVerb hmsMsgCreate verb)).length : ℤ) < intMax := by
    rw [hheaders, hnamed, List.map_nil, List.map_nil, List.sum_nil] at hlen
    unfold intMax
    omega
  exact reply_sent env hbodyless rfl (by simp [hmsMsgSetVerb]) hshort

/-- The reply to `INFO`. -/
def infoReply (time : CString) : HmsMsg :=
  hmsMsgAddNamedHeader (hmsMsgSetVerb hmsMsgCreate (CString.ofBytes (ascii "INFO")))
    (CString.ofBytes (ascii "Localtime")) time

theorem infoReply_sent (env : Env σ) (time : ClockText) :
    env.send (infoReply time.text) =
        .ok { env with out := afterMsg env.out (infoReply time.text) } ∧
      hmsMsgDestroy (infoReply time.text) = .ok () := by
  have hverb : Bodyless (hmsMsgSetVerb hmsMsgCreate (CString.ofBytes (ascii "INFO"))) :=
    bodyless_create.readWords (ascii "INFO") []
  have hbodyless : Bodyless (infoReply time.text) :=
    hverb.addNamedHeader (CString.ofBytes (ascii "Localtime")) time.text
  set reply := infoReply time.text with hreply
  have hlookup : reply.lookup hmsContentLength = none := by
    rw [hreply, infoReply, lookup_addNamedHeader hverb.distinct, if_neg (by decide)]
    rfl
  have hrv : reply.verb = some (CString.ofBytes (ascii "INFO")) := verb_addNamedHeader _ _ _
  have hrh : reply.headers = [] := headers_addNamedHeader _ _ _
  have hnamed : reply.namedHeaders = [⟨CString.ofBytes (ascii "Localtime"), time.text⟩] :=
    namedHeaders_addNamedHeader _ _ _
  have hlen := length_encodeHeader reply hrv
  have hkey : (CString.ofBytes (ascii "Localtime")).length = 9 := by decide
  have hword : (CString.ofBytes (ascii "INFO")).length = 4 := by decide
  have hshort : ((encodeHeader reply).length : ℤ) < intMax := by
    have := time.fits
    simp only [hrh, hnamed, List.map_nil, List.sum_nil, List.map_cons, List.sum_cons, hkey,
      hword] at hlen
    unfold intMax
    omega
  exact reply_sent env hbodyless hlookup (by simp [hrv]) hshort

theorem defaultHandle_returns : Callback.Returns (hmsDefaultHandle (σ := σ)) := by
  intro env msg h
  have hfin : ∀ (erred : Bool) (env' : Env σ) (reply : HmsMsg), hmsMsgDestroy reply = .ok () →
      ∃ status env'' msg', (hmsMsgDestroy reply >>= fun _ =>
        Except.ok (if erred then (-1 : ℤ) else 0, env', msg)) = .ok (status, env'', msg') ∧
          msg'.Counted := by
    intro erred env' reply hdestroy
    exact ⟨_, env', msg, by rw [hdestroy, ok_bind], h⟩
  unfold hmsDefaultHandle hmsMsgGetVerb
  cases msg.verb with
  | none =>
    obtain ⟨hsend, hdestroy⟩ := verbReply_sent env (CString.ofBytes (ascii "ERROR")) (by decide)
    simp only [hsend, ok_bind, pure_eq_ok]
    exact hfin true _ _ hdestroy
  | some verb =>
    dsimp only
    split_ifs with hping hinfo hbye
    · obtain ⟨hsend, hdestroy⟩ := verbReply_sent env (CString.ofBytes (ascii "PONG")) (by decide)
      simp only [hsend, ok_bind, pure_eq_ok]
      exact hfin false _ _ hdestroy
    · obtain ⟨hsend, hdestroy⟩ := infoReply_sent env.time.2 env.time.1
      unfold infoReply at hsend hdestroy
      simp only [hsend, ok_bind, pure_eq_ok]
      exact hfin false _ _ hdestroy
    · exact hfin true env _ counted_create.destroy
    · exact hfin true env _ counted_create.destroy

/-- An operation that `hms_endpoint_init` has filled in returns. -/
theorem callOp_returns {op : Option (Callback σ)} (h : ∀ f ∈ op, Callback.Returns f)
    {d : Callback σ} (hd : Callback.Returns d) :
    Callback.Returns (callOp (op.orElse fun _ => some d)) := by
  cases op with
  | none => exact hd
  | some f => exact h f rfl

/-! ## One message -/

section OneMessage

variable {ops : HmsOps σ} (hsome : ops.hmsValidate.isNone = false) (env : Env σ) {msg : HmsMsg}
include hsome

/-- What the loop does with a message is what `Handled` says. -/
theorem handled_of_handleMsg {env' : Env σ} {status : ℤ} {events : List Event}
    (h : handleMsg ops env 0 msg = .ok (status, env', events)) :
    Handled ops env msg events status env' := by
  unfold handleMsg at h
  simp only [hsome, Bool.false_eq_true, if_false] at h
  obtain ⟨⟨valid, env₁, msg₁⟩, hval, h⟩ := bind_eq_ok.1 h
  by_cases hv : valid = 0
  · subst hv
    rw [if_pos rfl] at h
    obtain ⟨⟨accepts, env₂, msg₂⟩, hacc, h⟩ := bind_eq_ok.1 h
    by_cases ha : accepts = 0
    · subst ha
      rw [if_pos rfl] at h
      obtain ⟨⟨status, env₃, msg₃⟩, hhandle, h⟩ := bind_eq_ok.1 h
      obtain ⟨-, -, h⟩ := bind_eq_ok.1 h
      cases h
      exact .user hval hacc hhandle
    · rw [if_neg ha] at h
      obtain ⟨⟨status, env₃, msg₃⟩, hhandle, h⟩ := bind_eq_ok.1 h
      obtain ⟨-, -, h⟩ := bind_eq_ok.1 h
      cases h
      exact .default hval hacc ha hhandle
  · rw [if_neg hv] at h
    obtain ⟨-, -, h⟩ := bind_eq_ok.1 h
    cases h
    exact .dropped hval hv

theorem handleMsg_returns (hvalidate : Callback.Returns (callOp ops.hmsValidate))
    (haccepts : Callback.Returns (callOp ops.hmsAccepts))
    (hhandle : Callback.Returns (callOp ops.hmsHandle)) (hc : msg.Counted) :
    ∃ status env' events, handleMsg ops env 0 msg = .ok (status, env', events) := by
  unfold handleMsg
  simp only [hsome, Bool.false_eq_true, if_false]
  obtain ⟨valid, env₁, msg₁, hval, hc₁⟩ := hvalidate env msg hc
  rw [hval, ok_bind]
  by_cases hv : valid = 0
  · obtain ⟨accepts, env₂, msg₂, hacc, hc₂⟩ := haccepts env₁ msg₁ hc₁
    rw [if_pos hv, hacc, ok_bind]
    by_cases ha : accepts = 0
    · obtain ⟨status, env₃, msg₃, hrun, hc₃⟩ := hhandle env₂ msg₂ hc₂
      rw [if_pos ha, hrun, ok_bind, hc₃.destroy]
      exact ⟨status, env₃, _, rfl⟩
    · obtain ⟨status, env₃, msg₃, hrun, hc₃⟩ := defaultHandle_returns env₂ msg₂ hc₂
      rw [if_neg ha, hrun, ok_bind, hc₃.destroy]
      exact ⟨status, env₃, _, rfl⟩
  · rw [if_neg hv, hc₁.destroy]
    exact ⟨0, env₁, _, rfl⟩

end OneMessage

/-! ## The loop -/

section Loop

variable {ops : HmsOps σ} {sock : ReadSide}

/-- An iteration on a message that the decoder hands out. -/
theorem handleEndpointLoop_some (ops : HmsOps σ) {msg : HmsMsg} {left : List UInt8}
    (h : decode hermesMaxHdrSize sock.unread = .ok (some msg, left)) :
    ∃ sock' : ReadSide, sock'.unread = left ∧ ∀ (fuel : ℕ) (env : Env σ),
      handleEndpointLoop ops (fuel + 1) sock env 0 = handleMsg ops env 0 msg >>= fun r =>
        if r.1 ≠ 0 then .ok (r.2.2, sock', r.2.1)
        else handleEndpointLoop ops fuel sock' r.2.1 r.1 >>= fun t =>
          .ok (r.2.2 ++ t.1, t.2.1, t.2.2) := by
  obtain ⟨sock', hparse, hleft⟩ := hmsMsgParse_ok_iff.2 h
  refine ⟨sock', hleft, fun fuel env => ?_⟩
  rw [handleEndpointLoop, hmsEndpointRecvMsg, hparse]
  rfl

/-- The iteration that finds no message. -/
theorem handleEndpointLoop_none (ops : HmsOps σ) {left : List UInt8}
    (h : decode hermesMaxHdrSize sock.unread = .ok (none, left)) (fuel : ℕ) (env : Env σ) :
    ∃ sock' : ReadSide, handleEndpointLoop ops (fuel + 1) sock env 0 = .ok ([], sock', env) := by
  obtain ⟨sock', hparse, -⟩ := hmsMsgParse_ok_iff.2 h
  refine ⟨sock', ?_⟩
  rw [handleEndpointLoop, hmsEndpointRecvMsg, hparse]
  rfl

/-- There is no message at the end of a stream. -/
theorem decode_nil : decode hermesMaxHdrSize [] = .ok (none, []) :=
  decode_noFrame (by decide) (by decide) fun f => by
    have := f.size_le
    rw [List.length_nil, Frame.size] at this
    omega

/-- A message that a server can take off the wire. -/
def Deliverable (msg : HmsMsg) : Prop :=
  msg.Survives ∧ ((encodeHeader msg).length : ℤ) ≤ hermesMaxHdrSize

theorem Deliverable.decode {msg : HmsMsg} (h : Deliverable msg) (t : List UInt8) :
    decode hermesMaxHdrSize (encode msg ++ t) = .ok (some msg.received, t) :=
  h.1.decode_encode h.2 (by decide) t

/-- The loop has the conversation about the messages whose bytes are unread. -/
theorem conversation_of_loop (hsome : ops.hmsValidate.isNone = false) (msgs : List HmsMsg)
    (hmsgs : ∀ msg ∈ msgs, Deliverable msg) (fuel : ℕ) (hs : sock.unread = msgs.flatMap encode)
    {env env' : Env σ} {log : List Event} {sock' : ReadSide}
    (hrun : handleEndpointLoop ops fuel sock env 0 = .ok (log, sock', env')) :
    Conversation ops env (msgs.map HmsMsg.received) log env' := by
  induction msgs generalizing fuel sock env log with
  | nil =>
    cases fuel with
    | zero => simp [handleEndpointLoop] at hrun
    | succ fuel =>
      have hdec := decode_nil
      rw [List.flatMap_nil] at hs
      rw [← hs] at hdec
      obtain ⟨sock'', hloop⟩ := handleEndpointLoop_none ops hdec fuel env
      rw [hloop] at hrun
      cases hrun
      exact .closed
  | cons msg msgs ih =>
    cases fuel with
    | zero => simp [handleEndpointLoop] at hrun
    | succ fuel =>
      have hdec := (hmsgs msg (by simp)).decode (msgs.flatMap encode)
      rw [← List.flatMap_cons, ← hs] at hdec
      obtain ⟨sock₁, hleft, hloop⟩ := handleEndpointLoop_some ops hdec
      rw [hloop] at hrun
      obtain ⟨⟨status, env₁, events⟩, hmsg, hrun⟩ := bind_eq_ok.1 hrun
      have hhandled := handled_of_handleMsg hsome env hmsg
      dsimp only at hrun
      by_cases hstatus : status = 0
      · subst hstatus
        rw [if_neg (by simp)] at hrun
        obtain ⟨⟨log₁, sock₂, env₂⟩, hrest, hrun⟩ := bind_eq_ok.1 hrun
        cases hrun
        exact .next hhandled (ih (fun m hm => hmsgs m (by simp [hm])) fuel hleft hrest)
      · rw [if_pos hstatus] at hrun
        cases hrun
        exact .stop hhandled hstatus

/-- The loop returns if the callbacks do, with an iteration for each message and one more. -/
theorem handleEndpointLoop_returns (hsome : ops.hmsValidate.isNone = false)
    (hvalidate : Callback.Returns (callOp ops.hmsValidate))
    (haccepts : Callback.Returns (callOp ops.hmsAccepts))
    (hhandle : Callback.Returns (callOp ops.hmsHandle)) (msgs : List HmsMsg)
    (hmsgs : ∀ msg ∈ msgs, Deliverable msg) {fuel : ℕ} (hfuel : msgs.length < fuel)
    (hs : sock.unread = msgs.flatMap encode) (env : Env σ) :
    ∃ r, handleEndpointLoop ops fuel sock env 0 = .ok r := by
  obtain ⟨fuel, rfl⟩ := Nat.exists_eq_add_one_of_ne_zero (Nat.ne_zero_of_lt hfuel)
  induction msgs generalizing fuel sock env with
  | nil =>
    have hdec := decode_nil
    rw [List.flatMap_nil] at hs
    rw [← hs] at hdec
    obtain ⟨sock', hloop⟩ := handleEndpointLoop_none ops hdec fuel env
    exact ⟨_, hloop⟩
  | cons msg msgs ih =>
    rw [List.length_cons, Nat.add_lt_add_iff_right] at hfuel
    have hdec := (hmsgs msg (by simp)).decode (msgs.flatMap encode)
    rw [← List.flatMap_cons, ← hs] at hdec
    obtain ⟨sock₁, hleft, hloop⟩ := handleEndpointLoop_some ops hdec
    have hcounted : msg.received.Counted := ⟨rfl, rfl⟩
    obtain ⟨status, env₁, events, hmsg⟩ :=
      handleMsg_returns hsome env hvalidate haccepts hhandle hcounted
    rw [hloop, hmsg, ok_bind]
    dsimp only
    by_cases hstatus : status = 0
    · obtain ⟨fuel, rfl⟩ := Nat.exists_eq_add_one_of_ne_zero (Nat.ne_zero_of_lt hfuel)
      obtain ⟨r, hrest⟩ := ih (fun m hm => hmsgs m (by simp [hm])) hleft env₁ fuel hfuel
      subst hstatus
      rw [if_neg (by simp), hrest]
      exact ⟨_, rfl⟩
    · rw [if_pos hstatus]
      exact ⟨_, rfl⟩

end Loop

/-! ## The connection -/

/-- There are more bytes than messages. -/
theorem length_le_unread (msgs : List HmsMsg) : msgs.length ≤ (msgs.flatMap encode).length := by
  have hone : ∀ n ∈ msgs.map fun msg => (encode msg).length, 1 ≤ n := by
    intro n hn
    obtain ⟨msg, -, rfl⟩ := List.mem_map.1 hn
    have := List.length_pos_iff.2 (encodeHeader_ne_nil msg)
    rw [encode, List.length_append]
    omega
  have hsum := List.length_le_sum_of_one_le _ hone
  rwa [List.length_map, ← List.length_flatMap] at hsum

/-- The loop has the conversation about the messages on a connection, each as the parser hands it
out, and it comes to an end if the callbacks return. What follows the loop is undefined. -/
theorem handleEndpoint_delivers {msgs : List HmsMsg} (hmsgs : ∀ msg ∈ msgs, Deliverable msg)
    {sock : ReadSide} (hs : sock.unread = msgs.flatMap encode) (env : Env σ) (ops : HmsOps σ) :
    (∀ log sock' env', (hmsEndpointInit sock env ops).loop = .ok (log, sock', env') →
      Conversation (hmsEndpointInit sock env ops).ops env (msgs.map HmsMsg.received) log env' ∧
        presented log <+: msgs.map HmsMsg.received ∧ (∀ e ∈ log.dropLast, ¬e.Fails) ∧
        (presented log = msgs.map HmsMsg.received ∨ ∃ e ∈ log.getLast?, e.Fails) ∧
        hmsHandleEndpoint (hmsEndpointInit sock env ops) = .error .undefined) ∧
    (ops.Return → ∃ log sock' env',
      (hmsEndpointInit sock env ops).loop = .ok (log, sock', env')) := by
  have hsome : (hmsEndpointInit sock env ops).ops.hmsValidate.isNone = false := by
    unfold hmsEndpointInit
    cases ops.hmsValidate <;> rfl
  refine ⟨fun log sock' env' hrun => ?_, fun hops => ?_⟩
  · have hconv := conversation_of_loop hsome msgs hmsgs _ hs hrun
    obtain ⟨hpre, hgo, hend⟩ := hconv.presented
    exact ⟨hconv, hpre, hgo, hend, hmsHandleEndpoint_of_loop hrun⟩
  · have hfuel : msgs.length < sock.unread.length + 1 :=
      Nat.lt_succ_of_le (hs ▸ length_le_unread msgs)
    obtain ⟨⟨log, sock', env'⟩, hrun⟩ := handleEndpointLoop_returns hsome
      (callOp_returns hops.validate defaultValidate_returns)
      (callOp_returns hops.accepts defaultAccepts_returns)
      (callOp_returns hops.handle defaultHandle_returns) msgs hmsgs hfuel hs env
    exact ⟨log, sock', env', hrun⟩

/-- A world in which sends succeed and the clock stands still. -/
def stillEnv : Env ℕ where
  out := ⟨[], fun _ => some 999⟩
  clock _ := ⟨CString.ofBytes (ascii "Thu Jan  1 00:00:00 1970\n"), by decide⟩
  state := 0

/-- Callbacks that reject every second message and accept the others. -/
def everySecond : HmsOps ℕ where
  hmsValidate := some fun env msg => .ok (env.state % 2, { env with state := env.state + 1 }, msg)
  hmsAccepts := some fun env msg => .ok (0, env, msg)
  hmsHandle := none

theorem everySecond_returns : everySecond.Return where
  validate := by
    rintro f ⟨⟩ env msg h
    exact ⟨_, _, msg, rfl, h⟩
  accepts := by
    rintro f ⟨⟩ env msg h
    exact ⟨_, _, msg, rfl, h⟩
  handle := by
    rintro f ⟨⟩

theorem deliverable_copyMsg : Deliverable copyMsg := by
  have hclean : copyMsg.WireClean := by decide
  exact ⟨hclean.survives, by decide⟩

theorem handleEndpoint_delivers_copyMsg : ∃ log sock' env',
    (hmsEndpointInit ⟨encode copyMsg ++ encode copyMsg, fun n => n⟩ stillEnv
      everySecond).loop = .ok (log, sock', env') ∧
    Conversation (hmsEndpointInit ⟨encode copyMsg ++ encode copyMsg, fun n => n⟩ stillEnv
      everySecond).ops stillEnv [copyMsg.received, copyMsg.received] log env' := by
  have hmsgs : ∀ msg ∈ [copyMsg, copyMsg], Deliverable msg := by
    simp [deliverable_copyMsg]
  have hs : (⟨encode copyMsg ++ encode copyMsg, fun n => n⟩ : ReadSide).unread =
      [copyMsg, copyMsg].flatMap encode := by
    simp
  obtain ⟨hconv, hreturns⟩ := handleEndpoint_delivers hmsgs hs stillEnv everySecond
  obtain ⟨log, sock', env', hrun⟩ := hreturns everySecond_returns
  exact ⟨log, sock', env', hrun, (hconv log sock' env' hrun).1⟩

/-- A `content-length` is presented in the library's own spelling. -/
theorem handleEndpoint_delivers_spelling : Deliverable copyMsg ∧ ∃ log sock' env' msg,
    (hmsEndpointInit ⟨encode copyMsg, fun n => n⟩ stillEnv
      ⟨none, none, none⟩).loop = .ok (log, sock', env') ∧
    presented log = [msg] ∧ msg.namedHeaders ≠
      copyMsg.namedHeaders.filter (fun hdr => !hdr.hasKey hmsContentLength) ++
        copyMsg.namedHeaders.filter (fun hdr => hdr.hasKey hmsContentLength) := by
  have hlog : (hmsEndpointInit ⟨encode copyMsg, fun n => n⟩ stillEnv
      ⟨none, none, none⟩).loop.map Prod.fst = .ok [.validate copyMsg.received 0,
        .accepts copyMsg.received (-1), .defaultHandle copyMsg.received (-1)] := by
    decide
  obtain ⟨⟨sock', env'⟩, hrun⟩ := exists_of_map_fst hlog
  exact ⟨deliverable_copyMsg, _, sock', env', copyMsg.received, hrun, rfl, by decide⟩

end Hermes
