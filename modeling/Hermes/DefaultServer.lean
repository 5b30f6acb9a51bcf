import Hermes.Connection

/-!
# The server without callbacks

A server whose operations are all `NULL` runs the default handler on every message. `PING` is
answered with `PONG` and `INFO` with the local time, and any other verb ends the connection.

`defaultServer_replies` joins the two directions. The client, reading message after message
from what the server wrote, gets one reply for each leading `PING` or `INFO` and nothing
else. The text of `asctime_r` ends in a newline, so the header of an `INFO` reply has an empty
line, which the parser skips (`decode_infoReply`).
-/

open CLib

namespace Hermes

set_option maxRecDepth 8000

variable {σ : Type}

/-! ## Requests and replies -/

/-- The verb is `word`, ignoring case. -/
def HmsMsg.hasVerb (msg : HmsMsg) (word : String) : Bool :=
  msg.verb.any fun verb => verb.caseEq (CString.ofBytes (ascii word))

/-- A request that the default handler answers. -/
def HmsMsg.answered (msg : HmsMsg) : Bool :=
  msg.hasVerb "PING" || msg.hasVerb "INFO"

/-- The reply to `PING`. -/
def pongReply : HmsMsg :=
  hmsMsgSetVerb hmsMsgCreate (CString.ofBytes (ascii "PONG"))

/-- The replies to a connection's requests if the times have the texts `clock`. -/
def replies : (ℕ → CString) → List HmsMsg → List HmsMsg
  | _, [] => []
  | clock, msg :: msgs =>
    if msg.hasVerb "PING" then pongReply :: replies clock msgs
    else if msg.hasVerb "INFO" then infoReply (clock 0) :: replies (fun i => clock (i + 1)) msgs
    else []

section Replies

variable {msg : HmsMsg} {msgs : List HmsMsg} {clock : ℕ → CString}

theorem replies_ping (h : msg.hasVerb "PING" = true) :
    replies clock (msg :: msgs) = pongReply :: replies clock msgs := by
  rw [replies, if_pos h]

theorem replies_info (hp : msg.hasVerb "PING" = false) (h : msg.hasVerb "INFO" = true) :
    replies clock (msg :: msgs) = infoReply (clock 0) :: replies (fun i => clock (i + 1)) msgs := by
  rw [replies, if_neg (by simp [hp]), if_pos h]

theorem replies_other (hp : msg.hasVerb "PING" = false) (h : msg.hasVerb "INFO" = false) :
    replies clock (msg :: msgs) = [] := by
  rw [replies, if_neg (by simp [hp]), if_neg (by simp [h])]

/-- No verb is both. -/
theorem not_ping_of_info (h : msg.hasVerb "INFO" = true) : msg.hasVerb "PING" = false := by
  rw [Bool.eq_false_iff]
  intro hp
  obtain ⟨verb, hverb, hinfo⟩ := (Option.any_eq_true _ _).1 h
  obtain ⟨verb', hverb', hping⟩ := (Option.any_eq_true _ _).1 hp
  rw [hverb, Option.some.injEq] at hverb'
  subst hverb'
  rw [keyEquiv_caseEq.congr _ hinfo] at hping
  exact absurd hping (by decide)

/-- As many replies as leading requests that are answered. -/
theorem length_replies (clock : ℕ → CString) (msgs : List HmsMsg) :
    (replies clock msgs).length = (msgs.takeWhile HmsMsg.answered).length := by
  induction msgs generalizing clock with
  | nil => rfl
  | cons msg msgs ih =>
    rw [List.takeWhile_cons, HmsMsg.answered]
    cases hp : msg.hasVerb "PING"
    · cases hi : msg.hasVerb "INFO"
      · rw [replies_other hp hi]
        rfl
      · rw [replies_info hp hi, List.length_cons, ih]
        rfl
    · rw [replies_ping hp, List.length_cons, ih]
      rfl

/-- What the reply to a request is. -/
theorem getElem_replies {i : ℕ} {req reply : HmsMsg} (hreq : msgs[i]? = some req)
    (hreply : (replies clock msgs)[i]? = some reply) :
    (req.hasVerb "PING" = true → reply = pongReply) ∧
      (req.hasVerb "INFO" = true →
        reply = infoReply (clock ((msgs.take i).countP fun msg => msg.hasVerb "INFO"))) := by
  induction msgs generalizing clock i with
  | nil => simp at hreq
  | cons msg msgs ih =>
    cases hp : msg.hasVerb "PING"
    · cases hi : msg.hasVerb "INFO"
      · rw [replies_other hp hi] at hreply
        simp at hreply
      · rw [replies_info hp hi] at hreply
        cases i with
        | zero =>
          rw [List.getElem?_cons_zero, Option.some.injEq] at hreq hreply
          subst hreq hreply
          exact ⟨fun h => by simp [hp] at h, fun _ => rfl⟩
        | succ i =>
          rw [List.getElem?_cons_succ] at hreq hreply
          obtain ⟨h1, h2⟩ := ih hreq hreply
          refine ⟨h1, fun h => (h2 h).trans ?_⟩
          rw [List.take_succ_cons, List.countP_cons, hi, if_pos rfl]
    · have hi : msg.hasVerb "INFO" = false := by
        rw [Bool.eq_false_iff]
        exact fun hi => by simp [not_ping_of_info hi] at hp
      rw [replies_ping hp] at hreply
      cases i with
      | zero =>
        rw [List.getElem?_cons_zero, Option.some.injEq] at hreq hreply
        subst hreq hreply
        exact ⟨fun _ => rfl, fun h => by simp [hi] at h⟩
      | succ i =>
        rw [List.getElem?_cons_succ] at hreq hreply
        obtain ⟨h1, h2⟩ := ih hreq hreply
        refine ⟨h1, fun h => (h2 h).trans ?_⟩
        rw [List.take_succ_cons, List.countP_cons, hi, if_neg (by simp), Nat.add_zero]

end Replies

/-! ## What the server writes -/

section Writes

variable (env : Env σ) {msg : HmsMsg}

theorem defaultHandle_ping (h : msg.hasVerb "PING" = true) : hmsDefaultHandle env msg =
    .ok (0, { env with out := afterMsg env.out pongReply }, msg) := by
  obtain ⟨verb, hverb, hping⟩ := (Option.any_eq_true _ _).1 h
  obtain ⟨hsend, hdestroy⟩ := verbReply_sent env (CString.ofBytes (ascii "PONG")) (by decide)
  unfold hmsDefaultHandle hmsMsgGetVerb
  simp only [hverb, hping, if_true, hsend, ok_bind, pure_eq_ok, hdestroy]
  rfl

theorem defaultHandle_info (hp : msg.hasVerb "PING" = false) (h : msg.hasVerb "INFO" = true) :
    hmsDefaultHandle env msg = .ok (0,
      { env.time.2 with out := afterMsg env.out (infoReply (env.clock 0).text) }, msg) := by
  obtain ⟨verb, hverb, hinfo⟩ := (Option.any_eq_true _ _).1 h
  have hping : verb.caseEq (CString.ofBytes (ascii "PING")) = false := by
    simpa [HmsMsg.hasVerb, hverb] using hp
  obtain ⟨hsend, hdestroy⟩ := infoReply_sent env.time.2 env.time.1
  unfold infoReply at hsend hdestroy
  unfold hmsDefaultHandle hmsMsgGetVerb
  simp only [hverb, hping, hinfo, if_true, hsend, ok_bind, pure_eq_ok, hdestroy,
    Bool.false_eq_true, if_false]
  rfl

theorem defaultHandle_other (hv : msg.verb ≠ none) (hp : msg.hasVerb "PING" = false)
    (hi : msg.hasVerb "INFO" = false) : hmsDefaultHandle env msg = .ok (-1, env, msg) := by
  obtain ⟨verb, hverb⟩ := Option.ne_none_iff_exists'.1 hv
  have hping : verb.caseEq (CString.ofBytes (ascii "PING")) = false := by
    simpa [HmsMsg.hasVerb, hverb] using hp
  have hinfo : verb.caseEq (CString.ofBytes (ascii "INFO")) = false := by
    simpa [HmsMsg.hasVerb, hverb] using hi
  have hdestroy : hmsMsgDestroy hmsMsgCreate = .ok () := counted_create.destroy
  unfold hmsDefaultHandle hmsMsgGetVerb
  simp only [hverb, hping, hinfo, Bool.false_eq_true, if_false, ite_self, pure_eq_ok, ok_bind,
    hdestroy]
  rfl

end Writes

section Loop

variable {sock₀ : ReadSide} {env₀ : Env σ}

/-- Without callbacks a message goes to the default handler. -/
theorem handleMsg_default (env : Env σ) (msg : HmsMsg) :
    handleMsg (hmsEndpointInit sock₀ env₀ ⟨none, none, none⟩).ops env 0 msg =
      hmsDefaultHandle env msg >>= fun r => hmsMsgDestroy r.2.2 >>= fun _ =>
        .ok (r.1, r.2.1, [.validate msg 0, .accepts msg (-1), .defaultHandle msg r.1]) :=
  rfl

/-- The loop writes the replies to the messages whose bytes are unread. -/
theorem handleEndpointLoop_replies (msgs : List HmsMsg) (hmsgs : ∀ msg ∈ msgs, Deliverable msg)
    {fuel : ℕ} {sock : ReadSide} (hs : sock.unread = msgs.flatMap encode) {env : Env σ}
    (hsend : ∀ i, env.out.outcomes i ≠ none) {log : List Event} {sock' : ReadSide} {env' : Env σ}
    (hrun : handleEndpointLoop (hmsEndpointInit sock₀ env₀ ⟨none, none, none⟩).ops fuel sock env 0 =
      .ok (log, sock', env')) :
    env'.out.sent =
      env.out.sent ++ (replies (fun i => (env.clock i).text) msgs).flatMap encode := by
  induction msgs generalizing fuel sock env log with
  | nil =>
    cases fuel with
    | zero => simp [handleEndpointLoop] at hrun
    | succ fuel =>
      have hdec := decode_nil
      rw [List.flatMap_nil] at hs
      rw [← hs] at hdec
      obtain ⟨sock'', hloop⟩ := handleEndpointLoop_none
        (hmsEndpointInit sock₀ env₀ ⟨none, none, none⟩).ops hdec fuel env
      rw [hloop] at hrun
      cases hrun
      simp [replies]
  | cons msg msgs ih =>
    cases fuel with
    | zero => simp [handleEndpointLoop] at hrun
    | succ fuel =>
      have hdec := (hmsgs msg (by simp)).decode (msgs.flatMap encode)
      rw [← List.flatMap_cons, ← hs] at hdec
      obtain ⟨sock₁, hleft, hloop⟩ := handleEndpointLoop_some
        (hmsEndpointInit sock₀ env₀ ⟨none, none, none⟩).ops hdec
      have hdestroy : hmsMsgDestroy msg.received = .ok () :=
        HmsMsg.Counted.destroy ⟨rfl, rfl⟩
      rw [hloop, handleMsg_default] at hrun
      -- what an answered request leaves to do
      have hgo : ∀ (env₁ : Env σ) (reply : HmsMsg), hmsDefaultHandle env msg.received =
          .ok (0, env₁, msg.received) → env₁.out = afterMsg env.out reply →
          env'.out.sent = env.out.sent ++ encode reply ++
            (replies (fun i => (env₁.clock i).text) msgs).flatMap encode := by
        intro env₁ reply hhandle hout
        rw [hhandle, ok_bind, hdestroy, ok_bind, ok_bind] at hrun
        obtain ⟨⟨log₁, sock₂, env₂⟩, hrest, hrun⟩ := bind_eq_ok.1 hrun
        cases hrun
        obtain ⟨hsent, hsend₁⟩ := sent_afterMsg_of_forall hsend reply
        rw [← hout] at hsent hsend₁
        rw [ih (fun m hm => hmsgs m (by simp [hm])) hleft hsend₁ hrest, hsent]
      -- the parser keeps the verb
      have hverb : ∀ {b : Bool} {word : String}, msg.hasVerb word = b →
          msg.received.hasVerb word = b := fun h => h
      have hv : msg.received.verb ≠ none := (hmsgs msg (by simp)).1.verb
      cases hp : msg.hasVerb "PING"
      · cases hi : msg.hasVerb "INFO"
        · rw [defaultHandle_other env hv (hverb hp) (hverb hi), ok_bind, hdestroy, ok_bind, ok_bind,
            if_pos (by simp)] at hrun
          cases hrun
          rw [replies_other hp hi, List.flatMap_nil, List.append_nil]
        · rw [replies_info hp hi, List.flatMap_cons, ← List.append_assoc]
          exact hgo _ _ (defaultHandle_info env (hverb hp) (hverb hi)) rfl
      · rw [replies_ping hp, List.flatMap_cons, ← List.append_assoc]
        exact hgo { env with out := afterMsg env.out pongReply } _
          (defaultHandle_ping env (hverb hp)) rfl

end Loop

/-! ## What the client reads -/

/-- `line` is what `asctime_r` writes for a time, up to the newline : from the name of a day to
a year, without a period. -/
structure IsTimeLine (time : ClockText) (line : CString) : Prop where
  text : time.text.bytes = line.bytes ++ [newline]
  clean : ∀ c ∈ line.bytes, c ≠ dot ∧ c ≠ newline ∧ c ≠ carriageReturn
  trimmed : Trimmed isspace line.bytes

/-- A newline at the end of a header does not add a line. -/
theorem headerLines_append_newline {text : List UInt8} (h : nul ∉ text) :
    headerLines (text ++ [newline]) = headerLines text := by
  have hnl : beforeNul [newline] = [newline] := beforeNul_of_not_mem (by decide)
  rw [headerLines, headerLines, beforeNul_append h, beforeNul_of_not_mem h, hnl,
    tokens_append_cons (by rfl), tokens_nil, List.append_nil]

theorem wireClean_pongReply : pongReply.WireClean := by
  decide

/-! The parts of the reply to `INFO`. -/

theorem namedHeaders_infoReply (v : CString) :
    (infoReply v).namedHeaders = [⟨CString.ofBytes (ascii "Localtime"), v⟩] :=
  namedHeaders_addNamedHeader _ _ _

theorem content_infoReply (v : CString) : (infoReply v).content = none :=
  content_addNamedHeader _ _ _

theorem verb_infoReply (v : CString) : (infoReply v).verb = some (CString.ofBytes (ascii "INFO")) :=
  verb_addNamedHeader _ _ _

theorem words_infoReply (v : CString) : (infoReply v).words = [CString.ofBytes (ascii "INFO")] := by
  simp [HmsMsg.words, infoReply, hmsMsgSetVerb, hmsMsgCreate]

theorem lines_infoReply (v : CString) :
    (infoReply v).lines = [ascii "INFO", ascii "Localtime" ++ colon :: v.bytes] := by
  rw [HmsMsg.lines, namedHeaders_infoReply]
  simp [HmsMsg.verbLine, infoReply, hmsMsgSetVerb, hmsMsgCreate, HmsMsgNheader.line]
  decide

section Info

variable {time : ClockText} {line : CString} (h : IsTimeLine time line)
include h

/-- The reply to `INFO` without the newline of the time. -/
theorem wireClean_infoReply : (infoReply line).WireClean := by
  have hnamed := namedHeaders_infoReply line
  have hcontent := content_infoReply line
  have hkey : (∀ c ∈ (CString.ofBytes (ascii "Localtime")).bytes,
      c ≠ colon ∧ c ≠ newline ∧ c ≠ carriageReturn) ∧
      Trimmed isspace (CString.ofBytes (ascii "Localtime")).bytes := by
    decide
  have hlookup : (infoReply line).lookup hmsContentLength = none := by
    have hdistinct : (hmsMsgSetVerb hmsMsgCreate (CString.ofBytes (ascii "INFO"))).KeysDistinct :=
      List.Pairwise.nil
    rw [infoReply, lookup_addNamedHeader hdistinct, if_neg (by decide)]
    rfl
  refine ⟨⟨by simp [verb_infoReply], ?_, ?_, ?_⟩, ?_, ?_, ?_, ?_, ?_, ?_, ?_⟩
  · rw [words_infoReply]
    decide
  · rw [hnamed, List.forall_mem_singleton]
    exact hkey.1
  · rw [hnamed, List.forall_mem_singleton]
    exact fun c hc => (h.clean c hc).2
  · rw [words_infoReply]
    decide
  · rw [hnamed, List.forall_mem_singleton]
    exact hkey.2
  · rw [hnamed, List.forall_mem_singleton]
    exact h.trimmed
  · rw [hnamed, List.forall_mem_singleton]
    exact fun hlast => (h.clean dot (List.mem_of_getLast? hlast)).1 rfl
  · rw [HmsMsg.KeysDistinct, hnamed]
    exact List.pairwise_singleton _ _
  · rw [hcontent]
    simp
  · rw [hlookup, hcontent]
    rfl

/-- On the wire it is followed by an empty line. -/
theorem encode_infoReply :
    encode (infoReply time.text) = unlines ((infoReply line).lines ++ [[]]) ++ [dot, newline] := by
  rw [encode, HmsMsg.body, content_infoReply, encodeHeader, HmsMsg.headerText_eq, lines_infoReply,
    lines_infoReply, h.text]
  simp [unlines]

/-- These lines have no newline, and none ends the header. -/
theorem infoReply_lines : ∀ l ∈ (infoReply line).lines ++ [[]], newline ∉ l ∧ ¬DotEnded l := by
  have hclean := (wireClean_infoReply h).survives
  intro l hl
  rcases List.mem_append.1 hl with hl | hl
  · exact ⟨fun hc => (hclean.mem_lines hl hc).1 rfl, hclean.not_dotEnded hl⟩
  · rw [List.mem_singleton.1 hl]
    exact ⟨List.not_mem_nil, fun hend => by simpa using hend.dot_mem⟩

theorem length_infoReply_lines :
    2 < (unlines ((infoReply line).lines ++ [[]])).length + 2 ∧
      (unlines ((infoReply line).lines ++ [[]])).length + 2 ≤ 1024 := by
  have hfits : line.bytes.length + 1 < 26 := by
    have := time.fits
    rwa [CString.length, h.text, List.length_append] at this
  have hword : (ascii "INFO").length = 4 ∧ (ascii "Localtime").length = 9 := by decide
  rw [lines_infoReply]
  simp only [unlines, List.cons_append, List.nil_append, List.flatMap_cons, List.flatMap_nil,
    List.append_nil, List.length_append, List.length_cons, List.length_nil, hword.1, hword.2]
  omega

/-- The parser does not see the empty line. -/
theorem headerLines_infoReply :
    headerLines ((unlines ((infoReply line).lines ++ [[]])).map crToSpace) =
      (infoReply line).lines := by
  have hclean := (wireClean_infoReply h).survives
  have hsplit : unlines ((infoReply line).lines ++ [[]]) =
      (infoReply line).headerText ++ [newline] := by
    rw [HmsMsg.headerText_eq]
    simp [unlines]
  have hnl : [newline].map crToSpace = [newline] := rfl
  rw [hsplit, List.map_append, hnl, hclean.map_crToSpace,
    headerLines_append_newline hclean.nul_not_mem, ← hclean.map_crToSpace, hclean.headerLines_eq]

/-- The client reads the reply to `INFO` without the newline of the time. -/
theorem decode_infoReply (t : List UInt8) :
    decode hermesMaxHdrSize (encode (infoReply time.text) ++ t) =
      .ok (some (infoReply line), t) := by
  have hclean := (wireClean_infoReply h).survives
  obtain ⟨f, htext, hblanks, hrest⟩ := exists_frame_unlines t
    (fun l hl => (infoReply_lines h l hl).1) fun l hl => (infoReply_lines h l hl).2
  have hparsed : headerLines f.parsed = (infoReply line).lines := by
    rw [Frame.parsed, htext, headerLines_infoReply h]
  obtain ⟨hpos, hle⟩ := length_infoReply_lines h
  have hsize : f.size = (unlines ((infoReply line).lines ++ [[]])).length + 2 := by
    rw [Frame.size, htext, hblanks]
    rfl
  have h0 : bodyLength (infoReply line).lines = 0 := by
    rw [hclean.bodyLength_lines, HmsMsg.body, content_infoReply]
    rfl
  have hdec : Decodes f (infoReply line) t := by
    refine ⟨by omega, by rw [hparsed]; exact hclean.headerOk, .inl ?_⟩
    rw [hparsed]
    refine ⟨(bodyLength_eq_zero hclean.headerOk).1 h0, ?_, hrest.symm⟩
    rw [hclean.headerMsg_lines]
    rfl
  have hmax : (f.size : ℤ) ≤ hermesMaxHdrSize := by
    unfold hermesMaxHdrSize
    omega
  rw [encode_infoReply h]
  exact decode_eq_some.2 ⟨by decide, f, hmax, hdec⟩

end Info

/-- Successive calls of `hms_connector_recv_msg` give the messages `msgs`. -/
inductive Receives : ReadSide → List HmsMsg → ReadSide → Prop
  | done (sock) : Receives sock [] sock
  | next {sock sock₁ sock' msg msgs}
      (hrecv : hmsConnectorRecvMsg sock = .ok (0, some msg, sock₁))
      (rest : Receives sock₁ msgs sock') : Receives sock (msg :: msgs) sock'

theorem connectorRecv_some {sock : ReadSide} {msg : HmsMsg} {left : List UInt8}
    (h : decode hermesMaxHdrSize sock.unread = .ok (some msg, left)) :
    ∃ sock' : ReadSide, hmsConnectorRecvMsg sock = .ok (0, some msg, sock') ∧
      sock'.unread = left := by
  obtain ⟨sock', hparse, hleft⟩ := hmsMsgParse_ok_iff.2 h
  refine ⟨sock', ?_, hleft⟩
  rw [hmsConnectorRecvMsg, hparse]
  rfl

/-- At the end of the stream there is no message. -/
theorem connectorRecv_end {sock : ReadSide} (h : sock.unread = []) :
    ∃ sock' : ReadSide, hmsConnectorRecvMsg sock = .ok (-1, none, sock') := by
  have hdec := decode_nil
  rw [← h] at hdec
  obtain ⟨sock', hparse, -⟩ := hmsMsgParse_ok_iff.2 hdec
  refine ⟨sock', ?_⟩
  rw [hmsConnectorRecvMsg, hparse]
  rfl

/-- The client reads the replies, and nothing is left. -/
theorem receives_replies {time : ℕ → ClockText} {line : ℕ → CString}
    (hline : ∀ i, IsTimeLine (time i) (line i)) (msgs : List HmsMsg) {sock : ReadSide}
    (hs : sock.unread = (replies (fun i => (time i).text) msgs).flatMap encode) :
    ∃ sock' : ReadSide, Receives sock (replies line msgs) sock' ∧ sock'.unread = [] := by
  induction msgs generalizing time line sock with
  | nil => exact ⟨sock, .done sock, hs⟩
  | cons msg msgs ih =>
    cases hp : msg.hasVerb "PING"
    · cases hi : msg.hasVerb "INFO"
      · rw [replies_other hp hi] at hs ⊢
        exact ⟨sock, .done sock, hs⟩
      · rw [replies_info hp hi] at hs ⊢
        rw [List.flatMap_cons] at hs
        have hdec := decode_infoReply (hline 0)
          ((replies (fun i => (time (i + 1)).text) msgs).flatMap encode)
        rw [← hs] at hdec
        obtain ⟨sock₁, hrecv, hleft⟩ := connectorRecv_some hdec
        obtain ⟨sock', hrest, hnil⟩ := ih (fun i => hline (i + 1)) hleft
        exact ⟨sock', .next hrecv hrest, hnil⟩
    · rw [replies_ping hp] at hs ⊢
      rw [List.flatMap_cons] at hs
      have hdec := wireClean_pongReply.survives.decode_encode (by decide)
        (by decide : hermesMaxHdrSize < intMax)
        ((replies (fun i => (time i).text) msgs).flatMap encode)
      rw [← hs] at hdec
      obtain ⟨sock₁, hrecv, hleft⟩ := connectorRecv_some hdec
      obtain ⟨sock', hrest, hnil⟩ := ih hline hleft
      exact ⟨sock', .next hrecv hrest, hnil⟩

/-! ## The conversation -/

/-- A server without callbacks answers the leading `PING`s and `INFO`s of a connection, in order
and with one message each, before it closes it. -/
theorem defaultServer_replies {msgs : List HmsMsg} (hmsgs : ∀ msg ∈ msgs, Deliverable msg)
    {sock : ReadSide} (hs : sock.unread = msgs.flatMap encode) {env : Env σ}
    (hout : env.out.sent = []) (hsend : ∀ i, env.out.outcomes i ≠ none) {line : ℕ → CString}
    (hline : ∀ i, IsTimeLine (env.clock i) (line i)) :
    ∃ log sock' env', (hmsEndpointInit sock env ⟨none, none, none⟩).loop =
        .ok (log, sock', env') ∧
      ∃ received : List HmsMsg,
        received.length = (msgs.takeWhile HmsMsg.answered).length ∧
        (∀ (i : ℕ) (req reply : HmsMsg), msgs[i]? = some req → received[i]? = some reply →
          (req.hasVerb "PING" = true → reply = pongReply) ∧
            (req.hasVerb "INFO" = true → reply =
              infoReply (line ((msgs.take i).countP fun msg => msg.hasVerb "INFO")))) ∧
        ∀ chunks, ∃ client client' : ReadSide,
          Receives ⟨env'.out.sent, chunks⟩ received client ∧ client.unread = [] ∧
            hmsConnectorRecvMsg client = .ok (-1, none, client') := by
  have hops : (⟨none, none, none⟩ : HmsOps σ).Return := ⟨by simp, by simp, by simp⟩
  obtain ⟨log, sock', env', hrun⟩ := (handleEndpoint_delivers hmsgs hs env _).2 hops
  have hsent := handleEndpointLoop_replies msgs hmsgs hs hsend hrun
  rw [hout, List.nil_append] at hsent
  refine ⟨log, sock', env', hrun, replies line msgs, length_replies line msgs,
    fun i req reply hreq hreply => getElem_replies hreq hreply, fun chunks => ?_⟩
  have hstart : (⟨env'.out.sent, chunks⟩ : ReadSide).unread = _ := hsent
  obtain ⟨client, hreceives, hnil⟩ := receives_replies hline msgs hstart
  obtain ⟨client', hend⟩ := connectorRecv_end hnil
  exact ⟨client, client', hreceives, hnil, hend⟩

/-- A request without headers. -/
def request (verb : String) : HmsMsg :=
  hmsMsgSetVerb hmsMsgCreate (CString.ofBytes (ascii verb))

/-- Two requests that are answered, one that is not and one behind it. -/
theorem defaultServer_replies_pipelined : ∃ log sock' env',
    (hmsEndpointInit
      ⟨ascii "ping\n.\nInfo\n.\nBYE\n.\nPING\n.\n", fun n => n⟩ stillEnv ⟨none, none, none⟩).loop =
        .ok (log, sock', env') ∧
      ∃ received : List HmsMsg, received.length = 2 ∧ received[0]? = some pongReply ∧
        ∀ chunks, ∃ client, Receives ⟨env'.out.sent, chunks⟩ received client ∧
          client.unread = [] := by
  have hmsgs : ∀ msg ∈ ["ping", "Info", "BYE", "PING"].map request, Deliverable msg := by
    have hclean : ∀ msg ∈ ["ping", "Info", "BYE", "PING"].map request,
        msg.WireClean ∧ ((encodeHeader msg).length : ℤ) ≤ hermesMaxHdrSize := by
      decide
    exact fun msg hmem => ⟨(hclean msg hmem).1.survives, (hclean msg hmem).2⟩
  have hs : (⟨ascii "ping\n.\nInfo\n.\nBYE\n.\nPING\n.\n", fun n => n⟩ : ReadSide).unread =
      (["ping", "Info", "BYE", "PING"].map request).flatMap encode := by
    decide
  have hout : stillEnv.out.sent = [] := rfl
  have hsend : ∀ i, stillEnv.out.outcomes i ≠ none := fun _ => by simp [stillEnv]
  have hline : IsTimeLine (stillEnv.clock 0) (CString.ofBytes (ascii "Thu Jan  1 00:00:00 1970")) :=
    ⟨by decide, by decide, by decide⟩
  obtain ⟨log, sock', env', hrun, received, hlen, hreply, hreceives⟩ :=
    defaultServer_replies hmsgs hs hout hsend fun _ => hline
  refine ⟨log, sock', env', hrun, received, hlen, ?_, fun chunks => ?_⟩
  · obtain ⟨reply, hfirst⟩ : ∃ reply, received[0]? = some reply := by
      have hpos : 0 < received.length := by
        rw [hlen]
        decide
      exact ⟨_, List.getElem?_eq_getElem hpos⟩
    rw [hfirst, (hreply 0 (request "ping") reply rfl hfirst).1 (by decide)]
  · obtain ⟨client, -, hrecv, hnil, -⟩ := hreceives chunks
    exact ⟨client, hrecv, hnil⟩

end Hermes
