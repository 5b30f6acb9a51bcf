import Hermes.Endpoint
import Hermes.Parsed

/-!
# What goes out

`sendAll_eq` says what `__send_all` leaves on the socket, and from it `endpointSend_eq` and
`connectorSend_eq` what the two send functions do with a message whose body is consistent :
the body goes out even if the header did not, and the connector reports an error for a message
without a body.

`endpointSend_uncorrupted` and `connectorSend_agrees` say for which outcomes of `send` the stream
is not corrupted, and for which messages the two agree. `header_printed_sent` says which headers
are printed as computed and sent as printed, and `parsed_sendable` which parsed messages can be
sent.
-/

open CLib

namespace Hermes

set_option maxRecDepth 8000

/-! ## `__send_all` -/

theorem sendAllLoop_eq : ∀ (fuel : ℕ) (w : WriteSide) (p : List UInt8) (done : ℕ), p ≠ [] →
    p.length ≤ fuel → sendAllLoop fuel w p done =
      .ok (if w.taken p = p.length then ((done + p.length : ℕ) : ℤ) else -1, w.after p)
  | 0, w, p, done, hne, hle => absurd (List.length_eq_zero_iff.1 (Nat.le_zero.1 hle)) hne
  | fuel + 1, w, p, done, hne, hle => by
    have hpos := List.length_pos_iff.2 hne
    cases h : w.outcomes 0 with
    | none =>
      have hacc := accepted_none h hpos
      have htaken : w.taken p = 0 := congrArg Prod.fst hacc
      rw [sendAllLoop, WriteSide.send_none h, if_neg (by omega), WriteSide.after, htaken,
        List.take_zero, List.append_nil, hacc]
    | some k =>
      have hacc := accepted_some h hpos
      set w' : WriteSide := ⟨w.sent ++ p.take (min p.length (k + 1)), fun i => w.outcomes (i + 1)⟩
        with hw'
      set q := p.drop (min p.length (k + 1)) with hq
      have hqlen : q.length = p.length - (k + 1) := by
        rw [hq, List.length_drop]
        omega
      have htaken : w.taken p = min p.length (k + 1) + w'.taken q := by
        rw [WriteSide.taken, WriteSide.taken, hacc, hqlen]
      have hafter : w.after p = w'.after q := by
        rw [WriteSide.after, WriteSide.after, htaken, hacc, hqlen, List.take_add, List.append_assoc]
      rw [sendAllLoop, WriteSide.send_some h]
      show (if 0 < p.length - min p.length (k + 1) then
        sendAllLoop fuel w' q (done + min p.length (k + 1)) else _) = _
      split_ifs with hmore hall hall
      · rw [sendAllLoop_eq fuel w' q _ (List.ne_nil_of_length_pos (by omega)) (by omega), hafter,
          if_pos (by omega), hqlen]
        congr 2
        omega
      · rw [sendAllLoop_eq fuel w' q _ (List.ne_nil_of_length_pos (by omega)) (by omega), hafter,
          if_neg (by omega)]
      · have hnil : q = [] := List.length_eq_zero_iff.1 (by omega)
        rw [hafter, hnil, WriteSide.after_nil]
        congr 3
        omega
      · have := w.taken_le p
        omega

/-- `__send_all` sends all it is given, or what goes out before a call fails. -/
theorem sendAll_eq (w : WriteSide) {p : List UInt8} (hne : p ≠ []) (rest : Buffer) :
    sendAll w (cells p ++ rest) p.length =
      .ok (if w.taken p = p.length then (p.length : ℤ) else -1, w.after p) := by
  have hpos := List.length_pos_iff.2 hne
  have hassert : hmsAssertNotEquals 0 (p.length : ℤ) = .ok () := assert_of (by omega)
  rw [sendAll, hassert, ok_bind, if_neg (by omega), Int.toNat_natCast, bytesOf_cells, ok_bind,
    sendAllLoop_eq p.length w p 0 hne le_rfl, Nat.zero_add]

/-- The status `-1` tells that not all was sent. -/
theorem failed_eq (w : WriteSide) (p : List UInt8) :
    decide ((if w.taken p = p.length then (p.length : ℤ) else -1) = -1) =
      decide (w.taken p ≠ p.length) := by
  split_ifs with hall
  · simp [hall]
  · simp [hall]

/-! ## The header and the body -/

section Halves

variable {msg : HmsMsg} (w : WriteSide)

theorem sendHeader_eq (hv : msg.verb ≠ none) (hmax : ((encodeHeader msg).length : ℤ) < intMax) :
    sendHeader w msg = .ok (decide (w.taken (encodeHeader msg) ≠ (encodeHeader msg).length),
      w.after (encodeHeader msg)) := by
  obtain ⟨verb, hverb⟩ := Option.ne_none_iff_exists'.1 hv
  have hpos := List.length_pos_iff.2 (encodeHeader_ne_nil msg)
  have hassert : hmsAssertNotEquals 0 ((encodeHeader msg).length : ℤ) = .ok () :=
    assert_of (by omega)
  have hadd : addInt (encodeHeader msg).length 1 = .ok ((encodeHeader msg).length + 1) :=
    addInt_ok (by unfold intMin; omega) (by omega)
  have hserved := malloc_nonneg (x := (encodeHeader msg).length + 1) (by omega) (by omega)
  have hsize : toSize ((encodeHeader msg).length + 1) = (encodeHeader msg).length + 1 := by
    rw [toSize_of_nonneg (by omega) (by omega)]
    omega
  have hbuf : (encodeHeader msg).length ≤
      (Buffer.uninit ((encodeHeader msg).length + 1)).length := by
    simp
  have hprint := printHeader_eq hverb hmax.le hbuf (encodeHeader msg).length
  rw [sendHeader, getHeaderSize_eq hverb, countInt_ok hmax.le, ok_bind, hassert, ok_bind, hadd,
    ok_bind, hserved, ok_bind, assert_of rfl, ok_bind, hsize, hprint, ok_bind]
  show (sendAll w (cells (encodeHeader msg) ++ _) (encodeHeader msg).length >>= fun r =>
    .ok (decide (r.1 = -1), r.2)) = _
  rw [sendAll_eq w (encodeHeader_ne_nil msg), ok_bind]
  exact congrArg Except.ok (Prod.ext (failed_eq w _) rfl)

/-- A header whose size with one more is no `int` overflows. -/
theorem sendHeader_overflow (hv : msg.verb ≠ none)
    (hmax : intMax ≤ ((encodeHeader msg).length : ℤ)) :
    sendHeader w msg = .error .undefined := by
  obtain ⟨verb, hverb⟩ := Option.ne_none_iff_exists'.1 hv
  rw [sendHeader, getHeaderSize_eq hverb]
  by_cases h : ((encodeHeader msg).length : ℤ) ≤ intMax
  · have hassert : hmsAssertNotEquals 0 ((encodeHeader msg).length : ℤ) = .ok () :=
      assert_of (by unfold intMax at hmax; omega)
    have hadd : addInt (encodeHeader msg).length 1 = .error .undefined := if_neg (by omega)
    rw [countInt_ok h, ok_bind, hassert, ok_bind, hadd, error_bind]
  · rw [countInt, if_neg h, error_bind]

/-- The body goes out if it has a byte. -/
theorem sendBody_eq (hb : msg.BodyAgrees) :
    (if msg.contentLen > 0 then sendBody w msg else .ok (false, w)) =
      .ok (decide (w.taken msg.body ≠ msg.body.length), w.after msg.body) := by
  have hlen := hb.length
  by_cases hpos : msg.contentLen > 0
  · have hne : msg.body ≠ [] := fun h => by simp [h] at hlen; omega
    have hcontent : msg.content = some msg.body := by
      cases hc : msg.content with
      | none => simp [HmsMsg.body, hc] at hne
      | some body => simp [HmsMsg.body, hc]
    have hsend := sendAll_eq w hne []
    rw [List.append_nil] at hsend
    rw [if_pos hpos, sendBody, hb.getBody hcontent, ok_bind]
    show (sendAll w (cells msg.body) msg.contentLen >>= _) = _
    rw [hlen, hsend, ok_bind]
    exact congrArg Except.ok (Prod.ext (failed_eq w _) rfl)
  · have hnil : msg.body = [] := List.length_eq_zero_iff.1 (by omega)
    rw [if_neg hpos, hnil]
    simp

end Halves

/-! ## The two send functions -/

section Sends

variable {msg : HmsMsg} (w : WriteSide)

/-- All the bytes of the message go out. -/
def SendsAll (w : WriteSide) (msg : HmsMsg) : Prop :=
  w.taken (encodeHeader msg) = (encodeHeader msg).length ∧
    (w.after (encodeHeader msg)).taken msg.body = msg.body.length

instance (w : WriteSide) (msg : HmsMsg) : Decidable (SendsAll w msg) :=
  inferInstanceAs (Decidable (_ ∧ _))

/-- The socket after the header and the body, each until all is taken or a call fails. -/
def afterMsg (w : WriteSide) (msg : HmsMsg) : WriteSide :=
  (w.after (encodeHeader msg)).after msg.body

theorem endpointSend_of {w w₁ w₂ : WriteSide} {e₁ e₂ : Bool} {n : ℤ}
    (hhdr : sendHeader w msg = .ok (e₁, w₁)) (hsize : hmsMsgGetBodySize msg = .ok n)
    (hbody : (if n > 0 then sendBody w₁ msg else .ok (false, w₁)) = .ok (e₂, w₂)) :
    hmsEndpointSendMsg w msg = .ok (if e₁ || e₂ then -1 else 0, w₂) := by
  unfold hmsEndpointSendMsg
  simp only [hhdr, ok_bind, hsize]
  by_cases hn : n > 0
  · rw [if_pos hn] at hbody ⊢
    rw [hbody]
    rfl
  · rw [if_neg hn, Except.ok.injEq, Prod.mk.injEq] at hbody
    rw [if_neg hn, ← hbody.1, ← hbody.2]
    rfl

theorem connectorSend_of {w w₁ w₂ : WriteSide} {e₁ e₂ : Bool} {n : ℤ}
    (hhdr : sendHeader w msg = .ok (e₁, w₁)) (hsize : hmsMsgGetBodySize msg = .ok n)
    (hbody : (if n > 0 then sendBody w₁ msg else .ok (true, w₁)) = .ok (e₂, w₂)) :
    hmsConnectorSendMsg w msg = .ok (if e₁ || e₂ then -1 else 0, w₂) := by
  unfold hmsConnectorSendMsg
  simp only [hhdr, ok_bind, hsize]
  by_cases hn : n > 0
  · rw [if_pos hn] at hbody ⊢
    rw [hbody]
    rfl
  · rw [if_neg hn, Except.ok.injEq, Prod.mk.injEq] at hbody
    rw [if_neg hn, ← hbody.1, ← hbody.2]
    rfl

/-- `hms_endpoint_send_msg` sends the body whatever became of the header. -/
theorem endpointSend_eq (hv : msg.verb ≠ none) (hb : msg.BodyAgrees)
    (hmax : ((encodeHeader msg).length : ℤ) < intMax) :
    hmsEndpointSendMsg w msg = .ok (if SendsAll w msg then 0 else -1, afterMsg w msg) := by
  rw [endpointSend_of (sendHeader_eq w hv hmax) hb.getBodySize (sendBody_eq _ hb), afterMsg]
  congr 2
  unfold SendsAll
  by_cases h1 : w.taken (encodeHeader msg) = (encodeHeader msg).length <;>
    by_cases h2 : (w.after (encodeHeader msg)).taken msg.body = msg.body.length <;>
      simp [h1, h2]

/-- `hms_connector_send_msg` puts the same bytes on the socket, and reports an error if there
is no body. -/
theorem connectorSend_eq (hv : msg.verb ≠ none) (hb : msg.BodyAgrees)
    (hmax : ((encodeHeader msg).length : ℤ) < intMax) :
    hmsConnectorSendMsg w msg =
      .ok (if SendsAll w msg ∧ msg.body ≠ [] then 0 else -1, afterMsg w msg) := by
  have hhdr := sendHeader_eq w hv hmax
  have hbody := sendBody_eq (w.after (encodeHeader msg)) hb
  have hlen := hb.length
  by_cases hpos : msg.contentLen > 0
  · have hne : msg.body ≠ [] := fun h => by simp [h] at hlen; omega
    rw [if_pos hpos] at hbody
    rw [connectorSend_of hhdr hb.getBodySize ((if_pos hpos).trans hbody), afterMsg]
    congr 2
    unfold SendsAll
    by_cases h1 : w.taken (encodeHeader msg) = (encodeHeader msg).length <;>
      by_cases h2 : (w.after (encodeHeader msg)).taken msg.body = msg.body.length <;>
        simp [h1, h2, hne]
  · have hnil : msg.body = [] := List.length_eq_zero_iff.1 (by omega)
    rw [connectorSend_of hhdr hb.getBodySize (if_neg hpos), afterMsg, hnil, WriteSide.after_nil]
    simp

theorem endpointSend_overflow (hv : msg.verb ≠ none)
    (hmax : intMax ≤ ((encodeHeader msg).length : ℤ)) :
    hmsEndpointSendMsg w msg = .error .undefined := by
  rw [hmsEndpointSendMsg, sendHeader_overflow w hv hmax, error_bind]

theorem connectorSend_overflow (hv : msg.verb ≠ none)
    (hmax : intMax ≤ ((encodeHeader msg).length : ℤ)) :
    hmsConnectorSendMsg w msg = .error .undefined := by
  rw [hmsConnectorSendMsg, sendHeader_overflow w hv hmax, error_bind]

/-! ## What is on the socket -/

/-- The bytes of the message that go out. -/
def sentBytes (w : WriteSide) (msg : HmsMsg) : List UInt8 :=
  (encodeHeader msg).take (w.taken (encodeHeader msg)) ++
    msg.body.take ((w.after (encodeHeader msg)).taken msg.body)

theorem sent_afterMsg (msg : HmsMsg) : (afterMsg w msg).sent = w.sent ++ sentBytes w msg := by
  rw [afterMsg, WriteSide.sent_after, WriteSide.sent_after, List.append_assoc, sentBytes]

/-- If no `send` fails the message goes out, and no later `send` fails. -/
theorem sent_afterMsg_of_forall {w : WriteSide} (h : ∀ i, w.outcomes i ≠ none) (msg : HmsMsg) :
    (afterMsg w msg).sent = w.sent ++ encode msg ∧
      ∀ i, (afterMsg w msg).outcomes i ≠ none := by
  have hafter := WriteSide.outcomes_after h (encodeHeader msg)
  refine ⟨?_, WriteSide.outcomes_after hafter msg.body⟩
  rw [sent_afterMsg, sentBytes, WriteSide.taken_of_forall h, WriteSide.taken_of_forall hafter,
    List.take_length, List.take_length, encode]

theorem sendsAll_iff (msg : HmsMsg) : SendsAll w msg ↔ sentBytes w msg = encode msg := by
  constructor
  · rintro ⟨h1, h2⟩
    rw [sentBytes, h1, h2, List.take_length, List.take_length, encode]
  · intro h
    have hlen := congrArg List.length h
    have h1 := w.taken_le (encodeHeader msg)
    have h2 := (w.after (encodeHeader msg)).taken_le msg.body
    rw [sentBytes, encode, List.length_append, List.length_append, List.length_take,
      List.length_take] at hlen
    exact ⟨by omega, by omega⟩

/-- What goes out is a prefix of the message if the bytes of the body continue the header
where it broke off. -/
theorem sentBytes_prefix_iff (msg : HmsMsg) : sentBytes w msg <+: encode msg ↔
    msg.body.take ((w.after (encodeHeader msg)).taken msg.body) <+:
      (encode msg).drop (w.taken (encodeHeader msg)) := by
  have hsplit : encode msg = (encodeHeader msg).take (w.taken (encodeHeader msg)) ++
      (encode msg).drop (w.taken (encodeHeader msg)) := by
    conv_lhs => rw [← List.take_append_drop (w.taken (encodeHeader msg)) (encode msg)]
    rw [encode, List.take_append_of_le_length (w.taken_le _)]
  conv_lhs => rw [hsplit, sentBytes]
  exact List.prefix_append_right_inj _

/-- The endpoint's stream is a prefix of the message, all of it exactly for the status `0`, if
the header goes out whole, or what goes out of the body continues it where it broke off. -/
theorem endpointSend_uncorrupted (hv : msg.verb ≠ none) (hb : msg.BodyAgrees) (w : WriteSide) :
    (∃ ret w' p, hmsEndpointSendMsg w msg = .ok (ret, w') ∧ w'.sent = w.sent ++ p ∧
      p <+: encode msg ∧ (ret = 0 ↔ p = encode msg)) ↔
    ((encodeHeader msg).length : ℤ) < intMax ∧
      (w.taken (encodeHeader msg) = (encodeHeader msg).length ∨
        msg.body.take ((w.after (encodeHeader msg)).taken msg.body) <+:
          (encode msg).drop (w.taken (encodeHeader msg))) := by
  constructor
  · rintro ⟨ret, w', p, hrun, hsent, hpre, -⟩
    have hmax : ((encodeHeader msg).length : ℤ) < intMax := by
      by_contra h
      rw [endpointSend_overflow w hv (by omega)] at hrun
      simp at hrun
    rw [endpointSend_eq w hv hb hmax, Except.ok.injEq, Prod.mk.injEq] at hrun
    rw [← hrun.2, sent_afterMsg, List.append_cancel_left_eq] at hsent
    refine ⟨hmax, Or.inr ((sentBytes_prefix_iff w msg).1 ?_)⟩
    rwa [hsent]
  · rintro ⟨hmax, hcont⟩
    refine ⟨_, _, sentBytes w msg, endpointSend_eq w hv hb hmax, sent_afterMsg w msg, ?_, ?_⟩
    · rw [sentBytes_prefix_iff]
      rcases hcont with hall | hcont
      · rw [hall, encode, List.drop_left]
        exact List.take_prefix _ _
      · exact hcont
    · rw [← sendsAll_iff]
      split_ifs with hall
      · simp [hall]
      · simp [hall]

/-- A message with a short body. -/
def helloMsg : HmsMsg :=
  withBody (hmsMsgSetVerb hmsMsgCreate (CString.ofBytes (ascii "SAY"))) (ascii "hello")

theorem bodyAgrees_helloMsg : helloMsg.BodyAgrees :=
  BodyAgrees.withBody (bodyless_create.readWords (ascii "SAY") []).distinct (by decide)

theorem length_encodeHeader_helloMsg : (encodeHeader helloMsg).length = 23 := by
  decide

/-- A socket whose next `send` ends as `first` says and whose others take up to 1000 bytes. -/
def thenOpen (first : Option ℕ) : WriteSide :=
  ⟨[], fun i => if i = 0 then first else some 999⟩

theorem endpointSend_uncorrupted_helloMsg : ∃ ret w' p,
    hmsEndpointSendMsg (thenOpen (some 999)) helloMsg = .ok (ret, w') ∧
      w'.sent = (thenOpen (some 999)).sent ++ p ∧ p <+: encode helloMsg ∧
      (ret = 0 ↔ p = encode helloMsg) := by
  refine (endpointSend_uncorrupted (by decide) bodyAgrees_helloMsg (thenOpen (some 999))).2 ⟨?_, ?_⟩
  · rw [length_encodeHeader_helloMsg]
    decide
  · left
    rw [WriteSide.taken, length_encodeHeader_helloMsg, accepted_some (k := 999) rfl (by decide),
      accepted_zero]
    rfl

/-- If the header fails and the next call does not, the body goes out alone. -/
theorem endpointSend_uncorrupted_lostHeader : helloMsg.verb ≠ none ∧ helloMsg.BodyAgrees ∧
    ∃ w', hmsEndpointSendMsg (thenOpen none) helloMsg = .ok (-1, w') ∧
      w'.sent = (thenOpen none).sent ++ ascii "hello" ∧
      ¬ascii "hello" <+: encode helloMsg := by
  have hrun : (hmsEndpointSendMsg (thenOpen none) helloMsg).map (fun r => (r.1, r.2.sent)) =
      .ok (-1, ascii "hello") := by
    decide
  obtain ⟨⟨ret, w'⟩, hsend, hr⟩ := map_eq_ok.1 hrun
  obtain ⟨rfl, hsent⟩ := Prod.mk.inj hr
  exact ⟨by decide, bodyAgrees_helloMsg, w', hsend, hsent, by decide⟩

/-- The connector agrees with the endpoint if there is a body, or if the header fails. -/
theorem connectorSend_agrees (hv : msg.verb ≠ none) (hb : msg.BodyAgrees) (w : WriteSide) :
    (∃ ret e c, hmsEndpointSendMsg w msg = .ok (ret, e) ∧
      hmsConnectorSendMsg w msg = .ok (ret, c) ∧ e.sent = c.sent ∧
      (e.sent = w.sent ++ encode msg → ret = 0)) ↔
    ((encodeHeader msg).length : ℤ) < intMax ∧
      (msg.body ≠ [] ∨ w.taken (encodeHeader msg) < (encodeHeader msg).length) := by
  constructor
  · rintro ⟨ret, e, c, hendpoint, hconnector, -, -⟩
    have hmax : ((encodeHeader msg).length : ℤ) < intMax := by
      by_contra h
      rw [endpointSend_overflow w hv (by omega)] at hendpoint
      simp at hendpoint
    refine ⟨hmax, or_iff_not_imp_left.2 fun hbody => ?_⟩
    rw [endpointSend_eq w hv hb hmax, Except.ok.injEq, Prod.mk.injEq] at hendpoint
    rw [connectorSend_eq w hv hb hmax, Except.ok.injEq, Prod.mk.injEq,
      if_neg fun h => hbody h.2] at hconnector
    -- the connector failed, so the endpoint did, and only the header can fail
    have hfail : ¬SendsAll w msg := fun hall => by
      rw [if_pos hall] at hendpoint
      omega
    have hnil : msg.body = [] := not_not.1 hbody
    have hle := w.taken_le (encodeHeader msg)
    refine lt_of_le_of_ne hle fun hhdr => hfail ⟨hhdr, ?_⟩
    rw [hnil, WriteSide.taken_nil]
    rfl
  · rintro ⟨hmax, hcase⟩
    have hsame : (if SendsAll w msg ∧ msg.body ≠ [] then (0 : ℤ) else -1) =
        if SendsAll w msg then 0 else -1 := by
      refine if_congr ⟨fun h => h.1, fun hall => ⟨hall, ?_⟩⟩ rfl rfl
      rcases hcase with hbody | hhdr
      · exact hbody
      · exact absurd hall.1 hhdr.ne
    have hconnector := connectorSend_eq w hv hb hmax
    rw [hsame] at hconnector
    refine ⟨_, _, _, endpointSend_eq w hv hb hmax, hconnector, rfl, fun hsent => ?_⟩
    rw [sent_afterMsg, List.append_cancel_left_eq] at hsent
    exact if_pos ((sendsAll_iff w msg).2 hsent)

theorem connectorSend_agrees_helloMsg : ∃ ret e c,
    hmsEndpointSendMsg (thenOpen none) helloMsg = .ok (ret, e) ∧
      hmsConnectorSendMsg (thenOpen none) helloMsg = .ok (ret, c) ∧ e.sent = c.sent ∧
      (e.sent = (thenOpen none).sent ++ encode helloMsg → ret = 0) := by
  refine (connectorSend_agrees (by decide) bodyAgrees_helloMsg (thenOpen none)).2 ⟨?_, ?_⟩
  · rw [length_encodeHeader_helloMsg]
    decide
  · left
    decide

/-- The connector sends a message without a body and reports an error. -/
theorem connectorSend_agrees_bodyless : ∃ (msg : HmsMsg) (w e c : WriteSide),
    msg.verb ≠ none ∧ msg.BodyAgrees ∧ hmsEndpointSendMsg w msg = .ok (0, e) ∧
      hmsConnectorSendMsg w msg = .ok (-1, c) ∧ e.sent = encode msg ∧ c.sent = encode msg := by
  have hendpoint : (hmsEndpointSendMsg (thenOpen (some 999)) (headerMsg [ascii "PING"])).map
      (fun r => (r.1, r.2.sent)) = .ok (0, encode (headerMsg [ascii "PING"])) := by
    decide
  have hconnector : (hmsConnectorSendMsg (thenOpen (some 999)) (headerMsg [ascii "PING"])).map
      (fun r => (r.1, r.2.sent)) = .ok (-1, encode (headerMsg [ascii "PING"])) := by
    decide
  obtain ⟨⟨ret, e⟩, he, hr⟩ := map_eq_ok.1 hendpoint
  obtain ⟨rfl, hsent⟩ := Prod.mk.inj hr
  obtain ⟨⟨ret, c⟩, hc, hr⟩ := map_eq_ok.1 hconnector
  obtain ⟨rfl, hsent'⟩ := Prod.mk.inj hr
  exact ⟨_, _, e, c, by decide, bodyless_headerMsg.bodyAgrees rfl, he, hc, hsent, hsent'⟩

end Sends

/-! ## The header goes out -/

/-- `hms_msg_get_header_size` is the length of the text of the header, and
`hms_msg_print_header` writes this text, which has no NUL, from the start of the buffer on and
nothing else. -/
structure HmsMsg.PrintsHeader (msg : HmsMsg) : Prop where
  size : hmsMsgGetHeaderSize msg = .ok (encodeHeader msg).length
  noNul : nul ∉ encodeHeader msg
  print : ∀ (buffer : Buffer) (len : ℤ), (encodeHeader msg).length ≤ buffer.length →
    hmsMsgPrintHeader msg buffer len =
      .ok (0, cells (encodeHeader msg) ++ buffer.drop (encodeHeader msg).length)

/-- The send functions put the text of the header on the socket and nothing else before the
body, all of it unless a `send` fails. -/
structure HmsMsg.SendsHeader (msg : HmsMsg) : Prop where
  header : ∀ w, ∃ failed w' sent, sendHeader w msg = .ok (failed, w') ∧
    w'.sent = w.sent ++ sent ∧ sent <+: encodeHeader msg ∧
    (failed = false ↔ sent = encodeHeader msg) ∧
    ((∀ i, w.outcomes i ≠ none) → sent = encodeHeader msg)
  endpoint : msg.BodyAgrees → ∀ w, (∀ i, w.outcomes i ≠ none) →
    ∃ ret w', hmsEndpointSendMsg w msg = .ok (ret, w') ∧
      w'.sent = w.sent ++ encodeHeader msg ++ msg.body
  connector : msg.BodyAgrees → ∀ w, (∀ i, w.outcomes i ≠ none) →
    ∃ ret w', hmsConnectorSendMsg w msg = .ok (ret, w') ∧
      w'.sent = w.sent ++ encodeHeader msg ++ msg.body

section HeaderOut

variable {msg : HmsMsg}

theorem printsHeader (hv : msg.verb ≠ none) (hmax : (encodeHeader msg).length < 2 ^ 31) :
    msg.PrintsHeader := by
  obtain ⟨verb, hverb⟩ := Option.ne_none_iff_exists'.1 hv
  have hle : ((encodeHeader msg).length : ℤ) ≤ intMax := by
    unfold intMax
    omega
  refine ⟨?_, nul_not_mem_encodeHeader msg, fun buffer len hbuf => ?_⟩
  · rw [getHeaderSize_eq hverb, countInt_ok hle]
  · exact printHeader_eq hverb hle hbuf len

theorem sendsHeader (hv : msg.verb ≠ none) (hmax : ((encodeHeader msg).length : ℤ) < intMax) :
    msg.SendsHeader := by
  have hsent : ∀ w : WriteSide, (∀ i, w.outcomes i ≠ none) →
      (afterMsg w msg).sent = w.sent ++ encodeHeader msg ++ msg.body := fun w hw => by
    rw [(sent_afterMsg_of_forall hw msg).1, encode, List.append_assoc]
  refine ⟨fun w => ?_, fun hb w hw => ?_, fun hb w hw => ?_⟩
  · have hle := w.taken_le (encodeHeader msg)
    refine ⟨_, _, (encodeHeader msg).take (w.taken (encodeHeader msg)), sendHeader_eq w hv hmax,
      w.sent_after _, List.take_prefix _ _, ?_, fun hw => ?_⟩
    · rw [List.take_eq_self_iff]
      simp only [decide_eq_false_iff_not, not_not]
      omega
    · rw [WriteSide.taken_of_forall hw, List.take_length]
  · exact ⟨_, _, endpointSend_eq w hv hb hmax, hsent w hw⟩
  · exact ⟨_, _, connectorSend_eq w hv hb hmax, hsent w hw⟩

/-- The header is printed as computed and sent as printed, unless its size is `INT_MAX` : then
the size of the buffer for it is no `int`. -/
theorem header_printed_sent (hv : msg.verb ≠ none) (hmax : (encodeHeader msg).length < 2 ^ 31) :
    msg.PrintsHeader ∧ msg.SendsHeader ↔ (encodeHeader msg).length ≠ 2 ^ 31 - 1 := by
  constructor
  · rintro ⟨-, hsends⟩ hlen
    obtain ⟨failed, w', sent, hrun, -⟩ := hsends.header ⟨[], fun _ => none⟩
    rw [sendHeader_overflow _ hv (by unfold intMax; omega)] at hrun
    cases hrun
  · intro hlen
    exact ⟨printsHeader hv hmax, sendsHeader hv (by unfold intMax; omega)⟩

theorem header_printed_sent_helloMsg : helloMsg.PrintsHeader ∧ helloMsg.SendsHeader := by
  have hlen := length_encodeHeader_helloMsg
  exact (header_printed_sent (by decide) (by omega)).2 (by omega)

/-- A message with a verb of `n` letters and nothing else. -/
def longVerb (n : ℕ) : HmsMsg :=
  hmsMsgSetVerb hmsMsgCreate ⟨List.replicate n 65, fun h => by
    simpa [nul] using (List.mem_replicate.1 h).2⟩

theorem length_encodeHeader_longVerb (n : ℕ) : (encodeHeader (longVerb n)).length = n + 3 := by
  rw [length_encodeHeader _ rfl]
  simp [CString.length, hmsMsgSetVerb, hmsMsgCreate, longVerb]

/-- A header of `INT_MAX` bytes can be printed and not sent. -/
theorem header_printed_sent_intMax : ∃ msg : HmsMsg, msg.verb ≠ none ∧
    (encodeHeader msg).length = 2 ^ 31 - 1 ∧ msg.PrintsHeader ∧
    (∀ w, hmsEndpointSendMsg w msg = .error .undefined) ∧
    (∀ w, hmsConnectorSendMsg w msg = .error .undefined) ∧ ¬msg.SendsHeader := by
  have hlen : (encodeHeader (longVerb (2 ^ 31 - 4))).length = 2 ^ 31 - 1 :=
    length_encodeHeader_longVerb _
  have hv : (longVerb (2 ^ 31 - 4)).verb ≠ none := Option.some_ne_none _
  have hmax : intMax ≤ ((encodeHeader (longVerb (2 ^ 31 - 4))).length : ℤ) := by
    rw [hlen]
    decide
  refine ⟨_, hv, hlen, printsHeader hv (by omega), fun w => endpointSend_overflow w hv hmax,
    fun w => connectorSend_overflow w hv hmax, fun hsends => ?_⟩
  obtain ⟨failed, w', sent, hrun, -⟩ := hsends.header ⟨[], fun _ => none⟩
  rw [sendHeader_overflow _ hv hmax] at hrun
  cases hrun

end HeaderOut

/-! ## Parsed messages can be sent -/

/-- A message that can be printed and sent : no assertion fails. -/
structure Sendable (msg : HmsMsg) : Prop where
  verb : ∃ verb, msg.verb = some verb ∧ verb.bytes ≠ []
  size : ∃ n, hmsMsgGetHeaderSize msg = .ok n ∧ n ≠ 0
  print : ∀ (n : ℤ) (buffer : Buffer) (len : ℤ), hmsMsgGetHeaderSize msg = .ok n →
    n ≤ buffer.length → hmsMsgPrintHeader msg buffer len ≠ .error .assertion
  endpoint : ∀ w, hmsEndpointSendMsg w msg ≠ .error .assertion
  connector : ∀ w, hmsConnectorSendMsg w msg ≠ .error .assertion

theorem Decodes.sendable {s left : List UInt8} {f : Frame s} {msg : HmsMsg}
    (h : Decodes f msg left) (hf : (f.size : ℤ) < intMax) (hv : msg.verb ≠ none) :
    Sendable msg := by
  obtain ⟨verb, hverb⟩ := Option.ne_none_iff_exists'.1 hv
  have hlen := (h.length_encodeHeader hv).1
  have hpos := List.length_pos_iff.2 (encodeHeader_ne_nil msg)
  have hsize := getHeaderSize_eq hverb
  rw [countInt_ok (by omega)] at hsize
  refine ⟨⟨verb, hverb, ?_⟩, ⟨_, hsize, by omega⟩, fun n buffer len hn hbuf => ?_, fun w => ?_,
    fun w => ?_⟩
  · exact (h.tidy.words verb (by simp [HmsMsg.words, hverb])).1
  · rw [hsize, Except.ok.injEq] at hn
    rw [printHeader_eq hverb (by omega) (by omega)]
    simp
  · by_cases hmax : ((encodeHeader msg).length : ℤ) < intMax
    · simp [endpointSend_eq w hv h.bodyAgrees hmax]
    · simp [endpointSend_overflow w hv (by omega)]
  · by_cases hmax : ((encodeHeader msg).length : ℤ) < intMax
    · simp [connectorSend_eq w hv h.bodyAgrees hmax]
    · simp [connectorSend_overflow w hv (by omega)]

/-- A parsed message can be sent if its header has a byte other than a newline in front of its
period and of any NUL. -/
theorem parsed_sendable {sock sock' : ReadSide} {maxHdrLen : ℤ} {msg : HmsMsg}
    (hparse : hmsMsgParse sock maxHdrLen = .ok (some msg, sock')) :
    ∃ f : Frame sock.unread, (f.size : ℤ) ≤ maxHdrLen ∧
      (Sendable msg ↔ ∃ c ∈ beforeNul f.parsed, c ≠ newline) := by
  obtain ⟨⟨-, hmax⟩, f, hf, hdec⟩ := decode_eq_some.1 (hmsMsgParse_ok_iff.1 ⟨sock', hparse, rfl⟩)
  have hverb : msg.verb ≠ none ↔ ∃ c ∈ beforeNul f.parsed, c ≠ newline := by
    rw [Ne, hdec.verb_eq_none, headerLines, tokens_eq_nil_iff]
    push Not
    simp [lineSep]
  refine ⟨f, hf, ?_⟩
  rw [← hverb]
  constructor
  · intro h h0
    obtain ⟨verb, hverb, -⟩ := h.verb
    simp [h0] at hverb
  · exact hdec.sendable (by omega)

theorem parsed_sendable_ping : ∃ (msg : HmsMsg) (sock' : ReadSide),
    hmsMsgParse ⟨ascii "PING\n.\n", fun _ => 0⟩ hermesMaxHdrSize = .ok (some msg, sock') ∧
      Sendable msg := by
  have hrun : (hmsMsgParse ⟨ascii "PING\n.\n", fun _ => 0⟩ hermesMaxHdrSize).map Prod.fst =
      .ok (some (headerMsg [ascii "PING"])) := by
    decide
  obtain ⟨sock', hparse⟩ := exists_of_map_fst hrun
  obtain ⟨f, -, hf⟩ := parsed_sendable hparse
  have hparsed : f.parsed = (unlines [ascii "PING"]).map crToSpace :=
    parsed_unlines f (t := []) rfl (by decide)
  exact ⟨_, sock', hparse, hf.2 ⟨80, by rw [hparsed]; decide, by decide⟩⟩

/-- A header of newlines is a message without a verb, and sending it fails an assertion. -/
theorem parsed_sendable_noVerb : ∃ (msg : HmsMsg) (sock' : ReadSide),
    hmsMsgParse ⟨ascii "\n.\n", fun _ => 0⟩ hermesMaxHdrSize = .ok (some msg, sock') ∧
      msg.verb = none ∧ hmsMsgGetHeaderSize msg = .ok 0 ∧
      hmsMsgPrintHeader msg (Buffer.uninit 1024) 1024 = .error .assertion ∧
      (∀ w, hmsEndpointSendMsg w msg = .error .assertion) ∧
      ∀ w, hmsConnectorSendMsg w msg = .error .assertion := by
  have hrun : (hmsMsgParse ⟨ascii "\n.\n", fun _ => 0⟩ hermesMaxHdrSize).map Prod.fst =
      .ok (some hmsMsgCreate) := by
    decide
  obtain ⟨sock', hparse⟩ := exists_of_map_fst hrun
  exact ⟨_, sock', hparse, rfl, rfl, by decide, fun _ => rfl, fun _ => rfl⟩

end Hermes
