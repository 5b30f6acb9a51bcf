import Hermes.Linked
import Hermes.Operations

/-!
# Histories in memory

A call on a message in memory does what the call of `Operations` does to the message it models
(`apply_models`), and returns if that one does (`apply_returns`). So every history in memory
models one of those (`history_models`), each of them is one in memory (`history_returns`), and
what is proved of them holds of the lists with their nodes.

After any history the unnamed headers are the list that the additions and deletions left,
`hms_msg_get_header` reads it at every index, `hms_msg_del_header` takes out what stands there,
and the counter is its length (`headers_history`).
-/

open CLib

namespace Hermes

/-! ## The list of the unnamed headers -/

/-- The unnamed headers after a call. -/
def headersAfter (hdrs : List CString) : MsgOp → List CString
  | .addHeader value => hdrs ++ [value]
  | .delHeader index =>
    if 0 ≤ index ∧ index < hdrs.length then hdrs.eraseIdx index.toNat else hdrs
  | _ => hdrs

theorem MsgOp.Reads.headersAfter {op : MsgOp} (h : op.Reads) (hdrs : List CString) :
    Hermes.headersAfter hdrs op = hdrs := by
  cases op <;> first | rfl | exact absurd h id

/-- An index that is refused, and one in range, when the counter is the length of the list. -/
theorem HmsMsg.Counted.index_iff {msg : HmsMsg} (h : msg.Counted) (index : ℤ) :
    ¬(msg.numHeaders ≤ 0 ∨ index < 0 ∨ index ≥ msg.numHeaders) ↔
      0 ≤ index ∧ index < msg.headers.length := by
  rw [h.headers]
  omega

/-- Deleting the body leaves the headers alone. -/
theorem headers_delBody {msg m : HmsMsg} (h : hmsMsgDelBody msg = .ok m) :
    m.headers = msg.headers := by
  rcases delBody_eq_ok h with ⟨-, rfl⟩ | ⟨-, rfl⟩
  · rfl
  · exact (delNamedHeader_frame _ _).2.1.trans (delNamedHeader_frame _ _).2.1

theorem headers_effect {msg m : HmsMsg} {op : MsgOp} (hc : msg.Counted) (hop : op.Effect msg m) :
    m.headers = headersAfter msg.headers op := by
  cases hop with
  | read hreads => rw [hreads.headersAfter]
  | setVerb => rfl
  | addHeader => rfl
  | @delHeader index =>
    have hindex := hc.index_iff index
    rw [hmsMsgDelHeader, headersAfter]
    by_cases hin : 0 ≤ index ∧ index < msg.headers.length
    · rw [if_neg (hindex.2 hin), if_pos hin, if_pos (by omega)]
    · rw [if_pos (not_not.1 fun h => hin (hindex.1 h)), if_neg hin]
  | addNamedHeader => exact headers_addNamedHeader _ _ _
  | delNamedHeader => exact (delNamedHeader_frame _ _).2.1
  | setBody hset =>
    obtain ⟨m', copy, hdel, rfl⟩ := setBody_eq_ok hset
    have hdel' : m'.headers = msg.headers := headers_delBody hdel
    exact (headers_addNamedHeader _ _ _).trans hdel'
  | delBody hdel => exact headers_delBody hdel

/-- After a history the unnamed headers are what its calls left. -/
theorem headers_run {start msg : HmsMsg} {events : List HdrEvent} (h : start.Follows events)
    {log : List (HmsMsg × MsgOp)} (hlog : Trace MsgOp.next start log msg) :
    msg.headers = (log.map Prod.snd).foldl headersAfter start.headers := by
  induction hlog with
  | start => rfl
  | next hlog hstep ih =>
    have heffect := headers_effect (h.run hlog).counted (effect_of_apply (next_eq_some.1 hstep))
    rw [heffect, ih]
    simp

/-! ## Calls in memory -/

namespace Linked

/-- A message whose counters are still in the range of `int`. -/
def checkCounters (m : HmsMsg) : Run HmsMsg :=
  if m.numHeaders ≤ intMax ∧ m.numNamedHeaders ≤ intMax then .ok m else .error .undefined

/-- The message after a call. If it makes a node, the allocator gives the address `a`. -/
def apply (m : HmsMsg) (op : MsgOp) (a : ℕ) : Run HmsMsg :=
  match op with
  | .getHeaderSize => do
    let _ ← hmsMsgGetHeaderSize m
    return m
  | .printHeader buffer len => do
    let _ ← hmsMsgPrintHeader m buffer len
    return m
  | .setVerb verb => .ok (hmsMsgSetVerb m verb)
  | .addHeader value => do checkCounters (← hmsMsgAddHeader m value a)
  | .getHeader index => do
    let _ ← hmsMsgGetHeader m index
    return m
  | .delHeader index => do
    let (_, m) ← hmsMsgDelHeader m index
    return m
  | .addNamedHeader key value => do checkCounters (← hmsMsgAddNamedHeader m key value a)
  | .getNamedHeader key => do
    let _ ← hmsMsgGetNamedHeader m key
    return m
  | .delNamedHeader key => hmsMsgDelNamedHeader m key
  | .getBodySize => do
    let _ ← hmsMsgGetBodySize m
    return m
  | .getBody => do
    let _ ← hmsMsgGetBody m
    return m
  | .setBody data len => do checkCounters (← hmsMsgSetBody m (cells data) len a)
  | .delBody => hmsMsgDelBody m
  | .getVerb | .numHeaders | .numNamedHeaders => .ok m

/-- The message after a call that returns, with the address the allocator gives. -/
def next (m : HmsMsg) (act : MsgOp × ℕ) : Option HmsMsg :=
  (apply m act.1 act.2).toOption

theorem next_eq_some {m m' : HmsMsg} {act : MsgOp × ℕ} :
    next m act = some m' ↔ apply m act.1 act.2 = .ok m' := by
  unfold next
  cases apply m act.1 act.2 <;> simp [Except.toOption]

section Models

variable {m m' : HmsMsg} {msg : Hermes.HmsMsg}

theorem checkCounters_models {m₁ : HmsMsg} {msg₁ : Hermes.HmsMsg} (h : m₁.Models msg₁)
    (hrun : checkCounters m₁ = .ok m') : ∃ msg', Hermes.checkCounters msg₁ = .ok msg' ∧
      m'.Models msg' := by
  unfold checkCounters at hrun
  split_ifs at hrun with hle
  cases hrun
  rw [h.numHeaders, h.numNamedHeaders] at hle
  exact ⟨msg₁, if_pos hle, h⟩

/-- A call that returns does to the message in memory what it does to the message. -/
theorem apply_models (h : m.Models msg) {op : MsgOp} {a : ℕ} (hrun : apply m op a = .ok m') :
    ∃ msg', op.apply msg = .ok msg' ∧ m'.Models msg' := by
  have hread : ∀ {α : Type} {x y : Run α}, x = y → (x >>= fun _ => .ok m) = .ok m' →
      ∃ msg', (y >>= fun _ => .ok msg) = .ok msg' ∧ m'.Models msg' := by
    rintro α x y rfl hx
    obtain ⟨b, hb, hx⟩ := bind_eq_ok.1 hx
    cases hx
    exact ⟨msg, by rw [hb, ok_bind], h⟩
  cases op with
  | getHeaderSize => exact hread h.getHeaderSize hrun
  | printHeader buffer len => exact hread (h.printHeader buffer len) hrun
  | getHeader index => exact hread (h.getHeader index) hrun
  | getNamedHeader key => exact hread (h.getNamedHeader key) hrun
  | getBodySize => exact hread h.getBodySize hrun
  | getBody => exact hread h.getBody hrun
  | getVerb | numHeaders | numNamedHeaders =>
    cases hrun
    exact ⟨msg, rfl, h⟩
  | setVerb verb =>
    cases hrun
    exact ⟨_, rfl, rfl, h.headers, h.numHeaders, h.namedHeaders, h.numNamedHeaders, h.contentLen,
      h.content⟩
  | addHeader value =>
    obtain ⟨m₁, hadd, hrun⟩ := bind_eq_ok.1 hrun
    exact checkCounters_models (h.addHeader hadd) hrun
  | delHeader index =>
    obtain ⟨m₁, hdel, h₁⟩ := h.delHeader index
    obtain ⟨r, hr, hrun⟩ := bind_eq_ok.1 hrun
    rw [hdel] at hr
    cases hr
    cases hrun
    exact ⟨_, rfl, h₁⟩
  | addNamedHeader key value =>
    obtain ⟨m₁, hadd, hrun⟩ := bind_eq_ok.1 hrun
    exact checkCounters_models (h.addNamedHeader hadd) hrun
  | delNamedHeader key =>
    obtain ⟨m₁, hdel, h₁⟩ := h.delNamedHeader key
    rw [apply, hdel] at hrun
    cases hrun
    exact ⟨_, rfl, h₁⟩
  | setBody data len =>
    obtain ⟨m₁, hset, hrun⟩ := bind_eq_ok.1 hrun
    obtain ⟨msg₁, hset', h₁⟩ := h.setBody hset
    obtain ⟨msg', hcheck, h'⟩ := checkCounters_models h₁ hrun
    exact ⟨msg', by rw [MsgOp.apply, hset', ok_bind, hcheck], h'⟩
  | delBody =>
    have hdel := h.delBody
    rw [show hmsMsgDelBody m = .ok m' from hrun] at hdel
    exact hdel.ok_left

/-- A call returns in memory if it returns on the message and the allocator serves it. -/
theorem apply_returns (h : m.Models msg) {op : MsgOp} {msg' : Hermes.HmsMsg}
    (hop : op.apply msg = .ok msg') : ∃ a m', apply m op a = .ok m' := by
  have hread : ∀ {α : Type} {x y : Run α}, x = y → (y >>= fun _ => .ok msg) = .ok msg' →
      ∃ a : ℕ, ∃ m', (x >>= fun _ => .ok m) = .ok m' := by
    rintro α x y rfl hx
    obtain ⟨b, hb, -⟩ := bind_eq_ok.1 hx
    exact ⟨0, m, by rw [hb, ok_bind]⟩
  have hcheck : ∀ {m₁ msg₁}, HmsMsg.Models m₁ msg₁ → Hermes.checkCounters msg₁ = .ok msg' →
      checkCounters m₁ = .ok m₁ := fun h₁ hrun => by
    obtain ⟨hle, -⟩ := checkCounters_eq_ok.1 hrun
    rw [← h₁.numHeaders, ← h₁.numNamedHeaders] at hle
    exact if_pos hle
  cases op with
  | getHeaderSize => exact hread h.getHeaderSize hop
  | printHeader buffer len => exact hread (h.printHeader buffer len) hop
  | getHeader index => exact hread (h.getHeader index) hop
  | getNamedHeader key => exact hread (h.getNamedHeader key) hop
  | getBodySize => exact hread h.getBodySize hop
  | getBody => exact hread h.getBody hop
  | getVerb | numHeaders | numNamedHeaders | setVerb verb => exact ⟨0, _, rfl⟩
  | addHeader value =>
    obtain ⟨a, ha⟩ := m.headers.exists_free
    obtain ⟨m₁, hadd⟩ := h.addHeader_returns ha value
    exact ⟨a, m₁, bind_eq_ok.2 ⟨m₁, hadd, hcheck (h.addHeader hadd) hop⟩⟩
  | delHeader index =>
    obtain ⟨m₁, hdel, -⟩ := h.delHeader index
    exact ⟨0, m₁, bind_eq_ok.2 ⟨_, hdel, rfl⟩⟩
  | addNamedHeader key value =>
    obtain ⟨a, m₁, hadd⟩ := h.addNamedHeader_returns key value
    exact ⟨a, m₁, bind_eq_ok.2 ⟨m₁, hadd, hcheck (h.addNamedHeader hadd) hop⟩⟩
  | delNamedHeader key =>
    obtain ⟨m₁, hdel, -⟩ := h.delNamedHeader key
    exact ⟨0, m₁, hdel⟩
  | setBody data len =>
    obtain ⟨msg₁, hset, hop⟩ := bind_eq_ok.1 hop
    obtain ⟨a, m₁, hrun⟩ := h.setBody_returns hset
    obtain ⟨msg₂, hset', h₁⟩ := h.setBody hrun
    rw [hset] at hset'
    cases hset'
    exact ⟨a, m₁, bind_eq_ok.2 ⟨m₁, hrun, hcheck h₁ hop⟩⟩
  | delBody =>
    have hdel := h.delBody
    rw [show Hermes.hmsMsgDelBody msg = .ok msg' from hop] at hdel
    obtain ⟨m₁, hrun, -⟩ := hdel.ok_right
    exact ⟨0, m₁, hrun⟩

/-- A history in memory models a history of the same calls. -/
theorem history_models (h : m.Models msg) {log : List (HmsMsg × (MsgOp × ℕ))}
    (hlog : Trace next m log m') : ∃ log' msg', Trace MsgOp.next msg log' msg' ∧
      log'.map Prod.snd = log.map (fun e => e.2.1) ∧ m'.Models msg' := by
  refine hlog.simulate (fun t t' a u ht hu => ?_) h
  obtain ⟨u', hu', hmodels⟩ := apply_models ht (next_eq_some.1 hu)
  exact ⟨u', Hermes.next_eq_some.2 hu', hmodels⟩

/-- Every history has one in memory that models it. -/
theorem history_returns (h : m.Models msg) {msg' : Hermes.HmsMsg}
    {log : List (Hermes.HmsMsg × MsgOp)} (hlog : Trace MsgOp.next msg log msg') :
    ∃ log' m', Trace next m log' m' ∧ log'.map (fun e => e.2.1) = log.map Prod.snd ∧
      m'.Models msg' := by
  induction hlog with
  | start => exact ⟨[], m, .start, rfl, h⟩
  | @next log msg₁ op msg₂ _ hstep ih =>
    obtain ⟨log', m₁, hlog', hcalls, h₁⟩ := ih
    rw [Hermes.next_eq_some] at hstep
    obtain ⟨a, m₂, hrun⟩ := apply_returns h₁ hstep
    obtain ⟨msg₃, hop, h₂⟩ := apply_models h₁ hrun
    rw [hstep] at hop
    cases hop
    have hnext : next m₁ (op, a) = some m₂ := next_eq_some.2 hrun
    exact ⟨_, m₂, .next hlog' hnext, by simp [hcalls], h₂⟩

end Models

/-! ## What the calls return -/

/-- The unnamed headers in memory are the list `hdrs`. -/
structure HmsMsg.HeadersAre (m : HmsMsg) (hdrs : List CString) : Prop where
  values : m.headers.HasValues hdrs
  num : hmsMsgNumHeaders m = hdrs.length
  destroy : ∃ rest, hmsMsgDestroy m = .ok rest ∧ rest.1.HasValues [] ∧ rest.2.HasValues []
  /-- The counter is an `int`, so one more than `INT_MAX` headers is undefined. -/
  add : (hdrs.length : ℤ) < intMax → ∀ value, ∀ a ∉ m.headers.nodes,
    ∃ m', hmsMsgAddHeader m value a = .ok m' ∧
      m'.headers.HasValues (hdrs ++ [value]) ∧ hmsMsgNumHeaders m' = hdrs.length + 1
  get : ∀ index : ℤ, 0 ≤ index → index < hdrs.length → ∃ v, hdrs[index.toNat]? = some v ∧
    hmsMsgGetHeader m index = .ok (0, some v)
  del : ∀ index : ℤ, 0 ≤ index → index < hdrs.length → ∃ m', hmsMsgDelHeader m index = .ok (0, m') ∧
    m'.headers.HasValues (hdrs.eraseIdx index.toNat) ∧ hmsMsgNumHeaders m' = hdrs.length - 1
  /-- An index out of range is refused, and the message is unchanged. -/
  refused : ∀ index : ℤ, ¬(0 ≤ index ∧ index < hdrs.length) →
    hmsMsgGetHeader m index = .ok (-1, none) ∧ hmsMsgDelHeader m index = .ok (-1, m)

theorem HmsMsg.Models.headersAre {m : HmsMsg} {msg : Hermes.HmsMsg} (h : m.Models msg)
    (hc : msg.Counted) : m.HeadersAre msg.headers := by
  have hlen : m.numHeaders = msg.headers.length := h.numHeaders.trans hc.headers
  have hin : ∀ index : ℤ, 0 ≤ index → index < msg.headers.length →
      ¬(msg.numHeaders ≤ 0 ∨ index < 0 ∨ index ≥ msg.numHeaders) := fun index h0 hlt =>
    (hc.index_iff index).2 ⟨h0, hlt⟩
  refine ⟨h.headers, hlen, ?_, fun _ value a ha => ?_, fun index h0 hlt => ?_,
    fun index h0 hlt => ?_, fun index hout => ?_⟩
  · have hdestroy := h.destroy
    rw [hc.destroy] at hdestroy
    generalize hmsMsgDestroy m = x at hdestroy
    cases hdestroy with
    | ok hrest => exact ⟨_, rfl, hrest⟩
  · obtain ⟨m', hadd⟩ := h.addHeader_returns ha value
    have h' := h.addHeader hadd
    refine ⟨m', hadd, h'.headers, ?_⟩
    rw [hmsMsgNumHeaders, h'.numHeaders, ← hc.headers]
    rfl
  · have hlt' : index.toNat < msg.headers.length := by omega
    refine ⟨_, List.getElem?_eq_getElem hlt', ?_⟩
    rw [h.getHeader, Hermes.hmsMsgGetHeader, if_neg (hin index h0 hlt),
      List.getElem?_eq_getElem hlt']
  · obtain ⟨m', hdel, h'⟩ := h.delHeader index
    rw [Hermes.hmsMsgDelHeader, if_neg (hin index h0 hlt), if_pos (by omega)] at hdel h'
    exact ⟨m', hdel, h'.headers, h'.numHeaders.trans (congrArg (· - 1) hc.headers)⟩
  · have hout' := not_not.1 fun hn => hout ((hc.index_iff index).1 hn)
    rw [h.getHeader, Hermes.hmsMsgGetHeader, hmsMsgDelHeader, h.numHeaders, if_pos hout',
      if_pos hout']
    exact ⟨rfl, rfl⟩

/-- After any history of calls the unnamed headers in memory are the list that its additions and
deletions left : `hms_msg_num_headers` is its length, `hms_msg_get_header` and
`hms_msg_del_header` read and take out what stands at an index of it, and refuse any other. -/
theorem headers_history {start : Hermes.HmsMsg} {events : List HdrEvent}
    {body : Option (List UInt8)} {m m' : HmsMsg} {log : List (HmsMsg × (MsgOp × ℕ))}
    (hstart : Begins start events body) (hm : m.Models start) (hlog : Trace next m log m') :
    m'.HeadersAre ((log.map fun e => e.2.1).foldl headersAfter start.headers) := by
  obtain ⟨log', msg', hlog', hcalls, hmodels⟩ := history_models hm hlog
  have hare := hmodels.headersAre (hstart.follows.run hlog').counted
  rw [headers_run hstart.follows hlog', hcalls] at hare
  exact hare

/-- The header in the middle deleted, and the next one made where it was freed. -/
theorem headers_history_reuse : ∃ m log, Trace next hmsMsgCreate log m ∧ log.length = 5 ∧
    m.HeadersAre [CString.ofBytes (ascii "a"), CString.ofBytes (ascii "c"),
      CString.ofBytes (ascii "d")] := by
  let add (value : String) (a : ℕ) : MsgOp × ℕ :=
    (.addHeader (CString.ofBytes (ascii value)), a)
  obtain ⟨m, hm⟩ := Option.isSome_iff_exists.1 (show (perform next hmsMsgCreate
    [add "a" 0, add "b" 1, add "c" 2, (.delHeader 1, 0), add "d" 1]).isSome by decide)
  obtain ⟨log, hlog, hcalls⟩ := Trace.of_perform hm
  have hlen : log.length = 5 := by simpa using congrArg List.length hcalls
  have hare := headers_history .create models_create hlog
  rw [show (log.map fun e => e.2.1) = (log.map Prod.snd).map Prod.fst by simp, hcalls] at hare
  exact ⟨m, log, hlog, hlen, hare⟩

end Linked

end Hermes
