import Hermes.CLib.Traces
import Hermes.Parsed

/-!
# Histories of a message

A message is made by `hms_msg_create` or by `hms_msg_parse`, and then the functions of
`hms_msg.c` are called on it in any order. `MsgOp` is one such call and a history is a trace
of calls that return.

After any history the named headers are a finite map from keys, ignoring case, to the values
added last (`namedHeaders_history`). If no call touches the two headers that describe the
body, the body, its length and `Content-Length` agree, so that no assertion of the body
functions fails (`body_history`).
-/

open CLib

namespace Hermes

/-! ## Calls -/

/-- A call of a function on a message. A body is given as the bytes at its address. -/
inductive MsgOp
  | getHeaderSize
  | printHeader (buffer : Buffer) (len : ℤ)
  | setVerb (verb : CString)
  | getVerb
  | addHeader (value : CString)
  | getHeader (index : ℤ)
  | delHeader (index : ℤ)
  | numHeaders
  | addNamedHeader (key value : CString)
  | getNamedHeader (key : CString)
  | delNamedHeader (key : CString)
  | numNamedHeaders
  | getBodySize
  | getBody
  | setBody (data : List UInt8) (len : ℤ)
  | delBody

/-- A message whose counters are still in the range of `int`. -/
def checkCounters (msg : HmsMsg) : Run HmsMsg :=
  if msg.numHeaders ≤ intMax ∧ msg.numNamedHeaders ≤ intMax then .ok msg else .error .undefined

/-- The message after a call. -/
def MsgOp.apply (msg : HmsMsg) : MsgOp → Run HmsMsg
  | .getHeaderSize => do
    let _ ← hmsMsgGetHeaderSize msg
    return msg
  | .printHeader buffer len => do
    let _ ← hmsMsgPrintHeader msg buffer len
    return msg
  | .setVerb verb => .ok (hmsMsgSetVerb msg verb)
  | .addHeader value => checkCounters (hmsMsgAddHeader msg value)
  | .getHeader index => do
    let _ ← hmsMsgGetHeader msg index
    return msg
  | .delHeader index => .ok (hmsMsgDelHeader msg index).2
  | .addNamedHeader key value => checkCounters (hmsMsgAddNamedHeader msg key value)
  | .delNamedHeader key => .ok (hmsMsgDelNamedHeader msg key)
  | .getBodySize => do
    let _ ← hmsMsgGetBodySize msg
    return msg
  | .getBody => do
    let _ ← hmsMsgGetBody msg
    return msg
  | .setBody data len => do checkCounters (← hmsMsgSetBody msg (cells data) len)
  | .delBody => hmsMsgDelBody msg
  | .getVerb | .numHeaders | .getNamedHeader _ | .numNamedHeaders => .ok msg

/-- The message after a call that returns. -/
def MsgOp.next (msg : HmsMsg) (op : MsgOp) : Option HmsMsg :=
  (op.apply msg).toOption

theorem next_eq_some {msg m : HmsMsg} {op : MsgOp} :
    op.next msg = some m ↔ op.apply msg = .ok m := by
  unfold MsgOp.next
  cases op.apply msg <;> simp [Except.toOption]

theorem checkCounters_eq_ok {msg m : HmsMsg} : checkCounters msg = .ok m ↔
    (msg.numHeaders ≤ intMax ∧ msg.numNamedHeaders ≤ intMax) ∧ m = msg := by
  unfold checkCounters
  split_ifs with h <;> simp [h, eq_comm]

/-- Setting the body, if that returns : the body before is deleted. -/
theorem setBody_eq_ok {msg m : HmsMsg} {data : Buffer} {len : ℤ}
    (h : hmsMsgSetBody msg data len = .ok m) : ∃ m' copy, hmsMsgDelBody msg = .ok m' ∧
      m = hmsMsgAddNamedHeader { m' with content := some copy, contentLen := len }
        hmsContentLength (CString.ofBytes (sprintfInt len)) := by
  obtain ⟨_, -, h⟩ := bind_eq_ok.1 h
  obtain ⟨m', hdel, h⟩ := bind_eq_ok.1 h
  obtain ⟨_, -, h⟩ := bind_eq_ok.1 h
  obtain ⟨_, -, h⟩ := bind_eq_ok.1 h
  obtain ⟨_, -, h⟩ := bind_eq_ok.1 h
  obtain ⟨_, -, h⟩ := bind_eq_ok.1 h
  obtain ⟨copy, -, h⟩ := bind_eq_ok.1 h
  cases h
  exact ⟨m', copy, hdel, rfl⟩

/-- A call that leaves the message as it is. -/
def MsgOp.Reads : MsgOp → Prop
  | .setVerb _ | .addHeader _ | .delHeader _ | .addNamedHeader _ _ | .delNamedHeader _
  | .setBody _ _ | .delBody => False
  | _ => True

/-- What a call that returns does to the message. -/
inductive MsgOp.Effect (msg : HmsMsg) : MsgOp → HmsMsg → Prop
  | read {op : MsgOp} (h : op.Reads) : Effect msg op msg
  | setVerb {verb} : Effect msg (.setVerb verb) (hmsMsgSetVerb msg verb)
  | addHeader {value} : Effect msg (.addHeader value) (hmsMsgAddHeader msg value)
  | delHeader {index} : Effect msg (.delHeader index) (hmsMsgDelHeader msg index).2
  | addNamedHeader {key value} :
      Effect msg (.addNamedHeader key value) (hmsMsgAddNamedHeader msg key value)
  | delNamedHeader {key} : Effect msg (.delNamedHeader key) (hmsMsgDelNamedHeader msg key)
  | setBody {data len m} (h : hmsMsgSetBody msg (cells data) len = .ok m) :
      Effect msg (.setBody data len) m
  | delBody {m} (h : hmsMsgDelBody msg = .ok m) : Effect msg .delBody m

theorem effect_of_apply {msg m : HmsMsg} {op : MsgOp} (h : op.apply msg = .ok m) :
    op.Effect msg m := by
  have hread : ∀ {α : Type} {x : Run α}, op.Reads → (x >>= fun _ => .ok msg) = .ok m →
      op.Effect msg m := fun hop hx => by
    obtain ⟨_, -, hx⟩ := bind_eq_ok.1 hx
    cases hx
    exact .read hop
  cases op with
  | getHeaderSize => exact hread trivial h
  | printHeader buffer len => exact hread trivial h
  | getHeader index => exact hread trivial h
  | getBodySize => exact hread trivial h
  | getBody => exact hread trivial h
  | getVerb | numHeaders | getNamedHeader _ | numNamedHeaders =>
    cases h
    exact .read trivial
  | setVerb verb =>
    cases h
    exact .setVerb
  | addHeader value =>
    obtain ⟨-, rfl⟩ := checkCounters_eq_ok.1 h
    exact .addHeader
  | delHeader index =>
    cases h
    exact .delHeader
  | addNamedHeader key value =>
    obtain ⟨-, rfl⟩ := checkCounters_eq_ok.1 h
    exact .addNamedHeader
  | delNamedHeader key =>
    cases h
    exact .delNamedHeader
  | setBody data len =>
    obtain ⟨m', hset, hm⟩ := bind_eq_ok.1 h
    obtain ⟨-, rfl⟩ := checkCounters_eq_ok.1 hm
    exact .setBody hset
  | delBody => exact .delBody h

/-! ## Named headers -/

/-- What a function does to the named headers. -/
inductive HdrEvent
  | add (key value : CString)
  | del (key : CString)

/-- The key of an event. -/
def HdrEvent.key : HdrEvent → CString
  | .add key _ => key
  | .del key => key

/-- The value found under a key after one more event. -/
def valueAfter (k : CString) (v : Option CString) : HdrEvent → Option CString
  | .add key value => if key.caseEq k then some value else v
  | .del key => if key.caseEq k then none else v

/-- The value found under a key after all events. -/
def recent (k : CString) (events : List HdrEvent) : Option CString :=
  events.foldl (valueAfter k) none

/-- `v` was added last for a key equal to `k` ignoring case, and was not deleted since. -/
def LastAdded (k v : CString) (events : List HdrEvent) : Prop :=
  ∃ before key after, events = before ++ .add key v :: after ∧ key.caseEq k = true ∧
    ∀ e ∈ after, e.key.caseEq k = false

/-- The deletions of `hms_msg_del_body`. -/
def bodyDeletions (msg : HmsMsg) : List HdrEvent :=
  if msg.content = none then [] else [.del hmsContentLength, .del hmsContentChecksum]

/-- The additions and deletions of a call. -/
def MsgOp.events (msg : HmsMsg) : MsgOp → List HdrEvent
  | .addNamedHeader key value => [.add key value]
  | .delNamedHeader key => [.del key]
  | .setBody _ len => bodyDeletions msg ++ [.add hmsContentLength (CString.ofBytes (sprintfInt len))]
  | .delBody => bodyDeletions msg
  | _ => []

theorem MsgOp.Reads.events {op : MsgOp} (h : op.Reads) (msg : HmsMsg) : op.events msg = [] := by
  cases op <;> first | rfl | exact absurd h id

/-- The additions and deletions of a history. -/
def eventsOf (log : List (HmsMsg × MsgOp)) : List HdrEvent :=
  log.flatMap fun e => e.2.events e.1

/-- The additions of `hms_msg_parse` : one for each line behind the first, and the length of
the body when it is there. -/
def parsedEvents (lines : List (List UInt8)) (msg : HmsMsg) : List HdrEvent :=
  lines.tail.map (fun line => .add (lineHeader line).key (lineHeader line).val) ++
    if msg.content = none then []
    else [.add hmsContentLength (CString.ofBytes (sprintfInt msg.contentLen))]

/-- Where a history starts : a message just made, the additions that made it and the body it
has. -/
inductive Begins : HmsMsg → List HdrEvent → Option (List UInt8) → Prop
  | create : Begins hmsMsgCreate [] none
  | parse {sock sock' : ReadSide} {maxHdrLen : ℤ} {msg : HmsMsg} {body : List UInt8}
      (h : hmsMsgParse sock maxHdrLen = .ok (some msg, sock')) (f : Frame sock.unread)
      (hbody : f.rest = body ++ sock'.unread) :
      Begins msg (parsedEvents (headerLines f.parsed) msg) (if body = [] then none else some body)

section Recent

variable {k v : CString} {events : List HdrEvent}

@[simp] theorem recent_append (e : List HdrEvent) :
    recent k (events ++ e) = e.foldl (valueAfter k) (recent k events) :=
  List.foldl_append

theorem recent_eq_some : recent k events = some v ↔ LastAdded k v events := by
  unfold LastAdded
  induction events using List.reverseRecOn with
  | nil => simp [recent]
  | append_singleton events e ih =>
    rw [recent_append, List.foldl_cons, List.foldl_nil]
    cases he : e.key.caseEq k
    · have hkeep : valueAfter k (recent k events) e = recent k events := by
        cases e <;> simp_all [valueAfter, HdrEvent.key]
      rw [hkeep, ih]
      constructor
      · rintro ⟨before, key, after, rfl, hk, hafter⟩
        refine ⟨before, key, after ++ [e], by simp, hk, fun e' he' => ?_⟩
        rcases List.mem_append.1 he' with he' | he'
        · exact hafter e' he'
        · rwa [List.mem_singleton.1 he']
      · rintro ⟨before, key, after, heq, hk, hafter⟩
        rcases List.eq_nil_or_concat' after with rfl | ⟨after, e', rfl⟩
        · obtain ⟨-, rfl⟩ := List.append_inj' heq rfl |>.imp id List.singleton_inj.1
          simp [HdrEvent.key, hk] at he
        · rw [← List.cons_append, ← List.append_assoc] at heq
          obtain ⟨rfl, -⟩ := List.append_inj' heq rfl
          exact ⟨before, key, after, rfl, hk, fun x hx => hafter x (by simp [hx])⟩
    · constructor
      · intro h
        cases e with
        | add key value =>
          have hv : value = v := by simpa [valueAfter, show key.caseEq k = true from he] using h
          exact ⟨events, key, [], by rw [hv], he, by simp⟩
        | del key => simp [valueAfter, show key.caseEq k = true from he] at h
      · rintro ⟨before, key, after, heq, hk, hafter⟩
        rcases List.eq_nil_or_concat' after with rfl | ⟨after, e', rfl⟩
        · obtain ⟨-, rfl⟩ := List.append_inj' heq rfl |>.imp id List.singleton_inj.1
          simp [valueAfter, hk]
        · rw [← List.cons_append, ← List.append_assoc] at heq
          obtain ⟨-, heq⟩ := List.append_inj' heq rfl
          rw [List.singleton_inj.1 heq, hafter e' (by simp)] at he
          simp at he

end Recent

/-- The named headers are what the events left. -/
structure HmsMsg.Follows (msg : HmsMsg) (events : List HdrEvent) : Prop where
  counted : msg.Counted
  distinct : msg.KeysDistinct
  lookup : ∀ k, msg.lookup k = recent k events

namespace HmsMsg.Follows

variable {msg m : HmsMsg} {events : List HdrEvent} (h : msg.Follows events)
include h

/-- A function that leaves the named headers alone. -/
theorem of_namedHeaders (hcount : m.Counted) (hnamed : m.namedHeaders = msg.namedHeaders) :
    m.Follows events := by
  refine ⟨hcount, ?_, fun k => ?_⟩
  · rw [HmsMsg.KeysDistinct, hnamed]
    exact h.distinct
  · rw [HmsMsg.lookup, hnamed]
    exact h.lookup k

theorem add (key value : CString) :
    (hmsMsgAddNamedHeader msg key value).Follows (events ++ [.add key value]) where
  counted := h.counted.addNamedHeader key value
  distinct := h.distinct.addNamedHeader key value
  lookup k := by
    rw [lookup_addNamedHeader h.distinct, h.lookup, recent_append]
    rfl

theorem del (key : CString) :
    (hmsMsgDelNamedHeader msg key).Follows (events ++ [.del key]) where
  counted := h.counted.delNamedHeader key
  distinct := h.distinct.delNamedHeader key
  lookup k := by
    rw [lookup_delNamedHeader h.distinct, h.lookup, recent_append]
    rfl

theorem delBody (hdel : hmsMsgDelBody msg = .ok m) : m.Follows (events ++ bodyDeletions msg) := by
  rcases delBody_eq_ok hdel with ⟨hc, rfl⟩ | ⟨hc, rfl⟩
  · rw [bodyDeletions, if_pos hc, List.append_nil]
    exact h
  · have hdels := (h.del hmsContentLength).del hmsContentChecksum
    rw [bodyDeletions, if_neg hc]
    rw [List.append_assoc] at hdels
    exact hdels.of_namedHeaders ⟨hdels.counted.headers, hdels.counted.namedHeaders⟩ rfl

theorem setBody {data : Buffer} {len : ℤ} (hset : hmsMsgSetBody msg data len = .ok m) :
    m.Follows (events ++ bodyDeletions msg ++
      [.add hmsContentLength (CString.ofBytes (sprintfInt len))]) := by
  obtain ⟨m', copy, hdel, rfl⟩ := setBody_eq_ok hset
  have hm' := h.delBody hdel
  have hnew : ({ m' with content := some copy, contentLen := len } : HmsMsg).Follows
      (events ++ bodyDeletions msg) :=
    hm'.of_namedHeaders ⟨hm'.counted.headers, hm'.counted.namedHeaders⟩ rfl
  exact hnew.add _ _

/-- A call does to the named headers what its events say. -/
theorem effect {op : MsgOp} (hop : op.Effect msg m) : m.Follows (events ++ op.events msg) := by
  have hframe : ∀ {m' : HmsMsg}, m'.Counted → m'.namedHeaders = msg.namedHeaders →
      m'.Follows (events ++ []) := fun hcount hnamed => by
    rw [List.append_nil]
    exact h.of_namedHeaders hcount hnamed
  cases hop with
  | read hreads =>
    rw [hreads.events]
    exact hframe h.counted rfl
  | setVerb => exact hframe (h.counted.setVerb _) rfl
  | addHeader => exact hframe (h.counted.addHeader _) rfl
  | delHeader => exact hframe (h.counted.delHeader _) (delHeader_frame msg _).1
  | addNamedHeader => exact h.add _ _
  | delNamedHeader => exact h.del _
  | setBody hset =>
    have hfollows := h.setBody hset
    rwa [List.append_assoc] at hfollows
  | delBody hdel => exact h.delBody hdel

/-- A history does to the named headers what its events say. -/
theorem run {log : List (HmsMsg × MsgOp)} (hlog : Trace MsgOp.next msg log m) :
    m.Follows (events ++ eventsOf log) := by
  induction hlog with
  | start => simpa [eventsOf] using h
  | next _ hstep ih =>
    have hnext := ih.effect (effect_of_apply (next_eq_some.1 hstep))
    simpa [eventsOf] using hnext

end HmsMsg.Follows

/-- The lines of a header are the additions of the parser. -/
theorem follows_headerMsg (lines : List (List UInt8)) : (headerMsg lines).Follows
    (lines.tail.map fun line => .add (lineHeader line).key (lineHeader line).val) := by
  have hb : Bodyless (headerMsg lines) := bodyless_headerMsg
  refine ⟨hb.counted, hb.distinct, fun k => ?_⟩
  rw [lookup_headerMsg]
  generalize lines.tail = named
  induction named using List.reverseRecOn with
  | nil => rfl
  | append_singleton named line ih =>
    rw [List.map_append, recent_append, ← ih, List.filter_append]
    by_cases hk : (lineHeader line).hasKey k = true
    · have hkey : (lineHeader line).key.caseEq k = true := hk
      simp [hk, valueAfter, hkey]
    · have hkey : ¬(lineHeader line).key.caseEq k = true := hk
      simp [hk, valueAfter, hkey]

/-- At the start of a history. -/
theorem Begins.follows {msg : HmsMsg} {events : List HdrEvent} {body : Option (List UInt8)}
    (h : Begins msg events body) : msg.Follows events := by
  cases h with
  | create => exact ⟨counted_create, List.Pairwise.nil, fun _ => rfl⟩
  | @parse sock sock' maxHdrLen msg body hparse f hbody =>
    obtain ⟨-, g, -, hdec⟩ := decode_eq_some.1 (hmsMsgParse_ok_iff.1 ⟨sock', hparse, rfl⟩)
    obtain rfl := f.subsingleton g
    have hlines := follows_headerMsg (headerLines f.parsed)
    have hb : Bodyless (headerMsg (headerLines f.parsed)) := bodyless_headerMsg
    rcases hdec.body with ⟨-, rfl, -⟩ | ⟨n, -, -, -, -, rfl, -⟩
    · rw [parsedEvents, if_pos hb.content, List.append_nil]
      exact hlines
    · rw [parsedEvents, if_neg (by simp [withBody])]
      simp only [withBody, contentLen_addNamedHeader, sprintfInt_natCast]
      have hnew : ({ headerMsg (headerLines f.parsed) with
          content := some (f.rest.take n), contentLen := (f.rest.take n).length } :
            HmsMsg).Follows _ :=
        hlines.of_namedHeaders ⟨hb.counted.headers, hb.counted.namedHeaders⟩ rfl
      exact hnew.add _ _

/-- After any history the named headers are distinct and counted, the value found under a key
is the one added last and not deleted since, an addition puts its entry at the end, and only
entries with an equal key go. -/
theorem namedHeaders_history {start msg : HmsMsg} {events : List HdrEvent}
    {body : Option (List UInt8)} {log : List (HmsMsg × MsgOp)} (hstart : Begins start events body)
    (hlog : Trace MsgOp.next start log msg) :
    msg.namedHeaders.Pairwise (fun a b => a.key.caseEq b.key = false) ∧
      hmsMsgNumNamedHeaders msg = msg.namedHeaders.length ∧
      hmsMsgDestroy msg = .ok () ∧
      (∀ k v, hmsMsgGetNamedHeader msg k = (0, some v) ↔ LastAdded k v (events ++ eventsOf log)) ∧
      (∀ k, (∀ v, ¬LastAdded k v (events ++ eventsOf log)) →
        hmsMsgGetNamedHeader msg k = (-1, none)) ∧
      (∀ k, (hmsMsgDelNamedHeader msg k).namedHeaders =
        msg.namedHeaders.filter fun hdr => !hdr.hasKey k) ∧
      ∀ k v, (hmsMsgAddNamedHeader msg k v).namedHeaders =
        (msg.namedHeaders.filter fun hdr => !hdr.hasKey k) ++ [⟨k, v⟩] := by
  have hfollows := hstart.follows.run hlog
  have herase := fun k => eraseKey_eq_filter keyEquiv_caseEq k hfollows.distinct
  refine ⟨hfollows.distinct, hfollows.counted.namedHeaders, hfollows.counted.destroy,
    fun k v => ?_, fun k hnone => ?_, fun k => ?_, fun k v => ?_⟩
  · rw [getNamedHeader_eq, hfollows.lookup, ← recent_eq_some]
    cases recent k (events ++ eventsOf log) <;> simp
  · have hlookup : msg.lookup k = none := by
      rw [hfollows.lookup]
      exact Option.eq_none_iff_forall_ne_some.2 fun v hv => hnone v (recent_eq_some.1 hv)
    rw [getNamedHeader_eq, hlookup]
    rfl
  · rw [namedHeaders_delNamedHeader]
    exact herase k
  · rw [namedHeaders_addNamedHeader]
    exact congrArg (· ++ [_]) (herase k)

/-- A header replaced under another spelling, and a body set and deleted. -/
theorem namedHeaders_history_replaced : ∃ msg log,
    Trace MsgOp.next hmsMsgCreate log msg ∧ log.length = 4 ∧
      hmsMsgGetNamedHeader msg (CString.ofBytes (ascii "KEY")) =
        (0, some (CString.ofBytes (ascii "2"))) ∧
      hmsMsgGetNamedHeader msg hmsContentLength = (-1, none) ∧ hmsMsgDestroy msg = .ok () := by
  let add (key value : String) : MsgOp :=
    .addNamedHeader (CString.ofBytes (ascii key)) (CString.ofBytes (ascii value))
  have h1 : Trace MsgOp.next hmsMsgCreate _ _ := .next .start (a := add "Key" "1") rfl
  have h2 := Trace.next h1 (a := .setBody (ascii "hello") 5) rfl
  have h3 := Trace.next h2 (a := add "key" "2") rfl
  have h4 := Trace.next h3 (a := .delBody) rfl
  obtain ⟨-, -, hdestroy, hget, hnone, -⟩ := namedHeaders_history .create h4
  refine ⟨_, _, h4, rfl, (hget _ _).2 (recent_eq_some.1 rfl), hnone _ fun v hv => ?_, hdestroy⟩
  have hdeleted := recent_eq_some.2 hv
  cases hdeleted

/-! ## The body -/

/-- A call that leaves `Content-Length` to the body functions and sets no body that is empty or
longer than its data. -/
def MsgOp.Allowed : MsgOp → Prop
  | .addNamedHeader key _ | .delNamedHeader key => key.caseEq hmsContentLength = false
  | .setBody data len => 0 < len ∧ len ≤ intMax ∧ len ≤ data.length
  | _ => True

/-- The body after a call. -/
def bodyAfter (body : Option (List UInt8)) : MsgOp → Option (List UInt8)
  | .setBody data len => some (data.take len.toNat)
  | .delBody => none
  | _ => body

theorem MsgOp.Reads.bodyAfter {op : MsgOp} (h : op.Reads) (body : Option (List UInt8)) :
    Hermes.bodyAfter body op = body := by
  cases op <;> first | rfl | exact absurd h id

/-- The body of a message, its length and the `Content-Length` header are those of `body`, and
the body functions return. -/
structure HmsMsg.HasBody (msg : HmsMsg) (body : Option (List UInt8)) : Prop where
  present : msg.content ≠ none ↔ ∃ hdr ∈ msg.namedHeaders, hdr.hasKey hmsContentLength = true
  single : (msg.namedHeaders.filter (HmsMsgNheader.hasKey hmsContentLength)).length ≤ 1
  value : ∀ hdr ∈ msg.namedHeaders, hdr.hasKey hmsContentLength = true →
    atoi hdr.val.bytes = msg.contentLen
  absent : msg.content = none → msg.contentLen = 0
  getBodySize : hmsMsgGetBodySize msg = .ok ((body.getD []).length : ℤ)
  getBody : hmsMsgGetBody msg = .ok (0, body, ((body.getD []).length : ℤ))
  setBody : ∀ (data : List UInt8) (len : ℤ), 0 < len → len ≤ intMax → len ≤ data.length →
    ∃ m, hmsMsgSetBody msg (cells data) len = .ok m
  delBody : ∃ m, hmsMsgDelBody msg = .ok m

/-- What the calls keep of a message with the body `body`. -/
structure HmsMsg.Carries (msg : HmsMsg) (body : Option (List UInt8)) : Prop where
  distinct : msg.KeysDistinct
  content : msg.content = body
  agrees : msg.BodyAgrees
  noBody : msg.content = none → msg.lookup hmsContentLength = none

namespace HmsMsg.Carries

variable {msg m : HmsMsg} {body : Option (List UInt8)} (h : msg.Carries body)
include h

/-- A function that leaves the body and its header alone. -/
theorem frame (hdistinct : m.KeysDistinct) (hcontent : m.content = msg.content)
    (hlen : m.contentLen = msg.contentLen)
    (hlookup : m.lookup hmsContentLength = msg.lookup hmsContentLength) : m.Carries body where
  distinct := hdistinct
  content := hcontent.trans h.content
  agrees := by
    refine ⟨?_, ?_, ?_, ?_⟩
    · rw [hlen, HmsMsg.body, hcontent]
      exact h.agrees.length
    · exact hlen ▸ h.agrees.le_max
    · rw [hlookup, hlen]
      exact h.agrees.header
    · rw [hlookup, hcontent]
      exact h.agrees.noHeader
  noBody := by
    rw [hlookup, hcontent]
    exact h.noBody

/-- The message without its body. -/
theorem delBody : ∃ m, hmsMsgDelBody msg = .ok m ∧ m.Carries none := by
  refine ⟨_, h.agrees.delBody, ?_⟩
  split_ifs with hc
  · exact ⟨h.distinct, hc, h.agrees, h.noBody⟩
  · have hlookup : (withoutBody msg).lookup hmsContentLength = none := by
      have hkey : hmsContentLength.caseEq hmsContentLength = true := keyEquiv_caseEq.refl _
      refine (lookup_delNamedHeader (h.distinct.delNamedHeader _) hmsContentChecksum _).trans ?_
      rw [lookup_delNamedHeader h.distinct, if_pos hkey, ite_self]
    have hmax : (0 : ℤ) ≤ intMax := by decide
    refine ⟨(h.distinct.delNamedHeader _).delNamedHeader _, rfl, ⟨rfl, hmax, fun v hv => ?_,
      fun _ => rfl⟩, fun _ => hlookup⟩
    simp [hlookup] at hv

/-- The message with another body. -/
theorem setBody {data : List UInt8} {len : ℤ} (hpos : 0 < len) (hmax : len ≤ intMax)
    (hle : len ≤ data.length) : ∃ m, hmsMsgSetBody msg (cells data) len = .ok m ∧
      m.Carries (some (data.take len.toNat)) := by
  obtain ⟨m', hdel, hm'⟩ := h.delBody
  have h0 : m'.contentLen = 0 := by
    rw [hm'.agrees.length, HmsMsg.body, hm'.content]
    rfl
  have hlen : (data.take len.toNat).length = len.toNat := by
    rw [List.length_take]
    omega
  have hdata : cells data = cells (data.take len.toNat) ++ cells (data.drop len.toNat) := by
    rw [cells, cells, cells, ← List.map_append, List.take_append_drop]
  have hne : data.take len.toNat ≠ [] := List.ne_nil_of_length_pos (by omega)
  have hset := setBody_eq hm'.content h0 hne (by omega) (cells (data.drop len.toNat))
  rw [← hdata, hlen, Int.toNat_of_nonneg hpos.le] at hset
  -- deleting the body again changes nothing
  have hagain : hmsMsgDelBody m' = .ok m' := by rw [hmsMsgDelBody, hm'.content]
  have hsame : hmsMsgSetBody msg (cells data) len = hmsMsgSetBody m' (cells data) len := by
    rw [hmsMsgSetBody, hmsMsgSetBody, hdel, hagain]
  refine ⟨_, hsame.trans hset, hm'.distinct.withBody _, by simp [withBody],
    BodyAgrees.withBody hm'.distinct (by omega), fun hc => ?_⟩
  simp [withBody] at hc

theorem hasBody : msg.HasBody body := by
  have hfind : ∀ {hdr}, hdr ∈ msg.namedHeaders → hdr.hasKey hmsContentLength = true →
      msg.lookup hmsContentLength = some hdr.val := fun hmem hk => lookup_of_mem h.distinct hmem hk
  have hlen : msg.contentLen = ((body.getD []).length : ℤ) := by
    rw [h.agrees.length, HmsMsg.body, h.content]
  refine ⟨⟨fun hc => ?_, ?_⟩, ?_, fun hdr hmem hk => h.agrees.header _ (hfind hmem hk), fun hc => ?_,
    ?_, ?_, fun data len hpos hmax hle => ?_, ?_⟩
  · obtain ⟨v, hv⟩ := Option.ne_none_iff_exists'.1 fun hl => hc (h.agrees.noHeader hl)
    obtain ⟨hdr, hmem, hk, -⟩ := exists_of_lookup hv
    exact ⟨hdr, hmem, hk⟩
  · rintro ⟨hdr, hmem, hk⟩ hc
    have hv := hfind hmem hk
    simp [h.noBody hc] at hv
  · exact length_filter_same_le keyEquiv_caseEq hmsContentLength h.distinct
  · rw [h.agrees.length, HmsMsg.body, hc]
    rfl
  · rw [h.agrees.getBodySize, hlen]
  · cases hb : body with
    | none => rw [hmsMsgGetBody, h.content, hb]; rfl
    | some bytes =>
      rw [h.agrees.getBody (h.content.trans hb), hlen, hb]
  · obtain ⟨m, hm, -⟩ := h.setBody hpos hmax hle
    exact ⟨m, hm⟩
  · obtain ⟨m, hm, -⟩ := h.delBody
    exact ⟨m, hm⟩

/-- A call that is allowed keeps the body, or sets or deletes it. -/
theorem effect {op : MsgOp} (hallowed : op.Allowed) (hop : op.Effect msg m) :
    m.Carries (bodyAfter body op) := by
  cases hop with
  | read hreads =>
    rw [hreads.bodyAfter]
    exact h
  | setVerb => exact h.frame h.distinct rfl rfl rfl
  | addHeader => exact h.frame h.distinct rfl rfl rfl
  | @delHeader index =>
    obtain ⟨hnamed, hcontent, hlen⟩ := delHeader_frame msg index
    refine h.frame ?_ hcontent hlen ?_
    · rw [HmsMsg.KeysDistinct, hnamed]
      exact h.distinct
    · rw [HmsMsg.lookup, HmsMsg.lookup, hnamed]
  | @addNamedHeader key value =>
    have hkey : key.caseEq hmsContentLength = false := hallowed
    refine h.frame (h.distinct.addNamedHeader key value) (content_addNamedHeader _ _ _)
      (contentLen_addNamedHeader _ _ _) ?_
    rw [lookup_addNamedHeader h.distinct, if_neg (by simp [hkey])]
  | @delNamedHeader key =>
    have hkey : key.caseEq hmsContentLength = false := hallowed
    obtain ⟨-, -, -, hlen, hcontent⟩ := delNamedHeader_frame msg key
    refine h.frame (h.distinct.delNamedHeader key) hcontent hlen ?_
    rw [lookup_delNamedHeader h.distinct, if_neg (by simp [hkey])]
  | setBody hset =>
    obtain ⟨hpos, hmax, hle⟩ := hallowed
    obtain ⟨m', hset', hcarries⟩ := h.setBody hpos hmax hle
    rw [hset] at hset'
    cases hset'
    exact hcarries
  | delBody hdel =>
    obtain ⟨m', hdel', hcarries⟩ := h.delBody
    rw [hdel] at hdel'
    cases hdel'
    exact hcarries

end HmsMsg.Carries

/-- At the start of a history. -/
theorem Begins.carries {msg : HmsMsg} {events : List HdrEvent} {body : Option (List UInt8)}
    (h : Begins msg events body) : msg.Carries body := by
  cases h with
  | create => exact ⟨bodyless_create.distinct, rfl, bodyless_create.bodyAgrees rfl, fun _ => rfl⟩
  | @parse sock sock' maxHdrLen msg body hparse f hbody =>
    obtain ⟨-, g, -, hdec⟩ := decode_eq_some.1 (hmsMsgParse_ok_iff.1 ⟨sock', hparse, rfl⟩)
    obtain rfl := f.subsingleton g
    have hsame : msg.body = body := List.append_cancel_right (hdec.rest_eq.symm.trans hbody)
    refine ⟨hdec.distinct, ?_, hdec.bodyAgrees, ?_⟩
    all_goals rcases hdec.body with ⟨hnone, rfl, -⟩ | ⟨n, -, hpos, -, hle, rfl, -⟩
    · rw [← hsame, HmsMsg.body, bodyless_headerMsg.content]
      rfl
    · have hcontent : (withBody (headerMsg (headerLines f.parsed)) (f.rest.take n)).content =
          some (f.rest.take n) := by simp [withBody]
      have hne : f.rest.take n ≠ [] := List.ne_nil_of_length_pos (by rw [List.length_take]; omega)
      rw [HmsMsg.body, hcontent, Option.getD_some] at hsame
      rw [hcontent, hsame, if_neg (hsame ▸ hne)]
    · intro _
      rw [lookup_length, hnone, Option.map_none]
    · intro hc
      simp [withBody] at hc

/-- After any history of calls that leave `Content-Length` to the body functions, a message has
the body set or received last and not deleted since, `Content-Length` describes it, and no
assertion of the body functions fails. -/
theorem body_history {start msg : HmsMsg} {events : List HdrEvent} {body : Option (List UInt8)}
    {log : List (HmsMsg × MsgOp)} (hstart : Begins start events body)
    (hlog : Trace MsgOp.next start log msg) (hallowed : ∀ e ∈ log, e.2.Allowed) :
    msg.HasBody ((log.map Prod.snd).foldl bodyAfter body) := by
  have hcarries : msg.Carries ((log.map Prod.snd).foldl bodyAfter body) := by
    induction hlog with
    | start => exact hstart.carries
    | next _ hstep ih =>
      rw [List.map_append, List.foldl_append]
      exact (ih fun e he => hallowed e (by simp [he])).effect (hallowed _ (by simp))
        (effect_of_apply (next_eq_some.1 hstep))
  exact hcarries.hasBody

/-- A body received, replaced and read. -/
theorem body_history_replaced : ∃ (start : HmsMsg) (events : List HdrEvent) (msg : HmsMsg)
    (log : List (HmsMsg × MsgOp)), Begins start events (some (ascii "hi")) ∧
      Trace MsgOp.next start log msg ∧ log.length = 2 ∧ msg.HasBody (some (ascii "hel")) := by
  have hrun : (hmsMsgParse ⟨ascii "GET\nContent-Length: 2\n.\nhi", fun _ => 0⟩ 100).map Prod.fst =
      .ok (some (withBody (headerMsg [ascii "GET", ascii "Content-Length: 2"]) (ascii "hi"))) := by
    decide
  obtain ⟨sock', hparse⟩ := exists_of_map_fst hrun
  obtain ⟨-, f, -, hdec⟩ := decode_eq_some.1 (hmsMsgParse_ok_iff.1 ⟨sock', hparse, rfl⟩)
  have hbegins := Begins.parse hparse f hdec.rest_eq
  have h1 : Trace MsgOp.next
      (withBody (headerMsg [ascii "GET", ascii "Content-Length: 2"]) (ascii "hi")) _ _ :=
    .next .start (a := .setBody (ascii "hello") 3) rfl
  have h2 := Trace.next h1 (a := .getBody) rfl
  refine ⟨_, _, _, _, hbegins, h2, rfl, body_history hbegins h2 ?_⟩
  have hset : (MsgOp.setBody (ascii "hello") 3).Allowed :=
    ⟨by decide, by decide, by decide⟩
  simp only [List.nil_append, List.singleton_append, List.forall_mem_cons]
  exact ⟨hset, trivial, by simp⟩

end Hermes
