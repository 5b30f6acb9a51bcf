import Hermes.CLib.Keyed
import Hermes.Message

/-!
# Consistent messages

The fields of a message repeat each other. `HmsMsg.Counted` says that the counters are the
lengths of the lists, `HmsMsg.BodyAgrees` that the body, its length and the `Content-Length`
header agree. These are what the assertions of `hms_msg_destroy`, `hms_msg_get_body_size` and
`hms_msg_get_body` need. Named headers are a keyed list under `strcasecmp`.
-/

open CLib

namespace Hermes

/-! ## Named headers as a keyed list -/

theorem keyEquiv_caseEq : KeyEquiv CString.caseEq where
  refl a := caseEq_refl a.bytes
  comm a b := caseEq_comm a.bytes b.bytes
  congr c h := caseEq_congr_left h c.bytes

/-- No two named headers have the same key, ignoring case. -/
def HmsMsg.KeysDistinct (msg : HmsMsg) : Prop :=
  CLib.KeysDistinct CString.caseEq HmsMsgNheader.key msg.namedHeaders

/-- The value of the first named header with the key `key`. -/
def HmsMsg.lookup (msg : HmsMsg) (key : CString) : Option CString :=
  (msg.namedHeaders.find? (HmsMsgNheader.hasKey key)).map HmsMsgNheader.val

theorem namedHeaders_delNamedHeader (msg : HmsMsg) (key : CString) :
    (hmsMsgDelNamedHeader msg key).namedHeaders =
      eraseKey CString.caseEq HmsMsgNheader.key key msg.namedHeaders := by
  unfold hmsMsgDelNamedHeader
  split_ifs with h
  · rfl
  · refine (eraseKey_of_forall fun b hb => ?_).symm
    simpa [HmsMsgNheader.hasKey] using fun hk => h (List.any_eq_true.2 ⟨b, hb, hk⟩)

theorem namedHeaders_addNamedHeader (msg : HmsMsg) (key value : CString) :
    (hmsMsgAddNamedHeader msg key value).namedHeaders =
      upsert CString.caseEq HmsMsgNheader.key msg.namedHeaders ⟨key, value⟩ := by
  unfold hmsMsgAddNamedHeader upsert
  simp only [namedHeaders_delNamedHeader]

/-- Deleting a named header changes the named headers only. -/
theorem delNamedHeader_frame (msg : HmsMsg) (key : CString) :
    (hmsMsgDelNamedHeader msg key).verb = msg.verb ∧
      (hmsMsgDelNamedHeader msg key).headers = msg.headers ∧
      (hmsMsgDelNamedHeader msg key).numHeaders = msg.numHeaders ∧
      (hmsMsgDelNamedHeader msg key).contentLen = msg.contentLen ∧
      (hmsMsgDelNamedHeader msg key).content = msg.content := by
  unfold hmsMsgDelNamedHeader
  split_ifs <;> exact ⟨rfl, rfl, rfl, rfl, rfl⟩

section Frame

variable (msg : HmsMsg) (key value : CString)

@[simp] theorem verb_addNamedHeader : (hmsMsgAddNamedHeader msg key value).verb = msg.verb :=
  (delNamedHeader_frame msg key).1

@[simp] theorem headers_addNamedHeader :
    (hmsMsgAddNamedHeader msg key value).headers = msg.headers :=
  (delNamedHeader_frame msg key).2.1

@[simp] theorem numHeaders_addNamedHeader :
    (hmsMsgAddNamedHeader msg key value).numHeaders = msg.numHeaders :=
  (delNamedHeader_frame msg key).2.2.1

@[simp] theorem contentLen_addNamedHeader :
    (hmsMsgAddNamedHeader msg key value).contentLen = msg.contentLen :=
  (delNamedHeader_frame msg key).2.2.2.1

@[simp] theorem content_addNamedHeader :
    (hmsMsgAddNamedHeader msg key value).content = msg.content :=
  (delNamedHeader_frame msg key).2.2.2.2

end Frame

theorem HmsMsg.KeysDistinct.addNamedHeader {msg : HmsMsg} (h : msg.KeysDistinct)
    (key value : CString) : (hmsMsgAddNamedHeader msg key value).KeysDistinct := by
  unfold HmsMsg.KeysDistinct
  rw [namedHeaders_addNamedHeader]
  exact CLib.KeysDistinct.upsert keyEquiv_caseEq h _

theorem lookup_addNamedHeader {msg : HmsMsg} (h : msg.KeysDistinct) (key value k : CString) :
    (hmsMsgAddNamedHeader msg key value).lookup k =
      if key.caseEq k then some value else msg.lookup k := by
  have hfind := find?_upsert keyEquiv_caseEq k ⟨key, value⟩ h
  unfold HmsMsg.lookup HmsMsgNheader.hasKey
  rw [namedHeaders_addNamedHeader, hfind]
  split_ifs <;> rfl

theorem HmsMsg.KeysDistinct.delNamedHeader {msg : HmsMsg} (h : msg.KeysDistinct) (key : CString) :
    (hmsMsgDelNamedHeader msg key).KeysDistinct := by
  unfold HmsMsg.KeysDistinct
  rw [namedHeaders_delNamedHeader]
  exact CLib.KeysDistinct.eraseKey h key

theorem lookup_delNamedHeader {msg : HmsMsg} (h : msg.KeysDistinct) (key k : CString) :
    (hmsMsgDelNamedHeader msg key).lookup k = if key.caseEq k then none else msg.lookup k := by
  have hfind := find?_eraseKey keyEquiv_caseEq key k h
  unfold HmsMsg.lookup HmsMsgNheader.hasKey
  rw [namedHeaders_delNamedHeader, hfind]
  split_ifs <;> rfl

theorem lookup_of_mem {msg : HmsMsg} (h : msg.KeysDistinct) {hdr : HmsMsgNheader}
    (hmem : hdr ∈ msg.namedHeaders) {k : CString} (hk : hdr.hasKey k = true) :
    msg.lookup k = some hdr.val := by
  have hfind := find?_of_mem keyEquiv_caseEq hk h hmem
  unfold HmsMsg.lookup HmsMsgNheader.hasKey
  rw [hfind]
  rfl

theorem exists_of_lookup {msg : HmsMsg} {k v : CString} (h : msg.lookup k = some v) :
    ∃ hdr ∈ msg.namedHeaders, hdr.hasKey k = true ∧ hdr.val = v := by
  obtain ⟨hdr, hfind, hv⟩ := Option.map_eq_some_iff.1 h
  exact ⟨hdr, List.mem_of_find?_eq_some hfind, List.find?_some hfind, hv⟩

/-- The getter is the lookup. -/
theorem getNamedHeader_eq (msg : HmsMsg) (key : CString) :
    hmsMsgGetNamedHeader msg key =
      ((if (msg.lookup key).isSome then 0 else -1), msg.lookup key) := by
  unfold hmsMsgGetNamedHeader HmsMsg.lookup
  cases msg.namedHeaders.find? (HmsMsgNheader.hasKey key) <;> rfl

/-! ## Headers -/

/-- Adding headers one by one appends them. -/
theorem foldl_addHeader (ws : List CString) (msg : HmsMsg) : ws.foldl hmsMsgAddHeader msg =
    { msg with headers := msg.headers ++ ws, numHeaders := msg.numHeaders + ws.length } := by
  induction ws generalizing msg with
  | nil => simp
  | cons w ws ih =>
    rw [List.foldl_cons, ih]
    simp [hmsMsgAddHeader]
    omega

/-- Deleting a header leaves the named headers and the body alone. -/
theorem delHeader_frame (msg : HmsMsg) (index : ℤ) :
    (hmsMsgDelHeader msg index).2.namedHeaders = msg.namedHeaders ∧
      (hmsMsgDelHeader msg index).2.content = msg.content ∧
      (hmsMsgDelHeader msg index).2.contentLen = msg.contentLen := by
  unfold hmsMsgDelHeader
  split_ifs <;> exact ⟨rfl, rfl, rfl⟩

/-! ## Counters -/

/-- The counters are the lengths of the lists. -/
structure HmsMsg.Counted (msg : HmsMsg) : Prop where
  headers : msg.numHeaders = msg.headers.length
  namedHeaders : msg.numNamedHeaders = msg.namedHeaders.length

theorem counted_create : hmsMsgCreate.Counted :=
  ⟨rfl, rfl⟩

namespace HmsMsg.Counted

variable {msg : HmsMsg}

theorem setVerb (h : msg.Counted) (verb : CString) : (hmsMsgSetVerb msg verb).Counted :=
  ⟨h.headers, h.namedHeaders⟩

theorem addHeader (h : msg.Counted) (value : CString) : (hmsMsgAddHeader msg value).Counted :=
  ⟨by simp [hmsMsgAddHeader, h.headers], h.namedHeaders⟩

theorem delHeader (h : msg.Counted) (index : ℤ) : (hmsMsgDelHeader msg index).2.Counted := by
  unfold hmsMsgDelHeader
  split_ifs with hout hin
  · exact h
  · refine ⟨?_, h.namedHeaders⟩
    simp only [h.headers, List.length_eraseIdx_of_lt hin]
    omega
  · exact h

theorem delNamedHeader (h : msg.Counted) (key : CString) :
    (hmsMsgDelNamedHeader msg key).Counted := by
  unfold hmsMsgDelNamedHeader
  split_ifs with hany
  · have hlen := List.length_eraseP (p := HmsMsgNheader.hasKey key) (l := msg.namedHeaders)
    rw [if_pos hany] at hlen
    have hpos : 0 < msg.namedHeaders.length := by
      obtain ⟨a, ha, -⟩ := List.any_eq_true.1 hany
      exact List.length_pos_of_mem ha
    refine ⟨h.headers, ?_⟩
    simp only [h.namedHeaders, hlen]
    omega
  · exact h

theorem addNamedHeader (h : msg.Counted) (key value : CString) :
    (hmsMsgAddNamedHeader msg key value).Counted := by
  have hdel := h.delNamedHeader key
  exact ⟨hdel.headers, by simp [hmsMsgAddNamedHeader, hdel.namedHeaders]⟩

theorem foldl_pred {α : Type} (l : List α) (n : ℤ) : l.foldl (fun n _ => n - 1) n = n - l.length := by
  induction l generalizing n with
  | nil => simp
  | cons a l ih =>
    rw [List.foldl_cons, ih, List.length_cons]
    push_cast
    ring

/-- `hms_msg_destroy` asserts just this. -/
theorem destroy_iff (msg : HmsMsg) : hmsMsgDestroy msg = .ok () ↔ msg.Counted := by
  unfold hmsMsgDestroy hmsAssertEquals
  rw [foldl_pred, foldl_pred]
  constructor
  · intro h
    obtain ⟨_, h1, h2⟩ := bind_eq_ok.1 h
    unfold assert at h1 h2
    split_ifs at h1 h2 with h3 h4
    exact ⟨by omega, by omega⟩
  · rintro ⟨h1, h2⟩
    rw [assert_of (by omega), assert_of (by omega)]
    rfl

theorem destroy (h : msg.Counted) : hmsMsgDestroy msg = .ok () :=
  (destroy_iff msg).2 h

end HmsMsg.Counted

/-! ## The body -/

/-- The bytes of the body. -/
def HmsMsg.body (msg : HmsMsg) : List UInt8 :=
  msg.content.getD []

/-- The body, its length and the `Content-Length` header agree. -/
structure HmsMsg.BodyAgrees (msg : HmsMsg) : Prop where
  length : msg.contentLen = msg.body.length
  le_max : msg.contentLen ≤ intMax
  header : ∀ v, msg.lookup hmsContentLength = some v → atoi v.bytes = msg.contentLen
  noHeader : msg.lookup hmsContentLength = none → msg.content = none

namespace HmsMsg.BodyAgrees

variable {msg : HmsMsg}

theorem getBodySize (h : msg.BodyAgrees) : hmsMsgGetBodySize msg = .ok msg.contentLen := by
  rw [hmsMsgGetBodySize, getNamedHeader_eq]
  cases hl : msg.lookup hmsContentLength with
  | none =>
    have h0 : msg.contentLen = 0 := by
      rw [h.length, HmsMsg.body, h.noHeader hl]
      rfl
    simp [h0, hmsAssertEquals]
  | some v =>
    have hv := h.header v hl
    simp [atoiValue, hmsAssertEquals, hv]

theorem getBody (h : msg.BodyAgrees) {body : List UInt8} (hb : msg.content = some body) :
    hmsMsgGetBody msg = .ok (0, some body, msg.contentLen) := by
  have hlen : msg.contentLen = body.length := by
    rw [h.length, HmsMsg.body, hb]
    rfl
  rw [hmsMsgGetBody, hb, getNamedHeader_eq]
  cases hl : msg.lookup hmsContentLength with
  | none => simp [h.noHeader hl] at hb
  | some v =>
    have hv := h.header v hl
    have hmalloc := malloc_nonneg (x := msg.contentLen) (by omega) h.le_max
    have hcopy : bytesOf (cells body) msg.contentLen.toNat = .ok body := by
      have := bytesOf_cells body []
      rw [List.append_nil] at this
      rw [hlen, Int.toNat_natCast, this]
    simp [atoiValue, hmsAssertEquals, hv, hmalloc, hcopy]

end HmsMsg.BodyAgrees

/-- `msg` without its body. -/
def withoutBody (msg : HmsMsg) : HmsMsg :=
  { hmsMsgDelNamedHeader (hmsMsgDelNamedHeader msg hmsContentLength) hmsContentChecksum with
    content := none
    contentLen := 0 }

/-- Deleting the body, if that returns. -/
theorem delBody_eq_ok {msg m : HmsMsg} (h : hmsMsgDelBody msg = .ok m) :
    msg.content = none ∧ m = msg ∨ msg.content ≠ none ∧ m = withoutBody msg := by
  unfold hmsMsgDelBody at h
  cases hc : msg.content with
  | none =>
    rw [hc] at h
    cases h
    exact .inl ⟨rfl, rfl⟩
  | some body =>
    rw [hc] at h
    obtain ⟨_, -, h⟩ := bind_eq_ok.1 h
    obtain ⟨_, -, h⟩ := bind_eq_ok.1 h
    obtain ⟨_, -, h⟩ := bind_eq_ok.1 h
    cases h
    exact .inr ⟨by simp, rfl⟩

/-- Deleting a body that agrees with its header. -/
theorem HmsMsg.BodyAgrees.delBody {msg : HmsMsg} (h : msg.BodyAgrees) :
    hmsMsgDelBody msg = .ok (if msg.content = none then msg else withoutBody msg) := by
  unfold hmsMsgDelBody
  cases hc : msg.content with
  | none => rfl
  | some body =>
    rw [getNamedHeader_eq]
    cases hl : msg.lookup hmsContentLength with
    | none => simp [h.noHeader hl] at hc
    | some v =>
      have hv := h.header v hl
      simp [atoiValue, hmsAssertEquals, hv, withoutBody]

/-- `msg` with the body `body`. -/
def withBody (msg : HmsMsg) (body : List UInt8) : HmsMsg :=
  hmsMsgAddNamedHeader { msg with content := some body, contentLen := body.length }
    hmsContentLength (CString.ofBytes (decimal body.length))

theorem HmsMsg.KeysDistinct.withBody {msg : HmsMsg} (h : msg.KeysDistinct) (body : List UInt8) :
    (withBody msg body).KeysDistinct := by
  have h' : ({ msg with content := some body, contentLen := body.length } : HmsMsg).KeysDistinct := h
  exact h'.addNamedHeader _ _

theorem HmsMsg.Counted.withBody {msg : HmsMsg} (h : msg.Counted) (body : List UInt8) :
    (withBody msg body).Counted := by
  have h' : ({ msg with content := some body, contentLen := body.length } : HmsMsg).Counted :=
    ⟨h.headers, h.namedHeaders⟩
  exact h'.addNamedHeader _ _

theorem lookup_withBody {msg : HmsMsg} (h : msg.KeysDistinct) (body : List UInt8) :
    (withBody msg body).lookup hmsContentLength =
      some (CString.ofBytes (decimal body.length)) := by
  have h' : ({ msg with content := some body, contentLen := body.length } : HmsMsg).KeysDistinct := h
  rw [Hermes.withBody, lookup_addNamedHeader h', if_pos (keyEquiv_caseEq.refl _)]

/-- Setting the body of a message that has none. -/
theorem setBody_eq {msg : HmsMsg} (hc : msg.content = none) (h0 : msg.contentLen = 0)
    {body : List UInt8} (hne : body ≠ []) (hmax : (body.length : ℤ) ≤ intMax) (rest : Buffer) :
    hmsMsgSetBody msg (cells body ++ rest) body.length = .ok (withBody msg body) := by
  have hmalloc := malloc_nonneg (x := body.length) (by omega) hmax
  have hcopy := bytesOf_cells body rest
  simp [hmsMsgSetBody, hmsMsgDelBody, hmsAssertNotEquals, hmsAssertEquals, address, hc, h0, hne,
    hmalloc, hcopy, sprintfInt_natCast, withBody]

theorem nul_not_mem_decimal (n : ℕ) : nul ∉ decimal n :=
  (isNumeral_decimal n).not_mem (by decide)

/-- A body that was just set agrees with its header. -/
theorem BodyAgrees.withBody {msg : HmsMsg} (h : msg.KeysDistinct) {body : List UInt8}
    (hmax : (body.length : ℤ) ≤ intMax) : (withBody msg body).BodyAgrees := by
  have hl := lookup_withBody h body
  refine ⟨by simp [Hermes.withBody, HmsMsg.body], by simpa [Hermes.withBody] using hmax, ?_,
    fun hn => by simp [hl] at hn⟩
  intro v hv
  rw [hl, Option.some.injEq] at hv
  rw [← hv, CString.bytes_ofBytes (nul_not_mem_decimal _), atoi_decimal hmax]
  simp [Hermes.withBody]

end Hermes
