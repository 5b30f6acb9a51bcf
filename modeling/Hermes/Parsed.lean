import Hermes.Wire

/-!
# What the parser returns

However a header was formatted, the message that comes out of the parser is tidy : its words
and its trimmed keys and values hold none of the separators, its keys are distinct, its
counters are right, and a body comes with a canonical `Content-Length` at the end. So it is
its own `received` (`Decodes.received_eq`), and it prints in at most one byte more than the
header it was read from, the newline in front of the period (`Decodes.length_encodeHeader`).
-/

open CLib

namespace Hermes

/-! ## Tidy headers -/

/-- The headers of a message as the parser leaves them. -/
structure Tidy (msg : HmsMsg) : Prop where
  words : ∀ w ∈ msg.words, IsWord w.bytes
  key : ∀ hdr ∈ msg.namedHeaders, ∀ c ∈ hdr.key.bytes, c ≠ colon ∧ c ≠ newline ∧ c ≠ carriageReturn
  val : ∀ hdr ∈ msg.namedHeaders, ∀ c ∈ hdr.val.bytes, c ≠ newline ∧ c ≠ carriageReturn
  keyTrimmed : ∀ hdr ∈ msg.namedHeaders, Trimmed isspace hdr.key.bytes
  valTrimmed : ∀ hdr ∈ msg.namedHeaders, Trimmed isspace hdr.val.bytes

/-- The named header of a line. -/
def lineHeader (line : List UInt8) : HmsMsgNheader :=
  ⟨CString.ofBytes (keyText line), CString.ofBytes (valText line)⟩

/-- The bytes of a line of a header : no separator of lines, no carriage return, no NUL. -/
def LineBytes (line : List UInt8) : Prop :=
  ∀ c ∈ line, c ≠ newline ∧ c ≠ carriageReturn ∧ c ≠ nul

theorem mem_of_mem_keyText {line : List UInt8} {c : UInt8} (h : c ∈ keyText line) :
    c ∈ line ∧ c ≠ colon := by
  have hmem := mem_of_mem_trim h
  exact ⟨(List.takeWhile_prefix _).subset hmem, by simpa using List.mem_takeWhile_imp hmem⟩

theorem mem_of_mem_valText {line : List UInt8} {c : UInt8} (h : c ∈ valText line) : c ∈ line :=
  (List.dropWhile_suffix _).subset (List.mem_of_mem_drop (mem_of_mem_trim h))

namespace LineBytes

variable {line : List UInt8} (h : LineBytes line)
include h

theorem bytes_key : (lineHeader line).key.bytes = keyText line :=
  CString.bytes_ofBytes fun hc => (h nul (mem_of_mem_keyText hc).1).2.2 rfl

theorem bytes_val : (lineHeader line).val.bytes = valText line :=
  CString.bytes_ofBytes fun hc => (h nul (mem_of_mem_valText hc)).2.2 rfl

theorem hasKey_length : (lineHeader line).hasKey hmsContentLength = true ↔ IsLength line := by
  rw [HmsMsgNheader.hasKey, CString.caseEq, h.bytes_key]
  rfl

end LineBytes

/-- A line read is its named header added. -/
theorem readNamed_eq (msg : HmsMsg) (line : List UInt8) :
    readNamed msg line = hmsMsgAddNamedHeader msg (lineHeader line).key (lineHeader line).val :=
  rfl

theorem Tidy.addNamedHeader {msg : HmsMsg} (h : Tidy msg) (hdr : HmsMsgNheader)
    (hkey : ∀ c ∈ hdr.key.bytes, c ≠ colon ∧ c ≠ newline ∧ c ≠ carriageReturn)
    (hval : ∀ c ∈ hdr.val.bytes, c ≠ newline ∧ c ≠ carriageReturn)
    (hkt : Trimmed isspace hdr.key.bytes) (hvt : Trimmed isspace hdr.val.bytes) :
    Tidy (hmsMsgAddNamedHeader msg hdr.key hdr.val) := by
  have hmem : ∀ {x}, x ∈ (hmsMsgAddNamedHeader msg hdr.key hdr.val).namedHeaders →
      x = hdr ∨ x ∈ msg.namedHeaders := fun hx => by
    rw [namedHeaders_addNamedHeader] at hx
    exact mem_upsert hx
  have hwords : (hmsMsgAddNamedHeader msg hdr.key hdr.val).words = msg.words := by
    simp [HmsMsg.words]
  refine ⟨fun w hw => h.words w (hwords ▸ hw), fun x hx => ?_, fun x hx => ?_, fun x hx => ?_,
    fun x hx => ?_⟩
  · rcases hmem hx with rfl | hx
    · exact hkey
    · exact h.key x hx
  · rcases hmem hx with rfl | hx
    · exact hval
    · exact h.val x hx
  · rcases hmem hx with rfl | hx
    · exact hkt
    · exact h.keyTrimmed x hx
  · rcases hmem hx with rfl | hx
    · exact hvt
    · exact h.valTrimmed x hx

theorem Tidy.readNamed {msg : HmsMsg} (h : Tidy msg) {line : List UInt8} (hl : LineBytes line) :
    Tidy (readNamed msg line) := by
  rw [readNamed_eq]
  refine h.addNamedHeader (lineHeader line) ?_ ?_ ?_ ?_
  · rw [hl.bytes_key]
    intro c hc
    obtain ⟨hmem, hcolon⟩ := mem_of_mem_keyText hc
    exact ⟨hcolon, (hl c hmem).1, (hl c hmem).2.1⟩
  · rw [hl.bytes_val]
    intro c hc
    exact ⟨(hl c (mem_of_mem_valText hc)).1, (hl c (mem_of_mem_valText hc)).2.1⟩
  · rw [hl.bytes_key]
    exact trimmed_trim _ _
  · rw [hl.bytes_val]
    exact trimmed_trim _ _

theorem Tidy.withBody {msg : HmsMsg} (h : Tidy msg) (body : List UInt8) :
    Tidy (withBody msg body) := by
  have h' : Tidy { msg with content := some body, contentLen := body.length } :=
    ⟨h.words, h.key, h.val, h.keyTrimmed, h.valTrimmed⟩
  have hnum := isNumeral_decimal body.length
  have hbytes : (CString.ofBytes (decimal body.length)).bytes = decimal body.length :=
    CString.bytes_ofBytes (nul_not_mem_decimal _)
  have hkey : ∀ c ∈ hmsContentLength.bytes, c ≠ colon ∧ c ≠ newline ∧ c ≠ carriageReturn := by
    decide
  have htrim : Trimmed isspace hmsContentLength.bytes := by decide
  refine h'.addNamedHeader ⟨hmsContentLength, CString.ofBytes (decimal body.length)⟩
    hkey ?_ htrim ?_
  · rw [hbytes]
    intro c hc
    exact ⟨ne_of_isdigit (hnum.2 c hc) (by decide), ne_of_isdigit (hnum.2 c hc) (by decide)⟩
  · rw [hbytes]
    exact hnum.trimmed

/-- The words of the first line. -/
theorem words_verbMsg (first : List UInt8) :
    (verbMsg first).words = (tokens wordSep first).map CString.ofBytes := by
  unfold verbMsg
  cases tokens wordSep first with
  | nil => rfl
  | cons verb words =>
    simp [readWords, foldl_addHeader, HmsMsg.words, hmsMsgSetVerb, hmsMsgCreate]

theorem namedHeaders_verbMsg (first : List UInt8) : (verbMsg first).namedHeaders = [] := by
  unfold verbMsg
  cases tokens wordSep first with
  | nil => rfl
  | cons verb words => simp [readWords, foldl_addHeader, hmsMsgSetVerb, hmsMsgCreate]

theorem tidy_verbMsg {first : List UInt8} (h : LineBytes first) : Tidy (verbMsg first) := by
  have hnil := namedHeaders_verbMsg first
  refine ⟨fun w hw => ?_, by simp [hnil], by simp [hnil], by simp [hnil], by simp [hnil]⟩
  rw [words_verbMsg, List.mem_map] at hw
  obtain ⟨t, ht, rfl⟩ := hw
  obtain ⟨hne, hbytes⟩ := mem_tokens ht
  rw [CString.bytes_ofBytes fun hc => (h nul (hbytes nul hc).2).2.2 rfl]
  refine ⟨hne, fun c hc => ?_⟩
  obtain ⟨hsep, hmem⟩ := hbytes c hc
  have hsep' : c ≠ space ∧ c ≠ tab := by simpa [wordSep] using hsep
  exact ⟨hsep'.1, hsep'.2, (h c hmem).1, (h c hmem).2.1⟩

/-- Every header that is read is tidy. -/
theorem tidy_headerMsg {lines : List (List UInt8)} (h : ∀ l ∈ lines, LineBytes l) :
    Tidy (headerMsg lines) := by
  cases lines with
  | nil =>
    have hwords : (headerMsg []).words = [] := rfl
    have hnil : (headerMsg []).namedHeaders = [] := rfl
    exact ⟨by simp [hwords], by simp [hnil], by simp [hnil], by simp [hnil], by simp [hnil]⟩
  | cons first named =>
    have hfold : ∀ (ls : List (List UInt8)) (m : HmsMsg), (∀ l ∈ ls, LineBytes l) → Tidy m →
        Tidy (ls.foldl readNamed m) := by
      intro ls
      induction ls with
      | nil => exact fun _ _ hm => hm
      | cons l ls ih =>
        intro m hls hm
        exact ih _ (fun x hx => hls x (by simp [hx])) (hm.readNamed (hls l (by simp)))
    exact hfold named _ (fun l hl => h l (by simp [hl])) (tidy_verbMsg (h first (by simp)))

/-! ## Which named headers there are -/

/-- Named headers leave the verb line alone. -/
theorem verbLine_foldl_readNamed (ls : List (List UInt8)) (msg : HmsMsg) :
    (ls.foldl readNamed msg).verb = msg.verb ∧ (ls.foldl readNamed msg).headers = msg.headers := by
  induction ls generalizing msg with
  | nil => exact ⟨rfl, rfl⟩
  | cons l ls ih =>
    obtain ⟨h1, h2⟩ := ih (readNamed msg l)
    exact ⟨h1.trans (verb_addNamedHeader msg _ _), h2.trans (headers_addNamedHeader msg _ _)⟩

theorem words_headerMsg_cons (first : List UInt8) (named : List (List UInt8)) :
    (headerMsg (first :: named)).words = (tokens wordSep first).map CString.ofBytes := by
  obtain ⟨h1, h2⟩ := verbLine_foldl_readNamed named (verbMsg first)
  rw [← words_verbMsg, headerMsg, HmsMsg.words, h1, h2, HmsMsg.words]

theorem namedHeaders_foldl_readNamed (ls : List (List UInt8)) (msg : HmsMsg) :
    (ls.foldl readNamed msg).namedHeaders =
      (ls.map lineHeader).foldl (upsert CString.caseEq HmsMsgNheader.key) msg.namedHeaders := by
  induction ls generalizing msg with
  | nil => rfl
  | cons l ls ih =>
    rw [List.foldl_cons, ih, readNamed_eq, namedHeaders_addNamedHeader]
    rfl

/-- A key is in the header if a line has it. -/
theorem any_hasKey_headerMsg (lines : List (List UInt8)) (k : CString) :
    (headerMsg lines).namedHeaders.any (HmsMsgNheader.hasKey k) =
      lines.tail.any fun l => (lineHeader l).hasKey k := by
  cases lines with
  | nil => rfl
  | cons first named =>
    have h : ((named.map lineHeader).foldl (upsert CString.caseEq HmsMsgNheader.key)
        (verbMsg first).namedHeaders).any (fun b => b.key.caseEq k) = _ :=
      any_foldl_upsert keyEquiv_caseEq k (named.map lineHeader) (verbMsg first).namedHeaders
    rw [headerMsg, namedHeaders_foldl_readNamed]
    rw [namedHeaders_verbMsg] at h ⊢
    rw [List.any_nil, Bool.false_or, List.any_map] at h
    exact h

/-- The value found under a key is that of its last line. -/
theorem lookup_headerMsg (lines : List (List UInt8)) (k : CString) :
    (headerMsg lines).lookup k =
      ((lines.tail.filter fun l => (lineHeader l).hasKey k).getLast?).map fun l =>
        (lineHeader l).val := by
  cases lines with
  | nil => rfl
  | cons first named =>
    have h : ((named.map lineHeader).foldl (upsert CString.caseEq HmsMsgNheader.key) []).find?
        (fun b => b.key.caseEq k) = _ :=
      find?_foldl_upsert keyEquiv_caseEq k (named.map lineHeader) List.Pairwise.nil
    unfold HmsMsg.lookup HmsMsgNheader.hasKey
    rw [headerMsg, namedHeaders_foldl_readNamed, namedHeaders_verbMsg, h, List.filter_map,
      List.getLast?_map]
    simp [Function.comp_def]

/-! ## The lines of a frame -/

theorem lineBytes_headerLines {s : List UInt8} (f : Frame s) {l : List UInt8}
    (hl : l ∈ headerLines f.parsed) : LineBytes l := by
  intro c hc
  obtain ⟨hsep, hmem⟩ := (mem_tokens hl).2 c hc
  refine ⟨by simpa [lineSep] using hsep, ?_, fun h0 => nul_not_mem_beforeNul f.parsed (h0 ▸ hmem)⟩
  obtain ⟨d, -, rfl⟩ := List.mem_map.1 (mem_of_mem_beforeNul hmem)
  exact crToSpace_ne d

/-! ## Parsed messages -/

theorem bodyless_headerMsg {lines : List (List UInt8)} : Bodyless (headerMsg lines) := by
  cases lines with
  | nil => exact bodyless_create
  | cons first named =>
    have hverb : Bodyless (verbMsg first) := by
      unfold verbMsg
      cases tokens wordSep first with
      | nil => exact bodyless_create
      | cons verb words => exact bodyless_create.readWords verb words
    have hfold : ∀ (ls : List (List UInt8)) (m : HmsMsg), Bodyless m →
        Bodyless (ls.foldl readNamed m) := by
      intro ls
      induction ls with
      | nil => exact fun _ hm => hm
      | cons l ls ih => exact fun m hm => ih _ (hm.readNamed l)
    exact hfold named _ hverb

/-- In an accepted header the length is looked up as the value of its last line. -/
theorem lookup_length {s : List UInt8} (f : Frame s) :
    (headerMsg (headerLines f.parsed)).lookup hmsContentLength =
      (lengthLine (headerLines f.parsed)).map fun l => (lineHeader l).val := by
  rw [lookup_headerMsg, lengthLine]
  congr 2
  refine List.filter_congr fun l hl => ?_
  rw [Bool.eq_iff_iff, decide_eq_true_iff]
  exact (lineBytes_headerLines f (List.mem_of_mem_tail hl)).hasKey_length

/-! ## The size of a parsed header -/

/-- The bytes a named header takes. -/
def HmsMsgNheader.width (hdr : HmsMsgNheader) : ℕ :=
  hdr.line.length + 1

/-- Neither the key nor the value of a named-header line has white space at an end. -/
def FieldsTrimmed (line : List UInt8) : Prop :=
  Trimmed isspace (line.takeWhile (· != colon)) ∧
    Trimmed isspace ((line.dropWhile (· != colon)).drop 1)

/-- A named header is no longer than its line, and as long if there was nothing to trim. -/
theorem width_lineHeader {line : List UInt8} (h : LineBytes line) (hc : colon ∈ line) :
    (lineHeader line).width ≤ line.length + 1 ∧
      ((lineHeader line).width = line.length + 1 ↔ FieldsTrimmed line) := by
  have hrest : 0 < (line.dropWhile (· != colon)).length := by
    refine List.length_pos_iff.2 fun hnil => ?_
    simpa using List.dropWhile_eq_nil_iff.1 hnil colon hc
  have hsplit := congrArg List.length (List.takeWhile_append_dropWhile (p := (· != colon)) (l := line))
  rw [List.length_append] at hsplit
  have hwidth : (lineHeader line).width = (keyText line).length + (valText line).length + 2 := by
    simp only [HmsMsgNheader.width, HmsMsgNheader.line, h.bytes_key, h.bytes_val,
      List.length_append, List.length_cons]
    omega
  have hkey := length_trim_le isspace (line.takeWhile (· != colon))
  have hval := length_trim_le isspace ((line.dropWhile (· != colon)).drop 1)
  have hdrop := List.length_drop (i := 1) (l := line.dropWhile (· != colon))
  rw [FieldsTrimmed, ← length_trim_eq_iff, ← length_trim_eq_iff, hwidth]
  unfold keyText valText
  omega

theorem length_encodeHeader_eq {msg : HmsMsg} (hv : msg.verb ≠ none) :
    (encodeHeader msg).length = (msg.words.map fun w => w.bytes.length + 1).sum +
      (msg.namedHeaders.map HmsMsgNheader.width).sum + 2 := by
  obtain ⟨verb, hverb⟩ := Option.ne_none_iff_exists'.1 hv
  have h1 : (msg.headers.map fun uhdr => 1 + uhdr.length) =
      msg.headers.map fun w => w.bytes.length + 1 :=
    List.map_congr_left fun w _ => Nat.add_comm _ _
  have h2 : (msg.namedHeaders.map fun nhdr => nhdr.key.length + 1 + nhdr.val.length + 1) =
      msg.namedHeaders.map HmsMsgNheader.width := by
    refine List.map_congr_left fun hdr _ => ?_
    simp [HmsMsgNheader.width, HmsMsgNheader.line, CString.length]
    omega
  rw [length_encodeHeader msg hverb, h1, h2]
  simp [HmsMsg.words, hverb, CString.length]
  omega

/-- The words and the named headers of accepted lines take no more room than the lines, and
as much if the lines have nothing to drop. -/
theorem size_headerMsg {first : List UInt8} {named : List (List UInt8)}
    (hb : ∀ l ∈ first :: named, LineBytes l) (hok : HeaderOk (first :: named)) :
    ((headerMsg (first :: named)).words.map fun w => w.bytes.length + 1).sum +
        ((headerMsg (first :: named)).namedHeaders.map HmsMsgNheader.width).sum ≤
          ((first :: named).map fun l => l.length + 1).sum ∧
      (((headerMsg (first :: named)).words.map fun w => w.bytes.length + 1).sum +
        ((headerMsg (first :: named)).namedHeaders.map HmsMsgNheader.width).sum =
          ((first :: named).map fun l => l.length + 1).sum ↔
        [] ∉ first.splitOnP wordSep ∧ (∀ line ∈ named, FieldsTrimmed line) ∧
          named.Pairwise fun a b => caseEq (keyText a) (keyText b) = false) := by
  obtain ⟨hwords, hwordsEq⟩ := sum_length_tokens wordSep first
  have hbytes : ((tokens wordSep first).map CString.ofBytes).map (fun w => w.bytes.length + 1) =
      (tokens wordSep first).map fun t => t.length + 1 := by
    rw [List.map_map]
    refine List.map_congr_left fun t ht => ?_
    have hnul : nul ∉ t := fun hc => (hb first (by simp) nul ((mem_tokens ht).2 nul hc).2).2.2 rfl
    simp [CString.bytes_ofBytes hnul]
  have hkeys := sum_foldl_upsert_le CString.caseEq HmsMsgNheader.key HmsMsgNheader.width
    (named.map lineHeader) []
  have hkeysEq : _ ↔ CLib.KeysDistinct CString.caseEq HmsMsgNheader.key
      ([] ++ named.map lineHeader) :=
    sum_foldl_upsert_eq_iff (w := HmsMsgNheader.width) (fun _ => Nat.succ_pos _)
      (named.map lineHeader) List.Pairwise.nil
  have hwidth : ∀ l ∈ named, (lineHeader l).width ≤ l.length + 1 ∧
      ((lineHeader l).width = l.length + 1 ↔ FieldsTrimmed l) := fun l hl =>
    width_lineHeader (hb l (by simp [hl])) (hok.2 l hl).1
  have htrim : ((named.map lineHeader).map HmsMsgNheader.width).sum ≤
      (named.map fun l => l.length + 1).sum := by
    rw [List.map_map]
    exact List.sum_le_sum fun l hl => (hwidth l hl).1
  have htrimEq : ((named.map lineHeader).map HmsMsgNheader.width).sum =
      (named.map fun l => l.length + 1).sum ↔ ∀ l ∈ named, FieldsTrimmed l := by
    rw [List.map_map]
    exact (sum_map_eq_iff fun l hl => (hwidth l hl).1).trans
      (forall₂_congr fun l hl => (hwidth l hl).2)
  have hdistinct : CLib.KeysDistinct CString.caseEq HmsMsgNheader.key ([] ++ named.map lineHeader) ↔
      named.Pairwise fun a b => caseEq (keyText a) (keyText b) = false := by
    rw [List.nil_append, CLib.KeysDistinct, List.pairwise_map]
    refine List.Pairwise.iff_of_mem fun {a b} ha hb' => ?_
    rw [CString.caseEq, (hb a (by simp [ha])).bytes_key, (hb b (by simp [hb'])).bytes_key]
  rw [words_headerMsg_cons, hbytes, headerMsg, namedHeaders_foldl_readNamed, namedHeaders_verbMsg,
    List.map_cons, List.sum_cons, ← hwordsEq, ← htrimEq, ← hdistinct, ← hkeysEq]
  simp only [List.map_nil, List.sum_nil] at hkeys ⊢
  omega

/-- A header with nothing that printing drops : blanks behind the period, bytes behind a NUL,
empty lines, blanks around words, keys and values, a key given twice, a length spelled longer
than it need be. -/
structure Frame.Tight {s : List UInt8} (f : Frame s) : Prop where
  blanks : f.blanks = []
  noNul : nul ∉ f.parsed
  lines : [] ∉ f.parsed.splitOnP lineSep
  words : ∀ first ∈ (headerLines f.parsed).head?, [] ∉ first.splitOnP wordSep
  fields : ∀ line ∈ (headerLines f.parsed).tail, FieldsTrimmed line
  distinct : (headerLines f.parsed).tail.Pairwise fun a b =>
    caseEq (keyText a) (keyText b) = false
  length : ∀ line ∈ lengthLine (headerLines f.parsed),
    (decimal (atoi (valText line)).toNat).length = (valText line).length

namespace Decodes

variable {s left : List UInt8} {f : Frame s} {msg : HmsMsg} (h : Decodes f msg left)
include h

theorem words_eq : msg.words = (headerMsg (headerLines f.parsed)).words := by
  rcases h.body with ⟨-, rfl, -⟩ | ⟨n, -, -, -, -, rfl, -⟩
  · rfl
  · simp [HmsMsg.words, withBody]

theorem counted : msg.Counted := by
  rcases h.body with ⟨-, rfl, -⟩ | ⟨n, -, -, -, -, rfl, -⟩
  · exact bodyless_headerMsg.counted
  · exact bodyless_headerMsg.counted.withBody _

theorem distinct : msg.KeysDistinct := by
  rcases h.body with ⟨-, rfl, -⟩ | ⟨n, -, -, -, -, rfl, -⟩
  · exact bodyless_headerMsg.distinct
  · exact bodyless_headerMsg.distinct.withBody _

theorem tidy : Tidy msg := by
  have htidy := tidy_headerMsg fun l hl => lineBytes_headerLines f (l := l) hl
  rcases h.body with ⟨-, rfl, -⟩ | ⟨n, -, -, -, -, rfl, -⟩
  · exact htidy
  · exact htidy.withBody _

theorem bodyAgrees : msg.BodyAgrees := by
  rcases h.body with ⟨hnone, rfl, -⟩ | ⟨n, -, -, hmax, -, rfl, -⟩
  · refine bodyless_headerMsg.bodyAgrees ?_
    rw [lookup_length, hnone]
    rfl
  · refine BodyAgrees.withBody bodyless_headerMsg.distinct ?_
    have := List.length_take_le n f.rest
    omega

/-- The body and what is left are the rest of the stream. -/
theorem rest_eq : f.rest = msg.body ++ left := by
  rcases h.body with ⟨-, rfl, rfl⟩ | ⟨n, -, -, -, -, rfl, rfl⟩
  · simp [HmsMsg.body, bodyless_headerMsg.content]
  · simp [HmsMsg.body, withBody]

/-- A parsed message has a verb if its header has a line. -/
theorem verb_eq_none : msg.verb = none ↔ headerLines f.parsed = [] := by
  have hverb : msg.verb = (headerMsg (headerLines f.parsed)).verb := by
    rcases h.body with ⟨-, rfl, -⟩ | ⟨n, -, -, -, -, rfl, -⟩
    · rfl
    · simp [withBody]
  have hok := h.header
  rw [hverb]
  cases hl : headerLines f.parsed with
  | nil => exact ⟨fun _ => rfl, fun _ => rfl⟩
  | cons first named =>
    rw [hl] at hok
    obtain ⟨verb, words, hw⟩ := List.exists_cons_of_ne_nil hok.1
    rw [headerMsg, (verbLine_foldl_readNamed named _).1, verbMsg, hw]
    simp [readWords, foldl_addHeader, hmsMsgSetVerb]

theorem lineClean (hv : msg.verb ≠ none) : msg.LineClean :=
  ⟨hv, h.tidy.words, h.tidy.key, h.tidy.val⟩

/-- A parsed message that does not end its own header survives printing and parsing. -/
theorem wireClean (hv : msg.verb ≠ none)
    (hlast : ∀ w ∈ msg.words.getLast?, w.bytes.getLast? ≠ some dot)
    (hdot : ∀ hdr ∈ msg.namedHeaders, hdr.val.bytes.getLast? ≠ some dot) : msg.WireClean := by
  refine ⟨h.lineClean hv, hlast, h.tidy.keyTrimmed, h.tidy.valTrimmed, hdot, h.distinct, ?_, ?_⟩
  · intro body hbody
    rcases h.body with ⟨-, rfl, -⟩ | ⟨n, -, hpos, hmax, hle, rfl, -⟩
    · simp [bodyless_headerMsg.content] at hbody
    · have hlen : (f.rest.take n).length = n := by simpa using hle
      obtain rfl : f.rest.take n = body := by simpa [withBody] using hbody
      omega
  · rcases h.body with ⟨hnone, rfl, -⟩ | ⟨n, -, -, -, -, rfl, -⟩
    · rw [lookup_length, hnone, bodyless_headerMsg.content]
      rfl
    · rw [lookup_withBody bodyless_headerMsg.distinct]
      simp [withBody]

/-- A parsed message is as it would be received again. -/
theorem received_eq : msg.received = msg := by
  have hnamed : msg.received.namedHeaders = msg.namedHeaders := by
    rcases h.body with ⟨hnone, rfl, -⟩ | ⟨n, -, -, -, -, rfl, -⟩
    · have hlookup : (headerMsg (headerLines f.parsed)).lookup hmsContentLength = none := by
        rw [lookup_length, hnone]
        rfl
      have hno : ∀ hdr ∈ (headerMsg (headerLines f.parsed)).namedHeaders,
          (!hdr.hasKey hmsContentLength) = true := by
        intro hdr hmem
        cases hk : hdr.hasKey hmsContentLength with
        | false => rfl
        | true => simp [lookup_of_mem bodyless_headerMsg.distinct hmem hk] at hlookup
      simp [HmsMsg.received, bodyless_headerMsg.content, List.filter_eq_self.2 hno]
    · have hkey : ∀ v, HmsMsgNheader.hasKey hmsContentLength ⟨hmsContentLength, v⟩ = true :=
        fun v => keyEquiv_caseEq.refl hmsContentLength
      have herase : ∀ hdrs : List HmsMsgNheader,
          CLib.KeysDistinct CString.caseEq HmsMsgNheader.key hdrs →
          eraseKey CString.caseEq HmsMsgNheader.key hmsContentLength hdrs =
            hdrs.filter fun hdr => !hdr.hasKey hmsContentLength :=
        fun hdrs => eraseKey_eq_filter keyEquiv_caseEq hmsContentLength
      have hnew : (withBody (headerMsg (headerLines f.parsed)) (f.rest.take n)).namedHeaders =
          ((headerMsg (headerLines f.parsed)).namedHeaders.filter fun hdr =>
            !hdr.hasKey hmsContentLength) ++
              [⟨hmsContentLength, CString.ofBytes (decimal (f.rest.take n).length)⟩] := by
        rw [withBody, namedHeaders_addNamedHeader, upsert, herase _ bodyless_headerMsg.distinct]
      have hcontent : (withBody (headerMsg (headerLines f.parsed)) (f.rest.take n)).content =
          some (f.rest.take n) := by simp [withBody]
      simp only [HmsMsg.received, hnew, hcontent]
      simp [hkey]
  refine HmsMsg.ext rfl rfl h.counted.headers.symm hnamed ?_ h.bodyAgrees.length.symm rfl
  rw [h.counted.namedHeaders, ← hnamed]
  rfl

/-- The new `Content-Length` is no longer than the one it replaces. -/
theorem sum_width : (msg.namedHeaders.map HmsMsgNheader.width).sum ≤
      ((headerMsg (headerLines f.parsed)).namedHeaders.map HmsMsgNheader.width).sum ∧
    ((msg.namedHeaders.map HmsMsgNheader.width).sum =
        ((headerMsg (headerLines f.parsed)).namedHeaders.map HmsMsgNheader.width).sum ↔
      ∀ line ∈ lengthLine (headerLines f.parsed),
        (decimal (atoi (valText line)).toNat).length = (valText line).length) := by
  rcases h.body with ⟨hnone, rfl, -⟩ | ⟨n, hn, hpos, -, hle, rfl, -⟩
  · simp [hnone]
  · rw [bodyLength_eq] at hn
    obtain ⟨line, hline, hval⟩ : ∃ line, lengthLine (headerLines f.parsed) = some line ∧
        atoi (valText line) = n := by
      cases hl : lengthLine (headerLines f.parsed) with
      | none =>
        simp [hl] at hn
        omega
      | some line => exact ⟨line, rfl, by simpa [hl] using hn⟩
    have hlookup := lookup_length f
    rw [hline, Option.map_some] at hlookup
    obtain ⟨old, hfind, hold⟩ := Option.map_eq_some_iff.1 hlookup
    have hsame : old.hasKey hmsContentLength = true := List.find?_some hfind
    have hkey : old.key.bytes.length = hmsContentLength.bytes.length :=
      length_eq_of_caseEq hsame
    have hlen : (f.rest.take n).length = n := by simpa using hle
    have hmem := List.mem_of_mem_tail (mem_of_lengthLine hline).1
    have hdecimal : (decimal n).length ≤ (valText line).length := length_decimal_atoi_le hval hpos
    set new : HmsMsgNheader := ⟨hmsContentLength, CString.ofBytes (decimal n)⟩ with hnew
    have hsum : ((upsert CString.caseEq HmsMsgNheader.key
        (headerMsg (headerLines f.parsed)).namedHeaders new).map HmsMsgNheader.width).sum +
          old.width = _ :=
      sum_upsert_of_find? HmsMsgNheader.width hfind
    have hwidth : new.width + (valText line).length = old.width + (decimal n).length := by
      simp only [hnew, HmsMsgNheader.width, HmsMsgNheader.line, List.length_append,
        List.length_cons, hkey, hold, (lineBytes_headerLines f hmem).bytes_val,
        CString.bytes_ofBytes (nul_not_mem_decimal n)]
      omega
    have hall : (∀ l ∈ lengthLine (headerLines f.parsed),
        (decimal (atoi (valText l)).toNat).length = (valText l).length) ↔
          (decimal n).length = (valText line).length := by
      simp [hline, hval]
    rw [withBody, namedHeaders_addNamedHeader, hlen, ← hnew, hall]
    show ((upsert CString.caseEq HmsMsgNheader.key
        (headerMsg (headerLines f.parsed)).namedHeaders new).map HmsMsgNheader.width).sum ≤ _ ∧
      (((upsert CString.caseEq HmsMsgNheader.key
        (headerMsg (headerLines f.parsed)).namedHeaders new).map HmsMsgNheader.width).sum = _ ↔ _)
    omega

/-- A parsed message prints in at most one byte more than its header took, and takes that byte
just if printing drops nothing. -/
theorem length_encodeHeader (hv : msg.verb ≠ none) : (encodeHeader msg).length ≤ f.size + 1 ∧
    ((encodeHeader msg).length = f.size + 1 ↔ f.Tight) := by
  obtain ⟨first, named, hl⟩ := List.exists_cons_of_ne_nil fun hnil => hv (h.verb_eq_none.2 hnil)
  have hb : ∀ l ∈ first :: named, LineBytes l := fun l hmem =>
    lineBytes_headerLines f (hl ▸ hmem)
  obtain ⟨hsize, hsizeEq⟩ := size_headerMsg hb (hl ▸ h.header)
  obtain ⟨hlines, hlinesEq⟩ := sum_length_tokens lineSep (beforeNul f.parsed)
  have htokens : tokens lineSep (beforeNul f.parsed) = first :: named := hl
  rw [htokens] at hlines hlinesEq
  obtain ⟨hnamed, hnamedEq⟩ := h.sum_width
  rw [hl] at hnamed hnamedEq
  have hprefix := (beforeNul_isPrefix f.parsed).length_le
  have htext : f.parsed.length = f.text.length := List.length_map _
  have htight : f.Tight ↔ f.blanks.length = 0 ∧
      (beforeNul f.parsed).length = f.parsed.length ∧ [] ∉ (beforeNul f.parsed).splitOnP lineSep ∧
      ([] ∉ first.splitOnP wordSep ∧ (∀ line ∈ named, FieldsTrimmed line) ∧
        named.Pairwise fun a b => caseEq (keyText a) (keyText b) = false) ∧
      ∀ line ∈ lengthLine (first :: named),
        (decimal (atoi (valText line)).toNat).length = (valText line).length := by
    rw [length_beforeNul_eq_iff, List.length_eq_zero_iff]
    constructor
    · rintro ⟨h1, h2, h3, h4, h5, h6, h7⟩
      rw [hl] at h4 h5 h6 h7
      rw [beforeNul_of_not_mem h2]
      exact ⟨h1, h2, h3, ⟨h4 first rfl, h5, h6⟩, h7⟩
    · rintro ⟨h1, h2, h3, ⟨h4, h5, h6⟩, h7⟩
      rw [beforeNul_of_not_mem h2] at h3
      refine ⟨h1, h2, h3, ?_, by rwa [hl], by rwa [hl], by rwa [hl]⟩
      rw [hl]
      rintro l ⟨⟩
      exact h4
  rw [htight, ← hlinesEq, ← hsizeEq, ← hnamedEq, length_encodeHeader_eq hv, h.words_eq, hl,
    Frame.size]
  omega

end Decodes

end Hermes
