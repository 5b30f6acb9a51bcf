import Hermes.RoundTrip
import Hermes.Trimming

/-!
# The parser test and the benchmark

`hms_parser_test1.c` parses the messages of its input one by one and prints each of them, and
`bench1.c` writes messages for it. The test prints a header of at most 1023 bytes, terminated in
its buffer of 1024, and a body as a string, which `hms_msg_get_body` does not terminate. So it
returns just if every message it reads has a verb, such a header, and a body with a NUL in it
(`parserTest_returns_iff`).

The bodies of `bench1.c` are random letters. Its messages are parsed as they were meant, and none
can be printed (`parserTest_bench`).
-/

open CLib

namespace Hermes

/-! ## The test -/

/-- `max_hdr_size`. -/
def testMaxHdrSize : ℤ := 1024

/-- `printf("%s", s)` of a pointer that may be `NULL`. -/
def printString : Option (List UInt8) → Run (List UInt8)
  | some s => do
    let text ← stringAt (cells s) 0
    return text.bytes
  | none => .error .undefined

/-- The body of the loop of `main` : what is printed of a message. -/
def parserTestMsg (msg : HmsMsg) : Run (List UInt8) := do
  let served ← malloc (toSize testMaxHdrSize)
  let buffer := if served then Buffer.uninit (toSize testMaxHdrSize) else []
  let hdrSz ← hmsMsgGetHeaderSize msg
  let (_, buffer) ← hmsMsgPrintHeader msg buffer testMaxHdrSize
  let buffer ← store buffer (toSize hdrSz) nul
  let header ← stringAt buffer 0
  let (_, body, _) ← hmsMsgGetBody msg
  let text ← printString body
  hmsMsgDestroy msg
  return header.bytes ++ text

/-- The loop of `main`, with `left` messages to go at most. -/
def parserTestLoop : ℕ → ReadSide → List UInt8 → Run (List UInt8 × ReadSide)
  | 0, sock, out => .ok (out, sock)
  | left + 1, sock, out => do
    let (msg, sock) ← hmsMsgParse sock testMaxHdrSize
    match msg with
    | none => return (out, sock)
    | some msg => do
      let text ← parserTestMsg msg
      parserTestLoop left sock (out ++ text)

/-- `main` of `hms_parser_test1.c` : what it has printed, and what it has left of its input. -/
def parserTest (stdin : ReadSide) : Run (List UInt8 × ReadSide) :=
  parserTestLoop 1000000 stdin []

/-! ## What it prints -/

/-- The messages that are read one by one, at most `n`, and what is left. -/
noncomputable def readMessages (maxHdrLen : ℤ) : ℕ → List UInt8 → Run (List HmsMsg × List UInt8)
  | 0, s => .ok ([], s)
  | n + 1, s => do
    let (msg, left) ← decode maxHdrLen s
    match msg with
    | none => return ([], left)
    | some msg => do
      let (msgs, left) ← readMessages maxHdrLen n left
      return (msg :: msgs, left)

/-- A message that can be printed. -/
structure Printable (msg : HmsMsg) : Prop where
  verb : msg.verb ≠ none
  header : (encodeHeader msg).length < 1024
  body : nul ∈ msg.body

/-- The text of a message : its header, and its body up to the first NUL. -/
def shownText (msg : HmsMsg) : List UInt8 :=
  encodeHeader msg ++ beforeNul msg.body

/-- A step of the printer that goes on in its buffer. -/
def Stays (step : Buffer × ℕ → Run (Buffer × ℕ)) : Prop :=
  ∀ out out', step out = .ok out' → out.2 ≤ out.1.length →
    out.2 ≤ out'.2 ∧ out'.2 ≤ out'.1.length ∧ out'.1.length = out.1.length

theorem length_of_copyTo : ∀ {src : List UInt8} {b b' : Buffer} {i : ℕ},
    copyTo b i src = .ok b' → b'.length = b.length
  | [], b, b', i, h => by
    cases h
    rfl
  | c :: src, b, b', i, h => by
    obtain ⟨b₁, hstore, hcopy⟩ := bind_eq_ok.1 h
    rw [length_of_copyTo hcopy]
    unfold store at hstore
    split_ifs at hstore with hi
    cases hstore
    exact List.length_set

theorem stays_printBytes (src : List UInt8) : Stays fun out => printBytes out src := by
  intro out out' h hle
  obtain ⟨b, hcopy, h⟩ := bind_eq_ok.1 h
  cases h
  refine ⟨Nat.le_add_right _ _, ?_, length_of_copyTo hcopy⟩
  show out.2 + src.length ≤ b.length
  rw [length_of_copyTo hcopy]
  by_contra hlt
  have hne : src ≠ [] := by
    rintro rfl
    exact hlt hle
  rw [copyTo_overflow hne (by omega)] at hcopy
  cases hcopy

theorem Stays.andThen {f g : Buffer × ℕ → Run (Buffer × ℕ)} (hf : Stays f) (hg : Stays g) :
    Stays fun out => f out >>= g := by
  intro out out' h hle
  obtain ⟨out₁, hout₁, hout'⟩ := bind_eq_ok.1 h
  obtain ⟨h1, h2, h3⟩ := hf out out₁ hout₁ hle
  obtain ⟨h4, h5, h6⟩ := hg out₁ out' hout' h2
  exact ⟨h1.trans h4, h5, h6.trans h3⟩

theorem Stays.foldlM {α : Type} {body : Buffer × ℕ → α → Run (Buffer × ℕ)}
    (h : ∀ a, Stays fun out => body out a) : ∀ l : List α, Stays fun out => l.foldlM body out
  | [] => fun out out' hrun hle => by
    cases hrun
    exact ⟨le_rfl, hle, rfl⟩
  | a :: l => by
    simpa only [List.foldlM_cons] using (h a).andThen (Stays.foldlM h l)

/-- The printer behind the verb. -/
def printBehindVerb (msg : HmsMsg) (out : Buffer × ℕ) : Run (Buffer × ℕ) :=
  msg.headers.foldlM (fun out uhdr => printBytes out [space] >>= fun out =>
      printBytes out uhdr.bytes) out >>= fun out =>
    printBytes out [newline] >>= fun out =>
      msg.namedHeaders.foldlM (fun out nhdr => printBytes out nhdr.key.bytes >>= fun out =>
          printBytes out [colon] >>= fun out => printBytes out nhdr.val.bytes >>= fun out =>
            printBytes out [newline]) out >>= fun out =>
        printBytes out [dot, newline]

theorem hmsMsgPrintHeader_eq (msg : HmsMsg) (buffer : Buffer) (len : ℤ) :
    hmsMsgPrintHeader msg buffer len = (hmsMsgGetHeaderSize msg >>= fun hdrLen =>
      printBytes (buffer, 0) ((msg.verb.map CString.bytes).getD []) >>= fun out =>
        printBehindVerb msg out >>= fun out =>
          hmsAssertEquals hdrLen (toInt out.2) >>= fun _ => .ok (0, out.1)) := by
  unfold hmsMsgPrintHeader printBehindVerb
  cases msg.verb <;> simp only [bind_assoc] <;> rfl

theorem stays_printBehindVerb (msg : HmsMsg) : Stays (printBehindVerb msg) :=
  (Stays.foldlM (fun _ => (stays_printBytes _).andThen (stays_printBytes _)) _).andThen
    ((stays_printBytes _).andThen
      ((Stays.foldlM (fun _ => (stays_printBytes _).andThen ((stays_printBytes _).andThen
        ((stays_printBytes _).andThen (stays_printBytes _)))) _).andThen (stays_printBytes _)))

/-- The period and the newline are printed last. -/
theorem two_le_printBehindVerb {msg : HmsMsg} {out out' : Buffer × ℕ}
    (h : printBehindVerb msg out = .ok out') : 2 ≤ out'.2 := by
  obtain ⟨_, -, h⟩ := bind_eq_ok.1 h
  obtain ⟨_, -, h⟩ := bind_eq_ok.1 h
  obtain ⟨_, -, h⟩ := bind_eq_ok.1 h
  obtain ⟨_, -, h⟩ := bind_eq_ok.1 h
  cases h
  exact Nat.le_add_left _ _

/-- The printer that returns had room for its header, of two bytes at least. -/
theorem printHeader_room {msg : HmsMsg} {buffer buffer' : Buffer} {len ret : ℤ}
    (h : hmsMsgPrintHeader msg buffer len = .ok (ret, buffer'))
    (hmax : (buffer.length : ℤ) ≤ intMax) :
    ∃ size : ℕ, hmsMsgGetHeaderSize msg = .ok size ∧ 2 ≤ size ∧ size ≤ buffer.length := by
  rw [hmsMsgPrintHeader_eq] at h
  obtain ⟨hdrLen, hsize, h⟩ := bind_eq_ok.1 h
  obtain ⟨out₁, hverb, h⟩ := bind_eq_ok.1 h
  obtain ⟨out₂, hbehind, h⟩ := bind_eq_ok.1 h
  obtain ⟨_, hassert, -⟩ := bind_eq_ok.1 h
  obtain ⟨-, h1, h2⟩ := stays_printBytes _ _ _ hverb (Nat.zero_le _)
  obtain ⟨-, h3, h4⟩ := stays_printBehindVerb msg _ _ hbehind h1
  have hle : out₂.2 ≤ buffer.length := by
    rw [← h2, ← h4]
    exact h3
  have hlow : intMin ≤ (out₂.2 : ℤ) := by
    unfold intMin
    omega
  have heq : hdrLen = out₂.2 := by
    rw [toInt_of_range hlow (by omega), hmsAssertEquals] at hassert
    by_contra hne
    rw [assert_of_not (Ne.symm hne)] at hassert
    cases hassert
  exact ⟨out₂.2, by rw [hsize, heq], two_le_printBehindVerb hbehind, hle⟩

/-- A body is printed up to its first NUL, and cannot be if it has none. -/
theorem printString_some (s : List UInt8) : printString (some s) =
    if nul ∈ s then .ok (beforeNul s) else .error .undefined := by
  rw [printString]
  split_ifs with h
  · rcases eq_beforeNul_or s with hs | ⟨hidden, hs⟩
    · rw [hs] at h
      exact absurd h (nul_not_mem_beforeNul s)
    · have hat := stringAt_at [] (cells hidden) (nul_not_mem_beforeNul s) (i := 0) rfl
      rw [List.nil_append, ← cells_cons, ← cells_append, ← hs] at hat
      rw [hat, ok_bind, CString.bytes_ofBytes (nul_not_mem_beforeNul s)]
      rfl
  · rw [stringAt_unterminated h, error_bind]

section Message

variable {msg : HmsMsg}

/-- A header that fits is terminated behind its last byte, and printed. -/
theorem parserTestMsg_eq {verb : CString} (hv : msg.verb = some verb)
    (hlen : (encodeHeader msg).length < 1024) :
    parserTestMsg msg = (hmsMsgGetBody msg >>= fun r => printString r.2.1 >>= fun text =>
      hmsMsgDestroy msg >>= fun _ => .ok (encodeHeader msg ++ text)) := by
  have hmax : ((encodeHeader msg).length : ℤ) ≤ intMax := by
    unfold intMax
    omega
  have hserved : malloc (toSize testMaxHdrSize) = .ok true := malloc_served (by decide)
  have hsize : toSize testMaxHdrSize = 1024 := by decide
  have hindex : toSize ((encodeHeader msg).length : ℤ) = (encodeHeader msg).length := by
    rw [toSize_of_nonneg (by omega) hmax, Int.toNat_natCast]
  have hroom : (encodeHeader msg).length ≤ (Buffer.uninit 1024).length := by
    rw [length_uninit]
    omega
  have hprint := printHeader_eq hv hmax hroom testMaxHdrSize
  obtain ⟨o, rest, hrest⟩ : ∃ o rest,
      (Buffer.uninit 1024).drop (encodeHeader msg).length = o :: rest :=
    List.exists_cons_of_ne_nil (by simpa using hlen)
  rw [hrest] at hprint
  have hstore := store_at (cells (encodeHeader msg)) o rest nul (length_cells _).symm
  have hnul := nul_not_mem_encodeHeader msg
  have hstring := stringAt_at [] rest hnul (i := 0) rfl
  rw [List.nil_append] at hstring
  rw [parserTestMsg, hserved, ok_bind, hsize, getHeaderSize_eq hv, countInt_ok hmax, ok_bind]
  simp only [if_true]
  rw [hprint, ok_bind]
  simp only [hindex]
  rw [hstore, ok_bind, hstring, ok_bind, CString.bytes_ofBytes hnul]
  rfl

/-- What the test prints of a parsed message. -/
theorem parserTestMsg_iff {s left out : List UInt8} {f : Frame s} (h : Decodes f msg left) :
    parserTestMsg msg = .ok out ↔ Printable msg ∧ out = shownText msg := by
  have hshown : ∀ {verb : CString}, msg.verb = some verb → (encodeHeader msg).length < 1024 →
      (parserTestMsg msg = .ok out ↔ nul ∈ msg.body ∧ out = shownText msg) := by
    intro verb hv hlen
    rw [parserTestMsg_eq hv hlen]
    cases hc : msg.content with
    | none =>
      have hget : hmsMsgGetBody msg = .ok (0, none, 0) := by rw [hmsMsgGetBody, hc]
      rw [hget]
      simp [printString, HmsMsg.body, hc]
    | some body =>
      have hbody : msg.body = body := by simp [HmsMsg.body, hc]
      rw [h.bodyAgrees.getBody hc, ok_bind, printString_some, hbody, shownText, hbody]
      by_cases hnul : nul ∈ body
      · rw [if_pos hnul, ok_bind, h.counted.destroy, ok_bind, Except.ok.injEq]
        exact ⟨fun hout => ⟨hnul, hout.symm⟩, fun hout => hout.2.symm⟩
      · rw [if_neg hnul, error_bind]
        simp [hnul]
  constructor
  · intro hrun
    have hserved : malloc (toSize testMaxHdrSize) = .ok true := malloc_served (by decide)
    have hsize : toSize testMaxHdrSize = 1024 := by decide
    have hcopy := hrun
    rw [parserTestMsg, hserved, ok_bind, hsize] at hcopy
    simp only [if_true] at hcopy
    obtain ⟨hdrSz, hhdr, hcopy⟩ := bind_eq_ok.1 hcopy
    obtain ⟨⟨ret, buffer⟩, hprint, hcopy⟩ := bind_eq_ok.1 hcopy
    obtain ⟨buffer', hstore, -⟩ := bind_eq_ok.1 hcopy
    obtain ⟨size, hget, htwo, hle⟩ := printHeader_room hprint (by rw [length_uninit]; decide)
    have hv : msg.verb ≠ none := fun hnone => by
      rw [hmsMsgGetHeaderSize, hnone, Except.ok.injEq] at hget
      omega
    obtain ⟨verb, hverb⟩ := Option.ne_none_iff_exists'.1 hv
    rw [getHeaderSize_eq hverb, countInt_eq_ok] at hget hhdr
    obtain ⟨hmax, hlen⟩ := hget
    obtain ⟨-, rfl⟩ := hhdr
    rw [length_uninit] at hle
    have hlt : (encodeHeader msg).length < 1024 := by
      by_contra hno
      -- the NUL would be stored behind the buffer
      rw [printHeader_eq hverb hmax (by rw [length_uninit]; omega)] at hprint
      cases hprint
      rw [toSize_of_nonneg (by omega) hmax, Int.toNat_natCast, store, if_neg] at hstore
      · cases hstore
      · rw [List.length_append, length_cells, List.length_drop, length_uninit]
        omega
    obtain ⟨hnul, hout⟩ := (hshown hverb hlt).1 hrun
    exact ⟨⟨hv, hlt, hnul⟩, hout⟩
  · rintro ⟨hp, hout⟩
    obtain ⟨verb, hv⟩ := Option.ne_none_iff_exists'.1 hp.verb
    exact (hshown hv hp.header).2 ⟨hp.body, hout⟩

end Message

/-! ## Its runs -/

theorem parserTestLoop_iff (n : ℕ) (sock : ReadSide) (out res left : List UInt8) :
    (∃ sock', parserTestLoop n sock out = .ok (res, sock') ∧ sock'.unread = left) ↔
      ∃ msgs, readMessages testMaxHdrSize n sock.unread = .ok (msgs, left) ∧
        (∀ msg ∈ msgs, Printable msg) ∧ res = out ++ msgs.flatMap shownText := by
  induction n generalizing sock out with
  | zero =>
    constructor
    · rintro ⟨sock', hrun, rfl⟩
      cases hrun
      exact ⟨[], rfl, by simp, by simp⟩
    · rintro ⟨msgs, hread, -, hres⟩
      cases hread
      exact ⟨sock, by simp [parserTestLoop, hres], rfl⟩
  | succ n ih =>
    constructor
    · rintro ⟨sock', hrun, hleft⟩
      obtain ⟨⟨parsed, sock₁⟩, hparse, hrun⟩ := bind_eq_ok.1 hrun
      have hdecode := hmsMsgParse_ok_iff.1 ⟨sock₁, hparse, rfl⟩
      rw [readMessages, hdecode, ok_bind]
      cases parsed with
      | none =>
        cases hrun
        exact ⟨[], by rw [← hleft]; rfl, by simp, by simp⟩
      | some msg =>
        obtain ⟨text, htext, hrun⟩ := bind_eq_ok.1 hrun
        obtain ⟨-, f, -, hdec⟩ := decode_eq_some.1 hdecode
        obtain ⟨hprintable, rfl⟩ := (parserTestMsg_iff hdec).1 htext
        obtain ⟨msgs, hread, hall, hres⟩ := (ih sock₁ _).1 ⟨sock', hrun, hleft⟩
        refine ⟨msg :: msgs, by dsimp only; rw [hread]; rfl, ?_, ?_⟩
        · exact List.forall_mem_cons.2 ⟨hprintable, hall⟩
        · rw [hres, List.append_assoc, List.flatMap_cons]
    · rintro ⟨msgs, hread, hall, hres⟩
      obtain ⟨⟨parsed, left₁⟩, hdecode, hread⟩ := bind_eq_ok.1 hread
      obtain ⟨sock₁, hparse, hunread⟩ := hmsMsgParse_ok_iff.2 hdecode
      rw [parserTestLoop, hparse, ok_bind]
      cases parsed with
      | none =>
        cases hread
        exact ⟨sock₁, by simp [hres], hunread⟩
      | some msg =>
        obtain ⟨⟨msgs, left₂⟩, hread, hcons⟩ := bind_eq_ok.1 hread
        cases hcons
        obtain ⟨hprintable, hall⟩ := List.forall_mem_cons.1 hall
        obtain ⟨-, f, -, hdec⟩ := decode_eq_some.1 hdecode
        have htext := (parserTestMsg_iff hdec).2 ⟨hprintable, rfl⟩
        rw [← hunread] at hread
        rw [List.flatMap_cons, ← List.append_assoc] at hres
        obtain ⟨sock', hrun, hleft⟩ := (ih sock₁ _).2 ⟨msgs, hread, hall, hres⟩
        exact ⟨sock', by dsimp only; rw [htext, ok_bind, hrun], hleft⟩

/-- For every input and every way it is delivered, the test returns just if each message it reads
can be printed. Then it has printed them in order. -/
theorem parserTest_returns_iff (s : List UInt8) (chunks : ℕ → ℕ) (out left : List UInt8) :
    (∃ sock', parserTest ⟨s, chunks⟩ = .ok (out, sock') ∧ sock'.unread = left) ↔
      ∃ msgs, readMessages testMaxHdrSize 1000000 s = .ok (msgs, left) ∧
        (∀ msg ∈ msgs, Printable msg) ∧ out = msgs.flatMap shownText :=
  parserTestLoop_iff 1000000 ⟨s, chunks⟩ [] out left

/-! ## The benchmark -/

/-- `alphabet`. -/
def alphabet : List UInt8 :=
  ascii "abcdefghijklmnopqrstuvwxyz"

/-- The inner loop of `main` of `bench1.c`, with what `random` gives call by call. -/
def benchLetters (random : ℕ → ℕ) (buffer : Buffer) : Run Buffer :=
  (List.range (1024 - 1)).foldlM (fun buffer i => do
    let c ← load (cells alphabet ++ [some nul]) (random i % alphabet.length)
    store buffer i c) buffer

/-- The outer loop for one message : the buffer, and what is written. -/
def benchMsg (random : ℕ → ℕ) (buffer : Buffer) : Run (Buffer × List UInt8) := do
  let buffer ← benchLetters random buffer
  let buffer ← store buffer 1023 newline
  let buffer ← store buffer 1024 nul
  let len ← strlen buffer 0
  assert (len = 1024)
  let text ← stringAt buffer 0
  return (buffer, ascii "PING\n" ++ (ascii "Content-Length:" ++ sprintfInt 1024 ++ [newline]) ++
    ascii ".\n" ++ text.bytes)

/-- The outer loop for `n` messages, with what `random` gives after `srand(i)`. -/
def benchLoop (random : ℕ → ℕ → ℕ) (n : ℕ) (buffer : Buffer) : Run (Buffer × List UInt8) :=
  (List.range n).foldlM (fun (st : Buffer × List UInt8) i => do
    let (buffer, text) ← benchMsg (random i) st.1
    return (buffer, st.2 ++ text)) (buffer, [])

/-- `main` of `bench1.c` : what it writes. -/
def bench (random : ℕ → ℕ → ℕ) : Run (List UInt8) := do
  let served ← malloc (toSize (1024 + 1))
  let (_, out) ← benchLoop random (1024 * 1024)
    (if served then Buffer.uninit (toSize (1024 + 1)) else [])
  return out

/-- The letter for a random number. -/
def letter (k : ℕ) : UInt8 :=
  alphabet.get ⟨k % alphabet.length, Nat.mod_lt k (by decide)⟩

/-- The body of a message. -/
def benchBody (random : ℕ → ℕ) : List UInt8 :=
  ((List.range 1023).map fun i => letter (random i)) ++ [newline]

/-- A message of `bench1.c`. -/
def benchRequest (random : ℕ → ℕ) : HmsMsg :=
  withBody (hmsMsgSetVerb hmsMsgCreate (CString.ofBytes (ascii "PING"))) (benchBody random)

/-- The first `n` messages of the benchmark. -/
def benchRequests (random : ℕ → ℕ → ℕ) (n : ℕ) : List HmsMsg :=
  (List.range n).map fun i => benchRequest (random i)

/-- The messages of the benchmark, all of them. -/
def benchAll (random : ℕ → ℕ → ℕ) : List HmsMsg :=
  benchRequests random (1024 * 1024)

theorem content_withBody (msg : HmsMsg) (body : List UInt8) :
    (withBody msg body).content = some body := by
  simp [withBody]

theorem contentLen_withBody (msg : HmsMsg) (body : List UInt8) :
    (withBody msg body).contentLen = body.length := by
  simp [withBody]

section Bench

variable (random : ℕ → ℕ)

theorem length_benchBody : (benchBody random).length = 1024 := by
  rw [benchBody, List.length_append, List.length_map, List.length_range, List.length_singleton]

theorem nul_not_mem_benchBody : nul ∉ benchBody random := by
  have hletter : nul ∉ alphabet := by decide
  intro h
  rcases List.mem_append.1 h with h | h
  · obtain ⟨i, -, hi⟩ := List.mem_map.1 h
    exact hletter (hi ▸ List.get_mem alphabet _)
  · exact absurd (List.mem_singleton.1 h) (by decide)

/-- A loop that stores byte after byte. -/
theorem store_range (g : ℕ → UInt8) (buffer : Buffer) : ∀ n ≤ buffer.length,
    (List.range n).foldlM (fun b i => store b i (g i)) buffer =
      .ok (cells ((List.range n).map g) ++ buffer.drop n)
  | 0, _ => rfl
  | n + 1, h => by
    obtain ⟨o, rest, hrest⟩ : ∃ o rest, buffer.drop n = o :: rest :=
      List.exists_cons_of_ne_nil (by simpa using h)
    have hstore := store_at (cells ((List.range n).map g)) o rest (g n) (i := n) (by simp)
    have htail : buffer.drop (n + 1) = rest := by rw [← List.tail_drop, hrest, List.tail_cons]
    rw [List.range_succ, List.foldlM_append, store_range g buffer n (by omega), ok_bind, hrest,
      List.foldlM_cons, hstore, ok_bind, htail, List.map_append, cells_append]
    simp

theorem benchLetters_eq (buffer : Buffer) (h : 1023 ≤ buffer.length) :
    benchLetters random buffer =
      .ok (cells ((List.range 1023).map fun i => letter (random i)) ++ buffer.drop 1023) := by
  have hload : ∀ i, load (cells alphabet ++ [some nul]) (random i % alphabet.length) =
      .ok (letter (random i)) := fun i => by
    have hat := load_cells [] [some nul] (Nat.mod_lt (random i) (by decide : 0 < alphabet.length))
    rw [List.length_nil, Nat.zero_add] at hat
    exact hat
  rw [benchLetters, ← store_range _ buffer 1023 h]
  simp only [hload, ok_bind]

theorem verb_benchRequest :
    (benchRequest random).verb = some (CString.ofBytes (ascii "PING")) := by
  rw [benchRequest, withBody, verb_addNamedHeader]
  rfl

theorem encodeHeader_benchRequest : encodeHeader (benchRequest random) =
    ascii "PING\n" ++ (ascii "Content-Length:" ++ sprintfInt 1024 ++ [newline]) ++
      ascii ".\n" := by
  have hnamed : (benchRequest random).namedHeaders =
      [⟨hmsContentLength, CString.ofBytes (decimal 1024)⟩] := by
    rw [benchRequest, withBody, namedHeaders_addNamedHeader, length_benchBody]
    rfl
  have hheaders : (benchRequest random).headers = [] := by
    rw [benchRequest, withBody, headers_addNamedHeader]
    rfl
  rw [encodeHeader, HmsMsg.headerText, HmsMsg.verbLine, hnamed, verb_benchRequest, hheaders]
  decide

theorem content_benchRequest : (benchRequest random).content = some (benchBody random) :=
  content_withBody _ _

theorem body_benchRequest : (benchRequest random).body = benchBody random := by
  rw [HmsMsg.body, content_benchRequest]
  rfl

/-- A message is written as it was meant, whatever the buffer held. -/
theorem benchMsg_eq {buffer : Buffer} (h : buffer.length = 1025) :
    ∃ buffer', benchMsg random buffer = .ok (buffer', encode (benchRequest random)) ∧
      buffer'.length = 1025 := by
  have hnul := nul_not_mem_benchBody random
  have hlen := length_benchBody random
  obtain ⟨o, o', hrest⟩ : ∃ o o', buffer.drop 1023 = [o, o'] := by
    have hdrop : (buffer.drop 1023).length = 2 := by rw [List.length_drop, h]
    match hd : buffer.drop 1023, hdrop with
    | [o, o'], _ => exact ⟨o, o', rfl⟩
  have hletters : (cells ((List.range 1023).map fun i => letter (random i))).length = 1023 := by
    simp
  have hnewline := store_at (cells ((List.range 1023).map fun i => letter (random i))) o [o']
    newline hletters.symm
  have hbody : cells ((List.range 1023).map fun i => letter (random i)) ++ [some newline, o'] =
      cells (benchBody random) ++ [o'] := by
    simp [benchBody]
  have hend := store_at (cells (benchBody random)) o' [] nul (i := 1024) (by simp [hlen])
  have hstrlen := strlen_at [] [] hnul (i := 0) rfl
  have hstring := stringAt_at [] [] hnul (i := 0) rfl
  rw [List.nil_append] at hstrlen hstring
  refine ⟨cells (benchBody random) ++ [some nul], ?_, by simp [hlen]⟩
  rw [benchMsg, benchLetters_eq random buffer (by omega), ok_bind, hrest, hnewline, ok_bind, hbody,
    hend, ok_bind, hstrlen, ok_bind, hlen, assert_of rfl, ok_bind, hstring, ok_bind,
    CString.bytes_ofBytes hnul, encode, encodeHeader_benchRequest, body_benchRequest]
  rfl

theorem wireClean_benchRequest : (benchRequest random).WireClean := by
  have hverb : (hmsMsgSetVerb hmsMsgCreate (CString.ofBytes (ascii "PING"))).WireClean := by decide
  have hlen := length_benchBody random
  refine hverb.withBody (fun hnil => ?_) ?_
  · rw [hnil] at hlen
    cases hlen
  · rw [hlen]
    decide

theorem received_benchRequest : (benchRequest random).received = benchRequest random := by
  have hcounted : (benchRequest random).Counted := counted_create.setVerb _ |>.withBody _
  have hnamed : (benchRequest random).received.namedHeaders =
      (benchRequest random).namedHeaders := by
    have hold : (benchRequest random).namedHeaders =
        [⟨hmsContentLength, CString.ofBytes (decimal (benchBody random).length)⟩] := by
      rw [benchRequest, withBody, namedHeaders_addNamedHeader]
      rfl
    have hfilter : ∀ v, [(⟨hmsContentLength, v⟩ : HmsMsgNheader)].filter
        (fun hdr => !hdr.hasKey hmsContentLength) = [] := fun v =>
      List.filter_eq_nil_iff.2 fun hdr hmem => by
        rw [List.mem_singleton.1 hmem, HmsMsgNheader.hasKey, keyEquiv_caseEq.refl]
        simp
    rw [HmsMsg.received, content_benchRequest, hold]
    dsimp only
    rw [hfilter]
    rfl
  refine HmsMsg.ext rfl rfl hcounted.headers.symm hnamed ?_ ?_ rfl
  · rw [hcounted.namedHeaders, ← hnamed]
    rfl
  · rw [benchRequest, contentLen_withBody, ← body_benchRequest]
    rfl

theorem decode_benchRequest (t : List UInt8) :
    decode testMaxHdrSize (encode (benchRequest random) ++ t) =
      .ok (some (benchRequest random), t) := by
  have hsize : ((encodeHeader (benchRequest random)).length : ℤ) ≤ testMaxHdrSize := by
    rw [encodeHeader_benchRequest]
    decide
  have hdecode := (wireClean_benchRequest random).survives.decode_encode hsize (by decide) t
  rwa [received_benchRequest] at hdecode

/-- A message of the benchmark cannot be printed. -/
theorem parserTestMsg_benchRequest :
    parserTestMsg (benchRequest random) = .error .undefined := by
  have hheader : (encodeHeader (benchRequest random)).length < 1024 := by
    rw [encodeHeader_benchRequest]
    decide
  have hdistinct : (hmsMsgSetVerb hmsMsgCreate (CString.ofBytes (ascii "PING"))).KeysDistinct := by
    decide
  have hagrees : (benchRequest random).BodyAgrees :=
    BodyAgrees.withBody hdistinct (by rw [length_benchBody]; decide)
  rw [parserTestMsg_eq (verb_benchRequest random) hheader,
    hagrees.getBody (content_benchRequest random), ok_bind, printString_some,
    if_neg (nul_not_mem_benchBody random), error_bind]

end Bench

/-- Messages that come back as they were sent are read one by one. -/
theorem readMessages_append {maxHdrLen : ℤ} {msgs : List HmsMsg}
    (h : ∀ msg ∈ msgs, ∀ t, decode maxHdrLen (encode msg ++ t) = .ok (some msg, t))
    (t : List UInt8) : readMessages maxHdrLen msgs.length (msgs.flatMap encode ++ t) =
      .ok (msgs, t) := by
  induction msgs with
  | nil => rfl
  | cons msg msgs ih =>
    rw [List.length_cons, readMessages, List.flatMap_cons, List.append_assoc,
      h msg List.mem_cons_self, ok_bind]
    dsimp only
    rw [ih fun m hm => h m (List.mem_cons_of_mem _ hm)]
    rfl

/-- The messages are written one behind the other. -/
theorem benchLoop_eq (random : ℕ → ℕ → ℕ) {buffer : Buffer} (h : buffer.length = 1025) (n : ℕ) :
    ∃ buffer', benchLoop random n buffer =
        .ok (buffer', (benchRequests random n).flatMap encode) ∧
      buffer'.length = 1025 := by
  induction n with
  | zero => exact ⟨buffer, rfl, h⟩
  | succ n ih =>
    obtain ⟨buffer₁, hloop, h₁⟩ := ih
    obtain ⟨buffer₂, hmsg, h₂⟩ := benchMsg_eq (random n) h₁
    refine ⟨buffer₂, ?_, h₂⟩
    rw [benchLoop, benchRequests] at hloop ⊢
    rw [List.range_succ, List.foldlM_append, hloop, ok_bind, List.foldlM_cons]
    dsimp only
    rw [hmsg]
    simp

/-- `bench1.c` writes its messages. -/
theorem bench_eq (random : ℕ → ℕ → ℕ) :
    bench random = .ok ((benchAll random).flatMap encode) := by
  have hserved : malloc (toSize (1024 + 1)) = .ok true := malloc_served (by decide)
  have hlen : (Buffer.uninit (toSize (1024 + 1))).length = 1025 := by
    rw [length_uninit]
    decide
  obtain ⟨buffer, hloop, -⟩ := benchLoop_eq random hlen (1024 * 1024)
  rw [bench, hserved, ok_bind]
  simp only [if_true]
  rw [hloop, ok_bind, pure_eq_ok, benchAll]

theorem mem_benchRequests {random : ℕ → ℕ → ℕ} {n : ℕ} {msg : HmsMsg}
    (h : msg ∈ benchRequests random n) : ∃ i, benchRequest (random i) = msg := by
  obtain ⟨i, -, hi⟩ := List.mem_map.1 h
  exact ⟨i, hi⟩

theorem length_benchRequests (random : ℕ → ℕ → ℕ) (n : ℕ) :
    (benchRequests random n).length = n := by
  rw [benchRequests, List.length_map, List.length_range]

theorem benchRequests_succ (random : ℕ → ℕ → ℕ) (n : ℕ) :
    benchRequests random (n + 1) =
      benchRequest (random 0) :: benchRequests (fun i => random (i + 1)) n := by
  rw [benchRequests, List.range_succ_eq_map, List.map_cons, List.map_map]
  rfl

/-- The test goes wrong where the print of its first message does. -/
theorem parserTest_undefined {msg : HmsMsg} {stdin sock : ReadSide}
    (hparse : hmsMsgParse stdin testMaxHdrSize = .ok (some msg, sock))
    (hmsg : parserTestMsg msg = .error .undefined) : parserTest stdin = .error .undefined := by
  have hsucc : 1000000 = 999999 + 1 := by norm_num
  rw [parserTest, hsucc, parserTestLoop, hparse, ok_bind]
  dsimp only
  rw [hmsg, error_bind]

/-- What `bench1.c` writes is parsed as the messages it means. The test stops after a million of
them, but it goes wrong at the first : no body has a NUL, and so none can be printed. -/
theorem parserTest_bench (random : ℕ → ℕ → ℕ) :
    bench random = .ok ((benchAll random).flatMap encode) ∧
      readMessages testMaxHdrSize 1000000 ((benchAll random).flatMap encode) =
        .ok ((benchAll random).take 1000000, ((benchAll random).drop 1000000).flatMap encode) ∧
      (∀ msg ∈ benchAll random, parserTestMsg msg = .error .undefined) ∧
      ∀ chunks, ∃ sock, hmsMsgParse ⟨(benchAll random).flatMap encode, chunks⟩ testMaxHdrSize =
          .ok (some (benchRequest (random 0)), sock) ∧
        parserTest ⟨(benchAll random).flatMap encode, chunks⟩ = .error .undefined := by
  have hmem : ∀ msg ∈ benchAll random, ∃ i, benchRequest (random i) = msg := fun msg =>
    mem_benchRequests
  have hlen : (benchAll random).length = 1048576 := length_benchRequests random (1024 * 1024)
  have hbench := bench_eq random
  have hcons : benchAll random =
      benchRequest (random 0) :: benchRequests (fun i => random (i + 1)) 1048575 :=
    benchRequests_succ random 1048575
  generalize benchAll random = msgs at *
  refine ⟨hbench, ?_, fun msg hmsg => ?_, fun chunks => ?_⟩
  · have hdecode : ∀ msg ∈ msgs.take 1000000, ∀ t,
        decode testMaxHdrSize (encode msg ++ t) = .ok (some msg, t) := fun msg hmsg t => by
      obtain ⟨i, rfl⟩ := hmem msg (List.mem_of_mem_take hmsg)
      exact decode_benchRequest (random i) t
    have hread := readMessages_append hdecode ((msgs.drop 1000000).flatMap encode)
    rw [List.length_take_of_le (by omega), ← List.flatMap_append, List.take_append_drop] at hread
    exact hread
  · obtain ⟨i, rfl⟩ := hmem msg hmsg
    exact parserTestMsg_benchRequest (random i)
  · have hfirst := decode_benchRequest (random 0)
      ((benchRequests (fun i => random (i + 1)) 1048575).flatMap encode)
    rw [← List.flatMap_cons, ← hcons] at hfirst
    obtain ⟨sock, hparse, -⟩ := hmsMsgParse_ok_iff.2
      (show decode testMaxHdrSize (ReadSide.mk _ chunks).unread = _ from hfirst)
    exact ⟨sock, hparse, parserTest_undefined hparse (parserTestMsg_benchRequest (random 0))⟩

end Hermes
