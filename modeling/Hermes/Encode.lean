import Hermes.Consistency

/-!
# The encoder

`encodeHeader` is the text that `hms_msg_print_header` writes, as a list of bytes, and
`encode` the message on the wire. `getHeaderSize_eq` says that `hms_msg_get_header_size`
computes its length, and `printHeader_eq` that the printer stores these bytes from the start
of the buffer on and nothing else.
-/

open CLib

namespace Hermes

/-! ## The text of a message -/

/-- The line of a named header. -/
def HmsMsgNheader.line (hdr : HmsMsgNheader) : List UInt8 :=
  hdr.key.bytes ++ colon :: hdr.val.bytes

namespace HmsMsg

variable (msg : HmsMsg)

/-- The verb and the headers. -/
def verbLine : List UInt8 :=
  (msg.verb.map CString.bytes).getD [] ++ msg.headers.flatMap fun uhdr => space :: uhdr.bytes

/-- The lines of the header. -/
def headerText : List UInt8 :=
  msg.verbLine ++ newline :: msg.namedHeaders.flatMap fun nhdr => nhdr.line ++ [newline]

end HmsMsg

/-- The header on the wire. -/
def encodeHeader (msg : HmsMsg) : List UInt8 :=
  msg.headerText ++ [dot, newline]

/-- The message on the wire. -/
def encode (msg : HmsMsg) : List UInt8 :=
  encodeHeader msg ++ msg.body

/-! ## Its size -/

theorem encodeHeader_ne_nil (msg : HmsMsg) : encodeHeader msg ≠ [] := by
  simp [encodeHeader]

theorem nul_not_mem_encodeHeader (msg : HmsMsg) : nul ∉ encodeHeader msg := by
  have hsep : nul ≠ space ∧ nul ≠ newline ∧ nul ≠ colon ∧ nul ≠ dot := by decide
  have hverb : nul ∉ (msg.verb.map CString.bytes).getD [] := by
    cases msg.verb with
    | none => exact List.not_mem_nil
    | some verb => exact verb.noNul
  simp only [encodeHeader, HmsMsg.headerText, HmsMsg.verbLine, HmsMsgNheader.line,
    List.mem_append, List.mem_cons, List.mem_flatMap, not_or, not_exists, not_and]
  simp [hsep, hverb, CString.noNul]

theorem length_encodeHeader (msg : HmsMsg) {verb : CString} (h : msg.verb = some verb) :
    (encodeHeader msg).length = 0 + verb.length +
      (msg.headers.map fun uhdr => 1 + uhdr.length).sum + 1 +
      (msg.namedHeaders.map fun nhdr => nhdr.key.length + 1 + nhdr.val.length + 1).sum + 2 := by
  have hu : (msg.headers.flatMap fun uhdr => space :: uhdr.bytes).length =
      (msg.headers.map fun uhdr => 1 + uhdr.length).sum := by
    rw [List.length_flatMap]
    congr 2
    funext uhdr
    simp [CString.length, Nat.add_comm]
  have hn : (msg.namedHeaders.flatMap fun nhdr => nhdr.line ++ [newline]).length =
      (msg.namedHeaders.map fun nhdr => nhdr.key.length + 1 + nhdr.val.length + 1).sum := by
    rw [List.length_flatMap]
    congr 2
    funext nhdr
    simp [HmsMsgNheader.line, CString.length]
    omega
  simp only [encodeHeader, HmsMsg.headerText, HmsMsg.verbLine, h, Option.map_some,
    Option.getD_some, List.length_append, List.length_cons, List.length_nil, hu, hn, CString.length]
  omega

/-- `hms_msg_get_header_size` counts the bytes of the header. -/
theorem getHeaderSize_eq {msg : HmsMsg} {verb : CString} (h : msg.verb = some verb) :
    hmsMsgGetHeaderSize msg = countInt (encodeHeader msg).length := by
  have hzero : countInt 0 = .ok 0 := countInt_ok (by decide)
  rw [length_encodeHeader msg h, ← countInt_addInt, ← countInt_foldlM, ← countInt_addInt,
    ← countInt_foldlM, ← countInt_addInt, hzero, hmsMsgGetHeaderSize, h]
  simp only [ok_bind, bind_assoc]
  push_cast
  rfl

/-! ## What the printer writes -/

/-- The printer's state when `done` is written in front of `rest`. -/
def printed (done : List UInt8) (rest : Buffer) : Buffer × ℕ :=
  (cells done ++ rest, done.length)

/-- A step of the printer that writes `text` behind what is written. -/
def Prints (step : Buffer × ℕ → Run (Buffer × ℕ)) (text : List UInt8) : Prop :=
  ∀ (done : List UInt8) (rest : Buffer), text.length ≤ rest.length →
    step (printed done rest) = .ok (printed (done ++ text) (rest.drop text.length))

theorem prints_bytes (src : List UInt8) : Prints (fun out => printBytes out src) src := by
  intro done rest h
  have hold : (rest.take src.length).length = src.length := by simpa using h
  have hcopy := copyTo_at (rest.drop src.length) (cells done) hold (length_cells done).symm
  rw [List.take_append_drop] at hcopy
  simp [printBytes, printed, hcopy]

/-- Two steps write their texts one behind the other. -/
theorem Prints.andThen {f g : Buffer × ℕ → Run (Buffer × ℕ)} {s t : List UInt8}
    (hf : Prints f s) (hg : Prints g t) : Prints (fun out => f out >>= g) (s ++ t) := by
  intro done rest h
  rw [List.length_append] at h
  have hrest : t.length ≤ (rest.drop s.length).length := by
    rw [List.length_drop]
    omega
  show f (printed done rest) >>= g = _
  rw [hf done rest (by omega), ok_bind, hg (done ++ s) _ hrest]
  simp

/-- A loop writes the texts of its steps in order. -/
theorem Prints.foldlM {α : Type} {body : Buffer × ℕ → α → Run (Buffer × ℕ)}
    {text : α → List UInt8} (h : ∀ a, Prints (fun out => body out a) (text a)) :
    ∀ l : List α, Prints (fun out => l.foldlM body out) (l.flatMap text)
  | [] => fun done rest _ => by simp
  | a :: l => by
    have hrun := (h a).andThen (Prints.foldlM h l)
    simpa only [List.foldlM_cons, List.flatMap_cons] using hrun

/-- The printer writes the header from the start of the buffer on and returns `0`, if the
size of the header is an `int` and the buffer is that long. -/
theorem printHeader_eq {msg : HmsMsg} {verb : CString} (h : msg.verb = some verb)
    (hmax : ((encodeHeader msg).length : ℤ) ≤ intMax) {buffer : Buffer}
    (hbuf : (encodeHeader msg).length ≤ buffer.length) (len : ℤ) :
    hmsMsgPrintHeader msg buffer len =
      .ok (0, cells (encodeHeader msg) ++ buffer.drop (encodeHeader msg).length) := by
  have hlow : intMin ≤ ((encodeHeader msg).length : ℤ) := by
    unfold intMin
    omega
  have hassert : hmsAssertEquals (encodeHeader msg).length
      (toInt ((encodeHeader msg).length : ℤ)) = .ok () :=
    assert_of (toInt_of_range hlow hmax)
  have hunnamed : ∀ uhdr : CString, Prints
      (fun out => printBytes out [space] >>= fun out => printBytes out uhdr.bytes)
      (space :: uhdr.bytes) := fun uhdr =>
    (prints_bytes [space]).andThen (prints_bytes uhdr.bytes)
  have hnamed : ∀ nhdr : HmsMsgNheader, Prints
      (fun out => do
        let out ← printBytes out nhdr.key.bytes
        let out ← printBytes out [colon]
        let out ← printBytes out nhdr.val.bytes
        printBytes out [newline]) (nhdr.line ++ [newline]) := by
    intro nhdr
    have hrun := (prints_bytes nhdr.key.bytes).andThen ((prints_bytes [colon]).andThen
      ((prints_bytes nhdr.val.bytes).andThen (prints_bytes [newline])))
    simpa [HmsMsgNheader.line] using hrun
  have hall := (prints_bytes verb.bytes).andThen ((Prints.foldlM hunnamed msg.headers).andThen
    ((prints_bytes [newline]).andThen ((Prints.foldlM hnamed msg.namedHeaders).andThen
      (prints_bytes [dot, newline]))))
  have hencode : encodeHeader msg = verb.bytes ++
      ((msg.headers.flatMap fun uhdr => space :: uhdr.bytes) ++ ([newline] ++
        ((msg.namedHeaders.flatMap fun nhdr => nhdr.line ++ [newline]) ++ [dot, newline]))) := by
    simp [encodeHeader, HmsMsg.headerText, HmsMsg.verbLine, h]
  rw [← hencode] at hall
  have hrun := hall [] buffer hbuf
  have hcheck := congrArg (fun r : Run (Buffer × ℕ) => r >>= fun out =>
    hmsAssertEquals (encodeHeader msg).length (toInt out.2) >>= fun _ => .ok ((0 : ℤ), out.1)) hrun
  simp only [bind_assoc] at hcheck
  rw [ok_bind] at hcheck
  simp only [printed, cells_nil, List.nil_append, List.length_nil] at hcheck
  rw [hassert, ok_bind] at hcheck
  rw [hmsMsgPrintHeader, getHeaderSize_eq h, countInt_ok hmax, ok_bind, h]
  exact hcheck

/-- The bytes that `hms_msg_print_header` writes into a buffer of the header's size. -/
def printedHeader (msg : HmsMsg) : Run (List UInt8) := do
  let hdrLen ← hmsMsgGetHeaderSize msg
  let (_, buffer) ← hmsMsgPrintHeader msg (Buffer.uninit hdrLen.toNat) hdrLen
  bytesOf buffer hdrLen.toNat

theorem printedHeader_eq {msg : HmsMsg} {verb : CString} (h : msg.verb = some verb)
    (hmax : ((encodeHeader msg).length : ℤ) ≤ intMax) :
    printedHeader msg = .ok (encodeHeader msg) := by
  have hbuf : (encodeHeader msg).length ≤ (Buffer.uninit (encodeHeader msg).length).length := by
    simp
  have hprint := printHeader_eq h hmax hbuf (encodeHeader msg).length
  rw [printedHeader, getHeaderSize_eq h, countInt_ok hmax, ok_bind, Int.toNat_natCast, hprint,
    ok_bind]
  exact bytesOf_cells (encodeHeader msg) _

end Hermes
