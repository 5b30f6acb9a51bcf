import Hermes.Parser

/-!
# Where a header ends

`__hms_parse_read_header` stops at the first newline whose line so far ends in a period, up
to blanks. A `Frame` of a byte stream is that place : the text before the terminating
period, the blanks after it, and the bytes behind the newline. A stream has at most one
frame (`Frame.subsingleton`).

`hmsParseReadHeader_frame` and `hmsParseReadHeader_noFrame` say what the function does with
a stream that has a frame within the buffer and with one that has none. The loop invariant
is `ScanInv` : the buffer holds the bytes read so far, and the flag and the pointer tell
whether, and where, they end in a period.
-/

open CLib

namespace Hermes

/-! ## Lines that end in a period -/

/-- What may stand between the terminating period and its newline. -/
def Blank (c : UInt8) : Prop :=
  c = space ∨ c = carriageReturn

instance (c : UInt8) : Decidable (Blank c) :=
  inferInstanceAs (Decidable (_ ∨ _))

/-- `l` ends in a period, up to blanks. -/
def DotEnded (l : List UInt8) : Prop :=
  ∃ a b, l = a ++ dot :: b ∧ ∀ c ∈ b, Blank c

/-- `l` ends in a period, blanks and a newline. -/
def Terminated (l : List UInt8) : Prop :=
  ∃ l', DotEnded l' ∧ l = l' ++ [newline]

theorem Blank.ne_dot {c : UInt8} (h : Blank c) : c ≠ dot := by
  rcases h with rfl | rfl <;> decide

theorem DotEnded.dot_mem {l : List UInt8} (h : DotEnded l) : dot ∈ l := by
  obtain ⟨a, b, rfl, -⟩ := h
  simp

theorem dotEnded_append_dot (l : List UInt8) : DotEnded (l ++ [dot]) :=
  ⟨l, [], rfl, by simp⟩

theorem dotEnded_append_singleton {l : List UInt8} {c : UInt8} (hc : c ≠ dot) :
    DotEnded (l ++ [c]) ↔ DotEnded l ∧ Blank c := by
  constructor
  · rintro ⟨a, b, h, hb⟩
    rcases List.eq_nil_or_concat b with rfl | ⟨b', d, rfl⟩
    · obtain ⟨-, h2⟩ := List.append_inj' h rfl
      exact (hc (List.singleton_inj.1 h2)).elim
    · have h' : l ++ [c] = (a ++ dot :: b') ++ [d] := by simpa using h
      obtain ⟨rfl, h2⟩ := List.append_inj' h' rfl
      obtain rfl := List.singleton_inj.1 h2
      exact ⟨⟨a, b', rfl, fun x hx => hb x (by simp [hx])⟩, hb c (by simp)⟩
  · rintro ⟨⟨a, b, rfl, hb⟩, hc'⟩
    refine ⟨a, b ++ [c], by simp, fun x hx => ?_⟩
    rcases List.mem_append.1 hx with hx | hx
    · exact hb x hx
    · rwa [List.mem_singleton.1 hx]

theorem terminated_append_singleton {l : List UInt8} {c : UInt8} :
    Terminated (l ++ [c]) ↔ c = newline ∧ DotEnded l := by
  constructor
  · rintro ⟨l', hl', h⟩
    obtain ⟨rfl, h2⟩ := List.append_inj' h rfl
    exact ⟨List.singleton_inj.1 h2, hl'⟩
  · rintro ⟨rfl, hl⟩
    exact ⟨l, hl, rfl⟩

theorem not_terminated_nil : ¬Terminated [] := by
  rintro ⟨l', -, h⟩
  simp at h

/-! ## Frames -/

/-- The first header of the stream `s`. -/
structure Frame (s : List UInt8) where
  text : List UInt8
  blanks : List UInt8
  rest : List UInt8
  split : s = (text ++ dot :: blanks ++ [newline]) ++ rest
  blank : ∀ c ∈ blanks, Blank c
  /-- No shorter prefix of the stream is terminated. -/
  first : ∀ p, p <+: s → p.length < text.length + blanks.length + 2 → ¬Terminated p

namespace Frame

variable {s : List UInt8}

/-- Number of bytes of the header, its newline included. -/
def size (f : Frame s) : ℕ :=
  f.text.length + f.blanks.length + 2

theorem terminated (f : Frame s) : Terminated (f.text ++ dot :: f.blanks ++ [newline]) :=
  ⟨_, ⟨f.text, f.blanks, rfl, f.blank⟩, rfl⟩

theorem length_header (f : Frame s) :
    (f.text ++ dot :: f.blanks ++ [newline]).length = f.size := by
  simp [size]
  omega

theorem size_le (f : Frame s) : f.size ≤ s.length := by
  rw [← f.length_header]
  conv_rhs => rw [f.split]
  simp

theorem rest_eq (f : Frame s) : f.rest = s.drop f.size := by
  have h := congrArg (List.drop f.size) f.split
  rw [← f.length_header, List.drop_left, f.length_header] at h
  exact h.symm

/-- The split at the terminating period is the only one. -/
theorem split_unique {a b a' b' : List UInt8} (hb : ∀ c ∈ b, Blank c) (hb' : ∀ c ∈ b', Blank c)
    (h : a ++ dot :: b = a' ++ dot :: b') : a = a' ∧ b = b' := by
  have hlen : b.length = b'.length := by
    rcases List.append_eq_append_iff.1 h with ⟨x, rfl, hx⟩ | ⟨x, rfl, hx⟩
    · cases x with
      | nil => simpa using congrArg List.length hx
      | cons y x =>
        simp only [List.cons_append, List.cons.injEq] at hx
        exact ((hb dot (by simp [hx.2])).ne_dot rfl).elim
    · cases x with
      | nil => simpa using (congrArg List.length hx).symm
      | cons y x =>
        simp only [List.cons_append, List.cons.injEq] at hx
        exact ((hb' dot (by simp [hx.2])).ne_dot rfl).elim
  obtain ⟨h1, h2⟩ := List.append_inj' h (by simp [hlen])
  exact ⟨h1, (List.cons.inj h2).2⟩

theorem size_le_size (f g : Frame s) : f.size ≤ g.size := by
  by_contra hlt
  refine f.first _ ⟨g.rest, g.split.symm⟩ ?_ g.terminated
  rw [g.length_header]
  exact Nat.lt_of_not_le hlt

/-- A stream has at most one frame. -/
theorem subsingleton (f g : Frame s) : f = g := by
  have hsize : f.size = g.size := Nat.le_antisymm (f.size_le_size g) (g.size_le_size f)
  have h := f.split.symm.trans g.split
  obtain ⟨h1, h2⟩ := List.append_inj h (by rw [f.length_header, g.length_header, hsize])
  obtain ⟨h3, -⟩ := List.append_inj' h1 rfl
  obtain ⟨h4, h5⟩ := split_unique f.blank g.blank h3
  cases f
  cases g
  simp only [mk.injEq]
  exact ⟨h4, h5, h2⟩

end Frame

/-! ## The scan -/

/-- Carriage returns are read as spaces. -/
def crToSpace (c : UInt8) : UInt8 :=
  if c = carriageReturn then space else c

/-- After reading `x` : the bytes are stored, and the flag and the pointer tell where `x`
ends in a period. -/
structure ScanInv (x : List UInt8) (st : HeaderScan) : Prop where
  stored : ∃ tail, st.buffer = cells (x.map crToSpace) ++ tail
  hdrLen : st.hdrLen = x.length
  dots : (st.dotSeen = true ∧ ∃ a b, x = a ++ dot :: b ∧ (∀ c ∈ b, Blank c) ∧
      st.dotPtr = some a.length) ∨
    (st.dotSeen = false ∧ st.dotPtr = none ∧ ¬DotEnded x)

theorem ScanInv.dotSeen_iff {x : List UInt8} {st : HeaderScan} (h : ScanInv x st) :
    st.dotSeen = true ↔ DotEnded x := by
  rcases h.dots with ⟨h1, a, b, hx, hb, -⟩ | ⟨h1, -, hx⟩
  · simpa [h1] using ⟨a, b, hx, hb⟩
  · simpa [h1] using hx

theorem crToSpace_eq_dot {c : UInt8} : crToSpace c = dot ↔ c = dot := by
  unfold crToSpace
  split_ifs with hcr
  · rw [hcr]
    decide
  · rfl

theorem crToSpace_eq_newline {c : UInt8} : crToSpace c = newline ↔ c = newline := by
  unfold crToSpace
  split_ifs with hcr
  · rw [hcr]
    decide
  · rfl

theorem crToSpace_eq_space {c : UInt8} : crToSpace c = space ↔ Blank c := by
  unfold crToSpace Blank
  split_ifs with hcr
  · exact ⟨fun _ => Or.inr hcr, fun _ => rfl⟩
  · exact (or_iff_left hcr).symm

theorem crToSpace_ne (c : UInt8) : crToSpace c ≠ carriageReturn := by
  unfold crToSpace
  split_ifs with h
  · decide
  · exact h

namespace ScanInv

variable {x : List UInt8} {st : HeaderScan} (hinv : ScanInv x st) {c : UInt8}
include hinv

/-- The next byte is stored behind the ones read so far. -/
theorem exists_store (hroom : x.length < st.buffer.length) (c : UInt8) :
    ∃ buffer, store st.buffer st.hdrLen (crToSpace c) = .ok buffer ∧
      buffer.length = st.buffer.length ∧
      ∃ tail, buffer = cells ((x ++ [c]).map crToSpace) ++ tail := by
  obtain ⟨tail, htail⟩ := hinv.stored
  have hpos : 0 < tail.length := by
    have := congrArg List.length htail
    simp at this
    omega
  obtain ⟨o, tail, rfl⟩ := List.exists_cons_of_length_pos hpos
  refine ⟨cells (x.map crToSpace) ++ some (crToSpace c) :: tail, ?_, ?_, tail, by simp⟩
  · rw [htail]
    exact store_at _ _ _ _ (by simp [hinv.hdrLen])
  · simp [htail]

variable {buffer : Buffer} (sock : ReadSide)

/-- A period is noted. -/
theorem dot (hbuf : ∃ tail, buffer = cells ((x ++ [CLib.dot]).map crToSpace) ++ tail) :
    ScanInv (x ++ [CLib.dot]) { st with
      buffer, sock
      hdrLen := st.hdrLen + 1
      dotSeen := true
      dotPtr := some st.hdrLen } :=
  ⟨hbuf, by simp [hinv.hdrLen], Or.inl ⟨rfl, x, [], rfl, by simp, by simp [hinv.hdrLen]⟩⟩

variable (hbuf : ∃ tail, buffer = cells ((x ++ [c]).map crToSpace) ++ tail) (hc : c ≠ CLib.dot)
include hbuf hc

/-- A blank behind a period changes nothing, and neither does a byte behind no period. -/
theorem keep (hblank : DotEnded x → Blank c) :
    ScanInv (x ++ [c]) { st with buffer, sock, hdrLen := st.hdrLen + 1 } := by
  refine ⟨hbuf, by simp [hinv.hdrLen], ?_⟩
  rcases hinv.dots with ⟨h1, a, b, rfl, hb, hp⟩ | ⟨h1, h2, h3⟩
  · refine Or.inl ⟨h1, a, b ++ [c], by simp, fun d hd => ?_, hp⟩
    rcases List.mem_append.1 hd with hd | hd
    · exact hb d hd
    · rw [List.mem_singleton.1 hd]
      exact hblank ⟨a, b, rfl, hb⟩
  · refine Or.inr ⟨h1, h2, ?_⟩
    rw [dotEnded_append_singleton hc]
    exact fun h => h3 h.1

/-- Any other byte behind a period takes the note back. -/
theorem clear (hblank : ¬Blank c) : ScanInv (x ++ [c]) { st with
    buffer, sock
    hdrLen := st.hdrLen + 1
    dotSeen := false
    dotPtr := none } := by
  refine ⟨hbuf, by simp [hinv.hdrLen], Or.inr ⟨rfl, rfl, ?_⟩⟩
  rw [dotEnded_append_singleton hc]
  exact fun h => hblank h.2

end ScanInv

/-- One iteration on the byte `c`, stored in `buffer`. -/
theorem readHeaderLoop_byte {st : HeaderScan} {c : UInt8} {s : List UInt8} {buffer : Buffer}
    (room : ℕ) (hs : st.sock.unread = c :: s)
    (hstore : store st.buffer st.hdrLen (crToSpace c) = .ok buffer) :
    readHeaderLoop (room + 1) st =
      let st := { st with buffer, hdrLen := st.hdrLen + 1, sock := (st.sock.read 1).2 }
      if c = dot then
        readHeaderLoop room { st with dotSeen := true, dotPtr := some (st.hdrLen - 1) }
      else if st.dotSeen ∧ c = newline then
        .ok { st with isDone := true }
      else if st.dotSeen ∧ ¬Blank c ∧ c ≠ newline then
        readHeaderLoop room { st with dotSeen := false, dotPtr := none }
      else
        readHeaderLoop room st := by
  have hpair : st.sock.read 1 = ([c], (st.sock.read 1).2) :=
    Prod.ext (ReadSide.read_one hs).1 rfl
  rw [readHeaderLoop, hpair]
  show (store st.buffer st.hdrLen (crToSpace c) >>= _) = _
  rw [hstore, ok_bind]
  refine if_congr crToSpace_eq_dot rfl (if_congr (and_congr_right fun _ => crToSpace_eq_newline) rfl
    (if_congr (and_congr_right fun _ => ?_) rfl rfl))
  exact and_congr (not_congr crToSpace_eq_space)
    ((and_iff_right (crToSpace_ne c)).trans (not_congr crToSpace_eq_newline))

/-- One iteration on the byte `c` : it ends the loop at a terminated prefix and otherwise
keeps the invariant. -/
theorem readHeaderLoop_step {x : List UInt8} {st : HeaderScan} {room : ℕ} {c : UInt8}
    {s : List UInt8} (hinv : ScanInv x st) (hroom : x.length + (room + 1) ≤ st.buffer.length)
    (hs : st.sock.unread = c :: s) (hdone : st.isDone = false) :
    ∃ st', st'.buffer.length = st.buffer.length ∧ st'.sock.unread = s ∧
      ((¬Terminated (x ++ [c]) ∧ ScanInv (x ++ [c]) st' ∧ st'.isDone = false ∧
          readHeaderLoop (room + 1) st = readHeaderLoop room st') ∨
        (Terminated (x ++ [c]) ∧ st'.isDone = true ∧ st'.hdrLen = (x ++ [c]).length ∧
          (∃ tail, st'.buffer = cells ((x ++ [c]).map crToSpace) ++ tail) ∧
          st'.dotPtr = st.dotPtr ∧ readHeaderLoop (room + 1) st = .ok st')) := by
  obtain ⟨buffer, hstore, hlen, hbuf⟩ := hinv.exists_store (by omega) c
  have hleft := (ReadSide.read_one hs).2
  have hseen := hinv.dotSeen_iff
  rw [readHeaderLoop_byte room hs hstore]
  dsimp only
  by_cases hdot : c = dot
  · subst hdot
    refine ⟨_, hlen, hleft, Or.inl ⟨?_, hinv.dot _ hbuf, hdone, if_pos rfl⟩⟩
    rw [terminated_append_singleton]
    exact fun h => absurd h.1 (by decide)
  rw [if_neg hdot]
  by_cases hend : DotEnded x ∧ c = newline
  · rw [if_pos ⟨hseen.2 hend.1, hend.2⟩]
    have hterm := terminated_append_singleton.2 ⟨hend.2, hend.1⟩
    refine ⟨_, ?_, ?_, Or.inr ⟨hterm, ?_, ?_, ?_, ?_, rfl⟩⟩
    · exact hlen
    · exact hleft
    · rfl
    · simp [hinv.hdrLen]
    · exact hbuf
    · rfl
  have hterm : ¬Terminated (x ++ [c]) := fun h => by
    obtain ⟨hnl, hx⟩ := terminated_append_singleton.1 h
    exact hend ⟨hx, hnl⟩
  rw [if_neg fun h => hend ⟨hseen.1 h.1, h.2⟩]
  by_cases hclear : DotEnded x ∧ ¬Blank c
  · have hnl : c ≠ newline := fun h => hend ⟨hclear.1, h⟩
    exact ⟨_, hlen, hleft, Or.inl ⟨hterm, hinv.clear _ hbuf hdot hclear.2, hdone,
      if_pos ⟨hseen.2 hclear.1, hclear.2, hnl⟩⟩⟩
  · refine ⟨_, hlen, hleft, Or.inl ⟨hterm, hinv.keep _ hbuf hdot fun hx => ?_, hdone,
      if_neg fun h => hclear ⟨hseen.1 h.1, h.2.1⟩⟩⟩
    by_contra hblank
    exact hclear ⟨hx, hblank⟩

/-- The proper prefixes of `c :: y` are `[c]` and those of `y` behind `c`. -/
theorem forall_prefix_cons {Q : List UInt8 → Prop} {c : UInt8} {y : List UInt8} (hc : y ≠ [] → Q [c])
    (h : ∀ p, p <+: y → p ≠ [] → p ≠ y → Q (c :: p)) :
    ∀ p, p <+: c :: y → p ≠ [] → p ≠ c :: y → Q p := by
  intro p hp hne hpy
  obtain ⟨d, p, rfl⟩ := List.exists_cons_of_ne_nil hne
  obtain ⟨rfl, hp'⟩ := List.cons_prefix_cons.1 hp
  have hpy' : p ≠ y := fun h => hpy (by rw [h])
  by_cases hp0 : p = []
  · rw [hp0]
    exact hc fun h => hpy' (hp0.trans h.symm)
  · exact h p hp' hp0 hpy'

/-- A run of the loop reads `y` : up to and with the first newline that terminates the
header, or, if there is none within the room, as much as there is room and stream for. -/
theorem readHeaderLoop_run :
    ∀ (room : ℕ) {x : List UInt8} {st : HeaderScan}, ScanInv x st →
      x.length + room ≤ st.buffer.length → st.isDone = false →
      ∃ st' y, readHeaderLoop room st = .ok st' ∧ st'.buffer.length = st.buffer.length ∧
        st.sock.unread = y ++ st'.sock.unread ∧ y.length ≤ room ∧
        (∀ p, p <+: y → p ≠ [] → p ≠ y → ¬Terminated (x ++ p)) ∧
        ((st'.isDone = false ∧ ScanInv (x ++ y) st' ∧ (y ≠ [] → ¬Terminated (x ++ y)) ∧
            (y.length = room ∨ st'.sock.unread = [])) ∨
          (st'.isDone = true ∧ st'.hdrLen = (x ++ y).length ∧
            (∃ tail, st'.buffer = cells ((x ++ y).map crToSpace) ++ tail) ∧
            ∃ a b, x ++ y = a ++ dot :: b ++ [newline] ∧ (∀ c ∈ b, Blank c) ∧
              st'.dotPtr = some a.length))
  | 0, x, st, hinv, _, hdone => by
    refine ⟨st, [], rfl, rfl, rfl, by simp, ?_,
      Or.inl ⟨hdone, by simpa using hinv, by simp, by simp⟩⟩
    intro p hp hne
    exact absurd (List.prefix_nil.1 hp) hne
  | room + 1, x, st, hinv, hroom, hdone => by
    rcases hs : st.sock.unread with - | ⟨c, s⟩
    · have heof := ReadSide.read_eof (n := 1) hs
      refine ⟨{ st with sock := (st.sock.read 1).2 }, [], ?_, rfl, by simp [heof.2], by simp, ?_,
        Or.inl ⟨hdone, ?_, by simp, Or.inr heof.2⟩⟩
      · have hpair : st.sock.read 1 = ([], (st.sock.read 1).2) := Prod.ext heof.1 rfl
        rw [readHeaderLoop, hpair]
      · intro p hp hne
        exact absurd (List.prefix_nil.1 hp) hne
      · rw [List.append_nil]
        exact ⟨hinv.stored, hinv.hdrLen, hinv.dots⟩
    obtain ⟨st₁, hlen₁, hs₁, h | h⟩ := readHeaderLoop_step hinv hroom hs hdone
    · obtain ⟨hterm, hinv₁, hdone₁, hrun⟩ := h
      obtain ⟨st', y, hrun', hlen', hs', hy, hfirst, hcase⟩ :=
        readHeaderLoop_run room hinv₁ (by rw [hlen₁]; simp; omega) hdone₁
      have hassoc : ∀ p, x ++ [c] ++ p = x ++ c :: p := by simp
      refine ⟨st', c :: y, hrun.trans hrun', hlen'.trans hlen₁, ?_, by simpa using hy, ?_, ?_⟩
      · rw [← hs₁, hs', List.cons_append]
      · refine forall_prefix_cons (fun _ => hterm) fun p hp hp0 hpy => ?_
        rw [← hassoc]
        exact hfirst p hp hp0 hpy
      · rcases hcase with ⟨h1, h2, h3, h4⟩ | ⟨h1, h2, h3, h4⟩
        · rw [hassoc] at h2 h3
          refine Or.inl ⟨h1, h2, fun _ => ?_, by simpa using h4⟩
          by_cases hy0 : y = []
          · rwa [hy0]
          · exact h3 hy0
        · rw [hassoc] at h2 h3 h4
          exact Or.inr ⟨h1, h2, h3, h4⟩
    · obtain ⟨hterm, hdone₁, hhdr, hstored, hptr, hrun⟩ := h
      refine ⟨st₁, [c], hrun, hlen₁, by simp [hs₁], by simp, ?_, Or.inr ⟨hdone₁, hhdr, hstored, ?_⟩⟩
      · exact forall_prefix_cons (fun h => absurd rfl h) fun p hp hp0 =>
          absurd (List.prefix_nil.1 hp) hp0
      · obtain ⟨rfl, hx⟩ := terminated_append_singleton.1 hterm
        rcases hinv.dots with ⟨-, a, b, rfl, hb, hp⟩ | ⟨-, -, hno⟩
        · exact ⟨a, b, by simp, hb, hptr.trans hp⟩
        · exact absurd hx hno

/-! ## The function -/

/-- What a run of the loop has read, when it stops at a newline, is a frame. -/
theorem exists_frame {s y r a b : List UInt8} (hs : s = y ++ r)
    (hy : y = a ++ dot :: b ++ [newline]) (hb : ∀ c ∈ b, Blank c)
    (hfirst : ∀ p, p <+: y → p ≠ [] → p ≠ y → ¬Terminated p) :
    ∃ f : Frame s, f.text = a ∧ f.blanks = b ∧ f.rest = r := by
  have hlen : y.length = a.length + b.length + 2 := by
    rw [hy]
    simp
    omega
  refine ⟨⟨a, b, r, hy ▸ hs, hb, fun p hp hlt => ?_⟩, rfl, rfl, rfl⟩
  have hpy := List.prefix_of_prefix_length_le hp ⟨r, hs.symm⟩ (by omega)
  by_cases hp0 : p = []
  · exact hp0 ▸ not_terminated_nil
  · refine hfirst p hpy hp0 fun h => ?_
    rw [h] at hlt
    omega

/-- The state before the first byte. -/
theorem scanInv_start (buffer : Buffer) (sock : ReadSide) :
    ScanInv [] ⟨buffer, 0, false, none, false, sock⟩ :=
  ⟨⟨buffer, rfl⟩, rfl, Or.inr ⟨rfl, rfl, fun ⟨a, b, h, _⟩ => by simp at h⟩⟩

/-- A run of the loop cannot pass the end of a frame. -/
theorem Frame.terminated_of_le {s y r : List UInt8} (f : Frame s) (hs : s = y ++ r)
    (hle : f.size ≤ y.length) (hfirst : ∀ p, p <+: y → p ≠ [] → p ≠ y → ¬Terminated p) :
    y ≠ [] ∧ Terminated y := by
  have hpre : f.text ++ dot :: f.blanks ++ [newline] <+: s := ⟨f.rest, f.split.symm⟩
  have hpy := List.prefix_of_prefix_length_le hpre ⟨r, hs.symm⟩ (by rwa [f.length_header])
  have hne : f.text ++ dot :: f.blanks ++ [newline] ≠ [] := by simp
  by_cases heq : f.text ++ dot :: f.blanks ++ [newline] = y
  · exact ⟨heq ▸ hne, heq ▸ f.terminated⟩
  · exact absurd f.terminated (hfirst _ hpy hne heq)

/-- Behind the header a NUL is written if the limit leaves room. -/
theorem storeNul_behind (pre tail : Buffer) (room : ℕ) {n : ℕ} (hn : n = pre.length)
    (hroom : n < room → 0 < tail.length) :
    ∃ tail', storeNul (pre ++ tail) (if n < room then some n else none) = .ok (pre ++ tail') ∧
      tail'.length = tail.length := by
  split_ifs with hlt
  · obtain ⟨o, tail, rfl⟩ := List.exists_cons_of_length_pos (hroom hlt)
    exact ⟨some nul :: tail, store_at pre o tail nul hn, rfl⟩
  · exact ⟨tail, rfl, rfl⟩

/-- A header that fits : its length, its text with the terminating period overwritten by a
NUL, and the stream behind it. -/
theorem hmsParseReadHeader_frame {sock : ReadSide} {buffer : Buffer} {bufLen : ℤ}
    (f : Frame sock.unread) (hmax : bufLen ≤ intMax) (hbuf : bufLen ≤ buffer.length)
    (hf : f.size ≤ bufLen) :
    ∃ tail sock', hmsParseReadHeader sock buffer bufLen =
        .ok (f.size, cells (f.text.map crToSpace) ++ some nul ::
          (cells ((f.blanks ++ [newline]).map crToSpace) ++ tail), sock') ∧
      sock'.unread = f.rest ∧ f.size + tail.length = buffer.length := by
  have hpos : 0 < f.size := by simp [Frame.size]
  have hroom : toUnsigned bufLen = bufLen.toNat := toUnsigned_of_nonneg (by omega) hmax
  obtain ⟨st', y, hrun, hlen, hs, hy, hfirst, hcase⟩ :=
    readHeaderLoop_run bufLen.toNat (scanInv_start buffer sock) (by simp; omega) rfl
  simp only [List.nil_append] at hfirst hcase hs hlen
  rcases hcase with ⟨-, -, hlast, hend⟩ | ⟨hdone, hhdr, ⟨tail, htail⟩, a, b, hyab, hb, hptr⟩
  · have hyle : f.size ≤ y.length := by
      rcases hend with hend | hend
      · omega
      · have := f.size_le
        rw [hend, List.append_nil] at hs
        rwa [← hs]
    obtain ⟨hne, hterm⟩ := f.terminated_of_le hs hyle hfirst
    exact absurd hterm (hlast hne)
  · obtain ⟨g, rfl, rfl, hgr⟩ := exists_frame hs hyab hb hfirst
    obtain rfl := f.subsingleton g
    have hsize : y.length = f.size := by rw [hyab, f.length_header]
    set header := cells (f.text.map crToSpace) ++ some nul ::
      cells ((f.blanks ++ [newline]).map crToSpace) with hheader
    have hdotNul : store st'.buffer f.text.length nul = .ok (header ++ tail) := by
      rw [htail, hyab]
      simp only [hheader, List.map_append, List.map_cons, cells_append, cells_cons,
        List.append_assoc, List.cons_append]
      exact store_at _ _ _ _ (by simp)
    have htlen : f.size + tail.length = buffer.length := by
      rw [← hlen, htail, ← hsize]
      simp
    have hstop : st'.hdrLen = header.length := by
      rw [hhdr, hsize, hheader]
      simp [Frame.size]
      omega
    obtain ⟨tail', hendNul, hlen'⟩ := storeNul_behind header tail bufLen.toNat hstop
      fun hlt => by omega
    refine ⟨tail', st'.sock, ?_, hgr.symm, by rw [hlen', htlen]⟩
    have hne : bufLen ≠ 0 := by omega
    have hres : toInt (st'.hdrLen : ℤ) = f.size := by
      rw [hhdr, hsize]
      exact toInt_of_range (by unfold intMin; omega) (by omega)
    rw [hmsParseReadHeader, hroom, hmsAssertNotEquals, assert_of hne, ok_bind, hrun,
      ok_bind, hptr, storeNul, hdotNul, ok_bind, hendNul, ok_bind, hdone, hres, hheader,
      List.append_assoc, List.cons_append]
    rfl

/-- A stream without a header that fits : `-1`, after as many bytes as the buffer and the
stream have. -/
theorem hmsParseReadHeader_noFrame {sock : ReadSide} {buffer : Buffer} {bufLen : ℤ}
    (hpos : 0 < bufLen) (hmax : bufLen ≤ intMax) (hbuf : bufLen ≤ buffer.length)
    (hno : ∀ f : Frame sock.unread, bufLen < f.size) :
    ∃ buffer' sock', hmsParseReadHeader sock buffer bufLen = .ok (-1, buffer', sock') ∧
      buffer'.length = buffer.length ∧ sock'.unread = sock.unread.drop bufLen.toNat := by
  have hroom : toUnsigned bufLen = bufLen.toNat := toUnsigned_of_nonneg (by omega) hmax
  obtain ⟨st', y, hrun, hlen, hs, hy, hfirst, hcase⟩ :=
    readHeaderLoop_run bufLen.toNat (scanInv_start buffer sock) (by simp; omega) rfl
  simp only [List.nil_append] at hfirst hcase hs hlen
  rcases hcase with ⟨hdone, hinv', -, hend⟩ | ⟨-, -, -, a, b, hyab, hb, -⟩
  · have hdrop : st'.sock.unread = sock.unread.drop bufLen.toNat := by
      rw [hs]
      rcases hend with hend | hend
      · rw [← hend, List.drop_left]
      · rw [hend, List.append_nil, List.drop_eq_nil_of_le hy]
    obtain ⟨b₁, hb₁, hlen₁⟩ : ∃ b₁, storeNul st'.buffer st'.dotPtr = .ok b₁ ∧
        b₁.length = st'.buffer.length := by
      rcases hinv'.dots with ⟨-, a, b, hyab, -, hp⟩ | ⟨-, hp, -⟩
      · rw [hp]
        refine store_ok ?_ nul
        have := congrArg List.length hyab
        simp only [List.length_append, List.length_cons] at this
        omega
      · rw [hp]
        exact ⟨_, rfl, rfl⟩
    obtain ⟨b₂, hb₂, hlen₂⟩ : ∃ b₂, storeNul b₁
        (if st'.hdrLen < bufLen.toNat then some st'.hdrLen else none) = .ok b₂ ∧
          b₂.length = b₁.length := by
      split_ifs with hlt
      · exact store_ok (by omega) nul
      · exact ⟨_, rfl, rfl⟩
    refine ⟨b₂, st'.sock, ?_, by omega, hdrop⟩
    rw [hmsParseReadHeader, hroom, hmsAssertNotEquals, assert_of (by omega), ok_bind, hrun,
      ok_bind, hb₁, ok_bind, hb₂, ok_bind, hdone]
    rfl
  · exfalso
    obtain ⟨g, rfl, rfl, -⟩ := exists_frame hs hyab hb hfirst
    have hsize : y.length = g.size := by rw [hyab, g.length_header]
    have := hno g
    omega

/-! ## The cells behind the limit -/

/-- The loop writes only where it has room, and points to no other cell. -/
theorem readHeaderLoop_drop {k : ℕ} :
    ∀ (room : ℕ) {st st' : HeaderScan}, readHeaderLoop room st = .ok st' →
      st.hdrLen + room ≤ k → (∀ i, st.dotPtr = some i → i < k) →
      st'.buffer.drop k = st.buffer.drop k ∧ ∀ i, st'.dotPtr = some i → i < k
  | 0, st, st', h, _, hptr => by
    cases h
    exact ⟨rfl, hptr⟩
  | room + 1, st, st', h, hroom, hptr => by
    rcases hs : st.sock.unread with - | ⟨c, s⟩
    · have hpair : st.sock.read 1 = ([], (st.sock.read 1).2) :=
        Prod.ext (ReadSide.read_eof hs).1 rfl
      rw [readHeaderLoop, hpair] at h
      cases h
      exact ⟨rfl, hptr⟩
    obtain ⟨buffer, hstore⟩ : ∃ buffer, store st.buffer st.hdrLen (crToSpace c) = .ok buffer := by
      have hpair : st.sock.read 1 = ([c], (st.sock.read 1).2) :=
        Prod.ext (ReadSide.read_one hs).1 rfl
      rw [readHeaderLoop, hpair] at h
      obtain ⟨buffer, hstore, -⟩ := bind_eq_ok.1 h
      exact ⟨buffer, hstore⟩
    have hdrop := drop_of_store hstore (k := k) (by omega)
    rw [readHeaderLoop_byte room hs hstore] at h
    dsimp only at h
    rw [← hdrop]
    split_ifs at h
    · refine readHeaderLoop_drop room h (by dsimp only; omega) fun i hi => ?_
      cases hi
      omega
    · cases h
      exact ⟨rfl, hptr⟩
    · exact readHeaderLoop_drop room h (by dsimp only; omega) nofun
    · exact readHeaderLoop_drop room h (by dsimp only; omega) hptr

theorem drop_of_storeNul {b b' : Buffer} {o : Option ℕ} {k : ℕ} (h : storeNul b o = .ok b')
    (ho : ∀ i, o = some i → i < k) : b'.drop k = b.drop k := by
  cases o with
  | none =>
    cases h
    rfl
  | some i => exact drop_of_store h (ho i rfl)

/-- Nothing is written behind the limit. -/
theorem hmsParseReadHeader_drop {sock sock' : ReadSide} {buffer buffer' : Buffer} {bufLen n : ℤ}
    (h : hmsParseReadHeader sock buffer bufLen = .ok (n, buffer', sock')) :
    buffer'.drop (toUnsigned bufLen) = buffer.drop (toUnsigned bufLen) := by
  obtain ⟨_, -, h⟩ := bind_eq_ok.1 h
  obtain ⟨st, hst, h⟩ := bind_eq_ok.1 h
  obtain ⟨b₁, hb₁, h⟩ := bind_eq_ok.1 h
  obtain ⟨b₂, hb₂, h⟩ := bind_eq_ok.1 h
  cases h
  obtain ⟨hloop, hptr⟩ := readHeaderLoop_drop (k := toUnsigned bufLen) _ hst (by simp) nofun
  have hend : ∀ i, (if st.hdrLen < toUnsigned bufLen then some st.hdrLen else none) = some i →
      i < toUnsigned bufLen := by
    intro i hi
    split_ifs at hi with hlt
    cases hi
    exact hlt
  rw [drop_of_storeNul hb₂ hend, drop_of_storeNul hb₁ hptr, hloop]

/-- A terminated prefix has a frame in it. -/
theorem exists_frame_of_terminated {s : List UInt8} :
    ∀ {p : List UInt8}, p <+: s → Terminated p → ∃ f : Frame s, f.size ≤ p.length := by
  intro p
  induction hn : p.length using Nat.strong_induction_on generalizing p with
  | _ n ih =>
    intro hp ht
    by_cases hshort : ∃ q, q <+: s ∧ q.length < n ∧ Terminated q
    · obtain ⟨q, hq, hlt, hqt⟩ := hshort
      obtain ⟨f, hf⟩ := ih q.length hlt rfl hq hqt
      exact ⟨f, hf.trans hlt.le⟩
    · obtain ⟨l, ⟨a, b, rfl, hb⟩, rfl⟩ := ht
      obtain ⟨r, hr⟩ := hp
      have hlen : a.length + b.length + 2 = n := by
        rw [← hn]
        simp
        omega
      refine ⟨⟨a, b, r, hr.symm, hb, fun q hq hlt hqt => ?_⟩, hlen.le⟩
      exact hshort ⟨q, hq, hlen ▸ hlt, hqt⟩

/-- The function on any stream and any buffer that has room for the limit. If a prefix of the
stream within the limit is terminated, it reads the shortest one. -/
theorem readHeader_language (sock : ReadSide) {buffer : Buffer} {bufLen : ℤ} (hpos : 0 < bufLen)
    (hmax : bufLen ≤ intMax) (hbuf : bufLen ≤ buffer.length) :
    ∃ n buffer' sock', hmsParseReadHeader sock buffer bufLen = .ok (n, buffer', sock') ∧
      buffer'.length = buffer.length ∧
      buffer'.drop bufLen.toNat = buffer.drop bufLen.toNat ∧
      ((∃ f : Frame sock.unread, f.size ≤ bufLen ∧ n = f.size ∧
          sock'.unread = sock.unread.drop f.size ∧
          buffer'.take f.size = cells (f.text.map crToSpace) ++ some nul ::
            cells ((f.blanks ++ [newline]).map crToSpace)) ∨
        ((∀ p, p <+: sock.unread → p.length ≤ bufLen → ¬Terminated p) ∧ n = -1 ∧
          sock'.unread = sock.unread.drop (min bufLen.toNat sock.unread.length))) := by
  have hroom : toUnsigned bufLen = bufLen.toNat := toUnsigned_of_nonneg hpos.le hmax
  by_cases hf : ∃ f : Frame sock.unread, f.size ≤ bufLen
  · obtain ⟨f, hf⟩ := hf
    obtain ⟨tail, sock', hrun, hrest, hlen⟩ := hmsParseReadHeader_frame f hmax hbuf hf
    have hdrop := hmsParseReadHeader_drop hrun
    rw [hroom] at hdrop
    have hsize : f.size = (cells (f.text.map crToSpace) ++ some nul ::
        cells ((f.blanks ++ [newline]).map crToSpace)).length := by
      simp [Frame.size]
      omega
    refine ⟨_, _, _, hrun, ?_, hdrop, .inl ⟨f, hf, rfl, hrest.trans f.rest_eq, ?_⟩⟩
    · rw [← hlen, hsize]
      simp
      omega
    · rw [← List.cons_append, ← List.append_assoc, hsize, List.take_left]
  · have hno : ∀ f : Frame sock.unread, bufLen < f.size := fun f => by
      by_contra hle
      exact hf ⟨f, not_lt.1 hle⟩
    obtain ⟨buffer', sock', hrun, hlen, hrest⟩ := hmsParseReadHeader_noFrame hpos hmax hbuf hno
    have hdrop := hmsParseReadHeader_drop hrun
    rw [hroom] at hdrop
    refine ⟨_, _, _, hrun, hlen, hdrop, .inr ⟨fun p hp hle ht => ?_, rfl, ?_⟩⟩
    · obtain ⟨f, hsize⟩ := exists_frame_of_terminated hp ht
      have := hno f
      omega
    · rw [hrest]
      rcases le_total bufLen.toNat sock.unread.length with hle | hle
      · rw [Nat.min_eq_left hle]
      · rw [Nat.min_eq_right hle, List.drop_length, List.drop_eq_nil_of_le hle]

/-- A header that ends at the limit. -/
theorem readHeader_language_ping :
    ∃ n buffer sock, hmsParseReadHeader ⟨[65, dot, carriageReturn, newline], fun _ => 0⟩
        (Buffer.uninit 5) 4 = .ok (n, buffer, sock) ∧
      buffer.length = 5 ∧ buffer.drop 4 = [none] := by
  have hbuf : (4 : ℤ) ≤ (Buffer.uninit 5).length := by simp
  obtain ⟨n, buffer, sock, hrun, hlen, hdrop, -⟩ := readHeader_language
    ⟨[65, dot, carriageReturn, newline], fun _ => 0⟩ (by norm_num) (by norm_num [intMax]) hbuf
  exact ⟨n, buffer, sock, hrun, hlen, hdrop⟩

end Hermes
