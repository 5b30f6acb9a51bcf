import Hermes.CLib.Bytes

/-!
# Stream sockets

The two directions of a connected stream socket, each with the schedule by which the kernel
cuts it. `read` hands out between one byte and the number asked for while there are unread
bytes, and nothing once the peer has closed. `send` fails, or takes between one byte and the
number offered. A schedule entry `k` stands for `k + 1` bytes, limited to what is asked or
offered, so the schedules are exactly the ways to cut the stream.
-/

namespace CLib

/-- What the peer has sent and will be read, then end of file. -/
structure ReadSide where
  unread : List UInt8
  /-- How many bytes, less one, each coming `read` is given at most. -/
  chunks : ℕ → ℕ

namespace ReadSide

variable (s : ReadSide) (n : ℕ)

/-- `read(fd, buf, n)` : the bytes stored and the socket after it. -/
def read : List UInt8 × ReadSide :=
  (s.unread.take (min n (s.chunks 0 + 1)),
    ⟨s.unread.drop (min n (s.chunks 0 + 1)), fun i => s.chunks (i + 1)⟩)

/-- No byte is lost or read twice. -/
theorem read_append : (s.read n).1 ++ (s.read n).2.unread = s.unread :=
  List.take_append_drop _ _

theorem length_read_le : (s.read n).1.length ≤ n := by
  simp only [read, List.length_take]
  omega

variable {s n}

/-- Before end of file a read gives at least one byte. -/
theorem read_pos (hn : 0 < n) (hs : s.unread ≠ []) : 0 < (s.read n).1.length := by
  have := List.length_pos_iff.2 hs
  simp only [read, List.length_take]
  omega

theorem read_eof (hs : s.unread = []) : (s.read n).1 = [] ∧ (s.read n).2.unread = [] := by
  simp [read, hs]

/-- A read of one byte does not depend on the schedule. -/
theorem read_one {c : UInt8} {r : List UInt8} (hs : s.unread = c :: r) :
    (s.read 1).1 = [c] ∧ (s.read 1).2.unread = r := by
  simp [read, hs]

end ReadSide

/-- What went out, and how the coming `send` calls will end. -/
structure WriteSide where
  sent : List UInt8
  /-- `none` is a failure, `some k` takes `k + 1` of the bytes offered. -/
  outcomes : ℕ → Option ℕ

namespace WriteSide

/-- `send(fd, p, len, 0)` : the number of bytes taken, `none` for `-1`. -/
def send (w : WriteSide) (p : List UInt8) : Option ℕ × WriteSide :=
  match w.outcomes 0 with
  | none => (none, ⟨w.sent, fun i => w.outcomes (i + 1)⟩)
  | some k =>
    (some (min p.length (k + 1)),
      ⟨w.sent ++ p.take (min p.length (k + 1)), fun i => w.outcomes (i + 1)⟩)

variable {w : WriteSide} {p : List UInt8}

theorem send_none (h : w.outcomes 0 = none) :
    w.send p = (none, ⟨w.sent, fun i => w.outcomes (i + 1)⟩) := by
  rw [send, h]

theorem send_some {k : ℕ} (h : w.outcomes 0 = some k) : w.send p =
    (some (min p.length (k + 1)),
      ⟨w.sent ++ p.take (min p.length (k + 1)), fun i => w.outcomes (i + 1)⟩) := by
  rw [send, h]

end WriteSide

/-! ## Sending until all is taken or a call fails -/

/-- How many of `n` bytes go out before a `send` fails, and the outcomes after these calls. -/
def accepted (outcomes : ℕ → Option ℕ) : ℕ → ℕ × (ℕ → Option ℕ)
  | 0 => (0, outcomes)
  | n + 1 =>
    match outcomes 0 with
    | none => (0, fun i => outcomes (i + 1))
    | some k =>
      let rest := accepted (fun i => outcomes (i + 1)) (n - k)
      (min (n + 1) (k + 1) + rest.1, rest.2)
termination_by n => n

section Accepted

variable {outcomes : ℕ → Option ℕ} {n : ℕ}

theorem accepted_zero (outcomes : ℕ → Option ℕ) : accepted outcomes 0 = (0, outcomes) := by
  rw [accepted]

theorem accepted_none (h : outcomes 0 = none) (hn : 0 < n) :
    accepted outcomes n = (0, fun i => outcomes (i + 1)) := by
  obtain ⟨n, rfl⟩ := Nat.exists_eq_add_one_of_ne_zero hn.ne'
  rw [accepted, h]

theorem accepted_some {k : ℕ} (h : outcomes 0 = some k) (hn : 0 < n) : accepted outcomes n =
    (min n (k + 1) + (accepted (fun i => outcomes (i + 1)) (n - (k + 1))).1,
      (accepted (fun i => outcomes (i + 1)) (n - (k + 1))).2) := by
  obtain ⟨n, rfl⟩ := Nat.exists_eq_add_one_of_ne_zero hn.ne'
  rw [accepted, h, Nat.add_sub_add_right]

theorem accepted_le (outcomes : ℕ → Option ℕ) (n : ℕ) : (accepted outcomes n).1 ≤ n := by
  induction n using Nat.strong_induction_on generalizing outcomes with
  | _ n ih =>
    rcases Nat.eq_zero_or_pos n with rfl | hn
    · rw [accepted_zero]
    cases h : outcomes 0 with
    | none =>
      rw [accepted_none h hn]
      exact Nat.zero_le n
    | some k =>
      have hle := ih (n - (k + 1)) (by omega) fun i => outcomes (i + 1)
      rw [accepted_some h hn]
      show min n (k + 1) + _ ≤ n
      omega

/-- If no call fails all bytes go out, and no later call fails. -/
theorem accepted_of_forall (h : ∀ i, outcomes i ≠ none) (n : ℕ) :
    (accepted outcomes n).1 = n ∧ ∀ i, (accepted outcomes n).2 i ≠ none := by
  induction n using Nat.strong_induction_on generalizing outcomes with
  | _ n ih =>
    rcases Nat.eq_zero_or_pos n with rfl | hn
    · rw [accepted_zero]
      exact ⟨rfl, h⟩
    obtain ⟨k, hk⟩ := Option.ne_none_iff_exists'.1 (h 0)
    obtain ⟨h1, h2⟩ := ih (n - (k + 1)) (by omega) (fun i => h (i + 1))
    rw [accepted_some hk hn, h1]
    exact ⟨by omega, h2⟩

end Accepted

namespace WriteSide

/-- How many bytes of `p` go out before a `send` fails. -/
def taken (w : WriteSide) (p : List UInt8) : ℕ :=
  (accepted w.outcomes p.length).1

/-- The socket after sending `p` until all is taken or a call fails. -/
def after (w : WriteSide) (p : List UInt8) : WriteSide :=
  ⟨w.sent ++ p.take (w.taken p), (accepted w.outcomes p.length).2⟩

theorem taken_le (w : WriteSide) (p : List UInt8) : w.taken p ≤ p.length :=
  accepted_le _ _

@[simp] theorem taken_nil (w : WriteSide) : w.taken [] = 0 :=
  congrArg Prod.fst (accepted_zero w.outcomes)

@[simp] theorem after_nil (w : WriteSide) : w.after [] = w := by
  rw [after, List.take_nil, List.append_nil, List.length_nil, accepted_zero]

/-- No later call fails. -/
theorem outcomes_after {w : WriteSide} (h : ∀ i, w.outcomes i ≠ none) (p : List UInt8) (i : ℕ) :
    (w.after p).outcomes i ≠ none :=
  (accepted_of_forall h p.length).2 i

theorem taken_of_forall {w : WriteSide} (h : ∀ i, w.outcomes i ≠ none) (p : List UInt8) :
    w.taken p = p.length :=
  (accepted_of_forall h p.length).1

theorem sent_after (w : WriteSide) (p : List UInt8) :
    (w.after p).sent = w.sent ++ p.take (w.taken p) :=
  rfl

end WriteSide

end CLib
