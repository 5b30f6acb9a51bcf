import Hermes.ServerInv

/-!
# Who owns a connection

A connection that `accept` has returned is held by the listener, waits in the queue, is handled
by a worker, or is closed. Two steps lose connections : `_hms_listen` leaves its loop with the
connection it has just accepted when `manager->shutdown` is set, and `tpool_destroy` frees the
work that is still queued. In a run without these steps every connection is at one place, and
all are closed when `hermes_shutdown` returns (`run_noneLost_iff`).
-/

open CLib

namespace Hermes

namespace Server

variable {n : ℕ} {s u : Server n}

/-- The listener holds `fd`. -/
def held (s : Server n) (fd : ℕ) : ℕ :=
  (Finset.univ.filter fun w =>
    s.workers w = .listening (.testing fd) ∨ s.workers w = .listening (.enqueuing fd)).card

/-- The items of the queue that wait to handle `fd`. -/
def queued (s : Server n) (fd : ℕ) : ℕ :=
  s.pool.queue.count (.hmsHandleEndpoint fd)

/-- The workers that handle `fd`. -/
def handled (s : Server n) (fd : ℕ) : ℕ :=
  (Finset.univ.filter fun w => s.workers w = .handling fd).card

/-- Every connection accepted is at one place, and all are closed when `hermes_shutdown` has
returned. -/
structure NoneLost (s : Server n) : Prop where
  once : ∀ fd < s.accepted, s.held fd + s.queued fd + s.handled fd + s.closed.count fd = 1
  closed : s.caller = .returned → ∀ fd < s.accepted, fd ∈ s.closed

/-- The steps that lose a connection. -/
def Loses (s : Server n) : Action n → Prop
  | .worker w => ∃ fd, s.workers w = .listening (.testing fd) ∧ s.shutdown = true
  | .caller => ∃ i fd, s.caller = .joining i ∧ n ≤ i ∧ .hmsHandleEndpoint fd ∈ s.pool.queue
  | _ => False

/-! ## Counting connections -/

/-- Those who own `fd`. -/
def Tally.owners (fd : ℕ) : Tally where
  count t :=
    (if t = .listening (.testing fd) ∨ t = .listening (.enqueuing fd) then 1 else 0) +
      if t = .handling fd then 1 else 0
  locking := by simp
  waiting := by simp
  exited := by simp

theorem sum_owners (fd : ℕ) (queue : List TpoolWork) :
    (queue.map fun item => (Tally.owners fd).count (work item)).sum =
      queue.count (.hmsHandleEndpoint fd) := by
  induction queue with
  | nil => rfl
  | cons item queue ih =>
    rw [List.map_cons, List.sum_cons, ih, List.count_cons, add_comm]
    cases item <;> simp [work, Tally.owners]

/-- How often `fd` is owned or closed. -/
def places (s : Server n) (fd : ℕ) : ℕ :=
  total (.owners fd) s + s.closed.count fd

theorem places_eq (s : Server n) (fd : ℕ) :
    s.places fd = s.held fd + s.queued fd + s.handled fd + s.closed.count fd := by
  have hsum : ∑ w, (Tally.owners fd).count (s.workers w) = s.held fd + s.handled fd := by
    simp only [Tally.owners, Finset.sum_add_distrib, held, handled, Finset.card_filter]
  rw [places, total, hsum, sum_owners, queued]
  omega

theorem places_setWorker (s : Server n) (fd : ℕ) (w : Fin n) (t : Worker) :
    (s.setWorker w t).places fd + (Tally.owners fd).count (s.workers w) =
      s.places fd + (Tally.owners fd).count t := by
  have := total_setWorker (.owners fd) s w t
  change total _ (s.setWorker w t) + s.closed.count fd + _ = _
  rw [places]
  omega

/-- How often it should be. -/
def due (s : Server n) (fd : ℕ) : ℕ :=
  if fd < s.accepted then 1 else 0

/-! ## What a step does to a connection -/

/-- The step loses no connection. -/
def Keeps (s u : Server n) : Prop :=
  ∀ fd, u.places fd + s.due fd = s.places fd + u.due fd

/-- The step loses a connection, and accepts none. -/
structure Drops (s u : Server n) : Prop where
  accepted : u.accepted = s.accepted
  le : ∀ fd, u.places fd ≤ s.places fd
  lt : ∃ fd, u.places fd < s.places fd

theorem keeps_of_eq (hacc : u.accepted = s.accepted) (hp : ∀ fd, u.places fd = s.places fd) :
    Keeps s u := by
  intro fd
  simp only [due, hacc, hp]

/-- A worker goes on without a connection, or with the one it has. -/
theorem keeps_setWorker {w : Fin n} {t : Worker}
    (ht : ∀ fd, (Tally.owners fd).count t = (Tally.owners fd).count (s.workers w)) :
    Keeps s (s.setWorker w t) := by
  refine keeps_of_eq rfl fun fd => ?_
  have := places_setWorker s fd w t
  have := ht fd
  omega

theorem keeps_enqueue {w : Fin n} {fd : ℕ} (hw : s.workers w = .listening (.enqueuing fd)) :
    Keeps s ((s.enqueue (.hmsHandleEndpoint fd)).setWorker w (.listening .accepting)) := by
  refine keeps_of_eq rfl fun k => ?_
  have hset := places_setWorker (s.enqueue (.hmsHandleEndpoint fd)) k w (.listening .accepting)
  have htotal := total_enqueue (s := s) (.owners k) (.hmsHandleEndpoint fd)
  have hplaces : (s.enqueue (.hmsHandleEndpoint fd)).places k =
      s.places k + (Tally.owners k).count (.handling fd) := by
    change total _ (s.enqueue _) + s.closed.count k = _
    rw [htotal, places, work]
    omega
  rw [enqueue_workers s _ (by simp [hw]), hw, hplaces] at hset
  simp only [Tally.owners, Worker.listening.injEq, Listener.enqueuing.injEq,
    Worker.handling.injEq, reduceCtorEq, false_or, if_false, add_zero, zero_add, or_self] at hset
  omega

theorem keeps_accept {w : Fin n} (hw : s.workers w = .listening .accepting) :
    Keeps s ({ s with pending := s.pending - 1, accepted := s.accepted + 1 }.setWorker w
      (.listening (.testing s.accepted))) := by
  intro k
  let t : Server n := { s with pending := s.pending - 1, accepted := s.accepted + 1 }
  have hset := places_setWorker t k w (.listening (.testing s.accepted))
  have hold : (Tally.owners k).count (t.workers w) = 0 := by simp [t, hw, Tally.owners]
  have hnew : (Tally.owners k).count (.listening (.testing s.accepted)) =
      if s.accepted = k then 1 else 0 := by simp [Tally.owners]
  have hdue : due (t.setWorker w (.listening (.testing s.accepted))) k =
      s.due k + if s.accepted = k then 1 else 0 := by
    change (if k < s.accepted + 1 then 1 else 0) = _
    unfold due
    split_ifs <;> omega
  have hplaces : t.places k = s.places k := rfl
  change (t.setWorker w (.listening (.testing s.accepted))).places k + s.due k =
    s.places k + (t.setWorker w (.listening (.testing s.accepted))).due k
  omega

theorem keeps_finish {w : Fin n} {fd : ℕ} (hw : s.workers w = .handling fd) :
    Keeps s ({ s with closed := fd :: s.closed }.setWorker w .locking) := by
  refine keeps_of_eq rfl fun k => ?_
  let t : Server n := { s with closed := fd :: s.closed }
  have hset := places_setWorker t k w .locking
  have hold : (Tally.owners k).count (t.workers w) = if fd = k then 1 else 0 := by
    simp [t, hw, Tally.owners]
  have hplaces : t.places k = s.places k + if fd = k then 1 else 0 := by
    change total _ s + (fd :: s.closed).count k = _
    simp only [List.count_cons, places, beq_iff_eq]
    omega
  rw [Tally.locking] at hset
  change (t.setWorker w .locking).places k = s.places k
  omega

/-- The listener leaves its loop with the connection it has accepted. -/
theorem drops_leave {w : Fin n} {fd : ℕ} (hw : s.workers w = .listening (.testing fd)) :
    Drops s (s.setWorker w (.listening .leaving)) := by
  have hset (k : ℕ) : (s.setWorker w (.listening .leaving)).places k +
      (Tally.owners k).count (.listening (.testing fd)) = s.places k := by
    have := places_setWorker s k w (.listening .leaving)
    rw [hw] at this
    simpa [Tally.owners] using this
  refine ⟨rfl, fun k => le_of_add_le_left (hset k).le, fd, ?_⟩
  have hone : (Tally.owners fd).count (.listening (.testing fd)) = 1 := by simp [Tally.owners]
  have := hset fd
  omega

theorem freePool_accepted (s : Server n) : s.freePool.accepted = s.accepted := by
  unfold freePool
  split <;> rfl

/-- The work that is freed is lost. -/
theorem places_freePool (s : Server n) (fd : ℕ) :
    s.freePool.places fd + s.pool.queue.count (.hmsHandleEndpoint fd) = s.places fd := by
  have htotal := total_withQueue (.owners fd) s []
  rw [sum_owners] at htotal
  have hfree : s.freePool.places fd = total (.owners fd) (s.withQueue []) + s.closed.count fd := by
    unfold freePool
    split <;> rfl
  rw [hfree, places]
  simp only [List.map_nil, List.sum_nil] at htotal
  omega

/-- A step loses a connection just if it is one of those that do. -/
theorem Move.keeps_or_drops {a : Action n} (hm : Move s a u) :
    ¬s.Loses a ∧ Keeps s u ∨ s.Loses a ∧ Drops s u := by
  cases hm with
  | connect | shutdown hc | wakeCaller hc =>
    exact .inl ⟨not_false, keeps_of_eq rfl fun _ => rfl⟩
  | wakeWorker hw => exact .inl ⟨not_false, keeps_setWorker (by simp [hw])⟩
  | serve hc => exact .inl ⟨by simp [Loses, hc], keeps_of_eq rfl fun _ => rfl⟩
  | listen hc =>
    refine .inl ⟨by simp [Loses, hc], keeps_of_eq rfl fun fd => ?_⟩
    change total _ (s.enqueue .hmsListen) + s.closed.count fd = _
    rw [total_enqueue, places]
    simp [work, Tally.owners]
  | drain hc _ | stop hc =>
    exact .inl ⟨by rcases hc with hc | hc <;> simp [Loses, hc], keeps_of_eq rfl fun _ => rfl⟩
  | wakeWorkers hc =>
    refine .inl ⟨by simp [Loses, hc], keeps_of_eq rfl fun fd => ?_⟩
    change total _ s.broadcastNotEmpty + s.closed.count fd = _
    rw [total_broadcastNotEmpty, places]
  | wakeAdders hc => exact .inl ⟨by simp [Loses, hc], keeps_of_eq rfl fun _ => rfl⟩
  | @join i hi hc hw =>
    have hl : ¬s.Loses .caller := by
      rintro ⟨j, fd, hj, hn, -⟩
      obtain rfl : i = j := by simpa [hc] using hj
      omega
    exact .inl ⟨hl, keeps_of_eq rfl fun _ => rfl⟩
  | @free i hi hc =>
    by_cases hq : ∃ fd, .hmsHandleEndpoint fd ∈ s.pool.queue
    · obtain ⟨fd, hfd⟩ := hq
      refine .inr ⟨⟨i, fd, hc, hi, hfd⟩, freePool_accepted s, fun k => ?_, fd, ?_⟩
      · exact le_of_add_le_left (places_freePool s k).le
      · have := List.count_pos_iff.2 hfd
        have := places_freePool s fd
        omega
    · refine .inl ⟨?_, keeps_of_eq (freePool_accepted s) fun fd => ?_⟩
      · rintro ⟨_, fd, -, -, hfd⟩
        exact hq ⟨fd, hfd⟩
      · have := List.count_eq_zero.2 fun hfd => hq ⟨fd, hfd⟩
        have := places_freePool s fd
        omega
  | wait hw hq hs => exact .inl ⟨by simp [Loses, hw], keeps_setWorker (by simp [hw])⟩
  | exit hw hs => exact .inl ⟨by simp [Loses, hw], keeps_setWorker (by simp [hw])⟩
  | take hw hq =>
    refine .inl ⟨by simp [Loses, hw], keeps_of_eq rfl fun fd => ?_⟩
    change total _ (s.dequeue _ _ _) + s.closed.count fd = _
    rw [total_dequeue _ hw hq, places]
  | leave hw hs => exact .inr ⟨⟨_, hw, hs⟩, drops_leave hw⟩
  | proceed hw hs =>
    exact .inl ⟨by simp [Loses, hw, hs], keeps_setWorker (by simp [hw, Tally.owners])⟩
  | enqueue hw hp => exact .inl ⟨by simp [Loses, hw], keeps_enqueue hw⟩
  | refuse hw hp => exact .inl ⟨by simp [Loses, hw], keeps_of_eq rfl fun _ => rfl⟩
  | left hw => exact .inl ⟨by simp [Loses, hw], keeps_setWorker (by simp [hw, Tally.owners])⟩
  | retry hw => exact .inl ⟨not_false, keeps_of_eq rfl fun _ => rfl⟩
  | openSocket hw => exact .inl ⟨not_false, keeps_setWorker (by simp [hw, Tally.owners])⟩
  | accept hw => exact .inl ⟨not_false, keeps_accept hw⟩
  | fail hw => exact .inl ⟨not_false, keeps_setWorker (by simp [hw, Tally.owners])⟩
  | finish hw => exact .inl ⟨not_false, keeps_finish hw⟩

/-! ## Runs -/

theorem due_eq_one {fd : ℕ} (h : fd < s.accepted) : s.due fd = 1 :=
  if_pos h

/-- With the invariant nothing is lost just if every connection is where it should be. -/
theorem Inv.noneLost_iff (h : s.Inv) (hle : ∀ fd, s.places fd ≤ s.due fd) :
    s.NoneLost ↔ ∀ fd, s.places fd = s.due fd := by
  constructor
  · intro hs fd
    by_cases hfd : fd < s.accepted
    · rw [places_eq, hs.once fd hfd, due_eq_one hfd]
    · have hdue : s.due fd = 0 := if_neg hfd
      have := hle fd
      omega
  · intro hs
    have honce : ∀ fd < s.accepted, s.places fd = 1 := fun fd hfd => by
      rw [hs fd, due_eq_one hfd]
    refine ⟨fun fd hfd => by rw [← places_eq, honce fd hfd], fun hc fd hfd => ?_⟩
    obtain ⟨hq, hexit⟩ := h.callerOk hc
    have hclosed : s.places fd = s.closed.count fd := by
      simp [places, total, hq, hexit]
    rw [← List.count_pos_iff, ← hclosed, honce fd hfd]
    exact one_pos

theorem places_hermesInit (fd : ℕ) : (hermesInit n).places fd = 0 := by
  simp [places, total, hermesInit, tpoolInit]

/-- No connection is ever at two places, and none is at a place before it is accepted. -/
structure CountsInv (s : Server n) : Prop extends s.Inv where
  places_le : ∀ fd, s.places fd ≤ s.due fd

theorem countsInv_hermesInit (n : ℕ) : (hermesInit n).CountsInv :=
  ⟨inv_hermesInit n, fun fd => by simp [places_hermesInit]⟩

theorem Drops.due_eq (hd : Drops s u) (fd : ℕ) : u.due fd = s.due fd := by
  simp only [due, hd.accepted]

theorem Move.countsInv (h : s.CountsInv) {a : Action n} (hm : Move s a u) : u.CountsInv := by
  refine ⟨hm.inv h.toInv, fun fd => ?_⟩
  have hle := h.places_le fd
  rcases hm.keeps_or_drops with ⟨-, hk⟩ | ⟨-, hd⟩
  · have := hk fd
    omega
  · rw [hd.due_eq]
    exact (hd.le fd).trans hle

/-- A step after which nothing is lost is one that loses nothing. -/
theorem Move.noneLost_iff (h : s.CountsInv) (hs : s.NoneLost) {a : Action n} (hm : Move s a u) :
    u.NoneLost ↔ ¬s.Loses a := by
  have hu := hm.countsInv h
  rw [h.noneLost_iff h.places_le] at hs
  rw [hu.noneLost_iff hu.places_le]
  rcases hm.keeps_or_drops with ⟨hl, hk⟩ | ⟨hl, hd⟩
  · refine iff_of_true (fun fd => ?_) hl
    have := hk fd
    have := hs fd
    omega
  · obtain ⟨fd, hlt⟩ := hd.lt
    refine iff_of_false (fun hall => ?_) (not_not_intro hl)
    have := hall fd
    have := hs fd
    have := hd.due_eq fd
    omega

theorem noneLost_hermesInit (n : ℕ) : (hermesInit n).NoneLost :=
  ⟨fun fd hfd => absurd hfd (Nat.not_lt_zero fd), fun hc => by cases hc⟩

/-- In every state of a run no connection is lost, just if no step of it loses one. -/
theorem run_noneLost_iff {cfg : ServerConfig}
    {log : List (Server cfg.workers × Action cfg.workers)} {s : Server cfg.workers}
    (h : ServerRun cfg log s) :
    (∀ t ∈ visited log s, t.NoneLost) ↔ ∀ e ∈ log, ¬e.1.Loses e.2 :=
  Trace.forall_iff h (countsInv_hermesInit _)
    (fun _ _ _ ht hu => (ht.move hu).countsInv ht) (noneLost_hermesInit _)
    fun _ _ _ ht hs hu => (ht.move hu).noneLost_iff ht hs

/-- Worker `w` accepts a client before `hermes_shutdown` is called, and then leaves. -/
def lateActions (w : Fin n) : List (Action n) :=
  [.caller, .worker w, .openSocket w true, .connect, .accept w true, .shutdown, .worker w]

theorem exists_lost :
    ∃ log s, ServerRun ⟨1, 61182, 1⟩ log s ∧ ¬s.NoneLost := by
  have hlate : (perform (step ⟨1, 61182, 1⟩) (hermesInit 3) (lateActions (0 : Fin 3))).any
      (fun s => s.accepted = 1 ∧ s.places 0 = 0) := by decide
  obtain ⟨s, hs, hlate⟩ := (Option.any_eq_true _ _).1 hlate
  obtain ⟨haccepted, hplaces⟩ := of_decide_eq_true hlate
  obtain ⟨log, hlog, -⟩ := Trace.of_perform hs
  refine ⟨log, s, hlog, fun hnone => ?_⟩
  have honce := hnone.once 0 (haccepted.symm ▸ one_pos)
  rw [← places_eq, hplaces] at honce
  exact absurd honce zero_ne_one

/-- The connection is not closed. -/
theorem connection_lost : ¬∀ log s, ServerRun ⟨1, 61182, 1⟩ log s → s.NoneLost := by
  obtain ⟨log, s, hrun, hs⟩ := exists_lost
  exact fun h => hs (h log s hrun)

theorem run_noneLost_iff_late :
    ∃ log s, ServerRun ⟨1, 61182, 1⟩ log s ∧ ¬∀ e ∈ log, ¬e.1.Loses e.2 := by
  obtain ⟨log, s, hrun, hs⟩ := exists_lost
  exact ⟨log, s, hrun, fun h => hs ((run_noneLost_iff hrun).2 h s (by simp [visited]))⟩

end Server

end Hermes
