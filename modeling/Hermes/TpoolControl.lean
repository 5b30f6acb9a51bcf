import Hermes.TpoolMoves

/-!
# Who waits in a pool

`Pool.Control` is what holds of the places at which threads are. At most one client closes a pool
(`Closing`). A worker waits only for an empty queue, a client for a full one, and `tpool_destroy`
for one that is not empty : no signal is lost. Moves keep all this (`Pool.Move.control`).
-/

open CLib

namespace Hermes

namespace Linked

variable {α ι : Type} {n : ℕ}

/-! ## Clients that close the pool -/

/-- How far a client is with closing the pool. -/
def Client.stage : Client α → ℕ
  | .draining _ | .drained _ => 1
  | .wakingWorkers _ => 2
  | .wakingAdders _ => 3
  | .joining _ _ => 4
  | _ => 0

/-- The argument of a call that has shut the pool down. -/
def Client.finish : Client α → Option ℤ
  | .wakingWorkers finish | .wakingAdders finish | .joining finish _ => some finish
  | _ => none

theorem Client.two_le_stage {c : Client α} {finish : ℤ} (h : c.finish = some finish) :
    2 ≤ c.stage := by
  cases c <;> simp_all [Client.finish, Client.stage]

/-- One client closes the pool at most, and the flags say how far it is. -/
structure Closing (stage : ι → ℕ) (freed closed shutdown : Bool) : Prop where
  one : ∀ c d, 0 < stage c → 0 < stage d → c = d
  closed : closed = true ↔ freed = true ∨ ∃ c, 0 < stage c
  shutdown : shutdown = true ↔ freed = true ∨ ∃ c, 2 ≤ stage c
  freed : freed = true → ∀ c, stage c = 0

theorem closing_start : Closing (fun _ : ι => 0) false false false where
  one _ _ hc := absurd hc (lt_irrefl 0)
  closed := by simp
  shutdown := by simp
  freed _ _ := rfl

namespace Closing

variable {stage : ι → ℕ} {freed closed shutdown : Bool} {c : ι}

theorem not_freed (h : Closing stage freed closed shutdown) (hc : 0 < stage c) : freed = false := by
  by_contra hfreed
  exact absurd (h.freed (by simpa using hfreed) c) (by omega)

theorem shut (h : Closing stage freed closed shutdown) (hc : 2 ≤ stage c) : shutdown = true :=
  h.shutdown.2 (.inr ⟨c, hc⟩)

/-- No other client closes the pool. -/
theorem other (h : Closing stage freed closed shutdown) (hc : 0 < stage c) {d : ι} (hd : d ≠ c) :
    stage d = 0 := by
  by_contra hpos
  exact hd (h.one d c (by omega) hc)

variable [DecidableEq ι]

/-- Client `c` closes the pool alone. -/
theorem single (hc : ∀ d, d ≠ c → stage d = 0) {k : ℕ} (hk : 0 < k) :
    Closing (Function.update stage c k) false true (decide (2 ≤ k)) := by
  have hone : ∀ d, 0 < Function.update stage c k d → d = c := fun d hd => by
    by_contra hne
    rw [Function.update_of_ne hne, hc d hne] at hd
    exact absurd hd (lt_irrefl 0)
  refine ⟨fun d e hd he => (hone d hd).trans (hone e he).symm, ?_, ?_, by simp⟩
  · simpa using ⟨c, by simpa using hk⟩
  · refine ⟨fun h2 => .inr ⟨c, by simpa using h2⟩, ?_⟩
    rintro (hfreed | ⟨d, hd⟩)
    · cases hfreed
    · obtain rfl := hone d (by omega)
      simpa using hd

/-- The client that has closed the pool frees it. -/
theorem free (h : Closing stage freed closed shutdown) (hc : 2 ≤ stage c) :
    Closing (Function.update stage c 0) true closed shutdown := by
  have hzero : ∀ d, Function.update stage c 0 d = 0 := fun d => by
    by_cases hd : d = c
    · rw [hd, Function.update_self]
    · rw [Function.update_of_ne hd, h.other (by omega) hd]
  refine ⟨fun d _ hd => absurd (hzero d) (by omega), ?_, ?_, fun _ => hzero⟩
  · simpa using h.closed.2 (.inr ⟨c, by omega⟩)
  · simpa using h.shut hc

end Closing

/-! ## The invariant -/

/-- A function on clients that does no more than to signal them. -/
def Signals (f : Client α → Client α) : Prop :=
  ∀ c, f c = c ∨ (∃ work, c = .waiting work ∧ f c = .retrying work) ∨
    ∃ finish, c = .draining finish ∧ f c = .drained finish

namespace Signals

variable {f : Client α → Client α}

theorem stage (hf : Signals f) (c : Client α) : (f c).stage = c.stage := by
  rcases hf c with h | ⟨work, rfl, h⟩ | ⟨finish, rfl, h⟩ <;> rw [h] <;> rfl

theorem finish (hf : Signals f) (c : Client α) : (f c).finish = c.finish := by
  rcases hf c with h | ⟨work, rfl, h⟩ | ⟨finish, rfl, h⟩ <;> rw [h] <;> rfl

theorem waiting (hf : Signals f) {c : Client α} {work : α} (hc : f c = .waiting work) :
    c = .waiting work := by
  rcases hf c with h | ⟨work, rfl, h⟩ | ⟨finish, rfl, h⟩ <;> rw [h] at hc <;> first | exact hc | cases hc

theorem draining (hf : Signals f) {c : Client α} {finish : ℤ} (hc : f c = .draining finish) :
    c = .draining finish := by
  rcases hf c with h | ⟨work, rfl, h⟩ | ⟨finish, rfl, h⟩ <;> rw [h] at hc <;> first | exact hc | cases hc

theorem joining (hf : Signals f) {c : Client α} {finish : ℤ} {i : ℕ}
    (hc : f c = .joining finish i) : c = .joining finish i := by
  rcases hf c with h | ⟨work, rfl, h⟩ | ⟨finish, rfl, h⟩ <;> rw [h] at hc <;> first | exact hc | cases hc

end Signals

theorem signals_roomMade : Signals (Client.roomMade : Client α → Client α) := by
  intro c
  cases c <;> simp [Client.roomMade]

theorem signals_afterTake (room drained : Bool) :
    Signals (Client.afterTake room drained : Client α → Client α) := by
  intro c
  cases room <;> cases drained <;> cases c <;>
    simp [Client.afterTake, Client.roomMade, Client.queueEmptied]

@[simp] theorem PoolWorker.woken_eq_exited {w : PoolWorker α} : w.woken = .exited ↔ w = .exited := by
  cases w <;> simp [PoolWorker.woken]

@[simp] theorem PoolWorker.woken_ne_waiting (w : PoolWorker α) : w.woken ≠ .waiting := by
  cases w <;> simp [PoolWorker.woken]

namespace Pool

/-- How far the clients are with closing the pool. -/
def stages (s : Pool n ι α) (c : ι) : ℕ :=
  (s.clients c).stage

/-- What holds of the places of the threads where the queue stands for `pool`. -/
structure Control (s : Pool n ι α) (pool : Hermes.Tpool α) : Prop where
  closing : Closing s.stages s.freed pool.queueClosed pool.shutdown
  bound : pool.queue.length ≤ pool.maxQueueSize
  exited : ∀ w, s.workers w = .exited → pool.shutdown = true
  joined : ∀ c finish i, s.clients c = .joining finish i →
    i ≤ n ∧ ∀ w : Fin n, (w : ℕ) < i → s.workers w = .exited
  gone : s.freed = true → ∀ w, s.workers w = .exited
  finish : ∀ c, (s.clients c).finish = some 1 → pool.queue = []
  waiting : ∀ w, s.workers w = .waiting →
    pool.queue = [] ∧ (pool.shutdown = true → ∃ c, s.stages c = 2)
  room : ∀ c work, s.clients c = .waiting work →
    pool.queue.length = pool.maxQueueSize ∧
      (pool.shutdown = true → ∃ d, s.stages d = 2 ∨ s.stages d = 3)
  draining : ∀ c finish, s.clients c = .draining finish → pool.queue ≠ []

namespace Control

variable {s : Pool n ι α} {pool : Hermes.Tpool α}

/-- Worker `w` goes on. -/
theorem setWorker (h : s.Control pool) {w : Fin n} (hw : s.workers w ≠ .exited)
    {t : PoolWorker α} (hwait : t = .waiting → pool.queue = [] ∧ pool.shutdown = false)
    (hexit : t = .exited → pool.shutdown = true) : (s.setWorker w t).Control pool := by
  have hkeep : ∀ v, s.workers v = .exited → (s.setWorker w t).workers v = .exited := by
    intro v hv
    have hvw : v ≠ w := fun hvw => hw (hvw ▸ hv)
    simpa [Pool.setWorker, Function.update_of_ne hvw] using hv
  refine
    { h with
      exited := fun v hv => ?_
      joined := fun c finish i hc => ?_
      gone := fun hf => absurd (h.gone hf w) hw
      waiting := fun v hv => ?_ }
  · by_cases hvw : v = w
    · subst hvw
      exact hexit (by simpa [Pool.setWorker] using hv)
    · exact h.exited v (by simpa [Pool.setWorker, Function.update_of_ne hvw] using hv)
  · obtain ⟨hi, hexited⟩ := h.joined c finish i hc
    exact ⟨hi, fun v hv => hkeep v (hexited v hv)⟩
  · by_cases hvw : v = w
    · subst hvw
      obtain ⟨hq, hs⟩ := hwait (by simpa [Pool.setWorker] using hv)
      exact ⟨hq, fun hshut => by rw [hs] at hshut; cases hshut⟩
    · exact h.waiting v (by simpa [Pool.setWorker, Function.update_of_ne hvw] using hv)

/-- Clients are signalled. -/
theorem signal (h : s.Control pool) {f : Client α → Client α} (hf : Signals f) :
    Control { s with clients := fun c => f (s.clients c) } pool := by
  have hstages : stages { s with clients := fun c => f (s.clients c) } = s.stages :=
    funext fun c => hf.stage (s.clients c)
  refine
    { closing := ?_
      bound := h.bound
      exited := h.exited
      joined := fun c finish i hc => h.joined c finish i (hf.joining hc)
      gone := h.gone
      finish := fun c hc => h.finish c (by rwa [hf.finish] at hc)
      waiting := ?_
      room := fun c work hc => ?_
      draining := fun c finish hc => h.draining c finish (hf.draining hc) }
  · rw [hstages]
    exact h.closing
  · rw [hstages]
    exact h.waiting
  · rw [hstages]
    exact h.room c work (hf.waiting hc)

/-- All workers that wait are woken. -/
theorem wake (h : s.Control pool) :
    Control { s with workers := fun w => (s.workers w).woken } pool :=
  { h with
    exited := fun w hw => h.exited w (PoolWorker.woken_eq_exited.1 hw)
    joined := fun c finish i hc => (h.joined c finish i hc).imp_right fun hexited w hw =>
      PoolWorker.woken_eq_exited.2 (hexited w hw)
    gone := fun hf w => PoolWorker.woken_eq_exited.2 (h.gone hf w)
    waiting := fun _ hw => absurd hw (PoolWorker.woken_ne_waiting _) }

/-- The first of the queue is taken. -/
theorem pop (h : s.Control pool) {work : α} {queue : List α} (hq : pool.queue = work :: queue)
    (hroom : ∀ c work, s.clients c ≠ .waiting work)
    (hdrained : queue = [] → ∀ c finish, s.clients c ≠ .draining finish) :
    s.Control { pool with queue } := by
  have hne : pool.queue ≠ [] := by simp [hq]
  have hlen := h.bound
  rw [hq, List.length_cons] at hlen
  exact
    { h with
      bound := Nat.le_of_succ_le hlen
      finish := fun c hc => absurd (h.finish c hc) hne
      waiting := fun w hw => absurd (h.waiting w hw).1 hne
      room := fun c work hc => absurd hc (hroom c work)
      draining := fun c finish hc hq => hdrained hq c finish hc }

/-- Work is added, and no worker waits. -/
theorem push (h : s.Control pool) (hs : Open pool) (hroom : pool.queue.length ≠ pool.maxQueueSize)
    (hwait : ∀ w, s.workers w ≠ .waiting) (work : α) :
    s.Control { pool with queue := pool.queue ++ [work] } := by
  have hlen := h.bound
  exact
    { h with
      bound := by
        show (pool.queue ++ [work]).length ≤ pool.maxQueueSize
        rw [List.length_append, List.length_singleton]
        omega
      finish := fun c hc => by
        have hshut := h.closing.shut (Client.two_le_stage hc)
        rw [hs.2] at hshut
        cases hshut
      waiting := fun w hw => absurd hw (hwait w)
      room := fun c work hc => absurd (h.room c work hc).1 hroom
      draining := fun c finish _ hnil => by simp at hnil }

/-- No worker waits once the workers have been woken for the last time. -/
theorem no_worker_waits (h : s.Control pool) {c : ι} (hc : 3 ≤ s.stages c) (w : Fin n) :
    s.workers w ≠ .waiting := by
  intro hw
  obtain ⟨d, hd⟩ := (h.waiting w hw).2 (h.closing.shut (by omega : 2 ≤ s.stages c))
  obtain rfl := h.closing.one d c (by omega) (by omega)
  omega

/-- No client waits for room once they have been woken. -/
theorem no_client_waits (h : s.Control pool) {c : ι} (hc : 4 ≤ s.stages c) (d : ι) (work : α) :
    s.clients d ≠ .waiting work := by
  intro hd
  obtain ⟨e, he⟩ := (h.room d work hd).2 (h.closing.shut (by omega : 2 ≤ s.stages c))
  obtain rfl := h.closing.one e c (by omega) (by omega)
  omega

variable [DecidableEq ι]

theorem stages_setClient (s : Pool n ι α) (c : ι) (t : Client α) :
    (s.setClient c t).stages = Function.update s.stages c t.stage := by
  funext d
  by_cases hd : d = c
  · subst hd
    simp [stages, Pool.setClient]
  · simp [stages, Pool.setClient, Function.update_of_ne hd]

theorem clients_setClient {s : Pool n ι α} {c d : ι} {t u : Client α}
    (h : (s.setClient c t).clients d = u) : d = c ∧ t = u ∨ d ≠ c ∧ s.clients d = u := by
  by_cases hd : d = c
  · subst hd
    exact .inl ⟨rfl, by simpa [Pool.setClient] using h⟩
  · exact .inr ⟨hd, by simpa [Pool.setClient, Function.update_of_ne hd] using h⟩

/-- A client that has not shut the pool down goes on. -/
theorem stay (h : s.Control pool) {c : ι} {t : Client α} (hst : t.stage = (s.clients c).stage)
    (hlow : t.stage < 2) (hroom : ∀ work, t = .waiting work →
      pool.queue.length = pool.maxQueueSize ∧ pool.shutdown = false)
    (hdrain : ∀ finish, t ≠ .draining finish) : (s.setClient c t).Control pool := by
  have hstages : (s.setClient c t).stages = s.stages := by
    rw [stages_setClient, hst]
    exact Function.update_eq_self c s.stages
  refine
    { closing := ?_
      bound := h.bound
      exited := h.exited
      joined := fun d finish i hd => ?_
      gone := h.gone
      finish := fun d hd => ?_
      waiting := ?_
      room := fun d work hd => ?_
      draining := fun d finish hd => ?_ }
  · rw [hstages]
    exact h.closing
  · rcases clients_setClient hd with ⟨-, rfl⟩ | ⟨-, hd⟩
    · simp [Client.stage] at hlow
    · exact h.joined d finish i hd
  · rcases clients_setClient (rfl : (s.setClient c t).clients d = _) with ⟨-, ht⟩ | ⟨-, hd'⟩
    · rw [← ht] at hd
      exact absurd (Client.two_le_stage hd) (by omega)
    · exact h.finish d (hd' ▸ hd)
  · rw [hstages]
    exact h.waiting
  · rw [hstages]
    rcases clients_setClient hd with ⟨-, ht⟩ | ⟨-, hd⟩
    · obtain ⟨hlen, hs⟩ := hroom work ht
      exact ⟨hlen, fun hshut => by rw [hs] at hshut; cases hshut⟩
    · exact h.room d work hd
  · rcases clients_setClient hd with ⟨-, ht⟩ | ⟨-, hd⟩
    · exact absurd ht (hdrain finish)
    · exact h.draining d finish hd

/-- The client that closes the pool waits for an empty queue. -/
theorem drain (h : s.Control pool) {c : ι} {finish : ℤ} {closed : Bool}
    (hother : ∀ d, d ≠ c → s.stages d = 0) (hf : s.freed = false) (hclosed : closed = true)
    (hs : pool.shutdown = false) (hq : pool.queue ≠ []) :
    (s.setClient c (.draining finish)).Control { pool with queueClosed := closed } := by
  have hsingle := Closing.single hother one_pos
  have hwait : ∀ w, (s.setClient c (.draining finish)).workers w = .waiting → False := fun w hw =>
    hq (h.waiting w hw).1
  refine
    { closing := ?_
      bound := h.bound
      exited := h.exited
      joined := fun d fin i hd => ?_
      gone := h.gone
      finish := fun d hd => ?_
      waiting := fun w hw => (hwait w hw).elim
      room := fun d work hd => ?_
      draining := fun _ _ _ => hq }
  · rw [stages_setClient, hclosed]
    show Closing _ s.freed true pool.shutdown
    rw [hf, hs]
    exact hsingle
  · rcases clients_setClient hd with ⟨-, ht⟩ | ⟨-, hd⟩
    · cases ht
    · exact h.joined d fin i hd
  · rcases clients_setClient (rfl : (s.setClient c (.draining finish)).clients d = _) with
      ⟨-, ht⟩ | ⟨-, hd'⟩
    · rw [← ht] at hd
      cases hd
    · exact h.finish d (hd' ▸ hd)
  · rcases clients_setClient hd with ⟨-, ht⟩ | ⟨-, hd⟩
    · cases ht
    · exact ⟨(h.room d work hd).1, fun hshut => by rw [hs] at hshut; cases hshut⟩

/-- The client that closes the pool goes on behind the wait. -/
theorem shut (h : s.Control pool) {c : ι} {t : Client α} {closed : Bool}
    (hother : ∀ d, d ≠ c → s.stages d = 0) (hf : s.freed = false) (hclosed : closed = true)
    (ht : 2 ≤ t.stage) (hfin : t.finish = some 1 → pool.queue = [])
    (hwait : t.stage = 2 ∨ ∀ w, s.workers w ≠ .waiting)
    (hroom : t.stage = 2 ∨ t.stage = 3 ∨ ∀ d work, s.clients d ≠ .waiting work)
    (hjoin : ∀ finish i, t = .joining finish i →
      i ≤ n ∧ ∀ w : Fin n, (w : ℕ) < i → s.workers w = .exited) :
    (s.setClient c t).Control { pool with queueClosed := closed, shutdown := true } := by
  have hsingle := Closing.single hother (by omega : 0 < t.stage)
  have hstage : (s.setClient c t).stages c = t.stage := by
    rw [stages_setClient, Function.update_self]
  have hzero : ∀ d, d ≠ c → (s.clients d).stage = 0 := hother
  refine
    { closing := ?_
      bound := h.bound
      exited := fun _ _ => rfl
      joined := fun d fin i hd => ?_
      gone := fun hfreed => by rw [show s.freed = true from hfreed] at hf; cases hf
      finish := fun d hd => ?_
      waiting := fun w hw => ?_
      room := fun d work hd => ?_
      draining := fun d fin hd => ?_ }
  · rw [stages_setClient, hclosed]
    show Closing _ s.freed true true
    rw [hf]
    rwa [decide_eq_true ht] at hsingle
  · rcases clients_setClient hd with ⟨-, ht⟩ | ⟨-, hd⟩
    · exact hjoin fin i ht
    · exact h.joined d fin i hd
  · rcases clients_setClient (rfl : (s.setClient c t).clients d = _) with ⟨-, ht'⟩ | ⟨-, hd'⟩
    · rw [← ht'] at hd
      exact hfin hd
    · exact h.finish d (hd' ▸ hd)
  · rcases hwait with h2 | hnone
    · exact ⟨(h.waiting w hw).1, fun _ => ⟨c, hstage.trans h2⟩⟩
    · exact absurd hw (hnone w)
  · rcases clients_setClient hd with ⟨-, ht'⟩ | ⟨-, hd⟩
    · rw [ht'] at ht
      simp [Client.stage] at ht
    · rcases hroom with h2 | h3 | hnone
      · exact ⟨(h.room d work hd).1, fun _ => ⟨c, .inl (hstage.trans h2)⟩⟩
      · exact ⟨(h.room d work hd).1, fun _ => ⟨c, .inr (hstage.trans h3)⟩⟩
      · exact absurd hd (hnone d work)
  · rcases clients_setClient hd with ⟨-, ht'⟩ | ⟨hne, hd⟩
    · rw [ht'] at ht
      simp [Client.stage] at ht
    · have := hzero d hne
      rw [hd] at this
      simp [Client.stage] at this

/-- The pool is freed. -/
theorem free (h : s.Control pool) {c : ι} {finish : ℤ} {i : ℕ} (hi : n ≤ i)
    (hc : s.clients c = .joining finish i) :
    Control ({ s with freed := true }.setClient c .idle) pool := by
  have hstage : s.stages c = 4 := by rw [stages, hc, Client.stage]
  have hexited : ∀ w, s.workers w = .exited := fun w =>
    (h.joined c finish i hc).2 w (w.2.trans_le hi)
  have hclosing : Closing (({ s with freed := true } : Pool n ι α).setClient c .idle).stages true
      pool.queueClosed pool.shutdown := by
    rw [stages_setClient]
    exact h.closing.free (by omega : 2 ≤ s.stages c)
  have hzero : ∀ d, ((({ s with freed := true } : Pool n ι α).setClient c .idle).clients d).stage =
      0 := hclosing.freed rfl
  refine
    { closing := hclosing
      bound := h.bound
      exited := h.exited
      joined := fun d fin i hd => ?_
      gone := fun _ => hexited
      finish := fun d hd => absurd (Client.two_le_stage hd) (by have := hzero d; omega)
      waiting := fun w hw => absurd hw (h.no_worker_waits (by omega : 3 ≤ s.stages c) w)
      room := fun d work hd => ?_
      draining := fun d fin hd => ?_ }
  · have := hzero d
    rw [hd] at this
    cases this
  · rcases clients_setClient hd with ⟨-, ht⟩ | ⟨-, hd⟩
    · cases ht
    · exact absurd hd (h.no_client_waits hstage.ge d work)
  · have := hzero d
    rw [hd] at this
    cases this

end Control

theorem control_init (cfg : PoolConfig) (ι α : Type) : (cfg.init ι α).Control
    (Hermes.tpoolInit cfg.maxQueueSize cfg.doNotBlockWhenFull) where
  closing := closing_start
  bound := Nat.zero_le _
  exited w hw := by cases hw
  joined c finish i hc := by cases hc
  gone hf := by cases hf
  finish c hc := by cases hc
  waiting w hw := by cases hw
  room c work hc := by cases hc
  draining c finish hc := by cases hc

/-! ## Moves keep it -/

section Moves

variable {s u : Pool n ι α} {pool pool' : Hermes.Tpool α}

/-- No client closes a pool that is open. -/
theorem Control.stages_of_open (h : s.Control pool) (hs : pool.queueClosed = false) (c : ι) :
    s.stages c = 0 := by
  by_contra hne
  have hclosed := h.closing.closed.2 (.inr ⟨c, Nat.pos_of_ne_zero hne⟩)
  rw [hs] at hclosed
  cases hclosed

/-- The client that is to look at the queue closes the pool alone. -/
theorem Control.closes (h : s.Control pool) {c : ι} {finish : ℤ} {closed : Bool}
    (hc : s.clients c = .destroying finish ∧ Open pool ∧ closed = true ∨
      s.clients c = .drained finish ∧ closed = pool.queueClosed) :
    (∀ d, d ≠ c → s.stages d = 0) ∧ closed = true ∧ pool.shutdown = false := by
  rcases hc with ⟨-, ⟨hopen, hs⟩, hclosed⟩ | ⟨hc, rfl⟩
  · exact ⟨fun d _ => h.stages_of_open hopen d, hclosed, hs⟩
  · have hstage : s.stages c = 1 := by rw [stages, hc, Client.stage]
    have hpos : 0 < s.stages c := by omega
    refine ⟨fun d hd => h.closing.other hpos hd, h.closing.closed.2 (.inr ⟨c, hpos⟩), ?_⟩
    by_contra hs
    rcases h.closing.shutdown.1 (by simpa using hs) with hf | ⟨d, hd⟩
    · exact absurd (h.closing.freed hf c) (by omega)
    · obtain rfl := h.closing.one d c (by omega) hpos
      omega

variable [DecidableEq ι]

/-- The client that has shut the pool down goes on. -/
theorem Control.goOn (h : s.Control pool) {c : ι} {t : Client α} (hc : 2 ≤ s.stages c)
    (ht : 2 ≤ t.stage) (hfin : t.finish = (s.clients c).finish)
    (hwait : t.stage = 2 ∨ ∀ w, s.workers w ≠ .waiting)
    (hroom : t.stage = 2 ∨ t.stage = 3 ∨ ∀ d work, s.clients d ≠ .waiting work)
    (hjoin : ∀ finish i, t = .joining finish i →
      i ≤ n ∧ ∀ w : Fin n, (w : ℕ) < i → s.workers w = .exited) :
    (s.setClient c t).Control pool := by
  have hpos : 0 < s.stages c := by omega
  have hclosed := h.closing.closed.2 (.inr ⟨c, hpos⟩)
  have hs := h.closing.shut hc
  have hshut := h.shut (fun d hd => h.closing.other hpos hd) (h.closing.not_freed hpos) hclosed ht
    (fun h1 => h.finish c (hfin ▸ h1)) hwait hroom hjoin
  cases pool with
  | mk maxQueueSize doNotBlockWhenFull queue queueClosed shutdown =>
  obtain rfl : shutdown = true := hs
  exact hshut

/-- Work is added to an open pool. -/
theorem Control.add (h : s.Control pool) {c : ι} (hc : (s.clients c).stage = 0) (hs : Open pool)
    (hroom : pool.queue.length ≠ pool.maxQueueSize) (work : α) :
    Control ({ s with
      workers := fun w => if pool.queue.isEmpty then (s.workers w).woken else s.workers w
    }.setClient c .idle) { pool with queue := pool.queue ++ [work] } := by
  cases hempty : pool.queue.isEmpty with
  | true =>
    simp only [if_true]
    exact (h.wake.stay (by rw [show _ = 0 from hc]; rfl) (by simp [Client.stage]) (by simp)
      (by simp)).push hs hroom (fun w => PoolWorker.woken_ne_waiting _) work
  | false =>
    simp only [Bool.false_eq_true, if_false]
    refine (h.stay (by rw [hc]; rfl) (by simp [Client.stage]) (by simp) (by simp)).push hs hroom
      (fun w hw => ?_) work
    simp [(h.waiting w hw).1] at hempty

theorem Move.control (h : s.Control pool) (hblocks : ∀ c work, s.clients c = .waiting work →
    pool.doNotBlockWhenFull = false) {a : Action n ι α} (hm : Move s pool a u pool') :
    u.Control pool' := by
  cases hm with
  | addWork hc | destroy hc | already hc =>
    exact h.stay (by rw [hc]; rfl) (by simp [Client.stage]) (by simp) (by simp)
  | wakeWorker hw => exact h.setWorker (by simp [hw]) (by simp) (by simp)
  | wakeAdder hc => exact h.stay (by rw [hc]; rfl) (by simp [Client.stage]) (by simp) (by simp)
  | wakeDestroyer hc => exact h.stay (by rw [hc]; rfl) (by simp [Client.stage]) (by simp) (by simp)
  | late _ _ => exact { h with }
  | wait hw hq hs => exact h.setWorker (by simp [hw]) (fun _ => ⟨hq, hs⟩) (by simp)
  | exit hw hs => exact h.setWorker (by simp [hw]) (by simp) (fun _ => hs)
  | @take w work queue tpool myWorkp room hw hq hs hroom =>
    have hworker := h.setWorker (w := w) (t := .holding myWorkp) (by simp [hw]) (by simp) (by simp)
    have hsignal := hworker.signal (signals_afterTake room queue.isEmpty)
    refine { hsignal.pop hq (fun c work hc => ?_) (fun hnil c finish hc => ?_) with }
    · -- who waits for room does so in a full pool that blocks, and is signalled
      have hwait := (signals_afterTake room queue.isEmpty).waiting hc
      have hfull : room = true := by
        rw [hroom]
        exact decide_eq_true ⟨hblocks c work hwait, (h.room c work hwait).1⟩
      dsimp only at hc
      rw [show ((s.setWorker w (.holding myWorkp)).clients c) = .waiting work from hwait, hfull] at hc
      cases hempty : queue.isEmpty <;> rw [hempty] at hc <;>
        simp [Client.afterTake, Client.roomMade, Client.queueEmptied] at hc
    · have hwait := (signals_afterTake room queue.isEmpty).draining hc
      dsimp only at hc
      rw [show ((s.setWorker w (.holding myWorkp)).clients c) = .draining finish from hwait, hnil]
        at hc
      cases room <;> simp [Client.afterTake, Client.roomMade, Client.queueEmptied] at hc
  | call hw => exact h.setWorker (by simp [hw]) (by simp) (by simp)
  | done hw => exact { h.setWorker (t := .locking) (by simp [hw]) (by simp) (by simp) with }
  | refuse hc hs =>
    exact h.stay (by rcases hc with hc | hc <;> rw [hc] <;> rfl) (by simp [Client.stage]) (by simp)
      (by simp)
  | waitRoom hc hs hb hfull =>
    exact h.stay (by rcases hc with hc | hc <;> rw [hc] <;> rfl) (by simp [Client.stage])
      (fun _ _ => ⟨hfull, hs.2⟩) (by simp)
  | @add c work a tpool hc hs hroom =>
    have hstage : (s.clients c).stage = 0 := by rcases hc with hc | hc <;> rw [hc] <;> rfl
    exact { h.add hstage hs hroom work with }
  | @drain c finish a tpool closed hf hc hq =>
    obtain ⟨hother, hclosed, hs⟩ := h.closes hc
    exact { h.drain hother hf hclosed hs hq with }
  | @stop c finish a tpool closed hf hc hq =>
    obtain ⟨hother, hclosed, -⟩ := h.closes hc
    exact { h.shut (t := .wakingWorkers finish) hother hf hclosed le_rfl
      (fun hfin => hq (by simpa [Client.finish] using hfin)) (.inl rfl) (.inl rfl) (by simp) with }
  | @wakeWorkers c finish a hc =>
    have hstage : s.stages c = 2 := by rw [stages, hc, Client.stage]
    exact h.wake.goOn hstage.ge (by simp [Client.stage]) (by simp [hc, Client.finish])
      (.inr fun w => PoolWorker.woken_ne_waiting _) (.inr (.inl rfl)) (by simp)
  | @wakeAdders c finish a hc =>
    have hstage : s.stages c = 3 := by rw [stages, hc, Client.stage]
    have hsignal := h.signal signals_roomMade
    refine hsignal.goOn (c := c) ?_ (by simp [Client.stage])
      (by simp [hc, Client.finish, Client.roomMade]) (.inr (h.no_worker_waits hstage.ge))
      (.inr (.inr fun d work hd => ?_)) fun fin i ht => ?_
    · simp [stages, hc, Client.roomMade, Client.stage]
    · cases hd' : s.clients d <;> simp [hd', Client.roomMade] at hd
    · cases ht
      exact ⟨Nat.zero_le n, fun w hw => absurd hw (Nat.not_lt_zero _)⟩
  | @join c finish i a hi hc hw =>
    have hstage : s.stages c = 4 := by rw [stages, hc, Client.stage]
    refine h.goOn (by omega) (by simp [Client.stage]) (by simp [hc, Client.finish])
      (.inr (h.no_worker_waits (by omega : 3 ≤ s.stages c)))
      (.inr (.inr (h.no_client_waits hstage.ge))) fun fin j ht => ?_
    cases ht
    refine ⟨hi, fun w hw' => ?_⟩
    rcases Nat.lt_succ_iff_lt_or_eq.1 hw' with hlt | heq
    · exact (h.joined c finish i hc).2 w hlt
    · obtain rfl : w = ⟨i, hi⟩ := Fin.ext heq
      exact hw
  | free hi hc hq => exact h.free hi hc
  | lose _ _ _ => exact { h with }

end Moves

end Pool

end Linked

end Hermes
