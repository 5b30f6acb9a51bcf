import Hermes.Server
import Mathlib.Algebra.BigOperators.Fin
import Mathlib.Algebra.BigOperators.Group.Finset.Piecewise
import Mathlib.Algebra.Order.BigOperators.Group.Finset

/-!
# What holds of the server

`Server.Inv` relates where the workers are to where the caller is and to the flags of the pool.
`Move` says once what an action does to a server with this invariant, and every fact about the
runs is proved by cases on it.

Threads and queued routines are counted together : a `Tally` is a number for each place a worker
can be at, none where it has no work, and an item in the queue counts as the worker that takes
it. So a count does not change when a worker takes an item.
-/

open CLib

namespace Hermes

/-- How far `hermes_shutdown` is. -/
def Caller.stage : Caller → ℕ
  | .starting => 0
  | .serving => 1
  | .closing => 2
  | .draining | .drained => 3
  | .wakingWorkers => 4
  | .wakingAdders => 5
  | .joining _ => 6
  | .returned => 7

/-- Where the caller is once a worker has left `queue` : it waits no more for an empty one. -/
def Caller.taken (queue : List TpoolWork) (c : Caller) : Caller :=
  if queue = [] ∧ c = .draining then .drained else c

theorem Caller.stage_taken (queue : List TpoolWork) (c : Caller) :
    (c.taken queue).stage = c.stage := by
  unfold taken
  split
  next h => rw [h.2]; rfl
  · rfl

namespace Server

variable {n : ℕ}

/-! ## Counting -/

/-- A number for each place a worker can be at, `0` for those without work. -/
structure Tally where
  count : Worker → ℕ
  locking : count .locking = 0
  waiting : count .waiting = 0
  exited : count .exited = 0

attribute [simp] Tally.locking Tally.waiting Tally.exited

/-- The workers that run `_hms_listen`. -/
def Tally.listeners : Tally where
  count
    | .listening _ => 1
    | _ => 0
  locking := rfl
  waiting := rfl
  exited := rfl

/-- The sum over the workers and the queue. -/
def total (T : Tally) (s : Server n) : ℕ :=
  ∑ w, T.count (s.workers w) + (s.pool.queue.map fun item => T.count (work item)).sum

variable (T : Tally) (s : Server n)

theorem count_le_total (w : Fin n) : T.count (s.workers w) ≤ total T s := by
  have hsum : T.count (s.workers w) ≤ ∑ v, T.count (s.workers v) :=
    Finset.single_le_sum (f := fun v => T.count (s.workers v)) (fun _ _ => Nat.zero_le _)
      (Finset.mem_univ w)
  exact hsum.trans (Nat.le_add_right _ _)

theorem total_setWorker (w : Fin n) (t : Worker) :
    total T (s.setWorker w t) + T.count (s.workers w) = total T s + T.count t := by
  have hsum : ∑ v, T.count (Function.update s.workers w t v) =
      ∑ v, Function.update (fun v => T.count (s.workers v)) w (T.count t) v := by
    refine Finset.sum_congr rfl fun v _ => ?_
    by_cases hv : v = w <;> simp [hv]
  have hw := Finset.mem_univ w
  have hold := Finset.add_sum_erase Finset.univ (fun v => T.count (s.workers v)) hw
  simp only [total, setWorker, hsum, Finset.sum_update_of_mem hw, Finset.sdiff_singleton_eq_erase]
  omega

@[simp] theorem total_broadcastNotEmpty : total T s.broadcastNotEmpty = total T s := by
  have hw : ∀ w, T.count (s.broadcastNotEmpty.workers w) = T.count (s.workers w) := by
    intro w
    by_cases h : s.workers w = .waiting <;> simp [broadcastNotEmpty, h]
  simp only [total, hw]
  rfl

/-! ## The queue -/

/-- The pool holds `queue`. -/
def withQueue (queue : List TpoolWork) : Server n :=
  { s with pool := { s.pool with queue := queue } }

/-- The work is added. If it is the only one, those who wait for it are woken. -/
def enqueue (item : TpoolWork) : Server n :=
  { s.withQueue (s.pool.queue ++ [item]) with
    workers := if s.pool.queue = [] then s.broadcastNotEmpty.workers else s.workers }

/-- Worker `w` takes `item` and leaves `queue`. -/
def dequeue (w : Fin n) (item : TpoolWork) (queue : List TpoolWork) : Server n :=
  { s.withQueue queue with caller := s.caller.taken queue }.setWorker w (work item)

theorem dequeue_eq (w : Fin n) (item : TpoolWork) (queue : List TpoolWork) :
    s.dequeue w item queue =
      let t := (s.withQueue queue).setWorker w (work item)
      if queue.isEmpty then t.signalEmpty else t := by
  by_cases hq : queue = []
  · by_cases hc : s.caller = .draining <;>
      simp [dequeue, withQueue, setWorker, signalEmpty, Caller.taken, hq, hc]
  · simp [dequeue, withQueue, setWorker, Caller.taken, hq]

theorem enqueue_eq (item : TpoolWork) :
    s.enqueue item =
      let t := s.withQueue (s.pool.queue ++ [item])
      if s.pool.queue.isEmpty then t.broadcastNotEmpty else t := by
  by_cases hq : s.pool.queue = []
  · simp [enqueue, broadcastNotEmpty, withQueue, hq]
  · simp [enqueue, withQueue, hq]

theorem enqueue_workers (item : TpoolWork) {w : Fin n} (hw : s.workers w ≠ .waiting) :
    (s.enqueue item).workers w = s.workers w := by
  simp only [enqueue]
  split
  · exact if_neg hw
  · rfl

theorem total_withQueue (queue : List TpoolWork) :
    total T (s.withQueue queue) + (s.pool.queue.map fun item => T.count (work item)).sum =
      total T s + (queue.map fun item => T.count (work item)).sum := by
  simp only [total, withQueue]
  omega

variable {s}

theorem addWork_of_takesWork (h : s.pool.TakesWork) (item : TpoolWork) (failed : Crash)
    (k : Server n → Server n) : s.addWork item failed k = some (k (s.enqueue item)) := by
  rw [addWork, tpoolAddWork_of_takesWork h, enqueue_eq]
  rfl

theorem addWork_of_not_takesWork (hb : s.pool.doNotBlockWhenFull = true) (h : ¬s.pool.TakesWork)
    (item : TpoolWork) (failed : Crash) (k : Server n → Server n) :
    s.addWork item failed k = some { s with crash := some failed } := by
  rw [addWork, tpoolAddWork_of_not_takesWork hb h]

theorem total_enqueue (item : TpoolWork) :
    total T (s.enqueue item) = total T s + T.count (work item) := by
  have ht := total_withQueue T s (s.pool.queue ++ [item])
  simp only [List.map_append, List.map_singleton, List.sum_append, List.sum_singleton] at ht
  rw [enqueue_eq]
  split
  · rw [total_broadcastNotEmpty]
    omega
  · change total T (s.withQueue _) = _
    omega

theorem total_dequeue {w : Fin n} {item : TpoolWork} {queue : List TpoolWork}
    (hw : s.workers w = .locking) (hq : s.pool.queue = item :: queue) :
    total T (s.dequeue w item queue) = total T s := by
  have ht := total_setWorker T (s.withQueue queue) w (work item)
  have hs := total_withQueue T s queue
  have hlock : (s.withQueue queue).workers w = .locking := hw
  rw [hq, List.map_cons, List.sum_cons] at hs
  rw [hlock, Tally.locking] at ht
  change total T ((s.withQueue queue).setWorker w (work item)) = _
  omega

/-! ## The invariant -/

/-- What holds where a worker is. -/
def WorkerOk (s : Server n) : Worker → Prop
  | .waiting => s.pool.queue = [] ∧ s.caller.stage ≤ 4
  | .listening .accepting | .listening (.testing _) | .listening (.enqueuing _) =>
    s.listening = true
  | .listening .leaving => s.shutdown = true
  | .exited => 4 ≤ s.caller.stage
  | _ => True

theorem WorkerOk.mono {s u : Server n} {t : Worker} (h : s.WorkerOk t)
    (hwait : t = .waiting → u.pool.queue = [] ∧ u.caller.stage ≤ 4)
    (hlisten : s.listening = true → u.listening = true)
    (hshut : s.shutdown = true → u.shutdown = true) (hstage : s.caller.stage ≤ u.caller.stage) :
    u.WorkerOk t := by
  match t, h with
  | .waiting, _ => exact hwait rfl
  | .listening .opening, _ => trivial
  | .listening .accepting, h => exact hlisten h
  | .listening (.testing _), h => exact hlisten h
  | .listening (.enqueuing _), h => exact hlisten h
  | .listening .leaving, h => exact hshut h
  | .locking, _ => trivial
  | .handling _, _ => trivial
  | .exited, h => exact le_trans h hstage

/-- What holds where the caller is. -/
def CallerOk (s : Server n) : Caller → Prop
  | .starting => s.pool.queue = []
  | .draining => s.pool.queue ≠ []
  | .joining i => ∀ w : Fin n, w < i → s.workers w = .exited
  | .returned => s.pool.queue = [] ∧ ∀ w, s.workers w = .exited
  | _ => True

/-- The invariant of the server. -/
structure Inv (s : Server n) : Prop where
  size : s.pool.maxQueueSize = 10
  nonblocking : s.pool.doNotBlockWhenFull = true
  shutdown : s.shutdown = true ↔ 2 ≤ s.caller.stage
  closed : s.pool.queueClosed = true ↔ 3 ≤ s.caller.stage
  stopped : s.pool.shutdown = true ↔ 4 ≤ s.caller.stage
  worker : ∀ w, s.WorkerOk (s.workers w)
  caller : s.CallerOk s.caller
  listeners : total .listeners s ≤ min 1 s.caller.stage

theorem inv_hermesInit (n : ℕ) : (hermesInit n).Inv where
  size := rfl
  nonblocking := rfl
  shutdown := by simp [hermesInit, Caller.stage]
  closed := by simp [hermesInit, tpoolInit, Caller.stage]
  stopped := by simp [hermesInit, tpoolInit, Caller.stage]
  worker _ := trivial
  caller := rfl
  listeners := by simp [hermesInit, tpoolInit, total, Caller.stage]

namespace Inv

theorem workerOk (h : s.Inv) {w : Fin n} {t : Worker} (hw : s.workers w = t) : s.WorkerOk t :=
  hw ▸ h.worker w

theorem callerOk (h : s.Inv) {c : Caller} (hc : s.caller = c) : s.CallerOk c :=
  hc ▸ h.caller

theorem queue_eq_nil (h : s.Inv) {w : Fin n} (hw : s.workers w = .waiting) :
    s.pool.queue = [] :=
  (h.workerOk hw).1

theorem not_waiting (h : s.Inv) (hs : 4 < s.caller.stage) (w : Fin n) :
    s.workers w ≠ .waiting :=
  fun hw => not_le_of_gt hs (h.workerOk hw).2

/-- The pool is open before `hermes_shutdown` closes it. -/
theorem takesWork (h : s.Inv) (hs : s.caller.stage < 3) (hq : s.pool.queue.length ≠ 10) :
    s.pool.TakesWork := by
  have hclosed : ¬3 ≤ s.caller.stage := by omega
  have hstopped : ¬4 ≤ s.caller.stage := by omega
  rw [← h.closed, Bool.not_eq_true] at hclosed
  rw [← h.stopped, Bool.not_eq_true] at hstopped
  exact ⟨h.size.symm ▸ hq, hclosed, hstopped⟩

theorem takesWork_of_starting (h : s.Inv) (hc : s.caller = .starting) : s.pool.TakesWork := by
  have hq : s.pool.queue = [] := h.callerOk hc
  exact h.takesWork (by simp [hc, Caller.stage]) (by simp [hq])

/-- While there is work no worker waits for it, so that a broadcast changes nothing. -/
theorem enqueue_eq_broadcastNotEmpty (h : s.Inv) (item : TpoolWork) :
    s.enqueue item = (s.withQueue (s.pool.queue ++ [item])).broadcastNotEmpty := by
  have hw : s.pool.queue ≠ [] → s.broadcastNotEmpty.workers = s.workers := by
    intro hq
    ext w
    have : s.workers w ≠ .waiting := fun hw => hq (h.queue_eq_nil hw)
    simp [Server.broadcastNotEmpty, this]
  by_cases hq : s.pool.queue = []
  · simp only [Server.enqueue, if_pos hq]
    rfl
  · simp only [Server.enqueue, if_neg hq, ← hw hq]
    rfl

/-- The invariant says nothing on connections, and nothing on a server socket that is closed. -/
theorem frame (h : s.Inv) {listening : Bool} (hl : s.listening = true → listening = true)
    {pending accepted : ℕ} {closed : List ℕ} {crash : Option Crash} :
    Inv { s with
      listening := listening
      pending := pending
      accepted := accepted
      closed := closed
      crash := crash } where
  size := h.size
  nonblocking := h.nonblocking
  shutdown := h.shutdown
  closed := h.closed
  stopped := h.stopped
  worker w := (h.worker w).mono (fun hw => h.workerOk hw) hl id le_rfl
  caller := by
    have hc := h.caller
    change CallerOk _ s.caller
    cases hs : s.caller <;> rw [hs] at hc <;> exact hc
  listeners := h.listeners

/-! ### Workers -/

/-- A worker that has not exited goes on at a place where it may be. -/
theorem setWorker (h : s.Inv) {w : Fin n} {t : Worker} (hw : s.workers w ≠ .exited)
    (ht : s.WorkerOk t) (hl : total .listeners (s.setWorker w t) ≤ min 1 s.caller.stage) :
    (s.setWorker w t).Inv where
  size := h.size
  nonblocking := h.nonblocking
  shutdown := h.shutdown
  closed := h.closed
  stopped := h.stopped
  worker v := by
    change s.WorkerOk (Function.update s.workers w t v)
    by_cases hv : v = w
    · simpa [hv] using ht
    · simpa [hv] using h.worker v
  caller := by
    have hc := h.caller
    change CallerOk _ s.caller
    cases hs : s.caller with
    | joining i =>
      rw [hs] at hc
      intro v hv
      have hvw : v ≠ w := fun he => hw (he ▸ hc v hv)
      simpa [Server.setWorker, hvw] using hc v hv
    | returned =>
      rw [hs] at hc
      exact absurd (hc.2 w) hw
    | starting | draining =>
      rw [hs] at hc
      exact hc
    | _ => trivial
  listeners := hl

/-- The same where it does not become a listener. -/
theorem moveWorker (h : s.Inv) {w : Fin n} {t : Worker} (hw : s.workers w ≠ .exited)
    (ht : s.WorkerOk t) (hl : Tally.listeners.count t ≤ Tally.listeners.count (s.workers w)) :
    (s.setWorker w t).Inv := by
  refine h.setWorker hw ht ?_
  have htotal := total_setWorker .listeners s w t
  have := h.listeners
  omega

theorem withQueue_broadcastNotEmpty (h : s.Inv) {queue : List TpoolWork}
    (hc : (s.withQueue queue).broadcastNotEmpty.CallerOk s.caller)
    (hl : total .listeners (s.withQueue queue) ≤ min 1 s.caller.stage) :
    (s.withQueue queue).broadcastNotEmpty.Inv where
  size := h.size
  nonblocking := h.nonblocking
  shutdown := h.shutdown
  closed := h.closed
  stopped := h.stopped
  worker v := by
    change WorkerOk _ (if s.workers v = .waiting then .locking else s.workers v)
    split
    · trivial
    next hv => exact (h.worker v).mono (fun he => absurd he hv) id id le_rfl
  caller := hc
  listeners := by rwa [total_broadcastNotEmpty]

theorem enqueue (h : s.Inv) (hp : s.pool.TakesWork) (hs : s.caller ≠ .starting)
    {item : TpoolWork}
    (hl : total .listeners s + Tally.listeners.count (work item) ≤ min 1 s.caller.stage) :
    (s.enqueue item).Inv := by
  have htotal := total_enqueue (s := s) .listeners item
  rw [h.enqueue_eq_broadcastNotEmpty] at htotal ⊢
  rw [total_broadcastNotEmpty] at htotal
  refine h.withQueue_broadcastNotEmpty ?_ (by omega)
  have hstage : ¬3 ≤ s.caller.stage := by simp [← h.closed, hp.2.1]
  cases hc : s.caller with
  | starting => exact absurd hc hs
  | serving | closing => trivial
  | _ =>
    rw [hc] at hstage
    exact absurd (by simp [Caller.stage]) hstage

theorem enqueueEndpoint (h : s.Inv) {w : Fin n} {fd : ℕ}
    (hw : s.workers w = .listening (.enqueuing fd)) (hp : s.pool.TakesWork) :
    ((s.enqueue (.hmsHandleEndpoint fd)).setWorker w (.listening .accepting)).Inv := by
  have hl := h.listeners
  have hs : s.caller ≠ .starting := by
    intro hs
    have hcount := count_le_total .listeners s w
    rw [hw] at hcount
    simp only [hs, Caller.stage] at hl
    exact absurd (hcount.trans hl) (by simp [Tally.listeners])
  have hw' := enqueue_workers s (.hmsHandleEndpoint fd) (by simp [hw] : s.workers w ≠ .waiting)
  have hopen : s.listening = true := h.workerOk hw
  have he : (s.enqueue (.hmsHandleEndpoint fd)).Inv := h.enqueue hp hs hl
  exact he.moveWorker (by simp [hw', hw]) hopen
    (by simp [hw', hw, Tally.listeners])

theorem callerOk_taken (h : s.Inv) {item : TpoolWork} {queue : List TpoolWork}
    (hq : s.pool.queue = item :: queue) :
    (s.withQueue queue).CallerOk (s.caller.taken queue) := by
  have hc := h.caller
  have hne : s.pool.queue ≠ [] := by simp [hq]
  unfold Caller.taken
  split
  · trivial
  next hdrain =>
    cases hs : s.caller with
    | starting =>
      rw [hs] at hc
      exact absurd hc hne
    | draining => exact fun hnil => hdrain ⟨hnil, hs⟩
    | joining i =>
      rw [hs] at hc
      exact hc
    | returned =>
      rw [hs] at hc
      exact absurd hc.1 hne
    | _ => trivial

theorem dequeue (h : s.Inv) {w : Fin n} {item : TpoolWork} {queue : List TpoolWork}
    (hw : s.workers w = .locking) (hq : s.pool.queue = item :: queue) :
    (s.dequeue w item queue).Inv := by
  have hstage := Caller.stage_taken queue s.caller
  have hl := h.listeners
  have hpop : Inv { s.withQueue queue with caller := s.caller.taken queue } := {
    size := h.size
    nonblocking := h.nonblocking
    shutdown := hstage ▸ h.shutdown
    closed := hstage ▸ h.closed
    stopped := hstage ▸ h.stopped
    worker := fun v =>
      (h.worker v).mono (fun hv => absurd (h.queue_eq_nil hv) (by simp [hq])) id id hstage.ge
    caller := by
      have hc := h.callerOk_taken hq
      change CallerOk _ (s.caller.taken queue)
      cases hs : s.caller.taken queue <;> rw [hs] at hc <;> exact hc
    listeners := by
      have htotal := total_withQueue .listeners s queue
      rw [hq, List.map_cons, List.sum_cons] at htotal
      change total .listeners (s.withQueue queue) ≤ min 1 (s.caller.taken queue).stage
      omega }
  refine hpop.setWorker (by simp [Server.withQueue, hw]) ?_ ?_
  · cases item <;> trivial
  · have htotal := total_dequeue .listeners hw hq
    change total .listeners (s.dequeue w item queue) ≤ min 1 (s.caller.taken queue).stage
    omega

/-! ### The caller -/

/-- The caller goes on, with the flags of where it is. -/
theorem setCaller (h : s.Inv) {c : Caller} {shutdown closed stopped : Bool}
    (hshutdown : shutdown = true ↔ 2 ≤ c.stage) (hclosed : closed = true ↔ 3 ≤ c.stage)
    (hstopped : stopped = true ↔ 4 ≤ c.stage) (hstage : s.caller.stage ≤ c.stage)
    (hwait : ∀ w, s.workers w = .waiting → c.stage ≤ 4) (hc : s.CallerOk c) :
    Inv { s with
      pool := { s.pool with queueClosed := closed, shutdown := stopped }
      shutdown := shutdown
      caller := c } where
  size := h.size
  nonblocking := h.nonblocking
  shutdown := hshutdown
  closed := hclosed
  stopped := hstopped
  worker w :=
    (h.worker w).mono (fun hw => ⟨h.queue_eq_nil hw, hwait w hw⟩) id
      (fun hs => hshutdown.2 ((h.shutdown.1 hs).trans hstage)) hstage
  caller := by
    change CallerOk _ c
    cases c <;> exact hc
  listeners := by
    have := h.listeners
    exact le_trans this (by dsimp only; omega)

/-- The same where the flags stay as they are. -/
theorem goCaller (h : s.Inv) {d c : Caller} (hd : s.caller = d)
    (hflags : ∀ k, 2 ≤ k → k ≤ 4 → (k ≤ d.stage ↔ k ≤ c.stage))
    (hstage : d.stage ≤ c.stage) (hwait : ∀ w, s.workers w = .waiting → c.stage ≤ 4) (hc : s.CallerOk c) :
    Inv { s with caller := c } :=
  h.setCaller (h.shutdown.trans (hd ▸ hflags 2 le_rfl (by omega)))
    (h.closed.trans (hd ▸ hflags 3 (by omega) (by omega)))
    (h.stopped.trans (hd ▸ hflags 4 (by omega) le_rfl)) (hd ▸ hstage) hwait hc

theorem serve (h : s.Inv) (hs : s.caller = .starting) : Inv { s with caller := .serving } :=
  h.goCaller hs (by simp [Caller.stage]; omega) (by simp [Caller.stage])
    (fun _ _ => by simp [Caller.stage]) trivial

theorem drain (h : s.Inv) (hs : s.caller = .closing ∨ s.caller = .drained)
    (hq : s.pool.queue ≠ []) :
    Inv { s with pool := { s.pool with queueClosed := true }, caller := .draining } := by
  have hstage : 2 ≤ s.caller.stage ∧ s.caller.stage ≤ 3 := by
    rcases hs with hs | hs <;> simp [hs, Caller.stage]
  have hstopped : s.pool.shutdown = true ↔ 4 ≤ Caller.draining.stage :=
    iff_of_false (fun hp => absurd (h.stopped.1 hp) (by omega)) (by simp [Caller.stage])
  exact h.setCaller (iff_of_true (h.shutdown.2 hstage.1) (by simp [Caller.stage]))
    (by simp [Caller.stage]) hstopped hstage.2 (fun _ _ => by simp [Caller.stage]) hq

theorem stop (h : s.Inv) (hs : s.caller = .closing ∨ s.caller = .drained) :
    Inv { s with
      pool := { s.pool with queueClosed := true, shutdown := true }
      caller := .wakingWorkers } := by
  have hstage : 2 ≤ s.caller.stage ∧ s.caller.stage ≤ 4 := by
    rcases hs with hs | hs <;> simp [hs, Caller.stage]
  exact h.setCaller (iff_of_true (h.shutdown.2 hstage.1) (by simp [Caller.stage]))
    (by simp [Caller.stage]) (by simp [Caller.stage]) hstage.2
    (fun _ _ => by simp [Caller.stage]) trivial

theorem wakeWorkers (h : s.Inv) (hs : s.caller = .wakingWorkers) :
    Inv { s.broadcastNotEmpty with caller := .wakingAdders } := by
  have hb : s.broadcastNotEmpty.Inv :=
    @withQueue_broadcastNotEmpty n s h s.pool.queue (by rw [hs]; trivial) h.listeners
  have hwake : ∀ w, s.broadcastNotEmpty.workers w ≠ .waiting := by
    intro w
    simp only [Server.broadcastNotEmpty]
    split
    · simp
    · assumption
  exact hb.goCaller hs (by simp [Caller.stage]; omega) (by simp [Caller.stage])
    (fun w hw => absurd hw (hwake w)) trivial

theorem join (h : s.Inv) {i : ℕ} (hi : i < n) (hs : s.caller = .joining i)
    (hw : s.workers ⟨i, hi⟩ = .exited) : Inv { s with caller := .joining (i + 1) } := by
  have hjoined : ∀ w : Fin n, w < i → s.workers w = .exited := h.callerOk hs
  refine h.goCaller hs (fun _ _ _ => Iff.rfl) le_rfl (fun w hwait => ?_) fun w hlt => ?_
  · exact absurd hwait (h.not_waiting (by simp [hs, Caller.stage]) w)
  · rcases Nat.lt_succ_iff_lt_or_eq.1 hlt with hlt | heq
    · exact hjoined w hlt
    · rwa [show w = ⟨i, hi⟩ from Fin.ext heq]

theorem workers_eq_exited (h : s.Inv) {i : ℕ} (hc : s.caller = .joining i) (hi : n ≤ i)
    (w : Fin n) : s.workers w = .exited :=
  h.callerOk hc w (w.isLt.trans_le hi)

/-- The pool is freed once all workers have exited. -/
theorem free (h : s.Inv) (hs : 6 ≤ s.caller.stage) (hall : ∀ w, s.workers w = .exited)
    {c : Caller} (hc : 6 ≤ c.stage) {listening : Bool} {crash : Option Crash} :
    Inv { s.withQueue [] with caller := c, listening := listening, crash := crash } where
  size := h.size
  nonblocking := h.nonblocking
  shutdown := iff_of_true (h.shutdown.2 (by omega)) (le_trans (by omega) hc)
  closed := iff_of_true (h.closed.2 (by omega)) (le_trans (by omega) hc)
  stopped := iff_of_true (h.stopped.2 (by omega)) (le_trans (by omega) hc)
  worker w := by
    change WorkerOk _ (s.workers w)
    rw [hall w]
    exact le_trans (by omega) hc
  caller := by
    change CallerOk _ c
    cases c with
    | joining i => exact fun w _ => hall w
    | returned => exact ⟨rfl, hall⟩
    | _ => simp [Caller.stage] at hc
  listeners := by simp [total, Server.withQueue, hall]

theorem freePool (h : s.Inv) {i : ℕ} (hc : s.caller = .joining i) (hi : n ≤ i) :
    s.freePool.Inv := by
  have hs : 6 ≤ s.caller.stage := by simp [hc, Caller.stage]
  have hall := h.workers_eq_exited hc hi
  unfold Server.freePool
  split
  · exact h.free hs hall (by simp [Caller.stage])
  · exact h.free hs hall hs

end Inv

/-! ## Moves -/

/-- What an action does to a server with the invariant, case by case. -/
inductive Move (s : Server n) : Action n → Server n → Prop
  | connect : Move s .connect { s with pending := s.pending + 1 }
  | shutdown (hc : s.caller = .serving) :
      Move s .shutdown { s with shutdown := true, caller := .closing }
  | wakeWorker {w} (hw : s.workers w = .waiting) :
      Move s (.wakeWorker w) (s.setWorker w .locking)
  | wakeCaller (hc : s.caller = .draining) : Move s .wakeCaller { s with caller := .drained }
  | serve (hc : s.caller = .starting) : Move s .caller { s with caller := .serving }
  | listen (hc : s.caller = .starting) :
      Move s .caller { s.enqueue .hmsListen with caller := .serving }
  | drain (hc : s.caller = .closing ∨ s.caller = .drained) (hq : s.pool.queue ≠ []) :
      Move s .caller { s with
        pool := { s.pool with queueClosed := true }
        caller := .draining }
  | stop (hc : s.caller = .closing ∨ s.caller = .drained) :
      Move s .caller { s with
        pool := { s.pool with queueClosed := true, shutdown := true }
        caller := .wakingWorkers }
  | wakeWorkers (hc : s.caller = .wakingWorkers) :
      Move s .caller { s.broadcastNotEmpty with caller := .wakingAdders }
  | wakeAdders (hc : s.caller = .wakingAdders) : Move s .caller { s with caller := .joining 0 }
  | join {i} (hi : i < n) (hc : s.caller = .joining i) (hw : s.workers ⟨i, hi⟩ = .exited) :
      Move s .caller { s with caller := .joining (i + 1) }
  | free {i} (hi : n ≤ i) (hc : s.caller = .joining i) : Move s .caller s.freePool
  | wait {w} (hw : s.workers w = .locking) (hq : s.pool.queue = [])
      (hs : s.pool.shutdown = false) : Move s (.worker w) (s.setWorker w .waiting)
  | exit {w} (hw : s.workers w = .locking) (hs : s.pool.shutdown = true) :
      Move s (.worker w) (s.setWorker w .exited)
  | take {w item queue} (hw : s.workers w = .locking) (hq : s.pool.queue = item :: queue) :
      Move s (.worker w) (s.dequeue w item queue)
  | leave {w fd} (hw : s.workers w = .listening (.testing fd)) (hs : s.shutdown = true) :
      Move s (.worker w) (s.setWorker w (.listening .leaving))
  | proceed {w fd} (hw : s.workers w = .listening (.testing fd)) (hs : s.shutdown = false) :
      Move s (.worker w) (s.setWorker w (.listening (.enqueuing fd)))
  | enqueue {w fd} (hw : s.workers w = .listening (.enqueuing fd)) (hp : s.pool.TakesWork) :
      Move s (.worker w)
        ((s.enqueue (.hmsHandleEndpoint fd)).setWorker w (.listening .accepting))
  | refuse {w fd} (hw : s.workers w = .listening (.enqueuing fd)) (hp : ¬s.pool.TakesWork) :
      Move s (.worker w) { s with crash := some .listenAddWork }
  | left {w} (hw : s.workers w = .listening .leaving) :
      Move s (.worker w) (s.setWorker w .locking)
  | retry {w} (hw : s.workers w = .listening .opening) : Move s (.openSocket w false) s
  | openSocket {w} (hw : s.workers w = .listening .opening) :
      Move s (.openSocket w true)
        ({ s with listening := true }.setWorker w (.listening .accepting))
  | accept {w} (hw : s.workers w = .listening .accepting) :
      Move s (.accept w true)
        ({ s with pending := s.pending - 1, accepted := s.accepted + 1 }.setWorker w
          (.listening (.testing s.accepted)))
  | fail {w} (hw : s.workers w = .listening .accepting) :
      Move s (.accept w false) ({ s with pending := s.pending - 1 }.setWorker w .locking)
  | finish {w fd} (hw : s.workers w = .handling fd) :
      Move s (.finish w) ({ s with closed := fd :: s.closed }.setWorker w .locking)

/-- A worker of a server with the invariant moves. -/
theorem Inv.move_workerStep (h : s.Inv) {w : Fin n} {u : Server n}
    (hu : s.workerStep w = some u) : Move s (.worker w) u := by
  unfold workerStep at hu
  split at hu
  next hw =>
    obtain rfl := Option.some.inj hu
    unfold takeWork tpoolThread
    by_cases hs : s.pool.shutdown = true
    · cases hq : s.pool.queue with
      | nil => simpa only [if_pos hs] using Move.exit hw hs
      | cons item queue => simpa only [if_pos hs] using Move.exit hw hs
    · cases hq : s.pool.queue with
      | nil => simpa only [if_neg hs] using Move.wait hw hq (by simpa using hs)
      | cons item queue =>
        have hm := Move.take hw hq
        rw [dequeue_eq] at hm
        simp only [if_neg hs]
        exact hm
  next fd hw =>
    obtain rfl := Option.some.inj hu
    cases hs : s.shutdown with
    | false => exact .proceed hw hs
    | true => exact .leave hw hs
  next fd hw =>
    by_cases hp : s.pool.TakesWork
    · rw [addWork_of_takesWork hp] at hu
      obtain rfl := Option.some.inj hu
      exact .enqueue hw hp
    · rw [addWork_of_not_takesWork h.nonblocking hp] at hu
      obtain rfl := Option.some.inj hu
      exact .refuse hw hp
  next hw =>
    have hs : s.shutdown = true := h.workerOk hw
    obtain rfl := Option.some.inj hu
    rw [if_pos hs]
    exact .left hw
  · cases hu

/-- What the caller does next. -/
theorem Inv.move_callerStep (h : s.Inv) {cfg : ServerConfig} {u : Server n}
    (hu : s.callerStep cfg = some u) : Move s .caller u := by
  unfold callerStep at hu
  split at hu
  next hc =>
    split at hu
    · rw [addWork_of_takesWork (h.takesWork_of_starting hc)] at hu
      obtain rfl := Option.some.inj hu
      exact .listen hc
    · obtain rfl := Option.some.inj hu
      exact .serve hc
  next hc =>
    obtain rfl := Option.some.inj hu
    have hopen : ¬(s.pool.queueClosed = true ∨ s.pool.shutdown = true) := by
      rw [h.closed, h.stopped, hc]
      simp [Caller.stage]
    rw [tpoolDestroyLock, if_neg hopen, tpoolDestroyDrain]
    split
    next hq => exact .drain (.inl hc) hq.2
    · exact .stop (.inl hc)
  next hc =>
    obtain rfl := Option.some.inj hu
    have hclosed : s.pool = { s.pool with queueClosed := true } := by
      have : s.pool.queueClosed = true := by
        rw [h.closed, hc]
        simp [Caller.stage]
      rw [← this]
    rw [hclosed, tpoolDestroyDrain]
    split
    next hq => exact .drain (.inr hc) hq.2
    · exact .stop (.inr hc)
  next hc =>
    obtain rfl := Option.some.inj hu
    exact .wakeWorkers hc
  next hc =>
    obtain rfl := Option.some.inj hu
    exact .wakeAdders hc
  next i hc =>
    split at hu
    next hi =>
      split at hu
      next hw =>
        obtain rfl := Option.some.inj hu
        exact .join hi hc hw
      · cases hu
    next hi =>
      obtain rfl := Option.some.inj hu
      exact .free (not_lt.1 hi) hc
  · cases hu

/-- What a step does. -/
theorem Inv.move {cfg : ServerConfig} {s u : Server cfg.workers} {a : Action cfg.workers}
    (h : s.Inv) (hu : step cfg s a = some u) : Move s a u := by
  unfold step at hu
  split at hu
  · cases hu
  cases a with
  | connect =>
    obtain ⟨-, ⟨⟩⟩ := Option.ite_none_right_eq_some.1 hu
    exact .connect
  | shutdown =>
    obtain ⟨hc, ⟨⟩⟩ := Option.ite_none_right_eq_some.1 hu
    exact .shutdown hc
  | wakeWorker w =>
    obtain ⟨hw, ⟨⟩⟩ := Option.ite_none_right_eq_some.1 hu
    exact .wakeWorker hw
  | wakeCaller =>
    obtain ⟨hc, ⟨⟩⟩ := Option.ite_none_right_eq_some.1 hu
    exact .wakeCaller hc
  | caller => exact h.move_callerStep hu
  | worker w => exact h.move_workerStep hu
  | openSocket w ok =>
    obtain ⟨hw, ⟨⟩⟩ := Option.ite_none_right_eq_some.1 hu
    cases ok with
    | false => exact .retry hw
    | true => exact .openSocket hw
  | accept w ok =>
    obtain ⟨hw, hu⟩ := Option.ite_none_right_eq_some.1 hu
    have hlisten : s.listening = true := h.workerOk hw
    split at hu
    · obtain rfl := Option.some.inj hu
      cases ok with
      | false => exact .fail hw
      | true => exact .accept hw
    · simp [hlisten] at hu
  | finish w =>
    change s.finish w = some u at hu
    unfold finish at hu
    split at hu
    next hw =>
      obtain rfl := Option.some.inj hu
      exact .finish hw
    · cases hu

/-- Moves keep the invariant. -/
theorem Move.inv (h : s.Inv) {a : Action n} {u : Server n} (hm : Move s a u) : u.Inv := by
  cases hm with
  | connect => exact h.frame id
  | shutdown hc =>
    refine h.setCaller (by simp [Caller.stage]) ?_ ?_ (by simp [hc, Caller.stage])
      (fun _ _ => by simp [Caller.stage]) trivial
    · simpa [hc, Caller.stage] using h.closed
    · simpa [hc, Caller.stage] using h.stopped
  | wakeWorker hw => exact h.moveWorker (by simp [hw]) trivial (by simp)
  | wakeCaller hc =>
    exact h.goCaller hc (fun _ _ _ => Iff.rfl) le_rfl (fun _ _ => by simp [Caller.stage]) trivial
  | serve hc => exact h.serve hc
  | listen hc =>
    have hl := h.listeners
    have hp := h.takesWork_of_starting hc
    refine (h.serve hc).enqueue hp (by simp) ?_
    change total .listeners s + 1 ≤ 1
    simpa [hc, Caller.stage] using hl
  | drain hc hq => exact h.drain hc hq
  | stop hc => exact h.stop hc
  | wakeWorkers hc => exact h.wakeWorkers hc
  | wakeAdders hc =>
    exact h.goCaller hc (by simp [Caller.stage]; omega) (by simp [Caller.stage])
      (fun w hw => absurd hw (h.not_waiting (by simp [hc, Caller.stage]) w))
      (fun _ hw => absurd hw (Nat.not_lt_zero _))
  | join hi hc hw => exact h.join hi hc hw
  | free hi hc => exact h.freePool hc hi
  | wait hw hq hs =>
    have hstage : ¬4 ≤ s.caller.stage := by simp [← h.stopped, hs]
    exact h.moveWorker (by simp [hw]) ⟨hq, by omega⟩ (by simp)
  | exit hw hs => exact h.moveWorker (by simp [hw]) (h.stopped.1 hs) (by simp)
  | take hw hq => exact h.dequeue hw hq
  | leave hw hs => exact h.moveWorker (by simp [hw]) hs (by simp [hw, Tally.listeners])
  | proceed hw hs =>
    have hopen : s.listening = true := h.workerOk hw
    exact h.moveWorker (by simp [hw]) hopen (by simp [hw, Tally.listeners])
  | enqueue hw hp => exact h.enqueueEndpoint hw hp
  | refuse hw hp => exact h.frame id
  | left hw => exact h.moveWorker (by simp [hw]) trivial (by simp)
  | retry hw => exact h
  | openSocket hw =>
    exact (h.frame fun _ => rfl).moveWorker (by simp [hw]) rfl (by simp [hw, Tally.listeners])
  | accept hw =>
    have hopen : s.listening = true := h.workerOk hw
    exact (h.frame id).moveWorker (by simp [hw]) hopen (by simp [hw, Tally.listeners])
  | fail hw => exact (h.frame id).moveWorker (by simp [hw]) trivial (by simp)
  | finish hw => exact (h.frame id).moveWorker (by simp [hw]) trivial (by simp)

/-- Runs keep the invariant. -/
theorem inv_of_run {cfg : ServerConfig} {log : List (Server cfg.workers × Action cfg.workers)}
    {s : Server cfg.workers} (h : ServerRun cfg log s) : s.Inv :=
  Trace.invariant h (inv_hermesInit _) fun _ _ _ ht hu => (ht.move hu).inv ht

end Server

end Hermes
