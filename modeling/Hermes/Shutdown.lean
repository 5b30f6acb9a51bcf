import Hermes.ServerInv

/-!
# Load and shutdown

`_hms_listen` asserts that the pool takes the connection it has accepted. The pool refuses one
when its queue is full or when `hermes_shutdown` has closed it, so that the assertion holds in a
run just if the listener never meets such a pool (`listenAddWork_iff`).

`hermes_shutdown` joins the workers before it closes the server socket. A listener that waits in
`accept` then waits for a client, and the caller waits for the listener. This is the only state
in which no thread goes on, as long as the process lives (`goesOn_iff`).
-/

open CLib

set_option maxRecDepth 8000

namespace Hermes

namespace Server

variable {n : ℕ} {s u : Server n}

/-! ## The assertion of `_hms_listen` -/

@[simp] theorem setWorker_crash (w : Fin n) (t : Worker) : (s.setWorker w t).crash = s.crash :=
  rfl

@[simp] theorem enqueue_crash (item : TpoolWork) : (s.enqueue item).crash = s.crash :=
  rfl

@[simp] theorem broadcastNotEmpty_crash : s.broadcastNotEmpty.crash = s.crash :=
  rfl

@[simp] theorem dequeue_crash (w : Fin n) (item : TpoolWork) (queue : List TpoolWork) :
    (s.dequeue w item queue).crash = s.crash :=
  rfl

theorem freePool_crash (hs : s.crash ≠ some .listenAddWork) :
    s.freePool.crash ≠ some .listenAddWork := by
  unfold freePool
  split
  · exact hs
  · simp

/-- If the action is to add a connection to the queue, the pool takes it. -/
def AddsToOpen (s : Server n) : Action n → Prop
  | .worker w => ∀ fd, s.workers w = .listening (.enqueuing fd) → s.pool.TakesWork
  | _ => True

/-- The one move that breaks the assertion. -/
theorem Move.crash_iff {a : Action n} (hm : Move s a u) (hs : s.crash ≠ some .listenAddWork) :
    u.crash ≠ some .listenAddWork ↔ s.AddsToOpen a := by
  cases hm with
  | refuse hw hp => exact iff_of_false (fun h => h rfl) fun h => hp (h _ hw)
  | enqueue hw hp => exact iff_of_true (by simpa using hs) fun _ _ => hp
  | free hi hc => exact iff_of_true (freePool_crash hs) trivial
  | wait hw _ _ | exit hw _ | take hw _ | leave hw _ | proceed hw _ | left hw =>
    exact iff_of_true (by simpa using hs) (by simp [AddsToOpen, hw])
  | _ => exact iff_of_true (by simpa using hs) trivial

/-- In no state of a run the assertion of `_hms_listen` on `tpool_add_work` has failed, just if
the listener has called it only while the queue had room and `hermes_shutdown` had not closed
it. -/
theorem listenAddWork_iff {cfg : ServerConfig}
    {log : List (Server cfg.workers × Action cfg.workers)} {s : Server cfg.workers}
    (h : ServerRun cfg log s) :
    (∀ t ∈ visited log s, t.crash ≠ some .listenAddWork) ↔ ∀ e ∈ log, AddsToOpen e.1 e.2 :=
  Trace.forall_iff h (inv_hermesInit _) (fun _ _ _ ht hu => (ht.move hu).inv ht)
    (by simp [hermesInit]) fun _ _ _ ht hs hu => (ht.move hu).crash_iff hs

/-- A client connects, is accepted by worker `0`, and is added to the queue. -/
def clientActions : List (Action 3) :=
  [.connect, .accept 0 true, .worker 0, .worker 0]

/-- One worker listens, the other two take a connection each, and eleven more clients follow. -/
def loadActions : List (Action 3) :=
  [.caller, .worker 0, .openSocket 0 true] ++ clientActions ++ [.worker 1] ++ clientActions ++
    [.worker 2] ++ (List.replicate 11 clientActions).flatten

theorem exists_listenAddWork :
    ∃ log s, ServerRun ⟨1, 61182, 1⟩ log s ∧ s.crash = some .listenAddWork := by
  have hload : (perform (step ⟨1, 61182, 1⟩) (hermesInit 3) loadActions).any
      (fun s => s.crash = some .listenAddWork) := by decide
  obtain ⟨s, hs, hcrash⟩ := (Option.any_eq_true _ _).1 hload
  obtain ⟨log, hlog, -⟩ := Trace.of_perform hs
  exact ⟨log, s, hlog, of_decide_eq_true hcrash⟩

/-- With two connections handled and ten queued, the next one ends the process. -/
theorem listenAddWork_reached :
    ¬∀ log s, ServerRun ⟨1, 61182, 1⟩ log s → s.crash ≠ some .listenAddWork := by
  obtain ⟨log, s, hrun, hcrash⟩ := exists_listenAddWork
  exact fun h => h log s hrun hcrash

theorem listenAddWork_iff_load :
    ∃ log s, ServerRun ⟨1, 61182, 1⟩ log s ∧ ¬∀ e ∈ log, AddsToOpen e.1 e.2 := by
  obtain ⟨log, s, hrun, hcrash⟩ := exists_listenAddWork
  exact ⟨log, s, hrun, fun h => (listenAddWork_iff hrun).2 h s (by simp [visited]) hcrash⟩

/-! ## Threads that wait for each other -/

/-- A thread of the server can take a step. -/
def GoesOn (cfg : ServerConfig) (s : Server cfg.workers) : Prop :=
  ∃ a u, a.OfThread ∧ step cfg s a = some u

/-- The caller joins the worker that runs `_hms_listen`, which waits in `accept` for a client,
and all other workers have exited. -/
def Deadlocked (s : Server n) : Prop :=
  ∃ w : Fin n, s.caller = .joining w ∧ s.workers w = .listening .accepting ∧ s.pending = 0 ∧
    ∀ v, v ≠ w → s.workers v = .exited

section Progress

variable {cfg : ServerConfig} {s : Server cfg.workers}

theorem goesOn_of_act (hc : s.crash = none) {a : Action cfg.workers}
    (h : (s.act cfg a).isSome) (ha : a.OfThread) : GoesOn cfg s := by
  obtain ⟨u, hu⟩ := Option.isSome_iff_exists.1 h
  exact ⟨a, u, ha, by simpa [step, hc] using hu⟩

/-- A worker goes on unless it waits for work or for a client. -/
theorem Inv.worker_goesOn (h : s.Inv) (hc : s.crash = none) (w : Fin cfg.workers) :
    s.workers w = .exited ∨ s.workers w = .waiting ∨
      (s.workers w = .listening .accepting ∧ s.pending = 0) ∨ GoesOn cfg s := by
  cases hw : s.workers w with
  | exited => exact .inl rfl
  | waiting => exact .inr (.inl rfl)
  | locking =>
    have hs : (s.act cfg (.worker w)).isSome := by simp [act, workerStep, hw]
    exact .inr (.inr (.inr (goesOn_of_act hc hs trivial)))
  | handling fd =>
    have hs : (s.act cfg (.finish w)).isSome := by simp [act, finish, hw]
    exact .inr (.inr (.inr (goesOn_of_act hc hs trivial)))
  | listening l =>
    refine .inr (.inr ?_)
    cases l with
    | opening =>
      have hs : (s.act cfg (.openSocket w true)).isSome := by simp [act, openSocket, hw]
      exact .inr (goesOn_of_act hc hs trivial)
    | accepting =>
      by_cases hp : s.pending = 0
      · exact .inl ⟨rfl, hp⟩
      · have hs : (s.act cfg (.accept w true)).isSome := by
          simp [act, accept, hw, Nat.pos_of_ne_zero hp]
        exact .inr (goesOn_of_act hc hs trivial)
    | testing fd =>
      have hs : (s.act cfg (.worker w)).isSome := by simp [act, workerStep, hw]
      exact .inr (goesOn_of_act hc hs trivial)
    | enqueuing fd =>
      have hs : (s.act cfg (.worker w)).isSome := by
        by_cases hp : s.pool.TakesWork
        · simp [act, workerStep, hw, addWork_of_takesWork hp]
        · simp [act, workerStep, hw, addWork_of_not_takesWork h.nonblocking hp]
      exact .inr (goesOn_of_act hc hs trivial)
    | leaving =>
      have hs : (s.act cfg (.worker w)).isSome := by simp [act, workerStep, hw]
      exact .inr (goesOn_of_act hc hs trivial)

/-- Two workers do not listen at the same time. -/
theorem Inv.listening_unique (h : s.Inv) {v w : Fin cfg.workers} {k l : Listener}
    (hv : s.workers v = .listening k) (hw : s.workers w = .listening l) : v = w := by
  by_contra hne
  have hsum := Finset.add_le_sum (f := fun x => Tally.listeners.count (s.workers x))
    (fun _ _ => Nat.zero_le _) (Finset.mem_univ v) (Finset.mem_univ w) hne
  have htotal := (le_trans (Nat.le_add_right _ _) h.listeners).trans (min_le_left _ _)
  simp only [hv, hw, Tally.listeners] at hsum
  exact absurd (hsum.trans htotal) (by norm_num)

theorem Inv.exists_not_listening (h : s.Inv) :
    ∃ w : Fin cfg.workers, ∀ l, s.workers w ≠ .listening l := by
  by_contra hall
  push Not at hall
  obtain ⟨k, hk⟩ := hall ⟨0, by simp [ServerConfig.workers]⟩
  obtain ⟨l, hl⟩ := hall ⟨1, by simp [ServerConfig.workers]⟩
  exact absurd (Fin.mk.inj (h.listening_unique hk hl)) zero_ne_one

/-- A caller that has not returned goes on, or it waits for the listener. -/
theorem Inv.goesOn_or_deadlocked (h : s.Inv) (hc : s.crash = none) (hs : s.shutdown = true)
    (hr : s.caller ≠ .returned) : GoesOn cfg s ∨ s.Deadlocked := by
  by_cases hgo : GoesOn cfg s
  · exact .inl hgo
  have hcaller : s.callerStep cfg = none := by
    by_contra hne
    exact hgo (goesOn_of_act hc (a := .caller) (Option.isSome_iff_ne_none.2 hne) trivial)
  have hstage := h.shutdown.1 hs
  cases hcl : s.caller with
  | starting | serving =>
    rw [hcl] at hstage
    exact absurd hstage (by simp [Caller.stage])
  | returned => exact absurd hcl hr
  | closing | drained | wakingWorkers | wakingAdders => simp [callerStep, hcl] at hcaller
  | draining =>
    obtain ⟨w, hw⟩ := h.exists_not_listening
    have hq : s.pool.queue ≠ [] := h.callerOk hcl
    rcases h.worker_goesOn hc w with hw' | hw' | ⟨hw', -⟩ | hgo'
    · have : 4 ≤ s.caller.stage := h.workerOk hw'
      simp [hcl, Caller.stage] at this
    · exact absurd (h.queue_eq_nil hw') hq
    · exact absurd hw' (hw _)
    · exact absurd hgo' hgo
  | joining i =>
    have hnw := h.not_waiting (by simp [hcl, Caller.stage])
    by_cases hi : i < cfg.workers
    · have hne : s.workers ⟨i, hi⟩ ≠ .exited := fun he => by
        simp [callerStep, hcl, hi, he] at hcaller
      rcases h.worker_goesOn hc ⟨i, hi⟩ with hw | hw | ⟨hw, hp⟩ | hgo'
      · exact absurd hw hne
      · exact absurd hw (hnw _)
      · refine .inr ⟨⟨i, hi⟩, hcl, hw, hp, fun v hv => ?_⟩
        rcases h.worker_goesOn hc v with hv' | hv' | ⟨hv', -⟩ | hgo'
        · exact hv'
        · exact absurd hv' (hnw _)
        · exact absurd (h.listening_unique hv' hw) hv
        · exact absurd hgo' hgo
      · exact absurd hgo' hgo
    · simp [callerStep, hcl, hi] at hcaller

theorem Deadlocked.not_goesOn (hd : s.Deadlocked) (h : s.Inv) : ¬GoesOn cfg s := by
  obtain ⟨w, hc, hw, hp, hexit⟩ := hd
  have hopen : s.listening = true := h.workerOk hw
  rintro ⟨a, u, ha, hu⟩
  have hact : s.act cfg a = some u := by
    unfold step at hu
    split at hu
    · cases hu
    · exact hu
  have hv : ∀ v, s.workers v = .exited ∨ s.workers v = .listening .accepting := by
    intro v
    by_cases hvw : v = w
    · exact .inr (hvw ▸ hw)
    · exact .inl (hexit v hvw)
  cases a with
  | connect | shutdown | wakeWorker | wakeCaller => exact ha
  | caller => simp [act, callerStep, hc, hw] at hact
  | worker v => rcases hv v with hv | hv <;> simp [act, workerStep, hv] at hact
  | openSocket v ok => rcases hv v with hv | hv <;> simp [act, openSocket, hv] at hact
  | accept v ok => rcases hv v with hv | hv <;> simp [act, accept, hv, hp, hopen] at hact
  | finish v => rcases hv v with hv | hv <;> simp [act, finish, hv] at hact

/-- `hermes_shutdown` has been called and has not returned, and no connection is handled. -/
structure ShuttingDown (s : Server n) : Prop where
  called : s.shutdown = true
  running : s.caller ≠ .returned
  handled : ∀ w fd, s.workers w ≠ .handling fd

/-- While it shuts down, a thread of the server can take a step, just if the process lives and
the caller does not wait for a listener in `accept`. -/
theorem goesOn_iff {log : List (Server cfg.workers × Action cfg.workers)}
    (h : ServerRun cfg log s) (hs : s.ShuttingDown) :
    GoesOn cfg s ↔ s.crash = none ∧ ¬s.Deadlocked := by
  have hinv := inv_of_run h
  refine ⟨fun hgo => ⟨?_, fun hd => hd.not_goesOn hinv hgo⟩, fun ⟨hc, hd⟩ => ?_⟩
  · obtain ⟨a, u, -, hu⟩ := hgo
    by_contra hne
    simp [step, Option.isSome_iff_ne_none.2 hne] at hu
  · exact (hinv.goesOn_or_deadlocked hc hs.called hs.running).resolve_right hd

end Progress

/-- Worker `0` listens, and `hermes_shutdown` is called before a client connects. -/
def idleActions : List (Action 3) :=
  [.caller, .worker 0, .openSocket 0 true, .shutdown, .caller, .caller, .caller, .worker 1,
    .worker 2]

theorem exists_deadlocked :
    ∃ log s, ServerRun ⟨1, 61182, 1⟩ log s ∧ s.ShuttingDown ∧ s.Deadlocked := by
  have hidle : (perform (step ⟨1, 61182, 1⟩) (hermesInit 3) idleActions).any
      (fun s => s.shutdown = true ∧ s.caller = .joining 0 ∧ s.pending = 0 ∧
        s.workers (0 : Fin 3) = .listening .accepting ∧ s.workers (1 : Fin 3) = .exited ∧
        s.workers (2 : Fin 3) = .exited) := by decide
  obtain ⟨s, hs, hidle⟩ := (Option.any_eq_true _ _).1 hidle
  obtain ⟨hcalled, hc, hp, hw, h1, h2⟩ := of_decide_eq_true hidle
  obtain ⟨log, hlog, -⟩ := Trace.of_perform hs
  have hexit : ∀ w : Fin 3, w ≠ 0 → s.workers w = .exited
    | 0, h0 => absurd rfl h0
    | 1, _ => h1
    | 2, _ => h2
  refine ⟨log, s, hlog, ⟨hcalled, by simp [hc], fun w fd hfd => ?_⟩,
    ⟨(0 : Fin 3), hc, hw, hp, hexit⟩⟩
  by_cases h0 : w = (0 : Fin 3)
  · rw [h0, hw] at hfd
    cases hfd
  · rw [hexit w h0] at hfd
    cases hfd

/-- Without a client `hermes_shutdown` does not return. -/
theorem shutdown_stuck :
    ¬∀ log s, ServerRun ⟨1, 61182, 1⟩ log s → s.ShuttingDown → GoesOn ⟨1, 61182, 1⟩ s := by
  obtain ⟨log, s, hrun, hs, hd⟩ := exists_deadlocked
  exact fun h => hd.not_goesOn (inv_of_run hrun) (h log s hrun hs)

theorem goesOn_iff_idle :
    ∃ log s, ServerRun ⟨1, 61182, 1⟩ log s ∧ s.ShuttingDown ∧ ¬GoesOn ⟨1, 61182, 1⟩ s := by
  obtain ⟨log, s, hrun, hs, hd⟩ := exists_deadlocked
  exact ⟨log, s, hrun, hs, fun hgo => ((goesOn_iff hrun hs).1 hgo).2 hd⟩

end Server

end Hermes
