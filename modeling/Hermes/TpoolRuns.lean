import Hermes.TpoolControl
import Mathlib.Algebra.BigOperators.Fin
import Mathlib.Algebra.BigOperators.Group.Finset.Piecewise
import Mathlib.Algebra.Order.BigOperators.Group.Finset

/-!
# Runs of a pool

What `tpool.c` promises to any number of clients. `poolRun_work` : work is taken in the order in
which it was added, each once, and no critical section uses a node that is not there.
`poolRun_waits` : a thread that waits is right to. `poolRun_returns` : whatever the scheduler does,
all calls return. `poolRun_destroy` : what `tpool_destroy` frees, and when it goes wrong.
-/

open CLib

namespace Hermes

namespace Linked

variable {α ι : Type} {n : ℕ}

/-- What a worker has taken and not finished. -/
def PoolWorker.workIn (nodes : Heap α) : PoolWorker α → Option α
  | .holding myWorkp => (workAt nodes myWorkp).head?
  | .running _ work => some work
  | _ => none

/-- The node of a worker. -/
def PoolWorker.node : PoolWorker α → Option ℕ
  | .holding myWorkp | .running myWorkp _ => myWorkp
  | _ => none

theorem PoolWorker.Carries.node {t : PoolWorker α} {o : Option (ℕ × α)} (h : t.Carries o) :
    t.node = o.map Prod.fst := by
  cases t with
  | holding myWorkp =>
    obtain ⟨e, rfl, rfl⟩ := h
    rfl
  | running myWorkp work =>
    obtain ⟨p, rfl, rfl⟩ := h
    rfl
  | _ =>
    rw [show o = none from h]
    rfl

/-! ## What a thread can still do -/

/-- A value of a function on `ι` is replaced. -/
theorem sum_update_add {β : Type} [Fintype ι] [DecidableEq ι] (weight : β → ℕ) (f : ι → β) (i : ι)
    (b : β) : ∑ j, weight (Function.update f i b j) + weight (f i) =
      ∑ j, weight (f j) + weight b := by
  have hi := Finset.mem_univ i
  have hsum : ∑ j, weight (Function.update f i b j) =
      ∑ j, Function.update (fun j => weight (f j)) i (weight b) j := by
    refine Finset.sum_congr rfl fun j _ => ?_
    by_cases hj : j = i <;> simp [hj]
  have hold := Finset.add_sum_erase Finset.univ (fun j => weight (f j)) hi
  rw [hsum, Finset.sum_update_of_mem hi, Finset.sdiff_singleton_eq_erase]
  omega

/-- A signal adds one at most to each. -/
theorem sum_signal_le {β : Type} [Fintype ι] (weight : β → ℕ) (f : ι → β) (g : β → β)
    (hg : ∀ b, weight (g b) ≤ weight b + 1) :
    ∑ i, weight (g (f i)) ≤ ∑ i, weight (f i) + Fintype.card ι := by
  refine (Finset.sum_le_sum fun i _ => hg (f i)).trans_eq ?_
  rw [Finset.sum_add_distrib, Finset.sum_const, Finset.card_univ, smul_eq_mul, mul_one]

/-- The steps that a worker is worth. -/
def PoolWorker.weight : PoolWorker α → ℕ
  | .waiting | .exited => 0
  | .locking => 1
  | .running _ _ => 2
  | .holding _ => 3

/-- The steps that work in the queue is worth, with `clients` to be signalled. -/
def workWeight (clients : ℕ) : ℕ :=
  clients + 3

/-- The steps that a client is worth, with `n` workers and `clients` to be signalled. -/
def Client.weight (n clients : ℕ) : Client α → ℕ
  | .idle => 0
  | .waiting _ => workWeight clients + n
  | .adding _ | .retrying _ => workWeight clients + n + 1
  | .joining _ i => n + 1 - i
  | .wakingAdders _ => n + clients + 2
  | .wakingWorkers _ => 2 * n + clients + 3
  | .draining _ => 2 * n + clients + 4
  | .drained _ => 2 * n + clients + 5
  | .destroying _ => 2 * n + clients + 6

theorem PoolWorker.weight_woken_le (w : PoolWorker α) : w.woken.weight ≤ w.weight + 1 := by
  cases w <;> simp [PoolWorker.woken, PoolWorker.weight]

theorem Signals.weight_le {f : Client α → Client α} (hf : Signals f) (n clients : ℕ)
    (c : Client α) : (f c).weight n clients ≤ c.weight n clients + 1 := by
  rcases hf c with h | ⟨work, rfl, h⟩ | ⟨finish, rfl, h⟩ <;> rw [h] <;> simp [Client.weight]

section Left

variable [Fintype ι]

/-- The steps that the workers are worth. -/
def workersLeft (workers : Fin n → PoolWorker α) : ℕ :=
  ∑ w, (workers w).weight

/-- The steps that the clients are worth. -/
def clientsLeft (n : ℕ) (clients : ι → Client α) : ℕ :=
  ∑ c, (clients c).weight n (Fintype.card ι)

theorem workersLeft_update (workers : Fin n → PoolWorker α) (w : Fin n) (t : PoolWorker α) :
    workersLeft (Function.update workers w t) + (workers w).weight =
      workersLeft workers + t.weight :=
  sum_update_add PoolWorker.weight workers w t

theorem clientsLeft_update [DecidableEq ι] (n : ℕ) (clients : ι → Client α) (c : ι)
    (t : Client α) : clientsLeft n (Function.update clients c t) +
      (clients c).weight n (Fintype.card ι) =
      clientsLeft n clients + t.weight n (Fintype.card ι) :=
  sum_update_add (Client.weight n (Fintype.card ι)) clients c t

theorem workersLeft_woken_le (workers : Fin n → PoolWorker α) :
    workersLeft (fun w => (workers w).woken) ≤ workersLeft workers + n := by
  have hle := sum_signal_le PoolWorker.weight workers _ PoolWorker.weight_woken_le
  rwa [Fintype.card_fin] at hle

theorem clientsLeft_signal_le {f : Client α → Client α} (hf : Signals f) (n : ℕ)
    (clients : ι → Client α) : clientsLeft n (fun c => f (clients c)) ≤
      clientsLeft n clients + Fintype.card ι :=
  sum_signal_le (Client.weight n (Fintype.card ι)) clients f (hf.weight_le n _)

end Left

namespace Pool

/-- The work that was taken and whose routine has not returned. -/
def inProgress (s : Pool n ι α) : List α :=
  (List.finRange n).filterMap fun w => (s.workers w).workIn s.tpool.nodes

/-- The nodes that the workers have. -/
def heldNodes (s : Pool n ι α) : List ℕ :=
  (List.finRange n).filterMap fun w => (s.workers w).node

/-! ## The invariant of a run -/

/-- How a run can go wrong where the queue stands for `pool` : a thread uses the pool that is
freed, or `tpool_destroy` has two nodes or more to free. -/
def Right (s : Pool n ι α) (pool : Hermes.Tpool α) : Prop :=
  s.misuse = none ∨ (s.misuse = some .pool ∧ s.freed = true) ∨
    (s.misuse = some .freeQueue ∧ 2 ≤ pool.queue.length ∧
      ∃ c finish, s.clients c = .joining finish n ∧ finish ≠ 1)

/-- The invariant. -/
structure Inv (s : Pool n ι α) (pool : Hermes.Tpool α) (es : List (ℕ × α))
    (held : Fin n → Option (ℕ × α)) : Prop where
  mem : s.Mem pool es held
  control : s.Control pool
  right : s.Right pool

theorem inv_init (cfg : PoolConfig) (ι α : Type) : (cfg.init ι α).Inv
    (Hermes.tpoolInit cfg.maxQueueSize cfg.doNotBlockWhenFull) [] (fun _ => none) :=
  ⟨mem_init cfg ι α, control_init cfg ι α, .inl rfl⟩

section Steps

variable [DecidableEq ι] {s u : Pool n ι α} {pool pool' : Hermes.Tpool α} {es : List (ℕ × α)}
  {held : Fin n → Option (ℕ × α)} {a : Action n ι α}

/-- A move does not change the arguments of `tpool_init`. -/
theorem Move.config (hm : Move s pool a u pool') : pool'.maxQueueSize = pool.maxQueueSize ∧
    pool'.doNotBlockWhenFull = pool.doNotBlockWhenFull := by
  cases hm <;> exact ⟨rfl, rfl⟩

/-- What has no meaning after a move. -/
theorem Move.right (h : s.Control pool) (hs : s.misuse = none) (hm : Move s pool a u pool') :
    u.Right pool' := by
  cases hm with
  | late ha hf => exact .inr (.inl ⟨rfl, hf⟩)
  | @lose c finish i a hi hc hq =>
    refine .inr (.inr ⟨rfl, hq, c, finish, ?_, fun h1 => ?_⟩)
    · obtain rfl : i = n := le_antisymm (h.joined c finish i hc).1 hi
      exact hc
    · have hnil := h.finish c (by rw [hc, h1]; rfl)
      rw [hnil] at hq
      simp at hq
  | _ => exact .inl hs

theorem step_eq_some (hu : step s a = some u) : s.misuse = none ∧ s.act a = some u := by
  unfold step at hu
  cases hs : s.misuse <;> simp_all

theorem Inv.step (h : s.Inv pool es held) (hu : Pool.step s a = some u) :
    ∃ pool' es' held', Move s pool a u pool' ∧ u.Inv pool' es' held' := by
  obtain ⟨hs, hact⟩ := step_eq_some hu
  obtain ⟨pool', es', held', hm, hmem⟩ := h.mem.act hact
  exact ⟨pool', es', held', hm, hmem,
    hm.control h.control fun c work hc => h.mem.blocks c work (.inl hc), hm.right h.control hs⟩

end Steps

/-- The invariant holds in every state of a run. -/
theorem inv_of_poolRun [DecidableEq ι] {cfg : PoolConfig}
    {log : List (Pool cfg.numWorkerThreads ι α × Action cfg.numWorkerThreads ι α)}
    {s : Pool cfg.numWorkerThreads ι α} (h : PoolRun cfg log s) :
    ∃ pool es held, s.Inv pool es held ∧ pool.maxQueueSize = cfg.maxQueueSize := by
  refine Trace.invariant h (P := fun s => ∃ pool es held, s.Inv pool es held ∧
    pool.maxQueueSize = cfg.maxQueueSize) ⟨_, _, _, inv_init cfg ι α, rfl⟩ ?_
  rintro t a u ⟨pool, es, held, hinv, hmax⟩ hu
  obtain ⟨pool', es', held', hm, hinv'⟩ := hinv.step hu
  exact ⟨pool', es', held', hinv', hm.config.1.trans hmax⟩

/-! ## Work -/

section Work

variable {s : Pool n ι α} {pool : Hermes.Tpool α} {es : List (ℕ × α)}
  {held : Fin n → Option (ℕ × α)}

theorem Mem.inProgress (h : s.Mem pool es held) :
    s.inProgress = (carried held).map Prod.snd := by
  rw [Pool.inProgress, carried, List.map_filterMap]
  refine List.filterMap_congr fun w _ => ?_
  have hcarries := h.carries w
  cases hw : s.workers w <;> rw [hw] at hcarries
  case holding myWorkp =>
    obtain ⟨e, rfl, hheld⟩ := hcarries
    obtain ⟨r, hr⟩ := h.lookup w e hheld
    simp [PoolWorker.workIn, workAt, hr, hheld]
  case running myWorkp work =>
    obtain ⟨p, rfl, hheld⟩ := hcarries
    simp [PoolWorker.workIn, hheld]
  all_goals
    rw [show held w = none from hcarries]
    rfl

theorem Mem.heldNodes (h : s.Mem pool es held) :
    s.heldNodes = (carried held).map Prod.fst := by
  rw [Pool.heldNodes, carried, List.map_filterMap]
  exact List.filterMap_congr fun w _ => (h.carries w).node

/-- The nodes of the workers have the work that is in progress. -/
theorem Mem.workAt_heldNodes (h : s.Mem pool es held) :
    s.heldNodes.flatMap (fun a => workAt s.tpool.nodes (some a)) = s.inProgress := by
  rw [h.heldNodes, h.inProgress, List.flatMap_map, List.map_eq_flatMap]
  refine List.flatMap_congr fun e he => ?_
  obtain ⟨w, -, hw⟩ := List.mem_filterMap.1 he
  obtain ⟨r, hr⟩ := h.lookup w e hw
  simp [workAt, hr]

theorem Mem.length_added (h : s.Mem pool es held) :
    s.added.length = s.taken.length + pool.queue.length := by
  rw [h.added, List.length_append]

/-- Every node in memory has work that has not run. -/
theorem Mem.length_nodes (h : s.Mem pool es held) :
    s.tpool.nodes.keys.length + s.ran.length = s.added.length := by
  have hkeys := h.keys.length_eq
  have htaken := h.taken.length_eq
  rw [List.length_map, List.length_append] at hkeys
  rw [List.length_append, List.length_map] at htaken
  rw [h.length_added, h.models.length_queue]
  omega

end Work

/-! ## Steps that are left -/

section Measure

variable [Fintype ι]

/-- A bound on the steps that the threads can take in their calls. -/
def measure (s : Pool n ι α) : ℕ :=
  workersLeft s.workers + clientsLeft n s.clients +
    workWeight (Fintype.card ι) * (s.added.length - s.taken.length) +
    (if s.misuse = none then 1 else 0)

variable {s u : Pool n ι α} {pool pool' : Hermes.Tpool α} {es es' : List (ℕ × α)}
  {held held' : Fin n → Option (ℕ × α)}

theorem Mem.measure (h : s.Mem pool es held) : s.measure =
    workersLeft s.workers + clientsLeft n s.clients +
      workWeight (Fintype.card ι) * pool.queue.length + (if s.misuse = none then 1 else 0) := by
  rw [Pool.measure, h.length_added, Nat.add_sub_cancel_left]

theorem Mem.measure_le (h : s.Mem pool es held) : s.measure ≤
    workersLeft s.workers + clientsLeft n s.clients +
      workWeight (Fintype.card ι) * pool.queue.length + 1 := by
  rw [h.measure]
  exact Nat.add_le_add_left (by split_ifs <;> decide) _

variable [DecidableEq ι] {a : Action n ι α}

/-- A step of a thread lowers the measure. -/
theorem Move.measure_lt (h : s.Mem pool es held) (hcontrol : s.Control pool)
    (hs : s.misuse = none) (hu : u.Mem pool' es' held') (ha : a.OfThread)
    (hm : Move s pool a u pool') : u.measure < s.measure := by
  have hworker := workersLeft_update s.workers
  have hclient := clientsLeft_update n s.clients
  have hwake := workersLeft_woken_le s.workers
  have hle := hu.measure_le
  have hmeasure := h.measure
  rw [if_pos hs] at hmeasure
  cases hm with
  | addWork | destroy | wakeWorker | wakeAdder | wakeDestroyer => exact ha.elim
  | late _ _ | lose _ _ _ =>
    rw [hu.measure, if_neg (by simp), hmeasure]
    exact Nat.lt_succ_self _
  | @wait w hw _ _ =>
    have hgo := hworker w .waiting
    rw [hw] at hgo
    simp only [PoolWorker.weight, setWorker] at hgo hle ⊢
    omega
  | @exit w hw _ =>
    have hgo := hworker w .exited
    rw [hw] at hgo
    simp only [PoolWorker.weight, setWorker] at hgo hle ⊢
    omega
  | @take w work queue tpool myWorkp room hw hq _ _ =>
    have hgo := hworker w (.holding myWorkp)
    have hsignal := clientsLeft_signal_le (signals_afterTake room queue.isEmpty) n s.clients
    rw [hw] at hgo
    rw [hq, List.length_cons, mul_add, mul_one] at hmeasure
    simp only [PoolWorker.weight] at hgo hle ⊢
    have hweight : workWeight (Fintype.card ι) = Fintype.card ι + 3 := rfl
    omega
  | @call w myWorkp work hw =>
    have hgo := hworker w (.running myWorkp work)
    rw [hw] at hgo
    simp only [PoolWorker.weight, setWorker] at hgo hle ⊢
    omega
  | @done w myWorkp work tpool hw =>
    have hgo := hworker w .locking
    rw [hw] at hgo
    simp only [PoolWorker.weight, setWorker] at hgo hle ⊢
    omega
  | @refuse c work a hc _ =>
    have hgo := hclient c .idle
    rcases hc with hc | hc <;> rw [hc] at hgo <;>
      simp only [Client.weight, setClient] at hgo hle ⊢ <;> omega
  | @waitRoom c work a hc _ _ _ =>
    have hgo := hclient c (.waiting work)
    rcases hc with hc | hc <;> rw [hc] at hgo <;>
      simp only [Client.weight, setClient] at hgo hle ⊢ <;> omega
  | @add c work a tpool hc _ _ =>
    have hgo := hclient c .idle
    have hwoken : workersLeft
        (fun w => if pool.queue.isEmpty then (s.workers w).woken else s.workers w) ≤
        workersLeft s.workers + n := by
      cases pool.queue.isEmpty
      · exact Nat.le_add_right _ _
      · exact hwake
    rcases hc with hc | hc <;> rw [hc] at hgo <;>
      simp only [Client.weight, setClient, List.length_append, List.length_singleton, mul_add,
        mul_one] at hgo hle ⊢ <;> omega
  | @already c finish a hc _ =>
    have hgo := hclient c .idle
    rw [hc] at hgo
    simp only [Client.weight, setClient] at hgo hle ⊢
    omega
  | @drain c finish a tpool closed _ hc _ =>
    have hgo := hclient c (.draining finish)
    rcases hc with ⟨hc, -, -⟩ | ⟨hc, -⟩ <;> rw [hc] at hgo <;>
      simp only [Client.weight, setClient] at hgo hle ⊢ <;> omega
  | @stop c finish a tpool closed _ hc _ =>
    have hgo := hclient c (.wakingWorkers finish)
    rcases hc with ⟨hc, -, -⟩ | ⟨hc, -⟩ <;> rw [hc] at hgo <;>
      simp only [Client.weight, setClient] at hgo hle ⊢ <;> omega
  | @wakeWorkers c finish a hc =>
    have hgo := hclient c (.wakingAdders finish)
    rw [hc] at hgo
    simp only [Client.weight, setClient] at hgo hle ⊢
    omega
  | @wakeAdders c finish a hc =>
    have hgo := clientsLeft_update n (fun d => (s.clients d).roomMade) c (.joining finish 0)
    have hsignal := clientsLeft_signal_le signals_roomMade n s.clients
    have hstay : (s.clients c).roomMade = .wakingAdders finish := by rw [hc]; rfl
    rw [hstay] at hgo
    simp only [Client.weight, setClient] at hgo hle ⊢
    omega
  | @join c finish i a hi hc _ =>
    have hgo := hclient c (.joining finish (i + 1))
    rw [hc] at hgo
    simp only [Client.weight, setClient] at hgo hle ⊢
    omega
  | @free c finish i a hi hc _ =>
    have hgo := hclient c .idle
    have hin := (hcontrol.joined c finish i hc).1
    rw [hc] at hgo
    simp only [Client.weight, setClient] at hgo hle ⊢
    omega

end Measure

/-! ## A pool at rest -/

section Rest

variable {s : Pool n ι α} {pool : Hermes.Tpool α} {es : List (ℕ × α)}
  {held : Fin n → Option (ℕ × α)}

theorem exists_fresh (s : Pool n ι α) : ∃ a, a ∉ s.tpool.nodes := by
  obtain ⟨a, ha⟩ := Infinite.exists_notMem_finset s.tpool.nodes.keys.toFinset
  exact ⟨a, fun hmem => ha (List.mem_toFinset.2 (AList.mem_keys.1 hmem))⟩

theorem exists_wakingWorkers {c : ι} (h : s.stages c = 2) :
    ∃ finish, s.clients c = .wakingWorkers finish := by
  rw [stages] at h
  cases hc : s.clients c <;> simp_all [Client.stage]

theorem exists_wakingAdders {c : ι} (h : s.stages c = 3) :
    ∃ finish, s.clients c = .wakingAdders finish := by
  rw [stages] at h
  cases hc : s.clients c <;> simp_all [Client.stage]

variable [DecidableEq ι]

/-- No thread can take a step. -/
def AtRest (s : Pool n ι α) : Prop :=
  ∀ a : Action n ι α, a.OfThread → Pool.step s a = none

theorem AtRest.workerStep (h : s.AtRest) (hs : s.misuse = none) (w : Fin n) :
    s.workerStep w = none := by
  have hstep := h (.worker w) trivial
  rwa [Pool.step, hs, if_neg (by simp)] at hstep

theorem AtRest.clientStep (h : s.AtRest) (hs : s.misuse = none) (c : ι) :
    ∃ a, s.clientStep c a = none := by
  obtain ⟨a, ha⟩ := s.exists_fresh
  have hstep := h (.client c a) trivial
  rw [Pool.step, hs, if_neg (by simp), Pool.act, if_neg ha] at hstep
  exact ⟨a, hstep⟩

theorem AtRest.worker (h : s.AtRest) (hs : s.misuse = none) (w : Fin n) :
    s.workers w = .waiting ∨ s.workers w = .exited := by
  have hstep := h.workerStep hs w
  rw [Pool.workerStep] at hstep
  cases hw : s.workers w <;> rw [hw] at hstep <;> simp_all

theorem AtRest.client (h : s.AtRest) (hs : s.misuse = none) (c : ι) :
    s.clients c = .idle ∨ (∃ work, s.clients c = .waiting work) ∨
      (∃ finish, s.clients c = .draining finish) ∨
      ∃ finish i, s.clients c = .joining finish i ∧ ∃ hi : i < n, s.workers ⟨i, hi⟩ ≠ .exited := by
  obtain ⟨a, hstep⟩ := h.clientStep hs c
  rw [Pool.clientStep] at hstep
  cases hc : s.clients c with
  | idle => exact .inl rfl
  | waiting work => exact .inr (.inl ⟨work, rfl⟩)
  | draining finish => exact .inr (.inr (.inl ⟨finish, rfl⟩))
  | joining finish i =>
    rw [hc] at hstep
    dsimp only at hstep
    split_ifs at hstep with hi
    refine .inr (.inr (.inr ⟨finish, i, rfl, hi, fun hw => ?_⟩))
    rw [hw] at hstep
    cases hstep
  | _ =>
    rw [hc] at hstep
    cases hstep

/-- A pool with a worker and room is at rest only when all calls have returned. -/
theorem AtRest.idle (h : s.AtRest) (hinv : s.Inv pool es held) (hs : s.misuse = none) (hn : 0 < n)
    (hmax : 0 < pool.maxQueueSize) (c : ι) : s.clients c = .idle := by
  have hcontrol := hinv.control
  -- a worker that waits has no work, so one with work has exited
  have hshut : pool.queue ≠ [] → pool.shutdown = true := fun hq =>
    (h.worker hs ⟨0, hn⟩).elim (fun hw => absurd (hcontrol.waiting _ hw).1 hq)
      (hcontrol.exited ⟨0, hn⟩)
  have hrest : ∀ d, s.stages d ≠ 2 ∧ s.stages d ≠ 3 := fun d => by
    rw [stages]
    rcases h.client hs d with hd | ⟨work, hd⟩ | ⟨fin, hd⟩ | ⟨fin, i, hd, -⟩ <;> rw [hd] <;>
      simp [Client.stage]
  rcases h.client hs c with hc | ⟨work, hc⟩ | ⟨finish, hc⟩ | ⟨finish, i, hc, hi, hw⟩
  · exact hc
  · obtain ⟨hfull, hwoken⟩ := hcontrol.room c work hc
    obtain ⟨d, hd⟩ := hwoken (hshut (List.ne_nil_of_length_pos (by omega)))
    exact absurd hd (not_or.2 (hrest d))
  · have hstage : s.stages c = 1 := by rw [stages, hc, Client.stage]
    rcases hcontrol.closing.shutdown.1 (hshut (hcontrol.draining c finish hc)) with hf | ⟨d, hd⟩
    · exact absurd (hcontrol.closing.freed hf c) (by omega)
    · obtain rfl := hcontrol.closing.one d c (by omega) (by omega)
      omega
  · have hstage : s.stages c = 4 := by rw [stages, hc, Client.stage]
    have hwait := (h.worker hs ⟨i, hi⟩).resolve_right hw
    exact absurd hwait (hcontrol.no_worker_waits (by omega : 3 ≤ s.stages c) _)

/-- All work has run in a pool at rest that is not shut down. -/
theorem AtRest.ran (h : s.AtRest) (hinv : s.Inv pool es held) (hs : s.misuse = none) (hn : 0 < n)
    (hopen : pool.shutdown = false) : s.ran.Perm s.added ∧ ∀ w, s.workers w = .waiting := by
  have hwait : ∀ w, s.workers w = .waiting := fun w =>
    (h.worker hs w).resolve_right fun hw => by
      rw [hinv.control.exited w hw] at hopen
      cases hopen
  have hq := (hinv.control.waiting ⟨0, hn⟩ (hwait _)).1
  have hnone : s.inProgress = [] := by
    rw [inProgress, List.filterMap_eq_nil_iff]
    intro w _
    rw [hwait w]
    rfl
  have htaken := hinv.mem.taken
  rw [← hinv.mem.inProgress, hnone, List.append_nil] at htaken
  refine ⟨?_, hwait⟩
  rw [hinv.mem.added, hq, List.append_nil]
  exact htaken.symm

end Rest

/-! ## Every run -/

section Runs

variable [DecidableEq ι] {cfg : PoolConfig}
  {log : List (Pool cfg.numWorkerThreads ι α × Action cfg.numWorkerThreads ι α)}
  {s : Pool cfg.numWorkerThreads ι α}

/-- Work is taken in the order in which it was added, each once, and has run or is in progress. The
nodes in memory are those of the queue, with the work that was not taken, and those of the workers,
with the work in progress. Nothing goes wrong but a use of a pool that is freed, and a shutdown that
does not wait for the queue and finds two nodes in it. -/
theorem poolRun_work (h : PoolRun cfg log s) :
    s.taken <+: s.added ∧ s.taken.Perm (s.ran ++ s.inProgress) ∧
      s.added.length ≤ s.taken.length + cfg.maxQueueSize ∧
      (∃ es : List (ℕ × α), Seg s.tpool.nodes s.tpool.queueHead es none ∧
        s.added = s.taken ++ es.map Prod.snd ∧
        s.heldNodes.flatMap (fun a => workAt s.tpool.nodes (some a)) = s.inProgress ∧
        s.tpool.nodes.keys.Perm (es.map Prod.fst ++ s.heldNodes)) ∧
      s.tpool.nodes.keys.length + s.ran.length = s.added.length ∧
      (s.misuse = none ∨ (s.misuse = some .pool ∧ s.freed = true) ∨
        (s.misuse = some .freeQueue ∧ s.taken.length + 2 ≤ s.added.length ∧
          ∃ c finish, s.clients c = .joining finish cfg.numWorkerThreads ∧ finish ≠ 1)) := by
  obtain ⟨pool, es, held, ⟨hmem, hcontrol, hright⟩, hmax⟩ := inv_of_poolRun h
  have hbound := hcontrol.bound
  have hlen := hmem.length_added
  refine ⟨⟨pool.queue, hmem.added.symm⟩, ?_, by omega,
    ⟨es, hmem.models.seg, ?_, hmem.workAt_heldNodes, ?_⟩, hmem.length_nodes, ?_⟩
  · rw [hmem.inProgress]
    exact hmem.taken
  · rw [← hmem.models.queue]
    exact hmem.added
  · rw [hmem.heldNodes, ← List.map_append]
    exact hmem.keys
  · rcases hright with hs | hs | ⟨hs, hq, hc⟩
    · exact .inl hs
    · exact .inr (.inl hs)
    · exact .inr (.inr ⟨hs, by omega, hc⟩)

/-- A pool with one worker and room for one. -/
def smallPool : PoolConfig :=
  ⟨1, 1, false⟩

/-- Client `0` adds two pieces of work and waits for room in between. Client `1` destroys the pool
without waiting for the second, and has joined the worker. -/
def smallActions : List (Action 1 (Fin 2) ℕ) :=
  [.addWork 0 7, .client 0 100, .addWork 0 8, .client 0 101, .worker 0, .client 0 101, .worker 0,
    .worker 0, .destroy 1 0, .client 1 102, .client 1 102, .client 1 102, .worker 0, .client 1 102]

theorem exists_small : ∃ log, ∃ s : Pool 1 (Fin 2) ℕ, PoolRun smallPool log s ∧
    s.misuse = none ∧ s.clients 1 = .joining 0 1 ∧ 102 ∉ s.tpool.nodes := by
  have hsmall : (perform Pool.step (smallPool.init (Fin 2) ℕ) smallActions).any
      (fun s => s.misuse = none ∧ s.clients 1 = .joining 0 1 ∧ 102 ∉ s.tpool.nodes) := by decide
  obtain ⟨s, hs, hsmall⟩ := (Option.any_eq_true _ _).1 hsmall
  obtain ⟨log, hlog, -⟩ := Trace.of_perform hs
  exact ⟨log, s, hlog, of_decide_eq_true hsmall⟩

theorem poolRun_work_small : ∃ log, ∃ s : Pool 1 (Fin 2) ℕ, PoolRun smallPool log s ∧
    s.taken <+: s.added ∧ s.taken.Perm (s.ran ++ s.inProgress) ∧
      s.tpool.nodes.keys.length + s.ran.length = s.added.length := by
  obtain ⟨log, s, hrun, -⟩ := exists_small
  obtain ⟨horder, htaken, -, -, hlen, -⟩ := poolRun_work hrun
  exact ⟨log, s, hrun, horder, htaken, hlen⟩

/-- No signal is lost. A worker waits only for an empty queue, a call of `tpool_add_work` for a
full one, and `tpool_destroy` for one that is not empty, and in a pool that is shut down only as
long as their signal is to come. -/
theorem poolRun_waits (h : PoolRun cfg log s) :
    (∀ w, s.workers w = .waiting → s.taken = s.added ∧
      (s.tpool.shutdown = true → ∃ c finish, s.clients c = .wakingWorkers finish)) ∧
    (∀ c work, s.clients c = .waiting work →
      s.added.length = s.taken.length + cfg.maxQueueSize ∧
      (s.tpool.shutdown = true → ∃ d finish,
        s.clients d = .wakingWorkers finish ∨ s.clients d = .wakingAdders finish)) ∧
    ∀ c finish, s.clients c = .draining finish →
      s.taken.length < s.added.length ∧ s.tpool.shutdown = false := by
  obtain ⟨pool, es, held, ⟨hmem, hcontrol, -⟩, hmax⟩ := inv_of_poolRun h
  have hlen := hmem.length_added
  rw [hmem.models.shutdown]
  refine ⟨fun w hw => ?_, fun c work hc => ?_, fun c finish hc => ?_⟩
  · obtain ⟨hq, hwoken⟩ := hcontrol.waiting w hw
    refine ⟨by rw [hmem.added, hq, List.append_nil], fun hs => ?_⟩
    obtain ⟨c, hc⟩ := hwoken hs
    exact ⟨c, exists_wakingWorkers hc⟩
  · obtain ⟨hfull, hwoken⟩ := hcontrol.room c work hc
    refine ⟨by omega, fun hs => ?_⟩
    obtain ⟨d, hd | hd⟩ := hwoken hs
    · exact ⟨d, (exists_wakingWorkers hd).imp fun _ => .inl⟩
    · exact ⟨d, (exists_wakingAdders hd).imp fun _ => .inr⟩
  · have hpos := List.length_pos_iff.2 (hcontrol.draining c finish hc)
    have hstage : s.stages c = 1 := by rw [stages, hc, Client.stage]
    refine ⟨by omega, ?_⟩
    by_contra hs
    rcases hcontrol.closing.shutdown.1 (by simpa using hs) with hf | ⟨d, hd⟩
    · exact absurd (hcontrol.closing.freed hf c) (by omega)
    · obtain rfl := hcontrol.closing.one d c (by omega) (by omega)
      omega

theorem poolRun_waits_small : ∃ log, ∃ s : Pool 1 (Fin 2) ℕ, PoolRun smallPool log s ∧
    ∀ w, s.workers w = .waiting → s.taken = s.added := by
  obtain ⟨log, s, hrun, -⟩ := exists_small
  exact ⟨log, s, hrun, fun w hw => ((poolRun_waits hrun).1 w hw).1⟩

/-- Whatever the scheduler does, the threads come to rest, and all calls have returned then. The
work that was added has run, or the pool is shut down. -/
theorem poolRun_returns [Fintype ι] (h : PoolRun cfg log s) (hn : 0 < cfg.numWorkerThreads)
    (hmax : 0 < cfg.maxQueueSize) :
    ∃ k, ∀ as t, (∀ a ∈ as, Action.OfThread a) → perform step s as = some t →
      as.length ≤ k ∧ (t.AtRest → t.misuse = none → (∀ c, t.clients c = .idle) ∧
        (t.tpool.queueClosed = true ↔ t.freed = true) ∧
        (t.tpool.shutdown = false → t.ran.Perm t.added ∧ ∀ w, t.workers w = .waiting)) := by
  have hinv := inv_of_poolRun h
  have hsteps : ∀ (t : Pool cfg.numWorkerThreads ι α) a u,
      (∃ pool es held, t.Inv pool es held ∧ pool.maxQueueSize = cfg.maxQueueSize) → a.OfThread →
      step t a = some u →
      (∃ pool es held, u.Inv pool es held ∧ pool.maxQueueSize = cfg.maxQueueSize) ∧
        u.measure < t.measure := by
    rintro t a u ⟨pool, es, held, ht, hsize⟩ ha hu
    obtain ⟨pool', es', held', hm, hu'⟩ := ht.step hu
    exact ⟨⟨pool', es', held', hu', hm.config.1.trans hsize⟩,
      hm.measure_lt ht.mem ht.control (step_eq_some hu).1 hu'.mem ha⟩
  refine ⟨s.measure, fun as t has ht => ?_⟩
  obtain ⟨⟨pool, es, held, hinvt, hsize⟩, hle⟩ := perform_length_le hsteps hinv has ht
  refine ⟨by omega, fun hrest hs => ?_⟩
  have hidle := hrest.idle hinvt hs hn (by omega)
  rw [hinvt.mem.models.queueClosed, hinvt.mem.models.shutdown]
  refine ⟨hidle, ?_, hrest.ran hinvt hs hn⟩
  rw [hinvt.control.closing.closed]
  refine or_iff_left ?_
  rintro ⟨c, hc⟩
  rw [stages, hidle c] at hc
  exact absurd hc (by simp [Client.stage])

theorem poolRun_returns_small : ∃ log, ∃ s : Pool 1 (Fin 2) ℕ, PoolRun smallPool log s ∧
    ∃ k, ∀ as t, (∀ a ∈ as, Action.OfThread a) → perform step s as = some t → as.length ≤ k := by
  obtain ⟨log, s, hrun, -⟩ := exists_small
  obtain ⟨k, hk⟩ := poolRun_returns hrun one_pos one_pos
  exact ⟨log, s, hrun, k, fun as t has ht => (hk as t has ht).1⟩

/-- The end of `tpool_destroy`. All work that was taken has run, and all that was added if the
call waits for the queue. The call returns just if one node is left at most, and that one stays in
memory. -/
theorem poolRun_destroy (h : PoolRun cfg log s) (hs : s.misuse = none) {c : ι} {finish : ℤ}
    (hc : s.clients c = .joining finish cfg.numWorkerThreads) {a : ℕ} (ha : a ∉ s.tpool.nodes) :
    s.ran.Perm s.taken ∧ (finish = 1 → s.ran.Perm s.added) ∧
      ∃ u, step s (.client c a) = some u ∧
        (s.added.length < s.taken.length + 2 → u.misuse = none ∧ u.freed = true ∧
          u.clients c = .idle ∧ u.tpool.nodes.keys.length = s.added.length - s.taken.length) ∧
        (s.taken.length + 2 ≤ s.added.length → u.misuse = some .freeQueue) := by
  obtain ⟨pool, es, held, hinv, -⟩ := inv_of_poolRun h
  obtain ⟨hmem, hcontrol, -⟩ := hinv
  have hexited : ∀ w, s.workers w = .exited := fun w => (hcontrol.joined c finish _ hc).2 w w.2
  have hnone : s.inProgress = [] := by
    rw [inProgress, List.filterMap_eq_nil_iff]
    intro w _
    rw [hexited w]
    rfl
  have htaken := hmem.taken
  rw [← hmem.inProgress, hnone, List.append_nil] at htaken
  have hlen := hmem.length_added
  have hstage : s.stages c = 4 := by rw [stages, hc, Client.stage]
  refine ⟨htaken.symm, fun h1 => ?_, ?_⟩
  · rw [hmem.added, hcontrol.finish c (by rw [hc, h1]; rfl), List.append_nil]
    exact htaken.symm
  · have hf : s.freed = false := hcontrol.closing.not_freed (by omega : 0 < s.stages c)
    have hu : step s (.client c a) = some (s.freePool c) := by
      rw [step, hs, if_neg (by simp), act, if_neg ha, Pool.clientStep, hc]
      dsimp only
      rw [dif_neg (lt_irrefl _), Pool.onPool, hf, if_neg Bool.false_ne_true]
    have hnodes := hmem.length_nodes
    have hran := htaken.length_eq
    refine ⟨_, hu, fun hlt => ?_, fun hle => ?_⟩
    · rw [hmem.freePool_eq, if_pos (by omega)]
      refine ⟨hs, rfl, by simp [setClient], ?_⟩
      show s.tpool.nodes.keys.length = _
      omega
    · rw [hmem.freePool_eq, if_neg (by omega)]

/-- The second piece of work stays in memory. -/
theorem poolRun_destroy_small : ∃ log, ∃ s : Pool 1 (Fin 2) ℕ, PoolRun smallPool log s ∧
    s.ran.Perm s.taken ∧ ∃ u, step s (.client 1 102) = some u ∧
      (s.added.length < s.taken.length + 2 → u.misuse = none ∧ u.freed = true) := by
  obtain ⟨log, s, hrun, hs, hc, ha⟩ := exists_small
  obtain ⟨hran, -, u, hu, hfree, -⟩ := poolRun_destroy hrun hs hc ha
  exact ⟨log, s, hrun, hran, u, hu, fun hlt => ⟨(hfree hlt).1, (hfree hlt).2.1⟩⟩

end Runs

end Pool

end Linked

end Hermes
