import Hermes.CLib.Ranked
import Hermes.TpoolThreads
import Mathlib.Data.List.FinRange

/-!
# What the threads of a pool do

`Pool.Mem` relates a state to the list that its queue stands for and to the nodes that the workers
hold : every node in memory is in the queue or held by one worker, the queue is what was added and
not taken, and what was taken has run or is held. `Move` says once what an action does to a state
with this invariant, in terms of the list. An action keeps the invariant and is a `Move`
(`Pool.Mem.act`), so no critical section and no worker uses a node that is not there.
-/

open CLib

namespace Hermes

namespace Linked

variable {α ι : Type} {n : ℕ}

/-- What a client is after a worker has taken work. -/
def Client.afterTake (room drained : Bool) (c : Client α) : Client α :=
  if drained then (if room then c.roomMade else c).queueEmptied
  else if room then c.roomMade else c

theorem afterTake_waits (room drained : Bool) (c : Client α) (work : α)
    (h : c.afterTake room drained = .waiting work ∨ c.afterTake room drained = .retrying work) :
    c = .waiting work ∨ c = .retrying work := by
  cases room <;> cases drained <;> cases c <;>
    simp_all [Client.afterTake, Client.roomMade, Client.queueEmptied]

/-- The node that a worker has, with its work. -/
def PoolWorker.Carries : PoolWorker α → Option (ℕ × α) → Prop
  | .holding myWorkp, o => ∃ e, myWorkp = some e.1 ∧ o = some e
  | .running myWorkp work, o => ∃ p, myWorkp = some p ∧ o = some (p, work)
  | _, o => o = none

/-- The nodes that workers have. -/
def carried (held : Fin n → Option (ℕ × α)) : List (ℕ × α) :=
  (List.finRange n).filterMap held

section Carried

variable {held : Fin n → Option (ℕ × α)} {w : Fin n} {e : ℕ × α}

theorem mem_carried (h : held w = some e) : e ∈ carried held :=
  List.mem_filterMap.2 ⟨w, List.mem_finRange w, h⟩

theorem carried_take (h : held w = none) (e : ℕ × α) :
    (carried (Function.update held w (some e))).Perm (e :: carried held) :=
  filterMap_update_perm (List.nodup_finRange n) (List.mem_finRange w) h e

theorem carried_leave (h : held w = some e) :
    (carried held).Perm (e :: carried (Function.update held w none)) :=
  filterMap_perm_update (List.nodup_finRange n) (List.mem_finRange w) h

end Carried

namespace Pool

/-- The queue stands for `pool`, with the nodes `es`, and the workers have the nodes `held`. -/
structure Mem (s : Pool n ι α) (pool : Hermes.Tpool α) (es : List (ℕ × α))
    (held : Fin n → Option (ℕ × α)) : Prop where
  models : s.tpool.Models pool es
  carries : ∀ w, (s.workers w).Carries (held w)
  lookup : ∀ w e, held w = some e → ∃ r, s.tpool.nodes.lookup e.1 = some ⟨e.2, r⟩
  keys : s.tpool.nodes.keys.Perm ((es ++ carried held).map Prod.fst)
  added : s.added = s.taken ++ pool.queue
  taken : s.taken.Perm (s.ran ++ (carried held).map Prod.snd)
  /-- A client waits for room only in a pool that blocks. -/
  blocks : ∀ c work, s.clients c = .waiting work ∨ s.clients c = .retrying work →
    pool.doNotBlockWhenFull = false

/-- The pool takes work. -/
def Open (pool : Hermes.Tpool α) : Prop :=
  pool.queueClosed = false ∧ pool.shutdown = false

/-! ## What keeps the invariant -/

namespace Mem

variable {s : Pool n ι α} {pool : Hermes.Tpool α} {es : List (ℕ × α)}
  {held : Fin n → Option (ℕ × α)}

theorem setWorker (h : s.Mem pool es held) (w : Fin n) {t : PoolWorker α}
    (ht : t.Carries (held w)) : (s.setWorker w t).Mem pool es held := by
  refine { h with carries := fun v => ?_ }
  by_cases hv : v = w
  · subst hv
    simpa [Pool.setWorker] using ht
  · simpa [Pool.setWorker, Function.update_of_ne hv] using h.carries v

/-- Clients that are signalled. -/
theorem signal (h : s.Mem pool es held) (f : Client α → Client α)
    (hf : ∀ c work, f c = .waiting work ∨ f c = .retrying work →
      c = .waiting work ∨ c = .retrying work) :
    Mem { s with clients := fun c => f (s.clients c) } pool es held :=
  { h with blocks := fun c work hc => h.blocks c work (hf _ _ hc) }

/-- Workers that are signalled. -/
theorem wake (h : s.Mem pool es held) :
    Mem { s with workers := fun w => (s.workers w).woken } pool es held := by
  refine { h with carries := fun w => ?_ }
  have hw := h.carries w
  dsimp only
  cases hworker : s.workers w <;> rw [hworker] at hw <;> exact hw

/-- Nothing is in two places. -/
theorem nodup (h : s.Mem pool es held) : ((es ++ carried held).map Prod.fst).Nodup :=
  h.keys.nodup_iff.1 s.tpool.nodes.keys_nodup

/-- A node that a worker has is not in the queue. -/
theorem notMem_queue (h : s.Mem pool es held) {w : Fin n} {e : ℕ × α} (he : held w = some e) :
    e.1 ∉ es.map Prod.fst := by
  have hnodup := h.nodup
  rw [List.map_append, List.nodup_append] at hnodup
  exact fun hmem => hnodup.2.2 e.1 hmem e.1 (List.mem_map_of_mem (mem_carried he)) rfl

/-- Two workers do not have the same node. -/
theorem held_ne (h : s.Mem pool es held) {v w : Fin n} (hvw : v ≠ w) {d e : ℕ × α}
    (hd : held v = some d) (he : held w = some e) : d.1 ≠ e.1 := by
  have hnodup := h.nodup
  have hsplit := (carried_leave he).map Prod.fst
  rw [List.map_append, List.nodup_append, hsplit.nodup_iff, List.map_cons,
    List.nodup_cons] at hnodup
  have hd' : Function.update held w none v = some d := by rwa [Function.update_of_ne hvw]
  exact fun hde => hnodup.2.1.1 (hde ▸ List.mem_map_of_mem (mem_carried hd'))

/-- The free address of a new node is nobody's. -/
theorem held_ne_of_fresh (h : s.Mem pool es held) {a : ℕ} (ha : a ∉ s.tpool.nodes) {w : Fin n}
    {e : ℕ × α} (he : held w = some e) : e.1 ≠ a := by
  rintro rfl
  obtain ⟨r, hr⟩ := h.lookup w e he
  refine ha ?_
  rw [← AList.lookup_isSome, hr]
  rfl

/-- The first node of the queue goes to a worker. -/
theorem take (h : s.Mem pool es held) {w : Fin n} (hw : s.workers w = .locking) {e : ℕ × α}
    {es' : List (ℕ × α)} (hes : es = e :: es') {tpool : Tpool α} {pool' : Hermes.Tpool α}
    (hmodels : tpool.Models pool' es') (hnodes : tpool.nodes = s.tpool.nodes)
    (hsame : pool'.doNotBlockWhenFull = pool.doNotBlockWhenFull) :
    Mem { s with
      tpool
      taken := s.taken ++ [e.2]
      workers := Function.update s.workers w (.holding (some e.1)) } pool' es'
      (Function.update held w (some e)) := by
  subst hes
  have hnone : held w = none := by
    have hcarries := h.carries w
    rwa [hw] at hcarries
  have hcarried := carried_take hnone e
  refine
    { models := hmodels
      carries := fun v => ?_
      lookup := fun v d hd => ?_
      keys := ?_
      added := ?_
      taken := ?_
      blocks := fun c work hc => hsame ▸ h.blocks c work hc }
  · by_cases hv : v = w
    · subst hv
      simp [PoolWorker.Carries]
    · simpa [Function.update_of_ne hv] using h.carries v
  · rw [hnodes]
    by_cases hv : v = w
    · subst hv
      rw [Function.update_self] at hd
      cases hd
      exact h.models.lookup List.mem_cons_self
    · rw [Function.update_of_ne hv] at hd
      exact h.lookup v d hd
  · rw [hnodes]
    refine h.keys.trans (List.Perm.map Prod.fst ?_)
    exact (List.perm_middle.symm.trans (hcarried.symm.append_left es'))
  · rw [h.added, h.models.queue, hmodels.queue, List.map_cons, List.append_assoc]
    rfl
  · refine (h.taken.append_right [e.2]).trans ?_
    rw [List.append_assoc]
    refine List.Perm.append_left s.ran ?_
    exact (List.perm_append_singleton _ _).trans (hcarried.symm.map Prod.snd)

/-- A worker frees its node. -/
theorem done (h : s.Mem pool es held) {w : Fin n} {a : ℕ} {work : α}
    (hheld : held w = some (a, work)) :
    Mem { s with
      tpool := { s.tpool with nodes := s.tpool.nodes.erase a }
      ran := s.ran ++ [work]
      workers := Function.update s.workers w .locking } pool es
      (Function.update held w none) := by
  have hcarried := carried_leave hheld
  have hother : ∀ b ≠ a, (s.tpool.nodes.erase a).lookup b = s.tpool.nodes.lookup b := fun b hb =>
    AList.lookup_erase_ne hb
  have hmem : a ∈ s.tpool.nodes := by
    obtain ⟨r, hr⟩ := h.lookup w _ hheld
    rw [← AList.lookup_isSome, hr]
    rfl
  refine
    { models := h.models.withNodes fun e he => hother e.1 ?_
      carries := fun v => ?_
      lookup := fun v d hd => ?_
      keys := ?_
      added := h.added
      taken := ?_
      blocks := h.blocks }
  · exact fun hea => h.notMem_queue hheld (List.mem_map.2 ⟨e, he, hea⟩)
  · by_cases hv : v = w
    · subst hv
      simp [PoolWorker.Carries]
    · simpa [Function.update_of_ne hv] using h.carries v
  · by_cases hv : v = w
    · subst hv
      simp at hd
    · rw [Function.update_of_ne hv] at hd
      obtain ⟨r, hr⟩ := h.lookup v d hd
      exact ⟨r, (hother d.1 (h.held_ne hv hd hheld)).trans hr⟩
  · refine (List.perm_cons a).1 ((Heap.perm_keys_erase hmem).symm.trans (h.keys.trans ?_))
    refine (hcarried.append_left es).trans List.perm_middle |>.map Prod.fst
  · refine h.taken.trans ?_
    rw [List.append_assoc]
    exact (hcarried.map Prod.snd).append_left s.ran

/-- A new node comes behind the queue. -/
theorem add (h : s.Mem pool es held) {a : ℕ} (ha : a ∉ s.tpool.nodes) {work : α} {tpool : Tpool α}
    {pool' : Hermes.Tpool α} (hmodels : tpool.Models pool' (es ++ [(a, work)]))
    (hkeys : tpool.nodes.keys.Perm (a :: s.tpool.nodes.keys))
    (hother : ∀ b, b ≠ a → b ∉ es.map Prod.fst → tpool.nodes.lookup b = s.tpool.nodes.lookup b)
    (hsame : pool'.doNotBlockWhenFull = pool.doNotBlockWhenFull) :
    Mem { s with tpool, added := s.added ++ [work] } pool' (es ++ [(a, work)]) held := by
  refine
    { models := hmodels
      carries := h.carries
      lookup := fun w e he => ?_
      keys := ?_
      added := ?_
      taken := h.taken
      blocks := fun c work hc => hsame ▸ h.blocks c work hc }
  · obtain ⟨r, hr⟩ := h.lookup w e he
    exact ⟨r, (hother e.1 (h.held_ne_of_fresh ha he) (h.notMem_queue he)).trans hr⟩
  · refine hkeys.trans ((h.keys.cons a).trans ?_)
    rw [← List.map_cons (f := Prod.fst) (a := (a, work))]
    refine List.Perm.map Prod.fst ?_
    rw [List.append_assoc]
    exact List.perm_middle.symm
  · rw [h.added, h.models.queue, hmodels.queue, List.map_append, List.append_assoc]
    rfl

variable [DecidableEq ι]

theorem setClient (h : s.Mem pool es held) (c : ι) {t : Client α}
    (ht : ∀ work, t = .waiting work ∨ t = .retrying work → pool.doNotBlockWhenFull = false) :
    (s.setClient c t).Mem pool es held := by
  refine { h with blocks := fun d work hd => ?_ }
  by_cases hdc : d = c
  · subst hdc
    exact ht work (by simpa [Pool.setClient] using hd)
  · exact h.blocks d work (by simpa [Pool.setClient, Function.update_of_ne hdc] using hd)

/-- A client goes on at a place where it does not wait for room. -/
theorem leave (h : s.Mem pool es held) (c : ι) {t : Client α} (ht : ∀ work, t ≠ .waiting work)
    (ht' : ∀ work, t ≠ .retrying work) : (s.setClient c t).Mem pool es held :=
  h.setClient c fun work hw => absurd hw (not_or.2 ⟨ht work, ht' work⟩)

end Mem

/-! ## Moves -/

variable [DecidableEq ι]

/-- What an action does where the queue stands for `pool`. -/
inductive Move (s : Pool n ι α) (pool : Hermes.Tpool α) :
    Action n ι α → Pool n ι α → Hermes.Tpool α → Prop
  | addWork {c work} (hc : s.clients c = .idle) :
      Move s pool (.addWork c work) (s.setClient c (.adding work)) pool
  | destroy {c finish} (hc : s.clients c = .idle) :
      Move s pool (.destroy c finish) (s.setClient c (.destroying finish)) pool
  | wakeWorker {w} (hw : s.workers w = .waiting) :
      Move s pool (.wakeWorker w) (s.setWorker w .locking) pool
  | wakeAdder {c work} (hc : s.clients c = .waiting work) :
      Move s pool (.wakeClient c) (s.setClient c (.retrying work)) pool
  | wakeDestroyer {c finish} (hc : s.clients c = .draining finish) :
      Move s pool (.wakeClient c) (s.setClient c (.drained finish)) pool
  | late {a} (ha : a.OfThread) (hf : s.freed = true) :
      Move s pool a { s with misuse := some .pool } pool
  | wait {w} (hw : s.workers w = .locking) (hq : pool.queue = []) (hs : pool.shutdown = false) :
      Move s pool (.worker w) (s.setWorker w .waiting) pool
  | exit {w} (hw : s.workers w = .locking) (hs : pool.shutdown = true) :
      Move s pool (.worker w) (s.setWorker w .exited) pool
  | take {w work queue tpool myWorkp room} (hw : s.workers w = .locking)
      (hq : pool.queue = work :: queue) (hs : pool.shutdown = false)
      (hroom : room = decide (pool.doNotBlockWhenFull = false ∧
        pool.queue.length = pool.maxQueueSize)) :
      Move s pool (.worker w)
        { s with
          tpool
          taken := s.taken ++ [work]
          workers := Function.update s.workers w (.holding myWorkp)
          clients := fun c => (s.clients c).afterTake room queue.isEmpty }
        { pool with queue }
  | call {w myWorkp work} (hw : s.workers w = .holding myWorkp) :
      Move s pool (.worker w) (s.setWorker w (.running myWorkp work)) pool
  | done {w myWorkp work tpool} (hw : s.workers w = .running myWorkp work) :
      Move s pool (.worker w)
        ({ s with tpool, ran := s.ran ++ [work] }.setWorker w .locking) pool
  | refuse {c work a} (hc : s.clients c = .adding work ∨ s.clients c = .retrying work)
      (hs : ¬Open pool ∨ pool.doNotBlockWhenFull = true ∧ pool.queue.length = pool.maxQueueSize) :
      Move s pool (.client c a) (s.setClient c .idle) pool
  | waitRoom {c work a} (hc : s.clients c = .adding work ∨ s.clients c = .retrying work)
      (hs : Open pool) (hb : pool.doNotBlockWhenFull = false)
      (hfull : pool.queue.length = pool.maxQueueSize) :
      Move s pool (.client c a) (s.setClient c (.waiting work)) pool
  | add {c work a tpool} (hc : s.clients c = .adding work ∨ s.clients c = .retrying work)
      (hs : Open pool) (hroom : pool.queue.length ≠ pool.maxQueueSize) :
      Move s pool (.client c a)
        ({ s with
          tpool
          added := s.added ++ [work]
          workers := fun w => if pool.queue.isEmpty then (s.workers w).woken else s.workers w
        }.setClient c .idle)
        { pool with queue := pool.queue ++ [work] }
  | already {c finish a} (hc : s.clients c = .destroying finish) (hs : ¬Open pool) :
      Move s pool (.client c a) (s.setClient c .idle) pool
  | drain {c finish a tpool closed} (hf : s.freed = false)
      (hc : s.clients c = .destroying finish ∧ Open pool ∧ closed = true ∨
        s.clients c = .drained finish ∧ closed = pool.queueClosed)
      (hq : pool.queue ≠ []) :
      Move s pool (.client c a) ({ s with tpool }.setClient c (.draining finish))
        { pool with queueClosed := closed }
  | stop {c finish a tpool closed} (hf : s.freed = false)
      (hc : s.clients c = .destroying finish ∧ Open pool ∧ closed = true ∨
        s.clients c = .drained finish ∧ closed = pool.queueClosed)
      (hq : finish = 1 → pool.queue = []) :
      Move s pool (.client c a) ({ s with tpool }.setClient c (.wakingWorkers finish))
        { pool with queueClosed := closed, shutdown := true }
  | wakeWorkers {c finish a} (hc : s.clients c = .wakingWorkers finish) :
      Move s pool (.client c a)
        ({ s with workers := fun w => (s.workers w).woken }.setClient c (.wakingAdders finish)) pool
  | wakeAdders {c finish a} (hc : s.clients c = .wakingAdders finish) :
      Move s pool (.client c a)
        ({ s with clients := fun d => (s.clients d).roomMade }.setClient c (.joining finish 0)) pool
  | join {c finish i a} (hi : i < n) (hc : s.clients c = .joining finish i)
      (hw : s.workers ⟨i, hi⟩ = .exited) :
      Move s pool (.client c a) (s.setClient c (.joining finish (i + 1))) pool
  | free {c finish i a} (hi : n ≤ i) (hc : s.clients c = .joining finish i)
      (hq : pool.queue.length < 2) :
      Move s pool (.client c a) ({ s with freed := true }.setClient c .idle) pool
  | lose {c finish i a} (hi : n ≤ i) (hc : s.clients c = .joining finish i)
      (hq : 2 ≤ pool.queue.length) :
      Move s pool (.client c a) { s with misuse := some .freeQueue } pool

/-! ### Critical sections of the list -/

theorem thread_cases (pool : Hermes.Tpool α) :
    (Hermes.tpoolThread pool = .waits ∧ pool.queue = [] ∧ pool.shutdown = false) ∨
    (Hermes.tpoolThread pool = .exits ∧ pool.shutdown = true) ∨
    ∃ work queue, Hermes.tpoolThread pool = .takes work { pool with queue } queue.isEmpty ∧
      pool.queue = work :: queue ∧ pool.shutdown = false := by
  rw [Hermes.tpoolThread]
  cases hs : pool.shutdown with
  | true => cases hq : pool.queue <;> simp
  | false => cases hq : pool.queue <;> simp

theorem addWork_cases (pool : Hermes.Tpool α) (work : α) :
    (Hermes.tpoolAddWork pool work = .refused ∧
      (¬Open pool ∨ pool.doNotBlockWhenFull = true ∧ pool.queue.length = pool.maxQueueSize)) ∨
    (Hermes.tpoolAddWork pool work = .waits ∧ Open pool ∧ pool.doNotBlockWhenFull = false ∧
      pool.queue.length = pool.maxQueueSize) ∨
    (Hermes.tpoolAddWork pool work =
        .added { pool with queue := pool.queue ++ [work] } pool.queue.isEmpty ∧
      Open pool ∧ pool.queue.length ≠ pool.maxQueueSize) := by
  unfold Hermes.tpoolAddWork Open
  cases pool.doNotBlockWhenFull <;> cases pool.shutdown <;> cases pool.queueClosed <;>
    by_cases hfull : pool.queue.length = pool.maxQueueSize <;> simp [hfull]

theorem destroyDrain_cases (pool : Hermes.Tpool α) (finish : ℤ) :
    (Hermes.tpoolDestroyDrain pool finish = .waits pool ∧ pool.queue ≠ []) ∨
    (Hermes.tpoolDestroyDrain pool finish = .shutsDown { pool with shutdown := true } ∧
      (finish = 1 → pool.queue = [])) := by
  rw [Hermes.tpoolDestroyDrain]
  by_cases hwait : finish = 1 ∧ pool.queue ≠ []
  · exact .inl ⟨if_pos hwait, hwait.2⟩
  · exact .inr ⟨if_neg hwait, fun h1 => not_not.1 fun hq => hwait ⟨h1, hq⟩⟩

namespace Mem

variable {s u : Pool n ι α} {pool : Hermes.Tpool α} {es : List (ℕ × α)}
  {held : Fin n → Option (ℕ × α)}

/-- After a move the invariant holds again. -/
def Moves (s : Pool n ι α) (pool : Hermes.Tpool α) (a : Action n ι α) (u : Pool n ι α) : Prop :=
  ∃ pool' es' held', Move s pool a u pool' ∧ u.Mem pool' es' held'

/-- A use of the pool. -/
theorem onPool (h : s.Mem pool es held) {a : Action n ι α} (ha : a.OfThread)
    (hu : s.freed = false → Moves s pool a u) : Moves s pool a (s.onPool u) := by
  rw [Pool.onPool]
  by_cases hf : s.freed = true
  · rw [if_pos hf]
    exact ⟨pool, es, held, .late ha hf, { h with }⟩
  · rw [if_neg hf]
    exact hu (Bool.not_eq_true _ ▸ hf)

/-- A turn of `tpool_thread`. -/
theorem takeWork (h : s.Mem pool es held) {w : Fin n} (hw : s.workers w = .locking) :
    Moves s pool (.worker w) (s.takeWork w) := by
  have hnone : held w = none := by
    have hcarries := h.carries w
    rwa [hw] at hcarries
  obtain ⟨t, ht, hmodels⟩ := h.models.thread
  rcases thread_cases pool with ⟨hturn, hq, hs⟩ | ⟨hturn, hs⟩ | ⟨work, queue, hturn, hq, hs⟩
  · rw [hturn] at hmodels
    cases hmodels
    rw [Pool.takeWork, ht]
    exact ⟨pool, es, held, .wait hw hq hs, h.setWorker w hnone⟩
  · rw [hturn] at hmodels
    cases hmodels
    rw [Pool.takeWork, ht]
    exact ⟨pool, es, held, .exit hw hs, h.setWorker w hnone⟩
  · rw [hturn] at hmodels
    cases hmodels with
    | @takes e es' tpool _ room _ hes hpool hnodes hroom hdrained =>
    have hwork : workAt s.tpool.nodes (some e.1) = [e.2] := by
      obtain ⟨r, hr⟩ := h.models.lookup (hes ▸ List.mem_cons_self : e ∈ es)
      simp [workAt, hr]
    have hstate : s.takeWork w =
        { s with
          tpool
          taken := s.taken ++ [e.2]
          workers := Function.update s.workers w (.holding (some e.1))
          clients := fun c => (s.clients c).afterTake room queue.isEmpty } := by
      rw [Pool.takeWork, ht]
      dsimp only
      rw [hwork]
      cases room <;> cases queue.isEmpty <;> rfl
    have htaken := (h.take hw hes hpool hnodes rfl).signal
      (Client.afterTake room queue.isEmpty) (afterTake_waits room queue.isEmpty)
    rw [h.models.doNotBlockWhenFull, h.models.maxQueueSize, ← h.models.length_queue] at hroom
    rw [hstate]
    exact ⟨_, es', _, .take hw hq hs hroom, htaken⟩

/-- A worker with a node calls its routine, or frees it. -/
theorem workerStep (h : s.Mem pool es held) {w : Fin n} (hu : s.workerStep w = some u) :
    Moves s pool (.worker w) u := by
  have hcarries := h.carries w
  rw [Pool.workerStep] at hu
  cases hw : s.workers w with
  | locking =>
    rw [hw] at hu
    cases hu
    exact h.onPool trivial fun _ => h.takeWork hw
  | waiting | exited =>
    rw [hw] at hu
    cases hu
  | holding myWorkp =>
    rw [hw] at hu hcarries
    obtain ⟨e, rfl, hheld⟩ := hcarries
    obtain ⟨r, hr⟩ := h.lookup w e hheld
    have hread : s.tpool.nodes.read (some e.1) = .ok ⟨e.2, r⟩ := Heap.read_some hr
    simp only [hread, Option.some.injEq] at hu
    subst hu
    exact ⟨pool, es, held, .call hw, h.setWorker w ⟨e.1, rfl, hheld⟩⟩
  | running myWorkp work =>
    rw [hw] at hu hcarries
    obtain ⟨a, rfl, hheld⟩ := hcarries
    obtain ⟨r, hr⟩ := h.lookup w _ hheld
    have hmem : a ∈ s.tpool.nodes := by
      rw [← AList.lookup_isSome, hr]
      rfl
    have hfree : s.tpool.nodes.free (some a) = .ok (s.tpool.nodes.erase a) := Heap.free_some hmem
    simp only [hfree, Option.some.injEq] at hu
    subst hu
    exact ⟨pool, es, _, .done hw, h.done hheld⟩

/-- The end of `tpool_add_work`. -/
theorem addTurn (h : s.Mem pool es held) {c : ι} {work : α} {a : ℕ} (ha : a ∉ s.tpool.nodes)
    (hc : s.clients c = .adding work ∨ s.clients c = .retrying work) {t : AddTurn α}
    (ht : AddTurn.Models s.tpool es a work t (Hermes.tpoolAddWork pool work)) :
    Moves s pool (.client c a) (s.addTurn c work (.ok t)) := by
  rcases addWork_cases pool work with ⟨hturn, hs⟩ | ⟨hturn, hs, hb, hfull⟩ | ⟨hturn, hs, hroom⟩
  · rw [hturn] at ht
    cases ht
    exact ⟨pool, es, held, .refuse hc hs, h.leave c (by simp) (by simp)⟩
  · rw [hturn] at ht
    cases ht
    exact ⟨pool, es, held, .waitRoom hc hs hb hfull, h.setClient c fun _ _ => hb⟩
  · rw [hturn] at ht
    cases ht with
    | @added tpool _ _ hpool hkeys hother =>
    have hmem := (h.add ha hpool hkeys hother rfl).leave c (t := .idle) (by simp) (by simp)
    have hmove := @Move.add _ _ _ _ s pool c work a tpool hc hs hroom
    rw [Pool.addTurn]
    cases hempty : pool.queue.isEmpty with
    | true =>
      simp only [hempty, if_true] at hmove
      exact ⟨_, _, _, hmove, hmem.wake⟩
    | false =>
      simp only [hempty, Bool.false_eq_true, if_false] at hmove
      exact ⟨_, _, _, hmove, hmem⟩

/-- The end of the critical section of `tpool_destroy`. -/
theorem drainTurn (h : s.Mem pool es held) (hf : s.freed = false) {c : ι} {finish : ℤ} {a : ℕ}
    {tpool : Tpool α} {closed : Bool}
    (hc : s.clients c = .destroying finish ∧ Open pool ∧ closed = true ∨
      s.clients c = .drained finish ∧ closed = pool.queueClosed)
    (hmodels : tpool.Models { pool with queueClosed := closed } es)
    (hnodes : tpool.nodes = s.tpool.nodes) :
    Moves s pool (.client c a) (s.destroyTurn c finish (tpoolDestroyDrain tpool finish)) := by
  have hmem : ∀ {tpool' : Tpool α} {pool' : Hermes.Tpool α}, tpool'.Models pool' es →
      tpool'.nodes = s.tpool.nodes → pool'.doNotBlockWhenFull = pool.doNotBlockWhenFull →
      Mem { s with tpool := tpool' } pool' es held := by
    intro tpool' pool' hmodels' hnodes' hsame
    exact
      { models := hmodels'
        carries := h.carries
        lookup := fun w e he => hnodes' ▸ h.lookup w e he
        keys := hnodes' ▸ h.keys
        added := by rw [hmodels'.queue, ← h.models.queue]; exact h.added
        taken := h.taken
        blocks := fun d work hd => hsame ▸ h.blocks d work hd }
  have ht := hmodels.destroyDrain finish
  rcases destroyDrain_cases { pool with queueClosed := closed } finish with
    ⟨hturn, hq⟩ | ⟨hturn, hq⟩
  · rw [hturn] at ht
    generalize tpoolDestroyDrain tpool finish = t at ht ⊢
    cases ht with
    | waits hpool hnodes' =>
    exact ⟨_, es, held, .drain hf hc hq,
      (hmem hpool (hnodes'.trans hnodes) rfl).leave c (by simp) (by simp)⟩
  · rw [hturn] at ht
    generalize tpoolDestroyDrain tpool finish = t at ht ⊢
    cases ht with
    | shutsDown hpool hnodes' =>
    exact ⟨_, es, held, .stop hf hc hq,
      (hmem hpool (hnodes'.trans hnodes) rfl).leave c (by simp) (by simp)⟩

theorem lockTurn (h : s.Mem pool es held) (hf : s.freed = false) {c : ι} {finish : ℤ} {a : ℕ}
    (hc : s.clients c = .destroying finish) :
    Moves s pool (.client c a) (s.destroyTurn c finish (tpoolDestroyLock s.tpool finish)) := by
  have hstop : s.tpool.queueClosed = true ∨ s.tpool.shutdown = true ↔ ¬Open pool := by
    rw [h.models.queueClosed, h.models.shutdown, Open]
    cases pool.queueClosed <;> cases pool.shutdown <;> simp
  rw [tpoolDestroyLock]
  by_cases hs : Open pool
  · rw [if_neg fun hd => hstop.1 hd hs]
    have hclosed : Tpool.Models { s.tpool with queueClosed := true }
        { pool with queueClosed := true } es := { h.models with queueClosed := rfl }
    exact h.drainTurn hf (.inl ⟨hc, hs, rfl⟩) hclosed rfl
  · rw [if_pos (hstop.2 hs)]
    exact ⟨pool, es, held, .already hc hs, h.leave c (by simp) (by simp)⟩

/-- What the end of `tpool_destroy` does. -/
theorem freePool_eq (h : s.Mem pool es held) (c : ι) : s.freePool c =
    if pool.queue.length < 2 then { s with freed := true }.setClient c .idle
    else { s with misuse := some .freeQueue } := by
  have hfuel : 2 ≤ s.tpool.nodes.keys.length + 2 := Nat.le_add_left _ _
  have hfree := h.models.freeQueue hfuel
  rw [Pool.freePool]
  generalize tpoolFreeQueue (s.tpool.nodes.keys.length + 2) s.tpool = t at hfree ⊢
  match hq : pool.queue with
  | [] | [_] =>
    rw [hq] at hfree
    cases hfree with
    | ok hnodes =>
    rw [if_pos (by simp)]
    dsimp only
    rw [hnodes]
  | _ :: _ :: _ =>
    rw [hq] at hfree
    cases hfree
    exact (if_neg (by simp)).symm

theorem freePool (h : s.Mem pool es held) {c : ι} {finish : ℤ} {i a : ℕ} (hi : n ≤ i)
    (hc : s.clients c = .joining finish i) : Moves s pool (.client c a) (s.freePool c) := by
  have hleave := h.leave c (t := .idle) (by simp) (by simp)
  rw [h.freePool_eq]
  split_ifs with hq
  · exact ⟨pool, es, held, .free hi hc hq, { hleave with }⟩
  · exact ⟨pool, es, held, .lose hi hc (Nat.le_of_not_lt hq), { h with }⟩

theorem clientStep (h : s.Mem pool es held) {c : ι} {a : ℕ} (ha : a ∉ s.tpool.nodes)
    (hu : s.clientStep c a = some u) : Moves s pool (.client c a) u := by
  rw [Pool.clientStep] at hu
  cases hc : s.clients c with
  | idle | waiting _ | draining _ =>
    rw [hc] at hu
    cases hu
  | adding work =>
    rw [hc] at hu
    cases hu
    obtain ⟨t, ht, hmodels⟩ := h.models.addWork ha work
    rw [ht]
    exact h.onPool trivial fun _ => h.addTurn ha (.inl hc) hmodels
  | retrying work =>
    rw [hc] at hu
    cases hu
    obtain ⟨t, ht, hmodels⟩ := h.models.addWorkLoop ha work fun _ => h.blocks c work (.inr hc)
    rw [ht]
    exact h.onPool trivial fun _ => h.addTurn ha (.inr hc) hmodels
  | destroying finish =>
    rw [hc] at hu
    cases hu
    exact h.onPool trivial fun hf => h.lockTurn hf hc
  | drained finish =>
    rw [hc] at hu
    cases hu
    exact h.onPool trivial fun hf => h.drainTurn hf (.inr ⟨hc, rfl⟩) h.models rfl
  | wakingWorkers finish =>
    rw [hc] at hu
    cases hu
    exact h.onPool trivial fun _ =>
      ⟨pool, es, held, .wakeWorkers hc, h.wake.leave c (by simp) (by simp)⟩
  | wakingAdders finish =>
    rw [hc] at hu
    cases hu
    have hsignal := h.signal Client.roomMade fun d work hd => by
      cases d <;> simp_all [Client.roomMade]
    exact h.onPool trivial fun _ =>
      ⟨pool, es, held, .wakeAdders hc, hsignal.leave c (by simp) (by simp)⟩
  | joining finish i =>
    rw [hc] at hu
    dsimp only at hu
    by_cases hi : i < n
    · rw [dif_pos hi] at hu
      cases hw : s.workers ⟨i, hi⟩ <;> rw [hw] at hu <;> cases hu
      exact ⟨pool, es, held, .join hi hc hw, h.leave c (by simp) (by simp)⟩
    · rw [dif_neg hi] at hu
      cases hu
      exact h.onPool trivial fun _ => h.freePool (Nat.le_of_not_lt hi) hc

/-- Every action is a move and keeps the invariant. -/
theorem act (h : s.Mem pool es held) {a : Action n ι α} (hu : s.act a = some u) :
    Moves s pool a u := by
  cases a with
  | addWork c work =>
    rw [Pool.act] at hu
    cases hc : s.clients c <;> rw [hc] at hu <;> cases hu
    exact ⟨pool, es, held, .addWork hc, h.leave c (by simp) (by simp)⟩
  | destroy c finish =>
    rw [Pool.act] at hu
    cases hc : s.clients c <;> rw [hc] at hu <;> cases hu
    exact ⟨pool, es, held, .destroy hc, h.leave c (by simp) (by simp)⟩
  | wakeWorker w =>
    rw [Pool.act] at hu
    have hcarries := h.carries w
    cases hw : s.workers w <;> rw [hw] at hu hcarries <;> cases hu
    exact ⟨pool, es, held, .wakeWorker hw, h.setWorker w hcarries⟩
  | wakeClient c =>
    rw [Pool.act] at hu
    cases hc : s.clients c with
    | waiting work =>
      rw [hc] at hu
      cases hu
      exact ⟨pool, es, held, .wakeAdder hc, h.setClient c fun _ _ => h.blocks c work (.inl hc)⟩
    | draining finish =>
      rw [hc] at hu
      cases hu
      exact ⟨pool, es, held, .wakeDestroyer hc, h.leave c (by simp) (by simp)⟩
    | _ =>
      rw [hc] at hu
      cases hu
  | worker w => exact h.workerStep hu
  | client c a =>
    rw [Pool.act] at hu
    by_cases ha : a ∈ s.tpool.nodes
    · rw [if_pos ha] at hu
      cases hu
    · rw [if_neg ha] at hu
      exact h.clientStep ha hu

end Mem

/-- The state in which `tpool_init` leaves a pool. -/
theorem mem_init (cfg : PoolConfig) (ι α : Type) : (cfg.init ι α).Mem
    (Hermes.tpoolInit cfg.maxQueueSize cfg.doNotBlockWhenFull) [] (fun _ => none) := by
  have hnone : carried (fun _ : Fin cfg.numWorkerThreads => (none : Option (ℕ × α))) = [] := by
    simp [carried]
  exact
    { models := models_tpoolInit _ _
      carries := fun _ => rfl
      lookup := fun w e he => by cases he
      keys := by rw [hnone]; exact List.Perm.refl _
      added := rfl
      taken := by rw [hnone]; exact List.Perm.refl _
      blocks := fun c work hc => by rcases hc with hc | hc <;> cases hc }

end Pool

end Linked

end Hermes
