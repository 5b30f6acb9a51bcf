import Hermes.CLib.Outcome

/-!
# The thread pool

`tpool.c`, with one definition for each critical section of its queue lock. A critical section
is a function of the pool, and what it decides is returned : whether the calling thread goes on,
has to wait for a condition, or is told to stop, and whom it signals.

The routines that are queued are a parameter. The list is the queue from its head on, and its
length is `cur_queue_size`.
-/

open CLib

namespace Hermes

/-- `tpool_t`, without its threads. -/
structure Tpool (α : Type) where
  maxQueueSize : ℕ
  doNotBlockWhenFull : Bool
  queue : List α
  queueClosed : Bool
  shutdown : Bool

section Tpool

variable {α : Type}

/-- `tpool_init`. -/
def tpoolInit (maxQueueSize : ℕ) (doNotBlockWhenFull : Bool) : Tpool α where
  maxQueueSize := maxQueueSize
  doNotBlockWhenFull := doNotBlockWhenFull
  queue := []
  queueClosed := false
  shutdown := false

/-! ## Adding work -/

/-- How `tpool_add_work` leaves its critical section. -/
inductive AddTurn (α : Type)
  /-- It returns `-1`. -/
  | refused
  /-- It waits for `queue_not_full`. -/
  | waits
  /-- It returns `1`, and signals `queue_not_empty` if `wake`. -/
  | added (pool : Tpool α) (wake : Bool)

/-- `tpool_add_work`. -/
def tpoolAddWork (pool : Tpool α) (work : α) : AddTurn α :=
  if pool.queue.length = pool.maxQueueSize ∧ pool.doNotBlockWhenFull then .refused
  else if pool.queue.length = pool.maxQueueSize ∧ ¬(pool.shutdown ∨ pool.queueClosed) then .waits
  else if pool.shutdown ∨ pool.queueClosed then .refused
  else .added { pool with queue := pool.queue ++ [work] } pool.queue.isEmpty

/-- The pool takes work : it is open and its queue has room. -/
def Tpool.TakesWork (pool : Tpool α) : Prop :=
  pool.queue.length ≠ pool.maxQueueSize ∧ pool.queueClosed = false ∧ pool.shutdown = false

theorem tpoolAddWork_of_takesWork {pool : Tpool α} (h : pool.TakesWork) (work : α) :
    tpoolAddWork pool work =
      .added { pool with queue := pool.queue ++ [work] } pool.queue.isEmpty := by
  obtain ⟨hlen, hclosed, hshut⟩ := h
  simp [tpoolAddWork, hlen, hclosed, hshut]

/-- A pool that does not block refuses what it cannot take. -/
theorem tpoolAddWork_of_not_takesWork {pool : Tpool α} (hb : pool.doNotBlockWhenFull = true)
    (h : ¬pool.TakesWork) (work : α) : tpoolAddWork pool work = .refused := by
  unfold tpoolAddWork
  by_cases hfull : pool.queue.length = pool.maxQueueSize
  · rw [if_pos ⟨hfull, hb⟩]
  · have hclosed : pool.shutdown ∨ pool.queueClosed := by
      by_contra hopen
      simp only [not_or, Bool.not_eq_true] at hopen
      exact h ⟨hfull, hopen.2, hopen.1⟩
    rw [if_neg fun hc => hfull hc.1, if_neg fun hc => hfull hc.1, if_pos hclosed]

/-! ## Taking work -/

/-- How a turn of `tpool_thread` leaves its critical section. -/
inductive ThreadTurn (α : Type)
  /-- It waits for `queue_not_empty`. -/
  | waits
  /-- It ends the thread. -/
  | exits
  /-- It runs `work`, and signals `queue_empty` if `drained`. -/
  | takes (work : α) (pool : Tpool α) (drained : Bool)

/-- A turn of `tpool_thread`. The signal to those who wait for room is left out : only a pool
that blocks has any. -/
def tpoolThread (pool : Tpool α) : ThreadTurn α :=
  match pool.queue with
  | [] => if pool.shutdown then .exits else .waits
  | work :: queue =>
    if pool.shutdown then .exits else .takes work { pool with queue } queue.isEmpty

/-! ## Destroying the pool -/

/-- How `tpool_destroy` leaves its critical section. -/
inductive DestroyTurn (α : Type)
  /-- Someone else destroys the pool. -/
  | already
  /-- It waits for `queue_empty`. -/
  | waits (pool : Tpool α)
  /-- It goes on with the shutdown flag set. -/
  | shutsDown (pool : Tpool α)

/-- The critical section of `tpool_destroy` from its loop on, also after a wait. -/
def tpoolDestroyDrain (pool : Tpool α) (finish : ℤ) : DestroyTurn α :=
  if finish = 1 ∧ pool.queue ≠ [] then .waits pool
  else .shutsDown { pool with shutdown := true }

/-- The critical section of `tpool_destroy`. -/
def tpoolDestroyLock (pool : Tpool α) (finish : ℤ) : DestroyTurn α :=
  if pool.queueClosed ∨ pool.shutdown then .already
  else tpoolDestroyDrain { pool with queueClosed := true } finish

/-- The loop of `tpool_destroy` that frees the queue. It frees the node after the head, goes
on to that node and reads it. -/
def tpoolFreeQueue : List α → Run Unit
  | [] => .ok ()
  | [_] => .ok ()
  | _ :: _ :: _ => .error .undefined

end Tpool

end Hermes
