import Hermes.CLib.Traces
import Hermes.TpoolNodes
import Mathlib.Logic.Function.Basic

/-!
# The threads of a pool

`tpool.c` as a state machine, for any use of it : `n` workers run `tpool_thread`, and clients
call `tpool_add_work` and `tpool_destroy` in any order and at any time, on a pool that blocks or
not. A critical section is one action. A thread that waits for a condition goes on when it is
signalled, and may wake up without a signal. The routines that are queued return at some time and
do not call the pool.

`added`, `taken` and `ran` are the history of a run : the work of the calls of `tpool_add_work`
that returned `1`, the work that workers have taken, and the work whose routine has returned.
-/

open CLib

namespace Hermes

namespace Linked

/-! ## Threads -/

/-- Where a worker is. -/
inductive PoolWorker (α : Type)
  /-- It is to lock the queue. -/
  | locking
  /-- It waits for `queue_not_empty`. -/
  | waiting
  /-- It is to call the routine of `my_workp`. -/
  | holding (myWorkp : Option ℕ)
  /-- It runs the routine, and is to free `my_workp`. -/
  | running (myWorkp : Option ℕ) (work : α)
  | exited
  deriving DecidableEq

/-- Where a client is. -/
inductive Client (α : Type)
  /-- It is in no call. -/
  | idle
  /-- In `tpool_add_work`, before the lock. -/
  | adding (work : α)
  /-- It waits for `queue_not_full`. -/
  | waiting (work : α)
  /-- It waits no more, and is to look at the queue again. -/
  | retrying (work : α)
  /-- In `tpool_destroy`, before the lock. -/
  | destroying (finish : ℤ)
  /-- It waits for `queue_empty`. -/
  | draining (finish : ℤ)
  /-- It waits no more, and is to look at the queue again. -/
  | drained (finish : ℤ)
  /-- It is to signal `queue_not_empty`. -/
  | wakingWorkers (finish : ℤ)
  /-- It is to signal `queue_not_full`. -/
  | wakingAdders (finish : ℤ)
  /-- It is to join the `i`-th worker, or to free the pool if there is none. -/
  | joining (finish : ℤ) (i : ℕ)
  deriving DecidableEq

/-- What has no meaning. -/
inductive Misuse
  /-- A critical section uses a node that is not there. -/
  | queue
  /-- A worker uses or frees a node that is not there. -/
  | work
  /-- `tpool_destroy` reads a node that it has freed. -/
  | freeQueue
  /-- A thread uses the pool after `tpool_destroy` has freed it. -/
  | pool
  deriving DecidableEq

variable {α ι : Type} {n : ℕ}

/-- `pthread_cond_broadcast` on `queue_not_empty`. -/
def PoolWorker.woken : PoolWorker α → PoolWorker α
  | .waiting => .locking
  | w => w

/-- `pthread_cond_broadcast` on `queue_not_full`. -/
def Client.roomMade : Client α → Client α
  | .waiting work => .retrying work
  | c => c

/-- `pthread_cond_signal` on `queue_empty`. At most one client waits for it. -/
def Client.queueEmptied : Client α → Client α
  | .draining finish => .drained finish
  | c => c

/-! ## States -/

/-- A pool with `n` workers and clients `ι`. -/
structure Pool (n : ℕ) (ι α : Type) where
  tpool : Tpool α
  workers : Fin n → PoolWorker α
  clients : ι → Client α
  /-- `tpool_destroy` has freed the pool. -/
  freed : Bool
  misuse : Option Misuse
  added : List α
  taken : List α
  ran : List α

/-- The arguments of `tpool_init`. -/
structure PoolConfig where
  numWorkerThreads : ℕ
  maxQueueSize : ℕ
  doNotBlockWhenFull : Bool

/-- The pool that `tpool_init` makes. -/
def PoolConfig.init (cfg : PoolConfig) (ι α : Type) : Pool cfg.numWorkerThreads ι α where
  tpool := tpoolInit cfg.maxQueueSize cfg.doNotBlockWhenFull
  workers _ := .locking
  clients _ := .idle
  freed := false
  misuse := none
  added := []
  taken := []
  ran := []

/-- The work of a node. -/
def workAt (nodes : Heap α) (p : Option ℕ) : List α :=
  ((p.bind fun a => nodes.lookup a).map Node.val).toList

namespace Pool

variable (s : Pool n ι α)

/-- Worker `w` goes on at `t`. -/
def setWorker (w : Fin n) (t : PoolWorker α) : Pool n ι α :=
  { s with workers := Function.update s.workers w t }

/-- A use of the pool, after which it is `t`. -/
def onPool (t : Pool n ι α) : Pool n ι α :=
  if s.freed then { s with misuse := some .pool } else t

/-! ## Workers -/

/-- A turn of `tpool_thread`. -/
def takeWork (w : Fin n) : Pool n ι α :=
  match tpoolThread s.tpool with
  | .error _ => { s with misuse := some .queue }
  | .ok .waits => s.setWorker w .waiting
  | .ok .exits => s.setWorker w .exited
  | .ok (.takes myWorkp tpool room drained) =>
    let taken := s.taken ++ workAt s.tpool.nodes myWorkp
    let s := { s with tpool, taken }.setWorker w (.holding myWorkp)
    let s := if room then { s with clients := fun c => (s.clients c).roomMade } else s
    if drained then { s with clients := fun c => (s.clients c).queueEmptied } else s

/-- What a worker does next. -/
def workerStep (w : Fin n) : Option (Pool n ι α) :=
  match s.workers w with
  | .locking => some (s.onPool (s.takeWork w))
  | .holding myWorkp => some <|
    match s.tpool.nodes.read myWorkp with
    | .error _ => { s with misuse := some .work }
    | .ok myWork => s.setWorker w (.running myWorkp myWork.val)
  | .running myWorkp work => some <|
    match s.tpool.nodes.free myWorkp with
    | .error _ => { s with misuse := some .work }
    | .ok nodes =>
      { s with tpool := { s.tpool with nodes }, ran := s.ran ++ [work] }.setWorker w .locking
  | .waiting | .exited => none

/-! ## Clients -/

variable [DecidableEq ι]

/-- Client `c` goes on at `t`. -/
def setClient (c : ι) (t : Client α) : Pool n ι α :=
  { s with clients := Function.update s.clients c t }

/-- `tpool_add_work` after its critical section. -/
def addTurn (c : ι) (work : α) : Run (AddTurn α) → Pool n ι α
  | .error _ => { s with misuse := some .queue }
  | .ok .refused => s.setClient c .idle
  | .ok .waits => s.setClient c (.waiting work)
  | .ok (.added tpool wake) =>
    let s := { s with tpool, added := s.added ++ [work] }.setClient c .idle
    if wake then { s with workers := fun w => (s.workers w).woken } else s

/-- `tpool_destroy` after its critical section. -/
def destroyTurn (c : ι) (finish : ℤ) : DestroyTurn α → Pool n ι α
  | .already => s.setClient c .idle
  | .waits tpool => { s with tpool }.setClient c (.draining finish)
  | .shutsDown tpool => { s with tpool }.setClient c (.wakingWorkers finish)

/-- The end of `tpool_destroy`. The pool is freed with its fields, but the nodes are not. -/
def freePool (c : ι) : Pool n ι α :=
  match tpoolFreeQueue (s.tpool.nodes.keys.length + 2) s.tpool with
  | .error _ => { s with misuse := some .freeQueue }
  | .ok tpool =>
    { s with tpool := { s.tpool with nodes := tpool.nodes }, freed := true }.setClient c .idle

/-- What a client does next in its call, `malloc` giving it the address `a`. -/
def clientStep (c : ι) (a : ℕ) : Option (Pool n ι α) :=
  match s.clients c with
  | .idle | .waiting _ | .draining _ => none
  | .adding work => some (s.onPool (s.addTurn c work (tpoolAddWork s.tpool work a)))
  | .retrying work => some (s.onPool (s.addTurn c work (tpoolAddWorkLoop s.tpool work a)))
  | .destroying finish =>
    some (s.onPool (s.destroyTurn c finish (tpoolDestroyLock s.tpool finish)))
  | .drained finish =>
    some (s.onPool (s.destroyTurn c finish (tpoolDestroyDrain s.tpool finish)))
  | .wakingWorkers finish => some <| s.onPool <|
    { s with workers := fun w => (s.workers w).woken }.setClient c (.wakingAdders finish)
  | .wakingAdders finish => some <| s.onPool <|
    { s with clients := fun d => (s.clients d).roomMade }.setClient c (.joining finish 0)
  | .joining finish i =>
    if h : i < n then
      match s.workers ⟨i, h⟩ with
      | .exited => some (s.setClient c (.joining finish (i + 1)))
      | _ => none
    else some (s.onPool (s.freePool c))

/-! ## Actions -/

/-- An action : of the machine, of a client, or of a thread in `tpool.c`. -/
inductive Action (n : ℕ) (ι α : Type)
  /-- A client calls `tpool_add_work`. -/
  | addWork (c : ι) (work : α)
  /-- A client calls `tpool_destroy`. -/
  | destroy (c : ι) (finish : ℤ)
  /-- A worker wakes up without a signal. -/
  | wakeWorker (w : Fin n)
  /-- A client wakes up without a signal. -/
  | wakeClient (c : ι)
  | worker (w : Fin n)
  | client (c : ι) (a : ℕ)

/-- A thread takes the action in `tpool.c`, and not by chance. -/
def Action.OfThread : Action n ι α → Prop
  | .worker _ | .client _ _ => True
  | _ => False

/-- An action, where all so far had a meaning. -/
def act : Action n ι α → Option (Pool n ι α)
  | .addWork c work =>
    match s.clients c with
    | .idle => some (s.setClient c (.adding work))
    | _ => none
  | .destroy c finish =>
    match s.clients c with
    | .idle => some (s.setClient c (.destroying finish))
    | _ => none
  | .wakeWorker w =>
    match s.workers w with
    | .waiting => some (s.setWorker w .locking)
    | _ => none
  | .wakeClient c =>
    match s.clients c with
    | .waiting work => some (s.setClient c (.retrying work))
    | .draining finish => some (s.setClient c (.drained finish))
    | _ => none
  | .worker w => s.workerStep w
  | .client c a => if a ∈ s.tpool.nodes then none else s.clientStep c a

/-- The step function. -/
def step (s : Pool n ι α) (a : Action n ι α) : Option (Pool n ι α) :=
  if s.misuse.isSome then none else s.act a

end Pool

/-- The runs of a pool. -/
def PoolRun [DecidableEq ι] (cfg : PoolConfig)
    (log : List (Pool cfg.numWorkerThreads ι α × Pool.Action cfg.numWorkerThreads ι α))
    (s : Pool cfg.numWorkerThreads ι α) : Prop :=
  Trace Pool.step (cfg.init ι α) log s

end Linked

end Hermes
