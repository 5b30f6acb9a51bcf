import Hermes.CLib.Traces
import Hermes.Tpool
import Mathlib.Logic.Function.Basic

/-!
# The server

The threads of `hermes.c` as a state machine : the workers of the pool, one of which runs
`_hms_listen` while others run `_hms_handle_endpoint`, and the thread that calls `hermes_init`
and, some time, `hermes_shutdown`. Between two actions a thread holds no lock of the pool. A
thread that waits for a condition goes on when it is signalled, and may wake up without a
signal.

Connections are numbered as they are accepted. What a handler does with its connection is left
open : it returns at some time, and the connection is closed then. `_hms_listen` reads
`manager->shutdown` without the lock, in an action of its own.
-/

open CLib

namespace Hermes

/-! ## Threads -/

/-- `tpool_work_t` : a routine and its argument. -/
inductive TpoolWork
  | hmsListen
  | hmsHandleEndpoint (fd : ℕ)
  deriving DecidableEq, Repr

/-- Where `_hms_listen` is. -/
inductive Listener
  /-- It opens the server socket, again and again until that works. -/
  | opening
  | accepting
  /-- It has accepted `fd` and is to read `manager->shutdown`. -/
  | testing (fd : ℕ)
  /-- It has an endpoint for `fd` and is to call `tpool_add_work`. -/
  | enqueuing (fd : ℕ)
  /-- It has left its loop. -/
  | leaving
  deriving DecidableEq, Repr

/-- Where a worker is. -/
inductive Worker
  /-- It is to lock the queue. -/
  | locking
  /-- It waits for `queue_not_empty`. -/
  | waiting
  | listening (l : Listener)
  | handling (fd : ℕ)
  | exited
  deriving DecidableEq, Repr

/-- Where the thread of `hermes_init` and `hermes_shutdown` is. -/
inductive Caller
  /-- In `hermes_init`, with the pool running. -/
  | starting
  | serving
  /-- In `tpool_destroy`, before the lock. -/
  | closing
  /-- It waits for `queue_empty`. -/
  | draining
  /-- It waits no more, and is to look at the queue again. -/
  | drained
  /-- It is to signal `queue_not_empty`. -/
  | wakingWorkers
  /-- It is to signal `queue_not_full`. -/
  | wakingAdders
  /-- It is to join the `i`-th worker, or to free the pool if there is none. -/
  | joining (i : ℕ)
  | returned
  deriving DecidableEq, Repr

/-- What ends the process. -/
inductive Crash
  /-- The assertion of `hermes_init` on `tpool_add_work`. -/
  | initAddWork
  /-- The assertion of `_hms_listen` on `tpool_add_work`. -/
  | listenAddWork
  /-- The assertion at the end of `_hms_listen`. -/
  | listenShutdown
  /-- The read of a node that `tpool_destroy` has freed. -/
  | freeQueue
  deriving DecidableEq, Repr

/-! ## States -/

/-- The arguments of `hermes_init` and `hermes_shutdown`. -/
structure ServerConfig where
  numThreads : ℕ
  serverPort : ℤ
  force : ℤ

/-- The number of workers of the pool. -/
def ServerConfig.workers (cfg : ServerConfig) : ℕ :=
  cfg.numThreads + 2

/-- A server with `n` workers. -/
structure Server (n : ℕ) where
  pool : Tpool TpoolWork
  workers : Fin n → Worker
  caller : Caller
  /-- `manager->shutdown`. -/
  shutdown : Bool
  /-- The server socket is open. -/
  listening : Bool
  /-- Connections that are not accepted yet. -/
  pending : ℕ
  /-- The number of connections accepted. -/
  accepted : ℕ
  /-- The connections closed. -/
  closed : List ℕ
  crash : Option Crash

/-- `hermes_init` up to `tpool_init`. -/
def hermesInit (n : ℕ) : Server n where
  pool := tpoolInit 10 true
  workers _ := .locking
  caller := .starting
  shutdown := false
  listening := false
  pending := 0
  accepted := 0
  closed := []
  crash := none

namespace Server

variable {n : ℕ} (s : Server n)

/-- Worker `w` goes on at `t`. -/
def setWorker (w : Fin n) (t : Worker) : Server n :=
  { s with workers := Function.update s.workers w t }

/-- `pthread_cond_broadcast` on `queue_not_empty`. -/
def broadcastNotEmpty : Server n :=
  { s with workers := fun w => if s.workers w = .waiting then .locking else s.workers w }

/-- `pthread_cond_signal` on `queue_empty`. -/
def signalEmpty : Server n :=
  { s with caller := if s.caller = .draining then .drained else s.caller }

/-! ## Workers -/

/-- What a worker does first with its work. -/
def work : TpoolWork → Worker
  | .hmsListen => .listening .opening
  | .hmsHandleEndpoint fd => .handling fd

/-- A turn of `tpool_thread`. -/
def takeWork (w : Fin n) : Server n :=
  match tpoolThread s.pool with
  | .waits => s.setWorker w .waiting
  | .exits => s.setWorker w .exited
  | .takes item pool drained =>
    let s := { s with pool }.setWorker w (work item)
    if drained then s.signalEmpty else s

/-- An assertion that `tpool_add_work` does not return `-1`. After it the caller goes on as
`k` says. -/
def addWork (item : TpoolWork) (failed : Crash) (k : Server n → Server n) : Option (Server n) :=
  match tpoolAddWork s.pool item with
  | .refused => some { s with crash := some failed }
  | .waits => none
  | .added pool wake =>
    let s := { s with pool }
    some (k (if wake then s.broadcastNotEmpty else s))

/-- What a worker does next, where that does not depend on the network. -/
def workerStep (w : Fin n) : Option (Server n) :=
  match s.workers w with
  | .locking => some (s.takeWork w)
  | .listening (.testing fd) =>
    some (s.setWorker w (.listening (if s.shutdown then .leaving else .enqueuing fd)))
  | .listening (.enqueuing fd) =>
    s.addWork (.hmsHandleEndpoint fd) .listenAddWork fun s => s.setWorker w (.listening .accepting)
  | .listening .leaving =>
    some (if s.shutdown then s.setWorker w .locking else { s with crash := some .listenShutdown })
  | _ => none

/-- `socket`, `setsockopt`, `bind` and `listen`. -/
def openSocket (w : Fin n) (ok : Bool) : Option (Server n) :=
  if s.workers w = .listening .opening then
    some (if ok then { s with listening := true }.setWorker w (.listening .accepting) else s)
  else none

/-- `accept`. It needs a connection or a closed socket, and ends the listener if it fails. -/
def accept (w : Fin n) (ok : Bool) : Option (Server n) :=
  if s.workers w = .listening .accepting then
    if 0 < s.pending then
      let s := { s with pending := s.pending - 1 }
      some (if ok then
          { s with accepted := s.accepted + 1 }.setWorker w (.listening (.testing s.accepted))
        else s.setWorker w .locking)
    else if s.listening = false ∧ ok = false then some (s.setWorker w .locking)
    else none
  else none

/-- The end of `_hms_handle_endpoint`, with `hms_endpoint_destroy`. The unlock behind it, in the
endpoint that is then freed (`Hermes.hmsHandleEndpoint`), is left out : it is undefined on every
connection, and the crashes here are those that depend on the order of the threads. -/
def finish (w : Fin n) : Option (Server n) :=
  match s.workers w with
  | .handling fd => some ({ s with closed := fd :: s.closed }.setWorker w .locking)
  | _ => none

/-! ## The caller -/

/-- `tpool_destroy` after its critical section. -/
def destroyTurn : DestroyTurn TpoolWork → Server n
  | .already => { s with caller := .returned, listening := false }
  | .waits pool => { s with pool, caller := .draining }
  | .shutsDown pool => { s with pool, caller := .wakingWorkers }

/-- The end of `tpool_destroy` and `hermes_shutdown`. -/
def freePool : Server n :=
  let freed := { s with pool := { s.pool with queue := [] } }
  match tpoolFreeQueue s.pool.queue with
  | .ok () => { freed with caller := .returned, listening := false }
  | .error _ => { freed with crash := some .freeQueue }

/-- What the caller does next in `hermes_init` or in `hermes_shutdown`. -/
def callerStep (cfg : ServerConfig) : Option (Server n) :=
  match s.caller with
  | .starting =>
    if 0 < cfg.serverPort then
      s.addWork .hmsListen .initAddWork fun s => { s with caller := .serving }
    else some { s with caller := .serving }
  | .closing => some (s.destroyTurn (tpoolDestroyLock s.pool cfg.force))
  | .drained => some (s.destroyTurn (tpoolDestroyDrain s.pool cfg.force))
  | .wakingWorkers => some { s.broadcastNotEmpty with caller := .wakingAdders }
  | .wakingAdders => some { s with caller := .joining 0 }
  | .joining i =>
    if h : i < n then
      if s.workers ⟨i, h⟩ = .exited then some { s with caller := .joining (i + 1) } else none
    else some s.freePool
  | _ => none

/-- `hermes_shutdown` is called. -/
def hermesShutdown : Option (Server n) :=
  if s.caller = .serving then some { s with shutdown := true, caller := .closing } else none

/-! ## Actions -/

/-- An action : of the network, of the machine, or of a thread of the server. -/
inductive Action (n : ℕ)
  /-- A client connects. -/
  | connect
  /-- `hermes_shutdown` is called. -/
  | shutdown
  /-- A worker wakes up without a signal. -/
  | wakeWorker (w : Fin n)
  /-- The caller wakes up without a signal. -/
  | wakeCaller
  | caller
  | worker (w : Fin n)
  | openSocket (w : Fin n) (ok : Bool)
  | accept (w : Fin n) (ok : Bool)
  | finish (w : Fin n)

/-- A thread of the server takes the action, and not by chance. -/
def Action.OfThread : Action n → Prop
  | .connect | .shutdown | .wakeWorker _ | .wakeCaller => False
  | _ => True

/-- An action of a server that has not crashed. -/
def act (cfg : ServerConfig) : Action n → Option (Server n)
  | .connect => if s.listening then some { s with pending := s.pending + 1 } else none
  | .shutdown => s.hermesShutdown
  | .wakeWorker w => if s.workers w = .waiting then some (s.setWorker w .locking) else none
  | .wakeCaller => if s.caller = .draining then some { s with caller := .drained } else none
  | .caller => s.callerStep cfg
  | .worker w => s.workerStep w
  | .openSocket w ok => s.openSocket w ok
  | .accept w ok => s.accept w ok
  | .finish w => s.finish w

/-- The step function. -/
def step (cfg : ServerConfig) (s : Server cfg.workers) (a : Action cfg.workers) :
    Option (Server cfg.workers) :=
  if s.crash.isSome then none else s.act cfg a

end Server

/-- The runs of the server. -/
def ServerRun (cfg : ServerConfig)
    (log : List (Server cfg.workers × Server.Action cfg.workers)) (s : Server cfg.workers) : Prop :=
  Trace (Server.step cfg) (hermesInit cfg.workers) log s

end Hermes
