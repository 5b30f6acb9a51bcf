import Hermes.CLib.Chain
import Hermes.Tpool

/-!
# The thread pool in memory

`tpool.c` once more, on the nodes of its queue. In `Tpool` the queue is a list. Here it is two
pointers and a counter, a `tpool_work_t` is made by `tpool_add_work`, linked behind the tail and
unlinked at the head, and the thread that has taken it frees it. A function that makes a node
gets the address that `malloc` gives it.

`Tpool.Models` says that a pool in memory is one of `Tpool`, its queue with the addresses of the
nodes. Each critical section does to it what its namesake there does, and uses no node that is
not there. What `tpool_destroy` frees is another matter (`Tpool.Models.freeQueue`).
-/

open CLib

namespace Hermes

namespace Linked

/-- `tpool_t`, without its threads, and the nodes that `tpool_add_work` has made. -/
structure Tpool (α : Type) where
  maxQueueSize : ℕ
  doNotBlockWhenFull : Bool
  curQueueSize : ℤ
  queueHead : Option ℕ
  queueTail : Option ℕ
  queueClosed : Bool
  shutdown : Bool
  nodes : Heap α

section Tpool

variable {α : Type}

/-- `tpool_init`. -/
def tpoolInit (maxQueueSize : ℕ) (doNotBlockWhenFull : Bool) : Tpool α where
  maxQueueSize := maxQueueSize
  doNotBlockWhenFull := doNotBlockWhenFull
  curQueueSize := 0
  queueHead := none
  queueTail := none
  queueClosed := false
  shutdown := false
  nodes := ∅

/-! ## Adding work -/

/-- How `tpool_add_work` leaves its critical section. -/
inductive AddTurn (α : Type)
  /-- It returns `-1`. -/
  | refused
  /-- It waits for `queue_not_full`. -/
  | waits
  /-- It returns `1`, and signals `queue_not_empty` if `wake`. -/
  | added (pool : Tpool α) (wake : Bool)

/-- The part of `tpool_add_work` that makes the node at `a` and links it in. -/
def tpoolLinkWork (pool : Tpool α) (work : α) (a : ℕ) : Run (AddTurn α) := do
  let nodes ← pool.nodes.alloc a ⟨work, none⟩
  if pool.curQueueSize = 0 then
    return .added { pool with
      nodes := nodes
      queueHead := some a
      queueTail := some a
      curQueueSize := pool.curQueueSize + 1 } true
  else
    let nodes ← nodes.setNext pool.queueTail (some a)
    return .added { pool with
      nodes := nodes
      queueTail := some a
      curQueueSize := pool.curQueueSize + 1 } false

/-- `tpool_add_work` from its loop on, also after a wait. -/
def tpoolAddWorkLoop (pool : Tpool α) (work : α) (a : ℕ) : Run (AddTurn α) :=
  if pool.curQueueSize = pool.maxQueueSize ∧ ¬(pool.shutdown ∨ pool.queueClosed) then .ok .waits
  else if pool.shutdown ∨ pool.queueClosed then .ok .refused
  else tpoolLinkWork pool work a

/-- `tpool_add_work`. -/
def tpoolAddWork (pool : Tpool α) (work : α) (a : ℕ) : Run (AddTurn α) :=
  if pool.curQueueSize = pool.maxQueueSize ∧ pool.doNotBlockWhenFull then .ok .refused
  else tpoolAddWorkLoop pool work a

/-! ## Taking work -/

/-- How a turn of `tpool_thread` leaves its critical section. -/
inductive ThreadTurn (α : Type)
  /-- It waits for `queue_not_empty`. -/
  | waits
  /-- It ends the thread. -/
  | exits
  /-- It has `my_workp`, signals `queue_not_full` if `room` and `queue_empty` if `drained`. -/
  | takes (myWorkp : Option ℕ) (pool : Tpool α) (room drained : Bool)

/-- The part of `tpool_thread` that unlinks the first node. -/
def tpoolUnlinkWork (pool : Tpool α) : Run (Tpool α) :=
  if pool.curQueueSize - 1 = 0 then
    .ok { pool with curQueueSize := pool.curQueueSize - 1, queueHead := none, queueTail := none }
  else do
    let myWork ← pool.nodes.read pool.queueHead
    return { pool with curQueueSize := pool.curQueueSize - 1, queueHead := myWork.next }

/-- A turn of `tpool_thread`. -/
def tpoolThread (pool : Tpool α) : Run (ThreadTurn α) :=
  if pool.curQueueSize = 0 ∧ pool.shutdown = false then .ok .waits
  else if pool.shutdown then .ok .exits
  else do
    let after ← tpoolUnlinkWork pool
    return .takes pool.queueHead after
      (decide (pool.doNotBlockWhenFull = false ∧ after.curQueueSize = (pool.maxQueueSize : ℤ) - 1))
      (decide (after.curQueueSize = 0))

/-! ## Destroying the pool -/

/-- How `tpool_destroy` leaves its critical section. -/
inductive DestroyTurn (α : Type)
  /-- Someone else destroys the pool. -/
  | already
  /-- It waits for `queue_empty`. -/
  | waits (pool : Tpool α)
  /-- It goes on with the shutdown flag set. -/
  | shutsDown (pool : Tpool α)

/-- The critical section of `tpool_destroy` from its loop on, also after a wait. -/
def tpoolDestroyDrain (pool : Tpool α) (finish : ℤ) : DestroyTurn α :=
  if finish = 1 ∧ pool.curQueueSize ≠ 0 then .waits pool
  else .shutsDown { pool with shutdown := true }

/-- The critical section of `tpool_destroy`. -/
def tpoolDestroyLock (pool : Tpool α) (finish : ℤ) : DestroyTurn α :=
  if pool.queueClosed ∨ pool.shutdown then .already
  else tpoolDestroyDrain { pool with queueClosed := true } finish

/-- The loop of `tpool_destroy` that frees the queue, of at most `fuel` nodes. -/
def tpoolFreeQueue : ℕ → Tpool α → Run (Tpool α)
  | 0, _ => .error .undefined
  | fuel + 1, pool =>
    if pool.queueHead = none then .ok pool
    else do
      let curNode ← pool.nodes.read pool.queueHead
      let nodes ← pool.nodes.free curNode.next
      tpoolFreeQueue fuel { pool with queueHead := curNode.next, nodes := nodes }

/-! ## A pool in memory and its list -/

/-- The pool in memory is `pool`, and its queue has the nodes `es`. -/
structure Tpool.Models (m : Tpool α) (pool : Hermes.Tpool α) (es : List (ℕ × α)) : Prop where
  maxQueueSize : m.maxQueueSize = pool.maxQueueSize
  doNotBlockWhenFull : m.doNotBlockWhenFull = pool.doNotBlockWhenFull
  queueClosed : m.queueClosed = pool.queueClosed
  shutdown : m.shutdown = pool.shutdown
  queue : pool.queue = es.map Prod.snd
  size : m.curQueueSize = es.length
  tail : m.queueTail = back none es
  seg : Seg m.nodes m.queueHead es none
  nodup : (es.map Prod.fst).Nodup

theorem models_tpoolInit (maxQueueSize : ℕ) (doNotBlockWhenFull : Bool) :
    (tpoolInit maxQueueSize doNotBlockWhenFull : Tpool α).Models
      (Hermes.tpoolInit maxQueueSize doNotBlockWhenFull) [] where
  maxQueueSize := rfl
  doNotBlockWhenFull := rfl
  queueClosed := rfl
  shutdown := rfl
  queue := rfl
  size := rfl
  tail := rfl
  seg := rfl
  nodup := List.nodup_nil

/-- The two critical sections of `tpool_add_work` end alike. If work is added, its node is `a`. -/
inductive AddTurn.Models (m : Tpool α) (es : List (ℕ × α)) (a : ℕ) (work : α) :
    AddTurn α → Hermes.AddTurn α → Prop
  | refused : Models m es a work .refused .refused
  | waits : Models m es a work .waits .waits
  | added {m' pool' wake} (hmodels : m'.Models pool' (es ++ [(a, work)]))
      (hkeys : m'.nodes.keys.Perm (a :: m.nodes.keys))
      (hother : ∀ b, b ≠ a → b ∉ es.map Prod.fst → m'.nodes.lookup b = m.nodes.lookup b) :
      Models m es a work (.added m' wake) (.added pool' wake)

/-- The two turns of `tpool_thread` end alike. What is taken is the first node. -/
inductive ThreadTurn.Models (m : Tpool α) (es : List (ℕ × α)) :
    ThreadTurn α → Hermes.ThreadTurn α → Prop
  | waits : Models m es .waits .waits
  | exits : Models m es .exits .exits
  | takes {e es' m' pool' room drained} (hes : es = e :: es') (hmodels : m'.Models pool' es')
      (hnodes : m'.nodes = m.nodes)
      (hroom : room = decide (m.doNotBlockWhenFull = false ∧ es.length = m.maxQueueSize))
      (hdrained : drained = es'.isEmpty) :
      Models m es (.takes (some e.1) m' room drained) (.takes e.2 pool' drained)

/-- The two critical sections of `tpool_destroy` end alike. -/
inductive DestroyTurn.Models (m : Tpool α) (es : List (ℕ × α)) :
    DestroyTurn α → Hermes.DestroyTurn α → Prop
  | already : Models m es .already .already
  | waits {m' pool'} (hmodels : m'.Models pool' es) (hnodes : m'.nodes = m.nodes) :
      Models m es (.waits m') (.waits pool')
  | shutsDown {m' pool'} (hmodels : m'.Models pool' es) (hnodes : m'.nodes = m.nodes) :
      Models m es (.shutsDown m') (.shutsDown pool')

namespace Tpool.Models

variable {m : Tpool α} {pool : Hermes.Tpool α} {es : List (ℕ × α)}

theorem length_queue (h : m.Models pool es) : pool.queue.length = es.length := by
  rw [h.queue, List.length_map]

/-- A node of the queue is there. -/
theorem lookup (h : m.Models pool es) {e : ℕ × α} (he : e ∈ es) :
    ∃ r, m.nodes.lookup e.1 = some ⟨e.2, r⟩ :=
  h.seg.lookup he

/-- The pool stands for the same one if other nodes change. -/
theorem withNodes (h : m.Models pool es) {nodes : Heap α}
    (hsame : ∀ e ∈ es, nodes.lookup e.1 = m.nodes.lookup e.1) :
    Tpool.Models { m with nodes := nodes } pool es :=
  { h with seg := h.seg.frame hsame }

/-! ### Adding work -/

/-- A node is made and linked in behind the others. -/
theorem linkWork (h : m.Models pool es) {a : ℕ} (ha : a ∉ m.nodes) (work : α) :
    ∃ m', tpoolLinkWork m work a = .ok (.added m' pool.queue.isEmpty) ∧
      m'.Models { pool with queue := pool.queue ++ [work] } (es ++ [(a, work)]) ∧
      m'.nodes.keys.Perm (a :: m.nodes.keys) ∧
      ∀ b, b ≠ a → b ∉ es.map Prod.fst → m'.nodes.lookup b = m.nodes.lookup b := by
  have hfresh : a ∉ es.map Prod.fst := fun hmem => by
    obtain ⟨e, he, rfl⟩ := List.mem_map.1 hmem
    exact ha (h.seg.mem_heap he)
  have hnodup : ((es ++ [(a, work)]).map Prod.fst).Nodup := by
    rw [List.map_append, List.nodup_append]
    refine ⟨h.nodup, List.nodup_singleton a, fun b hb c hc hbc => hfresh ?_⟩
    obtain rfl : c = a := by simpa using hc
    rwa [← hbc]
  have hsize : m.curQueueSize + 1 = ((es ++ [(a, work)]).length : ℕ) := by simp [h.size]
  have hqueue : pool.queue ++ [work] = (es ++ [(a, work)]).map Prod.snd := by simp [h.queue]
  have hnew : ∀ b ≠ a, (m.nodes.insert a ⟨work, none⟩).lookup b = m.nodes.lookup b := fun b hb =>
    AList.lookup_insert_ne hb
  rw [tpoolLinkWork, Heap.alloc_fresh ha, ok_bind]
  rcases List.eq_nil_or_concat es with rfl | ⟨l, e, rfl⟩
  · have hempty : pool.queue = [] := h.queue
    rw [if_pos (by simp [h.size]), hempty]
    refine ⟨_, rfl, ?_, Heap.perm_keys_insert ha _, fun b hb _ => hnew b hb⟩
    exact { h with
      queue := by simp
      size := hsize
      tail := rfl
      seg := ⟨rfl, none, AList.lookup_insert _, rfl⟩
      nodup := hnodup }
  · rw [List.concat_eq_append] at h hnodup hsize hqueue ⊢
    have htail : m.queueTail = some e.1 := by rw [h.tail, back_append_singleton]
    have hne : pool.queue.isEmpty = false := by simp [h.queue]
    obtain ⟨nodes, hset, hseg, hother, hkeys⟩ := h.seg.push h.nodup ha work
    rw [if_neg (by simp [h.size]; omega), htail, hset, ok_bind, hne]
    refine ⟨_, rfl, ?_, hkeys, fun b hb hmem => hother b hb fun hbe => hmem (by simp [hbe])⟩
    exact { h with
      queue := hqueue
      size := hsize
      tail := (back_append_singleton none (l ++ [e]) (a, work)).symm
      seg := hseg
      nodup := hnodup }

/-- The loop of `tpool_add_work`, in a pool that has room or blocks. -/
theorem addWorkLoop (h : m.Models pool es) {a : ℕ} (ha : a ∉ m.nodes) (work : α)
    (hroom : es.length = pool.maxQueueSize → pool.doNotBlockWhenFull = false) :
    ∃ t, tpoolAddWorkLoop m work a = .ok t ∧
      AddTurn.Models m es a work t (Hermes.tpoolAddWork pool work) := by
  have hlen := h.length_queue
  have hfull : m.curQueueSize = m.maxQueueSize ↔ es.length = pool.maxQueueSize := by
    rw [h.size, h.maxQueueSize, Nat.cast_inj]
  have hpass : ¬(pool.queue.length = pool.maxQueueSize ∧ pool.doNotBlockWhenFull = true) := by
    rintro ⟨hle, hb⟩
    rw [hroom (hlen ▸ hle)] at hb
    cases hb
  rw [tpoolAddWorkLoop, Hermes.tpoolAddWork, if_neg hpass, h.shutdown, h.queueClosed]
  simp only [hfull, hlen]
  split_ifs with hwait hstop
  · exact ⟨_, rfl, .waits⟩
  · exact ⟨_, rfl, .refused⟩
  · obtain ⟨m', hlink, hmodels, hkeys, hother⟩ := h.linkWork ha work
    exact ⟨_, hlink, .added hmodels hkeys hother⟩

theorem addWork (h : m.Models pool es) {a : ℕ} (ha : a ∉ m.nodes) (work : α) :
    ∃ t, tpoolAddWork m work a = .ok t ∧
      AddTurn.Models m es a work t (Hermes.tpoolAddWork pool work) := by
  have hfull : m.curQueueSize = m.maxQueueSize ↔ pool.queue.length = pool.maxQueueSize := by
    rw [h.size, h.maxQueueSize, Nat.cast_inj, h.length_queue]
  rw [tpoolAddWork]
  simp only [hfull, h.doNotBlockWhenFull]
  by_cases hrefused : pool.queue.length = pool.maxQueueSize ∧ pool.doNotBlockWhenFull = true
  · rw [if_pos hrefused, Hermes.tpoolAddWork, if_pos hrefused]
    exact ⟨_, rfl, .refused⟩
  · rw [if_neg hrefused]
    refine h.addWorkLoop ha work fun hlen => ?_
    by_contra hblocks
    exact hrefused ⟨h.length_queue.trans hlen, by simpa using hblocks⟩

/-! ### Taking work -/

theorem unlinkWork {e : ℕ × α} (h : m.Models pool (e :: es)) :
    ∃ m', tpoolUnlinkWork m = .ok m' ∧ m'.Models { pool with queue := es.map Prod.snd } es ∧
      m'.nodes = m.nodes := by
  have hsize : m.curQueueSize - 1 = es.length := by simp [h.size]
  have hnodup := h.nodup
  rw [List.map_cons, List.nodup_cons] at hnodup
  obtain ⟨hhead, r, hr, hseg⟩ := h.seg
  rw [tpoolUnlinkWork, hsize]
  cases es with
  | nil =>
    refine ⟨_, if_pos rfl, ?_, rfl⟩
    exact { h with queue := rfl, size := rfl, tail := rfl, seg := rfl, nodup := hnodup.2 }
  | cons x es =>
    rw [if_neg (by simp; omega), hhead, Heap.read_some hr, ok_bind]
    refine ⟨_, rfl, ?_, rfl⟩
    have htail := h.tail
    rw [back_cons, back_cons] at htail
    exact { h with
      queue := rfl
      size := rfl
      tail := htail.trans (back_cons _ _ _).symm
      seg := hseg
      nodup := hnodup.2 }

theorem thread (h : m.Models pool es) :
    ∃ t, tpoolThread m = .ok t ∧ ThreadTurn.Models m es t (Hermes.tpoolThread pool) := by
  rw [tpoolThread, Hermes.tpoolThread, h.queue, h.size, h.shutdown]
  cases hshut : pool.shutdown with
  | true =>
    rw [if_neg (by simp), if_pos rfl]
    cases es <;> exact ⟨_, rfl, .exits⟩
  | false =>
    cases es with
    | nil => exact ⟨_, rfl, .waits⟩
    | cons e es =>
      obtain ⟨m', hunlink, hmodels, hnodes⟩ := h.unlinkWork
      rw [hshut] at hmodels
      have hempty : decide (m'.curQueueSize = 0) = es.isEmpty := by
        rw [hmodels.size]
        cases es <;> simp
        omega
      have hfull : m'.curQueueSize = (m.maxQueueSize : ℤ) - 1 ↔
          (e :: es).length = m.maxQueueSize := by
        rw [hmodels.size, List.length_cons]
        omega
      rw [if_neg (by simp; omega), if_neg (by simp), hunlink, ok_bind, hempty, h.seg.eq_front,
        front_cons]
      simp only [hfull]
      have hqueue : (es.map Prod.snd).isEmpty = es.isEmpty := by cases es <;> rfl
      simp only [List.map_cons, hqueue]
      exact ⟨_, rfl, .takes rfl hmodels hnodes rfl rfl⟩

/-! ### Destroying the pool -/

theorem destroyDrain (h : m.Models pool es) (finish : ℤ) :
    DestroyTurn.Models m es (tpoolDestroyDrain m finish) (Hermes.tpoolDestroyDrain pool finish) := by
  have hempty : m.curQueueSize ≠ 0 ↔ pool.queue ≠ [] := by
    rw [h.size, h.queue]
    cases es <;> simp
    omega
  rw [tpoolDestroyDrain, Hermes.tpoolDestroyDrain]
  simp only [hempty]
  split_ifs
  · exact .waits h rfl
  · exact .shutsDown { h with shutdown := rfl } rfl

/-- The loop that frees the queue ends as it does on the list. It frees nothing then : the node
of a queue of one is lost. -/
theorem freeQueue (h : m.Models pool es) {fuel : ℕ} (hfuel : 2 ≤ fuel) :
    Alike (fun m' _ => m'.nodes = m.nodes) (tpoolFreeQueue fuel m)
      (Hermes.tpoolFreeQueue pool.queue) := by
  obtain ⟨fuel, rfl⟩ := Nat.exists_eq_add_of_le' hfuel
  rw [h.queue, tpoolFreeQueue, h.seg.eq_front]
  match es, h with
  | [], _ => exact .ok rfl
  | [e], h =>
    obtain ⟨-, r, hr, rfl⟩ := h.seg
    rw [front_cons, if_neg (by simp), Heap.read_some hr, ok_bind, Heap.free, ok_bind,
      tpoolFreeQueue, if_pos rfl]
    exact .ok rfl
  | e :: x :: es, h =>
    obtain ⟨-, r, hr, rfl, s, hs, -⟩ := h.seg
    have hmem : x.1 ∈ m.nodes := by
      rw [← AList.lookup_isSome, hs]
      rfl
    rw [front_cons, if_neg (by simp), Heap.read_some hr, ok_bind, Heap.free_some hmem, ok_bind,
      tpoolFreeQueue, if_neg (by simp), Heap.read, Option.bind_some, AList.lookup_erase]
    exact .error _

end Tpool.Models

end Tpool

end Linked

end Hermes
