import Hermes.CLib.Ranked
import Hermes.CLib.Traces
import Hermes.CopyArrives

/-!
# Copies over several connections

The threads of the copy server share its files. `__copy_handle` opens a file and writes to it, and
nothing keeps the other threads out in between. So a step of a thread is one of these two calls
(`CopyThread.step`), or the whole of a message that does not come to them. A thread that is alone
does in its steps what the loop of a connection does with a message (`CopyThread.handle_eq`).

`copies_interleaved` : the requests for a file may come over any number of connections. In whatever
order the threads take their steps, none goes wrong, and when all are at their end the file is
there.
-/

open CLib

namespace Hermes

set_option maxRecDepth 8000

/-! ## Threads -/

/-- A thread of the server, on a connection. -/
structure CopyThread where
  out : WriteSide
  clock : ℕ → ClockText
  /-- Behind `open` in `__copy_handle` : the name of the file, the text of the offset, and the
  message whose body is to be written. -/
  writing : Option (CString × CString × HmsMsg)
  /-- The messages that are not handled yet. -/
  msgs : List HmsMsg

namespace CopyThread

/-- The next message, up to `open` or to its end. -/
def begin (disk : Files) (t : CopyThread) (msg : HmsMsg) (msgs : List HmsMsg) :
    Run (Files × CopyThread) := do
  let (valid, env, msg) ← copyValidate ⟨t.out, t.clock, disk⟩ msg
  if valid = 0 then
    let (accepts, env, msg) ← copyAccepts env msg
    if accepts = 0 then
      let ((filename, offsetStr), disk) ← copyOpen env.state msg
      return (disk, { t with writing := some (filename, offsetStr, msg), msgs })
    else
      let (status, env, msg) ← hmsDefaultHandle env msg
      hmsMsgDestroy msg
      return (env.state, { t with
        out := env.out
        clock := env.clock
        msgs := if status = 0 then msgs else [] })
  else
    hmsMsgDestroy msg
    return (env.state, { t with msgs })

/-- The message whose file is open, from there on. -/
def finish (disk : Files) (t : CopyThread) (filename offsetStr : CString) (msg : HmsMsg) :
    Run (Files × CopyThread) := do
  let (erred, disk) ← copyWrite disk filename offsetStr msg
  hmsMsgDestroy msg
  return (disk, { t with writing := none, msgs := if erred then [] else t.msgs })

/-- A step, if there is something left to do. -/
def step (disk : Files) (t : CopyThread) : Option (Run (Files × CopyThread)) :=
  match t.writing, t.msgs with
  | some (filename, offsetStr, msg), _ => some (t.finish disk filename offsetStr msg)
  | none, msg :: msgs => some (t.begin disk msg msgs)
  | none, [] => none

/-- The steps of a thread that is alone, on one message. -/
def handle (disk : Files) (t : CopyThread) (msg : HmsMsg) (msgs : List HmsMsg) :
    Run (Files × CopyThread) := do
  let (disk, t) ← t.begin disk msg msgs
  match t.writing with
  | some (filename, offsetStr, msg) => t.finish disk filename offsetStr msg
  | none => return (disk, t)

/-- Alone, a thread does what the loop of a connection does. -/
theorem handle_eq (disk : Files) (t : CopyThread) (ht : t.writing = none) (msg : HmsMsg)
    (msgs : List HmsMsg) : t.handle disk msg msgs =
      (handleMsg copyOps ⟨t.out, t.clock, disk⟩ 0 msg).map fun r => (r.2.1.state, { t with
        out := r.2.1.out
        clock := r.2.1.clock
        msgs := if r.1 = 0 then msgs else [] }) := by
  rw [handle, begin, copyValidate_eq, ok_bind, handleMsg_copy]
  dsimp only
  rw [if_pos rfl, copyAccepts_eq, ok_bind]
  dsimp only
  cases hcopy : msg.hasVerb "COPY" with
  | true =>
    rw [if_pos rfl, if_pos rfl, if_pos rfl, copyHandle]
    cases copyOpen disk msg with
    | error e => rfl
    | ok r =>
      obtain ⟨⟨filename, offsetStr⟩, disk₁⟩ := r
      simp only [ok_bind, pure_eq_ok, finish]
      cases copyWrite disk₁ filename offsetStr msg with
      | error e => rfl
      | ok r =>
        obtain ⟨erred, disk₂⟩ := r
        simp only [ok_bind]
        cases hmsMsgDestroy msg with
        | error e => rfl
        | ok u => cases erred <;> simp [Except.map, ht]
  | false =>
    rw [if_neg Bool.false_ne_true, if_neg (by decide), if_neg Bool.false_ne_true]
    cases hmsDefaultHandle (⟨t.out, t.clock, disk⟩ : Env Files) msg with
    | error e => rfl
    | ok r =>
      obtain ⟨status, env, msg₁⟩ := r
      simp only [ok_bind, pure_eq_ok]
      cases hmsMsgDestroy msg₁ with
      | error e => rfl
      | ok u => simp [Except.map, ht]

end CopyThread

/-! ## The threads of a server -/

/-- The files of a server and its threads. -/
structure CopyState where
  disk : Files
  threads : List CopyThread
  /-- A thread has gone wrong. -/
  wrong : Bool

/-- Thread `i` takes a step. -/
def CopyState.step (s : CopyState) (i : ℕ) : Option CopyState :=
  if s.wrong then none
  else
    match s.threads[i]?.bind (CopyThread.step s.disk) with
    | none => none
    | some (.error _) => some { s with wrong := true }
    | some (.ok (disk, t)) => some { s with disk, threads := s.threads.set i t }

/-- What is left to do for a thread. -/
def CopyThread.todo (t : CopyThread) : Option (CString × CString × HmsMsg) × List HmsMsg :=
  (t.writing, t.msgs)

/-! ## Requests -/

section Requests

variable {dst : CString} {p : ℕ × List UInt8} {n : ℕ} {disk : Files}

/-- The requests of the connections, as they arrive. -/
def arrivals (dst : CString) (parts : List (ℕ × List UInt8)) : List HmsMsg :=
  parts.map fun p => (chunkMsg dst p).received

/-- A thread that has opened the file for the requests in `a.1`, and is to handle those in `a.2`. -/
def todoFor (dst : CString) (a : Option (ℕ × List UInt8) × List (ℕ × List UInt8)) :
    Option (CString × CString × HmsMsg) × List HmsMsg :=
  (a.1.map fun p => (dst, CString.ofBytes (decimal p.1), (chunkMsg dst p).received),
    arrivals dst a.2)

/-- A request that a server can handle. -/
structure Handleable (n : ℕ) (p : ℕ × List UInt8) : Prop where
  offset : (p.1 : ℤ) ≤ intMax
  ne : p.2 ≠ []
  length : p.2.length ≤ n

/-- The file is opened. -/
theorem begin_chunk (hdisk : disk.Serves n) (dst : CString) (p : ℕ × List UInt8) (t : CopyThread)
    (msgs : List HmsMsg) : t.begin disk (chunkMsg dst p).received msgs =
      .ok (disk.afterOpen.setFile dst (disk.held dst), { t with
        writing := some (dst, CString.ofBytes (decimal p.1), (chunkMsg dst p).received)
        msgs }) := by
  have hcopy : (chunkMsg dst p).received.hasVerb "COPY" = true := chunkMsg_hasVerb dst p
  have hf : (chunkMsg dst p).received.lookup filenameKey = some dst := by
    rw [lookup_received (by decide), chunkMsg_lookup_filename]
  have ho : (chunkMsg dst p).received.lookup offsetKey = some (CString.ofBytes (decimal p.1)) := by
    rw [lookup_received (by decide), chunkMsg_lookup_offset]
  rw [CopyThread.begin, copyValidate_eq, ok_bind]
  dsimp only
  rw [if_pos rfl, copyAccepts_eq, ok_bind, hcopy]
  dsimp only
  rw [if_pos rfl, if_pos rfl, copyOpen, getNamedHeader_eq, getNamedHeader_eq, hf, ho]
  dsimp only
  rw [hdisk.openWrite]
  rfl

/-- The chunk is written. -/
theorem finish_chunk (hdisk : disk.Serves n) (hd : Destination dst) (hp : Handleable n p)
    (hn : (n : ℤ) < intMax) (t : CopyThread) :
    t.finish disk dst (CString.ofBytes (decimal p.1)) (chunkMsg dst p).received =
      .ok (disk.afterTransfer.setFile dst (overlay (disk.held dst) p.1 p.2),
        { t with writing := none }) := by
  have hlen := hp.length
  have hmsg := chunkMsg_deliverable hd hp.offset hp.ne (by omega)
  have hdestroy : hmsMsgDestroy (chunkMsg dst p).received = .ok () :=
    HmsMsg.Counted.destroy ⟨rfl, rfl⟩
  have hcontent : (chunkMsg dst p).received.content = some p.2 := chunkMsg_content dst p
  have hoffset : atoi (CString.ofBytes (decimal p.1)).bytes = p.1 := by
    rw [CString.bytes_ofBytes (nul_not_mem_decimal _), atoi_decimal hp.offset]
  have hwrite := hdisk.pwrite dst hlen p.1
  rw [CopyThread.finish, copyWrite_eq hmsg.bodyAgrees, hcontent, hoffset, ok_bind]
  dsimp only
  rw [hwrite, hdestroy, ok_bind]
  simp

end Requests

/-! ## Runs -/

section Runs

variable {dst : CString} {n : ℕ} {files : CString → Option (List UInt8)}
  {parts done : List (ℕ × List UInt8)}
  {as : List (Option (ℕ × List UInt8) × List (ℕ × List UInt8))} {s u : CopyState} {steps i : ℕ}

/-- The requests whose file is open. -/
def openedIn (as : List (Option (ℕ × List UInt8) × List (ℕ × List UInt8))) :
    List (List (ℕ × List UInt8)) :=
  as.map fun a => a.1.toList

/-- The files `files` once `done` is written to one of them, and it is open for `opened`. -/
def copiedSoFar (files : CString → Option (List UInt8)) (dst : CString)
    (done opened : List (ℕ × List UInt8)) : CString → Option (List UInt8) :=
  if done = [] ∧ opened = [] then files
  else Function.update files dst (some (writeAll ((files dst).getD []) done))

theorem copiedSoFar_held (files : CString → Option (List UInt8)) (dst : CString)
    (done opened : List (ℕ × List UInt8)) :
    (copiedSoFar files dst done opened dst).getD [] = writeAll ((files dst).getD []) done := by
  unfold copiedSoFar
  split_ifs with h
  · rw [h.1]
    rfl
  · rw [Function.update_self, Option.getD_some]

/-- Opening the file, or writing to it. -/
theorem copiedSoFar_update (files : CString → Option (List UInt8)) (dst : CString)
    (done opened : List (ℕ × List UInt8)) (bytes : List UInt8) :
    Function.update (copiedSoFar files dst done opened) dst (some bytes) =
      Function.update files dst (some bytes) := by
  unfold copiedSoFar
  split_ifs
  · rfl
  · rw [Function.update_idem]

/-- After `steps` steps the requests `done` are written, and those of `as` are left. -/
structure CopyInv (dst : CString) (n : ℕ) (files : CString → Option (List UInt8))
    (parts done : List (ℕ × List UInt8))
    (as : List (Option (ℕ × List UInt8) × List (ℕ × List UInt8))) (s : CopyState) (steps : ℕ) :
    Prop where
  right : s.wrong = false
  threads : s.threads.map CopyThread.todo = as.map (todoFor dst)
  perm : (done ++ (openedIn as).flatten ++ (as.map Prod.snd).flatten).Perm parts
  serves : s.disk.Serves n
  files : s.disk.files = copiedSoFar files dst done (openedIn as).flatten
  steps : steps = 2 * done.length + (openedIn as).flatten.length

namespace CopyInv

variable (h : CopyInv dst n files parts done as s steps)
include h

/-- A thread and its requests. -/
theorem thread {a : Option (ℕ × List UInt8) × List (ℕ × List UInt8)} (ha : as[i]? = some a) :
    ∃ t, s.threads[i]? = some t ∧ t.todo = todoFor dst a := by
  have hmap := congrArg (fun l => l[i]?) h.threads
  simp only [List.getElem?_map, ha, Option.map_some] at hmap
  exact Option.map_eq_some_iff.1 hmap

theorem no_thread (ha : as[i]? = none) : s.threads[i]? = none := by
  have hmap := congrArg (fun l => l[i]?) h.threads
  simpa only [List.getElem?_map, ha, Option.map_none, Option.map_eq_none_iff] using hmap

theorem held : s.disk.held dst = writeAll ((files dst).getD []) done := by
  rw [Disk.held, h.files, copiedSoFar_held]

/-- A thread opens the file. -/
theorem open_step {t : CopyThread} {p : ℕ × List UInt8} {ps : List (ℕ × List UInt8)}
    (ha : as[i]? = some (none, p :: ps)) (ht : t.todo = todoFor dst (some p, ps)) :
    CopyInv dst n files parts done (as.set i (some p, ps))
      ⟨s.disk.afterOpen.setFile dst (s.disk.held dst), s.threads.set i t, s.wrong⟩ (steps + 1) := by
  have hopened : (openedIn (as.set i (some p, ps))).flatten.Perm (p :: (openedIn as).flatten) := by
    rw [openedIn, List.map_set]
    exact flatten_set_cons (by rw [List.getElem?_map, ha]; rfl) (List.Perm.refl [p])
  have hleft : (as.map Prod.snd).flatten.Perm
      (p :: ((as.set i (some p, ps)).map Prod.snd).flatten) := by
    rw [List.map_set]
    exact flatten_set_uncons (by rw [List.getElem?_map, ha]; rfl) (List.Perm.refl (p :: ps))
  refine ⟨h.right, ?_, ?_, h.serves.afterOpen.setFile dst _, ?_, ?_⟩
  · rw [List.map_set, List.map_set, h.threads, ht]
  · refine List.Perm.trans ?_ h.perm
    rw [List.append_assoc, List.append_assoc]
    refine List.Perm.append_left done ((hopened.append_right _).trans ?_)
    exact List.perm_middle.symm.trans (hleft.symm.append_left _)
  · have hne : (openedIn (as.set i (some p, ps))).flatten ≠ [] := fun hnil => by
      rw [hnil] at hopened
      exact absurd hopened.length_eq (by simp)
    show Function.update s.disk.files dst (some (s.disk.held dst)) = _
    rw [h.files, copiedSoFar_update, h.held, copiedSoFar, if_neg fun hnil => hne hnil.2]
  · rw [h.steps, hopened.length_eq, List.length_cons]
    omega

/-- A thread writes to the file. -/
theorem write_step {t : CopyThread} {p : ℕ × List UInt8} {ps : List (ℕ × List UInt8)}
    (ha : as[i]? = some (some p, ps)) (ht : t.todo = todoFor dst (none, ps)) :
    CopyInv dst n files parts (done ++ [p]) (as.set i (none, ps))
      ⟨s.disk.afterTransfer.setFile dst (overlay (s.disk.held dst) p.1 p.2), s.threads.set i t,
        s.wrong⟩ (steps + 1) := by
  have hopened : (openedIn as).flatten.Perm (p :: (openedIn (as.set i (none, ps))).flatten) := by
    rw [openedIn, openedIn, List.map_set]
    exact flatten_set_uncons (by rw [List.getElem?_map, ha]; rfl) (List.Perm.refl [p])
  have hleft : (as.set i (none, ps)).map Prod.snd = as.map Prod.snd := by
    have hps : (as.map Prod.snd)[i]? = some ps := by
      rw [List.getElem?_map, ha]
      rfl
    obtain ⟨hi, hps⟩ := List.getElem?_eq_some_iff.1 hps
    rw [List.map_set, ← hps, List.set_getElem_self]
  refine ⟨h.right, ?_, ?_, h.serves.afterTransfer.setFile dst _, ?_, ?_⟩
  · rw [List.map_set, List.map_set, h.threads, ht]
  · refine List.Perm.trans ?_ h.perm
    rw [hleft, List.append_assoc, List.append_assoc, List.append_assoc]
    exact List.Perm.append_left done (hopened.symm.append_right _)
  · show Function.update s.disk.files dst (some (overlay (s.disk.held dst) p.1 p.2)) = _
    rw [h.files, copiedSoFar_update, h.held, copiedSoFar, if_neg (by simp), writeAll, writeAll,
      List.foldl_append]
    rfl
  · rw [h.steps, hopened.length_eq, List.length_append, List.length_cons, List.length_singleton]
    omega

/-- A thread that is at its end takes no step. -/
theorem step_none (ha : as[i]? = none ∨ as[i]? = some (none, [])) : s.step i = none := by
  rw [CopyState.step, if_neg (by simp [h.right])]
  rcases ha with ha | ha
  · rw [h.no_thread ha]
    rfl
  · obtain ⟨t, ht, htodo⟩ := h.thread ha
    obtain ⟨hwriting, hmsgs⟩ := Prod.mk.inj htodo
    have hstep : t.step s.disk = none := by
      rw [CopyThread.step, hwriting, hmsgs]
      rfl
    rw [ht, Option.bind_some, hstep]

/-- Every other thread takes one, and does not go wrong. -/
theorem step_some (hd : Destination dst) (hn : (n : ℤ) < intMax)
    (hparts : ∀ p ∈ parts, Handleable n p)
    {a : Option (ℕ × List UInt8) × List (ℕ × List UInt8)} (ha : as[i]? = some a)
    (hne : a ≠ (none, [])) :
    ∃ u done' as', s.step i = some u ∧ CopyInv dst n files parts done' as' u (steps + 1) := by
  obtain ⟨t, ht, htodo⟩ := h.thread ha
  obtain ⟨hwriting, hmsgs⟩ := Prod.mk.inj htodo
  have hstep : ∀ r, t.step s.disk = some (.ok r) →
      s.step i = some ⟨r.1, s.threads.set i r.2, s.wrong⟩ := fun r hrun => by
    rw [CopyState.step, if_neg (by simp [h.right]), ht, Option.bind_some, hrun]
  obtain ⟨o, ps⟩ := a
  cases o with
  | some p =>
    have hp : Handleable n p := hparts p <| h.perm.mem_iff.1 <| by
      have hmem : p ∈ (openedIn as).flatten :=
        List.mem_flatten_of_mem (List.mem_map_of_mem (List.mem_of_getElem? ha)) (by simp)
      simp [hmem]
    have hrun := finish_chunk h.serves hd hp hn t
    refine ⟨_, _, _, hstep (_, { t with writing := none }) ?_, h.write_step ha (Prod.ext rfl hmsgs)⟩
    rw [CopyThread.step, hwriting]
    exact congrArg some hrun
  | none =>
    cases ps with
    | nil => exact absurd rfl hne
    | cons p ps =>
      have hrun := begin_chunk h.serves dst p t (arrivals dst ps)
      refine ⟨_, _, _, hstep (_, { t with
        writing := some (dst, CString.ofBytes (decimal p.1), (chunkMsg dst p).received)
        msgs := arrivals dst ps }) ?_, h.open_step ha rfl⟩
      rw [CopyThread.step, hwriting, hmsgs]
      exact congrArg some hrun

/-- A step keeps the invariant. -/
theorem step (hd : Destination dst) (hn : (n : ℤ) < intMax)
    (hparts : ∀ p ∈ parts, Handleable n p) (hu : s.step i = some u) :
    ∃ done' as', CopyInv dst n files parts done' as' u (steps + 1) := by
  cases ha : as[i]? with
  | none =>
    rw [h.step_none (.inl ha)] at hu
    cases hu
  | some a =>
    by_cases hne : a = (none, [])
    · rw [h.step_none (.inr (hne ▸ ha))] at hu
      cases hu
    · obtain ⟨u', done', as', hu', hinv⟩ := h.step_some hd hn hparts ha hne
      rw [hu, Option.some.injEq] at hu'
      exact ⟨done', as', hu' ▸ hinv⟩

/-- Some thread can go on, or all are at their end and everything is written. -/
theorem goes_on (hd : Destination dst) (hn : (n : ℤ) < intMax)
    (hparts : ∀ p ∈ parts, Handleable n p) :
    (steps < 2 * parts.length ∧ ∃ i, (s.step i).isSome) ∨
      (steps = 2 * parts.length ∧ (∀ i, s.step i = none) ∧ done.Perm parts ∧
        s.disk.files = copiedSoFar files dst done []) := by
  have hlen := h.perm.length_eq
  rw [List.length_append, List.length_append] at hlen
  have hsteps := h.steps
  by_cases hall : ∀ a ∈ as, a = (none, [])
  · have hopened : (openedIn as).flatten = [] := by
      rw [List.flatten_eq_nil_iff]
      intro l hl
      obtain ⟨a, ha, rfl⟩ := List.mem_map.1 hl
      rw [hall a ha]
      rfl
    have hleft : (as.map Prod.snd).flatten = [] := by
      rw [List.flatten_eq_nil_iff]
      intro l hl
      obtain ⟨a, ha, rfl⟩ := List.mem_map.1 hl
      rw [hall a ha]
    have hfiles := h.files
    have hperm := h.perm
    simp only [hopened, hleft, List.append_nil, List.length_nil] at hlen hsteps hfiles hperm
    refine .inr ⟨by omega, fun i => h.step_none ?_, hperm, hfiles⟩
    cases ha : as[i]? with
    | none => exact .inl rfl
    | some a => exact .inr (congrArg some (hall a (List.mem_of_getElem? ha)))
  · push Not at hall
    obtain ⟨a, ha, hne⟩ := hall
    obtain ⟨i, hi⟩ := List.mem_iff_getElem?.1 ha
    obtain ⟨u, -, -, hu, -⟩ := h.step_some hd hn hparts hi hne
    refine .inl ⟨?_, i, by rw [hu]; rfl⟩
    -- what is left of the thread counts
    have hpos : 0 < (openedIn as).flatten.length ∨ 0 < (as.map Prod.snd).flatten.length := by
      obtain ⟨o, ps⟩ := a
      cases o with
      | some p => exact .inl (List.length_pos_of_mem (List.mem_flatten_of_mem
          (List.mem_map_of_mem ha) (List.mem_singleton_self p)))
      | none =>
        cases ps with
        | nil => exact absurd rfl hne
        | cons p ps => exact .inr (List.length_pos_of_mem (List.mem_flatten_of_mem
            (List.mem_map_of_mem ha) List.mem_cons_self))
    omega

end CopyInv

/-- The invariant holds in every state of a run. -/
theorem copyInv_of_trace (hd : Destination dst) (hn : (n : ℤ) < intMax)
    (hparts : ∀ p ∈ parts, Handleable n p) {start : CopyState}
    (hstart : CopyInv dst n files parts done as start 0) {log : List (CopyState × ℕ)}
    (hrun : Trace CopyState.step start log s) :
    ∃ done as, CopyInv dst n files parts done as s log.length := by
  induction hrun with
  | start => exact ⟨done, as, hstart⟩
  | next _ hu ih =>
    obtain ⟨done', as', hinv⟩ := ih
    rw [List.length_append, List.length_singleton]
    exact hinv.step hd hn hparts hu

/-- The requests for a file come over any number of connections, each handled by a thread. In every
order of their steps no thread goes wrong. The threads can go on until every request has had its two
steps, and the file has arrived then. -/
theorem copies_interleaved {bytes : List UInt8} (hmax : (bytes.length : ℤ) < intMax)
    (hparts : Pieces 0 bytes parts) (hd : Destination dst)
    {conns : List (List (ℕ × List UInt8))} (hconns : conns.flatten.Perm parts) {disk : Files}
    (hdisk : disk.Serves bytes.length) {threads : List CopyThread}
    (hthreads : threads.map CopyThread.todo = conns.map fun parts => (none, arrivals dst parts))
    {log : List (CopyState × ℕ)} (hrun : Trace CopyState.step ⟨disk, threads, false⟩ log s) :
    s.wrong = false ∧
      ((log.length < 2 * parts.length ∧ ∃ i, (s.step i).isSome) ∨
        (log.length = 2 * parts.length ∧ (∀ i, s.step i = none) ∧
          s.disk.files = copied disk.files dst bytes)) := by
  have hhandle : ∀ p ∈ parts, Handleable bytes.length p := fun p hp => by
    obtain ⟨hne, -, hend⟩ := hparts.mem hp
    exact ⟨by omega, hne, by omega⟩
  have hstart : CopyInv dst bytes.length disk.files parts [] (conns.map fun parts => (none, parts))
      ⟨disk, threads, false⟩ 0 := by
    have hopened : (openedIn (conns.map fun parts => (none, parts))).flatten = [] := by
      rw [openedIn, List.map_map, List.flatten_eq_nil_iff]
      intro l hl
      obtain ⟨parts, -, rfl⟩ := List.mem_map.1 hl
      rfl
    refine ⟨rfl, ?_, ?_, hdisk, ?_, by rw [hopened]; rfl⟩
    · rw [hthreads, List.map_map]
      rfl
    · rw [hopened, List.append_nil, List.nil_append, List.map_map]
      exact (List.Perm.of_eq (congrArg List.flatten (List.map_id conns))).trans hconns
    · rw [hopened, copiedSoFar, if_pos ⟨rfl, rfl⟩]
  obtain ⟨done, as, hinv⟩ := copyInv_of_trace hd hmax hhandle hstart hrun
  refine ⟨hinv.right, (hinv.goes_on hd hmax hhandle).imp_right ?_⟩
  rintro ⟨hlen, hrest, hperm, hfiles⟩
  refine ⟨hlen, hrest, hfiles.trans ?_⟩
  rw [← written_pieces hparts hperm, written, copiedSoFar]
  simp only [and_true]

/-- Two threads with one half of a word each. -/
def halves : List CopyThread :=
  [[(2, ascii "llo")], [(0, ascii "he")]].map fun parts =>
    ⟨stillEnv.out, stillEnv.clock, none, arrivals (CString.ofBytes (ascii "b")) parts⟩

/-- Both open the file before one of them writes to it. -/
theorem copies_interleaved_halves : ∃ log s,
    Trace CopyState.step ⟨wordDisk, halves, false⟩ log s ∧ log.map Prod.snd = [0, 1, 1, 0] ∧
      s.disk.files = copied wordDisk.files (CString.ofBytes (ascii "b")) (ascii "hello") := by
  have hparts : Pieces 0 (ascii "hello") [(0, ascii "he"), (2, ascii "llo")] :=
    .cons (a := ascii "he") (by decide) (.cons (a := ascii "llo") (b := []) (by decide) .nil)
  have hperm : [[(2, ascii "llo")], [(0, ascii "he")]].flatten.Perm
      [(0, ascii "he"), (2, ascii "llo")] := List.Perm.swap _ _ []
  obtain ⟨s, hs⟩ := Option.isSome_iff_exists.1 (show
    (perform CopyState.step ⟨wordDisk, halves, false⟩ [0, 1, 1, 0]).isSome = true by decide)
  obtain ⟨log, hlog, hsteps⟩ := Trace.of_perform hs
  have hlen : log.length = 4 := by simpa using congrArg List.length hsteps
  obtain ⟨-, ⟨hless, -⟩ | ⟨-, -, hfiles⟩⟩ :=
    copies_interleaved (by decide) hparts destination_b hperm wordDisk_serves rfl hlog
  · rw [hlen] at hless
    exact absurd hless (by decide)
  · exact ⟨log, s, hlog, hsteps, hfiles⟩

end Runs

end Hermes
