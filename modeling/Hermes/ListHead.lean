import Hermes.CLib.Outcome
import Hermes.CLib.Ring
import Mathlib.Data.Fintype.EquivFin
import Mathlib.Data.List.AList

/-!
# Lists in memory

`hms_list.h`, pointer by pointer. `ListMem` is the memory of one list : its head, the nodes
allocated for it with the values beside their links, and what all pointers say. Reading or
writing the links of a node that is not allocated is undefined, and so is freeing one.

`ListMem.Holds` says that the memory holds a list of entries : the pointers form a ring through
their nodes, each node has its value, and no other node is allocated. Each function has one
lemma : adding at the tail appends an entry (`Holds.add`), deleting and freeing a node takes its
entry out (`Holds.del`), the first loop reads the entries in order (`Holds.forEachEntry`), and
the one that is safe against removal sees all of them, whichever its body deletes
(`Holds.forEachEntrySafe`).
-/

open CLib

namespace Hermes

/-- A pointer to list links : `NULL`, the head, or the links of the node at an address. -/
inductive Ptr
  | null
  | head
  | node (a : ℕ)
  deriving DecidableEq, Repr

/-- The memory of a list with values in `V`. -/
structure ListMem (V : Type) where
  links : Links Ptr
  nodes : AList fun _ : ℕ => V

namespace ListMem

variable {V : Type} (m : ListMem V)

/-- A pointer to links that are there. -/
def Live : Ptr → Prop
  | .null => False
  | .head => True
  | .node a => a ∈ m.nodes

instance (p : Ptr) : Decidable (m.Live p) :=
  match p with
  | .null => inferInstanceAs (Decidable False)
  | .head => inferInstanceAs (Decidable True)
  | .node a => inferInstanceAs (Decidable (a ∈ m.nodes))

/-- `p->next`. -/
def next (p : Ptr) : Run Ptr :=
  if m.Live p then .ok (m.links.next p) else .error .undefined

/-- `p->prev`. -/
def prev (p : Ptr) : Run Ptr :=
  if m.Live p then .ok (m.links.prev p) else .error .undefined

/-- `p->next = q`. -/
def setNext (p q : Ptr) : Run (ListMem V) :=
  if m.Live p then .ok { m with links := m.links.setNext p q } else .error .undefined

/-- `p->prev = q`. -/
def setPrev (p q : Ptr) : Run (ListMem V) :=
  if m.Live p then .ok { m with links := m.links.setPrev p q } else .error .undefined

/-- What stands beside the links of a node. The head stands in the message. -/
def value (p : Ptr) : Run V :=
  match p with
  | .node a => match m.nodes.lookup a with
    | some v => .ok v
    | none => .error .undefined
  | _ => .error .undefined

/-- `calloc` of a node, and its value set. The allocator gives an address that is free. -/
def calloc (a : ℕ) (v : V) : Run (ListMem V) :=
  if a ∈ m.nodes then .error .undefined
  else .ok
    { links := (m.links.setNext (.node a) .null).setPrev (.node a) .null
      nodes := m.nodes.insert a v }

/-- `free` of a node. -/
def free (p : Ptr) : Run (ListMem V) :=
  match p with
  | .node a => if a ∈ m.nodes then .ok { m with nodes := m.nodes.erase a } else .error .undefined
  | _ => .error .undefined

end ListMem

section Functions

variable {V σ : Type}

/-- `HMS_INIT_LIST_HEAD`. -/
def hmsInitListHead (m : ListMem V) (p : Ptr) : Run (ListMem V) := do
  let m ← m.setNext p p
  m.setPrev p p

/-- A node made : its value set and its links initialised. -/
def createNode (m : ListMem V) (a : ℕ) (v : V) : Run (ListMem V) := do
  hmsInitListHead (← m.calloc a v) (.node a)

/-- A list with nothing in it, its head initialised. -/
def emptyList : ListMem V where
  links := ⟨fun _ => .head, fun _ => .head⟩
  nodes := ∅

/-- `__hms_list_add`. -/
def hmsListAddBetween (m : ListMem V) (nnew prev next : Ptr) : Run (ListMem V) := do
  let m ← m.setPrev next nnew
  let m ← m.setNext nnew next
  let m ← m.setPrev nnew prev
  m.setNext prev nnew

/-- `hms_list_add_tail`. -/
def hmsListAddTail (m : ListMem V) (newp hd : Ptr) : Run (ListMem V) := do
  hmsListAddBetween m newp (← m.prev hd) hd

/-- `__hms_list_del`. -/
def hmsListDelBetween (m : ListMem V) (prev next : Ptr) : Run (ListMem V) := do
  let m ← m.setPrev next prev
  m.setNext prev next

/-- `hms_list_del`. -/
def hmsListDel (m : ListMem V) (entry : Ptr) : Run (ListMem V) := do
  let m ← hmsListDelBetween m (← m.prev entry) (← m.next entry)
  let m ← m.setNext entry .null
  m.setPrev entry .null

/-- The loop of `hms_list_for_each_entry` at `pos`. -/
def forEachEntryFrom (m : ListMem V) (body : Ptr → σ → Run (σ × Bool)) :
    ℕ → Ptr → σ → Run (Ptr × σ)
  | 0, _, _ => .error .undefined
  | fuel + 1, pos, st =>
    if pos = .head then .ok (pos, st)
    else do
      let (st, go) ← body pos st
      if go then forEachEntryFrom m body fuel (← m.next pos) st else return (pos, st)

/-- `hms_list_for_each_entry` : where it ends and the state of its body, which says whether to go
on. In a ring no node comes twice, so there are no more iterations than nodes. -/
def hmsListForEachEntry (m : ListMem V) (body : Ptr → σ → Run (σ × Bool)) (st : σ) :
    Run (Ptr × σ) := do
  forEachEntryFrom m body (m.nodes.entries.length + 1) (← m.next .head) st

/-- The loop of `hms_list_for_each_entry_safe` at `pos`, with `n` read ahead. -/
def forEachEntrySafeFrom (body : ListMem V → Ptr → σ → Run (ListMem V × σ × Bool)) :
    ℕ → ListMem V → Ptr → Ptr → σ → Run (ListMem V × σ)
  | 0, _, _, _, _ => .error .undefined
  | fuel + 1, m, pos, n, st =>
    if pos = .head then .ok (m, st)
    else do
      let (m, st, go) ← body m pos st
      if go then forEachEntrySafeFrom body fuel m n (← m.next n) st else return (m, st)

/-- `hms_list_for_each_entry_safe`, whose body may delete the entry it is at. -/
def hmsListForEachEntrySafe (m : ListMem V)
    (body : ListMem V → Ptr → σ → Run (ListMem V × σ × Bool)) (st : σ) : Run (ListMem V × σ) := do
  let pos ← m.next .head
  forEachEntrySafeFrom body (m.nodes.entries.length + 1) m pos (← m.next pos) st

end Functions

/-! ## Memory that holds a list -/

/-- The pointers to the entries. -/
def ptrs {V : Type} (es : List (ℕ × V)) : List Ptr :=
  es.map fun e => .node e.1

theorem ptrs_append {V : Type} (es fs : List (ℕ × V)) : ptrs (es ++ fs) = ptrs es ++ ptrs fs :=
  List.map_append

theorem node_mem_ptrs {V : Type} {es : List (ℕ × V)} {a : ℕ} :
    Ptr.node a ∈ ptrs es ↔ a ∈ es.map Prod.fst := by
  simp [ptrs]

/-- The memory holds the entries `es`, each an address and a value, and nothing else. -/
structure ListMem.Holds {V : Type} (m : ListMem V) (es : List (ℕ × V)) : Prop where
  ring : Ring m.links .head (ptrs es)
  value : ∀ e ∈ es, m.nodes.lookup e.1 = some e.2
  owned : ∀ a ∈ m.nodes, a ∈ es.map Prod.fst

theorem holds_emptyList {V : Type} : (emptyList : ListMem V).Holds [] where
  ring := Ring.nil_iff.2 ⟨rfl, rfl⟩
  value := by simp
  owned a ha := absurd ha (AList.notMem_empty a)

section Pointers

variable {V : Type} {m : ListMem V} {p q r : Ptr}

/-- Which nodes are there does not depend on the pointers. -/
theorem live_mk (L : Links Ptr) : (ListMem.mk L m.nodes).Live p ↔ m.Live p := by
  cases p <;> rfl

theorem next_of_live (h : m.Live p) : m.next p = .ok (m.links.next p) :=
  if_pos h

theorem prev_of_live (h : m.Live p) : m.prev p = .ok (m.links.prev p) :=
  if_pos h

theorem setNext_of_live (h : m.Live p) :
    m.setNext p q = .ok { m with links := m.links.setNext p q } :=
  if_pos h

theorem setPrev_of_live (h : m.Live p) :
    m.setPrev p q = .ok { m with links := m.links.setPrev p q } :=
  if_pos h

theorem hmsListAddBetween_eq (hp : m.Live p) (hq : m.Live q) (hr : m.Live r) :
    hmsListAddBetween m p q r = .ok { m with links := m.links.insert p q r } := by
  rw [hmsListAddBetween, setPrev_of_live hr, ok_bind, setNext_of_live ((live_mk _).2 hp), ok_bind,
    setPrev_of_live ((live_mk _).2 hp), ok_bind, setNext_of_live ((live_mk _).2 hq)]
  rfl

theorem hmsListDel_eq (hp : m.Live p) (hprev : m.Live (m.links.prev p))
    (hnext : m.Live (m.links.next p)) : hmsListDel m p = .ok { m with
      links := ((m.links.join (m.links.prev p) (m.links.next p)).setNext p .null).setPrev p .null } := by
  rw [hmsListDel, prev_of_live hp, ok_bind, next_of_live hp, ok_bind, hmsListDelBetween,
    setPrev_of_live hnext, ok_bind, setNext_of_live ((live_mk _).2 hprev), ok_bind,
    setNext_of_live ((live_mk _).2 hp), ok_bind, setPrev_of_live ((live_mk _).2 hp)]
  rfl

end Pointers

namespace ListMem.Holds

variable {V σ : Type} {m : ListMem V} {es pre suf : List (ℕ × V)} {a : ℕ} {v : V}

theorem mem_nodes (h : m.Holds es) {e : ℕ × V} (he : e ∈ es) : e.1 ∈ m.nodes := by
  rw [← AList.lookup_isSome, h.value e he]
  rfl

theorem mem_iff (h : m.Holds es) : a ∈ m.nodes ↔ a ∈ es.map Prod.fst := by
  refine ⟨h.owned a, fun ha => ?_⟩
  obtain ⟨e, he, rfl⟩ := List.mem_map.1 ha
  exact h.mem_nodes he

theorem nodup (h : m.Holds es) : (es.map Prod.fst).Nodup := by
  have hnodup := (List.nodup_cons.1 h.ring.nodup).2
  have hmap : ptrs es = (es.map Prod.fst).map Ptr.node := by simp [ptrs]
  rw [hmap] at hnodup
  exact hnodup.of_map

/-- There are as many nodes as entries. -/
theorem length_eq (h : m.Holds es) : m.nodes.entries.length = es.length := by
  have hperm : m.nodes.keys.Perm (es.map Prod.fst) :=
    (List.perm_ext_iff_of_nodup m.nodes.keys_nodup h.nodup).2 fun a => by
      rw [← AList.mem_keys]
      exact h.mem_iff
  have hlen := hperm.length_eq
  rwa [AList.keys, List.keys, List.length_map, List.length_map] at hlen

theorem live (h : m.Holds es) {p : Ptr} (hp : p ∈ Ptr.head :: ptrs es) : m.Live p := by
  rcases List.mem_cons.1 hp with rfl | hp
  · trivial
  · obtain ⟨e, he, rfl⟩ := List.mem_map.1 hp
    exact h.mem_nodes he

/-- An address that is free is no entry's. -/
theorem ne_node (h : m.Holds es) (ha : a ∉ m.nodes) {p : Ptr} (hp : p ∈ Ptr.head :: ptrs es) :
    p ≠ .node a := by
  rintro rfl
  exact ha (h.live hp)

/-- The links of a node made are its own, and nothing else changed. -/
theorem create (h : m.Holds es) (ha : a ∉ m.nodes) (v : V) : ∃ m', createNode m a v = .ok m' ∧
    Ring m'.links .head (ptrs es) ∧ m'.nodes = m.nodes.insert a v := by
  have hlive : ∀ L : Links Ptr, (ListMem.mk L (m.nodes.insert a v)).Live (.node a) := fun L =>
    (AList.mem_insert _).2 (.inl rfl)
  have hrun : createNode m a v = .ok ⟨((((m.links.setNext (.node a) .null).setPrev (.node a)
      .null).setNext (.node a) (.node a)).setPrev (.node a) (.node a)), m.nodes.insert a v⟩ := by
    rw [createNode, calloc, if_neg ha, ok_bind, hmsInitListHead, setNext_of_live (hlive _),
      ok_bind, setPrev_of_live (hlive _)]
  refine ⟨_, hrun, h.ring.frame fun p hp => ?_, rfl⟩
  simp [Links.setNext, Links.setPrev, h.ne_node ha hp]

/-- A node made and added at the tail is the last entry. -/
theorem add (h : m.Holds es) (ha : a ∉ m.nodes) (v : V) :
    ∃ m', (createNode m a v >>= fun m => hmsListAddTail m (.node a) .head) = .ok m' ∧
      m'.Holds (es ++ [(a, v)]) := by
  obtain ⟨m₁, hcreate, hring, hnodes⟩ := h.create ha v
  have hlive : ∀ {p}, p ∈ Ptr.head :: ptrs es → m₁.Live p := by
    intro p hp
    have hp := h.live hp
    cases p with
    | null => exact hp
    | head => trivial
    | node b =>
      show b ∈ m₁.nodes
      rw [hnodes, AList.mem_insert]
      exact .inr hp
  have hnew : m₁.Live (.node a) := by
    show a ∈ m₁.nodes
    rw [hnodes, AList.mem_insert]
    exact .inl rfl
  have hlast := (Ring.mem_seam .head (ptrs es) []).1
  rw [List.append_nil] at hlast
  have hrun : hmsListAddTail m₁ (.node a) .head = .ok { m₁ with
      links := m₁.links.insert (.node a) ((ptrs es).getLast?.getD .head) .head } := by
    rw [hmsListAddTail, prev_of_live (hlive (by simp)), ok_bind, hring.prev_head,
      hmsListAddBetween_eq hnew (hlive hlast) (hlive (by simp))]
  refine ⟨_, by rw [hcreate, ok_bind, hrun], ?_, ?_, ?_⟩
  · rw [← List.append_nil (ptrs es)] at hring
    have hinsert := hring.insert (x := .node a) (by simpa using fun hp => h.ne_node ha hp rfl)
    simpa [ptrs] using hinsert
  · intro e he
    show m₁.nodes.lookup e.1 = some e.2
    rw [hnodes]
    rcases List.mem_append.1 he with he | he
    · have hea : e.1 ≠ a := fun heq => ha (heq ▸ h.mem_nodes he)
      rw [AList.lookup_insert_ne hea]
      exact h.value e he
    · rw [List.mem_singleton.1 he]
      exact AList.lookup_insert _
  · intro b hb
    have hb : b = a ∨ b ∈ m.nodes := by
      rw [← AList.mem_insert, ← hnodes]
      exact hb
    rw [List.map_append, List.mem_append]
    rcases hb with rfl | hb
    · exact .inr (by simp)
    · exact .inl (h.owned b hb)

/-- A node deleted and freed is no entry any more. -/
theorem del (h : m.Holds (pre ++ (a, v) :: suf)) :
    ∃ m', (hmsListDel m (.node a) >>= fun m => m.free (.node a)) = .ok m' ∧
      m'.Holds (pre ++ suf) := by
  have hring : Ring m.links .head (ptrs pre ++ .node a :: ptrs suf) := by
    have hring := h.ring
    rwa [ptrs_append] at hring
  have hlive : ∀ {p}, p ∈ Ptr.head :: (ptrs pre ++ ptrs suf) → m.Live p := by
    intro p hp
    refine h.live ?_
    rw [ptrs_append]
    rw [List.mem_cons, List.mem_append] at hp ⊢
    exact hp.imp_right fun hp => hp.imp_right (List.mem_cons_of_mem _)
  have hmem : a ∈ m.nodes := h.mem_iff.2 (by simp)
  obtain ⟨hprev, hnext⟩ := Ring.mem_seam .head (ptrs pre) (ptrs suf)
  rw [← hring.prev_node] at hprev
  rw [← hring.next_node] at hnext
  have hdel := hmsListDel_eq (p := .node a) hmem (hlive hprev) (hlive hnext)
  -- no other entry is at `a`
  have hother : a ∉ (pre ++ suf).map Prod.fst := by
    have hnodup := h.nodup
    rw [List.map_append, List.map_cons, List.nodup_middle, List.nodup_cons] at hnodup
    rw [List.map_append]
    exact hnodup.1
  refine ⟨_, by rw [hdel, ok_bind, free, if_pos hmem], ?_, ?_, ?_⟩
  · rw [ptrs_append]
    refine hring.remove.frame fun p hp => ?_
    have hpa : p ≠ .node a := by
      rintro rfl
      rw [← ptrs_append, List.mem_cons, node_mem_ptrs] at hp
      exact hother (hp.resolve_left (by simp))
    simp [Links.setNext, Links.setPrev, hpa]
  · intro e he
    have hea : e.1 ≠ a := fun heq => hother (heq ▸ List.mem_map_of_mem he)
    show (m.nodes.erase a).lookup e.1 = some e.2
    rw [AList.lookup_erase_ne hea]
    refine h.value e ?_
    rw [List.mem_append] at he ⊢
    exact he.imp_right (List.mem_cons_of_mem _)
  · intro b hb
    obtain ⟨hne, hb⟩ := AList.mem_erase.1 hb
    have hb := h.owned b hb
    rw [List.map_append, List.map_cons, List.mem_append, List.mem_cons] at hb
    rw [List.map_append, List.mem_append]
    exact hb.imp_right fun hb => hb.resolve_left hne

end ListMem.Holds

/-! ## The loops -/

section Loops

variable {V σ : Type}

/-- What a loop that only reads does with the values, and the value it stops at. -/
def scan (step : V → σ → Run (σ × Bool)) : List V → σ → Run (Option V × σ)
  | [], st => .ok (none, st)
  | v :: vs, st => do
    let (st, go) ← step v st
    if go then scan step vs st else return (some v, st)

/-- A loop without `break` is a fold. -/
theorem scan_true (f : σ → V → Run σ) : ∀ (vs : List V) (st : σ),
    scan (fun v st => f st v >>= fun st => .ok (st, true)) vs st =
      (vs.foldlM f st >>= fun st => .ok (none, st))
  | [], st => rfl
  | v :: vs, st => by
    rw [scan, List.foldlM_cons, bind_assoc, bind_assoc]
    congr 1
    funext st'
    exact scan_true f vs st'

/-- A loop that counts up to `index` stops at the value there. -/
theorem scan_index (index : ℤ) : ∀ (vs : List V) (i : ℤ), i ≤ index →
    ∃ j, scan (fun _ i => .ok (i + 1, decide (i ≠ index))) vs i = .ok (vs[(index - i).toNat]?, j)
  | [], i, _ => ⟨i, rfl⟩
  | v :: vs, i, hi => by
    by_cases h : i = index
    · exact ⟨i + 1, by simp [scan, h]⟩
    · obtain ⟨j, hj⟩ := scan_index index vs (i + 1) (by omega)
      have hpos : (index - i).toNat = (index - (i + 1)).toNat + 1 := by omega
      refine ⟨j, ?_⟩
      rw [hpos, List.getElem?_cons_succ, ← hj]
      simp [scan, h]

/-- A loop that stops at the first value with a property. -/
theorem scan_find (p : V → Bool) : ∀ (vs : List V),
    scan (fun v _ => .ok (p v, !p v)) vs false = .ok (vs.find? p, vs.any p)
  | [] => rfl
  | v :: vs => by
    have ih := scan_find p vs
    cases h : p v <;> simp [scan, h, ih]

/-- One visit of a loop that may delete : the new state, whether the entry goes, and whether the
loop goes on. -/
structure Visit (σ : Type) where
  state : σ
  deletes : Bool
  go : Bool

/-- What a loop leaves, and its state in the end. -/
def sweep {β : Type} (step : β → σ → Visit σ) : List β → σ → List β × σ
  | [], st => ([], st)
  | b :: bs, st =>
    let visit := step b st
    let rest := if visit.go then sweep step bs visit.state else (bs, visit.state)
    (if visit.deletes then rest.1 else b :: rest.1, rest.2)

theorem sweep_map {β γ : Type} (step : γ → σ → Visit σ) (f : β → γ) : ∀ (bs : List β) (st : σ),
    sweep step (bs.map f) st =
      ((sweep (fun b => step (f b)) bs st).1.map f, (sweep (fun b => step (f b)) bs st).2)
  | [], st => rfl
  | b :: bs, st => by
    have ih := sweep_map step f bs (step (f b) st).state
    simp only [List.map_cons, sweep, ih]
    split_ifs <;> rfl

section Visits

variable {β : Type}

/-- Delete all. -/
def visitAll (f : σ → σ) (_ : β) (st : σ) : Visit σ :=
  ⟨f st, true, true⟩

/-- Count up to `index` and delete what is there. -/
def visitIndex (index : ℤ) (f : σ → σ) (_ : β) (st : ℤ × σ) : Visit (ℤ × σ) :=
  if st.1 = index then ⟨(st.1 + 1, f st.2), true, false⟩ else ⟨(st.1 + 1, st.2), false, true⟩

/-- Delete the first with a property. -/
def visitFind (p : β → Bool) (f : σ → σ) (b : β) (st : σ) : Visit σ :=
  if p b then ⟨f st, true, false⟩ else ⟨st, false, true⟩

theorem sweep_all (f : σ → σ) : ∀ (bs : List β) (st : σ),
    sweep (visitAll f) bs st = ([], bs.foldl (fun st _ => f st) st)
  | [], st => rfl
  | b :: bs, st => by simp [sweep, visitAll, ← sweep_all f bs (f st)]

theorem sweep_index (index : ℤ) (f : σ → σ) : ∀ (bs : List β) (i : ℤ) (st : σ), i ≤ index →
    ∃ j, sweep (visitIndex index f) bs (i, st) =
      (bs.eraseIdx (index - i).toNat, j, if (index - i).toNat < bs.length then f st else st)
  | [], i, st, _ => ⟨i, rfl⟩
  | b :: bs, i, st, hi => by
    by_cases h : i = index
    · exact ⟨i + 1, by simp [sweep, visitIndex, h]⟩
    · obtain ⟨j, hj⟩ := sweep_index index f bs (i + 1) st (by omega)
      have hpos : (index - i).toNat = (index - (i + 1)).toNat + 1 := by omega
      refine ⟨j, ?_⟩
      rw [hpos, List.eraseIdx_cons_succ, List.length_cons, sweep]
      simp [visitIndex, h, hj]

theorem sweep_find (p : β → Bool) (f : σ → σ) : ∀ (bs : List β) (st : σ),
    sweep (visitFind p f) bs st = (bs.eraseP p, if bs.any p then f st else st)
  | [], st => rfl
  | b :: bs, st => by
    have ih := sweep_find p f bs st
    cases h : p b <;> simp [sweep, visitFind, h, ih]

end Visits

variable {m : ListMem V} {es : List (ℕ × V)}

theorem value_of_lookup {a : ℕ} {v : V} (h : m.nodes.lookup a = some v) :
    m.value (.node a) = .ok v := by
  simp [ListMem.value, h]

section Reading

variable {β : Type} {body : Ptr → σ → Run (σ × Bool)} {step : V → σ → Run (σ × Bool)}
  {after : Ptr × σ → Run β} {after' : Option V × σ → Run β}
  (hbody : ∀ a v st, m.nodes.lookup a = some v → body (.node a) st = step v st)
  (hend : ∀ st, after (.head, st) = after' (none, st))
  (hafter : ∀ a v st, m.nodes.lookup a = some v → after (.node a, st) = after' (some v, st))
include hbody hend hafter

theorem forEachEntryFrom_eq : ∀ (suf pre : List (ℕ × V)) (fuel : ℕ) (st : σ),
    m.Holds (pre ++ suf) → suf.length < fuel →
      (forEachEntryFrom m body fuel ((ptrs suf).head?.getD .head) st >>= after) =
        (scan step (suf.map Prod.snd) st >>= after')
  | [], pre, fuel, st, h, hfuel => by
    obtain ⟨fuel, rfl⟩ : ∃ f, fuel = f + 1 := ⟨fuel - 1, by omega⟩
    exact hend st
  | e :: suf, pre, fuel, st, h, hfuel => by
    obtain ⟨fuel, rfl⟩ : ∃ f, fuel = f + 1 := ⟨fuel - 1, by omega⟩
    have hlookup : m.nodes.lookup e.1 = some e.2 := h.value e (by simp)
    have hnext : m.next (.node e.1) = .ok ((ptrs suf).head?.getD .head) := by
      have hring := h.ring
      rw [ptrs_append] at hring
      rw [next_of_live (h.live (List.mem_cons_of_mem _ (node_mem_ptrs.2 (by simp))))]
      exact congrArg Except.ok hring.next_node
    rw [List.append_cons] at h
    have ih := fun st => forEachEntryFrom_eq suf _ fuel st h (by simpa using hfuel)
    show (forEachEntryFrom m body (fuel + 1) (.node e.1) st >>= after) = _
    rw [forEachEntryFrom, if_neg (by simp), hbody e.1 e.2 st hlookup, List.map_cons, scan]
    simp only [bind_assoc]
    congr 1
    funext r
    cases r.2 with
    | true => simpa only [hnext, ok_bind, if_true] using ih r.1
    | false => exact hafter e.1 e.2 r.1 hlookup

/-- The loop reads the values in order. What comes after it may use the entry it stopped at. -/
theorem ListMem.Holds.forEachEntry (h : m.Holds es) (st : σ) :
    (hmsListForEachEntry m body st >>= after) = (scan step (es.map Prod.snd) st >>= after') := by
  have hfuel : es.length < m.nodes.entries.length + 1 := by
    rw [h.length_eq]
    exact Nat.lt_succ_self _
  rw [hmsListForEachEntry, next_of_live (h.live (by simp)), ok_bind, h.ring.next_head]
  exact forEachEntryFrom_eq hbody hend hafter es [] _ st h hfuel

end Reading

section Deleting

variable {body : ListMem V → Ptr → σ → Run (ListMem V × σ × Bool)} {step : V → σ → Visit σ}
  (hbody : ∀ (m : ListMem V) (pre : List (ℕ × V)) (e : ℕ × V) (suf : List (ℕ × V)) (st : σ),
    m.Holds (pre ++ e :: suf) → ∃ m', body m (.node e.1) st =
        .ok (m', (step e.2 st).state, (step e.2 st).go) ∧
      m'.Holds (pre ++ (if (step e.2 st).deletes then [] else [e]) ++ suf))
include hbody

theorem forEachEntrySafeFrom_eq :
    ∀ (suf pre : List (ℕ × V)) (m : ListMem V) (fuel : ℕ) (n : Ptr) (st : σ),
      m.Holds (pre ++ suf) → suf.length < fuel →
      (suf ≠ [] → n = (ptrs suf.tail).head?.getD .head) →
      ∃ m', forEachEntrySafeFrom body fuel m ((ptrs suf).head?.getD .head) n st =
          .ok (m', (sweep (fun e => step e.2) suf st).2) ∧
        m'.Holds (pre ++ (sweep (fun e => step e.2) suf st).1)
  | [], pre, m, fuel, n, st, h, hfuel, _ => by
    obtain ⟨fuel, rfl⟩ : ∃ f, fuel = f + 1 := ⟨fuel - 1, by omega⟩
    exact ⟨m, rfl, h⟩
  | e :: suf, pre, m, fuel, n, st, h, hfuel, hn => by
    obtain ⟨fuel, rfl⟩ : ∃ f, fuel = f + 1 := ⟨fuel - 1, by omega⟩
    obtain ⟨m₁, hrun, h₁⟩ := hbody m pre e suf st h
    obtain rfl := hn (by simp)
    have hstart : forEachEntrySafeFrom body (fuel + 1) m ((ptrs (e :: suf)).head?.getD .head)
        ((ptrs (e :: suf).tail).head?.getD .head) st =
        forEachEntrySafeFrom body (fuel + 1) m (.node e.1) ((ptrs suf).head?.getD .head) st :=
      rfl
    have hleft : ∀ es : List (ℕ × V), pre ++ (if (step e.2 st).deletes then es else e :: es) =
        pre ++ (if (step e.2 st).deletes then [] else [e]) ++ es := fun es => by
      split_ifs <;> simp
    rw [hstart, forEachEntrySafeFrom, if_neg (by simp), hrun, ok_bind, sweep]
    cases hgo : (step e.2 st).go with
    | false =>
      refine ⟨m₁, rfl, ?_⟩
      show m₁.Holds (pre ++ (if (step e.2 st).deletes then suf else e :: suf))
      rwa [hleft]
    | true =>
      -- the entry read ahead is still there
      obtain ⟨n', hnext, hn'⟩ : ∃ n', m₁.next ((ptrs suf).head?.getD .head) = .ok n' ∧
          (suf ≠ [] → n' = (ptrs suf.tail).head?.getD .head) := by
        have hring := h₁.ring
        rw [ptrs_append] at hring
        refine ⟨_, next_of_live (h₁.live ?_), fun hne => ?_⟩
        · rw [ptrs_append]
          exact (Ring.mem_seam _ _ _).2
        · obtain ⟨e', suf', rfl⟩ := List.exists_cons_of_ne_nil hne
          exact hring.next_node
      obtain ⟨m₂, hloop, h₂⟩ := forEachEntrySafeFrom_eq suf _ m₁ fuel n' (step e.2 st).state
        h₁ (by simpa using hfuel) hn'
      refine ⟨m₂, ?_, ?_⟩
      · simp only [hnext, ok_bind, hloop, if_true]
      · simp only [if_true]
        rwa [hleft]

/-- A loop that may delete the entry it is at sees all entries in order. -/
theorem ListMem.Holds.forEachEntrySafe (h : m.Holds es) (st : σ) :
    ∃ m', hmsListForEachEntrySafe m body st = .ok (m', (sweep (fun e => step e.2) es st).2) ∧
      m'.Holds (sweep (fun e => step e.2) es st).1 := by
  have hfuel : es.length < m.nodes.entries.length + 1 := by
    rw [h.length_eq]
    exact Nat.lt_succ_self _
  have hfirst : m.next .head = .ok ((ptrs es).head?.getD .head) := by
    rw [next_of_live (h.live (by simp)), h.ring.next_head]
  have hlive : m.Live ((ptrs es).head?.getD .head) := h.live (Ring.mem_seam Ptr.head [] _).2
  have hn : es ≠ [] → m.links.next ((ptrs es).head?.getD .head) =
      (ptrs es.tail).head?.getD .head := by
    intro hne
    obtain ⟨e, es', rfl⟩ := List.exists_cons_of_ne_nil hne
    have hring := h.ring
    rw [← List.nil_append (ptrs _)] at hring
    exact hring.next_node
  obtain ⟨m', hrun, h'⟩ := forEachEntrySafeFrom_eq hbody es [] m _ _ st h hfuel hn
  refine ⟨m', ?_, h'⟩
  rw [hmsListForEachEntrySafe, hfirst, ok_bind, next_of_live hlive, ok_bind, hrun]

end Deleting

end Loops

/-! ## Lists of values -/

/-- A loop body that makes the visits of `step` : an entry that a visit deletes is unlinked and
freed. -/
def Visits {V σ : Type} (body : ListMem V → Ptr → σ → Run (ListMem V × σ × Bool))
    (step : V → σ → Visit σ) : Prop :=
  ∀ m a v st, m.nodes.lookup a = some v → body m (.node a) st =
    if (step v st).deletes then
      hmsListDel m (.node a) >>= fun m => m.free (.node a) >>= fun m =>
        .ok (m, (step v st).state, (step v st).go)
    else .ok (m, (step v st).state, (step v st).go)

/-- The memory holds the values `vs`, at some addresses. -/
def ListMem.HasValues {V : Type} (m : ListMem V) (vs : List V) : Prop :=
  ∃ es, m.Holds es ∧ es.map Prod.snd = vs

/-- Some address is free. -/
theorem ListMem.exists_free {V : Type} (m : ListMem V) : ∃ a, a ∉ m.nodes := by
  obtain ⟨a, ha⟩ := Infinite.exists_notMem_finset m.nodes.keys.toFinset
  exact ⟨a, fun hmem => ha (List.mem_toFinset.2 (AList.mem_keys.2 hmem))⟩

theorem hasValues_emptyList {V : Type} : (emptyList : ListMem V).HasValues [] :=
  ⟨[], holds_emptyList, rfl⟩

namespace ListMem.HasValues

variable {V σ : Type} {m : ListMem V} {vs : List V}

theorem add (h : m.HasValues vs) {a : ℕ} (ha : a ∉ m.nodes) (v : V) :
    ∃ m', (createNode m a v >>= fun m => hmsListAddTail m (.node a) .head) = .ok m' ∧
      m'.HasValues (vs ++ [v]) := by
  obtain ⟨es, h, rfl⟩ := h
  obtain ⟨m', hrun, h'⟩ := h.add ha v
  exact ⟨m', hrun, _, h', by simp⟩

/-- Any values can be in memory. -/
theorem exists_of_values (vs : List V) : ∃ m : ListMem V, m.HasValues vs := by
  induction vs using List.reverseRecOn with
  | nil => exact ⟨_, hasValues_emptyList⟩
  | append_singleton vs v ih =>
    obtain ⟨m, h⟩ := ih
    obtain ⟨a, ha⟩ := m.exists_free
    obtain ⟨m', -, h'⟩ := h.add ha v
    exact ⟨m', h'⟩

/-- The allocator gave a free address if the node was made. -/
theorem add_of_ok (h : m.HasValues vs) {a : ℕ} {v : V} {m' : ListMem V}
    (hrun : (createNode m a v >>= fun m => hmsListAddTail m (.node a) .head) = .ok m') :
    m'.HasValues (vs ++ [v]) := by
  by_cases ha : a ∈ m.nodes
  · rw [createNode, ListMem.calloc, if_pos ha] at hrun
    cases hrun
  · obtain ⟨m₁, hrun₁, h₁⟩ := h.add ha v
    rw [hrun₁] at hrun
    cases hrun
    exact h₁

theorem forEachEntry {β : Type} {body : Ptr → σ → Run (σ × Bool)} {step : V → σ → Run (σ × Bool)}
    {after : Ptr × σ → Run β} {after' : Option V × σ → Run β} (h : m.HasValues vs)
    (hbody : ∀ a v st, m.nodes.lookup a = some v → body (.node a) st = step v st)
    (hend : ∀ st, after (.head, st) = after' (none, st))
    (hafter : ∀ a v st, m.nodes.lookup a = some v → after (.node a, st) = after' (some v, st))
    (st : σ) : (hmsListForEachEntry m body st >>= after) = (scan step vs st >>= after') := by
  obtain ⟨es, h, rfl⟩ := h
  exact h.forEachEntry hbody hend hafter st

/-- A loop without `break` that reads the values. -/
theorem fold {β : Type} (h : m.HasValues vs) (f : σ → V → Run σ) (k : σ → Run β) (st : σ) :
    (hmsListForEachEntry m (fun p st => m.value p >>= fun v => f st v >>= fun st => .ok (st, true)) st
      >>= fun r => k r.2) = (vs.foldlM f st >>= k) := by
  have hbody : ∀ a v st, m.nodes.lookup a = some v →
      (m.value (.node a) >>= fun v => f st v >>= fun st => .ok (st, true)) =
        (f st v >>= fun st => .ok (st, true)) := fun a v st hv => by
    rw [value_of_lookup hv, ok_bind]
  have hloop : (hmsListForEachEntry m (fun p st =>
        m.value p >>= fun v => f st v >>= fun st => .ok (st, true)) st >>= fun r => k r.2) =
      (scan (fun v st => f st v >>= fun st => .ok (st, true)) vs st >>= fun r => k r.2) :=
    h.forEachEntry hbody (fun _ => rfl) (fun _ _ _ _ => rfl) st
  rw [hloop, scan_true, bind_assoc]
  rfl

/-- A loop that deletes and frees the entries of some visits. -/
theorem forEachEntrySafe {body : ListMem V → Ptr → σ → Run (ListMem V × σ × Bool)}
    {step : V → σ → Visit σ} (h : m.HasValues vs) (hbody : Visits body step) (st : σ) :
    ∃ m', hmsListForEachEntrySafe m body st = .ok (m', (sweep step vs st).2) ∧
      m'.HasValues (sweep step vs st).1 := by
  obtain ⟨es, h, rfl⟩ := h
  have hvisit : ∀ (m : ListMem V) (pre : List (ℕ × V)) (e : ℕ × V) (suf : List (ℕ × V)) (st : σ),
      m.Holds (pre ++ e :: suf) → ∃ m', body m (.node e.1) st =
          .ok (m', (step e.2 st).state, (step e.2 st).go) ∧
        m'.Holds (pre ++ (if (step e.2 st).deletes then [] else [e]) ++ suf) := by
    intro m pre e suf st h
    rw [hbody m e.1 e.2 st (h.value e (by simp))]
    split_ifs with hdel
    · obtain ⟨m', hrun, h'⟩ := h.del
      exact ⟨m', by rw [← bind_assoc, hrun, ok_bind], by rwa [List.append_nil]⟩
    · exact ⟨m, rfl, by rwa [← List.append_cons]⟩
  obtain ⟨m', hrun, h'⟩ := h.forEachEntrySafe hvisit st
  rw [sweep_map]
  exact ⟨m', hrun, _, h', rfl⟩

end ListMem.HasValues

end Hermes
