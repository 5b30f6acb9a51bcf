import Hermes.CLib.Rings
import Hermes.ListHead

/-!
# Several lists in memory

The rest of `hms_list.h`. A head is links as those of a node are, so a memory holds any number of
lists : `ListMem.Family` says that its pointers form the rings of a family and that all their
nodes are allocated. Each function has its edit of the family (`ListCall.effect`), and the
arguments it is made for (`ListCall.Fits`).

`listCalls_run` is about any calls in turn. None is undefined, the memory holds the family that
the edits make, and at every head of it `hms_list_empty` and the loops over the pointers, forwards
and backwards, see the list.
-/

open CLib

namespace Hermes

section Functions

variable {V σ : Type} (m : ListMem V)

/-- `hms_list_add`. -/
def hmsListAdd (newp hd : Ptr) : Run (ListMem V) := do
  hmsListAddBetween m newp hd (← m.next hd)

/-- `hms_list_del_init`. -/
def hmsListDelInit (entry : Ptr) : Run (ListMem V) := do
  let m ← hmsListDelBetween m (← m.prev entry) (← m.next entry)
  hmsInitListHead m entry

/-- `hms_list_move`. -/
def hmsListMove (list hd : Ptr) : Run (ListMem V) := do
  let m ← hmsListDelBetween m (← m.prev list) (← m.next list)
  hmsListAdd m list hd

/-- `hms_list_move_tail`. -/
def hmsListMoveTail (list hd : Ptr) : Run (ListMem V) := do
  let m ← hmsListDelBetween m (← m.prev list) (← m.next list)
  hmsListAddTail m list hd

/-- `hms_list_empty`. -/
def hmsListEmpty (hd : Ptr) : Run Bool := do
  let next ← m.next hd
  return decide (next = hd)

/-- `__hms_list_splice`. -/
def hmsListSpliceBetween (list hd : Ptr) : Run (ListMem V) := do
  let first ← m.next list
  let last ← m.prev list
  let after ← m.next hd
  let m ← m.setPrev first hd
  let m ← m.setNext hd first
  let m ← m.setNext last after
  m.setPrev after last

/-- `hms_list_splice`. -/
def hmsListSplice (list hd : Ptr) : Run (ListMem V) := do
  if ← hmsListEmpty m list then return m
  else hmsListSpliceBetween m list hd

/-- `hms_list_splice_init`. -/
def hmsListSpliceInit (list hd : Ptr) : Run (ListMem V) := do
  if ← hmsListEmpty m list then return m
  else hmsInitListHead (← hmsListSpliceBetween m list hd) list

/-- A loop over the pointers of the list at `hd`, at `pos`. -/
def forEachFrom (next : Ptr → Run Ptr) (body : Ptr → σ → Run (σ × Bool)) (hd : Ptr) :
    ℕ → Ptr → σ → Run (Ptr × σ)
  | 0, _, _ => .error .undefined
  | fuel + 1, pos, st =>
    if pos = hd then .ok (pos, st)
    else do
      let (st, go) ← body pos st
      if go then forEachFrom next body hd fuel (← next pos) st else return (pos, st)

/-- `hms_list_for_each` : where it ends and the state of its body, which says whether to go on. In
a ring no node comes twice. -/
def hmsListForEach (hd : Ptr) (body : Ptr → σ → Run (σ × Bool)) (st : σ) : Run (Ptr × σ) := do
  forEachFrom m.next body hd (m.nodes.entries.length + 1) (← m.next hd) st

/-- `hms_list_for_each_prev`. -/
def hmsListForEachPrev (hd : Ptr) (body : Ptr → σ → Run (σ × Bool)) (st : σ) : Run (Ptr × σ) := do
  forEachFrom m.prev body hd (m.nodes.entries.length + 1) (← m.prev hd) st

end Functions

/-! ## Calls -/

/-- A call of a function of `hms_list.h` that writes. -/
inductive ListCall
  | init (ptr : Ptr)
  | add (newp hd : Ptr)
  | addTail (newp hd : Ptr)
  | del (entry : Ptr)
  | delInit (entry : Ptr)
  | move (list hd : Ptr)
  | moveTail (list hd : Ptr)
  | splice (list hd : Ptr)
  | spliceInit (list hd : Ptr)
  deriving DecidableEq, Repr

namespace ListCall

/-- The call in memory. -/
def run {V : Type} (m : ListMem V) : ListCall → Run (ListMem V)
  | .init ptr => hmsInitListHead m ptr
  | .add newp hd => hmsListAdd m newp hd
  | .addTail newp hd => hmsListAddTail m newp hd
  | .del entry => hmsListDel m entry
  | .delInit entry => hmsListDelInit m entry
  | .move list hd => hmsListMove m list hd
  | .moveTail list hd => hmsListMoveTail m list hd
  | .splice list hd => hmsListSplice m list hd
  | .spliceInit list hd => hmsListSpliceInit m list hd

/-- What it makes of the lists. -/
def effect (F : List (List Ptr)) : ListCall → List (List Ptr)
  | .init ptr => [ptr] :: without ptr F
  | .add newp hd => putBehind hd [newp] (without newp F)
  | .addTail newp hd => putBefore hd newp (without newp F)
  | .del entry => takeOut entry F
  | .delInit entry => [entry] :: takeOut entry F
  | .move list hd => putBehind hd [list] (takeOut list F)
  | .moveTail list hd => putBefore hd list (takeOut list F)
  | .splice list hd =>
    if behind list F = [] then F else putBehind hd (behind list F) (without list F)
  | .spliceInit list hd =>
    if behind list F = [] then F else [list] :: putBehind hd (behind list F) (without list F)

/-- The arguments it is made for. A new node is in no list or a list of its own, as
`HMS_INIT_LIST_HEAD` makes it, an entry is not a head, and no list is put into itself. -/
def Fits (live : Ptr → Prop) (F : List (List Ptr)) : ListCall → Prop
  | .init ptr => live ptr ∧ IsLoose ptr F
  | .add newp hd | .addTail newp hd =>
    (live newp ∧ IsLoose newp F) ∧ hd ∈ F.flatten ∧ hd ≠ newp
  | .del entry | .delInit entry => IsEntry entry F
  | .move list hd | .moveTail list hd => IsEntry list F ∧ hd ∈ F.flatten ∧ hd ≠ list
  | .splice list hd | .spliceInit list hd =>
    (∃ c ∈ F, c.head? = some list ∧ hd ∉ c) ∧ hd ∈ F.flatten

instance (live : Ptr → Prop) [DecidablePred live] (F : List (List Ptr)) :
    ∀ call : ListCall, Decidable (call.Fits live F)
  | .init ptr => inferInstanceAs (Decidable (live ptr ∧ (ptr ∉ F.flatten ∨ [ptr] ∈ F)))
  | .add newp hd | .addTail newp hd => inferInstanceAs (Decidable
      ((live newp ∧ (newp ∉ F.flatten ∨ [newp] ∈ F)) ∧ hd ∈ F.flatten ∧ hd ≠ newp))
  | .del entry | .delInit entry => inferInstanceAs (Decidable (∃ c ∈ F, entry ∈ c.tail))
  | .move list hd | .moveTail list hd =>
    inferInstanceAs (Decidable ((∃ c ∈ F, list ∈ c.tail) ∧ hd ∈ F.flatten ∧ hd ≠ list))
  | .splice list hd | .spliceInit list hd =>
    inferInstanceAs (Decidable ((∃ c ∈ F, c.head? = some list ∧ hd ∉ c) ∧ hd ∈ F.flatten))

/-- Each call fits the lists that the calls before it make. -/
def AllFit (live : Ptr → Prop) : List (List Ptr) → List ListCall → Prop
  | _, [] => True
  | F, call :: calls => call.Fits live F ∧ AllFit live (call.effect F) calls

instance decidableAllFit (live : Ptr → Prop) [DecidablePred live] :
    ∀ (F : List (List Ptr)) (calls : List ListCall), Decidable (AllFit live F calls)
  | _, [] => inferInstanceAs (Decidable True)
  | F, call :: calls =>
    have := decidableAllFit live (call.effect F) calls
    inferInstanceAs (Decidable (call.Fits live F ∧ AllFit live (call.effect F) calls))

end ListCall

/-! ## Memory that holds several lists -/

/-- The pointers form the rings of `F`, and their nodes are there. -/
structure ListMem.Family {V : Type} (m : ListMem V) (F : List (List Ptr)) : Prop where
  rings : Rings m.links F
  live : ∀ p ∈ F.flatten, m.Live p

section Pointers

variable {V : Type} {m : ListMem V} {p q r : Ptr}

theorem hmsInitListHead_eq (hp : m.Live p) : hmsInitListHead m p =
    .ok { m with links := (m.links.setNext p p).setPrev p p } := by
  rw [hmsInitListHead, setNext_of_live hp, ok_bind, setPrev_of_live ((live_mk _).2 hp)]

theorem hmsListDelBetween_eq (hp : m.Live p) (hq : m.Live q) : hmsListDelBetween m p q =
    .ok { m with links := m.links.join p q } := by
  rw [hmsListDelBetween, setPrev_of_live hq, ok_bind, setNext_of_live ((live_mk _).2 hp)]
  rfl

theorem hmsListSpliceBetween_eq (hp : m.Live p) (hq : m.Live q) (hfirst : m.Live (m.links.next p))
    (hlast : m.Live (m.links.prev p)) (hafter : m.Live (m.links.next q)) :
    hmsListSpliceBetween m p q = .ok { m with
      links := m.links.bridge (m.links.next p) (m.links.prev p) q (m.links.next q) } := by
  rw [hmsListSpliceBetween, next_of_live hp, ok_bind, prev_of_live hp, ok_bind, next_of_live hq,
    ok_bind, setPrev_of_live hfirst, ok_bind, setNext_of_live ((live_mk _).2 hq), ok_bind,
    setNext_of_live ((live_mk _).2 hlast), ok_bind, setPrev_of_live ((live_mk _).2 hafter)]
  rfl

end Pointers

/-- A head is a node. -/
theorem mem_head {F : List (List Ptr)} {hd : Ptr} {l : List Ptr} (hhd : hd :: l ∈ F) :
    hd ∈ F.flatten :=
  List.mem_flatten_of_mem hhd List.mem_cons_self

namespace ListMem.Family

variable {V σ : Type} {m : ListMem V} {F : List (List Ptr)} {x y hd : Ptr} {l : List Ptr}

theorem live_next (h : m.Family F) (hx : x ∈ F.flatten) : m.Live (m.links.next x) :=
  h.live _ (h.rings.next_mem hx)

theorem live_prev (h : m.Family F) (hx : x ∈ F.flatten) : m.Live (m.links.prev x) :=
  h.live _ (h.rings.prev_mem hx)

/-- A list left out. -/
theorem drop (h : m.Family F) : m.Family (without x F) :=
  ⟨h.rings.drop, fun p hp => h.live p (mem_of_mem_without hp)⟩

/-- A node made a list of its own. -/
theorem init (h : m.Family F) (hx : m.Live x) (hnot : x ∉ F.flatten) :
    ∃ m', hmsInitListHead m x = .ok m' ∧ m'.Family ([x] :: F) ∧ m'.nodes = m.nodes := by
  refine ⟨_, hmsInitListHead_eq hx, ⟨h.rings.init hnot, fun p hp => (live_mk _).2 ?_⟩, rfl⟩
  rcases List.mem_append.1 hp with hp | hp
  · rwa [List.mem_singleton.1 hp]
  · exact h.live p hp

theorem add (h : m.Family F) (hy : m.Live y) (hnot : y ∉ F.flatten) (hx : x ∈ F.flatten) :
    ∃ m', hmsListAdd m y x = .ok m' ∧ m'.Family (putBehind x [y] F) ∧ m'.nodes = m.nodes := by
  have hrun : hmsListAdd m y x = .ok { m with links := m.links.insert y x (m.links.next x) } := by
    rw [hmsListAdd, next_of_live (h.live x hx), ok_bind,
      hmsListAddBetween_eq hy (h.live x hx) (h.live_next hx)]
  refine ⟨_, hrun, ⟨h.rings.put_behind hx hnot, fun p hp => (live_mk _).2 ?_⟩, rfl⟩
  rcases mem_of_mem_putBehind hp with hp | hp
  · exact h.live p hp
  · rwa [List.mem_singleton.1 hp]

theorem addTail (h : m.Family F) (hy : m.Live y) (hnot : y ∉ F.flatten) (hx : x ∈ F.flatten) :
    ∃ m', hmsListAddTail m y x = .ok m' ∧ m'.Family (putBefore x y F) ∧ m'.nodes = m.nodes := by
  have hrun : hmsListAddTail m y x =
      .ok { m with links := m.links.insert y (m.links.prev x) x } := by
    rw [hmsListAddTail, prev_of_live (h.live x hx), ok_bind,
      hmsListAddBetween_eq hy (h.live_prev hx) (h.live x hx)]
  refine ⟨_, hrun, ⟨h.rings.put_before hx hnot, fun p hp => (live_mk _).2 ?_⟩, rfl⟩
  rcases mem_of_mem_putBefore hp with hp | rfl
  · exact h.live p hp
  · exact hy

/-- An entry unlinked by the pointers of its neighbours. -/
theorem unlink (h : m.Family F) (hx : IsEntry x F) :
    ∃ m', hmsListDelBetween m (m.links.prev x) (m.links.next x) = .ok m' ∧
      m'.Family (takeOut x F) ∧ m'.nodes = m.nodes := by
  have hmem := mem_of_isEntry hx
  refine ⟨_, hmsListDelBetween_eq (h.live_prev hmem) (h.live_next hmem),
    ⟨h.rings.take_out hx, fun p hp => (live_mk _).2 (h.live p (mem_takeOut.1 hp).1)⟩, rfl⟩

theorem live_of_nodes {m' : ListMem V} (hnodes : m'.nodes = m.nodes) (hx : m.Live x) :
    m'.Live x := by
  cases m'
  subst hnodes
  exact (live_mk _).2 hx

theorem notMem_takeOut : x ∉ (takeOut x F).flatten := fun hmem => (mem_takeOut.1 hmem).2 rfl

/-- An entry taken out. Its pointers are `NULL` then. -/
theorem delete (h : m.Family F) (hx : IsEntry x F) :
    ∃ m', hmsListDel m x = .ok m' ∧ m'.Family (takeOut x F) ∧ m'.nodes = m.nodes := by
  have hmem := mem_of_isEntry hx
  refine ⟨_, hmsListDel_eq (h.live x hmem) (h.live_prev hmem) (h.live_next hmem),
    ⟨(h.rings.take_out hx).frame fun a ha => ?_,
      fun p hp => (live_mk _).2 (h.live p (mem_takeOut.1 hp).1)⟩, rfl⟩
  simp [Links.setNext, Links.setPrev, (mem_takeOut.1 ha).2]

theorem delInit (h : m.Family F) (hx : IsEntry x F) :
    ∃ m', hmsListDelInit m x = .ok m' ∧ m'.Family ([x] :: takeOut x F) ∧ m'.nodes = m.nodes := by
  have hmem := mem_of_isEntry hx
  obtain ⟨m₁, hunlink, h₁, hnodes₁⟩ := h.unlink hx
  obtain ⟨m₂, hinit, h₂, hnodes₂⟩ :=
    h₁.init (live_of_nodes hnodes₁ (h.live x hmem)) notMem_takeOut
  refine ⟨m₂, ?_, h₂, hnodes₂.trans hnodes₁⟩
  rw [hmsListDelInit, prev_of_live (h.live x hmem), ok_bind, next_of_live (h.live x hmem), ok_bind,
    hunlink, ok_bind, hinit]

theorem move (h : m.Family F) (hy : IsEntry y F) (hx : x ∈ F.flatten) (hne : x ≠ y) :
    ∃ m', hmsListMove m y x = .ok m' ∧ m'.Family (putBehind x [y] (takeOut y F)) ∧
      m'.nodes = m.nodes := by
  have hmem := mem_of_isEntry hy
  obtain ⟨m₁, hunlink, h₁, hnodes₁⟩ := h.unlink hy
  obtain ⟨m₂, hadd, h₂, hnodes₂⟩ := h₁.add (live_of_nodes hnodes₁ (h.live y hmem))
    notMem_takeOut (mem_takeOut.2 ⟨hx, hne⟩)
  refine ⟨m₂, ?_, h₂, hnodes₂.trans hnodes₁⟩
  rw [hmsListMove, prev_of_live (h.live y hmem), ok_bind, next_of_live (h.live y hmem), ok_bind,
    hunlink, ok_bind, hadd]

theorem moveTail (h : m.Family F) (hy : IsEntry y F) (hx : x ∈ F.flatten) (hne : x ≠ y) :
    ∃ m', hmsListMoveTail m y x = .ok m' ∧ m'.Family (putBefore x y (takeOut y F)) ∧
      m'.nodes = m.nodes := by
  have hmem := mem_of_isEntry hy
  obtain ⟨m₁, hunlink, h₁, hnodes₁⟩ := h.unlink hy
  obtain ⟨m₂, hadd, h₂, hnodes₂⟩ := h₁.addTail (live_of_nodes hnodes₁ (h.live y hmem))
    notMem_takeOut (mem_takeOut.2 ⟨hx, hne⟩)
  refine ⟨m₂, ?_, h₂, hnodes₂.trans hnodes₁⟩
  rw [hmsListMoveTail, prev_of_live (h.live y hmem), ok_bind, next_of_live (h.live y hmem),
    ok_bind, hunlink, ok_bind, hadd]

section Heads

variable (h : m.Family F) (hhd : hd :: l ∈ F)
include h hhd

/-- `hms_list_empty` sees whether the list has entries. -/
theorem empty_eq : hmsListEmpty m hd = .ok (decide (l = [])) := by
  have hring : Ring m.links hd l := h.rings.loop _ hhd
  rw [hmsListEmpty, next_of_live (h.live hd (mem_head hhd)), ok_bind, hring.next_head]
  cases l with
  | nil => simp
  | cons a l =>
    have hne : a ≠ hd := fun heq => (List.nodup_cons.1 hring.nodup).1 (by simp [heq])
    simp [hne]

/-- The entries of a list that has some, put behind `x`. -/
theorem spliceBetween (hl : l ≠ []) (hx : x ∈ F.flatten) (hxl : x ∉ hd :: l) :
    ∃ m', hmsListSpliceBetween m hd x = .ok m' ∧
      m'.Family (putBehind x l (without hd F)) ∧ m'.nodes = m.nodes := by
  have hmem := mem_head hhd
  refine ⟨_, hmsListSpliceBetween_eq (h.live hd hmem) (h.live x hx) (h.live_next hmem)
    (h.live_prev hmem) (h.live_next hx),
    ⟨h.rings.splice hhd hl hx hxl, fun p hp => (live_mk _).2 (h.live p ?_)⟩, rfl⟩
  rcases mem_of_mem_putBehind hp with hp | hp
  · exact mem_of_mem_without hp
  · exact List.mem_flatten_of_mem hhd (List.mem_cons_of_mem _ hp)

theorem splice (hx : x ∈ F.flatten) (hxl : x ∉ hd :: l) :
    ∃ m', hmsListSplice m hd x = .ok m' ∧
      m'.Family (if l = [] then F else putBehind x l (without hd F)) ∧ m'.nodes = m.nodes := by
  rw [hmsListSplice, h.empty_eq hhd, ok_bind]
  by_cases hl : l = []
  · simp only [hl, decide_true, if_true]
    exact ⟨m, rfl, h, rfl⟩
  · simpa only [hl, decide_false, Bool.false_eq_true, if_false] using h.spliceBetween hhd hl hx hxl

theorem spliceInit (hx : x ∈ F.flatten) (hxl : x ∉ hd :: l) :
    ∃ m', hmsListSpliceInit m hd x = .ok m' ∧
      m'.Family (if l = [] then F else [hd] :: putBehind x l (without hd F)) ∧
      m'.nodes = m.nodes := by
  rw [hmsListSpliceInit, h.empty_eq hhd, ok_bind]
  by_cases hl : l = []
  · simp only [hl, decide_true, if_true]
    exact ⟨m, rfl, h, rfl⟩
  · simp only [hl, decide_false, Bool.false_eq_true, if_false]
    obtain ⟨m₁, hsplice, h₁, hnodes₁⟩ := h.spliceBetween hhd hl hx hxl
    obtain ⟨m₂, hinit, h₂, hnodes₂⟩ := h₁.init
      (live_of_nodes hnodes₁ (h.live hd (mem_head hhd))) (h.rings.head_notMem hhd)
    exact ⟨m₂, by rw [hsplice, ok_bind, hinit], h₂, hnodes₂.trans hnodes₁⟩

/-- A list has no more entries than there are nodes. -/
theorem length_lt : l.length < m.nodes.entries.length + 1 := by
  have hring : Ring m.links hd l := h.rings.loop _ hhd
  have hsub : hd :: l ⊆ Ptr.head :: m.nodes.keys.map Ptr.node := by
    intro p hp
    have hlive := h.live p (List.mem_flatten_of_mem hhd hp)
    cases p with
    | null => exact absurd hlive id
    | head => exact List.mem_cons_self
    | node a => exact List.mem_cons_of_mem _ (List.mem_map_of_mem (AList.mem_keys.1 hlive))
  have hlen := (List.subperm_of_subset hring.nodup hsub).length_le
  rw [List.length_cons, List.length_cons, List.length_map, AList.keys, List.keys,
    List.length_map] at hlen
  omega

end Heads

end ListMem.Family

/-! ## The loops over pointers -/

section Loops

variable {V σ : Type} {m : ListMem V} {F : List (List Ptr)} {hd : Ptr} {l : List Ptr}

/-- The loop sees the pointers in order, and ends at the head. -/
theorem forEachFrom_eq {next : Ptr → Run Ptr} (body : Ptr → σ → Run (σ × Bool)) :
    ∀ (l : List Ptr) (fuel : ℕ) (st : σ), l.length < fuel → hd ∉ l →
      (∀ p suf, (p :: suf) <:+ l → next p = .ok (suf.head?.getD hd)) →
      forEachFrom next body hd fuel (l.head?.getD hd) st =
        (scan body l st).map fun r => (r.1.getD hd, r.2)
  | [], fuel, st, hfuel, _, _ => by
    obtain ⟨fuel, rfl⟩ : ∃ f, fuel = f + 1 := ⟨fuel - 1, by omega⟩
    exact if_pos rfl
  | p :: l, fuel, st, hfuel, hnot, hnext => by
    obtain ⟨fuel, rfl⟩ : ∃ f, fuel = f + 1 := ⟨fuel - 1, by omega⟩
    rw [List.mem_cons, not_or] at hnot
    have ih := fun st => forEachFrom_eq body l fuel st (by simpa using hfuel) hnot.2
      fun q suf hsuf => hnext q suf (hsuf.trans (List.suffix_cons p l))
    show forEachFrom next body hd (fuel + 1) p st = _
    rw [forEachFrom, if_neg (Ne.symm hnot.1), scan]
    cases hbody : body p st with
    | error e => rfl
    | ok r =>
      cases hgo : r.2 with
      | true => simpa only [ok_bind, hgo, if_true, hnext p l (List.suffix_refl _)] using ih r.1
      | false => simp [hgo, Except.map]

variable (h : m.Family F) (hhd : hd :: l ∈ F) (body : Ptr → σ → Run (σ × Bool)) (st : σ)
include h hhd

/-- `hms_list_for_each` sees the entries in order. -/
theorem ListMem.Family.forEach : hmsListForEach m hd body st =
    (scan body l st).map fun r => (r.1.getD hd, r.2) := by
  have hring : Ring m.links hd l := h.rings.loop _ hhd
  rw [hmsListForEach, next_of_live (h.live hd (mem_head hhd)), ok_bind, hring.next_head]
  refine forEachFrom_eq body l _ st (h.length_lt hhd) (List.nodup_cons.1 hring.nodup).1 ?_
  rintro p suf ⟨pre, rfl⟩
  have hp : p ∈ F.flatten := List.mem_flatten_of_mem hhd (by simp)
  rw [next_of_live (h.live p hp), hring.next_node]

/-- `hms_list_for_each_prev` sees them in the other order. -/
theorem ListMem.Family.forEachPrev : hmsListForEachPrev m hd body st =
    (scan body l.reverse st).map fun r => (r.1.getD hd, r.2) := by
  have hring : Ring m.links hd l := h.rings.loop _ hhd
  have hlen : l.reverse.length < m.nodes.entries.length + 1 := by
    rw [List.length_reverse]
    exact h.length_lt hhd
  have hnot : hd ∉ l.reverse := by
    rw [List.mem_reverse]
    exact (List.nodup_cons.1 hring.nodup).1
  rw [hmsListForEachPrev, prev_of_live (h.live hd (mem_head hhd)), ok_bind, hring.prev_head,
    ← List.head?_reverse]
  refine forEachFrom_eq body l.reverse _ st hlen hnot ?_
  rintro p suf ⟨pre, hsplit⟩
  obtain rfl : l = suf.reverse ++ p :: pre.reverse := by
    rw [← l.reverse_reverse, ← hsplit]
    simp
  have hp : p ∈ F.flatten := List.mem_flatten_of_mem hhd (by simp)
  rw [prev_of_live (h.live p hp), hring.prev_node, List.getLast?_reverse]

end Loops

/-! ## Runs -/

section Runs

variable {V : Type} {m : ListMem V} {F : List (List Ptr)}

/-- A call that fits makes its edit. -/
theorem ListMem.Family.call (h : m.Family F) {call : ListCall} (hfits : call.Fits m.Live F) :
    ∃ m', call.run m = .ok m' ∧ m'.Family (call.effect F) ∧ m'.nodes = m.nodes := by
  cases call with
  | init ptr => exact h.drop.init hfits.1 (h.rings.loose_notMem hfits.2)
  | add newp hd =>
    obtain ⟨⟨hlive, hloose⟩, hmem, hne⟩ := hfits
    exact h.drop.add hlive (h.rings.loose_notMem hloose) (h.rings.mem_without_loose hloose hmem hne)
  | addTail newp hd =>
    obtain ⟨⟨hlive, hloose⟩, hmem, hne⟩ := hfits
    exact h.drop.addTail hlive (h.rings.loose_notMem hloose)
      (h.rings.mem_without_loose hloose hmem hne)
  | del entry => exact h.delete hfits
  | delInit entry => exact h.delInit hfits
  | move list hd => exact h.move hfits.1 hfits.2.1 hfits.2.2
  | moveTail list hd => exact h.moveTail hfits.1 hfits.2.1 hfits.2.2
  | splice list hd =>
    obtain ⟨⟨c, hc, hhead, hnot⟩, hmem⟩ := hfits
    obtain ⟨l, rfl⟩ := List.head?_eq_some_iff.1 hhead
    rw [ListCall.effect, h.rings.behind_eq hc]
    exact h.splice hc hmem hnot
  | spliceInit list hd =>
    obtain ⟨⟨c, hc, hhead, hnot⟩, hmem⟩ := hfits
    obtain ⟨l, rfl⟩ := List.head?_eq_some_iff.1 hhead
    rw [ListCall.effect, h.rings.behind_eq hc]
    exact h.spliceInit hc hmem hnot

/-- Calls that fit return, and the memory holds the lists that their edits make. -/
theorem ListMem.Family.calls (calls : List ListCall) (h : m.Family F)
    (hfit : ListCall.AllFit m.Live F calls) :
    ∃ m', calls.foldlM ListCall.run m = .ok m' ∧ m'.Family (calls.foldl ListCall.effect F) := by
  induction calls generalizing m F with
  | nil => exact ⟨m, rfl, h⟩
  | cons call calls ih =>
    obtain ⟨m₁, hrun, h₁, hnodes⟩ := h.call hfit.1
    have hlive : m₁.Live = m.Live := by
      funext p
      exact propext ⟨ListMem.Family.live_of_nodes hnodes.symm,
        ListMem.Family.live_of_nodes hnodes⟩
    obtain ⟨m₂, hruns, h₂⟩ := ih h₁ (by rw [hlive]; exact hfit.2)
    exact ⟨m₂, by rw [List.foldlM_cons, hrun, ok_bind, hruns], h₂⟩

/-- Any calls that fit, from a memory without lists : none is undefined, and at every head that
they leave, `hms_list_empty` and the loops in both directions see the list of their edits. -/
theorem listCalls_run (m : ListMem V) (calls : List ListCall)
    (hfit : ListCall.AllFit m.Live [] calls) :
    ∃ m', calls.foldlM ListCall.run m = .ok m' ∧
      (calls.foldl ListCall.effect []).flatten.Nodup ∧
      ∀ hd l, hd :: l ∈ calls.foldl ListCall.effect [] →
        hmsListEmpty m' hd = .ok (decide (l = [])) ∧
        ∀ {σ : Type} (body : Ptr → σ → Run (σ × Bool)) (st : σ),
          hmsListForEach m' hd body st =
            (scan body l st).map (fun r => (r.1.getD hd, r.2)) ∧
          hmsListForEachPrev m' hd body st =
            (scan body l.reverse st).map fun r => (r.1.getD hd, r.2) := by
  have hstart : m.Family [] := ⟨⟨List.Pairwise.nil, by simp⟩, by simp⟩
  obtain ⟨m', hrun, h⟩ := hstart.calls calls hfit
  refine ⟨m', hrun, h.rings.nodup_flatten, fun hd l hhd => ⟨h.empty_eq hhd, fun body st => ?_⟩⟩
  exact ⟨h.forEach hhd body st, h.forEachPrev hhd body st⟩

/-- An entry moved to a second list, and all of that put behind the last entry of the first. -/
theorem listCalls_run_two : ∃ m' : ListMem Unit,
    [ListCall.init .head, .init (.node 0), .init (.node 1), .add (.node 1) .head,
      .addTail (.node 2) .head, .move (.node 1) (.node 0),
      .spliceInit (.node 0) (.node 2)].foldlM ListCall.run
        ⟨⟨fun _ => .null, fun _ => .null⟩,
          ((∅ : AList fun _ : ℕ => Unit).insert 0 ()).insert 1 () |>.insert 2 ()⟩ = .ok m' ∧
      hmsListEmpty m' (.node 0) = .ok true ∧
      hmsListForEachPrev m' .head (fun p seen => .ok (seen ++ [p], true)) [] =
        .ok (.head, [.node 1, .node 2]) := by
  obtain ⟨m', hrun, -, hsee⟩ := listCalls_run (V := Unit)
    ⟨⟨fun _ => .null, fun _ => .null⟩,
      ((∅ : AList fun _ : ℕ => Unit).insert 0 ()).insert 1 () |>.insert 2 ()⟩
    [.init .head, .init (.node 0), .init (.node 1), .add (.node 1) .head, .addTail (.node 2) .head,
      .move (.node 1) (.node 0), .spliceInit (.node 0) (.node 2)] (by decide)
  exact ⟨m', hrun, (hsee (.node 0) [] (by decide)).1,
    ((hsee .head [.node 2, .node 1] (by decide)).2 _ []).2⟩

end Runs

end Hermes
