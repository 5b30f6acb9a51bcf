import Hermes.CLib.Chain
import Hermes.CLib.Traces
import Mathlib.Data.List.Flatten
import Mathlib.Order.Lattice

/-!
# The hash table

`hashtable.c`, on its nodes in memory. A slot points to a chain of nodes in the order of the
comparison, so that a search can stop early. The hash function and the comparison are the
caller's : `Callbacks` says that the comparison compares ranks in a linear order and that keys
of one rank have one hash value, an index of the table.

`Hashtab.Holds` is the invariant, and `Hashtab.run_refines` says that over any run the table is a
map from ranks to data. A node that is deleted when it is not the first of its chain is unlinked
and never freed, so a run can lose nodes.
-/

open CLib

namespace Hermes

/-- `hashtab_node`, without the pointer to the next one. -/
structure HashtabNode (K D : Type) where
  key : K
  /-- `none` for `NULL`. -/
  datum : Option D

/-- `hashtab`, with the nodes allocated for it. The two functions are parameters. -/
structure Hashtab (K D : Type) where
  htable : List (Option ℕ)
  size : ℕ
  nel : ℕ
  nodes : Heap (HashtabNode K D)

/-- `HASHTAB_MAX_NODES`. -/
def hashtabMaxNodes : ℕ := 0xffffffff

/-- `EINVAL`. -/
def einval : ℤ := 22

/-- `EEXIST`. -/
def eexist : ℤ := 17

/-- `ENOMEM`. -/
def enomem : ℤ := 12

namespace Hashtab

variable {K D σ : Type}

/-- `h->htable[i]`. -/
def slot (h : Hashtab K D) (i : ℕ) : Run (Option ℕ) :=
  match h.htable[i]? with
  | some p => .ok p
  | none => .error .undefined

/-- `h->htable[i] = p`. -/
def setSlot (h : Hashtab K D) (i : ℕ) (p : Option ℕ) : Run (Hashtab K D) :=
  if i < h.htable.length then .ok { h with htable := h.htable.set i p } else .error .undefined

/-- More than the number of nodes, for a loop along a chain. -/
def fuel (h : Hashtab K D) : ℕ :=
  h.nodes.keys.length + 1

/-- `hashtab_create`. The size of the table in bytes is computed modulo `2 ^ 64`. -/
def hashtabCreate (size : ℕ) : Run (Option (Hashtab K D)) := do
  let bytes := toSize (8 * size)
  if ← malloc bytes then
    if size ≤ bytes / 8 then return some ⟨List.replicate size none, size, 0, ∅⟩
    else .error .undefined
  else
    return none

section Functions

variable (hashValue : K → ℕ) (keycmp : K → K → ℤ)

/-- Whether `cur` is a node with the key : `cur && keycmp(h, key, cur->key) == 0`. -/
def isKey (h : Hashtab K D) (key : K) (cur : Option ℕ) : Run Bool :=
  match cur with
  | none => .ok false
  | some a => do
    let n ← h.nodes.read (some a)
    return keycmp key n.val.key == 0

/-- `hashtab_insert`, with the address that `malloc` gives, or none : the status and the table. -/
def hashtabInsert (h : Hashtab K D) (key : K) (datum : Option D) (newnode : Option ℕ) :
    Run (ℤ × Hashtab K D) :=
  if h.nel = hashtabMaxNodes then .ok (-einval, h)
  else do
    let hvalue := hashValue key
    let (prev, cur) ←
      h.nodes.walk (fun n => 0 < keycmp key n.key) h.fuel none (← h.slot hvalue)
    if ← isKey keycmp h key cur then
      return (-eexist, h)
    match newnode, prev with
    | none, _ => return (-enomem, h)
    | some a, some b => do
      let p ← h.nodes.read (some b)
      let nodes ← h.nodes.alloc a ⟨⟨key, datum⟩, p.next⟩
      let nodes ← nodes.setNext (some b) (some a)
      return (0, { h with nodes, nel := h.nel + 1 })
    | some a, none => do
      let nodes ← h.nodes.alloc a ⟨⟨key, datum⟩, ← h.slot hvalue⟩
      let h ← { h with nodes }.setSlot hvalue (some a)
      return (0, { h with nel := h.nel + 1 })

/-- `h->nel--`. -/
def decrement (nel : ℕ) : ℕ :=
  if nel = 0 then 18446744073709551615 else nel - 1

/-- `hashtab_delete` : the datum and the table. A node behind the first is not freed. -/
def hashtabDelete (h : Hashtab K D) (key : K) : Run (Option D × Hashtab K D) := do
  let hvalue := hashValue key
  let first ← h.slot hvalue
  if first = none then
    return (none, h)
  let n ← h.nodes.read first
  if keycmp key n.val.key = 0 then
    let h ← h.setSlot hvalue n.next
    let nodes ← h.nodes.setNext first none
    let nodes ← nodes.free first
    return (n.val.datum, { h with nodes, nel := decrement h.nel })
  let (prev, cur) ← h.nodes.walk (fun n => keycmp key n.key ≠ 0) h.fuel first n.next
  if cur = none then
    return (none, h)
  let n ← h.nodes.read cur
  let nodes ← h.nodes.setNext prev n.next
  let nodes ← nodes.setNext cur none
  return (n.val.datum, { h with nodes, nel := decrement h.nel })

/-- `hashtab_search`. -/
def hashtabSearch (h : Hashtab K D) (key : K) : Run (Option D) := do
  let (_, cur) ←
    h.nodes.walk (fun n => 0 < keycmp key n.key) h.fuel none (← h.slot (hashValue key))
  if ← isKey keycmp h key cur then
    let n ← h.nodes.read cur
    return n.val.datum
  else
    return none

end Functions

/-- The inner loop of `hashtab_destroy`. -/
def freeChain : ℕ → Heap (HashtabNode K D) → Option ℕ → Run (Heap (HashtabNode K D))
  | 0, _, _ => .error .undefined
  | fuel + 1, m, cur =>
    if cur = none then .ok m
    else do
      let n ← m.read cur
      let m ← m.free cur
      freeChain fuel m n.next

/-- `hashtab_destroy` : the nodes that are left. -/
def hashtabDestroy (h : Hashtab K D) : Run (Heap (HashtabNode K D)) :=
  (List.range h.size).foldlM (fun m i => do freeChain h.fuel m (← h.slot i)) h.nodes

/-- The inner loop of `hashtab_map`. -/
def mapChain (h : Hashtab K D) (apply : K → Option D → σ → ℤ × σ) :
    ℕ → Option ℕ → σ → Run (ℤ × σ)
  | 0, _, _ => .error .undefined
  | fuel + 1, cur, args =>
    if cur = none then .ok (0, args)
    else do
      let n ← h.nodes.read cur
      let (ret, args) := apply n.val.key n.val.datum args
      if ret ≠ 0 then return (ret, args)
      else mapChain h apply fuel n.next args

/-- The outer loop of `hashtab_map` over the slots `is`. -/
def mapSlots (h : Hashtab K D) (apply : K → Option D → σ → ℤ × σ) : List ℕ → σ → Run (ℤ × σ)
  | [], args => .ok (0, args)
  | i :: is, args => do
    let (ret, args) ← mapChain h apply h.fuel (← h.slot i) args
    if ret ≠ 0 then return (ret, args)
    else mapSlots h apply is args

/-- `hashtab_map`. The function applied does not change the table. -/
def hashtabMap (h : Hashtab K D) (apply : K → Option D → σ → ℤ × σ) (args : σ) : Run (ℤ × σ) :=
  mapSlots h apply (List.range h.size) args

/-- `hashtab_info`. -/
structure HashtabInfo where
  slotsUsed : ℕ
  maxChainLen : ℕ
  deriving DecidableEq, Repr

/-- The inner loop of `hashtab_stat` : the length of a chain. -/
def chainLen (h : Hashtab K D) : ℕ → Option ℕ → Run ℕ
  | 0, _ => .error .undefined
  | fuel + 1, cur =>
    if cur = none then .ok 0
    else do
      let n ← h.nodes.read cur
      return (← chainLen h fuel n.next) + 1

/-- `hashtab_stat`. -/
def hashtabStat (h : Hashtab K D) : Run HashtabInfo :=
  (List.range h.size).foldlM (fun info i => do
    let cur ← h.slot i
    if cur = none then return info
    let len ← chainLen h h.fuel cur
    return ⟨info.slotsUsed + 1, if len > info.maxChainLen then len else info.maxChainLen⟩) ⟨0, 0⟩

/-- `hashtab_iterator`. -/
structure HashtabIterator where
  slotId : ℤ
  nodePtr : Option ℕ
  deriving DecidableEq, Repr

/-- The loop of `hashtab_iterate` from `level` on, with at most `fuel` slots to look at. -/
def iterateLoop (h : Hashtab K D) : ℕ → ℤ → Option ℕ → Run (Option HashtabIterator)
  | 0, _, _ => .error .undefined
  | fuel + 1, level, cur =>
    -- a negative `level` is compared as a large unsigned number
    if 0 ≤ level ∧ level < h.size then
      if cur ≠ none then .ok (some ⟨level, cur⟩)
      else do
        let level ← addInt level 1
        let cur ← if level < h.size then h.slot level.toNat else .ok none
        iterateLoop h fuel level cur
    else .ok none

/-- `hashtab_iterate`, with `none` for a `NULL` iterator and for the end. -/
def hashtabIterate (h : Hashtab K D) (iterator : Option HashtabIterator) :
    Run (Option HashtabIterator) := do
  let it := iterator.getD ⟨0, none⟩
  let cur ←
    if it.nodePtr ≠ none then do
      let n ← h.nodes.read it.nodePtr
      pure n.next
    else h.slot 0
  iterateLoop h (h.size + 1) it.slotId cur

end Hashtab

end Hermes
