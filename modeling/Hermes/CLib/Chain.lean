import Hermes.CLib.Outcome
import Mathlib.Data.List.AList

/-!
# Chains of nodes

A singly linked list in memory : nodes with a value and a pointer to the next one, `NULL` at
the end. `Heap` is the nodes that are allocated, and `Seg m p l q` that the pointer `p` leads
through the nodes `l` to the pointer `q`. A segment depends only on its own nodes
(`Seg.frame`), two segments in a row are one (`Seg.append_iff`), and an assignment to the
pointer of its last node redirects it (`Seg.setNext`). `walk` is the loop that follows the
pointers as long as a test of the value holds.
-/

namespace CLib

variable {α : Type}

/-- A node : its value and the pointer to the next, `none` for `NULL`. -/
structure Node (α : Type) where
  val : α
  next : Option ℕ

/-- The nodes that are allocated, each at its address. -/
abbrev Heap (α : Type) := AList fun _ : ℕ => Node α

namespace Heap

/-- `*p`. -/
def read (m : Heap α) (p : Option ℕ) : Run (Node α) :=
  match p.bind fun a => m.lookup a with
  | some n => .ok n
  | none => .error .undefined

/-- `p->next = q`. -/
def setNext (m : Heap α) (p q : Option ℕ) : Run (Heap α) := do
  let n ← m.read p
  match p with
  | some a => return m.insert a { n with next := q }
  | none => .error .undefined

/-- A node made at an address that the allocator gives. -/
def alloc (m : Heap α) (a : ℕ) (n : Node α) : Run (Heap α) :=
  if a ∈ m then .error .undefined else .ok (m.insert a n)

/-- `free(p)`. -/
def free (m : Heap α) (p : Option ℕ) : Run (Heap α) :=
  match p with
  | some a => if a ∈ m then .ok (m.erase a) else .error .undefined
  | none => .ok m

/-- Follow the pointers from `cur` as long as the values satisfy `go` : the node before the
one where that ends, and this one. -/
def walk (m : Heap α) (go : α → Bool) : ℕ → Option ℕ → Option ℕ → Run (Option ℕ × Option ℕ)
  | 0, _, _ => .error .undefined
  | fuel + 1, prev, cur =>
    if cur = none then .ok (prev, cur)
    else do
      let n ← m.read cur
      if go n.val then m.walk go fuel cur n.next else return (prev, cur)

variable {m : Heap α} {a : ℕ} {n : Node α}

theorem read_some (h : m.lookup a = some n) : m.read (some a) = .ok n := by
  rw [read, Option.bind_some, h]

theorem setNext_some (h : m.lookup a = some n) (q : Option ℕ) :
    m.setNext (some a) q = .ok (m.insert a { n with next := q }) := by
  rw [setNext, read_some h, ok_bind]
  rfl

theorem alloc_fresh (h : a ∉ m) (n : Node α) : m.alloc a n = .ok (m.insert a n) :=
  if_neg h

theorem free_some (h : a ∈ m) : m.free (some a) = .ok (m.erase a) :=
  if_pos h

/-- The addresses after a node is made. -/
theorem perm_keys_insert (h : a ∉ m) (n : Node α) : (m.insert a n).keys.Perm (a :: m.keys) := by
  rw [AList.keys_insert, List.erase_of_not_mem (by rwa [← AList.mem_keys])]

/-- The addresses after a node is changed. -/
theorem perm_keys_update (h : a ∈ m) (n : Node α) : (m.insert a n).keys.Perm m.keys := by
  rw [AList.keys_insert]
  exact (List.perm_cons_erase (AList.mem_keys.1 h)).symm

/-- The addresses before a node is freed. -/
theorem perm_keys_erase (h : a ∈ m) : m.keys.Perm (a :: (m.erase a).keys) := by
  rw [AList.keys_erase]
  exact List.perm_cons_erase (AList.mem_keys.1 h)

end Heap

/-! ## Segments -/

/-- From `p` the pointers lead through the nodes `l`, each an address and a value, to `q`. -/
def Seg (m : Heap α) : Option ℕ → List (ℕ × α) → Option ℕ → Prop
  | p, [], q => p = q
  | p, e :: l, q => p = some e.1 ∧ ∃ r, m.lookup e.1 = some ⟨e.2, r⟩ ∧ Seg m r l q

/-- The pointer to the first node of `l`, or `q` behind it. -/
def front (l : List (ℕ × α)) (q : Option ℕ) : Option ℕ :=
  match l with
  | [] => q
  | e :: _ => some e.1

/-- The pointer to the last node of `l`, or `p` in front of it. -/
def back (p : Option ℕ) (l : List (ℕ × α)) : Option ℕ :=
  match l.getLast? with
  | none => p
  | some e => some e.1

@[simp] theorem front_nil (q : Option ℕ) : front ([] : List (ℕ × α)) q = q :=
  rfl

@[simp] theorem front_cons (e : ℕ × α) (l : List (ℕ × α)) (q : Option ℕ) :
    front (e :: l) q = some e.1 :=
  rfl

@[simp] theorem back_nil (p : Option ℕ) : back p ([] : List (ℕ × α)) = p :=
  rfl

@[simp] theorem back_append_singleton (p : Option ℕ) (l : List (ℕ × α)) (e : ℕ × α) :
    back p (l ++ [e]) = some e.1 := by
  simp [back]

theorem back_cons (p : Option ℕ) (e : ℕ × α) (l : List (ℕ × α)) :
    back p (e :: l) = back (some e.1) l := by
  rcases List.eq_nil_or_concat l with rfl | ⟨l, x, rfl⟩
  · rfl
  · rw [List.concat_eq_append, ← List.cons_append, back_append_singleton, back_append_singleton]

namespace Seg

variable {m m' : Heap α} {p q r : Option ℕ} {l l₁ l₂ : List (ℕ × α)} {e : ℕ × α}

theorem eq_front (h : Seg m p l q) : p = front l q := by
  cases l with
  | nil => exact h
  | cons e l => exact h.1

/-- Two segments in a row. -/
theorem append_iff : Seg m p (l₁ ++ l₂) q ↔ ∃ r, Seg m p l₁ r ∧ Seg m r l₂ q := by
  induction l₁ generalizing p with
  | nil => simp [Seg]
  | cons e l₁ ih =>
    simp only [List.cons_append, Seg, ih]
    constructor
    · rintro ⟨hp, s, hs, r, h1, h2⟩
      exact ⟨r, ⟨hp, s, hs, h1⟩, h2⟩
    · rintro ⟨r, ⟨hp, s, hs, h1⟩, h2⟩
      exact ⟨hp, s, hs, r, h1, h2⟩

/-- The nodes of a segment are there, with their values. -/
theorem lookup (h : Seg m p l q) (he : e ∈ l) : ∃ r, m.lookup e.1 = some ⟨e.2, r⟩ := by
  induction l generalizing p with
  | nil => simp at he
  | cons x l ih =>
    obtain ⟨-, r, hr, hl⟩ := h
    rcases List.mem_cons.1 he with rfl | he
    · exact ⟨r, hr⟩
    · exact ih hl he

theorem mem_heap (h : Seg m p l q) (he : e ∈ l) : e.1 ∈ m := by
  obtain ⟨r, hr⟩ := h.lookup he
  rw [← AList.lookup_isSome, hr]
  rfl

/-- A segment depends on its own nodes. -/
theorem frame (h : Seg m p l q) (hsame : ∀ e ∈ l, m'.lookup e.1 = m.lookup e.1) :
    Seg m' p l q := by
  induction l generalizing p with
  | nil => exact h
  | cons e l ih =>
    obtain ⟨hp, r, hr, hl⟩ := h
    exact ⟨hp, r, by rw [hsame e (by simp), hr], ih hl fun x hx => hsame x (by simp [hx])⟩

/-- The node that a segment ends with points behind it. -/
theorem lookup_last (h : Seg m p (l ++ [e]) q) : m.lookup e.1 = some ⟨e.2, q⟩ := by
  obtain ⟨r, -, -, s, hs, hq⟩ := append_iff.1 h
  rw [hs, show s = q from hq]

/-- The pointer of the last node is set. -/
theorem setNext (h : Seg m p (l ++ [e]) q) (hnodup : ((l ++ [e]).map Prod.fst).Nodup)
    (q' : Option ℕ) : ∃ m', m.setNext (some e.1) q' = .ok m' ∧ Seg m' p (l ++ [e]) q' ∧
      (∀ b ≠ e.1, m'.lookup b = m.lookup b) ∧ m'.keys.Perm m.keys := by
  have hlast := h.lookup_last
  have hmem : e.1 ∈ m := h.mem_heap (by simp)
  have hother : ∀ b ≠ e.1, (m.insert e.1 ⟨e.2, q'⟩).lookup b = m.lookup b := fun b hb =>
    AList.lookup_insert_ne hb
  refine ⟨_, Heap.setNext_some hlast q', ?_, hother, Heap.perm_keys_update hmem _⟩
  obtain ⟨r, h1, h2⟩ := append_iff.1 h
  refine append_iff.2 ⟨r, h1.frame fun x hx => hother x.1 ?_, h2.1, q', AList.lookup_insert _, rfl⟩
  rintro hxe
  rw [List.map_append, List.nodup_append] at hnodup
  exact hnodup.2.2 x.1 (List.mem_map_of_mem hx) e.1 (by simp) hxe

/-- A new node is linked behind the last one. -/
theorem push (h : Seg m p (l ++ [e]) none) (hnodup : ((l ++ [e]).map Prod.fst).Nodup) {a : ℕ}
    (ha : a ∉ m) (v : α) :
    ∃ m', Heap.setNext (m.insert a ⟨v, none⟩) (some e.1) (some a) = .ok m' ∧
      Seg m' p (l ++ [e] ++ [(a, v)]) none ∧
      (∀ b, b ≠ a → b ≠ e.1 → m'.lookup b = m.lookup b) ∧ m'.keys.Perm (a :: m.keys) := by
  have hnew : ∀ b ≠ a, (m.insert a ⟨v, none⟩).lookup b = m.lookup b := fun b hb =>
    AList.lookup_insert_ne hb
  have hne : ∀ x ∈ l ++ [e], x.1 ≠ a := fun x hx hxa => ha (hxa ▸ h.mem_heap hx)
  obtain ⟨m', hset, hseg, hother, hkeys⟩ :=
    (h.frame fun x hx => hnew x.1 (hne x hx)).setNext hnodup (some a)
  refine ⟨m', hset, append_iff.2 ⟨some a, hseg, rfl, none, ?_, rfl⟩, fun b hb hbe => ?_, ?_⟩
  · rw [hother a (hne e (by simp)).symm, AList.lookup_insert]
  · rw [hother b hbe, hnew b hb]
  · exact hkeys.trans (Heap.perm_keys_insert ha _)

/-- The loop stops at the first node whose value fails the test. -/
theorem walk (go : α → Bool) : ∀ {l : List (ℕ × α)} {cur : Option ℕ} (fuel : ℕ) (prev : Option ℕ),
    Seg m cur l none → l.length < fuel →
      m.walk go fuel prev cur = .ok (back prev (l.takeWhile fun e => go e.2),
        front (l.dropWhile fun e => go e.2) none)
  | _, _, 0, _, _, hfuel => absurd hfuel (Nat.not_lt_zero _)
  | [], cur, fuel + 1, prev, h, _ => by
    obtain rfl : cur = none := h
    rfl
  | e :: l, _, fuel + 1, prev, h, hfuel => by
    obtain ⟨rfl, r, hr, hl⟩ := h
    have ih := walk go fuel (some e.1) hl (by simpa using hfuel)
    rw [Heap.walk, if_neg (by simp), Heap.read_some hr, ok_bind]
    by_cases hgo : go e.2 = true
    · simp only [List.takeWhile_cons, List.dropWhile_cons, if_pos hgo, ih, back_cons]
    · simp only [List.takeWhile_cons, List.dropWhile_cons, if_neg hgo]
      rfl

end Seg

end CLib
