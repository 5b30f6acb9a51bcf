import Mathlib.Data.List.Chain
import Mathlib.Logic.Function.Basic

/-!
# Rings of links

A circular doubly linked list is threaded through its nodes : every node has a pointer to the
next and one to the previous, and the list has a head, which is a node of its own. `Links` is
what the pointers of all nodes say, and `Ring h l` that the nodes `l` stand between `h` and
`h` again, each joined to its neighbours both ways.

`Ring.insert`, `Ring.remove` and `Ring.splice` are the edits, each made by the assignments a C
program makes. Every other pointer stays as it is, so that a ring only depends on the pointers of its
own nodes (`Ring.frame`).
-/

namespace CLib

variable {α : Type*}

/-- The pointers of all nodes. -/
structure Links (α : Type*) where
  next : α → α
  prev : α → α

namespace Links

/-- `x` and `y` point at each other. -/
def Joins (L : Links α) (x y : α) : Prop :=
  L.next x = y ∧ L.prev y = x

section Edits

variable [DecidableEq α] (L : Links α)

/-- `x->next = y`. -/
def setNext (x y : α) : Links α :=
  { L with next := Function.update L.next x y }

/-- `x->prev = y`. -/
def setPrev (x y : α) : Links α :=
  { L with prev := Function.update L.prev x y }

/-- Put `y` between `x` and `z`. -/
def insert (y x z : α) : Links α :=
  (((L.setPrev z y).setNext y z).setPrev y x).setNext x y

/-- Join `x` and `z`. -/
def join (x z : α) : Links α :=
  (L.setPrev z x).setNext x z

/-- Put the nodes from `a` to `b` between `x` and `z`. -/
def bridge (a b x z : α) : Links α :=
  (((L.setPrev a x).setNext x a).setNext b z).setPrev z b

end Edits

end Links

/-- The nodes `l` stand in a ring behind `h`. -/
structure Ring (L : Links α) (h : α) (l : List α) : Prop where
  nodup : (h :: l).Nodup
  joined : (h :: l ++ [h]).IsChain L.Joins

/-- A chain whose links are also links of another relation, each between a node with a
successor and a node with a predecessor. -/
theorem isChain_imp {R S : α → α → Prop} {l : List α} (hl : l.IsChain R)
    (h : ∀ a ∈ l.dropLast, ∀ b ∈ l.tail, R a b → S a b) : l.IsChain S := by
  induction hl with
  | nil => exact .nil
  | singleton a => exact .singleton a
  | cons_cons hr _ ih =>
    refine .cons_cons (h _ (by simp) _ (by simp) hr) (ih fun a ha b hb => h a ?_ b ?_)
    · simp [ha]
    · simp at hb
      simp [hb]

namespace Ring

variable {L : Links α} {h x : α} {l l₁ l₂ : List α}

theorem nil_iff : Ring L h [] ↔ L.next h = h ∧ L.prev h = h :=
  ⟨fun hr => (List.isChain_cons_cons.1 hr.joined).1, fun hh =>
    ⟨by simp, List.isChain_pair.2 hh⟩⟩

/-- The two halves of a ring, the head in front of the first and behind the second. -/
theorem chains (hr : Ring L h (l₁ ++ l₂)) :
    (h :: l₁).IsChain L.Joins ∧ (l₂ ++ [h]).IsChain L.Joins := by
  have hjoined := hr.joined
  rw [← List.cons_append, List.append_assoc, List.isChain_append] at hjoined
  exact ⟨hjoined.1, hjoined.2.1⟩

/-- Neighbours are joined. -/
theorem joins (hr : Ring L h (l₁ ++ l₂)) :
    L.Joins (l₁.getLast?.getD h) (l₂.head?.getD h) := by
  have hjoined := hr.joined
  rw [← List.cons_append, List.append_assoc, List.isChain_append] at hjoined
  refine hjoined.2.2 _ ?_ _ ?_
  · rw [List.getLast?_cons]
    rfl
  · cases l₂ <;> rfl

theorem next_head (hr : Ring L h l) : L.next h = l.head?.getD h := by
  rw [← List.nil_append l] at hr
  exact hr.joins.1

theorem prev_head (hr : Ring L h l) : L.prev h = l.getLast?.getD h := by
  rw [← List.append_nil l] at hr
  exact hr.joins.2

theorem next_node (hr : Ring L h (l₁ ++ x :: l₂)) : L.next x = l₂.head?.getD h := by
  rw [List.append_cons] at hr
  have hjoins := hr.joins
  rw [List.getLast?_concat] at hjoins
  exact hjoins.1

theorem prev_node (hr : Ring L h (l₁ ++ x :: l₂)) : L.prev x = l₁.getLast?.getD h :=
  hr.joins.2

/-- A ring depends on the pointers of its own nodes. -/
theorem frame {L' : Links α} (hr : Ring L h l)
    (hsame : ∀ a ∈ h :: l, L'.next a = L.next a ∧ L'.prev a = L.prev a) : Ring L' h l where
  nodup := hr.nodup
  joined := by
    refine hr.joined.imp_of_mem_imp fun a b ha hb hab => ?_
    have hmem : ∀ {c}, c ∈ h :: l ++ [h] → c ∈ h :: l := by
      intro c hc
      simpa [or_comm] using hc
    exact ⟨(hsame a (hmem ha)).1.trans hab.1, (hsame b (hmem hb)).2.trans hab.2⟩

/-- The two halves of a ring are still joined if only the pointers at the seam between them
change. -/
theorem halves (L' : Links α) (hnodup : (h :: (l₁ ++ l₂)).Nodup)
    (hleft : (h :: l₁).IsChain L.Joins) (hright : (l₂ ++ [h]).IsChain L.Joins)
    (hnext : ∀ a ∈ h :: (l₁ ++ l₂), a ≠ l₁.getLast?.getD h → L'.next a = L.next a)
    (hprev : ∀ a ∈ h :: (l₁ ++ l₂), a ≠ l₂.head?.getD h → L'.prev a = L.prev a) :
    (h :: l₁).IsChain L'.Joins ∧ (l₂ ++ [h]).IsChain L'.Joins := by
  have hjoins : ∀ {a b}, a ∈ h :: (l₁ ++ l₂) → a ≠ l₁.getLast?.getD h → b ∈ h :: (l₁ ++ l₂) →
      b ≠ l₂.head?.getD h → L.Joins a b → L'.Joins a b := fun ha hax hb hbz hab =>
    ⟨(hnext _ ha hax).trans hab.1, (hprev _ hb hbz).trans hab.2⟩
  constructor
  · refine isChain_imp hleft fun a ha b hb => hjoins ?_ ?_ ?_ ?_
    · have := (List.dropLast_sublist (h :: l₁)).subset ha
      grind
    · rcases List.eq_nil_or_concat' l₁ with rfl | ⟨l, x, rfl⟩
      · simp at ha
      · rw [← List.cons_append, List.dropLast_concat] at ha
        rw [List.getLast?_concat]
        grind
    · grind
    · cases l₂ <;> grind
  · refine isChain_imp hright fun a ha b hb => hjoins ?_ ?_ ?_ ?_
    · rw [List.dropLast_concat] at ha
      simp [ha]
    · rw [List.dropLast_concat] at ha
      rcases List.eq_nil_or_concat' l₁ with rfl | ⟨l, x, rfl⟩
      · grind
      · rw [List.getLast?_concat]
        grind
    · have := List.mem_of_mem_tail hb
      grind
    · cases l₂ <;> grind

/-- The last node of the first half, and the first of the second. -/
theorem mem_seam (h : α) (l₁ l₂ : List α) :
    l₁.getLast?.getD h ∈ h :: (l₁ ++ l₂) ∧ l₂.head?.getD h ∈ h :: (l₁ ++ l₂) := by
  constructor
  · cases hl : l₁.getLast? with
    | none => simp
    | some a => simp [List.mem_of_getLast? hl]
  · cases l₂ <;> simp

/-- Two halves that are joined at the seam. -/
theorem of_halves (hnodup : (h :: (l₁ ++ l₂)).Nodup) (hleft : (h :: l₁).IsChain L.Joins)
    (hright : (l₂ ++ [h]).IsChain L.Joins)
    (hseam : L.Joins (l₁.getLast?.getD h) (l₂.head?.getD h)) : Ring L h (l₁ ++ l₂) where
  nodup := hnodup
  joined := by
    rw [← List.cons_append, List.append_assoc]
    refine hleft.append hright fun a ha b hb => ?_
    have ha : l₁.getLast?.getD h = a := by simpa [List.getLast?_cons] using ha
    have hb : l₂.head?.getD h = b := by cases l₂ <;> simpa using hb
    rwa [← ha, ← hb]

section Edits

variable [DecidableEq α]

/-- Putting a new node at a seam. -/
theorem insert (hr : Ring L h (l₁ ++ l₂)) (hx : x ∉ h :: (l₁ ++ l₂)) :
    Ring (L.insert x (l₁.getLast?.getD h) (l₂.head?.getD h)) h (l₁ ++ x :: l₂) := by
  set L' := L.insert x (l₁.getLast?.getD h) (l₂.head?.getD h) with hL'
  obtain ⟨hlast, hhead⟩ := mem_seam h l₁ l₂
  have hne : ∀ {a}, a ∈ h :: (l₁ ++ l₂) → a ≠ x := fun ha heq => hx (heq ▸ ha)
  obtain ⟨hleft, hright⟩ := hr.chains
  obtain ⟨hleft, hright⟩ := halves L' hr.nodup hleft hright
    (fun a ha hax => by simp [hL', Links.insert, Links.setNext, Links.setPrev, hax, hne ha])
    (fun a ha haz => by simp [hL', Links.insert, Links.setNext, Links.setPrev, haz, hne ha])
  have hin : L'.Joins (l₁.getLast?.getD h) x := by
    simp [hL', Links.Joins, Links.insert, Links.setNext, Links.setPrev]
  have hout : L'.Joins x (l₂.head?.getD h) := by
    simp [hL', Links.Joins, Links.insert, Links.setNext, Links.setPrev, (hne hlast).symm,
      hne hhead]
  have hnodup := hr.nodup
  refine of_halves (by grind) hleft (hright.cons fun z hz => ?_) hin
  have hz : l₂.head?.getD h = z := by cases l₂ <;> simpa using hz
  rwa [← hz]

/-- Taking a node out. -/
theorem remove (hr : Ring L h (l₁ ++ x :: l₂)) :
    Ring (L.join (L.prev x) (L.next x)) h (l₁ ++ l₂) := by
  rw [hr.prev_node, hr.next_node]
  have hnodup := hr.nodup
  obtain ⟨hleft, hright⟩ := hr.chains
  obtain ⟨hleft, hright⟩ := halves (L.join (l₁.getLast?.getD h) (l₂.head?.getD h)) (by grind)
    hleft hright.tail
    (fun a ha hax => by simp [Links.join, Links.setNext, Links.setPrev, hax])
    (fun a ha haz => by simp [Links.join, Links.setNext, Links.setPrev, haz])
  refine of_halves (by grind) hleft hright ?_
  simp [Links.Joins, Links.join, Links.setNext, Links.setPrev]

/-- Putting the nodes of another ring at a seam. Its head is left out. -/
theorem splice {k a b : α} (hr : Ring L h (l₁ ++ l₂)) (hk : Ring L k l) (ha : l.head? = some a)
    (hb : l.getLast? = some b) (hapart : ∀ y ∈ l, y ∉ h :: (l₁ ++ l₂)) :
    Ring (L.bridge a b (l₁.getLast?.getD h) (l₂.head?.getD h)) h (l₁ ++ l ++ l₂) := by
  set L' := L.bridge a b (l₁.getLast?.getD h) (l₂.head?.getD h) with hL'
  obtain ⟨hlast, hhead⟩ := mem_seam h l₁ l₂
  have hne : ∀ {y c}, y ∈ l → c ∈ h :: (l₁ ++ l₂) → y ≠ c := fun hy hc heq =>
    hapart _ hy (heq ▸ hc)
  have hal : a ∈ l := List.mem_of_head? ha
  have hbl : b ∈ l := List.mem_of_getLast? hb
  obtain ⟨hleft, hright⟩ := hr.chains
  obtain ⟨hleft, hright⟩ := halves L' hr.nodup hleft hright
    (fun c hc hcx => by
      simp [hL', Links.bridge, Links.setNext, Links.setPrev, hcx, (hne hbl hc).symm])
    (fun c hc hcz => by
      simp [hL', Links.bridge, Links.setNext, Links.setPrev, hcz, (hne hal hc).symm])
  -- inside the nodes only the outer pointers of the first and the last change
  have hnodup : l.Nodup := (List.nodup_cons.1 hk.nodup).2
  have hmiddle : l.IsChain L'.Joins := by
    have hchain : l.IsChain L.Joins := hk.joined.of_cons.left_of_append
    refine isChain_imp hchain fun c hc d hd hcd => ?_
    have hcb : c ≠ b := by
      obtain ⟨l', rfl⟩ := List.getLast?_eq_some_iff.1 hb
      rw [List.dropLast_concat] at hc
      grind
    have hda : d ≠ a := by
      obtain ⟨l', rfl⟩ := List.head?_eq_some_iff.1 ha
      grind
    have hcl := (List.dropLast_sublist l).subset hc
    have hdl := List.mem_of_mem_tail hd
    have hnext : L'.next c = L.next c := by
      simp [hL', Links.bridge, Links.setNext, Links.setPrev, hcb, hne hcl hlast]
    have hprev : L'.prev d = L.prev d := by
      simp [hL', Links.bridge, Links.setNext, Links.setPrev, hda, hne hdl hhead]
    exact ⟨hnext.trans hcd.1, hprev.trans hcd.2⟩
  have hin : L'.Joins (l₁.getLast?.getD h) a := by
    simp [hL', Links.Joins, Links.bridge, Links.setNext, Links.setPrev, hne hal hhead,
      (hne hbl hlast).symm]
  have hout : L'.Joins b (l₂.head?.getD h) := by
    simp [hL', Links.Joins, Links.bridge, Links.setNext, Links.setPrev]
  have hall : (h :: (l₁ ++ l ++ l₂)).Nodup := by
    have hr := hr.nodup
    grind
  refine of_halves hall ?_ hright ?_
  · rw [← List.cons_append]
    refine hleft.append hmiddle fun c hc d hd => ?_
    have hc : l₁.getLast?.getD h = c := by simpa [List.getLast?_cons] using hc
    rw [ha, Option.mem_some_iff] at hd
    rwa [← hc, ← hd]
  · rwa [List.getLast?_append, hb]

end Edits

end Ring

end CLib
