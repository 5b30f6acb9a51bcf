import Hermes.CLib.Ring
import Mathlib.Data.List.Basic
import Mathlib.Data.List.Nodup

/-!
# Several rings

Lists that share one set of nodes. `Rings L F` says that the nodes of each list of `F` stand in a
ring, the first one at its head, and that no node stands in two rings. The order of the rings does
not matter (`Rings.perm`), and only the pointers of their nodes do (`Rings.frame`).

The edits are functions on `F` : `putBehind`, `putBefore`, `takeOut` and `without`. A node is named
by itself, and its ring is the one that has it.
-/

namespace CLib

variable {α : Type*} {L L' : Links α} {F G : List (List α)} {c d ys : List α} {x y : α}

/-- The nodes stand in a ring, the first at its head. -/
def Loop (L : Links α) : List α → Prop
  | [] => True
  | h :: l => Ring L h l

namespace Loop

theorem nodup (hc : Loop L c) : c.Nodup := by
  cases c with
  | nil => exact List.nodup_nil
  | cons h l => exact Ring.nodup hc

theorem frame (hc : Loop L c)
    (hsame : ∀ a ∈ c, L'.next a = L.next a ∧ L'.prev a = L.prev a) : Loop L' c := by
  cases c with
  | nil => trivial
  | cons h l => exact Ring.frame hc hsame

theorem next_mem (hc : Loop L c) (hx : x ∈ c) : L.next x ∈ c := by
  cases c with
  | nil => simp at hx
  | cons h l =>
    rcases List.mem_cons.1 hx with rfl | hx
    · rw [Ring.next_head hc]
      exact (Ring.mem_seam x [] l).2
    · obtain ⟨l₁, l₂, rfl⟩ := List.append_of_mem hx
      rw [Ring.next_node hc, List.append_cons]
      exact (Ring.mem_seam h (l₁ ++ [x]) l₂).2

theorem prev_mem (hc : Loop L c) (hx : x ∈ c) : L.prev x ∈ c := by
  cases c with
  | nil => simp at hx
  | cons h l =>
    rcases List.mem_cons.1 hx with rfl | hx
    · have hlast := (Ring.mem_seam x l []).1
      rw [Ring.prev_head hc]
      rwa [List.append_nil] at hlast
    · obtain ⟨l₁, l₂, rfl⟩ := List.append_of_mem hx
      rw [Ring.prev_node hc]
      exact (Ring.mem_seam h l₁ (x :: l₂)).1

section Edits

variable [DecidableEq α] {h k : α} {l l₁ l₂ : List α}

/-- A new node behind any node of the ring, which may be its head. -/
theorem insert_behind (hc : Loop L (l₁ ++ x :: l₂)) (hy : y ∉ l₁ ++ x :: l₂) :
    Loop (L.insert y x (L.next x)) (l₁ ++ x :: y :: l₂) := by
  cases l₁ with
  | nil =>
    have hring : Ring L x ([] ++ l₂) := hc
    rw [hring.next_head]
    exact hring.insert hy
  | cons h l₁ =>
    have hring : Ring L h (l₁ ++ x :: l₂) := hc
    have hnext := hring.next_node
    rw [List.append_cons] at hring
    have hinsert := hring.insert (x := y) (by simpa using hy)
    rw [List.getLast?_concat, ← hnext] at hinsert
    rw [← List.append_cons] at hinsert
    exact hinsert

/-- A new node in front of a node. In front of the head it is the last. -/
theorem insert_head (hc : Loop L (x :: l)) (hy : y ∉ x :: l) :
    Loop (L.insert y (L.prev x) x) (x :: l ++ [y]) := by
  have hring : Ring L x (l ++ []) := by rwa [List.append_nil]
  rw [hring.prev_head, List.append_nil]
  exact hring.insert (x := y) (by simpa using hy)

theorem insert_before (hc : Loop L (h :: (l₁ ++ x :: l₂))) (hy : y ∉ h :: (l₁ ++ x :: l₂)) :
    Loop (L.insert y (L.prev x) x) (h :: (l₁ ++ y :: x :: l₂)) := by
  rw [Ring.prev_node hc]
  exact Ring.insert hc hy

theorem remove (hc : Loop L (h :: (l₁ ++ x :: l₂))) :
    Loop (L.join (L.prev x) (L.next x)) (h :: (l₁ ++ l₂)) :=
  Ring.remove hc

/-- The nodes of another ring behind any node, without its head. -/
theorem splice (hc : Loop L (l₁ ++ x :: l₂)) (hk : Loop L (k :: l)) (hl : l ≠ [])
    (hapart : ∀ y ∈ l, y ∉ l₁ ++ x :: l₂) :
    Loop (L.bridge (L.next k) (L.prev k) x (L.next x)) (l₁ ++ x :: (l ++ l₂)) := by
  obtain ⟨a, l', ha⟩ := List.exists_cons_of_ne_nil hl
  have hfirst : l.head? = some (L.next k) := by
    rw [Ring.next_head hk, ha]
    rfl
  have hlast : l.getLast? = some (L.prev k) := by
    rw [Ring.prev_head hk, List.getLast?_eq_some_getLast hl]
    rfl
  cases l₁ with
  | nil =>
    have hring : Ring L x ([] ++ l₂) := hc
    rw [hring.next_head]
    exact hring.splice hk hfirst hlast hapart
  | cons h l₁ =>
    have hring : Ring L h (l₁ ++ x :: l₂) := hc
    have hnext := hring.next_node
    rw [List.append_cons] at hring
    have hsplice := hring.splice hk hfirst hlast (by simpa using hapart)
    rw [List.getLast?_concat, ← hnext] at hsplice
    have hlist : l₁ ++ [x] ++ l ++ l₂ = l₁ ++ x :: (l ++ l₂) := by simp
    rw [hlist] at hsplice
    exact hsplice

end Edits

end Loop

/-- The nodes of each list stand in a ring, and no node in two. -/
structure Rings (L : Links α) (F : List (List α)) : Prop where
  apart : F.Pairwise List.Disjoint
  loop : ∀ c ∈ F, Loop L c

namespace Rings

theorem cons_iff :
    Rings L (c :: F) ↔ (∀ d ∈ F, c.Disjoint d) ∧ Loop L c ∧ Rings L F := by
  constructor
  · rintro ⟨hapart, hloop⟩
    obtain ⟨hc, hF⟩ := List.pairwise_cons.1 hapart
    exact ⟨hc, hloop c (by simp), hF, fun d hd => hloop d (List.mem_cons_of_mem _ hd)⟩
  · rintro ⟨hc, hloop, hF⟩
    refine ⟨List.pairwise_cons.2 ⟨hc, hF.apart⟩, fun d hd => ?_⟩
    rcases List.mem_cons.1 hd with rfl | hd
    · exact hloop
    · exact hF.loop d hd

theorem perm (hF : Rings L F) (h : F.Perm G) : Rings L G :=
  ⟨(h.pairwise_iff fun hd => List.disjoint_symm hd).1 hF.apart,
    fun c hc => hF.loop c (h.mem_iff.2 hc)⟩

theorem frame (hF : Rings L F)
    (hsame : ∀ a ∈ F.flatten, L'.next a = L.next a ∧ L'.prev a = L.prev a) : Rings L' F :=
  ⟨hF.apart, fun c hc => (hF.loop c hc).frame fun a ha =>
    hsame a (List.mem_flatten_of_mem hc ha)⟩

/-- An edit of one ring leaves the others alone, if it keeps off their nodes. -/
theorem edit (hF : Rings L (c :: F)) (hd : Loop L' d)
    (hnew : ∀ a ∈ d, a ∈ c ∨ a ∉ F.flatten)
    (hsame : ∀ a ∈ F.flatten, L'.next a = L.next a ∧ L'.prev a = L.prev a) :
    Rings L' (d :: F) := by
  obtain ⟨hapart, -, hF⟩ := cons_iff.1 hF
  refine cons_iff.2 ⟨fun e he a had hae => ?_, hd, hF.frame hsame⟩
  rcases hnew a had with hac | ha
  · exact hapart e he hac hae
  · exact ha (List.mem_flatten_of_mem he hae)

theorem nodup_flatten (hF : Rings L F) : F.flatten.Nodup :=
  List.nodup_flatten.2 ⟨fun c hc => (hF.loop c hc).nodup, hF.apart⟩

theorem next_mem (hF : Rings L F) (hx : x ∈ F.flatten) : L.next x ∈ F.flatten := by
  obtain ⟨c, hc, hx⟩ := List.mem_flatten.1 hx
  exact List.mem_flatten_of_mem hc ((hF.loop c hc).next_mem hx)

theorem prev_mem (hF : Rings L F) (hx : x ∈ F.flatten) : L.prev x ∈ F.flatten := by
  obtain ⟨c, hc, hx⟩ := List.mem_flatten.1 hx
  exact List.mem_flatten_of_mem hc ((hF.loop c hc).prev_mem hx)

/-- A node of one ring is in no other. -/
theorem notMem_flatten (hF : Rings L (c :: F)) (hx : x ∈ c) : x ∉ F.flatten := by
  intro h
  obtain ⟨d, hd, hxd⟩ := List.mem_flatten.1 h
  exact (cons_iff.1 hF).1 d hd hx hxd

end Rings

/-! ## Edits -/

/-- `x` is a node of a ring, and not its head. -/
def IsEntry (x : α) (F : List (List α)) : Prop :=
  ∃ c ∈ F, x ∈ c.tail

theorem mem_of_isEntry (hx : IsEntry x F) : x ∈ F.flatten := by
  obtain ⟨c, hc, hx⟩ := hx
  exact List.mem_flatten_of_mem hc (List.mem_of_mem_tail hx)

/-- `x` is in no ring, or alone in one. -/
def IsLoose (x : α) (F : List (List α)) : Prop :=
  x ∉ F.flatten ∨ [x] ∈ F

section Edits

variable [DecidableEq α] {k : α} {l l₁ l₂ : List α}

/-- Put `ys` behind `x`. -/
def putBehind (x : α) (ys : List α) (F : List (List α)) : List (List α) :=
  F.map fun c => c.flatMap fun z => if z = x then z :: ys else [z]

/-- Put `y` in front of `x`. In front of a head is behind the last. -/
def putBefore (x y : α) (F : List (List α)) : List (List α) :=
  F.map fun c =>
    if c.head? = some x then c ++ [y] else c.flatMap fun z => if z = x then [y, z] else [z]

/-- Take `x` out. -/
def takeOut (x : α) (F : List (List α)) : List (List α) :=
  F.map fun c => c.filter fun z => z ≠ x

/-- Drop the ring with head `k`. -/
def without (k : α) (F : List (List α)) : List (List α) :=
  F.filter fun c => c.head? ≠ some k

/-- The nodes behind the head `k`. -/
def behind (k : α) (F : List (List α)) : List α :=
  ((F.find? fun c => c.head? = some k).map List.tail).getD []

theorem flatMap_notMem {f : α → List α} (hx : x ∉ c) :
    (c.flatMap fun z => if z = x then f z else [z]) = c := by
  induction c with
  | nil => rfl
  | cons z c ih =>
    rw [List.mem_cons, not_or] at hx
    rw [List.flatMap_cons, if_neg (Ne.symm hx.1), ih hx.2, List.singleton_append]

theorem flatMap_split (f : α → List α) (hnodup : (l₁ ++ x :: l₂).Nodup) :
    ((l₁ ++ x :: l₂).flatMap fun z => if z = x then f z else [z]) = l₁ ++ (f x ++ l₂) := by
  obtain ⟨hx, -⟩ := List.nodup_cons.1 (List.nodup_middle.1 hnodup)
  rw [List.mem_append, not_or] at hx
  rw [List.flatMap_append, List.flatMap_cons, if_pos rfl, flatMap_notMem hx.1,
    flatMap_notMem hx.2]

theorem filter_split (hnodup : (l₁ ++ x :: l₂).Nodup) :
    ((l₁ ++ x :: l₂).filter fun z => z ≠ x) = l₁ ++ l₂ := by
  obtain ⟨hx, -⟩ := List.nodup_cons.1 (List.nodup_middle.1 hnodup)
  rw [List.mem_append, not_or] at hx
  have hkeep : ∀ {c : List α}, x ∉ c → (c.filter fun z => z ≠ x) = c := fun hx =>
    List.filter_eq_self.2 fun z hz => by
      rw [decide_eq_true_eq]
      rintro rfl
      exact hx hz
  rw [List.filter_append, List.filter_cons_of_neg (by simp), hkeep hx.1, hkeep hx.2]

theorem putBehind_notMem (hx : x ∉ F.flatten) : putBehind x ys F = F := by
  rw [putBehind, List.map_congr_left fun c hc =>
    flatMap_notMem fun hxc => hx (List.mem_flatten_of_mem hc hxc), List.map_id']

theorem putBefore_notMem (hx : x ∉ F.flatten) : putBefore x y F = F := by
  have hsame : ∀ c ∈ F, (if c.head? = some x then c ++ [y]
      else c.flatMap fun z => if z = x then [y, z] else [z]) = c := fun c hc => by
    have hxc : x ∉ c := fun hxc => hx (List.mem_flatten_of_mem hc hxc)
    rw [if_neg fun hhead => hxc (List.mem_of_head? hhead), flatMap_notMem hxc]
  rw [putBefore, List.map_congr_left hsame, List.map_id']

theorem takeOut_notMem (hx : x ∉ F.flatten) : takeOut x F = F := by
  have hsame : ∀ c ∈ F, (c.filter fun z => z ≠ x) = c := fun c hc =>
    List.filter_eq_self.2 fun z hz => by
      rw [decide_eq_true_eq]
      rintro rfl
      exact hx (List.mem_flatten_of_mem hc hz)
  rw [takeOut, List.map_congr_left hsame, List.map_id']

theorem mem_takeOut : y ∈ (takeOut x F).flatten ↔ y ∈ F.flatten ∧ y ≠ x := by
  simp only [takeOut, List.mem_flatten, List.mem_map]
  constructor
  · rintro ⟨_, ⟨c, hc, rfl⟩, hy⟩
    obtain ⟨hy, hne⟩ := List.mem_filter.1 hy
    exact ⟨⟨c, hc, hy⟩, by simpa using hne⟩
  · rintro ⟨⟨c, hc, hy⟩, hne⟩
    exact ⟨_, ⟨c, hc, rfl⟩, List.mem_filter.2 ⟨hy, by simpa using hne⟩⟩

theorem mem_of_mem_putBehind (hy : y ∈ (putBehind x ys F).flatten) : y ∈ F.flatten ∨ y ∈ ys := by
  simp only [putBehind, List.mem_flatten, List.mem_map] at hy
  obtain ⟨_, ⟨c, hc, rfl⟩, hy⟩ := hy
  obtain ⟨z, hz, hy⟩ := List.mem_flatMap.1 hy
  split_ifs at hy with hzx
  · rcases List.mem_cons.1 hy with rfl | hy
    · exact .inl (List.mem_flatten_of_mem hc hz)
    · exact .inr hy
  · rw [List.mem_singleton.1 hy]
    exact .inl (List.mem_flatten_of_mem hc hz)

theorem mem_of_mem_putBefore {a : α} (ha : a ∈ (putBefore x y F).flatten) :
    a ∈ F.flatten ∨ a = y := by
  simp only [putBefore, List.mem_flatten, List.mem_map] at ha
  obtain ⟨_, ⟨c, hc, rfl⟩, ha⟩ := ha
  have hin : ∀ {b}, b ∈ c → b ∈ F.flatten := fun hb => List.mem_flatten_of_mem hc hb
  split_ifs at ha with hhead
  · rcases List.mem_append.1 ha with ha | ha
    · exact .inl (hin ha)
    · exact .inr (List.mem_singleton.1 ha)
  · obtain ⟨z, hz, ha⟩ := List.mem_flatMap.1 ha
    split_ifs at ha with hzx
    · rcases List.mem_cons.1 ha with rfl | ha
      · exact .inr rfl
      · rw [List.mem_singleton.1 ha]
        exact .inl (hin hz)
    · rw [List.mem_singleton.1 ha]
      exact .inl (hin hz)

theorem mem_of_mem_without (hy : y ∈ (without k F).flatten) : y ∈ F.flatten := by
  obtain ⟨c, hc, hy⟩ := List.mem_flatten.1 hy
  exact List.mem_flatten_of_mem (List.mem_of_mem_filter hc) hy

namespace Rings

/-- A family with the ring of a node in front. -/
theorem exists_perm (hx : x ∈ F.flatten) : ∃ l₁ l₂ G, F.Perm ((l₁ ++ x :: l₂) :: G) := by
  obtain ⟨c, hc, hx⟩ := List.mem_flatten.1 hx
  obtain ⟨l₁, l₂, rfl⟩ := List.append_of_mem hx
  exact ⟨l₁, l₂, F.erase (l₁ ++ x :: l₂), List.perm_cons_erase hc⟩

variable (hF : Rings L F)
include hF

theorem put_behind (hx : x ∈ F.flatten) (hy : y ∉ F.flatten) :
    Rings (L.insert y x (L.next x)) (putBehind x [y] F) := by
  obtain ⟨l₁, l₂, G, hperm⟩ := exists_perm hx
  have hG := hF.perm hperm
  rw [hperm.flatten.mem_iff, List.flatten_cons, List.mem_append, not_or] at hy
  have hloop := (cons_iff.1 hG).2.1
  have hxG := hG.notMem_flatten (x := x) (by simp)
  have hnG := hG.notMem_flatten (hloop.next_mem (x := x) (by simp))
  have hedit := hG.edit (hloop.insert_behind hy.1) (fun a ha => ?_) (fun a ha => ?_)
  · refine hedit.perm (List.Perm.trans (.of_eq ?_) (hperm.map _).symm)
    exact congrArg₂ _ (flatMap_split (fun z => [z, y]) hloop.nodup).symm
      (putBehind_notMem hxG).symm
  · by_cases hay : a = y
    · exact .inr (hay ▸ hy.2)
    · exact .inl (by simpa [hay] using ha)
  · have hne : ∀ {b}, b ∉ G.flatten → a ≠ b := fun hb heq => hb (heq ▸ ha)
    simp [Links.insert, Links.setNext, Links.setPrev, hne hxG, hne hnG, hne hy.2]

theorem put_before (hx : x ∈ F.flatten) (hy : y ∉ F.flatten) :
    Rings (L.insert y (L.prev x) x) (putBefore x y F) := by
  obtain ⟨l₁, l₂, G, hperm⟩ := exists_perm hx
  have hG := hF.perm hperm
  rw [hperm.flatten.mem_iff, List.flatten_cons, List.mem_append, not_or] at hy
  have hloop := (cons_iff.1 hG).2.1
  have hxG := hG.notMem_flatten (x := x) (by simp)
  have hpG := hG.notMem_flatten (hloop.prev_mem (x := x) (by simp))
  have hsame : ∀ a ∈ G.flatten, (L.insert y (L.prev x) x).next a = L.next a ∧
      (L.insert y (L.prev x) x).prev a = L.prev a := fun a ha => by
    have hne : ∀ {b}, b ∉ G.flatten → a ≠ b := fun hb heq => hb (heq ▸ ha)
    simp [Links.insert, Links.setNext, Links.setPrev, hne hxG, hne hpG, hne hy.2]
  have hnew : ∀ {c : List α}, (∀ a ∈ c, a ≠ y → a ∈ l₁ ++ x :: l₂) →
      ∀ a ∈ c, a ∈ l₁ ++ x :: l₂ ∨ a ∉ G.flatten := fun hc a ha => by
    by_cases hay : a = y
    · exact .inr (hay ▸ hy.2)
    · exact .inl (hc a ha hay)
  cases l₁ with
  | nil =>
    have hedit := hG.edit (hloop.insert_head hy.1) (hnew fun a ha hay => by
      simpa [hay] using ha) hsame
    refine hedit.perm (List.Perm.trans (.of_eq ?_) (hperm.map _).symm)
    exact congrArg₂ _ (if_pos rfl).symm (putBefore_notMem hxG).symm
  | cons h l₁ =>
    have hedit := hG.edit (hloop.insert_before hy.1) (hnew fun a ha hay => by
      simpa [hay] using ha) hsame
    refine hedit.perm (List.Perm.trans (.of_eq ?_) (hperm.map _).symm)
    have hhead : (h :: l₁ ++ x :: l₂).head? ≠ some x := by
      rintro hhx
      have hnodup := hloop.nodup
      grind
    exact congrArg₂ _ ((if_neg hhead).trans
      (flatMap_split (fun z => [y, z]) hloop.nodup)).symm (putBefore_notMem hxG).symm

theorem take_out (hx : IsEntry x F) :
    Rings (L.join (L.prev x) (L.next x)) (takeOut x F) := by
  obtain ⟨c, hc, hx⟩ := hx
  obtain ⟨h, l, rfl⟩ := List.exists_cons_of_ne_nil (l := c) (by rintro rfl; simp at hx)
  obtain ⟨l₁, l₂, rfl⟩ := List.append_of_mem hx
  have hperm := List.perm_cons_erase hc
  have hG := hF.perm hperm
  have hloop := (cons_iff.1 hG).2.1
  have hxG := hG.notMem_flatten (x := x) (by simp)
  have hnG := hG.notMem_flatten (hloop.next_mem (x := x) (by simp))
  have hpG := hG.notMem_flatten (hloop.prev_mem (x := x) (by simp))
  have hedit := hG.edit hloop.remove (fun a ha => ?_) (fun a ha => ?_)
  · refine hedit.perm (List.Perm.trans (.of_eq ?_) (hperm.map _).symm)
    have hfilter := @filter_split _ x _ (h :: l₁) l₂ hloop.nodup
    exact congrArg₂ _ hfilter.symm (takeOut_notMem hxG).symm
  · exact .inl (by grind)
  · have hne : ∀ {b}, b ∉ _ → a ≠ b := fun hb heq => hb (heq ▸ ha)
    simp [Links.join, Links.setNext, Links.setPrev, hne hnG, hne hpG]

/-- A node that is in no ring, joined to itself. -/
theorem init (hx : x ∉ F.flatten) : Rings ((L.setNext x x).setPrev x x) ([x] :: F) := by
  have hsame : ∀ a ∈ F.flatten, ((L.setNext x x).setPrev x x).next a = L.next a ∧
      ((L.setNext x x).setPrev x x).prev a = L.prev a := fun a ha => by
    have hax : a ≠ x := fun heq => hx (heq ▸ ha)
    simp [Links.setNext, Links.setPrev, hax]
  refine cons_iff.2 ⟨fun c hc => ?_, ?_, hF.frame hsame⟩
  · rw [List.singleton_disjoint]
    exact fun hxc => hx (List.mem_flatten_of_mem hc hxc)
  · exact Ring.nil_iff.2 (by simp [Links.setNext, Links.setPrev])

/-- A ring left out. -/
theorem drop : Rings L (without k F) :=
  ⟨hF.apart.sublist List.filter_sublist, fun c hc => hF.loop c (List.mem_of_mem_filter hc)⟩

section Head

variable (hk : k :: l ∈ F)
include hk

/-- Only one ring has the head `k`. -/
theorem eq_of_head (hc : c ∈ F) (hhead : c.head? = some k) : c = k :: l := by
  by_contra hne
  have hsymm : Std.Symm (List.Disjoint : List α → List α → Prop) :=
    ⟨fun _ _ hd => List.disjoint_symm hd⟩
  have hapart := hF.apart.forall hc hk hne
  exact hapart (List.mem_of_head? hhead) List.mem_cons_self

theorem behind_eq : behind k F = l := by
  obtain ⟨c, hc⟩ : ∃ c, F.find? (fun c => c.head? = some k) = some c :=
    Option.isSome_iff_exists.1 (List.find?_isSome.2 ⟨k :: l, hk, by simp⟩)
  have hhead : c.head? = some k := by simpa using List.find?_some hc
  rw [behind, hc, hF.eq_of_head hk (List.mem_of_find?_eq_some hc) hhead]
  rfl

theorem perm_without : F.Perm ((k :: l) :: without k F) := by
  have hperm := List.perm_cons_erase hk
  have hG := hF.perm hperm
  have hkG := hG.notMem_flatten (x := k) (by simp)
  have hkeep : without k (F.erase (k :: l)) = F.erase (k :: l) :=
    List.filter_eq_self.2 fun c hc => by
      rw [decide_eq_true_eq]
      exact fun hhead => hkG (List.mem_flatten_of_mem hc (List.mem_of_head? hhead))
  have hfilter := hperm.filter fun c => c.head? ≠ some k
  rw [List.filter_cons_of_neg (by simp)] at hfilter
  exact hperm.trans ((hfilter.trans (.of_eq hkeep)).symm.cons _)

omit hk in
/-- A loose node is in no ring once its own is left out. -/
theorem loose_notMem (hloose : IsLoose k F) : k ∉ (without k F).flatten := by
  rcases hloose with hnot | halone
  · exact fun hmem => hnot (mem_of_mem_without hmem)
  · exact (hF.perm (hF.perm_without halone)).notMem_flatten List.mem_cons_self

omit hk in
/-- The other nodes stay in their rings. -/
theorem mem_without_loose (hloose : IsLoose k F) (hx : x ∈ F.flatten) (hxk : x ≠ k) :
    x ∈ (without k F).flatten := by
  obtain ⟨c, hc, hxc⟩ := List.mem_flatten.1 hx
  refine List.mem_flatten_of_mem (List.mem_filter.2 ⟨hc, ?_⟩) hxc
  rw [decide_eq_true_eq]
  intro hhead
  rcases hloose with hnot | halone
  · exact hnot (List.mem_flatten_of_mem hc (List.mem_of_head? hhead))
  · rw [hF.eq_of_head halone hc hhead, List.mem_singleton] at hxc
    exact hxk hxc

/-- The nodes behind a head put behind a node of another ring. The head is left out. -/
theorem splice (hl : l ≠ []) (hx : x ∈ F.flatten) (hxk : x ∉ k :: l) :
    Rings (L.bridge (L.next k) (L.prev k) x (L.next x)) (putBehind x l (without k F)) := by
  have hperm := hF.perm_without hk
  have hsplit := hF.perm hperm
  obtain ⟨-, hkloop, hrest⟩ := cons_iff.1 hsplit
  have hx : x ∈ (without k F).flatten := by
    rw [hperm.flatten.mem_iff, List.flatten_cons, List.mem_append] at hx
    exact hx.resolve_left hxk
  obtain ⟨l₁, l₂, G, hpermG⟩ := exists_perm hx
  have hG := hrest.perm hpermG
  have hloop := (cons_iff.1 hG).2.1
  -- the nodes of the list are in none of the other rings
  have hother : ∀ {a}, a ∈ k :: l → a ∉ l₁ ++ x :: l₂ ∧ a ∉ G.flatten := fun ha => by
    have hnot := hsplit.notMem_flatten ha
    rw [hpermG.flatten.mem_iff, List.flatten_cons, List.mem_append, not_or] at hnot
    exact hnot
  have hfirst := (hother (hkloop.next_mem (x := k) (by simp))).2
  have hlast := (hother (hkloop.prev_mem (x := k) (by simp))).2
  have hxG := hG.notMem_flatten (x := x) (by simp)
  have hnG := hG.notMem_flatten (hloop.next_mem (x := x) (by simp))
  have hjoined := hloop.splice hkloop hl fun y hy => (hother (List.mem_cons_of_mem _ hy)).1
  have hedit := hG.edit hjoined (fun a ha => ?_) (fun a ha => ?_)
  · refine hedit.perm (List.Perm.trans (.of_eq ?_) (hpermG.map _).symm)
    exact congrArg₂ _ (flatMap_split (fun z => z :: l) hloop.nodup).symm
      (putBehind_notMem hxG).symm
  · by_cases hal : a ∈ l
    · exact .inr (hother (List.mem_cons_of_mem _ hal)).2
    · exact .inl (by grind)
  · have hne : ∀ {b}, b ∉ G.flatten → a ≠ b := fun hb heq => hb (heq ▸ ha)
    simp [Links.bridge, Links.setNext, Links.setPrev, hne hfirst, hne hlast, hne hxG, hne hnG]

/-- The head is left in no ring. -/
theorem head_notMem : k ∉ (putBehind x l (without k F)).flatten := by
  have hsplit := hF.perm (hF.perm_without hk)
  intro hmem
  rcases mem_of_mem_putBehind hmem with hmem | hmem
  · exact hsplit.notMem_flatten List.mem_cons_self hmem
  · exact (List.nodup_cons.1 (hF.loop _ hk).nodup).1 hmem

end Head

end Rings

end Edits

end CLib
