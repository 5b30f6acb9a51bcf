import Mathlib.Data.List.Flatten
import Mathlib.Data.List.Pairwise
import Mathlib.Data.List.TakeWhile
import Mathlib.Data.List.Perm.Basic
import Mathlib.Data.Set.Card
import Mathlib.Logic.Function.Basic
import Mathlib.Order.Lattice

/-!
# Maps as lists of ranked entries

A list whose entries have ranks, no two the same, is a finite map from ranks to values
(`mapOf`). The order of the list does not matter (`mapOf_perm`), so an entry put in anywhere
is an update (`mapOf_cons`).

In a list sorted by rank a search can stop at the first entry that is not below the rank it
looks for (`find?_sorted`), and an entry put in there keeps the list sorted (`Sorted.insert`).

Entries can be kept in several lists. One more in one of them is one more in all
(`flatten_set_cons`), and one less is one less (`flatten_set_uncons`).
-/

namespace CLib

variable {α β ι : Type*}

section Maps

variable [DecidableEq ι] (rank : α → ι) (val : α → β)

/-- The map that a list of entries is. -/
def mapOf (l : List α) (r : ι) : Option β :=
  (l.find? fun a => rank a = r).map val

@[simp] theorem mapOf_nil : mapOf rank val [] = fun _ => none :=
  rfl

theorem mapOf_cons (a : α) (l : List α) :
    mapOf rank val (a :: l) = Function.update (mapOf rank val l) (rank a) (some (val a)) := by
  funext r
  by_cases h : rank a = r
  · subst h
    simp [mapOf]
  · rw [Function.update_of_ne (Ne.symm h), mapOf, List.find?_cons_of_neg (by simpa using h)]
    rfl

variable {rank val} {l l' : List α} {r : ι} {v : β}

theorem mapOf_eq_none_iff : mapOf rank val l r = none ↔ ∀ a ∈ l, rank a ≠ r := by
  simp [mapOf]

theorem mapOf_eq_some_iff (h : (l.map rank).Nodup) :
    mapOf rank val l r = some v ↔ ∃ a ∈ l, rank a = r ∧ val a = v := by
  induction l with
  | nil => simp
  | cons b l ih =>
    obtain ⟨hb, hl⟩ := List.nodup_cons.1 h
    rw [mapOf_cons]
    by_cases hr : rank b = r
    · subst hr
      rw [Function.update_self, Option.some.injEq]
      constructor
      · rintro rfl
        exact ⟨b, by simp, rfl, rfl⟩
      · rintro ⟨a, ha, hab, rfl⟩
        rcases List.mem_cons.1 ha with rfl | ha
        · rfl
        · exact absurd (hab ▸ List.mem_map_of_mem ha) hb
    · rw [Function.update_of_ne (Ne.symm hr), ih hl]
      simp [hr]

/-- The order of the entries does not matter. -/
theorem mapOf_perm (h : (l.map rank).Nodup) (hp : l.Perm l') :
    mapOf rank val l = mapOf rank val l' := by
  have h' : (l'.map rank).Nodup := (hp.map rank).nodup_iff.1 h
  funext r
  refine Option.ext fun v => ?_
  rw [mapOf_eq_some_iff h, mapOf_eq_some_iff h']
  simp only [hp.mem_iff]

/-- The map has as many entries as the list. -/
theorem ncard_mapOf (h : (l.map rank).Nodup) :
    {r | mapOf rank val l r ≠ none}.ncard = l.length := by
  have hset : {r | mapOf rank val l r ≠ none} = ((l.map rank).toFinset : Set ι) := by
    ext r
    simp [mapOf_eq_none_iff]
  rw [hset, Set.ncard_coe_finset, List.toFinset_card_of_nodup h, List.length_map]

/-- The map without an entry that the list had. -/
theorem mapOf_erase {a : α} (h : (l.map rank).Nodup) (hp : l.Perm (a :: l')) :
    mapOf rank val l' = Function.update (mapOf rank val l) (rank a) none := by
  have h' : (rank a :: l'.map rank).Nodup := (hp.map rank).nodup_iff.1 h
  have hnone : mapOf rank val l' (rank a) = none := mapOf_eq_none_iff.2 fun b hb hba =>
    (List.nodup_cons.1 h').1 (hba ▸ List.mem_map_of_mem hb)
  rw [mapOf_perm h hp, mapOf_cons, Function.update_idem, ← hnone, Function.update_eq_self]

end Maps

section Sorted

variable [LinearOrder ι] {rank : α → ι} {l : List α} {r : ι}

theorem mem_takeWhile_lt {a : α} (h : a ∈ l.takeWhile fun a => rank a < r) : rank a < r := by
  simpa using List.mem_takeWhile_imp h

/-- Behind the entries below `r` none is. -/
theorem le_of_mem_dropWhile (hl : l.Pairwise fun a b => rank a < rank b) {a : α}
    (h : a ∈ l.dropWhile fun a => rank a < r) : r ≤ rank a := by
  induction l with
  | nil => simp at h
  | cons b l ih =>
    obtain ⟨hb, hl⟩ := List.pairwise_cons.1 hl
    by_cases hr : rank b < r
    · rw [List.dropWhile_cons_of_pos (by simpa using hr)] at h
      exact ih hl h
    · rw [List.dropWhile_cons_of_neg (by simpa using hr)] at h
      rcases List.mem_cons.1 h with rfl | h
      · exact not_lt.1 hr
      · exact (not_lt.1 hr).trans (hb a h).le

/-- The entry that is looked for stands first behind the entries below it, or nowhere. -/
theorem find?_sorted (hl : l.Pairwise fun a b => rank a < rank b) :
    (l.find? fun a => rank a = r) =
      (l.dropWhile fun a => rank a < r).head?.filter fun a => rank a = r := by
  have hbelow : (l.takeWhile fun a => rank a < r).find? (fun a => rank a = r) = none := by
    rw [List.find?_eq_none]
    intro a ha
    simpa using (mem_takeWhile_lt ha).ne
  have hsplit : (l.takeWhile (fun a => rank a < r) ++ l.dropWhile fun a => rank a < r).find?
      (fun a => decide (rank a = r)) = _ := List.find?_append
  rw [List.takeWhile_append_dropWhile, hbelow, Option.none_or] at hsplit
  rw [hsplit]
  have habove := fun a => le_of_mem_dropWhile (a := a) (r := r) hl
  have hsorted := hl.sublist (List.dropWhile_sublist fun a => decide (rank a < r))
  cases hd : l.dropWhile fun a => rank a < r with
  | nil => rfl
  | cons b d =>
    rw [hd] at habove hsorted
    by_cases hb : rank b = r
    · simp [hb, Option.filter]
    · have hlt : r < rank b := lt_of_le_of_ne (habove b (by simp)) (Ne.symm hb)
      have hrest : d.find? (fun a => rank a = r) = none := by
        rw [List.find?_eq_none]
        intro a ha
        simpa using (hlt.trans ((List.pairwise_cons.1 hsorted).1 a ha)).ne'
      simp [hb, hrest, Option.filter]

/-- An entry put in behind those below it keeps the list sorted. -/
theorem Sorted.insert {a : α} (hl : l.Pairwise fun a b => rank a < rank b)
    (hne : ∀ b ∈ l, rank b ≠ rank a) :
    (l.takeWhile (fun b => rank b < rank a) ++ a ::
      l.dropWhile fun b => rank b < rank a).Pairwise fun a b => rank a < rank b := by
  have hsplit := hl
  rw [← List.takeWhile_append_dropWhile (p := fun b => decide (rank b < rank a)) (l := l),
    List.pairwise_append] at hsplit
  refine List.pairwise_append.2 ⟨hsplit.1, List.pairwise_cons.2 ⟨fun b hb => ?_, hsplit.2.1⟩,
    fun b hb c hc => ?_⟩
  · exact lt_of_le_of_ne (le_of_mem_dropWhile hl hb)
      (Ne.symm (hne b ((List.dropWhile_sublist _).subset hb)))
  · rcases List.mem_cons.1 hc with rfl | hc
    · exact mem_takeWhile_lt hb
    · exact hsplit.2.2 b hb c hc

end Sorted

section Several

variable {L : List (List α)} {i : ℕ} {l l' : List α} {a : α}

/-- One of the lists and the other ones. -/
theorem flatten_perm (h : L[i]? = some l) : L.flatten.Perm (l ++ (L.eraseIdx i).flatten) := by
  obtain ⟨hi, rfl⟩ := List.getElem?_eq_some_iff.1 h
  exact (List.getElem_cons_eraseIdx_perm hi).symm.flatten

/-- The lists after one was replaced. -/
theorem flatten_set_perm (hi : i < L.length) (l : List α) :
    (L.set i l).flatten.Perm (l ++ (L.eraseIdx i).flatten) := by
  have hset : (L.set i l)[i]? = some l := List.getElem?_set_self hi
  have hperm := flatten_perm hset
  rwa [List.eraseIdx_set_eq] at hperm

/-- The lists after one got an entry more. -/
theorem flatten_set_cons (hl : L[i]? = some l) (h : l'.Perm (a :: l)) :
    (L.set i l').flatten.Perm (a :: L.flatten) := by
  have hi := (List.getElem?_eq_some_iff.1 hl).1
  exact (flatten_set_perm hi l').trans
    ((h.append_right _).trans ((flatten_perm hl).symm.cons a))

/-- The lists before one lost an entry. -/
theorem flatten_set_uncons (hl : L[i]? = some l) (h : l.Perm (a :: l')) :
    L.flatten.Perm (a :: (L.set i l').flatten) := by
  have hi := (List.getElem?_eq_some_iff.1 hl).1
  exact (flatten_perm hl).trans ((h.append_right _).trans ((flatten_set_perm hi l').symm.cons a))

/-- One more of several holders holds something. -/
theorem filterMap_update_perm {β ι : Type*} [DecidableEq ι] {is : List ι} (hnodup : is.Nodup)
    {i : ι} (hi : i ∈ is) {f : ι → Option β} (hf : f i = none) (b : β) :
    (is.filterMap (Function.update f i (some b))).Perm (b :: is.filterMap f) := by
  have hsplit := List.perm_cons_erase hi
  have hsame : ∀ j ∈ is.erase i, Function.update f i (some b) j = f j := fun j hj =>
    Function.update_of_ne (fun hji => hnodup.not_mem_erase (hji ▸ hj)) _ _
  have hleft := hsplit.filterMap (Function.update f i (some b))
  have hright := hsplit.filterMap f
  rw [List.filterMap_cons_some (Function.update_self i (some b) f),
    List.filterMap_congr hsame] at hleft
  rw [List.filterMap_cons_none hf] at hright
  exact hleft.trans (hright.symm.cons b)

/-- One of several holders holds nothing any more. -/
theorem filterMap_perm_update {β ι : Type*} [DecidableEq ι] {is : List ι} (hnodup : is.Nodup)
    {i : ι} (hi : i ∈ is) {f : ι → Option β} {b : β} (hf : f i = some b) :
    (is.filterMap f).Perm (b :: is.filterMap (Function.update f i none)) := by
  have hperm := filterMap_update_perm hnodup hi (Function.update_self i none f) b
  rwa [Function.update_idem, ← hf, Function.update_eq_self] at hperm

end Several

end CLib
