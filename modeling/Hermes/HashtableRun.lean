import Hermes.HashtableInv

/-!
# Runs of the table

A run is a list of calls on a new table. `Assoc` is what the table stands for : a map from ranks
to data, and the number of nodes lost. `Hashtab.run_refines` says that every run gives the answers
of the map and counts its entries, and that `hashtab_destroy` then leaves behind the nodes that
were lost : one for each deletion of an entry behind the first of its chain.
-/

open CLib

namespace Hermes

variable {K D ι : Type} [LinearOrder ι]

/-- A call, with the address that `malloc` gives it. -/
inductive Call (K D : Type) where
  | insert (key : K) (datum : Option D) (newnode : Option ℕ)
  | delete (key : K)
  | search (key : K)

/-- What a call returns. -/
inductive Answer (D : Type) where
  | status (ret : ℤ)
  | datum (d : Option D)

/-- The address of the node a call makes. -/
def Call.newnode : Call K D → Option ℕ
  | insert _ _ newnode => newnode
  | delete _ => none
  | search _ => none

/-- What a table stands for. -/
structure Assoc (ι D : Type) where
  entries : ι → Option (Option D)
  lost : ℕ

namespace Assoc

/-- The number of entries. -/
noncomputable def nel (t : Assoc ι D) : ℕ :=
  {r | t.entries r ≠ none}.ncard

variable (hashValue : K → ℕ) (rank : K → ι)

open Classical in
/-- A call, on the map. -/
noncomputable def call (t : Assoc ι D) : Call K D → Answer D × Assoc ι D
  | .insert key datum newnode =>
    if t.nel = hashtabMaxNodes then (.status (-einval), t)
    else if t.entries (rank key) ≠ none then (.status (-eexist), t)
    else if newnode = none then (.status (-enomem), t)
    else (.status 0, ⟨Function.update t.entries (rank key) (some datum), t.lost⟩)
  | .delete key =>
    match t.entries (rank key) with
    | none => (.datum none, t)
    | some d => (.datum d, ⟨Function.update t.entries (rank key) none,
        if Behind hashValue rank t.entries key then t.lost + 1 else t.lost⟩)
  | .search key => (.datum (t.entries (rank key)).join, t)

/-- A list of calls, on the map. -/
noncomputable def run (t : Assoc ι D) : List (Call K D) → List (Answer D) × Assoc ι D
  | [] => ([], t)
  | c :: cs => ((t.call hashValue rank c).1 :: (run (t.call hashValue rank c).2 cs).1,
      (run (t.call hashValue rank c).2 cs).2)

/-- The empty map. -/
def empty : Assoc ι D :=
  ⟨fun _ => none, 0⟩

end Assoc

namespace Hashtab

section Calls

variable (hashValue : K → ℕ) (keycmp : K → K → ℤ)

/-- A call. -/
def call (h : Hashtab K D) : Call K D → Run (Answer D × Hashtab K D)
  | .insert key datum newnode => do
    let (ret, h) ← h.hashtabInsert hashValue keycmp key datum newnode
    return (.status ret, h)
  | .delete key => do
    let (d, h) ← h.hashtabDelete hashValue keycmp key
    return (.datum d, h)
  | .search key => do
    let d ← h.hashtabSearch hashValue keycmp key
    return (.datum d, h)

/-- A list of calls. -/
def run (h : Hashtab K D) : List (Call K D) → Run (List (Answer D) × Hashtab K D)
  | [] => .ok ([], h)
  | c :: cs => do
    let (r, h) ← h.call hashValue keycmp c
    let (rs, h) ← h.run cs
    return (r :: rs, h)

/-- `malloc` gives no address of a node that is allocated, at any call of the run. -/
def Fresh (h : Hashtab K D) : List (Call K D) → Prop
  | [] => True
  | c :: cs => (∀ a ∈ c.newnode, a ∉ h.nodes) ∧
      ∀ r h', h.call hashValue keycmp c = .ok (r, h') → h'.Fresh cs

end Calls

variable {hashValue : K → ℕ} {keycmp : K → K → ℤ} {rank : K → ι} {size : ℕ} {h : Hashtab K D}

/-- The table stands for `t`. -/
def Refines (hashValue : K → ℕ) (rank : K → ι) (size : ℕ) (h : Hashtab K D) (t : Assoc ι D) :
    Prop :=
  ∃ chains leaked, Holds hashValue rank h chains leaked ∧ chains.length = size ∧
    contents rank chains = t.entries ∧ leaked.length = t.lost

/-- The table counts the entries of what it stands for. -/
theorem Refines.nel (C : Callbacks hashValue keycmp rank size) {t : Assoc ι D}
    (ht : Refines hashValue rank size h t) : h.nel = t.nel := by
  obtain ⟨chains, leaked, H, -, hentries, -⟩ := ht
  rw [H.nel_eq C, Assoc.nel, hentries]

/-- A new table. -/
theorem create_eq (hnew : hashtabCreate size = .ok (some h)) :
    h = ⟨List.replicate size none, size, 0, ∅⟩ ∧ (size : ℤ) ≤ intMax := by
  unfold hashtabCreate at hnew
  obtain ⟨b, hb, hnew⟩ := bind_eq_ok.1 hnew
  cases b with
  | false => simp at hnew
  | true =>
    simp only [if_true] at hnew
    split_ifs at hnew with hle
    refine ⟨by simpa using hnew.symm, ?_⟩
    unfold malloc at hb
    split_ifs at hb with hserved
    · unfold intMax
      omega
    · cases hb

/-- A new table is empty. -/
theorem create_refines (hashValue : K → ℕ) (rank : K → ι)
    (hnew : hashtabCreate size = .ok (some h)) : Refines hashValue rank size h Assoc.empty := by
  obtain ⟨rfl, -⟩ := create_eq hnew
  have hempty : ∀ (i : ℕ) (c : Nodes K D), (List.replicate size ([] : Nodes K D))[i]? = some c →
      i < size ∧ c = [] := fun i c hc => by
    rw [List.getElem?_replicate] at hc
    split_ifs at hc with hi
    exact ⟨hi, (Option.some.inj hc).symm⟩
  have hflat : (List.replicate size ([] : Nodes K D)).flatten = [] := by simp
  refine ⟨List.replicate size [], [], ?_, List.length_replicate, ?_, rfl⟩
  · constructor
    · simp
    · simp
    · intro i c hc
      obtain ⟨hi, rfl⟩ := hempty i c hc
      exact ⟨none, by simp [hi], rfl⟩
    · intro i c hc
      obtain ⟨-, rfl⟩ := hempty i c hc
      exact ⟨List.Pairwise.nil, by simp⟩
    · rw [hflat]
      exact List.Perm.refl _
    · rw [hflat]
      rfl
  · rw [contents, hflat]
    rfl

/-- One call. -/
theorem call_refines (C : Callbacks hashValue keycmp rank size) {t : Assoc ι D}
    (ht : Refines hashValue rank size h t) (c : Call K D) (hfresh : ∀ a ∈ c.newnode, a ∉ h.nodes) :
    ∃ h', h.call hashValue keycmp c = .ok ((t.call hashValue rank c).1, h') ∧
      Refines hashValue rank size h' (t.call hashValue rank c).2 := by
  have hnel := ht.nel C
  obtain ⟨chains, leaked, H, rfl, hentries, hlost⟩ := ht
  have same : Refines hashValue rank chains.length h t := ⟨chains, leaked, H, rfl, hentries, hlost⟩
  cases c with
  | insert key datum newnode =>
    simp only [call, Assoc.call, ← hnel, ← hentries]
    by_cases hfull : h.nel = hashtabMaxNodes
    · rw [hashtabInsert, if_pos hfull, if_pos hfull]
      exact ⟨h, rfl, same⟩
    rw [if_neg hfull]
    by_cases hsome : contents rank chains (rank key) = none
    · rw [if_neg (not_not.2 hsome)]
      cases newnode with
      | none =>
        rw [H.insert_refused C key datum hfull hsome, if_pos rfl]
        exact ⟨h, rfl, same⟩
      | some a =>
        obtain ⟨h', chains', hins, H', hlen, hcontents⟩ :=
          H.insert_ok C key datum (hfresh a rfl) hfull hsome
        rw [hins, if_neg (Option.some_ne_none a)]
        exact ⟨h', rfl, chains', leaked, H', hlen, hcontents, hlost⟩
    · rw [H.insert_exists C key datum newnode hfull hsome, if_pos hsome]
      exact ⟨h, rfl, same⟩
  | delete key =>
    simp only [call, Assoc.call]
    cases hsome : t.entries (rank key) with
    | none =>
      rw [H.delete_none C (hentries ▸ hsome)]
      exact ⟨h, rfl, same⟩
    | some d =>
      obtain ⟨h', chains', leaked', hdel, H', hlen, hcontents, hbehind, hfirst⟩ :=
        H.delete_some C (hentries ▸ hsome)
      rw [hentries] at hbehind hfirst
      rw [hdel]
      refine ⟨h', rfl, chains', leaked', H', hlen, hentries ▸ hcontents, ?_⟩
      split_ifs with hb
      · rw [hbehind hb, hlost]
      · rw [hfirst hb, hlost]
  | search key =>
    rw [call, H.search_ok C key]
    exact ⟨h, by simp [Assoc.call, hentries], same⟩

/-- A run. -/
theorem run_ok (C : Callbacks hashValue keycmp rank size) :
    ∀ {cs : List (Call K D)} {h : Hashtab K D} {t : Assoc ι D}, Refines hashValue rank size h t →
      h.Fresh hashValue keycmp cs →
      ∃ h', h.run hashValue keycmp cs = .ok ((t.run hashValue rank cs).1, h') ∧
        Refines hashValue rank size h' (t.run hashValue rank cs).2
  | [], h, _, ht, _ => ⟨h, rfl, ht⟩
  | c :: cs, h, t, ht, hfresh => by
    obtain ⟨h', hcall, ht'⟩ := call_refines C ht c hfresh.1
    obtain ⟨h'', hrun, ht''⟩ := run_ok C ht' (hfresh.2 _ _ hcall)
    refine ⟨h'', ?_, ht''⟩
    rw [run, hcall, ok_bind]
    dsimp only
    rw [hrun]
    rfl

/-! ## The end of a table -/

/-- A chain is freed, and nothing else. -/
theorem freeChain_ok : ∀ {c : Nodes K D} {m : Heap (HashtabNode K D)} {cur : Option ℕ} (fuel : ℕ),
    Seg m cur c none → (c.map Prod.fst).Nodup → c.length < fuel →
      ∃ m', freeChain fuel m cur = .ok m' ∧ m.keys.Perm (c.map Prod.fst ++ m'.keys) ∧
        ∀ b ∉ c.map Prod.fst, m'.lookup b = m.lookup b
  | _, _, _, 0, _, _, hfuel => absurd hfuel (Nat.not_lt_zero _)
  | [], m, cur, fuel + 1, h, _, _ => by
    obtain rfl : cur = none := h
    exact ⟨m, rfl, List.Perm.refl _, fun _ _ => rfl⟩
  | e :: c, m, _, fuel + 1, h, hnodup, hfuel => by
    have hmem : e.1 ∈ m := h.mem_heap List.mem_cons_self
    obtain ⟨rfl, r, hr, hc⟩ := h
    obtain ⟨he, hnodup⟩ := List.nodup_cons.1 hnodup
    have hc' : Seg (m.erase e.1) r c none := hc.frame fun z hz =>
      AList.lookup_erase_ne fun hze => he (hze ▸ List.mem_map_of_mem hz)
    obtain ⟨m', hfree, hperm, hframe⟩ := freeChain_ok fuel hc' hnodup (by simpa using hfuel)
    refine ⟨m', ?_, (Heap.perm_keys_erase hmem).trans (hperm.cons e.1), fun b hb => ?_⟩
    · rw [freeChain, if_neg (by simp), Heap.read_some hr, ok_bind, Heap.free_some hmem, ok_bind,
        hfree]
    · rw [List.map_cons, List.mem_cons, not_or] at hb
      rw [hframe b hb.2, AList.lookup_erase_ne hb.1]

/-- The slots from `i` on are freed. -/
theorem Holds.freeSlots {chains : List (List (ℕ × HashtabNode K D))} {leaked : List ℕ}
    (H : Holds hashValue rank h chains leaked) : ∀ (k i : ℕ) (m : Heap (HashtabNode K D)),
    i + k = chains.length →
    (∀ (j : ℕ) (c : Nodes K D), i ≤ j → chains[j]? = some c →
      ∃ p, h.slot j = .ok p ∧ Seg m p c none) →
    m.keys.Perm ((chains.drop i).flatten.map Prod.fst ++ leaked) →
    ∃ left, (List.range' i k).foldlM (fun m i => do freeChain h.fuel m (← h.slot i)) m =
      .ok left ∧ left.keys.Perm leaked
  | 0, i, m, hk, _, hkeys => by
    rw [List.drop_of_length_le (by omega)] at hkeys
    exact ⟨m, rfl, hkeys⟩
  | k + 1, i, m, hk, hseg, hkeys => by
    have hi : i < chains.length := by omega
    have hc := List.getElem?_eq_getElem hi
    obtain ⟨p, hp, hs⟩ := hseg i _ le_rfl hc
    obtain ⟨m', hfree, hperm, hframe⟩ :=
      freeChain_ok h.fuel hs (H.nodup_chain hc) (H.length_lt_fuel hc)
    rw [List.drop_eq_getElem_cons hi, List.flatten_cons, List.map_append,
      List.append_assoc] at hkeys
    obtain ⟨left, hleft, hperm'⟩ := H.freeSlots k (i + 1) m' (by omega) (fun j c hj hc' => by
      obtain ⟨q, hq, hsj⟩ := hseg j c (by omega) hc'
      refine ⟨q, hq, hsj.frame fun z hz => hframe z.1 fun hmem => ?_⟩
      obtain ⟨e, he, hez⟩ := List.mem_map.1 hmem
      exact H.ne_of_mem hc hc' (by omega) he hz hez.symm)
      ((List.perm_append_left_iff _).1 (hperm.symm.trans hkeys))
    refine ⟨left, ?_, hperm'⟩
    rw [List.range'_succ, List.foldlM_cons, hp, ok_bind, hfree, ok_bind]
    exact hleft

/-- `hashtab_destroy` leaves behind what was lost. -/
theorem Holds.destroy_ok {chains : List (List (ℕ × HashtabNode K D))} {leaked : List ℕ}
    (H : Holds hashValue rank h chains leaked) :
    ∃ left, h.hashtabDestroy = .ok left ∧ left.keys.Perm leaked := by
  rw [hashtabDestroy, List.range_eq_range', H.size]
  exact H.freeSlots _ 0 h.nodes (by omega) (fun _ _ _ hc => H.slot_ok hc) H.keys

/-- A run on a new table gives the answers of the map. The table then finds what the map has,
counts its entries, and when it is destroyed only the nodes are left that were lost. -/
theorem run_refines (C : Callbacks hashValue keycmp rank size)
    (hnew : hashtabCreate size = .ok (some h)) {cs : List (Call K D)}
    (hfresh : h.Fresh hashValue keycmp cs) :
    let t := Assoc.empty.run hashValue rank cs
    ∃ h', h.run hashValue keycmp cs = .ok (t.1, h') ∧
      (∀ key, h'.hashtabSearch hashValue keycmp key = .ok (t.2.entries (rank key)).join) ∧
      h'.nel = {r | t.2.entries r ≠ none}.ncard ∧
      ∃ left, h'.hashtabDestroy = .ok left ∧ left.keys.length = t.2.lost := by
  obtain ⟨h', hrun, ht⟩ := run_ok C (create_refines hashValue rank hnew) hfresh
  have hnel := ht.nel C
  obtain ⟨chains, leaked, H, rfl, hentries, hlost⟩ := ht
  obtain ⟨left, hleft, hperm⟩ := H.destroy_ok
  refine ⟨h', hrun, fun key => ?_, hnel, left, hleft, by rw [hperm.length_eq, hlost]⟩
  rw [H.search_ok C, hentries]

/-! A table of two slots for numbers, by parity. -/

/-- The order of numbers, as a comparison. -/
def parityCmp (a b : ℕ) : ℤ :=
  a - b

/-- The table when it is new. -/
def parityTable : Hashtab ℕ ℕ :=
  ⟨[none, none], 2, 0, ∅⟩

/-- Two entries in one chain, of which the second is deleted. -/
def parityCalls : List (Call ℕ ℕ) :=
  [.insert 1 (some 10) (some 100), .insert 3 (some 30) (some 101), .delete 3]

theorem parity_new : hashtabCreate 2 = .ok (some parityTable) :=
  rfl

theorem parity_callbacks : Callbacks (· % 2) parityCmp (id : ℕ → ℕ) 2 where
  greater a b := by
    unfold parityCmp
    simp only [id]
    omega
  equal a b := by
    unfold parityCmp
    simp only [id]
    omega
  hash_lt k := Nat.mod_lt k (by omega)
  hash_congr a b hab := by rw [show a = b from hab]

theorem parity_fresh : parityTable.Fresh (· % 2) parityCmp parityCalls := by
  refine ⟨by simp [parityTable], fun r h hcall => ?_⟩
  obtain rfl : h = ⟨[none, some 100], 2, 1,
      (∅ : Heap (HashtabNode ℕ ℕ)).insert 100 ⟨⟨1, some 10⟩, none⟩⟩ :=
    ((Prod.mk.inj (Except.ok.inj hcall)).2).symm
  have hfree : 101 ∉ (∅ : Heap (HashtabNode ℕ ℕ)).insert 100 ⟨⟨1, some 10⟩, none⟩ := by decide
  exact ⟨fun a ha => Option.some.inj ha ▸ hfree,
    fun r h hcall => ⟨by simp [Call.newnode], fun _ _ _ => trivial⟩⟩

theorem run_refines_parity :
    let t := Assoc.empty.run (· % 2) id parityCalls
    ∃ h', parityTable.run (· % 2) parityCmp parityCalls = .ok (t.1, h') ∧
      (∀ key, h'.hashtabSearch (· % 2) parityCmp key = .ok (t.2.entries (id key)).join) ∧
      h'.nel = {r | t.2.entries r ≠ none}.ncard ∧
      ∃ left, h'.hashtabDestroy = .ok left ∧ left.keys.length = t.2.lost :=
  run_refines parity_callbacks parity_new parity_fresh

example : (do
    let (_, h) ← parityTable.run (· % 2) parityCmp parityCalls
    let left ← h.hashtabDestroy
    return left.keys) = .ok [101] := by
  rfl

end Hashtab

end Hermes
