import Hermes.HashtableRun

/-!
# Traversals of the table

`hashtab_map` and a caller's loop with `hashtab_iterate` go through the entries in one order, each
entry once, and `hashtab_stat` counts them by hash value.
-/

open CLib

namespace Hermes

variable {K D ι : Type} [LinearOrder ι]

namespace Hashtab

/-- A function applied to entries until it returns a non-zero status. -/
def applyAll {σ : Type} (apply : K → Option D → σ → ℤ × σ) : List (HashtabNode K D) → σ → ℤ × σ
  | [], args => (0, args)
  | n :: l, args =>
    if (apply n.key n.datum args).1 ≠ 0 then apply n.key n.datum args
    else applyAll apply l (apply n.key n.datum args).2

/-- The entries that a loop `while (it = hashtab_iterate(h, it))` sees. -/
def visited (h : Hashtab K D) : ℕ → Option HashtabIterator → Run (List (HashtabNode K D))
  | 0, _ => .error .undefined
  | fuel + 1, iterator => do
    match ← h.hashtabIterate iterator with
    | none => return []
    | some it => do
      let n ← h.nodes.read it.nodePtr
      return n.val :: (← visited h fuel (some it))

variable {hashValue : K → ℕ} {keycmp : K → K → ℤ} {rank : K → ι} {size : ℕ}
  {h : Hashtab K D} {chains : List (List (ℕ × HashtabNode K D))} {leaked : List ℕ}

/-- The entries of chains in their order. -/
def entriesOf (chains : List (List (ℕ × HashtabNode K D))) : List (HashtabNode K D) :=
  chains.flatten.map Prod.snd

theorem entriesOf_cons (c : Nodes K D) (chains : List (List (ℕ × HashtabNode K D))) :
    entriesOf (c :: chains) = c.map Prod.snd ++ entriesOf chains := by
  rw [entriesOf, List.flatten_cons, List.map_append]
  rfl

section Map

variable {σ : Type} (apply : K → Option D → σ → ℤ × σ)

theorem applyAll_append (l₁ l₂ : List (HashtabNode K D)) (args : σ) :
    applyAll apply (l₁ ++ l₂) args =
      if (applyAll apply l₁ args).1 ≠ 0 then applyAll apply l₁ args
      else applyAll apply l₂ (applyAll apply l₁ args).2 := by
  induction l₁ generalizing args with
  | nil => simp [applyAll]
  | cons n l₁ ih =>
    simp only [List.cons_append, applyAll]
    by_cases hret : (apply n.key n.datum args).1 ≠ 0
    · simp only [if_pos hret]
    · simp only [if_neg hret, ih]

/-- The loop along a chain. -/
theorem mapChain_ok : ∀ {c : Nodes K D} {cur : Option ℕ} (fuel : ℕ) (args : σ),
    Seg h.nodes cur c none → c.length < fuel →
      mapChain h apply fuel cur args = .ok (applyAll apply (c.map Prod.snd) args)
  | _, _, 0, _, _, hfuel => absurd hfuel (Nat.not_lt_zero _)
  | [], cur, fuel + 1, args, hseg, _ => by
    obtain rfl : cur = none := hseg
    rfl
  | e :: c, _, fuel + 1, args, hseg, hfuel => by
    obtain ⟨rfl, r, hr, hc⟩ := hseg
    have ih := fun args => mapChain_ok fuel args hc (by simpa using hfuel)
    rw [mapChain, if_neg (by simp), Heap.read_some hr, ok_bind]
    dsimp only
    rw [ih, List.map_cons, applyAll]
    split_ifs <;> rfl

/-- The loop over the slots from `i` on. -/
theorem Holds.mapSlots_ok (H : Holds hashValue rank h chains leaked) :
    ∀ (k i : ℕ) (args : σ), i + k = chains.length →
      mapSlots h apply (List.range' i k) args =
        .ok (applyAll apply (entriesOf (chains.drop i)) args)
  | 0, i, args, hk => by
    rw [List.drop_of_length_le (by omega)]
    rfl
  | k + 1, i, args, hk => by
    have hi : i < chains.length := by omega
    have hc := List.getElem?_eq_getElem hi
    obtain ⟨p, hp, hs⟩ := H.slot_ok hc
    have ih := fun args => H.mapSlots_ok k (i + 1) args (by omega)
    rw [List.range'_succ, mapSlots, hp, ok_bind, mapChain_ok apply _ _ hs (H.length_lt_fuel hc),
      ok_bind]
    dsimp only
    rw [ih, List.drop_eq_getElem_cons hi, entriesOf_cons, applyAll_append]
    split_ifs <;> rfl

/-- `hashtab_map`. -/
theorem Holds.map_ok (H : Holds hashValue rank h chains leaked) (args : σ) :
    h.hashtabMap apply args = .ok (applyAll apply (entriesOf chains) args) := by
  rw [hashtabMap, List.range_eq_range', H.size]
  exact H.mapSlots_ok apply _ 0 args (Nat.zero_add _)

end Map

section Iterate

/-- The iterator moves to the next entry, or there is none. -/
theorem Holds.iterateLoop_ok (H : Holds hashValue rank h chains leaked)
    (hmax : (chains.length : ℤ) ≤ intMax) : ∀ (fuel i : ℕ) (x y : Nodes K D),
    chains[i]? = some (x ++ y) → chains.length - i < fuel →
    (y ++ (chains.drop (i + 1)).flatten = [] ∧ iterateLoop h fuel i (front y none) = .ok none) ∨
      ∃ (j : ℕ) (x' : Nodes K D) (z : ℕ × HashtabNode K D) (y' : Nodes K D),
        chains[j]? = some (x' ++ z :: y') ∧
        y ++ (chains.drop (i + 1)).flatten = z :: (y' ++ (chains.drop (j + 1)).flatten) ∧
        iterateLoop h fuel i (front y none) = .ok (some ⟨j, some z.1⟩)
  | 0, _, _, _, _, hfuel => absurd hfuel (Nat.not_lt_zero _)
  | fuel + 1, i, x, z :: y, hc, _ => by
    have hi : i < chains.length := (List.getElem?_eq_some_iff.1 hc).1
    refine .inr ⟨i, x, z, y, hc, rfl, ?_⟩
    rw [iterateLoop, if_pos ⟨by omega, by rw [H.size]; omega⟩, front_cons, if_pos (by simp)]
  | fuel + 1, i, x, [], hc, hfuel => by
    have hi : i < chains.length := (List.getElem?_eq_some_iff.1 hc).1
    have hstep : iterateLoop h (fuel + 1) i (front ([] : Nodes K D) none) =
        (if ((i + 1 : ℕ) : ℤ) < h.size then h.slot (i + 1) else .ok none) >>=
          iterateLoop h fuel ((i + 1 : ℕ) : ℤ) := by
      rw [iterateLoop, if_pos ⟨by omega, by rw [H.size]; omega⟩, front_nil, if_neg (by simp),
        addInt_ok (by unfold intMin; omega) (by omega), ok_bind]
      simp only [Nat.cast_add, Nat.cast_one]
      split_ifs <;> rfl
    rw [hstep, List.nil_append, H.size]
    by_cases hnext : i + 1 < chains.length
    · have hc' := List.getElem?_eq_getElem hnext
      obtain ⟨p, hp, hs⟩ := H.slot_ok hc'
      rw [if_pos (by omega), hp, ok_bind, hs.eq_front, List.drop_eq_getElem_cons hnext,
        List.flatten_cons]
      exact H.iterateLoop_ok hmax fuel (i + 1) [] _ hc' (by omega)
    · obtain ⟨fuel, rfl⟩ : ∃ n, fuel = n + 1 := ⟨fuel - 1, by omega⟩
      refine .inl ⟨by rw [List.drop_of_length_le (by omega)]; rfl, ?_⟩
      rw [if_neg (by omega), ok_bind, iterateLoop, if_neg (by rw [H.size]; omega)]

/-- The loop from an entry on sees the entries behind it. -/
theorem Holds.visited_ok (H : Holds hashValue rank h chains leaked)
    (hmax : (chains.length : ℤ) ≤ intMax) : ∀ (fuel i : ℕ) (x : Nodes K D)
    (z : ℕ × HashtabNode K D) (y : Nodes K D), chains[i]? = some (x ++ z :: y) →
    (y ++ (chains.drop (i + 1)).flatten).length < fuel →
      h.visited fuel (some ⟨i, some z.1⟩) =
        .ok ((y ++ (chains.drop (i + 1)).flatten).map Prod.snd)
  | 0, _, _, _, _, _, hfuel => absurd hfuel (Nat.not_lt_zero _)
  | fuel + 1, i, x, z, y, hc, hfuel => by
    obtain ⟨p, -, hs⟩ := H.slot_ok hc
    obtain ⟨r, -, rfl, q, hq, hy⟩ := Seg.append_iff.1 hs
    have hiter : h.hashtabIterate (some ⟨i, some z.1⟩) =
        iterateLoop h (h.size + 1) i (front y none) := by
      rw [hashtabIterate, ← hy.eq_front]
      simp [Heap.read_some hq]
    rw [visited, hiter]
    have hc' : chains[i]? = some ((x ++ [z]) ++ y) := by rw [hc, List.append_assoc]; rfl
    rcases H.iterateLoop_ok hmax (h.size + 1) i _ y hc' (by rw [H.size]; omega) with
      ⟨hnil, hend⟩ | ⟨j, x', z', y', hc', hcons, hnext⟩
    · rw [hend, hnil]
      rfl
    · rw [hcons] at hfuel ⊢
      obtain ⟨p', -, hs'⟩ := H.slot_ok hc'
      obtain ⟨n, hn⟩ := hs'.lookup (e := z') (by simp)
      rw [hnext, ok_bind]
      dsimp only
      rw [Heap.read_some hn, ok_bind, H.visited_ok hmax fuel j x' z' y' hc' (by simpa using hfuel)]
      rfl

/-- A loop from the start sees every entry. -/
theorem Holds.visited_all (H : Holds hashValue rank h chains leaked)
    (hmax : (chains.length : ℤ) ≤ intMax) (hpos : 0 < chains.length) :
    h.visited (h.nel + 1) none = .ok (entriesOf chains) := by
  have hc := List.getElem?_eq_getElem hpos
  obtain ⟨p, hp, hs⟩ := H.slot_ok hc
  have hiter : h.hashtabIterate none =
      iterateLoop h (h.size + 1) (0 : ℕ) (front chains[0] none) := by
    rw [hashtabIterate, ← hs.eq_front]
    simp [hp]
  have hall : chains[0] ++ (chains.drop 1).flatten = chains.flatten := by
    rw [← List.flatten_cons, ← List.drop_eq_getElem_cons hpos, List.drop_zero]
  rw [visited, hiter, entriesOf]
  rcases H.iterateLoop_ok hmax (h.size + 1) 0 [] chains[0] hc (by rw [H.size]; omega) with
    ⟨hnil, hend⟩ | ⟨j, x', z', y', hc', hcons, hnext⟩
  · rw [hend, ← hall, hnil]
    rfl
  · rw [hall] at hcons
    obtain ⟨p', -, hs'⟩ := H.slot_ok hc'
    obtain ⟨n, hn⟩ := hs'.lookup (e := z') (by simp)
    have hlen : (y' ++ (chains.drop (j + 1)).flatten).length < h.nel := by
      rw [H.nel, hcons, List.length_cons]
      exact Nat.lt_succ_self _
    rw [hnext, ok_bind]
    dsimp only
    rw [Heap.read_some hn, ok_bind, H.visited_ok hmax h.nel j x' z' y' hc' hlen, hcons]
    rfl

end Iterate

section Stat

/-- The entries with the hash value `i`. -/
def countAt (hashValue : K → ℕ) (entries : List (HashtabNode K D)) (i : ℕ) : ℕ :=
  entries.countP fun n => hashValue n.key = i

/-- What `hashtab_stat` says of slots with these many entries. -/
def statOf : List ℕ → HashtabInfo → HashtabInfo
  | [], info => info
  | n :: ns, info =>
    if n = 0 then statOf ns info else statOf ns ⟨info.slotsUsed + 1, max info.maxChainLen n⟩

/-- The slots in use are counted, and the longest chain is found. -/
theorem statOf_eq (ns : List ℕ) (info : HashtabInfo) :
    statOf ns info = ⟨info.slotsUsed + ns.countP (· ≠ 0), ns.foldl max info.maxChainLen⟩ := by
  induction ns generalizing info with
  | nil => rfl
  | cons n ns ih =>
    rw [statOf, List.foldl_cons]
    by_cases hn : n = 0
    · rw [if_pos hn, ih, List.countP_cons_of_neg (by simpa using hn), hn, Nat.max_zero]
    · rw [if_neg hn, ih, List.countP_cons_of_pos (by simpa using hn), Nat.add_right_comm,
        Nat.add_assoc]

/-- The length of a chain. -/
theorem chainLen_ok : ∀ {c : Nodes K D} {cur : Option ℕ} (fuel : ℕ), Seg h.nodes cur c none →
    c.length < fuel → chainLen h fuel cur = .ok c.length
  | _, _, 0, _, hfuel => absurd hfuel (Nat.not_lt_zero _)
  | [], cur, fuel + 1, hseg, _ => by
    obtain rfl : cur = none := hseg
    rfl
  | e :: c, _, fuel + 1, hseg, hfuel => by
    obtain ⟨rfl, r, hr, hc⟩ := hseg
    rw [chainLen, if_neg (by simp), Heap.read_some hr, ok_bind,
      chainLen_ok fuel hc (by simpa using hfuel)]
    rfl

/-- A chain has the entries of its hash value. -/
theorem Holds.countAt_eq (H : Holds hashValue rank h chains leaked) {i : ℕ} {c : Nodes K D}
    (hc : chains[i]? = some c) : countAt hashValue (entriesOf chains) i = c.length := by
  have hother :
      (chains.eraseIdx i).flatten.countP (fun e => decide (hashValue e.2.key = i)) = 0 := by
    rw [List.countP_eq_zero]
    intro e he
    obtain ⟨c', hc', he⟩ := List.mem_flatten.1 he
    obtain ⟨j, hj⟩ := List.mem_iff_getElem?.1 hc'
    rw [List.getElem?_eraseIdx] at hj
    split_ifs at hj with hlt
    · rw [(H.chain j c' hj).hashed e he]
      simpa using hlt.ne
    · rw [(H.chain (j + 1) c' hj).hashed e he]
      simp
      omega
  rw [countAt, entriesOf, List.countP_map]
  refine ((flatten_perm hc).countP_eq _).trans ?_
  rw [List.countP_append]
  refine (congrArg (_ + ·) hother).trans ?_
  rw [Nat.add_zero, List.countP_eq_length]
  exact fun e he => decide_eq_true ((H.chain i c hc).hashed e he)

/-- The loop over the slots from `i` on. -/
theorem Holds.statSlots (H : Holds hashValue rank h chains leaked) :
    ∀ (k i : ℕ) (info : HashtabInfo), i + k = chains.length →
      (List.range' i k).foldlM (fun info i => do
        let cur ← h.slot i
        if cur = none then return info
        let len ← chainLen h h.fuel cur
        return ⟨info.slotsUsed + 1, if len > info.maxChainLen then len else info.maxChainLen⟩) info =
      (.ok (statOf ((List.range' i k).map (countAt hashValue (entriesOf chains))) info) : Run _)
  | 0, i, info, _ => rfl
  | k + 1, i, info, hk => by
    have hi : i < chains.length := by omega
    have hc := List.getElem?_eq_getElem hi
    obtain ⟨p, hp, hs⟩ := H.slot_ok hc
    rw [List.range'_succ, List.foldlM_cons, List.map_cons, H.countAt_eq hc, hp, ok_bind]
    have hlen := chainLen_ok h.fuel hs (H.length_lt_fuel hc)
    cases hd : chains[i] with
    | nil =>
      rw [hd] at hs
      obtain rfl : p = none := hs
      exact H.statSlots k (i + 1) info (by omega)
    | cons e c =>
      rw [hd] at hs hlen
      obtain ⟨rfl, -⟩ := hs
      have hmax : (if (e :: c).length > info.maxChainLen then (e :: c).length
          else info.maxChainLen) = max info.maxChainLen (e :: c).length := by
        split_ifs <;> omega
      rw [if_neg (Option.some_ne_none e.1), hlen, ok_bind, hmax, statOf,
        if_neg (by simp : (e :: c).length ≠ 0)]
      exact H.statSlots k (i + 1) _ (by omega)

/-- `hashtab_stat`. -/
theorem Holds.stat_ok (H : Holds hashValue rank h chains leaked) :
    h.hashtabStat = .ok ⟨(List.range chains.length).countP
        (fun i => countAt hashValue (entriesOf chains) i ≠ 0),
      ((List.range chains.length).map (countAt hashValue (entriesOf chains))).foldl max 0⟩ := by
  rw [hashtabStat, List.range_eq_range', H.size]
  refine (H.statSlots _ 0 ⟨0, 0⟩ (Nat.zero_add _)).trans ?_
  rw [statOf_eq, List.countP_map, Nat.zero_add, List.range_eq_range']
  rfl

end Stat

/-- After any run the traversals see the entries of the map, each once, in one order. -/
theorem run_traversals (C : Callbacks hashValue keycmp rank size) (hpos : 0 < size)
    (hnew : hashtabCreate size = .ok (some h)) {cs : List (Call K D)}
    (hfresh : h.Fresh hashValue keycmp cs) :
    let t := (Assoc.empty.run hashValue rank cs).2
    ∃ rs h' entries, h.run hashValue keycmp cs = .ok (rs, h') ∧
      (entries.map fun n => rank n.key).Nodup ∧
      (∀ r d, t.entries r = some d ↔ ∃ n ∈ entries, rank n.key = r ∧ n.datum = d) ∧
      (∀ (σ : Type) (apply : K → Option D → σ → ℤ × σ) (args : σ),
        h'.hashtabMap apply args = .ok (applyAll apply entries args)) ∧
      h'.visited (t.nel + 1) none = .ok entries ∧
      h'.hashtabStat = .ok ⟨(List.range size).countP (fun i => countAt hashValue entries i ≠ 0),
        ((List.range size).map (countAt hashValue entries)).foldl max 0⟩ := by
  have hmax := (create_eq hnew).2
  obtain ⟨h', hrun, ht⟩ := run_ok C (create_refines hashValue rank hnew) hfresh
  have hnel := ht.nel C
  obtain ⟨chains, leaked, H, rfl, hentries, -⟩ := ht
  have hnodup := H.nodup_ranks C
  refine ⟨_, h', entriesOf chains, hrun, ?_, fun r d => ?_, fun σ apply args => H.map_ok apply args,
    ?_, H.stat_ok⟩
  · rw [entriesOf, List.map_map]
    exact hnodup
  · rw [← hentries, contents, mapOf_eq_some_iff hnodup, entriesOf]
    simp only [List.mem_map]
    constructor
    · rintro ⟨e, he, hrank, hdatum⟩
      exact ⟨e.2, ⟨e, he, rfl⟩, hrank, hdatum⟩
    · rintro ⟨n, ⟨e, he, rfl⟩, hrank, hdatum⟩
      exact ⟨e, he, hrank, hdatum⟩
  · rw [← hnel]
    exact H.visited_all hmax hpos

theorem run_traversals_parity :
    let t := (Assoc.empty.run (· % 2) id parityCalls).2
    ∃ rs h' entries, parityTable.run (· % 2) parityCmp parityCalls = .ok (rs, h') ∧
      (entries.map fun n => id n.key).Nodup ∧
      (∀ r d, t.entries r = some d ↔ ∃ n ∈ entries, id n.key = r ∧ n.datum = d) ∧
      (∀ (σ : Type) (apply : ℕ → Option ℕ → σ → ℤ × σ) (args : σ),
        h'.hashtabMap apply args = .ok (applyAll apply entries args)) ∧
      h'.visited (t.nel + 1) none = .ok entries ∧
      h'.hashtabStat = .ok ⟨(List.range 2).countP (fun i => countAt (· % 2) entries i ≠ 0),
        ((List.range 2).map (countAt (· % 2) entries)).foldl max 0⟩ :=
  run_traversals parity_callbacks (by decide) parity_new parity_fresh

end Hashtab

end Hermes
