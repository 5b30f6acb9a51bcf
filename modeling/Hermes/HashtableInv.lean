import Hermes.CLib.Ranked
import Hermes.Hashtable

/-!
# The table as a map

`Hashtab.Holds` says that a table in memory holds the chains `chains` : each slot points to its
chain, a chain is sorted and its keys have its slot as hash value, and the nodes allocated are
those of the chains and the ones that were lost. The entries of all chains have distinct ranks,
so they are a map (`Hashtab.contents`). Each function has one lemma about this map.
-/

open CLib

namespace Hermes

variable {K D ι : Type} [LinearOrder ι]

/-- What the caller's functions promise for a table of `size` slots. -/
structure Callbacks (hashValue : K → ℕ) (keycmp : K → K → ℤ) (rank : K → ι) (size : ℕ) : Prop where
  greater : ∀ a b, 0 < keycmp a b ↔ rank b < rank a
  equal : ∀ a b, keycmp a b = 0 ↔ rank a = rank b
  hash_lt : ∀ k, hashValue k < size
  hash_congr : ∀ a b, rank a = rank b → hashValue a = hashValue b

/-- The nodes of a chain, with their addresses. -/
abbrev Nodes (K D : Type) := List (ℕ × HashtabNode K D)

/-- The rank of a node. -/
def rankOf (rank : K → ι) (e : ℕ × HashtabNode K D) : ι :=
  rank e.2.key

/-- The datum of a node. -/
def datumOf (e : ℕ × HashtabNode K D) : Option D :=
  e.2.datum

/-- A chain at slot `i`. -/
structure ChainOk (hashValue : K → ℕ) (rank : K → ι) (i : ℕ) (c : Nodes K D) : Prop where
  sorted : c.Pairwise fun x y => rankOf rank x < rankOf rank y
  hashed : ∀ e ∈ c, hashValue e.2.key = i

/-- Whether another entry stands in front of the one of `key` in its chain. -/
def Behind (hashValue : K → ℕ) (rank : K → ι) (M : ι → Option (Option D)) (key : K) : Prop :=
  ∃ key', hashValue key' = hashValue key ∧ rank key' < rank key ∧ M (rank key') ≠ none

namespace Hashtab

/-- The nodes of a chain that a search for `key` goes past. -/
def below (rank : K → ι) (key : K) (c : Nodes K D) : Nodes K D :=
  c.takeWhile fun e => rankOf rank e < rank key

/-- The nodes from the one where it stops. -/
def above (rank : K → ι) (key : K) (c : Nodes K D) : Nodes K D :=
  c.dropWhile fun e => rankOf rank e < rank key

/-- The map from ranks to data. -/
def contents (rank : K → ι) (chains : List (List (ℕ × HashtabNode K D))) : ι → Option (Option D) :=
  mapOf (rankOf rank) datumOf chains.flatten

/-- The table holds `chains` and has lost the nodes `leaked`. -/
structure Holds (hashValue : K → ℕ) (rank : K → ι) (h : Hashtab K D)
    (chains : List (List (ℕ × HashtabNode K D)))
    (leaked : List ℕ) : Prop where
  length : h.htable.length = chains.length
  size : h.size = chains.length
  seg : ∀ (i : ℕ) (c : Nodes K D), chains[i]? = some c →
    ∃ p, h.htable[i]? = some p ∧ Seg h.nodes p c none
  chain : ∀ (i : ℕ) (c : Nodes K D), chains[i]? = some c → ChainOk hashValue rank i c
  keys : h.nodes.keys.Perm (chains.flatten.map Prod.fst ++ leaked)
  nel : h.nel = chains.flatten.length

section Chains

/-- A slot set to what it holds. -/
theorem set_slot {h : Hashtab K D} {i : ℕ} {p : Option ℕ} (hp : h.slot i = .ok p) :
    h.htable.set i p = h.htable := by
  unfold slot at hp
  cases hq : h.htable[i]? with
  | none => simp [hq] at hp
  | some q =>
    simp only [hq, Except.ok.injEq] at hp
    obtain ⟨hi, rfl⟩ := List.getElem?_eq_some_iff.1 hq
    rw [← hp, List.set_getElem_self]

end Chains

variable {hashValue : K → ℕ} {keycmp : K → K → ℤ} {rank : K → ι} {size : ℕ}
  {h : Hashtab K D} {chains : List (List (ℕ × HashtabNode K D))} {leaked : List ℕ}

namespace Holds

/-- No address comes twice. -/
theorem nodup_addresses (H : Holds hashValue rank h chains leaked) :
    (chains.flatten.map Prod.fst ++ leaked).Nodup :=
  H.keys.nodup_iff.1 h.nodes.keys_nodup

/-- No rank comes twice. -/
theorem nodup_ranks (H : Holds hashValue rank h chains leaked)
    (C : Callbacks hashValue keycmp rank size) : (chains.flatten.map (rankOf rank)).Nodup := by
  rw [List.nodup_iff_pairwise_ne, List.pairwise_map, List.pairwise_flatten]
  constructor
  · intro c hc
    obtain ⟨i, hi⟩ := List.mem_iff_getElem?.1 hc
    exact (H.chain i c hi).sorted.imp ne_of_lt
  · rw [List.pairwise_iff_getElem]
    intro i j hi hj hij x hx y hy hxy
    have h1 := (H.chain i _ (List.getElem?_eq_getElem hi)).hashed x hx
    have h2 := (H.chain j _ (List.getElem?_eq_getElem hj)).hashed y hy
    rw [C.hash_congr _ _ hxy, h2] at h1
    exact hij.ne h1.symm

/-- The counter is the number of entries. -/
theorem nel_eq (H : Holds hashValue rank h chains leaked)
    (C : Callbacks hashValue keycmp rank size) :
    h.nel = {r | contents rank chains r ≠ none}.ncard :=
  H.nel.trans (ncard_mapOf (H.nodup_ranks C)).symm

/-- A slot points to its chain. -/
theorem slot_ok (H : Holds hashValue rank h chains leaked) {i : ℕ} {c : Nodes K D}
    (hc : chains[i]? = some c) : ∃ p, h.slot i = .ok p ∧ Seg h.nodes p c none := by
  obtain ⟨p, hp, hseg⟩ := H.seg i c hc
  exact ⟨p, by rw [slot, hp], hseg⟩

/-- The chain a key belongs to. -/
theorem exists_chain (H : Holds hashValue rank h chains leaked)
    (C : Callbacks hashValue keycmp rank chains.length) (key : K) :
    ∃ c p, chains[hashValue key]? = some c ∧ h.slot (hashValue key) = .ok p ∧
      Seg h.nodes p c none ∧ ChainOk hashValue rank (hashValue key) c := by
  have hi := C.hash_lt key
  have hc := List.getElem?_eq_getElem hi
  obtain ⟨p, hp, hseg⟩ := H.slot_ok hc
  exact ⟨_, p, hc, hp, hseg, H.chain _ _ hc⟩

/-- No address comes twice in a chain. -/
theorem nodup_chain (H : Holds hashValue rank h chains leaked) {i : ℕ} {c : Nodes K D}
    (hc : chains[i]? = some c) : (c.map Prod.fst).Nodup := by
  have hnodup := (List.nodup_append.1 H.nodup_addresses).1
  rw [((flatten_perm hc).map Prod.fst).nodup_iff, List.map_append] at hnodup
  exact (List.nodup_append.1 hnodup).1

/-- A chain is shorter than the bound of the loops. -/
theorem length_lt_fuel (H : Holds hashValue rank h chains leaked) {i : ℕ} {c : Nodes K D}
    (hc : chains[i]? = some c) : c.length < h.fuel := by
  have hlen := H.keys.length_eq
  have hsum := (flatten_perm hc).length_eq
  rw [List.length_append, List.length_map] at hlen
  rw [List.length_append] at hsum
  unfold fuel
  omega

/-- A key is looked up in its chain. -/
theorem contents_eq (H : Holds hashValue rank h chains leaked)
    (C : Callbacks hashValue keycmp rank chains.length) {key : K} {c : Nodes K D}
    (hc : chains[hashValue key]? = some c) :
    contents rank chains (rank key) = (c.find? fun e => rankOf rank e = rank key).map datumOf := by
  have hperm := flatten_perm hc
  have hother : ((chains.eraseIdx (hashValue key)).flatten.find? fun e =>
      rankOf rank e = rank key) = none := by
    rw [List.find?_eq_none]
    intro e he
    simp only [decide_eq_true_eq]
    intro hrank
    obtain ⟨c', hc', he⟩ := List.mem_flatten.1 he
    obtain ⟨j, hj⟩ := List.mem_iff_getElem?.1 hc'
    rw [List.getElem?_eraseIdx] at hj
    have hhash := C.hash_congr _ _ hrank
    split_ifs at hj with hlt
    · rw [(H.chain j c' hj).hashed e he] at hhash
      omega
    · rw [(H.chain (j + 1) c' hj).hashed e he] at hhash
      omega
  rw [contents, mapOf_perm (H.nodup_ranks C) hperm, mapOf, List.find?_append, hother,
    Option.or_none]

/-- The entry of a key. -/
theorem contents_some (H : Holds hashValue rank h chains leaked)
    (C : Callbacks hashValue keycmp rank chains.length) {i : ℕ} {c : Nodes K D}
    (hc : chains[i]? = some c) {e : ℕ × HashtabNode K D} (he : e ∈ c) :
    contents rank chains (rankOf rank e) = some (datumOf e) :=
  (mapOf_eq_some_iff (H.nodup_ranks C)).2
    ⟨e, List.mem_flatten.2 ⟨c, List.mem_of_getElem? hc, he⟩, rfl, rfl⟩

/-- A key without an entry in its chain has none. -/
theorem contents_none (H : Holds hashValue rank h chains leaked)
    (C : Callbacks hashValue keycmp rank chains.length) {key : K} {c : Nodes K D}
    (hc : chains[hashValue key]? = some c) (hne : ∀ e ∈ c, rankOf rank e ≠ rank key) :
    contents rank chains (rank key) = none := by
  rw [H.contents_eq C hc, Option.map_eq_none_iff, List.find?_eq_none]
  simpa using hne

/-- A search in the chain of a key stops where its entry is, or would be. -/
theorem walk_ok (H : Holds hashValue rank h chains leaked)
    (C : Callbacks hashValue keycmp rank chains.length) {key : K} {c : Nodes K D} {p : Option ℕ}
    (hc : chains[hashValue key]? = some c) (hseg : Seg h.nodes p c none) :
    h.nodes.walk (fun n => 0 < keycmp key n.key) h.fuel none p =
      .ok (back none (below rank key c), front (above rank key c) none) := by
  have hgo : (fun e : ℕ × HashtabNode K D => decide (0 < keycmp key e.2.key)) =
      fun e => decide (rankOf rank e < rank key) := by
    funext e
    exact decide_eq_decide.2 (C.greater _ _)
  rw [hseg.walk _ _ none (H.length_lt_fuel hc), hgo]
  rfl

/-- And there the test says whether the key has an entry. -/
theorem isKey_ok (H : Holds hashValue rank h chains leaked)
    (C : Callbacks hashValue keycmp rank chains.length) {key : K} {c : Nodes K D} {p : Option ℕ}
    (hc : chains[hashValue key]? = some c) (hseg : Seg h.nodes p c none) :
    isKey keycmp h key (front (above rank key c) none) =
      .ok (contents rank chains (rank key)).isSome := by
  have hsorted := (H.chain _ _ hc).sorted
  rw [H.contents_eq C hc, find?_sorted hsorted]
  rw [← List.takeWhile_append_dropWhile (p := fun e => decide (rankOf rank e < rank key)) (l := c),
    Seg.append_iff] at hseg
  obtain ⟨r, -, hseg⟩ := hseg
  unfold above
  cases hd : c.dropWhile fun e => rankOf rank e < rank key with
  | nil => rfl
  | cons e d =>
    rw [hd] at hseg
    obtain ⟨-, q, hq, -⟩ := hseg
    rw [front_cons, isKey, Heap.read_some hq, ok_bind, List.head?_cons]
    by_cases heq : rank key = rank e.2.key
    · simp [(C.equal _ _).2 heq, heq, rankOf, Option.filter]
    · have hne : keycmp key e.2.key ≠ 0 := fun h0 => heq ((C.equal _ _).1 h0)
      simp [hne, Ne.symm heq, rankOf, Option.filter]

/-- The table after the chain at slot `i` was replaced. -/
theorem update (H : Holds hashValue rank h chains leaked) (h' : Hashtab K D) (leaked' : List ℕ)
    {i : ℕ} {c' : Nodes K D} {p' : Option ℕ} (hi : i < chains.length)
    (htable : h'.htable = h.htable.set i p') (hsize : h'.size = h.size)
    (hseg : Seg h'.nodes p' c' none)
    (hframe : ∀ j c, j ≠ i → chains[j]? = some c → ∀ e ∈ c,
      h'.nodes.lookup e.1 = h.nodes.lookup e.1)
    (hchain : ChainOk hashValue rank i c')
    (hkeys : h'.nodes.keys.Perm ((chains.set i c').flatten.map Prod.fst ++ leaked'))
    (hnel : h'.nel = (chains.set i c').flatten.length) :
    Holds hashValue rank h' (chains.set i c') leaked' where
  length := by rw [htable, List.length_set, List.length_set, H.length]
  size := by rw [hsize, List.length_set, H.size]
  seg j c hj := by
    rw [htable]
    by_cases hji : j = i
    · subst hji
      rw [List.getElem?_set_self hi, Option.some.injEq] at hj
      subst hj
      exact ⟨p', List.getElem?_set_self (by rw [H.length]; exact hi), hseg⟩
    · rw [List.getElem?_set_ne (Ne.symm hji)] at hj ⊢
      obtain ⟨p, hp, hs⟩ := H.seg j c hj
      exact ⟨p, hp, hs.frame (hframe j c hji hj)⟩
  chain j c hj := by
    by_cases hji : j = i
    · subst hji
      rw [List.getElem?_set_self hi, Option.some.injEq] at hj
      exact hj ▸ hchain
    · rw [List.getElem?_set_ne (Ne.symm hji)] at hj
      exact H.chain j c hj
  keys := hkeys
  nel := hnel

/-- A node of another chain is none of this one. -/
theorem ne_of_mem (H : Holds hashValue rank h chains leaked) {i j : ℕ} {c c' : Nodes K D}
    (hc : chains[i]? = some c) (hc' : chains[j]? = some c') (hij : j ≠ i)
    {e e' : ℕ × HashtabNode K D} (he : e ∈ c) (he' : e' ∈ c') : e'.1 ≠ e.1 := by
  have hnodup := (List.nodup_append.1 H.nodup_addresses).1
  rw [((flatten_perm hc).map Prod.fst).nodup_iff, List.map_append, List.nodup_append] at hnodup
  refine fun heq => hnodup.2.2 e.1 (List.mem_map_of_mem he) e'.1 (List.mem_map_of_mem ?_) heq.symm
  refine List.mem_flatten.2 ⟨c', ?_, he'⟩
  rw [List.mem_iff_getElem?]
  rcases Nat.lt_or_ge j i with hlt | hge
  · exact ⟨j, by rw [List.getElem?_eraseIdx_of_lt hlt, hc']⟩
  · refine ⟨j - 1, ?_⟩
    rw [List.getElem?_eraseIdx_of_ge (by omega), Nat.sub_add_cancel (by omega), hc']

/-- `hashtab_search` finds the datum of the key. -/
theorem search_ok (H : Holds hashValue rank h chains leaked)
    (C : Callbacks hashValue keycmp rank chains.length) (key : K) :
    h.hashtabSearch hashValue keycmp key = .ok (contents rank chains (rank key)).join := by
  obtain ⟨c, p, hc, hp, hseg, hok⟩ := H.exists_chain C key
  rw [hashtabSearch, hp, ok_bind, H.walk_ok C hc hseg, ok_bind]
  simp only [H.isKey_ok C hc hseg, ok_bind]
  have hfind := H.contents_eq C hc
  rw [find?_sorted hok.sorted] at hfind
  rw [← List.takeWhile_append_dropWhile (p := fun e => decide (rankOf rank e < rank key)) (l := c),
    Seg.append_iff] at hseg
  obtain ⟨r, -, hseg⟩ := hseg
  unfold above
  cases hd : c.dropWhile fun e => rankOf rank e < rank key with
  | nil =>
    rw [hd] at hfind
    simp [hfind]
  | cons e d =>
    rw [hd] at hfind hseg
    obtain ⟨-, q, hq, -⟩ := hseg
    by_cases heq : rankOf rank e = rank key
    · have hsome : contents rank chains (rank key) = some e.2.datum := by
        rw [hfind, List.head?_cons, Option.filter_some_pos (by simpa using heq)]
        rfl
      simp [hsome, Heap.read_some hq]
    · have hnone : contents rank chains (rank key) = none := by
        rw [hfind, List.head?_cons, Option.filter_some_neg (by simpa using heq)]
        rfl
      simp [hnone]

/-- The chain of a key, split where its entry is or would be. -/
theorem below_append_above (rank : K → ι) (key : K) (c : Nodes K D) :
    below rank key c ++ above rank key c = c :=
  List.takeWhile_append_dropWhile

/-- A node of the chain of a key is none of the other ones. -/
theorem notMem_other (H : Holds hashValue rank h chains leaked) {i j : ℕ} {c c' : Nodes K D}
    (hc : chains[i]? = some c) (hc' : chains[j]? = some c') (hij : j ≠ i) {e : ℕ × HashtabNode K D}
    (he : e ∈ c') : ∀ x ∈ c, e.1 ≠ x.1 :=
  fun _ hx => H.ne_of_mem hc hc' hij hx he

/-- The table after a node was put into the chain of its key. -/
theorem grow (H : Holds hashValue rank h chains leaked)
    (C : Callbacks hashValue keycmp rank chains.length) (h' : Hashtab K D) {key : K}
    {datum : Option D} {a : ℕ} {c : Nodes K D} {p' : Option ℕ}
    (hc : chains[hashValue key]? = some c) (hnone : contents rank chains (rank key) = none)
    (ha : a ∉ h.nodes)
    (htable : h'.htable = h.htable.set (hashValue key) p') (hsize : h'.size = h.size)
    (hseg : Seg h'.nodes p' (below rank key c ++ (a, ⟨key, datum⟩) :: above rank key c) none)
    (hframe : ∀ b ≠ a, (∀ e ∈ c, b ≠ e.1) → h'.nodes.lookup b = h.nodes.lookup b)
    (hkeys : h'.nodes.keys.Perm (a :: h.nodes.keys)) (hnel : h'.nel = h.nel + 1) :
    ∃ chains', Holds hashValue rank h' chains' leaked ∧ chains'.length = chains.length ∧
      contents rank chains' = Function.update (contents rank chains) (rank key) (some datum) := by
  have hi : hashValue key < chains.length := C.hash_lt key
  have hmiddle : (below rank key c ++ (a, ⟨key, datum⟩) :: above rank key c).Perm
      ((a, ⟨key, datum⟩) :: (below rank key c ++ above rank key c)) := List.perm_middle
  rw [below_append_above] at hmiddle
  have hgrown := flatten_set_cons hc hmiddle
  have H' := H.update h' leaked hi htable hsize hseg (fun j c' hji hc' e he => ?_) ?_ ?_ ?_
  · refine ⟨_, H', List.length_set, ?_⟩
    rw [contents, mapOf_perm (H'.nodup_ranks C) hgrown, mapOf_cons]
    rfl
  · refine hframe e.1 (fun hea => ha ?_) (H.notMem_other hc hc' hji he)
    obtain ⟨p, -, hs⟩ := H.seg j c' hc'
    exact hea ▸ hs.mem_heap he
  · constructor
    · refine Sorted.insert (a := (a, ⟨key, datum⟩)) (H.chain _ _ hc).sorted ?_
      intro b hb hrank
      have hsome := H.contents_some C hc hb
      rw [hrank] at hsome
      exact absurd (hsome.symm.trans hnone) (by simp)
    · intro e he
      rcases List.mem_cons.1 (hmiddle.mem_iff.1 he) with rfl | he
      · rfl
      · exact (H.chain _ _ hc).hashed e he
  · exact (hkeys.trans (H.keys.cons a)).trans ((hgrown.map Prod.fst).symm.append_right leaked)
  · rw [hnel, H.nel, hgrown.length_eq, List.length_cons]

/-- What `hashtab_insert` does. -/
theorem insert_ok (H : Holds hashValue rank h chains leaked)
    (C : Callbacks hashValue keycmp rank chains.length) (key : K) (datum : Option D) {a : ℕ}
    (ha : a ∉ h.nodes) (hfull : h.nel ≠ hashtabMaxNodes)
    (hnone : contents rank chains (rank key) = none) :
    ∃ h' chains', h.hashtabInsert hashValue keycmp key datum (some a) = .ok (0, h') ∧
      Holds hashValue rank h' chains' leaked ∧ chains'.length = chains.length ∧
      contents rank chains' = Function.update (contents rank chains) (rank key) (some datum) := by
  obtain ⟨c, p, hc, hp, hseg, -⟩ := H.exists_chain C key
  have hwalk := H.walk_ok C hc hseg
  have hkey := H.isKey_ok C hc hseg
  rw [hnone] at hkey
  have hslot : hashValue key < h.htable.length := by
    rw [H.length]
    exact C.hash_lt key
  have hfresh : ∀ e ∈ c, e.1 ≠ a := fun e he hea => ha (hea ▸ hseg.mem_heap he)
  have hdata := hseg
  rw [← below_append_above rank key c, Seg.append_iff] at hseg
  obtain ⟨r, hbelow, habove⟩ := hseg
  have hr : r = front (above rank key c) none := habove.eq_front
  have hinsert : ∀ n : Node (HashtabNode K D), ∀ e ∈ c,
      (h.nodes.insert a n).lookup e.1 = h.nodes.lookup e.1 :=
    fun n e he => AList.lookup_insert_ne (hfresh e he)
  have hmem : ∀ e, e ∈ below rank key c ∨ e ∈ above rank key c → e ∈ c := fun e he => by
    rwa [← List.mem_append, below_append_above] at he
  rcases List.eq_nil_or_concat (below rank key c) with hnil | ⟨l, b, hl⟩
  · -- the new node becomes the first
    rw [hnil] at hwalk hbelow
    obtain rfl : p = r := hbelow
    obtain ⟨chains', H', hlen, hcontents⟩ := H.grow C
      ⟨h.htable.set (hashValue key) (some a), h.size, h.nel + 1, h.nodes.insert a ⟨⟨key, datum⟩, p⟩⟩
      hc hnone ha rfl rfl
      (by
        rw [hnil]
        exact ⟨rfl, p, AList.lookup_insert _,
          habove.frame fun e he => hinsert _ e (hmem e (.inr he))⟩)
      (fun b hb _ => AList.lookup_insert_ne hb) (Heap.perm_keys_insert ha _) rfl
    refine ⟨_, chains', ?_, H', hlen, hcontents⟩
    rw [hashtabInsert, if_neg hfull]
    simp [hp, hwalk, hkey, Heap.alloc_fresh ha, setSlot, hslot]
  · -- it is put behind the node `b`
    rw [List.concat_eq_append] at hl
    rw [hl, back_append_singleton] at hwalk
    rw [hl] at hbelow
    have hb : b ∈ c := hmem b (.inl (by simp [hl]))
    have hnodup := H.nodup_chain hc
    rw [← below_append_above rank key c, List.map_append, List.nodup_append, hl] at hnodup
    have hbehind : ∀ e ∈ above rank key c, e.1 ≠ b.1 := fun e he =>
      Ne.symm (hnodup.2.2 b.1 (List.mem_map_of_mem (by simp)) e.1 (List.mem_map_of_mem he))
    have hframed : Seg (h.nodes.insert a ⟨⟨key, datum⟩, r⟩) p (l ++ [b]) r :=
      hbelow.frame fun e he => hinsert _ e (hmem e (.inl (hl ▸ he)))
    obtain ⟨nodes, hset, hlinked, hother, hperm⟩ := hframed.setNext hnodup.1 (some a)
    obtain ⟨chains', H', hlen, hcontents⟩ := H.grow C
      ⟨h.htable, h.size, h.nel + 1, nodes⟩ hc hnone ha (set_slot hp).symm rfl
      (by
        rw [hl]
        refine Seg.append_iff.2 ⟨_, hlinked, rfl, r, ?_, habove.frame fun e he => ?_⟩
        · rw [hother a (Ne.symm (hfresh b hb)), AList.lookup_insert]
        · rw [hother e.1 (hbehind e he), hinsert _ e (hmem e (.inr he))])
      (fun x hx hne => by rw [hother x (hne b hb), AList.lookup_insert_ne hx])
      (hperm.trans (Heap.perm_keys_insert ha _)) rfl
    refine ⟨_, chains', ?_, H', hlen, hcontents⟩
    rw [hashtabInsert, if_neg hfull]
    simp [hp, hwalk, hkey, Heap.read_some hbelow.lookup_last, Heap.alloc_fresh ha, hset]

/-- A key that has an entry is not inserted again. -/
theorem insert_exists (H : Holds hashValue rank h chains leaked)
    (C : Callbacks hashValue keycmp rank chains.length) (key : K) (datum : Option D)
    (newnode : Option ℕ) (hfull : h.nel ≠ hashtabMaxNodes)
    (hsome : contents rank chains (rank key) ≠ none) :
    h.hashtabInsert hashValue keycmp key datum newnode = .ok (-eexist, h) := by
  obtain ⟨c, p, hc, hp, hseg, -⟩ := H.exists_chain C key
  rw [hashtabInsert, if_neg hfull]
  simp [hp, H.walk_ok C hc hseg, H.isKey_ok C hc hseg, Option.isSome_iff_ne_none.2 hsome]

/-- Nor is one for which there is no memory. -/
theorem insert_refused (H : Holds hashValue rank h chains leaked)
    (C : Callbacks hashValue keycmp rank chains.length) (key : K) (datum : Option D)
    (hfull : h.nel ≠ hashtabMaxNodes) (hnone : contents rank chains (rank key) = none) :
    h.hashtabInsert hashValue keycmp key datum none = .ok (-enomem, h) := by
  obtain ⟨c, p, hc, hp, hseg, -⟩ := H.exists_chain C key
  rw [hashtabInsert, if_neg hfull]
  simp [hp, H.walk_ok C hc hseg, H.isKey_ok C hc hseg, hnone]

/-- The chain of a key has its entry. -/
theorem exists_entry (H : Holds hashValue rank h chains leaked)
    (C : Callbacks hashValue keycmp rank chains.length) {key : K} {c : Nodes K D}
    (hc : chains[hashValue key]? = some c) (hsome : contents rank chains (rank key) ≠ none) :
    ∃ e ∈ c, rankOf rank e = rank key := by
  by_contra hnone
  push Not at hnone
  exact hsome (H.contents_none C hc hnone)

/-- The table after the node `e` was taken out of its chain. -/
theorem shrink (H : Holds hashValue rank h chains leaked)
    (C : Callbacks hashValue keycmp rank chains.length) (h' : Hashtab K D) (leaked' : List ℕ)
    {i : ℕ} {x y : Nodes K D} {e : ℕ × HashtabNode K D} {p' : Option ℕ}
    (hc : chains[i]? = some (x ++ e :: y))
    (htable : h'.htable = h.htable.set i p') (hsize : h'.size = h.size)
    (hseg : Seg h'.nodes p' (x ++ y) none)
    (hframe : ∀ b, (∀ z ∈ x ++ e :: y, b ≠ z.1) → h'.nodes.lookup b = h.nodes.lookup b)
    (hkeys : ∀ R, h.nodes.keys.Perm (e.1 :: R ++ leaked) → h'.nodes.keys.Perm (R ++ leaked'))
    (hnel : h'.nel = h.nel - 1) :
    ∃ chains', Holds hashValue rank h' chains' leaked' ∧ chains'.length = chains.length ∧
      contents rank chains' = Function.update (contents rank chains) (rankOf rank e) none := by
  have hi : i < chains.length := (List.getElem?_eq_some_iff.1 hc).1
  have hsub : (x ++ y).Sublist (x ++ e :: y) := (List.sublist_cons_self e y).append_left x
  have hshrunk := flatten_set_uncons hc List.perm_middle
  have H' := H.update h' leaked' hi htable hsize hseg
    (fun j c' hji hc' z hz => hframe z.1 (H.notMem_other hc hc' hji hz))
    ⟨(H.chain _ _ hc).sorted.sublist hsub, fun z hz => (H.chain _ _ hc).hashed z (hsub.subset hz)⟩
    (hkeys _ (H.keys.trans ((hshrunk.map Prod.fst).append_right leaked)))
    (by rw [hnel, H.nel, hshrunk.length_eq, List.length_cons, Nat.add_sub_cancel])
  exact ⟨_, H', List.length_set, mapOf_erase (H.nodup_ranks C) hshrunk⟩

/-- A key without an entry is not deleted. -/
theorem delete_none (H : Holds hashValue rank h chains leaked)
    (C : Callbacks hashValue keycmp rank chains.length) {key : K}
    (hnone : contents rank chains (rank key) = none) :
    h.hashtabDelete hashValue keycmp key = .ok (none, h) := by
  obtain ⟨c, p, hc, hp, hseg, -⟩ := H.exists_chain C key
  have hne : ∀ e ∈ c, keycmp key e.2.key ≠ 0 := fun e he h0 => by
    have hsome := H.contents_some C hc he
    rw [rankOf, ← (C.equal _ _).1 h0, hnone] at hsome
    cases hsome
  have hfuel := H.length_lt_fuel hc
  rw [hashtabDelete, hp, ok_bind]
  cases c with
  | nil =>
    obtain rfl : p = none := hseg
    rfl
  | cons e l =>
    obtain ⟨rfl, r, hr, hl⟩ := hseg
    have hwalk := hl.walk (fun n => keycmp key n.key ≠ 0) h.fuel (some e.1)
      (by simp at hfuel; omega)
    have hrest : (l.dropWhile fun e => decide (keycmp key e.2.key ≠ 0)) = [] := by
      rw [List.dropWhile_eq_nil_iff]
      intro z hz
      exact decide_eq_true (hne z (List.mem_cons_of_mem e hz))
    rw [hrest] at hwalk
    rw [if_neg (by simp), Heap.read_some hr, ok_bind, if_neg (hne e List.mem_cons_self), hwalk]
    rfl

/-- The count after an entry is gone. -/
theorem decrement_ok (H : Holds hashValue rank h chains leaked) {i : ℕ} {c : Nodes K D}
    {e : ℕ × HashtabNode K D} (hc : chains[i]? = some c) (he : e ∈ c) :
    decrement h.nel = h.nel - 1 := by
  have hpos : 0 < chains.flatten.length :=
    List.length_pos_of_mem (List.mem_flatten.2 ⟨c, List.mem_of_getElem? hc, he⟩)
  rw [decrement, if_neg (by rw [H.nel]; omega)]

/-- The first node of a chain is freed. -/
theorem delete_first (H : Holds hashValue rank h chains leaked)
    (C : Callbacks hashValue keycmp rank chains.length) {key : K} {e : ℕ × HashtabNode K D}
    {l : Nodes K D} (hc : chains[hashValue key]? = some (e :: l))
    (hrank : rankOf rank e = rank key) :
    ∃ h' chains', h.hashtabDelete hashValue keycmp key = .ok (e.2.datum, h') ∧
      Holds hashValue rank h' chains' leaked ∧ chains'.length = chains.length ∧
      contents rank chains' = Function.update (contents rank chains) (rank key) none := by
  obtain ⟨p, hp, hseg⟩ := H.slot_ok hc
  have hslot : hashValue key < h.htable.length := by
    rw [H.length]
    exact C.hash_lt key
  have hnodup := H.nodup_chain hc
  obtain ⟨rfl, r, hr, hl⟩ := hseg
  have hin : e.1 ∈ h.nodes := AList.lookup_isSome.1 (by rw [hr]; rfl)
  have hcut := AList.lookup_insert (a := e.1) (b := (⟨e.2, none⟩ : Node _)) h.nodes
  have hmem : e.1 ∈ h.nodes.insert e.1 ⟨e.2, none⟩ := AList.lookup_isSome.1 (by rw [hcut]; rfl)
  have hother : ∀ b ≠ e.1, ((h.nodes.insert e.1 ⟨e.2, none⟩).erase e.1).lookup b =
      h.nodes.lookup b := fun b hb => by
    rw [AList.lookup_erase_ne hb, AList.lookup_insert_ne hb]
  obtain ⟨chains', H', hlen, hcontents⟩ := H.shrink C
    ⟨h.htable.set (hashValue key) r, h.size, h.nel - 1,
      (h.nodes.insert e.1 ⟨e.2, none⟩).erase e.1⟩ leaked (x := []) (e := e) (y := l) hc rfl rfl
    (hl.frame fun z hz => hother z.1 fun hze =>
      (List.nodup_cons.1 hnodup).1 (hze ▸ List.mem_map_of_mem hz))
    (fun b hb => hother b (hb e (by simp)))
    (fun R hR => (List.perm_cons e.1).1
      ((Heap.perm_keys_erase hmem).symm.trans ((Heap.perm_keys_update hin _).trans hR))) rfl
  refine ⟨_, chains', ?_, H', hlen, hrank ▸ hcontents⟩
  have heq : keycmp key e.2.key = 0 := (C.equal _ _).2 hrank.symm
  rw [hashtabDelete, hp, ok_bind, if_neg (by simp), Heap.read_some hr, ok_bind, if_pos heq, setSlot,
    if_pos hslot, ok_bind, Heap.setNext_some hr, ok_bind, Heap.free_some hmem, ok_bind,
    H.decrement_ok hc List.mem_cons_self]
  rfl

/-- Another one is unlinked, and lost. -/
theorem delete_behind (H : Holds hashValue rank h chains leaked)
    (C : Callbacks hashValue keycmp rank chains.length) {key : K} {e x : ℕ × HashtabNode K D}
    {l : Nodes K D} (hc : chains[hashValue key]? = some (e :: l)) (hne : rankOf rank e ≠ rank key)
    (hx : x ∈ l) (hrank : rankOf rank x = rank key) :
    ∃ h' chains', h.hashtabDelete hashValue keycmp key = .ok (x.2.datum, h') ∧
      Holds hashValue rank h' chains' (x.1 :: leaked) ∧ chains'.length = chains.length ∧
      contents rank chains' = Function.update (contents rank chains) (rank key) none := by
  obtain ⟨p, hp, hseg⟩ := H.slot_ok hc
  have hfuel := H.length_lt_fuel hc
  have hnodup := H.nodup_chain hc
  obtain ⟨s, t, rfl, hs⟩ : ∃ s t, l = s ++ x :: t ∧ ∀ z ∈ s, keycmp key z.2.key ≠ 0 := by
    obtain ⟨s, t, rfl⟩ := List.append_of_mem hx
    refine ⟨s, t, rfl, fun z hz h0 => ?_⟩
    have hsorted := (List.pairwise_cons.1 (H.chain _ _ hc).sorted).2
    have hlt := (List.pairwise_append.1 hsorted).2.2 z hz x List.mem_cons_self
    rw [hrank, (C.equal _ _).1 h0] at hlt
    exact lt_irrefl _ hlt
  have heq : keycmp key x.2.key = 0 := (C.equal _ _).2 hrank.symm
  have hfirst : keycmp key e.2.key ≠ 0 := fun h0 => hne ((C.equal _ _).1 h0).symm
  -- the nodes in front of `x` end with some `b`
  obtain ⟨s', b, hb⟩ : ∃ s' b, e :: s = s' ++ [b] :=
    ⟨_, _, (List.dropLast_append_getLast (List.cons_ne_nil e s)).symm⟩
  have hsplit : e :: (s ++ x :: t) = s' ++ [b] ++ x :: t := by rw [← hb, List.cons_append]
  have hback : back (some e.1) s = some b.1 := by
    rw [← back_cons none e s, hb, back_append_singleton]
  have hread := hseg
  obtain ⟨rfl, r, hr, hl⟩ := hread
  have hwalk := hl.walk (fun n => keycmp key n.key ≠ 0) h.fuel (some e.1)
    (by simp at hfuel ⊢; omega)
  have hgo : ∀ z ∈ s, decide (keycmp key z.2.key ≠ 0) = true := fun z hz => decide_eq_true (hs z hz)
  rw [List.takeWhile_append_of_pos hgo, List.dropWhile_append_of_pos hgo,
    List.takeWhile_cons_of_neg (by simpa using heq),
    List.dropWhile_cons_of_neg (by simpa using heq), List.append_nil, hback, front_cons] at hwalk
  rw [hsplit] at hseg hnodup hc
  obtain ⟨r', hb', rfl, q, hq, ht⟩ := Seg.append_iff.1 hseg
  rw [List.map_append, List.nodup_append, List.map_cons, List.nodup_cons] at hnodup
  obtain ⟨hnodup, ⟨hxt, -⟩, hdisj⟩ := hnodup
  have hbefore : ∀ z ∈ s' ++ [b], z.1 ≠ x.1 := fun z hz =>
    hdisj z.1 (List.mem_map_of_mem hz) x.1 List.mem_cons_self
  have hafter : ∀ z ∈ t, z.1 ≠ x.1 := fun z hz hzx => hxt (hzx ▸ List.mem_map_of_mem hz)
  have hbt : ∀ z ∈ t, z.1 ≠ b.1 := fun z hz =>
    (hdisj b.1 (by simp) z.1 (List.mem_cons_of_mem _ (List.mem_map_of_mem hz))).symm
  obtain ⟨nodes, hset, hlinked, hother, hperm⟩ := hb'.setNext hnodup q
  have hq' : nodes.lookup x.1 = some ⟨x.2, q⟩ := by
    rw [hother x.1 (hbefore b (by simp)).symm, hq]
  have hxin : x.1 ∈ nodes := AList.lookup_isSome.1 (by rw [hq']; rfl)
  have hcut : ∀ z ≠ x.1, (nodes.insert x.1 ⟨x.2, none⟩).lookup z = nodes.lookup z :=
    fun z hz => AList.lookup_insert_ne hz
  obtain ⟨chains', H', hlen, hcontents⟩ := H.shrink C
    ⟨h.htable, h.size, h.nel - 1, nodes.insert x.1 ⟨x.2, none⟩⟩ (x.1 :: leaked)
    (x := s' ++ [b]) (e := x) (y := t) hc (set_slot hp).symm rfl
    (Seg.append_iff.2 ⟨q, hlinked.frame fun z hz => hcut z.1 (hbefore z hz),
      ht.frame fun z hz => by rw [hcut z.1 (hafter z hz), hother z.1 (hbt z hz)]⟩)
    (fun z hz => by rw [hcut z (hz x (by simp)), hother z (hz b (by simp))])
    (fun R hR => ((Heap.perm_keys_update hxin _).trans (hperm.trans hR)).trans
      List.perm_middle.symm) rfl
  refine ⟨_, chains', ?_, H', hlen, hrank ▸ hcontents⟩
  rw [hashtabDelete, hp, ok_bind, if_neg (by simp), Heap.read_some hr, ok_bind, if_neg hfirst,
    hwalk, ok_bind]
  dsimp only
  rw [if_neg (by simp), Heap.read_some hq, ok_bind, hset, ok_bind, Heap.setNext_some hq', ok_bind,
    H.decrement_ok (e := x) hc (by simp)]
  rfl

/-- A key with an entry is deleted. Its node is lost if another stands in front of it. -/
theorem delete_some (H : Holds hashValue rank h chains leaked)
    (C : Callbacks hashValue keycmp rank chains.length) {key : K} {d : Option D}
    (hsome : contents rank chains (rank key) = some d) :
    ∃ h' chains' leaked', h.hashtabDelete hashValue keycmp key = .ok (d, h') ∧
      Holds hashValue rank h' chains' leaked' ∧ chains'.length = chains.length ∧
      contents rank chains' = Function.update (contents rank chains) (rank key) none ∧
      (Behind hashValue rank (contents rank chains) key → leaked'.length = leaked.length + 1) ∧
      (¬Behind hashValue rank (contents rank chains) key → leaked'.length = leaked.length) := by
  obtain ⟨c, -, hc, -, -, hok⟩ := H.exists_chain C key
  obtain ⟨x, hx, hrank⟩ := H.exists_entry C hc (hsome ▸ Option.some_ne_none d)
  have hd : x.2.datum = d := by
    rw [← hrank, H.contents_some C hc hx] at hsome
    exact Option.some.inj hsome
  subst hd
  cases c with
  | nil => simp at hx
  | cons e l =>
    have hsorted := List.pairwise_cons.1 hok.sorted
    rcases List.mem_cons.1 hx with rfl | hx
    · obtain ⟨h', chains', hdel, H', hlen, hcontents⟩ := H.delete_first C hc hrank
      refine ⟨h', chains', leaked, hdel, H', hlen, hcontents, ?_, fun _ => rfl⟩
      rintro ⟨key', hhash, hlt, hkey'⟩
      obtain ⟨z, hz, hzrank⟩ := H.exists_entry C (hhash ▸ hc) hkey'
      rw [← hzrank, ← hrank] at hlt
      rcases List.mem_cons.1 hz with rfl | hz
      · exact absurd hlt (lt_irrefl _)
      · exact absurd hlt (hsorted.1 z hz).asymm
    · have hlt := hsorted.1 x hx
      rw [hrank] at hlt
      obtain ⟨h', chains', hdel, H', hlen, hcontents⟩ :=
        H.delete_behind C hc hlt.ne hx hrank
      refine ⟨h', chains', _, hdel, H', hlen, hcontents, fun _ => rfl, fun hnot => ?_⟩
      refine absurd ⟨e.2.key, hok.hashed e List.mem_cons_self, hlt, ?_⟩ hnot
      have hsome := H.contents_some C hc (e := e) List.mem_cons_self
      rw [rankOf] at hsome
      rw [hsome]
      exact Option.some_ne_none _

end Holds

end Hashtab

end Hermes
