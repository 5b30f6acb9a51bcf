import Mathlib.Data.List.Induction
import Mathlib.Algebra.Order.BigOperators.Group.List
import Mathlib.Algebra.Order.Ring.Nat
import Mathlib.Data.List.Basic

/-!
# Lists with one entry for each key

Entries have a key, and keys are compared by a boolean equivalence `same`, which may be
coarser than equality. `upsert` puts an entry at the tail after deleting the first one with
the same key. Lists built by it keep their keys distinct, and hold for each key the entry
that was put last.
-/

namespace CLib

variable {α κ : Type*}

/-- `same` is an equivalence. -/
structure KeyEquiv (same : κ → κ → Bool) : Prop where
  refl : ∀ a, same a a = true
  comm : ∀ a b, same a b = same b a
  congr : ∀ {a b} c, same a b = true → same a c = same b c

variable (same : κ → κ → Bool) (key : α → κ)

/-- No two entries have the same key. -/
def KeysDistinct (l : List α) : Prop :=
  l.Pairwise fun a b => same (key a) (key b) = false

/-- `l` without its first entry for `k`. -/
def eraseKey (k : κ) (l : List α) : List α :=
  l.eraseP fun b => same (key b) k

/-- `a` at the tail, in place of the first entry with its key. -/
def upsert (l : List α) (a : α) : List α :=
  eraseKey same key (key a) l ++ [a]

variable {same key}

theorem mem_of_mem_eraseKey {k : κ} {l : List α} {a : α} (h : a ∈ eraseKey same key k l) : a ∈ l :=
  List.mem_of_mem_eraseP h

theorem eraseKey_cons_of_same {k : κ} {a : α} (h : same (key a) k = true) (l : List α) :
    eraseKey same key k (a :: l) = l :=
  List.eraseP_cons_of_pos (p := fun b => same (key b) k) h

theorem eraseKey_cons_of_not_same {k : κ} {a : α} (h : ¬same (key a) k = true) (l : List α) :
    eraseKey same key k (a :: l) = a :: eraseKey same key k l :=
  List.eraseP_cons_of_neg (p := fun b => same (key b) k) h

theorem eraseKey_of_forall {k : κ} {l : List α} (h : ∀ b ∈ l, same (key b) k = false) :
    eraseKey same key k l = l :=
  List.eraseP_of_forall_not fun b hb => by simp [h b hb]

theorem KeysDistinct.eraseKey {l : List α} (h : KeysDistinct same key l) (k : κ) :
    KeysDistinct same key (eraseKey same key k l) :=
  h.sublist List.eraseP_sublist

theorem mem_upsert {l : List α} {a b : α} (h : b ∈ upsert same key l a) : b = a ∨ b ∈ l := by
  rcases List.mem_append.1 h with h | h
  · exact Or.inr (mem_of_mem_eraseKey h)
  · exact Or.inl (List.mem_singleton.1 h)

variable (E : KeyEquiv same)
include E

/-- After a deletion in a list with distinct keys no entry has the key. -/
theorem same_eq_false_of_mem_eraseKey {k : κ} {a : α} :
    ∀ {l : List α}, KeysDistinct same key l → a ∈ eraseKey same key k l → same (key a) k = false
  | [], _, ha => by simp [eraseKey] at ha
  | b :: l, hl, ha => by
    obtain ⟨hb, hl⟩ := List.pairwise_cons.1 hl
    by_cases hk : same (key b) k = true
    · rw [eraseKey_cons_of_same hk] at ha
      rw [E.comm, ← E.congr (key a) hk]
      exact hb a ha
    · rw [eraseKey_cons_of_not_same hk, List.mem_cons] at ha
      rcases ha with rfl | ha
      · simpa using hk
      · exact same_eq_false_of_mem_eraseKey hl ha

/-- In a list with distinct keys every entry is found under its key. -/
theorem find?_of_mem {k : κ} {a : α} (hk : same (key a) k = true) :
    ∀ {l : List α}, KeysDistinct same key l → a ∈ l →
      l.find? (fun b => same (key b) k) = some a
  | [], _, ha => by simp at ha
  | b :: l, hl, ha => by
    obtain ⟨hb, hl⟩ := List.pairwise_cons.1 hl
    rcases List.mem_cons.1 ha with rfl | ha
    · simp [hk]
    · have hbk : same (key b) k = false := by
        rw [E.comm, ← E.congr (key b) hk, E.comm]
        exact hb a ha
      rw [List.find?_cons, hbk]
      exact find?_of_mem hk hl ha

/-- In a list with distinct keys a deletion takes out all entries for the key. -/
theorem eraseKey_eq_filter (k : κ) : ∀ {l : List α}, KeysDistinct same key l →
    CLib.eraseKey same key k l = l.filter fun b => !same (key b) k
  | [], _ => rfl
  | b :: l, hl => by
    obtain ⟨hb, hl⟩ := List.pairwise_cons.1 hl
    by_cases hk : same (key b) k = true
    · rw [eraseKey_cons_of_same hk, List.filter_cons_of_neg (by simp [hk])]
      refine (List.filter_eq_self.2 fun c hc => ?_).symm
      rw [E.comm, ← E.congr (key c) hk, hb c hc]
      rfl
    · rw [eraseKey_cons_of_not_same hk, List.filter_cons_of_pos (by simpa using hk),
        eraseKey_eq_filter k hl]

/-- In a list with distinct keys at most one entry has the key. -/
theorem length_filter_same_le (k : κ) {l : List α} (hl : KeysDistinct same key l) :
    (l.filter fun b => same (key b) k).length ≤ 1 := by
  have hall : ∀ b ∈ l.filter (fun b => same (key b) k), same (key b) k = true := fun b hb =>
    (List.mem_filter.1 hb).2
  have hpair : KeysDistinct same key (l.filter fun b => same (key b) k) := List.Pairwise.filter _ hl
  match hf : l.filter fun b => same (key b) k with
  | [] => simp
  | [_] => simp
  | a :: b :: m =>
    -- two entries with the key would have different keys
    rw [hf] at hall hpair
    have hab := (List.pairwise_cons.1 hpair).1 b (by simp)
    rw [E.congr _ (hall a (by simp)), E.comm, hall b (by simp)] at hab
    simp at hab

theorem KeysDistinct.upsert {l : List α} (h : KeysDistinct same key l) (a : α) :
    KeysDistinct same key (upsert same key l a) := by
  rw [CLib.upsert, KeysDistinct, List.pairwise_append]
  refine ⟨h.eraseKey (key a), List.pairwise_singleton _ a, fun b hb c hc => ?_⟩
  rw [List.mem_singleton.1 hc]
  exact same_eq_false_of_mem_eraseKey E h hb

theorem KeysDistinct.foldl_upsert : ∀ (m : List α) {l : List α}, KeysDistinct same key l →
    KeysDistinct same key (m.foldl (CLib.upsert same key) l)
  | [], _, h => h
  | a :: m, _, h => KeysDistinct.foldl_upsert m (h.upsert E a)

/-- The entry found for a key after `upsert`. -/
theorem find?_upsert (k : κ) (a : α) : ∀ {l : List α}, KeysDistinct same key l →
    (CLib.upsert same key l a).find? (fun b => same (key b) k) =
      if same (key a) k then some a else l.find? fun b => same (key b) k
  | [], _ => by
    cases h : same (key a) k <;> simp [CLib.upsert, CLib.eraseKey, h]
  | b :: l, hl => by
    obtain ⟨hb, hl⟩ := List.pairwise_cons.1 hl
    have ih := find?_upsert k a hl
    by_cases hab : same (key b) (key a) = true
    · -- the head goes, and nothing behind it has its key
      have hnone : ∀ c ∈ l, same (key c) (key a) = false := fun c hc => by
        rw [E.comm, ← E.congr (key c) hab]
        exact hb c hc
      have hup : CLib.upsert same key (b :: l) a = CLib.upsert same key l a := by
        rw [CLib.upsert, CLib.upsert, eraseKey_of_forall hnone, eraseKey_cons_of_same hab]
      rw [hup, ih]
      cases h : same (key a) k
      · have hbk : same (key b) k = false := by rw [E.congr k hab, h]
        simp [hbk]
      · simp
    · have hup : CLib.upsert same key (b :: l) a = b :: CLib.upsert same key l a := by
        rw [CLib.upsert, CLib.upsert, eraseKey_cons_of_not_same hab, List.cons_append]
      rw [hup, List.find?_cons, List.find?_cons, ih]
      cases hbk : same (key b) k
      · rfl
      · have hak : same (key a) k = false := by
          rw [Bool.eq_false_iff]
          intro hak
          refine hab ?_
          rw [E.congr (key a) hbk, E.comm]
          exact (E.congr k (by rw [E.comm]; exact hak)).symm ▸ hak
        simp [hak]

/-- The entry found for a key after a deletion. -/
theorem find?_eraseKey (k k' : κ) {l : List α} (hl : KeysDistinct same key l) :
    (CLib.eraseKey same key k l).find? (fun b => same (key b) k') =
      if same k k' then none else l.find? fun b => same (key b) k' := by
  cases h : same k k'
  · rw [eraseKey_eq_filter E k hl, List.find?_filter, if_neg (by simp)]
    congr 1
    funext b
    cases hb : same (key b) k
    · simp
    · rw [E.congr k' hb, h]
      rfl
  · rw [if_pos rfl, List.find?_eq_none]
    intro b hb
    rw [E.comm, ← E.congr (key b) h, E.comm, same_eq_false_of_mem_eraseKey E hl hb]
    simp

omit E in
/-- Entries with distinct keys are put one behind the other. -/
theorem foldl_upsert_of_distinct : ∀ {m l : List α}, KeysDistinct same key (l ++ m) →
    m.foldl (CLib.upsert same key) l = l ++ m
  | [], l, _ => by simp
  | a :: m, l, h => by
    have hl : CLib.upsert same key l a = l ++ [a] := by
      rw [CLib.upsert, eraseKey_of_forall fun b hb => ?_]
      exact (List.pairwise_append.1 h).2.2 b hb a (by simp)
    have hassoc : l ++ a :: m = l ++ [a] ++ m := by simp
    rw [List.foldl_cons, hl, foldl_upsert_of_distinct (by rwa [← hassoc]), hassoc]

/-- The entry found for a key is the one put last. -/
theorem find?_foldl_upsert (k : κ) (m : List α) : ∀ {l : List α}, KeysDistinct same key l →
    (m.foldl (CLib.upsert same key) l).find? (fun b => same (key b) k) =
      ((m.filter fun b => same (key b) k).getLast?).or (l.find? fun b => same (key b) k) := by
  induction m with
  | nil => simp
  | cons a m ih =>
    intro l hl
    rw [List.foldl_cons, ih (hl.upsert E a), find?_upsert E k a hl]
    cases ha : same (key a) k
    · simp [ha]
    · rw [List.filter_cons_of_pos (by exact ha)]
      cases hm : m.filter fun b => same (key b) k with
      | nil => simp
      | cons b m' =>
        have hlast : ∃ c, (b :: m').getLast? = some c := ⟨_, List.getLast?_eq_some_getLast (by simp)⟩
        obtain ⟨c, hc⟩ := hlast
        rw [List.getLast?_cons_cons, hc]
        rfl

/-! ## Weights -/

omit E in
/-- Sums of two functions, one below the other. -/
theorem sum_map_eq_iff {w v : α → ℕ} : ∀ {l : List α}, (∀ a ∈ l, w a ≤ v a) →
    ((l.map w).sum = (l.map v).sum ↔ ∀ a ∈ l, w a = v a)
  | [], _ => by simp
  | a :: l, h => by
    have hle : (l.map w).sum ≤ (l.map v).sum := List.sum_le_sum fun b hb => h b (by simp [hb])
    have ha := h a (by simp)
    have ih := sum_map_eq_iff fun b hb => h b (List.mem_cons_of_mem a hb)
    rw [List.map_cons, List.map_cons, List.sum_cons, List.sum_cons, List.forall_mem_cons, ← ih]
    omega

omit E in
theorem sum_eraseKey_le (same : κ → κ → Bool) (key : α → κ) (w : α → ℕ) (k : κ) (l : List α) :
    ((CLib.eraseKey same key k l).map w).sum ≤ (l.map w).sum :=
  List.Sublist.sum_le_sum (List.eraseP_sublist.map w) fun _ _ => Nat.zero_le _

omit E in
theorem sum_upsert_le (same : κ → κ → Bool) (key : α → κ) (w : α → ℕ) (l : List α) (a : α) :
    ((CLib.upsert same key l a).map w).sum ≤ (l.map w).sum + w a := by
  have := sum_eraseKey_le same key w (key a) l
  simp only [CLib.upsert, List.map_append, List.map_singleton, List.sum_append,
    List.sum_singleton]
  omega

omit E in
theorem sum_foldl_upsert_le (same : κ → κ → Bool) (key : α → κ) (w : α → ℕ) : ∀ (m l : List α),
    ((m.foldl (CLib.upsert same key) l).map w).sum ≤ (l.map w).sum + (m.map w).sum
  | [], l => by simp
  | a :: m, l => by
    have h1 := sum_foldl_upsert_le same key w m (CLib.upsert same key l a)
    have h2 := sum_upsert_le same key w l a
    rw [List.foldl_cons, List.map_cons, List.sum_cons]
    omega

omit E in
/-- An entry in the place of another adds the difference of their weights. -/
theorem sum_upsert_of_find? (w : α → ℕ) {a b : α} : ∀ {l : List α},
    l.find? (fun c => same (key c) (key a)) = some b →
    ((CLib.upsert same key l a).map w).sum + w b = (l.map w).sum + w a
  | [], h => by simp at h
  | c :: l, h => by
    unfold CLib.upsert
    by_cases hc : same (key c) (key a) = true
    · rw [List.find?_cons, hc] at h
      obtain rfl : c = b := by simpa using h
      rw [eraseKey_cons_of_same hc]
      simp
      omega
    · rw [List.find?_cons, Bool.eq_false_iff.2 hc] at h
      have ih := sum_upsert_of_find? w h
      rw [eraseKey_cons_of_not_same hc]
      unfold CLib.upsert at ih
      simp only [List.cons_append, List.map_cons, List.map_append, List.map_nil,
        List.sum_append, List.sum_cons, List.sum_nil] at ih ⊢
      omega

omit E in
/-- Nothing is lost just if the key is new. -/
theorem sum_upsert_eq_iff {w : α → ℕ} (hw : ∀ a, 0 < w a) (l : List α) (a : α) :
    ((CLib.upsert same key l a).map w).sum = (l.map w).sum + w a ↔
      ∀ b ∈ l, same (key b) (key a) = false := by
  constructor
  · intro hsum b hb
    rw [Bool.eq_false_iff]
    intro hk
    obtain ⟨c, hfind⟩ := Option.isSome_iff_exists.1
      (List.find?_isSome.2 ⟨b, hb, hk⟩ : (l.find? fun c => same (key c) (key a)).isSome)
    have hreplace := sum_upsert_of_find? w hfind
    have := hw c
    omega
  · intro hnew
    rw [CLib.upsert, eraseKey_of_forall hnew]
    simp

omit E in
/-- Entries put one by one are all kept just if their keys are distinct. -/
theorem sum_foldl_upsert_eq_iff {w : α → ℕ} (hw : ∀ a, 0 < w a) : ∀ (m : List α) {l : List α},
    KeysDistinct same key l →
      (((m.foldl (CLib.upsert same key) l).map w).sum = (l.map w).sum + (m.map w).sum ↔
        KeysDistinct same key (l ++ m))
  | [], l, hl => by simpa using hl
  | a :: m, l, hl => by
    have hfold := sum_foldl_upsert_le same key w m (CLib.upsert same key l a)
    have hone := sum_upsert_le same key w l a
    rw [List.foldl_cons, List.map_cons, List.sum_cons]
    constructor
    · intro hsum
      have hnew : ∀ b ∈ l, same (key b) (key a) = false :=
        (sum_upsert_eq_iff hw l a).1 (by omega)
      have hup : CLib.upsert same key l a = l ++ [a] := by
        rw [CLib.upsert, eraseKey_of_forall hnew]
      have hla : KeysDistinct same key (l ++ [a]) := by
        refine List.pairwise_append.2 ⟨hl, List.pairwise_singleton _ a, fun b hb c hc => ?_⟩
        rw [List.mem_singleton.1 hc]
        exact hnew b hb
      rw [hup] at hsum hone
      have ih := (sum_foldl_upsert_eq_iff hw m hla).1 (by simp at hsum ⊢; omega)
      simpa using ih
    · intro hd
      rw [← List.foldl_cons, foldl_upsert_of_distinct hd]
      simp

/-! ## All keys -/

/-- The entries kept are those whose key does not come again. -/
theorem mem_foldl_upsert {a : α} (m : List α) :
    a ∈ m.foldl (CLib.upsert same key) [] ↔
      ∃ before after, m = before ++ a :: after ∧ ∀ b ∈ after, same (key b) (key a) = false := by
  induction m using List.reverseRecOn with
  | nil => simp
  | append_singleton m c ih =>
    have hd : KeysDistinct same key (m.foldl (CLib.upsert same key) []) :=
      KeysDistinct.foldl_upsert E m List.Pairwise.nil
    rw [List.foldl_append, List.foldl_cons, List.foldl_nil, CLib.upsert, eraseKey_eq_filter E _ hd,
      List.mem_append, List.mem_filter, List.mem_singleton, ih]
    constructor
    · rintro (⟨⟨before, after, rfl, hafter⟩, hac⟩ | rfl)
      · refine ⟨before, after ++ [c], by simp, fun b hb => ?_⟩
        rcases List.mem_append.1 hb with hb | hb
        · exact hafter b hb
        · rw [List.mem_singleton.1 hb, E.comm]
          simpa using hac
      · exact ⟨m, [], rfl, by simp⟩
    · rintro ⟨before, after, heq, hafter⟩
      rcases List.eq_nil_or_concat' after with rfl | ⟨after, c', rfl⟩
      · exact .inr (List.singleton_inj.1 (List.append_inj' heq rfl).2).symm
      · rw [← List.cons_append, ← List.append_assoc] at heq
        obtain ⟨rfl, hc⟩ := List.append_inj' heq rfl
        obtain rfl := List.singleton_inj.1 hc
        refine .inl ⟨⟨before, after, rfl, fun b hb => hafter b (by simp [hb])⟩, ?_⟩
        rw [E.comm, hafter c (by simp)]
        rfl

/-- Which keys a list has after `upsert`. -/
theorem any_upsert (k : κ) (l : List α) (a : α) :
    (CLib.upsert same key l a).any (fun b => same (key b) k) =
      (same (key a) k || l.any fun b => same (key b) k) := by
  cases ha : same (key a) k
  · -- what is deleted does not have the key `k`
    have hdel : ∀ l : List α, (CLib.eraseKey same key (key a) l).any (fun b => same (key b) k) =
        l.any fun b => same (key b) k := by
      intro l
      induction l with
      | nil => rfl
      | cons b l ih =>
        by_cases hb : same (key b) (key a) = true
        · have hbk : same (key b) k = false := by rw [E.congr k hb, ha]
          rw [eraseKey_cons_of_same hb, List.any_cons, hbk, Bool.false_or]
        · rw [eraseKey_cons_of_not_same hb, List.any_cons, List.any_cons, ih]
    rw [CLib.upsert, List.any_append, hdel]
    simp [ha]
  · simp [CLib.upsert, ha]

/-- Which keys a list has after its entries were put one by one. -/
theorem any_foldl_upsert (k : κ) (m : List α) : ∀ (l : List α),
    (m.foldl (CLib.upsert same key) l).any (fun b => same (key b) k) =
      (l.any (fun b => same (key b) k) || m.any fun b => same (key b) k) := by
  induction m with
  | nil => simp
  | cons a m ih =>
    intro l
    rw [List.foldl_cons, ih, any_upsert E, List.any_cons, Bool.or_comm (same (key a) k),
      Bool.or_assoc]

end CLib
