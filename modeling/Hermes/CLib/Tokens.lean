import Mathlib.Algebra.Order.Ring.Nat
import Mathlib.Data.List.DropRight

/-!
# Tokens and trimming

`tokens sep l` is the list of the non-empty segments of `l` between separators, which is
what a loop over `strtok` visits. A text whose separators are repeated, leading or
trailing has the same tokens as a clean one. `trim p l` drops the `p` elements at both ends.

`foldUntil` is a loop over a list that its body may leave early.
-/

namespace CLib

variable {α σ : Type*}

/-- `dropWhile` stops at an element that fails the test. -/
theorem dropWhile_eq_cons {p : α → Bool} {l r : List α} {c : α} (h : l.dropWhile p = c :: r) :
    p c = false := by
  have hhead := List.head?_dropWhile_not p l
  simpa [h] using hhead

/-! ## Tokens -/

/-- The non-empty segments of `l` between separators. -/
def tokens (sep : α → Bool) (l : List α) : List (List α) :=
  (l.splitOnP sep).filter (!·.isEmpty)

variable {sep : α → Bool}

@[simp] theorem tokens_nil : tokens sep ([] : List α) = [] := by
  simp [tokens]

/-- A separator splits the tokens. -/
theorem tokens_append_cons {d : α} (hd : sep d = true) (l r : List α) :
    tokens sep (l ++ d :: r) = tokens sep l ++ tokens sep r := by
  simp [tokens, List.splitOnP_append_cons l r hd]

theorem tokens_cons_sep {d : α} (hd : sep d = true) (l : List α) :
    tokens sep (d :: l) = tokens sep l := by
  simpa using tokens_append_cons hd [] l

/-- A non-empty text without separators is one token. -/
theorem tokens_single {t : List α} (hne : t ≠ []) (ht : ∀ c ∈ t, sep c = false) :
    tokens sep t = [t] := by
  rw [tokens, List.splitOnP_eq_singleton ht]
  simp [hne]

/-- Leading separators add no token. -/
theorem tokens_seps_append :
    ∀ {seps : List α}, (∀ c ∈ seps, sep c = true) → ∀ l, tokens sep (seps ++ l) = tokens sep l
  | [], _, _ => rfl
  | c :: seps, h, l => by
    rw [List.cons_append, tokens_cons_sep (h c (by simp)),
      tokens_seps_append (fun d hd => h d (by simp [hd]))]

theorem tokens_seps {seps : List α} (h : ∀ c ∈ seps, sep c = true) : tokens sep seps = [] := by
  simpa using tokens_seps_append h []

/-- A token, then a separator, then the rest. -/
theorem tokens_token_cons {t : List α} (hne : t ≠ []) (ht : ∀ c ∈ t, sep c = false) {d : α}
    (hd : sep d = true) (l : List α) : tokens sep (t ++ d :: l) = t :: tokens sep l := by
  rw [tokens_append_cons hd, tokens_single hne ht, List.singleton_append]

/-- Where the next token of a text starts and ends : leading separators, the token, and a
rest that is empty or starts with a separator. -/
theorem exists_token (l : List α) (h : ¬∀ c ∈ l, sep c = true) :
    ∃ seps t r, l = seps ++ (t ++ r) ∧ (∀ c ∈ seps, sep c = true) ∧ t ≠ [] ∧
      (∀ c ∈ t, sep c = false) ∧ (r = [] ∨ ∃ d r', r = d :: r' ∧ sep d = true) := by
  refine ⟨l.takeWhile sep, (l.dropWhile sep).takeWhile (!sep ·),
    (l.dropWhile sep).dropWhile (!sep ·), by simp, fun c hc => List.mem_takeWhile_imp hc, ?_,
    fun c hc => by simpa using List.mem_takeWhile_imp hc, ?_⟩
  · cases hd : l.dropWhile sep with
    | nil => exact (h (List.dropWhile_eq_nil_iff.1 hd)).elim
    | cons c r =>
      rw [List.takeWhile_cons_of_pos (by simp [dropWhile_eq_cons hd])]
      exact List.cons_ne_nil _ _
  · cases hr : (l.dropWhile sep).dropWhile (!sep ·) with
    | nil => exact Or.inl rfl
    | cons d r' => exact Or.inr ⟨d, r', rfl, by simpa using dropWhile_eq_cons hr⟩

/-- The tokens of a text are its first one and those of the rest. -/
theorem tokens_of_split {seps t r : List α} (hs : ∀ c ∈ seps, sep c = true) (hne : t ≠ [])
    (ht : ∀ c ∈ t, sep c = false) (hr : r = [] ∨ ∃ d r', r = d :: r' ∧ sep d = true) :
    tokens sep (seps ++ (t ++ r)) = t :: tokens sep r := by
  rw [tokens_seps_append hs]
  rcases hr with rfl | ⟨d, r', rfl, hd⟩
  · rw [List.append_nil, tokens_single hne ht, tokens_nil]
  · rw [tokens_token_cons hne ht hd, tokens_cons_sep hd]

theorem tokens_eq_nil_iff {l : List α} : tokens sep l = [] ↔ ∀ c ∈ l, sep c = true := by
  refine ⟨fun h => ?_, tokens_seps⟩
  by_contra hl
  obtain ⟨seps, t, r, rfl, hs, hne, ht, hr⟩ := exists_token l hl
  rw [tokens_of_split hs hne ht hr] at h
  exact List.cons_ne_nil _ _ h

/-- Induction on the tokens of a text. -/
theorem tokens_ind (sep : α → Bool) {motive : List α → Prop} (nil : ∀ l, (∀ c ∈ l, sep c = true) → motive l)
    (token : ∀ seps t r, (∀ c ∈ seps, sep c = true) → t ≠ [] → (∀ c ∈ t, sep c = false) →
      (r = [] ∨ ∃ d r', r = d :: r' ∧ sep d = true) → motive r → motive (seps ++ (t ++ r)))
    (l : List α) : motive l := by
  induction hn : l.length using Nat.strong_induction_on generalizing l with
  | _ n ih =>
    by_cases hl : ∀ c ∈ l, sep c = true
    · exact nil l hl
    · obtain ⟨seps, t, r, rfl, hs, hne, ht, hr⟩ := exists_token l hl
      refine token seps t r hs hne ht hr (ih r.length ?_ r rfl)
      have := List.length_pos_iff.2 hne
      simp only [List.length_append] at hn
      omega

/-- A token is non-empty and holds bytes of the text that are no separators. -/
theorem mem_tokens {l t : List α} (h : t ∈ tokens sep l) :
    t ≠ [] ∧ ∀ c ∈ t, sep c = false ∧ c ∈ l := by
  induction l using tokens_ind sep with
  | nil l hl => simp [tokens_seps hl] at h
  | token seps t' r hs hne ht hr ih =>
    rw [tokens_of_split hs hne ht hr, List.mem_cons] at h
    rcases h with rfl | h
    · exact ⟨hne, fun c hc => ⟨ht c hc, by simp [hc]⟩⟩
    · obtain ⟨h1, h2⟩ := ih h
      exact ⟨h1, fun c hc => ⟨(h2 c hc).1, by simp [(h2 c hc).2]⟩⟩

/-- What is no separator is in a token. -/
theorem exists_mem_tokens {l : List α} {c : α} (hc : c ∈ l) (hsep : sep c = false) :
    ∃ t ∈ tokens sep l, c ∈ t := by
  induction l using tokens_ind sep with
  | nil l hl => simp [hl c hc] at hsep
  | token seps t r hs hne ht hr ih =>
    rw [tokens_of_split hs hne ht hr]
    rcases List.mem_append.1 hc with hc | hc
    · simp [hs c hc] at hsep
    · rcases List.mem_append.1 hc with hc | hc
      · exact ⟨t, by simp, hc⟩
      · obtain ⟨u, hu, hcu⟩ := ih hc
        exact ⟨u, List.mem_cons_of_mem t hu, hcu⟩

/-- The segments of a text, each with a separator, are as long as the text with one more. -/
theorem sum_length_splitOnP (sep : α → Bool) (l : List α) :
    ((l.splitOnP sep).map fun t => t.length + 1).sum = l.length + 1 := by
  induction l with
  | nil => simp
  | cons c l ih =>
    obtain ⟨t, ts, hts⟩ := List.exists_cons_of_ne_nil (List.splitOnP_ne_nil sep l)
    rw [hts] at ih
    rw [List.splitOnP_cons_eq_if_modifyHead, hts]
    split_ifs
    · simp only [List.map_cons, List.sum_cons, List.length_nil, List.length_cons] at ih ⊢
      omega
    · simp only [List.modifyHead_cons, List.map_cons, List.sum_cons, List.length_cons] at ih ⊢
      omega

/-- Tokens, each with a separator, are no longer than the text with one more, and as long just
if no two separators meet, none leads and none trails. -/
theorem sum_length_tokens (sep : α → Bool) (l : List α) :
    ((tokens sep l).map fun t => t.length + 1).sum ≤ l.length + 1 ∧
      (((tokens sep l).map fun t => t.length + 1).sum = l.length + 1 ↔ [] ∉ l.splitOnP sep) := by
  have hfilter : ∀ ts : List (List α),
      ((ts.filter (!·.isEmpty)).map fun t => t.length + 1).sum + ts.countP List.isEmpty =
        (ts.map fun t => t.length + 1).sum := by
    intro ts
    induction ts with
    | nil => rfl
    | cons t ts ih =>
      cases t with
      | nil => simp [← ih]; omega
      | cons c t => simp [← ih]; omega
  have hempty : [] ∉ l.splitOnP sep ↔ (l.splitOnP sep).countP List.isEmpty = 0 := by
    rw [List.countP_eq_zero]
    exact ⟨fun h t ht h0 => h (List.isEmpty_iff.1 h0 ▸ ht), fun h h0 => h [] h0 rfl⟩
  have hsum := hfilter (l.splitOnP sep)
  rw [sum_length_splitOnP] at hsum
  rw [hempty, tokens]
  omega

/-- Tokens that each end at a separator. -/
theorem tokens_flatMap_append {d : α} (hd : sep d = true) :
    ∀ (ts : List (List α)), (∀ t ∈ ts, t ≠ [] ∧ ∀ c ∈ t, sep c = false) →
      tokens sep (ts.flatMap fun t => t ++ [d]) = ts
  | [], _ => by simp
  | t :: ts, h => by
    obtain ⟨hne, ht⟩ := h t (by simp)
    have ih := tokens_flatMap_append hd ts fun u hu => h u (List.mem_cons_of_mem t hu)
    rw [List.flatMap_cons, List.append_assoc, List.singleton_append, tokens_token_cons hne ht hd, ih]

/-- Tokens with a separator in front of each but the first. -/
theorem tokens_append_flatMap_cons {d : α} (hd : sep d = true) :
    ∀ (t : List α) (ts : List (List α)), (∀ u ∈ t :: ts, u ≠ [] ∧ ∀ c ∈ u, sep c = false) →
      tokens sep (t ++ ts.flatMap fun u => d :: u) = t :: ts
  | t, [], h => by
    obtain ⟨hne, ht⟩ := h t (by simp)
    rw [List.flatMap_nil, List.append_nil, tokens_single hne ht]
  | t, u :: ts, h => by
    obtain ⟨hne, ht⟩ := h t (by simp)
    have ih := tokens_append_flatMap_cons hd u ts fun v hv => h v (List.mem_cons_of_mem t hv)
    rw [List.flatMap_cons, List.cons_append, tokens_token_cons hne ht hd, ih]

/-! ## Trimming -/

/-- `l` without the `p` elements at its ends. -/
def trim (p : α → Bool) (l : List α) : List α :=
  (l.dropWhile p).rdropWhile p

/-- Neither end of `l` is a `p` element. -/
def Trimmed (p : α → Bool) (l : List α) : Prop :=
  (∀ c ∈ l.head?, p c = false) ∧ ∀ c ∈ l.getLast?, p c = false

instance (p : α → Bool) (l : List α) : Decidable (Trimmed p l) :=
  inferInstanceAs (Decidable (_ ∧ _))

variable {p : α → Bool}

theorem trim_eq_self {l : List α} (h : Trimmed p l) : trim p l = l := by
  have hd : l.dropWhile p = l := by
    cases l with
    | nil => rfl
    | cons c l => exact List.dropWhile_cons_of_neg (by simpa using h.1 c rfl)
  rw [trim, hd, List.rdropWhile_eq_self_iff]
  intro hne
  simpa using h.2 _ (List.getLast_mem_getLast? hne)

theorem trimmed_trim (p : α → Bool) (l : List α) : Trimmed p (trim p l) := by
  constructor
  · intro c hc
    obtain ⟨s, hs⟩ : trim p l <+: l.dropWhile p := List.rdropWhile_prefix p _
    cases ht : trim p l with
    | nil => simp [ht] at hc
    | cons a t =>
      obtain rfl : a = c := by simpa [ht] using hc
      rw [ht, List.cons_append] at hs
      exact dropWhile_eq_cons hs.symm
  · intro c hc
    have hne : trim p l ≠ [] := by
      intro h
      simp [h] at hc
    have hlast : ¬p ((trim p l).getLast hne) := List.rdropWhile_last_not p _ hne
    obtain rfl : (trim p l).getLast hne = c := by
      simpa [List.getLast?_eq_some_getLast hne] using hc
    simpa using hlast

theorem mem_of_mem_trim {l : List α} {c : α} (h : c ∈ trim p l) : c ∈ l := by
  have hpre : trim p l <+: l.dropWhile p := List.rdropWhile_prefix p _
  exact (List.dropWhile_suffix p).subset (hpre.subset h)

/-- Trimming cuts a `p` block off each end. -/
theorem exists_trim (p : α → Bool) (l : List α) :
    ∃ a b, l = a ++ (trim p l ++ b) ∧ (∀ c ∈ a, p c = true) ∧ ∀ c ∈ b, p c = true := by
  refine ⟨l.takeWhile p, (l.dropWhile p).rtakeWhile p, ?_, fun c => List.mem_takeWhile_imp,
    fun c => List.mem_rtakeWhile_imp⟩
  rw [trim, List.rdropWhile_append_rtakeWhile, List.takeWhile_append_dropWhile]

theorem length_trim_le (p : α → Bool) (l : List α) : (trim p l).length ≤ l.length := by
  obtain ⟨a, b, h, -, -⟩ := exists_trim p l
  have := congrArg List.length h
  simp only [List.length_append] at this
  omega

/-- Trimming keeps the length of what has nothing to trim. -/
theorem length_trim_eq_iff {l : List α} : (trim p l).length = l.length ↔ Trimmed p l := by
  refine ⟨fun h => ?_, fun h => by rw [trim_eq_self h]⟩
  obtain ⟨a, b, hl, -, -⟩ := exists_trim p l
  have hlen := congrArg List.length hl
  rw [List.length_append, List.length_append] at hlen
  obtain rfl : a = [] := List.length_eq_zero_iff.1 (by omega)
  obtain rfl : b = [] := List.length_eq_zero_iff.1 (by omega)
  rw [List.nil_append, List.append_nil] at hl
  rw [hl]
  exact trimmed_trim p l

/-! ## Loops that may stop early -/

/-- Run `step` over `l` while it says to go on. -/
def foldUntil (step : σ → α → σ × Bool) : σ → List α → σ
  | s, [] => s
  | s, a :: l => if (step s a).2 then foldUntil step (step s a).1 l else (step s a).1

@[simp] theorem foldUntil_nil (step : σ → α → σ × Bool) (s : σ) : foldUntil step s [] = s :=
  rfl

theorem foldUntil_go {step : σ → α → σ × Bool} {s s' : σ} {a : α} (h : step s a = (s', true))
    (l : List α) : foldUntil step s (a :: l) = foldUntil step s' l := by
  simp [foldUntil, h]

theorem foldUntil_stop {step : σ → α → σ × Bool} {s s' : σ} {a : α} (h : step s a = (s', false))
    (l : List α) : foldUntil step s (a :: l) = s' := by
  simp [foldUntil, h]

/-- What every step keeps, the loop keeps. -/
theorem foldUntil_invariant {step : σ → α → σ × Bool} {P : σ → Prop}
    (hstep : ∀ s a, P s → P (step s a).1) :
    ∀ (l : List α) (s : σ), P s → P (foldUntil step s l)
  | [], _, hs => hs
  | a :: l, s, hs => by
    unfold foldUntil
    split_ifs
    · exact foldUntil_invariant hstep l _ (hstep s a hs)
    · exact hstep s a hs

end CLib
