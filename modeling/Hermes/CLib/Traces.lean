import Mathlib.Data.List.Induction

/-!
# Traces of a system

A system with nondeterminism is a step function on states and actions : `step s a` is `none`
where `a` cannot be taken. `Trace step s log t` is a run from `s` to `t`, and `log` lists its
actions with the states they were taken in.

`Trace.invariant` is induction over a run. `Trace.forall_iff` is for a property that some
steps break : it holds in every state of a run just if every step of the run is a good one.
-/

namespace CLib

variable {σ α : Type*} {step : σ → α → Option σ}

/-- A run, its last step at the end of the log. -/
inductive Trace (step : σ → α → Option σ) (s : σ) : List (σ × α) → σ → Prop
  | start : Trace step s [] s
  | next {log t a u} (h : Trace step s log t) (hstep : step t a = some u) :
      Trace step s (log ++ [(t, a)]) u

/-- The states a run goes through. -/
def visited (log : List (σ × α)) (t : σ) : List σ :=
  log.map Prod.fst ++ [t]

@[simp] theorem visited_nil (t : σ) : visited ([] : List (σ × α)) t = [t] :=
  rfl

@[simp] theorem visited_append_singleton (log : List (σ × α)) (t u : σ) (a : α) :
    visited (log ++ [(t, a)]) u = visited log t ++ [u] := by
  simp [visited]

/-- Take the actions in turn. -/
def perform (step : σ → α → Option σ) (s : σ) (as : List α) : Option σ :=
  as.foldlM step s

@[simp] theorem perform_nil (s : σ) : perform step s [] = some s :=
  rfl

theorem perform_cons {s t : σ} {a : α} {as : List α} :
    perform step s (a :: as) = some t ↔ ∃ u, step s a = some u ∧ perform step u as = some t := by
  rw [perform, List.foldlM_cons, Option.bind_eq_bind, Option.bind_eq_some_iff]
  rfl

/-- Actions that lower a measure and keep an invariant come to an end. -/
theorem perform_length_le {I : σ → Prop} {good : α → Prop} {μ : σ → ℕ}
    (hstep : ∀ t a u, I t → good a → step t a = some u → I u ∧ μ u < μ t) :
    ∀ {as : List α} {s t : σ}, I s → (∀ a ∈ as, good a) → perform step s as = some t →
      I t ∧ μ t + as.length ≤ μ s
  | [], s, t, hI, _, h => by
    obtain rfl := Option.some.inj h
    exact ⟨hI, Nat.le_refl _⟩
  | a :: as, s, t, hI, hgood, h => by
    obtain ⟨u, hu, h⟩ := perform_cons.1 h
    obtain ⟨hIu, hlt⟩ := hstep s a u hI (hgood a (by simp)) hu
    obtain ⟨hIt, hle⟩ := perform_length_le hstep hIu (fun b hb => hgood b (by simp [hb])) h
    rw [List.length_cons]
    exact ⟨hIt, by omega⟩

namespace Trace

variable {s t : σ} {log : List (σ × α)}

/-- What holds at the start and is kept by every step holds at the end. -/
theorem invariant (h : Trace step s log t) {P : σ → Prop} (hs : P s)
    (hstep : ∀ t a u, P t → step t a = some u → P u) : P t := by
  induction h with
  | start => exact hs
  | next _ hu ih => exact hstep _ _ _ ih hu

/-- A property that holds at the start, and that a step keeps just if it is a good one, holds
in every state of a run just if every step of it is good. -/
theorem forall_iff (h : Trace step s log t) {I P : σ → Prop} {good : σ → α → Prop} (hI : I s)
    (hIstep : ∀ t a u, I t → step t a = some u → I u) (hP : P s)
    (hstep : ∀ t a u, I t → P t → step t a = some u → (P u ↔ good t a)) :
    (∀ u ∈ visited log t, P u) ↔ ∀ e ∈ log, good e.1 e.2 := by
  induction h with
  | start => simpa using hP
  | @next log t a u h hu ih =>
    have hIt := h.invariant hI hIstep
    rw [visited_append_singleton, List.forall_mem_append, List.forall_mem_append, ih,
      List.forall_mem_singleton, List.forall_mem_singleton]
    refine and_congr_right fun hgood => hstep t a u hIt ?_ hu
    exact ih.2 hgood t (by simp [visited])

/-- A run of one system is a run of another, if every step of the first is one of the second
from and to related states. -/
theorem simulate {σ' α' : Type*} {step' : σ' → α' → Option σ'} {R : σ → σ' → Prop} {f : α → α'}
    (h : Trace step s log t)
    (hstep : ∀ t t' a u, R t t' → step t a = some u → ∃ u', step' t' (f a) = some u' ∧ R u u')
    {s' : σ'} (hs : R s s') : ∃ log' t', Trace step' s' log' t' ∧
      log'.map Prod.snd = log.map (fun e => f e.2) ∧ R t t' := by
  induction h with
  | start => exact ⟨[], s', .start, rfl, hs⟩
  | next _ hu ih =>
    obtain ⟨log', t', hlog', hmap, ht⟩ := ih
    obtain ⟨u', hu', hrel⟩ := hstep _ _ _ _ ht hu
    exact ⟨_, u', .next hlog' hu', by simp [hmap], hrel⟩

/-- Actions that can be performed make a run. -/
theorem of_perform {as : List α} (h : perform step s as = some t) :
    ∃ log, Trace step s log t ∧ log.map Prod.snd = as := by
  induction as using List.reverseRecOn generalizing t with
  | nil => exact ⟨[], by cases h; exact .start, rfl⟩
  | append_singleton as a ih =>
    rw [perform, List.foldlM_append, Option.bind_eq_bind, Option.bind_eq_some_iff] at h
    obtain ⟨u, hu, hstep⟩ := h
    rw [List.foldlM_cons, Option.bind_eq_bind, Option.bind_eq_some_iff] at hstep
    obtain ⟨v, hv, hnil⟩ := hstep
    cases hnil
    obtain ⟨log, hlog, hmap⟩ := ih hu
    exact ⟨_, .next hlog hv, by simp [hmap]⟩

end Trace

end CLib
