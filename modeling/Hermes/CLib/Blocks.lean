import Mathlib.Data.List.Basic
import Mathlib.Tactic.Ring

/-!
# Absorbing a text block by block

A digest keeps a state `σ` and feeds it blocks of `n` elements, `f s block` after `f s block`.
An implementation is given the text in pieces, so it holds elements back until they fill a
block. How many it holds back is its own choice : `Streamed` says only that what it has
absorbed is a whole number of blocks from the start of the text and what it holds is the rest.
A piece can be held (`Streamed.hold`), whole blocks at the front of what is held can be
absorbed (`Streamed.absorb`), and `Streamed.finish` gives the digest of the whole text,
whatever the pieces were.
-/

namespace CLib

section Blocks

variable {σ β : Type} {n : ℕ} {f : σ → List β → σ}

/-- `k` blocks of `n` elements, from the left. -/
def foldBlocks (n : ℕ) (f : σ → List β → σ) : ℕ → List β → σ → σ
  | 0, _, s => s
  | k + 1, l, s => foldBlocks n f k (l.drop n) (f s (l.take n))

/-- All the whole blocks of a text, from the left. -/
def absorb (n : ℕ) (f : σ → List β → σ) (s : σ) (l : List β) : σ :=
  foldBlocks n f (l.length / n) l s

theorem foldBlocks_add (j k : ℕ) : ∀ (l : List β) (s : σ),
    foldBlocks n f (j + k) l s = foldBlocks n f k (l.drop (n * j)) (foldBlocks n f j l s) := by
  induction j with
  | zero => simp [foldBlocks]
  | succ j ih =>
    intro l s
    rw [Nat.add_right_comm, foldBlocks, ih, foldBlocks, List.drop_drop]
    congr 2
    ring

/-- Blocks are read from the front. -/
theorem foldBlocks_append (b : List β) : ∀ (k : ℕ) (a : List β) (s : σ), n * k ≤ a.length →
    foldBlocks n f k (a ++ b) s = foldBlocks n f k a s
  | 0, _, _, _ => rfl
  | k + 1, a, s, h => by
    rw [Nat.mul_succ] at h
    rw [foldBlocks, foldBlocks, List.take_append_of_le_length (by omega),
      List.drop_append_of_le_length (by omega)]
    exact foldBlocks_append b k (a.drop n) _ (by rw [List.length_drop]; omega)

@[simp] theorem absorb_nil (s : σ) : absorb n f s [] = s := by
  simp [absorb, foldBlocks]

/-- Whole blocks in front are absorbed first. -/
theorem absorb_append (hn : 0 < n) {a : List β} (ha : n ∣ a.length) (b : List β) (s : σ) :
    absorb n f s (a ++ b) = absorb n f (absorb n f s a) b := by
  obtain ⟨k, hk⟩ := ha
  have hdiv : a.length / n = k := by rw [hk, Nat.mul_div_cancel_left k hn]
  have hsum : (a ++ b).length / n = k + b.length / n := by
    rw [List.length_append, hk, Nat.mul_add_div hn]
  rw [absorb, hsum, foldBlocks_add, foldBlocks_append b k a s hk.ge, ← hk, List.drop_left, absorb,
    absorb, hdiv]

/-- The whole blocks of a text, as one piece. -/
def wholeBlocks (n : ℕ) (l : List β) : List β :=
  l.take (n * (l.length / n))

/-- What stands behind the whole blocks of a text. -/
def lastPart (n : ℕ) (l : List β) : List β :=
  l.drop (n * (l.length / n))

theorem wholeBlocks_append_lastPart (n : ℕ) (l : List β) : wholeBlocks n l ++ lastPart n l = l :=
  List.take_append_drop _ l

theorem length_wholeBlocks (n : ℕ) (l : List β) :
    (wholeBlocks n l).length = n * (l.length / n) := by
  rw [wholeBlocks, List.length_take, Nat.min_eq_left (Nat.mul_div_le _ _)]

theorem dvd_length_wholeBlocks (n : ℕ) (l : List β) : n ∣ (wholeBlocks n l).length :=
  ⟨_, length_wholeBlocks n l⟩

theorem length_lastPart (n : ℕ) (l : List β) : (lastPart n l).length = l.length % n := by
  rw [lastPart, List.length_drop]
  have := Nat.div_add_mod l.length n
  omega

variable {s₀ s : σ} {text held : List β}

/-- Of `text`, whole blocks are absorbed in `s`, and `held` is the rest. -/
def Streamed (n : ℕ) (f : σ → List β → σ) (s₀ : σ) (text : List β) (s : σ) (held : List β) :
    Prop :=
  ∃ done, done ++ held = text ∧ n ∣ done.length ∧ absorb n f s₀ done = s

theorem Streamed.start (n : ℕ) (f : σ → List β → σ) (s₀ : σ) : Streamed n f s₀ [] s₀ [] :=
  ⟨[], rfl, by simp, by simp⟩

/-- A piece is held. -/
theorem Streamed.hold (h : Streamed n f s₀ text s held) (piece : List β) :
    Streamed n f s₀ (text ++ piece) s (held ++ piece) := by
  obtain ⟨done, rfl, hdvd, hs⟩ := h
  exact ⟨done, (List.append_assoc _ _ _).symm, hdvd, hs⟩

/-- Whole blocks at the front of what is held are absorbed. -/
theorem Streamed.absorb (hn : 0 < n) {blocks : List β} (hb : n ∣ blocks.length)
    (h : Streamed n f s₀ text s (blocks ++ held)) :
    Streamed n f s₀ text (absorb n f s blocks) held := by
  obtain ⟨done, rfl, hdvd, rfl⟩ := h
  refine ⟨done ++ blocks, List.append_assoc _ _ _, ?_, absorb_append hn hdvd blocks s₀⟩
  rw [List.length_append]
  exact Nat.dvd_add hdvd hb

/-- What is absorbed behind the text is absorbed behind what is held. -/
theorem Streamed.finish (hn : 0 < n) (h : Streamed n f s₀ text s held) (tail : List β) :
    CLib.absorb n f s (held ++ tail) = CLib.absorb n f s₀ (text ++ tail) := by
  obtain ⟨done, rfl, hdvd, rfl⟩ := h
  rw [List.append_assoc, absorb_append hn hdvd]

theorem Streamed.length_le (h : Streamed n f s₀ text s held) : held.length ≤ text.length := by
  obtain ⟨done, rfl, -, -⟩ := h
  simp

end Blocks

end CLib
