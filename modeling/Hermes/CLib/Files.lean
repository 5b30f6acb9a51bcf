import Mathlib.Data.Int.Order.Basic
import Mathlib.Data.List.Basic
import Mathlib.Data.List.Pairwise
import Mathlib.Data.List.TakeDrop
import Mathlib.Logic.Function.Basic

/-!
# Files written at offsets

`overlay old off data` is what `pwrite` makes of the bytes `old` of a file. Writes one behind the
other are one write (`overlay_append`), and writes to disjoint ranges commute (`overlay_comm`),
also when they leave holes.

`Disk` is the files of a system with the schedule by which it serves the coming calls : whether
an `open` succeeds, and how many bytes a `pread` or `pwrite` transfers.
-/

namespace CLib

/-! ## The bytes of a file -/

/-- The bytes `old` of a file after `data` is written at `off`. A hole reads as zeros, and
writing nothing changes nothing. -/
def overlay (old : List UInt8) (off : ℕ) (data : List UInt8) : List UInt8 :=
  if data = [] then old
  else (old ++ List.replicate (off - old.length) 0).take off ++ data ++
    old.drop (off + data.length)

section Overlay

variable {old a b : List UInt8} {off off' : ℕ}

@[simp] theorem overlay_nil (old : List UInt8) (off : ℕ) : overlay old off [] = old :=
  if_pos rfl

/-- A write from the start. -/
theorem overlay_zero (old a : List UInt8) : overlay old 0 a = a ++ old.drop a.length := by
  unfold overlay
  split_ifs with ha
  · simp [ha]
  · simp

/-- The bytes after a write. -/
theorem getElem?_overlay (ha : a ≠ []) (old : List UInt8) (off i : ℕ) :
    (overlay old off a)[i]? =
      if i < off then some (old[i]?.getD 0)
      else if i < off + a.length then a[i - off]?
      else old[i]? := by
  have hlen : ((old ++ List.replicate (off - old.length) 0).take off).length = off := by
    rw [List.length_take, List.length_append, List.length_replicate]
    omega
  rw [overlay, if_neg ha, List.append_assoc, List.getElem?_append, hlen]
  by_cases hi : i < off
  · rw [if_pos hi, if_pos hi, List.getElem?_take_of_lt hi, List.getElem?_append]
    split_ifs with hold
    · rw [List.getElem?_eq_getElem hold, Option.getD_some]
    · rw [List.getElem?_replicate_of_lt (by omega), List.getElem?_eq_none (by omega), Option.getD_none]
  · rw [if_neg hi, if_neg hi, List.getElem?_append]
    by_cases hmid : i < off + a.length
    · rw [if_pos (by omega), if_pos hmid]
    · rw [if_neg (by omega), if_neg hmid, List.getElem?_drop]
      congr 1
      omega

/-- Two writes, one behind the other. -/
theorem overlay_append (old a b : List UInt8) (off : ℕ) :
    overlay (overlay old off a) (off + a.length) b = overlay old off (a ++ b) := by
  rcases eq_or_ne a [] with rfl | ha
  · simp
  rcases eq_or_ne b [] with rfl | hb
  · simp
  have hab : a ++ b ≠ [] := by simp [ha]
  refine List.ext_getElem? fun i => ?_
  rw [getElem?_overlay hb, getElem?_overlay hab, getElem?_overlay ha, List.length_append]
  by_cases h1 : i < off
  · rw [if_pos (by omega), if_pos h1, if_pos h1, Option.getD_some]
  · simp only [if_neg h1]
    by_cases h2 : i < off + a.length
    · rw [if_pos h2, if_pos h2, if_pos (by omega), List.getElem?_append_left (by omega),
        List.getElem?_eq_getElem (by omega), Option.getD_some]
    · rw [if_neg h2, if_neg h2, List.getElem?_append_right (by omega), Nat.sub_sub, Nat.add_assoc]

/-- Writes to disjoint ranges, in either order. -/
theorem overlay_comm (old : List UInt8) (h : off + a.length ≤ off' ∨ off' + b.length ≤ off) :
    overlay (overlay old off a) off' b = overlay (overlay old off' b) off a := by
  rcases eq_or_ne a [] with rfl | ha
  · simp
  rcases eq_or_ne b [] with rfl | hb
  · simp
  have hla := List.length_pos_iff.2 ha
  have hlb := List.length_pos_iff.2 hb
  refine List.ext_getElem? fun i => ?_
  rw [getElem?_overlay hb, getElem?_overlay ha, getElem?_overlay ha, getElem?_overlay hb]
  -- the byte is of one of the writes, or in front of one, or of neither
  by_cases h1 : i < off <;> by_cases h2 : i < off'
  · simp only [if_pos h1, if_pos h2, Option.getD_some]
  · simp only [if_pos h1, if_neg h2]
    by_cases h3 : i < off' + b.length
    · simp only [if_pos h3]
      rw [List.getElem?_eq_getElem (by omega), Option.getD_some]
    · simp only [if_neg h3]
  · simp only [if_neg h1, if_pos h2]
    by_cases h3 : i < off + a.length
    · simp only [if_pos h3]
      rw [List.getElem?_eq_getElem (by omega), Option.getD_some]
    · simp only [if_neg h3]
  · simp only [if_neg h1, if_neg h2]
    by_cases h3 : i < off' + b.length
    · rw [if_pos h3, if_pos h3, if_neg (by omega)]
    · rw [if_neg h3, if_neg h3]

/-! ## Many writes -/

/-- The bytes `old` of a file after writes at offsets. -/
def writeAll (old : List UInt8) (writes : List (ℕ × List UInt8)) : List UInt8 :=
  writes.foldl (fun old p => overlay old p.1 p.2) old

/-- Two writes to disjoint ranges. -/
def Apart (p q : ℕ × List UInt8) : Prop :=
  p.1 + p.2.length ≤ q.1 ∨ q.1 + q.2.length ≤ p.1

instance : Std.Symm Apart :=
  ⟨fun _ _ h => Or.symm h⟩

/-- Writes to disjoint ranges, in any order. -/
theorem writeAll_perm {ps qs : List (ℕ × List UInt8)} (h : ps.Pairwise Apart) (hp : ps.Perm qs)
    (old : List UInt8) : writeAll old ps = writeAll old qs := by
  refine hp.foldl_eq' (fun p hmem q hmem' old => ?_) old
  by_cases hpq : p = q
  · rw [hpq]
  · exact overlay_comm old (h.forall hmem hmem' hpq)

/-- `parts` are the bytes `bytes`, which stand at `off`, cut into pieces. -/
inductive Pieces : ℕ → List UInt8 → List (ℕ × List UInt8) → Prop
  | nil {off : ℕ} : Pieces off [] []
  | cons {off : ℕ} {a b : List UInt8} {parts : List (ℕ × List UInt8)} (ha : a ≠ [])
      (h : Pieces (off + a.length) b parts) : Pieces off (a ++ b) ((off, a) :: parts)

namespace Pieces

variable {bytes : List UInt8} {parts : List (ℕ × List UInt8)}

/-- Writing the pieces is writing the bytes. -/
theorem writeAll (h : Pieces off bytes parts) (old : List UInt8) :
    writeAll old parts = overlay old off bytes := by
  induction h generalizing old with
  | nil => simp [CLib.writeAll]
  | @cons off a b parts ha h ih =>
    rw [← overlay_append, ← ih]
    rfl

theorem mem (h : Pieces off bytes parts) {p : ℕ × List UInt8} (hp : p ∈ parts) :
    p.2 ≠ [] ∧ off ≤ p.1 ∧ p.1 + p.2.length ≤ off + bytes.length := by
  induction h with
  | nil => simp at hp
  | @cons off a b parts ha h ih =>
    rw [List.length_append]
    rcases List.mem_cons.1 hp with rfl | hp
    · exact ⟨ha, Nat.le_refl off, by dsimp only; omega⟩
    · obtain ⟨h1, h2, h3⟩ := ih hp
      exact ⟨h1, by omega, by omega⟩

/-- The pieces are apart. -/
theorem apart (h : Pieces off bytes parts) : parts.Pairwise Apart := by
  induction h with
  | nil => exact List.Pairwise.nil
  | cons ha h ih => exact List.Pairwise.cons (fun p hp => .inl (h.mem hp).2.1) ih

/-- There are no pieces of nothing. -/
theorem eq_nil_iff (h : Pieces off bytes parts) : parts = [] ↔ bytes = [] := by
  cases h with
  | nil => simp
  | cons ha h => simp [ha]

end Pieces

end Overlay

/-! ## The files of a system -/

/-- Files, and how the coming calls are served. -/
structure Disk (ν : Type) where
  files : ν → Option (List UInt8)
  /-- Whether each coming `open` succeeds. -/
  opened : ℕ → Bool
  /-- `none` is a failure, `some k` transfers at most `k + 1` bytes. -/
  transfers : ℕ → Option ℕ

namespace Disk

variable {ν : Type}

/-- What a file holds, nothing if there is none. -/
def held (d : Disk ν) (name : ν) : List UInt8 :=
  (d.files name).getD []

/-- The disk after an `open`. -/
def afterOpen (d : Disk ν) : Disk ν :=
  { d with opened := fun i => d.opened (i + 1) }

/-- The disk after a transfer. -/
def afterTransfer (d : Disk ν) : Disk ν :=
  { d with transfers := fun i => d.transfers (i + 1) }

/-- `open(name, O_RDONLY)` : whether it succeeds. -/
def openRead (d : Disk ν) (name : ν) : Bool × Disk ν :=
  (d.opened 0 && (d.files name).isSome, d.afterOpen)

/-- `pread` of at most `n` bytes from the file `name`, which is open : `none` for `-1`. -/
def pread (d : Disk ν) (name : ν) (n : ℕ) (off : ℤ) : Option (List UInt8) × Disk ν :=
  match d.transfers 0 with
  | none => (none, d.afterTransfer)
  | some k =>
    if off < 0 then (none, d.afterTransfer)
    else (some (((d.held name).drop off.toNat).take (min n (k + 1))), d.afterTransfer)

section Write

variable [DecidableEq ν]

/-- The disk with the file `name` set. -/
def setFile (d : Disk ν) (name : ν) (bytes : List UInt8) : Disk ν :=
  { d with files := Function.update d.files name (some bytes) }

@[simp] theorem held_setFile (d : Disk ν) (name : ν) (bytes : List UInt8) :
    (d.setFile name bytes).held name = bytes := by
  simp [held, setFile]

/-- The last of two settings of a file. -/
@[simp] theorem files_setFile_afterTransfer_setFile (d : Disk ν) (name : ν) (old new : List UInt8) :
    ((d.setFile name old).afterTransfer.setFile name new).files =
      Function.update d.files name (some new) :=
  Function.update_idem _ _ _

/-- `open(name, O_WRONLY | O_CREAT)` : whether it succeeds. It makes the file if there is none,
and keeps the bytes of one that is there. -/
def openWrite (d : Disk ν) (name : ν) : Bool × Disk ν :=
  if d.opened 0 then (true, d.afterOpen.setFile name (d.held name))
  else (false, d.afterOpen)

/-- `pwrite` to the file `name`, which is open : the number of bytes written, `none` for `-1`. -/
def pwrite (d : Disk ν) (name : ν) (data : List UInt8) (off : ℤ) : Option ℕ × Disk ν :=
  match d.transfers 0 with
  | none => (none, d.afterTransfer)
  | some k =>
    if off < 0 then (none, d.afterTransfer)
    else (some (min data.length (k + 1)), d.afterTransfer.setFile name
      (overlay (d.held name) off.toNat (data.take (k + 1))))

end Write

/-- Every `open` succeeds, and every transfer is of `n` bytes if so many are asked for. -/
structure Serves (d : Disk ν) (n : ℕ) : Prop where
  opened : ∀ i, d.opened i = true
  transfers : ∀ i, ∃ k, d.transfers i = some k ∧ n ≤ k + 1

namespace Serves

variable {d : Disk ν} {n : ℕ} (h : d.Serves n)
include h

theorem afterOpen : d.afterOpen.Serves n :=
  ⟨fun i => h.opened (i + 1), h.transfers⟩

theorem afterTransfer : d.afterTransfer.Serves n :=
  ⟨h.opened, fun i => h.transfers (i + 1)⟩

theorem openRead {name : ν} (hfile : (d.files name).isSome = true) :
    d.openRead name = (true, d.afterOpen) := by
  rw [Disk.openRead, h.opened, hfile]
  rfl

theorem pread (name : ν) {k : ℕ} (hk : k ≤ n) (off : ℕ) :
    d.pread name k off = (some (((d.held name).drop off).take k), d.afterTransfer) := by
  obtain ⟨m, hm, hn⟩ := h.transfers 0
  have hmin : min k (m + 1) = k := by omega
  rw [Disk.pread, hm]
  dsimp only
  rw [if_neg (by omega), Int.toNat_natCast, hmin]

variable [DecidableEq ν]

theorem setFile (name : ν) (bytes : List UInt8) : (d.setFile name bytes).Serves n :=
  ⟨h.opened, h.transfers⟩

theorem openWrite (name : ν) :
    d.openWrite name = (true, d.afterOpen.setFile name (d.held name)) :=
  if_pos (h.opened 0)

theorem pwrite (name : ν) {data : List UInt8} (hlen : data.length ≤ n) (off : ℕ) :
    d.pwrite name data off = (some data.length, d.afterTransfer.setFile name
      (overlay (d.held name) off data)) := by
  obtain ⟨m, hm, hn⟩ := h.transfers 0
  rw [Disk.pwrite, hm]
  dsimp only
  rw [if_neg (by omega), Int.toNat_natCast, Nat.min_eq_left (by omega),
    List.take_of_length_le (by omega)]

end Serves

end Disk

end CLib
