import Mathlib.Data.List.GetD
import Mathlib.Tactic.Ring

/-!
# Sparse image files

A disk image is a sparse file : which sectors are allocated, and the bytes. Bytes of a
hole read as zero, and the structure keeps that fact. Reading and writing are the
positioned calls of the operating system, `punchHole` is `fallocate` with
`FALLOC_FL_PUNCH_HOLE` and `FALLOC_FL_KEEP_SIZE` : it zeroes the range and frees the
sectors that lie wholly inside it. `Fiemap` on one sector is non-empty exactly when the
sector is allocated.

Buffers are byte lists. `splice` writes into a slice of one, `bytesFrom` is the range of
an image that a read returns.
-/

namespace Jiva

abbrev Byte := UInt8

/-- Sector size of the location table, in bytes. -/
def defaultSectorSize : ℕ := 4096

theorem defaultSectorSize_eq : defaultSectorSize = 4096 :=
  rfl

theorem mod_sector_lt (b : ℕ) : b % defaultSectorSize < defaultSectorSize :=
  Nat.mod_lt b (by decide)

theorem mul_sector_div (k : ℕ) : k * defaultSectorSize / defaultSectorSize = k :=
  Nat.mul_div_cancel k (by decide)

/-! ## Buffers -/

/-- `len` bytes of the image `img`, from byte `off`. -/
def bytesFrom (img : ℕ → Byte) (off len : ℕ) : List Byte :=
  (List.range len).map fun k => img (off + k)

@[simp] theorem length_bytesFrom (img : ℕ → Byte) (off len : ℕ) :
    (bytesFrom img off len).length = len := by
  simp [bytesFrom]

theorem getD_bytesFrom (img : ℕ → Byte) (off : ℕ) {len k : ℕ} (hk : k < len) :
    (bytesFrom img off len).getD k 0 = img (off + k) := by
  simp [bytesFrom, List.getD_eq_getElem?_getD, hk]

theorem bytesFrom_congr {img img' : ℕ → Byte} {off len : ℕ}
    (h : ∀ b, off ≤ b → b < off + len → img b = img' b) :
    bytesFrom img off len = bytesFrom img' off len :=
  List.map_congr_left fun k hk => h _ (by omega) (by have := List.mem_range.1 hk; omega)

theorem eq_bytesFrom {buf : List Byte} {img : ℕ → Byte} {off len : ℕ} (hlen : buf.length = len)
    (h : ∀ k, k < len → buf.getD k 0 = img (off + k)) : buf = bytesFrom img off len := by
  refine List.ext_getElem (by simp [hlen]) fun k hk hk' => ?_
  have hk2 : k < len := by omega
  have h1 := h k hk2
  rw [← getD_bytesFrom img off hk2, List.getD_eq_getElem _ _ hk, List.getD_eq_getElem _ _ hk'] at h1
  exact h1

/-- `copy(buf[start:], new)` : `new` replaces the bytes of `buf` from `start` on. -/
def splice (buf : List Byte) (start : ℕ) (new : List Byte) : List Byte :=
  buf.take start ++ new ++ buf.drop (start + new.length)

theorem length_splice {buf new : List Byte} {start : ℕ} (h : start + new.length ≤ buf.length) :
    (splice buf start new).length = buf.length := by
  simp [splice]
  omega

theorem getD_splice {buf new : List Byte} {start : ℕ} (h : start + new.length ≤ buf.length)
    (k : ℕ) : (splice buf start new).getD k 0 =
      if start ≤ k ∧ k < start + new.length then new.getD (k - start) 0 else buf.getD k 0 := by
  have hst : (buf.take start).length = start := by simp; omega
  unfold splice
  simp only [List.getD_eq_getElem?_getD, List.append_assoc]
  rcases Nat.lt_or_ge k start with hk | hk
  · rw [List.getElem?_append_left (by omega), if_neg (by omega), List.getElem?_take_of_lt hk]
  · rw [List.getElem?_append_right (by omega), hst]
    rcases Nat.lt_or_ge (k - start) new.length with hn | hn
    · rw [List.getElem?_append_left hn, if_pos (by omega)]
    · rw [List.getElem?_append_right hn, if_neg (by omega), List.getElem?_drop]
      congr 2
      omega

theorem getD_take {buf : List Byte} {n k : ℕ} (h : k < n) :
    (buf.take n).getD k 0 = buf.getD k 0 := by
  simp [List.getD_eq_getElem?_getD, List.getElem?_take_of_lt h]

theorem getD_drop (buf : List Byte) (n k : ℕ) : (buf.drop n).getD k 0 = buf.getD (n + k) 0 := by
  simp [List.getD_eq_getElem?_getD]

/-! ## Files -/

/-- A sparse file. Bytes of an unallocated sector are zero. -/
structure SparseFile where
  size : ℕ
  alloc : ℕ → Bool
  data : ℕ → Byte
  hole_zero : ∀ b, alloc (b / defaultSectorSize) = false → data b = 0

namespace SparseFile

/-- A file of the given size with nothing allocated, as `truncate` makes it. -/
def empty (size : ℕ) : SparseFile :=
  ⟨size, fun _ => false, fun _ => 0, fun _ _ => rfl⟩

/-- Sector `s` meets the byte range of length `len` at `off`. -/
def meets (off len s : ℕ) : Bool :=
  0 < len && off < (s + 1) * defaultSectorSize && s * defaultSectorSize < off + len

/-- Sector `s` lies wholly inside the byte range of length `len` at `off`. -/
def inside (off len s : ℕ) : Bool :=
  off ≤ s * defaultSectorSize && (s + 1) * defaultSectorSize ≤ off + len

theorem meets_iff (off len s : ℕ) :
    meets off len s = true ↔ 0 < len ∧ off < (s + 1) * 4096 ∧ s * 4096 < off + len := by
  simp only [meets, Bool.and_eq_true, decide_eq_true_eq, and_assoc]
  rfl

theorem inside_iff (off len s : ℕ) :
    inside off len s = true ↔ off ≤ s * 4096 ∧ (s + 1) * 4096 ≤ off + len := by
  simp only [inside, Bool.and_eq_true, decide_eq_true_eq]
  rfl

/-- `pwrite` of `buf` at `off`. -/
def writeAt (f : SparseFile) (buf : List Byte) (off : ℕ) : SparseFile where
  size := max f.size (off + buf.length)
  alloc s := f.alloc s || meets off buf.length s
  data b := if off ≤ b ∧ b < off + buf.length then buf.getD (b - off) 0 else f.data b
  hole_zero b h := by
    obtain ⟨ha, hm⟩ := Bool.or_eq_false_iff.1 h
    rw [← Bool.not_eq_true, meets_iff, defaultSectorSize_eq] at hm
    rw [if_neg (by omega), f.hole_zero b ha]

/-- `fallocate` that punches the hole of length `len` at `off`, keeping the size. -/
def punchHole (f : SparseFile) (off len : ℕ) : SparseFile where
  size := f.size
  alloc s := f.alloc s && !inside off len s
  data b := if off ≤ b ∧ b < off + len then 0 else f.data b
  hole_zero b h := by
    split_ifs with hb
    · rfl
    · refine f.hole_zero b ?_
      rcases Bool.and_eq_false_iff.1 h with h | h
      · exact h
      · rw [Bool.not_eq_false', inside_iff, defaultSectorSize_eq] at h
        omega

@[simp] theorem empty_alloc (size s : ℕ) : (empty size).alloc s = false :=
  rfl

@[simp] theorem empty_size (size : ℕ) : (empty size).size = size :=
  rfl

theorem writeAt_alloc (f : SparseFile) (buf : List Byte) (off s : ℕ) :
    (f.writeAt buf off).alloc s = (f.alloc s || meets off buf.length s) :=
  rfl

theorem writeAt_data (f : SparseFile) (buf : List Byte) (off b : ℕ) :
    (f.writeAt buf off).data b =
      if off ≤ b ∧ b < off + buf.length then buf.getD (b - off) 0 else f.data b :=
  rfl

theorem punchHole_alloc (f : SparseFile) (off len s : ℕ) :
    (f.punchHole off len).alloc s = (f.alloc s && !inside off len s) :=
  rfl

theorem punchHole_data (f : SparseFile) (off len b : ℕ) :
    (f.punchHole off len).data b = if off ≤ b ∧ b < off + len then 0 else f.data b :=
  rfl

theorem punchHole_zero (f : SparseFile) (off : ℕ) : f.punchHole off 0 = f := by
  have hin : ∀ s, inside off 0 s = false := fun s => by
    rw [← Bool.not_eq_true, inside_iff]
    omega
  have hd : ∀ b, ¬(off ≤ b ∧ b < off + 0) := fun b => by omega
  cases f
  simp only [punchHole, hin, if_neg (hd _), Bool.not_false, Bool.and_true]

/-- An aligned range meets exactly the sectors it covers. -/
theorem meets_aligned (k n s : ℕ) :
    meets (k * defaultSectorSize) (n * defaultSectorSize) s = decide (k ≤ s ∧ s < k + n) := by
  rw [Bool.eq_iff_iff, meets_iff, decide_eq_true_eq, defaultSectorSize_eq]
  omega

/-- An aligned range contains exactly the sectors it covers. -/
theorem inside_aligned (k n s : ℕ) :
    inside (k * defaultSectorSize) (n * defaultSectorSize) s = decide (k ≤ s ∧ s < k + n) := by
  rw [Bool.eq_iff_iff, inside_iff, decide_eq_true_eq, defaultSectorSize_eq]
  omega

end SparseFile

end Jiva
