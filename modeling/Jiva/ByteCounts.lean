import Jiva.CheckedReads

/-!
# The byte counts of `ReadAt` and `WriteAt`

A request is put together from reads and writes of whole sectors. The three-part paths and the reads
return `len(buf)` themselves, and the aligned paths return what the file returned. A write inside
one sector returns the count of `fullWriteAt` for the whole sector that `readModifyWrite` wrote. So
its count is the sector size, and larger than the buffer, unless it fails.

The counts are right for every buffer and offset that does not lie inside one sector
(`byteCounts_iff`).
-/

namespace Jiva

namespace Volume

/-- A count of `len` bytes if there is no error, and never more. -/
def CountOk (n : ℕ) (err : Option String) (len : ℕ) : Prop :=
  (err = none → n = len) ∧ n ≤ len

/-- The counts of a write and a read of the range, on every device. -/
def ByteCounts (v : Volume) (buf : List Byte) (offset : ℕ) : Prop :=
  ∀ dev : Dev, CountOk (v.writeAt dev buf offset).n (v.writeAt dev buf offset).err buf.length ∧
    CountOk (v.readAt dev buf offset).n (v.readAt dev buf offset).err buf.length

/-- The request is empty, made of whole sectors, or longer than what is left of its first sector. -/
def Spanning (buf : List Byte) (offset : ℕ) : Prop :=
  let startOffset := offset % defaultSectorSize
  let startCut := defaultSectorSize - startOffset
  let endOffset := (buf.length + offset) % defaultSectorSize
  buf.length = 0 ∨ (startOffset = 0 ∧ endOffset = 0) ∨ startCut < buf.length

theorem writeFile_countOk (dev : Dev) (store : ℕ → SparseFile) (f : ℕ) (buf : List Byte) (off : ℕ) :
    CountOk (writeFile dev store f buf off).2.1 (writeFile dev store f buf off).2.2 buf.length := by
  unfold writeFile
  split
  · exact ⟨nofun, Nat.min_le_right _ _⟩
  · exact ⟨fun _ => rfl, le_rfl⟩

theorem fullWriteAt_countOk (dev : Dev) (v : Volume) (buf : List Byte) (offset : ℕ) :
    CountOk (v.fullWriteAt dev buf offset).n (v.fullWriteAt dev buf offset).err buf.length := by
  unfold fullWriteAt
  split_ifs
  · exact ⟨nofun, Nat.zero_le _⟩
  · exact writeFile_countOk dev v.store (v.file v.target) buf offset

theorem WriteResult.andThen_countOk {w : WriteResult} {next : Volume → WriteResult} {len : ℕ}
    (h : w.err = none → CountOk (next w.v).n (next w.v).err len) :
    CountOk (w.andThen next).n (w.andThen next).err len := by
  unfold WriteResult.andThen
  cases he : w.err with
  | some e => exact ⟨nofun, Nat.zero_le _⟩
  | none => exact h he

theorem writeAt_countOk (dev : Dev) (v : Volume) {buf : List Byte} {offset : ℕ}
    (h : Spanning buf offset) :
    CountOk (v.writeAt dev buf offset).n (v.writeAt dev buf offset).err buf.length := by
  unfold writeAt
  unfold Spanning at h
  dsimp only at h ⊢
  split_ifs with h0 halign hcut
  · exact ⟨fun _ => h0.symm, Nat.zero_le _⟩
  · exact fullWriteAt_countOk dev v buf offset
  · rcases h with h | h | h
    · exact absurd h h0
    · exact absurd h halign
    · exact absurd hcut (Nat.not_le.2 h)
  · exact WriteResult.andThen_countOk fun _ => WriteResult.andThen_countOk fun _ =>
      WriteResult.andThen_countOk fun _ => ⟨fun _ => rfl, le_rfl⟩

variable {v : Volume} {buf : List Byte} {offset : ℕ}

theorem readAt_countOk (dev : Dev) (hc : v.ChainOk) (hl : v.LocationLe)
    (hin : offset + buf.length ≤ v.size) :
    CountOk (v.readAt dev buf offset).n (v.readAt dev buf offset).err buf.length := by
  have hreads : (v.readAt dev buf offset).Reads dev v.shown offset buf.length :=
    readAt_shown hc hl hin
  refine ⟨hreads.count, ?_⟩
  by_cases herr : (v.readAt dev buf offset).err = none
  · exact (hreads.count herr).le
  · rcases Checked.readAt_failed herr with h0 | hfull
    · rw [h0]
      exact Nat.zero_le _
    · rw [hfull]
      exact (Checked.fullReadAt_counts dev v buf offset).2

/-- A write inside one sector counts the whole sector. -/
theorem readModifyWrite_count (hc : v.ChainOk) (hl : v.LocationLe)
    (hin : offset + buf.length ≤ v.size) (h0 : buf.length ≠ 0)
    (hfit : offset % defaultSectorSize + buf.length ≤ defaultSectorSize) :
    (v.readModifyWrite Dev.ok buf offset).n = defaultSectorSize ∧
      (v.readModifyWrite Dev.ok buf offset).err = none := by
  have hmul : offset / defaultSectorSize * defaultSectorSize % defaultSectorSize = 0 :=
    Nat.mul_mod_left _ _
  have hsector : offset / defaultSectorSize * defaultSectorSize + zeroSector.length ≤ v.size := by
    unfold size at hin ⊢
    rw [length_zeroSector]
    rw [defaultSectorSize_eq] at *
    omega
  have hread := fullReadAt_shown Dev.ok hc hl zeroSector _ (by rw [length_zeroSector,
    Nat.mod_self]) hmul hsector
  have hok := hread.ok rfl
  have hlen :
      (splice (v.fullReadAt Dev.ok zeroSector (offset / defaultSectorSize * defaultSectorSize)).buf
      (offset % defaultSectorSize) buf).length = defaultSectorSize := by
    rw [hread.bytes hok, length_splice (by simpa using hfit), length_bytesFrom, length_zeroSector]
  unfold readModifyWrite
  rw [if_neg h0]
  dsimp only
  rw [hok]
  dsimp only
  unfold fullWriteAt
  rw [hlen, if_neg (by simp)]
  exact ⟨hlen, rfl⟩

/-- The counts are right, on every device, for the requests that do not lie inside one sector, and
only for them. -/
theorem byteCounts_iff (hc : v.ChainOk) (hl : v.LocationLe) (hin : offset + buf.length ≤ v.size) :
    v.ByteCounts buf offset ↔ Spanning buf offset := by
  refine ⟨fun h => ?_, fun h dev => ⟨writeAt_countOk dev v h, readAt_countOk dev hc hl hin⟩⟩
  by_contra hnot
  unfold Spanning at hnot
  dsimp only at hnot
  obtain ⟨h0, hrest⟩ := not_or.1 hnot
  obtain ⟨halign, hcut⟩ := not_or.1 hrest
  have hfit : offset % defaultSectorSize + buf.length ≤ defaultSectorSize := by
    have := mod_sector_lt offset
    omega
  obtain ⟨hn, -⟩ := readModifyWrite_count hc hl hin h0 hfit
  have hwrite : v.writeAt Dev.ok buf offset = v.readModifyWrite Dev.ok buf offset := by
    unfold writeAt
    dsimp only
    rw [if_neg h0, if_neg halign, if_pos (Nat.le_of_not_lt hcut)]
  have hle := (h Dev.ok).1.2
  rw [hwrite, hn] at hle
  -- a buffer of a whole sector inside one sector starts and ends at the sector
  refine halign ?_
  rw [defaultSectorSize_eq] at *
  omega

/-- A write that starts in the middle of a sector and ends in the middle of the next one. -/
theorem byteCounts_iff_two_sectors :
    Spanning (List.replicate 4096 7) 100 ∧ (new 2 1).ByteCounts (List.replicate 4096 7) 100 := by
  have hspan : Spanning (List.replicate 4096 7) 100 := by
    unfold Spanning
    rw [List.length_replicate, defaultSectorSize_eq]
    exact .inr (.inr (by decide))
  refine ⟨hspan, (byteCounts_iff (new_chainOk 2 (by decide)) (fun _ _ => Nat.zero_le _) ?_).2 hspan⟩
  rw [List.length_replicate]
  show 100 + 4096 ≤ 2 * defaultSectorSize
  rw [defaultSectorSize_eq]
  decide

/-- A write of one byte into a new volume counts a whole sector. -/
theorem oneByte_counts_sector :
    ((new 1 1).writeAt Dev.ok [7] 0).err = none ∧ ((new 1 1).writeAt Dev.ok [7] 0).n = 4096 ∧
      ¬(new 1 1).ByteCounts [7] 0 := by
  have hn : ((new 1 1).writeAt Dev.ok [7] 0).err = none ∧
      ((new 1 1).writeAt Dev.ok [7] 0).n = 4096 := by
    decide +kernel
  refine ⟨hn.1, hn.2, fun h => ?_⟩
  have hle := (h Dev.ok).1.2
  rw [hn.2] at hle
  exact absurd hle (by decide)

end Volume

end Jiva
