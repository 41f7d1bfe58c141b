import Jiva.Effects

/-!
# The data path with its run-time checks

The offset and the size of a request come off the wire as signed 64-bit numbers and are not checked
against the volume. They go through the remainders of the language, which round towards zero,
through slices of buffers and into the location table, and each of these can panic. `DiffDisk` has
offsets that are natural numbers and a table without an end. Here the same functions have signed
offsets, sums that wrap around, and the check of every slice and index as a step that can fail.

`InRange` is what is needed of a volume for the comparison of the two, in `CheckedReads` and
`CheckedWrites`. The `marks` of a write are the runs of sectors that it notes in the table.
-/

namespace Jiva

/-- A run-time panic. -/
inductive Panic where
  | makeSlice
  | sliceBounds
  | indexOutOfRange
  | typeAssertion
  deriving DecidableEq, Repr

/-- The largest allocation, in bytes. -/
def maxAlloc : ℕ := 2 ^ 48

/-- An `int64` that went around. -/
def wrap64 (x : ℤ) : ℤ :=
  x.bmod (2 ^ 64)

/-- `make([]byte, n)`. -/
def makeSlice (n : ℤ) : Except Panic (List Byte) :=
  if 0 ≤ n ∧ n ≤ maxAlloc then .ok (List.replicate n.toNat 0) else .error .makeSlice

/-- `buf[lo:hi]`. -/
def slice (buf : List Byte) (lo hi : ℤ) : Except Panic (List Byte) :=
  if 0 ≤ lo ∧ lo ≤ hi ∧ hi ≤ buf.length then
    .ok ((buf.drop lo.toNat).take (hi.toNat - lo.toNat))
  else .error .sliceBounds

/-- The index `i` into a slice of `len` elements. -/
def index (i : ℤ) (len : ℕ) : Except Panic ℕ :=
  if 0 ≤ i ∧ i < len then .ok i.toNat else .error .indexOutOfRange

/-- The sector size, as an `int64`. -/
def sectorSize : ℤ := defaultSectorSize

namespace Checked

open Volume

/-! ## Reading -/

/-- `lookup`. The table is indexed only behind the check against its end and the shortcut for two
files. -/
def lookup (dev : Dev) (v : Volume) (sector : ℤ) : Except Panic (Volume × Except String ℕ) :=
  if v.locationLen ≤ sector then .ok (v, .ok (u16 v.target))
  else if v.files.length = 2 then .ok (v, .ok 1)
  else do
    let s ← index sector v.locationLen
    return v.lookup dev s

/-- `file.ReadAt`, which rejects a negative offset. -/
def readFile (dev : Dev) (store : ℕ → SparseFile) (f : ℕ) (off : ℤ) (len : ℕ) :
    List Byte × Option String :=
  if off < 0 then ([], some "negative offset") else Jiva.readFile dev store f off.toNat len

/-- `file.WriteAt`, which rejects a negative offset. -/
def writeFile (dev : Dev) (store : ℕ → SparseFile) (f : ℕ) (buf : List Byte) (off : ℤ) :
    (ℕ → SparseFile) × ℕ × Option String :=
  if off < 0 then (store, 0, some "negative offset") else Jiva.writeFile dev store f buf off.toNat

/-- `read`. -/
def read (dev : Dev) (v : Volume) (target : ℕ) (buf : List Byte) (offset : ℤ)
    (startSector sectors : ℕ) : Except Panic (List Byte × ℕ × Option String) := do
  let bufStart := startSector * defaultSectorSize
  let bufEnd := sectors * defaultSectorSize
  let newBuf ← slice buf bufStart (bufStart + bufEnd)
  let t ← index target v.files.length
  let r := readFile dev v.store (v.file t) (wrap64 (offset + bufStart)) newBuf.length
  return (splice buf bufStart r.1, r.1.length, r.2)

/-- Read the pending run of sectors, which ends before sector `i` of the request. -/
def readRun (dev : Dev) (offset : ℤ) (i : ℕ) (st : ReadState) :
    Except Panic (List Byte × ℕ × Option String) :=
  if st.target = 0 then .ok (st.buf, st.readSectors * defaultSectorSize, none)
  else read dev st.v st.target st.buf offset (i - st.readSectors) st.readSectors

/-- The loop of `fullReadAt`, with `m` sectors of the request to go. -/
def fullReadLoop (dev : Dev) (offset : ℤ) (sectors : ℕ) : ℕ → ReadState → Except Panic ReadResult
  | 0, st => do
    let r ← readRun dev offset sectors st
    return ⟨st.v, r.1, st.count + r.2.1, r.2.2⟩
  | m + 1, st => do
    let i := sectors - (m + 1)
    match ← lookup dev st.v (offset.tdiv sectorSize + i) with
    | (v, .error e) => return ⟨v, st.buf, st.count, some e⟩
    | (v, .ok newTarget) =>
      if newTarget = st.target then
        fullReadLoop dev offset sectors m { st with v := v, readSectors := st.readSectors + 1 }
      else
        let r ← readRun dev offset i { st with v := v }
        match r.2.2 with
        | some e => return ⟨v, r.1, st.count + r.2.1, some e⟩
        | none => fullReadLoop dev offset sectors m ⟨v, r.1, st.count + r.2.1, newTarget, 1⟩

/-- `fullReadAt`. -/
def fullReadAt (dev : Dev) (v : Volume) (buf : List Byte) (offset : ℤ) :
    Except Panic ReadResult :=
  if buf.length % defaultSectorSize ≠ 0 ∨ offset.tmod sectorSize ≠ 0 then
    .ok ⟨v, buf, 0, some s!"Read not a multiple of {defaultSectorSize}"⟩
  else if buf.length = 0 then .ok ⟨v, buf, 0, none⟩
  else do
    match ← lookup dev v (offset.tdiv sectorSize) with
    | (v, .error e) => return ⟨v, buf, 0, some e⟩
    | (v, .ok target) =>
      let sectors := buf.length / defaultSectorSize
      fullReadLoop dev offset sectors (sectors - 1) ⟨v, buf, 0, target, 1⟩

/-- `if err != nil { return 0, err }` after a partial read. -/
def readThen (r : ReadResult) (buf : List Byte) (next : Volume → Except Panic ReadResult) :
    Except Panic ReadResult :=
  match r.err with
  | some e => .ok ⟨r.v, buf, 0, some e⟩
  | none => next r.v

/-- The last sector of an unaligned `ReadAt`. -/
def readEnd (dev : Dev) (readBuf buf : List Byte) (offset endOffset : ℤ) (v : Volume) :
    Except Panic ReadResult :=
  if 0 < endOffset then do
    let l ← fullReadAt dev v readBuf (wrap64 (offset + buf.length - endOffset))
    readThen l buf fun v => do
      let _ ← slice buf (buf.length - endOffset) buf.length
      let last ← slice l.buf 0 endOffset
      return ⟨v, splice buf (buf.length - endOffset).toNat last, buf.length, none⟩
  else .ok ⟨v, buf, buf.length, none⟩

/-- An unaligned `ReadAt` after its first sector. -/
def readRest (dev : Dev) (readBuf buf : List Byte) (offset startCut endOffset : ℤ) (v : Volume) :
    Except Panic ReadResult :=
  if buf.length ≤ startCut then .ok ⟨v, buf, buf.length, none⟩
  else do
    let whole ← slice buf startCut (buf.length - endOffset)
    let m ← fullReadAt dev v whole (wrap64 (offset + startCut))
    readThen m (splice buf startCut.toNat m.buf)
      (readEnd dev readBuf (splice buf startCut.toNat m.buf) offset endOffset)

/-- `ReadAt`. -/
def readAt (dev : Dev) (v : Volume) (buf : List Byte) (offset : ℤ) : Except Panic ReadResult :=
  let startOffset := offset.tmod sectorSize
  let startCut := sectorSize - startOffset
  let endOffset := (wrap64 (buf.length + offset)).tmod sectorSize
  if buf.length = 0 then .ok ⟨v, buf, 0, none⟩
  else if startOffset = 0 ∧ endOffset = 0 then fullReadAt dev v buf offset
  else do
    let r ← fullReadAt dev v zeroSector (offset - startOffset)
    readThen r buf fun v => do
      let first ← slice r.buf startOffset r.buf.length
      readRest dev r.buf (splice buf 0 (first.take buf.length)) offset startCut endOffset v

/-! ## Writing -/

/-- The loop of `fullWriteAt`. It indexes the table with each sector, and the files with what it
finds there. -/
def markLoop (v : Volume) (startSector : ℤ) (sectors : ℕ) : Except Panic MarkState :=
  (List.range sectors).foldlM
    (fun st (i : ℕ) => do
      let s ← index (startSector + i) v.locationLen
      let _ ← index (st.v.location s) v.files.length
      return markSector v.target st s)
    ⟨v, 0, 0, 0, 0⟩

/-- `fullWriteAt`. The file is written before the table is indexed. -/
def fullWriteAt (dev : Dev) (v : Volume) (buf : List Byte) (offset : ℤ) :
    Except Panic WriteResult :=
  if buf.length % defaultSectorSize ≠ 0 ∨ offset.tmod sectorSize ≠ 0 then
    .ok ⟨v, 0, some (s!"Write len({buf.length}), offset {offset} " ++
      s!"not a multiple of {defaultSectorSize}")⟩
  else do
    let w := writeFile dev v.store (v.file v.target) buf offset
    let st ← markLoop { v with store := w.1 } (offset.tdiv sectorSize)
      (buf.length / defaultSectorSize)
    return ⟨st.punchRun st.file, w.2.1, w.2.2⟩

/-- `readModifyWrite`. -/
def readModifyWrite (dev : Dev) (v : Volume) (buf : List Byte) (offset : ℤ) :
    Except Panic WriteResult :=
  if buf.length = 0 then .ok ⟨v, 0, none⟩
  else do
    let readOffset := offset.tdiv sectorSize * sectorSize
    let r ← fullReadAt dev v zeroSector readOffset
    match r.err with
    | some e => return ⟨r.v, 0, some e⟩
    | none =>
      let dst ← slice r.buf (offset.tmod sectorSize) r.buf.length
      fullWriteAt dev r.v
        (splice r.buf (offset.tmod sectorSize).toNat (buf.take dst.length)) readOffset

/-- `if err != nil { return 0, err }` after a partial write. -/
def writeThen (w : WriteResult) (next : Volume → Except Panic WriteResult) :
    Except Panic WriteResult :=
  match w.err with
  | some e => .ok ⟨w.v, 0, some e⟩
  | none => next w.v

/-- `WriteAt`. -/
def writeAt (dev : Dev) (v : Volume) (buf : List Byte) (offset : ℤ) : Except Panic WriteResult :=
  let startOffset := offset.tmod sectorSize
  let startCut := sectorSize - startOffset
  let endOffset := (wrap64 (buf.length + offset)).tmod sectorSize
  if buf.length = 0 then .ok ⟨v, 0, none⟩
  else if startOffset = 0 ∧ endOffset = 0 then fullWriteAt dev v buf offset
  else if buf.length ≤ startCut then readModifyWrite dev v buf offset
  else do
    let first ← slice buf 0 startCut
    let w ← readModifyWrite dev v first offset
    writeThen w fun v => do
      let whole ← slice buf startCut (buf.length - endOffset)
      let w ← fullWriteAt dev v whole (wrap64 (offset + startCut))
      writeThen w fun v => do
        let last ← slice buf (buf.length - endOffset) buf.length
        let w ← readModifyWrite dev v last (wrap64 (offset + buf.length - endOffset))
        writeThen w fun v => .ok ⟨v, buf.length, none⟩

end Checked

/-! ## Volumes with all indices in range -/

/-- What holds of the volume of any replica : there is a file besides the nil one, the indices of
the files fit in a table entry and the entries name files, and the table and the files are not so
large that the offsets of a request inside of them go around. -/
structure Volume.InRange (v : Volume) : Prop where
  two_le : 2 ≤ v.files.length
  le_u16 : v.files.length ≤ 65536
  location_le : v.LocationLe
  table : 2 * v.locationLen ≤ maxAlloc
  sizes : ∀ f, (v.store f).size + maxAlloc ≤ 2 ^ 63

namespace Volume

/-- Sector `k` can be read. -/
def readable (dev : Dev) (v : Volume) (k : ℕ) : Bool :=
  (v.fullReadAt dev zeroSector (k * defaultSectorSize)).err.isNone

/-- The sectors that a write inside one sector marks, as a start and a number. -/
def modifyMarks (dev : Dev) (v : Volume) (buf : List Byte) (offset : ℕ) : List (ℕ × ℕ) :=
  if buf.length ≠ 0 ∧ v.readable dev (offset / defaultSectorSize) then
    [(offset / defaultSectorSize, 1)]
  else []

/-- The runs of sectors that `WriteAt` marks in the table. A part of the write that comes after one
that failed marks nothing. -/
def marks (dev : Dev) (v : Volume) (buf : List Byte) (offset : ℕ) : List (ℕ × ℕ) :=
  let startOffset := offset % defaultSectorSize
  let startCut := defaultSectorSize - startOffset
  let endOffset := (buf.length + offset) % defaultSectorSize
  if buf.length = 0 then []
  else if startOffset = 0 ∧ endOffset = 0 then
    [(offset / defaultSectorSize, buf.length / defaultSectorSize)]
  else if buf.length ≤ startCut then v.modifyMarks dev buf offset
  else
    let w := v.readModifyWrite dev (buf.take startCut) offset
    let whole := (buf.drop startCut).take (buf.length - endOffset - startCut)
    let w' := w.v.fullWriteAt dev whole (offset + startCut)
    v.modifyMarks dev (buf.take startCut) offset ++
      if w.err.isSome then []
      else ((offset + startCut) / defaultSectorSize, whole.length / defaultSectorSize) ::
        if w'.err.isSome then []
        else w'.v.modifyMarks dev (buf.drop (buf.length - endOffset))
          (offset + buf.length - endOffset)

/-- All the runs lie in the table. -/
def InTable (v : Volume) (runs : List (ℕ × ℕ)) : Prop :=
  ∀ r ∈ runs, r.2 = 0 ∨ r.1 + r.2 ≤ v.locationLen

instance (v : Volume) (runs : List (ℕ × ℕ)) : Decidable (v.InTable runs) :=
  inferInstanceAs (Decidable (∀ r ∈ runs, _))

end Volume

namespace Checked

theorem wrap64_of_lt {x : ℤ} (h₀ : 0 ≤ x) (h : x < 2 ^ 63) : wrap64 x = x := by
  unfold wrap64
  rw [Int.bmod_eq_of_le] <;> omega

theorem wrap64_ofNat {n : ℕ} (h : n < 2 ^ 63) : wrap64 n = n :=
  wrap64_of_lt (Int.natCast_nonneg n) (by exact_mod_cast h)

theorem tmod_wrap64_eq_zero (x : ℤ) : (wrap64 x).tmod sectorSize = 0 ↔ x.tmod sectorSize = 0 := by
  unfold wrap64 sectorSize defaultSectorSize
  rw [← Int.dvd_iff_tmod_eq_zero, ← Int.dvd_iff_tmod_eq_zero]
  simp only [Int.bmod]
  split <;> omega

@[simp] theorem tdiv_ofNat (n : ℕ) : (n : ℤ).tdiv sectorSize = (n / defaultSectorSize : ℕ) := rfl

@[simp] theorem tmod_ofNat (n : ℕ) : (n : ℤ).tmod sectorSize = (n % defaultSectorSize : ℕ) := rfl

theorem slice_ofNat (buf : List Byte) {lo hi : ℕ} (hlo : lo ≤ hi) (hhi : hi ≤ buf.length) :
    slice buf lo hi = .ok ((buf.drop lo).take (hi - lo)) := by
  simp [slice, hlo, hhi]

theorem length_drop_take {buf : List Byte} {start size : ℕ} (h : start + size ≤ buf.length) :
    ((buf.drop start).take (start + size - start)).length = size := by
  rw [List.length_take, List.length_drop]
  omega

theorem slice_neg {buf : List Byte} {lo hi : ℤ} (h : lo < 0) :
    slice buf lo hi = .error .sliceBounds := by
  rw [slice, if_neg (by omega)]

theorem index_ofNat {i len : ℕ} (h : i < len) : index i len = .ok i := by
  simp [index, h]

theorem index_neg {i : ℤ} (h : i < 0) (len : ℕ) : index i len = .error .indexOutOfRange := by
  rw [index, if_neg (by omega)]

theorem index_of_le {i len : ℕ} (h : len ≤ i) : index i len = .error .indexOutOfRange := by
  rw [index, if_neg (by omega)]

end Checked

namespace Volume

variable {v v' : Volume}

theorem InRange.target_lt (h : v.InRange) : v.target < v.files.length := by
  have := h.two_le
  unfold DiffDisk.target
  omega

theorem InRange.u16_target (h : v.InRange) : u16 v.target = v.target :=
  u16_of_lt (h.target_lt.trans_le h.le_u16)

theorem probe_mem (dev : Dev) {v : Volume} (hv : 0 < v.target) (s : ℕ) :
    ∀ {i j : ℕ}, i ≤ v.target → probe dev v s i = .ok j → 0 < j ∧ j ≤ v.target
  | 0, j, _, h => by
    cases h
    exact ⟨hv, le_rfl⟩
  | 1, j, hi, h => by
    cases h
    exact ⟨Nat.one_pos, hi⟩
  | i + 2, j, hi, h => by
    simp only [probe] at h
    split at h
    · cases h
    · split at h
      · cases h
        exact ⟨Nat.succ_pos _, hi⟩
      · exact probe_mem dev hv s (by omega) h

/-- A lookup finds a file, and notes files in the table only. -/
theorem InRange.lookup (h : v.InRange) (dev : Dev) (s : ℕ) :
    (v.lookup dev s).1.InRange ∧ v.SameChain (v.lookup dev s).1 ∧
    (v.lookup dev s).1.store = v.store ∧ ∀ t, (v.lookup dev s).2 = .ok t →
    0 < t ∧ t < v.files.length := by
  have htwo := h.two_le
  have htarget := h.target_lt
  have hpos : 0 < v.target := by
    unfold DiffDisk.target
    omega
  unfold Volume.lookup
  split_ifs with hs h2 h0
  · refine ⟨h, SameChain.refl v, rfl, fun t ht => ?_⟩
    rw [← Except.ok.inj ht, h.u16_target]
    exact ⟨hpos, htarget⟩
  · refine ⟨h, SameChain.refl v, rfl, fun t ht => ?_⟩
    rw [← Except.ok.inj ht]
    omega
  · cases hp : probe dev v s v.target with
    | error e => exact ⟨h, SameChain.refl v, rfl, nofun⟩
    | ok i =>
      obtain ⟨hi₀, hi⟩ := probe_mem dev hpos s le_rfl hp
      have hu : u16 i = i := u16_of_lt (by have := h.le_u16; omega)
      refine ⟨⟨h.two_le, h.le_u16, fun t ht => ?_, h.table, h.sizes⟩, ⟨rfl, rfl, rfl, rfl, rfl⟩,
        rfl, fun t ht => ?_⟩
      · show Function.update v.location s (u16 i) t ≤ v.target
        rcases eq_or_ne t s with rfl | hts
        · rwa [Function.update_self, hu]
        · rw [Function.update_of_ne hts]
          exact h.location_le t ht
      · rw [← Except.ok.inj ht, hu]
        omega
  · refine ⟨h, SameChain.refl v, rfl, fun t ht => ?_⟩
    rw [← Except.ok.inj ht]
    have := h.location_le s (by omega)
    omega

end Volume

end Jiva
