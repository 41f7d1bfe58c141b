import Jiva.Preloaded

/-!
# A table filled by reads, and one filled by `preload`

The same chain is opened twice, with an empty table that `lookup` fills in where it is asked, and
with the table of `preload`. Then both get the same reads and writes, while each has a hole creator
of its own that takes holes when it likes. The holes are not the same : a write over a sector that
the empty table does not know sends off none.

`Agree` relates the two. They find the same file for every sector, and this file has the same bytes
there. What else the files have may differ. It survives the holes because a hole that waits is in a
file below the one the table names (`Settled`), and an entry that is not known yet has no waiting
hole. Reads return the same bytes and the same errors, and so the writes that begin with a read are
the same ones too. Nothing is asked of the backing file but that it is the file at index `1`.
-/

namespace Jiva

open Layered Function Transition

/-- A device whose extent queries do not fail. -/
def Dev.Queries (dev : Dev) : Prop :=
  ∀ f s, dev.fiemapErr f s = none

namespace Volume

variable {store : ℕ → SparseFile} {v : Volume} {f k s : ℕ}

/-- Distinct files, whose indices fit in a table entry, entries up to the active layer, and waiting
holes in files below those that the table names. -/
structure Settled (v : Volume) : Prop where
  two_le : 2 ≤ v.files.length
  le_u16 : v.files.length ≤ 65536
  nodup : v.files.Nodup
  le : ∀ s, v.location s ≤ v.target
  queue : ∀ h ∈ v.holeCreatorChan, ∃ f lo len,
    h = ⟨v.file f, lo * defaultSectorSize, len * defaultSectorSize⟩ ∧ f < v.files.length ∧
      ∀ s, lo ≤ s → s < lo + len → f < v.location s

/-- The same file is found for every sector, and it has the same bytes there. The active layers are
the same. -/
structure Agree (v w : Volume) : Prop where
  left : v.Settled
  right : w.Settled
  files : w.files = v.files
  locationLen : w.locationLen = v.locationLen
  active : w.store (v.file v.target) = v.store (v.file v.target)
  size : ∀ i, i < v.files.length → (w.store (v.file i)).size = (v.store (v.file i)).size
  entry : ∀ s, s < v.locationLen → w.entry s = v.entry s
  data : ∀ b, b / defaultSectorSize < v.locationLen →
    (w.store (v.file (v.entry (b / defaultSectorSize)))).data b =
      (v.store (v.file (v.entry (b / defaultSectorSize)))).data b

section Basic

variable {v w : Volume}

theorem Settled.target_pos (h : v.Settled) : 0 < v.target := by
  have := h.two_le
  unfold DiffDisk.target
  omega

theorem Settled.target_lt (h : v.Settled) : v.target < v.files.length := by
  have := h.two_le
  unfold DiffDisk.target
  omega

theorem Settled.target_lt_u16 (h : v.Settled) : v.target < 65536 :=
  h.target_lt.trans_le h.le_u16

theorem Settled.owner_le (h : v.Settled) (s : ℕ) : v.owner s ≤ v.target := by
  have := v.topFile_le v.target s
  have := h.target_pos
  unfold owner
  omega

theorem Settled.entry_le (h : v.Settled) (s : ℕ) : v.entry s ≤ v.target := by
  have := h.target_pos
  have := h.le s
  have := h.owner_le s
  unfold entry
  split_ifs <;> omega

theorem Agree.file (h : Agree v w) (i : ℕ) : w.file i = v.file i := by
  unfold DiffDisk.file
  rw [h.files]

theorem Agree.target (h : Agree v w) : w.target = v.target := by
  unfold DiffDisk.target
  rw [h.files]

end Basic

/-! ## Lookup -/

/-- Some unknown entries are filled in with the owner. -/
def Filled (v : Volume) (l : ℕ → ℕ) : Prop :=
  ∀ s, l s = v.location s ∨ v.location s = 0 ∧ l s = v.owner s

/-- The file that `lookup` finds, also behind the end of the table. -/
def found (v : Volume) (s : ℕ) : ℕ :=
  if v.locationLen ≤ s then v.target else v.entry s

section Lookup

variable {v w : Volume} {dev : Dev}
variable {l : ℕ → ℕ}

theorem Filled.refl (v : Volume) : v.Filled v.location :=
  fun _ => .inl rfl

theorem Filled.entry (h : v.Filled l) (s : ℕ) : (v.withLocation l).entry s = v.entry s := by
  have hpos := v.owner_pos s
  show (if v.files.length = 2 then 1 else if l s = 0 then v.owner s else l s) = v.entry s
  unfold Volume.entry
  rcases h s with hl | ⟨h0, hl⟩
  · rw [hl]
  · rw [hl, h0, if_neg hpos.ne', if_pos rfl]

theorem Filled.settled (h : v.Filled l) (hv : v.Settled) : (v.withLocation l).Settled where
  two_le := hv.two_le
  le_u16 := hv.le_u16
  nodup := hv.nodup
  le s := by
    rcases h s with hl | ⟨-, hl⟩
    · exact hl.trans_le (hv.le s)
    · exact hl.trans_le (hv.owner_le s)
  queue hole hh := by
    obtain ⟨f, lo, len, heq, hf, hall⟩ := hv.queue hole hh
    refine ⟨f, lo, len, heq, hf, fun s h1 h2 => ?_⟩
    have hlt := hall s h1 h2
    rcases h s with hl | ⟨h0, -⟩
    · exact hlt.trans_eq hl.symm
    · rw [h0] at hlt
      omega

theorem Agree.filled {m : ℕ → ℕ} (h : Agree v w) (hl : v.Filled l) (hm : w.Filled m) :
    Agree (v.withLocation l) (w.withLocation m) where
  left := hl.settled h.left
  right := hm.settled h.right
  files := h.files
  locationLen := h.locationLen
  active := h.active
  size := h.size
  entry s hs := by
    rw [hl.entry, hm.entry]
    exact h.entry s hs
  data b hb := by
    rw [hl.entry]
    exact h.data b hb

theorem probe_queries (hdev : dev.Queries) (v : Volume) (s : ℕ) : ∀ i, ∃ j, probe dev v s i = .ok j
  | 0 => ⟨_, rfl⟩
  | 1 => ⟨_, rfl⟩
  | i + 2 => by
    simp only [probe, hdev _ _]
    split_ifs
    · exact ⟨_, rfl⟩
    · exact probe_queries hdev v s (i + 1)

theorem lookup_found (hdev : dev.Queries) (hv : v.Settled) (s : ℕ) :
    ∃ l, v.Filled l ∧ lookup dev v s = (v.withLocation l, .ok (v.found s)) := by
  have hu16 : u16 v.target = v.target := u16_of_lt hv.target_lt_u16
  unfold lookup found Volume.entry
  split_ifs with hs h2 h0
  · exact ⟨_, Filled.refl v, by rw [hu16]; rfl⟩
  · exact ⟨_, Filled.refl v, rfl⟩
  · obtain ⟨j, hj⟩ := probe_queries hdev v s v.target
    have howner : j = v.owner s := probe_eq dev v s hv.target_pos hj
    have hj16 : u16 j = v.owner s := by
      rw [howner]
      exact u16_of_lt ((hv.owner_le s).trans_lt hv.target_lt_u16)
    refine ⟨update v.location s (v.owner s), fun r => ?_, ?_⟩
    · rcases eq_or_ne r s with rfl | hne
      · exact .inr ⟨h0, update_self _ _ _⟩
      · exact .inl (update_of_ne hne _ _)
    · rw [hj]
      simp only [hj16]
      rfl
  · exact ⟨_, Filled.refl v, rfl⟩

theorem Settled.found_le (h : v.Settled) (s : ℕ) : v.found s ≤ v.target := by
  unfold Volume.found
  split_ifs
  · exact le_rfl
  · exact h.entry_le s

theorem Agree.found (h : Agree v w) (s : ℕ) : w.found s = v.found s := by
  unfold Volume.found
  rw [h.locationLen, h.target]
  split_ifs with hs
  · rfl
  · exact h.entry s (by omega)

/-- The file that is found has the same bytes in the sector. -/
theorem Agree.found_data (h : Agree v w) (b : ℕ) :
    (w.store (v.file (v.found (b / defaultSectorSize)))).data b =
      (v.store (v.file (v.found (b / defaultSectorSize)))).data b := by
  unfold Volume.found
  split_ifs with hs
  · rw [h.active]
  · exact h.data b (by omega)

theorem Filled.found (h : v.Filled l) (s : ℕ) : (v.withLocation l).found s = v.found s := by
  unfold Volume.found
  rw [h.entry]
  rfl

/-- Both find the same file. -/
theorem Agree.lookup (h : Agree v w) (hdev : dev.Queries) (s : ℕ) :
    ∃ v' w', Volume.lookup dev v s = (v', .ok (v.found s)) ∧
    Volume.lookup dev w s = (w', .ok (v.found s)) ∧ Agree v' w' ∧ v'.found = v.found ∧
    v'.files = v.files := by
  obtain ⟨l, hl, hv⟩ := lookup_found hdev h.left s
  obtain ⟨m, hm, hw⟩ := lookup_found hdev h.right s
  rw [h.found] at hw
  exact ⟨_, _, hv, hw, h.filled hl hm, funext hl.found, rfl⟩

end Lookup

/-! ## Reads -/

/-- Two reads with the same outcome, on volumes that agree. -/
structure SameRead (r r' : ReadResult) : Prop where
  agree : Agree r.v r'.v
  buf : r'.buf = r.buf
  n : r'.n = r.n
  err : r'.err = r.err

/-- Two loops of `fullReadAt` before sector `i` of the request. The pending run is of one file. -/
structure SameLoop (offset i : ℕ) (st st' : ReadState) : Prop where
  agree : Agree st.v st'.v
  buf : st'.buf = st.buf
  count : st'.count = st.count
  target : st'.target = st.target
  readSectors : st'.readSectors = st.readSectors
  pos : 0 < st.readSectors
  le : st.readSectors ≤ i
  run : ∀ j, i - st.readSectors ≤ j → j < i →
    st.v.found (offset / defaultSectorSize + j) = st.target

section Reads

variable {dev : Dev} {offset : ℕ}
variable {w : Volume}

theorem readFile_congr {store' : ℕ → SparseFile} {off len : ℕ}
    (hsize : (store' f).size = (store f).size) (hdata : ∀ b, off ≤ b → b < off + len →
      (store' f).data b = (store f).data b) :
    readFile dev store' f off len = readFile dev store f off len := by
  have hbytes : ∀ n, n ≤ len → bytesFrom (store' f).data off n = bytesFrom (store f).data off n :=
    fun n hn => bytesFrom_congr fun b h1 h2 => hdata b h1 (by omega)
  unfold readFile
  rw [hsize]
  split
  · rw [hbytes _ (min_le_right _ _)]
  · rw [hbytes len le_rfl, hbytes _ (min_le_left _ _)]

theorem SameLoop.readRun {i : ℕ} {st st' : ReadState} (h : SameLoop offset i st st') (dev : Dev)
    (ho : offset % defaultSectorSize = 0) :
    Volume.readRun dev offset i st' = Volume.readRun dev offset i st := by
  have hle := h.le
  unfold Volume.readRun Volume.read
  rw [h.target, h.buf, h.readSectors, h.agree.file]
  split_ifs
  · rfl
  · have hfile : readFile dev st'.v.store (st.v.file st.target)
        (offset + (i - st.readSectors) * defaultSectorSize) (st.readSectors * defaultSectorSize) =
        readFile dev st.v.store (st.v.file st.target)
        (offset + (i - st.readSectors) * defaultSectorSize)
        (st.readSectors * defaultSectorSize) := by
      have hlast := h.run (i - 1) (by have := h.pos; omega) (by have := h.pos; omega)
      have hlt := (h.agree.left.found_le (offset / defaultSectorSize + (i - 1))).trans_lt
        h.agree.left.target_lt
      refine readFile_congr (h.agree.size _ (hlast ▸ hlt)) fun b h1 h2 => ?_
      have hfound : st.v.found (b / defaultSectorSize) = st.target := by
        have hj := h.run (b / defaultSectorSize - offset / defaultSectorSize)
        rw [defaultSectorSize_eq] at *
        rw [Nat.add_sub_cancel' (by omega)] at hj
        exact hj (by omega) (by omega)
      rw [← hfound]
      exact h.agree.found_data b
    simp only [hfile]

theorem fullReadLoop_same (hdev : dev.Queries) (ho : offset % defaultSectorSize = 0) (sectors : ℕ) :
    ∀ (m : ℕ) {st st' : ReadState}, m ≤ sectors → SameLoop offset (sectors - m) st st' →
      SameRead (fullReadLoop dev offset sectors m st) (fullReadLoop dev offset sectors m st')
  | 0, st, st', _, h => by
    have hrun := h.readRun dev ho
    rw [Nat.sub_zero] at hrun
    simp only [fullReadLoop, hrun]
    exact ⟨h.agree, rfl, by rw [h.count], rfl⟩
  | m + 1, st, ⟨w₀, buf, count, target, readSectors⟩, hm, h => by
    obtain ⟨hagree₀, rfl, rfl, rfl, rfl, hpos, hle, hrun₀⟩ := h
    obtain ⟨v, w, hv, hw, hagree, hfound, -⟩ :=
      hagree₀.lookup hdev (offset / defaultSectorSize + (sectors - (m + 1)))
    have hnext : SameLoop offset (sectors - (m + 1)) { st with v := v } { st with v := w } :=
      ⟨hagree, rfl, rfl, rfl, rfl, hpos, hle, fun j h1 h2 =>
        (congrFun hfound _).trans (hrun₀ j h1 h2)⟩
    have hrun := hnext.readRun dev ho
    simp only [fullReadLoop, hv, hw]
    split_ifs with heq
    · refine fullReadLoop_same hdev ho sectors m (by omega)
        ⟨hagree, rfl, rfl, rfl, rfl, Nat.succ_pos _, by simp only; omega, fun j h1 h2 => ?_⟩
      simp only at h1 h2 ⊢
      rw [hfound]
      rcases Nat.lt_or_ge j (sectors - (m + 1)) with hlt | hge
      · exact hrun₀ j (by omega) hlt
      · obtain rfl : j = sectors - (m + 1) := by omega
        exact heq
    · rw [hrun]
      cases (Volume.readRun dev offset (sectors - (m + 1)) { st with v := v }).2.2 with
      | some e => exact ⟨hagree, rfl, rfl, rfl⟩
      | none =>
        refine fullReadLoop_same hdev ho sectors m (by omega)
          ⟨hagree, rfl, rfl, rfl, rfl, Nat.one_pos, by simp only; omega, fun j h1 h2 => ?_⟩
        simp only at h1 h2 ⊢
        obtain rfl : j = sectors - (m + 1) := by omega
        rw [hfound]

theorem Agree.fullReadAt (h : Agree v w) (hdev : dev.Queries) (buf : List Byte)
    (offset : ℕ) : SameRead (v.fullReadAt dev buf offset) (w.fullReadAt dev buf offset) := by
  unfold Volume.fullReadAt
  split_ifs with hmod h0
  · exact ⟨h, rfl, rfl, rfl⟩
  · exact ⟨h, rfl, rfl, rfl⟩
  · obtain ⟨v', w', hv, hw, hagree, hfound, -⟩ := h.lookup hdev (offset / defaultSectorSize)
    have hsectors : 0 < buf.length / defaultSectorSize := by
      rw [defaultSectorSize_eq] at *
      omega
    simp only [hv, hw]
    refine fullReadLoop_same hdev (by omega) _ _ (by omega)
      ⟨hagree, rfl, rfl, rfl, rfl, Nat.one_pos, by simp only; omega, fun j h1 h2 => ?_⟩
    simp only at h1 h2 ⊢
    obtain rfl : j = 0 := by omega
    rw [hfound, Nat.add_zero]

theorem SameRead.andThen {r r' : ReadResult} (h : SameRead r r') (buf : List Byte)
    {next next' : Volume → ReadResult} (hnext : SameRead (next r.v) (next' r'.v)) :
    SameRead (r.andThen buf next) (r'.andThen buf next') := by
  unfold ReadResult.andThen
  rw [h.err]
  cases r.err with
  | some e => exact ⟨h.agree, rfl, rfl, rfl⟩
  | none => exact hnext

theorem Agree.readEnd (h : Agree v w) (hdev : dev.Queries) (readBuf buf : List Byte)
    (offset endOffset : ℕ) : SameRead (Volume.readEnd dev readBuf buf offset endOffset v)
      (Volume.readEnd dev readBuf buf offset endOffset w) := by
  unfold Volume.readEnd
  split_ifs
  · have hread := h.fullReadAt hdev readBuf (offset + buf.length - endOffset)
    refine hread.andThen buf ⟨hread.agree, ?_, rfl, rfl⟩
    simp only [hread.buf]
  · exact ⟨h, rfl, rfl, rfl⟩

theorem Agree.readRest (h : Agree v w) (hdev : dev.Queries) (readBuf buf : List Byte)
    (offset startCut endOffset : ℕ) :
    SameRead (Volume.readRest dev readBuf buf offset startCut endOffset v)
      (Volume.readRest dev readBuf buf offset startCut endOffset w) := by
  unfold Volume.readRest
  split_ifs
  · exact ⟨h, rfl, rfl, rfl⟩
  · have hread := h.fullReadAt hdev ((buf.drop startCut).take (buf.length - endOffset - startCut))
      (offset + startCut)
    simp only [hread.buf]
    exact hread.andThen _ (hread.agree.readEnd hdev _ _ _ _)

theorem Agree.readAt (h : Agree v w) (hdev : dev.Queries) (buf : List Byte)
    (offset : ℕ) : SameRead (v.readAt dev buf offset) (w.readAt dev buf offset) := by
  unfold Volume.readAt
  simp only
  split_ifs
  · exact ⟨h, rfl, rfl, rfl⟩
  · exact h.fullReadAt hdev buf offset
  · have hread := h.fullReadAt hdev zeroSector (offset - offset % defaultSectorSize)
    rw [hread.buf]
    exact hread.andThen _ (hread.agree.readRest hdev _ _ _ _ _)

end Reads

/-! ## Writes -/

/-- Two writes with the same outcome, on volumes that agree. -/
structure SameWrite (r r' : WriteResult) : Prop where
  agree : Agree r.v r'.v
  n : r'.n = r.n
  err : r'.err = r.err

section Writes

variable {dev : Dev} {v w : Volume}

theorem writeFile_congr {store' : ℕ → SparseFile} (dev : Dev) (buf : List Byte) (off : ℕ)
    (h : store' f = store f) :
    (writeFile dev store' f buf off).1 f = (writeFile dev store f buf off).1 f ∧
    (writeFile dev store' f buf off).2 = (writeFile dev store f buf off).2 := by
  unfold writeFile
  split <;> simp [h]

theorem writeAt_alloc_outside (file : SparseFile) {buf : List Byte} {n : ℕ}
    (hn : buf.length ≤ n * defaultSectorSize) (hs : ¬(k ≤ s ∧ s < k + n)) :
    (file.writeAt buf (k * defaultSectorSize)).alloc s = file.alloc s := by
  have hmeets : SparseFile.meets (k * defaultSectorSize) buf.length s = false := by
    rw [← Bool.not_eq_true, SparseFile.meets_iff]
    rw [defaultSectorSize_eq] at *
    omega
  rw [SparseFile.writeAt_alloc, hmeets, Bool.or_false]

/-- A write allocates nothing outside the sectors of the request. -/
theorem writeFile_alloc_outside {n : ℕ} {buf : List Byte}
    (hn : buf.length ≤ n * defaultSectorSize) (hs : ¬(k ≤ s ∧ s < k + n)) (g : ℕ) :
    ((writeFile dev store f buf (k * defaultSectorSize)).1 g).alloc s = (store g).alloc s := by
  rcases eq_or_ne g f with rfl | hne
  · unfold writeFile
    split
    · simp only [update_self]
      exact writeAt_alloc_outside _ ((List.length_take_le' _ _).trans hn) hs
    · simp only [update_self]
      exact writeAt_alloc_outside _ hn hs
  · rw [(writeFile_spec dev store f buf _).1 g hne]

section Aligned

variable {buf : List Byte} {k n : ℕ} {r : WriteResult}

section

variable (h : FullWrite dev v buf (k * defaultSectorSize) r)
include h

theorem FullWrite.location' (hv : v.Settled)
    (hn : buf.length = n * defaultSectorSize) (s : ℕ) :
    r.v.location s = if k ≤ s ∧ s < k + n then v.target else v.location s := by
  have hk := mul_sector_div k
  have hn' := mul_sector_div n
  have hloc := h.location s
  rwa [hn, hk, hn', u16_of_lt hv.target_lt_u16] at hloc

/-- After a write the active layer is found for the sectors of the request, and the same file as
before for all others. -/
theorem FullWrite.entry (hv : v.Settled)
    (hn : buf.length = n * defaultSectorSize) (s : ℕ) :
    r.v.entry s = if k ≤ s ∧ s < k + n then v.target else v.entry s := by
  have hpos := hv.target_pos
  have hlen : r.v.files.length = v.files.length := by rw [h.same.files]
  unfold Volume.entry
  rw [hlen, h.location' hv hn]
  split_ifs
  · unfold DiffDisk.target
    omega
  · rfl
  · omega
  · rfl
  · unfold owner topFile
    rw [h.same.target]
    congr 1
    refine top_congr fun i _ _ => ?_
    unfold hasExtent
    rw [h.same.file, h.store]
    exact writeFile_alloc_outside hn.le ‹_› _
  · rfl

theorem FullWrite.settled (hv : v.Settled)
    (hn : buf.length = n * defaultSectorSize) : r.v.Settled where
  two_le := h.same.files ▸ hv.two_le
  le_u16 := h.same.files ▸ hv.le_u16
  nodup := h.same.files ▸ hv.nodup
  le s := by
    rw [h.location' hv hn, h.same.target]
    split_ifs
    · exact le_rfl
    · exact hv.le s
  queue hole hh := by
    obtain ⟨hs, heq, hall⟩ := h.holes
    rw [heq] at hh
    rcases List.mem_append.1 hh with hh | hh
    · obtain ⟨f, lo, len, rfl, hf, hbelow⟩ := hv.queue hole hh
      refine ⟨f, lo, len, by rw [h.same.file], h.same.files ▸ hf, fun s h1 h2 => ?_⟩
      have := hbelow s h1 h2
      have := hv.le s
      rw [h.location' hv hn]
      split_ifs <;> omega
    · obtain ⟨i, lo, len, hw⟩ := hall hole hh
      obtain ⟨s₀, -, -, ⟨-, hne⟩, hi⟩ := hw.held
      have hle := hv.le s₀
      have hlo := hw.start_le
      have hhi := hw.le_end
      have hlt := hv.target_lt
      rw [u16_of_lt hv.target_lt_u16] at hne
      rw [Nat.mul_div_cancel _ (by decide : 0 < defaultSectorSize), hn,
        Nat.mul_div_cancel _ (by decide : 0 < defaultSectorSize)] at hhi
      rw [Nat.mul_div_cancel _ (by decide : 0 < defaultSectorSize)] at hlo
      refine ⟨i, lo,
        len, by rw [hw.eq, h.same.file], by rw [h.same.files]; omega, fun s h1 h2 => ?_⟩
      rw [h.location' hv hn, if_pos (by omega)]
      omega

end

end Aligned

theorem Agree.fullWriteAt (h : Agree v w) (dev : Dev) (buf : List Byte) (offset : ℕ) :
    SameWrite (v.fullWriteAt dev buf offset) (w.fullWriteAt dev buf offset) := by
  by_cases hmod : buf.length % defaultSectorSize ≠ 0 ∨ offset % defaultSectorSize ≠ 0
  · unfold Volume.fullWriteAt
    rw [if_pos hmod, if_pos hmod]
    exact ⟨h, rfl, rfl⟩
  obtain ⟨hb, ho⟩ := not_or.1 hmod
  rw [not_not] at hb ho
  obtain ⟨k, rfl⟩ : ∃ k, offset = k * defaultSectorSize :=
    ⟨_, (Nat.div_mul_cancel (Nat.dvd_of_mod_eq_zero ho)).symm⟩
  obtain ⟨n, hn⟩ : ∃ n, buf.length = n * defaultSectorSize :=
    ⟨_, (Nat.div_mul_cancel (Nat.dvd_of_mod_eq_zero hb)).symm⟩
  have hv := fullWriteAt_spec dev v buf (k * defaultSectorSize) hb ho
  have hw := fullWriteAt_spec dev w buf (k * defaultSectorSize) hb ho
  generalize v.fullWriteAt dev buf (k * defaultSectorSize) = r at hv ⊢
  generalize w.fullWriteAt dev buf (k * defaultSectorSize) = r' at hw ⊢
  obtain ⟨hfile, hres⟩ := writeFile_congr dev buf (k * defaultSectorSize) h.active
  have hvstore := hv.store
  have hwstore := hw.store
  have hwcount := hw.count
  have hwerr := hw.err
  rw [h.file, h.target] at hwstore hwcount hwerr
  have hother : ∀ i, v.file i ≠ v.file v.target → r.v.store (v.file i) = v.store (v.file i) ∧
      r'.v.store (v.file i) = w.store (v.file i) := fun i hi => by
    rw [hvstore, hwstore]
    exact ⟨(writeFile_spec dev _ _ buf _).1 _ hi, (writeFile_spec dev _ _ buf _).1 _ hi⟩
  have hactive : r'.v.store (v.file v.target) = r.v.store (v.file v.target) := by
    rw [hvstore, hwstore]
    exact hfile
  refine ⟨⟨hv.settled h.left hn, hw.settled h.right hn, ?_, ?_, ?_, ?_, ?_, ?_⟩, ?_, ?_⟩
  · rw [hw.same.files, hv.same.files, h.files]
  · rw [hw.same.locationLen, hv.same.locationLen, h.locationLen]
  · rw [hv.same.file, hv.same.target]
    exact hactive
  · intro i hi
    rw [hv.same.files] at hi
    rw [hv.same.file]
    rcases eq_or_ne (v.file i) (v.file v.target) with heq | hne
    · rw [heq, hactive]
    · rw [(hother i hne).1, (hother i hne).2, h.size i hi]
  · intro s hs
    rw [hv.same.locationLen] at hs
    rw [hv.entry h.left hn, hw.entry h.right hn, h.target, h.entry s hs]
  · intro b hb
    rw [hv.same.locationLen] at hb
    rw [hv.same.file, hv.entry h.left hn]
    split_ifs
    · rw [hactive]
    · rcases eq_or_ne (v.file (v.entry (b / defaultSectorSize))) (v.file v.target) with heq | hne
      · rw [heq, hactive]
      · rw [(hother _ hne).1, (hother _ hne).2, h.data b hb]
  · rw [hwcount, hv.count, hres]
  · rw [hwerr, hv.err, hres]

theorem SameWrite.andThen {r r' : WriteResult} (h : SameWrite r r')
    {next next' : Volume → WriteResult} (hnext : SameWrite (next r.v) (next' r'.v)) :
    SameWrite (r.andThen next) (r'.andThen next') := by
  unfold WriteResult.andThen
  rw [h.err]
  cases r.err with
  | some e => exact ⟨h.agree, rfl, rfl⟩
  | none => exact hnext

theorem Agree.readModifyWrite (h : Agree v w) (hdev : dev.Queries) (buf : List Byte) (offset : ℕ) :
    SameWrite (v.readModifyWrite dev buf offset) (w.readModifyWrite dev buf offset) := by
  unfold Volume.readModifyWrite
  split_ifs
  · exact ⟨h, rfl, rfl⟩
  · have hread := h.fullReadAt hdev zeroSector (offset / defaultSectorSize * defaultSectorSize)
    dsimp only
    generalize v.fullReadAt dev zeroSector (offset / defaultSectorSize * defaultSectorSize) =
      r at hread ⊢
    generalize w.fullReadAt dev zeroSector (offset / defaultSectorSize * defaultSectorSize) =
      r' at hread ⊢
    rw [hread.err, hread.buf]
    cases r.err with
    | some e => exact ⟨hread.agree, rfl, rfl⟩
    | none => exact hread.agree.fullWriteAt dev _ _

theorem Agree.writeAt (h : Agree v w) (hdev : dev.Queries) (buf : List Byte) (offset : ℕ) :
    SameWrite (v.writeAt dev buf offset) (w.writeAt dev buf offset) := by
  unfold Volume.writeAt
  simp only
  split_ifs
  · exact ⟨h, rfl, rfl⟩
  · exact h.fullWriteAt dev buf offset
  · exact h.readModifyWrite hdev buf offset
  · have hfirst := h.readModifyWrite hdev
      (buf.take (defaultSectorSize - offset % defaultSectorSize)) offset
    refine hfirst.andThen ?_
    have hmiddle := hfirst.agree.fullWriteAt dev
      ((buf.drop (defaultSectorSize - offset % defaultSectorSize)).take
        (buf.length - (buf.length + offset) % defaultSectorSize -
          (defaultSectorSize - offset % defaultSectorSize)))
      (offset + (defaultSectorSize - offset % defaultSectorSize))
    refine hmiddle.andThen ?_
    have hlast := hmiddle.agree.readModifyWrite hdev
      (buf.drop (buf.length - (buf.length + offset) % defaultSectorSize))
      (offset + buf.length - (buf.length + offset) % defaultSectorSize)
    exact hlast.andThen ⟨hlast.agree, rfl, rfl⟩

end Writes

/-! ## Holes -/

section Holes

variable {v v' w w' : Volume}

theorem Agree.symm (h : Agree v w) : Agree w v where
  left := h.right
  right := h.left
  files := h.files.symm
  locationLen := h.locationLen.symm
  active := by
    rw [h.file, h.target]
    exact h.active.symm
  size i hi := by
    rw [h.file]
    exact (h.size i (h.files ▸ hi)).symm
  entry s hs := (h.entry s (h.locationLen ▸ hs)).symm
  data b hb := by
    rw [h.locationLen] at hb
    rw [h.entry _ hb, h.file]
    exact (h.data b hb).symm

/-- A hole of `v` that is below the entries of the table has been punched in `v'`. -/
structure Hidden (v v' : Volume) (f lo len : ℕ) : Prop where
  effect : PunchEffect v v' (fun i => i = f) (lo * defaultSectorSize) (len * defaultSectorSize)
  lt : f < v.files.length
  below : ∀ s, lo ≤ s → s < lo + len → f < v.location s

theorem Settled.createHole (hv : v.Settled) (h : v.createHole k = some v') :
    v'.Settled ∧ ∃ f lo len, Hidden v v' f lo len := by
  obtain ⟨hole, hmem, hchan, heff⟩ := createHole_effect hv.nodup h
  obtain ⟨f, lo, len, rfl, hf, hbelow⟩ := hv.queue hole hmem
  have he := heff f hf rfl
  refine ⟨⟨he.same.files ▸ hv.two_le, he.same.files ▸ hv.le_u16, he.same.files ▸ hv.nodup,
    fun s => ?_, fun g hg => ?_⟩, f, lo, len, he, hf, hbelow⟩
  · rw [he.location, he.same.target]
    exact hv.le s
  · rw [hchan] at hg
    obtain ⟨f', lo', len', rfl, hf', hbelow'⟩ := hv.queue g (List.mem_of_mem_eraseIdx hg)
    refine ⟨f', lo', len', by rw [he.same.file], he.same.files ▸ hf', fun s h1 h2 => ?_⟩
    rw [he.location]
    exact hbelow' s h1 h2

section Hidden

variable {f lo len : ℕ}

section

variable (h : Hidden v v' f lo len)
include h

theorem Hidden.entry (hv : v.Settled) (s : ℕ) : v'.entry s = v.entry s := by
  unfold Volume.entry
  rw [h.effect.same.files, h.effect.location]
  split_ifs with h2 h0
  · rfl
  · -- an unknown entry has no waiting hole
    unfold owner topFile
    rw [h.effect.same.target]
    congr 1
    refine top_congr fun i _ hi => ?_
    have hout : ¬(i = f ∧ lo ≤ s ∧ s < lo + len) := fun hin => by
      have := h.below s hin.2.1 hin.2.2
      omega
    have hit := hi.trans_lt hv.target_lt
    rw [h.effect.hasExtent_hole hit, decide_eq_false hout, Bool.not_false, Bool.and_true]
  · rfl

/-- The punched file is not the one that is found in the punched sectors. -/
theorem Hidden.ne_entry (hv : v.Settled) (h1 : lo ≤ s)
    (h2 : s < lo + len) : v.entry s ≠ f := by
  have hbelow := h.below s h1 h2
  have hle := hv.le s
  unfold Volume.entry
  split_ifs with hlen h0
  · unfold DiffDisk.target at hle
    omega
  · omega
  · omega

theorem Hidden.data (hv : v.Settled) (b : ℕ) :
    (v'.store (v.file (v.entry (b / defaultSectorSize)))).data b =
      (v.store (v.file (v.entry (b / defaultSectorSize)))).data b := by
  have hle := (hv.entry_le (b / defaultSectorSize)).trans_lt hv.target_lt
  rw [h.effect.data hle, if_neg]
  rintro ⟨heq, h1, h2⟩
  refine h.ne_entry hv ?_ ?_ heq <;> rw [defaultSectorSize_eq] at * <;> omega

theorem Hidden.active (hv : v.Settled) :
    v'.store (v.file v.target) = v.store (v.file v.target) := by
  rw [h.effect.store _ hv.target_lt]
  split_ifs with heq
  · rcases Nat.eq_zero_or_pos len with rfl | hpos
    · rw [Nat.zero_mul, SparseFile.punchHole_zero]
    · have := h.below lo le_rfl (by omega)
      have := hv.le lo
      omega
  · rfl

theorem Hidden.size {i : ℕ} (hi : i < v.files.length) :
    (v'.store (v.file i)).size = (v.store (v.file i)).size := by
  rw [h.effect.store i hi]
  split_ifs <;> rfl

end

end Hidden

theorem Agree.createHole (h : Agree v w) (hstep : v.createHole k = some v') : Agree v' w := by
  obtain ⟨hsettled, f, lo, len, hhole⟩ := h.left.createHole hstep
  have hsame := hhole.effect.same
  refine ⟨hsettled, h.right, ?_, ?_, ?_, fun i hi => ?_, fun s hs => ?_, fun b hb => ?_⟩
  · rw [hsame.files, h.files]
  · rw [hsame.locationLen, h.locationLen]
  · rw [hsame.file, hsame.target, hhole.active h.left, h.active]
  · rw [hsame.files] at hi
    rw [hsame.file, hhole.size hi, h.size i hi]
  · rw [hsame.locationLen] at hs
    rw [hhole.entry h.left, h.entry s hs]
  · rw [hsame.locationLen] at hb
    rw [hsame.file, hhole.entry h.left, hhole.data h.left, h.data b hb]

end Holes

/-! ## Runs -/

/-- What happens to the two volumes. A hole is taken on the side with the table of `preload` or on
the other. -/
inductive TableOp where
  | read (dev : Dev) (buf : List Byte) (offset : ℕ)
  | write (dev : Dev) (buf : List Byte) (offset : ℕ)
  | hole (preloaded : Bool) (k : ℕ)

/-- The same reads and writes on both volumes, and holes on either. -/
def tableStep (p : Volume × Volume) : TableOp → Option (Volume × Volume)
  | .read dev buf offset => some ((p.1.readAt dev buf offset).v, (p.2.readAt dev buf offset).v)
  | .write dev buf offset => some ((p.1.writeAt dev buf offset).v, (p.2.writeAt dev buf offset).v)
  | .hole false k => (p.1.createHole k).map fun v => (v, p.2)
  | .hole true k => (p.2.createHole k).map fun w => (p.1, w)

/-- The extent queries of the step do not fail. Its reads and writes may. -/
def TableOp.Queries : TableOp → Prop
  | .read dev _ _ => dev.Queries
  | .write dev _ _ => dev.Queries
  | .hole _ _ => True

theorem Agree.step {p q : Volume × Volume} {op : TableOp} (h : Agree p.1 p.2) (hop : op.Queries)
    (hstep : tableStep p op = some q) : Agree q.1 q.2 := by
  cases op with
  | read dev buf offset =>
    cases hstep
    exact (h.readAt hop buf offset).agree
  | write dev buf offset =>
    cases hstep
    exact (h.writeAt hop buf offset).agree
  | hole preloaded k =>
    cases preloaded with
    | false =>
      obtain ⟨v, hv, rfl⟩ := Option.map_eq_some_iff.1 hstep
      exact h.createHole hv
    | true =>
      obtain ⟨w, hw, rfl⟩ := Option.map_eq_some_iff.1 hstep
      exact (h.symm.createHole hw).symm

/-- The highest file that `findExtents` reports is the highest one, if it reports any. -/
theorem top_findExtents {backing : Bool} {u : ℕ}
    (h : top (v.findExtents backing) u s ≠ 0) :
    v.topFile u s = top (v.findExtents backing) u s := by
  refine top_eq (top_le _ u s) (fun h0 => hasExtent_of_findExtents (holds_top _ u s h0))
    fun i hi hiu => ?_
  by_contra hext
  rw [Bool.not_eq_false] at hext
  -- only the file at index `1` is left out, and `i` is above a file
  have hseen : v.findExtents backing i s = true := by
    have hne : (i == 1) = false := by
      rw [beq_eq_false_iff_ne]
      omega
    unfold findExtents
    rw [hext, hne, Bool.and_false]
    rfl
  have := le_top (v.findExtents backing) hiu hseen (by omega)
  omega

/-- A chain with an empty table, and the same chain with the table of `preload`. -/
theorem agree_preload (h2 : 2 ≤ v.files.length) (hu16 : v.files.length ≤ 65536)
    (hn : v.files.Nodup) (h0 : ∀ s, v.location s = 0) (hchan : v.holeCreatorChan = [])
    (backing : Bool) : Agree v (v.preloadFiles backing) := by
  obtain ⟨hsame, htable, houtside, -, hsent⟩ :=
    Scan.all_spec hu16 h0 v.shouldPunchHoles (v.findExtents backing)
  have hchain : v.SameChain (v.preloadFiles backing) :=
    ⟨hsame.files, hsame.locationLen, hsame.userCreatedSnap, hsame.snapIndx, rfl⟩
  have hloc : ∀ s, s < v.locationLen →
      (v.preloadFiles backing).location s = top (v.findExtents backing) v.target s := htable
  have hv : v.Settled := by
    refine ⟨h2, hu16, hn, fun s => (h0 s).trans_le (Nat.zero_le _), ?_⟩
    rw [hchan]
    nofun
  have hw : (v.preloadFiles backing).Settled := by
    refine ⟨hchain.files ▸ h2, hchain.files ▸ hu16, hchain.files ▸ hn, fun s => ?_,
      fun hole hh => ?_⟩
    · rw [hchain.target]
      rcases Nat.lt_or_ge s v.locationLen with hs | hs
      · rw [hloc s hs]
        exact top_le _ _ _
      · exact (houtside s hs).trans_le (Nat.zero_le _)
    · have hmem : hole ∈
          (Scan.all v.shouldPunchHoles (v.findExtents backing) v.toDiffDisk).sent := by
        rcases List.mem_append.1 hh with hh | hh
        · rw [hchan] at hh
          cases hh
        · exact hh
      obtain ⟨f, lo, len, hpos, hlt, hin, rfl, hall⟩ := hsent hole hmem
      have htl := hv.target_lt
      refine ⟨f, lo, len, by rw [hchain.file], by rw [hchain.files]; omega, fun s h1 h2 => ?_⟩
      obtain ⟨j, hfj, hjt, hj, -⟩ := hall s h1 h2
      rw [hloc s (by omega)]
      exact hfj.trans_le (le_top _ hjt hj (by omega))
  have howner : ∀ s, (v.preloadFiles backing).owner s = v.owner s := fun s => by
    unfold owner topFile
    rw [hchain.target]
    congr 1
    exact top_congr fun i _ _ => hchain.hasExtent rfl i s
  refine ⟨hv, hw, hchain.files, hchain.locationLen, rfl, fun _ _ => rfl, fun s hs => ?_,
    fun _ _ => rfl⟩
  unfold Volume.entry
  rw [hchain.files, howner, hloc s hs, h0 s, if_pos rfl]
  split_ifs with hone hzero
  · rfl
  · rfl
  · unfold owner
    rw [top_findExtents hzero]
    omega

/-- Whatever is read, written and punched, `lookup` finds the same file in a table that it fills
itself and in the table of `preload`, and this file has the same bytes in the sector on both
sides. -/
theorem lookup_agree {v : Volume} (h2 : 2 ≤ v.files.length) (hu16 : v.files.length ≤ 65536)
    (hn : v.files.Nodup) (h0 : ∀ s, v.location s = 0) (hchan : v.holeCreatorChan = [])
    (backing : Bool) {ops : List TableOp} {p : Volume × Volume}
    (hrun : run tableStep (v, v.preloadFiles backing) ops = some p)
    (hgood : Transition.Along tableStep (fun _ op => op.Queries) (v, v.preloadFiles backing) ops)
    {dev : Dev} (hdev : dev.Queries) (s : ℕ) :
    ∃ i, (lookup dev p.1 s).2 = .ok i ∧ (lookup dev p.2 s).2 = .ok i ∧
      ∀ b, b / defaultSectorSize = s →
        (p.1.store (p.1.file i)).data b = (p.2.store (p.2.file i)).data b := by
  have h : Agree p.1 p.2 := inv_of_run (I := fun q => Agree q.1 q.2)
    (fun _ _ _ h hop hs => h.step hop hs) (agree_preload h2 hu16 hn h0 hchan backing) hgood hrun
  obtain ⟨v', w', hv, hw, -⟩ := h.lookup hdev s
  refine ⟨p.1.found s, by rw [hv], by rw [hw], fun b hb => ?_⟩
  rw [h.file, ← hb]
  exact (h.found_data b).symm

/-- A backing file with the second of two sectors and a head with the first, after a read and a
write. -/
theorem lookup_agree_backing :
    let v : Volume := { Volume.new 2 1 with
      files := [0, 1, 2]
      store := fun f => (SparseFile.empty 8192).writeAt [7] (if f = 1 then 4096 else 0) }
    ∃ p, run tableStep (v, v.preloadFiles true)
        [.read Dev.ok [0] 4096, .write Dev.ok [9] 0] = some p ∧
      ∃ i, (lookup Dev.ok p.1 1).2 = .ok i ∧ (lookup Dev.ok p.2 1).2 = .ok i ∧
        ∀ b, b / defaultSectorSize = 1 →
          (p.1.store (p.1.file i)).data b = (p.2.store (p.2.file i)).data b := by
  intro v
  have hgood : Transition.Along tableStep (fun _ op => op.Queries) (v, v.preloadFiles true)
      [.read Dev.ok [0] 4096, .write Dev.ok [9] 0] :=
    ⟨fun _ _ => rfl, fun _ _ => ⟨fun _ _ => rfl, fun _ _ => trivial⟩⟩
  exact ⟨_, rfl, lookup_agree (v := v) (by decide) (by decide) (by decide)
    (fun _ => rfl) rfl true rfl hgood (fun _ _ => rfl) 1⟩

end Volume

end Jiva
