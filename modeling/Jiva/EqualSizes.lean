import Jiva.CheckedWrites
import Jiva.RemoveSnapshot

/-!
# Files of one size

`construct` and `Resize` truncate every file of the chain to the size of the volume. `Volume.Sized`
adds to `Shaped` that no other file is longer, and that the bytes behind the end of a file are zero.
Requests inside the volume keep this, whatever the device does (`Sized.writeAt`) : whole sectors are
written at their place, and a write inside a last sector that the files have only in part fails,
because the sector can not be read.

If the size is a multiple of the sector size and the table covers it, no request inside the volume
fails on a device that works (`Sized.readAt_ok`, `Sized.writeAt_ok`).
-/

namespace Jiva

open Function

/-- The bytes behind the end of the file are zero. -/
def SparseFile.Tight (f : SparseFile) : Prop :=
  ∀ b, f.size ≤ b → f.data b = 0

namespace SparseFile.Tight

variable {f : SparseFile}

theorem writeAt (h : f.Tight) (buf : List Byte) (off : ℕ) : (f.writeAt buf off).Tight := by
  intro b hb
  have hsize : (f.writeAt buf off).size = max f.size (off + buf.length) := rfl
  rw [hsize] at hb
  rw [SparseFile.writeAt_data, if_neg (by omega)]
  exact h b (by omega)

theorem punchHole (h : f.Tight) (off len : ℕ) : (f.punchHole off len).Tight := by
  intro b hb
  rw [SparseFile.punchHole_data]
  split_ifs
  · rfl
  · exact h b hb

theorem truncate (f : SparseFile) (size : ℕ) : (f.truncate size).Tight :=
  fun _ hb => if_neg (Nat.not_lt.2 hb)

theorem copySector {src : SparseFile} (h : f.Tight) (hsrc : src.Tight) (hsize : src.size ≤ f.size)
    (s : ℕ) : (f.copySector src s).Tight := by
  intro b hb
  have hb : f.size ≤ b := hb
  show (if b / defaultSectorSize = s ∧ src.alloc s = true then src.data b else f.data b) = 0
  split_ifs
  · exact hsrc b (hsize.trans hb)
  · exact h b hb

end SparseFile.Tight

namespace Volume

variable {v w : Volume} {z : ℕ}
variable {f offset : ℕ} {buf : List Byte} {store : ℕ → SparseFile} {dev : Dev}

/-- The files of the chain have size `z`, and no file is longer or has bytes behind its end. -/
structure Sized (v : Volume) (z : ℕ) : Prop extends v.Shaped z where
  bound : ∀ f, (v.store f).size ≤ z
  tight : ∀ f, (v.store f).Tight

section

variable (h : v.Sized z)
include h

theorem Sized.target_pos : 0 < v.target := by
  have := h.two_le
  unfold DiffDisk.target
  omega

theorem Sized.target_lt : v.target < v.files.length := by
  have := h.two_le
  unfold DiffDisk.target
  omega

theorem Sized.u16_of_le {i : ℕ} (hi : i ≤ v.target) : u16 i = i :=
  u16_of_lt ((hi.trans_lt h.target_lt).trans_le h.le_u16)

/-- The table may change, and files may change that keep their size. -/
theorem Sized.of_files (hs : v.SameChain w) (hl : w.LocationLe)
    (hsize : ∀ f, (w.store f).size = (v.store f).size) (htight : ∀ f, (w.store f).Tight) :
    w.Sized z where
  two_le := by rw [hs.files]; exact h.two_le
  le_u16 := by rw [hs.files]; exact h.le_u16
  size i h₀ hi := by
    rw [hs.files] at hi
    rw [hsize, show w.file i = v.file i by simp only [DiffDisk.file, hs.files]]
    exact h.size i h₀ hi
  locationLe := hl
  bound f := (hsize f).le.trans (h.bound f)
  tight := htight

theorem Sized.lookup (dev : Dev) (s : ℕ) : (v.lookup dev s).1.Sized z := by
  have hsame := lookup_sameChain dev v s
  have hstore := lookup_store dev v s
  refine h.of_files hsame (fun t ht => ?_) (fun f => by rw [hstore]) fun f => by
    rw [hstore]
    exact h.tight f
  rw [hsame.target]
  rw [hsame.locationLen] at ht
  unfold Volume.lookup
  split_ifs
  · exact h.locationLe t ht
  · exact h.locationLe t ht
  · cases hp : probe dev v s v.target with
    | error e => exact h.locationLe t ht
    | ok i =>
      obtain ⟨-, hi⟩ := probe_mem dev h.target_pos s le_rfl hp
      show update v.location s (u16 i) t ≤ v.target
      rcases eq_or_ne t s with rfl | hne
      · rw [update_self, h.u16_of_le hi]
        exact hi
      · rw [update_of_ne hne]
        exact h.locationLe t ht
  · exact h.locationLe t ht

/-- The file that a lookup returns is one of the chain. -/
theorem Sized.lookup_mem {s t : ℕ} (ht : (v.lookup dev s).2 = .ok t) :
    0 < t ∧ t < v.files.length := by
  have hpos := h.target_pos
  have hlt := h.target_lt
  have htwo := h.two_le
  unfold Volume.lookup at ht
  split_ifs at ht with hs h2 h0
  · cases ht
    rw [h.u16_of_le le_rfl]
    exact ⟨hpos, hlt⟩
  · cases ht
    omega
  · cases hp : probe dev v s v.target with
    | error e =>
      rw [hp] at ht
      cases ht
    | ok i =>
      rw [hp] at ht
      obtain ⟨hi₀, hi⟩ := probe_mem dev hpos s le_rfl hp
      rw [← Except.ok.inj ht, h.u16_of_le hi]
      omega
  · cases ht
    have := h.locationLe s (by omega)
    omega

/-! ## Requests -/

/-- One file may change, to one of size `z` if it is in the chain. -/
theorem Sized.setInode {file : SparseFile} (hsize : file.size = (v.store f).size)
    (htight : file.Tight) : (v.setInode f file).Sized z := by
  refine h.of_files ⟨rfl, rfl, rfl, rfl, rfl⟩ h.locationLe (fun g => ?_) fun g => ?_
  · show (update v.store f file g).size = _
    rcases eq_or_ne g f with rfl | hne
    · rw [update_self, hsize]
    · rw [update_of_ne hne]
  · show (update v.store f file g).Tight
    rcases eq_or_ne g f with rfl | hne
    · rw [update_self]
      exact htight
    · rw [update_of_ne hne]
      exact h.tight g

end

theorem writeFile_size {off : ℕ} (h : off + buf.length ≤ (store f).size) (g : ℕ) :
    ((writeFile dev store f buf off).1 g).size = (store g).size := by
  have hone : ∀ cut : List Byte, cut.length ≤ buf.length →
      (update store f ((store f).writeAt cut off) g).size = (store g).size := by
    intro cut hcut
    rcases eq_or_ne g f with rfl | hne
    · rw [update_self]
      exact max_eq_left (by omega)
    · rw [update_of_ne hne]
  unfold writeFile
  split
  · exact hone _ (List.length_take_le' _ _)
  · exact hone _ le_rfl

theorem writeFile_tight (h : ∀ f, (store f).Tight) (f : ℕ) (buf : List Byte)
    (off g : ℕ) : ((writeFile dev store f buf off).1 g).Tight := by
  have hone : ∀ cut : List Byte, (update store f ((store f).writeAt cut off) g).Tight := by
    intro cut
    rcases eq_or_ne g f with rfl | hne
    · rw [update_self]
      exact (h g).writeAt cut off
    · rw [update_of_ne hne]
      exact h g
  unfold writeFile
  split
  · exact hone _
  · exact hone _

section

variable (h : v.Sized z)
include h

/-- A write of whole sectors inside the volume. -/
theorem Sized.fullWriteAt (dev : Dev)
    (hin : offset + buf.length ≤ z) : (v.fullWriteAt dev buf offset).v.Sized z := by
  by_cases halign : buf.length % defaultSectorSize ≠ 0 ∨ offset % defaultSectorSize ≠ 0
  · unfold Volume.fullWriteAt
    rw [if_pos halign]
    exact h
  have hw := fullWriteAt_spec dev v buf offset (by omega) (by omega)
  refine h.of_files hw.same (fun s hs => ?_) (fun f => ?_) fun f => ?_
  · rw [hw.location, hw.same.target]
    split_ifs
    · exact (h.u16_of_le le_rfl).le
    · exact h.locationLe s (hw.same.locationLen ▸ hs)
  · rw [hw.store]
    refine writeFile_size ?_ f
    rw [h.size _ h.target_pos h.target_lt]
    exact hin
  · rw [hw.store]
    exact writeFile_tight h.tight _ _ _ f

theorem Sized.fullReadAt (dev : Dev) (buf : List Byte) (offset : ℕ) :
    (v.fullReadAt dev buf offset).v.Sized z :=
  fullReadAt_rec (P := fun v => v.Sized z) (fun _ s hv => hv.lookup dev s) buf offset h

/-- A sector that can be read lies inside the volume. -/
theorem Sized.le_of_readable (dev : Dev) (k : ℕ)
    (hread : (v.fullReadAt dev zeroSector (k * defaultSectorSize)).err = none) :
    k * defaultSectorSize + defaultSectorSize ≤ z := by
  obtain ⟨t, ht₀, ht, hle⟩ := Checked.sector_le dev (fun _ => h.lookup_mem) hread
  rw [h.size t ht₀ ht] at hle
  exact hle

theorem Sized.readModifyWrite (dev : Dev) (buf : List Byte)
    (hone : offset % defaultSectorSize + buf.length ≤ defaultSectorSize) :
    (v.readModifyWrite dev buf offset).v.Sized z := by
  have hread := h.fullReadAt dev zeroSector (offset / defaultSectorSize * defaultSectorSize)
  have hle := h.le_of_readable dev (offset / defaultSectorSize)
  have hkept :=
    (Checked.fullReadAt_counts dev v zeroSector (offset / defaultSectorSize * defaultSectorSize)).1
  unfold Volume.readModifyWrite
  dsimp only
  generalize v.fullReadAt dev zeroSector (offset / defaultSectorSize * defaultSectorSize) =
    r at hread hle hkept ⊢
  split_ifs
  · exact h
  · split
    · exact hread
    · next herr =>
      refine hread.fullWriteAt dev ?_
      rw [length_splice (by rw [hkept, length_zeroSector]; exact hone), hkept, length_zeroSector]
      exact hle herr

/-- A write inside the volume keeps the sizes, whether it fails or not. -/
theorem Sized.writeAt (dev : Dev) (hin : offset + buf.length ≤ z) :
    (v.writeAt dev buf offset).v.Sized z := by
  have hmod := mod_sector_lt offset
  have hend := mod_sector_lt (buf.length + offset)
  unfold Volume.writeAt
  dsimp only
  split_ifs with h0 halign hone
  · exact h
  · exact h.fullWriteAt dev hin
  · exact h.readModifyWrite dev buf (by omega)
  · have hcut := Checked.cut_le (Nat.lt_of_not_le hone)
    have hlast := Checked.last_sector_mod offset buf.length
    refine WriteResult.andThen_rec (P := fun v => v.Sized z)
      (h.readModifyWrite dev _ ?_) fun u hu =>
      WriteResult.andThen_rec (P := fun v => v.Sized z) (hu.fullWriteAt dev ?_) fun x hx =>
        WriteResult.andThen_rec (P := fun v => v.Sized z) (hx.readModifyWrite dev _ ?_)
          fun _ hy => hy
    · rw [List.length_take]
      omega
    · rw [List.length_take, List.length_drop]
      omega
    · rw [hlast, List.length_drop]
      omega

theorem Sized.readAt (dev : Dev) (buf : List Byte) (offset : ℕ) :
    (v.readAt dev buf offset).v.Sized z :=
  readAt_rec (P := fun v => v.Sized z) (fun _ s hv => hv.lookup dev s) buf offset h

theorem Sized.fallocatePunch {len : ℕ} (hp : v.fallocatePunch f offset len = .ok w) :
    w.Sized z := by
  unfold Volume.fallocatePunch at hp
  split_ifs at hp
  cases hp
  exact h.setInode rfl ((h.tight f).punchHole offset len)

theorem Sized.unmap (offset len : ℕ) : (v.unmap offset len).1.Sized z := by
  have hloop : ∀ (is : List ℕ) {v : Volume}, v.Sized z → (unmapLoop offset len is v).1.Sized z := by
    intro is
    induction is with
    | nil => exact id
    | cons i is ih =>
      intro v hv
      unfold unmapLoop
      split_ifs
      · exact ih hv
      · cases hp : v.fallocatePunch (v.file i) offset len with
        | error e => exact hv
        | ok u => exact ih (hv.fallocatePunch hp)
  have hu := hloop (List.range v.files.length) h
  unfold Volume.unmap
  generalize unmapLoop offset len (List.range v.files.length) v = l at hu ⊢
  obtain ⟨u, e | e⟩ := l <;> exact hu

theorem Sized.coalesceSector {i : ℕ} (hi : 2 ≤ i) (hit : i < v.target) (s : ℕ) :
    (v.coalesceSector i s).Sized z := by
  have hlt := h.target_lt
  have hsize : (v.store (v.file i)).size = (v.store (v.file (i - 1))).size := by
    rw [h.size i (by omega) (by omega), h.size (i - 1) (by omega) (by omega)]
  exact h.setInode rfl ((h.tight _).copySector (h.tight _) hsize.le s)

end

/-! ## Requests that do not fail -/

theorem Sized.lookup_ok (h : v.Sized z) (s : ℕ) :
    ∃ w t, v.lookup Dev.ok s = (w, .ok t) ∧ w.Sized z ∧ w.files = v.files ∧ 0 < t ∧
    t < v.files.length := by
  obtain ⟨t, ht⟩ : ∃ t, (v.lookup Dev.ok s).2 = .ok t := by
    obtain ⟨i, hi⟩ := probe_devOk v s v.target
    unfold Volume.lookup
    rw [hi]
    split_ifs <;> exact ⟨_, rfl⟩
  exact ⟨_, t, Prod.ext rfl ht, h.lookup Dev.ok s, (lookup_sameChain Dev.ok v s).files,
    h.lookup_mem ht⟩

/-- A run of sectors inside the volume. -/
theorem Sized.readRun_ok {st : ReadState} {i : ℕ} (h : st.v.Sized z)
    (ht : 0 < st.target ∧ st.target < st.v.files.length) (hrun : st.readSectors ≤ i)
    (hin : offset + i * defaultSectorSize ≤ z) : (readRun Dev.ok offset i st).2.2 = none := by
  have hsize := h.size _ ht.1 ht.2
  unfold readRun
  rw [if_neg ht.1.ne']
  show (if _ ≤ (st.v.store (st.v.file st.target)).size then _ else _ :
    List Byte × Option String).2 = none
  rw [if_pos]
  rw [hsize, defaultSectorSize_eq] at *
  omega

theorem Sized.fullReadLoop_ok {sectors : ℕ} (hin : offset + sectors * defaultSectorSize ≤ z) :
    ∀ {m : ℕ} {st : ReadState}, st.v.Sized z → 0 < st.target ∧ st.target < st.v.files.length →
      st.readSectors + m ≤ sectors → (fullReadLoop Dev.ok offset sectors m st).err = none
  | 0, st, h, ht, hm => h.readRun_ok ht hm hin
  | m + 1, st, h, ht, hm => by
    obtain ⟨w, t, hl, hw, hfiles, ht'⟩ :=
      h.lookup_ok (offset / defaultSectorSize + (sectors - (m + 1)))
    rw [← hfiles] at ht ht'
    rw [fullReadLoop]
    dsimp only
    rw [hl]
    dsimp only
    split_ifs
    · exact fullReadLoop_ok hin hw ht (by dsimp only; omega)
    · have hrun : (readRun Dev.ok offset (sectors - (m + 1)) { st with v := w }).2.2 = none :=
        readRun_ok hw ht (by dsimp only; omega)
          ((Nat.add_le_add_left (Nat.mul_le_mul_right _ (Nat.sub_le ..)) _).trans hin)
      rw [hrun]
      exact fullReadLoop_ok hin hw ht' (by dsimp only; omega)

/-- A read of whole sectors inside the volume. -/
theorem Sized.fullReadAt_ok (h : v.Sized z)
    (hb : buf.length % defaultSectorSize = 0) (ho : offset % defaultSectorSize = 0)
    (hin : offset + buf.length ≤ z) : (v.fullReadAt Dev.ok buf offset).err = none := by
  obtain ⟨w, t, hl, hw, hfiles, ht⟩ := h.lookup_ok (offset / defaultSectorSize)
  have hwhole := Nat.div_mul_cancel (Nat.dvd_of_mod_eq_zero hb)
  rw [← hfiles] at ht
  unfold Volume.fullReadAt
  rw [if_neg (by omega), hl]
  split_ifs with h0
  · rfl
  · refine fullReadLoop_ok (by rwa [hwhole]) hw ht ?_
    rw [defaultSectorSize_eq] at *
    dsimp only
    omega

/-- The sector of a byte inside the volume is inside the volume, if this is a number of whole
sectors. -/
theorem sector_in (hz : z % defaultSectorSize = 0) (hin : offset < z) :
    offset / defaultSectorSize * defaultSectorSize + defaultSectorSize ≤ z := by
  rw [defaultSectorSize_eq] at *
  omega

theorem Sized.readSector_ok (h : v.Sized z) (hz : z % defaultSectorSize = 0) (hin : offset < z)
    {readBuf : List Byte} (hlen : readBuf.length = defaultSectorSize) :
    (v.fullReadAt Dev.ok readBuf (offset / defaultSectorSize * defaultSectorSize)).err = none := by
  refine h.fullReadAt_ok ?_ (Nat.mul_mod_left _ _) ?_
  · rw [hlen, Nat.mod_self]
  · rw [hlen]
    exact sector_in hz hin

theorem Sized.fullWriteAt_ok (h : v.Sized z)
    (hb : buf.length % defaultSectorSize = 0) (ho : offset % defaultSectorSize = 0)
    (hin : offset + buf.length ≤ z) :
    (v.fullWriteAt Dev.ok buf offset).err = none ∧ (v.fullWriteAt Dev.ok buf offset).v.Sized z := by
  refine ⟨?_, h.fullWriteAt Dev.ok hin⟩
  rw [(fullWriteAt_spec Dev.ok v buf offset hb ho).err]
  rfl

theorem Sized.readModifyWrite_ok (h : v.Sized z) (hz : z % defaultSectorSize = 0)
    (hone : offset % defaultSectorSize + buf.length ≤ defaultSectorSize)
    (hin : offset + buf.length ≤ z) : (v.readModifyWrite Dev.ok buf offset).err = none := by
  by_cases h0 : buf.length = 0
  · unfold Volume.readModifyWrite
    rw [if_pos h0]
  have hlt : offset < z := by omega
  have hread := h.readSector_ok hz hlt length_zeroSector
  have hsized := h.fullReadAt Dev.ok zeroSector (offset / defaultSectorSize * defaultSectorSize)
  have hlen := (Checked.fullReadAt_counts Dev.ok v zeroSector
    (offset / defaultSectorSize * defaultSectorSize)).1
  have hsector := sector_in hz hlt
  unfold Volume.readModifyWrite
  rw [if_neg h0]
  dsimp only
  generalize v.fullReadAt Dev.ok zeroSector (offset / defaultSectorSize * defaultSectorSize) =
    r at hread hsized hlen ⊢
  rw [hread]
  have hsplice : (splice r.buf (offset % defaultSectorSize) buf).length = defaultSectorSize := by
    rw [length_splice (by rw [hlen, length_zeroSector]; exact hone), hlen, length_zeroSector]
  refine (hsized.fullWriteAt_ok ?_ (Nat.mul_mod_left _ _) ?_).1
  · rw [hsplice, Nat.mod_self]
  · rw [hsplice]
    exact hsector

theorem WriteResult.andThen_ok {r : WriteResult} {next : Volume → WriteResult} (hr : r.err = none)
    (hn : (next r.v).err = none) : (r.andThen next).err = none := by
  unfold WriteResult.andThen
  rw [hr]
  exact hn

/-- A write inside a volume of whole sectors does not fail. -/
theorem Sized.writeAt_ok (h : v.Sized z) (hz : z % defaultSectorSize = 0)
    (hin : offset + buf.length ≤ z) : (v.writeAt Dev.ok buf offset).err = none := by
  have hmod := mod_sector_lt offset
  have hend := mod_sector_lt (buf.length + offset)
  unfold Volume.writeAt
  dsimp only
  split_ifs with h0 halign hone
  · rfl
  · exact (h.fullWriteAt_ok (by rw [defaultSectorSize_eq] at *; omega) halign.1 hin).1
  · exact h.readModifyWrite_ok hz (by omega) hin
  · have hcut := Checked.cut_le (Nat.lt_of_not_le hone)
    have hlast := Checked.last_sector_mod offset buf.length
    have hfirst : offset % defaultSectorSize +
        (buf.take (defaultSectorSize - offset % defaultSectorSize)).length ≤
          defaultSectorSize := by
      rw [List.length_take]
      omega
    have hu :=
      h.readModifyWrite Dev.ok (buf.take (defaultSectorSize - offset % defaultSectorSize)) hfirst
    refine WriteResult.andThen_ok
      (h.readModifyWrite_ok hz hfirst (by rw [List.length_take]; omega)) ?_
    have hstart := Checked.next_sector_mod offset
    have hwhole := Checked.length_middle buf (defaultSectorSize - offset % defaultSectorSize)
      ((buf.length + offset) % defaultSectorSize)
    have hx := hu.fullWriteAt_ok (by rw [hwhole, defaultSectorSize_eq] at *; omega) hstart
      (by rw [hwhole]; omega)
    refine WriteResult.andThen_ok hx.1
      (WriteResult.andThen_ok (hx.2.readModifyWrite_ok hz ?_ ?_) rfl)
    · rw [hlast, List.length_drop]
      omega
    · rw [List.length_drop]
      omega

theorem ReadResult.andThen_ok {r : ReadResult} {next : Volume → ReadResult} (hr : r.err = none)
    (hn : (next r.v).err = none) : (r.andThen buf next).err = none := by
  unfold ReadResult.andThen
  rw [hr]
  exact hn

theorem Sized.readEnd_ok (h : v.Sized z) (hz : z % defaultSectorSize = 0) {readBuf : List Byte}
    (hlen : readBuf.length = defaultSectorSize) (hin : offset + buf.length ≤ z) :
    (readEnd Dev.ok readBuf buf offset ((buf.length + offset) % defaultSectorSize) v).err =
      none := by
  unfold readEnd
  split_ifs with hend
  · have hle := Nat.mod_le (buf.length + offset) defaultSectorSize
    have hlast : offset + buf.length - (buf.length + offset) % defaultSectorSize =
        (offset + buf.length - 1) / defaultSectorSize * defaultSectorSize := by
      rw [defaultSectorSize_eq] at *
      omega
    rw [hlast]
    exact ReadResult.andThen_ok (h.readSector_ok hz (by omega) hlen) rfl
  · rfl

/-- A read inside a volume of whole sectors does not fail. -/
theorem Sized.readAt_ok (h : v.Sized z) (hz : z % defaultSectorSize = 0)
    (hin : offset + buf.length ≤ z) : (v.readAt Dev.ok buf offset).err = none := by
  have hmod := mod_sector_lt offset
  have hdiv : offset - offset % defaultSectorSize =
      offset / defaultSectorSize * defaultSectorSize := by
    rw [defaultSectorSize_eq]
    omega
  unfold Volume.readAt
  dsimp only
  split_ifs with h0 halign
  · rfl
  · exact h.fullReadAt_ok (by rw [defaultSectorSize_eq] at *; omega) halign.1 hin
  · rw [hdiv]
    have hlt : offset < z := by omega
    have hlen := (Checked.fullReadAt_counts Dev.ok v zeroSector
      (offset / defaultSectorSize * defaultSectorSize)).1
    have hu := h.fullReadAt Dev.ok zeroSector (offset / defaultSectorSize * defaultSectorSize)
    have hread := h.readSector_ok hz hlt length_zeroSector
    generalize v.fullReadAt Dev.ok zeroSector (offset / defaultSectorSize * defaultSectorSize) =
      r at hlen hu hread ⊢
    rw [length_zeroSector] at hlen
    refine ReadResult.andThen_ok hread ?_
    -- the first sector does not change the length of the buffer
    have hfirst :
        (splice buf 0 ((r.buf.drop (offset % defaultSectorSize)).take buf.length)).length =
          buf.length := by
      refine length_splice ?_
      rw [List.length_take]
      omega
    generalize splice buf 0 ((r.buf.drop (offset % defaultSectorSize)).take buf.length) =
      buf' at hfirst ⊢
    unfold readRest
    split_ifs with hone
    · rfl
    have hcut := Checked.cut_le (Nat.lt_of_not_le hone)
    rw [hfirst] at hcut
    have hwhole := Checked.length_middle buf' (defaultSectorSize - offset % defaultSectorSize)
      ((buf.length + offset) % defaultSectorSize)
    generalize hw : (buf'.drop (defaultSectorSize - offset % defaultSectorSize)).take
      (buf'.length - (buf.length + offset) % defaultSectorSize -
        (defaultSectorSize - offset % defaultSectorSize)) = whole at hwhole ⊢
    rw [hfirst] at hwhole
    have hstart := Checked.next_sector_mod offset
    have hm := hu.fullReadAt_ok (by rw [hwhole, defaultSectorSize_eq] at *; omega) hstart
      (by rw [hwhole]; omega)
    have hmlen := (Checked.fullReadAt_counts Dev.ok r.v whole
      (offset + (defaultSectorSize - offset % defaultSectorSize))).1
    refine ReadResult.andThen_ok hm ?_
    have hlast : (splice buf' (defaultSectorSize - offset % defaultSectorSize)
        (r.v.fullReadAt Dev.ok whole
          (offset + (defaultSectorSize - offset % defaultSectorSize))).buf).length =
            buf.length := by
      rw [length_splice (by rw [hmlen, hwhole]; omega), hfirst]
    have hend :=
      (hu.fullReadAt Dev.ok whole
        (offset + (defaultSectorSize - offset % defaultSectorSize))).readEnd_ok
      hz hlen (by rw [hlast]; exact hin)
    rwa [hlast] at hend

end Volume

end Jiva
