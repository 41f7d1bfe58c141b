import Mathlib.Data.List.Nodup
import Jiva.DiffDisk
import Jiva.Layers

/-!
# The image of a chain, and reading it

The image at index `u` of a chain is what its files show through the files up to `u` :
sector by sector, the data of the highest file that has an extent there, and zeros if
none has. The volume is the image at the active layer.

`owner` is the file that `lookup` must find, and `entry` the one it finds. Reads change
nothing but unknown entries, which they fill in with the owner (`Fills`), and a read that
does not fail returns the bytes of the files its entries name, whatever the table says
(`shown`, `readAt_shown`). A location table is correct (`LocationOk`) if every entry is
unknown or names the owner, and then the bytes shown are the image (`readAt_spec`).
-/

namespace Jiva

open Layered

namespace Volume

variable {v v' v₀ : Volume} {f i len off offset s sectors : ℕ} {buf : List Byte}
    {st : ReadState} {dev : Dev}
  {img : ℕ → Byte} {r : ReadResult}

/-- The highest file at or below `u` with an extent for the sector, or `0`. -/
def topFile (v : Volume) (u s : ℕ) : ℕ :=
  top v.hasExtent u s

/-- The image seen through the files up to index `u`. -/
def imageAt (v : Volume) (u b : ℕ) : Byte :=
  if v.topFile u (b / defaultSectorSize) = 0 then 0
  else (v.store (v.file (v.topFile u (b / defaultSectorSize)))).data b

/-- The image of the live volume. -/
def image (v : Volume) (b : ℕ) : Byte :=
  v.imageAt v.target b

/-- The file that holds the sector, where the base file stands in for no file. -/
def owner (v : Volume) (s : ℕ) : ℕ :=
  max 1 (v.topFile v.target s)

/-- Size of the volume in bytes. -/
def size (v : Volume) : ℕ :=
  v.locationLen * defaultSectorSize

/-- The chain of files is well formed : distinct files, the nil file first, indices that fit
in a table entry, and every file of the size of the volume. -/
structure ChainOk (v : Volume) : Prop where
  two_le : 2 ≤ v.files.length
  le_u16 : v.files.length ≤ 65536
  nil_file : v.file 0 = 0
  nodup : v.files.Nodup
  file_size : ∀ i, 0 < i → i < v.files.length → (v.store (v.file i)).size = v.size

/-- Every entry of the table is unknown or names the owner of the sector. -/
def LocationOk (v : Volume) : Prop :=
  ∀ s, s < v.locationLen → v.location s = 0 ∨ v.location s = v.owner s

/-- No entry of the table is above the active layer. -/
def LocationLe (v : Volume) : Prop :=
  ∀ s, s < v.locationLen → v.location s ≤ v.target

/-- The index of the file that `lookup` finds for sector `s` of the table. -/
def entry (v : Volume) (s : ℕ) : ℕ :=
  if v.files.length = 2 then 1 else if v.location s = 0 then v.owner s else v.location s

/-- The bytes that reads return. -/
def shown (v : Volume) (b : ℕ) : Byte :=
  (v.store (v.file (v.entry (b / defaultSectorSize)))).data b

/-- The volume with another location table. -/
def withLocation (v : Volume) (l : ℕ → ℕ) : Volume :=
  { v with location := l }

/-- `v'` is `v` with some unknown entries of the table filled in. -/
def Fills (v v' : Volume) : Prop :=
  ∃ l, v' = v.withLocation l ∧ ∀ s, l s = v.location s ∨
    s < v.locationLen ∧ v.location s = 0 ∧ l s = u16 (v.owner s)

/-! ## Chains -/

theorem file_inj {d : DiffDisk} (hn : d.files.Nodup) {j : ℕ} (hi : i < d.files.length)
    (hj : j < d.files.length) (hij : d.file i = d.file j) : i = j := by
  unfold DiffDisk.file at hij
  rw [List.getD_eq_getElem _ _ hi, List.getD_eq_getElem _ _ hj] at hij
  exact (List.Nodup.getElem_inj_iff hn).1 hij

namespace ChainOk

variable {v : Volume}

theorem target_pos (h : v.ChainOk) : 0 < v.target := by
  have := h.two_le
  unfold DiffDisk.target
  omega

theorem target_lt (h : v.ChainOk) : v.target < v.files.length := by
  have := h.two_le
  unfold DiffDisk.target
  omega

theorem target_lt_u16 (h : v.ChainOk) : v.target < 65536 :=
  h.target_lt.trans_le h.le_u16

theorem file_inj (h : v.ChainOk) {j : ℕ} (hi : i < v.files.length) (hj : j < v.files.length)
    (hij : v.file i = v.file j) : i = j :=
  Volume.file_inj h.nodup hi hj hij

theorem file_ne_zero (h : v.ChainOk) (hi : 0 < i) (hil : i < v.files.length) : v.file i ≠ 0 := by
  intro h0
  have := h.file_inj hil (by omega) (h0.trans h.nil_file.symm)
  omega

end ChainOk

theorem new_chainOk (sectors : ℕ) (hf : f ≠ 0) : (new sectors f).ChainOk where
  two_le := le_rfl
  le_u16 := by simp [new]
  nil_file := rfl
  nodup := by simpa [new] using hf.symm
  file_size _ _ _ := rfl

theorem new_locationOk (sectors f : ℕ) : (new sectors f).LocationOk :=
  fun _ _ => .inl rfl

theorem topFile_le (v : Volume) (u s : ℕ) : v.topFile u s ≤ u :=
  top_le _ u s

/-- An image depends on the files up to its index only. -/
theorem imageAt_congr {u : ℕ} (hfile : ∀ i, i ≤ u → v'.file i = v.file i)
    (hstore : ∀ i, i ≤ u → v'.store (v.file i) = v.store (v.file i)) :
    v'.imageAt u = v.imageAt u := by
  have htop : ∀ s, v'.topFile u s = v.topFile u s := fun s => top_congr fun i _ hi => by
    unfold hasExtent
    rw [hfile i hi, hstore i hi]
  funext b
  have hle := v.topFile_le u (b / defaultSectorSize)
  unfold imageAt
  rw [htop, hfile _ hle, hstore _ hle]

theorem owner_pos (v : Volume) (s : ℕ) : 0 < v.owner s := by
  unfold owner
  omega

theorem owner_le (v : Volume) (h : v.ChainOk) (s : ℕ) : v.owner s ≤ v.target := by
  have := v.topFile_le v.target s
  have := h.target_pos
  unfold owner
  omega

theorem ChainOk.u16_owner (h : v.ChainOk) (s : ℕ) : u16 (v.owner s) = v.owner s :=
  u16_of_lt ((v.owner_le h s).trans_lt h.target_lt_u16)

/-- The image can be read off the owner : where no file has an extent the base file reads
as zeros. -/
theorem image_eq_owner (v : Volume) (h : v.ChainOk) (b : ℕ) :
    v.image b = (v.store (v.file (v.owner (b / defaultSectorSize)))).data b := by
  unfold image imageAt owner
  split_ifs with h0
  · have hn : v.hasExtent 1 (b / defaultSectorSize) = false :=
      not_holds_of_top_lt (by unfold topFile at h0; omega) h.target_pos
    rw [h0, show max 1 0 = 1 from rfl]
    exact ((v.store (v.file 1)).hole_zero b hn).symm
  · rw [show ∀ n : ℕ, n ≠ 0 → max 1 n = n from fun n hn => by omega]
    exact h0

theorem new_image (sectors : ℕ) (hf : f ≠ 0) : (new sectors f).image = fun _ => 0 := by
  funext b
  rw [image_eq_owner _ (new_chainOk sectors hf)]
  rfl

/-! ## Filling in the table -/

section WithLocation

variable (v : Volume) (l : ℕ → ℕ)

@[simp] theorem withLocation_location : (v.withLocation l).location = l := rfl
@[simp] theorem withLocation_files : (v.withLocation l).files = v.files := rfl
@[simp] theorem withLocation_target : (v.withLocation l).target = v.target := rfl
@[simp] theorem withLocation_topFile : (v.withLocation l).topFile = v.topFile := rfl
@[simp] theorem withLocation_owner : (v.withLocation l).owner = v.owner := rfl

end WithLocation

theorem Fills.refl (v : Volume) : v.Fills v :=
  ⟨v.location, rfl, fun _ => .inl rfl⟩

theorem Fills.trans {v'' : Volume} (h : v.Fills v') (h' : v'.Fills v'') : v.Fills v'' := by
  obtain ⟨l, rfl, hl⟩ := h
  obtain ⟨l', rfl, hl'⟩ := h'
  refine ⟨l', rfl, fun s => ?_⟩
  rcases hl' s with h' | ⟨hs, h0, h'⟩
  · rw [h']
    exact hl s
  · refine .inr ⟨hs, ?_, h'⟩
    rcases hl s with h | ⟨_, h, _⟩
    · rw [← h]
      exact h0
    · exact h

theorem Fills.chainOk (h : v.Fills v') (hc : v.ChainOk) : v'.ChainOk := by
  obtain ⟨l, rfl, -⟩ := h
  exact ⟨hc.two_le, hc.le_u16, hc.nil_file, hc.nodup, hc.file_size⟩

theorem Fills.locationOk (h : v.Fills v') (hc : v.ChainOk) (hl : v.LocationOk) : v'.LocationOk := by
  obtain ⟨l, rfl, h⟩ := h
  intro s hs
  rcases h s with h | ⟨_, _, h⟩
  · rw [withLocation_location, h]
    exact hl s hs
  · right
    rw [withLocation_location, h, hc.u16_owner]
    rfl

theorem Fills.image (h : v.Fills v') : v'.image = v.image := by
  obtain ⟨l, rfl, -⟩ := h
  rfl

theorem Fills.entry (h : v.Fills v') (hc : v.ChainOk) : v'.entry = v.entry := by
  obtain ⟨l, rfl, hl⟩ := h
  funext s
  unfold Volume.entry
  rw [withLocation_location, withLocation_files, withLocation_owner]
  have hpos := v.owner_pos s
  rcases hl s with hls | ⟨-, h0, hls⟩
  · rw [hls]
  · rw [hls, hc.u16_owner, h0, if_neg (show v.owner s ≠ 0 by omega), if_pos (show 0 = 0 from rfl)]

theorem Fills.shown (h : v.Fills v') (hc : v.ChainOk) : v'.shown = v.shown := by
  have he := h.entry hc
  obtain ⟨l, rfl, -⟩ := h
  funext b
  unfold Volume.shown
  rw [he]
  rfl

/-! ## Entries -/

theorem LocationOk.locationLe (hl : v.LocationOk) (hc : v.ChainOk) : v.LocationLe := by
  intro s hs
  have := v.owner_le hc s
  rcases hl s hs with h | h <;> omega

theorem LocationLe.fills (h : v.LocationLe) (hc : v.ChainOk) (hf : v.Fills v') : v'.LocationLe := by
  obtain ⟨l, rfl, hl⟩ := hf
  intro s hs
  have := v.owner_le hc s
  rcases hl s with hls | ⟨-, -, hls⟩
  · rw [withLocation_location, hls]
    exact h s hs
  · rw [withLocation_location, hls, hc.u16_owner]
    exact this

theorem entry_pos (v : Volume) (s : ℕ) : 0 < v.entry s := by
  have := v.owner_pos s
  unfold entry
  split_ifs <;> omega

theorem LocationLe.entry_le (hl : v.LocationLe) (hc : v.ChainOk)
    (hs : s < v.locationLen) : v.entry s ≤ v.target := by
  have h1 := hc.target_pos
  have h2 := v.owner_le hc s
  have h3 := hl s hs
  unfold entry
  split_ifs <;> omega

/-- On a correct table, the entry of a sector is its owner. -/
theorem LocationOk.entry (hl : v.LocationOk) (hs : s < v.locationLen) : v.entry s = v.owner s := by
  unfold Volume.entry
  split_ifs with h2 h0
  · have h1 := v.topFile_le v.target s
    have htv : v.target = v.files.length - 1 := rfl
    unfold owner
    omega
  · rfl
  · exact (hl s hs).resolve_left h0

/-- On a correct table, reads return the image. -/
theorem LocationOk.shown (hl : v.LocationOk) (hc : v.ChainOk) {b : ℕ}
    (hb : b < v.size) : v.shown b = v.image b := by
  have hs : b / defaultSectorSize < v.locationLen := by
    unfold size at hb
    rw [defaultSectorSize_eq] at hb ⊢
    omega
  rw [image_eq_owner v hc, Volume.shown, hl.entry hs]

/-! ## Lookup -/

theorem probe_eq (dev : Dev) (v : Volume) (s : ℕ) :
    ∀ {i j : ℕ}, 0 < i → probe dev v s i = .ok j → j = max 1 (v.topFile i s)
  | 1, j, _, h => by
    have := top_le v.hasExtent 1 s
    simp only [probe, Except.ok.injEq] at h
    unfold topFile
    omega
  | i + 2, j, _, h => by
    simp only [probe] at h
    split at h
    · cases h
    · split at h
      · rename_i hp
        rw [topFile, top_succ_of _ hp]
        cases h
        omega
      · rename_i hp
        rw [topFile, top_succ_of_not _ (by simpa using hp)]
        exact probe_eq dev v s (by omega) h

theorem lookup_fills (dev : Dev) (v : Volume) (hc : v.ChainOk) (s : ℕ) :
    v.Fills (lookup dev v s).1 := by
  unfold lookup
  split_ifs with hs h2 h0
  · exact Fills.refl v
  · exact Fills.refl v
  · cases hp : probe dev v s v.target with
    | error e => exact Fills.refl v
    | ok i =>
      refine ⟨Function.update v.location s (u16 i), rfl, fun t => ?_⟩
      rcases eq_or_ne t s with rfl | ht
      · refine .inr ⟨by omega, h0, ?_⟩
        rw [Function.update_self, probe_eq dev v t hc.target_pos hp]
        rfl
      · exact .inl (Function.update_of_ne ht _ _)
  · exact Fills.refl v

theorem lookup_eq_entry (dev : Dev) (v : Volume) (hc : v.ChainOk) {t : ℕ}
    (hs : s < v.locationLen) (h : (lookup dev v s).2 = .ok t) : t = v.entry s := by
  unfold lookup at h
  rw [if_neg (by omega)] at h
  unfold entry
  split_ifs at h ⊢ with h2 h0
  · exact (Except.ok.inj h).symm
  · cases hp : probe dev v s v.target with
    | error e => simp [hp] at h
    | ok i =>
      simp only [hp, Except.ok.injEq] at h
      rw [← h, probe_eq dev v s hc.target_pos hp]
      exact hc.u16_owner s
  · exact (Except.ok.inj h).symm

theorem probe_devOk (v : Volume) (s : ℕ) : ∀ i, ∃ j, probe Dev.ok v s i = .ok j
  | 0 => ⟨_, rfl⟩
  | 1 => ⟨_, rfl⟩
  | i + 2 => by
    simp only [probe, Dev.ok]
    split_ifs
    · exact ⟨_, rfl⟩
    · exact probe_devOk v s (i + 1)

theorem lookup_devOk (v : Volume) (s : ℕ) : ∃ t, (lookup Dev.ok v s).2 = .ok t := by
  unfold lookup
  obtain ⟨j, hj⟩ := probe_devOk v s v.target
  split_ifs
  · exact ⟨_, rfl⟩
  · exact ⟨_, rfl⟩
  · exact ⟨_, by rw [hj]⟩
  · exact ⟨_, rfl⟩

/-! ## Reads -/

theorem readFile_ok {store : ℕ → SparseFile} (h : (readFile dev store f off len).2 = none) :
    (readFile dev store f off len).1 = bytesFrom (store f).data off len := by
  unfold readFile at h ⊢
  split <;> rename_i he
  · simp [he] at h
  · simp only [he] at h
    split_ifs at h ⊢
    rfl

theorem readFile_devOk {store : ℕ → SparseFile}
    (h : off + len ≤ (store f).size) : (readFile Dev.ok store f off len).2 = none := by
  simp [readFile, Dev.ok, h]

/-- What is known while `fullReadAt` runs : before sector `i` of the request, the buffer holds the
bytes up to the pending run, and the sectors of the run belong to `target`. -/
structure ReadInv (v₀ : Volume) (offset sectors i : ℕ) (st : ReadState) : Prop where
  fills : v₀.Fills st.v
  length : st.buf.length = sectors * defaultSectorSize
  run_pos : 0 < st.readSectors
  run_le : st.readSectors ≤ i
  count : st.count = (i - st.readSectors) * defaultSectorSize
  done : ∀ k, k < (i - st.readSectors) * defaultSectorSize →
    st.buf.getD k 0 = v₀.shown (offset + k)
  run : ∀ j, i - st.readSectors ≤ j → j < i →
    v₀.entry (offset / defaultSectorSize + j) = st.target

theorem ReadInv.target_ne_zero (h : ReadInv v₀ offset sectors i st) : st.target ≠ 0 := by
  have hp := h.run_pos
  have hle := h.run_le
  rw [← h.run (i - 1) (by omega) (by omega)]
  exact (v₀.entry_pos _).ne'

/-- Reading the pending run completes the buffer up to sector `i`. -/
theorem readRun_spec (ho : offset % defaultSectorSize = 0) (h : ReadInv v₀ offset sectors i st)
    (hi : i ≤ sectors) (hok : (readRun dev offset i st).2.2 = none) :
    (readRun dev offset i st).1.length = sectors * defaultSectorSize ∧
    (readRun dev offset i st).2.1 = st.readSectors * defaultSectorSize ∧ ∀ k,
    k < i * defaultSectorSize → (readRun dev offset i st).1.getD k 0 = v₀.shown (offset + k) := by
  have hp := h.run_pos
  have hle := h.run_le
  have hlen := h.length
  have hst : st.v.store = v₀.store ∧ st.v.file = v₀.file := by
    obtain ⟨l, hv, -⟩ := h.fills
    rw [hv]
    exact ⟨rfl, rfl⟩
  unfold readRun read at hok ⊢
  rw [if_neg h.target_ne_zero] at hok ⊢
  simp only [hst.1, hst.2] at hok ⊢
  rw [readFile_ok hok]
  have hfit : (i - st.readSectors) * defaultSectorSize +
      (bytesFrom (v₀.store (v₀.file st.target)).data
        (offset + (i - st.readSectors) * defaultSectorSize)
        (st.readSectors * defaultSectorSize)).length ≤ st.buf.length := by
    rw [length_bytesFrom, hlen, ← Nat.add_mul]
    exact Nat.mul_le_mul_right _ (by omega)
  refine ⟨by rw [length_splice hfit, hlen], by simp, fun k hk => ?_⟩
  rw [getD_splice hfit, length_bytesFrom]
  split_ifs with hin
  · -- a byte of the run : its sector belongs to the target
    have hs := h.run (k / defaultSectorSize) (by rw [defaultSectorSize_eq] at hin ⊢; omega)
      (by rw [defaultSectorSize_eq] at hk ⊢; omega)
    rw [getD_bytesFrom _ _ (by omega), shown,
      show (offset + k) / defaultSectorSize = offset / defaultSectorSize + k / defaultSectorSize by
        rw [defaultSectorSize_eq] at ho ⊢; omega, hs]
    congr 1
    omega
  · refine h.done k ?_
    rw [← Nat.add_mul, show i - st.readSectors + st.readSectors = i by omega] at hin
    omega

theorem readRun_devOk (hc : v₀.ChainOk) (hl : v₀.LocationLe) (ho : offset % defaultSectorSize = 0)
    (hin : offset / defaultSectorSize + sectors ≤ v₀.locationLen)
    (h : ReadInv v₀ offset sectors i st) (hi : i ≤ sectors) :
    (readRun Dev.ok offset i st).2.2 = none := by
  have hp := h.run_pos
  have hle := h.run_le
  have hrun := h.run (i - 1) (by omega) (by omega)
  have hst : st.v.store = v₀.store ∧ st.v.file = v₀.file := by
    obtain ⟨l, hv, -⟩ := h.fills
    rw [hv]
    exact ⟨rfl, rfl⟩
  unfold readRun read
  rw [if_neg h.target_ne_zero]
  simp only [hst.1, hst.2]
  refine readFile_devOk ?_
  rw [← hrun, hc.file_size _ (v₀.entry_pos _) ((hl.entry_le hc (by omega)).trans_lt hc.target_lt),
    size]
  rw [defaultSectorSize_eq] at ho hin ⊢
  omega

theorem ReadInv.extend (h : ReadInv v₀ offset sectors i st) (hv : v₀.Fills v)
    (ho : v₀.entry (offset / defaultSectorSize + i) = st.target) :
    ReadInv v₀ offset sectors (i + 1) { st with v := v, readSectors := st.readSectors + 1 } := by
  have hle := h.run_le
  have hrun := h.run
  have hsub : i + 1 - (st.readSectors + 1) = i - st.readSectors := by omega
  refine ⟨hv, h.length, by simp, by simpa using hle, ?_, ?_, fun j hj hji => ?_⟩
  · simpa [hsub] using h.count
  · simpa [hsub] using h.done
  · simp only [hsub] at hj
    rcases Nat.lt_or_ge j i with hlt | hge
    · exact hrun j hj hlt
    · obtain rfl : j = i := by omega
      exact ho

theorem ReadInv.restart {t count : ℕ}
    (hv : v₀.Fills v) (hlen : buf.length = sectors * defaultSectorSize)
    (hcount : count = i * defaultSectorSize) (hbytes : ∀ k, k < i * defaultSectorSize →
      buf.getD k 0 = v₀.shown (offset + k))
    (ho : v₀.entry (offset / defaultSectorSize + i) = t) :
    ReadInv v₀ offset sectors (i + 1) ⟨v, buf, count, t, 1⟩ := by
  refine ⟨hv, hlen, Nat.one_pos, by simp, hcount, hbytes, fun j hj hji => ?_⟩
  obtain rfl : j = i := by simp only at hj; omega
  exact ho

theorem fullReadLoop_fills (dev : Dev) (hc : v₀.ChainOk) (offset sectors : ℕ) :
    ∀ (m : ℕ) (st : ReadState), v₀.Fills st.v → v₀.Fills (fullReadLoop dev offset sectors m st).v
  | 0, st, h => h
  | m + 1, st, h => by
    have hf : v₀.Fills (lookup dev st.v (offset / defaultSectorSize + (sectors - (m + 1)))).1 :=
      h.trans (lookup_fills dev _ (h.chainOk hc) _)
    rcases hlk : lookup dev st.v (offset / defaultSectorSize + (sectors - (m + 1))) with ⟨v, e | t⟩
      <;> rw [hlk] at hf <;> simp only [fullReadLoop, hlk]
    · exact hf
    · split_ifs
      · exact fullReadLoop_fills dev hc offset sectors m _ hf
      · split
        · exact hf
        · exact fullReadLoop_fills dev hc offset sectors m _ hf

/-- A read of `len` bytes at `off` : it returns the bytes of the image unless it fails, and
it fails only if the device does. -/
structure ReadResult.Reads (r : ReadResult) (dev : Dev) (img : ℕ → Byte) (off len : ℕ) :
    Prop where
  bytes : r.err = none → r.buf = bytesFrom img off len
  count : r.err = none → r.n = len
  ok : dev = Dev.ok → r.err = none

theorem ReadResult.Reads.congr {img' : ℕ → Byte} (h : r.Reads dev img off len)
    (himg : ∀ b, off ≤ b → b < off + len → img b = img' b) : r.Reads dev img' off len :=
  ⟨fun hok => (h.bytes hok).trans (bytesFrom_congr himg), h.count, h.ok⟩

/-- The loop of `fullReadAt` on a correct table. -/
theorem fullReadLoop_shown (dev : Dev) (hc : v₀.ChainOk) (hl : v₀.LocationLe) (sectors : ℕ)
    (ho : offset % defaultSectorSize = 0)
    (hin : offset / defaultSectorSize + sectors ≤ v₀.locationLen) :
    ∀ (m : ℕ) (st : ReadState), m ≤ sectors → ReadInv v₀ offset sectors (sectors - m) st →
      (fullReadLoop dev offset sectors m st).Reads dev v₀.shown offset (sectors * defaultSectorSize)
  | 0, st, _, h => by
    have hle : st.readSectors ≤ sectors := h.run_le
    refine ⟨fun hok => ?_, fun hok => ?_, fun hd => ?_⟩
    · obtain ⟨hlen, _, hbytes⟩ := readRun_spec ho h le_rfl hok
      exact eq_bytesFrom hlen hbytes
    · obtain ⟨_, hn, _⟩ := readRun_spec ho h le_rfl hok
      show st.count + (readRun dev offset sectors st).2.1 = _
      rw [show (readRun dev offset sectors st).2.1 = _ from hn, h.count, ← Nat.add_mul,
        Nat.sub_zero, Nat.sub_add_cancel hle]
    · subst hd
      exact readRun_devOk hc hl ho hin h le_rfl
  | m + 1, st, hm, h => by
    have hc' := h.fills.chainOk hc
    have hf :=
      h.fills.trans (lookup_fills dev _ hc' (offset / defaultSectorSize + (sectors - (m + 1))))
    have hlen : st.v.locationLen = v₀.locationLen := by
      obtain ⟨l, hv, -⟩ := h.fills
      rw [hv]
      rfl
    have hown : ∀ t,
        (lookup dev st.v (offset / defaultSectorSize + (sectors - (m + 1)))).2 = .ok t →
        v₀.entry (offset / defaultSectorSize + (sectors - (m + 1))) = t := by
      intro t ht
      rw [lookup_eq_entry dev st.v hc' (by omega) ht, h.fills.entry hc]
    have hsub : sectors - (m + 1) + 1 = sectors - m := by omega
    rcases hlk : lookup dev st.v (offset / defaultSectorSize + (sectors - (m + 1))) with ⟨v, e | t⟩
      <;> simp only [hlk] at hf hown <;> simp only [fullReadLoop, hlk]
    · refine ⟨nofun, nofun, fun hd => ?_⟩
      obtain ⟨t, ht⟩ :=
        lookup_devOk st.v (offset / defaultSectorSize + (sectors - (m + 1)))
      rw [← hd, hlk] at ht
      cases ht
    · split_ifs with ht
      · refine fullReadLoop_shown dev hc hl sectors ho hin m _ (by omega) ?_
        rw [← hsub]
        exact h.extend hf ((hown _ rfl).trans ht)
      · have hle := h.run_le
        have hv : ReadInv v₀ offset sectors (sectors - (m + 1)) { st with v := v } :=
          ⟨hf, h.length, h.run_pos, hle, h.count, h.done, h.run⟩
        split
        · rename_i hrun
          refine ⟨nofun, nofun, fun hd => ?_⟩
          subst hd
          rw [readRun_devOk hc hl ho hin hv (by omega)] at hrun
          cases hrun
        · rename_i hrun
          obtain ⟨hbl, hn, hbytes⟩ := readRun_spec ho hv (by omega) hrun
          refine fullReadLoop_shown dev hc hl sectors ho hin m _ (by omega) ?_
          rw [← hsub]
          refine ReadInv.restart hf hbl ?_ hbytes (hown _ rfl)
          rw [hn, h.count, ← Nat.add_mul, Nat.sub_add_cancel hle]

/-- `fullReadAt` of a range inside the volume. -/
theorem fullReadAt_shown (dev : Dev) (hc : v.ChainOk) (hl : v.LocationLe)
    (buf : List Byte) (offset : ℕ) (hb : buf.length % defaultSectorSize = 0)
    (ho : offset % defaultSectorSize = 0) (hin : offset + buf.length ≤ v.size) :
    (v.fullReadAt dev buf offset).Reads dev v.shown offset buf.length := by
  unfold fullReadAt
  rw [if_neg (by omega)]
  split_ifs with h0
  · refine ⟨fun _ => ?_, fun _ => h0.symm, fun _ => rfl⟩
    rw [List.eq_nil_of_length_eq_zero h0]
    rfl
  · have hs : offset / defaultSectorSize + buf.length / defaultSectorSize ≤ v.locationLen := by
      unfold size at hin
      rw [defaultSectorSize_eq] at hin ho hb ⊢
      omega
    have hpos : 0 < buf.length / defaultSectorSize := by
      rw [defaultSectorSize_eq] at hb ⊢
      omega
    have hf := lookup_fills dev v hc (offset / defaultSectorSize)
    rcases hlk : lookup dev v (offset / defaultSectorSize) with ⟨v', e | t⟩
    · refine ⟨nofun, nofun, fun hd => ?_⟩
      obtain ⟨t, ht⟩ := lookup_devOk v (offset / defaultSectorSize)
      rw [← hd, hlk] at ht
      cases ht
    · have hown := lookup_eq_entry (s := offset / defaultSectorSize) dev v hc (by omega)
        (by rw [hlk])
      have := fullReadLoop_shown dev hc hl (buf.length / defaultSectorSize) ho hs
        (buf.length / defaultSectorSize - 1) ⟨v', buf, 0, t, 1⟩ (by omega) (by
          rw [Nat.sub_sub_self hpos]
          rw [hlk] at hf
          exact ReadInv.restart hf (by rw [defaultSectorSize_eq] at hb ⊢; omega) (by simp)
            (by simp) hown.symm)
      rwa [show buf.length / defaultSectorSize * defaultSectorSize = buf.length by
        rw [defaultSectorSize_eq] at hb ⊢; omega] at this

theorem fullReadAt_fills (dev : Dev) (hc : v.ChainOk) (buf : List Byte) (offset : ℕ) :
    v.Fills (v.fullReadAt dev buf offset).v := by
  unfold fullReadAt
  have hf := lookup_fills dev v hc (offset / defaultSectorSize)
  split_ifs
  · exact Fills.refl v
  · exact Fills.refl v
  · rcases hlk : lookup dev v (offset / defaultSectorSize) with ⟨v', e | t⟩ <;> rw [hlk] at hf
    · exact hf
    · exact fullReadLoop_fills dev hc _ _ _ _ hf

@[simp] theorem length_zeroSector : zeroSector.length = defaultSectorSize :=
  List.length_replicate

theorem ReadResult.andThen_fills {next : Volume → ReadResult} (hr : v.Fills r.v)
    (h : v.Fills (next r.v).v) : v.Fills (r.andThen buf next).v := by
  unfold ReadResult.andThen
  split
  · exact hr
  · exact h

/-- A read that goes on after a first part : the first part fails only if the device does. -/
theorem ReadResult.andThen_reads {img' : ℕ → Byte} {off' len' : ℕ} {next : Volume → ReadResult}
    (hr : r.Reads dev img' off' len') (h : r.err = none → (next r.v).Reads dev img off len) :
    (r.andThen buf next).Reads dev img off len := by
  unfold ReadResult.andThen
  cases he : r.err with
  | some e => exact ⟨nofun, nofun, fun hd => absurd (hr.ok hd) (by simp [he])⟩
  | none => exact h he

theorem readEnd_fills (dev : Dev) (hc : v.ChainOk) (readBuf buf : List Byte)
    (offset endOffset : ℕ) : v.Fills (readEnd dev readBuf buf offset endOffset v).v := by
  unfold readEnd
  split_ifs
  · exact ReadResult.andThen_fills (fullReadAt_fills dev hc _ _) (fullReadAt_fills dev hc _ _)
  · exact Fills.refl v

theorem readRest_fills (dev : Dev) (hc : v.ChainOk) (readBuf buf : List Byte)
    (offset startCut endOffset : ℕ) :
    v.Fills (readRest dev readBuf buf offset startCut endOffset v).v := by
  unfold readRest
  split_ifs
  · exact Fills.refl v
  · have hf := fullReadAt_fills dev hc
      ((buf.drop startCut).take (buf.length - endOffset - startCut)) (offset + startCut)
    exact ReadResult.andThen_fills hf (hf.trans (readEnd_fills dev (hf.chainOk hc) _ _ _ _))

/-- `ReadAt` changes nothing but unknown table entries, also when it fails. -/
theorem readAt_fills (dev : Dev) (hc : v.ChainOk) (buf : List Byte) (offset : ℕ) :
    v.Fills (v.readAt dev buf offset).v := by
  unfold readAt
  simp only
  split_ifs
  · exact Fills.refl v
  · exact fullReadAt_fills dev hc buf offset
  · have hf := fullReadAt_fills dev hc zeroSector (offset - offset % defaultSectorSize)
    exact ReadResult.andThen_fills hf (hf.trans (readRest_fills dev (hf.chainOk hc) _ _ _ _ _))

/-- A splice of image bytes at `a`, into a buffer that is right below `a`. -/
theorem getD_splice_image {a n : ℕ} (hfit : a + n ≤ buf.length)
    (hd : ∀ k, k < a → buf.getD k 0 = img (off + k)) {k : ℕ} (hk : k < a + n) :
    (splice buf a (bytesFrom img (off + a) n)).getD k 0 = img (off + k) := by
  rw [getD_splice (by simpa using hfit), length_bytesFrom]
  split_ifs with hin
  · rw [getD_bytesFrom _ _ (by omega)]
    congr 1
    omega
  · exact hd k (by omega)

/-- The last `e` bytes of the request, from the start of a sector on. -/
theorem readEnd_shown (dev : Dev) (hc : v.ChainOk) (hl : v.LocationLe) (readBuf buf : List Byte)
    (offset e : ℕ) (hin : offset + buf.length ≤ v.size) (hr : readBuf.length = defaultSectorSize)
    (he : e ≤ buf.length) (hlt : e < defaultSectorSize)
    (hal : (offset + buf.length - e) % defaultSectorSize = 0)
    (hd : ∀ k, k < buf.length - e → buf.getD k 0 = v.shown (offset + k)) :
    (readEnd dev readBuf buf offset e v).Reads dev v.shown offset buf.length := by
  unfold readEnd
  split_ifs with h0
  · have hread : (v.fullReadAt dev readBuf (offset + buf.length - e)).Reads dev v.shown
        (offset + buf.length - e) readBuf.length := by
      refine fullReadAt_shown dev hc hl _ _ (by rw [hr, Nat.mod_self]) hal ?_
      unfold size at hin ⊢
      rw [hr]
      rw [defaultSectorSize_eq] at hal hin hlt ⊢
      omega
    refine ReadResult.andThen_reads hread fun hok => ?_
    have htake : (bytesFrom v.shown (offset + buf.length - e) readBuf.length).take e =
        bytesFrom v.shown (offset + (buf.length - e)) e := by
      refine eq_bytesFrom (by simp; omega) fun k hk => ?_
      rw [getD_take hk, getD_bytesFrom _ _ (by omega), Nat.add_sub_assoc he]
    rw [hread.bytes hok, htake]
    refine ⟨fun _ => eq_bytesFrom (length_splice ?_) fun k hk => ?_, fun _ => rfl, fun _ => rfl⟩
    · simp only [length_bytesFrom]
      omega
    · exact getD_splice_image (by omega) hd (by omega)
  · exact ⟨fun _ => eq_bytesFrom rfl fun k hk => hd k (by omega), fun _ => rfl, fun _ => rfl⟩

/-- An unaligned read whose first `c` bytes, the rest of a sector, are in the buffer. -/
theorem readRest_shown (dev : Dev) (hc : v.ChainOk) (hl : v.LocationLe) (readBuf buf : List Byte)
    (offset c e : ℕ) (hin : offset + buf.length ≤ v.size) (hr : readBuf.length = defaultSectorSize)
    (hcal : (offset + c) % defaultSectorSize = 0) (hlt : e < defaultSectorSize)
    (hle : c < buf.length → c + e ≤ buf.length)
    (hal : (offset + buf.length - e) % defaultSectorSize = 0)
    (hd : ∀ k, k < buf.length → k < c → buf.getD k 0 = v.shown (offset + k)) :
    (readRest dev readBuf buf offset c e v).Reads dev v.shown offset buf.length := by
  unfold readRest
  split_ifs with h0
  · exact ⟨fun _ => eq_bytesFrom rfl fun k hk => hd k hk (by omega), fun _ => rfl, fun _ => rfl⟩
  · have hce := hle (by omega)
    have hlen : ((buf.drop c).take (buf.length - e - c)).length = buf.length - e - c := by
      simp only [List.length_take, List.length_drop]
      omega
    have hread := fullReadAt_shown dev hc hl ((buf.drop c).take (buf.length - e - c)) (offset + c)
      (by rw [hlen]; rw [defaultSectorSize_eq] at hal hcal ⊢; omega) hcal (by rw [hlen]; omega)
    have hf := fullReadAt_fills dev hc ((buf.drop c).take (buf.length - e - c)) (offset + c)
    refine ReadResult.andThen_reads hread fun hok => ?_
    rw [hread.bytes hok, hlen]
    generalize (v.fullReadAt dev _ _).v = v' at hf ⊢
    have hsplice : (splice buf c (bytesFrom v.shown (offset + c) (buf.length - e - c))).length =
        buf.length :=
      length_splice (by rw [length_bytesFrom]; omega)
    have hsize : v'.size = v.size := by
      obtain ⟨l, rfl, -⟩ := hf
      rfl
    have hend := readEnd_shown dev (hf.chainOk hc) (hl.fills hc hf) readBuf
      (splice buf c (bytesFrom v.shown (offset + c) (buf.length - e - c))) offset e
    rw [hsplice, hsize, hf.shown hc] at hend
    refine hend hin hr (by omega) hlt hal fun k hk => ?_
    exact getD_splice_image (by omega) (fun k hk => hd k (by omega) hk) (by omega)

/-- `ReadAt` of a range inside the volume. -/
theorem readAt_shown (hc : v.ChainOk) (hl : v.LocationLe) (hin : offset + buf.length ≤ v.size) :
    (v.readAt dev buf offset).Reads dev v.shown offset buf.length := by
  unfold readAt
  simp only
  split_ifs with h0 hal
  · refine ⟨fun _ => ?_, fun _ => h0.symm, fun _ => rfl⟩
    rw [List.eq_nil_of_length_eq_zero h0]
    rfl
  · refine fullReadAt_shown dev hc hl _ _ ?_ hal.1 hin
    rw [defaultSectorSize_eq] at hal ⊢
    omega
  · generalize hso : offset % defaultSectorSize = so
    generalize heo : (buf.length + offset) % defaultSectorSize = eo
    have hread : (v.fullReadAt dev zeroSector (offset - so)).Reads dev v.shown (offset - so)
        defaultSectorSize := by
      have h := fullReadAt_shown dev hc hl zeroSector (offset - so)
      rw [length_zeroSector] at h
      unfold size at hin h
      refine h (Nat.mod_self _) ?_ ?_ <;> rw [defaultSectorSize_eq] at * <;> omega
    have hf := fullReadAt_fills dev hc zeroSector (offset - so)
    refine ReadResult.andThen_reads hread fun hok => ?_
    generalize v.fullReadAt dev zeroSector (offset - so) = r at hread hf hok ⊢
    have hso' : so ≤ offset ∧ so < defaultSectorSize := by
      rw [← hso]
      exact ⟨Nat.mod_le _ _, mod_sector_lt _⟩
    have hcopy : (r.buf.drop so).take buf.length =
        bytesFrom v.shown (offset + 0) (min buf.length (defaultSectorSize - so)) := by
      rw [hread.bytes hok]
      refine eq_bytesFrom (by simp) fun k hk => ?_
      rw [getD_take (by omega), getD_drop, getD_bytesFrom _ _ (by omega)]
      congr 1
      omega
    have hsize : r.v.size = v.size := by
      obtain ⟨l, hv, -⟩ := hf
      rw [hv]
      rfl
    have hlen : (splice buf 0 ((r.buf.drop so).take buf.length)).length = buf.length :=
      length_splice (by rw [hcopy, length_bytesFrom]; omega)
    have hrest := readRest_shown dev (hf.chainOk hc) (hl.fills hc hf) r.buf
      (splice buf 0 ((r.buf.drop so).take buf.length)) offset (defaultSectorSize - so) eo
    rw [hlen, hsize, hf.shown hc] at hrest
    obtain ⟨hcal, hlt, hle, heal⟩ : (offset + (defaultSectorSize - so)) % defaultSectorSize = 0 ∧
        eo < defaultSectorSize ∧
        (defaultSectorSize - so < buf.length → defaultSectorSize - so + eo ≤ buf.length) ∧
        (offset + buf.length - eo) % defaultSectorSize = 0 := by
      rw [defaultSectorSize_eq] at *
      refine ⟨?_, ?_, ?_, ?_⟩ <;> omega
    refine hrest hin (by rw [hread.bytes hok, length_bytesFrom]) hcal hlt hle heal
      fun k hk hkc => ?_
    rw [hcopy]
    exact getD_splice_image (by omega) (fun k hk => absurd hk (by omega)) (by omega)

/-- `fullReadAt` on a correct table. -/
theorem fullReadAt_spec (dev : Dev) (hc : v.ChainOk) (hl : v.LocationOk) (buf : List Byte)
    (offset : ℕ) (hb : buf.length % defaultSectorSize = 0) (ho : offset % defaultSectorSize = 0)
    (hin : offset + buf.length ≤ v.size) :
    (v.fullReadAt dev buf offset).Reads dev v.image offset buf.length :=
  (fullReadAt_shown dev hc (hl.locationLe hc) buf offset hb ho hin).congr fun _ _ hb =>
    hl.shown hc (by omega)

/-- `ReadAt` on a correct table. -/
theorem readAt_spec (hc : v.ChainOk) (hl : v.LocationOk) (hin : offset + buf.length ≤ v.size) :
    (v.readAt dev buf offset).Reads dev v.image offset buf.length :=
  (readAt_shown hc (hl.locationLe hc) hin).congr fun _ _ hb => hl.shown hc (by omega)

end Volume

end Jiva
