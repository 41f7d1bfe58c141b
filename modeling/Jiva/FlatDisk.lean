import Jiva.FullWrite

/-!
# The diff-disk is one flat byte array

`overlay img off buf` is the array `img` with `buf` written at `off`. A `WriteAt` that
succeeds overlays the volume with its buffer, changes no file but the active one, and
leaves a correct table (`writeAt_writes`), for every split of the request into a read,
modified and written first sector, whole sectors and a last sector. A snapshot puts an
empty file on top of the chain (`appendHead`) and a read only fills in the table. So a
volume after any sequence of them is the array with the writes applied in order.
-/

namespace Jiva

open Layered Function

variable {buf : List Byte}

/-- The array `img` with `buf` written at `off`. -/
def overlay (img : ℕ → Byte) (off : ℕ) (buf : List Byte) (b : ℕ) : Byte :=
  if off ≤ b ∧ b < off + buf.length then buf.getD (b - off) 0 else img b

theorem overlay_nil (img : ℕ → Byte) (off : ℕ) : overlay img off [] = img := by
  funext b
  rw [overlay, List.length_nil, if_neg (by omega)]

/-- Writing the two parts of a buffer one after the other. -/
theorem overlay_take_drop (img : ℕ → Byte) (off : ℕ) {n : ℕ} (hn : n ≤ buf.length) :
    overlay (overlay img off (buf.take n)) (off + n) (buf.drop n) = overlay img off buf := by
  funext b
  simp only [overlay, List.length_take, List.length_drop, min_eq_left hn, getD_drop]
  rcases Nat.lt_or_ge b (off + n) with hb | hb
  · rw [if_neg (by omega)]
    by_cases ho : off ≤ b
    · rw [if_pos (by omega), if_pos (by omega), getD_take (by omega)]
    · rw [if_neg (by omega), if_neg (by omega)]
  · by_cases he : b < off + buf.length
    · rw [if_pos (by omega), if_pos (by omega)]
      congr 1
      omega
    · rw [if_neg (by omega), if_neg (by omega), if_neg (by omega)]

/-- A whole sector of the array, patched and written back. -/
theorem overlay_splice (img : ℕ → Byte) {base len o : ℕ} (h : o + buf.length ≤ len) :
    overlay img base (splice (bytesFrom img base len) o buf) = overlay img (base + o) buf := by
  have hfit : o + buf.length ≤ (bytesFrom img base len).length := by simpa using h
  funext b
  simp only [overlay, length_splice hfit, length_bytesFrom]
  by_cases hb : base ≤ b ∧ b < base + len
  · rw [if_pos hb, getD_splice hfit]
    by_cases hin : o ≤ b - base ∧ b - base < o + buf.length
    · rw [if_pos hin, if_pos (by omega), Nat.sub_sub]
    · rw [if_neg hin, if_neg (by omega), getD_bytesFrom _ _ (by omega)]
      congr 1
      omega
  · rw [if_neg hb, if_neg (by omega)]

namespace Volume

variable {v v' : Volume} {dev : Dev} {i offset : ℕ}

/-! ## Aligned writes -/

theorem writeFile_ok {store : ℕ → SparseFile} {f : ℕ} {off : ℕ}
    (h : (writeFile dev store f buf off).2.2 = none) :
    (writeFile dev store f buf off).1 = update store f ((store f).writeAt buf off) := by
  unfold writeFile at h ⊢
  split <;> rename_i he
  · simp [he] at h
  · rfl

/-- A write, failed or not, touches one inode, and grows it no further than the request. -/
theorem writeFile_spec (dev : Dev) (store : ℕ → SparseFile) (f : ℕ) (buf : List Byte) (off : ℕ) :
    (∀ g, g ≠ f → (writeFile dev store f buf off).1 g = store g) ∧
    (off + buf.length ≤ (store f).size →
      ((writeFile dev store f buf off).1 f).size = (store f).size) := by
  unfold writeFile
  split
  · refine ⟨fun g hg => update_of_ne hg _ _, fun h => ?_⟩
    simp only [update_self, SparseFile.writeAt, List.length_take]
    omega
  · refine ⟨fun g hg => update_of_ne hg _ _, fun h => ?_⟩
    simp only [update_self, SparseFile.writeAt]
    omega

section Aligned

variable {v v' : Volume} {buf : List Byte} {k n : ℕ}

/-- Which files have extents after the active file is written. -/
theorem hasExtent_write (hc : v.ChainOk) (hsame : v.SameChain v')
    (hstore : v'.store = update v.store (v.file v.target)
      ((v.store (v.file v.target)).writeAt buf (k * defaultSectorSize)))
    (hn : buf.length = n * defaultSectorSize) (hi : i ≤ v.target) (s : ℕ) :
    v'.hasExtent i s = (v.hasExtent i s || decide (i = v.target ∧ k ≤ s ∧ s < k + n)) := by
  unfold hasExtent
  rw [hsame.file, hstore]
  rcases eq_or_ne i v.target with rfl | hne
  · rw [update_self, SparseFile.writeAt_alloc, hn, SparseFile.meets_aligned]
    simp
  · have hf : v.file i ≠ v.file v.target := fun h =>
      hne (hc.file_inj (hi.trans_lt hc.target_lt) hc.target_lt h)
    rw [update_of_ne hf]
    simp [hne]

theorem topFile_write (hc : v.ChainOk) (hsame : v.SameChain v')
    (hstore : v'.store = update v.store (v.file v.target)
      ((v.store (v.file v.target)).writeAt buf (k * defaultSectorSize)))
    (hn : buf.length = n * defaultSectorSize) (s : ℕ) :
    v'.topFile v'.target s = if k ≤ s ∧ s < k + n then v.target else v.topFile v.target s := by
  have hext := fun {i} (hi : i ≤ v.target) => hasExtent_write hc hsame hstore hn hi s
  unfold topFile
  rw [hsame.target]
  split_ifs with hs
  · refine top_eq le_rfl (fun _ => ?_) fun i hi hi' => by omega
    rw [hext le_rfl]
    simp [hs]
  · refine top_congr fun i _ hi => ?_
    rw [hext hi]
    simp [hs]

/-- Writing whole sectors of the active file overlays the volume. -/
theorem image_write (hc : v.ChainOk) (hsame : v.SameChain v')
    (hstore : v'.store = update v.store (v.file v.target)
      ((v.store (v.file v.target)).writeAt buf (k * defaultSectorSize)))
    (hn : buf.length = n * defaultSectorSize) :
    v'.image = overlay v.image (k * defaultSectorSize) buf := by
  funext b
  have htop := topFile_write hc hsame hstore hn (b / defaultSectorSize)
  have hpos := hc.target_pos
  simp only [image, imageAt, overlay, htop, hsame.file, hstore, hn]
  by_cases hs : k ≤ b / defaultSectorSize ∧ b / defaultSectorSize < k + n
  · rw [if_pos hs, if_neg hpos.ne', update_self, SparseFile.writeAt_data, hn]
    have : k * defaultSectorSize ≤ b ∧ b < k * defaultSectorSize + n * defaultSectorSize := by
      rw [defaultSectorSize_eq] at hs ⊢
      omega
    rw [if_pos this, if_pos this]
  · have hout : ¬(k * defaultSectorSize ≤ b ∧
        b < k * defaultSectorSize + n * defaultSectorSize) := by
      rw [defaultSectorSize_eq] at hs ⊢
      omega
    rw [if_neg hs, if_neg hout]
    split_ifs with h0
    · rfl
    · rcases eq_or_ne (v.topFile v.target (b / defaultSectorSize)) v.target with ht | ht
      · rw [ht, update_self, SparseFile.writeAt_data, hn, if_neg hout]
      · have hf : v.file (v.topFile v.target (b / defaultSectorSize)) ≠ v.file v.target :=
          fun h => ht (hc.file_inj ((v.topFile_le _ _).trans_lt hc.target_lt) hc.target_lt h)
        rw [update_of_ne hf]

end Aligned

/-! ## `WriteAt` -/

/-- What a write of `buf` at `offset` does : it touches no file but the active one, and if it
succeeds the volume is overlaid with the buffer and the table is correct. -/
structure Writes (dev : Dev) (v : Volume) (buf : List Byte) (offset : ℕ) (w : WriteResult) :
    Prop where
  ok : dev = Dev.ok → w.err = none
  same : v.SameChain w.v
  others : ∀ f, f ≠ v.file v.target → w.v.store f = v.store f
  chainOk : w.v.ChainOk
  image : w.err = none → w.v.image = overlay v.image offset buf
  locationOk : w.err = none → w.v.LocationOk

/-- Table entries that fill in unknown ones do not change what a write does. -/
theorem Writes.of_fills {w : WriteResult} (hf : v.Fills v') (h : Writes dev v' buf offset w) :
    Writes dev v buf offset w := by
  refine ⟨h.ok, hf.sameChain.trans h.same, fun f hne => ?_, h.chainOk, ?_, h.locationOk⟩
  · rw [h.others f (by rwa [hf.sameChain.file, hf.sameChain.target]), hf.store]
  · rw [← hf.image]
    exact h.image

theorem Writes.nothing (hc : v.ChainOk) (hl : v.LocationOk) (n : ℕ)
    (offset : ℕ) : Writes dev v [] offset ⟨v, n, none⟩ :=
  ⟨fun _ => rfl, SameChain.refl v, fun _ _ => rfl, hc, fun _ => (overlay_nil _ _).symm, fun _ => hl⟩

/-- One write after another. -/
theorem Writes.andThen {k : ℕ} {w : WriteResult} {next : Volume → WriteResult} (hk : k ≤ buf.length)
    (h : Writes dev v (buf.take k) offset w)
    (hn : w.err = none → Writes dev w.v (buf.drop k) (offset + k) (next w.v)) :
    Writes dev v buf offset (w.andThen next) := by
  unfold WriteResult.andThen
  cases he : w.err with
  | some e =>
    exact ⟨fun hd => absurd (h.ok hd) (by simp [he]), h.same, h.others, h.chainOk, nofun, nofun⟩
  | none =>
    have hn := hn he
    refine ⟨hn.ok, h.same.trans hn.same, fun f hf => ?_, hn.chainOk, fun hok => ?_, hn.locationOk⟩
    · rw [hn.others f (by rwa [h.same.file, h.same.target]), h.others f hf]
    · rw [hn.image hok, h.image he, overlay_take_drop _ _ hk]

theorem ChainOk.of_files (hc : v.ChainOk) (hfiles : v'.files = v.files)
    (hlen : v'.locationLen = v.locationLen) (hsize : ∀ i, 0 < i → i < v.files.length →
      (v'.store (v.file i)).size = (v.store (v.file i)).size) : v'.ChainOk := by
  have hfile : ∀ i, v'.file i = v.file i := fun i => by rw [DiffDisk.file, DiffDisk.file, hfiles]
  refine ⟨hfiles ▸ hc.two_le, hfiles ▸ hc.le_u16, ?_, hfiles ▸ hc.nodup, fun i hi hil => ?_⟩
  · rw [hfile, hc.nil_file]
  · rw [hfiles] at hil
    rw [hfile, hsize i hi hil, hc.file_size i hi hil, size, size, hlen]

theorem fullWriteAt_writes (dev : Dev) (hc : v.ChainOk) (hl : v.LocationOk) (buf : List Byte)
    (offset : ℕ) (hb : buf.length % defaultSectorSize = 0) (ho : offset % defaultSectorSize = 0)
    (hin : offset + buf.length ≤ v.size) :
    Writes dev v buf offset (v.fullWriteAt dev buf offset) := by
  have h := fullWriteAt_spec dev v buf offset hb ho
  generalize v.fullWriteAt dev buf offset = w at h
  obtain ⟨hothers, hsize⟩ := writeFile_spec dev v.store (v.file v.target) buf offset
  have hoff : offset / defaultSectorSize * defaultSectorSize = offset := by
    rw [defaultSectorSize_eq] at ho ⊢
    omega
  have hlen : buf.length = buf.length / defaultSectorSize * defaultSectorSize := by
    rw [defaultSectorSize_eq] at hb ⊢
    omega
  have hstore : w.err = none → w.v.store = update v.store (v.file v.target)
      ((v.store (v.file v.target)).writeAt buf
        (offset / defaultSectorSize * defaultSectorSize)) := by
    intro hok
    rw [hoff, h.store, writeFile_ok (h.err ▸ hok)]
  refine ⟨fun hd => ?_, h.same, fun f hf => ?_,
    hc.of_files h.same.files h.same.locationLen fun i hi hil => ?_,
    fun hok => ?_, fun hok s hs => ?_⟩
  · rw [h.err, hd]
    rfl
  · rw [h.store, hothers f hf]
  · rw [h.store]
    rcases eq_or_ne (v.file i) (v.file v.target) with hi' | hi'
    · rw [hi', hsize]
      rwa [hc.file_size _ hc.target_pos hc.target_lt]
    · rw [hothers _ hi']
  · rw [image_write hc h.same (hstore hok) hlen, hoff]
  · rw [h.location]
    unfold owner
    rw [topFile_write hc h.same (hstore hok) hlen]
    rw [h.same.locationLen] at hs
    split_ifs
    · right
      rw [u16_of_lt hc.target_lt_u16]
      have := hc.target_pos
      omega
    · exact hl s hs

/-- A write inside one sector. -/
theorem readModifyWrite_writes (dev : Dev) (hc : v.ChainOk) (hl : v.LocationOk)
    (buf : List Byte) (offset : ℕ) (hin : offset + buf.length ≤ v.size)
    (hone : offset % defaultSectorSize + buf.length ≤ defaultSectorSize) :
    Writes dev v buf offset (v.readModifyWrite dev buf offset) := by
  unfold readModifyWrite
  split_ifs with h0
  · rw [List.eq_nil_of_length_eq_zero h0]
    exact Writes.nothing hc hl 0 offset
  · simp only
    have hread :=
      fullReadAt_spec dev hc hl zeroSector (offset / defaultSectorSize * defaultSectorSize)
    rw [length_zeroSector] at hread
    have hfit : offset / defaultSectorSize * defaultSectorSize + defaultSectorSize ≤ v.size := by
      unfold size at hin ⊢
      rw [defaultSectorSize_eq] at hin ⊢
      omega
    have hread := hread (Nat.mod_self _) (Nat.mul_mod_left _ _) hfit
    have hf := fullReadAt_fills dev hc zeroSector (offset / defaultSectorSize * defaultSectorSize)
    generalize v.fullReadAt dev zeroSector (offset / defaultSectorSize * defaultSectorSize) =
      r at hread hf ⊢
    cases he : r.err with
    | some e =>
      exact ⟨fun hd => absurd (hread.ok hd) (by simp [he]), hf.sameChain,
        fun f _ => by rw [hf.store], hf.chainOk hc, nofun, nofun⟩
    | none =>
      rw [hread.bytes he]
      have hlen : (splice (bytesFrom v.image (offset / defaultSectorSize * defaultSectorSize)
          defaultSectorSize) (offset % defaultSectorSize) buf).length = defaultSectorSize := by
        rw [length_splice (by simpa using hone), length_bytesFrom]
      have hw := fullWriteAt_writes dev (hf.chainOk hc) (hf.locationOk hc hl)
        (splice (bytesFrom v.image (offset / defaultSectorSize * defaultSectorSize)
          defaultSectorSize) (offset % defaultSectorSize) buf)
        (offset / defaultSectorSize * defaultSectorSize)
        (by rw [hlen, Nat.mod_self]) (Nat.mul_mod_left _ _)
        (by rw [hlen, hf.sameChain.size]; exact hfit)
      refine Writes.of_fills hf ⟨hw.ok, hw.same, hw.others, hw.chainOk, fun hok => ?_,
        hw.locationOk⟩
      rw [hw.image hok, hf.image, overlay_splice _ hone, Nat.div_add_mod']

/-- `WriteAt` of a range inside the volume. -/
theorem writeAt_writes (dev : Dev) (hc : v.ChainOk) (hl : v.LocationOk)
    (hin : offset + buf.length ≤ v.size) : Writes dev v buf offset (v.writeAt dev buf offset) := by
  unfold writeAt
  simp only
  split_ifs with h0 hal hone
  · rw [List.eq_nil_of_length_eq_zero h0]
    exact Writes.nothing hc hl 0 offset
  · refine fullWriteAt_writes dev hc hl _ _ ?_ hal.1 hin
    rw [defaultSectorSize_eq] at hal ⊢
    omega
  · refine readModifyWrite_writes dev hc hl _ _ hin ?_
    rw [defaultSectorSize_eq] at hone ⊢
    omega
  · generalize hc' : defaultSectorSize - offset % defaultSectorSize = c at hone
    generalize he : (buf.length + offset) % defaultSectorSize = e
    obtain ⟨hce, hfirst, hmid, hmod, hlast, hlt⟩ : c + e ≤ buf.length ∧
        offset % defaultSectorSize + c ≤ defaultSectorSize ∧
        (buf.length - e - c) % defaultSectorSize = 0 ∧ (offset + c) % defaultSectorSize = 0 ∧
        (offset + buf.length - e) % defaultSectorSize = 0 ∧ e < defaultSectorSize := by
      rw [defaultSectorSize_eq] at *
      refine ⟨?_, ?_, ?_, ?_, ?_, ?_⟩ <;> omega
    have hlc : (buf.take c).length = c := by
      rw [List.length_take]
      omega
    have hlm : ((buf.drop c).take (buf.length - e - c)).length = buf.length - e - c := by
      simp only [List.length_take, List.length_drop]
      omega
    have hll : (buf.drop (buf.length - e)).length = e := by
      rw [List.length_drop]
      omega
    -- the first sector
    have ha := readModifyWrite_writes dev hc hl (buf.take c) offset
      (by rw [hlc]; omega) (by rw [hlc]; exact hfirst)
    generalize v.readModifyWrite dev (buf.take c) offset = a at ha ⊢
    refine ha.andThen (by omega) fun hoka => ?_
    -- the whole sectors
    have hm := fullWriteAt_writes dev ha.chainOk (ha.locationOk hoka)
      ((buf.drop c).take (buf.length - e - c)) _ (by rw [hlm]; exact hmid) hmod
      (by rw [hlm, ha.same.size]; omega)
    generalize a.v.fullWriteAt dev ((buf.drop c).take (buf.length - e - c)) (offset + c) = m at hm ⊢
    refine hm.andThen (by rw [List.length_drop]; omega) fun hokm => ?_
    rw [List.drop_drop, show c + (buf.length - e - c) = buf.length - e by omega,
      show offset + c + (buf.length - e - c) = offset + buf.length - e by omega]
    -- the last sector
    have hz := readModifyWrite_writes dev hm.chainOk (hm.locationOk hokm)
      (buf.drop (buf.length - e)) (offset + buf.length - e)
      (by rw [hll, hm.same.size, ha.same.size]; omega) (by rw [hll, hlast]; omega)
    generalize m.v.readModifyWrite dev (buf.drop (buf.length - e)) (offset + buf.length - e) =
      z at hz ⊢
    refine Writes.andThen (k := e) hll.ge (by rwa [List.take_of_length_le hll.le]) fun hokz => ?_
    rw [List.drop_of_length_le hll.le]
    exact Writes.nothing hz.chainOk (hz.locationOk hokz) _ _

/-! ## Snapshots -/

section AppendHead

variable {v : Volume} {f : ℕ} {userCreated : Bool}

theorem appendHead_target (v : Volume) (f : ℕ) (userCreated : Bool) (h : 0 < v.files.length) :
    (v.appendHead f userCreated).target = v.target + 1 := by
  simp only [appendHead, DiffDisk.target, List.length_append, List.length_singleton]
  omega

theorem appendHead_file_of_lt (hi : i < v.files.length) :
    (v.appendHead f userCreated).file i = v.file i := by
  simp [appendHead, DiffDisk.file, List.getD_eq_getElem?_getD, List.getElem?_append_left hi]

theorem appendHead_file_length : (v.appendHead f userCreated).file v.files.length = f := by
  simp [appendHead, DiffDisk.file, List.getD_eq_getElem?_getD]

theorem appendHead_store_of_lt (hf : f ∉ v.files) (hi : i < v.files.length) :
    (v.appendHead f userCreated).store (v.file i) = v.store (v.file i) := by
  refine update_of_ne (fun h => hf ?_) _ _
  rw [← h, DiffDisk.file, List.getD_eq_getElem _ _ hi]
  exact List.getElem_mem hi

theorem appendHead_hasExtent_of_lt (hf : f ∉ v.files) (hi : i < v.files.length) (s : ℕ) :
    (v.appendHead f userCreated).hasExtent i s = v.hasExtent i s := by
  unfold hasExtent
  rw [appendHead_file_of_lt hi, appendHead_store_of_lt hf hi]

theorem appendHead_hasExtent_length (s : ℕ) :
    (v.appendHead f userCreated).hasExtent v.files.length s = false := by
  unfold hasExtent
  rw [appendHead_file_length]
  simp [appendHead]

theorem appendHead_topFile (hf : f ∉ v.files) {u : ℕ} (hu : u < v.files.length) (s : ℕ) :
    (v.appendHead f userCreated).topFile u s = v.topFile u s :=
  top_congr fun _ _ hi => appendHead_hasExtent_of_lt hf (by omega) s

/-- The images of the files that were there do not change. -/
theorem appendHead_imageAt (hf : f ∉ v.files) {u : ℕ} (hu : u < v.files.length) :
    (v.appendHead f userCreated).imageAt u = v.imageAt u :=
  imageAt_congr (fun _ hi => appendHead_file_of_lt (by omega)) fun _ hi =>
    appendHead_store_of_lt hf (by omega)

theorem appendHead_topFile_target (hf : f ∉ v.files) (hpos : 0 < v.files.length) (s : ℕ) :
    (v.appendHead f userCreated).topFile (v.appendHead f userCreated).target s =
      v.topFile v.target s := by
  have hlen : v.target + 1 = v.files.length := by
    unfold DiffDisk.target
    omega
  rw [appendHead_target _ _ _ hpos, topFile, top_succ_of_not]
  · exact appendHead_topFile hf (by omega) s
  · rw [hlen]
    exact appendHead_hasExtent_length s

/-- A snapshot does not change the volume. -/
theorem appendHead_image (hf : f ∉ v.files) (hpos : 0 < v.files.length) :
    (v.appendHead f userCreated).image = v.image := by
  funext b
  have hlt : v.topFile v.target (b / defaultSectorSize) < v.files.length :=
    (v.topFile_le _ _).trans_lt (by unfold DiffDisk.target; omega)
  simp only [image, imageAt, appendHead_topFile_target hf hpos]
  rw [appendHead_file_of_lt hlt, appendHead_store_of_lt hf hlt]

theorem appendHead_chainOk (hc : v.ChainOk) (hf : f ∉ v.files) (hlen : v.files.length < 65536) :
    (v.appendHead f userCreated).ChainOk := by
  have htwo := hc.two_le
  refine ⟨?_, ?_, ?_, ?_, fun i hi hil => ?_⟩
  · simp only [appendHead, List.length_append]
    omega
  · simp only [appendHead, List.length_append, List.length_singleton]
    omega
  · rw [appendHead_file_of_lt (by omega), hc.nil_file]
  · exact List.nodup_append.2 ⟨hc.nodup, List.nodup_singleton f, fun a ha b hb => by
      rintro rfl
      exact hf (List.mem_singleton.1 hb ▸ ha)⟩
  · have hil' : i < v.files.length ∨ i = v.files.length := by
      simp only [appendHead, List.length_append, List.length_singleton] at hil
      omega
    rcases hil' with h | rfl
    · rw [appendHead_file_of_lt h, appendHead_store_of_lt hf h]
      exact hc.file_size i hi h
    · rw [appendHead_file_length]
      simp [appendHead, size]

theorem appendHead_locationOk (hc : v.ChainOk) (hl : v.LocationOk) (hf : f ∉ v.files) :
    (v.appendHead f userCreated).LocationOk := by
  intro s hs
  unfold owner
  rw [appendHead_topFile_target hf (by have := hc.two_le; omega)]
  exact hl s hs

end AppendHead

/-! ## Sequences -/

/-- The operations of a sequence : writes that succeed, reads, and snapshots. -/
inductive FlatOp
  | write (dev : Dev) (buf : List Byte) (offset : ℕ)
  | read (dev : Dev) (buf : List Byte) (offset : ℕ)
  | snapshot (f : ℕ) (userCreated : Bool)

/-- One operation on the volume. A snapshot takes a new inode, while there are indices left
for it. -/
def flatStep (v : Volume) : FlatOp → Option Volume
  | .write dev buf offset =>
    if offset + buf.length ≤ v.size ∧ (v.writeAt dev buf offset).err = none then
      some (v.writeAt dev buf offset).v
    else none
  | .read dev buf offset => some (v.readAt dev buf offset).v
  | .snapshot f userCreated =>
    if f ∉ v.files ∧ v.files.length < 65536 then some (v.appendHead f userCreated) else none

/-- One operation on the flat array. -/
def FlatOp.apply (img : ℕ → Byte) : FlatOp → ℕ → Byte
  | .write _ buf offset => overlay img offset buf
  | .read _ _ _ => img
  | .snapshot _ _ => img

theorem flatStep_spec {op : FlatOp} (hc : v.ChainOk) (hl : v.LocationOk)
    (h : flatStep v op = some v') :
    v'.ChainOk ∧ v'.LocationOk ∧ v'.size = v.size ∧ v'.image = op.apply v.image := by
  cases op with
  | write dev buf offset =>
    simp only [flatStep, Option.ite_none_right_eq_some, Option.some.injEq] at h
    obtain ⟨⟨hin, hok⟩, rfl⟩ := h
    have hw := writeAt_writes dev hc hl hin
    exact ⟨hw.chainOk, hw.locationOk hok, hw.same.size, hw.image hok⟩
  | read dev buf offset =>
    simp only [flatStep, Option.some.injEq] at h
    obtain rfl := h
    have hf := readAt_fills dev hc buf offset
    exact ⟨hf.chainOk hc, hf.locationOk hc hl, hf.sameChain.size, hf.image⟩
  | snapshot f userCreated =>
    simp only [flatStep, Option.ite_none_right_eq_some, Option.some.injEq] at h
    obtain ⟨⟨hf, hlen⟩, rfl⟩ := h
    exact ⟨appendHead_chainOk hc hf hlen, appendHead_locationOk hc hl hf, rfl,
      appendHead_image hf (by have := hc.two_le; omega)⟩

theorem flatRun_spec :
    ∀ {ops : List FlatOp} {v v' : Volume}, v.ChainOk → v.LocationOk →
    Transition.run flatStep v ops = some v' →
      v'.ChainOk ∧ v'.LocationOk ∧ v'.size = v.size ∧ v'.image = ops.foldl FlatOp.apply v.image
  | [], v, v', hc, hl, h => by
    obtain rfl : v = v' := by simpa using h
    exact ⟨hc, hl, rfl, rfl⟩
  | op :: ops, v, v', hc, hl, h => by
    obtain ⟨t, ht, h⟩ := Option.bind_eq_some_iff.1 h
    obtain ⟨hc', hl', hs', hi'⟩ := flatStep_spec hc hl ht
    obtain ⟨hc'', hl'', hs'', hi''⟩ := flatRun_spec hc' hl' h
    exact ⟨hc'', hl'', hs''.trans hs', by rw [hi'', hi', List.foldl_cons]⟩

/-- The diff-disk is a flat byte array. Reads return the bytes of the image and change none of
them. A write that succeeds replaces exactly the bytes of its range, in the active file, and
leaves a correct table. After any sequence of writes, reads and snapshots the volume is the
array with the writes applied in order. -/
theorem diffDisk_flat (v : Volume) (hc : v.ChainOk) (hl : v.LocationOk) :
    (∀ (dev : Dev) (buf : List Byte) (offset : ℕ), offset + buf.length ≤ v.size →
      (v.readAt dev buf offset).Reads dev v.image offset buf.length) ∧
    (∀ (dev : Dev) (buf : List Byte) (offset : ℕ),
      (v.readAt dev buf offset).v.image = v.image ∧ (v.readAt dev buf offset).v.store = v.store ∧
      (v.readAt dev buf offset).v.files = v.files ∧ (v.readAt dev buf offset).v.LocationOk) ∧
    (∀ (dev : Dev) (buf : List Byte) (offset : ℕ), offset + buf.length ≤ v.size →
      (dev = Dev.ok → (v.writeAt dev buf offset).err = none) ∧
      ((v.writeAt dev buf offset).err = none →
        (∀ (dev' : Dev) (buf' : List Byte) (offset' : ℕ), offset' + buf'.length ≤ v.size →
          ((v.writeAt dev buf offset).v.readAt dev' buf' offset').Reads dev'
            (overlay v.image offset buf) offset' buf'.length) ∧
        (∀ f, f ≠ v.file v.target → (v.writeAt dev buf offset).v.store f = v.store f) ∧
        (v.writeAt dev buf offset).v.files = v.files ∧
        (v.writeAt dev buf offset).v.LocationOk)) ∧
    (∀ (ops : List FlatOp) (v' : Volume), Transition.run flatStep v ops = some v' →
      v'.image = ops.foldl FlatOp.apply v.image ∧
      ∀ (dev : Dev) (buf : List Byte) (offset : ℕ), offset + buf.length ≤ v.size →
        (v'.readAt dev buf offset).Reads dev (ops.foldl FlatOp.apply v.image) offset
          buf.length) := by
  refine ⟨fun dev buf offset hin => readAt_spec hc hl hin, fun dev buf offset => ?_,
    fun dev buf offset hin => ?_, fun ops v' hrun => ?_⟩
  · have hf := readAt_fills dev hc buf offset
    exact ⟨hf.image, hf.store, hf.sameChain.files, hf.locationOk hc hl⟩
  · have hw := writeAt_writes dev hc hl hin
    refine ⟨hw.ok, fun hok => ⟨fun dev' buf' offset' hin' => ?_, hw.others, hw.same.files,
      hw.locationOk hok⟩⟩
    rw [← hw.image hok]
    exact readAt_spec hw.chainOk (hw.locationOk hok) (by rwa [hw.same.size])
  · obtain ⟨hc', hl', hs', hi'⟩ := flatRun_spec hc hl hrun
    refine ⟨hi', fun dev buf offset hin => ?_⟩
    rw [← hi']
    exact readAt_spec hc' hl' (by rwa [hs'])

/-- Two bytes written across a sector boundary of a new volume, and read back. -/
theorem diffDisk_flat_new :
    (((new 2 5).writeAt Dev.ok [1, 2] 4095).v.readAt Dev.ok [9, 9, 9, 9] 4094).buf =
      [0, 1, 2, 0] := by
  have h := diffDisk_flat (new 2 5) (new_chainOk 2 (by decide)) (new_locationOk 2 5)
  obtain ⟨hok, hw⟩ := h.2.2.1 Dev.ok [1, 2] 4095 (by decide)
  have hr := (hw (hok rfl)).1 Dev.ok [9, 9, 9, 9] 4094 (by decide)
  rw [hr.bytes (hr.ok rfl)]
  decide

end Volume

end Jiva
