import Jiva.Coalesce
import Jiva.ScanInv

/-!
# The hole creator beside the snapshot cleaner

`Cleaner` is an open volume, with the snapshot that the cleaner is removing. The cleaner
marks a snapshot (`PrepareRemoveDisk`), copies it over its parent sector by sector, and then
calls `RemoveDiffDisk`. Writes, reads, snapshots, `preload` and the hole creator go on
beside it, in any order.

A waiting hole is safe as long as the file that hides its sector stays. The cleaner takes
such a file away : where the snapshot is seen, its parent must hold the bytes until the
snapshot is gone, and no waiting hole may name them (`Kept`). `RemoveDiffDisk` throws the
waiting holes away, but it does so after the sectors were copied. So the live volume reads
what was written as long as no hole waits for a sector of the parent when it is copied,
and `preload` does not run between the first copy and the removal (`Quiet`,
`liveRead_holes`), and there is a run that breaks the first of these and loses a
sector (`liveRead_lost`).
-/

namespace Jiva

open Layered Volume

/-- The snapshot at index `k` is being removed, and `pos` sectors of it have been copied. -/
structure Removal where
  k : ℕ
  pos : ℕ

/-- An open volume, the flags of its disks, and the snapshot that is being removed. -/
structure Cleaner where
  v : Volume
  userCreated : List Bool
  removing : Option Removal

namespace Cleaner

/-- What happens to the volume while the cleaner runs. -/
inductive Op
  | write (buf : List Byte) (offset : ℕ)
  | read (buf : List Byte) (offset : ℕ)
  | snapshot (f : ℕ) (userCreated : Bool)
  | preload
  | punch (n : ℕ)
  | prepareRemoveDisk (k : ℕ)
  | coalesce
  | removeDiffDisk

/-- One step. `PrepareRemoveDisk` refuses the active layer, the latest snapshot and the base,
and `RemoveDiffDisk` runs after the last sector was copied. -/
def step (c : Cleaner) : Op → Option Cleaner
  | .write buf offset =>
    if offset + buf.length ≤ c.v.size then
      some { c with v := (c.v.writeAt Dev.ok buf offset).v }
    else none
  | .read buf offset => some { c with v := (c.v.readAt Dev.ok buf offset).v }
  | .snapshot f userCreated =>
    if f ∉ c.v.files ∧ c.v.files.length < 65536 then
      some { c with
        v := c.v.appendHead f userCreated
        userCreated := c.userCreated.set c.v.target userCreated ++ [false] }
    else none
  | .preload => some { c with v := (c.v.openLiveChain c.userCreated).preload }
  | .punch n => (c.v.createHole n).map fun v => { c with v := v }
  | .prepareRemoveDisk k =>
    match c.removing with
    | none => if 2 ≤ k ∧ k + 1 < c.v.target then some { c with removing := some ⟨k, 0⟩ } else none
    | some _ => none
  | .coalesce =>
    match c.removing with
    | none => none
    | some r =>
      if r.pos < c.v.locationLen then
        some { c with v := c.v.coalesceSector r.k r.pos, removing := some ⟨r.k, r.pos + 1⟩ }
      else none
  | .removeDiffDisk =>
    match c.removing with
    | none => none
    | some r =>
      if c.v.locationLen ≤ r.pos then
        some ⟨c.v.removeDisk r.k, c.userCreated.eraseIdx r.k, none⟩
      else none

/-- A new volume. -/
def new (sectors f : ℕ) : Cleaner :=
  ⟨Volume.new sectors f, [false, false], none⟩

/-- One operation on the bytes that were written. -/
def Op.apply (img : ℕ → Byte) : Op → ℕ → Byte
  | .write buf offset => overlay img offset buf
  | _ => img

/-- No hole waits for the sector of the parent that is copied next, if the snapshot has one to
copy, and `preload` does not run when sectors have been copied. -/
def Quiet (c : Cleaner) : Op → Prop
  | .preload => ∀ r, c.removing = some r → r.pos = 0
  | .coalesce => ∀ r, c.removing = some r → c.v.hasExtent r.k r.pos = true →
      ∀ h ∈ c.v.holeCreatorChan, h.f = c.v.file (r.k - 1) →
        SparseFile.inside h.offset h.len r.pos = false
  | _ => True

end Cleaner

namespace Volume

/-- Where sector `s` is seen in the file at index `k`, its parent has the same bytes, and no hole
waits for them. -/
structure Kept (v : Volume) (k s : ℕ) : Prop extends Merged v k s where
  free : v.topFile v.target s = k → ∀ h ∈ v.holeCreatorChan, h.f = v.file (k - 1) →
    SparseFile.inside h.offset h.len s = false

section Kept

variable {v v' : Volume} {k s : ℕ}

theorem Kept.fills (h : v.Kept k s) (hf : v.Fills v') : v'.Kept k s := by
  obtain ⟨l, rfl, -⟩ := hf
  exact ⟨⟨h.held, h.data⟩, h.free⟩

/-- A written sector is seen in the active layer. -/
theorem Kept.write {a n : ℕ} (hc : v.ChainOk) (hkt : k < v.target) (h : v.Kept k s)
    (he : FullEffect v v' a n) : v'.Kept k s := by
  have htl := hc.target_lt
  have htop := topFile_effect he le_rfl s
  have hseen : v'.topFile v'.target s = k → v.topFile v.target s = k ∧ ¬(a ≤ s ∧ s < a + n) := by
    rw [he.same.target, htop]
    split_ifs with hin
    · intro heq
      omega
    · exact fun heq => ⟨heq, fun hin' => hin ⟨rfl, hin'⟩⟩
  have hne : ∀ i, i < v.target → v.file i ≠ v.file v.target := fun i hi hf => by
    have := hc.file_inj (by omega) htl hf
    omega
  refine ⟨⟨fun hk => ?_, fun hk b hb => ?_⟩, fun hk hole hh hf => ?_⟩
  · rw [he.hasExtent _ _ (by omega), h.held (hseen hk).1, Bool.true_or]
  · rw [he.same.file, he.same.file, he.others _ (hne _ (by omega)), he.others _ (hne _ hkt)]
    exact h.data (hseen hk).1 b hb
  · obtain ⟨hs, heq, hall⟩ := he.holes
    rw [heq] at hh
    rw [he.same.file] at hf
    rcases List.mem_append.1 hh with hh | hh
    · exact h.free (hseen hk).1 hole hh hf
    · obtain ⟨i, lo, len, hw⟩ := hall hole hh
      have h1 := hw.start_le
      have h2 := hw.le_end
      have h3 := (hseen hk).2
      rw [hw.eq, SparseFile.inside_aligned]
      exact decide_eq_false (by omega)

theorem Kept.appendHead {f : ℕ} {userCreated : Bool} (hc : v.ChainOk) (hf : f ∉ v.files)
    (hkt : k < v.target) (h : v.Kept k s) : (v.appendHead f userCreated).Kept k s := by
  have htl := hc.target_lt
  have htop : (v.appendHead f userCreated).topFile (v.appendHead f userCreated).target s =
      v.topFile v.target s := appendHead_topFile_target hf (by omega) s
  refine ⟨⟨fun hk => ?_, fun hk b hb => ?_⟩, fun hk hole hh hfile => ?_⟩
  · rw [appendHead_hasExtent_of_lt hf (by omega)]
    exact h.held (htop.symm.trans hk)
  · rw [appendHead_file_of_lt (by omega), appendHead_file_of_lt (by omega),
      appendHead_store_of_lt hf (by omega), appendHead_store_of_lt hf (by omega)]
    exact h.data (htop.symm.trans hk) b hb
  · rw [appendHead_file_of_lt (by omega)] at hfile
    exact h.free (htop.symm.trans hk) hole hh hfile

/-- The hole creator takes a safe hole : it is not in the file that is seen, and it is not one
that the parent must keep. -/
theorem Kept.createHole {n : ℕ} (hc : v.ChainOk) (hk2 : 2 ≤ k) (hkt : k < v.target)
    (hq : v.QueueOk fun u => u = v.target) (hn : v.createHole n = some v') (h : v.Kept k s) :
    v'.Kept k s := by
  have htl := hc.target_lt
  have htop := (hq.createHole hc hn).topFile v.target s rfl le_rfl
  obtain ⟨hole, hmem, hchan, heff⟩ := createHole_effect hc.nodup hn
  obtain ⟨f, lo, len, rfl, hf, hall⟩ := hq hole hmem
  have he : PunchEffect v v' (fun i => i = f) (lo * defaultSectorSize) (len * defaultSectorSize) :=
    heff f hf rfl
  have hseen : v'.topFile v'.target s = k → v.topFile v.target s = k := by
    rw [he.same.target, htop]
    exact id
  -- the hole does not meet the sector, neither in the parent nor in the snapshot
  have hmiss : v.topFile v.target s = k → ∀ i, i = k - 1 ∨ i = k →
      ¬(i = f ∧ lo ≤ s ∧ s < lo + len) := by
    rintro hk i (rfl | rfl) ⟨rfl, h1, h2⟩
    · have hin := h.free hk _ hmem rfl
      rw [SparseFile.inside_aligned] at hin
      exact absurd hin (by simp [h1, h2])
    · obtain ⟨j, hij, hjt, hj⟩ := (hall s h1 h2).hidden
        (hk ▸ holds_top v.hasExtent v.target s (by unfold topFile at hk; omega)) _ rfl hkt.le le_rfl
      have := le_top v.hasExtent hjt hj (by omega)
      unfold topFile at hk
      omega
  refine ⟨⟨fun hk => ?_, fun hk b hb => ?_⟩, fun hk hole hh hfile => ?_⟩
  · rw [he.hasExtent_hole (by omega), h.held (hseen hk),
      decide_eq_false (hmiss (hseen hk) _ (.inl rfl))]
    rfl
  · have hdata : ∀ i, i < v.files.length → i = k - 1 ∨ i = k →
        (v'.store (v.file i)).data b = (v.store (v.file i)).data b := fun i hi hik => by
      rw [he.data hi, if_neg]
      rintro ⟨rfl, hb1, hb2⟩
      refine hmiss (hseen hk) i hik ⟨rfl, ?_⟩
      rw [defaultSectorSize_eq] at *
      omega
    rw [he.same.file, he.same.file, hdata _ (by omega) (.inl rfl), hdata _ (by omega) (.inr rfl)]
    exact h.data (hseen hk) b hb
  · rw [hchan] at hh
    rw [he.same.file] at hfile
    exact h.free (hseen hk) hole (List.mem_of_mem_eraseIdx hh) hfile

/-- Copying another sector leaves this one alone. -/
theorem Kept.coalesceSector {t : ℕ} (hc : v.ChainOk) (hk2 : 2 ≤ k) (hkt : k < v.target)
    (hst : s ≠ t) (h : v.Kept k s) : (v.coalesceSector k t).Kept k s := by
  have htl := hc.target_lt
  have htop := coalesceSector_topFile hc hk2 hkt t s
  refine ⟨⟨fun hk => ?_, fun hk b hb => ?_⟩, fun hk => h.free (htop.symm.trans hk)⟩
  · rw [coalesceSector_hasExtent hc.nodup (hkt.trans hc.target_lt) (by omega),
      h.held (htop.symm.trans hk), Bool.true_or]
  · show ((v.coalesceSector k t).store (v.file (k - 1))).data b =
      ((v.coalesceSector k t).store (v.file k)).data b
    rw [coalesceSector_store hc.nodup (hkt.trans hc.target_lt) (by omega),
      coalesceSector_store hc.nodup (hkt.trans hc.target_lt) (by omega),
      if_pos rfl, if_neg (by omega)]
    simp only [SparseFile.copySector, hb, hst, false_and, if_false]
    exact h.data (htop.symm.trans hk) b hb

/-- The sector that is copied is kept, if no hole waits for it. -/
theorem Kept.copied (hc : v.ChainOk) (hk2 : 2 ≤ k) (hkt : k < v.target)
    (hfree : v.hasExtent k s = true → ∀ h ∈ v.holeCreatorChan, h.f = v.file (k - 1) →
      SparseFile.inside h.offset h.len s = false) : (v.coalesceSector k s).Kept k s := by
  have htl := hc.target_lt
  have htop := coalesceSector_topFile hc hk2 hkt s s
  have hext : (v.coalesceSector k s).topFile v.target s = k → v.hasExtent k s = true := by
    intro hk
    rw [htop] at hk
    exact hk ▸ holds_top v.hasExtent v.target s (by unfold topFile at hk; omega)
  refine ⟨⟨fun hk => ?_, fun hk b hb => ?_⟩, fun hk => hfree (hext hk)⟩
  · rw [coalesceSector_hasExtent hc.nodup (hkt.trans hc.target_lt) (by omega), hext hk]
    simp
  · show ((v.coalesceSector k s).store (v.file (k - 1))).data b =
      ((v.coalesceSector k s).store (v.file k)).data b
    have halloc : (v.store (v.file k)).alloc s = true := hext hk
    rw [coalesceSector_store hc.nodup (hkt.trans hc.target_lt) (by omega),
      coalesceSector_store hc.nodup (hkt.trans hc.target_lt) (by omega),
      if_pos rfl, if_neg (by omega)]
    simp only [SparseFile.copySector, hb, halloc, and_self, if_true]

end Kept

end Volume

namespace Cleaner

/-- The invariant of a volume beside the cleaner, where `img` are the bytes that were written. -/
structure CleanInv (c : Cleaner) (img : ℕ → Byte) : Prop where
  chainOk : c.v.ChainOk
  locationOk : c.v.LocationOk
  queue : c.v.QueueOk fun u => u = c.v.target
  image : ∀ b, b < c.v.size → c.v.image b = img b
  two_le : ∀ r, c.removing = some r → 2 ≤ r.k
  lt_target : ∀ r, c.removing = some r → r.k < c.v.target
  kept : ∀ r, c.removing = some r → ∀ s, s < r.pos → c.v.Kept r.k s

namespace CleanInv

variable {c : Cleaner} {img : ℕ → Byte}

theorem new {sectors f : ℕ} (hf : f ≠ 0) : (Cleaner.new sectors f).CleanInv fun _ => 0 := by
  refine ⟨new_chainOk _ hf, new_locationOk _ _, ?_, fun b _ => ?_, nofun, nofun, nofun⟩
  · intro h hh
    cases hh
  · exact congrFun (new_image sectors hf) b

theorem fills {v' : Volume} (h : c.CleanInv img) (hf : c.v.Fills v') :
    CleanInv { c with v := v' } img := by
  refine ⟨hf.chainOk h.chainOk, hf.locationOk h.chainOk h.locationOk, ?_, fun b hb => ?_, h.two_le,
    fun r hr => ?_, fun r hr s hs => (h.kept r hr s hs).fills hf⟩
  · show v'.QueueOk _
    rw [hf.sameChain.target]
    exact h.queue.fills hf
  · rw [hf.image]
    exact h.image b (by rwa [hf.sameChain.size] at hb)
  · rw [hf.sameChain.target]
    exact h.lt_target r hr

theorem write {buf : List Byte} {offset : ℕ} (h : c.CleanInv img)
    (hin : offset + buf.length ≤ c.v.size) :
    CleanInv { c with v := (c.v.writeAt Dev.ok buf offset).v } (overlay img offset buf) := by
  have hw := writeAt_writes Dev.ok h.chainOk h.locationOk hin
  have hok := hw.ok rfl
  have hr := writeAt_ind (X := False) (P := fun u =>
      (u.QueueOk fun i => i = c.v.target) ∧ u.LocationLe ∧ u.target = c.v.target ∧
      ∀ k s, k < c.v.target → c.v.Kept k s → u.Kept k s) h.chainOk hin nofun ?_ ?_
    ⟨h.queue, h.locationOk.locationLe h.chainOk, rfl, fun _ _ _ hk => hk⟩
  · obtain ⟨hq, -, ht, hk⟩ := hr.inv
    refine ⟨hw.chainOk, hw.locationOk hok, ?_, fun b hb => ?_, h.two_le, fun r hr => ?_,
      fun r hr s hs => hk r.k s (h.lt_target r hr) (h.kept r hr s hs)⟩
    · rw [ht]
      exact hq
    · rw [hw.same.size] at hb
      rw [hw.image hok, overlay, overlay, h.image b hb]
    · rw [ht]
      exact h.lt_target r hr
  · rintro u u' ⟨hq, hl, ht, hk⟩ hc hf
    exact ⟨hq.fills hf, hl.fills hc hf, hf.sameChain.target.trans ht,
      fun k s hkt hkept => (hk k s hkt hkept).fills hf⟩
  · rintro u u' a n ⟨hq, hl, ht, hk⟩ hc hin' _ he
    refine ⟨hq.write hc hl hin' (fun i hi hit => ?_) he, hl.write he, he.same.target.trans ht,
      fun k s hkt hkept => (hk k s hkt hkept).write hc (by omega) he⟩
    omega

theorem snapshot {f : ℕ} {userCreated : Bool} (h : c.CleanInv img) (hf : f ∉ c.v.files)
    (hlen : c.v.files.length < 65536) (flags : List Bool) :
    CleanInv ⟨c.v.appendHead f userCreated, flags, c.removing⟩ img := by
  have htl := h.chainOk.target_lt
  have htarget : (c.v.appendHead f userCreated).target = c.v.target + 1 :=
    appendHead_target _ _ _ (by omega)
  refine ⟨appendHead_chainOk h.chainOk hf hlen, appendHead_locationOk h.chainOk h.locationOk hf,
    fun hole hh => ?_, fun b hb => ?_, h.two_le, fun r hr => ?_, fun r hr s hs =>
      (h.kept r hr s hs).appendHead h.chainOk hf (h.lt_target r hr)⟩
  · refine (h.queue hole hh).mono (fun g s hok => hok.appendHead hf (by omega) rfl
      fun u hu hut => ?_) (fun i hi => appendHead_file_of_lt hi) (by simp [appendHead])
    have hu : u = (c.v.appendHead f userCreated).target := hu
    omega
  · show (c.v.appendHead f userCreated).image b = img b
    rw [appendHead_image hf (by omega)]
    exact h.image b hb
  · have := h.lt_target r hr
    show r.k < (c.v.appendHead f userCreated).target
    omega

theorem punch {v' : Volume} {n : ℕ} (h : c.CleanInv img) (hn : c.v.createHole n = some v') :
    CleanInv { c with v := v' } img := by
  have hstep := h.queue.createHole h.chainOk hn
  have hown : ∀ s, v'.owner s = c.v.owner s := fun s => by
    unfold owner
    rw [hstep.same.target, hstep.topFile _ s rfl le_rfl]
  refine ⟨hstep.chainOk, fun s hs => ?_, ?_, fun b hb => ?_, h.two_le, fun r hr => ?_,
    fun r hr s hs => (h.kept r hr s hs).createHole h.chainOk (h.two_le r hr)
    (h.lt_target r hr) h.queue hn⟩
  · rw [hstep.location, hown]
    exact h.locationOk s (by rwa [hstep.same.locationLen] at hs)
  · rw [hstep.same.target]
    exact hstep.queueOk
  · unfold Volume.image
    rw [hstep.same.target, hstep.imageAt _ rfl le_rfl]
    exact h.image b (by rwa [hstep.same.size] at hb)
  · rw [hstep.same.target]
    exact h.lt_target r hr

theorem preload (h : c.CleanInv img) (hpos : ∀ r, c.removing = some r → r.pos = 0) :
    CleanInv { c with v := (c.v.openLiveChain c.userCreated).preload } img := by
  obtain ⟨hsame, -, hs, hchan, hsafe⟩ := preload_spec (V := fun u => u = c.v.target) h.chainOk
    c.userCreated fun u hu hut => absurd hu hut.ne
  set v' := (c.v.openLiveChain c.userCreated).preload with hv'
  have hfiles : v'.files = c.v.files := hsame.files
  have hlen : v'.locationLen = c.v.locationLen := hsame.locationLen
  have htarget : v'.target = c.v.target := hsame.target
  have hfile : ∀ i, v'.file i = c.v.file i := hsame.file
  have hext : ∀ i s, v'.hasExtent i s = c.v.hasExtent i s := hsame.hasExtent rfl
  refine ⟨preload_chainOk h.chainOk _, preload_locationOk h.chainOk _, fun hole hh => ?_,
    fun b hb => ?_, h.two_le, fun r hr => ?_, fun r hr s hs' => ?_⟩
  · have hsafe' : c.v.SafeHole (fun u => u = c.v.target) hole := by
      rw [hchan] at hh
      rcases List.mem_append.1 hh with hh | hh
      · exact h.queue hole hh
      · exact hsafe hole hh
    rw [htarget]
    exact hsafe'.mono (fun _ _ => HoleOk.congr htarget hext) (fun i _ => hfile i) (by rw [hfiles])
  · unfold Volume.size at hb
    rw [hlen] at hb
    show v'.image b = img b
    rw [hv', preload_image h.chainOk]
    exact h.image b hb
  · rw [htarget]
    exact h.lt_target r hr
  · rw [hpos r hr] at hs'
    omega

theorem coalesce {r : Removal} (h : c.CleanInv img) (hr : c.removing = some r)
    (hfree : c.v.hasExtent r.k r.pos = true → ∀ h ∈ c.v.holeCreatorChan,
      h.f = c.v.file (r.k - 1) → SparseFile.inside h.offset h.len r.pos = false) :
    CleanInv { c with
      v := c.v.coalesceSector r.k r.pos, removing := some ⟨r.k, r.pos + 1⟩ } img := by
  have hk := h.two_le r hr
  have hkt := h.lt_target r hr
  refine ⟨coalesceSector_chainOk h.chainOk hkt _,
    coalesceSector_locationOk h.chainOk h.locationOk hk hkt _, fun hole hh => ?_, fun b hb => ?_,
    fun r' hr' => ?_, fun r' hr' => ?_, fun r' hr' s hs => ?_⟩
  · exact (h.queue hole hh).mono (fun f t hok => hok.coalesceSector h.chainOk hk hkt r.pos)
      (fun _ _ => rfl) le_rfl
  · show (c.v.coalesceSector r.k r.pos).image b = img b
    rw [coalesceSector_image h.chainOk hk hkt]
    exact h.image b hb
  · obtain rfl := Option.some.inj hr'
    exact hk
  · obtain rfl := Option.some.inj hr'
    exact hkt
  · obtain rfl := Option.some.inj hr'
    rcases Nat.lt_or_ge s r.pos with hlt | hge
    · exact (h.kept r hr s hlt).coalesceSector h.chainOk hk hkt (by omega)
    · obtain rfl : s = r.pos := by
        simp only at hs
        omega
      exact Kept.copied h.chainOk hk hkt hfree

theorem removeDiffDisk {r : Removal} (h : c.CleanInv img) (hr : c.removing = some r)
    (hdone : c.v.locationLen ≤ r.pos) (flags : List Bool) :
    CleanInv ⟨c.v.removeDisk r.k, flags, none⟩ img := by
  have hk := h.two_le r hr
  have hkt := h.lt_target r hr
  have hm : ∀ s, s < c.v.locationLen → c.v.Merged r.k s := fun s hs =>
    (h.kept r hr s (by omega)).toMerged
  refine ⟨removeDisk_chainOk h.chainOk hk hkt,
    removeDisk_locationOk h.chainOk h.locationOk hk hkt hm, fun hole hh => ?_, fun b hb => ?_,
    nofun, nofun, nofun⟩
  · cases hh
  · have hb : b < c.v.size := hb
    show (c.v.removeDisk r.k).image b = img b
    rw [removeDisk_image hk hkt (hm _ ?_)]
    · exact h.image b hb
    · unfold Volume.size at hb
      rw [defaultSectorSize_eq] at hb ⊢
      omega

theorem step {op : Op} {c' : Cleaner} (h : c.CleanInv img) (hop : c.Quiet op)
    (hstep : c.step op = some c') : c'.CleanInv (op.apply img) := by
  cases op with
  | write buf offset =>
    simp only [Cleaner.step, Option.ite_none_right_eq_some, Option.some.injEq] at hstep
    obtain ⟨hin, rfl⟩ := hstep
    exact h.write hin
  | read buf offset =>
    obtain rfl := Option.some.inj hstep
    exact h.fills (readAt_fills Dev.ok h.chainOk buf offset)
  | snapshot f userCreated =>
    simp only [Cleaner.step, Option.ite_none_right_eq_some, Option.some.injEq] at hstep
    obtain ⟨⟨hf, hlen⟩, rfl⟩ := hstep
    exact h.snapshot hf hlen _
  | preload =>
    obtain rfl := Option.some.inj hstep
    exact h.preload hop
  | punch n =>
    obtain ⟨v', hn, rfl⟩ := Option.map_eq_some_iff.1 hstep
    exact h.punch hn
  | prepareRemoveDisk k =>
    simp only [Cleaner.step] at hstep
    split at hstep
    · simp only [Option.ite_none_right_eq_some, Option.some.injEq] at hstep
      obtain ⟨⟨hk, hkt⟩, rfl⟩ := hstep
      refine ⟨h.chainOk, h.locationOk, h.queue, h.image, fun r hr => ?_, fun r hr => ?_,
        fun r hr s hs => ?_⟩
      · obtain rfl := Option.some.inj hr
        exact hk
      · obtain rfl := Option.some.inj hr
        exact Nat.lt_of_succ_lt hkt
      · obtain rfl := Option.some.inj hr
        exact absurd hs (Nat.not_lt_zero s)
    · cases hstep
  | coalesce =>
    simp only [Cleaner.step] at hstep
    split at hstep
    · cases hstep
    · next r hr =>
      simp only [Option.ite_none_right_eq_some, Option.some.injEq] at hstep
      obtain ⟨-, rfl⟩ := hstep
      exact h.coalesce hr (hop r hr)
  | removeDiffDisk =>
    simp only [Cleaner.step] at hstep
    split at hstep
    · cases hstep
    · next r hr =>
      simp only [Option.ite_none_right_eq_some, Option.some.injEq] at hstep
      obtain ⟨hdone, rfl⟩ := hstep
      exact h.removeDiffDisk hr hdone _

end CleanInv

open Transition

/-- In every run in which no hole waits for a sector of the parent when it is copied, and no
`preload` runs between the first copy and the removal, the live volume reads the bytes that
were written. -/
theorem liveRead_holes {sectors f₀ : ℕ} (hf₀ : f₀ ≠ 0) {ops : List Op} {c : Cleaner}
    (hrun : run step (new sectors f₀) ops = some c)
    (hgood : Along step Quiet (new sectors f₀) ops) (dev : Dev) (buf : List Byte) (offset : ℕ)
    (hin : offset + buf.length ≤ c.v.size) :
    (c.v.readAt dev buf offset).Reads dev (ops.foldl Op.apply fun _ => 0) offset buf.length := by
  have hI : c.CleanInv (ops.foldl Op.apply fun _ => 0) :=
    run_rec (P := fun ops c => c.CleanInv (ops.foldl Op.apply fun _ => 0)) (CleanInv.new hf₀)
      (fun as c a c' _ hI hop hstep => by
        rw [List.foldl_append]
        exact hI.step hop hstep) ops c hgood hrun
  exact (readAt_spec hI.chainOk hI.locationOk hin).congr fun b _ hb => hI.image b (by omega)

/-- A sector is written into two files, the hole in the lower one is punched, and the higher one
is about to be removed. -/
def punchFirst : List Op :=
  [.write (List.replicate 4096 1) 0, .snapshot 2 false, .write (List.replicate 4096 2) 0,
    .snapshot 3 false, .snapshot 4 false, .punch 0, .prepareRemoveDisk 2]

/-- The higher file is copied over the lower one and removed. -/
def thenRemove : List Op :=
  [.coalesce, .removeDiffDisk]

theorem liveRead_holes_punchFirst :
    ∃ c, run step (new 1 1) (punchFirst ++ thenRemove) = some c ∧
      (c.v.readAt Dev.ok [9] 0).Reads Dev.ok
        ((punchFirst ++ thenRemove).foldl Op.apply fun _ => 0) 0 1 := by
  have hchan : (run step (new 1 1) punchFirst).map (·.v.holeCreatorChan) = some [] := by
    decide +kernel
  have hsize : (run step (new 1 1) (punchFirst ++ thenRemove)).map (·.v.size) = some 4096 := by
    decide +kernel
  obtain ⟨c₁, hc₁, hchan⟩ := Option.map_eq_some_iff.1 hchan
  obtain ⟨c, hc, hsize⟩ := Option.map_eq_some_iff.1 hsize
  have hgood : Along step Quiet (new 1 1) (punchFirst ++ thenRemove) := by
    rw [along_append _ _ hc₁]
    refine ⟨⟨trivial, fun _ _ => ⟨trivial, fun _ _ => ⟨trivial, fun _ _ => ⟨trivial, fun _ _ =>
      ⟨trivial, fun _ _ => ⟨trivial, fun _ _ => ⟨trivial, fun _ _ => trivial⟩⟩⟩⟩⟩⟩⟩,
      fun r _ _ h hh => ?_, fun _ _ => ⟨trivial, fun _ _ => trivial⟩⟩
    rw [hchan] at hh
    cases hh
  refine ⟨c, hc, liveRead_holes (by decide) hc hgood Dev.ok [9] 0 ?_⟩
  rw [hsize]
  decide

/-- The hole waits while the sector is copied over the lowest file, and is punched before
`RemoveDiffDisk` throws the waiting holes away. -/
def removeMiddleLate : List Op :=
  [.write (List.replicate 4096 1) 0, .snapshot 2 false, .write (List.replicate 4096 2) 0,
    .snapshot 3 false, .snapshot 4 false, .prepareRemoveDisk 2, .coalesce, .punch 0,
    .removeDiffDisk]

theorem liveRead_lost :
    ∃ c, run step (new 1 1) removeMiddleLate = some c ∧
      (c.v.readAt Dev.ok [9] 0).err = none ∧
      (c.v.readAt Dev.ok [9] 0).buf ≠
        bytesFrom (removeMiddleLate.foldl Op.apply fun _ => 0) 0 1 :=
  exists_of_any (by decide +kernel) fun _ _ => id

end Cleaner

end Jiva
