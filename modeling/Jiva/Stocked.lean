import Jiva.EqualSizes

/-!
# The images of an open replica

`Coherent` is about names and records. `Stocked` is about what is behind them : the files of the
volume are the images of the chain, each image has an inode of its own, below the next one to be
given out, and the files have the size of the volume and no bytes behind their end (`Volume.Sized`).

Each operation keeps this (`Running.step_complete`), apart from `Revert` to a disk that is not in
the live chain. Such a disk can be there : a revert leaves the snapshots it goes back behind in the
directory, and `Resize` truncates the files of the live chain only.
-/

namespace Jiva

open Faults Links Function Transition

variable {v : Volume}

/-- What holds of every file of the volume but the first, which is the nil file. -/
theorem Volume.forall_files {fs : List ℕ} (hf : v.files = 0 :: fs) (P : ℕ → Prop) :
    (∀ i, 0 < i → i < v.files.length → P (v.file i)) ↔ ∀ f ∈ fs, P f := by
  have hfile : ∀ i, v.file (i + 1) = fs.getD i 0 := fun i => by simp [DiffDisk.file, hf]
  constructor
  · intro h f hmem
    obtain ⟨i, hi, rfl⟩ := List.getElem_of_mem hmem
    have hp := h (i + 1) (Nat.succ_pos i) (by rw [hf]; simpa using hi)
    rwa [hfile, List.getD_eq_getElem _ _ hi] at hp
  · intro h i hpos hi
    obtain ⟨j, rfl⟩ := Nat.exists_eq_succ_of_ne_zero hpos.ne'
    have hj : j < fs.length := by
      rw [hf] at hi
      simpa using hi
    rw [hfile, List.getD_eq_getElem _ _ hj]
    exact h _ (List.getElem_mem hj)

/-- The inodes and the files of a directory, for a volume of `z` bytes. -/
structure Dir.Filed (dir : Dir) (z : ℕ) : Prop where
  bound : ∀ f, (dir.store f).size ≤ z
  tight : ∀ f, (dir.store f).Tight
  inodes : ∀ n i, dir.img n = some i → 0 < i ∧ i < dir.nextIno
  single : ∀ n m i, dir.img n = some i → dir.img m = some i → n = m

namespace Dir.Filed

variable {dir dir' : Dir} {z : ℕ}

/-- Images may go. -/
theorem of_sub (h : dir.Filed z) (hs : dir'.store = dir.store) (hn : dir'.nextIno = dir.nextIno)
    (hsub : ∀ n i, dir'.img n = some i → dir.img n = some i) : dir'.Filed z where
  bound f := hs ▸ h.bound f
  tight f := hs ▸ h.tight f
  inodes n i hi := hn ▸ h.inodes n i (hsub n i hi)
  single n m i hn hm := h.single n m i (hsub n i hn) (hsub m i hm)

/-- A new head has a fresh inode. -/
theorem newHead (h : dir.Filed z) (hpos : 0 < dir.nextIno) (n : DiskName) : { dir with
    img := update dir.img n (some dir.nextIno)
    store := update dir.store dir.nextIno (SparseFile.empty z)
    nextIno := dir.nextIno + 1 : Dir }.Filed z := by
  have hfresh : ∀ x, dir.img x ≠ some dir.nextIno :=
    fun x hx => absurd (h.inodes x _ hx).2 (lt_irrefl _)
  refine ⟨fun f => ?_, fun f => ?_, fun m i hi => ?_, fun m m' i hm hm' => ?_⟩
  · show (update dir.store dir.nextIno (SparseFile.empty z) f).size ≤ z
    rcases eq_or_ne f dir.nextIno with rfl | hne
    · rw [update_self]
      exact le_rfl
    · rw [update_of_ne hne]
      exact h.bound f
  · show (update dir.store dir.nextIno (SparseFile.empty z) f).Tight
    rcases eq_or_ne f dir.nextIno with rfl | hne
    · rw [update_self]
      exact fun _ _ => rfl
    · rw [update_of_ne hne]
      exact h.tight f
  · show 0 < i ∧ i < dir.nextIno + 1
    rcases update_some_eq_some.1 hi with ⟨-, rfl⟩ | ⟨-, hi⟩
    · exact ⟨hpos, Nat.lt_succ_self _⟩
    · have := h.inodes m i hi
      omega
  · rcases update_some_eq_some.1 hm with ⟨rfl, rfl⟩ | ⟨-, hm⟩
    · exact ((update_some_eq_some.1 hm').resolve_right fun hx => hfresh m' hx.2).1.symm
    · rcases update_some_eq_some.1 hm' with ⟨-, rfl⟩ | ⟨-, hm'⟩
      · exact absurd hm (hfresh m)
      · exact h.single m m' i hm hm'

/-- The image of `a` becomes that of `b`. -/
theorem move (h : dir.Filed z) {a : DiskName} {i : ℕ} (ha : dir.img a = some i) (b : DiskName) :
    { dir with img := update (update dir.img b (some i)) a none : Dir }.Filed z := by
  have hback : ∀ m j, update (update dir.img b (some i)) a none m = some j →
      m = b ∧ j = i ∨ dir.img m = some j ∧ j ≠ i := by
    intro m j hm
    rw [update_none_eq_some, update_some_eq_some] at hm
    obtain ⟨hne, ⟨hb, hj⟩ | ⟨-, hm⟩⟩ := hm
    · exact .inl ⟨hb, hj.symm⟩
    · exact .inr ⟨hm, fun hj => hne (h.single m a i (hj ▸ hm) ha)⟩
  refine ⟨h.bound, h.tight, fun m j hm => ?_, fun m m' j hm hm' => ?_⟩
  · rcases hback m j hm with ⟨-, rfl⟩ | ⟨hm, -⟩
    · exact h.inodes a j ha
    · exact h.inodes m j hm
  · rcases hback m j hm with ⟨rfl, rfl⟩ | ⟨hm, hj⟩
    · exact ((hback m' j hm').resolve_right fun hx => hx.2 rfl).1.symm
    · exact h.single m m' j hm ((hback m' j hm').resolve_left fun hx => hj hx.2).1

end Dir.Filed

namespace Replica

variable {created : String} {ns : List DiskName}

/-- The volume is open on the images of the disks `ns`, from the head down. -/
structure Stocked (r : Replica) (ns : List DiskName) : Prop where
  files : r.volume.files = 0 :: ns.reverse.map r.ino
  sized : r.vol.Sized r.info.size
  inodes : ∀ n i, r.dir.img n = some i → 0 < i ∧ i < r.dir.nextIno
  single : ∀ n m i, r.dir.img n = some i → r.dir.img m = some i → n = m
  limit : r.maxChainLen ≤ 65535

namespace Stocked

variable {r t : Replica} {ns : List DiskName}

/-- The sizes are given disk by disk, and the number of files by the limit on the chain. -/
theorem of_files (hfiles : r.volume.files = 0 :: ns.reverse.map r.ino) (hpos : 0 < ns.length)
    (hloc : ∀ s, s < r.volume.locationLen → r.volume.location s ≤ r.volume.target)
    (hsize : ∀ n ∈ ns, (r.dir.store (r.ino n)).size = r.info.size) (hd : r.dir.Filed r.info.size)
    (hlen : ns.length ≤ r.maxChainLen) (hlimit : r.maxChainLen ≤ 65535) : r.Stocked ns := by
  have hcount : r.vol.files.length = ns.length + 1 := by
    show r.volume.files.length = _
    rw [hfiles]
    simp
  refine ⟨hfiles, ⟨⟨by omega, by omega, ?_, hloc⟩, hd.bound, hd.tight⟩, hd.inodes,
    hd.single, hlimit⟩
  refine (Volume.forall_files (v := r.vol) hfiles fun f => (r.dir.store f).size = r.info.size).2
    fun f hf => ?_
  obtain ⟨n, hn, rfl⟩ := List.mem_map.1 hf
  exact hsize n (List.mem_reverse.1 hn)

section

variable (h : r.Stocked ns)
include h

theorem size_eq {n : DiskName} (hn : n ∈ ns) : (r.dir.store (r.ino n)).size = r.info.size :=
  (Volume.forall_files (v := r.vol) h.files fun f => (r.dir.store f).size =
    r.info.size).1 h.sized.size _ (List.mem_map_of_mem (List.mem_reverse.2 hn))

theorem filed : r.dir.Filed r.info.size :=
  ⟨h.sized.bound, h.sized.tight, h.inodes, h.single⟩

/-- Nothing changes that matters. -/
theorem of_same (hv : t.volume = r.volume) (hs : t.dir.store = r.dir.store)
    (himg : t.dir.img = r.dir.img) (hnext : t.dir.nextIno = r.dir.nextIno)
    (hsize : t.info.size = r.info.size) (hmax : t.maxChainLen = r.maxChainLen) : t.Stocked ns := by
  have hino : t.ino = r.ino := funext fun n => by unfold ino; rw [himg]
  have hvol : t.vol = r.vol := by unfold vol; rw [hv, hs]
  refine ⟨?_, ?_, ?_, ?_, ?_⟩
  · rw [hv, hino]
    exact h.files
  · rw [hvol, hsize]
    exact h.sized
  · rw [himg, hnext]
    exact h.inodes
  · rw [himg]
    exact h.single
  · rw [hmax]
    exact h.limit

/-- Requests do not change the chain. -/
theorem withVol (hs : r.vol.SameChain v) (hv : v.Sized r.info.size) :
    (r.withVol v).Stocked ns where
  files := hs.files.trans h.files
  sized := ⟨⟨hv.two_le, hv.le_u16, hv.size, hv.locationLe⟩, hv.bound, hv.tight⟩
  inodes := h.inodes
  single := h.single
  limit := h.limit

theorem setDirty : r.setDirty.Stocked ns :=
  h.of_same rfl rfl rfl rfl rfl rfl

theorem writeAt (dev : Dev) {buf : List Byte} {offset : ℕ}
    (hin : offset + buf.length ≤ r.info.size) : (r.writeAt dev buf offset).1.Stocked ns := by
  have hw : (r.setDirty.withVol (r.vol.writeAt dev buf offset).v).Stocked ns :=
    h.setDirty.withVol (Volume.writeAt_sameChain dev r.vol buf offset) (h.sized.writeAt dev hin)
  unfold Replica.writeAt
  dsimp only
  split_ifs
  · exact h
  · split
    · exact hw
    · split
      · exact hw.of_same rfl rfl rfl rfl rfl rfl
      · exact hw
      · exact hw

theorem readAt (dev : Dev) (buf : List Byte) (offset : ℕ) :
    (r.readAt dev buf offset).1.Stocked ns :=
  h.withVol (Volume.readAt_sameChain dev r.vol buf offset) (h.sized.readAt dev buf offset)

theorem unmap (offset len : ℕ) : (r.unmap offset len).1.Stocked ns := by
  have hu : (r.setDirty.withVol (r.vol.unmap offset len).1).Stocked ns :=
    h.setDirty.withVol (Volume.unmap_sameChain r.vol offset len) (h.sized.unmap offset len)
  unfold Replica.unmap
  dsimp only
  split_ifs
  · exact h
  · split <;> exact hu

end

end Stocked

/-! ## A new head -/

section NewHead

variable {r t : Replica} {k i : ℕ} {ss gone : List DiskName} {n : DiskName} {d : Disk}

theorem truncate_empty (size : ℕ) : (SparseFile.empty 0).truncate size = SparseFile.empty size := by
  simp [SparseFile.truncate, SparseFile.empty]

/-- A new head has a fresh inode, with an empty file of the size of the volume. -/
theorem withHead_dir (hfree : r.dir.img n = none) : (r.withHead n d).dir = { r.dir with
    img := update r.dir.img n (some r.dir.nextIno)
    diskMeta := update r.dir.diskMeta n (some d)
    store := update r.dir.store r.dir.nextIno (SparseFile.empty r.info.size)
    nextIno := r.dir.nextIno + 1 } := by
  have hino : ∀ x : Replica, x.dir.img = update r.dir.img n (some r.dir.nextIno) →
      x.ino n = r.dir.nextIno := by
    intro x hx
    unfold ino
    rw [hx, update_self]
    rfl
  unfold withHead openTrunc createImg
  rw [hfree]
  simp only [setMeta, truncate, setInode]
  rw [hino _ rfl]
  simp only [ino, update_self, Option.getD_some, update_idem, truncate_empty]

theorem ino_openTrunc (hfree : r.dir.img n = none) : (r.openTrunc n).ino n = r.dir.nextIno := by
  unfold ino
  rw [openTrunc_img, update_self, hfree]
  rfl

theorem ino_eq {j : ℕ} (hj : r.dir.img n = some j) : r.ino n = j := by
  unfold ino
  rw [hj]
  rfl

/-- A new file has a number that is not in use. -/
theorem Stocked.size_newHead (h : r.Stocked ns) (file : SparseFile) (hn : n ∈ ns)
    (himg : (r.dir.img n).isSome) :
    (update r.dir.store r.dir.nextIno file (r.ino n)).size = r.info.size := by
  obtain ⟨j, hj⟩ := Option.isSome_iff_exists.1 himg
  rw [ino_eq hj, update_of_ne (h.inodes n j hj).2.ne, ← ino_eq hj, h.size_eq hn]

/-- The fields of the replica after a snapshot that `Stocked` is about. -/
structure SnapStocked (r : Replica) (k : ℕ) (name : String) (i : ℕ) (t : Replica) : Prop where
  files : t.volume.files = r.volume.files ++ [r.dir.nextIno]
  location : t.volume.location = r.volume.location
  locationLen : t.volume.locationLen = r.volume.locationLen
  store : t.dir.store = update r.dir.store r.dir.nextIno (SparseFile.empty r.info.size)
  img : t.dir.img = shift r.dir.img k name r.dir.nextIno i
  nextIno : t.dir.nextIno = r.dir.nextIno + 1
  size : t.info.size = r.info.size
  maxChainLen : t.maxChainLen = r.maxChainLen

theorem snapshotted_stocked {name : String} {userCreated : Bool}
    (hfree : r.dir.img (.head (k + 1)) = none) :
    SnapStocked r k name i (r.snapshotted k name userCreated created i d) := by
  have hw :=
    withHead_mem (r := r) (.head (k + 1)) (r.headDisk (.head (k + 1)) (some (.snap name)) created)
  rw [withHead_dir hfree] at hw
  unfold snapshotted
  dsimp only
  rw [ino_openTrunc hfree, hw]
  exact ⟨rfl, rfl, rfl, rfl, rfl, rfl, rfl, rfl⟩

theorem createDisk_stocked {name : String} {userCreated : Bool} (h : r.Coherent [] k ss gone)
    (hs : r.Stocked (.head k :: ss))
    (hc : createDisk name userCreated created .calm r = (.ok (), t)) :
    t.Stocked (.head (k + 1) :: .snap name :: ss) := by
  obtain ⟨i', d', hsn, hcoh⟩ := createDisk_coherent h hc
  obtain ⟨-, hsnap, -, i, d, hi, hd, ht⟩ := createDisk_ok h.head h.readOnly h.free h.whole hc
  have hst : SnapStocked r k name i t := ht ▸ snapshotted_stocked h.free
  have hhead : t.ino (.head (k + 1)) = r.dir.nextIno := by
    unfold ino
    rw [hst.img, shift_newHead]
    rfl
  have hold : t.ino (.snap name) = r.ino (.head k) := by
    unfold ino
    rw [hst.img, shift_snap, hi]
  have hrest : ∀ n ∈ ss, t.ino n = r.ino n := by
    intro n hn
    have hsome := h.imgs (List.mem_cons_of_mem _ hn)
    obtain ⟨x, rfl⟩ := h.snaps hn
    unfold ino
    rw [hst.img, shift_of_ne (by simp) ?_ (by simp)]
    intro heq
    rw [heq, hsnap] at hsome
    cases hsome
  have hfiles : t.volume.files = 0 :: (.head (k + 1) :: .snap name :: ss).reverse.map t.ino := by
    rw [hst.files, hs.files]
    simp only [List.reverse_cons, List.map_append, List.map_cons, List.map_nil, hhead, hold,
      List.cons_append, List.append_assoc, List.nil_append]
    rw [List.map_congr_left fun n hn => hrest n (List.mem_reverse.1 hn)]
  have hi' : update r.dir.img (.head (k + 1)) (some r.dir.nextIno) (.head k) = some i := by
    rw [update_of_ne (by simp), hi]
  have hfiled := (hs.filed.newHead (Nat.zero_lt_of_lt (hs.inodes _ _ hi).2) (.head (k + 1))).move
    hi' (.snap name)
  have hlen : t.volume.files.length = r.volume.files.length + 1 := by
    rw [hst.files, List.length_append, List.length_singleton]
  refine Stocked.of_files hfiles (Nat.succ_pos _) (fun s hs' => ?_)
    (fun n hn => ?_) ?_ hcoh.chainLen (hst.maxChainLen ▸ hs.limit)
  · have hle := hs.sized.locationLe s (hst.locationLen ▸ hs')
    show t.volume.location s ≤ t.volume.files.length - 1
    rw [hst.location, hlen]
    exact hle.trans (Nat.sub_le_sub_right (Nat.le_succ _) 1)
  · rw [hst.size, hst.store]
    rcases List.mem_cons.1 hn with rfl | hn
    · rw [hhead, update_self]
      rfl
    rcases List.mem_cons.1 hn with rfl | hn
    · rw [hold]
      exact hs.size_newHead _ (by simp) (h.imgs (by simp))
    · rw [hrest n hn]
      exact hs.size_newHead _ (by simp [hn]) (h.imgs (by simp [hn]))
  · rw [hst.size]
    exact hfiled.of_sub hst.store hst.nextIno fun n j hj => (congrFun hst.img n).symm.trans hj

end NewHead

/-! ## Removing a disk -/

section Removal

variable {r t : Replica} {k : ℕ} {ss gone : List DiskName} {n : DiskName}

/-- `RemoveDiffDisk` takes one image out of the directory. -/
theorem removeDiffDisk_dir (h : r.Coherent [] k ss gone)
    (hc : removeDiffDisk n .calm r = (.ok (), t)) : t.dir.img = update r.dir.img n none ∧
    t.dir.store = r.dir.store ∧ t.dir.nextIno = r.dir.nextIno ∧
      t.maxChainLen = r.maxChainLen := by
  have hdrop : ∀ u : Replica, (u.dropped n).dir = u.dir ∧
      (u.dropped n).maxChainLen = u.maxChainLen := by
    intro u
    unfold dropped
    split_ifs <;> exact ⟨rfl, rfl⟩
  obtain ⟨-, -, -, u, hu, rfl⟩ := removeDiffDisk_ok hc
  have hsame : u.dir.img = r.dir.img ∧ u.dir.store = r.dir.store ∧ u.dir.nextIno = r.dir.nextIno ∧
      u.maxChainLen = r.maxChainLen := by
    rcases removeDiskNode_ok hu h.readOnly (h.own n) with ⟨-, rfl⟩ | ⟨d, -, -, rfl⟩ |
      ⟨d, child, c, -, -, -, hrem⟩
    · exact ⟨rfl, rfl, rfl, rfl⟩
    · exact ⟨rfl, rfl, rfl, rfl⟩
    · cases hrem with
      | base hp ht =>
        obtain ⟨hdir, hmax⟩ := hdrop (r.relinked n child d c)
        rw [ht, hdir, hmax]
        exact ⟨rfl, rfl, rfl, rfl⟩
      | inner p e hp he ht =>
        obtain ⟨hdir, hmax⟩ := hdrop ((r.relinked n child d c).counted p d e)
        rw [ht, hdir, hmax]
        exact ⟨rfl, rfl, rfl, rfl⟩
  obtain ⟨himg, hstore, hnext, hmax⟩ := hsame
  refine ⟨?_, hstore, hnext, hmax⟩
  show update u.dir.img n none = _
  rw [himg]

/-- The chain without the removed disk. -/
theorem removeDiffDisk_stocked (h : r.Coherent [] k ss gone) (hs : r.Stocked (.head k :: ss))
    (hc : removeDiffDisk n .calm r = (.ok (), t)) : ∃ ss' gone', t.Coherent [] k ss' gone' ∧
    gone' ⊆ n :: gone ∧ t.Stocked (.head k :: ss') ∧ t.info = r.info ∧
    t.volume.locationLen = r.volume.locationLen := by
  obtain ⟨himg, hstore, hnext, hmax⟩ := removeDiffDisk_dir h hc
  have hino : ∀ m, m ≠ n → t.ino m = r.ino m := fun m hm => by
    unfold ino
    rw [himg, update_of_ne hm]
  have hfiled : t.dir.Filed r.info.size :=
    hs.filed.of_sub hstore hnext fun m j hm => (update_none_eq_some.1 (himg ▸ hm)).2
  have hlimit : t.maxChainLen ≤ 65535 := by
    rw [hmax]
    exact hs.limit
  cases removeDiffDisk_removed h hc with
  | outside hn hv hi hm hst hd hcoh =>
    refine ⟨ss, gone, hcoh, List.subset_cons_self .., ⟨?_, ?_, hfiled.inodes, hfiled.single,
      hlimit⟩, hi, by rw [hv]⟩
    · rw [hv, hs.files]
      refine congrArg (0 :: ·) (List.map_congr_left fun m hm => (hino m ?_).symm)
      rintro rfl
      exact hn (List.mem_reverse.1 hm)
    · unfold vol
      rw [hv, hstore, hi]
      exact hs.sized
  | inside as cs child d c u hss hd hu hc' hcu hun hcoh =>
    subst hss
    have hvol : u.volume = r.volume ∧ u.info = r.info := by
      cases hu <;> exact ⟨rfl, rfl⟩
    have hinfo : t.info = r.info := hun.rest.2.2.2.trans hvol.2
    have hvolume : t.volume = r.volume.removeIndex (cs.length + 1) := by
      rw [hun.volume, hvol.1]
      simp
    have hvol' : t.vol = r.vol.removeDisk (cs.length + 1) := by
      unfold vol
      rw [hvolume, hstore]
      rfl
    have hlen : r.vol.files.length = as.length + cs.length + 4 := by
      show r.volume.files.length = _
      rw [hs.files]
      simp only [List.length_cons, List.length_map, List.length_reverse, List.length_append]
      omega
    have htarget : cs.length + 1 < r.vol.target := by
      unfold DiffDisk.target
      omega
    have hsh := Volume.removeDisk_shaped hs.sized.toShaped htarget (Nat.succ_pos _)
    refine ⟨as ++ child :: cs, n :: gone, hcoh, List.Subset.refl _,
      ⟨?_, ?_, hfiled.inodes, hfiled.single, hlimit⟩, hinfo, ?_⟩
    · have hnot := h.not_mem_rest
      have hfiles : r.volume.files = (0 :: cs.reverse.map r.ino) ++ r.ino n ::
          (child :: (as.reverse ++ [.head k])).map r.ino := by
        rw [hs.files]
        simp
      have hidx : cs.length + 1 = (0 :: cs.reverse.map r.ino).length := by simp
      rw [hvolume]
      show r.volume.files.eraseIdx (cs.length + 1) = _
      rw [hfiles, hidx, List.eraseIdx_append_of_length_le (le_refl _), Nat.sub_self,
        List.eraseIdx_cons_zero]
      have hmap : (.head k :: (as ++ child :: cs)).reverse.map t.ino =
          (.head k :: (as ++ child :: cs)).reverse.map r.ino :=
        List.map_congr_left fun m hm => hino m fun heq => hnot (heq ▸ List.mem_reverse.1 hm)
      rw [hmap]
      simp
    · rw [hvol', hinfo]
      exact ⟨hsh, hs.sized.bound, hs.sized.tight⟩
    · rw [hvolume]
      rfl

end Removal

/-! ## Reading the chain again -/

section Reading

variable {r t : Replica} {k : ℕ} {ss gone : List DiskName} {h p : DiskName} {vm : Info}

/-- `construct` opens the images of the chain, whose files have the size in `volume.meta`. -/
theorem Opened.stocked (ho : Opened r none vm h ss t)
    (hsize : ∀ n ∈ h :: ss, (r.dir.store (r.ino n)).size = vm.size)
    (hd : r.dir.Filed vm.size) (hlen : ss.length + 1 ≤ r.maxChainLen)
    (hlimit : r.maxChainLen ≤ 65535) : t.Stocked (h :: ss) := by
  have himg : t.dir.img = r.dir.img := by rw [ho.dir]
  have hstore : t.dir.store = r.dir.store := by rw [ho.dir]
  have hino : t.ino = r.ino := funext fun n => by unfold ino; rw [himg]
  have hsz : t.info.size = vm.size := by rw [ho.info]
  have hfiles : t.volume.files = 0 :: (h :: ss).reverse.map t.ino := by
    rw [ho.files, hino]
    rfl
  refine Stocked.of_files hfiles (Nat.succ_pos _) (fun s _ => ho.location s)
    (fun n hn => ?_) ?_ ?_ ?_
  · rw [hstore, hino, hsz]
    exact hsize n hn
  · rw [hsz]
    exact hd.of_sub hstore (by rw [ho.dir]) fun n i hi => himg ▸ hi
  · rw [ho.maxChainLen]
    exact hlen
  · rw [ho.maxChainLen]
    exact hlimit

/-- The same, on the directory of an open replica. -/
theorem Stocked.opened (hs : r.Stocked (h :: ss)) (ho : Opened r none vm h ss t)
    (hvm : vm.size = r.info.size) (hlen : ss.length + 1 ≤ r.maxChainLen) : t.Stocked (h :: ss) := by
  refine ho.stocked (fun n hn => ?_) (hvm ▸ hs.filed) hlen hs.limit
  rw [hvm]
  exact hs.size_eq hn

theorem close_stocked (hro : r.readOnly = false) (hs : r.Stocked ns)
    (hk : close .calm r = (.ok (), t)) : t.Stocked ns ∧ t.info.size = r.info.size := by
  rw [close_calm hro] at hk
  cases hk
  exact ⟨hs.of_same rfl rfl rfl rfl rfl rfl, rfl⟩

theorem reverted_dir (p : DiskName) (created : String) (hfree : r.dir.img (.head (k + 1)) = none) :
    (r.reverted k p created).dir.img = update (update r.dir.img (.head (k + 1))
      (some r.dir.nextIno)) (.head k) none ∧
    (r.reverted k p created).dir.store =
      update r.dir.store r.dir.nextIno (SparseFile.empty r.info.size) ∧
    (r.reverted k p created).dir.nextIno = r.dir.nextIno + 1 := by
  have hw := withHead_dir (d := r.headDisk (.head (k + 1)) (some p) created) hfree
  unfold reverted
  generalize r.withHead (.head (k + 1)) (r.headDisk (.head (k + 1)) (some p) created) = w at hw ⊢
  refine ⟨?_, ?_, ?_⟩
  · show update w.dir.img (.head k) none = _
    rw [hw]
  · show w.dir.store = _
    rw [hw]
  · show w.dir.nextIno = _
    rw [hw]

/-- `Revert` to a disk of the live chain. -/
theorem revertDiskWith_stocked {fuel : ℕ} (hc : r.Coherent [] k ss gone)
    (hs : r.Stocked (.head k :: ss)) (hp : p ∈ .head k :: ss)
    (hk : revertDiskWith none p created fuel .calm r = (.ok (), t)) :
    ∃ as ss', .head k :: ss = as ++ ss' ∧ ss'.head? = some p ∧ .head k ∉ ss' ∧
    t.Coherent [] (k + 1) ss' [] ∧ t.Stocked (.head (k + 1) :: ss') ∧ t.info.size = r.info.size ∧
    t.mode = r.mode ∧ r.info.size / defaultSectorSize ≤ t.volume.locationLen := by
  obtain ⟨vm, ss', u, rfl, hf, ho, rfl, hcoh⟩ := revertDiskWith_coherent hc hk
  obtain ⟨himg, hstore, hnext⟩ := reverted_dir p created hc.free
  -- the chain from `p` on is a part of the live chain
  obtain ⟨as, bs, hsplit⟩ := List.append_of_mem hp
  have hsuffix : ss' = p :: bs := by
    have hfol := hc.follows_dir
    rw [hsplit] at hfol
    exact hf.unique hfol.drop
  have hmax : (r.reverted k p created).maxChainLen = r.maxChainLen := by rw [reverted_mem]
  have hsnaps : ∀ n ∈ ss', ∃ s, n = .snap s := fun n hn => hcoh.snaps hn
  have hmem : ∀ n ∈ ss', n ∈ .head k :: ss := by
    intro n hn
    rw [hsplit, ← hsuffix]
    exact List.mem_append_right _ hn
  have hino : ∀ n ∈ ss', (r.reverted k p created).ino n = r.ino n := by
    intro n hn
    obtain ⟨s, rfl⟩ := hsnaps n hn
    unfold ino
    rw [himg, update_of_ne (by simp), update_of_ne (by simp)]
  have hnew : (r.reverted k p created).ino (.head (k + 1)) = r.dir.nextIno := by
    unfold ino
    rw [himg, update_of_ne (by simp), update_self]
    rfl
  obtain ⟨i, hi⟩ := Option.isSome_iff_exists.1 (hc.imgs List.mem_cons_self)
  have hfiled := hs.filed.newHead (Nat.zero_lt_of_lt (hs.inodes _ i hi).2) (.head (k + 1))
  have hst : u.Stocked (.head (k + 1) :: ss') := by
    refine ho.stocked (fun n hn => ?_) (hfiled.of_sub hstore hnext fun n j hj => ?_) ?_ ?_
    · show _ = r.info.size
      rw [hstore]
      rcases List.mem_cons.1 hn with rfl | hn
      · rw [hnew, update_self]
        rfl
      · rw [hino n hn]
        exact hs.size_newHead _ (hmem n hn) (hc.imgs (hmem n hn))
    · exact (update_none_eq_some.1 (himg ▸ hj)).2
    · have := hcoh.chainLen
      rw [hmax]
      exact ho.maxChainLen.trans hmax ▸ this
    · rw [hmax]
      exact hs.limit
  refine ⟨as, ss', ?_, ?_, ?_, hcoh, hst.of_same rfl rfl rfl rfl rfl rfl, ?_, rfl, ?_⟩
  · rw [hsuffix]
    exact hsplit
  · rw [hsuffix]
    rfl
  · intro hn
    obtain ⟨s, hs⟩ := hsnaps _ hn
    cases hs
  · show u.info.size = _
    rw [ho.info]
  · exact ho.table

end Reading

/-! ## The size -/

section Size

variable {r t : Replica} {k : ℕ} {ss gone : List DiskName}

/-- The size and the table after an operation that does not change the size. The table may be a new
one. -/
def SameSize (r t : Replica) : Prop :=
  t.info.size = r.info.size ∧
    (t.volume.locationLen = r.volume.locationLen ∨
      r.info.size / defaultSectorSize ≤ t.volume.locationLen)

/-- The size and the table after a `Resize`. -/
def GrownTo (size : ℕ) (r t : Replica) : Prop :=
  r.info.size ≤ size ∧ t.info.size = size ∧
    t.volume.locationLen = r.volume.locationLen + (size - r.info.size) / 4096

theorem writeAt_sameSize (r : Replica) (dev : Dev) (buf : List Byte) (offset : ℕ) :
    SameSize r (r.writeAt dev buf offset).1 := by
  have hlen := (Volume.writeAt_sameChain dev r.vol buf offset).locationLen
  unfold Replica.writeAt
  dsimp only
  split_ifs
  · exact ⟨rfl, .inl rfl⟩
  · split
    · exact ⟨rfl, .inl hlen⟩
    · split <;> exact ⟨rfl, .inl hlen⟩

theorem Stocked.resized_store (hs : r.Stocked ns) (himgs : ∀ n ∈ ns, (r.dir.img n).isSome)
    (size : ℕ) {i : ℕ} (h0 : 0 < i) (hi : i < r.volume.files.length) :
    (r.resized size ns).dir.store (r.vol.file i) = (r.dir.store (r.vol.file i)).truncate size := by
  refine (Volume.forall_files (v := r.vol) hs.files fun f =>
    (r.resized size ns).dir.store f = (r.dir.store f).truncate size).2 (fun f hf => ?_) i h0 hi
  obtain ⟨n, hn, rfl⟩ := List.mem_map.1 hf
  obtain ⟨j, hj⟩ := Option.isSome_iff_exists.1 (himgs n (List.mem_reverse.1 hn))
  rw [ino_eq hj]
  exact if_pos (List.mem_filterMap.2 ⟨n, List.mem_reverse.1 hn, hj⟩)

theorem resize_stocked {obj : NewSize} (hro : r.readOnly = false)
    (hlive : r.liveChain (r.maxChainLen + 1) = .ok ns) (himgs : ∀ n ∈ ns, (r.dir.img n).isSome)
    (hs : r.Stocked ns) (hk : resize obj (r.maxChainLen + 1) .calm r = (.ok (), t)) : t.Stocked ns ∧
    GrownTo obj.toBytes.toNat r t ∧ (r.info.size : ℤ) ≤ obj.toBytes ∧
    t = r.resized obj.toBytes.toNat ns := by
  obtain ⟨ns', hns, hle, rfl⟩ := resize_ok hk hro
  rw [hlive] at hns
  cases hns
  generalize hsize : obj.toBytes.toNat = size
  have hgrow : r.info.size ≤ size := by omega
  set t := r.resized size ns with ht
  have hstore : ∀ j, t.dir.store j = if j ∈ ns.filterMap r.dir.img then
      (r.dir.store j).truncate size else r.dir.store j := fun _ => rfl
  refine ⟨⟨hs.files, ⟨⟨hs.sized.two_le, hs.sized.le_u16, ?_, fun s _ => ?_⟩, fun f => ?_,
    fun f => ?_⟩, hs.inodes, hs.single, hs.limit⟩, ⟨hgrow, rfl, rfl⟩, hle, rfl⟩
  · exact fun i h0 hi => congrArg SparseFile.size (hs.resized_store himgs size h0 hi)
  · show (if s < r.volume.locationLen then r.volume.location s else 0) ≤ r.volume.target
    split_ifs with hlt
    · exact hs.sized.locationLe s hlt
    · exact Nat.zero_le _
  · show (t.dir.store f).size ≤ size
    rw [hstore]
    split_ifs
    · exact le_rfl
    · exact (hs.sized.bound f).trans hgrow
  · show (t.dir.store f).Tight
    rw [hstore]
    split_ifs
    · exact SparseFile.Tight.truncate _ _
    · exact hs.sized.tight f

/-- A new replica. -/
theorem constructWith_new_stocked {preload : Bool} {size sectorSize fuel maxChainLen : ℕ}
    (hlimit : maxChainLen ≤ 65535)
    (hk : constructWith none preload size sectorSize fuel created .calm (empty maxChainLen) =
      (.ok (), t)) :
    t.Stocked [.head 0] ∧ t.info.size = size ∧
      t.volume.locationLen =
        size / defaultSectorSize + if size % defaultSectorSize = 0 then 0 else 1 := by
  obtain ⟨-, htwo, hfin⟩ := constructWith_new hk
  generalize hb : allocLocation size (blank size sectorSize (empty maxChainLen)) = b at hfin
  have hfree : b.dir.img (.head 0) = none := by rw [← hb]; rfl
  have hw := withHead_mem (r := b) (.head 0) (b.headDisk (.head 0) none created)
  rw [withHead_dir hfree] at hw
  unfold started at hfin
  dsimp only at hfin
  rw [ino_openTrunc hfree, hw] at hfin
  subst hb
  have hsz : t.info.size = size := by rw [hfin.info]; rfl
  have hdir : t.dir.img = update (fun _ => none) (.head 0) (some 1) ∧ t.dir.nextIno = 2 ∧
      t.dir.store = update (fun _ => SparseFile.empty 0) 1 (SparseFile.empty size) := by
    rw [hfin.dir]
    exact ⟨rfl, rfl, rfl⟩
  have hfiles : t.volume.files = 0 :: [DiskName.head 0].reverse.map t.ino := by
    rw [hfin.files _ rfl]
    unfold ino
    rw [hdir.1]
    rfl
  have hfiled : (empty maxChainLen).dir.Filed size :=
    ⟨fun _ => Nat.zero_le _, fun _ _ _ => rfl, nofun, nofun⟩
  have hino : t.ino (.head 0) = 1 := by unfold ino; rw [hdir.1]; rfl
  refine ⟨Stocked.of_files hfiles Nat.one_pos (fun s _ => hfin.location (fun _ => rfl) s)
    (fun n hn => ?_) ?_ ?_ ?_, hsz, hfin.locationLen⟩
  · obtain rfl := List.mem_singleton.1 hn
    rw [hino, hdir.2.2, hsz]
    rfl
  · rw [hsz]
    exact (hfiled.newHead Nat.one_pos (.head 0)).of_sub hdir.2.2 hdir.2.1 fun n i hi => hdir.1 ▸ hi
  · rw [hfin.rest.2.2.1]
    show 1 ≤ maxChainLen
    omega
  · rw [hfin.rest.2.2.1]
    exact hlimit

end Size

end Replica

/-! ## Runs -/

namespace Running

/-- `Revert` goes to a disk of the live chain. -/
def InChain (s : Running) : Op → Prop
  | .manage (.revert name _) => name ∈ s.replica.activeDiskData
  | _ => True

instance (s : Running) (op : Op) : Decidable (s.InChain op) := by
  unfold InChain
  split <;> infer_instance

/-- The names that were removed since the chain was last read from the directory. -/
def goneAfter (gone : List DiskName) : Op → List DiskName
  | .manage op => Serving.goneAfter gone op
  | _ => gone

/-- The names that were removed in the last part of a run, after the last reading. -/
def gone (ops : List Op) : List DiskName :=
  ops.foldl goneAfter []

/-- The replica is coherent, up to names in `gone`, and stocked. -/
def Complete (gone : List DiskName) (s : Running) : Prop :=
  ∃ k ss g, s.replica.Coherent [] k ss g ∧ g ⊆ gone ∧ s.replica.Stocked (.head k :: ss)

open Replica in
theorem manage_stocked {r t : Replica} {op : ReplicaOp} {k : ℕ} {ss gone : List DiskName}
    (h : r.Coherent [] k ss gone) (hs : r.Stocked (.head k :: ss))
    (hin : InChain ⟨r, []⟩ (.manage op)) (hstep : Serving.step ⟨r, none⟩ op = some ⟨t, none⟩) :
    Complete (Serving.goneAfter gone op) ⟨t, []⟩ ∧
      (SameSize r t ∨ ∃ obj, op = .resize obj ∧ GrownTo obj.toBytes.toNat r t) := by
  obtain ⟨hact, hb⟩ := Serving.step_some hstep
  have hflag : ∀ {act : ReplicaAct String Unit} {i vm : Info},
      act .calm r = (.ok (), { r.setVolumeMeta vm with info := i }) → act .calm r = (.ok (), t) →
      t.Coherent [] k ss gone → i.size = r.info.size → Complete gone ⟨t, []⟩ ∧
        (SameSize r t ∨ ∃ obj, op = .resize obj ∧ GrownTo obj.toBytes.toNat r t) := by
    intro act i vm hact hact' hcoh hi
    obtain rfl : t = _ := congrArg Prod.snd (hact'.symm.trans hact)
    exact ⟨⟨k, ss, gone, hcoh, List.Subset.refl _, hs.of_same rfl rfl rfl rfl hi rfl⟩,
      .inl ⟨hi, .inl rfl⟩⟩
  cases op with
  | snapshot name userCreated created =>
    obtain ⟨i, d, hsn, hcoh⟩ := createDisk_coherent h hact
    have hst := createDisk_stocked h hs hact
    obtain ⟨-, -, -, i', d', -, -, ht⟩ := createDisk_ok h.head h.readOnly h.free h.whole hact
    have hsn : SnapStocked r k name i' t := by
      rw [show t = _ from ht]
      exact snapshotted_stocked h.free
    exact ⟨⟨_, _, gone, hcoh, List.Subset.refl _, hst⟩, .inl ⟨hsn.size, .inl hsn.locationLen⟩⟩
  | prepareRemoveDisk name =>
    obtain ⟨acts, u, hu, hact⟩ := calm_bind_ok.1 hact
    cases hact
    refine ⟨⟨k, ss, gone, prepareRemoveDisk_coherent h hu, List.Subset.refl _, ?_⟩, ?_⟩
    · rcases prepareRemoveDisk_ok hu h.readOnly with ⟨-, rfl⟩ | ⟨m, d, p, -, -, -, -, -, -, -, rfl⟩
      · exact hs
      · exact hs.of_same rfl rfl rfl rfl rfl rfl
    · rcases prepareRemoveDisk_ok hu h.readOnly with ⟨-, rfl⟩ | ⟨m, d, p, -, -, -, -, -, -, -, rfl⟩
      · exact .inl ⟨rfl, .inl rfl⟩
      · exact .inl ⟨rfl, .inl rfl⟩
  | removeDiffDisk name =>
    obtain ⟨ss', gone', hcoh, hgone, hst, hinfo, hlen⟩ := removeDiffDisk_stocked h hs hact
    exact ⟨⟨k, ss', gone', hcoh, hgone, hst⟩, .inl ⟨by rw [hinfo], .inl hlen⟩⟩
  | revert name created =>
    have hname : name ∈ .head k :: ss := by
      have hin : name ∈ r.activeDiskData := hin
      rw [h.active, List.nil_append, List.mem_reverse] at hin
      exact hin
    obtain ⟨as, ss', -, -, -, hcoh, hst, hsize, -, htable⟩ := revertDiskWith_stocked h hs hname hact
    exact ⟨⟨k + 1, ss', [], hcoh, List.Subset.refl _, hst⟩, .inl ⟨hsize, .inr htable⟩⟩
  | reload preload created =>
    obtain ⟨vm, u, -, hvm, ho, ht, hcoh⟩ := reloadWith_coherent h hact
    have hst := hs.opened ho hvm.size h.chainLen
    have ht : t = { u with mode := r.mode, info := { u.info with dirty := r.info.dirty } } := ht
    subst ht
    refine ⟨⟨k, ss, [], hcoh, List.Subset.refl _, hst.of_same rfl rfl rfl rfl rfl rfl⟩,
      .inl ⟨?_, .inr ?_⟩⟩
    · show u.info.size = _
      rw [ho.info]
      exact hvm.size
    · rw [← hvm.size]
      exact ho.table
  | reopen backing preload size sectorSize created =>
    obtain rfl : backing = none := hb.symm
    obtain ⟨⟨⟩, u, hu, hact⟩ := calm_bind_ok.1 hact
    have hclosed := close_coherent h hu
    obtain ⟨hsu, hsize⟩ := close_stocked h.readOnly hs hu
    obtain ⟨vm, -, hvm, ho, hcoh⟩ := hclosed.construct hact
    have hst := hsu.opened ho hvm.size hclosed.chainLen
    refine ⟨⟨k, ss, [], hcoh, List.Subset.refl _, hst⟩, .inl ⟨?_, .inr ?_⟩⟩
    · have hinfo : t.info.size = vm.size := (congrArg Info.size ho.info).trans rfl
      rw [hinfo, hvm.size, hsize]
    · rw [← hsize, ← hvm.size]
      exact ho.table
  | resize obj =>
    obtain ⟨hst, hgrown, -⟩ := resize_stocked h.readOnly h.liveChain_eq (fun _ => h.imgs) hs hact
    exact ⟨⟨k, ss, gone, resize_coherent h hact, List.Subset.refl _, hst⟩, .inr ⟨obj, rfl, hgrown⟩⟩
  | setReplicaMode mode =>
    have hcoh := setReplicaMode_coherent h hact
    have hact : setReplicaMode mode .calm r = (.ok (), t) := hact
    unfold setReplicaMode at hact
    split_ifs at hact <;> cases hact <;>
      exact ⟨⟨k, ss, gone, hcoh, List.Subset.refl _, hs.of_same rfl rfl rfl rfl rfl rfl⟩,
        .inl ⟨rfl, .inl rfl⟩⟩
  | setCheckpoint snapshotName =>
    exact hflag (setCheckpoint_calm h.readOnly snapshotName) hact
      (setCheckpoint_coherent h hact) rfl
  | setRebuilding rebuilding =>
    exact hflag (setRebuilding_calm h.readOnly rebuilding) hact (setRebuilding_coherent h hact) rfl
  | setCloneStatus status =>
    exact hflag (setCloneStatus_calm h.readOnly status) hact (setCloneStatus_coherent h hact) rfl

theorem IsNew.complete {s : Running} (h : s.IsNew) (hlimit : s.replica.maxChainLen ≤ 65535) :
    s.Complete [] := by
  obtain ⟨⟨preload, size, sectorSize, fuel, created, maxChainLen, hk⟩, -⟩ := h
  have hcoh := Replica.constructWith_new_coherent hk
  have hmax : s.replica.maxChainLen = maxChainLen := by
    obtain ⟨-, -, hfin⟩ := Replica.constructWith_new hk
    exact hfin.rest.2.2.1
  rw [hmax] at hlimit
  exact ⟨0, [], [], hcoh, List.Subset.refl _, (Replica.constructWith_new_stocked hlimit hk).1⟩

open Replica in
/-- Every step keeps the replica complete, and only `Resize` changes its size. -/
theorem step_complete {s s' : Running} {op : Op} {gone : List DiskName} (h : s.Complete gone)
    (hin : s.InChain op) (hstep : s.step op = some s') :
    s'.Complete (goneAfter gone op) ∧ (SameSize s.replica s'.replica ∨
      ∃ obj, op = .manage (.resize obj) ∧ GrownTo obj.toBytes.toNat s.replica s'.replica) := by
  obtain ⟨k, ss, g, h, hg, hs⟩ := h
  have hsame : ∀ v : Volume, s.replica.vol.SameChain v → SameSize s.replica (s.replica.withVol v) :=
    fun v hv => ⟨rfl, .inl hv.locationLen⟩
  cases op with
  | manage op =>
    simp only [step] at hstep
    split at hstep
    · next r heq =>
      cases hstep
      obtain ⟨⟨k', ss', g', hc, hg', hst⟩, hsize⟩ := manage_stocked h hs hin heq
      refine ⟨⟨k', ss', g', hc, List.Subset.trans hg' (Serving.goneAfter_subset hg op), hst⟩,
        hsize.imp id ?_⟩
      rintro ⟨obj, rfl, hg⟩
      exact ⟨obj, rfl, hg⟩
    · cases hstep
  | writeAt dev buf offset =>
    simp only [step] at hstep
    split_ifs at hstep with hle
    cases hstep
    exact ⟨⟨k, ss, g, writeAt_coherent h dev buf offset, hg, hs.writeAt dev hle⟩,
      .inl (writeAt_sameSize s.replica dev buf offset)⟩
  | readAt dev buf offset =>
    cases hstep
    exact ⟨⟨k, ss, g, readAt_coherent h dev buf offset, hg, hs.readAt dev buf offset⟩,
      .inl (hsame _ (Volume.readAt_sameChain dev s.replica.vol buf offset))⟩
  | unmap offset len =>
    cases hstep
    refine ⟨⟨k, ss, g, unmap_coherent h offset len, hg, hs.unmap offset len⟩, .inl ?_⟩
    have hlen := (Volume.unmap_sameChain s.replica.vol offset len).locationLen
    unfold Replica.unmap
    dsimp only
    split_ifs
    · exact ⟨rfl, .inl rfl⟩
    · split <;> exact ⟨rfl, .inl hlen⟩
  | coalesce i t =>
    simp only [step] at hstep
    split_ifs at hstep with hi
    cases hstep
    have hchain : s.replica.vol.SameChain (s.replica.vol.coalesceSector i t) :=
      ⟨rfl, rfl, rfl, rfl, rfl⟩
    exact ⟨⟨k, ss, g, h.withVol hchain, hg,
      hs.withVol hchain (hs.sized.coalesceSector hi.1 hi.2 t)⟩, .inl (hsame _ hchain)⟩
  | punch =>
    simp only [step] at hstep
    split at hstep
    · cases hstep
    · split at hstep
      · next v hv =>
        cases hstep
        have hchain : s.replica.vol.SameChain v := by
          unfold Volume.fallocatePunch at hv
          split_ifs at hv
          cases hv
          exact ⟨rfl, rfl, rfl, rfl, rfl⟩
        exact ⟨⟨k, ss, g, h.withVol hchain, hg, hs.withVol hchain (hs.sized.fallocatePunch hv)⟩,
          .inl (hsame _ hchain)⟩
      · cases hstep

/-- A new replica, and requests and operations in any order, with the worker and the cleaner in
between. The records and the metadata files agree, and so does the map of children at every name
that was not removed since the chain was last read. The volume is open on the images of the chain,
which are all of its size. -/
theorem run_complete {s s' : Running} {ops : List Op} (h : s.IsNew)
    (hlimit : s.replica.maxChainLen ≤ 65535) (hrun : run step s ops = some s')
    (hops : Transition.Along step InChain s ops) : ∃ k ss g, s'.replica.Coherent [] k ss g ∧
    g ⊆ gone ops ∧ s'.replica.Stocked (.head k :: ss) := by
  refine run_rec (P := fun ops s => s.Complete (gone ops)) (h.complete hlimit)
    (fun ops t op t' _ ht hin hstep => ?_) ops s' hops hrun
  unfold gone
  rw [List.foldl_append]
  exact (step_complete ht hin hstep).1

/-- A byte is written, kept by a snapshot, overwritten and brought back, and the volume grows.
Nothing was removed since `Revert` has read the chain. -/
theorem run_complete_reverted :
    ∃ s, run step fresh [.writeAt Dev.ok [7] 0, .manage (.snapshot "a" true ""),
      .writeAt Dev.ok [8] 0, .manage (.revert (.snap "a") ""),
      .manage (.resize (.text 8192))] = some s ∧ s.replica.info.size = 8192 ∧
      ∃ k ss g, s.replica.Coherent [] k ss g ∧ g ⊆ [] ∧ s.replica.Stocked (.head k :: ss) :=
  exists_of_any (p := fun s => s.replica.info.size = 8192) (by decide +kernel) fun _ hs hsize =>
    ⟨hsize, run_complete fresh_isNew (by decide) hs (along_of_check (by decide +kernel))⟩

end Running

end Jiva
