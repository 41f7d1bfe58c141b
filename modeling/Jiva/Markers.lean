import Jiva.ReplicaRuns

/-!
# The markers of user-created snapshots

The volume keeps a flag for each of its files, and the place of the last file whose flag is set.
Both are computed when the chain is opened, and then they are patched by each operation. `Aligned`
says that they are what the records of the disks say.

A snapshot that the user asked for puts its flag at the place of the new head, so the flags are
wrong until the chain is read again (`user_snapshot_misaligned`). `RemoveIndex` keeps the old place
if no flag is left. And a backing file moves the flags by one, but not the place. Without these,
each operation keeps the markers aligned (`markers_aligned`).
-/

namespace Jiva

open Faults Links Function Transition

variable {flags : List Bool}

/-- The flag at place `i` is the last one that is set, or none is set and `i` is zero. -/
def LastFlag (flags : List Bool) (i : ℕ) : Prop :=
  (∀ j, flags.getD j false = true → j ≤ i) ∧ (i = 0 ∨ flags.getD i false = true)

theorem lastFlag_lastUserCreated {cur : ℕ} (h : cur = 0 ∨ ∃ j, flags.getD j false = true) :
    LastFlag flags (DiffDisk.lastUserCreated flags cur) := by
  rcases DiffDisk.lastUserCreated_spec flags cur with ⟨hnone, heq⟩ | ⟨hflag, hmax⟩
  · rcases h with h | ⟨j, hj⟩
    · rw [heq, h]
      exact ⟨fun j hj => absurd hj (by rw [hnone]; simp), .inl rfl⟩
    · rw [hnone] at hj
      cases hj
  · exact ⟨hmax, .inr hflag⟩

theorem getD_of_none (h : ∀ b ∈ flags, b = false) (j : ℕ) : flags.getD j false = false := by
  rw [List.getD_eq_getElem?_getD]
  cases hget : flags[j]? with
  | none => rfl
  | some b => exact h b (List.mem_of_getElem? hget)

theorem lastFlag_of_none (h : ∀ b ∈ flags, b = false) : LastFlag flags 0 := by
  refine ⟨fun j hj => ?_, .inl rfl⟩
  rw [getD_of_none h] at hj
  cases hj

theorem LastFlag.append_false {i : ℕ} (h : LastFlag flags i) : LastFlag (flags ++ [false]) i := by
  have hget : ∀ j, (flags ++ [false]).getD j false = flags.getD j false := by
    intro j
    rcases Nat.lt_or_ge j flags.length with hj | hj
    · rw [List.getD_append _ _ _ _ hj]
    · rw [List.getD_append_right _ _ _ _ hj, List.getD_eq_default _ _ hj]
      cases j - flags.length <;> rfl
  simpa only [LastFlag, hget] using h

namespace Replica

variable {n : DiskName} {d : Disk}

/-- The flags and the place of the last one are those of the disks of the live chain. The nil file
comes first. -/
structure Aligned (r : Replica) : Prop where
  flags : r.volume.userCreatedSnap = false :: r.activeDiskData.map r.isUserCreated
  snapIndx : LastFlag (false :: r.activeDiskData.map r.isUserCreated) r.volume.snapIndx

variable {r t : Replica} {k i : ℕ} {bs ss gone : List DiskName} {backing : Option BackingFile}
    {vm : Info}

/-- Only the volume, the live chain and the flags in the records matter. -/
theorem Aligned.congr (h : r.Aligned) (hf : t.volume.userCreatedSnap = r.volume.userCreatedSnap)
    (hs : t.volume.snapIndx = r.volume.snapIndx) (ha : t.activeDiskData = r.activeDiskData)
    (hu : ∀ n ∈ r.activeDiskData, t.isUserCreated n = r.isUserCreated n) : t.Aligned := by
  have hmap : t.activeDiskData.map t.isUserCreated = r.activeDiskData.map r.isUserCreated := by
    rw [ha]
    exact List.map_congr_left hu
  exact ⟨by rw [hf, hmap, h.flags], by rw [hs, hmap]; exact h.snapIndx⟩

/-- There is no backing file, or no disk of the live chain is user-created. -/
def Unshifted (backing : Option BackingFile) (r : Replica) : Prop :=
  backing = none ∨ ∀ n ∈ r.activeDiskData, r.isUserCreated n = false

theorem Coherent.isUserCreated_backing (h : r.Coherent bs k ss gone) (hn : n ∈ bs) :
    r.isUserCreated n = false := by
  unfold isUserCreated
  cases hd : r.diskData n with
  | none => rfl
  | some d =>
    rcases h.only n d hd with hin | ⟨-, rfl⟩
    · exact absurd hn (h.not_backing hin)
    · rfl

theorem Opened.isUserCreated_eq (ho : Opened r backing vm (.head k) ss t)
    (h : t.Coherent (backingNames backing) k ss []) (hn : n ∈ .head k :: ss) :
    t.isUserCreated n = flagOf r.dir n := by
  unfold isUserCreated flagOf
  rw [ho.data n (h.not_backing hn), if_pos hn, Option.map_map]
  rfl

/-- The disks of a chain that has just been opened are marked as in the directory. -/
theorem Opened.unshifted (ho : Opened r backing vm (.head k) ss t)
    (h : t.Coherent (backingNames backing) k ss [])
    (hb : backing = none ∨ ∀ n ∈ .head k :: ss, flagOf r.dir n = false) : Unshifted backing t := by
  refine hb.imp_right fun hflag n hn => ?_
  rw [ho.active, List.mem_append, List.mem_reverse] at hn
  rcases hn with hn | hn
  · exact h.isUserCreated_backing hn
  · exact (ho.isUserCreated_eq h hn).trans (hflag n hn)

/-- A chain that has just been opened. -/
theorem Opened.aligned (ho : Opened r backing vm (.head k) ss t)
    (h : t.Coherent (backingNames backing) k ss []) (hb : Unshifted backing t) : t.Aligned := by
  have hchain : (.head k :: ss).reverse.map t.isUserCreated =
      (.head k :: ss).reverse.map (flagOf r.dir) :=
    List.map_congr_left fun n hn => ho.isUserCreated_eq h (List.mem_reverse.1 hn)
  have hback : (backingNames backing).map t.isUserCreated =
      (backingNames backing).map fun _ => false :=
    List.map_congr_left fun n hn => h.isUserCreated_backing hn
  refine ⟨?_, ?_⟩
  · rw [ho.flags, ho.active, List.map_append, hchain, hback]
  · rw [ho.snapIndx, ← hchain]
    rcases hb with rfl | hnone
    · rw [ho.active]
      exact lastFlag_lastUserCreated (.inl rfl)
    · have hfalse : ∀ ns : List DiskName, (∀ n ∈ ns, n ∈ t.activeDiskData) →
          ∀ b ∈ false :: ns.map t.isUserCreated, b = false := by
        intro ns hns b hb
        rcases List.mem_cons.1 hb with rfl | hb
        · rfl
        · obtain ⟨n, hn, rfl⟩ := List.mem_map.1 hb
          exact hnone n (hns n hn)
      have hzero :
          DiffDisk.lastUserCreated (false :: (.head k :: ss).reverse.map t.isUserCreated) 0 =
            0 := by
        rcases (lastFlag_lastUserCreated (.inl rfl)).2 with hzero | hflag
        · exact hzero
        · rw [getD_of_none (hfalse _ fun n hn => by
            rw [ho.active]
            exact List.mem_append_right _ hn)] at hflag
          cases hflag
      rw [hzero]
      exact lastFlag_of_none (hfalse _ fun _ hn => hn)

/-- A snapshot that the user did not ask for. -/
theorem Snapped.aligned {name created : String} (h : r.Coherent bs k ss gone)
    (hs : Snapped r k name false created i d t) (hd : r.diskData (.head k) = some d)
    (hfree : r.dir.diskMeta (.snap name) = none) (ha : r.Aligned) : t.Aligned := by
  have hsnap : .snap name ∉ .head k :: ss := by
    intro hm
    obtain ⟨e, -, he, -⟩ := h.record hm
    rw [hfree] at he
    cases he
  have hnew : t.isUserCreated (.head (k + 1)) = false ∧ t.isUserCreated (.snap name) = false := by
    unfold isUserCreated
    rw [hs.data, shift_newHead, shift_snap]
    exact ⟨rfl, rfl⟩
  have hhead : r.isUserCreated (.head k) = false := by
    unfold isUserCreated
    rw [hd]
    exact h.tidy.plain d ((h.metas _ List.mem_cons_self).trans hd)
  have hrest : ∀ n ∈ bs ++ ss.reverse, t.isUserCreated n = r.isUserCreated n := by
    intro n hn
    unfold isUserCreated
    rcases List.mem_append.1 hn with hb | hss
    · obtain ⟨path, rfl⟩ := h.backing n hb
      rw [hs.data, shift_of_ne (n := .file path) nofun nofun nofun]
    · rw [List.mem_reverse] at hss
      obtain ⟨s, rfl⟩ := h.snaps hss
      rw [hs.data,
        shift_of_ne (n := .snap s) nofun
        (fun heq => hsnap (heq ▸ List.mem_cons_of_mem _ hss)) nofun]
  have hr : r.activeDiskData = bs ++ ss.reverse ++ [.head k] := by
    rw [h.active]
    simp
  have hmap : t.activeDiskData.map t.isUserCreated =
      r.activeDiskData.map r.isUserCreated ++ [false] := by
    rw [hs.active, hr, List.dropLast_concat, List.map_append, List.map_append,
      List.map_congr_left hrest, List.map_append]
    simp [hnew, hhead]
  refine ⟨?_, ?_⟩
  · rw [hs.flags, hmap, ha.flags]
    rfl
  · rw [hs.snapIndx, hmap]
    exact ha.snapIndx.append_false

/-- If `n` is user-created, then another disk of the live chain is, too. -/
def OtherFlag (r : Replica) (n : DiskName) : Prop :=
  r.isUserCreated n = true → ∃ m ∈ r.activeDiskData, m ≠ n ∧ r.isUserCreated m = true

theorem exists_flag {ns : List DiskName} {f : DiskName → Bool} (hn : n ∈ ns) (hf : f n = true) :
    ∃ j, (false :: ns.map f).getD j false = true := by
  obtain ⟨j, hj⟩ := List.mem_iff_getElem?.1 (List.mem_map_of_mem (f := f) hn)
  refine ⟨j + 1, ?_⟩
  rw [List.getD_cons_succ, List.getD_eq_getElem?_getD, hj, hf]
  rfl

theorem mem_of_flag {ns : List DiskName} {f : DiskName → Bool} {j : ℕ}
    (h : (false :: ns.map f).getD j false = true) : ∃ n ∈ ns, f n = true := by
  by_contra hnone
  rw [getD_of_none] at h
  · cases h
  · intro b hb
    rcases List.mem_cons.1 hb with rfl | hb
    · rfl
    · obtain ⟨n, hn, rfl⟩ := List.mem_map.1 hb
      exact Bool.eq_false_iff.2 fun hf => hnone ⟨n, hn, hf⟩

/-- The removal of a disk of the chain. -/
theorem Unlinked.aligned {as cs : List DiskName} {child : DiskName} {c : Disk}
    (h : r.Coherent bs k (as ++ child :: n :: cs) gone)
    (hu : Unlinked r n child d c (bs ++ cs.reverse).length t) (hc : r.diskData child = some c)
    (hother : r.OtherFlag n) (ha : r.Aligned) : t.Aligned := by
  obtain ⟨hactive, -⟩ := h.place
  have htact : t.activeDiskData = bs ++ cs.reverse ++ child :: (as.reverse ++ [.head k]) := by
    rw [hu.active, hactive, List.eraseIdx_append_of_length_le (Nat.le_refl _), Nat.sub_self]
    rfl
  have hflag : ∀ m, m ≠ n → t.isUserCreated m = r.isUserCreated m := by
    intro m hm
    unfold isUserCreated
    rw [hu.data, update_of_ne hm]
    rcases eq_or_ne m child with rfl | hne
    · rw [update_self, hc]
      rfl
    · rw [update_of_ne hne]
  have hne : ∀ m ∈ t.activeDiskData, m ≠ n := by
    rw [htact]
    rintro m hm rfl
    rw [List.append_assoc, List.mem_append] at hm
    rcases hm with hm | hm
    · exact h.not_backing (by simp) hm
    · refine h.not_mem_rest ?_
      simp only [List.mem_append, List.mem_reverse, List.mem_cons, List.not_mem_nil,
        or_false] at hm ⊢
      tauto
  have hmap : t.activeDiskData.map t.isUserCreated = t.activeDiskData.map r.isUserCreated :=
    List.map_congr_left fun m hm => hflag m (hne m hm)
  have hflags : t.volume.userCreatedSnap = false :: t.activeDiskData.map t.isUserCreated := by
    rw [hmap, hu.flags, ha.flags, htact, hactive, List.eraseIdx_cons_succ, List.map_append,
      List.map_cons, List.eraseIdx_append_of_length_le (by simp), List.length_map, Nat.sub_self]
    simp
  refine ⟨hflags, ?_⟩
  rw [← hflags, hu.snapIndx, ← hu.flags]
  refine lastFlag_lastUserCreated (ha.snapIndx.2.imp_right fun hset => ?_)
  -- some disk of the chain is marked, so one that stays is
  have hstays : ∃ m ∈ r.activeDiskData, m ≠ n ∧ r.isUserCreated m = true := by
    obtain ⟨m, hm, hf⟩ := mem_of_flag hset
    rcases eq_or_ne m n with rfl | hmn
    · exact hother hf
    · exact ⟨m, hm, hmn, hf⟩
  obtain ⟨m, hm, hmn, hf⟩ := hstays
  rw [hflags, hmap]
  refine exists_flag ?_ hf
  rw [hactive, List.mem_append, List.mem_cons] at hm
  rw [htact, List.mem_append]
  exact hm.imp_right fun hm => hm.resolve_left hmn

/-- What `RemoveDiffDisk` does to a disk outside the chain. -/
theorem aligned_of_outside (h : r.Coherent bs k ss gone) (ht : t.Coherent bs k ss gone)
    (hn : n ∉ .head k :: ss) (hv : t.volume = r.volume)
    (hd : ∀ m, m ≠ n → t.diskData m = r.diskData m) (ha : r.Aligned) : t.Aligned := by
  refine ha.congr (by rw [hv]) (by rw [hv]) (ht.active.trans h.active.symm) fun m hm => ?_
  rcases eq_or_ne m n with rfl | hmn
  · -- it can only be the backing file
    have hb : m ∈ bs := by
      rw [h.active, List.mem_append, List.mem_reverse] at hm
      exact hm.resolve_right hn
    rw [h.isUserCreated_backing hb, ht.isUserCreated_backing hb]
  · unfold isUserCreated
    rw [hd m hmn]

theorem isUserCreated_setRecord {e : Disk} (hd : r.diskData n = some d)
    (hflag : e.userCreated = d.userCreated) (m : DiskName) :
    ((r.setDisk n (some e)).setMeta n (some e)).isUserCreated m = r.isUserCreated m := by
  unfold isUserCreated
  show ((update r.diskData n (some e) m).map Disk.userCreated).getD false = _
  rcases eq_or_ne m n with rfl | hmn
  · rw [update_self, hd]
    exact hflag
  · rw [update_of_ne hmn]

theorem Aligned.setRecord {e : Disk} (ha : r.Aligned) (hd : r.diskData n = some d)
    (hflag : e.userCreated = d.userCreated) : ((r.setDisk n (some e)).setMeta n (some e)).Aligned :=
  ha.congr rfl rfl rfl fun m _ => isUserCreated_setRecord hd hflag m

/-- The removal of a disk of the chain, with the counter of its parent. -/
theorem Unlinked.aligned_credited {as cs : List DiskName} {child : DiskName}
    {c : Disk} {u : Replica} (h : r.Coherent bs k (as ++ child :: n :: cs) gone)
    (hd : r.diskData n = some d) (hu : Credited r d u)
    (hcoh : u.Coherent bs k (as ++ child :: n :: cs) gone) (hc : u.diskData child = some c)
    (hun : Unlinked u n child d c (bs ++ cs.reverse).length t) (hother : r.OtherFlag n)
    (ha : r.Aligned) :
    t.Aligned := by
  cases hu with
  | base _ => exact hun.aligned hcoh hc hother ha
  | inner p e hp he =>
    obtain ⟨e', he', -, hname⟩ := h.record (n := p) (by simp [h.parent_mem hd hp])
    obtain rfl : e = e' := Option.some.inj (he.symm.trans he')
    subst hname
    have hflag :=
      isUserCreated_setRecord (e := { e with revisionCounter := d.revisionCounter }) he rfl
    have hother' : (r.counted e.name d e).OtherFlag n := by
      intro hf
      obtain ⟨m, hm, hmn, hmf⟩ := hother ((hflag n).symm.trans hf)
      exact ⟨m, hm, hmn, (hflag m).trans hmf⟩
    exact hun.aligned hcoh hc hother' (ha.setRecord he rfl)

end Replica

namespace Serving

variable {s : Serving}

/-- There is no backing file, or no disk from `n` down in the directory is user-created. -/
def Unmarked (backing : Option Replica.BackingFile) (dir : Dir) (n : Option DiskName) : Prop :=
  backing = none ∨ ∀ ns, Follows dir.next n ns → ∀ m ∈ ns, Replica.flagOf dir m = false

/-- An operation that keeps the markers aligned, or that makes them so. -/
def Keeps (s : Serving) : ReplicaOp → Prop
  | .snapshot _ userCreated _ => userCreated = false
  | .removeDiffDisk name => s.replica.OtherFlag name
  | .revert name _ => Unmarked s.backing s.replica.dir (some name)
  | .reload .. => Unmarked s.backing s.replica.dir s.replica.info.head
  | .reopen backing .. => Unmarked backing s.replica.dir s.replica.info.head
  | _ => True

/-- The operations that read the chain from the directory. -/
def Reads : ReplicaOp → Prop
  | .revert .. | .reload .. | .reopen .. => True
  | _ => False

open Replica in
/-- An operation that reads the chain aligns the markers, if the backing file does not shift
them. -/
theorem aligned_of_reads {s' : Serving} {op : ReplicaOp} {gone : List DiskName} (h : s.Sound gone)
    (hstep : s.step op = some s') (hop : Reads op) (hkeeps : Unshifted s'.backing s'.replica) :
    s'.replica.Aligned := by
  obtain ⟨k, ss, g, h, -⟩ := h
  obtain ⟨hact, hb⟩ := step_some hstep
  rw [hb] at hkeeps
  generalize s'.replica = t at *
  cases op with
  | revert name created =>
    obtain ⟨vm, ss', u, -, -, ho, rfl, hcoh⟩ := revertDiskWith_coherent h hact
    exact (ho.aligned (hcoh.restore u.mode u.info.dirty) hkeeps).congr rfl rfl rfl fun _ _ => rfl
  | reload preload created =>
    obtain ⟨vm, u, -, -, ho, rfl, hcoh⟩ := reloadWith_coherent h hact
    exact (ho.aligned (hcoh.restore u.mode u.info.dirty) hkeeps).congr rfl rfl rfl fun _ _ => rfl
  | reopen backing preload size sectorSize created =>
    obtain ⟨⟨⟩, u, hu, hact⟩ := calm_bind_ok.1 hact
    obtain ⟨vm, -, -, ho, hcoh⟩ := (close_coherent h hu).construct hact
    exact ho.aligned hcoh hkeeps
  | _ => cases hop

open Replica in
theorem unshifted_of_keeps {s' : Serving} {op : ReplicaOp} {gone : List DiskName}
    (h : s.Sound gone) (hstep : s.step op = some s') (hop : Reads op) (hkeeps : s.Keeps op) :
    Unshifted s'.backing s'.replica := by
  obtain ⟨k, ss, g, h, -⟩ := h
  obtain ⟨hact, hb⟩ := step_some hstep
  rw [hb]
  generalize s'.replica = t at *
  -- a disk of the chain is marked in the directory as it was before
  have hchain : ∀ {backing : Option BackingFile},
      Unmarked backing s.replica.dir s.replica.info.head →
      backing = none ∨ ∀ n ∈ .head k :: ss, flagOf s.replica.dir n = false := by
    intro backing hkeeps
    rw [h.head] at hkeeps
    exact hkeeps.imp_right fun hflag => hflag _ h.follows_dir
  cases op with
  | revert name created =>
    obtain ⟨vm, ss', u, -, hf, ho, rfl, hcoh⟩ := revertDiskWith_coherent h hact
    refine ho.unshifted (hcoh.restore u.mode u.info.dirty)
      (Or.imp_right (fun hflag n hn => ?_) hkeeps)
    unfold flagOf
    rcases List.mem_cons.1 hn with rfl | hn
    · rw [reverted_diskMeta, update_of_ne (by simp), update_self]
      rfl
    · obtain ⟨x, rfl⟩ := hcoh.snaps hn
      rw [reverted_diskMeta, update_of_ne (by simp), update_of_ne (by simp)]
      exact hflag ss' hf _ hn
  | reload preload created =>
    obtain ⟨vm, u, -, -, ho, rfl, hcoh⟩ := reloadWith_coherent h hact
    exact ho.unshifted (hcoh.restore u.mode u.info.dirty) (hchain hkeeps)
  | reopen backing preload size sectorSize created =>
    obtain ⟨⟨⟩, u, hu, hact⟩ := calm_bind_ok.1 hact
    obtain ⟨vm, -, -, ho, hcoh⟩ := (close_coherent h hu).construct hact
    rw [close_calm h.readOnly] at hu
    cases hu
    exact ho.unshifted hcoh (hchain hkeeps)
  | _ => cases hop

open Replica in
theorem step_aligned {s' : Serving} {op : ReplicaOp} {gone : List DiskName} (h : s.Sound gone)
    (ha : s.replica.Aligned) (hkeeps : s.Keeps op) (hstep : s.step op = some s') :
    s'.replica.Aligned := by
  have hsound := h
  obtain ⟨k, ss, g, h, -⟩ := h
  obtain ⟨hact, -⟩ := step_some hstep
  have hflag : ∀ {act : ReplicaAct String Unit} {i vm : Info},
      act .calm s.replica = (.ok (), { s.replica.setVolumeMeta vm with info := i }) →
      act .calm s.replica = (.ok (), s'.replica) → s'.replica.Aligned := by
    intro act i vm hact hact'
    rw [show s'.replica = _ from congrArg Prod.snd (hact'.symm.trans hact)]
    exact ha.congr rfl rfl rfl fun _ _ => rfl
  cases op with
  | snapshot name userCreated created =>
    obtain rfl : userCreated = false := hkeeps
    obtain ⟨-, -, hmeta, i, d, -, hd, ht⟩ := createDisk_ok h.head h.readOnly h.free h.whole hact
    rw [ht]
    exact (snapshotted_spec s.replica k name false created i d).aligned h hd hmeta ha
  | prepareRemoveDisk name =>
    obtain ⟨acts, u, hu, hact⟩ := calm_bind_ok.1 hact
    cases hact
    rcases prepareRemoveDisk_ok hu h.readOnly with ⟨-, ht⟩ | ⟨m, d, p, -, hd, -, -, -, -, -, ht⟩
    · rw [ht]
      exact ha
    · rw [ht]
      exact ha.setRecord hd rfl
  | removeDiffDisk name =>
    cases removeDiffDisk_removed h hact with
    | outside hn hv _ _ _ hd hcoh => exact aligned_of_outside h hcoh hn hv hd ha
    | inside as cs child d c u hss hd hu hc hcoh hun _ =>
      subst hss
      exact hun.aligned_credited h hd hu hcoh hc hkeeps ha
  | revert | reload | reopen =>
    exact aligned_of_reads hsound hstep trivial (unshifted_of_keeps hsound hstep trivial hkeeps)
  | resize obj =>
    obtain ⟨ns, -, -, ht⟩ := resize_ok hact h.readOnly
    rw [ht]
    exact ha.congr rfl rfl rfl fun _ _ => rfl
  | setReplicaMode mode =>
    have hact : setReplicaMode mode .calm s.replica = (.ok (), s'.replica) := hact
    generalize s'.replica = t at *
    unfold setReplicaMode at hact
    split_ifs at hact <;> cases hact <;> exact ha.congr rfl rfl rfl fun _ _ => rfl
  | setCheckpoint snapshotName => exact hflag (setCheckpoint_calm h.readOnly snapshotName) hact
  | setRebuilding rebuilding => exact hflag (setRebuilding_calm h.readOnly rebuilding) hact
  | setCloneStatus status => exact hflag (setCloneStatus_calm h.readOnly status) hact

theorem IsNew.aligned (h : s.IsNew) : s.replica.Aligned := by
  obtain ⟨preload, size, sectorSize, fuel, created, maxChainLen, hk⟩ := h
  obtain ⟨-, -, hfin⟩ := Replica.constructWith_new hk
  have hcoh := Replica.constructWith_new_coherent hk
  have hhead : s.replica.isUserCreated (.head 0) = false := by
    obtain ⟨d, hd, hm, -⟩ := hcoh.record (n := .head 0) (by simp)
    unfold Replica.isUserCreated
    rw [hd]
    exact hcoh.tidy.plain d hm
  have hback : (Replica.backingNames s.backing).map s.replica.isUserCreated =
      (Replica.backingNames s.backing).map fun _ => false :=
    List.map_congr_left fun n hn => hcoh.isUserCreated_backing hn
  have hmap : s.replica.activeDiskData.map s.replica.isUserCreated =
      (Replica.backingNames s.backing).map (fun _ => false) ++ [false] := by
    rw [hcoh.active, List.map_append, hback]
    simp [hhead]
  have hzero : s.replica.volume.snapIndx = 0 := hfin.snapIndx
  refine ⟨?_, ?_⟩
  · rw [hfin.flags _ rfl, hmap]
    rfl
  · rw [hmap, hzero]
    refine lastFlag_of_none fun b hb => ?_
    simp only [List.mem_cons, List.mem_append, List.mem_map, List.not_mem_nil, or_false] at hb
    rcases hb with rfl | ⟨-, -, rfl⟩ | rfl <;> rfl

/-- From a new replica, or from one whose chain was read from the directory, operations that keep
the markers lead to aligned ones only. -/
theorem markers_aligned {s s₁ s₂ : Serving} {before after : List ReplicaOp} (h : s.IsNew)
    (hbefore : run step s before = some s₁)
    (hread : before = [] ∨
      (∃ op, before.getLast? = some op ∧ Reads op) ∧ Replica.Unshifted s₁.backing s₁.replica)
    (hkeeps : Transition.Along step Keeps s₁ after) (hafter : run step s₁ after = some s₂) :
    s₂.replica.Aligned := by
  have haligned : s₁.replica.Aligned := by
    rcases hread with rfl | ⟨⟨op, hlast, hop⟩, hshift⟩
    · cases hbefore
      exact h.aligned
    · obtain ⟨pre, rfl⟩ := List.getLast?_eq_some_iff.1 hlast
      rw [run_append] at hbefore
      obtain ⟨s₀, hs₀, hstep⟩ := Option.bind_eq_some_iff.1 hbefore
      obtain ⟨s₁', hstep, hnil⟩ := Option.bind_eq_some_iff.1 hstep
      cases hnil
      exact aligned_of_reads (run_sound h hs₀) hstep hop hshift
  have hinv := inv_of_run (I := fun s => (∃ g, s.Sound g) ∧ s.replica.Aligned)
    (fun s op s' hs hgood hstep => ?_) ⟨⟨_, run_sound h hbefore⟩, haligned⟩ hkeeps hafter
  · exact hinv.2
  · obtain ⟨⟨g, hs⟩, ha⟩ := hs
    exact ⟨⟨_, step_sound hs hstep⟩, step_aligned hs ha hgood hstep⟩

instance (r : Replica) (n : DiskName) : Decidable (r.OtherFlag n) :=
  inferInstanceAs (Decidable (_ → _))

/-- Two snapshots of the user, which are marked once the chain is read again. Then one of them is
removed. -/
theorem markers_aligned_reloaded : ∃ s₁ s₂,
    run step fresh [.setReplicaMode "RW", .snapshot "a" true "",
      .snapshot "b" true "", .snapshot "c" false "", .reload false ""] = some s₁ ∧
    run step s₁ [.snapshot "d" false "", .removeDiffDisk (.snap "b")] = some s₂ ∧
    s₂.replica.volume.userCreatedSnap = [false, true, false, false, false] ∧
    s₂.replica.Aligned := by
  have h₁ : (run step fresh [.setReplicaMode "RW", .snapshot "a" true "",
      .snapshot "b" true "", .snapshot "c" false "", .reload false ""]).map (fun s => (s.backing,
        (s.step (.snapshot "d" false "")).all fun s => decide (s.replica.OtherFlag (.snap "b")),
        (run step s [.snapshot "d" false "", .removeDiffDisk (.snap "b")]).map
          (fun s => s.replica.volume.userCreatedSnap))) =
      some (none, true, some [false, true, false, false, false]) := by
    decide +kernel
  obtain ⟨s₁, hs₁, heq⟩ := Option.map_eq_some_iff.1 h₁
  simp only [Prod.mk.injEq] at heq
  obtain ⟨hb, hother, hflags⟩ := heq
  obtain ⟨s₂, hs₂, hflags⟩ := Option.map_eq_some_iff.1 hflags
  have hkeeps : Transition.Along step Keeps s₁
      [.snapshot "d" false "", .removeDiffDisk (.snap "b")] := by
    refine ⟨rfl, fun s' hs' => ⟨?_, fun _ _ => trivial⟩⟩
    rw [hs', Option.all_some, decide_eq_true_eq] at hother
    exact hother
  exact ⟨s₁, s₂, hs₁, hs₂, hflags, markers_aligned fresh_isNew hs₁
    (.inr ⟨⟨_, rfl, trivial⟩, .inl hb⟩) hkeeps hs₂⟩

/-- The flags and the place of the last one, as they are and as the records say. -/
def markers (s : Serving) : List Bool × List Bool × ℕ :=
  (s.replica.volume.userCreatedSnap, false :: s.replica.activeDiskData.map s.replica.isUserCreated,
    s.replica.volume.snapIndx)

/-- A snapshot of the user marks the new head. The removal of the only marked disk keeps its place.
A backing file moves the flags, but not the place. -/
theorem user_snapshot_misaligned :
    (∃ s, run step fresh [.snapshot "a" true ""] = some s ∧
      s.markers = ([false, false, true], [false, true, false], 1) ∧ ¬s.replica.Aligned) ∧
    (∃ s, run step fresh [.setReplicaMode "RW", .snapshot "a" false "", .snapshot "b" true "",
        .snapshot "c" false "", .reload false "", .removeDiffDisk (.snap "b")] = some s ∧
      s.markers = ([false, false, false, false], [false, false, false, false], 2) ∧
      ¬s.replica.Aligned) ∧
    (∃ s, run step fresh [.snapshot "a" true "",
      .reopen (some ⟨"base", 7⟩) false 4096 4096 ""] = some s ∧
      s.markers = ([false, false, true, false], [false, false, true, false], 1) ∧
      ¬s.replica.Aligned) := by
  have hnot : ∀ {s : Serving} {f g : List Bool} {i : ℕ}, s.markers = (f, g, i) →
      (f ≠ g ∨ ¬LastFlag g i) → ¬s.replica.Aligned := by
    intro s f g i hm h ha
    unfold markers at hm
    simp only [Prod.mk.injEq] at hm
    obtain ⟨rfl, rfl, rfl⟩ := hm
    exact h.elim (fun hne => hne ha.flags) fun hl => hl ha.snapIndx
  refine ⟨exists_of_any (p := fun s => s.markers = ([false, false, true], [false, true, false], 1))
      (by decide +kernel) fun s _ hm => ⟨hm, hnot hm (.inl (by decide))⟩,
    exists_of_any (p := fun s => s.markers = ([false, false, false, false],
      [false, false, false, false], 2)) (by decide +kernel) fun s _ hm =>
        ⟨hm, hnot hm (.inr fun hl => absurd hl.2 (by decide))⟩,
    exists_of_any (p := fun s => s.markers = ([false, false, true, false],
      [false, false, true, false], 1)) (by decide +kernel) fun s _ hm =>
        ⟨hm, hnot hm (.inr fun hl => absurd (hl.1 2 rfl) (by decide))⟩⟩

end Serving

end Jiva
