import Jiva.Cleaner
import Jiva.ControllerRuns
import Jiva.ResizeReopen

/-!
# A replica as the controller sees it

The controller is modelled over replicas that are a chain of names, an array of bytes and a few
numbers (`Node`). `Shows` says which `Node` an open replica is, with its files, its table and the
holes that wait. A request does to the replica what it does to the `Node` (`step_shows`), and so the
replica answers like the `Node` after any requests, however reads and the worker come in between
(`replica_refines`).

`Revert` and the removal of a snapshot are not among these requests. The worker punches holes into
snapshots that nobody asked for, and then such a snapshot does not have the bytes any more that a
`Node` keeps for it.
-/

namespace Jiva

namespace Running

/-- The volume with the holes that wait. -/
def volume (s : Running) : Volume :=
  { s.replica.vol with holeCreatorChan := s.holes }

/-- The controller takes the replica for `n`. -/
structure Shows (s : Running) (n : Node) : Prop where
  complete : ∃ gone, s.Complete gone
  data : (Cleaner.mk s.volume [] none).CleanInv fun b => n.image b
  tail : ∀ b : ℕ, s.replica.info.size ≤ b → n.image b = 0
  active : s.replica.activeDiskData = n.chain.reverse
  size : n.size = s.replica.info.size
  counter : n.revisionCounter = s.replica.dir.revisionCounter
  checkpoint : s.replica.info.checkpoint = n.checkpoint.map .snap
  mode : n.mode = .rw ↔ s.replica.mode = .rw
  known : ∀ x, n.lacks x = (s.replica.dir.img (.snap x)).isNone

/-- What the controller takes a step for. -/
inductive Does : Op → (Node → Node) → Prop
  | writeAt (buf : List Byte) (offset : ℕ) :
      Does (.writeAt Dev.ok buf offset) (Node.writeAt ⟨offset, buf⟩)
  | readAt (dev : Dev) (buf : List Byte) (offset : ℕ) : Does (.readAt dev buf offset) id
  | snapshot (name : String) (userCreated : Bool) (created : String) :
      Does (.manage (.snapshot name userCreated created)) (Node.snapshot name)
  | resize (obj : Replica.NewSize) (hwhole : obj.toBytes % defaultSectorSize = 0) :
      Does (.manage (.resize obj)) (Node.resize obj.toBytes)
  | setCheckpoint (name : Option String) :
      Does (.manage (.setCheckpoint (name.map .snap))) (Node.setCheckpoint name)
  | setRW : Does (.manage (.setReplicaMode "RW")) (Node.setReplicaMode .rw)
  | setWO : Does (.manage (.setReplicaMode "WO")) (Node.setReplicaMode .wo)
  | punch : Does .punch id

variable {s s' : Running} {n : Node} {buf : List Byte} {offset : ℕ}

/-! ## The volume -/

/-- The same files and table with other holes. -/
theorem cleanInv_requeue {v v' : Volume} {img : ℕ → Byte} (h : (Cleaner.mk v [] none).CleanInv img)
    (hd : v'.toDiffDisk = v.toDiffDisk) (hs : v'.store = v.store)
    (hq : ∀ x ∈ v'.holeCreatorChan, v.SafeHole (· = v.target) x) :
    (Cleaner.mk v' [] none).CleanInv img := by
  obtain ⟨d, st, q, p⟩ := v'
  dsimp only at hd hs hq
  subst hd hs
  have hc := h.chainOk
  exact ⟨⟨hc.two_le, hc.le_u16, hc.nil_file, hc.nodup, hc.file_size⟩, h.locationOk,
    fun x hx => (hq x hx).mono (fun _ _ hok => ⟨hok.pos, hok.lt, hok.hidden⟩)
    (fun _ _ => rfl) le_rfl, h.image, nofun, nofun, nofun⟩

namespace Shows

theorem vol (h : s.Shows n) : (Cleaner.mk s.replica.vol [] none).CleanInv fun b => n.image b :=
  cleanInv_requeue h.data rfl rfl nofun

theorem whole (h : s.Shows n) : s.replica.info.size = s.replica.vol.size := by
  obtain ⟨-, k, ss, gone, -, -, hs⟩ := h.complete
  have hpos := hs.sized.target_pos
  rw [← h.vol.chainOk.file_size _ hpos hs.sized.target_lt, hs.sized.size _ hpos hs.sized.target_lt]

theorem image_writeAt (n : Node) : (fun b : ℕ => (n.writeAt ⟨offset, buf⟩).image b) =
    overlay (fun b : ℕ => n.image b) offset buf := by
  funext b
  unfold Node.writeAt overlay
  dsimp only
  rw [show ((b : ℤ) - offset).toNat = b - offset by omega]
  norm_cast

/-- A write leaves the waiting holes safe, and so are those that it sends off. -/
theorem write_data (h : s.Shows n) (hin : offset + buf.length ≤ s.replica.info.size) {t : Replica}
    (hv : t.volume = (s.replica.vol.writeAt Dev.ok buf offset).v.toDiffDisk)
    (hst : t.dir.store = (s.replica.vol.writeAt Dev.ok buf offset).v.store) :
    (Cleaner.mk (volume ⟨t, s.holes ++
      (s.replica.vol.writeAt Dev.ok buf offset).v.holeCreatorChan⟩) [] none).CleanInv
        fun b => (n.writeAt ⟨offset, buf⟩).image b := by
  rw [h.whole] at hin
  have hw := h.vol.write hin
  have hold := Volume.writeAt_ind (X := False)
    (P := fun u => ∀ x ∈ s.holes, u.SafeHole (· = s.replica.vol.target) x) h.vol.chainOk hin nofun
    (fun _ _ hu _ hf x hx => (hu x hx).fills hf)
    (fun _ _ _ _ hu _ _ _ he x hx => (hu x hx).write he)
    fun x hx => (h.data.queue x hx).mono (fun _ _ hok => ⟨hok.pos, hok.lt, hok.hidden⟩)
      (fun _ _ => rfl) le_rfl
  rw [image_writeAt]
  refine cleanInv_requeue hw hv hst fun x hx => ?_
  rcases List.mem_append.1 hx with hx | hx
  · rw [hold.same.target]
    exact hold.inv x hx
  · exact hw.queue x hx

theorem write_tail (h : s.Shows n) (hin : offset + buf.length ≤ s.replica.info.size) (b : ℕ)
    (hb : s.replica.info.size ≤ b) : (n.writeAt ⟨offset, buf⟩).image b = 0 := by
  have hout : ¬((offset : ℤ) ≤ b ∧ (b : ℤ) < offset + buf.length) := by omega
  exact (if_neg hout).trans (h.tail b hb)

/-- The files and the table get longer. -/
theorem resize_data (h : s.Shows n) {ns : List DiskName} (hs : s.replica.Stocked ns)
    (himgs : ∀ n ∈ ns, (s.replica.dir.img n).isSome) {size : ℕ} (hle : s.replica.info.size ≤ size)
    (hwhole : size % defaultSectorSize = 0) :
    (Cleaner.mk (volume ⟨s.replica.resized size ns, s.holes⟩) [] none).CleanInv
      fun b => n.image b := by
  set v := s.volume
  set v' := volume ⟨s.replica.resized size ns, s.holes⟩
  have hstore : ∀ i, 0 < i → i < v.files.length →
      v'.store (v.file i) = (v.store (v.file i)).truncate size :=
    fun i h0 hi => hs.resized_store himgs size h0 hi
  have hsize : v'.size = size := by
    have hold : s.replica.info.size = v.locationLen * defaultSectorSize := h.whole
    show (v.locationLen + (size - s.replica.info.size) / 4096) * defaultSectorSize = size
    rw [defaultSectorSize_eq] at *
    omega
  have hext : ∀ i, 0 < i → i < v.files.length → ∀ t,
      v'.hasExtent i t = (v.hasExtent i t && decide (t * defaultSectorSize < size)) :=
    fun i h0 hi t => congrFun (congrArg SparseFile.alloc (hstore i h0 hi)) t
  have hc := h.data.chainOk
  have hlt : ∀ i, i ≤ v.target → i < v.files.length := fun i hi =>
    hi.trans_lt (Nat.sub_lt (Nat.zero_lt_of_lt hc.two_le) Nat.one_pos)
  have htop : ∀ t, t * defaultSectorSize < size → v'.topFile v.target t = v.topFile v.target t :=
    fun t ht => Layered.top_congr fun i h0 hi => by
      rw [hext i (Nat.pos_of_ne_zero h0) (hlt i hi), decide_eq_true ht, Bool.and_true]
  refine ⟨⟨hc.two_le, hc.le_u16, hc.nil_file, hc.nodup, fun i h0 hi => ?_⟩, fun t ht => ?_,
    fun x hx => (h.data.queue x hx).mono
      (fun f t hok => ⟨hok.pos, hok.lt, fun hf u hu hfu hut => ?_⟩) (fun _ _ => rfl) le_rfl,
    fun b hb => ?_, nofun, nofun, nofun⟩
  · exact (congrArg SparseFile.size (hstore i h0 hi)).trans hsize.symm
  · show (if t < v.locationLen then v.location t else 0) = 0 ∨
      (if t < v.locationLen then v.location t else 0) = max 1 (v'.topFile v.target t)
    split_ifs with hold
    · rw [htop t (hsize ▸ Nat.mul_lt_mul_of_pos_right ht (by decide))]
      exact h.data.locationOk t hold
    · exact .inl rfl
  · rw [hext f hok.pos (hlt f hok.lt.le), Bool.and_eq_true, decide_eq_true_eq] at hf
    obtain ⟨j, hfj, hju, hj⟩ := hok.hidden hf.1 u hu hfu hut
    refine ⟨j, hfj, hju, ?_⟩
    rw [hext j (by omega) (hlt j (hju.trans hut)), hj, decide_eq_true hf.2]
    rfl
  · have hb : b < size := hsize ▸ hb
    have himage : v'.image b = v.image b := by
      have hdiv := Nat.div_mul_le_self b defaultSectorSize
      show v'.imageAt v.target b = v.imageAt v.target b
      unfold Volume.imageAt
      rw [htop _ (by omega)]
      split_ifs with h0
      · rfl
      · rw [show v'.store (v'.file _) = _ from
          hstore _ (Nat.pos_of_ne_zero h0) (hlt _ (Layered.top_le ..))]
        exact if_pos hb
    rw [himage]
    rcases Nat.lt_or_ge b v.size with hold | hold
    · exact h.data.image b hold
    · rw [h.tail b (h.whole ▸ hold)]
      refine Volume.image_of_clear (z := s.replica.info.size) (fun f b hb => ?_) (h.whole ▸ hold)
      exact hs.sized.tight f b ((hs.sized.bound f).trans hb)

theorem punch_data (h : s.Shows n) {x : Hole} {q : List Hole} (hx : s.holes = x :: q) {v : Volume}
    (hv : s.replica.vol.fallocatePunch x.f x.offset x.len = .ok v) :
    (Cleaner.mk (volume ⟨s.replica.withVol v, q⟩) [] none).CleanInv fun b => n.image b := by
  refine h.data.punch (n := 0) ?_
  unfold volume Volume.createHole Volume.fallocatePunch at *
  rw [hx]
  split_ifs at hv with hlen
  cases hv
  simp only [List.getElem?_cons_zero, if_neg hlen]
  rfl

theorem snapshot_data (h : s.Shows n) {k i : ℕ} {name created : String} {userCreated : Bool}
    {d : Disk} (hfree : s.replica.dir.img (.head (k + 1)) = none)
    (hlen : s.replica.volume.files.length < 65536) :
    let t := s.replica.snapshotted k name userCreated created i d
    (Cleaner.mk (volume ⟨t, s.holes⟩) [] none).CleanInv (fun b => n.image b) ∧
      t.dir.revisionCounter = s.replica.dir.revisionCounter := by
  intro t
  obtain ⟨-, k', ss, gone, hc, -, hs⟩ := h.complete
  have hw := Replica.withHead_mem (r := s.replica) (.head (k + 1))
    (s.replica.headDisk (.head (k + 1)) (some (.snap name)) created)
  rw [Replica.withHead_dir hfree, h.whole] at hw
  have ht : t.vol = s.replica.vol.appendHead s.replica.dir.nextIno userCreated ∧
      t.dir.revisionCounter = s.replica.dir.revisionCounter := by
    unfold t Replica.snapshotted
    dsimp only
    rw [Replica.ino_openTrunc hfree, hw]
    exact ⟨rfl, rfl⟩
  refine ⟨?_, ht.2⟩
  have hnew : s.replica.dir.nextIno ∉ s.replica.volume.files := by
    rw [hs.files]
    intro hm
    rcases List.mem_cons.1 hm with h0 | hm
    · obtain ⟨j, hj⟩ := Option.isSome_iff_exists.1 (hc.imgs List.mem_cons_self)
      have := hs.inodes _ _ hj
      omega
    · obtain ⟨x, hx, hino⟩ := List.mem_map.1 hm
      obtain ⟨j, hj⟩ := Option.isSome_iff_exists.1 (hc.imgs (List.mem_reverse.1 hx))
      have := hs.inodes _ _ hj
      unfold Replica.ino at hino
      rw [hj] at hino
      exact absurd hino (by simpa using this.2.ne)
  unfold volume
  rw [ht.1]
  exact h.data.snapshot hnew hlen []

end Shows

/-! ## Requests -/

theorem act_of_step {op : ReplicaOp} (h : s.step (.manage op) = some s') :
    ∃ t, Serving.act ⟨s.replica, none⟩ op .calm s.replica = (.ok (), t) ∧
      s' = ⟨t, holesAfter s.holes op⟩ := by
  simp only [step] at h
  split at h
  · next r heq =>
    cases h
    exact ⟨r, (Serving.step_some heq).1, rfl⟩
  · cases h

/-- What a write leaves, in the four modes. -/
theorem Shows.writeAt (h : s.Shows n) (hin : offset + buf.length ≤ s.replica.info.size)
    (hc : ∃ gone, Complete gone ⟨(s.replica.writeAt Dev.ok buf offset).1,
      s.holes ++ (s.replica.writeAt Dev.ok buf offset).2.1⟩) :
    Shows ⟨(s.replica.writeAt Dev.ok buf offset).1,
      s.holes ++ (s.replica.writeAt Dev.ok buf offset).2.1⟩ (n.writeAt ⟨offset, buf⟩) := by
  obtain ⟨-, k, ss, gone, hcoh, -⟩ := h.complete
  have hok := (Volume.writeAt_writes Dev.ok h.vol.chainOk h.vol.locationOk (h.whole ▸ hin)).ok rfl
  have hcount := h.counter
  cases hm : s.replica.mode <;>
    simp only [Replica.writeAt, hcoh.readOnly, hok, hm, Bool.false_eq_true, if_false] at hc ⊢ <;>
    exact { h with
      complete := hc
      data := h.write_data hin rfl rfl
      tail := h.write_tail hin
      counter := by simp [Node.writeAt, h.mode, hm, hcount]; rfl }

theorem Shows.snapshot (h : s.Shows n) {name created : String} {userCreated : Bool} {t : Replica}
    (hk : Replica.createDisk name userCreated created .calm s.replica = (.ok (), t))
    (ht : ∃ gone, Complete gone ⟨t, s.holes⟩) : Shows ⟨t, s.holes⟩ (n.snapshot name) := by
  obtain ⟨-, k, ss, gone, hc, -, hs⟩ := h.complete
  obtain ⟨i', d', hsn, -⟩ := Replica.createDisk_coherent hc hk
  obtain ⟨hmax, hsnap, -, i, d, -, -, rfl⟩ :=
    Replica.createDisk_ok hc.head hc.readOnly hc.free hc.whole hk
  have hst : Replica.SnapStocked s.replica k name i
      (s.replica.snapshotted k name userCreated created i d) :=
    Replica.snapshotted_stocked hc.free
  have hlen : s.replica.volume.files.length < 65536 := by
    have := hs.limit
    have := hc.files
    omega
  obtain ⟨hdata, hcount⟩ := h.snapshot_data (i := i) (d := d) hc.free hlen
  have hlacks : n.lacks name = true := by
    rw [h.known, hsnap]
    rfl
  have hchain : .head k :: ss = n.chain := List.reverse_injective (hc.active.symm.trans h.active)
  rw [Node.chain, List.cons.injEq, DiskName.head.injEq] at hchain
  obtain ⟨rfl, rfl⟩ := hchain
  rw [Node.snapshot, if_pos hlacks]
  refine ⟨ht, hdata, fun b hb => h.tail b (hst.size ▸ hb), ?_, hst.size ▸ h.size,
    hcount ▸ h.counter, ?_, ?_, fun x => ?_⟩
  · rw [hsn.active, hc.active]
    simp [Node.chain]
  · rw [hsn.info]
    exact h.checkpoint
  · rw [hsn.rest.2.1]
    exact h.mode
  · rw [hst.img]
    show (Function.update n.below name (some n.snaps) x).isNone = _
    by_cases hx : x = name
    · rw [hx, Replica.shift_snap, Function.update_self]
      rfl
    · rw [Replica.shift_of_ne (by simp) (by simpa using hx) (by simp), Function.update_of_ne hx]
      exact h.known x

/-- A step does to the replica what the controller takes it for. -/
theorem step_shows {op : Op} {f : Node → Node} (hd : Does op f) (h : s.Shows n)
    (hstep : s.step op = some s') : s'.Shows (f n) := by
  have hcomplete : ∃ gone, s'.Complete gone :=
    h.complete.imp' _ fun _ hg => (step_complete hg (by cases hd <;> trivial) hstep).1
  obtain ⟨-, k, ss, gone, hc, -, hs⟩ := h.complete
  cases hd with
  | writeAt buf offset =>
    simp only [step] at hstep
    split_ifs at hstep with hin
    cases hstep
    exact h.writeAt hin hcomplete
  | readAt dev buf offset =>
    cases hstep
    obtain ⟨l, hv, hl⟩ := Volume.readAt_fills dev h.vol.chainOk buf offset
    refine { h with complete := hcomplete, data := h.data.fills ⟨l, ?_, hl⟩ }
    show volume ⟨s.replica.withVol (s.replica.vol.readAt dev buf offset).v, s.holes⟩ = _
    rw [show (s.replica.vol.readAt dev buf offset).v = _ from hv]
    rfl
  | punch =>
    simp only [step] at hstep
    split at hstep
    · cases hstep
    · next x q hx =>
      split at hstep
      · next v hv =>
        cases hstep
        exact { h with complete := hcomplete, data := h.punch_data hx hv }
      · cases hstep
  | snapshot name userCreated created =>
    obtain ⟨t, hact, rfl⟩ := act_of_step hstep
    exact h.snapshot hact hcomplete
  | resize obj hwhole =>
    obtain ⟨t, hact, rfl⟩ := act_of_step hstep
    obtain ⟨ns, hlive, hle, rfl⟩ := Replica.resize_ok hact hc.readOnly
    cases hc.liveChain_eq.symm.trans hlive
    have hgrow : s.replica.info.size ≤ obj.toBytes.toNat := by omega
    have hsize : ((obj.toBytes.toNat : ℕ) : ℤ) = obj.toBytes := by omega
    have hmod : obj.toBytes.toNat % defaultSectorSize = 0 := by
      rw [defaultSectorSize_eq] at *
      omega
    exact { h with
      complete := hcomplete
      data := h.resize_data hs (fun _ => hc.imgs) hgrow hmod
      tail := fun b hb => h.tail b (hgrow.trans hb)
      size := hsize.symm }
  | setCheckpoint name =>
    obtain ⟨t, hact, rfl⟩ := act_of_step hstep
    cases hact.symm.trans (Replica.setCheckpoint_calm hc.readOnly _)
    exact { h with complete := hcomplete, checkpoint := rfl }
  | setRW | setWO =>
    obtain ⟨t, hact, rfl⟩ := act_of_step hstep
    cases hact
    exact { h with complete := hcomplete, mode := by simp [Node.setReplicaMode] }

/-- After any steps that the controller takes for requests, the replica is what these make of the
`Node`, and its reads return the bytes of the `Node`. -/
theorem replica_refines {ops : List Op} {fs : List (Node → Node)} (hd : List.Forall₂ Does ops fs)
    (h : s.Shows n) (hrun : Transition.run step s ops = some s') (dev : Dev)
    (buf : List Byte) (offset : ℕ) (hin : offset + buf.length ≤ s'.replica.info.size) :
    let n' := fs.foldl (fun n f => f n) n
    s'.Shows n' ∧
      (s'.replica.vol.readAt dev buf offset).Reads dev (fun b => n'.image b) offset buf.length := by
  induction hd generalizing s n with
  | nil =>
    cases hrun
    rw [h.whole] at hin
    exact ⟨h, (Volume.readAt_spec h.vol.chainOk h.vol.locationOk hin).congr fun b _ hb =>
      h.vol.image b (hb.trans_le hin)⟩
  | cons hop _ ih =>
    obtain ⟨t, ht, hrun⟩ := Option.bind_eq_some_iff.1 hrun
    exact ih (step_shows hop h ht) hrun

theorem fresh_shows : fresh.Shows { Node.blank with mode := .wo } := by
  refine ⟨⟨_, fresh_isNew.complete (by decide)⟩,
    ⟨⟨by decide, by decide, rfl, by decide, fun i hi h => ?_⟩, fun t ht => ?_,
    nofun, fun b _ => rfl, nofun, nofun, nofun⟩, fun _ _ => rfl, rfl, rfl, rfl,
    rfl, by decide, fun x => rfl⟩
  · obtain rfl : i = 1 := by
      have : i < 2 := h
      omega
    rfl
  · obtain rfl : t = 0 := by
      have : t < 1 := ht
      omega
    decide

/-- A write in mode `RW`, a snapshot, and a write over the first byte, whose hole is punched. -/
theorem replica_refines_fresh :
    let ops : List Op := [.manage (.setReplicaMode "RW"), .writeAt Dev.ok [7] 0,
      .manage (.snapshot "a" false ""), .writeAt Dev.ok [8] 0, .punch]
    let n := ((({ Node.blank with mode := .wo } : Node).setReplicaMode .rw).writeAt
      ⟨0, [7]⟩).snapshot "a" |>.writeAt ⟨0, [8]⟩
    ∃ s, Transition.run step fresh ops = some s ∧ s.Shows n ∧
      (s.replica.vol.readAt Dev.ok [0] 0).Reads Dev.ok (fun b => n.image b) 0 1 := by
  intro ops n
  have hd : List.Forall₂ Does ops [Node.setReplicaMode .rw, Node.writeAt ⟨0, [7]⟩,
      Node.snapshot "a", Node.writeAt ⟨0, [8]⟩, id] :=
    .cons .setRW
      (.cons (.writeAt ..) (.cons (.snapshot ..) (.cons (.writeAt ..) (.cons .punch .nil))))
  exact Transition.exists_of_any (p := fun s => 1 ≤ s.replica.info.size) (by decide +kernel)
    fun s hs h => replica_refines hd fresh_shows hs Dev.ok [0] 0 h

end Running

end Jiva
