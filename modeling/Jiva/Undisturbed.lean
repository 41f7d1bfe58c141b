import Jiva.ReplicaSpec

/-!
# The operations of a replica, without a failure

When no call fails and the process does not stop, an operation is a function of the replica. Each
lemma here says what an operation that returns without an error has made of the replica :
`createDisk_ok` for a snapshot, `removeDiffDisk_ok`, `prepareRemoveDisk_ok`, and the setters of
`volume.meta`. Whatever the replica is like otherwise, nothing else changes.
-/

namespace Jiva

open Faults Function

namespace Replica

section

variable {r t : Replica}
variable {n o : DiskName} {created name : String} {userCreated : Bool}

/-! ## Files -/

theorem encodeToFile_calm (h : r.readOnly = false) (w : Enc) (file : Option DiskName)
    (f : Replica → Replica) : encodeToFile w file f .calm r = (.ok (), f r) := by
  unfold encodeToFile
  rw [calm_bind calm_get, if_neg (by simp [h]), calm_bind (calm_call ..), calm_bind (calm_query ..),
    calm_bind (calm_call ..), calm_call]
  rfl

theorem encodeDisk_calm (h : r.readOnly = false) (w : Enc) (n : DiskName) (d : Disk) :
    encodeDisk w n d .calm r = (.ok (), r.setMeta n (some d)) :=
  encodeToFile_calm h w _ _

theorem encodeInfo_calm (h : r.readOnly = false) (w : Enc) (info : Info) :
    encodeInfo w info .calm r = (.ok (), r.setVolumeMeta info) :=
  encodeToFile_calm h w _ _

theorem rmDisk_calm (w : Rm) (n : DiskName) : rmDisk w (some n) .calm r = (.ok (), r.clear n) := by
  unfold rmDisk
  dsimp only
  rw [calm_bind (calm_call ..), calm_bind (calm_call ..), calm_call]
  rfl

theorem linkDisk_ok (h : linkDisk (some o) (some n) .calm r = (.ok (), t)) :
    r.dir.img n = none ∧ r.dir.metaFile n = none ∧ ∃ i d, r.dir.img o = some i ∧
      r.dir.metaFile o = some d ∧ t = (r.setImg n (some i)).putMeta n d := by
  unfold linkDisk at h
  dsimp only at h
  rw [calm_bind (calm_query ..)] at h
  split_ifs at h with himg
  · cases h
  rw [calm_bind (calm_query ..)] at h
  split_ifs at h with hmeta
  · cases h
  rw [Bool.not_eq_true, Option.isSome_eq_false_iff, Option.isNone_iff_eq_none] at himg hmeta
  obtain ⟨⟨⟩, u, hu, h⟩ := calm_bind_ok.1 h
  obtain ⟨⟨⟩, v, hv, h⟩ := calm_bind_ok.1 h
  rw [calm_call] at h
  cases h
  unfold linkImg at hu
  rw [calm_bind calm_get, himg] at hu
  cases hi : r.dir.img o with
  | none =>
    rw [hi] at hu
    cases hu
  | some i =>
    rw [hi] at hu
    dsimp only at hu
    rw [calm_call] at hu
    cases hu
    unfold linkMeta at hv
    rw [calm_bind calm_get, setImg_metaFile, hmeta] at hv
    cases hd : r.dir.metaFile o with
    | none =>
      rw [hd] at hv
      cases hv
    | some d =>
      rw [hd] at hv
      dsimp only at hv
      rw [calm_call] at hv
      cases hv
      exact ⟨himg, hmeta, i, d, rfl, rfl, rfl⟩

/-! ## A new head -/

/-- The new head `n` is made, with the record `d`. -/
def withHead (n : DiskName) (d : Disk) (r : Replica) : Replica :=
  ((r.openTrunc n).truncate ((r.openTrunc n).ino n) r.info.size).setMeta n (some d)

/-- The record of a new head. -/
def headDisk (n : DiskName) (parent : Option DiskName) (created : String) (r : Replica) : Disk :=
  ⟨n, parent, false, false, created, r.getRevisionCounter⟩

theorem openTrunc_mem (n : DiskName) : r.openTrunc n = { r with dir := (r.openTrunc n).dir } := by
  unfold openTrunc createImg
  cases r.dir.img n <;> rfl

theorem openTrunc_diskMeta (n : DiskName) : (r.openTrunc n).dir.diskMeta = r.dir.diskMeta := by
  unfold openTrunc createImg
  cases r.dir.img n <;> rfl

theorem openTrunc_revisionCounter (n : DiskName) :
    (r.openTrunc n).dir.revisionCounter = r.dir.revisionCounter := by
  unfold openTrunc createImg
  cases r.dir.img n <;> rfl

theorem createNewHead_calm {o p : Option DiskName} (hn : nextFile o = .ok n)
    (hro : r.readOnly = false) (hfree : r.dir.img n = none) (created : String) :
    createNewHead o p created .calm r = (.ok ((r.openTrunc n).ino n, r.headDisk n p created),
      r.withHead n (r.headDisk n p created)) := by
  have hstale : rmStaleHead n .calm r = (.ok (), r) := by
    unfold rmStaleHead
    rw [calm_bind (calm_query ..), hfree]
    rfl
  have hopen : openHead n .calm r = (.ok ((r.openTrunc n).ino n),
      (r.openTrunc n).truncate ((r.openTrunc n).ino n) r.info.size) := by
    unfold openHead
    rw [calm_bind (calm_call ..), calm_bind calm_get, calm_bind (calm_call ..), calm_pure]
    rw [openTrunc_mem]
  unfold createNewHead
  rw [hn]
  simp only
  rw [calm_bind (calm_handle hstale _), calm_bind (calm_handle hopen _), calm_bind calm_get]
  have hrec : ((r.openTrunc n).truncate ((r.openTrunc n).ino n) r.info.size).getRevisionCounter =
      r.getRevisionCounter := openTrunc_revisionCounter n
  have hro' : ((r.openTrunc n).truncate ((r.openTrunc n).ino n) r.info.size).readOnly = false := by
    rw [openTrunc_mem]
    exact hro
  rw [hrec, calm_bind (calm_handle (encodeDisk_calm hro' _ _ _) _), calm_pure]
  rfl

/-! ## Snapshots -/

/-- The record of the old head, once it is that of the snapshot. -/
def snapDisk (name : String) (userCreated : Bool) (created : String) (d : Disk)
    (r : Replica) : Disk :=
  { d with
    name := .snap name
    userCreated := userCreated
    created := created
    revisionCounter := r.getRevisionCounter }

/-- The content of `volume.meta` after a snapshot. -/
def snapInfo (newDisk : Disk) (n : DiskName) (r : Replica) : Info :=
  { r.info with
    head := some newDisk.name
    dirty := true
    parent := some n
    revisionCounter := newDisk.revisionCounter }

/-- The head `o`, with inode `i` and record `d`, has become the snapshot `name` below the new head,
whose file is `f`. -/
def committed (o : DiskName) (name : String) (f : ℕ) (newDisk : Disk) (userCreated : Bool)
    (created : String) (i : ℕ) (d : Disk) (r : Replica) : Replica :=
  let snap := r.snapDisk name userCreated created d
  { r with
    dir := { r.dir with
      img := update r.dir.img (.snap name) (some i)
      diskMeta := update r.dir.diskMeta (.snap name) (some snap)
      volumeMeta := some (r.snapInfo newDisk (.snap name)) }
    volume := { r.volume with
      usedBlocks := r.volume.usedBlocks + 1
      files := r.volume.files ++ [f]
      snapIndx := if userCreated then (r.volume.files ++ [f]).length - 2 else r.volume.snapIndx
      userCreatedSnap := r.volume.userCreatedSnap ++ [userCreated] }
    info := r.snapInfo newDisk (.snap name)
    diskData := update (update (update r.diskData newDisk.name
      (some newDisk)) (.snap name) (some snap)) o none
    diskChildrenMap := (((r.addChildDisk (some (.snap name)) newDisk.name).rmChildDisk d.parent
      o).addChildDisk d.parent (.snap name)).diskChildrenMap
    activeDiskData := r.activeDiskData.dropLast ++ [.snap name] ++ [newDisk.name] }

theorem recordSnap_ok {h : DiskName}
    (hr : recordSnap o n h userCreated created .calm r = (.ok (), t)) (hro : r.readOnly = false) :
    ∃ d, r.diskData o = some d ∧
    t = updateChildDisk o (some n) { ((((r.addChildDisk (some n) h).renameDisk o n
        { d with name := n, userCreated := userCreated, created := created
                 revisionCounter := r.getRevisionCounter }).setMeta n (some
        { d with name := n, userCreated := userCreated, created := created
                 revisionCounter := r.getRevisionCounter }))) with
        volume := { r.volume with usedBlocks := r.volume.usedBlocks + 1 } } := by
  unfold recordSnap at hr
  rw [calm_bind (calm_modify _), calm_bind calm_get] at hr
  cases hd : r.diskData o with
  | none =>
    rw [show (r.addChildDisk (some n) h).diskData o = none from hd] at hr
    cases hr
  | some d =>
    rw [show (r.addChildDisk (some n) h).diskData o = some d from hd] at hr
    dsimp only at hr
    rw [calm_bind (calm_modify _), calm_bind (encodeDisk_calm (by exact hro) _ _ _),
      calm_bind (calm_modify _), calm_modify] at hr
    cases hr
    exact ⟨d, rfl, rfl⟩

@[simp] theorem withHead_readOnly (n : DiskName) (d : Disk) :
    (r.withHead n d).readOnly = r.readOnly := by
  unfold withHead
  rw [openTrunc_mem]
  rfl

theorem withHead_mem (n : DiskName) (d : Disk) :
    r.withHead n d = { r with dir := (r.withHead n d).dir } := by
  unfold withHead
  rw [openTrunc_mem]
  rfl

theorem withHead_diskMeta (n : DiskName) (d : Disk) :
    (r.withHead n d).dir.diskMeta = update r.dir.diskMeta n (some d) := by
  show update (r.openTrunc n).dir.diskMeta n (some d) = _
  rw [openTrunc_diskMeta]

theorem withHead_metaFile (n : DiskName) (d : Disk) :
    (r.withHead n d).dir.metaFile = update r.dir.metaFile n (some (some d)) := by
  unfold withHead
  rw [setMeta_metaFile]
  exact congrArg (update · n _) (openTrunc_eq r n).2.2.2.2

theorem withHead_img (n : DiskName) (d : Disk) :
    (r.withHead n d).dir.img = update r.dir.img n (some ((r.dir.img n).getD r.dir.nextIno)) :=
  openTrunc_img r n

theorem commitHead_ok {f : ℕ} {newDisk : Disk}
    (h : commitHead (some o) (some (.snap name)) f newDisk userCreated created .calm r =
      (.ok (), t))
    (hro : r.readOnly = false) (hwhole : r.dir.metaFile o ≠ some none) (ho : o ≠ .snap name)
    (hne : o ≠ newDisk.name) :
    r.dir.img (.snap name) = none ∧ r.dir.diskMeta (.snap name) = none ∧ ∃ i d,
    r.dir.img o = some i ∧
      r.diskData o = some d ∧ t = r.committed o name f newDisk userCreated created i d := by
  unfold commitHead at h
  obtain ⟨⟨⟩, v, hv, h⟩ := calm_bind_ok.1 h
  obtain ⟨himg, hmeta, i, _ | d₀, hi, hd₀, rfl⟩ := linkDisk_ok hv
  · exact absurd hd₀ hwhole
  rw [calm_bind (calm_modify _)] at h
  obtain ⟨⟨⟩, x, hx, h⟩ := calm_bind_ok.1 h
  unfold recordOldHead at hx
  obtain ⟨⟨⟩, y, hy, hx⟩ := calm_bind_ok.1 hx
  rw [calm_modify] at hx
  cases hx
  obtain ⟨d, hd, rfl⟩ := recordSnap_ok hy hro
  rw [calm_bind (calm_modify _), calm_bind calm_get, calm_bind (encodeInfo_calm (by exact hro) _ _),
    calm_modify] at h
  cases h
  have hd : update r.diskData newDisk.name (some newDisk) o = some d := hd
  rw [update_of_ne hne] at hd
  refine ⟨himg, (Dir.metaFile_eq_none.1 hmeta).1, i, d, hi, hd, ?_⟩
  simp only [committed, appendHead, setDisk, updateChildDisk, addChildDisk, rmChildDisk,
    renameDisk, putMeta, setMeta, setImg, setVolumeMeta, snapDisk, snapInfo, update_idem,
    update_of_ne ho, update_self, Option.bind_some, getRevisionCounter]
  rw [update_comm ho, update_idem]

/-- The replica after a snapshot. -/
def snapshotted (k : ℕ) (name : String) (userCreated : Bool) (created : String) (i : ℕ) (d : Disk)
    (r : Replica) : Replica :=
  let newDisk := r.headDisk (.head (k + 1)) (some (.snap name)) created
  ((r.withHead (.head (k + 1)) newDisk).committed (.head k) name
    ((r.openTrunc (.head (k + 1))).ino (.head (k + 1))) newDisk userCreated created i
    d).clear (.head k)

theorem createDisk_ok {k : ℕ} (hhead : r.info.head = some (.head k)) (hro : r.readOnly = false)
    (hfree : r.dir.img (.head (k + 1)) = none) (hwhole : r.dir.metaFile (.head k) ≠ some none)
    (h : createDisk name userCreated created .calm r = (.ok (), t)) :
    r.activeDiskData.length + 2 ≤ r.maxChainLen ∧ r.dir.img (.snap name) = none ∧
      r.dir.diskMeta (.snap name) = none ∧ ∃ i d, r.dir.img (.head k) = some i ∧
      r.diskData (.head k) = some d ∧ t = r.snapshotted k name userCreated created i d := by
  unfold createDisk at h
  rw [calm_bind (calm_call ..), calm_bind calm_get] at h
  simp only [id, hro, Bool.false_eq_true, if_false] at h
  split_ifs at h with hlen
  · cases h
  rw [hhead] at h
  have hnew :=
    createNewHead_calm (r := r) (p := some (.snap name)) (o := some (.head k)) rfl hro hfree created
  rw [Option.map_some, calm_bind (calm_handle hnew _)] at h
  obtain ⟨⟨⟩, u, hu, h⟩ := calm_bind_ok.1 h
  rw [calm_onError_ok] at hu
  rw [calm_attempt (rmDisk_calm ..)] at h
  cases h
  obtain ⟨himg, hmeta, i, d, hi, hd, rfl⟩ := commitHead_ok hu ((withHead_readOnly _ _).trans hro)
    (by rwa [withHead_metaFile, update_of_ne (by simp)]) nofun (by simp [headDisk])
  rw [withHead_img, update_of_ne (by simp)] at himg hi
  rw [withHead_diskMeta, update_of_ne (by simp)] at hmeta
  rw [withHead_mem] at hd
  exact ⟨by omega, himg, hmeta, i, d, hi, hd, rfl⟩

/-- The replica after the first head was made. -/
def started (created : String) (r : Replica) : Replica :=
  let newDisk := r.headDisk (.head 0) none created
  let w := (r.withHead (.head 0) newDisk).setDisk (.head 0) (some newDisk)
  let info := { r.info with head := some (.head 0), dirty := true, parent := none
                            revisionCounter := newDisk.revisionCounter }
  { (w.appendHead ((r.openTrunc (.head 0)).ino (.head 0)) (.head 0) false).setVolumeMeta info with
    info := info }

theorem createDisk_first (hhead : r.info.head = none) (hro : r.readOnly = false)
    (hfree : r.dir.img (.head 0) = none) (h : createDisk name false created .calm r = (.ok (), t)) :
    r.activeDiskData.length + 2 ≤ r.maxChainLen ∧ t = r.started created := by
  unfold createDisk at h
  rw [calm_bind (calm_call ..), calm_bind calm_get] at h
  simp only [id, hro, Bool.false_eq_true, if_false] at h
  split_ifs at h with hlen
  · cases h
  rw [hhead] at h
  have hnew := createNewHead_calm (r := r) (p := none) (o := none) rfl hro hfree created
  rw [Option.map_none, calm_bind (calm_handle hnew _)] at h
  obtain ⟨⟨⟩, u, hu, h⟩ := calm_bind_ok.1 h
  rw [calm_onError_ok] at hu
  rw [calm_attempt (by rfl : rmDisk .oldHead none .calm u = (.ok (), u))] at h
  cases h
  refine ⟨by omega, ?_⟩
  have hro' : (r.withHead (.head 0) (r.headDisk (.head 0) none created)).readOnly = false :=
    (withHead_readOnly _ _).trans hro
  unfold commitHead at hu
  rw [calm_bind (by rfl : linkDisk none none .calm _ = (.ok (), _)), calm_bind (calm_modify _),
    calm_bind (by rfl : recordOldHead _ _ _ none none .calm _ = (.ok (), _)),
    calm_bind (calm_modify _), calm_bind calm_get, calm_bind (encodeInfo_calm (by exact hro') _ _),
    calm_modify] at hu
  cases hu
  have hinfo : (r.withHead (.head 0) (r.headDisk (.head 0) none created)).info = r.info := by
    rw [withHead_mem]
  simp only [started, appendHead, setDisk, setVolumeMeta, hinfo]
  rfl

/-! ## Removing a disk -/

/-- The child `c` of a disk gets the parent of the disk. -/
def relinked (n child : DiskName) (d c : Disk) (r : Replica) : Replica :=
  ((r.updateChildDisk n (some child)).setDisk child
    (some { c with parent := d.parent })).setMeta c.name (some { c with parent := d.parent })

/-- The parent `e` of a disk gets the counter of the disk. -/
def counted (p : DiskName) (d e : Disk) (r : Replica) : Replica :=
  (r.setDisk p (some { e with revisionCounter := d.revisionCounter })).setMeta e.name
    (some { e with revisionCounter := d.revisionCounter })

/-- The disk `n` is taken out of the live chain, if it is there. -/
def dropped (n : DiskName) (r : Replica) : Replica :=
  if r.activeDiskData.idxOf n < r.activeDiskData.length then
    (r.setDisk n none).removeActive (r.activeDiskData.idxOf n)
  else r.setDisk n none

theorem updateParentDisk_ok {child : DiskName}
    (h : updateParentDisk child n .calm r = (.ok (), t)) (hro : r.readOnly = false) :
    ∃ c d, r.diskData child = some c ∧ r.diskData n = some d ∧
      t = (r.setDisk child (some { c with parent := d.parent })).setMeta c.name
        (some { c with parent := d.parent }) := by
  unfold updateParentDisk at h
  rw [calm_bind calm_get] at h
  cases hc : r.diskData child with
  | none =>
    rw [hc] at h
    cases h
  | some c =>
    cases hd : r.diskData n with
    | none =>
      rw [hc, hd] at h
      cases h
    | some d =>
      rw [hc, hd] at h
      dsimp only at h
      rw [calm_bind (calm_modify _), encodeDisk_calm (by exact hro)] at h
      cases h
      exact ⟨c, d, rfl, rfl, rfl⟩

theorem updateParentRevisionCounter_ok (h : updateParentRevisionCounter n .calm r = (.ok (), t))
    (hro : r.readOnly = false) : ∃ d, r.diskData n = some d ∧
    (d.parent = none ∧ t = r ∨ ∃ p e, d.parent = some p ∧ r.diskData p = some e ∧
      t = r.counted p d e) := by
  unfold updateParentRevisionCounter at h
  rw [calm_bind calm_get] at h
  cases hd : r.diskData n with
  | none =>
    rw [hd] at h
    cases h
  | some d =>
    rw [hd] at h
    dsimp only at h
    cases hp : d.parent with
    | none =>
      rw [hp] at h
      cases h
      exact ⟨d, rfl, .inl ⟨hp, rfl⟩⟩
    | some p =>
      rw [hp] at h
      dsimp only at h
      cases he : r.diskData p with
      | none =>
        rw [he] at h
        cases h
      | some e =>
        rw [he] at h
        dsimp only at h
        rw [calm_bind (calm_modify _), encodeDisk_calm (by exact hro)] at h
        cases h
        exact ⟨d, rfl, .inr ⟨p, e, hp, he, rfl⟩⟩

/-- What `removeDiskNode` makes of a disk with one child. -/
inductive Removed (n : DiskName) (r t : Replica) (d : Disk) (child : DiskName) (c : Disk) : Prop
  | base (hp : d.parent = none) (ht : t = (r.relinked n child d c).dropped n)
  | inner (p : DiskName) (e : Disk) (hp : d.parent = some p)
      (he : (r.relinked n child d c).diskData p = some e)
      (ht : t = ((r.relinked n child d c).counted p d e).dropped n)

theorem removeDiskNode_ok (h : removeDiskNode n .calm r = (.ok (), t))
    (hro : r.readOnly = false) (hself : n ∉ r.diskChildrenMap (some n)) :
    r.diskData n = none ∧ t = r ∨
    (∃ d, r.diskData n = some d ∧ r.diskChildrenMap (some n) = [] ∧
      t = (r.updateChildDisk n none).setDisk n none) ∨
    ∃ d child c, r.diskData n = some d ∧ r.diskChildrenMap (some n) = [child] ∧
      r.diskData child = some c ∧ Removed n r t d child c := by
  unfold removeDiskNode at h
  rw [calm_bind calm_get] at h
  cases hd : r.diskData n with
  | none =>
    rw [hd] at h
    cases h
    exact .inl ⟨rfl, rfl⟩
  | some d =>
    rw [hd] at h
    dsimp only at h
    cases hm : r.diskChildrenMap (some n) with
    | nil =>
      rw [hm] at h
      dsimp only at h
      rw [calm_bind (calm_modify _), calm_modify] at h
      cases h
      exact .inr (.inl ⟨d, rfl, rfl, rfl⟩)
    | cons child rest =>
      cases rest with
      | cons _ _ =>
        rw [hm] at h
        cases h
      | nil =>
        rw [hm] at h hself
        dsimp only at h
        have hne : child ≠ n := fun heq => hself (by simp [heq])
        rw [calm_bind (calm_modify _)] at h
        obtain ⟨⟨⟩, u, hu, h⟩ := calm_bind_ok.1 h
        obtain ⟨c, d', hc, hd', rfl⟩ := updateParentDisk_ok (calm_handle_ok (by simp) hu) hro
        obtain rfl : d = d' := Option.some.inj (hd.symm.trans hd')
        obtain ⟨⟨⟩, v, hv, h⟩ := calm_bind_ok.1 h
        obtain ⟨d', hd'', hcount⟩ :=
          updateParentRevisionCounter_ok (calm_handle_ok (by simp) hv) hro
        have hd'' : update r.diskData child _ n = some d' := hd''
        rw [update_of_ne hne.symm] at hd''
        obtain rfl : d = d' := Option.some.inj (hd.symm.trans hd'')
        rw [calm_bind (calm_modify _)] at h
        refine .inr (.inr ⟨d, child, c, rfl, rfl, hc, ?_⟩)
        have hdrop : ∀ w : Replica, w.activeDiskData = r.activeDiskData →
            (if r.activeDiskData.idxOf n < r.activeDiskData.length then
              Act.modify (removeActive (r.activeDiskData.idxOf n)) else pure () :
                ReplicaAct String Unit)
              .calm (w.setDisk n none) = (.ok (), t) → t = w.dropped n := by
          intro w hw h
          unfold dropped
          rw [hw]
          split_ifs at h ⊢ with hi
          · cases h
            rfl
          · cases h
            rfl
        rcases hcount with ⟨hp, rfl⟩ | ⟨p, e, hp, he, rfl⟩
        · exact .base hp (hdrop _ rfl h)
        · exact .inner p e hp he (hdrop _ rfl h)

theorem removeDiffDisk_ok (h : removeDiffDisk n .calm r = (.ok (), t)) :
    r.mode = .rw ∧ r.info.head ≠ some n ∧ r.info.parent ≠ some n ∧ ∃ u,
    removeDiskNode n .calm r = (.ok (), u) ∧ t = u.clear n := by
  unfold removeDiffDisk at h
  rw [calm_bind calm_get] at h
  split_ifs at h with h1 h2 h3
  · cases h
  · cases h
  · cases h
  obtain ⟨⟨⟩, u, hu, h⟩ := calm_bind_ok.1 h
  rw [rmDisk_calm] at h
  cases h
  exact ⟨not_not.1 h1, h2, h3, u, hu, rfl⟩

/-- The disk `n` is marked as removed. -/
def marked (n : DiskName) (d : Disk) (r : Replica) : Replica :=
  (r.setDisk n (some { d with removed := true })).setMeta n (some { d with removed := true })

theorem markDiskAsRemoved_ok (h : markDiskAsRemoved n .calm r = (.ok (), t))
    (hro : r.readOnly = false) : ∃ d, r.diskData n = some d ∧ t = r.marked n d := by
  unfold markDiskAsRemoved at h
  rw [calm_bind calm_get] at h
  cases hd : r.diskData n with
  | none =>
    rw [hd] at h
    cases h
  | some d =>
    rw [hd] at h
    dsimp only at h
    rw [calm_bind (calm_query ..)] at h
    split_ifs at h
    · rw [calm_bind (calm_query ..)] at h
      split_ifs at h
      · rw [calm_bind (calm_modify _), encodeDisk_calm (by exact hro)] at h
        cases h
        exact ⟨d, rfl, rfl⟩
      · cases h
    · cases h

theorem prepareRemoveFound_ok {d : Disk} {acts : List PrepareRemoveAction}
    (hd : r.diskData n = some d) (h : prepareRemoveFound n d .calm r = (.ok acts, t))
    (hro : r.readOnly = false) : r.info.head ≠ some n ∧ r.info.parent ≠ some n ∧ ∃ p,
    d.parent = some p ∧ (t.diskData p).isSome ∧ acts = [.coalesce n (some p), .remove n] ∧
    t = r.marked n d := by
  unfold prepareRemoveFound at h
  rw [calm_bind calm_get] at h
  split_ifs at h with hhead hparent
  · cases h
  · cases h
  refine ⟨hhead, hparent, ?_⟩
  cases hp : d.parent with
  | none =>
    rw [hp] at h
    cases h
  | some p =>
    rw [hp] at h
    dsimp only at h
    obtain ⟨⟨⟩, u, hu, h⟩ := calm_bind_ok.1 h
    obtain ⟨d', hd', rfl⟩ := markDiskAsRemoved_ok (calm_handle_ok (by simp) hu) hro
    obtain rfl : d = d' := Option.some.inj (hd.symm.trans hd')
    rw [calm_bind calm_get] at h
    cases he : (r.marked n d).diskData p with
    | none =>
      rw [he] at h
      cases h
    | some e =>
      rw [he] at h
      have hn : (r.marked n d).diskData n = some { d with removed := true } :=
        update_self ..
      simp only [processPrepareRemoveDisks, hn, hp] at h
      cases h
      exact ⟨p, rfl, by rw [he]; rfl, rfl, rfl⟩

/-- The disk that `PrepareRemoveDisk` marks is named by its own name or by that of the snapshot. -/
theorem prepareRemoveDisk_ok {acts : List PrepareRemoveAction}
    (h : prepareRemoveDisk n .calm r = (.ok acts, t)) (hro : r.readOnly = false) :
    acts = [] ∧ t = r ∨
    ∃ m d p, (m = n ∨ m = .snap n.text) ∧ r.diskData m = some d ∧ r.info.head ≠ some m ∧
      r.info.parent ≠ some m ∧ d.parent = some p ∧ (t.diskData p).isSome ∧
      acts = [.coalesce m (some p), .remove m] ∧ t = r.marked m d := by
  unfold prepareRemoveDisk at h
  rw [calm_bind calm_get] at h
  split_ifs at h
  · cases h
  cases hd : r.diskData n with
  | some d =>
    rw [hd] at h
    obtain ⟨h1, h2, p, h3⟩ := prepareRemoveFound_ok hd h hro
    exact .inr ⟨n, d, p, .inl rfl, hd, h1, h2, h3⟩
  | none =>
    rw [hd] at h
    cases hd' : r.diskData (.snap n.text) with
    | some d =>
      rw [hd'] at h
      obtain ⟨h1, h2, p, h3⟩ := prepareRemoveFound_ok hd' h hro
      exact .inr ⟨.snap n.text, d, p, .inr rfl, hd', h1, h2, h3⟩
    | none =>
      rw [hd'] at h
      cases h
      exact .inl ⟨rfl, rfl⟩

/-! ## `volume.meta` -/

/-- The replica with `info`, in memory and in `volume.meta`. -/
def withInfo (info : Info) (r : Replica) : Replica :=
  { r.setVolumeMeta info with info := info }

theorem setCheckpoint_calm (h : r.readOnly = false) (c : Option DiskName) :
    setCheckpoint c .calm r = (.ok (), r.withInfo { r.info with checkpoint := c }) := by
  unfold setCheckpoint
  rw [calm_bind (calm_modify _), calm_bind calm_get, encodeInfo_calm (by exact h)]
  rfl

theorem setCloneStatus_calm (h : r.readOnly = false) (status : String) :
    setCloneStatus status .calm r = (.ok (), r.withInfo { r.info with cloneStatus := status }) := by
  unfold setCloneStatus
  rw [calm_bind (calm_modify _), calm_bind calm_get, encodeInfo_calm (by exact h)]
  rfl

theorem setRebuilding_calm (h : r.readOnly = false) (rebuilding : Bool) :
    setRebuilding rebuilding .calm r = (.ok (), { r.setVolumeMeta { r.info with
      dirty := true, rebuilding := rebuilding } with info :=
        { r.info with rebuilding := rebuilding } }) := by
  unfold setRebuilding writeVolumeMetaData
  rw [calm_bind (by rw [calm_bind calm_get, encodeInfo_calm h]), calm_modify]
  rfl

theorem close_calm (h : r.readOnly = false) :
    close .calm r = (.ok (), { r.setVolumeMeta { r.info with dirty := false } with
      mode := .closed }) := by
  unfold close writeVolumeMetaData
  rw [calm_bind (calm_modify _), calm_bind calm_get, calm_bind calm_get,
    encodeInfo_calm (by exact h)]
  rfl

/-- The inodes of the disks `ns` are truncated. -/
def truncated (size : ℕ) (ns : List DiskName) (r : Replica) : Replica :=
  { r with dir := { r.dir with
      store := fun j =>
        if j ∈ ns.filterMap r.dir.img then (r.dir.store j).truncate size else r.dir.store j } }

theorem truncated_nil (size : ℕ) (r : Replica) : r.truncated size [] = r := by
  unfold truncated
  simp

theorem truncated_cons {size i : ℕ} {ns : List DiskName} (hi : r.dir.img n = some i) :
    (truncate i size r).truncated size ns = r.truncated size (n :: ns) := by
  have hstore : (fun j => if j ∈ ns.filterMap r.dir.img then
        (update r.dir.store i ((r.dir.store i).truncate size) j).truncate size
      else update r.dir.store i ((r.dir.store i).truncate size) j) =
      fun j => if j ∈ (n :: ns).filterMap r.dir.img then (r.dir.store j).truncate size
        else r.dir.store j := by
    funext j
    rw [List.filterMap_cons_some hi]
    rcases eq_or_ne j i with rfl | hne
    · rw [update_self, if_pos (List.mem_cons_self ..), SparseFile.truncate_truncate, ite_self]
    · rw [update_of_ne hne]
      simp only [List.mem_cons, hne, false_or]
  unfold truncated truncate
  exact congrArg (fun st => ({ r with dir := { r.dir with store := st } } : Replica)) hstore

theorem truncateChain_ok {size : ℕ} : ∀ {ns : List DiskName} {r : Replica},
    truncateChain size ns .calm r = (.ok (), t) →
    t = r.truncated size ns ∧ ∀ n ∈ ns, (r.dir.img n).isSome
  | [], r, h => by
    cases h
    exact ⟨(truncated_nil size _).symm, nofun⟩
  | n :: ns, r, h => by
    unfold truncateChain at h
    rw [calm_bind calm_get] at h
    cases hi : r.dir.img n with
    | none =>
      rw [hi] at h
      cases h
    | some i =>
      rw [hi] at h
      dsimp only at h
      rw [calm_bind (calm_call ..)] at h
      obtain ⟨rfl, hsome⟩ := truncateChain_ok h
      exact ⟨truncated_cons hi, List.forall_mem_cons.2 ⟨by rw [hi]; rfl, hsome⟩⟩

/-- The replica after a `Resize` of the disks `ns`. -/
def resized (size : ℕ) (ns : List DiskName) (r : Replica) : Replica :=
  (growLocation size (r.truncated size ns)).setVolumeMeta { r.info with size := size }

theorem resizeTo_ok {ns : List DiskName} {n : ℤ} (h : resizeTo ns n .calm r = (.ok (), t))
    (hro : r.readOnly = false) : (r.info.size : ℤ) ≤ n ∧ t = r.resized n.toNat ns := by
  unfold resizeTo at h
  rw [calm_bind calm_get] at h
  split_ifs at h with hlt
  · cases h
  obtain ⟨⟨⟩, u, hu, h⟩ := calm_bind_ok.1 h
  obtain ⟨rfl, -⟩ := truncateChain_ok hu
  rw [calm_bind (calm_modify _), calm_bind calm_get, encodeInfo_calm (by exact hro)] at h
  cases h
  exact ⟨by omega, rfl⟩

theorem resize_ok {obj : NewSize} {fuel : ℕ} (h : resize obj fuel .calm r = (.ok (), t))
    (hro : r.readOnly = false) : ∃ ns, r.liveChain fuel = .ok ns ∧ (r.info.size : ℤ) ≤ obj.toBytes ∧
      t = r.resized obj.toBytes.toNat ns := by
  unfold resize at h
  rw [calm_bind calm_get] at h
  cases hc : r.liveChain fuel with
  | error e =>
    rw [hc] at h
    cases h
  | ok ns =>
    rw [hc] at h
    exact ⟨ns, rfl, resizeTo_ok h hro⟩

end

end Replica

end Jiva
