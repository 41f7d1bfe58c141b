import Jiva.Chain
import Jiva.Links
import Jiva.ScanInv
import Jiva.Undisturbed

/-!
# Reading the metadata back

`construct` without a failure. It follows the parents in the metadata files from the head that
`volume.meta` names, and enters each disk it comes to (`readChain_calm`). If `construct` succeeds,
this walk has come to an end (`constructWith_follows`), and then the replica is `opened` on the
chain : its records are those of the files, apart from the counters that were never set.
-/

namespace Jiva

open Faults Links Function

/-- What `readDiskData` makes of a record, where `c` is the present counter. -/
def Disk.reread (n : DiskName) (c : ℤ) (d : Disk) : Disk :=
  { d with name := n, revisionCounter := if d.revisionCounter ≤ 1 then c else d.revisionCounter }

/-- The metadata files carry the names of their disks. -/
def Dir.Named (dir : Dir) : Prop :=
  ∀ n d, dir.diskMeta n = some d → d.name = n

namespace Replica

variable {r t : Replica}
variable {n : DiskName} {fuel : ℕ} {r₁ : Replica} {d : Disk}

theorem chain_eq {diskData : DiskName → Option Disk} :
    ∀ {ns : List DiskName} {n : DiskName} {fuel : ℕ},
    Follows (fun m => (diskData m).map Disk.parent) (some n) (n :: ns) → ns.length < fuel →
    chain diskData fuel n = .ok (n :: ns)
  | _, _, 0, _, hf => absurd hf (Nat.not_lt_zero _)
  | [], n, fuel + 1, ⟨_, q, hq, hr⟩, _ => by
    obtain ⟨d, hd, rfl⟩ := Option.map_eq_some_iff.1 hq
    have hp : d.parent = none := hr
    simp [chain, hd, hp]
  | p :: ns, n, fuel + 1, ⟨_, q, hq, hr⟩, hf => by
    obtain ⟨d, hd, rfl⟩ := Option.map_eq_some_iff.1 hq
    have hp : d.parent = some p := hr.1
    have hfuel : ns.length < fuel := by simpa using hf
    have hrest := chain_eq (hp ▸ hr) hfuel
    simp [chain, hd, hp, hrest]

/-- The disk `n`, with the record `d` in its metadata file, is entered. -/
def entered (n : DiskName) (d : Disk) (r : Replica) : Replica :=
  let data := d.reread n r.getRevisionCounter
  let r := (r.setDisk n (some data)).setMeta n (some data)
  match d.parent with
  | none => r
  | some p => r.addChildDisk (some p) n

theorem readDiskData_calm (hro : r.readOnly = false) (hd : r.dir.diskMeta n = some d)
    (hname : d.name = n) : readDiskData n d .calm r = (.ok (), r.entered n d) := by
  have hmid : (if d.revisionCounter ≤ 1 then encodeDisk (.reread n) n
      (d.reread n r.getRevisionCounter)
      else pure () : ReplicaAct String Unit) .calm
      (r.setDisk n (some (d.reread n r.getRevisionCounter))) =
        (.ok (), (r.setDisk n (some (d.reread n r.getRevisionCounter))).setMeta n
        (some (d.reread n r.getRevisionCounter))) := by
    split_ifs with hs
    · exact encodeDisk_calm (by exact hro) _ _ _
    · -- the file has the record already
      have hsame : d.reread n r.getRevisionCounter = d := by
        unfold Disk.reread
        rw [if_neg hs, ← hname]
      rw [hsame, calm_pure]
      unfold setMeta setDisk
      simp only
      rw [← hd, update_eq_self]
  unfold readDiskData entered
  rw [calm_bind calm_get, calm_bind (calm_modify _)]
  refine (calm_bind hmid _).trans ?_
  cases d.parent <;> rfl

theorem entered_diskMeta (n : DiskName) (d : Disk) : (r.entered n d).dir.diskMeta =
    update r.dir.diskMeta n (some (d.reread n r.getRevisionCounter)) := by
  unfold entered
  cases d.parent <;> rfl

theorem entered_next (hd : r.dir.diskMeta n = some d) (m : DiskName) :
    (r.entered n d).dir.next m = r.dir.next m := by
  unfold Dir.next
  rw [entered_diskMeta]
  rcases eq_or_ne m n with rfl | hne
  · rw [update_self, hd]
    rfl
  · rw [update_of_ne hne]

theorem entered_rest (n : DiskName) (d : Disk) : r.entered n d = { r with
    dir := { r.dir with diskMeta := (r.entered n d).dir.diskMeta }
    diskData := (r.entered n d).diskData
    diskChildrenMap := (r.entered n d).diskChildrenMap } := by
  unfold entered
  cases d.parent <;> rfl

theorem entered_named (hn : r.dir.Named) : (r.entered n d).dir.Named := by
  intro m e he
  rw [entered_diskMeta] at he
  rcases eq_or_ne m n with rfl | hne
  · rw [update_self] at he
    cases he
    rfl
  · rw [update_of_ne hne] at he
    exact hn m e he

/-- Enter the disk `n`, if there is a metadata file for it. -/
def enter (r : Replica) (n : DiskName) : Replica :=
  match r.dir.diskMeta n with
  | none => r
  | some d => r.entered n d

theorem readChain_calm : ∀ {ns : List DiskName} {n : DiskName} {fuel : ℕ} {r : Replica},
    r.readOnly = false → r.dir.Named → Follows r.dir.next (some n) (n :: ns) → ns.length < fuel →
    readChain fuel n .calm r = (.ok (), (n :: ns).foldl enter r)
  | _, _, 0, _, _, _, _, hf => absurd hf (Nat.not_lt_zero _)
  | ns, n, fuel + 1, r, hro, hn, ⟨_, q, hq, hr⟩, hf => by
    obtain ⟨d, hd, rfl⟩ := Option.map_eq_some_iff.1 hq
    have henter : r.enter n = r.entered n d := by
      unfold enter
      rw [hd]
    unfold readChain
    rw [calm_bind calm_get, hd]
    dsimp only
    rw [calm_bind (readDiskData_calm hro hd (hn n d hd)), List.foldl_cons, henter]
    cases ns with
    | nil =>
      have hp : d.parent = none := hr
      rw [hp]
      rfl
    | cons p ns =>
      have hp : d.parent = some p := hr.1
      rw [hp] at hr ⊢
      have hro' : (r.entered n d).readOnly = false := by
        rw [entered_rest]
        exact hro
      exact readChain_calm hro' (entered_named hn) (hr.congr fun m _ => entered_next hd m)
        (by simpa using hf)

/-- The disks `ns` have been entered, where the metadata of the directory is `dir`. -/
structure Entered (r₁ : Replica) (ns : List DiskName) (r : Replica) : Prop where
  rest : r = { r₁ with
    dir := { r₁.dir with diskMeta := r.dir.diskMeta }
    diskData := r.diskData
    diskChildrenMap := r.diskChildrenMap }
  metas : ∀ n, r.dir.diskMeta n = if n ∈ ns then
    (r₁.dir.diskMeta n).map (Disk.reread n r₁.getRevisionCounter) else r₁.dir.diskMeta n
  data : ∀ n, r.diskData n = if n ∈ ns then
    (r₁.dir.diskMeta n).map (Disk.reread n r₁.getRevisionCounter) else r₁.diskData n
  children : ∀ p n, n ∈ r.diskChildrenMap (some p) ↔
    n ∈ r₁.diskChildrenMap (some p) ∨ n ∈ ns ∧ r₁.dir.next n = some (some p)
  nodup : (∀ p, (r₁.diskChildrenMap p).Nodup) → ∀ p, (r.diskChildrenMap p).Nodup

theorem Entered.refl (r : Replica) : Entered r [] r :=
  ⟨rfl, fun _ => by simp, fun _ => by simp, fun _ _ => by simp, fun h => h⟩

theorem mem_addChildDisk_iff {q p : Option DiskName} {c : DiskName} :
    n ∈ (r.addChildDisk q c).diskChildrenMap p ↔ p = q ∧ n = c ∨ n ∈ r.diskChildrenMap p := by
  show n ∈ update r.diskChildrenMap q ((r.diskChildrenMap q).insert c) p ↔ _
  rcases eq_or_ne p q with rfl | hne
  · simp
  · simp [hne]

theorem nodup_addChildDisk {q : Option DiskName} {c : DiskName}
    (h : ∀ p, (r.diskChildrenMap p).Nodup) (p : Option DiskName) :
    ((r.addChildDisk q c).diskChildrenMap p).Nodup := by
  show (update r.diskChildrenMap q ((r.diskChildrenMap q).insert c) p).Nodup
  rcases eq_or_ne p q with rfl | hne
  · rw [update_self]
    exact (h p).insert
  · rw [update_of_ne hne]
    exact h p

theorem entered_children (p m : DiskName) : m ∈ (r.entered n d).diskChildrenMap (some p) ↔
    m ∈ r.diskChildrenMap (some p) ∨ m = n ∧ d.parent = some p := by
  unfold entered
  cases hp : d.parent with
  | none =>
    refine ⟨.inl, ?_⟩
    rintro (hm | ⟨-, hq⟩)
    · exact hm
    · cases hq
  | some q =>
    dsimp only
    rw [mem_addChildDisk_iff]
    constructor
    · rintro (⟨hq, rfl⟩ | hm)
      · exact .inr ⟨rfl, hq.symm⟩
      · exact .inl hm
    · rintro (hm | ⟨rfl, hq⟩)
      · exact .inr hm
      · exact .inl ⟨hq.symm, rfl⟩

theorem Entered.enter {ns : List DiskName} (h : Entered r₁ ns r)
    (hn : n ∉ ns) (hd : r₁.dir.diskMeta n = some d) : Entered r₁ (ns ++ [n]) (r.enter n) := by
  have hmeta : r.dir.diskMeta n = some d := by rw [h.metas, if_neg hn, hd]
  have hrev : r.getRevisionCounter = r₁.getRevisionCounter := by rw [h.rest]; rfl
  have henter : r.enter n = r.entered n d := by
    unfold Replica.enter
    rw [hmeta]
  have hdata : (r.entered n d).diskData =
      update r.diskData n (some (d.reread n r₁.getRevisionCounter)) := by
    rw [← hrev]
    unfold entered
    cases d.parent <;> rfl
  rw [henter]
  refine ⟨?_, fun m => ?_, fun m => ?_, fun p m => ?_, fun hnd p => ?_⟩
  · rw [entered_rest, h.rest]
  · rw [entered_diskMeta, hrev]
    rcases eq_or_ne m n with rfl | hne
    · rw [update_self, if_pos (by simp), hd]
      rfl
    · rw [update_of_ne hne, h.metas]
      exact if_congr (by simp [hne]) rfl rfl
  · rw [hdata]
    rcases eq_or_ne m n with rfl | hne
    · rw [update_self, if_pos (by simp), hd]
      rfl
    · rw [update_of_ne hne, h.data]
      exact if_congr (by simp [hne]) rfl rfl
  · have hnext : r₁.dir.next n = some d.parent := by
      unfold Dir.next
      rw [hd]
      rfl
    rw [entered_children, h.children, List.mem_append, List.mem_singleton, or_assoc]
    refine or_congr_right ?_
    rw [or_and_right]
    refine or_congr_right (and_congr_right ?_)
    rintro rfl
    rw [hnext, Option.some.injEq]
  · unfold entered
    cases d.parent with
    | none => exact h.nodup hnd p
    | some q => exact nodup_addChildDisk (h.nodup hnd) p

/-- The disks of a chain are entered one by one. -/
theorem Entered.chain : ∀ {ns as : List DiskName} {r : Replica}, Entered r₁ as r →
    (as ++ ns).Nodup → (∀ n ∈ ns, (r₁.dir.next n).isSome) →
    Entered r₁ (as ++ ns) (ns.foldl Replica.enter r)
  | [], as, r, h, _, _ => by
    rw [List.append_nil]
    exact h
  | n :: ns, as, r, h, hnd, hs => by
    have hnext := hs n (by simp)
    unfold Dir.next at hnext
    rw [Option.isSome_map] at hnext
    obtain ⟨d, hd⟩ := Option.isSome_iff_exists.1 hnext
    have hn : n ∉ as := fun hm => by
      rw [List.nodup_append] at hnd
      exact hnd.2.2 n hm n (by simp) rfl
    have hcons : as ++ n :: ns = as ++ [n] ++ ns := by simp
    rw [hcons] at hnd ⊢
    exact Entered.chain (h.enter hn hd) hnd fun m hm => hs m (by simp [hm])

/-! ## The open replica -/

theorem openImgs_calm : ∀ {ns : List DiskName}, (∀ n ∈ ns, (r.dir.img n).isSome) →
    openImgs ns .calm r = (.ok (), r)
  | [], _ => rfl
  | n :: ns, h => by
    obtain ⟨i, hi⟩ := Option.isSome_iff_exists.1 (h n (by simp))
    have hcreate : r.createImg n = r := by
      unfold createImg
      rw [hi]
    unfold openImgs
    rw [calm_bind (calm_call ..), hcreate]
    exact openImgs_calm fun m hm => h m (by simp [hm])

theorem openLiveChain_calm {h : DiskName} {ss : List DiskName} (hh : r.info.head = some h)
    (hf : Follows (fun m => (r.diskData m).map Disk.parent) (some h) (h :: ss))
    (hfuel : ss.length < fuel) (hlen : ss.length + 1 ≤ r.maxChainLen)
    (himg : ∀ n ∈ h :: ss, (r.dir.img n).isSome) :
    openLiveChain fuel .calm r = (.ok (), r.assemble (h :: ss).reverse) := by
  unfold openLiveChain
  rw [calm_bind calm_get, hh]
  dsimp only
  rw [chain_eq hf hfuel]
  dsimp only
  rw [if_neg (by simp only [List.length_cons]; omega),
    calm_bind (openImgs_calm fun n hn => himg n (List.mem_reverse.1 hn)), calm_modify]

/-- The names of the backing file, of which there is one or none. -/
def backingNames (backing : Option BackingFile) : List DiskName :=
  backing.toList.map fun b => .file b.path

/-- The user-created flag in a metadata file. -/
def flagOf (dir : Dir) (n : DiskName) : Bool :=
  ((dir.diskMeta n).map Disk.userCreated).getD false

/-- The replica `t` is open on the chain `h :: ss` of the directory of `r`, whose `volume.meta`
holds `vm`. -/
structure Opened (r : Replica) (backing : Option BackingFile) (vm : Info) (h : DiskName)
    (ss : List DiskName) (t : Replica) : Prop where
  readOnly : t.readOnly = false
  mode : t.mode = .init
  maxChainLen : t.maxChainLen = r.maxChainLen
  info : t.info = { vm with parent := ss.head? }
  dir : t.dir = { r.dir with
    diskMeta := t.dir.diskMeta
    volumeMeta := some { vm with parent := ss.head?, dirty := true } }
  metas : ∀ n, t.dir.diskMeta n = if n ∈ h :: ss then
    (r.dir.diskMeta n).map (Disk.reread n r.getRevisionCounter) else r.dir.diskMeta n
  data : ∀ n, n ∉ backingNames backing → t.diskData n = if n ∈ h :: ss then
    (r.dir.diskMeta n).map (Disk.reread n r.getRevisionCounter) else none
  backed : ∀ n ∈ backingNames backing, t.diskData n = some ⟨n, none, false, false, "", 0⟩
  children : ∀ p n, n ∈ t.diskChildrenMap (some p) ↔ n ∈ h :: ss ∧ r.dir.next n = some (some p)
  nodup : ∀ p, (t.diskChildrenMap p).Nodup
  active : t.activeDiskData = backingNames backing ++ (h :: ss).reverse
  files : t.volume.files = 0 :: (backing.toList.map BackingFile.disk ++ (h :: ss).reverse.map r.ino)
  flags : t.volume.userCreatedSnap = false :: ((backingNames backing).map (fun _ => false) ++
    (h :: ss).reverse.map (flagOf r.dir))
  snapIndx : t.volume.snapIndx = DiffDisk.lastUserCreated (false :: (h :: ss).reverse.map
    (flagOf r.dir)) 0
  table : vm.size / defaultSectorSize ≤ t.volume.locationLen
  location : ∀ s, t.volume.location s ≤ t.volume.target

section Construct

variable {vm : Info} {h : DiskName} {ss : List DiskName} {backing : Option BackingFile}
variable {sectorSize size : ℕ}

theorem readMetadata_calm (hro : r.readOnly = false) (hv : r.dir.volumeMeta = some vm)
    (hh : vm.head = some h) (hn : r.dir.Named) (hf : Follows r.dir.next (some h) (h :: ss))
    (hfuel : ss.length < fuel) :
    readMetadata fuel .calm r = (.ok true, (h :: ss).foldl enter { r with info := vm }) := by
  have hread := readChain_calm (r := { r with info := vm }) hro hn hf hfuel
  unfold readMetadata
  rw [calm_bind calm_get, hv]
  dsimp only
  rw [calm_bind (calm_modify _), hh]
  dsimp only
  rw [calm_bind hread, calm_pure]
  rw [Dir.isSome_of_follows hf (List.mem_cons_self ..)]

/-- The insertion of the backing file, the scan and the last write of `volume.meta`. -/
def finished (backing : Option BackingFile) (preload : Bool) (r : Replica) : Replica :=
  let r := insertBackingFile backing { r with info := { r.info with
    parent := (r.info.head.bind r.diskData).bind Disk.parent } }
  let r := if preload then r.preloadLunMap backing else r
  r.setVolumeMeta { r.info with dirty := true }

theorem constructWith_eq {preload : Bool} {created : String} {u w : Replica}
    {found : Bool} (hsize : size % sectorSize = 0)
    (hread : readMetadata fuel .calm (r.blank size sectorSize) = (.ok found, u))
    (hopen : (if found then openLiveChain fuel else if size = 0 then Act.throw "file does not exist"
      else createDisk "000" false created : ReplicaAct String Unit) .calm (u.allocLocation size) =
        (.ok (), w))
    (hro : w.readOnly = false) :
    constructWith backing preload size sectorSize fuel created .calm r =
      (.ok (), w.finished backing preload) := by
  unfold constructWith
  rw [if_neg (by omega), calm_bind (calm_modify _), calm_bind hread, calm_bind (calm_modify _),
    calm_bind hopen, calm_bind (calm_modify _), calm_bind (calm_modify _)]
  have hins : ∀ x : Replica, x.readOnly = false →
      (insertBackingFile backing x).readOnly = false := by
    intro x hx
    unfold insertBackingFile
    cases backing <;> exact hx
  cases preload with
  | false =>
    rw [if_neg Bool.false_ne_true, calm_bind (calm_pure _), calm_bind calm_get,
      encodeInfo_calm (by exact hins _ hro)]
    rfl
  | true =>
    rw [if_pos rfl, calm_bind (calm_modify _), calm_bind calm_get,
      encodeInfo_calm (by exact hins _ hro)]
    rfl

theorem Entered.follows (he : Entered r₁ (h :: ss) r)
    (hf : Follows r₁.dir.next (some h) (h :: ss)) :
    Follows (fun m => (r.diskData m).map Disk.parent) (some h) (h :: ss) := by
  refine hf.congr fun n hn => ?_
  rw [he.data, if_pos hn, Option.map_map]
  rfl

theorem preloadLunMap_same (backing : Option BackingFile) :
    (r.preloadLunMap backing).volume.files = r.volume.files ∧
    (r.preloadLunMap backing).volume.userCreatedSnap = r.volume.userCreatedSnap ∧
    (r.preloadLunMap backing).volume.snapIndx = r.volume.snapIndx ∧
    (r.preloadLunMap backing).volume.locationLen = r.volume.locationLen :=
  have hs := Scan.all_sameChain true (r.vol.findExtents backing.isSome) r.volume
  ⟨hs.files, hs.userCreatedSnap, hs.snapIndx, hs.locationLen⟩

/-- What the insertion of the backing file and the scan make of an open chain. -/
structure Finished (backing : Option BackingFile) (w t : Replica) : Prop where
  info : t.info = { w.info with parent := (w.info.head.bind w.diskData).bind Disk.parent }
  rest : t.readOnly = w.readOnly ∧ t.mode = w.mode ∧ t.maxChainLen = w.maxChainLen ∧
    t.diskChildrenMap = w.diskChildrenMap
  dir : t.dir = { w.dir with volumeMeta := some { t.info with dirty := true } }
  data : ∀ n, n ∉ backingNames backing → t.diskData n = w.diskData n
  backed : ∀ n ∈ backingNames backing, t.diskData n = some ⟨n, none, false, false, "", 0⟩
  active : t.activeDiskData = backingNames backing ++ w.activeDiskData
  files : ∀ fs, w.volume.files = 0 :: fs →
    t.volume.files = 0 :: (backing.toList.map BackingFile.disk ++ fs)
  flags : ∀ bs, w.volume.userCreatedSnap = false :: bs →
    t.volume.userCreatedSnap = false :: ((backingNames backing).map (fun _ => false) ++ bs)
  snapIndx : t.volume.snapIndx = w.volume.snapIndx
  locationLen : t.volume.locationLen = w.volume.locationLen
  location : (∀ s, w.volume.location s = 0) → ∀ s, t.volume.location s ≤ t.volume.target

theorem finished_spec (backing : Option BackingFile) (preload : Bool) (w : Replica) :
    Finished backing w (w.finished backing preload) := by
  -- the scan does not touch what is compared, so the backing file is all that matters
  have hscan : ∀ x : Replica, Finished backing w (x.setVolumeMeta { x.info with dirty := true }) →
      Finished backing w ((x.preloadLunMap backing).setVolumeMeta
        { (x.preloadLunMap backing).info with dirty := true }) := by
    intro x hx
    obtain ⟨hf, hu, hs, hl⟩ := preloadLunMap_same (r := x) backing
    have htarget : (x.preloadLunMap backing).volume.target = x.volume.target :=
      congrArg (fun fs : List ℕ => fs.length - 1) hf
    refine ⟨hx.info, hx.rest, hx.dir, hx.data, hx.backed, hx.active,
      fun fs h => hf.trans (hx.files fs h), fun bs h => hu.trans (hx.flags bs h),
      hs.trans hx.snapIndx, hl.trans hx.locationLen, fun h s => ?_⟩
    refine le_of_le_of_eq (Scan.all_location_le true _ (hx.location h) s) htarget.symm
  have hinsert : Finished backing w ((insertBackingFile backing { w with info := { w.info with
      parent := (w.info.head.bind w.diskData).bind Disk.parent } }).setVolumeMeta
        { (insertBackingFile backing { w with info := { w.info with
          parent := (w.info.head.bind w.diskData).bind Disk.parent } }).info with dirty :=
            true }) := by
    cases backing with
    | none =>
      exact ⟨rfl, ⟨rfl, rfl, rfl, rfl⟩, rfl, fun _ _ => rfl, nofun, rfl, fun _ h => h,
        fun _ h => h, rfl, rfl, fun h s => (h s).le.trans (Nat.zero_le _)⟩
    | some b =>
      refine ⟨rfl, ⟨rfl, rfl, rfl, rfl⟩, rfl, fun n hn => ?_, fun n hn => ?_, rfl, fun fs h => ?_,
        fun bs h => ?_, rfl, rfl, fun h s => (h s).le.trans (Nat.zero_le _)⟩
      · exact update_of_ne (fun heq => hn (by simp [backingNames, heq])) _ _
      · obtain rfl : n = .file b.path := by simpa [backingNames] using hn
        exact update_self ..
      · show 0 :: b.disk :: w.volume.files.tail = _
        rw [h]
        rfl
      · show false :: false :: w.volume.userCreatedSnap.tail = _
        rw [h]
        rfl
  unfold finished
  cases preload with
  | false => exact hinsert
  | true => exact hscan _ hinsert

theorem Entered.opened {e : Replica} (hh : vm.head = some h)
    (he : Entered { r.blank size sectorSize with info := vm } (h :: ss) e)
    (hf : Follows r.dir.next (some h) (h :: ss))
    (hfin : Finished backing ((e.allocLocation size).assemble (h :: ss).reverse) t) :
    Opened r backing vm h ss t := by
  have hrest := he.rest
  have hdata : ∀ n, e.diskData n = if n ∈ h :: ss then
      (r.dir.diskMeta n).map (Disk.reread n r.getRevisionCounter) else none := he.data
  have hparent : (vm.head.bind e.diskData).bind Disk.parent = ss.head? := by
    obtain ⟨-, q, hq, hr⟩ := hf
    obtain ⟨d, hd, rfl⟩ := Option.map_eq_some_iff.1 hq
    rw [hh, Option.bind_some, hdata, if_pos (by simp), hd]
    exact hr.start
  have hinfo : t.info = { vm with parent := ss.head? } := by
    rw [hfin.info, ← hparent]
    show { e.info with parent := (e.info.head.bind e.diskData).bind Disk.parent } = _
    rw [hrest]
  have hflag : ∀ n ∈ h :: ss, e.isUserCreated n = flagOf r.dir n := by
    intro n hn
    unfold isUserCreated flagOf
    rw [hdata, if_pos hn, Option.map_map]
    rfl
  have hflags : (h :: ss).reverse.map e.isUserCreated = (h :: ss).reverse.map (flagOf r.dir) :=
    List.map_congr_left fun n hn => hflag n (List.mem_reverse.1 hn)
  obtain ⟨hro, hmode, hmax, hmap⟩ := hfin.rest
  constructor
  · rw [hro]
    show e.readOnly = false
    rw [hrest]
    rfl
  · rw [hmode]
    show e.mode = .init
    rw [hrest]
    rfl
  · rw [hmax]
    show e.maxChainLen = _
    rw [hrest]
    rfl
  · exact hinfo
  · obtain ⟨m, hm⟩ : ∃ m, e.dir = { r.dir with diskMeta := m } :=
      ⟨e.dir.diskMeta, (congrArg Replica.dir hrest :)⟩
    rw [hfin.dir, hinfo, show ((e.allocLocation size).assemble (h :: ss).reverse).dir =
      e.dir from rfl, hm]
  · intro n
    rw [hfin.dir]
    exact he.metas n
  · intro n hn
    rw [hfin.data n hn]
    exact hdata n
  · exact hfin.backed
  · intro p n
    rw [hmap]
    refine (he.children p n).trans ?_
    exact or_iff_right (List.not_mem_nil)
  · rw [hmap]
    exact he.nodup fun _ => List.nodup_nil
  · exact hfin.active
  · have hino : e.ino = r.ino := by
      funext n
      unfold ino
      rw [hrest]
      rfl
    rw [← hino]
    exact hfin.files _ rfl
  · rw [← hflags]
    exact hfin.flags _ rfl
  · rw [← hflags]
    exact hfin.snapIndx
  · rw [hfin.locationLen]
    show _ ≤ e.info.size / defaultSectorSize + _
    rw [show e.info = vm by rw [hrest]]
    exact Nat.le_add_right _ _
  · exact hfin.location fun _ => rfl

/-- `construct` opens the chain that the metadata files lead along. -/
theorem constructWith_opened (hv : r.dir.volumeMeta = some vm) (hh : vm.head = some h)
    (hn : r.dir.Named) (hf : Follows r.dir.next (some h) (h :: ss)) (hfuel : ss.length < fuel)
    (hlen : ss.length + 1 ≤ r.maxChainLen) (himg : ∀ n ∈ h :: ss, (r.dir.img n).isSome)
    (hsize : size % sectorSize = 0) (backing : Option BackingFile) (preload : Bool)
    (created : String) :
    ∃ t, constructWith backing preload size sectorSize fuel created .calm r = (.ok (), t) ∧
    Opened r backing vm h ss t := by
  set r₁ : Replica := { r.blank size sectorSize with info := vm } with hr₁
  have hread := readMetadata_calm (r := r.blank size sectorSize) rfl hv hh hn hf hfuel
  have he : Entered r₁ (h :: ss) ((h :: ss).foldl enter r₁) :=
    Entered.chain (Entered.refl r₁) hf.nodup hf.isSome
  rw [← hr₁] at hread
  generalize (h :: ss).foldl enter r₁ = e at hread he
  have hrest := he.rest
  have hopen := openLiveChain_calm (r := e.allocLocation size) (h := h)
    (by rw [hrest]; exact hh) (he.follows hf) hfuel (by rw [hrest]; exact hlen)
    (by rw [hrest]; exact himg)
  refine ⟨_, constructWith_eq hsize hread hopen ?_, ?_⟩
  · rw [hrest]
    rfl
  · exact he.opened hh hf (finished_spec backing preload _)

/-! ## What a successful `construct` has found -/

/-- The records that were entered have the parents of the metadata files. -/
structure Walked (r u : Replica) : Prop where
  data : ∀ m d, u.diskData m = some d → r.diskData m = some d ∨ r.dir.next m = some d.parent
  info : u.info = r.info
  maxChainLen : u.maxChainLen = r.maxChainLen

theorem readChain_walked : ∀ {fuel : ℕ} {n : DiskName} {r u : Replica},
    readChain fuel n .calm r = (.ok (), u) → r.readOnly = false → r.dir.Named → Walked r u
  | 0, _, _, _, hu, _, _ => by cases hu
  | fuel + 1, n, r, u, hu, hro, hn => by
    unfold readChain at hu
    rw [calm_bind calm_get] at hu
    cases hd : r.dir.diskMeta n with
    | none =>
      rw [hd] at hu
      dsimp only at hu
      split_ifs at hu
      · cases hu
      · cases hu
        exact ⟨fun m d hm => .inl hm, rfl, rfl⟩
    | some d =>
      rw [hd] at hu
      dsimp only at hu
      rw [calm_bind (readDiskData_calm hro hd (hn n d hd))] at hu
      have hrest := entered_rest (r := r) n d
      have hone : Walked r (r.entered n d) := by
        refine ⟨fun m e hm => ?_, by rw [hrest], by rw [hrest]⟩
        have hdata : (r.entered n d).diskData =
            update r.diskData n (some (d.reread n r.getRevisionCounter)) := by
          unfold entered
          cases d.parent <;> rfl
        rw [hdata] at hm
        rcases eq_or_ne m n with rfl | hne
        · rw [update_self] at hm
          cases hm
          right
          unfold Dir.next
          rw [hd]
          rfl
        · rw [update_of_ne hne] at hm
          exact .inl hm
      cases hp : d.parent with
      | none =>
        rw [hp] at hu
        cases hu
        exact hone
      | some p =>
        rw [hp] at hu
        have hro' : (r.entered n d).readOnly = false := by rw [hrest]; exact hro
        have hnext := readChain_walked hu hro' (entered_named hn)
        refine ⟨fun m e hm => ?_, hnext.info.trans hone.info,
          hnext.maxChainLen.trans hone.maxChainLen⟩
        rcases hnext.data m e hm with hm | hm
        · exact hone.data m e hm
        · rw [entered_next hd] at hm
          exact .inr hm

theorem chain_follows {diskData : DiskName → Option Disk} :
    ∀ {fuel : ℕ} {n : DiskName} {ns : List DiskName}, chain diskData fuel n = .ok ns → ∃ ss,
    ns = n :: ss ∧ ss.length < fuel ∧
      Follows (fun m => (diskData m).map Disk.parent) (some n) (n :: ss)
  | 0, _, _, hc => by cases hc
  | fuel + 1, n, ns, hc => by
    unfold chain at hc
    cases hd : diskData n with
    | none =>
      rw [hd] at hc
      cases hc
    | some d =>
      rw [hd] at hc
      dsimp only at hc
      cases hp : d.parent with
      | none =>
        rw [hp] at hc
        cases hc
        exact ⟨[], rfl, Nat.succ_pos _, rfl, none, by simp [hd, hp], rfl⟩
      | some p =>
        rw [hp] at hc
        dsimp only at hc
        cases hrest : chain diskData fuel p with
        | error e =>
          rw [hrest] at hc
          cases hc
        | ok ms =>
          rw [hrest] at hc
          cases hc
          obtain ⟨ss, rfl, hlen, hf⟩ := chain_follows hrest
          exact ⟨p :: ss, rfl, by simpa using hlen, rfl, some p, by simp [hd, hp], hf⟩

/-- If `construct` succeeds, the metadata files lead from the head to a base. -/
theorem constructWith_follows {preload : Bool} {created : String} (hv : r.dir.volumeMeta = some vm)
    (hh : vm.head = some h) (hn : r.dir.Named) (hmeta : (r.dir.diskMeta h).isSome)
    (hk : constructWith backing preload size sectorSize fuel created .calm r = (.ok (), t)) :
    size % sectorSize = 0 ∧ ∃ ss, Follows r.dir.next (some h) (h :: ss) ∧ ss.length < fuel ∧
      ss.length + 1 ≤ r.maxChainLen := by
  unfold constructWith at hk
  by_cases hsize : size % sectorSize = 0
  case neg =>
    rw [if_pos hsize] at hk
    cases hk
  refine ⟨hsize, ?_⟩
  rw [if_neg (not_not.2 hsize), calm_bind (calm_modify _)] at hk
  obtain ⟨found, u, hu, hk⟩ := calm_bind_ok.1 hk
  -- the metadata is read
  unfold readMetadata at hu
  rw [calm_bind calm_get, show (r.blank size sectorSize).dir.volumeMeta = some vm from hv] at hu
  dsimp only at hu
  rw [calm_bind (calm_modify _), hh] at hu
  dsimp only at hu
  obtain ⟨⟨⟩, u', hu', hu⟩ := calm_bind_ok.1 hu
  rw [calm_pure, show ((r.blank size sectorSize).dir.diskMeta h).isSome = true from hmeta] at hu
  cases hu
  have hwalk := readChain_walked hu' rfl hn
  -- and the chain is found in it
  rw [calm_bind (calm_modify _)] at hk
  obtain ⟨⟨⟩, w, hw, -⟩ := calm_bind_ok.1 hk
  rw [if_pos rfl] at hw
  unfold openLiveChain at hw
  rw [calm_bind calm_get, show (u.allocLocation size).info.head = some h by
    rw [← hh, show (u.allocLocation size).info = vm from hwalk.info]] at hw
  dsimp only at hw
  cases hc : chain (u.allocLocation size).diskData fuel h with
  | error e =>
    rw [hc] at hw
    cases hw
  | ok ns =>
    rw [hc] at hw
    dsimp only at hw
    split_ifs at hw with hlen
    · cases hw
    obtain ⟨ss, rfl, hfuel, hf⟩ := chain_follows hc
    have hlen : ss.length + 1 ≤ r.maxChainLen := by
      rw [show (u.allocLocation size).maxChainLen = r.maxChainLen from hwalk.maxChainLen,
        List.length_cons] at hlen
      omega
    refine ⟨ss, hf.congr fun n hn => ?_, hfuel, hlen⟩
    have hsome := hf.isSome n hn
    rw [Option.isSome_map] at hsome
    obtain ⟨d, hd⟩ := Option.isSome_iff_exists.1 hsome
    rw [hd]
    rcases hwalk.data n d hd with hnone | hnext
    · cases hnone
    · exact hnext

end Construct

end Replica

end Jiva
