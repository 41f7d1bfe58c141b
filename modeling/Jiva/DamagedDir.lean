import Jiva.Reread
import Jiva.Walks

/-!
# Opening a damaged directory

`readMetadata` goes from `volume.meta` to the metadata file of the head, and from there to that of
the parent of each disk, until a disk has no parent or a file is not there. The names come from the
files, so they can be any names : a disk can be its own parent, two disks can be each other's, and
the head or a parent can be called `volume`, whose metadata file is `volume.meta` itself. The loop
has no record of where it has been.

`readFiles` is this loop, over metadata files. It comes to an end if and only if it does not come to
a file for the second time (`readFiles_spec`, `Walks.ends_iff`). Then it reads what `readMetadata`
reads, which takes no disk for `volume.meta` (`readMetadata_eq`), the loops of `Chain` end, too, the
one that logs what it has found included, and `construct` opens a chain in which no disk comes
twice, or fails (`opening_iff`).
-/

namespace Jiva

open Faults Links Walks Function

variable {n : DiskName} {dir : Dir} {info : Info}

/-- A metadata file. -/
inductive MetaFile
  | volume
  | disk (n : DiskName)
  deriving DecidableEq, Repr

/-- The file with the name of the disk and the suffix `.meta`. -/
def MetaFile.of (n : DiskName) : MetaFile :=
  if n.text = "volume" then .volume else .disk n

namespace Dir

/-- The metadata file is in the directory. -/
def hasFile (dir : Dir) : MetaFile → Bool
  | .volume => dir.volumeMeta.isSome || dir.torn none
  | .disk n => (dir.metaFile n).isSome

/-- `fileMap[name+metadataSuffix]`. -/
def lookFor (dir : Dir) (n : DiskName) : Option MetaFile :=
  if dir.hasFile (.of n) then some (.of n) else none

/-- `fileMap[volumeMetaData]`. -/
def first (dir : Dir) : Option MetaFile :=
  if dir.hasFile .volume then some .volume else none

/-- The file after this one. A file that can not be decoded leads nowhere. -/
def after (dir : Dir) : MetaFile → Option MetaFile
  | .volume => (dir.volumeMeta.bind Info.head).bind dir.lookFor
  | .disk n => (dir.next n).join.bind dir.lookFor

theorem first_of_volumeMeta (h : dir.volumeMeta = some info) : dir.first = some .volume := by
  refine if_pos ?_
  show (dir.volumeMeta.isSome || dir.torn none) = true
  rw [h]
  rfl

/-- The file of a disk that is there is found, if it is not taken for `volume.meta`, which is found
as well. -/
theorem lookFor_of_next {p : Option DiskName}
    (h : dir.volumeMeta = some info) (hn : dir.next n = some p) : dir.lookFor n = some (.of n) := by
  refine if_pos ?_
  unfold MetaFile.of
  split_ifs
  · show (dir.volumeMeta.isSome || dir.torn none) = true
    rw [h]
    rfl
  · obtain ⟨d, hd, -⟩ := Option.map_eq_some_iff.1 hn
    show (dir.metaFile n).isSome
    rw [Dir.metaFile_of_some hd]
    rfl

end Dir

namespace Replica

/-- The loop of `readMetadata`, and whether it has ended. -/
def readFiles : ℕ → Option MetaFile → ReplicaAct String Bool
  | _, none => pure true
  | 0, some _ => pure false
  | fuel + 1, some .volume => do
    let r ← Act.get
    match r.dir.volumeMeta with
    | none => Act.throw (if r.dir.torn none then "unexpected EOF" else "no such file or directory")
    | some info => do
      Act.modify fun r => { r with info := info }
      match info.head with
      | none => Act.throw "r.info.Head is nil"
      | some h => readFiles fuel (r.dir.lookFor h)
  | fuel + 1, some (.disk n) => do
    let r ← Act.get
    match r.dir.diskMeta n with
    | none =>
      Act.throw (if r.dir.torn (some n) then "unexpected EOF" else "no such file or directory")
    | some d => do
      readDiskData n d
      match d.parent with
      | none => pure true
      | some p => readFiles fuel (r.dir.lookFor p)

/-- `readMetadata` : whether its loop has ended, and whether there is a disk. -/
def readMetadataFiles (fuel : ℕ) : ReplicaAct String (Option Bool) := do
  let r ← Act.get
  let done ← readFiles fuel r.dir.first
  let r ← Act.get
  pure (if done then some (r.info.head.bind r.diskData).isSome else none)

/-! ## The loop -/

/-- The metadata files of `u` lead where those of `r` do. -/
structure SameLinks (r u : Replica) : Prop where
  readOnly : u.readOnly = r.readOnly
  volumeMeta : u.dir.volumeMeta = r.dir.volumeMeta
  next : ∀ n, u.dir.next n = r.dir.next n
  torn : u.dir.torn = r.dir.torn
  maxChainLen : u.maxChainLen = r.maxChainLen

section

variable {r u w : Replica}
variable {diskData : DiskName → Option Disk} {fuel : ℕ} {created name : String}

theorem SameLinks.refl (r : Replica) : SameLinks r r :=
  ⟨rfl, rfl, fun _ => rfl, rfl, rfl⟩

theorem SameLinks.trans (h : SameLinks r u) (h' : SameLinks u w) : SameLinks r w :=
  ⟨h'.readOnly.trans h.readOnly, h'.volumeMeta.trans h.volumeMeta,
    fun n => (h'.next n).trans (h.next n), h'.torn.trans h.torn, h'.maxChainLen.trans h.maxChainLen⟩

theorem isSome_metaFile : (dir.metaFile n).isSome = ((dir.next n).isSome || dir.torn (some n)) := by
  unfold Dir.metaFile Dir.next
  cases dir.diskMeta n with
  | some d => rfl
  | none => cases dir.torn (some n) <;> rfl

theorem SameLinks.hasFile (h : SameLinks r u) : u.dir.hasFile = r.dir.hasFile := by
  funext f
  cases f with
  | volume =>
    show (u.dir.volumeMeta.isSome || u.dir.torn none) = _
    rw [h.volumeMeta, h.torn]
    rfl
  | disk n =>
    show (u.dir.metaFile n).isSome = (r.dir.metaFile n).isSome
    rw [isSome_metaFile, isSome_metaFile, h.next, h.torn]

theorem SameLinks.lookFor (h : SameLinks r u) : u.dir.lookFor = r.dir.lookFor := by
  funext n
  unfold Dir.lookFor
  rw [h.hasFile]

theorem SameLinks.after (h : SameLinks r u) : u.dir.after = r.dir.after := by
  funext f
  cases f with
  | volume =>
    show (u.dir.volumeMeta.bind Info.head).bind u.dir.lookFor = _
    rw [h.volumeMeta, h.lookFor]
    rfl
  | disk n =>
    show (u.dir.next n).join.bind u.dir.lookFor = _
    rw [h.next, h.lookFor]
    rfl

/-- A metadata file is read : the record is in the map, and the files lead where they led. -/
theorem readDiskData_ok {d : Disk} (hro : r.readOnly = false) (hd : r.dir.diskMeta n = some d) :
    ∃ u, readDiskData n d .calm r = (.ok (), u) ∧ SameLinks r u ∧ u.info = r.info ∧
      u.diskData = update r.diskData n (some (d.reread n r.getRevisionCounter)) := by
  set data := d.reread n r.getRevisionCounter with hdata
  -- the file is written again if the counter was never set, with the same parent
  obtain ⟨v, hv, hlinks, hinfo, hmap⟩ : ∃ v,
      (if d.revisionCounter ≤ 1 then encodeDisk (.reread n) n data
      else pure () : ReplicaAct String Unit) .calm (r.setDisk n (some data)) = (.ok (), v) ∧
      SameLinks r v ∧ v.info = r.info ∧ v.diskData = update r.diskData n (some data) := by
    by_cases hs : d.revisionCounter ≤ 1
    · refine ⟨(r.setDisk n (some data)).setMeta n (some data), ?_,
        ⟨rfl, rfl, fun m => ?_, rfl, rfl⟩, rfl, rfl⟩
      · rw [if_pos hs]
        exact encodeDisk_calm (by exact hro) _ _ _
      · show (update r.dir.diskMeta n (some data) m).map Disk.parent =
          (r.dir.diskMeta m).map Disk.parent
        rcases eq_or_ne m n with rfl | hne
        · rw [update_self, hd]
          rfl
        · rw [update_of_ne hne]
    · refine ⟨r.setDisk n (some data), ?_, ⟨rfl, rfl, fun _ => rfl, rfl, rfl⟩, rfl, rfl⟩
      rw [if_neg hs]
      rfl
  obtain ⟨u, hu, hlinks, hinfo, hmap⟩ : ∃ u, (match d.parent with
      | none => pure ()
      | some p => Act.modify (addChildDisk (some p) n) : ReplicaAct String Unit) .calm v =
        (.ok (), u) ∧
      SameLinks r u ∧ u.info = r.info ∧ u.diskData = update r.diskData n (some data) := by
    cases d.parent with
    | none => exact ⟨v, rfl, hlinks, hinfo, hmap⟩
    | some p =>
      exact ⟨v.addChildDisk (some p) n, rfl,
        ⟨hlinks.readOnly, hlinks.volumeMeta, hlinks.next, hlinks.torn,
        hlinks.maxChainLen⟩, hinfo, hmap⟩
  refine ⟨u, ?_, hlinks, hinfo, hmap⟩
  unfold readDiskData
  rw [calm_bind calm_get, calm_bind (calm_modify _)]
  exact (calm_bind hv _).trans hu

/-- The records of the disks that were read say where the files lead. -/
def DataOk (r u : Replica) : Prop :=
  ∀ n d, u.diskData n = some d → r.dir.next n = some d.parent

theorem next_of_diskMeta {d : Disk} (hd : r.dir.diskMeta n = some d) :
    r.dir.next n = some d.parent := by
  unfold Dir.next
  rw [hd]
  rfl

theorem hasFile_of_lookFor {f : MetaFile} (h : dir.lookFor n = some f) : dir.hasFile f = true := by
  unfold Dir.lookFor at h
  split_ifs at h with hf
  cases h
  exact hf

/-- What the loop leaves behind : the files lead where they led, and the records say so. -/
structure Read (r u : Replica) : Prop where
  links : SameLinks r u
  data : DataOk r u
  info : u.info = r.info ∨ r.dir.volumeMeta = some u.info
  kept : ∀ n, (r.diskData n).isSome → (u.diskData n).isSome

theorem Read.refl (hdata : DataOk r r) : Read r r :=
  ⟨.refl r, hdata, .inl rfl, fun _ => id⟩

/-- The loop runs out of fuel if and only if the files lead on for as many steps. -/
theorem readFiles_spec : ∀ (fuel : ℕ) (f : Option MetaFile) {r : Replica}, r.readOnly = false →
    DataOk r r → ∃ res u, readFiles fuel f .calm r = (res, u) ∧ Read r u ∧
    res ≠ .err "out of fuel" ∧
      (res = .ok false ↔ (walk r.dir.after fuel f).isSome) ∧
      ∀ n, f = some (.disk n) → fuel ≠ 0 → (r.dir.diskMeta n).isSome → (u.diskData n).isSome
  | 0, none, r, _, hdata => ⟨_, r, rfl, .refl hdata, nofun, by simp, nofun⟩
  | fuel + 1, none, r, _, hdata => ⟨_, r, rfl, .refl hdata, nofun, by simp, nofun⟩
  | 0, some f, r, _,
      hdata => ⟨_, r, rfl, .refl hdata, nofun, by simp [walk], fun _ _ h => absurd rfl h⟩
  | fuel + 1, some .volume, r, hro, hdata => by
    have hafter : r.dir.after .volume = (r.dir.volumeMeta.bind Info.head).bind r.dir.lookFor := rfl
    rw [readFiles, calm_bind calm_get, walk, Option.bind_some, hafter]
    cases hinfo : r.dir.volumeMeta with
    | none => exact ⟨_, r, rfl, .refl hdata, by split_ifs <;> simp, by simp, nofun⟩
    | some info =>
      dsimp only
      rw [calm_bind (calm_modify _), Option.bind_some]
      cases hh : info.head with
      | none =>
        exact ⟨_, _, rfl, ⟨⟨rfl, rfl, fun _ => rfl, rfl, rfl⟩, hdata, .inr hinfo,
          fun _ => id⟩, by simp,
          by simp, nofun⟩
      | some h =>
        obtain ⟨res, u, hrun, hread, hfuel, hres, -⟩ := readFiles_spec fuel (r.dir.lookFor h)
          (r := { r with info := info }) hro hdata
        refine ⟨res, u, hrun, ⟨⟨hread.links.readOnly, hread.links.volumeMeta, hread.links.next,
          hread.links.torn, hread.links.maxChainLen⟩, hread.data, ?_, hread.kept⟩,
          hfuel, hres, nofun⟩
        rcases hread.info with he | he
        · exact .inr (by rw [hinfo, he])
        · exact .inr he
  | fuel + 1, some (.disk n), r, hro, hdata => by
    have hafter : r.dir.after (.disk n) = (r.dir.next n).join.bind r.dir.lookFor := rfl
    rw [readFiles, calm_bind calm_get, walk, Option.bind_some, hafter]
    cases hd : r.dir.diskMeta n with
    | none =>
      have hnext : r.dir.next n = none := by rw [Dir.next, hd]; rfl
      refine ⟨_, r, rfl, .refl hdata, by split_ifs <;> simp, by simp [hnext], ?_⟩
      rintro _ ⟨⟩ - hsome
      rw [hd] at hsome
      cases hsome
    | some d =>
      have hnext := next_of_diskMeta hd
      obtain ⟨v, hv, hlinks, hinfo, hmap⟩ := readDiskData_ok hro hd
      have hdata' : DataOk r v := by
        intro m e he
        rw [hmap] at he
        rcases eq_or_ne m n with rfl | hne
        · rw [update_self] at he
          cases he
          exact hnext
        · rw [update_of_ne hne] at he
          exact hdata m e he
      have hkept : ∀ m, m = n ∨ (r.diskData m).isSome → (v.diskData m).isSome := by
        intro m hm
        rw [hmap, update_apply]
        split_ifs with he
        · rfl
        · exact hm.resolve_left he
      dsimp only
      rw [calm_bind hv, hnext, Option.join_some]
      cases hp : d.parent with
      | none =>
        refine ⟨_, _, rfl, ⟨hlinks, hdata', .inl hinfo, fun m hm => hkept m (.inr hm)⟩,
          nofun, by simp, ?_⟩
        rintro _ ⟨⟩ - -
        exact hkept n (.inl rfl)
      | some p =>
        obtain ⟨res, u, hrun, hread, hfuel, hres, -⟩ :=
          readFiles_spec fuel (r.dir.lookFor p) (hlinks.readOnly.trans hro)
          (fun m e he => (hlinks.next m).trans (hdata' m e he))
        rw [hlinks.after] at hres
        refine ⟨res, u, hrun, ⟨hlinks.trans hread.links, fun m e he => ?_, ?_, fun m hm => ?_⟩,
          hfuel, hres, ?_⟩
        · rw [← hlinks.next]
          exact hread.data m e he
        · rw [← hinfo, ← hlinks.volumeMeta]
          exact hread.info
        · exact hread.kept m (hkept m (.inr hm))
        · rintro _ ⟨⟩ - -
          exact hread.kept n (hkept n (.inl rfl))

/-! ## `readMetadata` -/

/-- A disk without a metadata file. -/
theorem readChain_missing {m : ℕ} (hvm : r.dir.hasFile .volume = true)
    (hlook : r.dir.lookFor n = none) :
    readChain (m + 1) n .calm r = (readFiles fuel none >>= fun _ => pure ()) .calm r := by
  unfold Dir.lookFor at hlook
  split_ifs at hlook with hfile
  have hdisk : MetaFile.of n = .disk n := if_neg fun htext => by
    rw [MetaFile.of, if_pos htext] at hfile
    exact hfile hvm
  rw [hdisk] at hfile
  obtain ⟨hd, htorn⟩ := Dir.metaFile_eq_none.1 (by simpa [Dir.hasFile] using hfile)
  unfold readChain
  rw [calm_bind calm_get, hd]
  dsimp only
  rw [if_neg (by simp [htorn])]
  cases fuel <;> rfl

/-- From a disk on, if the loop ends and does not come to `volume.meta`, it reads what `readChain`
reads. -/
theorem readChain_eq : ∀ {fuel m : ℕ} {n : DiskName} {r : Replica}, fuel ≤ m → r.readOnly = false →
    r.dir.hasFile .volume = true → walk r.dir.after fuel (r.dir.lookFor n) = none →
    (∀ k, walk r.dir.after k (r.dir.lookFor n) ≠ some .volume) →
    readChain (m + 1) n .calm r =
      (readFiles fuel (r.dir.lookFor n) >>= fun _ => pure ()) .calm r := by
  intro fuel
  induction fuel with
  | zero =>
    intro m n r _ hro hvm hend _
    rw [show r.dir.lookFor n = none from hend]
    exact readChain_missing hvm hend
  | succ fuel ih =>
    intro m n r hm hro hvm hend hvol
    by_cases hlook : r.dir.lookFor n = none
    · rw [hlook]
      exact readChain_missing hvm hlook
    have hdisk : r.dir.lookFor n = some (.disk n) := by
      have h0 := hvol 0
      unfold walk Dir.lookFor MetaFile.of at h0
      unfold Dir.lookFor MetaFile.of at hlook ⊢
      grind
    have hafter : walk r.dir.after fuel (r.dir.after (.disk n)) = none := by
      rwa [hdisk] at hend
    have hvol' : ∀ k, walk r.dir.after k (r.dir.after (.disk n)) ≠ some .volume := by
      intro k
      have hk := hvol (k + 1)
      rwa [hdisk] at hk
    rw [hdisk]
    unfold readChain
    rw [calm_bind calm_get, readFiles]
    cases hd : r.dir.diskMeta n with
    | none =>
      -- the file is there, so it is torn
      have htorn : r.dir.torn (some n) = true := by
        have hfile := hasFile_of_lookFor hdisk
        have hfile : (r.dir.metaFile n).isSome := hfile
        rw [isSome_metaFile, Dir.next, hd] at hfile
        exact hfile
      rw [bind_of_err (t := r) (e := "unexpected EOF")]
      · dsimp only
        rw [if_pos htorn]
        rfl
      · rw [calm_bind calm_get, hd]
        dsimp only
        rw [if_pos htorn]
        rfl
    | some d =>
      have hnext := next_of_diskMeta hd
      obtain ⟨v, hv, hlinks, -, -⟩ := readDiskData_ok hro hd
      dsimp only
      rw [calm_bind hv, bind_assoc_apply, calm_bind calm_get, hd]
      dsimp only
      rw [bind_assoc_apply, calm_bind hv]
      cases hp : d.parent with
      | none => rfl
      | some p =>
        dsimp only
        have hp' : r.dir.after (.disk n) = r.dir.lookFor p := by
          show (r.dir.next n).join.bind r.dir.lookFor = _
          rw [hnext, hp]
          rfl
        rw [hp', ← hlinks.after, ← hlinks.lookFor] at hafter hvol'
        obtain ⟨m, rfl⟩ : ∃ k, m = k + 1 := ⟨m - 1, by omega⟩
        rw [← hlinks.lookFor]
        exact ih (by omega) (hlinks.readOnly.trans hro)
          (by rw [hlinks.hasFile]; exact hvm) hafter hvol'

/-- If no metadata file comes twice, the loop over files reads what `readMetadata` reads. -/
theorem readMetadata_eq (hrep : ¬Repeats r.dir.after r.dir.first)
    (hend : walk r.dir.after (fuel + 1) r.dir.first = none) (size sectorSize : ℕ) :
    readMetadata (fuel + 1) .calm (r.blank size sectorSize) =
      (readMetadataFiles (fuel + 1) >>= fun found =>
      pure (found.getD false)) .calm (r.blank size sectorSize) := by
  unfold readMetadata readMetadataFiles
  rw [calm_bind calm_get, bind_assoc_apply, calm_bind calm_get, bind_assoc_apply,
    show (r.blank size sectorSize).dir = r.dir from rfl]
  cases hvm : r.dir.volumeMeta with
  | none =>
    cases htorn : r.dir.torn none with
    | true =>
      have hfirst : r.dir.first = some .volume := if_pos (by simp [Dir.hasFile, htorn])
      rw [hfirst, bind_of_err (t := r.blank size sectorSize) (e := "unexpected EOF")]
      · rfl
      · rw [readFiles, calm_bind calm_get, show (r.blank size sectorSize).dir = r.dir from rfl, hvm]
        dsimp only
        rw [if_pos htorn]
        rfl
    | false =>
      have hfirst : r.dir.first = none := if_neg (by simp [Dir.hasFile, hvm, htorn])
      rw [hfirst]
      rfl
  | some info =>
    have hfirst := Dir.first_of_volumeMeta hvm
    rw [hfirst] at hend ⊢
    dsimp only
    rw [calm_bind (calm_modify _), readFiles, bind_assoc_apply, calm_bind calm_get,
      show (r.blank size sectorSize).dir = r.dir from rfl, hvm]
    dsimp only
    rw [bind_assoc_apply, calm_bind (calm_modify _)]
    cases hh : info.head with
    | none => rfl
    | some h =>
      dsimp only
      have hafter : r.dir.after .volume = r.dir.lookFor h := by
        show (r.dir.volumeMeta.bind Info.head).bind r.dir.lookFor = _
        rw [hvm, Option.bind_some, hh, Option.bind_some]
      have hend' : walk r.dir.after fuel (r.dir.lookFor h) = none := by
        rwa [walk, Option.bind_some, hafter] at hend
      have hvol : ∀ k, walk r.dir.after k (r.dir.lookFor h) ≠ some .volume := by
        intro k hk
        refine hrep ⟨0, k + 1, Nat.succ_pos k, ?_, ?_⟩
        · rw [walk, walk, hfirst, Option.bind_some, hafter, hk]
        · rw [walk, hfirst]
          rfl
      have hchain :=
        readChain_eq (m := fuel) (r := { r.blank size sectorSize with info := info }) le_rfl rfl
        (by simp [Dir.hasFile, hvm, blank]) hend' hvol
      obtain ⟨res, u, hrun, hread, -, hres, hhead⟩ := readFiles_spec fuel (r.dir.lookFor h)
        (r := { r.blank size sectorSize with info := info }) rfl fun _ _ hd => by cases hd
      have hinfo : u.info = info := by
        rcases hread.info with he | he
        · exact he
        · exact Option.some.inj (he.symm.trans hvm)
      have hfound : (u.diskData h).isSome = (r.dir.diskMeta h).isSome := by
        cases hd : r.dir.diskMeta h with
        | none =>
          cases hu : u.diskData h with
          | none => rfl
          | some d =>
            have hnext : r.dir.next h = some d.parent := hread.data h d hu
            rw [Dir.next, hd] at hnext
            cases hnext
        | some d =>
          have hlook := Dir.lookFor_of_next hvm (next_of_diskMeta hd)
          have hdisk : MetaFile.of h = .disk h := by
            have h0 := hvol 0
            rw [walk, hlook] at h0
            unfold MetaFile.of at h0 ⊢
            grind
          rw [hdisk] at hlook
          refine hhead h hlook (fun hz => ?_) (by simp [blank, hd])
          rw [hz, walk, hlook] at hend'
          cases hend'
      cases res with
      | err e =>
        exact (bind_of_err (hchain.trans (bind_of_err hrun _)) _).trans (bind_of_err hrun _).symm
      | crash =>
        exact (bind_of_crash (hchain.trans (bind_of_crash hrun _)) _).trans
          (bind_of_crash hrun _).symm
      | ok done =>
        have hdone : done = true := by
          rcases done with - | -
          · have hsome : (walk r.dir.after fuel (r.dir.lookFor h)).isSome := hres.1 rfl
            rw [hend'] at hsome
            cases hsome
          · rfl
        subst hdone
        refine (bind_of_ok (hchain.trans (bind_of_ok hrun _)) _).trans
          (Eq.trans ?_ (bind_of_ok hrun _).symm)
        show (Exit.ok (r.dir.diskMeta h).isSome, u) =
          (Exit.ok ((u.info.head.bind u.diskData).isSome), u)
        rw [hinfo, hh, Option.bind_some, hfound]

/-! ## `Chain` -/

/-- Where the record of a disk leads. -/
def recordNext (diskData : DiskName → Option Disk) (n : DiskName) : Option DiskName :=
  (diskData n).bind Disk.parent

/-- `Chain` runs out of fuel only if the records lead on for as many steps. -/
theorem chain_runsOut : ∀ {fuel : ℕ} {n : DiskName},
    chain diskData fuel n = .error "out of fuel" → (walk (recordNext diskData) fuel (some n)).isSome
  | 0, _, _ => rfl
  | fuel + 1, n, h => by
    have hother : ∀ n : DiskName, "Failed to find metadata for " ++ n.text ≠ "out of fuel" := by
      intro n he
      have := congrArg String.toList he
      simp at this
    rw [walk, Option.bind_some]
    unfold recordNext
    unfold chain at h
    cases hd : diskData n with
    | none =>
      rw [hd] at h
      exact absurd (Except.error.inj h) (hother n)
    | some d =>
      rw [hd] at h
      dsimp only at h
      rw [Option.bind_some]
      cases hp : d.parent with
      | none =>
        rw [hp] at h
        cases h
      | some p =>
        rw [hp] at h
        dsimp only at h
        cases hc : chain diskData fuel p with
        | ok ns =>
          rw [hc] at h
          cases h
        | error e =>
          rw [hc] at h
          cases h
          exact chain_runsOut hc

/-- The loop in `Chain` that logs the disks from `n` on when the record of one of them is
missing. -/
def logChain (diskData : DiskName → Option Disk) : ℕ → DiskName → Option (List DiskName)
  | 0, _ => none
  | fuel + 1, n =>
    match (diskData n).bind Disk.parent with
    | none => some [n]
    | some p => (logChain diskData fuel p).map (n :: ·)

theorem logChain_runsOut : ∀ {fuel : ℕ} {n : DiskName},
    logChain diskData fuel n = none → chain diskData fuel n = .error "out of fuel"
  | 0, _, _ => rfl
  | fuel + 1, n, h => by
    unfold logChain at h
    unfold chain
    cases hd : diskData n with
    | none =>
      rw [hd] at h
      cases h
    | some d =>
      rw [hd, Option.bind_some] at h
      dsimp only
      cases hp : d.parent with
      | none =>
        rw [hp] at h
        cases h
      | some p =>
        rw [hp] at h
        dsimp only at h ⊢
        rw [logChain_runsOut (Option.map_eq_none_iff.1 h)]

/-- As long as the records lead on, they lead along the files. -/
theorem Read.walk_eq (hread : Read r u) (hrep : ¬Repeats r.dir.after r.dir.first)
    (hvm : r.dir.volumeMeta = some info) {h : DiskName} (hh : info.head = some h) :
    ∀ {k : ℕ} {n : DiskName}, walk (recordNext u.diskData) k (some h) = some n →
      walk r.dir.after (k + 1) r.dir.first = r.dir.lookFor n
  | 0, n, hn => by
    obtain rfl : h = n := Option.some.inj hn
    rw [Dir.first_of_volumeMeta hvm]
    show (r.dir.volumeMeta.bind Info.head).bind r.dir.lookFor = _
    rw [hvm, Option.bind_some, hh, Option.bind_some]
  | k + 1, m, hm => by
    rw [walk_succ'] at hm
    obtain ⟨n, hn, hnm⟩ := Option.bind_eq_some_iff.1 hm
    obtain ⟨d, hd, hp⟩ := Option.bind_eq_some_iff.1 hnm
    have hnext : r.dir.next n = some (some m) := by rw [hread.data n d hd, hp]
    have ih := hread.walk_eq hrep hvm hh hn
    rw [Dir.lookFor_of_next hvm hnext] at ih
    have hdisk : MetaFile.of n = .disk n := by
      refine if_neg fun htext => hrep ⟨0, k + 1, Nat.succ_pos k, ?_, ?_⟩
      · -- the walk is at `volume.meta` again
        rw [ih, MetaFile.of, if_pos htext, walk, Dir.first_of_volumeMeta hvm]
      · rw [walk, Dir.first_of_volumeMeta hvm]
        rfl
    rw [walk_succ', ih, hdisk]
    show (r.dir.next n).join.bind r.dir.lookFor = _
    rw [hnext]
    rfl

/-- `Chain` ends if the files come to an end. -/
theorem Read.chain_ends (hread : Read r u) (hrep : ¬Repeats r.dir.after r.dir.first)
    (hvm : r.dir.volumeMeta = some info) {h : DiskName} (hh : info.head = some h) (hpos : 0 < fuel)
    (hend : walk r.dir.after fuel r.dir.first = none) :
    chain u.diskData fuel h ≠ .error "out of fuel" := by
  intro hc
  obtain ⟨k, rfl⟩ : ∃ k, fuel = k + 1 := ⟨fuel - 1, by omega⟩
  obtain ⟨m, hm⟩ := Option.isSome_iff_exists.1 (chain_runsOut hc)
  rw [walk_succ'] at hm
  obtain ⟨n, hn, hnm⟩ := Option.bind_eq_some_iff.1 hm
  obtain ⟨d, hd, -⟩ := Option.bind_eq_some_iff.1 hnm
  have hlook := hread.walk_eq hrep hvm hh hn
  rw [hend, Dir.lookFor_of_next hvm (hread.data n d hd)] at hlook
  cases hlook

/-! ## `construct` -/

theorem readChain_readOnly : ∀ {fuel : ℕ} {n : DiskName} {r u : Replica},
    readChain fuel n .calm r = (.ok (), u) → r.readOnly = false → u.readOnly = false
  | 0, _, _, _, hu, _ => by cases hu
  | fuel + 1, n, r, u, hu, hro => by
    unfold readChain at hu
    rw [calm_bind calm_get] at hu
    cases hd : r.dir.diskMeta n with
    | none =>
      rw [hd] at hu
      dsimp only at hu
      split_ifs at hu
      · cases hu
      · cases hu
        exact hro
    | some d =>
      obtain ⟨v, hv, hlinks, -, -⟩ := readDiskData_ok hro hd
      rw [hd] at hu
      dsimp only at hu
      rw [calm_bind hv] at hu
      have hro' := hlinks.readOnly.trans hro
      cases hp : d.parent with
      | none =>
        rw [hp] at hu
        cases hu
        exact hro'
      | some p =>
        rw [hp] at hu
        exact readChain_readOnly hu hro'

/-- What `construct` knows after the metadata was read. If it has found no disk, it has read no
record, and the head of `volume.meta` has no metadata file. -/
theorem readMetadata_found {size sectorSize : ℕ} {found : Bool}
    (hu : readMetadata fuel .calm (r.blank size sectorSize) = (.ok found, u)) :
    u.readOnly = false ∧ (found = false → (∀ n, u.diskData n = none) ∧
      ∀ h, u.info.head = some h → u.dir.metaFile h = none) := by
  unfold readMetadata at hu
  rw [calm_bind calm_get, show (r.blank size sectorSize).dir = r.dir from rfl] at hu
  rcases hvm : r.dir.volumeMeta with - | info
  · rw [hvm] at hu
    dsimp only at hu
    split_ifs at hu
    · cases hu
    · cases hu
      exact ⟨rfl, fun _ => ⟨fun _ => rfl, fun _ hh => by cases hh⟩⟩
  rw [hvm] at hu
  dsimp only at hu
  rw [calm_bind (calm_modify _)] at hu
  cases hh : info.head with
  | none =>
    rw [hh] at hu
    cases hu
  | some h =>
    rw [hh] at hu
    obtain ⟨⟨⟩, v, hv, hu⟩ := calm_bind_ok.1 hu
    cases hu
    refine ⟨readChain_readOnly hv rfl, fun hfound => ?_⟩
    rw [Option.isSome_eq_false_iff, Option.isNone_iff_eq_none] at hfound
    cases fuel with
    | zero => cases hv
    | succ fuel =>
      unfold readChain at hv
      rw [calm_bind calm_get] at hv
      dsimp only at hv
      rw [show (r.blank size sectorSize).dir.diskMeta h = none from hfound] at hv
      dsimp only at hv
      split_ifs at hv with htorn
      · cases hv
      · cases hv
        refine ⟨fun _ => rfl, fun h' hh' => ?_⟩
        obtain rfl : h = h' := Option.some.inj (hh.symm.trans hh')
        exact Dir.metaFile_eq_none.2 ⟨hfound, by simpa using htorn⟩

theorem openImgs_mem : ∀ {ns : List DiskName} {r u : Replica}, openImgs ns .calm r = (.ok (), u) →
    u.diskData = r.diskData ∧ u.info = r.info ∧ u.readOnly = r.readOnly
  | [], _, _, hu => by
    cases hu
    exact ⟨rfl, rfl, rfl⟩
  | n :: ns, r, u, hu => by
    unfold openImgs at hu
    rw [calm_bind (calm_call ..)] at hu
    obtain ⟨hdata, hinfo, hro⟩ := openImgs_mem hu
    have hmem : (createImg n r).diskData = r.diskData ∧ (createImg n r).info = r.info ∧
        (createImg n r).readOnly = r.readOnly := by
      unfold createImg
      split <;> exact ⟨rfl, rfl, rfl⟩
    exact ⟨hdata.trans hmem.1, hinfo.trans hmem.2.1, hro.trans hmem.2.2⟩

theorem openLiveChain_ok (hu : openLiveChain fuel .calm r = (.ok (), u)) :
    u.readOnly = r.readOnly ∧ ∃ ns, u.liveChain fuel = .ok ns := by
  unfold openLiveChain at hu
  rw [calm_bind calm_get] at hu
  unfold liveChain
  cases hh : r.info.head with
  | none =>
    rw [hh] at hu
    cases hu
    rw [hh]
    exact ⟨rfl, [], rfl⟩
  | some h =>
    rw [hh] at hu
    dsimp only at hu
    cases hc : chain r.diskData fuel h with
    | error e =>
      rw [hc] at hu
      cases hu
    | ok ns =>
      rw [hc] at hu
      dsimp only at hu
      split_ifs at hu
      · cases hu
      obtain ⟨⟨⟩, v, hv, hu⟩ := calm_bind_ok.1 hu
      cases hu
      obtain ⟨hdata, hinfo, hro⟩ := openImgs_mem hv
      refine ⟨hro, ns, ?_⟩
      rw [show (assemble ns.reverse v).info.head = some h from (congrArg Info.head hinfo).trans hh]
      exact (congrArg (chain · fuel h) hdata).trans hc

theorem createNewHead_stale {o p : Option DiskName} {x : ℕ × Disk} (hn : nextFile o = .ok n)
    (hold : (r.dir.img n).isSome) (h : createNewHead o p created .calm r = (.ok x, u)) :
    createNewHead o p created .calm (r.clear n) = (.ok x, u) := by
  have hfree : rmStaleHead n .calm (r.clear n) = (.ok (), r.clear n) := by
    unfold rmStaleHead
    rw [calm_bind (calm_query ..), if_neg (by simp)]
    rfl
  unfold createNewHead at h ⊢
  rw [hn] at h ⊢
  dsimp only at h ⊢
  obtain ⟨⟨⟩, v, hv, h⟩ := calm_bind_ok.1 h
  have hv := calm_handle_ok (fun e y he => by cases he) hv
  unfold rmStaleHead at hv
  rw [calm_bind (calm_query ..), hold, if_pos rfl, calm_bind (calm_query ..)] at hv
  split_ifs at hv
  · cases hv
  rw [calm_handle (rmDisk_calm ..)] at hv
  cases hv
  rw [calm_bind (calm_handle hfree _)]
  exact h

theorem createDisk_nextFile {userCreated : Bool}
    (h : createDisk name userCreated created .calm r = (.ok (), u)) :
    ∃ n, nextFile r.info.head = .ok n := by
  unfold createDisk at h
  rw [calm_bind (calm_call ..), calm_bind calm_get] at h
  simp only [id] at h
  split_ifs at h
  · cases h
  · cases h
  obtain ⟨⟨f, d⟩, w, hw, -⟩ := calm_bind_ok.1 h
  have hw := calm_handle_ok (by
    intro e x he
    obtain ⟨-, y, -, he⟩ := calm_bind_ok.1 he
    cases he) hw
  cases hn : nextFile r.info.head with
  | ok n => exact ⟨n, rfl⟩
  | error e =>
    unfold createNewHead at hw
    rw [hn] at hw
    cases hw

/-- A leftover of the new head makes no difference once it was removed. -/
theorem createDisk_stale {userCreated : Bool} (hn : nextFile r.info.head = .ok n)
    (h : createDisk name userCreated created .calm r = (.ok (), u)) : ∃ v, (v = r ∨ v = r.clear n) ∧
    v.dir.img n = none ∧ createDisk name userCreated created .calm v = (.ok (), u) := by
  by_cases hfree : r.dir.img n = none
  · exact ⟨r, .inl rfl, hfree, h⟩
  refine ⟨r.clear n, .inr rfl, by simp, ?_⟩
  unfold createDisk at h ⊢
  rw [calm_bind (calm_call ..), calm_bind calm_get] at h ⊢
  simp only [id] at h ⊢
  change (ite (r.readOnly = true) _ (ite (r.maxChainLen < r.activeDiskData.length + 2) _ _) :
    ReplicaAct String Unit) .calm (r.clear n) = _
  split_ifs at h ⊢
  · cases h
  · cases h
  obtain ⟨⟨f, d⟩, w, hw, h⟩ := calm_bind_ok.1 h
  have hw := calm_handle_ok (by
    intro e x he
    obtain ⟨-, y, -, he⟩ := calm_bind_ok.1 he
    cases he) hw
  have hw := createNewHead_stale hn (Option.isSome_iff_ne_none.2 hfree) hw
  exact (calm_bind (calm_handle hw _) _).trans h

/-- The first disk of a directory without one is a chain of its own. -/
theorem createDisk_liveChain (hpos : 0 < fuel) (hro : r.readOnly = false)
    (hdata : ∀ n, r.diskData n = none) (hhead : ∀ h, r.info.head = some h → r.dir.metaFile h = none)
    (h : createDisk name false created .calm r = (.ok (), u)) :
    u.readOnly = false ∧ ∃ ns, u.liveChain fuel = .ok ns := by
  obtain ⟨n, hn⟩ := createDisk_nextFile h
  obtain ⟨v, hv, hfree, h⟩ := createDisk_stale hn h
  have hmem : v.info = r.info ∧ v.readOnly = false ∧ (∀ m, v.diskData m = none) ∧
      ∀ h, v.info.head = some h → v.dir.metaFile h = none := by
    rcases hv with rfl | rfl
    · exact ⟨rfl, hro, hdata, hhead⟩
    · refine ⟨rfl, hro, hdata, fun h hh => ?_⟩
      rw [clear_metaFile, update_apply, hhead h hh, ite_self]
  obtain ⟨hinfo, hro', hdata', hhead'⟩ := hmem
  rw [← hinfo] at hn
  cases hh : v.info.head with
  | none =>
    rw [hh] at hn
    cases hn
    obtain ⟨-, rfl⟩ := createDisk_first hh hro' hfree h
    obtain ⟨k, rfl⟩ : ∃ k, fuel = k + 1 := ⟨fuel - 1, by omega⟩
    refine ⟨?_, [.head 0], ?_⟩
    · exact (withHead_readOnly (.head 0) (v.headDisk (.head 0) none created)).trans hro'
    · show chain (v.started created).diskData (k + 1) (.head 0) = _
      have hnew : (v.started created).diskData (.head 0) =
          some (v.headDisk (.head 0) none created) := by
        simp [started, appendHead, setVolumeMeta, setDisk]
      unfold chain
      rw [hnew]
      rfl
  | some o =>
    rw [hh] at hn
    cases o with
    | head k =>
      cases hn
      obtain ⟨-, -, -, i, d, -, hd, -⟩ := createDisk_ok hh hro' hfree (by rw [hhead' _ hh]; simp) h
      rw [hdata'] at hd
      cases hd
    | snap s => cases hn
    | file s => cases hn

/-- The record of the backing file cuts a chain that has its name in it. -/
theorem chain_cut {diskData' : DiskName → Option Disk}
    (hcut : ∀ n, diskData' n = diskData n ∨ ∃ d, diskData' n = some d ∧ d.parent = none) :
    ∀ {fuel : ℕ} {n : DiskName} {ns : List DiskName}, chain diskData fuel n = .ok ns →
      ∃ ms, chain diskData' fuel n = .ok ms
  | 0, _, _, hc => by cases hc
  | fuel + 1, n, ns, hc => by
    unfold chain at hc ⊢
    rcases hcut n with he | ⟨d, hd, hp⟩
    case inr =>
      rw [hd]
      dsimp only
      rw [hp]
      exact ⟨[n], rfl⟩
    rw [he]
    cases hd : diskData n with
    | none =>
      rw [hd] at hc
      cases hc
    | some d =>
      rw [hd] at hc
      dsimp only at hc ⊢
      cases hp : d.parent with
      | none => exact ⟨[n], rfl⟩
      | some p =>
        rw [hp] at hc
        dsimp only at hc ⊢
        cases hrest : chain diskData fuel p with
        | error e =>
          rw [hrest] at hc
          cases hc
        | ok ms =>
          obtain ⟨ms', hms'⟩ := chain_cut hcut hrest
          rw [hms']
          exact ⟨n :: ms', rfl⟩

theorem liveChain_nodup {ns : List DiskName} (h : r.liveChain fuel = .ok ns) : ns.Nodup := by
  unfold liveChain at h
  cases hh : r.info.head with
  | none =>
    rw [hh] at h
    cases h
    exact List.nodup_nil
  | some n =>
    rw [hh] at h
    obtain ⟨ss, rfl, -, hf⟩ := chain_follows h
    exact hf.nodup

theorem finished_liveChain {backing : Option BackingFile} {preload : Bool} {ns : List DiskName}
    (h : r.liveChain fuel = .ok ns) :
    ∃ ms, (r.finished backing preload).liveChain fuel = .ok ms := by
  have hfin := finished_spec backing preload r
  have hhead : (r.finished backing preload).info.head = r.info.head := by
    rw [hfin.info]
  unfold liveChain at h ⊢
  rw [hhead]
  cases hh : r.info.head with
  | none => exact ⟨[], rfl⟩
  | some n =>
    rw [hh] at h
    refine chain_cut (fun m => ?_) h
    by_cases hm : m ∈ backingNames backing
    · exact .inr ⟨_, hfin.backed m hm, rfl⟩
    · exact .inl (hfin.data m hm)

/-- The chain of a replica that was opened is finite and has no disk twice. -/
theorem constructWith_liveChain {backing : Option BackingFile} {preload : Bool}
    {size sectorSize : ℕ} (hpos : 0 < fuel)
    (h : constructWith backing preload size sectorSize fuel created .calm r = (.ok (), u)) :
    ∃ ns, u.liveChain fuel = .ok ns ∧ ns.Nodup := by
  by_cases hsize : size % sectorSize = 0
  case neg =>
    unfold constructWith at h
    rw [if_pos hsize] at h
    cases h
  have h' := h
  unfold constructWith at h'
  rw [if_neg (not_not.2 hsize), calm_bind (calm_modify _)] at h'
  obtain ⟨found, v, hv, h'⟩ := calm_bind_ok.1 h'
  rw [calm_bind (calm_modify _)] at h'
  obtain ⟨⟨⟩, w, hw, -⟩ := calm_bind_ok.1 h'
  obtain ⟨hro, hnone⟩ := readMetadata_found hv
  obtain ⟨hro', ns, hns⟩ : w.readOnly = false ∧ ∃ ns, w.liveChain fuel = .ok ns := by
    cases found with
    | true =>
      obtain ⟨hro', hns⟩ := openLiveChain_ok hw
      exact ⟨hro'.trans hro, hns⟩
    | false =>
      rw [if_neg Bool.false_ne_true] at hw
      split_ifs at hw
      · cases hw
      · exact createDisk_liveChain (r := v.allocLocation size) hpos hro (hnone rfl).1
          (hnone rfl).2 hw
  rw [constructWith_eq hsize hv hw hro'] at h
  cases h
  obtain ⟨ms, hms⟩ := finished_liveChain hns
  exact ⟨ms, hms, liveChain_nodup hms⟩

/-! ## Opening -/

theorem openImgs_ends : ∀ (ns : List DiskName) (r : Replica), ∃ u, openImgs ns .calm r = (.ok (), u)
  | [], r => ⟨r, rfl⟩
  | n :: ns, r => by
    obtain ⟨u, hu⟩ := openImgs_ends ns (createImg n r)
    exact ⟨u, (calm_bind (calm_call ..) _).trans hu⟩

theorem openLiveChain_runsOut (h : (openLiveChain fuel .calm r).1 = .err "out of fuel") :
    r.liveChain fuel = .error "out of fuel" := by
  unfold openLiveChain at h
  rw [calm_bind calm_get] at h
  unfold liveChain
  cases hh : r.info.head with
  | none =>
    rw [hh] at h
    cases h
  | some n =>
    rw [hh] at h
    dsimp only at h ⊢
    cases hc : chain r.diskData fuel n with
    | error e =>
      rw [hc] at h
      cases h
      rfl
    | ok ns =>
      rw [hc] at h
      dsimp only at h
      split_ifs at h
      · have h : "Live chain is too long: " ++ toString ns.length = "out of fuel" := Exit.err.inj h
        have h := congrArg String.toList h
        simp at h
      · obtain ⟨u, hu⟩ := openImgs_ends ns.reverse r
        rw [calm_bind hu] at h
        cases h

/-- `construct` is out of fuel, in `readMetadata` or in `openLiveChain`. Nothing else in it is
bounded. -/
def Exhausts (r : Replica) (size sectorSize fuel : ℕ) : Prop :=
  (readMetadata fuel .calm (r.blank size sectorSize)).1 = .err "out of fuel" ∨
    ∃ u, readMetadata fuel .calm (r.blank size sectorSize) = (.ok true, u) ∧
      (openLiveChain fuel .calm (u.allocLocation size)).1 = .err "out of fuel"

/-- Opening the directory `r.dir` comes to an end, and what is opened has a chain without a
repetition. The number of steps of the loops is bounded by a number that is the same for all of
them. -/
def Opens (r : Replica) : Prop :=
  ∃ bound, ∀ fuel ≥ bound, ∀ size sectorSize,
    (∃ res u, readMetadataFiles fuel .calm (r.blank size sectorSize) = (res, u) ∧ res ≠ .ok none ∧
      u.liveChain fuel ≠ .error "out of fuel" ∧ (∀ h, u.info.head = some h →
        logChain u.diskData fuel h ≠ none) ∧
      (openLiveChain fuel .calm (u.allocLocation size)).1 ≠ .err "out of fuel") ∧
    ¬r.Exhausts size sectorSize fuel ∧
    ∀ backing preload created t,
      constructWith backing preload size sectorSize fuel created .calm r = (.ok (), t) →
      ∃ ns, t.liveChain fuel = .ok ns ∧ ns.Nodup

theorem readMetadataFiles_spec (r : Replica) (size sectorSize fuel : ℕ) :
    ∃ res u, readMetadataFiles fuel .calm (r.blank size sectorSize) = (res, u) ∧
    Read (r.blank size sectorSize) u ∧
      res ≠ .err "out of fuel" ∧ (res = .ok none ↔ (walk r.dir.after fuel r.dir.first).isSome) := by
  obtain ⟨res, u, hfiles, hread, hfuel, hres, -⟩ := readFiles_spec fuel r.dir.first
    (r := r.blank size sectorSize) rfl fun _ _ h => by cases h
  unfold readMetadataFiles
  rw [calm_bind calm_get]
  cases res with
  | ok done =>
    refine ⟨_, u, (calm_bind hfiles _).trans rfl, hread, nofun, ?_⟩
    rw [show (walk r.dir.after fuel r.dir.first).isSome = true ↔ _ from hres.symm]
    cases done <;> simp
  | err e =>
    refine ⟨.err e, u, bind_of_err hfiles _, hread, fun he => hfuel ?_,
      ⟨nofun, fun h => by cases hres.2 h⟩⟩
    rw [Exit.err.inj he]
  | crash =>
    exact ⟨.crash, u, bind_of_crash hfiles _, hread, nofun, ⟨nofun, fun h => by cases hres.2 h⟩⟩

theorem walk_hasFile : ∀ {k : ℕ} {f : MetaFile}, walk dir.after k dir.first = some f →
    dir.hasFile f = true
  | 0, f, hf => by
    unfold walk Dir.first at hf
    split_ifs at hf with h
    cases hf
    exact h
  | k + 1, f, hf => by
    rw [walk_succ'] at hf
    obtain ⟨g, -, hg⟩ := Option.bind_eq_some_iff.1 hf
    cases g with
    | volume =>
      obtain ⟨h, -, hh⟩ := Option.bind_eq_some_iff.1 hg
      exact hasFile_of_lookFor hh
    | disk n =>
      obtain ⟨p, -, hp⟩ := Option.bind_eq_some_iff.1 hg
      exact hasFile_of_lookFor hp

/-- There are finitely many metadata files. -/
theorem finite_hasFile (hfin : {n | (dir.metaFile n).isSome}.Finite) :
    {f | dir.hasFile f = true}.Finite := by
  refine ((hfin.image MetaFile.disk).insert .volume).subset fun f hf => ?_
  cases f with
  | volume => exact .inl rfl
  | disk n => exact .inr ⟨n, hf, rfl⟩

/-- Opening a directory ends well if and only if the head and the parents, from `volume.meta` on, do
not lead to a metadata file for the second time. -/
theorem opening_iff (hfin : {n | (r.dir.metaFile n).isSome}.Finite) :
    Opens r ↔ ¬Repeats r.dir.after r.dir.first := by
  have hends := ends_iff (finite_hasFile hfin)
    fun k f (hf : walk r.dir.after k r.dir.first = some f) => walk_hasFile hf
  constructor
  · rintro ⟨bound, hopen⟩
    obtain ⟨⟨res, u, hu, hres, -⟩, -⟩ := hopen bound le_rfl 0 0
    obtain ⟨res', u', hu', -, -, hiff⟩ := readMetadataFiles_spec r 0 0 bound
    rw [hu] at hu'
    cases hu'
    exact hends.1 ⟨bound, by simpa using mt hiff.2 hres⟩
  · intro hrep
    obtain ⟨k, hk⟩ := hends.2 hrep
    refine ⟨k + 1, fun fuel hfuel size sectorSize => ?_⟩
    have hend : walk r.dir.after fuel r.dir.first = none := walk_of_le hk (by omega)
    obtain ⟨res, u, hu, hread, hfiles, hiff⟩ := readMetadataFiles_spec r size sectorSize fuel
    have hchain : u.liveChain fuel ≠ .error "out of fuel" := by
      unfold liveChain
      cases hh : u.info.head with
      | none => exact nofun
      | some h =>
        rcases hread.info with he | he
        · rw [he] at hh
          cases hh
        · exact hread.chain_ends (by exact hrep) he hh (by omega) (by exact hend)
    have hopen : (openLiveChain fuel .calm (u.allocLocation size)).1 ≠ .err "out of fuel" :=
      fun hout => hchain (openLiveChain_runsOut (r := u.allocLocation size) hout)
    refine ⟨⟨res, u, hu, fun hres => ?_, hchain, fun h hh hlog => ?_, hopen⟩, ?_,
      fun backing preload created t ht => constructWith_liveChain (by omega) ht⟩
    · have hsome := hiff.1 hres
      rw [hend] at hsome
      cases hsome
    · refine hchain ?_
      unfold liveChain
      rw [hh]
      exact logChain_runsOut hlog
    · obtain ⟨f, rfl⟩ : ∃ f, fuel = f + 1 := ⟨fuel - 1, by omega⟩
      have heq := readMetadata_eq hrep hend size sectorSize
      unfold Exhausts
      rw [heq, bind_apply, hu]
      rintro (hout | ⟨v, hv, hout⟩)
      · cases res with
        | ok found => cases hout
        | err e => exact hfiles (congrArg Exit.err (Exit.err.inj hout))
        | crash => cases hout
      · cases res with
        | ok found =>
          obtain rfl : u = v := congrArg Prod.snd hv
          exact hopen hout
        | err e => cases hv
        | crash => cases hv

/-- A directory with the metadata of the head `volume-head-000.img`, whose parent is `p`, and no
other disk. -/
def oneDisk (p : Option DiskName) : Replica :=
  ((empty 8).setMeta (.head 0) (some ⟨.head 0, p, false, false, "", 2⟩)).setVolumeMeta
    ⟨8192, some (.head 0), false, false, p, 4096, "", none, 2⟩

theorem oneDisk_finite (p : Option DiskName) :
    {n | ((oneDisk p).dir.metaFile n).isSome}.Finite := by
  refine (Set.finite_singleton (.head 0)).subset fun n hn => ?_
  by_contra hne
  have hnone : (oneDisk p).dir.metaFile n = none :=
    Dir.metaFile_eq_none.2 ⟨update_of_ne hne .., rfl⟩
  have hn : ((oneDisk p).dir.metaFile n).isSome := hn
  rw [hnone] at hn
  cases hn

/-- The parent of the head is missing, and opening the directory ends. -/
theorem opening_iff_missing_parent : Opens (oneDisk (some (.snap "a"))) := by
  refine (opening_iff (oneDisk_finite _)).2 fun hrep => ?_
  have hend : walk (oneDisk (some (.snap "a"))).dir.after 2 (oneDisk (some (.snap "a"))).dir.first =
      none := by
    decide
  have hsome := hrep.isSome 2
  rw [hend] at hsome
  cases hsome

/-- The head is its own parent, and `readMetadata` goes round. -/
theorem selfParent_never_opens : {n | ((oneDisk (some (.head 0))).dir.metaFile n).isSome}.Finite ∧
    ¬Opens (oneDisk (some (.head 0))) := by
  refine ⟨oneDisk_finite _, ?_⟩
  rintro ⟨bound, hopen⟩
  obtain ⟨⟨res, u, hu, hres, -⟩, -⟩ := hopen bound le_rfl 0 0
  obtain ⟨res', u', hu', -, -, hiff⟩ := readMetadataFiles_spec (oneDisk (some (.head 0))) 0 0 bound
  have hrep : Repeats (oneDisk (some (.head 0))).dir.after (oneDisk (some (.head 0))).dir.first :=
    ⟨1, 2, by decide, by decide, by decide⟩
  rw [hu] at hu'
  cases hu'
  exact hres (hiff.2 (hrep.isSome bound))

end

end Replica

end Jiva
