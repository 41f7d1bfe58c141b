import Jiva.ReplicaSpec

/-!
# A snapshot that fails

`createDisk` makes a new head, links the old head to the name of the snapshot, changes the
tables in memory, and writes the metadata. When it fails it removes the new head and the
snapshot, whatever files this call has made. So it undoes what it did (`Undone`) only if the
failing call comes before the tables change, and the files it removes were not there before.
Then, and only then, an error leaves the replica as it was (`createDisk_unchanged`). A snapshot
under a name that is taken removes the snapshot of that name (`snapshot_taken`).
-/

namespace Jiva

open Faults Function

variable {n : DiskName}

/-- The disk image and the metadata under a name. -/
def Dir.contents (dir : Dir) (n : DiskName) : Option SparseFile × Option (Option Disk) :=
  ((dir.img n).map dir.store, dir.metaFile n)

theorem Dir.none_eq_contents {dir : Dir} {d : Option (Option Disk)} :
    (none, d) = dir.contents n ↔ dir.img n = none ∧ dir.metaFile n = d := by
  unfold Dir.contents
  rw [Prod.mk.injEq, eq_comm, Option.map_eq_none_iff, eq_comm (a := d)]

namespace Replica

/-- The directory has the same disk images and metadata, and the tables in memory are the same. -/
structure Unchanged (r r' : Replica) : Prop where
  contents : r'.dir.contents = r.dir.contents
  volumeMeta : r'.dir.volumeMeta = r.dir.volumeMeta
  torn : r'.dir.torn none = r.dir.torn none
  diskData : r'.diskData = r.diskData
  diskChildrenMap : r'.diskChildrenMap = r.diskChildrenMap
  activeDiskData : r'.activeDiskData = r.activeDiskData
  files : r'.volume.files = r.volume.files
  userCreatedSnap : r'.volume.userCreatedSnap = r.volume.userCreatedSnap
  snapIndx : r'.volume.snapIndx = r.volume.snapIndx
  usedBlocks : r'.volume.usedBlocks = r.volume.usedBlocks
  info : r'.info = r.info

/-- Head `k` is the open head of the replica : its files and its record are there, and the next
head is not a disk. Used inodes are below `nextIno`. -/
structure HeadOk (r : Replica) (k : ℕ) : Prop where
  head : r.info.head = some (.head k)
  img : (r.dir.img (.head k)).isSome
  diskMeta : (r.dir.diskMeta (.head k)).isSome
  next : r.diskData (.head (k + 1)) = none
  inodes : ∀ n i, r.dir.img n = some i → i < r.dir.nextIno

/-- The name of the head that comes next. -/
def nextHead (r : Replica) : DiskName :=
  match r.info.head with
  | some (.head k) => .head (k + 1)
  | _ => .head 0

/-- The failing call of a snapshot under `name` is one whose effects are undone. A leftover of the
next head must still be there, so the call must come before its removal, or be the `truncate` of a
head that is as empty as the leftover. Without one, the metadata of the next head must not have been
there if the call comes after it, and no file of the snapshot if the call is a link. A name that is
taken stays if its removal fails. -/
def Undone (r : Replica) (name : String) (fate : Fate Site) : Prop :=
  fate = .failAt .syncDir ∨ r.readOnly = true ∨ r.maxChainLen < r.activeDiskData.length + 2 ∨
    match r.dir.img r.nextHead with
    | some i =>
      (0 < r.getDiskSize r.nextHead ∧ fate ≠ .failAt (.stat .staleHead) ∧
        fate ≠ .failAt (.stat .diskSize)) ∨
      fate = .failAt (.rm .staleHead .img) ∨
      (fate = .failAt .truncate ∧ r.dir.store i = SparseFile.empty 0 ∧
        r.dir.metaFile r.nextHead = none)
    | none =>
      fate = .failAt .openFile ∨
      (r.dir.metaFile r.nextHead = none ∧
        ((∃ p, fate = .failAt (.encode .newHead p)) ∨
        (r.dir.img (.snap name) = none ∧ r.dir.metaFile (.snap name) = none ∧
          ∃ p, fate = .failAt (.link p)) ∨
        fate = .failAt (.rm .newSnap .img) ∨
        (r.dir.img (.snap name) = none ∧ fate = .failAt (.rm .newSnap .diskMeta))))

/-! ## What differs -/

section Unchanged

variable {r r' : Replica}
variable {S : DiskName → Prop}

theorem Unchanged.refl (r : Replica) : r.Unchanged r :=
  ⟨rfl, rfl, rfl, rfl, rfl, rfl, rfl, rfl, rfl, rfl, rfl⟩

theorem Unchanged.isSome_img (h : r.Unchanged r') (n : DiskName) :
    (r'.dir.img n).isSome = (r.dir.img n).isSome := by
  have := congrArg Prod.fst (congrFun h.contents n)
  rw [← Option.isSome_map (f := r'.dir.store), ← Option.isSome_map (f := r.dir.store)]
  exact congrArg Option.isSome this

theorem Unchanged.metaFile_eq (h : r.Unchanged r') (n : DiskName) :
    r'.dir.metaFile n = r.dir.metaFile n :=
  congrArg Prod.snd (congrFun h.contents n)

/-- Outside the names in `S` the directory is the same, and so is the memory. -/
structure Off (r r' : Replica) (S : DiskName → Prop) : Prop where
  mem : r' = { r with dir := r'.dir }
  dir : r.dir.Off r'.dir S

theorem Off.refl (r : Replica) (S : DiskName → Prop) : r.Off r S :=
  ⟨rfl, Dir.Off.refl _ _⟩

section

variable (h : r.Off r' S)
include h

theorem Off.setImg (hn : S n) (i : Option ℕ) : r.Off (r'.setImg n i) S :=
  ⟨by rw [h.mem]; rfl, off_setImg h.dir hn i⟩

theorem Off.putMeta (hn : S n) (d : Option Disk) : r.Off (r'.putMeta n d) S := by
  refine ⟨?_, off_putMeta h.dir hn d⟩
  cases d <;> (rw [h.mem]; rfl)

theorem Off.clear (hn : S n) : r.Off (r'.clear n) S :=
  ⟨by rw [h.mem]; rfl, off_clear h.dir hn⟩

theorem Off.openTrunc (hn : S n) : r.Off (r'.openTrunc n) S :=
  ⟨by rw [(openTrunc_eq r' n).1, h.mem], off_openTrunc h.dir hn⟩

theorem Off.truncate (f size : ℕ) : r.Off (r'.truncate f size) S :=
  ⟨by rw [h.mem]; rfl, h.dir.volumeMeta, h.dir.torn, h.dir.img, h.dir.metaFile⟩

/-- Where the contents of the names in `S` are as they were too, nothing has changed. -/
theorem Off.unchanged (hk : r.dir.Kept r'.dir)
    (hino : ∀ n i, r.dir.img n = some i → i < r.dir.nextIno)
    (hS : ∀ n, S n → r'.dir.contents n = r.dir.contents n) : r.Unchanged r' := by
  have hc : r'.dir.contents = r.dir.contents := funext fun n => by
    by_cases hn : S n
    · exact hS n hn
    · unfold Dir.contents
      rw [h.dir.img n hn, h.dir.metaFile n hn]
      cases hi : r.dir.img n with
      | none => rfl
      | some i => rw [Option.map_some, Option.map_some, hk i (hino n i hi)]
  have hm := h.mem
  exact ⟨hc, h.dir.volumeMeta,
    h.dir.torn, by rw [hm], by rw [hm], by rw [hm], by rw [hm], by rw [hm], by rw [hm],
    by rw [hm], by rw [hm]⟩

end

end Unchanged

/-! ## The new head -/

section Stages

variable {r₀ : Replica} {k : ℕ} {name : String}
variable {fate : Fate Site} {r : Replica}

theorem HeadOk.nextHead (h : r₀.HeadOk k) : r₀.nextHead = .head (k + 1) := by
  unfold Replica.nextHead
  rw [h.head]

/-- The state after the leftover of the next head is gone : there was none and nothing was done, or
there was one, and only the `truncate` can be undone from now on. -/
def Started (r₀ : Replica) (name : String) (fate : Fate Site) (r : Replica) : Prop :=
  (r₀.dir.img r₀.nextHead = none ∧ r = r₀) ∨
  ∃ i, r₀.dir.img r₀.nextHead = some i ∧
    (r₀.Undone name fate ↔ fate = .failAt .truncate ∧ r₀.dir.store i = SparseFile.empty 0 ∧
      r₀.dir.metaFile r₀.nextHead = none) ∧
    (r = r₀.clear r₀.nextHead ∨ fate = .failAt (.stat .staleHead) ∧ r = r₀)

/-- The guards of `createDisk` are passed. -/
structure Passed (r₀ : Replica) (fate : Fate Site) : Prop where
  sync : fate ≠ .failAt .syncDir
  readOnly : r₀.readOnly = false
  chainLen : ¬r₀.maxChainLen < r₀.activeDiskData.length + 2

theorem Passed.undone_some (h : r₀.Passed fate) {i : ℕ} (hi : r₀.dir.img r₀.nextHead = some i) :
    r₀.Undone name fate ↔
    (0 < r₀.getDiskSize r₀.nextHead ∧ fate ≠ .failAt (.stat .staleHead) ∧
      fate ≠ .failAt (.stat .diskSize)) ∨
    fate = .failAt (.rm .staleHead .img) ∨
    (fate = .failAt .truncate ∧ r₀.dir.store i = SparseFile.empty 0 ∧
      r₀.dir.metaFile r₀.nextHead = none) := by
  unfold Undone
  rw [hi]
  simp [h.sync, h.readOnly, h.chainLen]

theorem Passed.undone_none (h : r₀.Passed fate) (hi : r₀.dir.img r₀.nextHead = none) :
    r₀.Undone name fate ↔
      fate = .failAt .openFile ∨
      (r₀.dir.metaFile r₀.nextHead = none ∧
        ((∃ p, fate = .failAt (.encode .newHead p)) ∨
        (r₀.dir.img (.snap name) = none ∧ r₀.dir.metaFile (.snap name) = none ∧
          ∃ p, fate = .failAt (.link p)) ∨
        fate = .failAt (.rm .newSnap .img) ∨
        (r₀.dir.img (.snap name) = none ∧ fate = .failAt (.rm .newSnap .diskMeta)))) := by
  unfold Undone
  rw [hi]
  simp [h.sync, h.readOnly, h.chainLen]

/-- What is to be shown of an error. -/
def Exact (r₀ : Replica) (name : String) (fate : Fate Site) (r : Replica) : Prop :=
  r₀.Unchanged r ↔ r₀.Undone name fate

theorem Exact.of_undone (h : r₀.Undone name fate) : r₀.Exact name fate r₀ :=
  iff_of_true (Unchanged.refl r₀) h

/-- An image that was there is gone. -/
theorem Exact.of_img (hn : (r.dir.img n).isSome ≠ (r₀.dir.img n).isSome)
    (h : ¬r₀.Undone name fate) : r₀.Exact name fate r :=
  iff_of_false (fun hu => hn (hu.isSome_img n)) h

theorem rmStaleHead_exact :
    Spec (fun fate r => r = r₀ ∧ r₀.Passed fate) (rmStaleHead r₀.nextHead)
      (fun _ fate r => r₀.Started name fate r ∧ r₀.Passed fate)
      (fun _ fate r => r₀.Exact name fate r) (fun _ _ => True) := by
  unfold rmStaleHead
  cases hi : r₀.dir.img r₀.nextHead with
  | none =>
    -- there is no leftover, whether or not the lookup fails
    refine .bind (.query (Q := fun found fate r =>
      found = false ∧ r = r₀ ∧ r₀.Passed fate) ?_ ?_ fun _ _ => trivial) fun found => ?_
    · rintro fate _ ⟨rfl, hp⟩ -
      exact ⟨by simp [hi], rfl, hp⟩
    · rintro _ ⟨rfl, hp⟩
      exact ⟨rfl, rfl, hp⟩
    · rintro fate _ ⟨rfl, rfl, hp⟩
      exact ⟨.inl ⟨hi, rfl⟩, hp⟩
  | some i =>
    refine .bind (.query (Q := fun found fate r => r = r₀ ∧ r₀.Passed fate ∧
      (found = false ↔ fate = .failAt (.stat .staleHead))) ?_ ?_ fun _ _ => trivial)
      fun found => .ite (fun hf => ?_) fun hf => ?_
    · rintro fate _ ⟨rfl, hp⟩ hne
      exact ⟨rfl, hp, by simp [hi, hne]⟩
    · rintro _ ⟨rfl, hp⟩
      exact ⟨rfl, hp, by simp⟩
    · refine .bind (.query (Q := fun size fate r => r = r₀ ∧ r₀.Passed fate ∧
        fate ≠ .failAt (.stat .staleHead) ∧ (0 < size ↔ 0 < r₀.getDiskSize r₀.nextHead ∧
          fate ≠ .failAt (.stat .diskSize))) ?_ ?_ fun _ _ => trivial)
        fun size => .ite (fun hs => ?_) fun hs => ?_
      · rintro fate _ ⟨rfl, hp, hfound⟩ hne
        exact ⟨rfl, hp, fun he => by simp [hfound.2 he] at hf, by simp [hne]⟩
      · rintro _ ⟨rfl, hp, hfound⟩
        exact ⟨rfl, hp, by simp, by simp⟩
      · refine .throw ?_
        rintro fate _ ⟨rfl, hp, hstat, hsize⟩
        exact Exact.of_undone ((hp.undone_some hi).2 (.inl ⟨(hsize.1 hs).1, hstat, (hsize.1 hs).2⟩))
      · refine .handle (E := fun _ fate r => r₀.Exact name fate r) (rmDisk_spec ?_ ?_ ?_)
          fun _ => .throw fun _ _ => id
        · rintro fate r ⟨rfl, hp, hstat, hsize⟩ hrm
          refine ⟨.inr ⟨i, hi, ?_, .inl rfl⟩, hp⟩
          have hno : ¬(0 < r.getDiskSize r.nextHead ∧ fate ≠ .failAt (.stat .staleHead) ∧
              fate ≠ .failAt (.stat .diskSize)) := fun h => hs (hsize.2 ⟨h.1, h.2.2⟩)
          rw [hp.undone_some hi, or_iff_right hno, or_iff_right (hrm .img)]
        · intro r
          refine ⟨?_, ?_, ?_⟩
          · rintro ⟨rfl, hp, -, -⟩
            exact Exact.of_undone ((hp.undone_some hi).2 (.inr (.inl rfl)))
          all_goals
            rintro ⟨rfl, hp, hstat, hsize⟩
            refine Exact.of_img (n := r.nextHead) (by simp [hi]) fun hu => ?_
            rcases (hp.undone_some hi).1 hu with h | h | h
            · exact hs (hsize.2 ⟨h.1, h.2.2⟩)
            · cases h
            · cases h.1
        · exact fun _ _ _ => ⟨trivial, trivial⟩
    · refine .pure ?_
      rintro fate _ ⟨rfl, hp, hfound⟩
      have hfate := hfound.1 (by simpa using hf)
      refine ⟨.inr ⟨i, hi, ?_, .inr ⟨hfate, rfl⟩⟩, hp⟩
      rw [hp.undone_some hi, hfate]
      simp

/-- The image of the new head is there. -/
structure Headed (r₀ : Replica) (name : String) (fate : Fate Site) (r : Replica) : Prop where
  off : r₀.Off r (· = r₀.nextHead)
  kept : r₀.dir.img r₀.nextHead = none → r₀.dir.Kept r.dir
  img : (r.dir.img r₀.nextHead).isSome
  passed : r₀.Passed fate
  opened : fate ≠ .failAt .openFile
  not_undone : r₀.dir.img r₀.nextHead ≠ none → ¬r₀.Undone name fate

theorem Started.off (h : r₀.Started name fate r) : r₀.Off r (· = r₀.nextHead) := by
  rcases h with ⟨-, rfl⟩ | ⟨i, -, -, rfl | ⟨-, rfl⟩⟩
  · exact Off.refl _ _
  · exact (Off.refl _ _).clear rfl
  · exact Off.refl _ _

theorem openHead_exact (h : r₀.HeadOk k) :
    Spec (fun fate r => r₀.Started name fate r ∧ r₀.Passed fate) (openHead r₀.nextHead)
      (fun _ fate r => r₀.Headed name fate r) (fun _ fate r => r₀.Exact name fate r)
      (fun _ _ => True) := by
  unfold openHead
  refine .bind (.call (Q := fun _ fate r => ∃ s, r = s.openTrunc r₀.nextHead ∧
    r₀.Started name fate s ∧ r₀.Passed fate ∧ fate ≠ .failAt .openFile) ?_ ?_ fun _ _ => trivial)
    fun _ => .get fun r =>
    .bind (.call (Q := fun _ fate t => r₀.Headed name fate t) ?_ ?_
      fun _ _ => trivial) fun _ => .pure fun _ _ => id
  · rintro fate s ⟨hs, hp⟩ hne
    exact ⟨s, rfl, hs, hp, hne⟩
  · -- nothing was done yet, or only the leftover was removed
    rintro s ⟨⟨hi, rfl⟩ | ⟨i, hi, hu, rfl | ⟨hfate, -⟩⟩, hp⟩
    · exact Exact.of_undone ((hp.undone_none hi).2 (.inl rfl))
    · exact Exact.of_img (n := r₀.nextHead) (by simp [hi]) (by simp [hu])
    · cases hfate
  · rintro fate _ ⟨rfl, s, rfl, hs, hp, hne⟩ htrunc
    refine ⟨(hs.off.openTrunc rfl).truncate _ _, fun hi j hj => ?_, ?_, hp, hne, fun hi hu => ?_⟩
    · rcases hs with ⟨-, rfl⟩ | ⟨i, hi', -⟩
      · rw [openTrunc_ino, hi]
        show update _ _ _ j = _
        rw [update_of_ne (by simp; omega)]
        exact kept_openTrunc hi le_rfl (fun _ _ => rfl) j hj
      · simp [hi] at hi'
    · show ((s.openTrunc r₀.nextHead).dir.img r₀.nextHead).isSome
      simp [openTrunc_img]
    · rcases hs with ⟨hi', -⟩ | ⟨i, -, hu', -⟩
      · exact hi hi'
      · exact htrunc (hu'.1 hu).1
  · rintro _ ⟨rfl, s, rfl, ⟨hi, rfl⟩ | ⟨i, hi, hu, rfl | ⟨hfate, -⟩⟩, hp, -⟩
    · refine Exact.of_img (n := s.nextHead) (by simp [openTrunc_img, hi]) fun hu => ?_
      simpa using (hp.undone_none hi).1 hu
    · -- the leftover has been replaced by an empty file without metadata
      have hcon : ((r₀.clear r₀.nextHead).openTrunc r₀.nextHead).dir.contents r₀.nextHead =
          (some (SparseFile.empty 0), none) := by
        unfold Dir.contents
        rw [openTrunc_img, (openTrunc_eq _ _).2.2.2.2]
        simp [openTrunc_store]
      have hoff : r₀.Off ((r₀.clear r₀.nextHead).openTrunc r₀.nextHead) (· = r₀.nextHead) :=
        ((Off.refl r₀ (· = r₀.nextHead)).clear rfl).openTrunc rfl
      have hk : r₀.dir.Kept ((r₀.clear r₀.nextHead).openTrunc r₀.nextHead).dir :=
        kept_openTrunc (by simp) le_rfl fun _ _ => rfl
      have hcon₀ : r₀.dir.contents r₀.nextHead =
          (some (r₀.dir.store i), r₀.dir.metaFile r₀.nextHead) := by
        simp [Dir.contents, hi]
      constructor
      · intro hun
        have := congrFun hun.contents r₀.nextHead
        rw [hcon, hcon₀, Prod.mk.injEq, Option.some.injEq] at this
        exact hu.2 ⟨rfl, this.1.symm, this.2.symm⟩
      · intro hun
        obtain ⟨-, h1, h2⟩ := hu.1 hun
        refine hoff.unchanged hk h.inodes fun n hn => ?_
        rw [hn, hcon, hcon₀, h1, h2]
    · cases hfate

theorem Headed.putMeta (h : r₀.Headed name fate r)
    (d : Option Disk) : r₀.Headed name fate (r.putMeta r₀.nextHead d) := by
  refine ⟨h.off.putMeta rfl d, fun hi => ?_, ?_, h.passed, h.opened, h.not_undone⟩
  · cases d <;> exact h.kept hi
  · cases d <;> exact h.img

theorem createNewHead_exact (h : r₀.HeadOk k) (name : String) (parent : Option DiskName)
    (created : String) : Spec (fun fate r => r = r₀ ∧ r₀.Passed fate)
      (createNewHead r₀.info.head parent created)
      (fun x fate r => x.2.name = r₀.nextHead ∧ r₀.Headed name fate r ∧
        ∀ p, fate ≠ .failAt (.encode .newHead p))
      (fun e fate r => (e.1 = none ∧ r₀.Exact name fate r) ∨
        (e.1 = some r₀.nextHead ∧ r₀.Headed name fate r ∧ ∃ p, fate = .failAt (.encode .newHead p)))
      (fun _ _ => True) := by
  unfold createNewHead
  rw [h.head, nextFile, ← h.nextHead]
  refine .bind (.handle rmStaleHead_exact fun e => .throw fun fate r he =>
    Or.inl ⟨rfl, he⟩) fun _ => .bind (.handle (openHead_exact h) fun e =>
      .throw fun fate r he => .inl ⟨rfl, he⟩) fun f => .get fun r =>
        .bind (.handle (E := fun _ fate s => r₀.Headed name fate s ∧
          ∃ p, fate = .failAt (.encode .newHead p)) (encodeToFile_spec
            (Q := fun _ fate s => r₀.Headed name fate s ∧ ∀ p, fate ≠ .failAt (.encode .newHead p))
            ?_ ?_ ?_ ?_ fun _ _ _ => ⟨trivial, trivial⟩)
          fun e => .throw fun fate s he => .inr ⟨rfl, he⟩) fun _ =>
            .pure fun fate s hs => ⟨rfl, hs⟩
  · rintro fate _ ⟨rfl, hr⟩
    rw [hr.off.mem]
    exact hr.passed.readOnly
  · rintro fate _ ⟨rfl, hr⟩ hne
    exact ⟨hr.putMeta (some _), hne⟩
  · rintro _ ⟨rfl, hr⟩
    exact ⟨hr.putMeta none, nofun⟩
  · rintro _ p ⟨rfl, hr⟩
    exact ⟨⟨hr, p, rfl⟩, hr.putMeta (some _), p, rfl⟩

/-- The new head is removed again when its metadata could not be encoded. -/
theorem Headed.exact_clear (h : r₀.HeadOk k) (hr : r₀.Headed name fate r) {p : EncodePart}
    (hfate : fate = .failAt (.encode .newHead p)) : r₀.Exact name fate (r.clear r₀.nextHead) := by
  cases hi : r₀.dir.img r₀.nextHead with
  | some i => exact Exact.of_img (n := r₀.nextHead) (by simp [hi]) (hr.not_undone (by simp [hi]))
  | none =>
    have hiff : r₀.Undone name fate ↔ r₀.dir.metaFile r₀.nextHead = none := by
      rw [hr.passed.undone_none hi, hfate]
      simp
    unfold Exact
    rw [hiff]
    constructor
    · intro hu
      rw [← hu.metaFile_eq]
      simp
    · intro hm
      refine (hr.off.clear rfl).unchanged (hr.kept hi) h.inodes fun n hn => ?_
      subst hn
      simp [Dir.contents, hi, hm]

/-- What `createDisk` does about an error of `createNewHead`. -/
theorem undoHead_exact {Q : ℕ × Disk → Fate Site → Replica → Prop} (h : r₀.HeadOk k)
    (e : Option DiskName × String) :
    Spec (fun fate r => (e.1 = none ∧ r₀.Exact name fate r) ∨
        (e.1 = some r₀.nextHead ∧ r₀.Headed name fate r ∧ ∃ p, fate = .failAt (.encode .newHead p)))
      (do
        (rmDisk .newHead e.1).attempt
        Act.throw e.2)
      Q (fun _ fate r => r₀.Exact name fate r) (fun _ _ => True) := by
  refine .bind (Q := fun _ fate r => r₀.Exact name fate r) (.attempt ?_)
    fun _ => .throw fun _ _ => id
  cases he : e.1 with
  | none =>
    refine .pure ?_
    rintro fate r (⟨-, hr⟩ | ⟨he', -⟩)
    · exact hr
    · cases he'
  | some n =>
    refine rmDisk_spec ?_ (fun r => ⟨?_, ?_, ?_⟩) fun _ _ _ => ⟨trivial, trivial⟩
    · rintro fate r (⟨he', -⟩ | ⟨he', hr, p, hp⟩) -
      · cases he'
      · obtain rfl : n = r₀.nextHead := Option.some.inj he'
        exact hr.exact_clear h hp
    all_goals
      rintro (⟨he', -⟩ | ⟨-, -, p, hp⟩)
      · cases he'
      · cases hp

/-! ## The link and the cleanup -/

/-- The files of the new head and of the snapshot. -/
def Touched (r₀ : Replica) (name : String) (n : DiskName) : Prop :=
  n = r₀.nextHead ∨ n = .snap name

/-- `linkDisk` has failed : the name is taken, or one of its calls failed. -/
structure LinkErr (r₀ : Replica) (name : String) (fate : Fate Site) (r : Replica) : Prop where
  off : r₀.Off r (r₀.Touched name)
  kept : r₀.dir.img r₀.nextHead = none → r₀.dir.Kept r.dir
  img : (r.dir.img r₀.nextHead).isSome
  passed : r₀.Passed fate
  opened : fate ≠ .failAt .openFile
  encoded : ∀ p, fate ≠ .failAt (.encode .newHead p)
  not_undone : r₀.dir.img r₀.nextHead ≠ none → ¬r₀.Undone name fate
  cause : r₀.dir.img (.snap name) = none → r₀.dir.metaFile (.snap name) = none →
    ∃ p, fate = .failAt (.link p)
  snap : (r.dir.img (.snap name) = r₀.dir.img (.snap name) ∧
    r.dir.metaFile (.snap name) = r₀.dir.metaFile (.snap name)) ∨
    fate = .failAt (.stat .snapMeta) ∨ ∃ p, fate = .failAt (.link p)

theorem HeadOk.snap_ne (h : r₀.HeadOk k) (name : String) : DiskName.snap name ≠ r₀.nextHead := by
  rw [h.nextHead]
  exact nofun

theorem Headed.linkErr {t : Replica} (h : r₀.HeadOk k)
    (hr : r₀.Headed name fate r) (henc : ∀ p, fate ≠ .failAt (.encode .newHead p))
    (hoff : r.Off t (· = .snap name)) (hstore : t.dir.store = r.dir.store)
    (hcause : r₀.dir.img (.snap name) = none → r₀.dir.metaFile (.snap name) = none →
      ∃ p, fate = .failAt (.link p))
    (hsnap : t = r ∨ fate = .failAt (.stat .snapMeta) ∨ ∃ p, fate = .failAt (.link p)) :
    r₀.LinkErr name fate t := by
  have hne := h.snap_ne name
  refine ⟨⟨?_, hoff.dir.volumeMeta.trans hr.off.dir.volumeMeta, hoff.dir.torn.trans hr.off.dir.torn,
    fun n hn => ?_, fun n hn => ?_⟩,
    fun hi j hj => by rw [hstore]; exact hr.kept hi j hj, ?_, hr.passed, hr.opened, henc,
    hr.not_undone, hcause, ?_⟩
  · rw [hoff.mem, hr.off.mem]
  · rw [hoff.dir.img n fun he => hn (.inr he), hr.off.dir.img n fun he => hn (.inl he)]
  · rw [hoff.dir.metaFile n fun he => hn (.inr he), hr.off.dir.metaFile n fun he => hn (.inl he)]
  · rw [hoff.dir.img _ hne.symm]
    exact hr.img
  · rcases hsnap with rfl | hsnap
    · exact .inl ⟨hr.off.dir.img _ hne, hr.off.dir.metaFile _ hne⟩
    · exact .inr hsnap

theorem linkDisk_exact (h : r₀.HeadOk k) :
    Spec (fun fate r => r₀.Headed name fate r ∧ ∀ p, fate ≠ .failAt (.encode .newHead p))
      (linkDisk r₀.info.head (some (.snap name)))
      (fun _ fate r => r.readOnly = false ∧ r₀.Passed fate ∧
        (r₀.dir.img r₀.nextHead ≠ none → ¬r₀.Undone name fate))
      (fun _ fate r => r₀.LinkErr name fate r) (fun _ _ => True) := by
  have hne := h.snap_ne name
  rw [h.head, linkDisk]
  have hother : ∀ {r t : Replica} {fate : Fate Site}, r₀.Headed name fate r →
      LinkFails (.snap name) fate r t → r₀.dir.img (.snap name) = none →
      r₀.dir.metaFile (.snap name) = none → ∃ p, fate = .failAt (.link p) := by
    intro r t fate hr ht hi hm
    rw [← hr.off.dir.img _ hne] at hi
    rw [← hr.off.dir.metaFile _ hne] at hm
    cases ht with
    | taken h => simp [hi, hm] at h
    | takenMeta i h hf => exact absurd hm h
    | link p hf => exact ⟨p, hf⟩
    | linkMeta i p hf => exact ⟨p, hf⟩
    | sync i d p hf => exact ⟨p, hf⟩
  refine linkDisk_spec ?_ ?_ ?_ fun _ _ _ _ _ _ _ => ⟨trivial, fun _ => trivial, fun _ _ => trivial⟩
  · rintro fate r ⟨hr, -⟩
    have hk : DiskName.head k ≠ r₀.nextHead := by
      rw [h.nextHead]
      simp
    rw [hr.off.dir.img _ hk, hr.off.dir.metaFile _ hk]
    obtain ⟨d, hd⟩ := Option.isSome_iff_exists.1 h.diskMeta
    exact ⟨h.img, by rw [Dir.metaFile_of_some hd]; rfl⟩
  · rintro fate r i d ⟨hr, -⟩ - - - -
    refine ⟨?_, hr.passed, hr.not_undone⟩
    have hro : r.readOnly = false := by
      rw [hr.off.mem]
      exact hr.passed.readOnly
    cases d <;> exact hro
  · rintro e fate r t ⟨hr, henc⟩ ht
    have hcause := hother hr ht
    have hoff : r.Off r (· = .snap name) := Off.refl r _
    cases ht with
    | taken => exact hr.linkErr h henc hoff rfl hcause (.inl rfl)
    | takenMeta i _ hf =>
      exact hr.linkErr h henc (hoff.setImg rfl _) rfl hcause (.inr (.inl hf))
    | link p hf => exact hr.linkErr h henc hoff rfl hcause (.inl rfl)
    | linkMeta i p hf =>
      exact hr.linkErr h henc (hoff.setImg rfl _) rfl hcause (.inr (.inr ⟨p, hf⟩))
    | sync i d p hf =>
      exact hr.linkErr h henc ((hoff.setImg rfl _).putMeta rfl d) (by cases d <;> rfl) hcause
        (.inr (.inr ⟨p, hf⟩))

/-- The replica after the cleanup. The one call that fails may be one of the cleanup's. -/
def cleaned (n m : DiskName) (fate : Fate Site) (r : Replica) : Replica :=
  if fate = .failAt (.rm .newHead .img) then r.clear m
  else if fate = .failAt (.rm .newHead .diskMeta) then (r.setImg n none).clear m
  else if fate = .failAt (.rm .newSnap .img) then r.clear n
  else if fate = .failAt (.rm .newSnap .diskMeta) then (r.clear n).setImg m none
  else (r.clear n).clear m

theorem cleanup_spec {P : Fate Site → Replica → Prop}
    {E : String → Fate Site → Replica → Prop} (n m : DiskName) :
    Spec P (do
        (rmDisk .newHead (some n)).attempt
        (rmDisk .newSnap (some m)).attempt)
      (fun _ fate t => ∃ r, P fate r ∧ t = cleaned n m fate r) E (fun _ _ => True) := by
  refine .bind (Q := fun _ fate t => ∃ r, P fate r ∧ (t = r.clear n ∧
      (∀ p, fate = .failAt (.rm .newHead p) → p = .sync) ∨
      fate = .failAt (.rm .newHead .img) ∧ t = r ∨
      fate = .failAt (.rm .newHead .diskMeta) ∧ t = r.setImg n none)) (.attempt (rmDisk_spec
    ?_ ?_ fun _ _ _ => ⟨trivial, trivial⟩)) fun _ => .attempt (rmDisk_spec ?_ ?_
      fun _ _ _ => ⟨trivial, trivial⟩)
  · exact fun fate r hP hne => ⟨r, hP, .inl ⟨rfl, fun p hp => absurd hp (hne p)⟩⟩
  · refine fun r => ⟨fun hP => ⟨r, hP, .inr (.inl ⟨rfl, rfl⟩)⟩,
      fun hP => ⟨r, hP, .inr (.inr ⟨rfl, rfl⟩)⟩, fun hP => ⟨r, hP, .inl ⟨rfl, ?_⟩⟩⟩
    intro p hp
    simpa using hp.symm
  · rintro fate _ ⟨r, hP, ⟨rfl, hp⟩ | ⟨rfl, rfl⟩ | ⟨rfl, rfl⟩⟩ hne
    · refine ⟨r, hP, ?_⟩
      unfold cleaned
      rw [if_neg fun h => by simpa using hp _ h, if_neg fun h => by simpa using hp _ h,
        if_neg (hne _), if_neg (hne _)]
    · exact ⟨_, hP, rfl⟩
    · exact ⟨r, hP, rfl⟩
  · intro t
    refine ⟨?_, ?_, ?_⟩
    all_goals
      rintro ⟨r, hP, ⟨rfl, -⟩ | ⟨hf, -⟩ | ⟨hf, -⟩⟩
      · exact ⟨r, hP, rfl⟩
      · cases hf
      · cases hf

/-- With both files of the new head gone, it is up to its old metadata and to the snapshot. -/
theorem unchanged_iff (h : r₀.HeadOk k) (hi : r₀.dir.img r₀.nextHead = none)
    (hoff : r₀.Off r (r₀.Touched name)) (hk : r₀.dir.Kept r.dir)
    (himg : r.dir.img r₀.nextHead = none) (hmeta : r.dir.metaFile r₀.nextHead = none) :
    r₀.Unchanged r ↔ r₀.dir.metaFile r₀.nextHead = none ∧
      r.dir.contents (.snap name) = r₀.dir.contents (.snap name) := by
  constructor
  · exact fun hu => ⟨by rw [← hu.metaFile_eq, hmeta], congrFun hu.contents _⟩
  · rintro ⟨hm, hs⟩
    refine hoff.unchanged hk h.inodes ?_
    rintro n (rfl | rfl)
    · simp [Dir.contents, hi, himg, hmeta, hm]
    · exact hs

theorem LinkErr.exact (h : r₀.HeadOk k) (hr : r₀.LinkErr name fate r) :
    r₀.Exact name fate (cleaned r₀.nextHead (.snap name) fate r) := by
  have hne := h.snap_ne name
  -- where the snapshot is removed it must have been there, unless a link failed
  have htaken : ∀ t : Replica, t.dir.img (.snap name) = none → t.dir.metaFile (.snap name) = none →
      (∀ p, fate ≠ .failAt (.link p)) → ¬r₀.Unchanged t := fun t h1 h2 hf hu => by
    have h3 := hu.isSome_img (.snap name)
    rw [h1] at h3
    obtain ⟨p, hp⟩ := hr.cause (by simpa using h3.symm) (by rw [← hu.metaFile_eq, h2])
    exact hf p hp
  have hoffH : r₀.Off (r.clear r₀.nextHead) (r₀.Touched name) := hr.off.clear (.inl rfl)
  cases hi : r₀.dir.img r₀.nextHead with
  | some i =>
    have hun := hr.not_undone (by simp [hi])
    refine iff_of_false (fun hu => ?_) hun
    unfold cleaned at hu
    split_ifs at hu with h1 h2 h3 h4
    · exact htaken _ (by simp) (by simp) (by simp [h1]) hu
    · exact htaken _ (by simp) (by simp) (by simp [h2]) hu
    all_goals
      have := hu.isSome_img r₀.nextHead
      simp [hi, update_of_ne hne.symm] at this
  | none =>
    have hiff : r₀.Undone name fate ↔ _ := hr.passed.undone_none hi
    have hkept := hr.kept hi
    unfold Exact cleaned
    rw [hiff]
    split_ifs with h1 h2 h3 h4
    · subst h1
      refine iff_of_false (htaken _ (by simp) (by simp) (by simp)) (by simp)
    · subst h2
      refine iff_of_false (htaken _ (by simp) (by simp) (by simp)) (by simp)
    · subst h3
      have hs := hr.snap.resolve_right (by simp)
      rw [unchanged_iff h hi hoffH hkept (by simp) (by simp)]
      have : (r.clear r₀.nextHead).dir.contents (.snap name) = r₀.dir.contents (.snap name) := by
        unfold Dir.contents
        rw [clear_img, clear_metaFile, update_of_ne hne, update_of_ne hne, hs.1, hs.2]
        cases hj : r₀.dir.img (.snap name) with
        | none => rfl
        | some j => rw [Option.map_some, Option.map_some, clear_store, hkept j (h.inodes _ j hj)]
      simp [this]
    · subst h4
      have hs := hr.snap.resolve_right (by simp)
      rw [unchanged_iff h hi (hoffH.setImg (.inr rfl) none) hkept
        (by simp [update_of_ne hne.symm]) (by simp)]
      have : ((r.clear r₀.nextHead).setImg (.snap name) none).dir.contents (.snap name) =
          (none, r₀.dir.metaFile (.snap name)) := by
        simp [Dir.contents, update_of_ne hne, hs.2]
      rw [this, Dir.none_eq_contents]
      simp
    · rw [unchanged_iff h hi (hoffH.clear (.inr rfl)) hkept
        (by simp [update_of_ne hne.symm]) (by simp [update_of_ne hne.symm])]
      have : ((r.clear r₀.nextHead).clear (.snap name)).dir.contents (.snap name) =
          (none, none) := by
        simp [Dir.contents]
      rw [this, Dir.none_eq_contents]
      constructor
      · rintro ⟨hm, h5, h6⟩
        exact .inr ⟨hm, .inr (.inl ⟨h5, h6, hr.cause h5 h6⟩)⟩
      · rintro (h5 | ⟨hm, ⟨p, hp⟩ | ⟨h5, h6, -⟩ | h5 | ⟨-, h5⟩⟩)
        · exact absurd h5 hr.opened
        · exact absurd hp (hr.encoded p)
        · exact ⟨hm, h5, h6⟩
        · exact absurd h5 h3
        · exact absurd h5 h4

/-! ## The tables -/

/-- The new head is among the disks in memory. -/
structure Recorded (r₀ : Replica) (name : String) (fate : Fate Site) (r : Replica) : Prop where
  readOnly : r.readOnly = false
  diskData : r.diskData r₀.nextHead ≠ none
  passed : r₀.Passed fate
  not_undone : r₀.dir.img r₀.nextHead ≠ none → ¬r₀.Undone name fate

/-- From here on only the encoding of metadata can fail, and that is not undone. -/
def LateErr (r₀ : Replica) (name : String) (fate : Fate Site) (r : Replica) : Prop :=
  r₀.Recorded name fate r ∧
    ∃ p, fate = .failAt (.encode .newSnap p) ∨ fate = .failAt (.encode .volume p)

theorem LateErr.exact (h : r₀.HeadOk k) (hr : r₀.LateErr name fate r) :
    r₀.Exact name fate (cleaned r₀.nextHead (.snap name) fate r) := by
  obtain ⟨hrec, p, hp⟩ := hr
  refine iff_of_false (fun hu => hrec.diskData ?_) fun hu => ?_
  · rw [h.nextHead, ← h.next, ← hu.diskData, ← h.nextHead]
    unfold cleaned
    split_ifs <;> rfl
  · cases hi : r₀.dir.img r₀.nextHead with
    | some i => exact hrec.not_undone (by simp [hi]) hu
    | none =>
      rw [hrec.passed.undone_none hi] at hu
      rcases hp with rfl | rfl <;> simp at hu

theorem recordSnap_exact (h : r₀.HeadOk k) (userCreated : Bool) (created : String) :
    Spec (r₀.Recorded name) (recordSnap (.head k) (.snap name) r₀.nextHead userCreated created)
      (fun _ => r₀.Recorded name) (fun _ => r₀.LateErr name) (fun _ _ => True) := by
  have hne := h.snap_ne name
  have hk : r₀.nextHead ≠ .head k := by
    rw [h.nextHead]
    simp
  unfold recordSnap
  refine .bind (.modify (Q := fun _ => r₀.Recorded name) fun fate r hr =>
    ⟨hr.1, hr.2, hr.3, hr.4⟩) fun _ => .get fun r => ?_
  split
  · exact .fatal fun _ _ _ => trivial
  · rename_i d _
    refine .bind (.modify (Q := fun _ => r₀.Recorded name) ?_) fun _ =>
      .bind (encodeToFile_spec (Q := fun _ => r₀.Recorded name) (fun _ _ hr => hr.readOnly)
        (fun fate s hr _ => ⟨hr.1, hr.2, hr.3, hr.4⟩) (fun s hr => ⟨hr.1, hr.2, hr.3, hr.4⟩)
        (fun s p hr => ⟨⟨hr, p, .inl rfl⟩, ⟨hr.1, hr.2, hr.3, hr.4⟩, p, .inl rfl⟩)
        fun _ _ _ => ⟨trivial, trivial⟩) fun _ =>
          .bind (.modify (Q := fun _ => r₀.Recorded name) fun fate s hr =>
            ⟨hr.1, hr.2, hr.3, hr.4⟩) fun _ => .modify fun fate s hr =>
              ⟨hr.1, hr.2, hr.3, hr.4⟩
    rintro fate _ ⟨rfl, hr⟩
    refine ⟨hr.1, ?_, hr.3, hr.4⟩
    rw [renameDisk_diskData, update_of_ne hne.symm, update_of_ne hk]
    exact hr.diskData

theorem commitHead_exact (h : r₀.HeadOk k) (f : ℕ) {d : Disk} (hd : d.name = r₀.nextHead)
    (userCreated : Bool) (created : String) :
    Spec (fun fate r => r₀.Headed name fate r ∧ ∀ p, fate ≠ .failAt (.encode .newHead p))
      (commitHead r₀.info.head (some (.snap name)) f d userCreated created)
      (fun _ _ _ => True)
      (fun _ fate r => r₀.LinkErr name fate r ∨ r₀.LateErr name fate r) (fun _ _ => True) := by
  have hk : r₀.nextHead ≠ .head k := by
    rw [h.nextHead]
    simp
  unfold commitHead
  refine .bind ((linkDisk_exact h).consequence (fun _ _ => id) (fun _ _ _ => id)
    (fun _ _ _ => .inl) fun _ _ => id) fun _ =>
      .bind (.modify (Q := fun _ => r₀.Recorded name) ?_) fun _ => ?_
  · rintro fate r ⟨hro, hp, hu⟩
    exact ⟨hro, by simp [setDisk, hd], hp, hu⟩
  · rw [h.head, hd, recordOldHead]
    refine .bind (Q := fun _ => r₀.Recorded name) (.bind
      ((recordSnap_exact h userCreated created).consequence (fun _ _ => id) (fun _ _ _ => id)
        (fun _ _ _ => .inr) fun _ _ => id) fun _ => .modify ?_) fun _ =>
      .bind (.modify (Q := fun _ => r₀.Recorded name) fun fate r hr =>
        ⟨hr.1, hr.2, hr.3, hr.4⟩) fun _ => .get fun r =>
        .bind (encodeToFile_spec (Q := fun _ _ _ => True) ?_ (fun _ _ _ _ => trivial)
          (fun _ _ => trivial) ?_ fun _ _ _ => ⟨trivial, trivial⟩) fun _ =>
          .modify fun _ _ _ => trivial
    · intro fate r hr
      refine ⟨hr.1, ?_, hr.3, hr.4⟩
      rw [setDisk_diskData, update_of_ne hk]
      exact hr.diskData
    · rintro fate _ ⟨rfl, hr⟩
      exact hr.readOnly
    · rintro _ p ⟨rfl, hr⟩
      exact ⟨.inr ⟨hr, p, .inr rfl⟩, .inr ⟨⟨hr.1, hr.2, hr.3, hr.4⟩, p, .inr rfl⟩⟩

end Stages

/-! ## Snapshots that fail -/

/-- A snapshot that fails leaves the replica as it was if and only if the effects of the failing
call are undone. -/
theorem createDisk_unchanged {r r' : Replica} {k : ℕ} {name created e : String} {userCreated : Bool}
    {fate : Fate Site} (h : r.HeadOk k)
    (herr : createDisk name userCreated created fate r = (.err e, r')) :
    r.Unchanged r' ↔ r.Undone name fate := by
  refine Spec.of_err (P := fun _ s => s = r) (Q := fun _ _ _ => True)
    (E := fun _ fate t => r.Exact name fate t) (C := fun _ _ => True) ?_ rfl herr
  unfold createDisk
  refine .bind (.call (Q := fun _ fate s => s = r ∧ fate ≠ .failAt .syncDir)
    (fun fate s hs hne => ⟨hs, hne⟩) ?_ fun _ _ => trivial) fun _ => .get fun s => ?_
  · rintro _ rfl
    exact Exact.of_undone (.inl rfl)
  refine .ite (fun hro => .throw ?_) fun hro => .ite (fun hlen => .throw ?_) fun hlen => ?_
  · rintro fate _ ⟨rfl, rfl, -⟩
    exact Exact.of_undone (.inr (.inl hro))
  · rintro fate _ ⟨rfl, rfl, -⟩
    exact Exact.of_undone (.inr (.inr (.inl hlen)))
  · by_cases hs : s = r
    · subst hs
      have hname : s.info.head.map (fun _ => DiskName.snap name) = some (.snap name) := by
        rw [h.head]
        rfl
      simp only [hname]
      refine .bind (.handle ((createNewHead_exact h name _ _).pre ?_) fun e => ?_) fun x =>
        ?_
      · rintro fate _ ⟨rfl, -, hsync⟩
        exact ⟨rfl, hsync, by simpa using hro, hlen⟩
      · exact undoHead_exact h e
      · by_cases hx : x.2.name = s.nextHead
        · refine .bind (Q := fun _ _ _ => True) (.onError
            ((commitHead_exact h x.1 hx userCreated created).pre fun _ _ hr => hr.2) fun e => ?_)
            fun _ => ?_
          · rw [hx]
            refine (cleanup_spec s.nextHead (.snap name)).consequence (fun _ _ => id) ?_
              (fun _ _ _ => id) fun _ _ => id
            rintro _ fate _ ⟨t, ht | ht, rfl⟩
            · exact ht.exact h
            · exact ht.exact h
          · exact .attempt fun fate t _ => by split <;> trivial
        · rintro fate t ⟨hx', -⟩
          exact absurd hx' hx
    · rintro fate _ ⟨rfl, hs', -⟩
      exact absurd hs' hs

/-- A replica of two sectors with the snapshots `a` and `b`. -/
def twoSnapshots : Replica :=
  (createDisk "b" true "" .calm (createDisk "a" true "" .calm (new 8192 4096 8 "")).2).2

theorem twoSnapshots_img : twoSnapshots.dir.img = fun n =>
    if n = .snap "a" then some 1 else if n = .snap "b" then some 2
    else if n = .head 2 then some 3 else none := by
  have h : twoSnapshots.dir.img = update (update (update
      (update (update (update (update (fun _ => none)
      (.head 0) (some 1)) (.head 1) (some 2)) (.snap "a") (some 1)) (.head 0) none)
      (.head 2) (some 3)) (.snap "b") (some 2)) (.head 1) none := rfl
  rw [h]
  funext n
  simp only [update_apply]
  split_ifs <;> simp_all

theorem twoSnapshots_headOk : twoSnapshots.HeadOk 2 where
  head := rfl
  img := rfl
  diskMeta := rfl
  next := rfl
  inodes n i h := by
    simp only [twoSnapshots_img] at h
    show i < 4
    split_ifs at h <;> simp at h <;> omega

/-- The link of the metadata fails, and the new head and the link of the image are removed. -/
theorem createDisk_unchanged_link :
    ∃ e r', createDisk "c" true "" (.failAt (.link .diskMeta)) twoSnapshots = (.err e, r') ∧
      twoSnapshots.Unchanged r' := by
  have herr : (createDisk "c" true "" (.failAt (.link .diskMeta)) twoSnapshots).1 =
    .err ioError := rfl
  refine ⟨ioError, _, Prod.ext herr rfl,
    (createDisk_unchanged twoSnapshots_headOk (Prod.ext herr rfl)).2 ?_⟩
  exact .inr (.inr (.inr (.inr ⟨rfl, .inr (.inl ⟨rfl, rfl, _, rfl⟩)⟩)))

/-- A snapshot under the name of a snapshot of the chain fails, and both files of that
snapshot are removed. -/
theorem snapshot_taken :
    ∃ e r', createDisk "a" true "" .calm twoSnapshots = (.err e, r') ∧
      twoSnapshots.HeadOk 2 ∧ .snap "a" ∈ twoSnapshots.activeDiskData ∧
      (twoSnapshots.dir.img (.snap "a")).isSome ∧ r'.dir.img (.snap "a") = none ∧
      ¬twoSnapshots.Unchanged r' := by
  have herr : (createDisk "a" true "" .calm twoSnapshots).1 =
    .err "Old file :volume-snap-a.img already exists" := rfl
  refine ⟨_, _, Prod.ext herr rfl, twoSnapshots_headOk, by decide +kernel, rfl, rfl, fun hu => ?_⟩
  have := hu.isSome_img (.snap "a")
  rw [twoSnapshots_img] at this
  exact absurd this (by decide +kernel)

end Replica

end Jiva
