import Jiva.Replica

/-!
# Rules for the file operations of a replica

One rule for each function that the operations on the chain are made of, in the form of
`Faults.Spec`. A rule says what holds of the state after each call : `rmDisk` has removed the
image, or both files, when it is disturbed, and `encodeToFile` has replaced the file or not.
-/

namespace Jiva

open Faults Function

/-- Outside the names in `S` the directory is the same. -/
structure Dir.Off (dir dir' : Dir) (S : DiskName → Prop) : Prop where
  volumeMeta : dir'.volumeMeta = dir.volumeMeta
  torn : dir'.torn none = dir.torn none
  img : ∀ n, ¬S n → dir'.img n = dir.img n
  metaFile : ∀ n, ¬S n → dir'.metaFile n = dir.metaFile n

/-- The inodes that were in use have the same content. -/
def Dir.Kept (dir dir' : Dir) : Prop :=
  ∀ i, i < dir.nextIno → dir'.store i = dir.store i

theorem Dir.Off.refl (dir : Dir) (S : DiskName → Prop) : dir.Off dir S :=
  ⟨rfl, rfl, fun _ _ => rfl, fun _ _ => rfl⟩

theorem Dir.metaFile_eq_none {dir : Dir} {n : DiskName} :
    dir.metaFile n = none ↔ dir.diskMeta n = none ∧ dir.torn (some n) = false := by
  unfold Dir.metaFile
  cases dir.diskMeta n with
  | none => simp
  | some d => simp

theorem Dir.metaFile_of_some {dir : Dir} {n : DiskName} {d : Disk} (h : dir.diskMeta n = some d) :
    dir.metaFile n = some (some d) := by
  unfold Dir.metaFile
  rw [h]

namespace Replica

variable {P : Fate Site → Replica → Prop} {Q : Unit → Fate Site → Replica → Prop}
  {E : String → Fate Site → Replica → Prop} {C : Fate Site → Replica → Prop}

/-- Both files of a disk are removed. -/
def clear (n : DiskName) (r : Replica) : Replica :=
  (r.setImg n none).clearMeta n

section Fields

variable (r : Replica) (n m : DiskName)

@[simp] theorem setImg_img (i : Option ℕ) : (r.setImg n i).dir.img = update r.dir.img n i := rfl
@[simp] theorem setMeta_diskMeta (d : Option Disk) :
    (r.setMeta n d).dir.diskMeta = update r.dir.diskMeta n d := rfl
@[simp] theorem clear_img : (r.clear n).dir.img = update r.dir.img n none := rfl
@[simp] theorem setImg_metaFile (i : Option ℕ) : (r.setImg n i).dir.metaFile = r.dir.metaFile := rfl
@[simp] theorem clear_store : (r.clear n).dir.store = r.dir.store := rfl

theorem setMeta_metaFile (d : Disk) :
    (r.setMeta n (some d)).dir.metaFile = update r.dir.metaFile n (some (some d)) := by
  funext m
  by_cases hm : m = n
  · subst hm
    simp [Dir.metaFile]
  · rw [update_of_ne hm]
    unfold Dir.metaFile
    rw [setMeta_diskMeta, update_of_ne hm]
    rfl

theorem tear_metaFile : (r.tear (some n)).dir.metaFile = update r.dir.metaFile n (some none) := by
  funext m
  by_cases hm : m = n
  · subst hm
    simp [Dir.metaFile, tear]
  · simp [Dir.metaFile, tear, hm]

@[simp] theorem clear_metaFile : (r.clear n).dir.metaFile = update r.dir.metaFile n none := by
  funext m
  by_cases hm : m = n
  · subst hm
    simp [Dir.metaFile, clear, clearMeta]
  · simp [Dir.metaFile, clear, clearMeta, setImg, hm]

@[simp] theorem setDisk_diskData (d : Option Disk) :
    (r.setDisk n d).diskData = update r.diskData n d := rfl
@[simp] theorem renameDisk_diskData (d : Disk) : (r.renameDisk n m d).diskData =
    update (update r.diskData n (some d)) m (some d) := rfl

theorem openTrunc_img : (r.openTrunc n).dir.img =
    update r.dir.img n (some ((r.dir.img n).getD r.dir.nextIno)) := by
  unfold openTrunc createImg
  cases hn : r.dir.img n with
  | none => rfl
  | some i =>
    funext m
    by_cases hm : m = n
    · subst hm
      simp [setInode, hn]
    · simp [setInode, update_of_ne hm]

theorem openTrunc_ino : (r.openTrunc n).ino n = (r.dir.img n).getD r.dir.nextIno := by
  rw [ino, openTrunc_img]
  simp

theorem openTrunc_store (j : ℕ) : (r.openTrunc n).dir.store j =
    if j = (r.dir.img n).getD r.dir.nextIno then SparseFile.empty 0 else r.dir.store j := by
  unfold openTrunc createImg
  cases hn : r.dir.img n with
  | none =>
    by_cases hj : j = r.dir.nextIno
    · simp [setInode, ino, hj]
    · simp [setInode, ino, hj]
  | some i =>
    by_cases hj : j = i
    · simp [setInode, ino, hn, hj]
    · simp [setInode, ino, hn, hj]

theorem openTrunc_eq : r.openTrunc n = { r with dir := (r.openTrunc n).dir } ∧
    (r.openTrunc n).dir.diskMeta = r.dir.diskMeta ∧
    (r.openTrunc n).dir.volumeMeta = r.dir.volumeMeta ∧ (r.openTrunc n).dir.torn = r.dir.torn ∧
    (r.openTrunc n).dir.metaFile = r.dir.metaFile := by
  unfold openTrunc createImg
  cases hn : r.dir.img n <;> exact ⟨rfl, rfl, rfl, rfl, rfl⟩

end Fields

section Off

variable {dir : Dir} {r : Replica} {S : DiskName → Prop} {n : DiskName}

theorem off_setImg (h : dir.Off r.dir S) (hn : S n) (i : Option ℕ) :
    dir.Off (r.setImg n i).dir S := by
  refine ⟨h.volumeMeta, h.torn, fun m hm => ?_, h.metaFile⟩
  rw [setImg_img, update_of_ne (fun he : m = n => hm (he ▸ hn))]
  exact h.img m hm

theorem off_putMeta (h : dir.Off r.dir S) (hn : S n) (d : Option Disk) :
    dir.Off (r.putMeta n d).dir S := by
  have hne : ∀ {m}, ¬S m → m ≠ n := fun hm he => hm (he ▸ hn)
  cases d with
  | some d =>
    refine ⟨h.volumeMeta, h.torn, h.img, fun m hm => ?_⟩
    rw [putMeta, setMeta_metaFile, update_of_ne (hne hm)]
    exact h.metaFile m hm
  | none =>
    refine ⟨h.volumeMeta, h.torn, h.img, fun m hm => ?_⟩
    rw [putMeta, tear_metaFile, update_of_ne (hne hm)]
    exact h.metaFile m hm

theorem off_clear (h : dir.Off r.dir S) (hn : S n) : dir.Off (r.clear n).dir S := by
  have hne : ∀ {m}, ¬S m → m ≠ n := fun hm he => hm (he ▸ hn)
  refine ⟨h.volumeMeta, h.torn, fun m hm => ?_, fun m hm => ?_⟩
  · rw [clear_img, update_of_ne (hne hm)]
    exact h.img m hm
  · rw [clear_metaFile, update_of_ne (hne hm)]
    exact h.metaFile m hm

theorem off_openTrunc (h : dir.Off r.dir S) (hn : S n) : dir.Off (r.openTrunc n).dir S := by
  obtain ⟨-, -, h2, h3, h4⟩ := openTrunc_eq r n
  refine ⟨h2.trans h.volumeMeta, (congrFun h3 none).trans h.torn, fun m hm => ?_, fun m hm => ?_⟩
  · rw [openTrunc_img, update_of_ne (fun he : m = n => hm (he ▸ hn))]
    exact h.img m hm
  · rw [h4]
    exact h.metaFile m hm

/-- The new image gets an unused inode. -/
theorem kept_openTrunc (hn : r.dir.img n = none) (hnext : dir.nextIno ≤ r.dir.nextIno)
    (hk : dir.Kept r.dir) : dir.Kept (r.openTrunc n).dir := by
  intro j hj
  rw [openTrunc_store, hn, if_neg (by simp; omega)]
  exact hk j hj

end Off

/-! ## Metadata -/

theorem encodeToFile_spec {w : Enc} {file : Option DiskName} {replace : Replica → Replica}
    (hro : ∀ fate r, P fate r → r.readOnly = false)
    (hQ : ∀ fate r, P fate r → (∀ p, fate ≠ .failAt (.encode w p)) → Q () fate (replace r))
    (htear : ∀ r, P (.failAt (.encoder w)) r → Q () (.failAt (.encoder w)) (r.tear file))
    (hE : ∀ r p, P (.failAt (.encode w p)) r → E ioError (.failAt (.encode w p)) r ∧
      E ioError (.failAt (.encode w p)) (replace r))
    (hC : ∀ r s, P (.crashAt s) r → C (.crashAt s) r ∧ C (.crashAt s) (replace r)) :
    Spec P (encodeToFile w file replace) Q E C := by
  unfold encodeToFile
  refine .get fun r => .ite (fun hr => ?_) fun _ => ?_
  · rintro fate s ⟨rfl, hP⟩
    exact absurd (hro fate s hP) (by simp [hr])
  · refine .bind (.call (Q := fun _ fate t => P fate t ∧
      fate ≠ .failAt (.encode w .openTmp)) ?_ ?_ ?_) fun _ =>
      .bind (.query (Q := fun whole fate t => P fate t ∧
        fate ≠ .failAt (.encode w .openTmp) ∧ (whole = false → fate = .failAt (.encoder w)))
        ?_ ?_ ?_) fun whole => ?_
    · rintro fate _ ⟨rfl, hP⟩ hf
      exact ⟨hP, hf⟩
    · rintro _ ⟨rfl, hP⟩
      exact (hE _ _ hP).1
    · rintro _ ⟨rfl, hP⟩
      exact (hC _ _ hP).1
    · exact fun fate t ht _ => ⟨ht.1, ht.2, nofun⟩
    · exact fun t ht => ⟨ht.1, ht.2, fun _ => rfl⟩
    · exact fun t ht => (hC _ _ ht.1).1
    cases whole with
    | true =>
      refine .bind (.call (Q := fun _ fate t => ∃ s, t = replace s ∧ P fate s ∧
        fate ≠ .failAt (.encode w .openTmp) ∧ fate ≠ .failAt (.encode w .rename)) ?_ ?_ ?_) fun _ =>
          .call ?_ ?_ ?_
      · rintro fate t ⟨hP, hf, -⟩ hf'
        exact ⟨t, rfl, hP, hf, hf'⟩
      · rintro t ⟨hP, -⟩
        exact (hE _ _ hP).1
      · rintro t ⟨hP, -⟩
        exact (hC _ _ hP).2
      · rintro fate _ ⟨s, rfl, hP, hf, hf'⟩ hf''
        refine hQ fate s hP fun p => ?_
        cases p <;> assumption
      · rintro _ ⟨s, rfl, hP, -⟩
        exact (hE _ _ hP).2
      · rintro _ ⟨s, rfl, hP, -⟩
        exact (hC _ _ hP).2
    | false =>
      -- no call after the encoder fails
      refine .bind (.call (Q := fun _ fate t => ∃ s, t = s.tear file ∧
        fate = .failAt (.encoder w) ∧ P fate s) ?_ ?_ ?_) fun _ => .call ?_ ?_ ?_
      · rintro fate t ⟨hP, -, hf⟩ -
        exact ⟨t, rfl, hf rfl, hP⟩
      · rintro t ⟨-, -, hf⟩
        cases hf rfl
      · rintro t ⟨-, -, hf⟩
        cases hf rfl
      · rintro _ _ ⟨s, rfl, rfl, hP⟩ -
        exact htear s hP
      · rintro _ ⟨s, -, hf, -⟩
        cases hf
      · rintro _ ⟨s, -, hf, -⟩
        cases hf

/-! ## Removal -/

theorem rmDisk_spec {w : Rm} {n : DiskName}
    (hQ : ∀ fate r, P fate r → (∀ p, fate ≠ .failAt (.rm w p)) → Q () fate (r.clear n))
    (hE : ∀ r, (P (.failAt (.rm w .img)) r → E ioError (.failAt (.rm w .img)) r) ∧
      (P (.failAt (.rm w .diskMeta)) r → E ioError (.failAt (.rm w .diskMeta)) (r.setImg n none)) ∧
      (P (.failAt (.rm w .sync)) r → E ioError (.failAt (.rm w .sync)) (r.clear n)))
    (hC : ∀ r p, P (.crashAt (.rm w p)) r → C (.crashAt (.rm w p)) (r.setImg n none) ∧
      C (.crashAt (.rm w p)) (r.clear n)) :
    Spec P (rmDisk w (some n)) Q E C := by
  unfold rmDisk
  refine .bind (.call (Q := fun _ fate t => ∃ s, t = s.setImg n none ∧ P fate s ∧
      fate ≠ .failAt (.rm w .img)) ?_ ?_ ?_) fun _ => .bind (.call
        (Q := fun _ fate t => ∃ s, t = s.clear n ∧ P fate s ∧ fate ≠ .failAt (.rm w .img) ∧
          fate ≠ .failAt (.rm w .diskMeta)) ?_ ?_ ?_) fun _ => .call ?_ ?_ ?_
  · exact fun fate s hP hf => ⟨s, rfl, hP, hf⟩
  · exact fun s hP => (hE s).1 hP
  · exact fun s hP => (hC s _ hP).1
  · rintro fate _ ⟨s, rfl, hP, hf⟩ hf'
    exact ⟨s, rfl, hP, hf, hf'⟩
  · rintro _ ⟨s, rfl, hP, -⟩
    exact (hE s).2.1 hP
  · rintro _ ⟨s, rfl, hP, -⟩
    exact (hC s _ hP).2
  · rintro fate _ ⟨s, rfl, hP, hf, hf'⟩ hf''
    refine hQ fate s hP fun p => ?_
    cases p <;> assumption
  · rintro _ ⟨s, rfl, hP, -⟩
    exact (hE s).2.2 hP
  · rintro _ ⟨s, rfl, hP, -⟩
    exact (hC s _ hP).2

/-! ## Links -/

/-- The states in which `linkDisk` from `r` can fail. -/
inductive LinkFails (newname : DiskName) (fate : Fate Site) (r : Replica) : Replica → Prop
  | taken (h : r.dir.img newname ≠ none ∨ r.dir.metaFile newname ≠ none) :
    LinkFails newname fate r r
  | takenMeta (i : ℕ) (h : r.dir.metaFile newname ≠ none) (hf : fate = .failAt (.stat .snapMeta)) :
    LinkFails newname fate r (r.setImg newname (some i))
  | link (p : Part) (hf : fate = .failAt (.link p)) : LinkFails newname fate r r
  | linkMeta (i : ℕ) (p : Part) (hf : fate = .failAt (.link p)) :
    LinkFails newname fate r (r.setImg newname (some i))
  | sync (i : ℕ) (d : Option Disk) (p : Part) (hf : fate = .failAt (.link p)) :
    LinkFails newname fate r ((r.setImg newname (some i)).putMeta newname d)

theorem linkDisk_spec {o n : DiskName}
    (hold : ∀ fate r, P fate r → (r.dir.img o).isSome ∧ (r.dir.metaFile o).isSome)
    (hQ : ∀ fate r i d, P fate r → r.dir.img o = some i → r.dir.metaFile o = some d →
      r.dir.img n = none → r.dir.metaFile n = none →
      Q () fate ((r.setImg n (some i)).putMeta n d))
    (hE : ∀ e fate r t, P fate r → LinkFails n fate r t → E e fate t)
    (hC : ∀ s r i d, P (.crashAt s) r → r.dir.img o = some i → r.dir.metaFile o = some d →
      C (.crashAt s) r ∧ (r.dir.img n = none → C (.crashAt s) (r.setImg n (some i))) ∧
      (r.dir.img n = none → r.dir.metaFile n = none →
        C (.crashAt s) ((r.setImg n (some i)).putMeta n d))) :
    Spec P (linkDisk (some o) (some n)) Q E C := by
  have hCr : ∀ s r, P (.crashAt s) r → C (.crashAt s) r := fun s r hP => by
    obtain ⟨⟨i, hi⟩, d, hd⟩ :=
      (hold _ r hP).imp Option.isSome_iff_exists.1 Option.isSome_iff_exists.1
    exact (hC s r i d hP hi hd).1
  unfold linkDisk
  refine .bind (.query (Q := fun taken fate r => P fate r ∧
      (taken = true → r.dir.img n ≠ none)) ?_ ?_ fun r => hCr _ r) fun taken =>
    .ite (fun ht => .throw ?_) fun _ => .bind (.query (Q := fun taken fate r =>
      P fate r ∧ (taken = true → r.dir.metaFile n ≠ none) ∧
        (r.dir.metaFile n ≠ none → taken = true ∨ fate = .failAt (.stat .snapMeta))) ?_ ?_
      fun r hr => hCr _ r hr.1) fun taken => .ite (fun ht => .throw ?_) fun ht => ?_
  · exact fun fate r hP _ => ⟨hP, fun h => by simpa [Option.isSome_iff_ne_none] using h⟩
  · exact fun r hP => ⟨hP, nofun⟩
  · exact fun fate r hr => hE _ fate r r hr.1 (.taken (.inl (hr.2 ht)))
  · exact fun fate r hr _ => ⟨hr.1, fun h => by simpa [Option.isSome_iff_ne_none] using h,
      fun h => .inl (by simpa [Option.isSome_iff_ne_none] using h)⟩
  · exact fun r hr => ⟨hr.1, nofun, fun _ => .inr rfl⟩
  · exact fun fate r hr => hE _ fate r r hr.1 (.taken (.inr (hr.2.1 ht)))
  · refine .bind (Q := fun _ fate t => ∃ r i, t = r.setImg n (some i) ∧ P fate r ∧
      r.dir.img o = some i ∧ r.dir.img n = none ∧
      (r.dir.metaFile n ≠ none → fate = .failAt (.stat .snapMeta))) (.get fun r => ?_)
      fun _ => .bind (Q := fun _ fate t => ∃ r i d, t = (r.setImg n (some i)).putMeta n d ∧
        P fate r ∧ r.dir.img o = some i ∧ r.dir.metaFile o = some d ∧ r.dir.img n = none ∧
        r.dir.metaFile n = none) (.get fun t => ?_) fun _ => .call ?_ ?_ ?_
    · split
      · rename_i ho
        rintro fate _ ⟨rfl, hP, -⟩
        exact absurd (hold _ _ hP).1 (by simp [ho])
      · rename_i hn
        rintro fate _ ⟨rfl, hP, -⟩
        exact hE _ fate _ _ hP (.taken (.inl (by simp [hn])))
      · rename_i i ho hn
        refine .call ?_ ?_ ?_
        · rintro fate _ ⟨rfl, hP, -, htaken⟩ -
          exact ⟨_, i, rfl, hP, ho, hn, fun hm => (htaken hm).resolve_left (by simpa using ht)⟩
        · rintro _ ⟨rfl, hP, -⟩
          exact hE _ _ _ _ hP (.link _ rfl)
        · rintro _ ⟨rfl, hP, -⟩
          obtain ⟨d, hd⟩ := Option.isSome_iff_exists.1 (hold _ _ hP).2
          exact (hC _ _ i d hP ho hd).2.1 hn
    · split
      · rename_i ho
        rintro fate _ ⟨rfl, r, i, rfl, hP, -⟩
        exact absurd (hold _ _ hP).2 (by simpa using ho)
      · rename_i hn
        rintro fate _ ⟨rfl, r, i, rfl, hP, -, -, hm⟩
        have hn' : r.dir.metaFile n ≠ none := by
          rw [setImg_metaFile] at hn
          simp [hn]
        exact hE _ fate r _ hP (.takenMeta i hn' (hm hn'))
      · rename_i d ho hn
        refine .call ?_ ?_ ?_
        · rintro fate _ ⟨rfl, r, i, rfl, hP, ho', hn', -⟩ -
          exact ⟨r, i, d, rfl, hP, ho', ho, hn', hn⟩
        · rintro _ ⟨rfl, r, i, rfl, hP, -⟩
          exact hE _ _ r _ hP (.linkMeta i _ rfl)
        · rintro _ ⟨rfl, r, i, rfl, hP, ho', hn', -⟩
          exact (hC _ r i d hP ho' ho).2.2 hn' hn
    · rintro fate _ ⟨r, i, d, rfl, hP, hi, hd, hni, hnd⟩ -
      exact hQ fate r i d hP hi hd hni hnd
    · rintro _ ⟨r, i, d, rfl, hP, -⟩
      exact hE _ _ r _ hP (.sync i d _ rfl)
    · rintro _ ⟨r, i, d, rfl, hP, hi, hd, hni, hnd⟩
      exact (hC _ r i d hP hi hd).2.2 hni hnd

end Replica

end Jiva
