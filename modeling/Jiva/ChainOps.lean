import Jiva.Coherent

/-!
# The operations keep the bookkeeping

A snapshot puts a new head before the chain and gives the old one its name. `RemoveDiffDisk` takes a
disk out of the chain and lets its child point to its parent. `Revert` and `Reload` read the chain
again. Each keeps the replica `Coherent`, and a removal adds its disk to the names at which the map
of children is not exact any more.
-/

namespace Jiva

open Faults Links Function

namespace Replica

/-! ## The map of children -/

theorem mem_rmChildDisk_iff {r : Replica} {q p : Option DiskName} {c n : DiskName} :
    n ∈ (r.rmChildDisk q c).diskChildrenMap p ↔ n ∈ r.diskChildrenMap p ∧ ¬(p = q ∧ n = c) := by
  show n ∈ update r.diskChildrenMap q ((r.diskChildrenMap q).filter (· ≠ c)) p ↔ _
  rcases eq_or_ne p q with rfl | hne
  · simp
  · simp [hne]

theorem nodup_rmChildDisk {r : Replica} {q : Option DiskName} {c : DiskName}
    (h : ∀ p, (r.diskChildrenMap p).Nodup) (p : Option DiskName) :
    ((r.rmChildDisk q c).diskChildrenMap p).Nodup := by
  show (update r.diskChildrenMap q ((r.diskChildrenMap q).filter (· ≠ c)) p).Nodup
  rcases eq_or_ne p q with rfl | hne
  · rw [update_self]
    exact (h p).filter _
  · rw [update_of_ne hne]
    exact h p

/-! ## Snapshots -/

section Shift

variable {α : Type} {f : DiskName → Option α} {k : ℕ} {name : String} {x y a : α} {n : DiskName}

/-- The old head `k` has left, the snapshot `name` and the new head have come. -/
def shift (f : DiskName → Option α) (k : ℕ) (name : String) (newHead snap : α) :
    DiskName → Option α :=
  update (update (update f (.head (k + 1)) (some newHead)) (.snap name) (some snap))
    (.head k) none

@[simp] theorem shift_newHead : shift f k name x y (.head (k + 1)) = some x := by
  simp [shift, update_of_ne]

@[simp] theorem shift_snap : shift f k name x y (.snap name) = some y := by
  simp [shift]

theorem shift_of_ne (h₁ : n ≠ .head (k + 1)) (h₂ : n ≠ .snap name) (h₃ : n ≠ .head k) :
    shift f k name x y n = f n := by
  unfold shift
  rw [update_of_ne h₃, update_of_ne h₂, update_of_ne h₁]

theorem shift_cases (h : shift f k name x y n = some a) :
    n = .head (k + 1) ∧ a = x ∨ n = .snap name ∧ a = y ∨ n ≠ .head k ∧ f n = some a := by
  rw [shift, update_none_eq_some, update_some_eq_some, update_some_eq_some] at h
  obtain ⟨hk, ⟨rfl, rfl⟩ | ⟨-, ⟨rfl, rfl⟩ | ⟨-, h⟩⟩⟩ := h
  · exact .inr (.inl ⟨rfl, rfl⟩)
  · exact .inl ⟨rfl, rfl⟩
  · exact .inr (.inr ⟨hk, h⟩)

theorem isSome_shift {β : Type} {g : DiskName → Option β} {u v : β}
    (h : ∀ n, (f n).isSome = (g n).isSome) :
    (shift f k name x y n).isSome = (shift g k name u v n).isSome :=
  isSome_update (isSome_update (isSome_update h rfl) rfl) rfl n

end Shift

section Snapshot

variable {r t : Replica} {k i : ℕ} {name created : String} {userCreated : Bool} {d : Disk}
  {bs ss gone : List DiskName}

/-- What a snapshot changes. -/
structure Snapped (r : Replica) (k : ℕ) (name : String) (userCreated : Bool) (created : String)
    (i : ℕ) (d : Disk) (t : Replica) : Prop where
  rest : t.readOnly = r.readOnly ∧ t.mode = r.mode ∧ t.maxChainLen = r.maxChainLen
  info : t.info = { r.info with
    head := some (.head (k + 1))
    dirty := true
    parent := some (.snap name)
    revisionCounter := r.getRevisionCounter }
  data : t.diskData =
    shift r.diskData k name (r.headDisk (.head (k + 1)) (some (.snap name)) created)
    (r.snapDisk name userCreated created d)
  children : t.diskChildrenMap =
    (((r.addChildDisk (some (.snap name)) (.head (k + 1))).rmChildDisk d.parent
    (.head k)).addChildDisk d.parent (.snap name)).diskChildrenMap
  active : t.activeDiskData = r.activeDiskData.dropLast ++ [.snap name] ++ [.head (k + 1)]
  files : ∃ f, t.volume.files = r.volume.files ++ [f]
  flags : t.volume.userCreatedSnap = r.volume.userCreatedSnap ++ [userCreated]
  snapIndx : t.volume.snapIndx =
    if userCreated then r.volume.files.length - 1 else r.volume.snapIndx
  diskMeta : t.dir.diskMeta = shift r.dir.diskMeta k name
    (r.headDisk (.head (k + 1)) (some (.snap name)) created) (r.snapDisk name userCreated created d)
  img : ∃ f, t.dir.img = shift r.dir.img k name f i
  volumeMeta : t.dir.volumeMeta = some t.info

theorem snapshotted_spec (r : Replica) (k : ℕ) (name : String) (userCreated : Bool)
    (created : String) (i : ℕ) (d : Disk) :
    Snapped r k name userCreated created i d (r.snapshotted k name userCreated created i d) := by
  have himg :=
    withHead_img (r := r) (.head (k + 1)) (r.headDisk (.head (k + 1)) (some (.snap name)) created)
  have hmeta := withHead_diskMeta (r := r) (.head (k + 1))
    (r.headDisk (.head (k + 1)) (some (.snap name)) created)
  have hrev : (r.withHead (.head (k + 1)) (r.headDisk (.head (k + 1)) (some (.snap name))
      created)).dir.revisionCounter = r.dir.revisionCounter := openTrunc_revisionCounter _
  have hmem := withHead_mem (r := r) (.head (k + 1))
    (r.headDisk (.head (k + 1)) (some (.snap name)) created)
  have hdisk :
      (r.withHead (.head (k + 1)) (r.headDisk (.head (k + 1)) (some (.snap name)) created)).snapDisk
      name userCreated created d = r.snapDisk name userCreated created d := by
    unfold snapDisk getRevisionCounter
    rw [hrev]
  unfold snapshotted
  simp only
  generalize r.withHead (.head (k + 1)) (r.headDisk (.head (k + 1)) (some (.snap name)) created) =
    w at *
  obtain ⟨dir, rfl⟩ : ∃ dir, w = { r with dir := dir } := ⟨_, hmem⟩
  refine ⟨⟨rfl, rfl, rfl⟩, rfl, ?_, rfl, rfl, ⟨(r.openTrunc (.head (k + 1))).ino (.head (k + 1)),
    rfl⟩, rfl, ?_, ?_, ⟨(r.dir.img (.head (k + 1))).getD r.dir.nextIno, ?_⟩, rfl⟩
  · rw [← hdisk]
    rfl
  · have hlen : (r.volume.files ++ [(r.openTrunc (.head (k + 1))).ino (.head (k + 1))]).length - 2 =
        r.volume.files.length - 1 := by
      rw [List.length_append, List.length_singleton]
      omega
    rw [← hlen]
    rfl
  · unfold shift
    rw [← hmeta, ← hdisk]
    rfl
  · unfold shift
    rw [← himg]
    rfl

theorem Snapped.mem_children {p : Option DiskName} {n : DiskName}
    (hs : Snapped r k name userCreated created i d t) :
    n ∈ t.diskChildrenMap p ↔ p = d.parent ∧ n = .snap name ∨
      (p = some (.snap name) ∧ n = .head (k + 1) ∨ n ∈ r.diskChildrenMap p) ∧
      ¬(p = d.parent ∧ n = .head k) := by
  rw [hs.children, mem_addChildDisk_iff, mem_rmChildDisk_iff, mem_addChildDisk_iff]

theorem Snapped.nodup (hs : Snapped r k name userCreated created i d t)
    (h : ∀ p, (r.diskChildrenMap p).Nodup) (p : Option DiskName) : (t.diskChildrenMap p).Nodup := by
  rw [hs.children]
  exact nodup_addChildDisk (nodup_rmChildDisk (nodup_addChildDisk h)) p

theorem Snapped.tidy (hs : Snapped r k name userCreated created i d t) (h : r.dir.Tidy k)
    (hd : r.dir.diskMeta (.head k) = some d) : t.dir.Tidy (k + 1) := by
  refine .of_fits (fun n e he => ?_) fun n => ?_
  · rw [hs.diskMeta] at he
    rcases shift_cases he with ⟨rfl, rfl⟩ | ⟨rfl, rfl⟩ | ⟨hne, he⟩
    · exact ⟨rfl, .inl ⟨rfl, rfl⟩, fun p hp => ⟨name, (Option.some.inj hp).symm⟩⟩
    · exact ⟨rfl, .inr ⟨name, rfl⟩, (h.fits hd).parent⟩
    · exact (h.fits he).of_ne hne _
  · obtain ⟨f, himg⟩ := hs.img
    rw [hs.diskMeta, himg]
    exact isSome_shift h.paired

theorem Snapped.coherent (h : r.Coherent bs k ss gone)
    (hs : Snapped r k name userCreated created i d t) (hd : r.diskData (.head k) = some d)
    (hfree : r.dir.diskMeta (.snap name) = none)
    (hlen : r.activeDiskData.length + 2 ≤ r.maxChainLen) :
    t.Coherent bs (k + 1) (.snap name :: ss) gone := by
  -- neither the snapshot nor the new head has a record yet
  have hsnap : .snap name ∉ .head k :: ss := by
    intro hm
    obtain ⟨e, -, he, -⟩ := h.record hm
    rw [hfree] at he
    cases he
  have hhead : .head (k + 1) ∉ .head k :: ss := by
    intro hm
    rcases List.mem_cons.1 hm with heq | hm
    · simp at heq
    · obtain ⟨s, heq⟩ := h.snaps hm
      cases heq
  have hnot : ∀ n e, r.diskData n = some e → n ≠ .snap name ∧ n ≠ .head (k + 1) := by
    intro n e he
    rcases h.only n e he with hn | ⟨hb, -⟩
    · exact ⟨fun heq => hsnap (heq ▸ hn), fun heq => hhead (heq ▸ hn)⟩
    · obtain ⟨path, rfl⟩ := h.backing n hb
      exact ⟨nofun, nofun⟩
  have hold : ∀ n e, n ≠ .head k → r.diskData n = some e → t.diskData n = some e := by
    intro n e hne he
    rw [hs.data, shift_of_ne (hnot n e he).2 (hnot n e he).1 hne, he]
  have hmeta : r.dir.diskMeta (.head k) = some d := (h.metas _ List.mem_cons_self).trans hd
  have hparent : d.parent ≠ some (.snap name) := fun hp =>
    hsnap (List.mem_cons_of_mem _ (h.mem_of_parent hd hp).2)
  have hss : ∀ n ∈ ss, n ≠ .head (k + 1) ∧ n ≠ .snap name ∧ n ≠ .head k := by
    intro n hn
    obtain ⟨s, rfl⟩ := h.snaps hn
    exact ⟨nofun, fun heq => hsnap (heq ▸ List.mem_cons_of_mem _ hn), nofun⟩
  have hactive : t.activeDiskData.length = r.activeDiskData.length + 1 := by
    rw [hs.active, h.active]
    simp only [List.length_append, List.length_reverse, List.length_cons, List.length_dropLast,
      List.length_nil]
    omega
  obtain ⟨hro, -, hmax⟩ := hs.rest
  constructor
  · exact hro.trans h.readOnly
  · rw [hs.info]
  · rw [hs.info]
    rfl
  · rw [hs.active, h.active]
    simp
  · obtain ⟨f, hf⟩ := hs.files
    rw [hf, hactive, List.length_append, h.files]
    rfl
  · rw [hs.flags, hactive, List.length_append, h.flags]
    rfl
  · obtain ⟨-, m, hm, hf⟩ := h.follows
    have hm : some d.parent = some m := by rw [← hm, parentOf, hd, Option.map_some]
    have hf : Follows t.parentOf d.parent ss := by
      rw [Option.some.inj hm]
      refine hf.congr fun n hn => ?_
      obtain ⟨h₁, h₂, h₃⟩ := hss n hn
      unfold parentOf
      rw [hs.data, shift_of_ne h₁ h₂ h₃]
    refine (hf.cons ?_).cons ?_
    · unfold parentOf
      rw [hs.data, shift_snap]
      rfl
    · unfold parentOf
      rw [hs.data, shift_newHead]
      rfl
  · intro n e he
    rw [hs.data] at he
    rcases shift_cases he with ⟨rfl, -⟩ | ⟨rfl, -⟩ | ⟨hne, he⟩
    · exact .inl (by simp)
    · exact .inl (by simp)
    · refine (h.only n e he).imp_left fun hn => ?_
      simp [(List.mem_cons.1 hn).resolve_left hne]
  · intro n hn
    rw [hs.diskMeta, hs.data]
    rcases List.mem_cons.1 hn with rfl | hn
    · rw [shift_newHead, shift_newHead]
    rcases List.mem_cons.1 hn with rfl | hn
    · rw [shift_snap, shift_snap]
    · obtain ⟨h₁, h₂, h₃⟩ := hss n hn
      rw [shift_of_ne h₁ h₂ h₃, shift_of_ne h₁ h₂ h₃, h.metas n (List.mem_cons_of_mem _ hn)]
  · intro n e p he hp
    rw [hs.mem_children]
    rw [hs.data] at he
    rcases shift_cases he with ⟨rfl, rfl⟩ | ⟨rfl, rfl⟩ | ⟨hne, he⟩
    · cases hp
      exact .inr ⟨.inl ⟨rfl, rfl⟩, by simp⟩
    · exact .inl ⟨hp.symm, rfl⟩
    · exact .inr ⟨.inr (h.children n e p he hp), fun hc => hne hc.2⟩
  · intro p hg n hn
    rcases hs.mem_children.1 hn with ⟨hp, rfl⟩ | ⟨⟨hp, rfl⟩ | hn, hne⟩
    · refine ⟨r.snapDisk name userCreated created d, by rw [hs.data, shift_snap], hp.symm⟩
    · cases hp
      exact ⟨_, by rw [hs.data, shift_newHead], rfl⟩
    · obtain ⟨e, he, hp⟩ := h.inverse p hg n hn
      have hk : n ≠ .head k := by
        rintro rfl
        obtain rfl : d = e := Option.some.inj (hd.symm.trans he)
        exact hne ⟨hp.symm, rfl⟩
      exact ⟨e, hold n e hk he, hp⟩
  · intro p hp
    rcases hs.mem_children.1 hp with ⟨hq, rfl⟩ | ⟨⟨hq, rfl⟩ | hp, -⟩
    · exact hparent hq.symm
    · cases hq
    · exact h.own p hp
  · exact hs.nodup h.nodup
  · exact hs.tidy h.tidy hmeta
  · exact h.backing
  · exact h.removed
  · exact ⟨t.info, hs.volumeMeta, ⟨rfl, rfl, rfl, rfl, rfl, rfl⟩⟩
  · rw [hmax]
    rw [h.active] at hlen
    simp only [List.length_append, List.length_reverse, List.length_cons] at hlen ⊢
    omega


theorem Coherent.free (h : r.Coherent bs k ss gone) : r.dir.img (.head (k + 1)) = none := by
  rw [← Option.isNone_iff_eq_none, ← Option.isSome_eq_false_iff, h.tidy.paired, Bool.eq_false_iff]
  intro hsome
  rcases h.tidy.known _ hsome with heq | ⟨s, heq⟩
  · simp at heq
  · cases heq

/-- A snapshot of a coherent replica. -/
theorem createDisk_coherent (h : r.Coherent bs k ss gone)
    (hc : createDisk name userCreated created .calm r = (.ok (), t)) :
    ∃ i d, Snapped r k name userCreated created i d t ∧
    t.Coherent bs (k + 1) (.snap name :: ss) gone := by
  obtain ⟨hlen, -, hmeta, i, d, -, hd, rfl⟩ := createDisk_ok h.head h.readOnly h.free h.whole hc
  have hs := snapshotted_spec r k name userCreated created i d
  exact ⟨i, d, hs, hs.coherent h hd hmeta hlen⟩

end Snapshot

/-! ## Records and `volume.meta` -/

section Records

variable {r t : Replica} {k : ℕ} {bs ss gone : List DiskName} {n : DiskName} {d e : Disk}

/-- What a record says apart from its name and its parent may change, in memory and on disk. -/
theorem Coherent.setRecord (h : r.Coherent bs k ss gone) (hn : n ∈ .head k :: ss)
    (hd : r.diskData n = some d) (hp : e.parent = d.parent) (hname : e.name = d.name)
    (hflag : e.userCreated = d.userCreated) :
    ((r.setDisk n (some e)).setMeta n (some e)).Coherent bs k ss gone := by
  set t := (r.setDisk n (some e)).setMeta n (some e) with ht
  have hdata : t.diskData = update r.diskData n (some e) := rfl
  have hmeta : t.dir.diskMeta = update r.dir.diskMeta n (some e) := rfl
  have hm := (h.metas n hn).trans hd
  -- every record of the new replica is one of the old, apart from that
  have hback : ∀ {f : DiskName → Option Disk}, f n = some d → ∀ m x,
      update f n (some e) m = some x → ∃ y, f m = some y ∧ x.parent = y.parent ∧ x.name = y.name ∧
      x.userCreated = y.userCreated := by
    intro f hf m x hx
    rcases update_some_eq_some.1 hx with ⟨rfl, rfl⟩ | ⟨-, hx⟩
    · exact ⟨d, hf, hp, hname, hflag⟩
    · exact ⟨x, hx, rfl, rfl, rfl⟩
  have hparent : t.parentOf = r.parentOf := by
    funext m
    unfold parentOf
    rw [hdata]
    rcases eq_or_ne m n with rfl | hne
    · rw [update_self, hd, Option.map_some, Option.map_some, hp]
    · rw [update_of_ne hne]
  refine { h with
    follows := ?_, only := ?_, metas := ?_, children := ?_, inverse := ?_, tidy := ?_ }
  · rw [hparent]
    exact h.follows
  · intro m x hx
    rcases update_some_eq_some.1 hx with ⟨rfl, -⟩ | ⟨-, hx⟩
    · exact .inl hn
    · exact h.only m x hx
  · intro m hmem
    rw [hdata, hmeta]
    rcases eq_or_ne m n with rfl | hne
    · rw [update_self, update_self]
    · rw [update_of_ne hne, update_of_ne hne, h.metas m hmem]
  · intro m x p hx hxp
    obtain ⟨y, hy, hyp, -⟩ := hback hd m x hx
    exact h.children m y p hy (hyp ▸ hxp)
  · intro p hg m hmem
    obtain ⟨y, hy, hyp⟩ := h.inverse p hg m hmem
    rw [hdata]
    rcases eq_or_ne m n with rfl | hne
    · obtain rfl : d = y := Option.some.inj (hd.symm.trans hy)
      exact ⟨e, update_self .., hp.trans hyp⟩
    · exact ⟨y, by rw [update_of_ne hne, hy], hyp⟩
  · refine .of_fits (fun m x hx => ?_) fun m =>
      (h.tidy.paired m).trans (isSome_update_some (by rw [hm]; rfl)).symm
    obtain ⟨y, hy, hyp, hyn, hyf⟩ := hback hm m x hx
    have hfit := h.tidy.fits hy
    exact ⟨hyn.trans hfit.name, hyf ▸ hfit.known, hyp ▸ hfit.parent⟩

/-- The files of a disk outside the chain may go. -/
theorem Coherent.clear (h : r.Coherent bs k ss gone) (hn : n ∉ .head k :: ss) :
    (r.clear n).Coherent bs k ss gone := by
  have hmeta : (r.clear n).dir.diskMeta = update r.dir.diskMeta n none := rfl
  refine { h with
    metas := fun m hm => ?_
    tidy := .of_fits (fun m x hx => h.tidy.fits (update_none_eq_some.1 hx).2)
      (isSome_update h.tidy.paired rfl) }
  rw [hmeta, update_of_ne (by rintro rfl; exact hn hm)]
  exact h.metas m hm

/-- `PrepareRemoveDisk` changes no more than a flag. -/
theorem prepareRemoveDisk_coherent {acts : List PrepareRemoveAction} (h : r.Coherent bs k ss gone)
    (hc : prepareRemoveDisk n .calm r = (.ok acts, t)) : t.Coherent bs k ss gone := by
  rcases prepareRemoveDisk_ok hc h.readOnly with ⟨-, rfl⟩ | ⟨m, d, p, -, hd, -, -, hp, -, -, rfl⟩
  · exact h
  · exact h.setRecord (h.mem_of_parent hd hp).1 hd rfl rfl rfl

end Records

/-! ## Removing a disk -/

section Removal

variable {r t : Replica} {k i : ℕ} {as cs bs ss gone : List DiskName} {n child : DiskName}
    {d c : Disk}

/-- What the removal of the disk `n` changes, which is at place `i` of the live chain below
`child`. -/
structure Unlinked (r : Replica) (n child : DiskName) (d c : Disk) (i : ℕ) (t : Replica) :
    Prop where
  rest : t.readOnly = r.readOnly ∧ t.mode = r.mode ∧ t.maxChainLen = r.maxChainLen ∧ t.info = r.info
  data : t.diskData =
    update (update r.diskData child (some { c with parent := d.parent })) n none
  diskMeta : t.dir.diskMeta =
    update (update r.dir.diskMeta child (some { c with parent := d.parent })) n none
  img : t.dir.img = update r.dir.img n none
  volumeMeta : t.dir.volumeMeta = r.dir.volumeMeta
  children : t.diskChildrenMap =
    ((r.rmChildDisk d.parent n).addChildDisk d.parent child).diskChildrenMap
  active : t.activeDiskData = r.activeDiskData.eraseIdx i
  files : t.volume.files = r.volume.files.eraseIdx (i + 1)
  flags : t.volume.userCreatedSnap = r.volume.userCreatedSnap.eraseIdx (i + 1)
  snapIndx : t.volume.snapIndx =
    DiffDisk.lastUserCreated (r.volume.userCreatedSnap.eraseIdx (i + 1)) r.volume.snapIndx
  volume : t.volume = r.volume.removeIndex (i + 1)
  store : t.dir.store = r.dir.store

theorem dropped_spec (hd : r.diskData n = some d) (hname : c.name = child)
    (hi : r.activeDiskData.idxOf n + 2 < r.activeDiskData.length) :
    Unlinked r n child d c (r.activeDiskData.idxOf n)
      (((r.relinked n child d c).dropped n).clear n) := by
  have hdrop : (r.relinked n child d c).dropped n =
      ((r.relinked n child d c).setDisk n none).removeActive (r.activeDiskData.idxOf n) := by
    unfold dropped
    exact if_pos (show r.activeDiskData.idxOf n < r.activeDiskData.length by omega)
  rw [hdrop]
  have hmap : (r.updateChildDisk n (some child)).diskChildrenMap =
      ((r.rmChildDisk d.parent n).addChildDisk d.parent child).diskChildrenMap := by
    unfold updateChildDisk
    rw [hd]
    rfl
  refine ⟨⟨rfl, rfl, rfl, ?_⟩, rfl, ?_, rfl, rfl, hmap, rfl, rfl, rfl, rfl, rfl, rfl⟩
  · show (if r.activeDiskData.length = r.activeDiskData.idxOf n + 2 then _ else r.info) = r.info
    rw [if_neg (by omega)]
  · rw [← hname]
    rfl

section

variable (h : r.Coherent bs k (as ++ child :: n :: cs) gone)
include h

theorem Coherent.not_mem_rest :
    n ∉ .head k :: (as ++ child :: cs) := by
  have hnd := h.follows.nodup
  have hsplit : .head k :: (as ++ child :: n :: cs) =
    (.head k :: (as ++ [child])) ++ n :: cs := by simp
  rw [hsplit, List.nodup_middle, List.nodup_cons] at hnd
  simpa using hnd.1

/-- The place of a disk in the live chain. -/
theorem Coherent.place :
    r.activeDiskData = bs ++ cs.reverse ++ n :: child :: (as.reverse ++ [.head k]) ∧
      r.activeDiskData.idxOf n = (bs ++ cs.reverse).length := by
  have hactive : r.activeDiskData =
      bs ++ cs.reverse ++ n :: child :: (as.reverse ++ [.head k]) := by
    rw [h.active]
    simp
  have hn : n ∉ bs ++ cs.reverse := by
    rw [List.mem_append, List.mem_reverse]
    rintro (hb | hcs)
    · exact h.not_backing (by simp) hb
    · exact h.not_mem_rest (by simp [hcs])
  refine ⟨hactive, ?_⟩
  rw [hactive, List.idxOf_append_of_notMem hn, List.idxOf_cons_self, Nat.add_zero]

theorem Coherent.parent_child (hc : r.diskData child = some c) :
    c.parent = some n :=
  parent_of_follows (l := .head k :: as) h.follows rfl hc

theorem Coherent.parent_head (hd : r.diskData n = some d) :
    d.parent = cs.head? :=
  parent_of_follows (l := .head k :: as ++ [child]) h.follows (by simp) hd

theorem Coherent.parent_mem (hd : r.diskData n = some d)
    {p : DiskName} (hp : d.parent = some p) : p ∈ cs :=
  List.mem_of_mem_head? ((h.parent_head hd).symm.trans hp)

end

theorem Unlinked.tidy (hu : Unlinked r n child d c i t) (h : r.dir.Tidy k)
    (hd : r.dir.diskMeta n = some d) (hc : r.dir.diskMeta child = some c) : t.dir.Tidy k := by
  refine .of_fits (fun m x hx => ?_) fun m => ?_
  · rw [hu.diskMeta] at hx
    rcases update_some_eq_some.1 (update_none_eq_some.1 hx).2 with ⟨rfl, rfl⟩ | ⟨-, hx⟩
    · exact { h.fits hc with parent := (h.fits hd).parent }
    · exact h.fits hx
  · rw [hu.diskMeta, hu.img]
    exact isSome_update
      (fun m => (h.paired m).trans (isSome_update_some (by rw [hc]; rfl)).symm) rfl m


theorem Unlinked.coherent (h : r.Coherent bs k (as ++ child :: n :: cs) gone)
    (hu : Unlinked r n child d c (bs ++ cs.reverse).length t) (hd : r.diskData n = some d)
    (hc : r.diskData child = some c) : t.Coherent bs k (as ++ child :: cs) (n :: gone) := by
  have hnot := h.not_mem_rest
  have hfol : Follows r.parentOf (some (.head k)) ((.head k :: as) ++ child :: n :: cs) := h.follows
  have hne : child ≠ n := by
    rintro rfl
    simp at hnot
  have hdata : ∀ m, m ≠ n → m ≠ child → t.diskData m = r.diskData m := by
    intro m h₁ h₂
    rw [hu.data, update_of_ne h₁, update_of_ne h₂]
  have hchild : t.diskData child = some { c with parent := d.parent } := by
    rw [hu.data, update_of_ne hne, update_self]
  have hplace := h.place.1
  have hactive : t.activeDiskData = bs ++ (.head k :: (as ++ child :: cs)).reverse := by
    rw [hu.active, hplace, List.eraseIdx_append_of_length_le (Nat.le_refl _), Nat.sub_self]
    simp
  have hlen : t.activeDiskData.length + 1 = r.activeDiskData.length := by
    rw [hactive, hplace]
    simp only [List.length_append, List.length_reverse, List.length_cons, List.length_nil]
    omega
  have hbelow : (bs ++ cs.reverse).length < r.activeDiskData.length := by
    rw [hplace]
    simp only [List.length_append, List.length_reverse, List.length_cons]
    omega
  have hmap : ∀ p m, m ∈ t.diskChildrenMap p ↔ p = d.parent ∧ m = child ∨
      m ∈ r.diskChildrenMap p ∧ ¬(p = d.parent ∧ m = n) := by
    intro p m
    rw [hu.children, mem_addChildDisk_iff, mem_rmChildDisk_iff]
  have hback : ∀ m x, t.diskData m = some x → m = child ∧ x = { c with parent := d.parent } ∨
      m ≠ n ∧ m ≠ child ∧ r.diskData m = some x := by
    intro m x hx
    rw [hu.data, update_none_eq_some, update_some_eq_some] at hx
    obtain ⟨h₁, ⟨rfl, rfl⟩ | ⟨h₂, hx⟩⟩ := hx
    · exact .inl ⟨rfl, rfl⟩
    · exact .inr ⟨h₁, h₂, hx⟩
  obtain ⟨hro, -, hmax, hinfo⟩ := hu.rest
  constructor
  · exact hro.trans h.readOnly
  · rw [hinfo]
    exact h.head
  · rw [hinfo, h.parent]
    cases as <;> rfl
  · exact hactive
  · rw [hu.files, List.length_eraseIdx_of_lt (by rw [h.files]; omega), h.files]
    omega
  · rw [hu.flags, List.length_eraseIdx_of_lt (by rw [h.flags]; omega), h.flags]
    omega
  · refine (hfol.unlink hfol.nodup).congr fun m hm => ?_
    have h₁ : m ≠ n := by
      rintro rfl
      exact hnot hm
    unfold parentOf
    rcases eq_or_ne m child with rfl | h₂
    · rw [hchild, update_self, Option.map_some, h.parent_head hd]
    · rw [hdata m h₁ h₂, update_of_ne h₂]
  · intro m x hx
    rcases hback m x hx with ⟨rfl, -⟩ | ⟨h₁, -, hx⟩
    · exact .inl (by simp)
    · refine (h.only m x hx).imp_left fun hm => ?_
      simpa [h₁] using hm
  · intro m hm
    have h₁ : m ≠ n := by
      rintro rfl
      exact hnot hm
    rw [hu.diskMeta, hu.data, update_of_ne h₁, update_of_ne h₁]
    rcases eq_or_ne m child with rfl | h₂
    · rw [update_self, update_self]
    · rw [update_of_ne h₂, update_of_ne h₂]
      refine h.metas m ?_
      simp only [List.mem_cons, List.mem_append] at hm ⊢
      tauto
  · intro m x p hx hp
    rw [hmap]
    rcases hback m x hx with ⟨rfl, rfl⟩ | ⟨h₁, -, hx⟩
    · exact .inl ⟨hp.symm, rfl⟩
    · exact .inr ⟨h.children m x p hx hp, fun heq => h₁ heq.2⟩
  · intro p hg m hm
    rw [List.mem_cons, not_or] at hg
    rcases (hmap _ _).1 hm with ⟨hp, rfl⟩ | ⟨hm, hnp⟩
    · exact ⟨_, hchild, hp.symm⟩
    · obtain ⟨x, hx, hp⟩ := h.inverse p hg.2 m hm
      have h₁ : m ≠ n := by
        rintro rfl
        obtain rfl : d = x := Option.some.inj (hd.symm.trans hx)
        exact hnp ⟨hp.symm, rfl⟩
      have h₂ : m ≠ child := by
        rintro rfl
        obtain rfl : c = x := Option.some.inj (hc.symm.trans hx)
        exact hg.1 (Option.some.inj ((h.parent_child hc).symm.trans hp)).symm
      exact ⟨x, (hdata m h₁ h₂).trans hx, hp⟩
  · intro p hp
    rcases (hmap _ _).1 hp with ⟨hq, rfl⟩ | ⟨hp, -⟩
    · have hnd := hfol.nodup
      rw [List.nodup_middle, List.nodup_cons] at hnd
      exact hnd.1 (by simp [h.parent_mem hd hq.symm])
    · exact h.own p hp
  · intro p
    rw [hu.children]
    exact nodup_addChildDisk (nodup_rmChildDisk h.nodup) p
  · refine hu.tidy h.tidy ?_ ?_
    · rw [h.metas n (by simp), hd]
    · rw [h.metas child (by simp), hc]
  · exact h.backing
  · intro p hp
    rcases List.mem_cons.1 hp with rfl | hp
    · exact h.snaps (by simp)
    · exact h.removed p hp
  · rw [hu.volumeMeta, hinfo]
    exact h.volumeMeta
  · have hle := h.chainLen
    rw [hmax]
    simp only [List.length_append, List.length_cons] at hle ⊢
    omega

/-- The parent of a disk with record `d`, if there is one, has got the counter of the disk. -/
inductive Credited (r : Replica) (d : Disk) : Replica → Prop
  | base (hp : d.parent = none) : Credited r d r
  | inner (p : DiskName) (e : Disk) (hp : d.parent = some p) (he : r.diskData p = some e) :
      Credited r d (r.counted p d e)

theorem relinked_counted {p : DiskName} {e : Disk} (hn : p ≠ n) (hc : p ≠ child)
    (hname : c.name = child) (hname' : e.name = p) :
    (r.relinked n child d c).counted p d e = (r.counted p d e).relinked n child d c := by
  have hdata : (r.counted p d e).diskData n = r.diskData n := update_of_ne hn.symm _ _
  have hmap : ((r.counted p d e).updateChildDisk n (some child)).diskChildrenMap =
      (r.updateChildDisk n (some child)).diskChildrenMap := by
    unfold updateChildDisk
    rw [hdata]
    rfl
  subst hname hname'
  show ({ r with
    dir := { r.dir with
      diskMeta := update (update r.dir.diskMeta c.name (some { c with parent := d.parent }))
        e.name (some { e with revisionCounter := d.revisionCounter }) }
    diskData := update (update r.diskData c.name (some { c with parent := d.parent }))
      e.name (some { e with revisionCounter := d.revisionCounter })
    diskChildrenMap := (r.updateChildDisk n (some c.name)).diskChildrenMap } : Replica) = _
  rw [← hmap, update_comm hc.symm, update_comm hc.symm]
  rfl

/-- What a successful `RemoveDiffDisk` has done : if the disk is in the chain, its child is linked
to its parent. -/
inductive RemovedDisk (r : Replica) (bs : List DiskName) (k : ℕ) (ss gone : List DiskName)
    (n : DiskName) (t : Replica) : Prop
  | outside (hn : n ∉ .head k :: ss) (hv : t.volume = r.volume) (hi : t.info = r.info)
    (hm : t.mode = r.mode)
      (hs : t.dir.store = r.dir.store) (hd : ∀ m, m ≠ n → t.diskData m = r.diskData m)
      (h : t.Coherent bs k ss gone)
  | inside (as cs : List DiskName) (child : DiskName) (d c : Disk) (u : Replica)
    (hss : ss = as ++ child :: n :: cs)
      (hd : r.diskData n = some d) (hu : Credited r d u) (hc : u.diskData child = some c)
      (hcoh : u.Coherent bs k ss gone)
      (hun : Unlinked u n child d c (bs ++ cs.reverse).length t)
      (h : t.Coherent bs k (as ++ child :: cs) (n :: gone))

/-- A snapshot that is not the latest has another right before it. -/
theorem Coherent.split (h : r.Coherent bs k ss gone) (hn : n ∈ ss) (hp : r.info.parent ≠ some n) :
    ∃ as child cs, ss = as ++ child :: n :: cs := by
  obtain ⟨as, cs, rfl⟩ := List.append_of_mem hn
  rcases List.eq_nil_or_concat as with rfl | ⟨as', child, rfl⟩
  · exact absurd h.parent hp
  · exact ⟨as', child, cs, by simp⟩

/-- The children of a disk of the chain are the one before it, and what `removeDiskNode` left. -/
theorem Coherent.mem_children (h : r.Coherent bs k (as ++ child :: n :: cs) gone) :
    child ∈ r.diskChildrenMap (some n) := by
  obtain ⟨c, hc, -⟩ := h.record (n := child) (by simp)
  exact h.children child c n hc (h.parent_child hc)

/-- The backing file only loses its record. -/
theorem Coherent.removeBacking (h : r.Coherent bs k ss gone) (hn : n ∉ .head k :: ss)
    (hd : r.diskData n = some d) (hp : d.parent = none) :
    ((r.updateChildDisk n none).setDisk n none).Coherent bs k ss gone := by
  set t := (r.updateChildDisk n none).setDisk n none with ht
  have hdata : t.diskData = update r.diskData n none := rfl
  have hmap : t.diskChildrenMap = (r.rmChildDisk none n).diskChildrenMap := by
    rw [ht]
    unfold updateChildDisk
    rw [hd, Option.bind_some, hp]
    rfl
  have hsome : ∀ p, t.diskChildrenMap (some p) = r.diskChildrenMap (some p) := by
    intro p
    rw [hmap]
    show update r.diskChildrenMap none ((r.diskChildrenMap none).filter (· ≠ n)) (some p) = _
    rw [update_of_ne (Option.some_ne_none p)]
  have hback : ∀ m x, t.diskData m = some x → r.diskData m = some x :=
    fun m x hx => (update_none_eq_some.1 hx).2
  have hin : ∀ m ∈ .head k :: ss, t.diskData m = r.diskData m := by
    intro m hm
    rw [hdata, update_of_ne]
    rintro rfl
    exact hn hm
  refine { h with
    follows := ?_, only := ?_, metas := ?_, children := ?_, inverse := ?_, own := ?_, nodup := ?_ }
  · refine h.follows.congr fun m hm => ?_
    unfold parentOf
    rw [hin m hm]
  · exact fun m x hx => h.only m x (hback m x hx)
  · intro m hm
    rw [hin m hm]
    exact h.metas m hm
  · intro m x p hx hxp
    rw [hsome]
    exact h.children m x p (hback m x hx) hxp
  · intro p hg m hm
    rw [hsome] at hm
    obtain ⟨x, hx, hxp⟩ := h.inverse p hg m hm
    exact ⟨x, (hin m (h.mem_of_parent hx hxp).1).trans hx, hxp⟩
  · intro p hm
    rw [hsome] at hm
    exact h.own p hm
  · rw [hmap]
    exact nodup_rmChildDisk h.nodup

/-- The disk `n` of the chain leaves it. -/
theorem Coherent.unlink (h : r.Coherent bs k (as ++ child :: n :: cs) gone)
    (hd : r.diskData n = some d) (hc : r.diskData child = some c) :
    Unlinked r n child d c (bs ++ cs.reverse).length
      (((r.relinked n child d c).dropped n).clear n) ∧
      (((r.relinked n child d c).dropped n).clear n).Coherent bs k (as ++ child :: cs)
        (n :: gone) := by
  obtain ⟨hactive, hplace⟩ := h.place
  have hname : c.name = child := h.name_eq (by simp) hc
  have hi : r.activeDiskData.idxOf n + 2 < r.activeDiskData.length := by
    rw [hplace, hactive]
    simp only [List.length_append, List.length_cons, List.length_nil]
    omega
  have hu := dropped_spec hd hname hi
  rw [hplace] at hu
  exact ⟨hu, hu.coherent h hd hc⟩

theorem removeDiffDisk_removed (h : r.Coherent bs k ss gone)
    (hc : removeDiffDisk n .calm r = (.ok (), t)) : RemovedDisk r bs k ss gone n t := by
  obtain ⟨-, hhead, hparent, u, hu, rfl⟩ := removeDiffDisk_ok hc
  clear hc
  have hne : n ≠ .head k := by
    rintro rfl
    exact hhead h.head
  rcases removeDiskNode_ok hu h.readOnly (h.own n) with ⟨hd, rfl⟩ | ⟨d, hd, hmap, rfl⟩ |
    ⟨d, child, c, hd, hmap, hc, hrem⟩
  · -- there is no record, only files may be left
    have hn : n ∉ .head k :: ss := by
      intro hn
      obtain ⟨e, he, -⟩ := h.record hn
      rw [hd] at he
      cases he
    exact .outside hn rfl rfl rfl rfl (fun _ _ => rfl) (h.clear hn)
  · -- a disk without children is not in the chain
    have hn : n ∉ .head k :: ss := by
      intro hn
      obtain ⟨as, child, cs, rfl⟩ := h.split ((List.mem_cons.1 hn).resolve_left hne) hparent
      have := h.mem_children
      rw [hmap] at this
      cases this
    have hp : d.parent = none := by
      rcases h.only n d hd with hin | ⟨-, rfl⟩
      · exact absurd hin hn
      · rfl
    exact .outside hn rfl rfl rfl rfl (fun m hm => update_of_ne hm _ _)
      ((h.removeBacking hn hd hp).clear hn)
  · -- a disk with a child is in the chain
    have hn : n ∈ ss := by
      rcases h.only n d hd with hin | ⟨hb, -⟩
      · exact (List.mem_cons.1 hin).resolve_left hne
      · have hg : n ∉ gone := by
          intro hg
          obtain ⟨path, rfl⟩ := h.backing n hb
          obtain ⟨s, hs⟩ := h.removed _ hg
          cases hs
        obtain ⟨x, hx, hxp⟩ := h.inverse n hg child (by rw [hmap]; simp)
        exact (h.mem_of_parent hx hxp).2
    obtain ⟨as, child', cs, rfl⟩ := h.split hn hparent
    obtain rfl : child' = child := by
      have := h.mem_children
      rw [hmap] at this
      exact List.mem_singleton.1 this
    cases hrem with
    | base hp ht =>
      subst ht
      obtain ⟨hun, hcoh⟩ := h.unlink hd hc
      exact .inside as cs child' d c r rfl hd (.base hp) hc h hun hcoh
    | inner p e hp he ht =>
      have hp' := h.parent_mem hd hp
      have hpn : p ≠ n := by
        rintro rfl
        exact h.not_mem_rest (by simp [hp'])
      have hpc : p ≠ child' := by
        rintro rfl
        have hnd := h.follows.nodup
        rw [← List.cons_append, List.nodup_middle, List.nodup_cons] at hnd
        exact hnd.1 (by simp [hp'])
      have he : r.diskData p = some e := by
        rw [← he]
        exact (update_of_ne hpc _ _).symm
      have hpm : p ∈ .head k :: (as ++ child' :: n :: cs) := by simp [hp']
      have hname : e.name = p := h.name_eq hpm he
      rw [relinked_counted hpn hpc (h.name_eq (by simp) hc) hname] at ht
      subst ht
      have hcount : (r.counted p d e).Coherent bs k (as ++ child' :: n :: cs) gone := by
        subst hname
        exact h.setRecord hpm he rfl rfl rfl
      have hd' : (r.counted p d e).diskData n = some d := (update_of_ne hpn.symm _ _).trans hd
      have hc' : (r.counted p d e).diskData child' = some c := (update_of_ne hpc.symm _ _).trans hc
      obtain ⟨hun, hcoh⟩ := hcount.unlink hd' hc'
      exact .inside as cs child' d c _ rfl hd (.inner p e hp he) hc' hcount hun hcoh

end Removal

/-! ## Reading the chain again -/

section Reading

variable {r t : Replica} {k fuel : ℕ} {bs ss gone : List DiskName} {backing : Option BackingFile}
    {preload : Bool}
  {created : String} {p : DiskName}

theorem Coherent.follows_dir (h : r.Coherent bs k ss gone) :
    Follows r.dir.next (some (.head k)) (.head k :: ss) := by
  refine h.follows.congr fun n hn => ?_
  unfold Dir.next parentOf
  rw [h.metas n hn]

theorem reloadWith_ok (hk : reloadWith backing preload fuel created .calm r = (.ok (), t)) :
    ∃ u, constructWith backing preload r.info.size r.info.sectorSize fuel created .calm r =
        (.ok (), u) ∧
      t = { u with mode := r.mode, info := { u.info with dirty := r.info.dirty } } := by
  unfold reloadWith at hk
  rw [calm_bind calm_get] at hk
  obtain ⟨⟨⟩, u, hu, hk⟩ := calm_bind_ok.1 hk
  rw [calm_onError_ok] at hu
  rw [calm_modify] at hk
  cases hk
  exact ⟨u, hu, rfl⟩

/-- The flag for a clean stop and the mode are not compared. -/
theorem Coherent.restore (h : r.Coherent bs k ss gone) (mode : Mode) (dirty : Bool) :
    { r with mode := mode, info := { r.info with dirty := dirty } : Replica }.Coherent bs
      k ss gone := by
  obtain ⟨i, hv, hi⟩ := h.volumeMeta
  exact { h with
    volumeMeta :=
    ⟨i, hv, ⟨hi.size, hi.head, hi.rebuilding, hi.sectorSize, hi.cloneStatus, hi.checkpoint⟩⟩ }

/-- `construct` on the directory of a coherent replica. -/
theorem Coherent.construct {size sectorSize : ℕ} (h : r.Coherent bs k ss gone)
    (hu : constructWith backing preload size sectorSize fuel created .calm r = (.ok (), t)) :
    ∃ vm, r.dir.volumeMeta = some vm ∧ vm.Agrees r.info ∧ Opened r backing vm (.head k) ss t ∧
      t.Coherent (backingNames backing) k ss [] := by
  obtain ⟨vm, hv, hvm⟩ := h.volumeMeta
  have hhead : (r.dir.diskMeta (.head k)).isSome := by
    obtain ⟨d, -, hm, -⟩ := h.record (n := .head k) (by simp)
    rw [hm]
    rfl
  obtain ⟨ss', hf, ho, hcoh⟩ := constructWith_coherent h.tidy hhead hv (hvm.head.trans h.head) hu
  obtain rfl : ss = ss' := (List.cons.inj (h.follows_dir.unique hf)).2
  exact ⟨vm, hv, hvm, ho, hcoh⟩

/-- `Reload` of a coherent replica opens the chain again. -/
theorem reloadWith_coherent (h : r.Coherent bs k ss gone)
    (hk : reloadWith backing preload fuel created .calm r = (.ok (), t)) :
    ∃ vm u, r.dir.volumeMeta = some vm ∧ vm.Agrees r.info ∧ Opened r backing vm (.head k) ss u ∧
      t = { u with mode := r.mode, info := { u.info with dirty := r.info.dirty } } ∧
      t.Coherent (backingNames backing) k ss [] := by
  obtain ⟨u, hu, rfl⟩ := reloadWith_ok hk
  obtain ⟨vm, hv, hvm, ho, hcoh⟩ := h.construct hu
  exact ⟨vm, u, hv, hvm, ho, rfl, hcoh.restore _ _⟩

/-- The directory of a revert to `p`, before the chain is read again. -/
def reverted (k : ℕ) (p : DiskName) (created : String) (r : Replica) : Replica :=
  ((r.withHead (.head (k + 1)) (r.headDisk (.head (k + 1)) (some p) created)).setVolumeMeta
    { r.info with head := some (.head (k + 1)), dirty := true, parent := some p }).clear (.head k)

theorem revertDiskWith_ok (hhead : r.info.head = some (.head k)) (hro : r.readOnly = false)
    (hfree : r.dir.img (.head (k + 1)) = none)
    (hk : revertDiskWith backing p created fuel .calm r = (.ok (), t)) :
    (r.dir.img p).isSome ∧
    reloadWith backing true fuel created .calm (r.reverted k p created) = (.ok (), t) := by
  unfold revertDiskWith at hk
  rw [calm_bind (calm_query ..)] at hk
  split_ifs at hk with hfound
  · refine ⟨hfound, ?_⟩
    have hnew :=
      createNewHead_calm (r := r) (p := some p) (o := some (.head k)) rfl hro hfree created
    rw [calm_bind calm_get, hhead] at hk
    dsimp only at hk
    rw [calm_bind (calm_handle hnew _)] at hk
    have hro' := (withHead_readOnly (r := r) (.head (k + 1))
      (r.headDisk (.head (k + 1)) (some p) created)).trans hro
    obtain ⟨⟨⟩, u, hu, hk⟩ := calm_bind_ok.1 hk
    rw [calm_onError_ok, encodeInfo_calm hro'] at hu
    cases hu
    rw [calm_bind (rmDisk_calm ..)] at hk
    exact hk
  · cases hk

theorem reverted_mem : r.reverted k p created = { r with dir := (r.reverted k p created).dir } := by
  unfold reverted
  rw [withHead_mem]
  rfl

theorem reverted_diskMeta : (r.reverted k p created).dir.diskMeta = update
    (update r.dir.diskMeta (.head (k + 1)) (some (r.headDisk (.head (k + 1)) (some p) created)))
    (.head k) none := by
  rw [← withHead_diskMeta]
  rfl

theorem reverted_img : (r.reverted k p created).dir.img = update
    (update r.dir.img (.head (k + 1)) (some ((r.dir.img (.head (k + 1))).getD r.dir.nextIno)))
    (.head k) none := by
  rw [← withHead_img (.head (k + 1)) (r.headDisk (.head (k + 1)) (some p) created)]
  rfl

theorem reverted_cases {n : DiskName} {x : Disk}
    (hx : (r.reverted k p created).dir.diskMeta n = some x) :
    n = .head (k + 1) ∧ x = r.headDisk (.head (k + 1)) (some p) created ∨
      n ≠ .head k ∧ n ≠ .head (k + 1) ∧ r.dir.diskMeta n = some x := by
  rw [reverted_diskMeta, update_none_eq_some, update_some_eq_some] at hx
  obtain ⟨hne, ⟨rfl, rfl⟩ | ⟨hne', hx⟩⟩ := hx
  · exact .inl ⟨rfl, rfl⟩
  · exact .inr ⟨hne, hne', hx⟩

theorem reverted_named (h : r.dir.Named) : (r.reverted k p created).dir.Named := by
  intro n x hx
  rcases reverted_cases hx with ⟨rfl, rfl⟩ | ⟨-, -, hx⟩
  · rfl
  · exact h n x hx

theorem reverted_tidy (h : r.dir.Tidy k) (hp : ∃ s, p = .snap s) :
    (r.reverted k p created).dir.Tidy (k + 1) := by
  refine .of_fits (fun n x hx => ?_) fun n => ?_
  · rcases reverted_cases hx with ⟨rfl, rfl⟩ | ⟨hne, -, hx⟩
    · exact ⟨rfl, .inl ⟨rfl, rfl⟩, fun q hq => Option.some.inj hq ▸ hp⟩
    · exact (h.fits hx).of_ne hne _
  · rw [reverted_img, reverted_diskMeta]
    exact isSome_update (isSome_update h.paired rfl) rfl n

/-- A successful `Revert` of a coherent replica. The snapshots of the new chain are those from `p`
down in the directory. -/
theorem revertDiskWith_coherent (h : r.Coherent bs k ss gone)
    (hk : revertDiskWith backing p created fuel .calm r = (.ok (), t)) :
    ∃ (vm : Info) (ss' : List DiskName) (u : Replica),
      vm = { r.info with head := some (.head (k + 1)), dirty := true, parent := some p } ∧
      Follows r.dir.next (some p) ss' ∧
      Opened (r.reverted k p created) backing vm (.head (k + 1)) ss' u ∧
      t = { u with mode := r.mode, info := { u.info with dirty := r.info.dirty } } ∧
      t.Coherent (backingNames backing) (k + 1) ss' [] := by
  obtain ⟨himg, hrel⟩ := revertDiskWith_ok h.head h.readOnly h.free hk
  obtain ⟨u, hu, rfl⟩ := reloadWith_ok hrel
  have hinfo : (r.reverted k p created).info = r.info := by rw [reverted_mem]
  have hmode : (r.reverted k p created).mode = r.mode := by rw [reverted_mem]
  have hnext : ∀ n, n ≠ .head k → n ≠ .head (k + 1) →
      (r.reverted k p created).dir.next n = r.dir.next n := by
    intro n h₁ h₂
    unfold Dir.next
    rw [reverted_diskMeta, update_of_ne h₁, update_of_ne h₂]
  have hnew : (r.reverted k p created).dir.diskMeta (.head (k + 1)) =
      some (r.headDisk (.head (k + 1)) (some p) created) := by
    rw [reverted_diskMeta, update_of_ne (by simp), update_self]
  have hsome : ((r.reverted k p created).dir.diskMeta (.head (k + 1))).isSome := by
    rw [hnew]
    rfl
  -- the walk from the new head comes to `p`, so `p` is not the old head
  obtain ⟨-, ss', hf, -⟩ := constructWith_follows rfl rfl (reverted_named h.tidy.named) hsome hu
  have hr : Follows (r.reverted k p created).dir.next (some p) ss' := by
    obtain ⟨-, q, hq, hr⟩ := hf
    unfold Dir.next at hq
    rw [hnew] at hq
    cases hq
    exact hr
  have hne : ∀ n ∈ ss', n ≠ .head k ∧ n ≠ .head (k + 1) := by
    intro n hn
    refine ⟨?_, ?_⟩
    · rintro rfl
      have := Dir.isSome_of_follows hr hn
      rw [reverted_diskMeta, update_self] at this
      cases this
    · rintro rfl
      exact (List.nodup_cons.1 hf.nodup).1 hn
  have hp : p ∈ ss' := List.mem_of_mem_head? hr.start.symm
  have hsnap : ∃ s, p = .snap s := by
    obtain ⟨h₁, h₂⟩ := hne p hp
    have hmeta := hr.isSome p hp
    rw [hnext p h₁ h₂] at hmeta
    unfold Dir.next at hmeta
    rw [Option.isSome_map] at hmeta
    exact (h.tidy.known p hmeta).resolve_left h₁
  obtain ⟨ss'', hf', ho, hcoh⟩ :=
    constructWith_coherent (reverted_tidy h.tidy hsnap) hsome rfl rfl hu
  obtain rfl : ss' = ss'' := (List.cons.inj (hf.unique hf')).2
  rw [hinfo, hmode]
  refine ⟨_, ss', u, rfl, ?_, ho, rfl, hcoh.restore _ _⟩
  exact hr.congr fun n hn => (hnext n (hne n hn).1 (hne n hn).2).symm

end Reading

/-! ## The flags of `volume.meta` and the size -/

section Info

variable {r t : Replica} {k fuel : ℕ} {bs ss gone : List DiskName}

/-- What `volume.meta` says besides the head and its parent may change, in memory and on disk. -/
theorem Coherent.setInfo (h : r.Coherent bs k ss gone) {i vm : Info} (hh : i.head = r.info.head)
    (hp : i.parent = r.info.parent) (hv : vm.Agrees i) :
    { r.setVolumeMeta vm with info := i : Replica }.Coherent bs k ss gone :=
  { h with
    head := hh.trans h.head
    parent := hp.trans h.parent
    tidy := h.tidy.of_metas rfl rfl
    volumeMeta := ⟨vm, rfl, hv⟩ }

theorem setReplicaMode_coherent {mode : String} (h : r.Coherent bs k ss gone)
    (hk : setReplicaMode mode .calm r = (.ok (), t)) : t.Coherent bs k ss gone := by
  unfold setReplicaMode at hk
  split_ifs at hk
  · cases hk
    exact h.restore .rw r.info.dirty
  · cases hk
    exact h.restore .wo r.info.dirty
  · cases hk

theorem setCheckpoint_coherent {c : Option DiskName} (h : r.Coherent bs k ss gone)
    (hk : setCheckpoint c .calm r = (.ok (), t)) : t.Coherent bs k ss gone := by
  rw [setCheckpoint_calm h.readOnly] at hk
  cases hk
  exact h.setInfo rfl rfl ⟨rfl, rfl, rfl, rfl, rfl, rfl⟩

theorem setCloneStatus_coherent {status : String} (h : r.Coherent bs k ss gone)
    (hk : setCloneStatus status .calm r = (.ok (), t)) : t.Coherent bs k ss gone := by
  rw [setCloneStatus_calm h.readOnly] at hk
  cases hk
  exact h.setInfo rfl rfl ⟨rfl, rfl, rfl, rfl, rfl, rfl⟩

theorem setRebuilding_coherent {rebuilding : Bool} (h : r.Coherent bs k ss gone)
    (hk : setRebuilding rebuilding .calm r = (.ok (), t)) : t.Coherent bs k ss gone := by
  rw [setRebuilding_calm h.readOnly] at hk
  cases hk
  exact h.setInfo rfl rfl ⟨rfl, rfl, rfl, rfl, rfl, rfl⟩

theorem close_coherent (h : r.Coherent bs k ss gone) (hk : close .calm r = (.ok (), t)) :
    t.Coherent bs k ss gone := by
  rw [close_calm h.readOnly] at hk
  cases hk
  exact { h with
    tidy := h.tidy.of_metas rfl rfl, volumeMeta := ⟨_, rfl, ⟨rfl, rfl, rfl, rfl, rfl, rfl⟩⟩ }

theorem resize_coherent {obj : NewSize} (h : r.Coherent bs k ss gone)
    (hk : resize obj fuel .calm r = (.ok (), t)) : t.Coherent bs k ss gone := by
  obtain ⟨ns, -, -, rfl⟩ := resize_ok hk h.readOnly
  exact { h with
    tidy := h.tidy.of_metas rfl rfl, volumeMeta := ⟨_, rfl, ⟨rfl, rfl, rfl, rfl, rfl, rfl⟩⟩ }

end Info

/-! ## A new replica -/

section New

variable {t : Replica} {size sectorSize fuel maxChainLen : ℕ} {backing : Option BackingFile}
    {preload : Bool}
  {created : String}

/-- What `construct` makes in an empty directory. -/
theorem constructWith_new
    (hk : constructWith backing preload size sectorSize fuel created .calm (empty maxChainLen) =
      (.ok (), t)) :
    size % sectorSize = 0 ∧ 2 ≤ maxChainLen ∧ Finished backing
      (started created (allocLocation size (blank size sectorSize (empty maxChainLen)))) t := by
  have hrun := hk
  unfold constructWith at hk
  by_cases hsize : size % sectorSize = 0
  case neg =>
    rw [if_pos hsize] at hk
    cases hk
  rw [if_neg (not_not.2 hsize), calm_bind (calm_modify _)] at hk
  have hread : readMetadata fuel .calm (blank size sectorSize (empty maxChainLen)) =
      (.ok false, blank size sectorSize (empty maxChainLen)) := rfl
  rw [calm_bind hread, calm_bind (calm_modify _)] at hk
  obtain ⟨⟨⟩, u, hu, -⟩ := calm_bind_ok.1 hk
  have hcreate := hu
  rw [if_neg Bool.false_ne_true] at hcreate
  split_ifs at hcreate with hzero
  · cases hcreate
  obtain ⟨hlen, rfl⟩ := createDisk_first rfl rfl rfl hcreate
  refine ⟨hsize, hlen, ?_⟩
  rw [constructWith_eq hsize hread hu (by rfl)] at hrun
  cases hrun
  exact finished_spec backing preload _

/-- The first head is all there is. -/
theorem constructWith_new_coherent
    (hk : constructWith backing preload size sectorSize fuel created .calm (empty maxChainLen) =
      (.ok (), t)) :
    t.Coherent (backingNames backing) 0 [] [] := by
  obtain ⟨-, hlen, hfin⟩ := constructWith_new hk
  set d : Disk := ⟨.head 0, none, false, false, created, 1⟩ with hd
  have hinfo : t.info.head = some (.head 0) ∧ t.info.parent = none := by
    rw [hfin.info]
    exact ⟨rfl, rfl⟩
  have hdata : ∀ n x, t.diskData n = some x → n = .head 0 ∧ x = d ∨
      n ∈ backingNames backing ∧ x = ⟨n, none, false, false, "", 0⟩ := by
    intro n x hx
    by_cases hb : n ∈ backingNames backing
    · rw [hfin.backed n hb] at hx
      cases hx
      exact .inr ⟨hb, rfl⟩
    · rw [hfin.data n hb] at hx
      rcases eq_or_ne n (.head 0) with rfl | hne
      · exact .inl ⟨rfl, (Option.some.inj hx).symm⟩
      · have hx : update (fun _ => none) (.head 0) (some d) n = some x := hx
        rw [update_of_ne hne] at hx
        cases hx
  have hhead : t.diskData (.head 0) = some d := by
    rw [hfin.data _ fun hb => ?_]
    · rfl
    · obtain ⟨path, hpath⟩ := mem_backingNames hb
      cases hpath
  have hdir : t.dir.diskMeta = update (fun _ => none) (.head 0) (some d) ∧
      t.dir.img = update (fun _ => none) (.head 0) (some 1) := by
    rw [hfin.dir]
    exact ⟨rfl, rfl⟩
  have hmeta : ∀ n x, t.dir.diskMeta n = some x → n = .head 0 ∧ x = d := by
    intro n x hx
    rw [hdir.1] at hx
    rcases update_some_eq_some.1 hx with ⟨hn, hx⟩ | ⟨-, hx⟩
    · exact ⟨hn, hx.symm⟩
    · cases hx
  obtain ⟨hro, -, hmax, hmap⟩ := hfin.rest
  have hnil : ∀ p, t.diskChildrenMap p = [] := by
    rw [hmap]
    exact fun _ => rfl
  constructor
  · exact hro
  · exact hinfo.1
  · exact hinfo.2
  · exact hfin.active
  · rw [hfin.files _ rfl, hfin.active]
    simp only [backingNames, List.length_cons, List.length_append, List.length_map]
    rfl
  · rw [hfin.flags _ rfl, hfin.active]
    simp only [List.length_cons, List.length_append, List.length_map]
    rfl
  · exact ⟨rfl, none, by unfold parentOf; rw [hhead]; rfl, rfl⟩
  · intro n x hx
    exact (hdata n x hx).imp (fun h => by simp [h.1]) id
  · intro n hn
    obtain rfl := List.mem_singleton.1 hn
    rw [hhead, hdir.1, update_self]
  · intro n x p hx hp
    rcases hdata n x hx with ⟨-, rfl⟩ | ⟨-, rfl⟩
    · cases hp
    · cases hp
  · intro p _ n hn
    rw [hnil] at hn
    cases hn
  · intro p hp
    rw [hnil] at hp
    cases hp
  · intro p
    rw [hnil]
    exact List.nodup_nil
  · refine .of_fits (fun n x hx => ?_) fun n => ?_
    · obtain ⟨rfl, rfl⟩ := hmeta n x hx
      exact ⟨rfl, .inl ⟨rfl, rfl⟩, by simp⟩
    · rw [hdir.1, hdir.2]
      refine isSome_update (fun _ => ?_) ?_ n <;> rfl
  · exact fun b hb => mem_backingNames hb
  · exact fun _ h => absurd h List.not_mem_nil
  · exact ⟨{ t.info with dirty := true }, by rw [hfin.dir], ⟨rfl, rfl, rfl, rfl, rfl, rfl⟩⟩
  · rw [hmax]
    exact Nat.le_trans (by simp) hlen

end New

end Replica

end Jiva
