import Jiva.RemoveSnapshot

/-!
# The chain in the memory of an open replica

`Coherent` ties the records of an open replica to its directory. A call that fails can loosen this
tie : a disk is marked in memory and not in its metadata file, or a removed image is still there.
`Chained` is what is left, and all that the images of the chain depend on : the records lead from
the head to the base, `activeDiskData` has the same disks, and each has a file of its own in the
volume.

`SameOpen` says of two replicas that they differ in the names of the directory only. Whatever
happens to the calls of `PrepareRemoveDisk` and `RemoveDiffDisk`, what they leave is the replica, or
the replica with a disk marked or taken out, up to such a difference (`prepareRemoveDisk_marks`,
`removeDiffDisk_taken`).
-/

namespace Jiva

open Faults Links Function

namespace Replica

/-- The replicas differ in the names of their directories only. -/
def SameOpen (r t : Replica) : Prop :=
  ∃ dir, dir.store = r.dir.store ∧ t = { r with dir := dir }

/-- A snapshot of a user that is not marked as removed. -/
def wanted (r : Replica) (n : DiskName) : Bool :=
  match r.diskData n with
  | none => false
  | some d => d.userCreated && !d.removed

/-- The open replica has the chain of head `k` and the snapshots `ss` over the backing file in `bs`,
and each disk has a file of its own, of the size of the volume. -/
structure Chained (r : Replica) (bs : List DiskName) (k : ℕ) (ss : List DiskName) : Prop where
  readOnly : r.readOnly = false
  head : r.info.head = some (.head k)
  parent : r.info.parent = ss.head?
  active : r.activeDiskData = bs ++ (.head k :: ss).reverse
  files : r.volume.files.length = r.activeDiskData.length + 1
  follows : Follows r.parentOf (some (.head k)) (.head k :: ss)
  apart : ∀ n ∈ .head k :: ss, n ∉ bs
  children : ∀ n d p, r.diskData n = some d → d.parent = some p → n ∈ r.diskChildrenMap (some p)
  own : ∀ p, p ∉ r.diskChildrenMap (some p)
  distinct : r.volume.files.Nodup
  size : ∀ i, 0 < i → i < r.volume.files.length → (r.dir.store (r.volume.file i)).size = r.info.size

/-- A coherent replica with distinct files of one size. -/
theorem Coherent.chained {r : Replica} {bs ss gone : List DiskName} {k : ℕ}
    (h : r.Coherent bs k ss gone) (hd : r.volume.files.Nodup)
    (hs : ∀ i, 0 < i → i < r.volume.files.length →
      (r.dir.store (r.volume.file i)).size = r.info.size) : r.Chained bs k ss where
  readOnly := h.readOnly
  head := h.head
  parent := h.parent
  active := h.active
  files := h.files
  follows := h.follows
  apart := fun _ hn => h.not_backing hn
  children := h.children
  own := h.own
  distinct := hd
  size := hs

section SameOpen

variable {r t u : Replica} {bs ss : List DiskName} {k : ℕ}

theorem SameOpen.refl (r : Replica) : r.SameOpen r :=
  ⟨r.dir, rfl, rfl⟩

theorem SameOpen.trans (h : r.SameOpen t) (h' : t.SameOpen u) : r.SameOpen u := by
  obtain ⟨dir, hdir, rfl⟩ := h
  obtain ⟨dir', hdir', rfl⟩ := h'
  exact ⟨dir', hdir'.trans hdir, rfl⟩

theorem sameOpen_setImg (r : Replica) (n : DiskName) (i : Option ℕ) : r.SameOpen (r.setImg n i) :=
  ⟨(r.setImg n i).dir, rfl, rfl⟩

theorem sameOpen_setMeta (r : Replica) (n : DiskName) (d : Option Disk) :
    r.SameOpen (r.setMeta n d) :=
  ⟨(r.setMeta n d).dir, rfl, rfl⟩

theorem sameOpen_clearMeta (r : Replica) (n : DiskName) : r.SameOpen (r.clearMeta n) :=
  ⟨(r.clearMeta n).dir, rfl, rfl⟩

theorem sameOpen_tear (r : Replica) (file : Option DiskName) : r.SameOpen (r.tear file) :=
  ⟨(r.tear file).dir, rfl, rfl⟩

theorem SameOpen.vol (h : r.SameOpen t) : t.vol = r.vol := by
  obtain ⟨dir, hdir, rfl⟩ := h
  unfold Replica.vol
  rw [hdir]

theorem SameOpen.chained (h : r.SameOpen t) (hc : r.Chained bs k ss) : t.Chained bs k ss := by
  obtain ⟨dir, hdir, rfl⟩ := h
  refine { hc with size := fun i h0 hi => ?_ }
  show (dir.store (r.volume.file i)).size = r.info.size
  rw [hdir]
  exact hc.size i h0 hi

/-- Whatever `encodeToFile` comes to, it is about names. -/
theorem encodeToFile_sameOpen (w : Enc) (file : Option DiskName) {f : Replica → Replica}
    (hf : ∀ s : Replica, s.SameOpen (f s)) :
    Spec (fun _ s => r.SameOpen s) (encodeToFile w file f) (fun _ _ t => r.SameOpen t)
      (fun _ _ t => r.SameOpen t) fun _ t => r.SameOpen t := by
  refine .get fun s => .ite (fun _ => .pure fun _ t ht => ht.1 ▸ ht.2) fun _ => ?_
  refine .bind (Q := fun _ _ t => r.SameOpen t) (.call (fun _ t ht _ => ht.1 ▸ ht.2)
    (fun t ht => ht.1 ▸ ht.2) fun t ht => ht.1 ▸ ht.2) fun _ => ?_
  refine .bind (Q := fun _ _ t => r.SameOpen t)
    (.query (fun _ _ ht _ => ht) (fun _ ht => ht) fun _ ht => ht) fun whole => ?_
  have hput : ∀ t : Replica, t.SameOpen ((if whole then f else tear file) t) := fun t => by
    cases whole
    · exact sameOpen_tear t file
    · exact hf t
  refine .bind (Q := fun _ _ t => r.SameOpen t) (.call (fun _ t ht _ => ht.trans (hput t))
    (fun _ ht => ht) fun t ht => ht.trans (hput t)) fun _ => ?_
  exact .call (fun _ _ ht _ => ht) (fun _ ht => ht) fun _ ht => ht

theorem rmDisk_sameOpen (w : Rm) (n : DiskName) :
    Spec (fun _ s => r.SameOpen s) (rmDisk w (some n)) (fun _ _ t => r.SameOpen t)
      (fun _ _ t => r.SameOpen t) fun _ t => r.SameOpen t := by
  refine .bind (Q := fun _ _ t => r.SameOpen t) (.call
    (fun _ t ht _ => ht.trans (sameOpen_setImg t n none)) (fun _ ht => ht)
    fun t ht => ht.trans (sameOpen_setImg t n none)) fun _ => ?_
  refine .bind (Q := fun _ _ t => r.SameOpen t) (.call
    (fun _ t ht _ => ht.trans (sameOpen_clearMeta t n)) (fun _ ht => ht)
    fun t ht => ht.trans (sameOpen_clearMeta t n)) fun _ => ?_
  exact .call (fun _ _ ht _ => ht) (fun _ ht => ht) fun _ ht => ht

end SameOpen

/-! ## Marking a disk -/

section Mark

variable {r t : Replica} {bs ss : List DiskName} {k : ℕ} {n : DiskName} {d : Disk}

/-- The disk `n` with the record `d` is marked as removed in memory. -/
def mark (n : DiskName) (d : Disk) (r : Replica) : Replica :=
  r.setDisk n (some { d with removed := true })

theorem mark_diskData (m : DiskName) : (r.mark n d).diskData m =
    if m = n then some { d with removed := true } else r.diskData m := by
  show update r.diskData n _ m = _
  split_ifs with h
  · rw [h, update_self]
  · rw [update_of_ne h]

theorem mark_parentOf (hd : r.diskData n = some d) : (r.mark n d).parentOf = r.parentOf := by
  funext m
  unfold parentOf
  rw [mark_diskData]
  split_ifs with h
  · rw [h, hd]
    rfl
  · rfl

/-- A disk that is marked is not wanted any more, and the others are as before. -/
theorem mark_wanted (m : DiskName) :
    (r.mark n d).wanted m = if m = n then false else r.wanted m := by
  unfold wanted
  rw [mark_diskData]
  split_ifs
  · simp
  · rfl

theorem mark_chained (hd : r.diskData n = some d) (h : r.Chained bs k ss) :
    (r.mark n d).Chained bs k ss := by
  refine { h with follows := (mark_parentOf hd) ▸ h.follows, children := fun m x p hx hp => ?_ }
  rw [mark_diskData] at hx
  split_ifs at hx with hm
  · obtain rfl := Option.some.inj hx
    exact h.children m d p (hm ▸ hd) hp
  · exact h.children m x p hx hp

theorem markDiskAsRemoved_marks (hd : r.diskData n = some d) :
    Spec (fun _ s => s = r) (markDiskAsRemoved n) (fun _ _ t => (r.mark n d).SameOpen t)
      (fun _ _ t => r.SameOpen t ∨ (r.mark n d).SameOpen t) fun _ t => r.SameOpen t ∨
      (r.mark n d).SameOpen t := by
  refine .get_eq ?_
  rw [hd]
  dsimp only
  refine .bind (Q := fun _ _ t => t = r) (.query (fun _ _ ht _ => ht) (fun _ ht => ht)
    fun t ht => .inl (ht ▸ .refl _)) fun found => .ite (fun _ => ?_) fun _ =>
      .throw fun _ t ht => .inl (ht ▸ .refl _)
  refine .bind (Q := fun _ _ t => t = r) (.query (fun _ _ ht _ => ht) (fun _ ht => ht)
    fun t ht => .inl (ht ▸ .refl _)) fun found => .ite (fun _ => ?_) fun _ =>
      .throw fun _ t ht => .inl (ht ▸ .refl _)
  refine .bind (Q := fun _ _ t => (r.mark n d).SameOpen t)
    (.modify fun _ t ht => ht ▸ .refl _) fun _ => ?_
  exact (encodeToFile_sameOpen _ _ fun t => sameOpen_setMeta t n _).consequence (fun _ _ => id)
    (fun _ _ _ => id) (fun _ _ _ => .inr) fun _ _ => .inr

/-- Whatever happens to its calls, `PrepareRemoveDisk` of a disk does nothing or marks it. -/
theorem prepareRemoveDisk_marks (hd : r.diskData n = some d) :
    Spec (fun _ s => s = r) (prepareRemoveDisk n)
      (fun acts _ t => ∃ p, d.parent = some p ∧ r.info.head ≠ some n ∧ r.info.parent ≠ some n ∧
        acts = [.coalesce n (some p), .remove n] ∧ (r.mark n d).SameOpen t)
      (fun _ _ t => r.SameOpen t ∨ (r.mark n d).SameOpen t) fun _ t => r.SameOpen t ∨
      (r.mark n d).SameOpen t := by
  have hsame : ∀ (e : String) {Q : List PrepareRemoveAction → Fate Site → Replica → Prop},
      Spec (fun _ s => s = r) (Act.throw e) Q (fun _ _ t => r.SameOpen t ∨ (r.mark n d).SameOpen t)
        fun _ t => r.SameOpen t ∨ (r.mark n d).SameOpen t :=
    fun e Q => .throw fun _ t ht => .inl (ht ▸ .refl _)
  refine .get_eq ?_
  refine .ite (fun _ => hsame _) fun _ => ?_
  rw [hd]
  refine .get_eq ?_
  refine .ite (fun _ => hsame _) fun hhead => .ite (fun _ => hsame _) fun hparent => ?_
  cases hp : d.parent with
  | none => exact hsame _
  | some p =>
    dsimp only
    refine .bind (Q := fun _ _ t => (r.mark n d).SameOpen t)
      (.handle (markDiskAsRemoved_marks hd) fun e => .throw fun _ _ => id) fun _ =>
      .get fun v => ?_
    refine .pre (P := fun _ t => t = v ∧ (r.mark n d).SameOpen v) ?_ fun _ t ht => ht
    refine .given fun hv => ?_
    have hdata : v.diskData = (r.mark n d).diskData := by
      obtain ⟨dir, -, rfl⟩ := hv
      rfl
    have hn : v.diskData n = some { d with removed := true } := by
      rw [hdata, mark_diskData, if_pos rfl]
    cases v.diskData p with
    | none => exact .throw fun _ t ht => .inr (ht ▸ hv)
    | some e =>
      simp only [processPrepareRemoveDisks, hn, hp]
      exact .pure fun _ t ht => ⟨p, rfl, hhead, hparent, rfl, ht ▸ hv⟩

end Mark

/-! ## Taking a disk out -/

theorem SameOpen.setDisk {r t : Replica} (h : r.SameOpen t) (n : DiskName) (d : Option Disk) :
    (r.setDisk n d).SameOpen (t.setDisk n d) := by
  obtain ⟨dir, hdir, rfl⟩ := h
  exact ⟨dir, hdir, rfl⟩

theorem SameOpen.removeActive {r t : Replica} (h : r.SameOpen t) (i : ℕ) :
    (r.removeActive i).SameOpen (t.removeActive i) := by
  obtain ⟨dir, hdir, rfl⟩ := h
  exact ⟨dir, hdir, rfl⟩

/-- The volume, the live chain and the flags of the disks are as before. -/
structure Untouched (r t : Replica) : Prop where
  vol : t.vol = r.vol
  active : t.activeDiskData = r.activeDiskData
  info : t.info = r.info
  wanted : t.wanted = r.wanted

theorem Untouched.sameOpen {r t u : Replica} (h : r.Untouched t) (hs : t.SameOpen u) :
    r.Untouched u := by
  have hvol := hs.vol
  obtain ⟨dir, hdir, rfl⟩ := hs
  exact ⟨hvol.trans h.vol, h.active, h.info, h.wanted⟩

theorem Untouched.refl (r : Replica) : r.Untouched r :=
  ⟨rfl, rfl, rfl, rfl⟩

/-- A new record with the flags of the old one. -/
theorem Untouched.setDisk {r t : Replica} (h : r.Untouched t) {n : DiskName} {d e : Disk}
    (hd : t.diskData n = some d) (hu : e.userCreated = d.userCreated) (hr : e.removed = d.removed) :
    r.Untouched (t.setDisk n (some e)) := by
  refine ⟨h.vol, h.active, h.info, ?_⟩
  rw [← h.wanted]
  funext m
  unfold Replica.wanted
  show (match update t.diskData n (some e) m with
    | none => false
    | some d => d.userCreated && !d.removed) = _
  rcases eq_or_ne m n with rfl | hne
  · rw [update_self, hd]
    dsimp only
    rw [hu, hr]
  · rw [update_of_ne hne]

section Take

variable {r t : Replica} {bs as cs : List DiskName} {k : ℕ} {n child p : DiskName} {d c e : Disk}

/-- The records after the removal of `n`, which was between `child` and `p`. -/
def spliceOut (n child p : DiskName) (d c e : Disk) (r : Replica) : Replica :=
  ((r.updateChildDisk n (some child)).setDisk child (some { c with parent := d.parent })).setDisk p
    (some { e with revisionCounter := d.revisionCounter })

/-- The replica after the removal of `n`. -/
def taken (n child p : DiskName) (d c e : Disk) (r : Replica) : Replica :=
  ((r.spliceOut n child p d c e).setDisk n none).removeActive (r.activeDiskData.idxOf n)

namespace Chained

variable (h : r.Chained bs k (as ++ child :: n :: p :: cs))
include h

theorem not_mem_rest : n ∉ .head k :: (as ++ child :: p :: cs) := by
  have hnd := h.follows.nodup
  have hsplit : .head k :: (as ++ child :: n :: p :: cs) =
    (.head k :: (as ++ [child])) ++ n :: p :: cs := by simp
  rw [hsplit, List.nodup_middle, List.nodup_cons] at hnd
  simpa using hnd.1

/-- The place of the disk in the live chain. -/
theorem place :
    r.activeDiskData = (bs ++ cs.reverse) ++ p :: n :: child :: (as.reverse ++ [.head k]) ∧
    r.activeDiskData.idxOf n = (bs ++ cs.reverse).length + 1 := by
  have hactive : r.activeDiskData =
      (bs ++ cs.reverse ++ [p]) ++ n :: child :: (as.reverse ++ [.head k]) := by
    rw [h.active]
    simp
  have hn : n ∉ bs ++ cs.reverse ++ [p] := by
    have hrest := h.not_mem_rest
    simp only [List.mem_append, List.mem_cons, List.mem_reverse, not_or] at hrest ⊢
    exact ⟨⟨h.apart n (by simp), hrest.2.2.2.2⟩, hrest.2.2.2.1, List.not_mem_nil⟩
  refine ⟨by rw [hactive]; simp, ?_⟩
  rw [hactive, List.idxOf_append_of_notMem hn, List.idxOf_cons_self, Nat.add_zero,
    List.length_append]
  rfl

theorem parent_eq (hd : r.diskData n = some d) : d.parent = some p :=
  parent_of_follows (l := .head k :: as ++ [child]) (m := p :: cs) h.follows (by simp) hd

theorem mem_children (hc : r.diskData child = some c) : child ∈ r.diskChildrenMap (some n) :=
  h.children child c n hc (parent_of_follows (l := .head k :: as) h.follows rfl hc)

/-- The disks around the one that is removed are distinct. -/
theorem ne : child ≠ n ∧ p ≠ n ∧ p ≠ child := by
  have hsub : (child :: n :: p :: cs).Nodup :=
    h.follows.nodup.sublist ((List.sublist_append_right as _).cons _)
  simp only [List.nodup_cons, List.mem_cons, not_or] at hsub
  exact ⟨hsub.1.1, Ne.symm hsub.2.1.1, Ne.symm hsub.1.2.1⟩

end Chained

theorem taken_diskData (hcn : child ≠ n) (hpn : p ≠ n) (hpc : p ≠ child) (m : DiskName) :
    (r.taken n child p d c e).diskData m = if m = n then none
      else if m = p then some { e with revisionCounter := d.revisionCounter }
      else if m = child then some { c with parent := d.parent }
      else r.diskData m := by
  show update (update (update r.diskData child _) p _) n none m = _
  split_ifs with h1 h2 h3
  · rw [h1, update_self]
  · rw [h2, update_of_ne hpn, update_self]
  · rw [h3, update_of_ne hcn, update_of_ne hpc.symm, update_self]
  · rw [update_of_ne h1, update_of_ne h2, update_of_ne h3]

/-- Only the disk that is removed is no longer there. -/
theorem taken_wanted (hne : child ≠ n ∧ p ≠ n ∧ p ≠ child) (hc : r.diskData child = some c)
    (he : r.diskData p = some e) {m : DiskName} (hm : m ≠ n) :
    (r.taken n child p d c e).wanted m = r.wanted m := by
  unfold wanted
  rw [taken_diskData hne.1 hne.2.1 hne.2.2, if_neg hm]
  split_ifs with h1 h2
  · rw [h1, he]
  · rw [h2, hc]
  · rfl

section

variable (h : r.Chained bs k (as ++ child :: n :: p :: cs))
include h

theorem taken_info : (r.taken n child p d c e).info = r.info := by
  obtain ⟨hactive, hplace⟩ := h.place
  show (if r.activeDiskData.length = r.activeDiskData.idxOf n + 2 then _ else r.info) = r.info
  rw [if_neg]
  rw [hplace, hactive]
  simp only [List.length_append, List.length_cons, List.length_nil]
  omega

theorem taken_active : (r.taken n child p d c e).activeDiskData =
    (bs ++ cs.reverse) ++ p :: child :: (as.reverse ++ [.head k]) := by
  obtain ⟨hactive, hplace⟩ := h.place
  show r.activeDiskData.eraseIdx (r.activeDiskData.idxOf n) = _
  rw [hplace, hactive, List.eraseIdx_append_of_length_le (Nat.le_succ _)]
  simp

theorem taken_chained (hd : r.diskData n = some d)
    (he : r.diskData p = some e) :
    (r.taken n child p d c e).Chained bs k (as ++ child :: p :: cs) := by
  obtain ⟨hcn, hpn, hpc⟩ := h.ne
  obtain ⟨hactive, hplace⟩ := h.place
  have hdata := taken_diskData (r := r) (d := d) (c := c) (e := e) hcn hpn hpc
  have hfol : Follows r.parentOf (some (.head k)) ((.head k :: as) ++ child :: n :: p :: cs) :=
    h.follows
  have hdp := h.parent_eq hd
  have hlen : r.activeDiskData.idxOf n < r.activeDiskData.length := by
    rw [hplace, hactive]
    simp only [List.length_append, List.length_cons]
    omega
  have hfiles : (r.taken n child p d c e).volume.files =
    r.volume.files.eraseIdx (r.activeDiskData.idxOf n + 1) := rfl
  have hact : (r.taken n child p d c e).activeDiskData =
    r.activeDiskData.eraseIdx (r.activeDiskData.idxOf n) := rfl
  have hinfo : (r.taken n child p d c e).info = r.info := taken_info h
  have hmap : ∀ q m, m ∈ (r.taken n child p d c e).diskChildrenMap q ↔ q = some p ∧ m = child ∨
      m ∈ r.diskChildrenMap q ∧ ¬(q = some p ∧ m = n) := by
    intro q m
    have hch : (r.taken n child p d c e).diskChildrenMap =
        ((r.rmChildDisk (some p) n).addChildDisk (some p) child).diskChildrenMap := by
      show (r.updateChildDisk n (some child)).diskChildrenMap = _
      unfold updateChildDisk
      rw [hd, Option.bind_some, hdp]
    rw [hch, mem_addChildDisk_iff, mem_rmChildDisk_iff]
  constructor
  · exact h.readOnly
  · rw [hinfo]
    exact h.head
  · rw [hinfo, h.parent]
    cases as <;> rfl
  · rw [taken_active h]
    simp
  · rw [hfiles, hact, List.length_eraseIdx_of_lt (by rw [h.files]; omega),
      List.length_eraseIdx_of_lt hlen, h.files]
    omega
  · refine (hfol.unlink hfol.nodup).congr fun m hm => ?_
    have hmn : m ≠ n := fun heq => h.not_mem_rest (heq ▸ hm)
    unfold parentOf
    rw [hdata, if_neg hmn]
    split_ifs with h1 h2
    · rw [h1, update_of_ne hpc, he]
      rfl
    · rw [h2, update_self, Option.map_some, hdp]
      rfl
    · rw [update_of_ne h2]
  · intro m hm
    refine h.apart m ?_
    simp only [List.mem_cons, List.mem_append] at hm ⊢
    tauto
  · intro m x q hx hq
    rw [hmap]
    rw [hdata] at hx
    split_ifs at hx with h1 h2 h3
    · obtain rfl := Option.some.inj hx
      exact .inr ⟨h.children m e q (h2 ▸ he) hq, fun heq => h1 heq.2⟩
    · obtain rfl := Option.some.inj hx
      exact .inl ⟨(hdp ▸ hq).symm, h3⟩
    · exact .inr ⟨h.children m x q hx hq, fun heq => h1 heq.2⟩
  · intro q hq
    rcases (hmap _ _).1 hq with ⟨h1, h2⟩ | ⟨h1, -⟩
    · exact hpc ((Option.some.inj h1).symm.trans h2)
    · exact h.own q h1
  · rw [hfiles]
    exact h.distinct.eraseIdx _
  · intro i h0 hi
    have hfile := Volume.removeDisk_file r.vol (r.activeDiskData.idxOf n + 1) i
    rw [hinfo]
    show (r.dir.store ((r.vol.removeDisk (r.activeDiskData.idxOf n + 1)).file i)).size = _
    rw [hfiles, List.length_eraseIdx_of_lt (by rw [h.files]; omega)] at hi
    rw [hfile]
    split_ifs
    · exact h.size i h0 (by omega)
    · exact h.size (i + 1) (Nat.succ_pos i) (by omega)

/-- `removeDiskNode` has an error only if it does nothing, and stops only before it takes the disk
out. -/
theorem removeDiskNode_taken (hd : r.diskData n = some d)
    (hdp : d.parent = some p) (hc : r.diskData child = some c) (he : r.diskData p = some e) :
    Spec (fun _ s => s = r) (removeDiskNode n) (fun _ _ t => (r.taken n child p d c e).SameOpen t)
      (fun _ _ t => t = r) fun _ t => r.Untouched t := by
  obtain ⟨hcn, hpn, hpc⟩ := h.ne
  refine .get_eq ?_
  rw [hd]
  dsimp only
  have hmem := h.mem_children hc
  cases hm : r.diskChildrenMap (some n) with
  | nil =>
    rw [hm] at hmem
    cases hmem
  | cons x rest =>
    cases rest with
    | cons y rest => exact .throw fun _ _ ht => ht
    | nil =>
      rw [hm] at hmem
      obtain rfl := List.mem_singleton.1 hmem
      dsimp only
      have h₀ : r.Untouched (r.updateChildDisk n (some child)) := ⟨rfl, rfl, rfl, rfl⟩
      have h₁ := h₀.setDisk (n := child) (e := { c with parent := d.parent }) hc rfl rfl
      have hep : ((r.updateChildDisk n (some child)).setDisk child
        (some { c with parent := d.parent })).diskData p =
          some e := (update_of_ne hpc _ _).trans he
      have h₂ : r.Untouched (r.spliceOut n child p d c e) :=
        h₁.setDisk (e := { e with revisionCounter := d.revisionCounter }) hep rfl rfl
      refine .bind (Q := fun _ _ t => t = r.updateChildDisk n (some child))
        (.modify fun _ t ht => ht ▸ rfl) fun _ => ?_
      -- the record of the child
      refine .bind (Q := fun _ _ t => ((r.updateChildDisk n (some child)).setDisk child
        (some { c with parent := d.parent })).SameOpen t)
        (.handle (E := fun _ _ t => r.Untouched t) ?_
          fun _ => .fatal fun _ _ => id) fun _ => ?_
      · refine .get fun u => .pre (P := fun _ t => t = u ∧
          u = r.updateChildDisk n (some child)) ?_ fun _ t ht => ht
        refine .given fun hu => ?_
        have hcu : u.diskData child = some c := by rw [hu]; exact hc
        have hnu : u.diskData n = some d := by rw [hu]; exact hd
        rw [hcu, hnu]
        dsimp only
        refine .bind (Q := fun _ _ t => ((r.updateChildDisk n (some child)).setDisk child
          (some { c with parent := d.parent })).SameOpen t) (.modify fun _ t ht => ?_) fun _ =>
          ?_
        · rw [ht, hu]
          exact .refl _
        · exact (encodeToFile_sameOpen _ _ fun t => sameOpen_setMeta t _ _).consequence
            (fun _ _ => id) (fun _ _ _ => id) (fun _ _ _ ht => h₁.sameOpen ht) fun _ _ ht =>
            h₁.sameOpen ht
      -- the counter of the parent
      refine .bind (Q := fun _ _ t => (r.spliceOut n child p d c e).SameOpen t)
        (.handle (E := fun _ _ t => r.Untouched t) ?_ fun _ => .fatal
          fun _ _ => id) fun _ => ?_
      · refine .get fun u => .pre (P := fun _ t => t = u ∧
          ((r.updateChildDisk n (some child)).setDisk child
            (some { c with parent := d.parent })).SameOpen u) ?_ fun _ t ht => ht
        refine .given fun hu => ?_
        have hdata : u.diskData = ((r.updateChildDisk n (some child)).setDisk child
            (some { c with parent := d.parent })).diskData := by
          obtain ⟨dir, -, rfl⟩ := hu
          rfl
        have hnu : u.diskData n = some d := by
          rw [hdata]
          exact (update_of_ne hcn.symm _ _).trans hd
        have hpu : u.diskData p = some e := by
          rw [hdata]
          exact hep
        rw [hnu]
        dsimp only
        rw [hdp]
        dsimp only
        rw [hpu]
        dsimp only
        refine .bind (Q := fun _ _ t => (r.spliceOut n child p d c e).SameOpen t)
          (.modify fun _ t ht => ht ▸ hu.setDisk p _) fun _ => ?_
        exact (encodeToFile_sameOpen _ _ fun t => sameOpen_setMeta t _ _).consequence
          (fun _ _ => id) (fun _ _ _ => id) (fun _ _ _ ht => h₂.sameOpen ht) fun _ _ ht =>
          h₂.sameOpen ht
      refine .bind (Q := fun _ _ t => ((r.spliceOut n child p d c e).setDisk n none).SameOpen t)
        (.modify fun _ t ht => ht.setDisk n none) fun _ => ?_
      refine .ite (fun _ => .modify fun _ t ht => ht.removeActive _) fun hnot => ?_
      refine (hnot ?_).elim
      obtain ⟨hactive, hplace⟩ := h.place
      rw [hplace, hactive]
      simp only [List.length_append, List.length_cons]
      omega

/-- Whatever happens to its calls, `RemoveDiffDisk` does nothing that is seen or takes the disk
out. -/
theorem removeDiffDisk_taken (hd : r.diskData n = some d)
    (hdp : d.parent = some p) (hc : r.diskData child = some c) (he : r.diskData p = some e) :
    Spec (fun _ s => s = r) (removeDiffDisk n) (fun _ _ t => (r.taken n child p d c e).SameOpen t)
      (fun _ _ t => t = r ∨ (r.taken n child p d c e).SameOpen t)
      fun _ t => r.Untouched t ∨ (r.taken n child p d c e).SameOpen t := by
  refine .get_eq ?_
  refine .ite (fun _ => .throw fun _ _ => .inl) fun _ =>
    .ite (fun _ => .throw fun _ _ => .inl) fun _ =>
    .ite (fun _ => .throw fun _ _ => .inl) fun _ => ?_
  refine .bind ((removeDiskNode_taken h hd hdp hc he).consequence (fun _ _ => id)
    (fun _ _ _ => id) (fun _ _ _ => .inl) fun _ _ => .inl) fun _ => ?_
  exact (rmDisk_sameOpen .disk n).consequence (fun _ _ => id) (fun _ _ _ => id) (fun _ _ _ => .inr)
    fun _ _ => .inr

end

end Take

end Replica

end Jiva
