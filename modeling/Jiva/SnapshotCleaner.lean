import Mathlib.Data.List.Sort
import Jiva.Holes
import Jiva.OpenChain
import Jiva.Stocked

/-!
# Cleaning up snapshots in the background

`InternalSnapshotCleaner` wakes up every minute. If the controller has a checkpoint, and the replica
has the same one, it lists the snapshots that may go (`GetDeleteCandidateChain`), and if there are
enough of them it removes the first : `PrepareRemoveDisk` marks it, its sectors are copied over its
parent, and `RemoveDiffDisk` takes it out.

A snapshot may go if it is strictly between the base and the checkpoint, and if neither it nor its
parent is a snapshot that a user wants. The parent matters as much as the snapshot : the copy
changes the image at the parent, and the removal leaves the parent with the image of the snapshot.

All the while the worker punches the holes that wait, until `RemoveDiffDisk` throws the rest of them
away. A hole in the parent may have been sent off when its sector was overwritten in the snapshot.
Once the copy has put that sector back into the parent, the hole destroys it, and the removal then
takes away the other copy (`punched_parent_lost`).

`getDeleteCandidateChain_spec` says what is listed. `SnapshotCleaner.step_safe` says that no step
changes the live image or that of a snapshot a user wants, whichever of its calls fail, as long as
the worker spares the parent, and `snapshotCleaner_safe` puts the two together for whole runs of the
loop.
-/

namespace Jiva

open Faults Links Transition

variable {ns : List DiskName} {n : DiskName} {r : Replica} {fuel : ℕ}

namespace Replica

/-! ## The snapshots that may go -/

/-- `types.DiskInfo`, as far as it is read here. The size is a text, and the empty one is no
number. -/
structure DiskInfo where
  parent : Option DiskName
  removed : Bool
  userCreated : Bool
  size : Option ℤ

/-- A snapshot of a user that is not removed. -/
def DiskInfo.wanted (d : DiskInfo) : Bool :=
  d.userCreated && !d.removed

/-- `ListDisks`, where `size` is what the files take on the disk. What is not listed has the zero
value. -/
def listDisks (size : DiskName → ℤ) (r : Replica) (n : DiskName) : DiskInfo :=
  match r.diskData n with
  | none => ⟨none, false, false, none⟩
  | some d => ⟨d.parent, d.removed, d.userCreated, some (size n)⟩

/-- The loop of `GetDeleteCandidateChain` over the part of the chain below the checkpoint. -/
def snapList (disks : DiskName → DiskInfo) : List DiskName → Except String (List (DiskName × ℤ))
  | [] => .ok []
  | disk :: rest =>
    if (disks disk).wanted then snapList disks rest
    else if (disks disk).parent.any fun parent => (disks parent).wanted then snapList disks rest
    else
      match (disks disk).size with
      | none => .error
          "Failed to convert size:  into int64, err: strconv.ParseInt: parsing \"\": invalid syntax"
      | some size =>
        match snapList disks rest with
        | .error e => .error e
        | .ok snaps => .ok ((disk, size) :: snaps)

/-- The stable sort by size, of as many entries as the part of the chain has. Those that are not
used have no name. -/
def sortedList (count : ℕ) (snaps : List (DiskName × ℤ)) : List DiskName :=
  let entries :=
    snaps.map (fun x => (some x.1, x.2)) ++ List.replicate (count - snaps.length) (none, 0)
  (entries.insertionSort fun x y => x.2 ≤ y.2).filterMap Prod.fst

/-- `GetDeleteCandidateChain`. -/
def getDeleteCandidateChain (size : DiskName → ℤ) (checkpoint : Option DiskName) (fuel : ℕ)
    (r : Replica) : Except String (List DiskName) :=
  match r.liveChain fuel with
  | .error e => .error e
  | .ok chain =>
    let replicaChain := chain.reverse
    match checkpoint with
    | none => .ok []
    | some c =>
      if replicaChain.length ≤ 3 then .ok []
      else if replicaChain.idxOf c ≤ 1 ∨ c ∉ replicaChain then .ok []
      else
        let replicaChain := (replicaChain.take (replicaChain.idxOf c)).drop 1
        match snapList (r.listDisks size) replicaChain with
        | .error e => .error e
        | .ok snaps => .ok (sortedList replicaChain.length snaps)

/-- The disk `d` is strictly between the base and the disk `c` of the chain `ns`, which has the head
first. -/
def Between (ns : List DiskName) (c d : DiskName) : Prop :=
  ∃ us ms ls, ns = us ++ c :: ms ++ d :: ls ∧ ls ≠ []

/-- What may go : neither the disk nor its parent is wanted. -/
structure Candidate (r : Replica) (ns : List DiskName) (checkpoint : Option DiskName)
    (d : DiskName) : Prop where
  between : ∃ c, checkpoint = some c ∧ Between ns c d
  unwanted : r.wanted d = false
  parent : ∀ p, r.parentOf d = some (some p) → r.wanted p = false

section Spec

variable {r : Replica} {size : DiskName → ℤ}

theorem listDisks_wanted (n : DiskName) : (r.listDisks size n).wanted = r.wanted n := by
  unfold listDisks wanted
  cases r.diskData n with
  | none => rfl
  | some d => rfl

theorem listDisks_parent {q : Option DiskName} (h : r.parentOf n = some q) :
    (r.listDisks size n).parent = q ∧ (r.listDisks size n).size = some (size n) := by
  obtain ⟨d, hd, rfl⟩ := Option.map_eq_some_iff.1 h
  unfold listDisks
  rw [hd]
  exact ⟨rfl, rfl⟩

/-- The disks that are kept by the loop. -/
def mayGo (r : Replica) (d : DiskName) : Bool :=
  !r.wanted d && !((r.diskData d).bind Disk.parent).any fun p => r.wanted p

theorem mayGo_iff (d : DiskName) : r.mayGo d = true ↔
    r.wanted d = false ∧ ∀ p, r.parentOf d = some (some p) → r.wanted p = false := by
  unfold mayGo parentOf
  cases r.diskData d with
  | none => simp
  | some x =>
    cases hp : x.parent with
    | none => simp [hp]
    | some p => simp [hp]

theorem snapList_eq : ∀ {ns : List DiskName}, (∀ n ∈ ns, (r.diskData n).isSome) →
    snapList (r.listDisks size) ns = .ok ((ns.filter r.mayGo).map fun d => (d, size d))
  | [], _ => rfl
  | n :: ns, h => by
    obtain ⟨d, hd⟩ := Option.isSome_iff_exists.1 (h n List.mem_cons_self)
    have ih := snapList_eq fun m hm => h m (List.mem_cons_of_mem n hm)
    obtain ⟨hparent, hsize⟩ : (r.listDisks size n).parent = d.parent ∧
        (r.listDisks size n).size = some (size n) :=
      listDisks_parent (by unfold parentOf; rw [hd]; rfl)
    have hany : ((r.listDisks size n).parent.any fun parent => (r.listDisks size parent).wanted) =
        d.parent.any fun p => r.wanted p := by
      rw [hparent]
      exact congrArg (fun f => d.parent.any f) (funext fun p => listDisks_wanted p)
    have hgo : r.mayGo n = (!r.wanted n && !d.parent.any fun p => r.wanted p) := by
      unfold mayGo
      rw [hd]
      rfl
    unfold snapList
    rw [listDisks_wanted, hany, hsize, ih, List.filter_cons, hgo]
    cases r.wanted n with
    | true => rfl
    | false =>
      cases d.parent.any fun p => r.wanted p with
      | true => rfl
      | false => rfl

theorem sortedList_perm (count : ℕ) (snaps : List (DiskName × ℤ)) :
    (sortedList count snaps).Perm (snaps.map Prod.fst) := by
  unfold sortedList
  refine ((List.perm_insertionSort _ _).filterMap _).trans ?_
  rw [List.filterMap_append, List.filterMap_map, List.filterMap_replicate_of_none rfl,
    List.append_nil]
  exact List.Perm.of_eq (List.filterMap_eq_map (f := Prod.fst) ▸ rfl)

theorem sortedList_sorted {count : ℕ} {snaps : List (DiskName × ℤ)}
    (h : ∀ x ∈ snaps, x.2 = size x.1) :
    (sortedList count snaps).Pairwise fun x y => size x ≤ size y := by
  unfold sortedList
  dsimp only
  set entries := snaps.map (fun x => (some x.1, x.2)) ++ List.replicate (count - snaps.length)
    ((none, 0) : Option DiskName × ℤ) with hentries
  have hnamed : ∀ x ∈ entries.insertionSort (fun x y => x.2 ≤ y.2), ∀ d ∈ x.1, x.2 = size d := by
    intro x hx d hd
    rw [List.mem_insertionSort, hentries, List.mem_append, List.mem_map, List.mem_replicate] at hx
    rcases hx with ⟨y, hy, rfl⟩ | ⟨-, rfl⟩
    · obtain rfl := Option.some.inj hd
      exact h y hy
    · cases hd
  have hsorted : (entries.insertionSort fun x y => x.2 ≤ y.2).Pairwise fun x y => x.2 ≤ y.2 :=
    List.pairwise_insertionSort _ _
  refine List.pairwise_filterMap.2 (hsorted.imp_of_mem fun hx hy hle d hd d' hd' => ?_)
  rw [← hnamed _ hx d hd, ← hnamed _ hy d' hd']
  exact hle

end Spec

section Below

variable {ns us vs : List DiskName} {c d : DiskName}

theorem between_iff (hn : (us ++ c :: vs).Nodup) :
    Between (us ++ c :: vs) c d ↔ ∃ ms ls, vs = ms ++ d :: ls ∧ ls ≠ [] := by
  constructor
  · rintro ⟨us', ms, ls, heq, hne⟩
    refine ⟨ms, ls, ?_, hne⟩
    have hnot : c ∉ us ++ vs := (List.nodup_cons.1 (List.nodup_middle.1 hn)).1
    have hnot' : c ∉ us' ++ (ms ++ d :: ls) := by
      have hn' := heq ▸ hn
      rw [List.append_assoc, List.cons_append] at hn'
      exact (List.nodup_cons.1 (List.nodup_middle.1 hn')).1
    rw [List.append_assoc, List.cons_append] at heq
    have hlen : us.length = us'.length := by
      have h1 : (us ++ c :: vs).idxOf c = us.length := by
        rw [List.idxOf_append_of_notMem fun h => hnot (List.mem_append_left _ h),
          List.idxOf_cons_self, Nat.add_zero]
      have h2 : (us' ++ c :: (ms ++ d :: ls)).idxOf c = us'.length := by
        rw [List.idxOf_append_of_notMem fun h => hnot' (List.mem_append_left _ h),
          List.idxOf_cons_self, Nat.add_zero]
      rw [← h1, heq, h2]
    exact (List.cons.inj (List.append_inj heq hlen).2).2
  · rintro ⟨ms, ls, rfl, hne⟩
    exact ⟨us, ms, ls, by simp, hne⟩

/-- The part of the chain that is looked through. -/
theorem below_eq (hn : (us ++ c :: vs).Nodup) : (us ++ c :: vs).reverse.idxOf c = vs.length ∧
    (((us ++ c :: vs).reverse.take vs.length).drop 1) = vs.dropLast.reverse := by
  have hnot : c ∉ us ++ vs := (List.nodup_cons.1 (List.nodup_middle.1 hn)).1
  have hrev : (us ++ c :: vs).reverse = vs.reverse ++ c :: us.reverse := by simp
  have hc : c ∉ vs.reverse := fun h => hnot (List.mem_append_right _ (List.mem_reverse.1 h))
  rw [hrev]
  constructor
  · rw [List.idxOf_append_of_notMem hc, List.idxOf_cons_self, List.length_reverse, Nat.add_zero]
  · rw [List.take_left' (List.length_reverse ..), List.drop_one, List.tail_reverse]

theorem mem_dropLast_iff : d ∈ vs.dropLast ↔ ∃ ms ls, vs = ms ++ d :: ls ∧ ls ≠ [] := by
  constructor
  · intro hd
    obtain ⟨ms, ls, heq⟩ := List.append_of_mem hd
    have hne : vs ≠ [] := by
      rintro rfl
      cases hd
    refine ⟨ms, ls ++ [vs.getLast hne], (List.dropLast_append_getLast hne).symm.trans ?_, by simp⟩
    rw [heq]
    simp
  · rintro ⟨ms, ls, rfl, hne⟩
    rw [List.dropLast_append_of_ne_nil (by simp), List.dropLast_cons_of_ne_nil hne]
    simp

end Below

/-- `GetDeleteCandidateChain` lists what may go, once, in the order of the sizes. It lists all of it
if the checkpoint is not the head : a chain of three disks has a disk between the base and the head,
and is passed over. -/
theorem getDeleteCandidateChain_spec (hchain : r.liveChain fuel = .ok ns) (size : DiskName → ℤ)
    (checkpoint : Option DiskName) :
    ∃ l, r.getDeleteCandidateChain size checkpoint fuel = .ok l ∧ l.Nodup ∧
      l.Pairwise (fun x y => size x ≤ size y) ∧ (∀ d ∈ l, r.Candidate ns checkpoint d) ∧
      ((∀ c, checkpoint = some c → r.info.head ≠ some c) →
        ∀ d, r.Candidate ns checkpoint d → d ∈ l) := by
  have hnone : ((∀ c, checkpoint = some c → r.info.head ≠ some c) →
      ∀ d, ¬r.Candidate ns checkpoint d) →
      ([] : List DiskName).Nodup ∧ ([] : List DiskName).Pairwise (fun x y => size x ≤ size y) ∧
      (∀ d ∈ ([] : List DiskName), r.Candidate ns checkpoint d) ∧
      ((∀ c, checkpoint = some c → r.info.head ≠ some c) → ∀ d, r.Candidate ns checkpoint d →
        d ∈ []) :=
    fun h => ⟨List.nodup_nil, List.Pairwise.nil, nofun, fun hhead d hd => (h hhead d hd).elim⟩
  unfold getDeleteCandidateChain
  rw [hchain]
  dsimp only
  cases checkpoint with
  | none =>
    refine ⟨[], rfl, hnone ?_⟩
    rintro - d ⟨⟨c, hc, -⟩, -⟩
    cases hc
  | some c =>
    by_cases hmem : c ∈ ns
    swap
    · have hlist : (if ns.reverse.length ≤ 3 then Except.ok []
          else if ns.reverse.idxOf c ≤ 1 ∨ c ∉ ns.reverse then .ok []
          else match snapList (r.listDisks size)
          ((ns.reverse.take (ns.reverse.idxOf c)).drop 1) with
            | .error e => .error e
            | .ok snaps =>
              .ok (sortedList ((ns.reverse.take (ns.reverse.idxOf c)).drop 1).length snaps) :
          Except String (List DiskName)) = .ok [] := by
        split_ifs with h1 h2
        · rfl
        · rfl
        · exact absurd (List.mem_reverse.1 (not_not.1 (not_or.1 h2).2)) hmem
      refine ⟨[], hlist, hnone ?_⟩
      rintro - d ⟨⟨c', hc', us, ms, ls, rfl, -⟩, -⟩
      obtain rfl := Option.some.inj hc'
      exact hmem (by simp)
    obtain ⟨us, vs, rfl⟩ := List.append_of_mem hmem
    -- the chain has the head first, so there is something above the checkpoint
    obtain ⟨h, ss, hh, hns, hfol⟩ : ∃ h ss, r.info.head = some h ∧ us ++ c :: vs = h :: ss ∧
        Follows r.parentOf (some h) (h :: ss) := by
      unfold liveChain at hchain
      cases hh : r.info.head with
      | none =>
        rw [hh] at hchain
        exact absurd (Except.ok.inj hchain).symm (by simp)
      | some h =>
        rw [hh] at hchain
        obtain ⟨ss, hns, -, hfol⟩ := chain_follows hchain
        exact ⟨h, ss, rfl, hns, hfol⟩
    have hus : (∀ c', some c = some c' → r.info.head ≠ some c') → us ≠ [] := by
      rintro hhead rfl
      rw [List.nil_append, List.cons.injEq] at hns
      exact hhead c rfl (hns.1 ▸ hh)
    have hnd : (us ++ c :: vs).Nodup := hns ▸ hfol.nodup
    have hsome : ∀ n ∈ us ++ c :: vs, (r.diskData n).isSome := fun n hn =>
      Option.isSome_iff_exists.2 (record_of_follows hfol (hns ▸ hn))
    obtain ⟨hidx, hbelow⟩ := below_eq hnd
    have hcand : ∀ d, r.Candidate (us ++ c :: vs) (some c) d ↔
        d ∈ vs.dropLast ∧ r.mayGo d = true := by
      intro d
      have hbt : (∃ c', some c = some c' ∧ Between (us ++ c :: vs) c' d) ↔ d ∈ vs.dropLast := by
        rw [mem_dropLast_iff, ← between_iff hnd]
        exact ⟨fun ⟨c', hc', hb⟩ => Option.some.inj hc' ▸ hb, fun hb => ⟨c, rfl, hb⟩⟩
      rw [← hbt, mayGo_iff]
      exact ⟨fun h => ⟨h.1, h.2, h.3⟩, fun h => ⟨h.1, h.2.1, h.2.2⟩⟩
    dsimp only
    rw [hidx, hbelow]
    split_ifs with h1 h2
    · refine ⟨[], rfl, hnone fun hhead d hd => ?_⟩
      have hmem := List.length_pos_of_mem ((hcand d).1 hd).1
      have := List.length_pos_iff.2 (hus hhead)
      rw [List.length_dropLast] at hmem
      simp only [List.length_reverse, List.length_append, List.length_cons] at h1
      omega
    · refine ⟨[], rfl, hnone fun _ d hd => ?_⟩
      have hmem := List.length_pos_of_mem ((hcand d).1 hd).1
      rw [List.length_dropLast] at hmem
      rcases h2 with h2 | h2
      · omega
      · exact h2 (by simp)
    · have hin : ∀ n ∈ vs.dropLast.reverse, (r.diskData n).isSome := fun n hn =>
        hsome n (by simp [List.mem_of_mem_dropLast (List.mem_reverse.1 hn)])
      rw [snapList_eq hin]
      have hperm := sortedList_perm vs.dropLast.reverse.length
        ((vs.dropLast.reverse.filter r.mayGo).map fun d => (d, size d))
      rw [List.map_map, show Prod.fst ∘ (fun d : DiskName => (d, size d)) = id from rfl,
        List.map_id] at hperm
      have hall : ∀ d, d ∈ sortedList vs.dropLast.reverse.length
          ((vs.dropLast.reverse.filter r.mayGo).map fun d => (d, size d)) ↔
            r.Candidate (us ++ c :: vs) (some c) d := by
        intro d
        rw [hperm.mem_iff, List.mem_filter, List.mem_reverse, hcand]
      refine ⟨_, rfl, ?_, sortedList_sorted ?_, fun d hd => (hall d).1 hd,
        fun _ d hd => (hall d).2 hd⟩
      · refine hperm.nodup_iff.2 (List.Nodup.filter _ (List.nodup_reverse.2 ?_))
        exact hnd.sublist ((List.dropLast_sublist _).trans ((List.sublist_cons_self _ _).trans
          (List.sublist_append_right _ _)))
      · intro x hx
        obtain ⟨d, -, rfl⟩ := List.mem_map.1 hx
        rfl

/-- One sector of `Coalesce` : an allocated sector of the disk `source` replaces that of the disk
`target`. -/
def coalesceSector (source target : DiskName) (s : ℕ) (r : Replica) : Replica :=
  r.withVol (r.vol.setInode (r.vol.file (r.findDisk target))
    ((r.vol.store (r.vol.file (r.findDisk target))).copySector
      (r.vol.store (r.vol.file (r.findDisk source))) s))

/-- The number of bytes in the file of a disk. -/
def fileSize (r : Replica) (n : DiskName) : ℕ :=
  (r.vol.store (r.vol.file (r.findDisk n))).size

/-! ## What a user sees -/

/-- The live image is as before, and the snapshots that users want, and the head, are in the live
chain with the images they had. -/
structure Safe (r t : Replica) : Prop where
  head : t.info.head = r.info.head
  size : t.info.size = r.info.size
  live : ∀ b, b < r.info.size → t.vol.image b = r.vol.image b
  wanted : ∀ u, r.wanted u = true → t.wanted u = true
  mem : ∀ u ∈ r.activeDiskData, r.wanted u = true ∨ r.info.head = some u → u ∈ t.activeDiskData
  images : ∀ u ∈ r.activeDiskData, r.wanted u = true ∨ r.info.head = some u →
    ∀ b, b < r.info.size → t.imageOf u b = r.imageOf u b

namespace Safe

variable {r t u : Replica}

theorem trans (h : Safe r t) (h' : Safe t u) : Safe r u := by
  have hthen : ∀ m, r.wanted m = true ∨ r.info.head = some m →
      t.wanted m = true ∨ t.info.head = some m :=
    fun m => Or.imp (h.wanted m) fun hm => h.head.trans hm
  refine ⟨h'.head.trans h.head, h'.size.trans h.size,
    fun b hb => (h'.live b (h.size ▸ hb)).trans (h.live b hb),
    fun m hm => h'.wanted m (h.wanted m hm), fun m hm hw => ?_, fun m hm hw b hb => ?_⟩
  · exact h'.mem m (h.mem m hm hw) (hthen m hw)
  · rw [h'.images m (h.mem m hm hw) (hthen m hw) b (h.size ▸ hb), h.images m hm hw b hb]

theorem of_untouched (h : r.Untouched t) : Safe r t := by
  refine ⟨by rw [h.info], by rw [h.info], fun b _ => by rw [h.vol], fun m hm => by rwa [h.wanted],
    fun m hm _ => by rwa [h.active], ?_⟩
  intro m _ _ b _
  unfold imageOf
  rw [h.vol, h.active]

theorem of_sameOpen (h : r.SameOpen t) : Safe r t :=
  of_untouched ((Untouched.refl r).sameOpen h)

theorem refl (r : Replica) : Safe r r :=
  of_sameOpen (.refl r)

/-- A disk that is not wanted may be marked. -/
theorem mark (d : Disk) (hn : r.wanted n = false) : Safe r (r.mark n d) := by
  refine ⟨rfl, rfl, fun _ _ => rfl, fun m hm => ?_, fun m hm _ => hm, fun m _ _ b _ => rfl⟩
  rw [mark_wanted, if_neg]
  · exact hm
  · rintro rfl
    rw [hn] at hm
    cases hm

end Safe

section Live

variable {r : Replica} {bs ss : List DiskName} {k : ℕ}

theorem Chained.findDisk_lt (h : r.Chained bs k ss) (hn : n ∈ r.activeDiskData) :
    r.findDisk n < r.volume.files.length := by
  rw [h.files]
  exact Nat.succ_lt_succ (List.idxOf_lt_length_of_mem hn)

/-- The live image is that of the head. -/
theorem Chained.imageOf_head (h : r.Chained bs k ss) : r.imageOf (.head k) = r.vol.image := by
  have hnot : .head k ∉ bs ++ ss.reverse := by
    rw [List.mem_append, List.mem_reverse, not_or]
    exact ⟨h.apart _ List.mem_cons_self, (List.nodup_cons.1 h.follows.nodup).1⟩
  have hactive : r.activeDiskData = bs ++ ss.reverse ++ [.head k] := by
    rw [h.active]
    simp
  have htarget : r.vol.target = r.activeDiskData.idxOf (.head k) + 1 := by
    show r.volume.files.length - 1 = _
    rw [h.files, hactive, List.idxOf_append_of_notMem hnot, List.idxOf_cons_self]
    simp only [List.length_append, List.length_singleton]
    omega
  unfold imageOf Volume.image
  rw [htarget]

/-- The live image is one of the images of the chain. -/
theorem Safe.of_chained {t : Replica} {ss' : List DiskName} (h : r.Chained bs k ss)
    (h' : t.Chained bs k ss') (hsize : t.info.size = r.info.size)
    (hwanted : ∀ u, r.wanted u = true → t.wanted u = true)
    (hmem : ∀ u ∈ r.activeDiskData, r.wanted u = true ∨ r.info.head = some u → u ∈ t.activeDiskData)
    (himages : ∀ u ∈ r.activeDiskData, r.wanted u = true ∨ r.info.head = some u →
      ∀ b, b < r.info.size → t.imageOf u b = r.imageOf u b) : Safe r t := by
  refine ⟨h'.head.trans h.head.symm, hsize, fun b hb => ?_, hwanted, hmem, himages⟩
  rw [← h'.imageOf_head, ← h.imageOf_head]
  exact himages _ (by rw [h.active]; simp) (.inr h.head) b hb

end Live

/-! ## Holes that wait -/

/-- The indices of the head and of the snapshots that users want. -/
def viewers (r : Replica) : Viewers := fun i =>
  ∃ u ∈ r.activeDiskData, (r.wanted u = true ∨ r.info.head = some u) ∧ i = r.findDisk u

/-- The waiting holes are in sectors that nobody sees there, neither live nor in a snapshot that is
wanted. -/
def HolesOk (r : Replica) (holes : List Hole) : Prop :=
  ∀ h ∈ holes, r.vol.SafeHole r.viewers h

section Holes

variable {r t : Replica} {holes : List Hole}

theorem HolesOk.mono (h : r.HolesOk holes) (hvol : t.vol = r.vol)
    (hactive : t.activeDiskData = r.activeDiskData) (hhead : t.info.head = r.info.head)
    (hwanted : ∀ u, t.wanted u = true → r.wanted u = true) : t.HolesOk holes := by
  intro hole hh
  have hviewers : ∀ i, t.viewers i → r.viewers i := by
    rintro i ⟨u, hu, hw, rfl⟩
    unfold findDisk
    rw [hactive] at hu ⊢
    exact ⟨u, hu, hw.imp (hwanted u) fun hu => hhead ▸ hu, rfl⟩
  rw [hvol]
  refine (h hole hh).mono (fun f s hok => ⟨hok.pos, hok.lt, fun hext u hu => ?_⟩)
    (fun _ _ => rfl) le_rfl
  exact hok.hidden hext u (hviewers u hu)

theorem HolesOk.sameOpen (h : r.HolesOk holes) (ht : r.SameOpen t) : t.HolesOk holes := by
  have hu : r.Untouched t := (Untouched.refl r).sameOpen ht
  exact h.mono hu.vol hu.active (by rw [hu.info]) fun u hw => by rwa [hu.wanted] at hw

theorem HolesOk.mark (h : r.HolesOk holes) (d : Disk) : (r.mark n d).HolesOk holes := by
  refine h.mono rfl rfl rfl fun u hu => ?_
  rw [mark_wanted] at hu
  split_ifs at hu
  exact hu

end Holes

/-! ## Copying a disk over its parent -/

section Copy

variable {r : Replica} {bs as cs : List DiskName} {k : ℕ} {n child p : DiskName}

section

variable (h : r.Chained bs k (as ++ child :: n :: p :: cs))
include h

theorem Chained.findDisk_eq :
    r.findDisk n = (bs ++ cs.reverse).length + 2 ∧ r.findDisk p = (bs ++ cs.reverse).length + 1 ∧
    p ∉ bs ++ cs.reverse := by
  obtain ⟨hactive, hplace⟩ := h.place
  have hp : p ∉ bs ++ cs.reverse := by
    have hsub : (p :: cs).Nodup := (h.follows.nodup.sublist
      ((List.sublist_append_right as _).cons _)).of_cons.of_cons
    rw [List.mem_append, List.mem_reverse, not_or]
    exact ⟨h.apart p (by simp), (List.nodup_cons.1 hsub).1⟩
  refine ⟨by unfold findDisk; rw [hplace], ?_, hp⟩
  unfold findDisk
  rw [hactive, List.idxOf_append_of_notMem hp, List.idxOf_cons_self, Nat.add_zero]

theorem Chained.coalesceSector_eq (s : ℕ) :
    r.coalesceSector n p s = r.withVol (r.vol.coalesceSector (r.findDisk n) s) := by
  obtain ⟨hn, hp, -⟩ := h.findDisk_eq
  unfold coalesceSector Volume.coalesceSector
  rw [show r.findDisk n - 1 = r.findDisk p by omega]

theorem Chained.mem_active :
    n ∈ r.activeDiskData ∧ p ∈ r.activeDiskData := by
  rw [h.place.1]
  simp

/-- The parent is not the head. -/
theorem Chained.not_seen (hp : r.wanted p = false) :
    ¬(r.wanted p = true ∨ r.info.head = some p) := by
  rintro (hw | hw)
  · rw [hp] at hw
    cases hw
  · obtain rfl := Option.some.inj (h.head.symm.trans hw)
    exact (List.nodup_cons.1 h.follows.nodup).1 (by simp)

/-- The chain is as before, and only the image at the parent changes. -/
theorem coalesceSector_chained (s : ℕ) :
    (r.coalesceSector n p s).Chained bs k (as ++ child :: n :: p :: cs) := by
  have hlt := h.findDisk_lt h.mem_active.1
  rw [h.coalesceSector_eq]
  refine { h with size := fun i h0 hi => ?_ }
  show ((r.vol.coalesceSector (r.findDisk n) s).store (r.vol.file i)).size = _
  rw [Volume.coalesceSector_store (v := r.vol) h.distinct hlt hi]
  split_ifs with heq
  · rw [← heq]
    exact h.size i h0 hi
  · exact h.size i h0 hi

theorem Safe.coalesceSector (hp : r.wanted p = false) (s : ℕ) :
    Safe r (r.coalesceSector n p s) := by
  obtain ⟨hfn, hfp, -⟩ := h.findDisk_eq
  refine .of_chained h (coalesceSector_chained h s) rfl (fun m hm => hm) (fun m hm _ => hm)
    fun m hm hw b _ => ?_
  have hne : m ≠ p := by
    rintro rfl
    exact h.not_seen hp hw
  have hidx : r.findDisk m ≠ r.findDisk n - 1 := by
    intro heq
    refine hne ((List.idxOf_inj hm).1 (Nat.succ.inj (?_ : r.findDisk m = r.findDisk p)))
    omega
  rw [h.coalesceSector_eq]
  show (r.vol.coalesceSector (r.findDisk n) s).imageAt (r.findDisk m) b =
    r.vol.imageAt (r.findDisk m) b
  rw [Volume.coalesceSector_imageAt (v := r.vol) h.distinct (by omega)
    (h.findDisk_lt h.mem_active.1) (h.findDisk_lt hm) hidx]

/-- A copied sector hides the sector of the parent from everyone above. -/
theorem HolesOk.coalesceSector {holes : List Hole} (hp : r.wanted p = false) (hok : r.HolesOk holes)
    (s : ℕ) : (r.coalesceSector n p s).HolesOk holes := by
  obtain ⟨hfn, hfp, -⟩ := h.findDisk_eq
  have hlt := h.findDisk_lt h.mem_active.1
  have hnot : ¬r.viewers (r.findDisk p) := by
    rintro ⟨m, hm, hw, heq⟩
    obtain rfl : p = m := (List.idxOf_inj h.mem_active.2).1 (Nat.succ.inj heq)
    exact h.not_seen hp hw
  have hext : ∀ i t, i < r.volume.files.length →
      (r.vol.coalesceSector (r.findDisk n) s).hasExtent i t = _ := fun i t hi =>
    Volume.coalesceSector_hasExtent (v := r.vol) h.distinct hlt hi s t
  intro hole hh
  rw [h.coalesceSector_eq]
  refine (hok hole hh).mono (fun f t hok => ⟨hok.pos, hok.lt, fun hf u hu hfu hut => ?_⟩)
    (fun _ _ => rfl) le_rfl
  have hfl : f < r.volume.files.length := Nat.lt_of_lt_of_le hok.lt (Nat.sub_le ..)
  have hul : u < r.volume.files.length := by
    obtain ⟨m, hm, -, rfl⟩ := hu
    exact h.findDisk_lt hm
  have hgrow : ∀ j, j < r.volume.files.length → r.vol.hasExtent j t = true →
      (r.vol.coalesceSector (r.findDisk n) s).hasExtent j t = true := fun j hj hjt => by
    rw [hext j t hj, hjt, Bool.true_or]
  by_cases hold : r.vol.hasExtent f t = true
  · obtain ⟨j, hfj, hju, hj⟩ := hok.hidden hold u hu hfu hut
    exact ⟨j, hfj, hju, hgrow j (by omega) hj⟩
  · -- the sector has just come from the disk above
    change (r.vol.coalesceSector (r.findDisk n) s).hasExtent f t = true at hf
    rw [hext f t hfl] at hf
    simp only [hold, Bool.false_or, Bool.and_eq_true, decide_eq_true_eq] at hf
    obtain ⟨⟨hf, rfl⟩, hnt⟩ := hf
    have hne : u ≠ r.findDisk p := fun heq => hnot (heq ▸ hu)
    exact ⟨r.findDisk n, by omega, by omega, hgrow _ hlt hnt⟩

end

/-- The first `pos` sectors of the disk `n` have been copied over its parent. -/
def CopiedTo (r : Replica) (n : DiskName) (pos : ℕ) : Prop :=
  ∀ s, s < pos → r.vol.hasExtent (r.findDisk n) s = true →
    r.vol.hasExtent (r.findDisk n - 1) s = true ∧ ∀ b, b / defaultSectorSize = s →
      (r.vol.store (r.vol.file (r.findDisk n - 1))).data b =
        (r.vol.store (r.vol.file (r.findDisk n))).data b

theorem CopiedTo.succ (h : r.Chained bs k (as ++ child :: n :: p :: cs)) {pos : ℕ}
    (hcopied : r.CopiedTo n pos) : (r.coalesceSector n p pos).CopiedTo n (pos + 1) := by
  obtain ⟨hfn, -, -⟩ := h.findDisk_eq
  have hlt := h.findDisk_lt h.mem_active.1
  have hne : r.vol.file (r.findDisk n) ≠ r.vol.file (r.findDisk n - 1) := fun heq => by
    have := Volume.file_inj (d := r.volume) h.distinct hlt (by omega) heq
    omega
  have hstore : ∀ i, i < r.volume.files.length →
      (r.vol.coalesceSector (r.findDisk n) pos).store (r.vol.file i) = _ :=
    fun i hi => Volume.coalesceSector_store (v := r.vol) h.distinct hlt hi pos
  have hext : ∀ i s, i < r.volume.files.length →
      (r.vol.coalesceSector (r.findDisk n) pos).hasExtent i s = _ :=
    fun i s hi => Volume.coalesceSector_hasExtent (v := r.vol) h.distinct hlt hi pos s
  rw [h.coalesceSector_eq]
  intro s hs hexts
  change (r.vol.coalesceSector (r.findDisk n) pos).hasExtent (r.findDisk n) s = true at hexts
  show (r.vol.coalesceSector (r.findDisk n) pos).hasExtent (r.findDisk n - 1) s = true ∧ ∀ b,
    b / defaultSectorSize = s →
    ((r.vol.coalesceSector (r.findDisk n) pos).store (r.vol.file (r.findDisk n - 1))).data b =
      ((r.vol.coalesceSector (r.findDisk n) pos).store (r.vol.file (r.findDisk n))).data b
  have hold : r.vol.hasExtent (r.findDisk n) s = true := by
    rw [hext _ _ hlt] at hexts
    simpa [show r.findDisk n ≠ r.findDisk n - 1 by omega] using hexts
  rcases Nat.lt_succ_iff_lt_or_eq.1 hs with hs | rfl
  · obtain ⟨hheld, hdata⟩ := hcopied s hs hold
    refine ⟨by rw [hext _ _ (by omega), hheld, Bool.true_or], fun b hb => ?_⟩
    rw [hstore _ hlt, hstore _ (by omega), if_pos rfl, if_neg (by omega), ← hdata b hb]
    exact if_neg fun hc => hs.ne (hb.symm.trans hc.1)
  · exact Volume.coalesceSector_copied hne hold

theorem CopiedTo.copiedOver {pos : ℕ} (hcopied : r.CopiedTo n pos)
    (hpos : r.fileSize n ≤ pos * defaultSectorSize) : r.vol.CopiedOver (r.findDisk n) := by
  intro s hs hext
  refine hcopied s ?_ hext
  have hlt : s * defaultSectorSize < pos * defaultSectorSize := Nat.lt_of_lt_of_le hs hpos
  exact Nat.lt_of_mul_lt_mul_right hlt

/-- A hole in another file than the parent leaves a copied sector as it is. -/
theorem copied_punch {v v' : Volume} {f lo len i s : ℕ}
    (he : Volume.PunchEffect v v' (fun i => i = f) (lo * defaultSectorSize)
      (len * defaultSectorSize))
    (hi : i < v.files.length) (hne : i - 1 ≠ f) (hext : v'.hasExtent i s = true)
    (hcopied : v.hasExtent i s = true →
      v.hasExtent (i - 1) s = true ∧ ∀ b, b / defaultSectorSize = s →
      (v.store (v.file (i - 1))).data b = (v.store (v.file i)).data b) :
    v'.hasExtent (i - 1) s = true ∧ ∀ b, b / defaultSectorSize = s →
      (v'.store (v'.file (i - 1))).data b = (v'.store (v'.file i)).data b := by
  have hi' : i - 1 < v.files.length := by omega
  obtain ⟨hheld, hdata⟩ := hcopied (he.hasExtent_le hi hext)
  rw [he.hasExtent_hole hi, Bool.and_eq_true, Bool.not_eq_true', decide_eq_false_iff_not] at hext
  refine ⟨by rw [he.hasExtent_hole hi', hheld, decide_eq_false (by tauto)]; rfl, fun b hb => ?_⟩
  rw [he.same.file, he.same.file, he.data hi', he.data hi, if_neg (by tauto), if_neg, hdata b hb]
  rintro ⟨hif, h1, h2⟩
  refine hext.2 ⟨hif, ?_, ?_⟩ <;>
  · rw [defaultSectorSize_eq] at *
    omega

section Punch

variable {ss : List DiskName} {holes : List Hole} {hole : Hole} {v : Volume}

/-- What a hole that waits does to the volume. -/
theorem HolesOk.effect (h : r.Chained bs k ss) (hok : r.HolesOk (hole :: holes))
    (hv : r.vol.fallocatePunch hole.f hole.offset hole.len = .ok v) :
    ∃ f lo len, hole.f = r.vol.file f ∧
      f < r.volume.files.length ∧ (∀ s, lo ≤ s → s < lo + len → r.vol.HoleOk r.viewers f s) ∧
      (r.withVol v).vol = v ∧
      Volume.PunchEffect r.vol v (fun i => i = f) (lo * defaultSectorSize)
        (len * defaultSectorSize) := by
  obtain ⟨f, lo, len, rfl, hf, hall⟩ := hok hole List.mem_cons_self
  unfold Volume.fallocatePunch at hv
  split_ifs at hv
  cases hv
  exact ⟨f, lo, len, rfl, hf, hall, rfl, Volume.punchEffect_setInode (v := r.vol) h.distinct hf _ _⟩

/-- The worker takes a hole : nobody sees it, and the chain and the other holes stay good. -/
theorem HolesOk.punch (h : r.Chained bs k ss) (hok : r.HolesOk (hole :: holes))
    (hv : r.vol.fallocatePunch hole.f hole.offset hole.len = .ok v) :
    Safe r (r.withVol v) ∧ (r.withVol v).Chained bs k ss ∧ (r.withVol v).HolesOk holes := by
  obtain ⟨f, lo, len, -, hf, hall, hvol, he⟩ := hok.effect h hv
  have hfiles : v.files = r.volume.files := he.same.files
  have hlen : r.volume.files.length = r.activeDiskData.length + 1 := h.files
  have htl : r.vol.target < r.vol.files.length := by
    show r.volume.files.length - 1 < r.volume.files.length
    omega
  have hchained : (r.withVol v).Chained bs k ss := by
    refine { h with
      files := (congrArg List.length hfiles).trans h.files
      distinct := hfiles ▸ h.distinct
      size := fun i h0 hi => ?_ }
    have hi' : i < r.volume.files.length := hfiles ▸ hi
    show (v.store (v.file i)).size = r.info.size
    rw [he.same.file, he.store i hi']
    split_ifs <;> exact h.size i h0 hi'
  refine ⟨.of_chained h hchained rfl (fun _ => id) (fun _ hm _ => hm) fun m hm hw b _ => ?_,
    hchained, ?_⟩
  · have hm' := h.findDisk_lt hm
    unfold imageOf
    rw [hvol]
    exact congrFun (Volume.imageAt_punch htl ⟨m, hm, hw, rfl⟩
      (show r.findDisk m ≤ r.volume.files.length - 1 by omega) hall he) b
  · intro hole' hh
    show (r.withVol v).vol.SafeHole r.viewers hole'
    rw [hvol]
    exact (hok hole' (List.mem_cons_of_mem _ hh)).mono (fun g t hg => hg.punch htl hall he)
      (fun i _ => he.same.file i) (by rw [he.same.files])

end Punch

/-- A disk that has been copied over its parent may be taken out, if neither is wanted. -/
theorem Safe.taken {d c e : Disk} (h : r.Chained bs k (as ++ child :: n :: p :: cs))
    (hd : r.diskData n = some d) (hc : r.diskData child = some c) (he : r.diskData p = some e)
    (hn : r.wanted n = false) (hp : r.wanted p = false)
    (hcopied : r.vol.CopiedOver (r.findDisk n)) : Safe r (r.taken n child p d c e) := by
  obtain ⟨hfn, -, hlower⟩ := h.findDisk_eq
  have hactive := h.place.1
  have hafter := taken_active (d := d) (c := c) (e := e) h
  have hinfo : (r.taken n child p d c e).info = r.info := taken_info h
  have hother : ∀ m, r.wanted m = true ∨ r.info.head = some m → m ≠ n ∧ m ≠ p := by
    have hhead : .head k ∉ as ++ child :: n :: p :: cs := (List.nodup_cons.1 h.follows.nodup).1
    simp only [List.mem_append, List.mem_cons, not_or] at hhead
    rintro m (hm | hm)
    · constructor <;> rintro rfl
      · rw [hn] at hm
        cases hm
      · rw [hp] at hm
        cases hm
    · obtain rfl := Option.some.inj (h.head.symm.trans hm)
      exact ⟨hhead.2.2.1, hhead.2.2.2.1⟩
  obtain ⟨himages, -⟩ :=
    images_removeDisk (r := r) (t := r.taken n child p d c e) rfl hactive hafter hlower hfn hcopied
    (h.size _ (by omega) (h.findDisk_lt h.mem_active.1))
  refine .of_chained h (taken_chained h hd he) (by rw [hinfo]) (fun m hm => ?_) (fun m hm hw => ?_)
    fun m _ hw b hb => ?_
  · rw [taken_wanted h.ne hc he (hother m (.inl hm)).1]
    exact hm
  · have hne := (hother m hw).1
    rw [hactive] at hm
    rw [hafter]
    simp only [List.mem_append, List.mem_cons] at hm ⊢
    tauto
  · exact himages m (hother m hw).1 (hother m hw).2 b hb

end Copy

end Replica

open Replica

/-! ## The loop -/

/-- `InternalSnapshotCleaner` : the replica of the server, the holes that wait for the worker, the
count of mismatches, and what is left to be done of the actions in this turn, of which the first has
copied `copied` sectors if it is a copy. The loop has `stopped` if it has returned or the process is
gone. -/
structure SnapshotCleaner where
  replica : Replica
  holes : List Hole
  contMismatchCount : ℕ
  ops : List PrepareRemoveAction
  copied : ℕ
  stopped : Bool

namespace SnapshotCleaner

variable {bs : List DiskName} {k : ℕ}

/-- What comes next : the server has no replica any more, the ticker fires and `GetCheckpoint`
returns `checkpoint`, where `none` is an error, a sector is copied, the copy is done or has failed,
the disk is removed, or the worker of `CreateHoles` punches the first hole. -/
inductive Label
  | noReplica
  | tick (checkpoint : Option (Option DiskName)) (size : DiskName → ℤ) (fuel : ℕ) (fate : Fate Site)
  | copy
  | copyDone
  | copyFailed
  | remove (fate : Fate Site)
  | punch

/-- The turn ends here. -/
def endTurn (s : SnapshotCleaner) : SnapshotCleaner :=
  { s with ops := [], copied := 0 }

/-- `PrepareRemoveDisk` of the first candidate. -/
def prepare (fate : Fate Site) (s : SnapshotCleaner) (disk : DiskName) : SnapshotCleaner :=
  match prepareRemoveDisk disk fate s.replica with
  | (.ok ops, r) => { s with replica := r, ops := ops, copied := 0 }
  | (.err _, r) => { s with replica := r }
  | (.crash, r) => { s with replica := r, stopped := true }

/-- A turn of the loop up to `PrepareRemoveDisk`. An index into an empty list is a panic. -/
def tick (retention : ℕ) (checkpoint : Option (Option DiskName)) (size : DiskName → ℤ) (fuel : ℕ)
    (fate : Fate Site) (s : SnapshotCleaner) : SnapshotCleaner :=
  match checkpoint with
  | none => s
  | some none => s
  | some (some snapshot) =>
    if s.replica.info.checkpoint ≠ some snapshot then
      { s with
        contMismatchCount := s.contMismatchCount + 1
        stopped := decide (s.contMismatchCount + 1 = 3) }
    else
      let s := { s with contMismatchCount := 0 }
      let sortedSnapshotList :=
        match s.replica.getDeleteCandidateChain size (some snapshot) fuel with
        | .ok l => l
        | .error _ => []
      if sortedSnapshotList.length < retention then s
      else
        match sortedSnapshotList with
        | [] => { s with stopped := true }
        | disk :: _ => s.prepare fate disk

/-- `RemoveDiffDisk` throws the waiting holes away once it has made its checks. -/
def holesAfter (s : SnapshotCleaner) (name : DiskName) : List Hole :=
  if s.replica.mode ≠ .rw ∨ s.replica.info.head = some name ∨ s.replica.info.parent = some name then
    s.holes
  else []

/-- One step, where `retention` is `SnapshotRetentionCount`. -/
def step (retention : ℕ) (s : SnapshotCleaner) (l : Label) : Option SnapshotCleaner :=
  if s.stopped then none
  else
    match l, s.ops with
    | .noReplica, [] => some { s with stopped := true }
    | .tick checkpoint size fuel fate, [] => some (s.tick retention checkpoint size fuel fate)
    | .copy, .coalesce source (some target) :: _ =>
      if s.copied * defaultSectorSize < s.replica.fileSize source then
        some { s with
          replica := s.replica.coalesceSector source target s.copied, copied := s.copied + 1 }
      else none
    | .copyDone, .coalesce source (some _) :: ops =>
      if s.replica.fileSize source ≤ s.copied * defaultSectorSize then
        some { s with ops := ops, copied := 0 }
      else none
    | .copyFailed, .coalesce _ _ :: _ => some s.endTurn
    | .remove fate, .remove source :: ops =>
      let holes := s.holesAfter source
      match removeDiffDisk source fate s.replica with
      | (.ok (), r) => some { s with replica := r, holes := holes, ops := ops }
      | (.err _, r) => some { s.endTurn with replica := r, holes := holes }
      | (.crash, r) => some { s with replica := r, holes := holes, stopped := true }
    | .punch, _ =>
      match s.holes with
      | [] => none
      | h :: holes =>
        match s.replica.vol.fallocatePunch h.f h.offset h.len with
        | .ok v => some { s with replica := s.replica.withVol v, holes := holes }
        | .error _ => none
    | _, _ => none

/-- The loop is started on the replica `r`, where `holes` wait for the worker. -/
def start (r : Replica) (holes : List Hole) : SnapshotCleaner :=
  ⟨r, holes, 0, [], 0, false⟩

/-- The disk that this turn copies over. -/
def target (s : SnapshotCleaner) : Option DiskName :=
  match s.ops with
  | [] => none
  | .coalesce _ target :: _ => target
  | .remove source :: _ => (s.replica.diskData source).bind Disk.parent

/-- The worker does not punch a hole in the file that is copied over, until the turn is over. -/
def Spares (s : SnapshotCleaner) : Label → Prop
  | .punch => ∀ h ∈ s.holes.head?, ∀ p ∈ s.target, h.f ≠ s.replica.vol.file (s.replica.findDisk p)
  | _ => True

/-! ## Every step is safe -/

/-- What is left of a turn on the chain of the replica. -/
inductive Turn (r : Replica) (bs : List DiskName) (k : ℕ) (ss : List DiskName) :
    List PrepareRemoveAction → ℕ → Prop
  | idle (copied : ℕ) : Turn r bs k ss [] copied
  | copying (as cs : List DiskName) (child n p : DiskName) (copied : ℕ)
      (hss : ss = as ++ child :: n :: p :: cs) (hn : r.wanted n = false) (hp : r.wanted p = false)
      (hcopied : r.CopiedTo n copied) : Turn r bs k ss [.coalesce n (some p), .remove n] copied
  | removing (as cs : List DiskName) (child n p : DiskName) (copied : ℕ)
      (hss : ss = as ++ child :: n :: p :: cs) (hn : r.wanted n = false) (hp : r.wanted p = false)
      (hcopied : r.vol.CopiedOver (r.findDisk n)) : Turn r bs k ss [.remove n] copied

/-- As long as the loop runs, the replica has a chain in memory, the turn is one on this chain, and
nobody sees the sectors of the waiting holes. -/
def OnChain (s : SnapshotCleaner) : Prop :=
  s.stopped = false → ∃ bs k ss, s.replica.Chained bs k ss ∧ Turn s.replica bs k ss s.ops s.copied ∧
    s.replica.HolesOk s.holes

/-- A candidate that is not the latest snapshot stands between two snapshots. -/
theorem split_of_candidate {ss : List DiskName} {checkpoint : Option DiskName} {d : DiskName}
    (h : r.Chained bs k ss) (hchain : r.liveChain fuel = .ok ns) (hd : r.Candidate ns checkpoint d)
    (hlatest : r.info.parent ≠ some d) : ∃ as cs child p, ss = as ++ child :: d :: p :: cs := by
  have hns : ns = .head k :: ss := by
    unfold liveChain at hchain
    rw [h.head] at hchain
    obtain ⟨ss', rfl, -, hfol⟩ := chain_follows hchain
    exact Follows.unique hfol h.follows
  obtain ⟨c, -, us, ms, ls, heq, hne⟩ := hd.between
  obtain ⟨p, cs, rfl⟩ := List.exists_cons_of_ne_nil hne
  rw [hns, List.append_assoc, List.cons_append] at heq
  -- the checkpoint is above the disk, so the disk is not the head
  obtain ⟨vs, hss⟩ : ∃ vs, ss = vs ++ d :: p :: cs := by
    cases us with
    | nil => exact ⟨ms, (List.cons.inj heq).2⟩
    | cons u us => exact ⟨us ++ c :: ms, by rw [(List.cons.inj heq).2]; simp⟩
  rcases List.eq_nil_or_concat vs with rfl | ⟨as, child, rfl⟩
  · exact absurd (h.parent.trans (by rw [hss]; rfl)) hlatest
  · exact ⟨as, cs, child, p, by rw [hss]; simp⟩

variable {s s' : SnapshotCleaner} {retention : ℕ}

theorem prepare_safe (hops : s.ops = []) (hrun : s.OnChain) (hstop : s.stopped = false)
    (fate : Fate Site) {checkpoint : Option DiskName} {disk : DiskName}
    (hchain : s.replica.liveChain fuel = .ok ns) (hd : s.replica.Candidate ns checkpoint disk) :
    Replica.Safe s.replica (s.prepare fate disk).replica ∧ (s.prepare fate disk).OnChain := by
  obtain ⟨bs, k, ss, hc, -, hok⟩ := hrun hstop
  obtain ⟨c, -, us, ms, ls, hns, -⟩ := hd.between
  obtain ⟨d, hdata⟩ : ∃ d, s.replica.diskData disk = some d := by
    unfold liveChain at hchain
    rw [hc.head] at hchain
    obtain ⟨ss', hss', -, hfol⟩ := chain_follows hchain
    exact record_of_follows hfol (by rw [← hss', hns]; simp)
  have hsafe : ∀ t, s.replica.SameOpen t ∨ (s.replica.mark disk d).SameOpen t →
      Replica.Safe s.replica t := by
    rintro t (ht | ht)
    · exact .of_sameOpen ht
    · exact (Replica.Safe.mark d hd.unwanted).trans (.of_sameOpen ht)
  have hidle : ∀ t, s.replica.SameOpen t ∨ (s.replica.mark disk d).SameOpen t →
      t.Chained bs k ss ∧ t.HolesOk s.holes := by
    rintro t (ht | ht)
    · exact ⟨ht.chained hc, hok.sameOpen ht⟩
    · exact ⟨ht.chained (mark_chained hdata hc), (hok.mark d).sameOpen ht⟩
  have hspec := prepareRemoveDisk_marks hdata fate s.replica rfl
  unfold prepare
  generalize prepareRemoveDisk disk fate s.replica = res at hspec ⊢
  obtain ⟨acts | e | -, t⟩ := res
  · obtain ⟨p, hp, -, hlatest, rfl, ht⟩ := hspec
    refine ⟨hsafe t (.inr ht), fun _ => ⟨bs, k, ss, (hidle t (.inr ht)).1, ?_,
      (hidle t (.inr ht)).2⟩⟩
    obtain ⟨as, cs, child, p', rfl⟩ := split_of_candidate hc hchain hd hlatest
    have hparent : s.replica.parentOf disk = some (some p) := by
      unfold parentOf
      rw [hdata, Option.map_some, hp]
    obtain rfl : p = p' := Option.some.inj (hp.symm.trans (hc.parent_eq hdata))
    have hwanted : t.wanted = (s.replica.mark disk d).wanted := by
      obtain ⟨dir, -, rfl⟩ := ht
      rfl
    refine .copying as cs child disk p 0 rfl ?_ ?_ (fun s hs => absurd hs (Nat.not_lt_zero s))
    · rw [hwanted, mark_wanted, if_pos rfl]
    · rw [hwanted, mark_wanted]
      split_ifs
      · rfl
      · exact hd.parent p hparent
  · refine ⟨hsafe t hspec, fun _ => ⟨bs, k, ss, (hidle t hspec).1, ?_, (hidle t hspec).2⟩⟩
    show Turn t bs k ss s.ops s.copied
    rw [hops]
    exact .idle _
  · exact ⟨hsafe t hspec, nofun⟩

theorem tick_safe (hops : s.ops = []) (hrun : s.OnChain) (hstop : s.stopped = false)
    (checkpoint : Option (Option DiskName)) (size : DiskName → ℤ) (fuel : ℕ) (fate : Fate Site) :
    Replica.Safe s.replica (s.tick retention checkpoint size fuel fate).replica ∧
      (s.tick retention checkpoint size fuel fate).OnChain := by
  obtain ⟨bs, k, ss, hc, -, hok⟩ := id hrun hstop
  have hidle : ∀ copied, Turn s.replica bs k ss s.ops copied := fun copied => hops ▸ .idle copied
  rcases checkpoint with _ | _ | snapshot
  · exact ⟨.refl _, hrun⟩
  · exact ⟨.refl _, hrun⟩
  unfold tick
  dsimp only
  split_ifs with h1 h2
  · exact ⟨.refl _, fun _ => ⟨bs, k, ss, hc, hidle _, hok⟩⟩
  · exact ⟨.refl _, fun _ => ⟨bs, k, ss, hc, hidle _, hok⟩⟩
  cases hchain : s.replica.liveChain fuel with
  | error e =>
    have hlist : s.replica.getDeleteCandidateChain size (some snapshot) fuel = .error e := by
      unfold getDeleteCandidateChain
      rw [hchain]
    rw [hlist]
    exact ⟨.refl _, nofun⟩
  | ok ns =>
    obtain ⟨l, hl, -, -, hall, -⟩ := getDeleteCandidateChain_spec hchain size (some snapshot)
    rw [hl]
    cases l with
    | nil => exact ⟨.refl _, nofun⟩
    | cons disk rest =>
      exact prepare_safe (s := { s with contMismatchCount := 0 }) hops
        (fun _ => ⟨bs, k, ss, hc, hidle _, hok⟩) hstop fate hchain (hall disk List.mem_cons_self)

theorem remove_safe {as cs : List DiskName} {child p : DiskName}
    (hc : r.Chained bs k (as ++ child :: n :: p :: cs)) (hn : r.wanted n = false)
    (hp : r.wanted p = false) (hcopied : r.vol.CopiedOver (r.findDisk n)) :
    Spec (fun _ s => s = r) (removeDiffDisk n) (fun _ _ t => Replica.Safe r t ∧
      t.Chained bs k (as ++ child :: p :: cs)) (fun _ _ t => Replica.Safe r t ∧
        ∃ ss, t.Chained bs k ss) fun _ t => Replica.Safe r t := by
  obtain ⟨d, hd⟩ := record_of_follows hc.follows (n := n) (by simp)
  obtain ⟨c, hchild⟩ := record_of_follows hc.follows (n := child) (by simp)
  obtain ⟨e, he⟩ := record_of_follows hc.follows (n := p) (by simp)
  have hdp := hc.parent_eq hd
  have htaken : ∀ t, (r.taken n child p d c e).SameOpen t →
      Replica.Safe r t ∧ t.Chained bs k (as ++ child :: p :: cs) :=
    fun t ht => ⟨(Replica.Safe.taken hc hd hchild he hn hp hcopied).trans (.of_sameOpen ht),
      ht.chained (taken_chained hc hd he)⟩
  refine (removeDiffDisk_taken hc hd hdp hchild he).consequence (fun _ _ => id)
    (fun _ _ t => htaken t) (fun _ _ t => ?_) fun _ t => ?_
  · rintro (rfl | ht)
    · exact ⟨.refl _, _, hc⟩
    · exact ⟨(htaken t ht).1, _, (htaken t ht).2⟩
  · rintro (ht | ht)
    · exact .of_untouched ht
    · exact (htaken t ht).1

/-- If `RemoveDiffDisk` does not come to throw the holes away, it has not done anything. -/
theorem holesAfter_ok (hok : s.replica.HolesOk s.holes) (n : DiskName) (fate : Fate Site) :
    (removeDiffDisk n fate s.replica).2.HolesOk (s.holesAfter n) := by
  unfold holesAfter
  split_ifs with hcheck
  · have hsame : (removeDiffDisk n fate s.replica).2 = s.replica := by
      unfold removeDiffDisk
      rw [bind_of_ok get_apply]
      split_ifs
      · rfl
      · rfl
      · rfl
      · tauto
    rwa [hsame]
  · exact nofun

/-- A hole that is punched spares the parent, and so what has been copied. -/
theorem punch_safe {hole : Hole} {holes : List Hole} {v : Volume} (hrun : s.OnChain)
    (hstop : s.stopped = false) (hspare : s.Spares .punch) (hholes : s.holes = hole :: holes)
    (hv : s.replica.vol.fallocatePunch hole.f hole.offset hole.len = .ok v) :
    Replica.Safe s.replica (s.replica.withVol v) ∧
      OnChain { s with replica := s.replica.withVol v, holes := holes } := by
  obtain ⟨bs, k, ss, hc, hturn, hok⟩ := hrun hstop
  rw [hholes] at hok
  obtain ⟨hsafe, hchained, hrest⟩ := hok.punch hc hv
  refine ⟨hsafe, fun _ => ⟨bs, k, ss, hchained, ?_, hrest⟩⟩
  obtain ⟨f, lo, len, hfile, hf, -, hvol, he⟩ := hok.effect hc hv
  have hother : ∀ {as cs : List DiskName} {child n p : DiskName}, ss = as ++ child :: n :: p :: cs →
      s.target = some p →
      s.replica.findDisk n < s.replica.vol.files.length ∧ s.replica.findDisk n - 1 ≠ f := by
    rintro as cs child n p rfl hp
    obtain ⟨hn, hp', -⟩ := hc.findDisk_eq
    refine ⟨hc.findDisk_lt hc.mem_active.1, fun heq => ?_⟩
    refine hspare hole (by rw [hholes]; rfl) p hp (hfile.trans ?_)
    rw [← heq, hn, hp']
    rfl
  unfold target at hother
  show Turn _ bs k ss s.ops s.copied
  generalize s.ops = ops, s.copied = copied at hturn hother
  cases hturn with
  | idle => exact .idle _
  | copying as cs child n p _ hss hn hp hcopied =>
    obtain ⟨hlt, hne⟩ := hother hss rfl
    refine .copying as cs child n p _ hss hn hp fun t ht hext => ?_
    rw [hvol] at hext ⊢
    exact copied_punch he hlt hne hext (hcopied t ht)
  | removing as cs child n p _ hss hn hp hcopied =>
    obtain ⟨d, hd⟩ := record_of_follows hc.follows (n := n) (by simp [hss])
    have hdp : d.parent = some p := (hss ▸ hc).parent_eq hd
    obtain ⟨hlt, hne⟩ := hother hss (by simp [hd, hdp])
    refine .removing as cs child n p _ hss hn hp fun t ht hext => ?_
    rw [hvol] at ht hext ⊢
    replace ht : t * defaultSectorSize < (v.store (v.file (s.replica.findDisk n))).size := ht
    rw [he.same.file, he.store _ hlt] at ht
    exact copied_punch he hlt hne hext (hcopied t (by split_ifs at ht <;> exact ht))

/-- No step changes what a user sees, and the loop goes on with a chain in memory. -/
theorem step_safe {l : Label} (hrun : s.OnChain) (hspare : s.Spares l)
    (hstep : s.step retention l = some s') : Replica.Safe s.replica s'.replica ∧ s'.OnChain := by
  unfold step at hstep
  split_ifs at hstep with hstop
  rw [Bool.not_eq_true] at hstop
  obtain ⟨bs, k, ss, hc, hturn, hok⟩ := id hrun hstop
  split at hstep
  · cases hstep
    exact ⟨.refl _, nofun⟩
  · next checkpoint size fuel fate hops =>
    cases hstep
    exact tick_safe hops hrun hstop checkpoint size fuel fate
  · next source target rest hops =>
    split_ifs at hstep
    cases hstep
    rw [hops] at hturn
    cases hturn with
    | copying as cs child n p copied hss hn hp hcopied =>
      subst hss
      have hw : (s.replica.coalesceSector source target s.copied).wanted = s.replica.wanted := rfl
      refine ⟨.coalesceSector hc hp _, fun _ =>
        ⟨bs, k, _, coalesceSector_chained hc _, ?_, hok.coalesceSector hc hp _⟩⟩
      show Turn _ bs k _ s.ops _
      rw [hops]
      exact .copying as cs child source target _ rfl (hw ▸ hn) (hw ▸ hp) (hcopied.succ hc)
  · next source target ops hops =>
    split_ifs at hstep with hdone
    cases hstep
    rw [hops] at hturn
    cases hturn with
    | copying as cs child n p copied hss hn hp hcopied =>
      exact ⟨.refl _, fun _ => ⟨bs, k, ss, hc, .removing as cs child source target 0 hss hn hp
        (hcopied.copiedOver hdone), hok⟩⟩
  · cases hstep
    exact ⟨.refl _, fun _ => ⟨bs, k, ss, hc, .idle _, hok⟩⟩
  · next fate source ops hops =>
    rw [hops] at hturn
    cases hturn with
    | removing as cs child n p copied hss hn hp hcopied =>
      subst hss
      have hspec := remove_safe hc hn hp hcopied fate s.replica rfl
      have hafter := holesAfter_ok hok source fate
      generalize removeDiffDisk source fate s.replica = res at hspec hstep hafter
      obtain ⟨⟨⟩ | e | -, t⟩ := res
      · cases hstep
        exact ⟨hspec.1, fun _ => ⟨bs, k, _, hspec.2, .idle _, hafter⟩⟩
      · cases hstep
        obtain ⟨hsafe, ss, hchained⟩ := hspec
        exact ⟨hsafe, fun _ => ⟨bs, k, ss, hchained, .idle _, hafter⟩⟩
      · cases hstep
        exact ⟨hspec, nofun⟩
  · split at hstep
    · cases hstep
    · next hole holes hholes =>
      split at hstep
      · next v hv =>
        cases hstep
        exact punch_safe hrun hstop hspare hholes hv
      · cases hstep
  · cases hstep

theorem run_safe {ss : List DiskName} {holes : List Hole} (h : r.Chained bs k ss)
    (hok : r.HolesOk holes) {ls : List Label}
    (hspare : Transition.Along (step retention) Spares (start r holes) ls)
    (hrun : run (step retention) (start r holes) ls = some s) : Replica.Safe r s.replica := by
  refine (inv_of_run (I := fun s => Replica.Safe r s.replica ∧ s.OnChain)
    (fun t l t' ht hl hstep => ?_) ⟨.refl r, fun _ => ⟨bs, k, ss, h, .idle _, hok⟩⟩ hspare hrun).1
  obtain ⟨hsafe, hon⟩ := step_safe ht.2 hl hstep
  exact ⟨ht.1.trans hsafe, hon⟩

/-- The list has exactly the disks that may go, once each and in the order of their sizes, and no
run of the loop changes what a user sees, whatever its calls come to and wherever it stops, if
nobody sees the sectors of the waiting holes at first, and no hole is punched in the parent while a
disk is copied over it and removed. -/
theorem snapshotCleaner_safe (r : Replica) :
    (∀ (ns : List DiskName) (fuel : ℕ) (size : DiskName → ℤ) (checkpoint : Option DiskName),
      r.liveChain fuel = .ok ns → (∀ c, checkpoint = some c → r.info.head ≠ some c) →
      ∃ l, r.getDeleteCandidateChain size checkpoint fuel = .ok l ∧ l.Nodup ∧
        l.Pairwise (fun x y => size x ≤ size y) ∧ ∀ d, d ∈ l ↔ r.Candidate ns checkpoint d) ∧
    ∀ (bs : List DiskName) (k : ℕ) (ss : List DiskName) (holes : List Hole), r.Chained bs k ss →
      r.HolesOk holes → ∀ (retention : ℕ) (ls : List Label) (s : SnapshotCleaner),
        Transition.Along (step retention) Spares (start r holes) ls →
        run (step retention) (start r holes) ls = some s → Replica.Safe r s.replica := by
  refine ⟨fun ns fuel size checkpoint hchain hhead => ?_,
    fun bs k ss holes h hok retention ls s hspare hrun => run_safe h hok hspare hrun⟩
  obtain ⟨l, hl, hnodup, hsorted, hsound, hall⟩ :=
    getDeleteCandidateChain_spec hchain size checkpoint
  exact ⟨l, hl, hnodup, hsorted, fun d => ⟨hsound d, hall hhead d⟩⟩

/-- A replica of one sector, which is written under the user-created snapshot `a`, under `b` and
under `c`. -/
def threeWrites : List Running.Op :=
  [.manage (.setReplicaMode "RW"), .writeAt Dev.ok (List.replicate 4096 1) 0,
    .manage (.snapshot "a" true ""), .writeAt Dev.ok (List.replicate 4096 2) 0,
    .manage (.snapshot "b" false ""), .writeAt Dev.ok (List.replicate 4096 3) 0,
    .manage (.snapshot "c" false ""), .manage (.snapshot "d" false ""),
    .manage (.setCheckpoint (some (.snap "d")))]

/-- The replica after these operations. -/
@[irreducible] def cleanable : Running :=
  (run Running.step Running.fresh threeWrites).getD Running.fresh

theorem run_threeWrites : run Running.step Running.fresh threeWrites = some cleanable := by
  have hsome : ∀ {o : Option Running}, o.isSome = true → o = some (o.getD Running.fresh) := by
    rintro (_ | s) h
    · cases h
    · rfl
  unfold cleanable
  exact hsome (by decide +kernel)

theorem cleanable_coherent : ∃ k ss gone, cleanable.replica.Coherent [] k ss gone := by
  have hin : Transition.Along Running.step Running.InChain Running.fresh threeWrites :=
    along_of_check (by decide +kernel)
  obtain ⟨-, k, ss, gone, hcoh, -⟩ := inv_of_run (I := fun s => ∃ g, Running.Complete g s)
    (fun _ _ _ ⟨_, h⟩ hin hstep => ⟨_, (Running.step_complete h hin hstep).1⟩)
    ⟨_, Running.fresh_isNew.complete (by decide)⟩ hin run_threeWrites
  exact ⟨k, ss, gone, hcoh⟩

/-- The worker punches the hole that waits in the file of `b`, and then there is a turn in which
nothing fails. -/
def oneTurn : List Label :=
  [.punch, .tick (some (some (.snap "d"))) (fun _ => 0) 10 .calm, .copy, .copyDone, .remove .calm]

/-- The same, but the worker is late. -/
def lateHole : List Label :=
  [.tick (some (some (.snap "d"))) (fun _ => 0) 10 .calm, .copy, .copyDone, .punch, .remove .calm]

theorem cleanable_facts : cleanable.replica.volume.files.Nodup ∧
    (∀ i < cleanable.replica.volume.files.length, 0 < i →
      (cleanable.replica.dir.store (cleanable.replica.volume.file i)).size =
        cleanable.replica.info.size) ∧
    (cleanable.replica.liveChain 10).toOption = some [.head 4, .snap "d", .snap "c",
      .snap "b", .snap "a"] ∧
    cleanable.replica.info.head = some (.head 4) ∧ cleanable.replica.wanted (.snap "a") = true ∧
    (run (step 1) (start cleanable.replica cleanable.holes) oneTurn).map
      (fun s => s.replica.activeDiskData) = some [.snap "a", .snap "b", .snap "d", .head 4] := by
  decide +kernel

theorem cleanable_holes : cleanable.holes = [⟨cleanable.replica.vol.file 2, 0, 4096⟩] ∧
    cleanable.replica.activeDiskData = [.snap "a", .snap "b", .snap "c", .snap "d", .head 4] ∧
    cleanable.replica.volume.files.length = 6 ∧ cleanable.replica.info.head = some (.head 4) ∧
    cleanable.replica.wanted (.snap "b") = false ∧ cleanable.replica.wanted (.snap "c") = false ∧
    cleanable.replica.wanted (.snap "d") = false ∧ cleanable.replica.vol.hasExtent 3 0 = true := by
  decide +kernel

/-- The sector was overwritten in `c` when the hole was sent off. -/
theorem cleanable_holesOk : cleanable.replica.HolesOk cleanable.holes := by
  obtain ⟨hholes, hactive, hlen, hhead, hb, hc, hd, hext⟩ := cleanable_holes
  have htarget : cleanable.replica.vol.target = 5 := congrArg (· - 1) hlen
  rw [hholes]
  intro hole hh
  obtain rfl := List.mem_singleton.1 hh
  refine ⟨2, 0, 1, rfl, hlen ▸ by decide, fun s _ hs => ⟨by decide, by rw [htarget]; decide, ?_⟩⟩
  obtain rfl : s = 0 := by omega
  rintro - u ⟨m, hm, hw, rfl⟩ hle -
  refine ⟨3, by decide, ?_, hext⟩
  unfold findDisk at hle ⊢
  rw [hactive] at hm hle ⊢
  rw [hhead] at hw
  simp only [List.mem_cons, List.not_mem_nil, or_false] at hm
  rcases hm with rfl | rfl | rfl | rfl | rfl
  · exact absurd hle (by decide)
  · simp [hb] at hw
  all_goals decide

/-- The snapshot `c` goes. The snapshot `b` stays, because the user wants its parent. -/
theorem snapshotCleaner_safe_oneTurn : ∃ s,
    run (step 1) (start cleanable.replica cleanable.holes) oneTurn = some s ∧
    s.replica.activeDiskData = [.snap "a", .snap "b", .snap "d", .head 4] ∧
    cleanable.replica.wanted (.snap "a") = true ∧ Replica.Safe cleanable.replica s.replica ∧
    ∃ l, cleanable.replica.getDeleteCandidateChain (fun _ => 0) (some (.snap "d")) 10 = .ok l ∧
      ∀ d, d ∈ l ↔ cleanable.replica.Candidate [.head 4, .snap "d", .snap "c", .snap "b", .snap "a"]
        (some (.snap "d")) d := by
  obtain ⟨hnodup, hsize, hchain, hhead, hwanted, hturn⟩ := cleanable_facts
  obtain ⟨k, ss, gone, hcoh⟩ := cleanable_coherent
  obtain ⟨s, hs, hactive⟩ := Option.map_eq_some_iff.1 hturn
  have hok : cleanable.replica.liveChain 10 = .ok [.head 4, .snap "d", .snap "c", .snap "b",
      .snap "a"] := by
    cases hl : cleanable.replica.liveChain 10 with
    | error e =>
      rw [hl] at hchain
      cases hchain
    | ok ns =>
      rw [hl] at hchain
      exact congrArg Except.ok (Option.some.inj hchain)
  obtain ⟨l, hl, -, -, hall⟩ := (snapshotCleaner_safe cleanable.replica).1 _ 10 (fun _ => 0)
    (some (.snap "d")) hok fun c hc heq => by
      obtain rfl := Option.some.inj hc
      cases hhead.symm.trans heq
  -- the worker comes before the turn
  have hspare : Transition.Along (step 1) Spares
      (start cleanable.replica cleanable.holes) oneTurn :=
    ⟨fun _ _ _ hp => (nomatch hp),
      fun _ _ => ⟨trivial, fun _ _ => ⟨trivial, fun _ _ => ⟨trivial, fun _ _ =>
      ⟨trivial, fun _ _ => trivial⟩⟩⟩⟩⟩
  exact ⟨s, hs, hactive, hwanted, (snapshotCleaner_safe _).2 [] k ss _
    (hcoh.chained hnodup fun i h0 hi => hsize i hi h0) cleanable_holesOk 1 _ s hspare hs, l, hl,
    hall⟩

/-- The same turn, with the hole in the parent punched after the copy : what was written last is
gone, and the live image is that of the snapshot `a`. -/
theorem punched_parent_lost : cleanable.replica.HolesOk cleanable.holes ∧ ∃ s,
    run (step 1) (start cleanable.replica cleanable.holes) lateHole = some s ∧
    cleanable.replica.vol.image 0 = 3 ∧ s.replica.vol.image 0 = 1 ∧
    ¬Replica.Safe cleanable.replica s.replica := by
  refine ⟨cleanable_holesOk, exists_of_any (p := fun s => cleanable.replica.vol.image 0 = 3 ∧
    s.replica.vol.image 0 = 1 ∧ 0 < cleanable.replica.info.size) (by decide +kernel) ?_⟩
  rintro s hs ⟨hbefore, hafter, hsize⟩
  refine ⟨hbefore, hafter, fun hsafe => ?_⟩
  have hlive := hsafe.live 0 hsize
  rw [hbefore, hafter] at hlive
  exact absurd hlive (by decide)

end SnapshotCleaner

end Jiva
