import Jiva.Reread

/-!
# The bookkeeping of an open replica

A replica keeps its chain five times over : as parents in `diskData`, as `activeDiskData`, as the
files and flags of the volume, as the inverse map `diskChildrenMap`, and in the metadata files.
`Coherent` says that they agree.

One of them does not always. `removeDiskNode` relinks the child of the disk it removes, but it
leaves the entry of the removed disk in `diskChildrenMap`. So the map is compared at the names that
are not in `gone`, the disks that were removed since the replica was opened. Everywhere else the map
may have too much, never too little (`children`).
-/

namespace Jiva

open Faults Links

/-- The directory of a replica with head `k` : each disk has an image and a metadata file, and is
the head or a snapshot. Parents are snapshots, and the head is not user-created. -/
structure Dir.Tidy (dir : Dir) (k : ℕ) : Prop where
  named : dir.Named
  known : ∀ n, (dir.diskMeta n).isSome → n = .head k ∨ ∃ s, n = .snap s
  paired : ∀ n, (dir.img n).isSome = (dir.diskMeta n).isSome
  parents : ∀ n d p, dir.diskMeta n = some d → d.parent = some p → ∃ s, p = .snap s
  plain : ∀ d, dir.diskMeta (.head k) = some d → d.userCreated = false

/-- What the metadata file of `n` says in such a directory. -/
structure Disk.Fits (k : ℕ) (n : DiskName) (d : Disk) : Prop where
  name : d.name = n
  known : n = .head k ∧ d.userCreated = false ∨ ∃ s, n = .snap s
  parent : ∀ p, d.parent = some p → ∃ s, p = .snap s

section Tidy

variable {dir dir' : Dir} {k : ℕ} {n : DiskName} {d : Disk}

/-- Another head may have come. -/
theorem Disk.Fits.of_ne (h : d.Fits k n) (hne : n ≠ .head k) (k' : ℕ) : d.Fits k' n :=
  ⟨h.name, .inr (h.known.resolve_left fun hn => hne hn.1), h.parent⟩

theorem Dir.Tidy.fits (h : dir.Tidy k) (hd : dir.diskMeta n = some d) : d.Fits k n :=
  ⟨h.named n d hd, (h.known n (by rw [hd]; rfl)).imp_left fun hn => ⟨hn, h.plain d (hn ▸ hd)⟩,
    fun p => h.parents n d p hd⟩

theorem Dir.Tidy.of_fits (hfits : ∀ n d, dir.diskMeta n = some d → d.Fits k n)
    (hpaired : ∀ n, (dir.img n).isSome = (dir.diskMeta n).isSome) : dir.Tidy k where
  named n d hd := (hfits n d hd).name
  known n hn := by
    obtain ⟨d, hd⟩ := Option.isSome_iff_exists.1 hn
    exact (hfits n d hd).known.imp_left And.left
  paired := hpaired
  parents n d p hd := (hfits n d hd).parent p
  plain d hd := (hfits _ d hd).known.elim And.right nofun

/-- Only the images and the metadata files of the disks matter. -/
theorem Dir.Tidy.of_metas (h : dir.Tidy k) (himg : dir'.img = dir.img)
    (hmeta : dir'.diskMeta = dir.diskMeta) : dir'.Tidy k := by
  refine .of_fits (fun n d hd => h.fits (hmeta ▸ hd)) fun n => ?_
  rw [himg, hmeta, h.paired]

end Tidy

/-- `volume.meta` and the open replica agree, apart from the flag for a clean stop and from what
`construct` finds out for itself. -/
structure Info.Agrees (i j : Info) : Prop where
  size : i.size = j.size
  head : i.head = j.head
  rebuilding : i.rebuilding = j.rebuilding
  sectorSize : i.sectorSize = j.sectorSize
  cloneStatus : i.cloneStatus = j.cloneStatus
  checkpoint : i.checkpoint = j.checkpoint

namespace Replica

/-- The parents in the records. -/
def parentOf (r : Replica) (n : DiskName) : Option (Option DiskName) :=
  (r.diskData n).map Disk.parent

theorem record_of_follows {r : Replica} {s : Option DiskName} {ns : List DiskName}
    (hf : Follows r.parentOf s ns) {n : DiskName} (hn : n ∈ ns) : ∃ d, r.diskData n = some d := by
  have hsome := hf.isSome n hn
  unfold parentOf at hsome
  rwa [Option.isSome_map, Option.isSome_iff_exists] at hsome

/-- The parent of a disk of the chain is the next one. -/
theorem parent_of_follows {r : Replica} {s : Option DiskName} {l m ns : List DiskName}
    {n : DiskName} {d : Disk} (hf : Follows r.parentOf s ns) (hns : ns = l ++ n :: m)
    (hd : r.diskData n = some d) : d.parent = m.head? := by
  have hnext := (hns ▸ hf).next_eq
  unfold parentOf at hnext
  rw [hd] at hnext
  exact Option.some.inj hnext

/-- The replica is open on the chain of head `k` and the snapshots `ss`, over the backing file in
`bs`, and its parts agree. The disks in `gone` have been removed. -/
structure Coherent (r : Replica) (bs : List DiskName) (k : ℕ) (ss gone : List DiskName) : Prop where
  readOnly : r.readOnly = false
  head : r.info.head = some (.head k)
  parent : r.info.parent = ss.head?
  active : r.activeDiskData = bs ++ (.head k :: ss).reverse
  files : r.volume.files.length = r.activeDiskData.length + 1
  flags : r.volume.userCreatedSnap.length = r.activeDiskData.length + 1
  follows : Follows r.parentOf (some (.head k)) (.head k :: ss)
  only : ∀ n d, r.diskData n = some d →
    n ∈ .head k :: ss ∨ n ∈ bs ∧ d = ⟨n, none, false, false, "", 0⟩
  metas : ∀ n ∈ .head k :: ss, r.dir.diskMeta n = r.diskData n
  children : ∀ n d p, r.diskData n = some d → d.parent = some p → n ∈ r.diskChildrenMap (some p)
  inverse : ∀ p, p ∉ gone → ∀ n ∈ r.diskChildrenMap (some p), ∃ d, r.diskData n = some d ∧
    d.parent = some p
  own : ∀ p, p ∉ r.diskChildrenMap (some p)
  nodup : ∀ p, (r.diskChildrenMap p).Nodup
  tidy : r.dir.Tidy k
  backing : ∀ b ∈ bs, ∃ path, b = .file path
  removed : ∀ p ∈ gone, ∃ s, p = .snap s
  volumeMeta : ∃ i, r.dir.volumeMeta = some i ∧ i.Agrees r.info
  chainLen : ss.length + 1 ≤ r.maxChainLen

namespace Coherent

variable {r t : Replica} {bs ss gone : List DiskName} {k : ℕ}

section

variable (h : r.Coherent bs k ss gone)
include h

theorem record {n : DiskName} (hn : n ∈ .head k :: ss) :
    ∃ d, r.diskData n = some d ∧ r.dir.diskMeta n = some d ∧ d.name = n := by
  obtain ⟨d, hd⟩ := record_of_follows h.follows hn
  have hm := (h.metas n hn).trans hd
  exact ⟨d, hd, hm, h.tidy.named n d hm⟩

theorem whole : r.dir.metaFile (.head k) ≠ some none := by
  obtain ⟨d, -, hm, -⟩ := h.record List.mem_cons_self
  rw [Dir.metaFile_of_some hm]
  simp

theorem name_eq {n : DiskName} (hn : n ∈ .head k :: ss) {d : Disk}
    (hd : r.diskData n = some d) : d.name = n :=
  h.tidy.named n d ((h.metas n hn).trans hd)

theorem snaps {n : DiskName} (hn : n ∈ ss) : ∃ s, n = .snap s := by
  obtain ⟨d, -, hm, -⟩ := h.record (List.mem_cons_of_mem _ hn)
  rcases h.tidy.known n (by rw [hm]; rfl) with rfl | hs
  · exact absurd hn (List.nodup_cons.1 h.follows.nodup).1
  · exact hs

theorem not_backing {n : DiskName} (hn : n ∈ .head k :: ss) : n ∉ bs := by
  intro hb
  obtain ⟨path, rfl⟩ := h.backing n hb
  rcases List.mem_cons.1 hn with hn | hn
  · cases hn
  · obtain ⟨s, hs⟩ := h.snaps hn
    cases hs

/-- A disk with a parent is in the chain, and so is its parent. -/
theorem mem_of_parent {n p : DiskName} {d : Disk} (hd : r.diskData n = some d)
    (hp : d.parent = some p) : n ∈ .head k :: ss ∧ p ∈ ss := by
  have hn : n ∈ .head k :: ss := by
    rcases h.only n d hd with hn | ⟨-, rfl⟩
    · exact hn
    · cases hp
  refine ⟨hn, ?_⟩
  obtain ⟨as, cs, hsplit⟩ := h.follows.split hn (by unfold parentOf; rw [hd, Option.map_some, hp])
  cases as with
  | nil =>
    cases hsplit
    simp
  | cons a as =>
    rw [List.cons_append, List.cons.injEq] at hsplit
    rw [hsplit.2]
    simp

theorem imgs {n : DiskName} (hn : n ∈ .head k :: ss) : (r.dir.img n).isSome := by
  obtain ⟨d, -, hm, -⟩ := h.record hn
  rw [h.tidy.paired, hm]
  rfl

end

end Coherent

/-! ## Opening -/

section Opening

variable {r t : Replica} {ss : List DiskName} {k : ℕ} {backing : Option BackingFile} {vm : Info}

theorem mem_backingNames {n : DiskName} (h : n ∈ backingNames backing) :
    ∃ path, n = .file path := by
  obtain ⟨b, -, rfl⟩ := List.mem_map.1 h
  exact ⟨b.path, rfl⟩

/-- The disks on the way from the head have metadata files, so none of them is a backing file. -/
theorem follows_not_backing (htidy : r.dir.Tidy k)
    (hf : Follows r.dir.next (some (.head k)) (.head k :: ss)) {n : DiskName}
    (hn : n ∈ .head k :: ss) : n ∉ backingNames backing := by
  intro hb
  obtain ⟨path, rfl⟩ := mem_backingNames hb
  rcases htidy.known _ (Dir.isSome_of_follows hf hn) with hc | ⟨s, hc⟩ <;> cases hc

theorem Opened.diskMeta_some {h n : DiskName} {d : Disk} (ho : Opened r backing vm h ss t)
    (hd : t.dir.diskMeta n = some d) : ∃ e, r.dir.diskMeta n = some e ∧ (d = e ∨
      d = e.reread n r.getRevisionCounter) := by
  rw [ho.metas] at hd
  split_ifs at hd
  · obtain ⟨e, he, rfl⟩ := Option.map_eq_some_iff.1 hd
    exact ⟨e, he, .inr rfl⟩
  · exact ⟨d, hd, .inl rfl⟩

theorem Opened.tidy {h : DiskName} (htidy : r.dir.Tidy k) (ho : Opened r backing vm h ss t) :
    t.dir.Tidy k := by
  refine .of_fits (fun n d hd => ?_) fun n => ?_
  · obtain ⟨e, he, rfl | rfl⟩ := ho.diskMeta_some hd
    · exact htidy.fits he
    · exact { htidy.fits he with name := rfl }
  · have hsome : (t.dir.diskMeta n).isSome = (r.dir.diskMeta n).isSome := by
      rw [ho.metas]
      split_ifs
      · exact Option.isSome_map
      · rfl
    rw [hsome, ← htidy.paired, ho.dir]

theorem Opened.coherent (htidy : r.dir.Tidy k)
    (hf : Follows r.dir.next (some (.head k)) (.head k :: ss)) (hh : vm.head = some (.head k))
    (hlen : ss.length + 1 ≤ r.maxChainLen) (ho : Opened r backing vm (.head k) ss t) :
    t.Coherent (backingNames backing) k ss [] := by
  have hdata : ∀ n ∈ .head k :: ss, t.diskData n =
      (r.dir.diskMeta n).map (Disk.reread n r.getRevisionCounter) := by
    intro n hn
    rw [ho.data n (follows_not_backing htidy hf hn), if_pos hn]
  have hrecord : ∀ n d, t.diskData n = some d → n ∉ backingNames backing →
      n ∈ .head k :: ss ∧ r.dir.next n = some d.parent := by
    intro n d hd hb
    rw [ho.data n hb] at hd
    split_ifs at hd with hn
    obtain ⟨e, he, rfl⟩ := Option.map_eq_some_iff.1 hd
    exact ⟨hn, by unfold Dir.next; rw [he]; rfl⟩
  constructor
  · exact ho.readOnly
  · rw [ho.info]
    exact hh
  · rw [ho.info]
  · exact ho.active
  · rw [ho.files, ho.active]
    simp [backingNames]
  · rw [ho.flags, ho.active]
    simp
  · refine hf.congr fun n hn => ?_
    unfold parentOf
    rw [hdata n hn, Option.map_map]
    rfl
  · intro n d hd
    by_cases hb : n ∈ backingNames backing
    · rw [ho.backed n hb] at hd
      cases hd
      exact .inr ⟨hb, rfl⟩
    · exact .inl (hrecord n d hd hb).1
  · intro n hn
    rw [hdata n hn, ho.metas, if_pos hn]
  · intro n d p hd hp
    by_cases hb : n ∈ backingNames backing
    · rw [ho.backed n hb] at hd
      cases hd
      cases hp
    · obtain ⟨hn, hnext⟩ := hrecord n d hd hb
      exact (ho.children p n).2 ⟨hn, hp ▸ hnext⟩
  · intro p _ n hn
    obtain ⟨hmem, hnext⟩ := (ho.children p n).1 hn
    obtain ⟨e, he, hp⟩ := Option.map_eq_some_iff.1 hnext
    exact ⟨e.reread n r.getRevisionCounter, by rw [hdata n hmem, he]; rfl, hp⟩
  · intro p hp
    obtain ⟨hmem, hnext⟩ := (ho.children p p).1 hp
    exact hf.not_own hmem hnext
  · exact ho.nodup
  · exact ho.tidy htidy
  · exact fun b hb => mem_backingNames hb
  · exact fun _ h => absurd h List.not_mem_nil
  · refine ⟨_, by rw [ho.dir], ?_⟩
    rw [ho.info]
    exact ⟨rfl, rfl, rfl, rfl, rfl, rfl⟩
  · rw [ho.maxChainLen]
    exact hlen

/-- `construct` of a tidy directory that succeeds. -/
theorem constructWith_coherent {preload : Bool} {size sectorSize fuel : ℕ} {created : String}
    (htidy : r.dir.Tidy k) (hhead : (r.dir.diskMeta (.head k)).isSome)
    (hv : r.dir.volumeMeta = some vm) (hh : vm.head = some (.head k))
    (hk : constructWith backing preload size sectorSize fuel created .calm r = (.ok (), t)) :
    ∃ ss, Follows r.dir.next (some (.head k)) (.head k :: ss) ∧ Opened r backing vm (.head k) ss t ∧
      t.Coherent (backingNames backing) k ss [] := by
  obtain ⟨hsize, ss, hf, hfuel, hlen⟩ := constructWith_follows hv hh htidy.named hhead hk
  have himg : ∀ n ∈ .head k :: ss, (r.dir.img n).isSome := by
    intro n hn
    rw [htidy.paired, Dir.isSome_of_follows hf hn]
  obtain ⟨t', hk', ho⟩ :=
    constructWith_opened hv hh htidy.named hf hfuel hlen himg hsize backing preload created
  obtain rfl : t = t' := congrArg Prod.snd (hk.symm.trans hk')
  exact ⟨ss, hf, ho, ho.coherent htidy hf hh hlen⟩

end Opening

end Replica

end Jiva
