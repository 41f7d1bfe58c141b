import Jiva.ReplicaRuns

/-!
# What a replica keeps in its directory

Every operation changes the tables in memory and writes some of the metadata files. `SameMetadata`
compares a replica with what `construct` reads back after `Close` : the chain, the records of the
disks, and `volume.meta`. For a replica that was reached by any run of operations in which no call
fails they are the same, provided that `construct` accepts the size (`reopened_metadata`).

`Resize` takes any size that is not smaller. If it is not a multiple of the sector size, `construct`
refuses it. And a snapshot for whose head `Encode` fails returns `nil`, but its metadata file can
not be read (`resized_not_reopened`).
-/

namespace Jiva

open Faults Links Transition

/-- What a metadata file says about a disk, apart from its counter. -/
def Disk.identity (d : Disk) : DiskName × Option DiskName × Bool × Bool × String :=
  (d.name, d.parent, d.removed, d.userCreated, d.created)

namespace Replica

/-- The chain, the records and `volume.meta` are the same. -/
structure SameMetadata (r t : Replica) : Prop where
  chain : t.liveChain (t.maxChainLen + 1) = r.liveChain (r.maxChainLen + 1)
  disks : ∀ n, (t.diskData n).map Disk.identity = (r.diskData n).map Disk.identity
  info : t.info.size = r.info.size ∧ t.info.sectorSize = r.info.sectorSize ∧
    t.info.head = r.info.head ∧ t.info.parent = r.info.parent ∧
    t.info.checkpoint = r.info.checkpoint ∧ t.info.cloneStatus = r.info.cloneStatus ∧
    t.info.rebuilding = r.info.rebuilding

variable {r t : Replica} {k : ℕ} {ss gone : List DiskName} {backing : Option BackingFile}

theorem Coherent.liveChain_eq {bs : List DiskName} (h : r.Coherent bs k ss gone) :
    r.liveChain (r.maxChainLen + 1) = .ok (.head k :: ss) := by
  unfold liveChain
  rw [h.head]
  exact chain_eq h.follows (by have := h.chainLen; omega)

theorem identity_reread {n : DiskName} {c : ℤ} {d : Disk} (h : d.name = n) :
    (d.reread n c).identity = d.identity := by
  unfold Disk.reread Disk.identity
  rw [h]

/-- The replica that is opened on the directory of a coherent one has the same metadata, if no
record of a backing file is missing. -/
theorem Opened.sameMetadata {vm : Info} (h : r.Coherent (backingNames backing) k ss gone)
    (hvm : vm.Agrees r.info) (ho : Opened r backing vm (.head k) ss t)
    (ht : t.Coherent (backingNames backing) k ss []) :
    SameMetadata r t ↔ ∀ b ∈ backingNames backing, (r.diskData b).isSome := by
  have hbacked : ∀ b ∈ backingNames backing, (t.diskData b).isSome := by
    intro b hb
    rw [ho.backed b hb]
    rfl
  constructor
  · intro hs b hb
    have := congrArg Option.isSome (hs.disks b)
    rw [Option.isSome_map, Option.isSome_map, hbacked b hb] at this
    exact this.symm
  · intro hb
    refine ⟨?_, fun n => ?_, ?_⟩
    · rw [h.liveChain_eq, ht.liveChain_eq]
    · by_cases hn : n ∈ backingNames backing
      · obtain ⟨d, hd⟩ := Option.isSome_iff_exists.1 (hb n hn)
        rcases h.only n d hd with hin | ⟨-, rfl⟩
        · exact absurd hn (h.not_backing hin)
        · rw [hd, ho.backed n hn]
      · rw [ho.data n hn]
        split_ifs with hin
        · obtain ⟨d, hd, hm, hname⟩ := h.record hin
          rw [hm, hd, Option.map_some, Option.map_some, Option.map_some, identity_reread hname]
        · cases hd : r.diskData n with
          | none => rfl
          | some d => exact absurd ((h.only n d hd).resolve_right fun hc => hn hc.1) hin
    · rw [ho.info]
      exact ⟨hvm.size, hvm.sectorSize, hvm.head, h.parent.symm, hvm.checkpoint, hvm.cloneStatus,
        hvm.rebuilding⟩

/-- `Close`, and then `construct` with the size and the sector size that the replica has. -/
def ReopensSame (r : Replica) (backing : Option BackingFile) (preload : Bool) (created : String) :
    Prop :=
  ∃ u t, close .calm r = (.ok (), u) ∧ constructWith backing preload r.info.size r.info.sectorSize
    (r.maxChainLen + 1) created .calm u = (.ok (), t) ∧ SameMetadata r t

theorem Coherent.reopensSame_iff (h : r.Coherent (backingNames backing) k ss gone) (preload : Bool)
    (created : String) :
    r.ReopensSame backing preload created ↔ r.info.size % r.info.sectorSize = 0 ∧
      ∀ b ∈ backingNames backing, (r.diskData b).isSome := by
  have hclose := close_calm h.readOnly
  set u : Replica := { r.setVolumeMeta { r.info with dirty := false } with mode := .closed } with hu
  have hcoh : u.Coherent (backingNames backing) k ss gone := close_coherent h hclose
  have hsame : ∀ t, SameMetadata r t ↔ SameMetadata u t := fun t =>
    ⟨fun hs => ⟨hs.chain, hs.disks, hs.info⟩, fun hs => ⟨hs.chain, hs.disks, hs.info⟩⟩
  constructor
  · rintro ⟨u', t, hu', ht, hs⟩
    obtain rfl : u = u' := congrArg Prod.snd (hclose.symm.trans hu')
    obtain ⟨vm, -, hvm, ho, hcoh'⟩ := hcoh.construct ht
    refine ⟨?_, (ho.sameMetadata hcoh hvm hcoh').1 ((hsame t).1 hs)⟩
    by_contra hsize
    unfold constructWith at ht
    rw [if_pos hsize] at ht
    cases ht
  · rintro ⟨hsize, hb⟩
    obtain ⟨vm, hv, hvm⟩ := hcoh.volumeMeta
    obtain ⟨t, ht, ho⟩ :=
      constructWith_opened (r := u) hv (hvm.head.trans hcoh.head) hcoh.tidy.named hcoh.follows_dir
      (show ss.length < r.maxChainLen + 1 by have := h.chainLen; omega) hcoh.chainLen
      (fun n hn => hcoh.imgs hn) hsize backing preload created
    obtain ⟨vm', hv', hvm', ho', hcoh'⟩ := hcoh.construct ht
    exact ⟨u, t, hclose, ht, (hsame t).2 ((ho'.sameMetadata hcoh hvm' hcoh').2 hb)⟩

end Replica

namespace Serving

/-- An operation that returns without an error, although a call may fail. -/
def stepAt (s : Serving) (op : ReplicaOp × Fate Site) : Option Serving :=
  match s.act op.1 op.2 s.replica with
  | (.ok (), r) => some ⟨r, s.backingAfter op.1⟩
  | _ => none

theorem run_stepAt :
    ∀ {s : Serving} {ops : List (ReplicaOp × Fate Site)}, (∀ op ∈ ops, op.2 = .calm) →
    run stepAt s ops = run step s (ops.map Prod.fst)
  | s, [], _ => rfl
  | s, (op, fate) :: ops, h => by
    obtain ⟨rfl, hops⟩ := List.forall_mem_cons.1 h
    rw [run_cons, List.map_cons, run_cons]
    exact Option.bind_congr fun t _ => run_stepAt hops

/-- A replica that was reached by any run of operations, none of whose calls fails, has the metadata
that `construct` reads after `Close`, if and only if its size is a multiple of its sector size, and
the record of its backing file is still there. -/
theorem reopened_metadata {s s' : Serving} {ops : List (ReplicaOp × Fate Site)} (h : s.IsNew)
    (hrun : run stepAt s ops = some s') (hcalm : ∀ op ∈ ops, op.2 = .calm) (preload : Bool)
    (created : String) :
    s'.replica.ReopensSame s'.backing preload created ↔
      s'.replica.info.size % s'.replica.info.sectorSize = 0 ∧
      ∀ b ∈ Replica.backingNames s'.backing, (s'.replica.diskData b).isSome := by
  rw [run_stepAt hcalm] at hrun
  obtain ⟨k, ss, g, hcoh, -⟩ := run_sound h hrun
  exact hcoh.reopensSame_iff preload created

/-- All kinds of operations, after which the replica has the size of two sectors. -/
def manyOperations : List (ReplicaOp × Fate Site) :=
  [.setReplicaMode "RW", .snapshot "a" true "now", .snapshot "b" false "", .snapshot "c" false "",
    .prepareRemoveDisk (.snap "b"), .removeDiffDisk (.snap "b"), .setCheckpoint (some (.snap "a")),
    .setRebuilding true, .setCloneStatus "completed", .revert (.snap "a") "later",
    .resize (.text 8192)].map (·, .calm)

theorem reopened_metadata_many : ∃ s, run stepAt fresh manyOperations = some s ∧
    s.replica.ReopensSame s.backing true "" := by
  refine exists_of_any (p := fun s => s.replica.info.size = 8192 ∧
    s.replica.info.sectorSize = 4096 ∧ s.backing = none) (by decide +kernel) ?_
  rintro s hs ⟨hsize, hsector, hb⟩
  refine (reopened_metadata fresh_isNew hs (by simp [manyOperations]) true "").2 ⟨?_, ?_⟩
  · rw [hsize, hsector]
  · rw [hb]
    exact nofun

/-- What `construct` says after `Close`. -/
def reopening (s : Serving) : Exit String Unit :=
  (Replica.constructWith s.backing true s.replica.info.size s.replica.info.sectorSize
    (s.replica.maxChainLen + 1) "" .calm (Replica.close .calm s.replica).2).1

theorem not_reopensSame {s : Serving} {e : String} (h : s.reopening = .err e) :
    ¬s.replica.ReopensSame s.backing true "" := by
  rintro ⟨u, t, hu, ht, -⟩
  unfold reopening at h
  rw [hu, ht] at h
  cases h

/-- A replica of one sector is resized to 5000 bytes. `construct` refuses the size that is recorded.
And a snapshot is made of it, and `Encode` fails for the new head. The snapshot returns `nil`, and
`construct` finds a metadata file that is cut short. -/
theorem resized_not_reopened :
    (∃ s, run stepAt fresh [(.resize (.text 5000), .calm)] = some s ∧
      s.reopening = .err "Size 5000 not a multiple of sector size 4096" ∧
      ¬s.replica.ReopensSame s.backing true "") ∧
    ∃ s, run stepAt fresh [(.snapshot "a" false "", .failAt (.encoder .newHead))] = some s ∧
      s.replica.info.size % s.replica.info.sectorSize = 0 ∧ s.backing = none ∧
      s.reopening = .err "unexpected EOF" ∧ ¬s.replica.ReopensSame s.backing true "" := by
  constructor
  · exact exists_of_any (p := fun s => s.reopening =
      .err "Size 5000 not a multiple of sector size 4096") (by decide +kernel) fun s _ h => ⟨h,
        not_reopensSame h⟩
  · exact exists_of_any (p := fun s => s.replica.info.size % s.replica.info.sectorSize = 0 ∧
      s.backing = none ∧ s.reopening = .err "unexpected EOF") (by decide +kernel)
      fun s _ ⟨hsize, hb, h⟩ => ⟨hsize, hb, h, not_reopensSame h⟩

end Serving

end Jiva
