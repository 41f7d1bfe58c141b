import Jiva.Runs
import Jiva.ChainOps

/-!
# Runs of operations on an open replica

A replica is opened on an empty directory, and then operations come one after another, none of whose
calls fails and each of which returns without an error. `Reload`, `Revert` and `reopen` read the
chain from the directory. `gone` lists the names that were given to `RemoveDiffDisk` since that
happened last. Every replica that is reached is `Coherent` up to these names (`run_sound`).
-/

namespace Jiva

open Faults Links

/-- The operations on an open replica. `reopen` is `Close` and then `construct` on the directory. -/
inductive ReplicaOp
  | snapshot (name : String) (userCreated : Bool) (created : String)
  | prepareRemoveDisk (name : DiskName)
  | removeDiffDisk (name : DiskName)
  | revert (name : DiskName) (created : String)
  | reload (preload : Bool) (created : String)
  | reopen (backing : Option Replica.BackingFile) (preload : Bool) (size sectorSize : ℕ)
      (created : String)
  | resize (obj : Replica.NewSize)
  | setReplicaMode (mode : String)
  | setCheckpoint (snapshotName : Option DiskName)
  | setRebuilding (rebuilding : Bool)
  | setCloneStatus (status : String)

/-- An open replica, and the backing file that it was opened with. -/
structure Serving where
  replica : Replica
  backing : Option Replica.BackingFile

namespace Serving

/-- What an operation does. A walk along a chain of allowed length does not run out of fuel. -/
def act (s : Serving) : ReplicaOp → ReplicaAct String Unit
  | .snapshot name userCreated created => Replica.createDisk name userCreated created
  | .prepareRemoveDisk name => do
    let _ ← Replica.prepareRemoveDisk name
    pure ()
  | .removeDiffDisk name => Replica.removeDiffDisk name
  | .revert name created => Replica.revertDiskWith s.backing name created
      (s.replica.maxChainLen + 1)
  | .reload preload created => Replica.reloadWith s.backing preload
      (s.replica.maxChainLen + 1) created
  | .reopen backing preload size sectorSize created => do
    Replica.close
    Replica.constructWith backing preload size sectorSize (s.replica.maxChainLen + 1) created
  | .resize obj => Replica.resize obj (s.replica.maxChainLen + 1)
  | .setReplicaMode mode => Replica.setReplicaMode mode
  | .setCheckpoint snapshotName => Replica.setCheckpoint snapshotName
  | .setRebuilding rebuilding => Replica.setRebuilding rebuilding
  | .setCloneStatus status => Replica.setCloneStatus status

/-- The backing file after an operation. -/
def backingAfter (s : Serving) : ReplicaOp → Option Replica.BackingFile
  | .reopen backing _ _ _ _ => backing
  | _ => s.backing

/-- An operation that returns without an error, and none of whose calls fails. -/
def step (s : Serving) (op : ReplicaOp) : Option Serving :=
  match s.act op .calm s.replica with
  | (.ok (), r) => some ⟨r, s.backingAfter op⟩
  | _ => none

/-- A replica as `construct` opens it in an empty directory. -/
def IsNew (s : Serving) : Prop :=
  ∃ preload size sectorSize fuel created maxChainLen,
    Replica.constructWith s.backing preload size sectorSize fuel created .calm
      (Replica.empty maxChainLen) = (.ok (), s.replica)

/-- The names that were removed since the chain was last read from the directory. -/
def goneAfter (gone : List DiskName) : ReplicaOp → List DiskName
  | .removeDiffDisk name => name :: gone
  | .revert .. | .reload .. | .reopen .. => []
  | _ => gone

theorem goneAfter_subset {g gone : List DiskName} (h : g ⊆ gone) (op : ReplicaOp) :
    goneAfter g op ⊆ goneAfter gone op := by
  cases op with
  | removeDiffDisk name => exact List.cons_subset_cons name h
  | revert | reload | reopen => exact List.Subset.refl _
  | _ => exact h

/-- The names that were removed in the last part of a run, after the last reading. -/
def gone (ops : List ReplicaOp) : List DiskName :=
  ops.foldl goneAfter []

/-- The replica is coherent, up to names in `gone`. -/
def Sound (gone : List DiskName) (s : Serving) : Prop :=
  ∃ k ss g, s.replica.Coherent (Replica.backingNames s.backing) k ss g ∧ g ⊆ gone

theorem step_some {s s' : Serving} {op : ReplicaOp} (h : s.step op = some s') :
    s.act op .calm s.replica = (.ok (), s'.replica) ∧ s'.backing = s.backingAfter op := by
  unfold step at h
  split at h
  · rename_i r heq
    cases h
    exact ⟨heq, rfl⟩
  · cases h

theorem IsNew.sound {s : Serving} (h : s.IsNew) : s.Sound [] := by
  obtain ⟨preload, size, sectorSize, fuel, created, maxChainLen, hk⟩ := h
  exact ⟨0, [], [], Replica.constructWith_new_coherent hk, List.Subset.refl _⟩

open Replica in
/-- Each operation keeps the replica coherent. -/
theorem step_sound {s s' : Serving} {op : ReplicaOp} {gone : List DiskName} (h : s.Sound gone)
    (hstep : s.step op = some s') : s'.Sound (goneAfter gone op) := by
  obtain ⟨k, ss, g, h, hg⟩ := h
  obtain ⟨hact, hb⟩ := step_some hstep
  unfold Sound
  rw [hb]
  cases op with
  | snapshot name userCreated created =>
    obtain ⟨i, d, -, hcoh⟩ := createDisk_coherent h hact
    exact ⟨_, _, g, hcoh, hg⟩
  | prepareRemoveDisk name =>
    obtain ⟨acts, u, hu, hact⟩ := calm_bind_ok.1 hact
    cases hact
    exact ⟨k, ss, g, prepareRemoveDisk_coherent h hu, hg⟩
  | removeDiffDisk name =>
    cases removeDiffDisk_removed h hact with
    | outside _ _ _ _ _ _ hcoh => exact ⟨k, ss, g, hcoh, List.subset_cons_of_subset _ hg⟩
    | inside as cs child d c u _ _ _ _ _ _ hcoh =>
      exact ⟨k, _, name :: g, hcoh, List.cons_subset_cons _ hg⟩
  | revert name created =>
    obtain ⟨vm, ss', u, -, -, -, -, hcoh⟩ := revertDiskWith_coherent h hact
    exact ⟨_, ss', [], hcoh, List.Subset.refl _⟩
  | reload preload created =>
    obtain ⟨vm, u, -, -, -, -, hcoh⟩ := reloadWith_coherent h hact
    exact ⟨k, ss, [], hcoh, List.Subset.refl _⟩
  | reopen backing preload size sectorSize created =>
    obtain ⟨⟨⟩, u, hu, hact⟩ := calm_bind_ok.1 hact
    obtain ⟨vm, -, -, -, hcoh⟩ := (close_coherent h hu).construct hact
    exact ⟨k, ss, [], hcoh, List.Subset.refl _⟩
  | resize obj => exact ⟨k, ss, g, resize_coherent h hact, hg⟩
  | setReplicaMode mode => exact ⟨k, ss, g, setReplicaMode_coherent h hact, hg⟩
  | setCheckpoint snapshotName => exact ⟨k, ss, g, setCheckpoint_coherent h hact, hg⟩
  | setRebuilding rebuilding => exact ⟨k, ss, g, setRebuilding_coherent h hact, hg⟩
  | setCloneStatus status => exact ⟨k, ss, g, setCloneStatus_coherent h hact, hg⟩

/-- Every replica of a run is coherent. -/
theorem run_sound {s s' : Serving} {ops : List ReplicaOp} (h : s.IsNew)
    (hrun : Transition.run step s ops = some s') : s'.Sound (gone ops) := by
  refine Transition.run_rec (P := fun ops s => s.Sound (gone ops)) h.sound
    (fun ops t op t' _ ht _ hstep => ?_) ops s' (Transition.along_true step s ops) hrun
  unfold gone
  rw [List.foldl_append]
  exact step_sound ht hstep

/-- A new replica of one sector, with a limit of ten disks. -/
def fresh : Serving where
  replica := Replica.new 4096 4096 10 ""
  backing := none

theorem fresh_isNew : fresh.IsNew :=
  ⟨true, 4096, 4096, 1, "", 10, Prod.ext rfl rfl⟩

end Serving

end Jiva
