import Jiva.DiffDisk
import Jiva.Runs
import Mathlib.Data.List.Nodup

/-!
# The open files of a replica server, and the holes that name them

A hole that waits in `HoleCreatorChan` carries an open file of the replica that sent it. The queue
is global, and the server of `replica/server.go` closes and replaces files and whole replicas.
`RemoveDiffDisk`, `ReplaceDisk` and `Close` empty the queue first. `Reload` closes the old replica
without that, `Revert` forgets it and leaves its files open, and `Delete` closes the replica without
that, too.

`Open`, `Reload` and `Revert` hold the lock of the server while `construct` opens the files of a new
replica and its scan of the extents sends holes into them. The worker has no lock, so it may take
such a hole before the server has the replica, and a `construct` that fails leaves them behind. The
lock is `constructing` of `LockedServer`.

The files are numbered in the order in which they are opened. A step says how the calls to the file
system ended, as far as it matters for the files, and which holes were sent. `holeDrainer` is one
step : no hole that was sent before it is punched after it, and the worker is at no hole when it
returns.

The worker only punches open files of the replica that the server holds (`worker_file_open`) as long
as it takes no hole of a replica that is not there yet, no operation leaves holes of a replica
behind that it lets go, and none fails half-way (`Orderly`).
-/

namespace Jiva

/-- The server, the open files, the queue and the hole that the worker has taken from it. `r` are
the files of the replica that the server holds. -/
structure Server where
  r : Option (List ℕ)
  isOpen : ℕ → Bool
  nextFile : ℕ
  holeCreatorChan : List Hole
  worker : Option Hole

namespace Server

variable {s t : Server}

/-- How `createDisk` ends. It fails late if `volume.meta` cannot be written, when the new head is
already in the list of files. Then it is closed and stays in the list. -/
inductive SnapshotEnd
  | done
  | failed
  | failedLate
  deriving DecidableEq, Repr

/-- How `RemoveDiffDisk` ends : it is refused before the queue is emptied, it fails after that, or
it removes a disk, at a place of the live chain or outside of it. -/
inductive RemoveEnd
  | refused
  | failed
  | removed (place : Option ℕ)
  deriving DecidableEq, Repr

/-- How `ReplaceDisk` ends. The target has its place in the chain without the source. -/
inductive ReplaceEnd
  | refused
  | failed
  | replaced (source target : Option ℕ)
  deriving DecidableEq, Repr

/-- What happens to the replica that the server holds. `written` says whether `Replica.close` could
write `volume.meta`. -/
inductive Op
  | writeAt (holes : List Hole)
  | snapshot (e : SnapshotEnd)
  | removeDiffDisk (e : RemoveEnd)
  | replaceDisk (e : ReplaceEnd)
  | close (written : Bool)
  | delete (written : Bool)
  | take
  | punch
  deriving DecidableEq, Repr

/-- Nothing is open. -/
def init : Server :=
  ⟨none, fun _ => false, 0, [], none⟩

/-- The files that the next `n` calls open. -/
def nextFiles (s : Server) (n : ℕ) : List ℕ :=
  List.range' s.nextFile n

/-- Open `n` files. -/
def openFiles (n : ℕ) (s : Server) : Server :=
  { s with
    isOpen := fun f => decide (f ∈ s.nextFiles n) || s.isOpen f
    nextFile := s.nextFile + n }

/-- `f.Close` for some files. -/
def closeFiles (fs : List ℕ) (s : Server) : Server :=
  { s with isOpen := fun f => !decide (f ∈ fs) && s.isOpen f }

/-- `sendToCreateHole`. -/
def sendHoles (hs : List Hole) (s : Server) : Server :=
  { s with holeCreatorChan := s.holeCreatorChan ++ hs }

/-- `holeDrainer`. -/
def holeDrainer (s : Server) : Server :=
  { s with holeCreatorChan := [], worker := none }

def setReplica (r : Option (List ℕ)) (s : Server) : Server :=
  { s with r := r }

/-- `removeDiskNode` : the file at a place of the chain is closed and taken out. -/
def removeAt (fs : List ℕ) (place : Option ℕ) (s : Server) : Server × List ℕ :=
  match place with
  | none => (s, fs)
  | some i => (s.closeFiles [fs.getD i 0], fs.eraseIdx i)

/-- One step. A request to a server that holds no replica returns an error. -/
def step (s : Server) : Op → Option Server
  | .writeAt holes =>
    match s.r with
    | none => some s
    | some fs => if ∀ h ∈ holes, h.f ∈ fs then some (s.sendHoles holes) else none
  | .snapshot e =>
    match s.r, e with
    | none, _ => some s
    | some fs, .done => some ((s.openFiles 1).setReplica (some (fs ++ s.nextFiles 1)))
    | some _, .failed => some s
    | some fs, .failedLate =>
      some (((s.openFiles 1).closeFiles (s.nextFiles 1)).setReplica (some (fs ++ s.nextFiles 1)))
  | .removeDiffDisk e =>
    match s.r, e with
    | none, _ => some s
    | some _, .refused => some s
    | some _, .failed => some s.holeDrainer
    | some fs, .removed place =>
      if place.all (· < fs.length) then
        let t := s.holeDrainer.removeAt fs place
        some (t.1.setReplica (some t.2))
      else none
  | .replaceDisk e =>
    match s.r, e with
    | none, _ => some s
    | some _, .refused => some s
    | some _, .failed => some s.holeDrainer
    | some fs, .replaced source target =>
      if source.all (· < fs.length) then
        let t := s.holeDrainer.removeAt fs source
        match target with
        | none => some (t.1.setReplica (some t.2))
        | some j =>
          if j < t.2.length then
            some (((t.1.closeFiles [t.2.getD j 0]).openFiles 1).setReplica
              (some (t.2.set j s.nextFile)))
          else none
      else none
  | .close written =>
    match s.r with
    | none => some s
    | some fs =>
      let t := s.holeDrainer.closeFiles fs
      some (if written then t.setReplica none else t)
  | .delete written =>
    match s.r with
    | none => some s
    | some fs =>
      let t := s.closeFiles fs
      some (if written then t.setReplica none else t)
  | .take =>
    match s.worker, s.holeCreatorChan with
    | none, h :: hs => some { s with worker := some h, holeCreatorChan := hs }
    | _, _ => none
  | .punch =>
    match s.worker with
    | some _ => some { s with worker := none }
    | none => none

/-- The holes that wait or that the worker has taken. -/
def waiting (s : Server) : List Hole :=
  s.worker.toList ++ s.holeCreatorChan

/-- The file is open and belongs to the replica that the server holds. -/
def Current (s : Server) (f : ℕ) : Prop :=
  s.isOpen f = true ∧ ∃ fs, s.r = some fs ∧ f ∈ fs

/-- The steps that leave no hole behind. `Delete` comes when no hole waits, and `volume.meta` can be
written. -/
def Orderly (s : Server) : Op → Prop
  | .snapshot e => e ≠ .failedLate
  | .close written => written = true
  | .delete written => s.waiting = [] ∧ written = true
  | _ => True

instance (s : Server) (op : Op) : Decidable (s.Orderly op) := by
  cases op <;> unfold Orderly <;> infer_instance

/-- The files of the replica are open and known, and the holes name files of the replica. -/
structure Inv (s : Server) : Prop where
  nodup : ∀ fs, s.r = some fs → fs.Nodup
  opened : ∀ fs, s.r = some fs → ∀ f ∈ fs, s.isOpen f = true ∧ f < s.nextFile
  named : ∀ h ∈ s.waiting, ∃ fs, s.r = some fs ∧ h.f ∈ fs

theorem Inv.current (h : s.Inv) {x : Hole} (hx : x ∈ s.waiting) : s.Current x.f := by
  obtain ⟨fs, hr, hf⟩ := h.named x hx
  exact ⟨(h.opened fs hr _ hf).1, fs, hr, hf⟩

theorem init_inv : init.Inv :=
  ⟨nofun, nofun, nofun⟩

/-! ## The parts of the operations -/

section Parts

variable {s : Server} {n : ℕ} {fs old : List ℕ}
variable {f : ℕ}

theorem mem_nextFiles : f ∈ s.nextFiles n ↔ s.nextFile ≤ f ∧ f < s.nextFile + n := by
  unfold nextFiles
  rw [List.mem_range'_1]

theorem nodup_nextFiles : (s.nextFiles n).Nodup :=
  List.nodup_range'

theorem isOpen_openFiles :
    (s.openFiles n).isOpen f = true ↔ f ∈ s.nextFiles n ∨ s.isOpen f = true := by
  simp [openFiles]

theorem isOpen_closeFiles : (s.closeFiles fs).isOpen f = true ↔ f ∉ fs ∧ s.isOpen f = true := by
  simp [closeFiles]

/-- New files join those of the replica. -/
theorem Inv.append (h : s.Inv) (hr : s.r = some fs) :
    ((s.openFiles n).setReplica (some (fs ++ s.nextFiles n))).Inv := by
  have hlt : ∀ f ∈ fs, s.isOpen f = true ∧ f < s.nextFile := h.opened fs hr
  refine ⟨?_, ?_, fun x hx => ?_⟩
  · rintro _ ⟨⟩
    refine List.nodup_append.2 ⟨h.nodup fs hr, nodup_nextFiles, fun f hf g hg hfg => ?_⟩
    have h₁ := (hlt f hf).2
    have h₂ := (mem_nextFiles.1 hg).1
    omega
  · rintro _ ⟨⟩ f hf
    rcases List.mem_append.1 hf with hf | hf
    · exact ⟨isOpen_openFiles.2 (.inr (hlt f hf).1), Nat.lt_add_right n (hlt f hf).2⟩
    · exact ⟨isOpen_openFiles.2 (.inl hf), (mem_nextFiles.1 hf).2⟩
  · obtain ⟨gs, hg, hxf⟩ := h.named x hx
    obtain rfl : fs = gs := Option.some.inj (hr.symm.trans hg)
    exact ⟨_, rfl, List.mem_append_left _ hxf⟩

theorem Inv.drain (h : s.Inv) : s.holeDrainer.Inv :=
  ⟨h.nodup, h.opened, nofun⟩

/-- Once no hole waits, the replica can be closed and let go. -/
theorem letGo_inv (h : s.waiting = []) (fs : List ℕ) : ((s.closeFiles fs).setReplica none).Inv := by
  refine ⟨nofun, nofun, fun x hx => ?_⟩
  have hx' : x ∈ s.waiting := hx
  rw [h] at hx'
  cases hx'

/-- Once no hole waits, the file of a disk can be closed and taken out. -/
theorem Inv.removeAt (h : s.Inv) (hr : s.r = some fs) (hw : s.waiting = []) {place : Option ℕ}
    (hp : place.all (· < fs.length) = true) :
    ((s.removeAt fs place).1.setReplica (some (s.removeAt fs place).2)).Inv := by
  cases place with
  | none =>
    refine ⟨?_, ?_, fun x hx => ?_⟩
    · rintro _ ⟨⟩
      exact h.nodup fs hr
    · rintro _ ⟨⟩
      exact h.opened fs hr
    · have hx' : x ∈ s.waiting := hx
      rw [hw] at hx'
      cases hx'
  | some i =>
    have hi : i < fs.length := by simpa using hp
    have hnd := h.nodup fs hr
    refine ⟨?_, ?_, fun x hx => ?_⟩
    · rintro _ ⟨⟩
      exact hnd.eraseIdx i
    · rintro _ ⟨⟩ f hf
      have hmem := h.opened fs hr f (List.mem_of_mem_eraseIdx hf)
      refine ⟨isOpen_closeFiles.2 ⟨fun heq => ?_, hmem.1⟩, hmem.2⟩
      obtain rfl := List.mem_singleton.1 heq
      rw [List.getD_eq_getElem _ _ hi] at hf
      obtain ⟨j, hj, hne, hval⟩ := List.mem_eraseIdx_iff_getElem.1 hf
      exact hne ((hnd.getElem_inj_iff).1 hval)
    · have hx' : x ∈ s.waiting := hx
      rw [hw] at hx'
      cases hx'

/-- The file of a disk is closed and opened again. -/
theorem Inv.reopen (h : s.Inv) (hr : s.r = some fs) (hw : s.waiting = []) {j : ℕ}
    (hj : j < fs.length) :
    (((s.closeFiles [fs.getD j 0]).openFiles 1).setReplica (some (fs.set j s.nextFile))).Inv := by
  have hnd := h.nodup fs hr
  have hlt : ∀ f ∈ fs, s.isOpen f = true ∧ f < s.nextFile := h.opened fs hr
  refine ⟨?_, ?_, fun x hx => ?_⟩
  · rintro _ ⟨⟩
    exact hnd.set fun hmem => absurd (hlt _ hmem).2 (Nat.lt_irrefl _)
  · rintro _ ⟨⟩ f hf
    obtain ⟨i, hi, hval⟩ := List.getElem_of_mem hf
    rw [List.length_set] at hi
    by_cases hij : i = j
    · subst hij
      rw [List.getElem_set_self] at hval
      subst hval
      exact ⟨isOpen_openFiles.2 (.inl (mem_nextFiles.2 ⟨Nat.le_refl _, Nat.lt_succ_self _⟩)),
        Nat.lt_succ_self _⟩
    · rw [List.getElem_set_ne (Ne.symm hij)] at hval
      subst hval
      have hold := hlt _ (List.getElem_mem hi)
      refine ⟨isOpen_openFiles.2 (.inr (isOpen_closeFiles.2 ⟨fun heq => ?_, hold.1⟩)),
        Nat.lt_succ_of_lt hold.2⟩
      rw [List.mem_singleton, List.getD_eq_getElem _ _ hj] at heq
      exact hij ((hnd.getElem_inj_iff).1 heq)
  · have hx' : x ∈ s.waiting := hx
    rw [hw] at hx'
    cases hx'

end Parts

/-! ## Steps of the replica -/

theorem inv_step {s' : Server} {op : Op} (h : s.Inv) (hg : s.Orderly op)
    (hstep : s.step op = some s') : s'.Inv := by
  cases op <;> simp only [step] at hstep
  case writeAt holes =>
    split at hstep
    · cases hstep
      exact h
    · next fs hr =>
      split_ifs at hstep with hh
      cases hstep
      refine ⟨h.nodup, h.opened, fun x hx => ?_⟩
      have hx' : x ∈ s.worker.toList ++ (s.holeCreatorChan ++ holes) := hx
      rw [← List.append_assoc] at hx'
      rcases List.mem_append.1 hx' with hx' | hx'
      · exact h.named x hx'
      · exact ⟨fs, hr, hh x hx'⟩
  case snapshot e =>
    split at hstep
    · cases hstep
      exact h
    · next fs hr =>
      cases hstep
      exact h.append hr
    · cases hstep
      exact h
    · exact absurd rfl hg
  case removeDiffDisk e =>
    split at hstep
    · cases hstep
      exact h
    · cases hstep
      exact h
    · cases hstep
      exact h.drain
    · next fs place hr =>
      split_ifs at hstep with hp
      cases hstep
      exact h.drain.removeAt hr rfl hp
  case replaceDisk e =>
    split at hstep
    · cases hstep
      exact h
    · cases hstep
      exact h
    · cases hstep
      exact h.drain
    · next fs source target hr =>
      split_ifs at hstep with hp
      have hrem := h.drain.removeAt hr rfl hp
      split at hstep
      · cases hstep
        exact hrem
      · split_ifs at hstep with hj
        cases hstep
        have hnext : (s.holeDrainer.removeAt fs source).1.nextFile = s.nextFile := by
          cases source <;> rfl
        have hq : ((s.holeDrainer.removeAt fs source).1.setReplica
            (some (s.holeDrainer.removeAt fs source).2)).waiting = [] := by
          cases source <;> rfl
        have hre := hrem.reopen rfl hq hj
        rw [show ((s.holeDrainer.removeAt fs source).1.setReplica
          (some (s.holeDrainer.removeAt fs source).2)).nextFile = s.nextFile from hnext] at hre
        exact hre
  case close written =>
    obtain rfl : written = true := hg
    split at hstep
    · cases hstep
      exact h
    · next fs hr =>
      rw [if_pos rfl] at hstep
      cases hstep
      exact letGo_inv rfl fs
  case delete written =>
    obtain ⟨hw, rfl⟩ := hg
    split at hstep
    · cases hstep
      exact h
    · next fs hr =>
      rw [if_pos rfl] at hstep
      cases hstep
      exact letGo_inv hw fs
  case take =>
    split at hstep
    · next x hs hw hq =>
      cases hstep
      refine ⟨h.nodup, h.opened, fun y hy => h.named y ?_⟩
      unfold waiting
      rw [hw, hq]
      exact hy
    · cases hstep
  case punch =>
    split at hstep
    · next x hw =>
      cases hstep
      refine ⟨h.nodup, h.opened, fun y hy => h.named y ?_⟩
      unfold waiting
      exact List.mem_append_right _ hy
    · cases hstep

end Server

/-! ## The lock -/

/-- Which operation waits for `construct`. -/
inductive Constructing
  | openReplica
  | reload
  | revert
  deriving DecidableEq, Repr

/-- The server, and the `construct` that has its lock, with the files it has opened. -/
structure LockedServer where
  server : Server
  constructing : Option (Constructing × List ℕ)

namespace LockedServer

open Server Transition

variable {s t : LockedServer}

/-- What happens to the server. `construct` opens files, sends holes as often as it likes, and ends
with a replica or an error. The other operations wait for the lock, and the worker does not. -/
inductive Op
  | construct (k : Constructing) (files : ℕ)
  | preload (holes : List Hole)
  | constructed (ok : Bool)
  | request (op : Server.Op)
  deriving DecidableEq, Repr

/-- Nothing is open. -/
def init : LockedServer :=
  ⟨Server.init, none⟩

/-- The files of the replica that is not there yet. -/
def newFiles (s : LockedServer) : List ℕ :=
  (s.constructing.map Prod.snd).getD []

/-- `CreateHoles` does not ask for the lock. -/
def ofWorker : Server.Op → Bool
  | .take => true
  | .punch => true
  | _ => false

/-- The new replica takes its place. `Reload` closes the old one. -/
def install (k : Constructing) (fs : List ℕ) (s : Server) : Server :=
  if k = .reload then (s.setReplica (some fs)).closeFiles (s.r.getD [])
  else s.setReplica (some fs)

/-- One step. `Open` of an open replica, and `Reload` and `Revert` without one, return an error. -/
def step (s : LockedServer) : Op → Option LockedServer
  | .construct k n =>
    match s.constructing with
    | some _ => none
    | none =>
      if s.server.r.isSome = decide (k ≠ .openReplica) then
        some ⟨s.server.openFiles n, some (k, s.server.nextFiles n)⟩
      else some s
  | .preload holes =>
    match s.constructing with
    | none => none
    | some (_, fs) =>
      if ∀ h ∈ holes, h.f ∈ fs then some { s with server := s.server.sendHoles holes } else none
  | .constructed ok =>
    match s.constructing with
    | none => none
    | some (k, fs) => some ⟨if ok then install k fs s.server else s.server, none⟩
  | .request op =>
    if s.constructing = none ∨ ofWorker op = true then
      (s.server.step op).map fun t => { s with server := t }
    else none

/-- The steps that leave no hole behind. The worker takes no hole of a replica that is not there
yet. When a replica is there, no hole of the one before it waits, and a `construct` that fails
leaves no hole. -/
def Orderly (s : LockedServer) : Op → Prop
  | .constructed true => ∀ h ∈ s.server.waiting, h.f ∈ s.newFiles
  | .constructed false => ∀ h ∈ s.server.waiting, h.f ∉ s.newFiles
  | .request .take => ∀ h ∈ s.server.holeCreatorChan.take 1, h.f ∉ s.newFiles
  | .request op => s.server.Orderly op
  | _ => True

instance (s : LockedServer) (op : Op) : Decidable (s.Orderly op) := by
  cases op with
  | construct k n => exact isTrue trivial
  | preload holes => exact isTrue trivial
  | constructed ok => cases ok <;> unfold Orderly <;> infer_instance
  | request op => cases op <;> unfold Orderly <;> infer_instance

/-- While `construct` opens the files `fs`, the holes name them or files of the replica, and the
worker is at a file of the replica. -/
structure Building (s : Server) (fs : List ℕ) : Prop where
  nodup : ∀ gs, s.r = some gs → gs.Nodup
  opened : ∀ gs, s.r = some gs → ∀ f ∈ gs, s.isOpen f = true ∧ f < s.nextFile
  new : fs.Nodup ∧ ∀ f ∈ fs, s.isOpen f = true ∧ f < s.nextFile
  apart : ∀ gs, s.r = some gs → ∀ f ∈ gs, f ∉ fs
  named : ∀ h ∈ s.waiting, (∃ gs, s.r = some gs ∧ h.f ∈ gs) ∨ h.f ∈ fs
  taken : ∀ h, s.worker = some h → ∃ gs, s.r = some gs ∧ h.f ∈ gs

/-- What holds between two steps. -/
def Inv (s : LockedServer) : Prop :=
  match s.constructing with
  | none => s.server.Inv
  | some (_, fs) => Building s.server fs

theorem init_inv : init.Inv :=
  Server.init_inv

/-- `construct` starts. -/
theorem building_openFiles {s : Server} (h : s.Inv) (n : ℕ) :
    Building (s.openFiles n) (s.nextFiles n) where
  nodup := h.nodup
  opened gs hr f hf :=
    ⟨isOpen_openFiles.2 (.inr (h.opened gs hr f hf).1),
      Nat.lt_add_right n (h.opened gs hr f hf).2⟩
  new := ⟨nodup_nextFiles, fun f hf => ⟨isOpen_openFiles.2 (.inl hf), (mem_nextFiles.1 hf).2⟩⟩
  apart gs hr f hf hnew := by
    have h₁ := (h.opened gs hr f hf).2
    have h₂ := (mem_nextFiles.1 hnew).1
    omega
  named x hx := .inl (h.named x hx)
  taken x hx := h.named x (List.mem_append_left _ (by
    rw [show s.worker = some x from hx]
    exact List.mem_singleton_self x))

namespace Building

variable {s : Server} {fs : List ℕ}

theorem sendHoles (h : Building s fs) {hs : List Hole} (hhs : ∀ x ∈ hs, x.f ∈ fs) :
    Building (s.sendHoles hs) fs := by
  refine ⟨h.nodup, h.opened, h.new, h.apart, fun x hx => ?_, h.taken⟩
  have hx' : x ∈ s.worker.toList ++ (s.holeCreatorChan ++ hs) := hx
  rw [← List.append_assoc] at hx'
  rcases List.mem_append.1 hx' with hx' | hx'
  · exact h.named x hx'
  · exact .inr (hhs x hx')

/-- The new replica is there, and all holes are in its files. -/
theorem install (h : Building s fs) (k : Constructing) (hnew : ∀ x ∈ s.waiting, x.f ∈ fs) :
    (install k fs s).Inv := by
  unfold LockedServer.install
  split_ifs
  · refine ⟨?_, ?_, fun x hx => ⟨fs, rfl, hnew x hx⟩⟩
    · rintro _ ⟨⟩
      exact h.new.1
    · rintro _ ⟨⟩ f hf
      refine ⟨isOpen_closeFiles.2 ⟨fun hold => ?_, (h.new.2 f hf).1⟩, (h.new.2 f hf).2⟩
      cases hr : s.r with
      | none =>
        rw [hr] at hold
        cases hold
      | some gs =>
        rw [hr] at hold
        exact h.apart gs hr f hold hf
  · refine ⟨?_, ?_, fun x hx => ⟨fs, rfl, hnew x hx⟩⟩
    · rintro _ ⟨⟩
      exact h.new.1
    · rintro _ ⟨⟩
      exact h.new.2

/-- The new replica is given up, and no hole is in its files. -/
theorem giveUp (h : Building s fs) (hnone : ∀ x ∈ s.waiting, x.f ∉ fs) : s.Inv :=
  ⟨h.nodup, h.opened, fun x hx => (h.named x hx).resolve_right (hnone x hx)⟩

/-- The worker goes on, and does not take a hole in the new files. -/
theorem worker_step {s' : Server} (h : Building s fs) {op : Server.Op} (hop : ofWorker op = true)
    (htake : op = .take → ∀ x ∈ s.holeCreatorChan.take 1, x.f ∉ fs)
    (hstep : s.step op = some s') : Building s' fs := by
  cases op with
  | take =>
    simp only [Server.step] at hstep
    split at hstep
    · next x hs hw hq =>
      cases hstep
      have hwait : s.waiting = x :: hs := by
        rw [waiting, hw, hq]
        rfl
      refine ⟨h.nodup, h.opened, h.new, h.apart, fun y hy => h.named y ?_, ?_⟩
      · rw [hwait]
        exact hy
      · rintro y ⟨⟩
        refine (h.named x (hwait ▸ List.mem_cons_self)).resolve_right (htake rfl x ?_)
        rw [hq]
        exact List.mem_singleton_self x
    · cases hstep
  | punch =>
    simp only [Server.step] at hstep
    split at hstep
    · cases hstep
      exact ⟨h.nodup, h.opened, h.new, h.apart,
        fun y hy => h.named y (List.mem_append_right _ hy), nofun⟩
    · cases hstep
  | _ => cases hop

end Building

/-- A request that is orderly with the lock is orderly for the replica. -/
theorem orderly_request {op : Server.Op} (h : s.Orderly (.request op)) : s.server.Orderly op := by
  cases op with
  | take => trivial
  | _ => exact h

theorem inv_step {op : Op} (h : s.Inv) (hg : s.Orderly op) (hstep : s.step op = some t) :
    t.Inv := by
  obtain ⟨server, constructing⟩ := s
  cases op with
  | construct k n =>
    cases constructing with
    | some b => cases hstep
    | none =>
      simp only [step] at hstep
      split_ifs at hstep
      · cases hstep
        exact building_openFiles h n
      · cases hstep
        exact h
  | preload holes =>
    cases constructing with
    | none => cases hstep
    | some b =>
      simp only [step] at hstep
      split_ifs at hstep with hh
      cases hstep
      exact Building.sendHoles h hh
  | constructed ok =>
    cases constructing with
    | none => cases hstep
    | some b =>
      cases ok with
      | true =>
        cases hstep
        exact Building.install h b.1 hg
      | false =>
        cases hstep
        exact Building.giveUp h hg
  | request op =>
    simp only [step] at hstep
    split_ifs at hstep with hlock
    obtain ⟨server', hserver, rfl⟩ := Option.map_eq_some_iff.1 hstep
    cases constructing with
    | none => exact Server.inv_step h (orderly_request hg) hserver
    | some b =>
      refine Building.worker_step h (hlock.resolve_left nofun) ?_ hserver
      rintro rfl
      exact hg

/-- In every state the worker is at a file of the replica that the server holds. -/
theorem Inv.current (h : s.Inv) {x : Hole} (hx : s.server.worker = some x) :
    s.server.Current x.f := by
  obtain ⟨server, constructing⟩ := s
  cases constructing with
  | none =>
    refine Server.Inv.current h ?_
    rw [waiting, show server.worker = some x from hx]
    exact List.mem_cons_self
  | some b =>
    obtain ⟨gs, hr, hf⟩ := Building.taken h x hx
    exact ⟨(Building.opened h gs hr _ hf).1, gs, hr, hf⟩

/-- In a run of orderly steps, the hole that the worker has taken names an open file of the replica
that the server holds. -/
theorem worker_file_open {s : LockedServer} {ops : List Op}
    (hrun : run step init ops = some s) (hg : Transition.Along step Orderly init ops)
    {x : Hole} (hx : s.server.worker = some x) : s.server.Current x.f :=
  (inv_of_run (I := Inv) (fun _ _ _ ht hg hstep => inv_step ht hg hstep) init_inv hg
    hrun).current hx

/-- A replica of one file, a snapshot, and an overwritten sector of the snapshot. -/
def overwritten : List Op :=
  [.construct .openReplica 1, .constructed true, .request (.writeAt []), .request (.snapshot .done),
    .request (.writeAt [⟨0, 0, 4096⟩])]

/-- The hole is punched while a new replica is constructed, and the holes of the new replica are
taken when it is there. -/
def punchedFirst : List Op :=
  overwritten ++ [.construct .reload 2, .request .take, .preload [⟨2, 0, 4096⟩], .request .punch,
    .constructed true, .request .take]

theorem worker_file_open_punchedFirst : ∃ s, run step init punchedFirst = some s ∧
    s.server.worker = some ⟨2, 0, 4096⟩ ∧ s.server.Current 2 :=
  exists_of_any (p := fun s => s.server.worker = some ⟨2, 0, 4096⟩) (by decide)
    fun _ hs hw => ⟨hw, worker_file_open hs (along_of_check (by decide)) hw⟩

/-- `Reload` closes the file that a hole still names. -/
theorem reloaded_hole_closed : ∃ s x, run step init
    (overwritten ++ [.construct .reload 2, .constructed true, .request .take]) = some s ∧
      s.server.worker = some x ∧ ¬s.server.Current x.f := by
  have hmap : (run step init
      (overwritten ++ [.construct .reload 2, .constructed true, .request .take])).map
      (fun s => (s.server.worker, s.server.isOpen 0)) = some (some ⟨0, 0, 4096⟩, false) := by decide
  obtain ⟨s, hs, heq⟩ := Option.map_eq_some_iff.1 hmap
  obtain ⟨hw, ho⟩ := Prod.mk.inj heq
  exact ⟨s, _, hs, hw, fun h => nomatch ho.symm.trans h.1⟩

end LockedServer

end Jiva
