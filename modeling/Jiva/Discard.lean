import Jiva.DataServer
import Jiva.IoReports

/-!
# A discard of no range of the volume

`Controller.Unmap` does not look at the range. It sends the request to every replica that is not in
mode `ERR`, each of them hands the range to `fallocate`, file by file above the latest snapshot of a
user, and a replica that returns an error is set to mode `ERR` and removed like one that has failed.

What the kernel refuses, it refuses on every replica (`discard_refused`), so that one request for an
empty range costs the volume all of them. What it accepts has no error (`discard_accepted`), and
changes nothing below the start of the range (`Volume.unmap_below`). `discard_harmless_iff` puts the
two together over the states that runs of the controller reach.
-/

namespace Jiva

open Hoare Controller Layered

/-- Which ranges `fallocate` refuses. A negative offset and a length that is not positive are
refused, and for a range that ends above the largest offset it is up to the kernel. -/
structure Kernel where
  refuses : ℤ → ℤ → Bool
  invalid : ∀ off len, off < 0 ∨ len ≤ 0 → refuses off len = true

/-- The kernel that refuses nothing else. -/
def Kernel.lenient : Kernel :=
  ⟨fun off len => decide (off < 0 ∨ len ≤ 0), fun _ _ h => decide_eq_true h⟩

/-! ## One volume -/

namespace Volume

/-- An error of the kernel comes up at the first file above the latest snapshot of a user. -/
theorem unmapLoop_refused (offset : ℕ) {v : Volume} : ∀ {is : List ℕ} {i : ℕ}, i ∈ is →
    v.snapIndx < i → v.file i ≠ 0 → (unmapLoop offset 0 is v).2 = some "invalid argument"
  | j :: is, i, hi, hsnap, hfile => by
    unfold unmapLoop
    split_ifs with hj
    · refine unmapLoop_refused offset ((List.mem_cons.1 hi).resolve_left ?_) hsnap hfile
      rintro rfl
      exact hj.elim (fun h => absurd hsnap (Nat.not_lt.2 h)) hfile
    · rfl

theorem unmapLoop_accepted (offset : ℕ) {len : ℕ} (hlen : len ≠ 0) :
    ∀ (is : List ℕ) (v : Volume), (unmapLoop offset len is v).2 = none
  | [], _ => rfl
  | i :: is, v => by
    unfold unmapLoop
    split_ifs
    · exact unmapLoop_accepted offset hlen is v
    · simp only [fallocatePunch, if_neg hlen]
      exact unmapLoop_accepted offset hlen is _

/-- The files of `v'` are those of `v` below byte `offset`. -/
structure SameBelow (offset : ℕ) (v v' : Volume) : Prop extends v.SameChain v' where
  data : ∀ f b, b < offset → (v'.store f).data b = (v.store f).data b
  alloc : ∀ f s, s * defaultSectorSize < offset → (v'.store f).alloc s = (v.store f).alloc s

namespace SameBelow

variable {offset : ℕ} {v v' v'' : Volume}

theorem refl (v : Volume) : SameBelow offset v v :=
  ⟨.refl v, fun _ _ _ => rfl, fun _ _ _ => rfl⟩

theorem trans (h : SameBelow offset v v') (h' : SameBelow offset v' v'') : SameBelow offset v v'' :=
  ⟨h.toSameChain.trans h'.toSameChain, fun f b hb => (h'.data f b hb).trans (h.data f b hb),
    fun f s hs => (h'.alloc f s hs).trans (h.alloc f s hs)⟩

theorem setInode (v : Volume) (f offset len : ℕ) :
    SameBelow offset v (v.setInode f ((v.store f).punchHole offset len)) := by
  have hstore : ∀ g, (v.setInode f ((v.store f).punchHole offset len)).store g =
      if g = f then (v.store g).punchHole offset len else v.store g := by
    intro g
    rw [Volume.setInode]
    dsimp only
    split_ifs with hg
    · rw [hg, Function.update_self]
    · rw [Function.update_of_ne hg]
  refine ⟨⟨rfl, rfl, rfl, rfl, rfl⟩, fun g b hb => ?_, fun g s hs => ?_⟩
  · rw [hstore]
    split_ifs
    · rw [SparseFile.punchHole_data, if_neg fun h => absurd h.1 (Nat.not_le.2 hb)]
    · rfl
  · have hout : SparseFile.inside offset len s = false := by
      rw [← Bool.not_eq_true, SparseFile.inside_iff, ← defaultSectorSize_eq]
      exact fun h => absurd h.1 (Nat.not_le.2 hs)
    rw [hstore]
    split_ifs
    · rw [SparseFile.punchHole_alloc, hout, Bool.not_false, Bool.and_true]
    · rfl

/-- The images are the same below `offset`. -/
theorem image (h : SameBelow offset v v') {b : ℕ} (hb : b < offset) : v'.image b = v.image b := by
  have hsec : b / defaultSectorSize * defaultSectorSize < offset :=
    (Nat.div_mul_le_self _ _).trans_lt hb
  have hfile : ∀ i, v'.file i = v.file i := fun i => congrArg (fun fs => fs.getD i 0) h.files
  have htarget : v'.target = v.target := congrArg (fun fs : List ℕ => fs.length - 1) h.files
  have htop : v'.topFile v'.target (b / defaultSectorSize) =
      v.topFile v.target (b / defaultSectorSize) := by
    rw [htarget]
    refine top_congr fun i _ _ => ?_
    rw [hasExtent, hasExtent, hfile, h.alloc _ _ hsec]
  rw [Volume.image, Volume.image, imageAt, imageAt, htop, hfile, h.data _ _ hb]

end SameBelow

theorem unmapLoop_below (offset len : ℕ) : ∀ (is : List ℕ) (v : Volume),
    SameBelow offset v (unmapLoop offset len is v).1
  | [], v => .refl v
  | i :: is, v => by
    unfold unmapLoop fallocatePunch
    split_ifs
    · exact unmapLoop_below offset len is v
    · exact .refl v
    · exact (SameBelow.setInode v (v.file i) offset len).trans (unmapLoop_below offset len is _)

/-- A byte that is zero in every file of the chain is zero in the image. -/
theorem image_eq_zero {v : Volume} {b : ℕ}
    (h : ∀ i, i ≠ 0 → i ≤ v.target → (v.store (v.file i)).data b = 0) : v.image b = 0 := by
  rw [image, imageAt]
  split_ifs with htop
  · rfl
  · exact h _ htop (top_le _ _ _)

theorem unmap_fst (v : Volume) (offset len : ℕ) :
    (v.unmap offset len).1 = (unmapLoop offset len (List.range v.files.length) v).1 := by
  unfold unmap
  split <;> rename_i h <;> rw [h]

theorem unmap_err (v : Volume) (offset len : ℕ) :
    (v.unmap offset len).2.2 = (unmapLoop offset len (List.range v.files.length) v).2 := by
  unfold unmap
  split <;> rename_i h <;> rw [h]

theorem unmap_below (v : Volume) (offset len : ℕ) : SameBelow offset v (v.unmap offset len).1 := by
  rw [unmap_fst]
  exact unmapLoop_below offset len _ v

end Volume

/-! ## One replica -/

namespace Served

/-- `Replica.Unmap`, where the kernel has the say on the range. -/
def discard (k : Kernel) (s : Served) (off len : ℤ) : Volume × Option String :=
  if s.readOnly then (s.volume, some "Can not sync on read-only replica")
  else if s.quorum then (s.volume, none)
  else
    let r := s.volume.unmap off.toNat (if k.refuses off len then 0 else len.toNat)
    (r.1, r.2.2)

/-- The handler of the data server is the one for the kernel that refuses nothing else. -/
theorem unmap_eq_discard (s : Served) (off len : ℤ) :
    s.unmap off len = s.discard .lenient off len := by
  have hlen : (if off < 0 then 0 else len.toNat) =
      if Kernel.lenient.refuses off len then 0 else len.toNat := by
    simp only [Kernel.lenient, decide_eq_true_eq]
    split_ifs <;> omega
  rw [unmap, discard, hlen]

/-- A data replica that is open for writing, with files of the size of the volume. -/
structure Healthy (size : ℤ) (s : Served) : Prop where
  writable : s.readOnly = false
  holdsData : s.quorum = false
  nil_file : s.volume.file 0 = 0
  nodup : s.volume.files.Nodup
  head_above : s.volume.snapIndx < s.volume.target
  file_size : ∀ i, 0 < i → i < s.volume.files.length →
    (s.volume.store (s.volume.file i)).size = size.toNat

variable {k : Kernel} {s : Served} {size off len : ℤ}

theorem Healthy.discard_eq (h : s.Healthy size) : s.discard k off len =
    ((s.volume.unmap off.toNat (if k.refuses off len then 0 else len.toNat)).1,
      (s.volume.unmap off.toNat (if k.refuses off len then 0 else len.toNat)).2.2) := by
  rw [discard, h.writable, h.holdsData]
  rfl

theorem Healthy.file_target (h : s.Healthy size) :
    s.volume.target ∈ List.range s.volume.files.length ∧ s.volume.file s.volume.target ≠ 0 := by
  have hlt : s.volume.target < s.volume.files.length := by
    have := h.head_above
    unfold DiffDisk.target at *
    omega
  have h0 : 0 < s.volume.files.length := Nat.zero_lt_of_lt hlt
  refine ⟨List.mem_range.2 hlt, fun hzero => ?_⟩
  have heq : s.volume.files[s.volume.target] = s.volume.files[0] := by
    have := hzero.trans h.nil_file.symm
    rwa [DiffDisk.file, DiffDisk.file, List.getD_eq_getElem _ _ hlt,
      List.getD_eq_getElem _ _ h0] at this
  have := (List.Nodup.getElem_inj_iff h.nodup).1 heq
  have := h.head_above
  omega

/-- A range that the kernel refuses is an error of the replica, and nothing is done. -/
theorem discard_refused (h : s.Healthy size) (hk : k.refuses off len = true) :
    s.discard k off len = (s.volume, some "invalid argument") := by
  obtain ⟨hmem, hfile⟩ := h.file_target
  rw [h.discard_eq, if_pos hk, Volume.unmap_fst, Volume.unmap_err, Volume.unmapLoop_zero,
    Volume.unmapLoop_refused _ hmem h.head_above hfile]

theorem length_pos_of_accepted (hk : k.refuses off len = false) : 0 ≤ off ∧ 0 < len := by
  have : ¬(off < 0 ∨ len ≤ 0) := fun h => Bool.false_ne_true (hk.symm.trans (k.invalid off len h))
  omega

/-- A range that the kernel accepts is no error. -/
theorem discard_accepted (h : s.Healthy size) (hk : k.refuses off len = false) :
    s.discard k off len = ((s.volume.unmap off.toNat len.toNat).1, none) := by
  have hlen : len.toNat ≠ 0 := by
    have := length_pos_of_accepted hk
    omega
  rw [h.discard_eq, if_neg (by simp [hk]), Volume.unmap_err, Volume.unmapLoop_accepted _ hlen]

/-- The image below a range is as it was. -/
theorem discard_image (k : Kernel) (s : Served) (len : ℤ) {b : ℕ} (hb : (b : ℤ) < off) :
    (s.discard k off len).1.image b = s.volume.image b := by
  unfold discard
  split_ifs
  · rfl
  · rfl
  · exact (Volume.unmap_below _ _ _).image (by omega)
  · exact (Volume.unmap_below _ _ _).image (by omega)

/-- A replica with one layer of data, all of it `1`. -/
def filled (size : ℤ) : Served where
  readOnly := false
  quorum := false
  mode := .rw
  volume :=
    { files := [0, 1]
      location := fun _ => 1
      locationLen := 0
      userCreatedSnap := [false, false]
      snapIndx := 0
      store := fun _ => ⟨size.toNat, fun _ => true, fun _ => 1, fun _ h => Bool.noConfusion h⟩
      shouldPunchHoles := false
      holeCreatorChan := []
      usedBlocks := 0
      usedLogicalBlocks := 0 }

theorem filled_healthy (size : ℤ) : (filled size).Healthy size :=
  ⟨rfl, rfl, rfl, by simp [filled], by simp [filled, DiffDisk.target], fun _ _ _ => rfl⟩

theorem filled_image (size : ℤ) (b : ℕ) : (filled size).volume.image b = 1 := by
  have htop : (filled size).volume.topFile (filled size).volume.target (b / defaultSectorSize) =
      1 := by
    rfl
  rw [Volume.image, Volume.imageAt, htop, if_neg Nat.one_ne_zero]
  rfl

/-- What is discarded of it reads as zeros. -/
theorem filled_discarded (hk : k.refuses off len = false) :
    ((filled size).discard k off len).1.image off.toNat = 0 := by
  obtain ⟨hoff, hlen⟩ := length_pos_of_accepted hk
  have hn : len.toNat ≠ 0 := by omega
  rw [discard_accepted (filled_healthy size) hk]
  have hone : ((filled size).volume.unmap off.toNat len.toNat).1 =
      (filled size).volume.setInode 1
      (((filled size).volume.store 1).punchHole off.toNat len.toNat) := by
    rw [Volume.unmap_fst]
    show (Volume.unmapLoop off.toNat len.toNat [0, 1] (filled size).volume).1 = _
    simp [Volume.unmapLoop, Volume.fallocatePunch, filled, DiffDisk.file, hn]
  rw [hone]
  refine Volume.image_eq_zero fun i hi hle => ?_
  obtain rfl : i = 1 := Nat.le_antisymm hle (Nat.one_le_iff_ne_zero.2 hi)
  show (((filled size).volume.store 1).punchHole off.toNat len.toNat).data off.toNat = 0
  rw [SparseFile.punchHole_data, if_pos ⟨le_rfl, by omega⟩]

end Served

/-- What the controller gets back from the replica. -/
def Served.discardReply (k : Kernel) (s : Served) (off len : ℤ) : Reply :=
  match (s.discard k off len).2 with
  | none => .ok
  | some e => .refused e

theorem Served.discardReply_err (k : Kernel) (s : Served) (off len : ℤ) :
    (s.discardReply k off len).err = (s.discard k off len).2 := by
  unfold discardReply
  cases (s.discard k off len).2 with
  | none => rfl
  | some e => rfl

/-! ## The controller -/

/-- What the calls of a discard come back with : first the writers `as` reply, and then it is as in
`rest`. -/
def discardTape (k : Kernel) (served : Address → Served) (off len : ℤ) (as : List Address)
    (rest : ℕ → Moment) (i : ℕ) : Moment :=
  match as[i]? with
  | some a => .of ((served a).discardReply k off len)
  | none => rest (i - as.length)

/-- `Controller.Unmap`, with the replicas at their addresses, which it reaches if it may write and
has a backend. -/
def Controller.discard (k : Kernel) (off len : ℤ) (rest : ℕ → Moment) (w : World)
    (served : Address → Served) : World × (Address → Served) :=
  ((Controller.unmap.run (w.onTape (discardTape k served off len (writerNames w.c) rest))).2,
    fun a =>
      if w.c.readOnly = false ∧ w.c.backend.backendsAvailable = true ∧ a ∈ writerNames w.c then
        { served a with volume := ((served a).discard k off len).1 }
      else served a)

/-- The range is not empty and lies inside the volume. -/
def Controller.InVolume (c : Controller) (off len : ℤ) : Prop :=
  0 ≤ off ∧ 0 < len ∧ off + len ≤ c.size

instance (c : Controller) (off len : ℤ) : Decidable (c.InVolume off len) :=
  inferInstanceAs (Decidable (_ ∧ _))

/-- Every data replica that is not in mode `ERR` is healthy. -/
def Controller.AllHealthy (c : Controller) (served : Address → Served) : Prop :=
  ∀ e ∈ c.replicas, e.mode ≠ .err → (served e.address).Healthy c.size

/-- No replica is lost or set to another mode, and every image of the volume is as it was. -/
structure Controller.Harmless (c : Controller) (served : Address → Served)
    (res : World × (Address → Served)) : Prop where
  replicas : res.1.c.replicas = c.replicas
  quorumReplicas : res.1.c.quorumReplicas = c.quorumReplicas
  image : ∀ a (b : ℕ), (b : ℤ) < c.size → (res.2 a).volume.image b = (served a).volume.image b

section

variable {k : Kernel} {served : Address → Served} {off len : ℤ} {w : World} {rest : ℕ → Moment}

/-- The writers that fail are those that return an error. -/
theorem mem_failing_discard {as : List Address} {a : Address} :
    a ∈ failing as (w.onTape (discardTape k served off len as rest)) ↔
      a ∈ as ∧ ((served a).discard k off len).2 ≠ none := by
  have hreply : ∀ i, as[i]? = some a →
      ((w.onTape (discardTape k served off len as rest)).tape i).reply.err =
        ((served a).discard k off len).2 := by
    intro i hi
    show (discardTape k served off len as rest i).reply.err = _
    rw [discardTape, hi]
    exact Served.discardReply_err k (served a) off len
  rw [mem_failing]
  constructor
  · rintro ⟨i, hi, herr⟩
    exact ⟨List.mem_of_getElem? hi, by rwa [← hreply i hi]⟩
  · rintro ⟨ha, herr⟩
    obtain ⟨i, hi⟩ := List.mem_iff_getElem?.1 ha
    exact ⟨i, hi, by rwa [hreply i hi]⟩

section

variable (hw : Mirrored w.c)
include hw

/-- A discard that is not sent changes nothing. -/
theorem unmap_unsent (h : w.c.readOnly = true ∨ countRW w.c.replicas = 0) :
    Triple (fun s => s = w) Controller.unmap fun _ s => s.c = w.c := by
  refine .get ?_
  rintro w rfl
  refine .ite (fun _ => .pure fun s hs => hs ▸ rfl) fun hro => ?_
  have havail := unavailable hw (h.resolve_left hro)
  refine .bind (Q := fun res s => res = (-1, some errNoBackend) ∧ s.c = w.c) (.get ?_)
    fun res => .fix fun w₁ h₁ => ?_
  · rintro w rfl
    exact .ite (fun _ => .pure fun s hs => ⟨rfl, hs ▸ rfl⟩) fun hne => (hne havail).elim
  · obtain ⟨rfl, hc⟩ := h₁
    rintro s rfl
    exact hc

/-- What the replicator gets back from the writers. -/
theorem replicatorUnmap_run (hrw : countRW w.c.replicas ≠ 0) :
    ∃ n, Replicator.unmap.run w = (if failures w = 0 then (0, none)
        else (n, some (w.c.backend.backendError ⟨replies w (writerNames w.c).length, []⟩)),
      sent id (writerNames w.c) w) := by
  have hrun : Replicator.unmap.run w = (do
      let res ← w.c.backend.writers.toAll id
      pure (res.1, res.2.map w.c.backend.backendError) : Ctl (ℤ × Option Err)).run w := by
    have havail := (available_iff hw).2 hrw
    change (if w.c.backend.backendsAvailable = false then _ else _ : Ctl _).run w = _
    rw [if_neg (by simp [havail])]
    rfl
  have hws : (each (fun r : Remote => request r.name id) w.c.backend.writers.writers).run w =
      (replies w (writerNames w.c).length, sent id (writerNames w.c) w) := by
    rw [each_request, writerNames, replies, List.length_map]
  have hcount : errCount (replies w (writerNames w.c).length) = failures w := by
    rw [failures, length_failing]
  by_cases hzero : failures w = 0
  · refine ⟨0, ?_⟩
    rw [hrun, MultiWriterAt.toAll, bind_assoc, run_bind hws, hcount, hzero, if_neg (lt_irrefl 0),
      if_pos rfl]
    rfl
  · refine ⟨if Majority w.c.backend.writers.writers.length (failures w) then 0 else -1, ?_⟩
    rw [hrun, MultiWriterAt.toAll, bind_assoc, run_bind hws, hcount,
      if_pos (Nat.pos_of_ne_zero hzero), if_neg hzero]
    split <;> rfl

/-- A discard that is sent removes exactly the replicas that fail it. -/
theorem unmap_sent (hro : w.c.readOnly = false) (hrw : countRW w.c.replicas ≠ 0) :
    Triple (fun s => s = w) Controller.unmap fun _ s => (failing (writerNames w.c) w = [] →
      s.c = w.c) ∧
    ∀ e ∈ s.c.replicas, e.address ∉ failing (writerNames w.c) w := by
  obtain ⟨n, hrun⟩ := replicatorUnmap_run hw hrw
  refine .get ?_
  rintro w rfl
  refine .ite (fun h => (Bool.false_ne_true (hro ▸ h)).elim) fun _ => ?_
  refine .bind (Triple.result w) fun res => .fix fun w₁ h₁ => ?_
  rw [hrun, Prod.mk.injEq] at h₁
  obtain ⟨hres, rfl⟩ := h₁
  by_cases hzero : failures w = 0
  · have hnil : failing (writerNames w.c) w = [] := List.eq_nil_of_length_eq_zero hzero
    rw [if_pos hzero] at hres
    subst hres
    refine .pure ?_
    rintro s rfl
    rw [hnil]
    exact ⟨fun _ => sent_c _ _ _, fun _ _ => List.not_mem_nil⟩
  · rw [if_neg hzero] at hres
    subst hres
    have hmir : Mirrored (sent id (writerNames w.c) w).c := by rwa [sent_c]
    refine .bind (handleIOError_dropped hmir _) fun errh => ?_
    refine .ite (fun _ => .pure ?_) fun _ => .pure ?_
    all_goals
      rintro s ⟨w₂, -, h₃⟩
      refine ⟨fun hnil => (hzero (by rw [failures, hnil, List.length_nil])).elim, fun e he => ?_⟩
      rw [← failedReplicas_backendError hw w]
      exact ((h₃.replicas e).1 he).2

theorem harmless_unsent (h : w.c.readOnly = true ∨ countRW w.c.replicas = 0) :
    w.c.Harmless served (Controller.discard k off len rest w served) := by
  have hc : (Controller.discard k off len rest w served).1.c = w.c :=
    unmap_unsent (w := w.onTape (discardTape k served off len (writerNames w.c) rest)) hw h _ rfl
  refine ⟨congrArg replicas hc, congrArg quorumReplicas hc, fun a b _ => ?_⟩
  show (if _ then _ else served a : Served).volume.image b = _
  rw [if_neg]
  rintro ⟨hro, havail, -⟩
  rcases h with h | h
  · exact Bool.false_ne_true (hro.symm.trans h)
  · exact (available_iff hw).1 havail h

/-- A range that starts at the end of the volume or above it is accepted by all replicas or none. -/
theorem harmless_beyond (hs : w.c.AllHealthy served) (hk : k.refuses off len = false)
    (hoff : w.c.size ≤ off) : w.c.Harmless served (Controller.discard k off len rest w served) := by
  by_cases hsent : w.c.readOnly = true ∨ countRW w.c.replicas = 0
  · exact harmless_unsent hw hsent
  rw [not_or, Bool.not_eq_true] at hsent
  obtain ⟨hkept, -⟩ :=
    unmap_sent (w := w.onTape (discardTape k served off len (writerNames w.c) rest))
    hw hsent.1 hsent.2 _ rfl
  have hnil : failing (writerNames w.c)
      (w.onTape (discardTape k served off len (writerNames w.c) rest)) = [] := by
    refine List.eq_nil_iff_forall_not_mem.2 fun a ha => ?_
    obtain ⟨hmem, herr⟩ := mem_failing_discard.1 ha
    obtain ⟨m, hm, he⟩ := (mem_writerNames hw).1 hmem
    exact herr (congrArg Prod.snd (Served.discard_accepted (hs ⟨a, m⟩ he hm) hk))
  have hc : (Controller.discard k off len rest w served).1.c = w.c := hkept hnil
  refine ⟨congrArg replicas hc, congrArg quorumReplicas hc, fun a b hb => ?_⟩
  show (if _ then _ else served a : Served).volume.image b = _
  split_ifs
  · exact Served.discard_image k (served a) len (by omega)
  · rfl

/-- A range that the kernel refuses costs every replica that is in mode `RW`. -/
theorem removed_of_refused (hs : w.c.AllHealthy served)
    (hk : k.refuses off len = true) (hro : w.c.readOnly = false) {a : Address}
    (ha : ⟨a, .rw⟩ ∈ w.c.replicas) :
    ∀ e ∈ (Controller.discard k off len rest w served).1.c.replicas, e.address ≠ a := by
  have hrw : countRW w.c.replicas ≠ 0 := countRW_ne_zero ha rfl
  obtain ⟨-, hgone⟩ :=
    unmap_sent (w := w.onTape (discardTape k served off len (writerNames w.c) rest))
    hw hro hrw _ rfl
  rintro e he rfl
  refine hgone e he (mem_failing_discard.2 ⟨(mem_writerNames hw).2 ⟨.rw, by decide, ha⟩, ?_⟩)
  rw [Served.discard_refused (hs _ ha nofun) hk]
  nofun

end

end

/-- A discard of what is no range of the volume does no harm to healthy replicas, whatever they
hold, exactly if it is not sent, or if the kernel accepts the range and it starts behind the
volume. -/
theorem discard_harmless_iff (name : String) (rf : ℕ) (nodes : Address → Node)
    (ls : List (Op × (ℕ → Moment))) (s : System)
    (h : Transition.run System.step (System.new name rf nodes) ls = some s)
    (k : Kernel) (off len : ℤ) (rest : ℕ → Moment) :
    (∀ served, s.world.c.AllHealthy served → ¬s.world.c.InVolume off len →
      s.world.c.Harmless served (Controller.discard k off len rest s.world served)) ↔
    s.world.c.readOnly = true ∨ countRW s.world.c.replicas = 0 ∨ s.world.c.InVolume off len ∨
      (k.refuses off len = false ∧ s.world.c.size ≤ off) := by
  have hw : Mirrored s.world.c := System.mirrored_of_run h
  generalize s.world = w at hw
  constructor
  · intro hall
    by_contra hnot
    obtain ⟨hro, hrw, hin, hbeyond⟩ : w.c.readOnly = false ∧ countRW w.c.replicas ≠ 0 ∧
        ¬w.c.InVolume off len ∧ ¬(k.refuses off len = false ∧ w.c.size ≤ off) := by
      simpa [not_or] using hnot
    obtain ⟨⟨a, m⟩, ha, hm⟩ := List.countP_pos_iff.1 (Nat.pos_of_ne_zero hrw)
    obtain rfl : m = .rw := by simpa using hm
    -- replicas that hold ones show every byte that is lost
    have hs : w.c.AllHealthy fun _ => .filled w.c.size := fun _ _ _ => Served.filled_healthy _
    have hharm := hall _ hs hin
    cases hk : k.refuses off len with
    | true =>
      exact removed_of_refused hw hs hk hro ha ⟨a, .rw⟩ (hharm.replicas ▸ ha) rfl
    | false =>
      have hoff := (Served.length_pos_of_accepted hk).1
      have hlt : (off.toNat : ℤ) < w.c.size := by
        have : ¬w.c.size ≤ off := fun hle => hbeyond ⟨hk, hle⟩
        omega
      have himage := hharm.image a off.toNat hlt
      have hsent : w.c.readOnly = false ∧ w.c.backend.backendsAvailable = true ∧
          a ∈ writerNames w.c :=
        ⟨hro, (available_iff hw).2 hrw, (mem_writerNames hw).2 ⟨.rw, by decide, ha⟩⟩
      simp only [Controller.discard, if_pos hsent, Served.filled_discarded hk,
        Served.filled_image] at himage
      exact absurd himage (by decide)
  · rintro (hro | hrw | hin | ⟨hk, hoff⟩) served hs hnot
    · exact harmless_unsent hw (.inl hro)
    · exact harmless_unsent hw (.inr hrw)
    · exact (hnot hin).elim
    · exact harmless_beyond hw hs hk hoff

/-- The discard of a sector behind the volume. -/
theorem discard_harmless_iff_behind : ∃ s,
    Transition.run System.step (System.new "vol" 2 fun _ => .blank) (System.calmly rebuildOne) =
      some s ∧
    s.world.c.replicas = [⟨"tcp://a:9502", .rw⟩, ⟨"tcp://b:9502", .rw⟩] ∧
    ¬s.world.c.InVolume 4096 4096 ∧
    ∀ served, s.world.c.AllHealthy served →
      s.world.c.Harmless served (Controller.discard .lenient 4096 4096
        (fun _ => .calm) s.world served) := by
  refine Transition.exists_of_any (p := fun s =>
    s.world.c.replicas = [⟨"tcp://a:9502", .rw⟩, ⟨"tcp://b:9502", .rw⟩] ∧ s.world.c.size = 4096)
    (by decide +kernel) ?_
  rintro s hs ⟨hreps, hsize⟩
  have hin : ¬s.world.c.InVolume 4096 4096 := by
    rw [InVolume, hsize]
    decide
  exact ⟨hreps, hin, fun served hserved =>
    (discard_harmless_iff _ _ _ _ s hs .lenient 4096 4096 fun _ => .calm).2
      (.inr (.inr (.inr ⟨rfl, Int.le_of_eq hsize⟩))) served hserved hin⟩

/-- One discard of length `0` at the start of a volume of two replicas in mode `RW` : both are
removed. -/
theorem emptyDiscard_removes_all : ∃ s,
    Transition.run System.step (System.new "vol" 2 fun _ => .blank) (System.calmly rebuildOne) =
      some s ∧
    s.world.c.replicas = [⟨"tcp://a:9502", .rw⟩, ⟨"tcp://b:9502", .rw⟩] ∧
    s.world.c.AllHealthy (fun _ => .filled 4096) ∧ ¬s.world.c.InVolume 0 0 ∧
    (Controller.discard .lenient 0 0 (fun _ => .calm) s.world fun _ => .filled 4096).1.c.replicas =
      [] ∧
    ¬s.world.c.Harmless (fun _ => .filled 4096)
      (Controller.discard .lenient 0 0 (fun _ => .calm) s.world fun _ => .filled 4096) := by
  refine Transition.exists_of_any (p := fun s =>
    s.world.c.replicas = [⟨"tcp://a:9502", .rw⟩, ⟨"tcp://b:9502", .rw⟩] ∧ s.world.c.size = 4096 ∧
    (Controller.discard .lenient 0 0 (fun _ => .calm) s.world fun _ => .filled 4096).1.c.replicas =
      [])
    (by decide +kernel) ?_
  rintro s - ⟨hreps, hsize, hgone⟩
  refine ⟨hreps, fun _ _ _ => hsize ▸ Served.filled_healthy _, fun hin => ?_, hgone,
    fun hharm => ?_⟩
  · exact absurd hin.2.1 (by decide)
  · have hsame := hharm.replicas
    rw [hgone, hreps] at hsame
    cases hsame

end Jiva
