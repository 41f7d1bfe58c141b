import Jiva.Live

/-!
# User-created snapshots do not change

`LiveInv` is the invariant of a live replica : the flags say where the user-created
snapshots are, every waiting hole is safe for the images of these snapshots and of the
active layer, and the tables are right up to discarded extents. Every step keeps it, and
keeps the image at every user-created snapshot, except for two kinds of steps (`Allowed`) :
a write whose pending run is sent off as a hole in a file at or below the latest
user-created snapshot (`CrossFlush`), and a user-created snapshot taken while an
`UpdateLUNMap` runs, which merges with the flags it copied before.

`userSnapshot_immutable` is the result for whole runs, and `userSnapshot_destroyed` a run
with one write of the first kind that loses the data of a user-created snapshot.
-/

namespace Jiva

open Layered Volume

variable {v' : Volume} {sc : Scan} {f s u : ℕ} {l' : Live}

namespace Live

variable {l : Live}

/-- The extent scan of a running `UpdateLUNMap`, beside the live volume. -/
structure LunOk (l : Live) (sc : Scan) : Prop where
  scan : ScanOk l.v l.viewers sc
  pos : 0 < sc.i
  le : sc.i ≤ sc.d.files.length
  done : sc.d.target < sc.i → sc.s = 0
  two_le : 2 ≤ sc.d.files.length
  locationLen : sc.d.locationLen = l.v.locationLen
  flagsLen : sc.d.userCreatedSnap.length = sc.d.files.length
  flags : ∀ u, l.isUser u = true → sc.d.flagged u = true ∨ sc.d.flagged (u + 1) = true
  table : LunTable l.v sc

/-- The invariant of a live replica. -/
structure LiveInv (l : Live) : Prop where
  chainOk : l.v.ChainOk
  userLen : l.userCreated.length = l.v.files.length
  headNot : l.isUser l.v.target = false
  snapMax : ∀ u, l.isUser u = true → u ≤ l.v.snapIndx
  snapUser : l.v.snapIndx ≠ 0 → l.isUser l.v.snapIndx = true
  flagsLen : l.v.userCreatedSnap.length = l.v.files.length
  flags : ∀ u, l.isUser u = true → l.v.flagged u = true ∨ l.v.flagged (u + 1) = true
  queue : l.v.QueueOk l.viewers
  table : l.v.TableOk
  lun : ∀ sc, l.lun = some sc → l.LunOk sc

/-- The image at every user-created snapshot is kept. -/
def Keeps (l l' : Live) : Prop :=
  ∀ u, l.isUser u = true → l'.isUser u = true ∧ l'.v.imageAt u = l.v.imageAt u

/-- A write without `CrossFlush`, and no user-created snapshot while an `UpdateLUNMap` runs. -/
def Allowed (l : Live) : Op → Prop
  | .write buf offset =>
    ¬l.v.CrossFlush (wholeFrom offset buf.length) (wholeLen offset buf.length)
  | .snapshot _ userCreated => userCreated = true → l.lun = none
  | _ => True

theorem Keeps.refl (l : Live) : l.Keeps l :=
  fun _ hu => ⟨hu, rfl⟩

theorem Keeps.trans {l'' : Live} (h : l.Keeps l') (h' : l'.Keeps l'') : l.Keeps l'' := by
  intro u hu
  obtain ⟨hu', himg⟩ := h u hu
  obtain ⟨hu'', himg'⟩ := h' u hu'
  exact ⟨hu'', himg'.trans himg⟩

theorem isUser_new (sectors f : ℕ) : ∀ u, (Live.new sectors f).isUser u = false
  | 0 => rfl
  | 1 => rfl
  | _ + 2 => rfl

namespace LiveInv

variable {l : Live}

theorem isUser_lt (h : l.LiveInv) (hu : l.isUser u = true) : u < l.v.target := by
  have hlen : u < l.v.files.length := by
    by_contra hge
    unfold isUser at hu
    rw [List.getD_eq_default _ _ (by rw [h.userLen]; omega)] at hu
    cases hu
  have htv : l.v.target = l.v.files.length - 1 := rfl
  rcases eq_or_ne u l.v.target with rfl | hne
  · rw [h.headNot] at hu
    cases hu
  · omega

theorem snapIndx_lt (h : l.LiveInv) : l.v.snapIndx < l.v.target := by
  rcases eq_or_ne l.v.snapIndx 0 with h0 | h0
  · rw [h0]
    exact h.chainOk.target_pos
  · exact h.isUser_lt (h.snapUser h0)

theorem viewer_snapIndx (h : l.LiveInv) (h0 : l.v.snapIndx ≠ 0) : l.viewers l.v.snapIndx :=
  Or.inl (h.snapUser h0)

theorem scan_target_le (h : l.LiveInv) (hsc : l.lun = some sc) : sc.d.target ≤ l.v.target :=
  Nat.sub_le_sub_right (h.lun sc hsc).scan.files_le 1

/-- The entries of a running scan name files of its chain. -/
theorem scan_location_le_target (hl : l.LunOk sc) (s : ℕ) : sc.d.location s ≤ sc.d.target := by
  have hle := hl.le
  have htv : sc.d.target = sc.d.files.length - 1 := rfl
  have := hl.two_le
  rcases Nat.lt_or_ge sc.d.target sc.i with hdone | hrun
  · have := hl.scan.below s hl.pos (by rw [hl.done hdone]; omega)
    omega
  · have := hl.scan.upto s
    omega

theorem scan_location_le (h : l.LiveInv) (hsc : l.lun = some sc) (s : ℕ) :
    sc.d.location s ≤ l.v.target :=
  (scan_location_le_target (h.lun sc hsc) s).trans (h.scan_target_le hsc)

theorem viewers_files (hfiles : v'.files = l.v.files) (lun : Option Scan) :
    viewers { l with v := v', lun := lun } = viewers l := by
  funext u
  unfold viewers DiffDisk.target
  rw [hfiles]
  rfl

/-- The invariant after a step that leaves the chain alone. -/
theorem of_files (lun : Option Scan) (h : l.LiveInv)
    (hfiles : v'.files = l.v.files) (hsnap : v'.snapIndx = l.v.snapIndx)
    (hflagsLen : v'.userCreatedSnap.length = l.v.files.length)
    (hflags : ∀ u, l.isUser u = true → v'.flagged u = true ∨ v'.flagged (u + 1) = true)
    (hc : v'.ChainOk) (hq : v'.QueueOk l.viewers) (ht : v'.TableOk)
    (hlun : ∀ sc, lun = some sc → LunOk { l with v := v', lun := lun } sc) :
    LiveInv { l with v := v', lun := lun } where
  chainOk := hc
  userLen := by rw [hfiles]; exact h.userLen
  headNot := by
    unfold DiffDisk.target
    rw [hfiles]
    exact h.headNot
  snapMax u hu := by rw [hsnap]; exact h.snapMax u hu
  snapUser h0 := by
    rw [hsnap] at h0 ⊢
    exact h.snapUser h0
  flagsLen := by rw [hflagsLen, hfiles]
  flags := hflags
  queue := by rw [viewers_files hfiles]; exact hq
  table := ht
  lun := hlun

end LiveInv

theorem LunOk.of_lun (h : l.LunOk sc) (lun : Option Scan) : LunOk { l with lun := lun } sc :=
  ⟨h.scan, h.pos, h.le, h.done, h.two_le, h.locationLen, h.flagsLen, h.flags, h.table⟩

/-- A running scan beside a step that leaves the chain alone. -/
theorem LunOk.of_files (h : l.LunOk sc) (hfiles : v'.files = l.v.files)
    (hlen : v'.locationLen = l.v.locationLen) (hok : ∀ f s, l.v.HoleOk l.viewers f s →
      v'.HoleOk l.viewers f s)
    (hlun : LunTable v' sc) : LunOk { l with v := v' } sc := by
  refine ⟨?_, h.pos, h.le, h.done, h.two_le, h.locationLen.trans hlen.symm, h.flagsLen,
    h.flags, hlun⟩
  rw [LiveInv.viewers_files hfiles]
  refine h.scan.mono (fun i _ => ?_) (by rw [hfiles]) (fun _ hu _ => hu) hok
  unfold DiffDisk.file
  rw [hfiles]

namespace LiveInv

variable {l : Live}
variable {k : ℕ}

/-- The invariant after a step that leaves the chain and its flags alone. -/
theorem of_same (h : l.LiveInv) (hsame : l.v.SameChain v') (hc : v'.ChainOk)
    (hq : v'.QueueOk l.viewers) (ht : v'.TableOk) (hok : ∀ f s, l.v.HoleOk l.viewers f s →
      v'.HoleOk l.viewers f s)
    (hlun : ∀ sc, l.lun = some sc → LunTable v' sc) : LiveInv { l with v := v' } := by
  refine h.of_files l.lun hsame.files hsame.snapIndx ?_ (fun u hu => ?_) hc hq ht
    fun sc hsc => (h.lun sc hsc).of_files hsame.files hsame.locationLen hok (hlun sc hsc)
  · rw [hsame.userCreatedSnap, h.flagsLen]
  · unfold DiffDisk.flagged
    rw [hsame.userCreatedSnap]
    exact h.flags u hu

theorem fills (h : l.LiveInv) (hf : l.v.Fills v') : LiveInv { l with v := v' } := by
  exact h.of_same hf.sameChain (hf.chainOk h.chainOk) (h.queue.fills hf)
    (h.table.fills h.chainOk hf) (fun f s hok => hok.fills hf) fun sc hsc =>
      (h.lun sc hsc).table.fills hf

theorem fullWrite {n : ℕ} (h : l.LiveInv) (hin : k + n ≤ l.v.locationLen)
    (hx : ¬l.v.CrossFlush k n) (he : FullEffect l.v v' k n) : LiveInv { l with v := v' } := by
  refine h.of_same he.same (he.chainOk h.chainOk) ?_ (h.table.write he)
    (fun f s hok => hok.write he) fun sc hsc =>
      (h.lun sc hsc).table.write he (h.scan_location_le hsc) h.snapIndx_lt
  refine h.queue.write h.chainOk h.table.locationLe hin (fun u hu hut => ⟨?_, hx⟩) he
  rcases hu with hu | rfl
  · exact h.snapMax u hu
  · omega

/-- The images below the active layer do not see a write. -/
theorem imageAt_fullWrite {v : Volume} {n : ℕ} (hc : v.ChainOk) (he : FullEffect v v' k n)
    (hu : u < v.target) : v'.imageAt u = v.imageAt u := by
  have htl := hc.target_lt
  refine imageAt_congr (fun i _ => he.same.file i) fun i hi => he.others _ fun hf => ?_
  have := hc.file_inj (by omega) htl hf
  omega

theorem write {buf : List Byte} {offset : ℕ} (h : l.LiveInv) (hin : offset + buf.length ≤ l.v.size)
    (hx : ¬l.v.CrossFlush (wholeFrom offset buf.length) (wholeLen offset buf.length)) :
    LiveInv { l with v := (l.v.writeAt Dev.ok buf offset).v } ∧
    l.Keeps { l with v := (l.v.writeAt Dev.ok buf offset).v } := by
  have hr := writeAt_ind (X := True)
    (P := fun v' => LiveInv { l with v := v' } ∧ l.Keeps { l with v := v' }) h.chainOk hin
    (fun _ => hx) ?_ ?_ ⟨h, Keeps.refl l⟩
  · exact hr.inv
  · rintro u u' ⟨hI, hK⟩ _ hf
    refine ⟨LiveInv.fills (l := { l with v := u }) hI hf, hK.trans fun w hw => ⟨hw, ?_⟩⟩
    obtain ⟨t, rfl, -⟩ := hf
    rfl
  · rintro u u' k n ⟨hI, hK⟩ hc hkn hcf he
    refine ⟨LiveInv.fullWrite (l := { l with v := u }) hI hkn (hcf trivial) he,
      hK.trans fun w hw => ⟨hw, ?_⟩⟩
    exact imageAt_fullWrite hc he (hI.isUser_lt hw)

theorem read (h : l.LiveInv) (buf : List Byte) (offset : ℕ) :
    LiveInv { l with v := (l.v.readAt Dev.ok buf offset).v } ∧
    l.Keeps { l with v := (l.v.readAt Dev.ok buf offset).v } := by
  have hf := readAt_fills Dev.ok h.chainOk buf offset
  refine ⟨h.fills hf, fun u hu => ⟨hu, ?_⟩⟩
  obtain ⟨t, ht, -⟩ := hf
  show (l.v.readAt Dev.ok buf offset).v.imageAt u = _
  rw [ht]
  rfl

theorem punch (h : l.LiveInv) (hk : l.v.createHole k = some v') :
    LiveInv { l with v := v' } ∧ l.Keeps { l with v := v' } := by
  have hstep := h.queue.createHole h.chainOk hk
  have htl := h.chainOk.target_lt
  refine ⟨h.of_same hstep.same hstep.chainOk hstep.queueOk ?_ hstep.holeOk fun sc hsc => ?_,
    fun u hu => ⟨hu, hstep.imageAt u (.inl hu) (h.isUser_lt hu).le⟩⟩
  · refine h.table.lose hstep.same hstep.location
      (fun i s hi => hstep.hasExtent_le i s (by omega)) fun s hs h0 hext hext' => ?_
    -- the file of an entry is the highest one, so a safe hole is not in it
    obtain ⟨h1, h2, -⟩ := h.table s hs h0
    obtain ⟨j, hj, hjt, hje⟩ := (hstep.lost _ s (by omega) hext hext').hidden hext l.v.target
      (.inr rfl) h1 le_rfl
    have := le_top l.v.hasExtent hjt hje (by omega)
    unfold topFile at h2
    omega
  · exact (h.lun sc hsc).table.holeStep hstep h.chainOk (h.scan_location_le hsc) (.inr rfl)
      h.viewer_snapIndx h.snapIndx_lt

/-- `Unmap` frees no extent at or below the latest user-created snapshot, and everything in the
range above it. -/
theorem holeOk_unmap {offset len : ℕ} (h : l.LiveInv)
    (he : PunchEffect l.v v' (fun i => l.v.snapIndx < i) offset len)
    (hok : l.v.HoleOk l.viewers f s) : v'.HoleOk l.viewers f s := by
  have htl := h.chainOk.target_lt
  have hlt := hok.lt
  have hpos := hok.pos
  refine ⟨hpos, by rwa [he.same.target], fun hext' u hu hfu hut => ?_⟩
  rw [he.same.target] at hut
  have hext := he.hasExtent_le (by omega) hext'
  obtain ⟨j, hfj, hju, hj⟩ := hok.hidden hext u hu hfu hut
  cases hj' : v'.hasExtent j s with
  | true => exact ⟨j, hfj, hju, hj'⟩
  | false =>
    rw [he.hasExtent (by omega), hj] at hj'
    obtain ⟨hsj, hin⟩ : l.v.snapIndx < j ∧ SparseFile.inside offset len s = true := by
      simpa using hj'
    rw [he.hasExtent (by omega), hext, hin] at hext'
    have hfs : f ≤ l.v.snapIndx := by simpa using hext'
    -- the latest user-created snapshot sees a file that hides this one and that is kept
    obtain ⟨j', hfj', hju', hj'⟩ :=
      hok.hidden hext _ (h.viewer_snapIndx (by omega)) hfs h.snapIndx_lt.le
    refine ⟨j', hfj', by omega, ?_⟩
    rw [he.hasExtent (by have := h.snapIndx_lt; omega), hj', decide_eq_false (by omega)]
    rfl

theorem unmap (h : l.LiveInv) (offset len : ℕ) :
    LiveInv { l with v := (l.v.unmap offset len).1 } ∧
    l.Keeps { l with v := (l.v.unmap offset len).1 } := by
  obtain ⟨he, hchan⟩ := unmap_effect h.chainOk offset len
  have htl := h.chainOk.target_lt
  have hok := fun f s => h.holeOk_unmap (f := f) (s := s) he
  refine ⟨h.of_same he.same (he.chainOk h.chainOk) (fun hole hh => ?_) ?_ hok fun sc hsc =>
    (h.lun sc hsc).table.unmap h.chainOk he (h.scan_location_le hsc) h.snapIndx_lt,
    fun u hu => ⟨hu, ?_⟩⟩
  · rw [hchan] at hh
    exact (h.queue hole hh).mono hok (fun i _ => he.same.file i) (by rw [he.same.files])
  · refine h.table.lose he.same he.location
      (fun i s hi => he.hasExtent_le (by omega)) fun s hs h0 hext hext' f hf hfl => ?_
    have hle := (h.table s hs h0).le_target
    rw [he.hasExtent (by omega), hext] at hext'
    rw [he.hasExtent (by omega), decide_eq_true hf]
    obtain ⟨-, hin⟩ : l.v.snapIndx < l.v.location s ∧ SparseFile.inside offset len s = true := by
      simpa using hext'
    simp [hin]
  · -- the files of the image are at or below the latest user-created snapshot
    have hus := h.snapMax u hu
    have hlt := h.isUser_lt hu
    exact imageAt_congr (fun i _ => he.same.file i) fun i hi => by
      rw [he.store i (by omega), if_neg (by omega)]

/-! ## Snapshots and reopening -/

theorem isUser_snapshotted (h : l.LiveInv) (f : ℕ) (userCreated : Bool) (u : ℕ) :
    (snapshotted l f userCreated).isUser u =
      if u = l.v.target then userCreated else l.isUser u := by
  have htl := h.chainOk.target_lt
  have hlen := h.userLen
  have htv : l.v.target = l.v.files.length - 1 := rfl
  unfold isUser snapshotted
  simp only [List.getD_eq_getElem?_getD]
  rcases eq_or_ne u l.v.target with rfl | hne
  · rw [if_pos rfl, List.getElem?_append_left (by rw [List.length_set]; omega),
      List.getElem?_set_self (by omega)]
    rfl
  · rw [if_neg hne]
    rcases Nat.lt_or_ge u l.userCreated.length with hu | hu
    · rw [List.getElem?_append_left (by rwa [List.length_set]), List.getElem?_set_ne hne.symm]
    · rw [List.getElem?_eq_none hu, List.getElem?_append_right (by rwa [List.length_set])]
      cases u - (l.userCreated.set l.v.target userCreated).length <;> rfl

theorem flagged_appendHead (v : Volume) (f : ℕ) (userCreated : Bool) (u : ℕ) :
    (v.appendHead f userCreated).flagged u =
      if u = v.userCreatedSnap.length then userCreated else v.flagged u := by
  unfold DiffDisk.flagged appendHead
  simp only [List.getD_eq_getElem?_getD]
  rcases Nat.lt_trichotomy u v.userCreatedSnap.length with hu | rfl | hu
  · rw [List.getElem?_append_left hu, if_neg (by omega)]
  · simp
  · rw [if_neg (by omega), List.getElem?_eq_none (by simp; omega), List.getElem?_eq_none hu.le]

theorem snapshot {userCreated : Bool} (h : l.LiveInv) (hf : f ∉ l.v.files)
    (hlen : l.v.files.length < 65536) (hlun : userCreated = true → l.lun = none) :
    (snapshotted l f userCreated).LiveInv ∧ l.Keeps (snapshotted l f userCreated) := by
  have htl := h.chainOk.target_lt
  have hpos : 0 < l.v.files.length := by omega
  have htv : l.v.target = l.v.files.length - 1 := rfl
  have huser := h.isUser_snapshotted f userCreated
  have hflag := flagged_appendHead l.v f userCreated
  have htarget : (snapshotted l f userCreated).v.target = l.v.target + 1 :=
    appendHead_target _ _ _ hpos
  have hsnap : (snapshotted l f userCreated).v.snapIndx =
      if userCreated then l.v.target else l.v.snapIndx := by
    show (if userCreated then (l.v.files ++ [f]).length - 2 else l.v.snapIndx) = _
    rw [List.length_append, List.length_singleton]
    split_ifs <;> omega
  have hV : ∀ u, (snapshotted l f userCreated).viewers u → u ≤ l.v.target → l.viewers u := by
    rintro u (hu | hu) hle
    · rw [huser] at hu
      split_ifs at hu with heq
      · exact .inr heq
      · exact .inl hu
    · omega
  have hok : ∀ g s, l.v.HoleOk l.viewers g s →
      (l.v.appendHead f userCreated).HoleOk (snapshotted l f userCreated).viewers g s :=
    fun g s hok => hok.appendHead hf hpos (.inr rfl) hV
  have hfiles : l.v.files.length ≤ (l.v.appendHead f userCreated).files.length := by
    simp [appendHead]
  refine ⟨⟨appendHead_chainOk h.chainOk hf hlen, ?_, ?_, fun u hu => ?_, fun h0 => ?_, ?_,
    fun u hu => ?_, fun hole hh => ?_, h.table.appendHead h.chainOk hf h.snapIndx_lt.le,
    fun sc hsc => ?_⟩, fun u hu => ⟨?_, ?_⟩⟩
  · simp [snapshotted, appendHead, h.userLen]
  · rw [htarget, huser, if_neg (by omega)]
    by_contra hne
    have := h.isUser_lt (by simpa using hne)
    omega
  · rw [huser] at hu
    rw [hsnap]
    have hlt := h.snapIndx_lt
    split_ifs at hu with heq
    · rw [if_pos hu, heq]
    · have := h.snapMax u hu
      split_ifs <;> omega
  · rw [hsnap] at h0 ⊢
    rw [huser]
    have hlt := h.snapIndx_lt
    split_ifs at h0 ⊢ with hu heq heq
    · exact hu
    · exact absurd rfl heq
    · omega
    · exact h.snapUser h0
  · simp [snapshotted, appendHead, h.flagsLen]
  · rw [huser] at hu
    show (l.v.appendHead f userCreated).flagged u = true ∨
      (l.v.appendHead f userCreated).flagged (u + 1) = true
    rw [hflag, hflag, h.flagsLen]
    split_ifs at hu with heq
    · exact .inr (by rw [if_pos (by omega), hu])
    · have hlt := h.isUser_lt hu
      rw [if_neg (by omega), if_neg (by omega)]
      exact h.flags u hu
  · exact (h.queue hole hh).mono hok (fun i hi => appendHead_file_of_lt hi) hfiles
  · have hl := h.lun sc hsc
    obtain rfl : userCreated = false := by
      by_contra hne
      have := hlun (by simpa using hne)
      rw [show l.lun = some sc from hsc] at this
      cases this
    have hsct := h.scan_target_le hsc
    refine ⟨hl.scan.mono (fun i hi => appendHead_file_of_lt hi) hfiles
      (fun u hu hut => hV u hu (by omega)) hok, hl.pos, hl.le, hl.done, hl.two_le, hl.locationLen,
      hl.flagsLen, fun u hu => hl.flags u ?_, hl.table.appendHead hf h.chainOk hsct
        (h.scan_location_le hsc) h.snapIndx_lt⟩
    rw [huser] at hu
    split_ifs at hu
    exact hu
  · rw [huser, if_neg (h.isUser_lt hu).ne, hu]
  · exact appendHead_imageAt hf ((h.isUser_lt hu).trans htl)

/-- The latest flag of the disks is the latest user-created snapshot of the table. -/
theorem lastUserCreated_eq (h : l.LiveInv) :
    DiffDisk.lastUserCreated l.userCreated 0 = l.v.snapIndx := by
  rcases DiffDisk.lastUserCreated_spec l.userCreated 0 with ⟨hnone, heq⟩ | ⟨hflag, hmax⟩
  · rw [heq]
    by_contra h0
    have := h.snapUser (Ne.symm h0)
    unfold isUser at this
    rw [hnone] at this
    cases this
  · have hle := h.snapMax _ hflag
    rcases Nat.eq_zero_or_pos l.v.snapIndx with h0 | h0
    · omega
    · exact le_antisymm hle (hmax _ (h.snapUser h0.ne'))

end LiveInv

end Live

namespace Live.LiveInv

variable {l : Live}

theorem reload (h : l.LiveInv) :
    LiveInv { l with v := (l.v.openLiveChain l.userCreated).preload } ∧
    l.Keeps { l with v := (l.v.openLiveChain l.userCreated).preload } := by
  have htl := h.chainOk.target_lt
  obtain ⟨hsame, htable, hs, hchan, hsafe⟩ := preload_spec (V := l.viewers) h.chainOk
    l.userCreated (fun u hu hut => hu.resolve_right hut.ne)
  set v' := (l.v.openLiveChain l.userCreated).preload with hv'
  have hfiles : v'.files = l.v.files := hsame.files
  have hlen : v'.locationLen = l.v.locationLen := hsame.locationLen
  have htarget : v'.target = l.v.target := hsame.target
  have hsnap : v'.snapIndx = l.v.snapIndx := hsame.snapIndx.trans h.lastUserCreated_eq
  have hstore : v'.store = l.v.store := rfl
  have hfile : ∀ i, v'.file i = l.v.file i := hsame.file
  have hext : ∀ i s, v'.hasExtent i s = l.v.hasExtent i s := hsame.hasExtent rfl
  have htop : ∀ u s, v'.topFile u s = l.v.topFile u s := fun u s =>
    top_congr fun i _ _ => hext i s
  have hok : ∀ f s, l.v.HoleOk l.viewers f s → v'.HoleOk l.viewers f s :=
    fun f s => HoleOk.congr htarget hext
  have hc' : v'.ChainOk := preload_chainOk h.chainOk _
  refine ⟨h.of_files l.lun hfiles hsnap ?_ (fun u hu => ?_) hc' (fun hole hh => ?_)
    (fun s hs' h0 => ?_) fun sc hsc => ?_, fun u hu => ⟨hu, ?_⟩⟩
  · rw [hsame.userCreatedSnap]
    exact h.userLen
  · left
    unfold DiffDisk.flagged
    rw [hsame.userCreatedSnap]
    exact hu
  · refine SafeHole.mono (?_ : l.v.SafeHole _ hole) hok (fun i _ => hfile i) (by rw [hfiles])
    rw [hchan] at hh
    rcases List.mem_append.1 hh with hh | hh
    · exact h.queue hole hh
    · exact hsafe hole hh
  · rw [hlen] at hs'
    rw [htable s hs'] at h0
    refine entryOk_of_owner hc' ?_
    unfold owner
    rw [htarget, htop, htable s hs']
    omega
  · have hl := h.lun sc hsc
    refine hl.of_files hfiles hlen hok ⟨fun i s hs' hi hpos he => ?_, fun s hs' h0 => ?_⟩
    · rw [hlen] at hs'
      rw [htarget] at hi
      rw [hext] at he
      rw [htable s hs']
      rcases Nat.eq_zero_or_pos i with rfl | hi0
      · omega
      · exact (le_top _ hi he hi0.ne').trans (Nat.le_max_right _ _)
    · rw [hlen] at hs'
      have hk := hl.table.kept s hs' h0
      unfold ScannedOk viewOf at hk ⊢
      rw [hsnap, htarget, hext, htop]
      simpa only [hext] using hk
  · exact imageAt_congr (fun i _ => hfile i) fun i _ => rfl

theorem drain (h : l.LiveInv) : LiveInv { l with v := l.v.holeDrainer, lun := none } :=
  h.of_files none rfl rfl h.flagsLen h.flags (h.chainOk.of_files rfl rfl fun _ _ _ => rfl)
    (by simp [QueueOk, holeDrainer]) (fun s hs h0 => ⟨(h.table s hs h0).1, (h.table s hs h0).2,
      (h.table s hs h0).3⟩) fun _ hsc => by cases hsc

theorem reopen (h : l.LiveInv) :
    LiveInv { l with v := (l.v.holeDrainer.openLiveChain l.userCreated).preload, lun := none } ∧
    l.Keeps { l with v := (l.v.holeDrainer.openLiveChain l.userCreated).preload, lun := none } :=
  ⟨h.drain.reload.1, fun u hu => h.drain.reload.2 u hu⟩

/-! ## The LUN map -/

/-- A hole that the scan sends off joins the queue. -/
theorem send {hs : List Hole} (lun : Option Scan) (h : l.LiveInv)
    (hsafe : ∀ hole ∈ hs, l.v.SafeHole l.viewers hole) (hlun : ∀ sc, lun = some sc → l.LunOk sc) :
    LiveInv { l with v := l.v.sendHoles hs, lun := lun } := by
  have hok : ∀ f s, l.v.HoleOk l.viewers f s → (l.v.sendHoles hs).HoleOk l.viewers f s :=
    fun f s hok => ⟨hok.pos, hok.lt, hok.hidden⟩
  refine h.of_files lun rfl rfl h.flagsLen h.flags (h.chainOk.of_files rfl rfl fun _ _ _ => rfl)
    (fun hole hh => ?_) (fun s hs h0 => ?_) fun sc hsc => ?_
  · have hsafe' : l.v.SafeHole l.viewers hole := by
      rcases List.mem_append.1 hh with hh | hh
      · exact h.queue hole hh
      · exact hsafe hole hh
    exact hsafe'.mono hok (fun _ _ => rfl) le_rfl
  · obtain ⟨h1, h2, h3⟩ := h.table s hs h0
    exact ⟨h1, h2, h3⟩
  · have hl := hlun sc hsc
    exact (hl.of_lun lun).of_files rfl rfl hok ⟨hl.table.found, hl.table.kept⟩

section

variable (h : l.LiveInv)
include h

theorem lunBegin : l.LunOk ((Scan.start l.v.copyForLUNMap).beginFile 1) := by
  have htl := h.chainOk.target_lt
  have htwo := h.chainOk.two_le
  have hstart : ScanOk l.v l.viewers (Scan.start l.v.copyForLUNMap) := by
    refine ⟨le_rfl, fun _ _ => rfl, fun u hu hut => ?_, fun x hx _ => hx, fun _ => le_rfl,
      fun _ h0 => absurd h0 (lt_irrefl 0), fun h0 => absurd rfl h0, fun h0 => absurd rfl h0,
      by simp [Scan.start]⟩
    exact h.flags u (hu.resolve_right (ne_of_lt hut))
  refine ⟨hstart.beginFile rfl fun _ => (by decide : 1 < 65536), Nat.one_pos, ?_,
    fun _ => rfl, htwo, rfl, h.flagsLen, h.flags, fun i s hs hi hpos _ => ?_,
    fun s hs h0 => absurd rfl h0⟩
  · exact (show 1 ≤ l.v.files.length by omega)
  · rcases hpos with hpos | hpos | hpos
    · exact absurd hi (Nat.not_le.2 hpos)
    · obtain rfl : i = 0 := Nat.lt_one_iff.1 hpos
      exact Nat.zero_le _
    · exact absurd hpos.2 (Nat.not_lt_zero s)

/-- One step of the scan, before the holes it sends off join the queue. -/
theorem lunNext (hl : l.LunOk sc) (hi : sc.i ≤ sc.d.target) (punch : Bool) :
    l.LunOk (sc.next punch ((l.v.store (sc.d.file sc.i)).alloc sc.s)) := by
  have htwo := hl.two_le
  have htv : sc.d.target = sc.d.files.length - 1 := rfl
  have hlt : sc.i < sc.d.files.length := by omega
  have hle := hl.scan.files_le
  have hu16 := h.chainOk.le_u16
  have hseen : (l.v.store (sc.d.file sc.i)).alloc sc.s = l.v.hasExtent sc.i sc.s := by
    rw [hl.scan.file _ hlt]
    rfl
  rw [hseen]
  unfold Scan.next
  split_ifs with hs
  · have hscan := hl.scan.sector h.chainOk hl.pos hlt id punch
    have hsame := (⟨rfl, rfl, rfl, rfl⟩ : sc.SameChain sc.d).sector punch (l.v.hasExtent sc.i sc.s)
    have hloc := sc.sector_location punch (l.v.hasExtent sc.i sc.s)
    have hsi := sc.sector_i punch (l.v.hasExtent sc.i sc.s)
    have hss : (sc.sector punch (l.v.hasExtent sc.i sc.s)).s = sc.s + 1 := rfl
    have htarget : (sc.sector punch (l.v.hasExtent sc.i sc.s)).d.target = sc.d.target := by
      unfold DiffDisk.target
      rw [hsame.files]
    generalize sc.sector punch (l.v.hasExtent sc.i sc.s) = sc' at *
    refine ⟨hscan, hsi ▸ hl.pos, by rw [hsame.files, hsi]; exact hl.le, fun h => by omega,
      by rwa [hsame.files], hsame.locationLen.trans hl.locationLen,
      by rw [hsame.userCreatedSnap, hsame.files, hl.flagsLen], fun u hu => ?_,
      fun i t ht hit hpos hext => ?_, fun t ht h0 => ?_⟩
    · unfold DiffDisk.flagged
      rw [hsame.userCreatedSnap]
      exact hl.flags u hu
    · rw [hloc, u16_of_lt (by omega)]
      by_cases hnew : i = sc.i ∧ t = sc.s
      · rw [if_pos ⟨hnew.2, by rw [← hnew.1, ← hnew.2, hext]⟩]
        omega
      · have hold := hl.table.found i t ht hit (by omega) hext
        have hup := hl.scan.upto t
        split_ifs <;> omega
    · rw [hloc, u16_of_lt (by omega)] at h0 ⊢
      split_ifs at h0 ⊢ with hnew
      · exact .inl (by rw [hnew.1, hnew.2])
      · exact hl.table.kept t ht h0
  · have hscan := (hl.scan.endFile punch).beginFile rfl fun hf => ?_
    · refine ⟨hscan, Nat.succ_pos _, hlt, fun _ => rfl, htwo, hl.locationLen, hl.flagsLen, hl.flags,
        fun i t ht hit hpos hext => hl.table.found i t ht hit ?_ hext, hl.table.kept⟩
      have hlen := hl.locationLen
      rcases hpos with hpos | hpos | ⟨-, hpos⟩
      · exact .inl hpos
      · have hpos : i < sc.i + 1 := hpos
        omega
      · exact absurd hpos (Nat.not_lt_zero t)
    · show sc.i + 1 < 65536
      by_contra hge
      have hf : sc.d.userCreatedSnap.getD (sc.i + 1) false = true := hf
      rw [List.getD_eq_default _ _ (by have := hl.flagsLen; omega)] at hf
      cases hf

theorem lunScan (hsc : l.lun = some sc) (hi : sc.i ≤ sc.d.target) :
    (l.scanStep sc).LiveInv ∧ l.Keeps (l.scanStep sc) := by
  have hn := h.lunNext (h.lun sc hsc) hi l.v.shouldPunchHoles
  refine ⟨h.send _ hn.scan.sent fun sc' hsc' => ?_, fun u hu => ⟨hu, rfl⟩⟩
  obtain rfl := Option.some.inj hsc'
  have hs := hn.scan
  exact ⟨⟨hs.1, hs.2, hs.3, hs.4, hs.5, hs.6, hs.7, hs.8, by simp⟩, hn.2, hn.3, hn.4, hn.5, hn.6,
    hn.7, hn.8, hn.9.1, hn.9.2⟩

/-- Every user-created snapshot is at or below the latest flag of the copy that was scanned. -/
theorem isUser_le_lastUserCreated (hl : l.LunOk sc)
    (hu : l.isUser u = true) : u ≤ u16 (DiffDisk.lastUserCreated sc.d.userCreatedSnap 0) := by
  have hlen := hl.flagsLen
  have hle := hl.scan.files_le
  have hu16 := h.chainOk.le_u16
  rcases DiffDisk.lastUserCreated_spec sc.d.userCreatedSnap 0 with ⟨hnone, -⟩ | ⟨hflag, hmax⟩
  · rcases hl.flags u hu with hf | hf <;>
    · unfold DiffDisk.flagged at hf
      rw [hnone] at hf
      cases hf
  · have hlt : DiffDisk.lastUserCreated sc.d.userCreatedSnap 0 < sc.d.userCreatedSnap.length := by
      by_contra hge
      rw [List.getD_eq_default _ _ (by omega)] at hflag
      cases hflag
    rw [u16_of_lt (by omega)]
    rcases hl.flags u hu with hf | hf
    · exact hmax u hf
    · exact (Nat.le_succ u).trans (hmax _ hf)

/-- A scanned file below the entry of the live table is hidden from the active layer, and no
user-created snapshot looks at it. -/
theorem holeOk_outdated (hl : l.LunOk sc)
    (hf : u16 (DiffDisk.lastUserCreated sc.d.userCreatedSnap 0) < f)
    (hout : l.v.Outdated sc.d f s) : l.v.HoleOk l.viewers f s := by
  obtain ⟨hs, -, hpos, hlt⟩ := hout
  rw [hl.locationLen] at hs
  obtain ⟨hle, -, hheld⟩ := h.table s hs (by omega)
  refine ⟨hpos, by omega, fun hext u hu hfu hut => ?_⟩
  rcases hu with hu | rfl
  · have := h.isUser_le_lastUserCreated hl hu
    omega
  · rcases hheld with hheld | hheld
    · exact ⟨_, hlt, hle, hheld⟩
    · have hsnap : l.v.snapIndx < f := by
        rcases Nat.eq_zero_or_pos l.v.snapIndx with h0 | h0
        · omega
        · have := h.isUser_le_lastUserCreated hl (h.snapUser h0.ne')
          omega
      rw [hheld f hsnap hlt] at hext
      cases hext

/-- After a whole scan, the higher of the two entries is right up to discarded extents. -/
theorem entryOk_merged (hsc : l.lun = some sc) (hdone : sc.d.target < sc.i)
    (hloc : ∀ s, s < l.v.locationLen → v'.location s = max (l.v.location s) (sc.d.location s))
    (hsame : l.v.SameChain v') (hext : ∀ i s, v'.hasExtent i s = l.v.hasExtent i s)
    (hs : s < l.v.locationLen) (h0 : v'.location s ≠ 0) : v'.EntryOk s := by
  have hl := h.lun sc hsc
  have hsle := h.scan_location_le hsc s
  have hlle := h.table.locationLe s hs
  have htop : ∀ u, v'.topFile u s = l.v.topFile u s := fun u => top_congr fun i _ _ => hext i s
  have hfound : l.v.topFile l.v.target s ≤ max (l.v.location s) (sc.d.location s) := by
    rcases Nat.eq_zero_or_pos (l.v.topFile l.v.target s) with ht | ht
    · omega
    · rw [Nat.max_comm]
      exact hl.table.found _ s hs (l.v.topFile_le _ _) (by omega) (holds_top _ _ _ ht.ne')
  rw [hloc s hs] at h0
  refine ⟨?_, ?_, ?_⟩
  · rw [hloc s hs, hsame.target]
    omega
  · rw [hloc s hs, hsame.target, htop]
    exact hfound
  · rw [hloc s hs, hsame.snapIndx]
    simp only [hext]
    rcases Nat.lt_or_ge (l.v.location s) (sc.d.location s) with hlt | hge
    · rw [Nat.max_eq_right hlt.le] at hfound ⊢
      rcases hl.table.kept s hs (by omega) with hk | hk | hk
      · exact .inl hk
      · exact .inr fun f hf hft => hk f hf hft.le
      · -- a higher file would be in one of the tables
        have hview : l.v.viewOf (sc.d.location s) ≤ l.v.target := by
          have := h.snapIndx_lt
          unfold viewOf
          split_ifs <;> omega
        have hmono : l.v.topFile (l.v.viewOf (sc.d.location s)) s ≤ l.v.topFile l.v.target s :=
          top_mono _ hview s
        omega
    · rw [Nat.max_eq_left hge] at h0 ⊢
      exact (h.table s hs h0).held

theorem lunMerge (hsc : l.lun = some sc) (hdone : sc.d.target < sc.i) :
    LiveInv { l with v := l.v.mergeLUNMap sc.d, lun := none } ∧
    l.Keeps { l with v := l.v.mergeLUNMap sc.d, lun := none } := by
  have hl := h.lun sc hsc
  have hinv := mergeLoop_inv l.v sc.d
  have hloc : ∀ s, s < l.v.locationLen → (l.v.mergeLUNMap sc.d).location s =
      max (l.v.location s) (sc.d.location s) := fun s hs =>
    (hinv.location s).trans (if_pos (by rwa [hl.locationLen]))
  have hok : ∀ f s, l.v.HoleOk l.viewers f s → (l.v.mergeLUNMap sc.d).HoleOk l.viewers f s :=
    fun f s hok => ⟨hok.pos, hok.lt, hok.hidden⟩
  refine ⟨h.of_files none rfl rfl h.flagsLen h.flags
    (h.chainOk.of_files rfl rfl fun _ _ _ => rfl) (fun hole hh => ?_)
    (fun s hs h0 => h.entryOk_merged hsc hdone hloc ⟨rfl, rfl, rfl, rfl,
      rfl⟩ (fun _ _ => rfl) hs h0)
    nofun, fun u hu => ⟨hu, rfl⟩⟩
  have hsafe : l.v.SafeHole l.viewers hole := by
    rcases List.mem_append.1 hh with hh | hh
    · exact h.queue hole hh
    · obtain ⟨f, lo, len, rfl, hf, hlen, hall⟩ := hinv.sent hole hh
      have hlt : f < sc.d.files.length := by
        obtain ⟨hs, hfs, -, -⟩ := hall lo le_rfl (by omega)
        have htv : sc.d.target = sc.d.files.length - 1 := rfl
        have htwo := hl.two_le
        have := scan_location_le_target hl lo
        omega
      exact ⟨f, lo, len, by rw [hl.scan.file f hlt], hlt.trans_le hl.scan.files_le,
        fun s h1 h2 => h.holeOk_outdated hl hf (hall s h1 h2)⟩
  exact hsafe.mono hok (fun _ _ => rfl) le_rfl

end

/-! ## Runs -/

theorem new {sectors : ℕ} (hf : f ≠ 0) : (Live.new sectors f).LiveInv := by
  have huser := isUser_new sectors f
  refine ⟨new_chainOk _ hf, rfl, huser _, fun u hu => ?_, fun h0 => absurd rfl h0, rfl,
    fun u hu => ?_, ?_, fun s _ h0 => absurd rfl h0, nofun⟩
  · rw [huser] at hu
    cases hu
  · rw [huser] at hu
    cases hu
  · intro h hh
    cases hh

/-- Every allowed step keeps the invariant and the images at the user-created snapshots. -/
theorem step {op : Op} (h : l.LiveInv) (hop : l.Allowed op)
    (hstep : l.step op = some l') : l'.LiveInv ∧ l.Keeps l' := by
  cases op with
  | write buf offset =>
    simp only [Live.step, Option.ite_none_right_eq_some, Option.some.injEq] at hstep
    obtain ⟨hin, rfl⟩ := hstep
    exact h.write hin hop
  | read buf offset =>
    obtain rfl := Option.some.inj hstep
    exact h.read buf offset
  | unmap offset len =>
    obtain rfl := Option.some.inj hstep
    exact h.unmap offset len
  | snapshot f userCreated =>
    simp only [Live.step, Option.ite_none_right_eq_some, Option.some.injEq] at hstep
    obtain ⟨⟨hf, hlen⟩, rfl⟩ := hstep
    exact h.snapshot hf hlen hop
  | reload =>
    obtain rfl := Option.some.inj hstep
    exact h.reload
  | reopen =>
    obtain rfl := Option.some.inj hstep
    exact h.reopen
  | punch k =>
    obtain ⟨v', hk, rfl⟩ := Option.map_eq_some_iff.1 hstep
    exact h.punch hk
  | lunBegin =>
    simp only [Live.step] at hstep
    split at hstep
    · obtain rfl := Option.some.inj hstep
      refine ⟨h.of_files (some _) rfl rfl h.flagsLen h.flags h.chainOk h.queue h.table
        fun sc hsc => ?_, fun u hu => ⟨hu, rfl⟩⟩
      obtain rfl := Option.some.inj hsc
      exact h.lunBegin.of_lun _
    · cases hstep
  | lunScan =>
    simp only [Live.step] at hstep
    split at hstep
    · cases hstep
    · next sc hsc =>
      simp only [Option.ite_none_right_eq_some, Option.some.injEq] at hstep
      obtain ⟨hi, rfl⟩ := hstep
      exact h.lunScan hsc hi
  | lunMerge =>
    simp only [Live.step] at hstep
    split at hstep
    · cases hstep
    · next sc hsc =>
      simp only [Option.ite_none_right_eq_some, Option.some.injEq] at hstep
      obtain ⟨hdone, rfl⟩ := hstep
      exact h.lunMerge hsc hdone

/-- A user-created snapshot is made by `Snapshot` only, out of the active layer. -/
theorem isUser_step {op : Op} (h : l.LiveInv) (hstep : l.step op = some l')
    (hu : l'.isUser u = true) : l.isUser u = true ∨ ∃ f, op = .snapshot f true ∧ l.v.target = u ∧
    l'.v.imageAt u = l.v.image := by
  have hsame : l'.userCreated = l.userCreated → l.isUser u = true := fun heq => by
    unfold isUser at hu ⊢
    rwa [← heq]
  cases op with
  | snapshot f userCreated =>
    simp only [Live.step, Option.ite_none_right_eq_some, Option.some.injEq] at hstep
    obtain ⟨⟨hf, -⟩, rfl⟩ := hstep
    rw [h.isUser_snapshotted] at hu
    split_ifs at hu with heq
    · subst hu heq
      exact .inr ⟨f, rfl, rfl, appendHead_imageAt hf h.chainOk.target_lt⟩
    · exact .inl hu
  | write buf offset =>
    simp only [Live.step, Option.ite_none_right_eq_some, Option.some.injEq] at hstep
    obtain ⟨-, rfl⟩ := hstep
    exact .inl (hsame rfl)
  | punch k =>
    obtain ⟨v', -, rfl⟩ := Option.map_eq_some_iff.1 hstep
    exact .inl (hsame rfl)
  | read | unmap | reload | reopen =>
    obtain rfl := Option.some.inj hstep
    exact .inl (hsame rfl)
  | lunBegin =>
    simp only [Live.step] at hstep
    split at hstep
    · obtain rfl := Option.some.inj hstep
      exact .inl (hsame rfl)
    · cases hstep
  | lunScan | lunMerge =>
    simp only [Live.step] at hstep
    split at hstep
    · cases hstep
    · simp only [Option.ite_none_right_eq_some, Option.some.injEq] at hstep
      obtain ⟨-, rfl⟩ := hstep
      exact .inl (hsame rfl)

end Live.LiveInv

namespace Live

open Transition

/-- In every run without a `CrossFlush`, and without a user-created snapshot inside an
`UpdateLUNMap`, the image at each user-created snapshot is the image of the volume when
`Snapshot` made it. -/
theorem userSnapshot_immutable {sectors f₀ : ℕ} (hf₀ : f₀ ≠ 0) {ops : List Op} {l' : Live}
    (hrun : run step (new sectors f₀) ops = some l')
    (hgood : Along step Allowed (new sectors f₀) ops) {u : ℕ} (hu : l'.isUser u = true) :
    ∃ before f after l, ops = before ++ .snapshot f true :: after ∧
      run step (new sectors f₀) before = some l ∧ l.v.target = u ∧
      l'.v.imageAt u = l.v.image := by
  refine (run_rec (P := fun ops l' => l'.LiveInv ∧ ∀ u, l'.isUser u = true →
    ∃ before f after l, ops = before ++ .snapshot f true :: after ∧
      run step (new sectors f₀) before = some l ∧ l.v.target = u ∧ l'.v.imageAt u = l.v.image)
    ⟨LiveInv.new hf₀, fun u hu => ?_⟩ ?_ ops l' hgood hrun).2 u hu
  · rw [isUser_new] at hu
    cases hu
  · rintro as s a s' has ⟨hI, hP⟩ hop hstep
    obtain ⟨hI', hK⟩ := hI.step hop hstep
    refine ⟨hI', fun u hu => ?_⟩
    rcases hI.isUser_step hstep hu with hold | ⟨f, rfl, ht, himg⟩
    · obtain ⟨before, f, after, l, rfl, hl, ht, himg⟩ := hP u hold
      exact ⟨before, f, after ++ [a], l, by simp, hl, ht, (hK u hold).2.trans himg⟩
    · exact ⟨as, f, [], s, rfl, has, ht, himg⟩

/-- The first sector is written, a user-created snapshot is taken and then an automatic one, and
the sector is written after each of them. The hole this sends off is punched. -/
def overwriteFirst : List Op :=
  [.write (List.replicate 4096 1) 0, .snapshot 2 true, .write (List.replicate 4096 2) 0,
    .snapshot 3 false, .write (List.replicate 4096 3) 0, .punch 0]

theorem userSnapshot_immutable_overwriteFirst :
    ∃ l', run step (new 2 1) overwriteFirst = some l' ∧ l'.isUser 1 = true ∧
      ∃ before f after l, overwriteFirst = before ++ .snapshot f true :: after ∧
        run step (new 2 1) before = some l ∧ l.v.target = 1 ∧ l'.v.imageAt 1 = l.v.image := by
  have hsector : ∀ (l : Live) (x : Byte), l.Allowed (.write (List.replicate 4096 x) 0) := by
    intro l x
    have hlen : wholeLen 0 (List.replicate 4096 x).length = 1 := by
      rw [List.length_replicate]
      rfl
    simp only [Allowed]
    rw [hlen]
    exact not_crossFlush_one _ _
  have hlun : ((new 2 1).step (.write (List.replicate 4096 1) 0)).map (·.lun.isNone) =
      some true := by decide +kernel
  have hgood : Along step Allowed (new 2 1) overwriteFirst := by
    refine ⟨hsector _ _, fun l hl => ⟨fun _ => ?_, fun _ _ => ⟨hsector _ _, fun _ _ =>
      ⟨nofun, fun _ _ => ⟨hsector _ _, fun _ _ => ⟨trivial, fun _ _ => trivial⟩⟩⟩⟩⟩⟩
    rw [hl] at hlun
    simpa using hlun
  have hrun : ((run step (new 2 1) overwriteFirst).map (·.isUser 1)) = some true := by
    decide +kernel
  obtain ⟨l', hl', hu⟩ := Option.map_eq_some_iff.1 hrun
  exact ⟨l', hl', hu, userSnapshot_immutable (by decide) hl' hgood hu⟩

/-- Both sectors of a new volume are written. -/
def fillBoth : List Op :=
  [.write (List.replicate 8192 1) 0]

/-- An automatic snapshot has the first sector only, and then both sectors are written at
once. -/
def overwriteBoth : List Op :=
  [.write (List.replicate 4096 2) 0, .snapshot 3 false, .write (List.replicate 8192 3) 0, .punch 0]

/-- The run of the first sector is sent off as a hole in the file of the second one, and the
user-created snapshot loses the sector. -/
theorem userSnapshot_destroyed :
    ∃ l l', run step (new 2 1) fillBoth = some l ∧
      run step (new 2 1) (fillBoth ++ .snapshot 2 true :: overwriteBoth) = some l' ∧
      l'.isUser l.v.target = true ∧ l'.v.imageAt l.v.target ≠ l.v.image := by
  have hrun : ((run step (new 2 1) fillBoth).bind fun l =>
      (run step (new 2 1) (fillBoth ++ .snapshot 2 true :: overwriteBoth)).map fun l' =>
        (l'.isUser l.v.target, l'.v.imageAt l.v.target 0, l.v.image 0)) = some (true, 0, 1) := by
    decide +kernel
  obtain ⟨l, hl, hrun⟩ := Option.bind_eq_some_iff.1 hrun
  obtain ⟨l', hl', hbytes⟩ := Option.map_eq_some_iff.1 hrun
  simp only [Prod.mk.injEq] at hbytes
  obtain ⟨hu, h0, h1⟩ := hbytes
  refine ⟨l, l', hl, hl', hu, fun himg => ?_⟩
  rw [himg, h1] at h0
  exact absurd h0 (by decide)

end Live

end Jiva
