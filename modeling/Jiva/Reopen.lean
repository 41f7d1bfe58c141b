import Jiva.Coalesce
import Jiva.ScanInv

/-!
# Reopening a volume

`Opened` is an open volume with the flags of its disks. It can be reopened in three ways :
`Reload` with and without `preload`, and `Close` followed by `Open`. All of them build the
table anew from the files of the chain, so they show the image of the chain, and what is
read stays the same if the table of the open volume shows the image too.

`Unmap` frees extents and leaves the table alone. An entry may then name a file that has no
extent any more. It reads as zeros, while a reopened volume reads the highest file that is
left, which may be the file of a user-created snapshot with old data. So `Unmap` must
discard a sector whose entry is above the latest user-created snapshot only if the
snapshot reads as zeros there (`Discards`). Then every entry names the owner of its sector,
or a higher file of a sector that reads as zeros (`Stale`), and reopening does not
change what is read (`reopen_reads`). `reopen_resurrects` is a run with another `Unmap`.
-/

namespace Jiva

open Layered Volume

/-- An open volume, and the flags of the disks of its chain. -/
structure Opened where
  v : Volume
  userCreated : List Bool

namespace Opened

/-- What happens to an open volume. -/
inductive Op
  | write (buf : List Byte) (offset : ℕ)
  | read (buf : List Byte) (offset : ℕ)
  | unmap (offset len : ℕ)
  | snapshot (f : ℕ) (userCreated : Bool)
  | coalesce (k s : ℕ)
  | removeDiffDisk (k : ℕ)

/-- One operation. A snapshot that is neither the base nor the latest one can be coalesced, sector
by sector, and `RemoveDiffDisk` removes it when it is. -/
def step (o : Opened) : Op → Option Opened
  | .write buf offset =>
    if offset + buf.length ≤ o.v.size then
      some { o with v := (o.v.writeAt Dev.ok buf offset).v }
    else none
  | .read buf offset => some { o with v := (o.v.readAt Dev.ok buf offset).v }
  | .unmap offset len => some { o with v := (o.v.unmap offset len).1 }
  | .snapshot f userCreated =>
    if f ∉ o.v.files ∧ o.v.files.length < 65536 then
      some ⟨o.v.appendHead f userCreated, o.userCreated.set o.v.target userCreated ++ [false]⟩
    else none
  | .coalesce k s =>
    if 2 ≤ k ∧ k + 1 < o.v.target then some { o with v := o.v.coalesceSector k s } else none
  | .removeDiffDisk k =>
    if 2 ≤ k ∧ k + 1 < o.v.target ∧ o.v.Coalesced k then
      some ⟨o.v.removeDisk k, o.userCreated.eraseIdx k⟩
    else none

/-- A new volume. -/
def new (sectors f : ℕ) : Opened :=
  ⟨Volume.new sectors f, [false, false]⟩

/-- `Reload`, with or without `preload`. -/
def reload (o : Opened) (preload : Bool) : Volume :=
  if preload then (o.v.openLiveChain o.userCreated).preload else o.v.openLiveChain o.userCreated

/-- `Close` and `Open`. -/
def closeOpen (o : Opened) (preload : Bool) : Volume :=
  reload { o with v := o.v.holeDrainer } preload

/-- Where `Unmap` discards a sector whose entry is above the latest user-created snapshot, the
snapshot reads as zeros. -/
def Discards (o : Opened) : Op → Prop
  | .unmap offset len => ∀ s, s < o.v.locationLen → SparseFile.inside offset len s = true →
      o.v.snapIndx < o.v.location s →
      ∀ b, b / defaultSectorSize = s → o.v.imageAt o.v.snapIndx b = 0
  | _ => True

end Opened

namespace Volume

/-- The entry of sector `s` is above every file with an extent, and the sector reads as zeros. -/
structure Stale (v : Volume) (s : ℕ) : Prop where
  le_target : v.location s ≤ v.target
  top_lt : v.topFile v.target s < v.location s
  zero : ∀ b, b / defaultSectorSize = s → v.image b = 0

/-- Every known entry names the owner, or is stale. -/
def TableShows (v : Volume) : Prop :=
  ∀ s, s < v.locationLen → v.location s ≠ 0 → v.location s = v.owner s ∨ v.Stale s

section TableShows

variable {v v' : Volume}

theorem TableShows.locationLe (h : v.TableShows) (hc : v.ChainOk) : v.LocationLe := by
  intro s hs
  rcases eq_or_ne (v.location s) 0 with h0 | h0
  · omega
  · rcases h s hs h0 with ho | hst
    · rw [ho]
      exact v.owner_le hc s
    · exact hst.le_target

/-- Such a table shows the image. -/
theorem TableShows.shown (h : v.TableShows) (hc : v.ChainOk) {b : ℕ} (hb : b < v.size) :
    v.shown b = v.image b := by
  have hs : b / defaultSectorSize < v.locationLen := by
    unfold size at hb
    rw [defaultSectorSize_eq] at hb ⊢
    omega
  have hown : v.entry (b / defaultSectorSize) = v.owner (b / defaultSectorSize) →
      v.shown b = v.image b := fun he => by rw [image_eq_owner v hc, Volume.shown, he]
  unfold entry at hown
  split_ifs at hown with h2 h0
  · have h1 := v.topFile_le v.target (b / defaultSectorSize)
    have htv : v.target = v.files.length - 1 := rfl
    refine hown ?_
    unfold owner
    omega
  · exact hown rfl
  · rcases h _ hs h0 with ho | hst
    · exact hown ho
    · -- the file of a stale entry has no extent
      rw [hst.zero b rfl]
      unfold Volume.shown entry
      rw [if_neg h2, if_neg h0]
      exact (v.store _).hole_zero b (not_holds_of_top_lt hst.top_lt hst.le_target)

theorem LocationOk.tableShows (h : v.LocationOk) : v.TableShows :=
  fun s hs h0 => .inl ((h s hs).resolve_left h0)

theorem TableShows.fills (h : v.TableShows) (hc : v.ChainOk) (hf : v.Fills v') : v'.TableShows := by
  obtain ⟨l, rfl, hl⟩ := hf
  intro s hs h0
  rcases hl s with hls | ⟨-, -, hls⟩
  · rw [withLocation_location, hls] at h0 ⊢
    rcases h s hs h0 with ho | ⟨h1, h2, h3⟩
    · exact .inl ho
    · exact .inr ⟨by simpa [hls] using h1, by simpa [hls] using h2, h3⟩
  · left
    rw [withLocation_location, hls, hc.u16_owner]
    rfl

theorem TableShows.write {k n : ℕ} (h : v.TableShows) (hc : v.ChainOk)
    (he : FullEffect v v' k n) : v'.TableShows := by
  have htl := hc.target_lt
  have hpos := hc.target_pos
  intro s hs h0
  rw [he.same.locationLen] at hs
  have htop := topFile_effect he le_rfl s
  have hloc := he.location s
  unfold owner
  rw [he.same.target]
  by_cases hin : k ≤ s ∧ s < k + n
  · left
    rw [if_pos hin] at hloc
    rw [if_pos ⟨rfl, hin⟩] at htop
    rw [hloc, htop]
    omega
  · rw [if_neg hin] at hloc
    rw [if_neg fun h => hin h.2] at htop
    rw [hloc] at h0 ⊢
    rw [htop]
    refine (h s hs h0).imp_right fun hst => ⟨?_, ?_, fun b hb => ?_⟩
    · rw [hloc, he.same.target]
      exact hst.le_target
    · rw [hloc, he.same.target, htop]
      exact hst.top_lt
    · -- the file that is seen is below the active layer
      have hlt := hst.top_lt
      have hle := hst.le_target
      have hzero := hst.zero b hb
      have hne : v.file (v.topFile v.target s) ≠ v.file v.target := fun hf => by
        have := hc.file_inj (by omega) htl hf
        omega
      unfold image imageAt at hzero ⊢
      rw [hb] at hzero ⊢
      rw [he.same.target, htop, he.same.file, he.others _ hne]
      exact hzero

theorem TableShows.appendHead {f : ℕ} {userCreated : Bool} (h : v.TableShows) (hc : v.ChainOk)
    (hf : f ∉ v.files) : (v.appendHead f userCreated).TableShows := by
  have htl := hc.target_lt
  have hpos : 0 < v.files.length := by omega
  intro s hs h0
  unfold owner
  rw [appendHead_topFile_target hf hpos]
  refine (h s hs h0).imp_right fun hst => ⟨?_, ?_, fun b hb => ?_⟩
  · rw [appendHead_target _ _ _ hpos]
    exact Nat.le_succ_of_le hst.le_target
  · rw [appendHead_topFile_target hf hpos]
    exact hst.top_lt
  · rw [appendHead_image hf hpos]
    exact hst.zero b hb

theorem TableShows.coalesceSector {k : ℕ} (h : v.TableShows) (hc : v.ChainOk) (hk : 2 ≤ k)
    (hkt : k < v.target) (t : ℕ) : (v.coalesceSector k t).TableShows := by
  intro s hs h0
  have htop := coalesceSector_topFile hc hk hkt t s
  refine (h s hs h0).imp (fun ho => ?_) fun hst => ⟨hst.le_target, ?_, fun b hb => ?_⟩
  · show v.location s = max 1 ((v.coalesceSector k t).topFile v.target s)
    rw [htop]
    exact ho
  · exact htop.trans_lt hst.top_lt
  · rw [coalesceSector_image hc hk hkt]
    exact hst.zero b hb

theorem TableShows.removeDisk {k : ℕ} (h : v.TableShows) (hc : v.ChainOk) (hk : 2 ≤ k)
    (hkt : k < v.target) (hco : v.Coalesced k) : (v.removeDisk k).TableShows := by
  have htl := hc.target_lt
  intro s hs h0
  have hs : s < v.locationLen := hs
  have hm := hco.merged (by omega) hs
  have htop := removeDisk_topFile hk hkt hm
  have hloc := removeDisk_location hc hkt hs
  have hl0 : v.location s ≠ 0 := fun hz => by
    rw [hloc, hz] at h0
    split_ifs at h0 <;> omega
  rcases h s hs hl0 with ho | hst
  · left
    rw [hloc, removeDisk_owner hk hkt hm, ho]
  · -- the entry may come to name the file that is seen
    have h1 := hst.le_target
    have h2 := hst.top_lt
    rcases eq_or_ne ((v.removeDisk k).topFile (v.removeDisk k).target s)
      ((v.removeDisk k).location s) with heq | hne
    · left
      unfold owner
      omega
    · refine .inr ⟨?_, ?_, fun b hb => ?_⟩
      · rw [hloc, removeDisk_target _ (by omega)]
        split_ifs <;> omega
      · rw [htop, hloc] at hne ⊢
        split_ifs at hne ⊢ <;> omega
      · rw [removeDisk_image hk hkt (hb ▸ hm)]
        exact hst.zero b hb

/-- A sector that `Unmap` discards is seen through the files it leaves alone. -/
theorem topFile_unmap {offset len s : ℕ} (hc : v.ChainOk)
    (he : PunchEffect v v' (fun i => v.snapIndx < i) offset len)
    (hin : SparseFile.inside offset len s = true) :
    v'.topFile v.target s = v.topFile (min v.snapIndx v.target) s := by
  have htl := hc.target_lt
  rw [show v'.topFile v.target s = v'.topFile (min v.snapIndx v.target) s from
    top_eq_of_between (by omega) fun i hi hit => ?_]
  · refine top_congr fun i _ hi => ?_
    rw [he.hasExtent (by omega), decide_eq_false (by omega)]
    simp
  · rw [he.hasExtent (by omega), hin, decide_eq_true (by omega)]
    simp

theorem TableShows.unmap {offset len : ℕ} (h : v.TableShows) (hc : v.ChainOk)
    (hd : ∀ s, s < v.locationLen → SparseFile.inside offset len s = true →
      v.snapIndx < v.location s → ∀ b, b / defaultSectorSize = s → v.imageAt v.snapIndx b = 0)
    (he : PunchEffect v v' (fun i => v.snapIndx < i) offset len) : v'.TableShows := by
  have htl := hc.target_lt
  intro s hs h0
  rw [he.same.locationLen] at hs
  rw [he.location] at h0
  -- a file that is still seen has lost bytes at most
  have hzero : v'.topFile v.target s = v.topFile v.target s → v.Stale s → v'.Stale s := by
    intro htop hst
    refine ⟨?_, ?_, fun b hb => ?_⟩
    · rw [he.location, he.same.target]
      exact hst.le_target
    · rw [he.location, he.same.target, htop]
      exact hst.top_lt
    · have hz := hst.zero b hb
      have hle := v.topFile_le v.target s
      unfold image imageAt at hz ⊢
      rw [hb] at hz ⊢
      rw [he.same.target, htop, he.same.file, he.data (by omega)]
      split_ifs at hz ⊢ <;> first | rfl | exact hz
  have hkeep : v'.topFile v.target s = v.topFile v.target s →
      v'.location s = v'.owner s ∨ v'.Stale s := by
    intro htop
    refine (h s hs h0).imp (fun ho => ?_) (hzero htop)
    unfold owner
    rw [he.location, he.same.target, htop]
    exact ho
  cases hin : SparseFile.inside offset len s with
  | false => exact hkeep (top_congr fun i _ hi => by rw [he.hasExtent (by omega), hin]; simp)
  | true =>
    have hle := h.locationLe hc s hs
    have htop := topFile_unmap hc he hin
    rcases Nat.lt_or_ge v.snapIndx (v.location s) with hlt | hge
    · -- the entry is above the latest user-created snapshot, which reads as zeros
      rw [Nat.min_eq_left (by omega)] at htop
      have htle := v.topFile_le v.snapIndx s
      refine .inr ⟨?_, ?_, fun b hb => ?_⟩
      · rwa [he.location, he.same.target]
      · rw [he.location, he.same.target, htop]
        omega
      · have hz := hd s hs hin hlt b hb
        have hdata := he.data (i := v.topFile v.snapIndx s) (by omega) b
        rw [if_neg fun h => absurd h.1 (Nat.not_lt.2 htle)] at hdata
        unfold image imageAt at hz ⊢
        rw [hb] at hz ⊢
        rw [he.same.target, htop, he.same.file, hdata]
        exact hz
    · -- the file that is seen is at or below the snapshot
      refine hkeep (htop.trans (top_eq_of_between (by omega) fun i hi hit => ?_).symm)
      have htle : v.topFile v.target s ≤ v.location s := by
        rcases h s hs h0 with ho | hst
        · rw [ho]
          exact Nat.le_max_right _ _
        · exact hst.top_lt.le
      exact not_holds_of_top_lt (by unfold topFile at htle; omega) hit

end TableShows

end Volume

namespace Opened

/-- The invariant of an open volume. -/
structure OpenInv (o : Opened) : Prop where
  chainOk : o.v.ChainOk
  table : o.v.TableShows

namespace OpenInv

variable {o : Opened}

theorem step {op : Op} {o' : Opened} (h : o.OpenInv) (hop : o.Discards op)
    (hstep : o.step op = some o') : o'.OpenInv := by
  cases op with
  | write buf offset =>
    simp only [Opened.step, Option.ite_none_right_eq_some, Option.some.injEq] at hstep
    obtain ⟨hin, rfl⟩ := hstep
    have hr := writeAt_ind (X := False) (P := fun u => u.TableShows) h.chainOk hin nofun
      (fun u u' hu hc hf => hu.fills hc hf) (fun u u' k n hu hc _ _ he => hu.write hc he) h.table
    exact ⟨hr.chainOk, hr.inv⟩
  | read buf offset =>
    obtain rfl := Option.some.inj hstep
    have hf := readAt_fills Dev.ok h.chainOk buf offset
    exact ⟨hf.chainOk h.chainOk, h.table.fills h.chainOk hf⟩
  | unmap offset len =>
    obtain rfl := Option.some.inj hstep
    have he := (unmap_effect h.chainOk offset len).1
    exact ⟨he.chainOk h.chainOk, h.table.unmap h.chainOk hop he⟩
  | snapshot f userCreated =>
    simp only [Opened.step, Option.ite_none_right_eq_some, Option.some.injEq] at hstep
    obtain ⟨⟨hf, hlen⟩, rfl⟩ := hstep
    exact ⟨appendHead_chainOk h.chainOk hf hlen, h.table.appendHead h.chainOk hf⟩
  | coalesce k s =>
    simp only [Opened.step, Option.ite_none_right_eq_some, Option.some.injEq] at hstep
    obtain ⟨⟨hk, hkt⟩, rfl⟩ := hstep
    exact ⟨coalesceSector_chainOk h.chainOk (by omega) s,
      h.table.coalesceSector h.chainOk hk (by omega) s⟩
  | removeDiffDisk k =>
    simp only [Opened.step, Option.ite_none_right_eq_some, Option.some.injEq] at hstep
    obtain ⟨⟨hk, hkt, hco⟩, rfl⟩ := hstep
    exact ⟨removeDisk_chainOk h.chainOk hk (by omega),
      h.table.removeDisk h.chainOk hk (by omega) hco⟩

end OpenInv

open Transition

theorem reload_reads {o : Opened} (hc : o.v.ChainOk) (preload : Bool) {buf : List Byte} {offset : ℕ}
    (hin : offset + buf.length ≤ o.v.size) :
    ((o.reload preload).readAt Dev.ok buf offset).Reads Dev.ok o.v.image offset buf.length := by
  cases preload with
  | true =>
    have hsize : (o.v.openLiveChain o.userCreated).preload.size = o.v.size :=
      (preload_sameChain hc o.userCreated).size
    rw [← preload_image hc o.userCreated]
    exact readAt_spec (preload_chainOk hc _) (preload_locationOk hc _) (hin.trans hsize.ge)
  | false =>
    exact readAt_spec (v := o.v.openLiveChain o.userCreated) (openLiveChain_chainOk hc _)
      (fun _ _ => .inl rfl) hin

/-- In every run in which `Unmap` discards nothing that a user-created snapshot would show again,
`ReadAt` returns the same before and after `Reload` with or without `preload`, and before
and after `Close` and `Open`. -/
theorem reopen_reads {sectors f₀ : ℕ} (hf₀ : f₀ ≠ 0) {ops : List Op} {o : Opened}
    (hrun : run step (new sectors f₀) ops = some o)
    (hgood : Along step Discards (new sectors f₀) ops) (preload : Bool) (buf : List Byte)
    (offset : ℕ) (hin : offset + buf.length ≤ o.v.size) :
    (o.v.readAt Dev.ok buf offset).err = none ∧
    ∀ v' ∈ [o.reload preload, o.closeOpen preload],
      (v'.readAt Dev.ok buf offset).buf = (o.v.readAt Dev.ok buf offset).buf ∧
      (v'.readAt Dev.ok buf offset).n = (o.v.readAt Dev.ok buf offset).n ∧
      (v'.readAt Dev.ok buf offset).err = none := by
  have hI : o.OpenInv := inv_of_run (fun _ _ _ hI hop hstep => hI.step hop hstep)
    ⟨new_chainOk sectors hf₀, (new_locationOk sectors f₀).tableShows⟩ hgood hrun
  have hread : (o.v.readAt Dev.ok buf offset).Reads Dev.ok o.v.image offset buf.length :=
    (readAt_shown hI.chainOk (hI.table.locationLe hI.chainOk) hin).congr fun b _ hb =>
      hI.table.shown hI.chainOk (by omega)
  have hsame : ∀ v' : Volume,
      (v'.readAt Dev.ok buf offset).Reads Dev.ok o.v.image offset buf.length →
      (v'.readAt Dev.ok buf offset).buf = (o.v.readAt Dev.ok buf offset).buf ∧
      (v'.readAt Dev.ok buf offset).n = (o.v.readAt Dev.ok buf offset).n ∧
      (v'.readAt Dev.ok buf offset).err = none := fun v' h =>
    ⟨by rw [h.bytes (h.ok rfl), hread.bytes (hread.ok rfl)],
      by rw [h.count (h.ok rfl), hread.count (hread.ok rfl)], h.ok rfl⟩
  refine ⟨hread.ok rfl, fun v' hv' => hsame v' ?_⟩
  rcases List.mem_pair.1 hv' with rfl | rfl
  · exact reload_reads hI.chainOk preload hin
  · exact reload_reads (o := { o with v := o.v.holeDrainer })
      (hI.chainOk.of_files rfl rfl fun _ _ _ => rfl) preload hin

/-- The first of two sectors is written before a user-created snapshot, the second one after
it. -/
def writeBoth : List Op :=
  [.write (List.replicate 4096 1) 0, .snapshot 2 true, .write (List.replicate 4096 2) 4096]

/-- The second sector is discarded. -/
def discardSecond : List Op :=
  [.unmap 4096 4096]

theorem reopen_reads_discardSecond :
    ∃ o, run step (new 2 1) (writeBoth ++ discardSecond) = some o ∧
      (o.v.readAt Dev.ok [9] 4096).err = none ∧
      ∀ v' ∈ [o.reload true, o.closeOpen true],
        (v'.readAt Dev.ok [9] 4096).buf = (o.v.readAt Dev.ok [9] 4096).buf ∧
        (v'.readAt Dev.ok [9] 4096).n = (o.v.readAt Dev.ok [9] 4096).n ∧
        (v'.readAt Dev.ok [9] 4096).err = none := by
  have hbefore : (run step (new 2 1) writeBoth).map (fun o =>
      (o.v.snapIndx, o.v.hasExtent 1 1)) = some (1, false) := by decide +kernel
  have hsize : (run step (new 2 1) (writeBoth ++ discardSecond)).map (·.v.size) = some 8192 := by
    decide +kernel
  obtain ⟨o₁, ho₁, hbefore⟩ := Option.map_eq_some_iff.1 hbefore
  obtain ⟨o, ho, hsize⟩ := Option.map_eq_some_iff.1 hsize
  obtain ⟨hsnap, hext⟩ := Prod.mk.inj hbefore
  have hgood : Along step Discards (new 2 1) (writeBoth ++ discardSecond) := by
    rw [along_append _ _ ho₁]
    refine ⟨⟨trivial, fun _ _ => ⟨trivial, fun _ _ => ⟨trivial, fun _ _ => trivial⟩⟩⟩,
      fun s _ hin _ b hb => ?_, fun _ _ => trivial⟩
    -- the snapshot has no extent for the sector
    obtain rfl : s = 1 := by
      rw [SparseFile.inside_iff] at hin
      omega
    unfold imageAt topFile
    rw [hsnap, hb, top_succ_of_not _ hext]
    rfl
  refine ⟨o, ho, reopen_reads (by decide) ho hgood true [9] 4096 ?_⟩
  rw [hsize]
  decide

/-- A sector is written after a user-created snapshot, and discarded. -/
def discardAfter : List Op :=
  [.write (List.replicate 4096 1) 0, .snapshot 2 true, .write (List.replicate 4096 2) 0,
    .unmap 0 4096]

/-- The open volume reads zeros, and a reloaded one the old bytes of the snapshot. -/
theorem reopen_resurrects :
    ∃ o, run step (new 1 1) discardAfter = some o ∧
      (o.v.readAt Dev.ok [9] 0).err = none ∧ ((o.reload true).readAt Dev.ok [9] 0).err = none ∧
      ((o.reload true).readAt Dev.ok [9] 0).buf ≠ (o.v.readAt Dev.ok [9] 0).buf :=
  exists_of_any (by decide +kernel) fun _ _ => id

end Opened

end Jiva
