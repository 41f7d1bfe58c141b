import Jiva.LunMap

/-!
# A live replica with its user-created snapshots

`Live` is an open volume with the `UserCreated` flags of the disks of its chain and the
extent scan of an `UpdateLUNMap` that may be running. Its operations are those a replica
performs while it is open : reads and writes, `Unmap`, snapshots, reopening with `preload`,
the three parts of `UpdateLUNMap`, and the hole creator, in any order.

`TableOk` is what the location table still says after `Unmap`, which frees extents and
leaves the table alone : an entry is at or above every file with an extent, and if its own
file has none, then no file between the latest user-created snapshot and it has. `LunTable`
says the same of the table that an `UpdateLUNMap` fills, as far as its scan has come.
-/

namespace Jiva

open Layered

/-- An open volume, the flags of the disks of its chain, and a running `UpdateLUNMap`. -/
structure Live where
  v : Volume
  userCreated : List Bool
  lun : Option Scan

namespace Live

/-- The disk at index `u` is a user-created snapshot. -/
def isUser (l : Live) (u : ℕ) : Bool :=
  l.userCreated.getD u false

/-- The user-created snapshots and the active layer. -/
def viewers (l : Live) : Viewers :=
  fun u => l.isUser u = true ∨ u = l.v.target

/-- What a replica does while it is open. -/
inductive Op
  | write (buf : List Byte) (offset : ℕ)
  | read (buf : List Byte) (offset : ℕ)
  | unmap (offset len : ℕ)
  | snapshot (f : ℕ) (userCreated : Bool)
  | reload
  | reopen
  | punch (k : ℕ)
  | lunBegin
  | lunScan
  | lunMerge

/-- One step of the extent scan of a running `UpdateLUNMap`. The holes it sends off join the
queue. -/
def scanStep (l : Live) (sc : Scan) : Live :=
  let sc' := sc.next l.v.shouldPunchHoles ((l.v.store (sc.d.file sc.i)).alloc sc.s)
  { l with
    v := l.v.sendHoles sc'.sent
    lun := some { sc' with sent := [] } }

/-- The active layer becomes a snapshot, below a new one. -/
def snapshotted (l : Live) (f : ℕ) (userCreated : Bool) : Live :=
  { l with
    v := l.v.appendHead f userCreated
    userCreated := l.userCreated.set l.v.target userCreated ++ [false] }

/-- One operation. Requests lie inside the volume, and a snapshot takes a new inode while there
are indices left for it. `Reload` keeps the queue of holes and `Close` drains it. -/
def step (l : Live) : Op → Option Live
  | .write buf offset =>
    if offset + buf.length ≤ l.v.size then
      some { l with v := (l.v.writeAt Dev.ok buf offset).v }
    else none
  | .read buf offset => some { l with v := (l.v.readAt Dev.ok buf offset).v }
  | .unmap offset len => some { l with v := (l.v.unmap offset len).1 }
  | .snapshot f userCreated =>
    if f ∉ l.v.files ∧ l.v.files.length < 65536 then
      some (l.snapshotted f userCreated)
    else none
  | .reload => some { l with v := (l.v.openLiveChain l.userCreated).preload }
  | .reopen =>
    some { l with v := (l.v.holeDrainer.openLiveChain l.userCreated).preload, lun := none }
  | .punch k => (l.v.createHole k).map fun v => { l with v := v }
  | .lunBegin =>
    match l.lun with
    | none => some { l with lun := some ((Scan.start l.v.copyForLUNMap).beginFile 1) }
    | some _ => none
  | .lunScan =>
    match l.lun with
    | none => none
    | some sc => if sc.i ≤ sc.d.target then some (l.scanStep sc) else none
  | .lunMerge =>
    match l.lun with
    | none => none
    | some sc =>
      if sc.d.target < sc.i then some { l with v := l.v.mergeLUNMap sc.d, lun := none } else none

/-- A new replica. -/
def new (sectors f : ℕ) : Live :=
  ⟨Volume.new sectors f, [false, false], none⟩

end Live

namespace Volume

/-- What the table says, also after `Unmap`. -/
structure EntryOk (v : Volume) (s : ℕ) : Prop where
  le_target : v.location s ≤ v.target
  top_le : v.topFile v.target s ≤ v.location s
  held : v.hasExtent (v.location s) s = true ∨
    ∀ f, v.snapIndx < f → f < v.location s → v.hasExtent f s = false

/-- Every known entry of the table is right up to discarded extents. -/
def TableOk (v : Volume) : Prop :=
  ∀ s, s < v.locationLen → v.location s ≠ 0 → v.EntryOk s

theorem TableOk.locationLe {v : Volume} (h : v.TableOk) : v.LocationLe := by
  intro s hs
  rcases Nat.eq_zero_or_pos (v.location s) with h0 | h0
  · omega
  · exact (h s hs (by omega)).le_target

section Table

variable {v v' : Volume}

theorem entryOk_of_owner (hc : v.ChainOk) {s : ℕ} (h : v.location s = v.owner s) : v.EntryOk s := by
  refine ⟨by rw [h]; exact v.owner_le hc s, by rw [h]; exact Nat.le_max_right _ _, ?_⟩
  rw [h, owner]
  rcases Nat.eq_zero_or_pos (v.topFile v.target s) with h0 | h0
  · exact .inr fun f hf hf1 => by omega
  · rw [Nat.max_eq_right h0]
    exact .inl (holds_top _ _ _ h0.ne')

theorem TableOk.fills (hc : v.ChainOk) (h : v.TableOk) (hf : v.Fills v') : v'.TableOk := by
  have hc' := hf.chainOk hc
  obtain ⟨l, rfl, hl⟩ := hf
  intro s hs h0
  rcases hl s with hls | ⟨_, _, hls⟩
  · rw [withLocation_location, hls] at h0
    obtain ⟨h1, h2, h3⟩ := h s hs h0
    exact ⟨by simpa [hls] using h1, by simpa [hls] using h2, by
      rw [withLocation_location, hls]
      exact h3⟩
  · refine entryOk_of_owner hc' ?_
    rw [withLocation_location, hls, hc.u16_owner]
    rfl

theorem TableOk.write {k n : ℕ} (h : v.TableOk) (he : FullEffect v v' k n) : v'.TableOk := by
  intro s hs h0
  rw [he.same.locationLen] at hs
  have htop := topFile_effect he le_rfl s
  by_cases hin : k ≤ s ∧ s < k + n
  · have hloc : v'.location s = v.target := by rw [he.location, if_pos hin]
    refine ⟨by rw [hloc, he.same.target], ?_, .inl ?_⟩
    · rw [he.same.target, hloc, htop, if_pos ⟨rfl, hin⟩]
    · rw [hloc, he.hasExtent _ _ le_rfl, decide_eq_true ⟨rfl, hin⟩, Bool.or_true]
  · have hloc : v'.location s = v.location s := by rw [he.location, if_neg hin]
    have hext : ∀ i, i ≤ v.target → v'.hasExtent i s = v.hasExtent i s := fun i hi => by
      rw [he.hasExtent i s hi, decide_eq_false fun h => hin h.2, Bool.or_false]
    rw [hloc] at h0
    obtain ⟨h1, h2, h3⟩ := h s hs h0
    refine ⟨by rwa [hloc, he.same.target], ?_, ?_⟩
    · rwa [he.same.target, hloc, htop, if_neg fun h => hin h.2]
    · rw [hloc, he.same.snapIndx, hext _ h1]
      exact h3.imp_right fun h f hf hfl => by rw [hext f (by omega), h f hf hfl]

/-- Files that lose extents, such that the entry's own file loses one only if no file between
the latest user-created snapshot and it keeps one. -/
theorem TableOk.lose (h : v.TableOk) (hsame : v.SameChain v') (hloc : v'.location = v.location)
    (hle : ∀ i s, i ≤ v.target → v'.hasExtent i s = true → v.hasExtent i s = true)
    (hlost : ∀ s, s < v.locationLen → v.location s ≠ 0 →
      v.hasExtent (v.location s) s = true → v'.hasExtent (v.location s) s = false →
      ∀ f, v.snapIndx < f → f < v.location s → v'.hasExtent f s = false) : v'.TableOk := by
  intro s hs h0
  rw [hsame.locationLen] at hs
  rw [hloc] at h0
  obtain ⟨h1, h2, h3⟩ := h s hs h0
  refine ⟨by rwa [hloc, hsame.target], ?_, ?_⟩
  · rw [hloc, hsame.target]
    refine le_trans ?_ h2
    rcases Nat.eq_zero_or_pos (v'.topFile v.target s) with h | h
    · omega
    · have hle' := v'.topFile_le v.target s
      exact le_top _ hle' (hle _ _ hle' (holds_top _ _ _ h.ne')) h.ne'
  · rw [hloc, hsame.snapIndx]
    rcases h3 with h3 | h3
    · cases hx : v'.hasExtent (v.location s) s with
      | true => exact .inl rfl
      | false => exact .inr (hlost s hs h0 h3 hx)
    · refine .inr fun f hf hfl => ?_
      by_contra hx
      have := hle f s (by omega) (by simpa using hx)
      rw [h3 f hf hfl] at this
      cases this

theorem TableOk.appendHead (hc : v.ChainOk) (h : v.TableOk) {f : ℕ} {userCreated : Bool}
    (hf : f ∉ v.files) (hsnap : v.snapIndx ≤ v.target) : (v.appendHead f userCreated).TableOk := by
  have htl := hc.target_lt
  have hpos : 0 < v.files.length := by omega
  intro s hs h0
  have hloc : (v.appendHead f userCreated).location s = v.location s := rfl
  obtain ⟨h1, h2, h3⟩ := h s hs h0
  refine ⟨?_, ?_, ?_⟩
  · rw [hloc, appendHead_target _ _ _ hpos]
    omega
  · rwa [hloc, appendHead_topFile_target hf hpos]
  · rw [hloc, appendHead_hasExtent_of_lt hf (by omega)]
    refine h3.imp_right fun h g hg hgl => ?_
    rw [appendHead_hasExtent_of_lt hf (by omega)]
    refine h g ?_ hgl
    have : (v.appendHead f userCreated).snapIndx =
        if userCreated then (v.files ++ [f]).length - 2 else v.snapIndx := rfl
    rw [this] at hg
    split_ifs at hg
    · simp only [List.length_append, List.length_singleton] at hg
      have : v.target = v.files.length - 1 := rfl
      omega
    · exact hg

end Table

/-- The index through which a file is looked at : the latest user-created snapshot if the file
is at or below it, and else the active layer. -/
def viewOf (v : Volume) (f : ℕ) : ℕ :=
  if f ≤ v.snapIndx then v.snapIndx else v.target

/-- What a scanned entry says : its file has an extent, or the sector was discarded, or a file
above it is seen instead. -/
def ScannedOk (v : Volume) (t s : ℕ) : Prop :=
  v.hasExtent t s = true ∨ (∀ f, v.snapIndx < f → f ≤ t → v.hasExtent f s = false) ∨
    t < v.topFile (v.viewOf t) s

/-- The table of a running `UpdateLUNMap` : every extent its scan has passed is in one of the
two tables, and its entries are right up to what happened since. -/
structure LunTable (v : Volume) (sc : Scan) : Prop where
  found : ∀ i s, s < v.locationLen → i ≤ v.target →
    (sc.d.target < i ∨ i < sc.i ∨ i = sc.i ∧ s < sc.s) → v.hasExtent i s = true →
    i ≤ max (sc.d.location s) (v.location s)
  kept : ∀ s, s < v.locationLen → sc.d.location s ≠ 0 → v.ScannedOk (sc.d.location s) s

section LunTable

variable {v v' : Volume} {sc : Scan}

theorem LunTable.fills (h : LunTable v sc) (hf : v.Fills v') : LunTable v' sc := by
  obtain ⟨l, rfl, hl⟩ := hf
  refine ⟨fun i s hs hi hpos hext => ?_, h.kept⟩
  have hle := h.found i s hs hi hpos hext
  rw [withLocation_location]
  rcases hl s with hls | ⟨_, h0, hls⟩
  · rwa [hls]
  · rw [h0] at hle
    omega

theorem ScannedOk.write {k n t s : ℕ} (h : v.ScannedOk t s) (he : FullEffect v v' k n)
    (ht : t ≤ v.target) (hsnap : v.snapIndx < v.target) : v'.ScannedOk t s := by
  have hview : v'.viewOf t = v.viewOf t := by
    unfold viewOf
    rw [he.same.snapIndx, he.same.target]
  by_cases hin : t = v.target ∧ k ≤ s ∧ s < k + n
  · left
    rw [he.hasExtent t s ht, decide_eq_true hin, Bool.or_true]
  · rcases h with h | h | h
    · left
      rw [he.hasExtent t s ht, h, Bool.true_or]
    · right; left
      intro f hf hft
      rw [he.same.snapIndx] at hf
      rw [he.hasExtent f s (by omega), h f hf hft, decide_eq_false (by omega), Bool.or_false]
    · right; right
      have hle : v.viewOf t ≤ v.target := by
        unfold viewOf
        split_ifs <;> omega
      have htop := v.topFile_le (v.viewOf t) s
      rw [hview, topFile_effect he hle]
      split_ifs <;> omega

theorem LunTable.write {k n : ℕ} (h : LunTable v sc) (he : FullEffect v v' k n)
    (ht : ∀ s, sc.d.location s ≤ v.target) (hsnap : v.snapIndx < v.target) : LunTable v' sc := by
  refine ⟨fun i s hs hi hpos hext => ?_, fun s hs h0 => ?_⟩
  · rw [he.same.locationLen] at hs
    rw [he.same.target] at hi
    rw [he.location]
    rw [he.hasExtent i s hi] at hext
    split_ifs with hin
    · omega
    · rw [decide_eq_false fun h => hin h.2, Bool.or_false] at hext
      exact h.found i s hs hi hpos hext
  · rw [he.same.locationLen] at hs
    exact (h.kept s hs h0).write he (ht s) hsnap

theorem LunTable.appendHead (h : LunTable v sc) {f : ℕ} (hf : f ∉ v.files) (hc : v.ChainOk)
    (hsc : sc.d.target ≤ v.target) (ht : ∀ s, sc.d.location s ≤ v.target)
    (hsnap : v.snapIndx < v.target) : LunTable (v.appendHead f false) sc := by
  have htl := hc.target_lt
  have hpos : 0 < v.files.length := by omega
  have htv : v.target + 1 = v.files.length := by
    have : v.target = v.files.length - 1 := rfl
    omega
  have hsn : (v.appendHead f false).snapIndx = v.snapIndx := rfl
  refine ⟨fun i s hs hi hpos' hext => ?_, fun s hs h0 => ?_⟩
  · rw [appendHead_target _ _ _ hpos] at hi
    rcases Nat.lt_or_ge v.target i with hlt | hge
    · obtain rfl : i = v.files.length := by omega
      rw [appendHead_hasExtent_length] at hext
      cases hext
    · rw [appendHead_hasExtent_of_lt hf (by omega)] at hext
      exact h.found i s hs hge hpos' hext
  · have hts := ht s
    rcases h.kept s hs h0 with h | h | h
    · left
      rwa [appendHead_hasExtent_of_lt hf (by omega)]
    · right; left
      intro g hg hgt
      rw [appendHead_hasExtent_of_lt hf (by omega)]
      exact h g hg hgt
    · right; right
      unfold viewOf at h ⊢
      rw [hsn]
      split_ifs at h ⊢
      · rwa [appendHead_topFile hf (by omega)]
      · rwa [appendHead_topFile_target hf hpos]

theorem LunTable.holeStep {V : Viewers} (h : LunTable v sc) (hstep : HoleStep v v' V)
    (hc : v.ChainOk) (ht : ∀ s, sc.d.location s ≤ v.target) (hhead : V v.target)
    (huser : v.snapIndx ≠ 0 → V v.snapIndx) (hsnap : v.snapIndx < v.target) : LunTable v' sc := by
  have htl := hc.target_lt
  refine ⟨fun i s hs hi hpos hext => ?_, fun s hs h0 => ?_⟩
  · rw [hstep.same.locationLen] at hs
    rw [hstep.same.target] at hi
    rw [hstep.location]
    exact h.found i s hs hi hpos (hstep.hasExtent_le i s (by omega) hext)
  · rw [hstep.same.locationLen] at hs
    have hts := ht s
    have hview : v'.viewOf (sc.d.location s) = v.viewOf (sc.d.location s) := by
      unfold viewOf
      rw [hstep.same.snapIndx, hstep.same.target]
    have hV : V (v.viewOf (sc.d.location s)) ∧ v.viewOf (sc.d.location s) ≤ v.target ∧
        sc.d.location s ≤ v.viewOf (sc.d.location s) := by
      unfold viewOf
      split_ifs with hle
      · exact ⟨huser (by omega), by omega, hle⟩
      · exact ⟨hhead, le_rfl, hts⟩
    have htop := hstep.topFile _ s hV.1 hV.2.1
    rcases h.kept s hs h0 with hk | hk | hk
    · cases hx : v'.hasExtent (sc.d.location s) s with
      | true => exact .inl hx
      | false =>
        right; right
        obtain ⟨j, hj, hju, hext⟩ :=
          (hstep.lost _ s (by omega) hk hx).hidden hk _ hV.1 hV.2.2 hV.2.1
        rw [hview, htop]
        exact hj.trans_le (le_top _ hju hext (by omega))
    · right; left
      intro f hf hft
      rw [hstep.same.snapIndx] at hf
      by_contra hx
      have := hstep.hasExtent_le f s (by omega) (by simpa using hx)
      rw [hk f hf hft] at this
      cases this
    · right; right
      rwa [hview, htop]

theorem LunTable.unmap {offset len : ℕ} (h : LunTable v sc) (hc : v.ChainOk)
    (he : PunchEffect v v' (fun i => v.snapIndx < i) offset len)
    (ht : ∀ s, sc.d.location s ≤ v.target) (hsnap : v.snapIndx < v.target) : LunTable v' sc := by
  have htl := hc.target_lt
  have hkeep : ∀ i s, i ≤ v.target → (i ≤ v.snapIndx ∨ SparseFile.inside offset len s = false) →
      v'.hasExtent i s = v.hasExtent i s := by
    intro i s hi hor
    rw [he.hasExtent (by omega)]
    rcases hor with h | h
    · rw [decide_eq_false (by omega)]
      simp
    · simp [h]
  refine ⟨fun i s hs hi hpos hext => ?_, fun s hs h0 => ?_⟩
  · rw [he.same.locationLen] at hs
    rw [he.same.target] at hi
    rw [he.location]
    exact h.found i s hs hi hpos (he.hasExtent_le (by omega) hext)
  · rw [he.same.locationLen] at hs
    have hts := ht s
    have hview : v'.viewOf (sc.d.location s) = v.viewOf (sc.d.location s) := by
      unfold viewOf
      rw [he.same.snapIndx, he.same.target]
    cases hin : SparseFile.inside offset len s with
    | false =>
      -- the sector is not wholly inside the range, so it keeps its extents
      have hall : ∀ i, i ≤ v.target → v'.hasExtent i s = v.hasExtent i s :=
        fun i hi => hkeep i s hi (.inr hin)
      have hvle : v.viewOf (sc.d.location s) ≤ v.target := by
        unfold viewOf
        split_ifs <;> omega
      rcases h.kept s hs h0 with hk | hk | hk
      · exact .inl (by rwa [hall _ hts])
      · refine .inr (.inl fun f hf hft => ?_)
        rw [he.same.snapIndx] at hf
        rw [hall f (by omega), hk f hf hft]
      · refine .inr (.inr ?_)
        rw [hview, show v'.topFile (v.viewOf (sc.d.location s)) s =
          v.topFile (v.viewOf (sc.d.location s)) s from top_congr fun i _ hi => hall i (by omega)]
        exact hk
    | true =>
      rcases Nat.lt_or_ge v.snapIndx (sc.d.location s) with hlt | hge
      · -- every file above the latest user-created snapshot loses the sector
        refine .inr (.inl fun f hf hft => ?_)
        rw [he.same.snapIndx] at hf
        rw [he.hasExtent (by omega), decide_eq_true hf, hin]
        simp
      · rcases h.kept s hs h0 with hk | hk | hk
        · exact .inl (by rwa [hkeep _ s hts (.inl hge)])
        · refine .inr (.inl fun f hf hft => ?_)
          rw [he.same.snapIndx] at hf
          omega
        · refine .inr (.inr ?_)
          rw [viewOf, if_pos hge] at hk
          rw [hview, viewOf, if_pos hge, show v'.topFile v.snapIndx s = v.topFile v.snapIndx s from
            top_congr fun i _ hi => hkeep i s (by omega) (.inl hi)]
          exact hk

end LunTable

end Volume

end Jiva
