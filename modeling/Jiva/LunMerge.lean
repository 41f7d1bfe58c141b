import Jiva.LazyLookup
import Jiva.LunMap

/-!
# Writes beside `UpdateLUNMap`

`UpdateLUNMap` copies the diff-disk in one critical section and merges the scanned copy in another.
Between the two the lock is free, and `WriteAt` goes on changing the active file and the live table.
The extent query answers for a sector at some moment in between. A file below the active layer has
the extents it had before, and the active file only gets new ones, so the answer is the one from
before the scan or the one at hand (`Updating.Sees`). Nothing more is assumed about the order.

The merge keeps the higher entry. This is right because a sector is in the active file and was not
there before only if a write has put the active layer into the live table (`Grown.new`) : if the
scan missed the extent, the live table has it.
-/

namespace Jiva

open Layered

/-! ## The two critical sections and what runs between them -/

/-- `UpdateLUNMap` between its critical sections : the live volume, the scan of the copy, and the
answers of the extent query so far. -/
structure Updating where
  v : Volume
  sc : Scan
  seen : ℕ → ℕ → Bool

/-- What happens between the critical sections. -/
inductive UpdateOp
  | write (buf : List Byte) (offset : ℕ)
  | read (buf : List Byte) (offset : ℕ)
  | sector (seen : Bool)
  | nextFile

/-- What an operation makes of the bytes of the volume. -/
def UpdateOp.apply (img : ℕ → Byte) : UpdateOp → ℕ → Byte
  | .write buf offset => overlay img offset buf
  | .read _ _ => img
  | .sector _ => img
  | .nextFile => img

namespace Updating

/-- The first critical section. The scan of the copy is at its first file. -/
def start (v : Volume) : Updating :=
  ⟨v, (Scan.start v.copyForLUNMap).beginFile 1, fun _ _ => false⟩

/-- The answer for the sector at hand is one that the file gave since the first critical section. -/
def Sees (v₀ : Volume) (backing : Bool) (u : Updating) (seen : Bool) : Prop :=
  (v₀.findExtents backing u.sc.i u.sc.s = true → seen = true) ∧
  (seen = true → u.v.findExtents backing u.sc.i u.sc.s = true)

instance (v₀ : Volume) (backing : Bool) (u : Updating) (seen : Bool) :
    Decidable (Sees v₀ backing u seen) := by
  unfold Sees
  infer_instance

/-- One step between the critical sections, for a volume that was `v₀` in the first one. -/
def step (v₀ : Volume) (backing : Bool) (u : Updating) : UpdateOp → Option Updating
  | .write buf offset =>
    if offset + buf.length ≤ u.v.size then some { u with
      v := (u.v.writeAt Dev.ok buf offset).v } else none
  | .read buf offset => some { u with v := (u.v.readAt Dev.ok buf offset).v }
  | .sector seen =>
    if u.sc.s < u.sc.d.locationLen ∧ Sees v₀ backing u seen then
      some { u with
        sc := u.sc.sector u.v.shouldPunchHoles seen
        seen := fun i s => if i = u.sc.i ∧ s = u.sc.s then seen else u.seen i s }
    else none
  | .nextFile =>
    if u.sc.s = u.sc.d.locationLen ∧ u.sc.i < u.sc.d.target then
      some { u with sc := (u.sc.endFile u.v.shouldPunchHoles).beginFile (u.sc.i + 1) }
    else none

/-- The scan is at the end of the active file. -/
def Done (u : Updating) : Prop :=
  u.sc.i = u.sc.d.target ∧ u.sc.s = u.sc.d.locationLen

/-- The end of `preload`, and the second critical section. No step takes a hole from the queue, so
those of the scan are put there at its end. -/
def finish (u : Updating) : Volume :=
  let sc := u.sc.endFile u.v.shouldPunchHoles
  (u.v.sendHoles sc.sent).mergeLUNMap sc.d

end Updating

/-! ## Extents beside a scan -/

namespace Volume

/-- `v` comes from `v₀` by writes : files below the active layer have the extents they had, and what
is new in the active file is in the table. -/
structure Grown (v₀ v : Volume) : Prop where
  same : v₀.SameChain v
  below : ∀ i s, i < v₀.target → v.hasExtent i s = v₀.hasExtent i s
  grows : ∀ s, v₀.hasExtent v₀.target s = true → v.hasExtent v₀.target s = true
  new : ∀ s, v.hasExtent v₀.target s = true →
    v₀.hasExtent v₀.target s = true ∨ v.location s = v₀.target

namespace Grown

variable {v₀ v v' : Volume}

theorem refl (v : Volume) : Grown v v :=
  ⟨SameChain.refl v, fun _ _ _ => rfl, fun _ h => h, fun _ h => .inl h⟩

theorem fills (h : Grown v₀ v) (hc : v.ChainOk) (hf : v.Fills v') : Grown v₀ v' := by
  have hext := fun i s => hf.sameChain.hasExtent hf.store i s
  refine ⟨h.same.trans hf.sameChain, fun i s hi => (hext i s).trans (h.below i s hi),
    fun s hs => (hext _ s).trans (h.grows s hs), fun s hs => ?_⟩
  rw [hext] at hs
  refine (h.new s hs).imp_right fun htarget => ?_
  have htpos := hc.target_pos
  rw [h.same.target] at htpos
  obtain ⟨l, rfl, hl⟩ := hf
  -- an entry that names the active layer is known, so it is not filled in
  rcases hl s with hkeep | ⟨-, h0, -⟩
  · exact hkeep.trans htarget
  · omega

theorem write (h : Grown v₀ v) {k n : ℕ} (he : FullEffect v v' k n) : Grown v₀ v' := by
  have ht := h.same.target
  refine ⟨h.same.trans he.same, fun i s hi => ?_, fun s hs => ?_, fun s hs => ?_⟩
  · rw [he.hasExtent i s (by omega), h.below i s hi, decide_eq_false (by omega), Bool.or_false]
  · rw [he.hasExtent _ s (by omega), h.grows s hs, Bool.true_or]
  · rw [he.location, ht]
    split_ifs with hin
    · exact .inr rfl
    · refine h.new s ?_
      rwa [he.hasExtent _ s (by omega), decide_eq_false (fun hc => hin hc.2), Bool.or_false] at hs

theorem findExtents (h : Grown v₀ v) {backing : Bool} {i s : ℕ} (hi : i ≤ v₀.target)
    (hs : v₀.findExtents backing i s = true) : v.findExtents backing i s = true := by
  unfold Volume.findExtents at hs ⊢
  obtain ⟨hext, hb⟩ := Bool.and_eq_true_iff.1 hs
  refine Bool.and_eq_true_iff.2 ⟨?_, hb⟩
  rcases Nat.lt_or_ge i v₀.target with hlt | hge
  · rw [h.below i s hlt]
    exact hext
  · obtain rfl : i = v₀.target := le_antisymm hi hge
    exact h.grows s hext

/-- Where the table does not name the active layer, the extents are the old ones. -/
theorem findExtents_old (h : Grown v₀ v) {backing : Bool} {i s : ℕ} (hi : i ≤ v₀.target)
    (hloc : v.location s ≠ v₀.target) : v.findExtents backing i s = v₀.findExtents backing i s := by
  unfold Volume.findExtents
  congr 1
  rcases Nat.lt_or_ge i v₀.target with hlt | hge
  · exact h.below i s hlt
  · obtain rfl : i = v₀.target := le_antisymm hi hge
    rw [Bool.eq_iff_iff]
    exact ⟨fun hs => (h.new s hs).resolve_right hloc, h.grows s⟩

end Grown

/-- What a write and a read keep. -/
theorem Grown.writeAt {v₀ v : Volume} (h : Grown v₀ v) (hc : v.ChainOk)
    {buf : List Byte} {offset : ℕ} (hin : offset + buf.length ≤ v.size) :
    Grown v₀ (v.writeAt Dev.ok buf offset).v :=
  (writeAt_ind (X := False) hc hin nofun (fun _ _ h hc hf => h.fills hc hf)
    (fun _ _ _ _ h _ _ _ he => h.write he) h).inv

/-! ## The merged table -/

section Merged

variable {v₀ v : Volume} {backing : Bool} {seen : ℕ → ℕ → Bool} {s : ℕ}

/-- The answers of the extent query for sector `s` lie between the extents before the scan and those
after it. -/
structure Between (v₀ v : Volume) (backing : Bool) (seen : ℕ → ℕ → Bool) (s : ℕ) : Prop where
  old : ∀ i, 0 < i → i ≤ v₀.target → v₀.findExtents backing i s = true → seen i s = true
  now : ∀ i, i ≤ v₀.target → seen i s = true → v.findExtents backing i s = true

/-- Where the table does not name the active layer, the scan found the highest file with an
extent. -/
theorem Between.top_eq (hg : Grown v₀ v) (hb : Between v₀ v backing seen s)
    (hloc : v.location s ≠ v₀.target) :
    top seen v₀.target s = top (v.findExtents backing) v₀.target s := by
  refine top_congr fun i hi hit => ?_
  rw [Bool.eq_iff_iff]
  refine ⟨hb.now i hit, fun hext => hb.old i (Nat.pos_of_ne_zero hi) hit ?_⟩
  rwa [← hg.findExtents_old hit hloc]

/-- The higher of the two entries. -/
theorem Between.max_eq (hg : Grown v₀ v) (hc : v.ChainOk) (hl : v.LocationOk)
    (hs : s < v.locationLen) (hb : Between v₀ v backing seen s)
    (hne : top (v.findExtents backing) v.target s ≠ 0) :
    max (v.location s) (top seen v₀.target s) = top (v.findExtents backing) v.target s := by
  have htop := top_findExtents hne
  have hle := v.topFile_le v.target s
  have hsc := top_le seen v₀.target s
  have ht := hg.same.target
  have hown : v.location s = 0 ∨ v.location s = v.topFile v.target s := by
    refine (hl s hs).imp_right fun h => ?_
    rw [h, owner]
    omega
  by_cases hloc : v.location s = v₀.target
  · have := hc.target_pos
    omega
  · rw [hb.top_eq hg hloc, ← ht]
    omega

theorem Between.max_cases (hg : Grown v₀ v) (hl : v.LocationOk) (hs : s < v.locationLen)
    (hb : Between v₀ v backing seen s) (h0 : top (v.findExtents backing) v.target s = 0) :
    max (v.location s) (top seen v₀.target s) = 0 ∨
    max (v.location s) (top seen v₀.target s) = v.owner s := by
  have hsc := top_le seen v₀.target s
  have ht := hg.same.target
  by_cases hloc : v.location s = v₀.target
  · have := hl s hs
    rw [hloc] at this ⊢
    rwa [max_eq_left hsc]
  · rw [hb.top_eq hg hloc, ← ht, h0, Nat.max_zero]
    exact hl s hs

end Merged

end Volume

/-! ## Every interleaving -/

namespace Updating

/-- What holds between the critical sections. -/
structure Inv (v₀ : Volume) (backing : Bool) (u : Updating) : Prop where
  chainOk : u.v.ChainOk
  locationOk : u.v.LocationOk
  grown : v₀.Grown u.v
  still : Scan.Still v₀.copyForLUNMap u.seen u.sc.i u.sc.s u.sc
  i_pos : 0 < u.sc.i
  i_le : u.sc.i ≤ v₀.target
  s_le : u.sc.s ≤ v₀.locationLen
  scanned : ∀ i s, u.seen i s = true → i < u.sc.i ∨ i = u.sc.i ∧ s < u.sc.s
  now : ∀ i s, u.seen i s = true → u.v.findExtents backing i s = true
  old : ∀ i s, 0 < i → s < v₀.locationLen → i < u.sc.i ∨ i = u.sc.i ∧ s < u.sc.s →
    v₀.findExtents backing i s = true → u.seen i s = true

variable {v₀ : Volume} {backing : Bool} {u u' : Updating}

theorem inv_start (hc : v₀.ChainOk) (hl : v₀.LocationOk) (backing : Bool) :
    Inv v₀ backing (start v₀) where
  chainOk := hc
  locationOk := hl
  grown := Volume.Grown.refl v₀
  still := (Scan.Still.start _ fun _ => rfl).beginFile rfl (by decide)
  i_pos := Nat.one_pos
  i_le := hc.target_pos
  s_le := Nat.zero_le _
  scanned _ _ h := nomatch h
  now _ _ h := nomatch h
  old i s hi _ hlt := by
    simp only [start, Scan.beginFile] at hlt
    omega

section

variable (h : Inv v₀ backing u)
include h

/-- A change of the live volume, by a write or a read. -/
theorem Inv.live {v : Volume} (hc : v.ChainOk) (hl : v.LocationOk)
    (hg : v₀.Grown v) (hext : ∀ i s, i ≤ v₀.target → u.v.findExtents backing i s = true →
      v.findExtents backing i s = true) : Inv v₀ backing { u with v := v } := by
  refine { h with chainOk := hc, locationOk := hl, grown := hg, now := fun i s hs => ?_ }
  have hi := h.scanned i s hs
  have := h.i_le
  exact hext i s (by omega) (h.now i s hs)

theorem Inv.sector (hs : u.sc.s < u.sc.d.locationLen) {seen : Bool}
    (hsees : Sees v₀ backing u seen) : Inv v₀ backing { u with
      sc := u.sc.sector u.v.shouldPunchHoles seen
      seen := fun i s => if i = u.sc.i ∧ s = u.sc.s then seen else u.seen i s } := by
  have hsl : u.sc.s < v₀.locationLen := hs.trans_eq h.still.same.locationLen
  set obs : ℕ → ℕ → Bool :=
    fun i s => if i = u.sc.i ∧ s = u.sc.s then seen else u.seen i s with hobs
  have hat : obs u.sc.i u.sc.s = seen := if_pos ⟨rfl, rfl⟩
  have helse : ∀ i s, ¬(i = u.sc.i ∧ s = u.sc.s) → obs i s = u.seen i s := fun i s hne => if_neg hne
  have hstill : Scan.Still v₀.copyForLUNMap obs u.sc.i u.sc.s u.sc := by
    refine h.still.mono h.i_pos (fun i s hi => ?_) fun i s hi => helse i s (by omega)
    have := h.scanned i s hi
    rwa [helse i s (by omega)]
  have hu16 : v₀.copyForLUNMap.files.length ≤ 65536 := by
    rw [show v₀.copyForLUNMap.files = v₀.files from rfl, ← h.grown.same.files]
    exact h.chainOk.le_u16
  have hnext := hstill.sector hu16 h.i_pos h.i_le hsl u.v.shouldPunchHoles
  rw [hat] at hnext
  have hi : (u.sc.sector u.v.shouldPunchHoles seen).i = u.sc.i := u.sc.sector_i _ _
  have hs' : (u.sc.sector u.v.shouldPunchHoles seen).s = u.sc.s + 1 := rfl
  refine { h with
    still := ?_, i_pos := ?_, i_le := ?_, s_le := ?_, scanned := ?_, now := ?_, old := ?_ }
  · rw [hi, hs']
    exact hnext
  · exact h.i_pos.trans_eq hi.symm
  · exact hi.trans_le h.i_le
  · exact hsl
  · intro i s hseen
    rw [hi, hs']
    by_cases heq : i = u.sc.i ∧ s = u.sc.s
    · omega
    · have := h.scanned i s ((helse i s heq).symm.trans hseen)
      omega
  · intro i s hseen
    by_cases heq : i = u.sc.i ∧ s = u.sc.s
    · obtain ⟨rfl, rfl⟩ := heq
      exact hsees.2 (hat.symm.trans hseen)
    · exact h.now i s ((helse i s heq).symm.trans hseen)
  · intro i s hi0 hsl' hlt hext
    rw [hi, hs'] at hlt
    by_cases heq : i = u.sc.i ∧ s = u.sc.s
    · obtain ⟨rfl, rfl⟩ := heq
      exact hat.trans (hsees.1 hext)
    · exact (helse i s heq).trans (h.old i s hi0 hsl' (by omega) hext)

theorem Inv.target : u.sc.d.target = v₀.target := by
  unfold DiffDisk.target
  rw [h.still.same.files]
  rfl

theorem Inv.nextFile (hs : u.sc.s = u.sc.d.locationLen) (hi : u.sc.i < u.sc.d.target) :
    Inv v₀ backing { u with sc := (u.sc.endFile u.v.shouldPunchHoles).beginFile (u.sc.i + 1) } := by
  have hsl : u.sc.s = v₀.locationLen := hs.trans h.still.same.locationLen
  have hlt := h.chainOk.target_lt_u16
  rw [h.grown.same.target, ← h.target] at hlt
  have hstill := h.still
  rw [hsl] at hstill
  have hend := hstill.endFile h.i_le u.v.shouldPunchHoles
  refine { h with
    still := hend.beginFile rfl (by omega), i_pos := Nat.succ_pos _, i_le := ?_, s_le :=
      Nat.zero_le _,
    scanned := fun i s hseen => ?_, old := fun i s hi0 hsl' hlt hext => ?_ }
  · exact hi.trans_eq h.target
  · have := h.scanned i s hseen
    exact .inl (by simp only [Scan.beginFile]; omega)
  · refine h.old i s hi0 hsl' ?_ hext
    simp only [Scan.beginFile] at hlt
    omega

theorem step_spec {op : UpdateOp} (hstep : step v₀ backing u op = some u') :
    Inv v₀ backing u' ∧ u'.v.image = op.apply u.v.image := by
  cases op with
  | write buf offset =>
    simp only [step, Option.ite_none_right_eq_some, Option.some.injEq] at hstep
    obtain ⟨hin, rfl⟩ := hstep
    have hw := Volume.writeAt_writes Dev.ok h.chainOk h.locationOk hin
    have hself := (Volume.Grown.refl u.v).writeAt h.chainOk hin
    refine ⟨h.live hw.chainOk (hw.locationOk (hw.ok rfl)) (h.grown.writeAt h.chainOk hin)
      fun i s hi => hself.findExtents ?_, hw.image (hw.ok rfl)⟩
    rwa [h.grown.same.target]
  | read buf offset =>
    simp only [step, Option.some.injEq] at hstep
    obtain rfl := hstep
    have hf := Volume.readAt_fills Dev.ok h.chainOk buf offset
    have hself := (Volume.Grown.refl u.v).fills h.chainOk hf
    refine ⟨h.live (hf.chainOk h.chainOk) (hf.locationOk h.chainOk h.locationOk)
      (h.grown.fills h.chainOk hf) fun i s hi => hself.findExtents ?_, hf.image⟩
    rwa [h.grown.same.target]
  | sector seen =>
    simp only [step, Option.ite_none_right_eq_some, Option.some.injEq] at hstep
    obtain ⟨⟨hs, hsees⟩, rfl⟩ := hstep
    exact ⟨h.sector hs hsees, rfl⟩
  | nextFile =>
    simp only [step, Option.ite_none_right_eq_some, Option.some.injEq] at hstep
    obtain ⟨⟨hs, hi⟩, rfl⟩ := hstep
    exact ⟨h.nextFile hs hi, rfl⟩

end

theorem run_spec : ∀ {ops : List UpdateOp} {u u' : Updating}, Inv v₀ backing u →
    Transition.run (step v₀ backing) u ops = some u' →
    Inv v₀ backing u' ∧ u'.v.image = ops.foldl UpdateOp.apply u.v.image
  | [], u, u', h, hrun => by
    obtain rfl : u = u' := by simpa using hrun
    exact ⟨h, rfl⟩
  | op :: ops, u, u', h, hrun => by
    obtain ⟨t, ht, hrun⟩ := Option.bind_eq_some_iff.1 hrun
    obtain ⟨h', himg⟩ := step_spec h ht
    obtain ⟨h'', himg'⟩ := run_spec h' hrun
    exact ⟨h'', by rw [himg', himg, List.foldl_cons]⟩

/-! ## The second critical section -/

/-- A hole of whole sectors of a file of the chain `v`, each with a file above it that has data
there in `r` and no flag below that file. -/
def Shadowed (v r : Volume) (h : Hole) : Prop :=
  ∃ f lo len, 0 < f ∧ h = ⟨v.file f, lo * defaultSectorSize, len * defaultSectorSize⟩ ∧
    ∀ s, lo ≤ s → s < lo + len → ∃ j, f < j ∧ j ≤ v.target ∧ r.hasExtent j s = true ∧
      ∀ x, f ≤ x → x < j → v.flagged x = false

theorem Inv.at_end (h : Inv v₀ backing u) (hd : u.Done) :
    u.sc.i = v₀.target ∧ u.sc.s = v₀.locationLen :=
  ⟨hd.1.trans h.target, hd.2.trans h.still.same.locationLen⟩

theorem Inv.between (h : Inv v₀ backing u) (hd : u.Done) {s : ℕ} (hs : s < v₀.locationLen) :
    Volume.Between v₀ u.v backing u.seen s := by
  obtain ⟨htarget, hsl⟩ := h.at_end hd
  refine ⟨fun i hi hit hext => h.old i s hi hs ?_ hext, fun i _ hi => h.now i s hi⟩
  rw [hsl, htarget]
  rcases Nat.lt_or_ge i v₀.target with hlt | hge
  · exact .inl hlt
  · exact .inr ⟨le_antisymm hit hge, hs⟩

/-- The table of the copy, once all files were scanned. -/
theorem Inv.table (h : Inv v₀ backing u) (hd : u.Done) {s : ℕ} (hs : s < v₀.locationLen) :
    u.sc.d.location s = top u.seen v₀.target s := by
  obtain ⟨htarget, hsl⟩ := h.at_end hd
  rw [h.still.table s hs, if_pos (hs.trans_eq hsl.symm), htarget]

theorem finish_same (u : Updating) : u.v.SameChain u.finish :=
  ⟨rfl, rfl, rfl, rfl, rfl⟩

section

variable (h : Inv v₀ backing u)
include h

theorem finish_location (hd : u.Done) {s : ℕ} (hs : s < v₀.locationLen) :
    u.finish.location s = max (u.v.location s) (top u.seen v₀.target s) := by
  have hm := (Volume.mergeLoop_inv (u.v.sendHoles (u.sc.endFile u.v.shouldPunchHoles).sent)
    (u.sc.endFile u.v.shouldPunchHoles).d).location s
  rw [← h.table hd hs]
  exact hm.trans (if_pos (hs.trans_eq h.still.same.locationLen.symm))

theorem finish_chainOk : u.finish.ChainOk :=
  h.chainOk.of_files rfl rfl fun _ _ _ => rfl

theorem finish_locationOk (hd : u.Done) : u.finish.LocationOk := by
  intro s hs
  have hs₀ : s < v₀.locationLen := hs.trans_eq h.grown.same.locationLen
  rw [finish_location h hd hs₀]
  by_cases h0 : top (u.v.findExtents backing) u.v.target s = 0
  · exact (h.between hd hs₀).max_cases h.grown h.locationOk hs h0
  · right
    rw [(h.between hd hs₀).max_eq h.grown h.chainOk h.locationOk hs h0, ← Volume.top_findExtents h0]
    show u.v.topFile u.v.target s = max 1 (u.v.topFile u.v.target s)
    have := Volume.top_findExtents h0
    omega

/-- The holes of the scan. -/
theorem Inv.shadowed_scan (hd : u.Done) {hole : Hole}
    (hh : hole ∈ (u.sc.endFile u.v.shouldPunchHoles).sent) : Shadowed v₀ u.finish hole := by
  have hstill := h.still
  rw [(h.at_end hd).2] at hstill
  obtain ⟨f, lo, len, hpos, -, -, heq, hall⟩ :=
    (hstill.endFile h.i_le u.v.shouldPunchHoles).sent hole hh
  refine ⟨f, lo, len, hpos, heq, fun s h1 h2 => ?_⟩
  obtain ⟨j, hfj, hjt, hj, hnone⟩ := hall s h1 h2
  exact ⟨j, hfj, hjt, Volume.hasExtent_of_findExtents (h.now j s hj),
    fun x hfx hxj => hnone x hfx hxj.le⟩

/-- The holes of the merge : above the latest flag, and below the entry of the live table. -/
theorem Inv.shadowed_merge (hflags : v₀.userCreatedSnap.length = v₀.files.length)
    {hole : Hole}
    (hh : hole ∈ (Volume.mergeLoop (u.v.sendHoles (u.sc.endFile u.v.shouldPunchHoles).sent)
      (u.sc.endFile u.v.shouldPunchHoles).d).sent) : Shadowed v₀ u.finish hole := by
  obtain ⟨f, lo, len, heq, hsnap, -, hall⟩ := (Volume.mergeLoop_inv _ _).sent hole hh
  have hlast : ∀ x, v₀.flagged x = true → x < f := by
    intro x hx
    have hu16 := h.chainOk.le_u16
    rw [h.grown.same.files, ← hflags] at hu16
    rw [show (u.sc.endFile u.v.shouldPunchHoles).d.userCreatedSnap = v₀.userCreatedSnap from
      h.still.same.userCreatedSnap] at hsnap
    rcases DiffDisk.lastUserCreated_spec v₀.userCreatedSnap 0 with ⟨hnone, -⟩ | ⟨hflag, hmax⟩
    · exact absurd (hx.symm.trans (hnone x)) (by decide)
    · have hlt : DiffDisk.lastUserCreated v₀.userCreatedSnap 0 < v₀.userCreatedSnap.length := by
        by_contra hge
        rw [List.getD_eq_default _ _ (by omega)] at hflag
        cases hflag
      rw [u16_of_lt (by omega)] at hsnap
      exact (hmax x hx).trans_lt hsnap
  refine ⟨f, lo, len, Nat.zero_lt_of_lt hsnap, ?_, fun s h1 h2 => ?_⟩
  · rw [heq]
    unfold DiffDisk.file
    rw [show (u.sc.endFile u.v.shouldPunchHoles).d.files = v₀.files from h.still.same.files]
  · obtain ⟨hs, -, hf, hlt⟩ := hall s h1 h2
    have hs' : s < u.v.locationLen := by
      rw [h.grown.same.locationLen]
      exact hs.trans_eq h.still.same.locationLen
    -- an entry above a file is not the base that stands in for no file
    have hown : u.v.location s = u.v.topFile u.v.target s := by
      have hlt : f < u.v.location s := hlt
      rcases h.locationOk s hs' with h0 | hown
      · omega
      · unfold Volume.owner at hown
        omega
    have hne : u.v.topFile u.v.target s ≠ 0 := by
      have hlt : f < u.v.location s := hlt
      omega
    refine ⟨u.v.location s, hlt, ?_, ?_, fun x hfx _ => ?_⟩
    · rw [hown, ← h.grown.same.target]
      exact u.v.topFile_le u.v.target s
    · rw [(finish_same u).hasExtent rfl, hown]
      exact holds_top _ _ _ hne
    · by_contra hx
      have := hlast x (by simpa using hx)
      omega

end

/-- `UpdateLUNMap`, for a chain with any extents and flags, a table whose known entries are right,
and any writes between the critical sections. Afterwards the live table names the highest file with
an extent, the volume reads like the old image with the writes applied, and each hole of the scan or
the merge has a file above it that has data there, with no flag from the lower file up to that
one. -/
theorem updateLUNMap_merge {v : Volume} (hc : v.ChainOk) (hl : v.LocationOk)
    (hflags : v.userCreatedSnap.length = v.files.length) (backing : Bool) {ops : List UpdateOp}
    {u : Updating} (hrun : Transition.run (step v backing) (start v) ops = some u) (hd : u.Done) :
    (∀ s, s < v.locationLen → top (u.finish.findExtents backing) v.target s ≠ 0 →
      u.finish.location s = top (u.finish.findExtents backing) v.target s) ∧
    (∀ (dev : Dev) (buf : List Byte) (offset : ℕ), offset + buf.length ≤ v.size →
      (u.finish.readAt dev buf offset).Reads dev
        (ops.foldl UpdateOp.apply v.image) offset buf.length) ∧
    ∃ hs, u.finish.holeCreatorChan = u.v.holeCreatorChan ++ hs ∧
      ∀ h ∈ hs, ∃ f lo len, 0 < f ∧ h = ⟨v.file f, lo * defaultSectorSize,
        len * defaultSectorSize⟩ ∧ ∀ s, lo ≤ s → s < lo + len → ∃ j, f < j ∧ j ≤ v.target ∧
        u.finish.hasExtent j s = true ∧
          ∀ x, f ≤ x → x < j → v.flagged x = false := by
  obtain ⟨h, himg⟩ := run_spec (inv_start hc hl backing) hrun
  have hsame : v.SameChain u.finish := h.grown.same.trans (finish_same u)
  refine ⟨fun s hs hne => ?_, fun dev buf offset hin => ?_, _, List.append_assoc _ _ _,
    fun hole hh => ?_⟩
  · have hext : u.finish.findExtents backing = u.v.findExtents backing := rfl
    rw [hext, ← h.grown.same.target] at hne ⊢
    rw [finish_location h hd hs]
    exact (h.between hd hs).max_eq h.grown h.chainOk h.locationOk
      (hs.trans_eq h.grown.same.locationLen.symm) hne
  · rw [show ops.foldl UpdateOp.apply v.image = u.finish.image from himg.symm]
    refine Volume.readAt_spec (finish_chainOk h) (finish_locationOk h hd) ?_
    unfold Volume.size at hin ⊢
    rwa [hsame.locationLen]
  · exact (List.mem_append.1 hh).elim (h.shadowed_scan hd) (h.shadowed_merge hflags)

/-- One sector, in the base only. A write of one byte comes between the scan of the base and the
scan of the active file, and the scan misses it. -/
theorem updateLUNMap_merge_missed :
    let v : Volume := { Volume.new 1 1 with
      files := [0, 1, 2]
      store := fun f => if f = 1 then (SparseFile.empty 4096).writeAt [7,
        8] 0 else SparseFile.empty 4096
      userCreatedSnap := [false, false, false]
      shouldPunchHoles := true }
    ∃ u, Transition.run (step v false) (start v)
        [.sector true, .nextFile, .write [9] 1, .sector false] = some u ∧
      u.sc.d.location 0 = 1 ∧ u.finish.location 0 = 2 ∧
      (u.finish.readAt Dev.ok [0, 0, 0] 0).buf = [7, 9, 0] := by
  intro v
  have hc : v.ChainOk := by
    have hsize : ∀ i < 3, 0 < i → (v.store (v.file i)).size = v.size := by decide +kernel
    exact ⟨by decide, by decide, rfl, by decide, fun i hi hil => hsize i hil hi⟩
  have hrun : (Transition.run (step v false) (start v)
      [.sector true, .nextFile, .write [9] 1, .sector false]).map
        (fun u => (u.sc.d.location 0, u.sc.i, u.sc.s, u.sc.d.target, u.sc.d.locationLen,
          top (u.finish.findExtents false) 2 0)) = some (1, 2, 1, 2, 1, 2) := by
    decide +kernel
  obtain ⟨u, hu, heq⟩ := Option.map_eq_some_iff.1 hrun
  simp only [Prod.mk.injEq] at heq
  obtain ⟨hscan, hi, hs, ht, hlen, htop⟩ := heq
  obtain ⟨hloc, hread, -⟩ := updateLUNMap_merge hc (fun _ _ => .inl rfl) rfl false hu
    ⟨hi.trans ht.symm, hs.trans hlen.symm⟩
  have hr := hread Dev.ok [0, 0, 0] 0 (by decide)
  refine ⟨u, hu, hscan, (hloc 0 Nat.one_pos ?_).trans htop, ?_⟩
  · exact htop.trans_ne (by decide)
  · rw [hr.bytes (hr.ok rfl)]
    decide +kernel

end Updating

end Jiva
