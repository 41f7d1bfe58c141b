import Jiva.Preload

/-!
# What the operations do, for invariants

One lemma for each operation says what it does to the files, the table and the queue, and
every invariant below is derived from these lemmas.

A `WriteAt` on a device that does not fail is a sequence of two kinds of steps : unknown
table entries are filled in (`Fills`), and whole sectors are written (`FullEffect`). What
both keep, every `WriteAt` keeps (`writeAt_ind`). So an invariant of the volume needs one
argument about filling in and one about whole sectors, whatever offset and length the
request has. `Unmap` and the hole creator only take extents away (`unmap_effect`,
`createHole_effect`).
-/

namespace Jiva

open Layered Function

namespace Volume

variable {v v' : Volume} {i k n : ℕ} {buf : List Byte}

/-- What a write of the `n` sectors from `k` does to the chain, the table and the queue. -/
structure FullEffect (v v' : Volume) (k n : ℕ) : Prop where
  same : v.SameChain v'
  others : ∀ f, f ≠ v.file v.target → v'.store f = v.store f
  size : (v'.store (v.file v.target)).size = (v.store (v.file v.target)).size
  hasExtent : ∀ i s, i ≤ v.target →
    v'.hasExtent i s = (v.hasExtent i s || decide (i = v.target ∧ k ≤ s ∧ s < k + n))
  location : ∀ s, v'.location s = if k ≤ s ∧ s < k + n then v.target else v.location s
  holes : ∃ hs, v'.holeCreatorChan = v.holeCreatorChan ++ hs ∧
    ∀ h ∈ hs, ∃ i lo len, v.WriteHole k n h i lo len

theorem fullWriteAt_effect (hc : v.ChainOk) (hn : buf.length = n * defaultSectorSize)
    (hin : k + n ≤ v.locationLen) :
    FullEffect v (v.fullWriteAt Dev.ok buf (k * defaultSectorSize)).v k n := by
  have h := fullWriteAt_spec Dev.ok v buf (k * defaultSectorSize)
    (by rw [hn, Nat.mul_mod_left]) (Nat.mul_mod_left _ _)
  have hk := mul_sector_div k
  have hn' : buf.length / defaultSectorSize = n := by
    rw [hn]
    exact mul_sector_div _
  have hstore : (v.fullWriteAt Dev.ok buf (k * defaultSectorSize)).v.store =
      update v.store (v.file v.target)
        ((v.store (v.file v.target)).writeAt buf (k * defaultSectorSize)) :=
    h.store
  have hloc := h.location
  have hholes := h.holes
  rw [hk, hn'] at hholes
  simp only [hk, hn', u16_of_lt hc.target_lt_u16] at hloc
  refine ⟨h.same, fun f hf => ?_, ?_, fun i s hi => hasExtent_write hc h.same hstore hn hi s, hloc,
    hholes⟩
  · rw [hstore, update_of_ne hf]
  · have hsize := hc.file_size _ hc.target_pos hc.target_lt
    have : (k + n) * defaultSectorSize ≤ v.locationLen * defaultSectorSize :=
      Nat.mul_le_mul_right _ hin
    rw [hstore, update_self]
    show max (v.store (v.file v.target)).size (k * defaultSectorSize + buf.length) = _
    rw [hsize, size, hn, ← Nat.add_mul]
    omega

theorem LocationLe.write (h : v.LocationLe) (he : FullEffect v v' k n) : v'.LocationLe := by
  intro s hs
  rw [he.same.locationLen] at hs
  have := h s hs
  rw [he.location, he.same.target]
  split_ifs <;> omega

theorem FullEffect.chainOk (h : FullEffect v v' k n) (hc : v.ChainOk) : v'.ChainOk := by
  refine hc.of_files h.same.files h.same.locationLen fun i _ _ => ?_
  rcases eq_or_ne (v.file i) (v.file v.target) with hi | hi
  · rw [hi, h.size]
  · rw [h.others _ hi]

theorem topFile_effect (he : FullEffect v v' k n) {u : ℕ} (hu : u ≤ v.target) (s : ℕ) :
    v'.topFile u s = if u = v.target ∧ k ≤ s ∧ s < k + n then u else v.topFile u s := by
  split_ifs with h
  · rcases Nat.eq_zero_or_pos u with rfl | hpos
    · rfl
    · refine top_eq le_rfl (fun _ => ?_) fun i hi hiu => by omega
      rw [he.hasExtent u s hu, decide_eq_true h, Bool.or_true]
  · refine top_congr fun i _ hiu => ?_
    rw [he.hasExtent i s (by omega), decide_eq_false (by omega), Bool.or_false]

/-- A hole that a write sends off names a file below the active layer. -/
theorem writeHole_index_lt (hc : v.ChainOk) (hl : v.LocationLe) {lo len : ℕ} {h : Hole}
    (hin : k + n ≤ v.locationLen) (hw : v.WriteHole k n h i lo len) : 0 < i ∧ i < v.target := by
  obtain ⟨s, hks, hsn, ⟨h0, ht⟩, rfl⟩ := hw.held
  have := hl s (by omega)
  rw [u16_of_lt hc.target_lt_u16] at ht
  omega

/-- One sector has no pair of sectors in it. -/
theorem not_crossFlush_one (d : DiffDisk) (k : ℕ) : ¬d.CrossFlush k 1 := by
  rintro ⟨a, b, ha, hab, hb, -⟩
  omega

theorem crossFlush_congr (hsame : v.SameChain v')
    (hloc : ∀ s, k ≤ s → s < k + n → v'.location s = v.location s) : v'.CrossFlush k n ↔
    v.CrossFlush k n := by
  have hown : ∀ s, k ≤ s → s < k + n → (v'.Owned s ↔ v.Owned s) := fun s hs hsn => by
    unfold DiffDisk.Owned
    rw [hloc s hs hsn, hsame.target]
  constructor
  · rintro ⟨a, b, ha, hab, hb, hoa, hob, hn, hsa, hsb⟩
    refine ⟨a, b, ha, hab, hb, (hown a ha (by omega)).1 hoa, (hown b (by omega) hb).1 hob,
      fun c hac hcb hoc => hn c hac hcb ((hown c (by omega) (by omega)).2 hoc), ?_, ?_⟩
    · rwa [← hsame.snapIndx, ← hloc a ha (by omega)]
    · rwa [← hsame.snapIndx, ← hloc b (by omega) hb]
  · rintro ⟨a, b, ha, hab, hb, hoa, hob, hn, hsa, hsb⟩
    refine ⟨a, b, ha, hab, hb, (hown a ha (by omega)).2 hoa, (hown b (by omega) hb).2 hob,
      fun c hac hcb hoc => hn c hac hcb ((hown c (by omega) (by omega)).1 hoc), ?_, ?_⟩
    · rwa [hsame.snapIndx, hloc a ha (by omega)]
    · rwa [hsame.snapIndx, hloc b (by omega) hb]

/-! ## The steps of a request -/

/-- The first sector that a request writes without reading it : the first one if the request is
aligned at both ends, the second one otherwise. -/
def wholeFrom (offset len : ℕ) : ℕ :=
  if offset % defaultSectorSize = 0 ∧ (len + offset) % defaultSectorSize = 0 then
    offset / defaultSectorSize
  else offset / defaultSectorSize + 1

/-- The number of sectors that a request writes without reading them. -/
def wholeLen (offset len : ℕ) : ℕ :=
  (offset + len) / defaultSectorSize - wholeFrom offset len

theorem length_readFile_le (dev : Dev) (store : ℕ → SparseFile) (f off len : ℕ) :
    (readFile dev store f off len).1.length ≤ len := by
  unfold readFile
  split
  · simp only [length_bytesFrom]
    omega
  · split_ifs <;> simp only [length_bytesFrom] <;> omega

/-- A read of one sector looks that sector up, and fills a buffer of one sector. -/
theorem fullReadAt_sector (dev : Dev) (v : Volume) (k : ℕ) :
    (v.fullReadAt dev zeroSector (k * defaultSectorSize)).v = (lookup dev v k).1 ∧
    (v.fullReadAt dev zeroSector (k * defaultSectorSize)).buf.length = defaultSectorSize := by
  have hk := mul_sector_div k
  have h1 : zeroSector.length / defaultSectorSize = 1 := by
    rw [length_zeroSector]
    decide
  unfold fullReadAt
  rw [if_neg (by rw [length_zeroSector, Nat.mul_mod_left, Nat.mod_self]; simp),
    if_neg (by rw [length_zeroSector]; decide), hk, h1]
  rcases lookup dev v k with ⟨v', e | t⟩
  · exact ⟨rfl, length_zeroSector⟩
  · refine ⟨rfl, ?_⟩
    show (readRun dev (k * defaultSectorSize) 1 ⟨v', zeroSector, 0, t, 1⟩).1.length = _
    unfold readRun read
    split_ifs
    · exact length_zeroSector
    · have hle := length_readFile_le dev v'.store (v'.file t)
        (k * defaultSectorSize + (1 - 1) * defaultSectorSize) (1 * defaultSectorSize)
      rw [length_splice] <;> rw [length_zeroSector]
      simpa using hle

theorem lookup_location_of_ne (dev : Dev) (v : Volume) {s : ℕ} (h : s ≠ k) :
    (lookup dev v k).1.location s = v.location s := by
  unfold lookup
  split_ifs
  · rfl
  · rfl
  · split
    · exact update_of_ne h _ _
    · rfl
  · rfl

section Ind

variable {P : Volume → Prop} {X : Prop} {v : Volume}
variable {u : Volume}

/-- What a step of a request may assume, besides the invariant. -/
structure Reached (P : Volume → Prop) (v u : Volume) : Prop where
  inv : P u
  chainOk : u.ChainOk
  same : v.SameChain u

theorem Reached.fills {u' : Volume} (hfill : ∀ u u', P u → u.ChainOk → u.Fills u' → P u')
    (h : Reached P v u) (hf : u.Fills u') : Reached P v u' :=
  ⟨hfill u u' h.inv h.chainOk hf, hf.chainOk h.chainOk, h.same.trans hf.sameChain⟩

theorem Reached.write (hwrite : ∀ u u' k n, P u → u.ChainOk → k + n ≤ u.locationLen →
      (X → ¬u.CrossFlush k n) → FullEffect u u' k n → P u') (h : Reached P v u)
      (hn : buf.length = n * defaultSectorSize)
    (hin : k + n ≤ v.locationLen) (hx : X → ¬u.CrossFlush k n) :
    Reached P v (u.fullWriteAt Dev.ok buf (k * defaultSectorSize)).v := by
  rw [← h.same.locationLen] at hin
  have he := fullWriteAt_effect h.chainOk hn hin
  exact ⟨hwrite _ _ _ _ h.inv h.chainOk hin hx he, he.chainOk h.chainOk, h.same.trans he.same⟩

/-- A write inside one sector reads the sector and writes it back. -/
theorem Reached.readModifyWrite (hfill : ∀ u u', P u → u.ChainOk → u.Fills u' → P u')
    (hwrite : ∀ u u' k n, P u → u.ChainOk → k + n ≤ u.locationLen → (X → ¬u.CrossFlush k n) →
      FullEffect u u' k n → P u') (h : Reached P v u) (buf : List Byte) (offset : ℕ)
    (hin : buf.length ≠ 0 → offset / defaultSectorSize < v.locationLen)
    (hone : offset % defaultSectorSize + buf.length ≤ defaultSectorSize) :
    Reached P v (u.readModifyWrite Dev.ok buf offset).v ∧
    ∀ s, s ≠ offset / defaultSectorSize →
      (u.readModifyWrite Dev.ok buf offset).v.location s = u.location s := by
  unfold Volume.readModifyWrite
  split_ifs with h0
  · exact ⟨h, fun _ _ => rfl⟩
  · have hin := hin h0
    generalize hk : offset / defaultSectorSize = k at hin ⊢
    obtain ⟨hv, hlen⟩ := fullReadAt_sector Dev.ok u k
    have hf := fullReadAt_fills Dev.ok h.chainOk zeroSector (k * defaultSectorSize)
    have hloc : ∀ s, s ≠ k →
        (u.fullReadAt Dev.ok zeroSector (k * defaultSectorSize)).v.location s = u.location s := by
      intro s hs
      rw [hv, lookup_location_of_ne _ _ hs]
    have hr := h.fills hfill hf
    simp only
    generalize u.fullReadAt Dev.ok zeroSector (k * defaultSectorSize) = r at hlen hf hloc hr ⊢
    cases r.err with
    | some e => exact ⟨hr, hloc⟩
    | none =>
      have hsl : (splice r.buf (offset % defaultSectorSize) buf).length =
          1 * defaultSectorSize := by
        rw [length_splice (by rw [hlen]; exact hone), hlen, Nat.one_mul]
      refine ⟨hr.write hwrite hsl (by omega) fun _ => not_crossFlush_one _ _, fun s hs => ?_⟩
      have he := fullWriteAt_effect hr.chainOk hsl (k := k) (by
        rw [hr.same.locationLen]; omega)
      rw [he.location, if_neg (by omega), hloc s hs]

theorem Reached.andThen {w : WriteResult} {next : Volume → WriteResult} (h : Reached P v w.v)
    (hn : w.err = none → Reached P v (next w.v).v) : Reached P v (w.andThen next).v := by
  unfold WriteResult.andThen
  split
  · exact h
  · exact hn ‹_›

/-- What filling in entries and writing whole sectors keep, a `WriteAt` keeps. Under `X` the
write has no `CrossFlush`, and then none of its steps has one. -/
theorem writeAt_ind (hc : v.ChainOk) {offset : ℕ} (hin : offset + buf.length ≤ v.size)
    (hx : X → ¬v.CrossFlush (wholeFrom offset buf.length) (wholeLen offset buf.length))
    (hfill : ∀ u u', P u → u.ChainOk → u.Fills u' → P u')
    (hwrite : ∀ u u' k n, P u → u.ChainOk → k + n ≤ u.locationLen → (X → ¬u.CrossFlush k n) →
      FullEffect u u' k n → P u') (h : P v) : Reached P v (v.writeAt Dev.ok buf offset).v := by
  have hr : Reached P v v := ⟨h, hc, SameChain.refl v⟩
  unfold size at hin
  unfold writeAt
  simp only
  split_ifs with h0 hal hone
  · exact hr
  · obtain ⟨hf, hl, hbl, hoff, hlen⟩ : wholeFrom offset buf.length = offset / defaultSectorSize ∧
        wholeLen offset buf.length = buf.length / defaultSectorSize ∧
        buf.length = buf.length / defaultSectorSize * defaultSectorSize ∧
        offset / defaultSectorSize * defaultSectorSize = offset ∧
        offset / defaultSectorSize + buf.length / defaultSectorSize ≤ v.locationLen := by
      unfold wholeLen wholeFrom
      rw [if_pos hal]
      rw [defaultSectorSize_eq] at *
      refine ⟨?_, ?_, ?_, ?_, ?_⟩ <;> omega
    rw [hf, hl] at hx
    have hw := hr.write hwrite hbl hlen hx
    rwa [hoff] at hw
  · refine (hr.readModifyWrite hfill hwrite _ _ (fun _ => ?_) ?_).1 <;>
      rw [defaultSectorSize_eq] at * <;> omega
  · generalize hcut : defaultSectorSize - offset % defaultSectorSize = c at hone
    generalize he : (buf.length + offset) % defaultSectorSize = e
    obtain ⟨hf, hl, hoff, hmid, hlast⟩ : wholeFrom offset buf.length =
        offset / defaultSectorSize + 1 ∧
        buf.length - e - c = wholeLen offset buf.length * defaultSectorSize ∧
        offset + c = wholeFrom offset buf.length * defaultSectorSize ∧
        wholeFrom offset buf.length + wholeLen offset buf.length ≤ v.locationLen ∧
        (0 < e → (offset + buf.length - e) / defaultSectorSize < v.locationLen) := by
      unfold wholeLen wholeFrom
      rw [if_neg hal]
      rw [defaultSectorSize_eq] at *
      refine ⟨?_, ?_, ?_, ?_, ?_⟩ <;> omega
    generalize wholeFrom offset buf.length = k at hx hf hoff hmid
    generalize wholeLen offset buf.length = n at hx hl hmid
    have hlm : ((buf.drop c).take (buf.length - e - c)).length = n * defaultSectorSize := by
      rw [← hl]
      simp only [List.length_take, List.length_drop]
      omega
    -- the first sector
    obtain ⟨ha, hloc⟩ := hr.readModifyWrite hfill hwrite (buf.take c) offset
      (fun _ => by rw [defaultSectorSize_eq] at *; omega)
      (by rw [List.length_take]; rw [defaultSectorSize_eq] at *; omega)
    generalize v.readModifyWrite Dev.ok (buf.take c) offset = a at ha hloc ⊢
    refine Reached.andThen ha fun _ => ?_
    -- the whole sectors
    have hm := ha.write hwrite hlm hmid fun hX => by
      rw [crossFlush_congr ha.same fun s hs _ => hloc s (by omega)]
      exact hx hX
    rw [hoff]
    generalize a.v.fullWriteAt Dev.ok ((buf.drop c).take (buf.length - e - c))
      (k * defaultSectorSize) = m at hm ⊢
    refine Reached.andThen hm fun _ => ?_
    -- the last sector
    have hll : (buf.drop (buf.length - e)).length ≤ e := by
      rw [List.length_drop]
      omega
    have hz := (hm.readModifyWrite hfill hwrite (buf.drop (buf.length - e))
      (offset + buf.length - e) (fun h => hlast (by omega))
      (by rw [defaultSectorSize_eq] at *; omega)).1
    exact Reached.andThen hz fun _ => hz

end Ind

/-! ## Taking extents away -/

/-- `v'` is `v` with the given bytes of the given files zeroed, and the sectors freed that lie
wholly inside. -/
structure PunchEffect (v v' : Volume) (files : ℕ → Prop) [DecidablePred files]
    (offset len : ℕ) : Prop where
  same : v.SameChain v'
  location : v'.location = v.location
  store : ∀ i, i < v.files.length → v'.store (v.file i) =
    if files i then (v.store (v.file i)).punchHole offset len else v.store (v.file i)

section Punch

variable {v v' : Volume} {files : ℕ → Prop} [DecidablePred files] {offset len : ℕ}

section

variable (h : PunchEffect v v' files offset len)
include h

theorem PunchEffect.chainOk (hc : v.ChainOk) : v'.ChainOk := by
  refine hc.of_files h.same.files h.same.locationLen fun i _ hi => ?_
  rw [h.store i hi]
  split_ifs <;> rfl

theorem PunchEffect.hasExtent (hi : i < v.files.length) (s : ℕ) :
    v'.hasExtent i s =
      (v.hasExtent i s && !(decide (files i) && SparseFile.inside offset len s)) := by
  unfold Volume.hasExtent
  rw [h.same.file, h.store i hi]
  split_ifs with hf
  · rw [SparseFile.punchHole_alloc]
    simp [hf]
  · simp [hf]

theorem PunchEffect.data (hi : i < v.files.length) (b : ℕ) :
    (v'.store (v.file i)).data b =
      if files i ∧ offset ≤ b ∧ b < offset + len then 0 else (v.store (v.file i)).data b := by
  rw [h.store i hi]
  split_ifs with hf hb hb
  · rw [SparseFile.punchHole_data, if_pos hb.2]
  · rw [SparseFile.punchHole_data, if_neg fun hb' => hb ⟨hf, hb'⟩]
  · exact absurd hb.1 hf
  · rfl

theorem PunchEffect.hasExtent_le
    (hi : i < v.files.length) {s : ℕ} (he : v'.hasExtent i s = true) : v.hasExtent i s = true := by
  rw [h.hasExtent hi] at he
  exact (Bool.and_eq_true_iff.1 he).1

end

end Punch

/-- The loop of `Unmap` punches the files of the given indices that are above the latest
user-created snapshot. -/
theorem unmapLoop_effect (offset : ℕ) {len : ℕ} (hlen : len ≠ 0) :
    ∀ (is : List ℕ) {v : Volume}, v.ChainOk → is.Nodup → (∀ i ∈ is, i < v.files.length) →
      PunchEffect v (unmapLoop offset len is v).1 (fun i => i ∈ is ∧ v.snapIndx < i) offset len ∧
      (unmapLoop offset len is v).1.holeCreatorChan = v.holeCreatorChan
  | [], v, _, _, _ => ⟨⟨SameChain.refl v, rfl, fun i _ => by simp [unmapLoop]⟩, rfl⟩
  | i :: is, v, hc, hnd, hlt => by
    obtain ⟨hi, hnd⟩ := List.nodup_cons.1 hnd
    have hil := hlt i List.mem_cons_self
    unfold unmapLoop
    split_ifs with hskip
    · obtain ⟨⟨hsame, hloc, hst⟩, hq⟩ := unmapLoop_effect offset hlen is hc hnd
        fun j hj => hlt j (List.mem_cons_of_mem _ hj)
      refine ⟨⟨hsame, hloc, fun j hj => ?_⟩, hq⟩
      rw [hst j hj]
      refine if_congr ?_ rfl rfl
      have hle : i ≤ v.snapIndx := by
        rcases hskip with h | h
        · exact h
        · by_contra hlt
          exact hc.file_ne_zero (by omega) hil h
      constructor
      · exact fun h => ⟨List.mem_cons_of_mem _ h.1, h.2⟩
      · rintro ⟨hmem, hs⟩
        rcases List.mem_cons.1 hmem with rfl | hmem
        · omega
        · exact ⟨hmem, hs⟩
    · obtain ⟨hs, h0⟩ := not_or.1 hskip
      simp only [fallocatePunch, if_neg hlen]
      have hone : PunchEffect v (v.setInode (v.file i) ((v.store (v.file i)).punchHole offset len))
          (fun j => j = i) offset len := by
        refine ⟨⟨rfl, rfl, rfl, rfl, rfl⟩, rfl, fun j hj => ?_⟩
        unfold setInode
        split_ifs with hji
        · rw [hji]
          exact update_self _ _ _
        · exact update_of_ne (fun h => hji (hc.file_inj hj hil h)) _ _
      obtain ⟨⟨hsame, hloc, hst⟩, hq⟩ := unmapLoop_effect offset hlen is (hone.chainOk hc) hnd
        fun j hj => hlt j (List.mem_cons_of_mem _ hj)
      refine ⟨⟨hone.same.trans hsame, hloc.trans hone.location, fun j hj => ?_⟩, hq⟩
      refine (hst j hj).trans ?_
      have hj1 := hone.store j hj
      rcases eq_or_ne j i with rfl | hji
      · rw [if_neg fun h => hi h.1, if_pos ⟨List.mem_cons_self, Nat.lt_of_not_le hs⟩]
        exact hj1.trans (if_pos rfl)
      · have hsnd : (v.setInode (v.file i) ((v.store (v.file i)).punchHole offset len)).store
            (v.file j) = v.store (v.file j) := hj1.trans (if_neg hji)
        refine if_congr ?_ (congrArg (fun f => f.punchHole offset len) hsnd) hsnd
        rw [List.mem_cons, or_iff_right hji]
        rfl

theorem unmapLoop_zero (offset : ℕ) :
    ∀ (is : List ℕ) (v : Volume), (unmapLoop offset 0 is v).1 = v
  | [], _ => rfl
  | i :: is, v => by
    unfold unmapLoop
    split_ifs
    · exact unmapLoop_zero offset is v
    · rfl

/-- `Unmap` punches the range out of every file above the latest user-created snapshot. -/
theorem unmap_effect (hc : v.ChainOk) (offset len : ℕ) :
    PunchEffect v (v.unmap offset len).1 (fun i => v.snapIndx < i) offset len ∧
    (v.unmap offset len).1.holeCreatorChan = v.holeCreatorChan := by
  have hfst : (v.unmap offset len).1 = (unmapLoop offset len (List.range v.files.length) v).1 := by
    unfold unmap
    split <;> rename_i h <;> rw [h]
  rw [hfst]
  rcases Nat.eq_zero_or_pos len with rfl | hpos
  · rw [unmapLoop_zero]
    exact ⟨⟨SameChain.refl v, rfl, fun i _ => by rw [SparseFile.punchHole_zero, ite_self]⟩, rfl⟩
  · obtain ⟨⟨hsame, hloc, hst⟩, hq⟩ := unmapLoop_effect offset hpos.ne'
      (List.range v.files.length) hc List.nodup_range fun i => List.mem_range.1
    refine ⟨⟨hsame, hloc, fun i hi => ?_⟩, hq⟩
    rw [hst i hi]
    exact if_congr (and_iff_right (List.mem_range.2 hi)) rfl rfl

/-- What `CreateHoles` does with a hole in the file at index `f`. -/
theorem punchEffect_setInode (hn : v.files.Nodup) {f : ℕ} (hf : f < v.files.length)
    (offset len : ℕ) :
    PunchEffect v (v.setInode (v.file f) ((v.store (v.file f)).punchHole offset len))
      (fun i => i = f) offset len := by
  refine ⟨⟨rfl, rfl, rfl, rfl, rfl⟩, rfl, fun i hi => ?_⟩
  split_ifs with hif
  · rw [hif]
    exact update_self _ _ _
  · exact update_of_ne (fun h => hif (file_inj hn hi hf h)) _ _

theorem createHole_effect (hn : v.files.Nodup) (h : v.createHole k = some v') :
    ∃ hole ∈ v.holeCreatorChan, v'.holeCreatorChan = v.holeCreatorChan.eraseIdx k ∧
      ∀ f, f < v.files.length → hole.f = v.file f →
      PunchEffect v v' (fun i => i = f) hole.offset hole.len := by
  unfold createHole at h
  cases hk : v.holeCreatorChan[k]? with
  | none => simp [hk] at h
  | some hole =>
    simp only [hk, fallocatePunch] at h
    split_ifs at h
    obtain rfl := Option.some.inj h
    refine ⟨hole, List.mem_of_getElem? hk, rfl, fun f hf hfile => ?_⟩
    rw [hfile]
    exact ⟨⟨rfl, rfl, rfl, rfl, rfl⟩, rfl, (punchEffect_setInode hn hf _ _).store⟩

end Volume

end Jiva
