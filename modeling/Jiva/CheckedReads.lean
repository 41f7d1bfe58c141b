import Jiva.DataPath

/-!
# Reads with their run-time checks

A read at an offset that is not negative does not panic, and gives what `readAt` of `DiffDisk` gives
(`readAt_ofNat`). The sums of the source can go around, but only for requests behind the table,
where all the sectors are looked up in the active layer and the first read of it already fails.
-/

namespace Jiva

namespace Checked

open Volume

variable {v : Volume} {offset : ℕ} {buf : List Byte}

/-! ## Reads at offsets that are not negative -/

theorem lookup_ofNat (dev : Dev) (v : Volume) (s : ℕ) : lookup dev v s = .ok (v.lookup dev s) := by
  unfold lookup
  split_ifs with hs h2
  · rw [Volume.lookup, if_pos (by omega)]
  · rw [Volume.lookup, if_neg (by omega), if_pos h2]
  · rw [index_ofNat (by omega)]
    rfl

/-- No read goes around : the request ends below `2 ^ 63`, or it is behind the table and one run of
sectors of the active layer. -/
def Fits (v : Volume) (offset sectors i : ℕ) (st : ReadState) : Prop :=
  offset + sectors * defaultSectorSize < 2 ^ 63 ∨
    offset < 2 ^ 63 ∧ v.locationLen ≤ offset / defaultSectorSize ∧ st.readSectors = i ∧
      st.target = u16 v.target

theorem readRun_ofNat (dev : Dev) {sectors i : ℕ} (st : ReadState)
    (hlen : st.buf.length = sectors * defaultSectorSize) (hi : i ≤ sectors)
    (hrun : st.readSectors ≤ i) (ht : st.target < st.v.files.length)
    (hfit : Fits v offset sectors i st) :
    readRun dev offset i st = .ok (Volume.readRun dev offset i st) := by
  unfold readRun Volume.readRun
  split_ifs with h0
  · rfl
  · unfold read Volume.read
    generalize hstart : (i - st.readSectors) * defaultSectorSize = start
    generalize hsize : st.readSectors * defaultSectorSize = size
    have hend : start + size ≤ st.buf.length := by
      rw [← hstart, ← hsize, ← Nat.add_mul, hlen]
      exact Nat.mul_le_mul_right _ (by omega)
    have hslice := slice_ofNat st.buf (Nat.le_add_right start size) hend
    have hwrap : wrap64 ((offset : ℤ) + start) = (offset + start : ℕ) := by
      rw [← Int.natCast_add]
      refine wrap64_ofNat ?_
      rcases hfit with h | ⟨h, -, hall, -⟩
      · omega
      · rwa [← hstart, hall, Nat.sub_self, Nat.zero_mul]
    push_cast at hslice
    simp only [hslice, index_ofNat ht, hwrap, bind, Except.bind, pure, Except.pure]
    rw [length_drop_take hend, readFile, if_neg (Int.not_lt.2 (Int.natCast_nonneg _)),
      Int.toNat_natCast]

theorem length_readRun (dev : Dev) (offset : ℕ) {sectors i : ℕ} (st : ReadState)
    (hlen : st.buf.length = sectors * defaultSectorSize) (hi : i ≤ sectors)
    (hrun : st.readSectors ≤ i) : (Volume.readRun dev offset i st).1.length = st.buf.length := by
  unfold Volume.readRun
  split_ifs
  · rfl
  · have hend : (i - st.readSectors) * defaultSectorSize + st.readSectors * defaultSectorSize ≤
        st.buf.length := by
      rw [← Nat.add_mul, hlen]
      exact Nat.mul_le_mul_right _ (by omega)
    have hle := length_readFile_le dev st.v.store (st.v.file st.target)
      (offset + (i - st.readSectors) * defaultSectorSize) (st.readSectors * defaultSectorSize)
    exact length_splice (by omega)

/-- The loop of a read of whole sectors. -/
theorem fullReadLoop_ofNat (dev : Dev) (offset sectors : ℕ) :
    ∀ (m : ℕ) (st : ReadState), m < sectors → st.buf.length = sectors * defaultSectorSize →
      st.v.InRange → v.SameChain st.v → st.readSectors ≤ sectors - m →
      st.target < v.files.length → Fits v offset sectors (sectors - m) st →
      fullReadLoop dev offset sectors m st = .ok (Volume.fullReadLoop dev offset sectors m st)
  | 0, st, hm, hlen, hv, hsame, hrun, ht, hfit => by
    have hr := readRun_ofNat dev _ hlen le_rfl hrun (hsame.files ▸ ht) hfit
    simp only [fullReadLoop, Volume.fullReadLoop, hr, bind, Except.bind, pure, Except.pure]
  | m + 1, st, hm, hlen, hv, hsame, hrun, ht, hfit => by
    generalize hi : sectors - (m + 1) = i at hrun hfit
    have hi' : sectors - m = i + 1 := by omega
    obtain ⟨hv', hsame', -, hlt⟩ := hv.lookup dev (offset / defaultSectorSize + i)
    have hbehind : v.locationLen ≤ offset / defaultSectorSize →
        (st.v.lookup dev (offset / defaultSectorSize + i)).2 = .ok (u16 v.target) := fun hle => by
      rw [Volume.lookup, if_pos (by rw [hsame.locationLen]; omega), hsame.target]
    rw [fullReadLoop, Volume.fullReadLoop]
    simp only [hi, tdiv_ofNat, ← Int.natCast_add, lookup_ofNat, bind, Except.bind]
    rcases hlk : st.v.lookup dev (offset / defaultSectorSize + i) with ⟨u, e | t⟩
    · rfl
    · rw [hlk] at hv' hsame' hlt hbehind
      have hu := hsame.trans hsame'
      simp only
      split_ifs with heq
      · refine fullReadLoop_ofNat dev offset sectors m _ (by omega) hlen hv' hu
          (by simp only; omega) ht ?_
        rcases hfit with h | ⟨h, hle, hall, htarget⟩
        · exact .inl h
        · exact .inr ⟨h, hle, by simp only; omega, htarget⟩
      · -- another file : the request does not lie behind the table
        have hfits : offset + sectors * defaultSectorSize < 2 ^ 63 := by
          rcases hfit with h | ⟨-, hle, -, htarget⟩
          · exact h
          · exact (heq ((Except.ok.inj (hbehind hle)).trans htarget.symm)).elim
        have hr := readRun_ofNat dev { st with v := u } hlen (by omega) hrun
          (hu.files ▸ ht) (.inl hfits) (v := v)
        rw [hr]
        simp only
        cases herr : (Volume.readRun dev offset i { st with v := u }).2.2 with
        | some e => rfl
        | none =>
          have hbuf := (length_readRun dev offset { st with v := u } hlen
            (by omega) hrun).trans hlen
          exact fullReadLoop_ofNat dev offset sectors m _ (by omega) hbuf hv' hu
            (by simp only; omega) (hsame.files ▸ (hlt t rfl).2) (.inl hfits)

/-- A read of whole sectors at an offset that is not negative does not panic. -/
theorem fullReadAt_ofNat (dev : Dev) (hv : v.InRange) (buf : List Byte)
    (hbuf : buf.length ≤ maxAlloc) (ho : offset < 2 ^ 63) :
    fullReadAt dev v buf offset = .ok (v.fullReadAt dev buf offset) := by
  unfold fullReadAt Volume.fullReadAt
  simp only [tmod_ofNat, tdiv_ofNat, lookup_ofNat, bind, Except.bind, Int.natCast_eq_zero, ne_eq]
  split_ifs with halign h0
  · rfl
  · rfl
  · obtain ⟨hv', hsame, -, hlt⟩ := hv.lookup dev (offset / defaultSectorSize)
    have hbehind : v.locationLen ≤ offset / defaultSectorSize →
        (v.lookup dev (offset / defaultSectorSize)).2 = .ok (u16 v.target) := fun hle => by
      rw [Volume.lookup, if_pos hle]
    rcases hlk : v.lookup dev (offset / defaultSectorSize) with ⟨u, e | t⟩
    · rfl
    · rw [hlk] at hv' hsame hlt hbehind
      have hlen : buf.length = buf.length / defaultSectorSize * defaultSectorSize := by
        rw [Nat.div_mul_cancel (Nat.dvd_of_mod_eq_zero (by omega))]
      have hpos : 0 < buf.length / defaultSectorSize := by
        rcases Nat.eq_zero_or_pos (buf.length / defaultSectorSize) with h | h
        · rw [h] at hlen
          omega
        · exact h
      refine fullReadLoop_ofNat dev offset _ _ _ (by omega) hlen hv' hsame (by simp only; omega)
        (hlt t rfl).2 ?_
      by_cases hin : offset + buf.length < 2 ^ 63
      · exact .inl (hlen ▸ hin)
      · have hle : v.locationLen ≤ offset / defaultSectorSize := by
          have htable := hv.table
          unfold maxAlloc at hbuf htable
          unfold defaultSectorSize
          omega
        exact .inr ⟨ho, hle, by simp only; omega, Except.ok.inj (hbehind hle)⟩

theorem length_readRun_le (dev : Dev) (offset i : ℕ) (st : ReadState) :
    (Volume.readRun dev offset i st).2.1 ≤ st.readSectors * defaultSectorSize := by
  unfold Volume.readRun
  split_ifs
  · exact le_rfl
  · exact length_readFile_le _ _ _ _ _

/-- What a read leaves as it was, and a bound on the bytes it counts. -/
structure Kept (v : Volume) (len : ℕ) (r : ReadResult) : Prop where
  inRange : r.v.InRange
  same : v.SameChain r.v
  length : r.buf.length = len
  count : r.n ≤ len

theorem fullReadLoop_counts (dev : Dev) (offset sectors : ℕ) :
    ∀ (m : ℕ) (st : ReadState), m < sectors → st.buf.length = sectors * defaultSectorSize →
      st.readSectors ≤ sectors - m → st.count ≤ (sectors - m - st.readSectors) * defaultSectorSize →
      (Volume.fullReadLoop dev offset sectors m st).buf.length = sectors * defaultSectorSize ∧
        (Volume.fullReadLoop dev offset sectors m st).n ≤ sectors * defaultSectorSize
  | 0, st, hm, hlen, hrun, hcount => by
    refine ⟨(length_readRun dev offset st hlen le_rfl hrun).trans hlen, ?_⟩
    have hle := length_readRun_le dev offset sectors st
    calc st.count + (Volume.readRun dev offset sectors st).2.1
        ≤ (sectors - 0 - st.readSectors) * defaultSectorSize +
            st.readSectors * defaultSectorSize := Nat.add_le_add hcount hle
      _ = sectors * defaultSectorSize := by
          rw [← Nat.add_mul, Nat.sub_add_cancel hrun, Nat.sub_zero]
  | m + 1, st, hm, hlen, hrun, hcount => by
    rw [Volume.fullReadLoop]
    rcases st.v.lookup dev (offset / defaultSectorSize + (sectors - (m + 1))) with ⟨u, e | t⟩
    · exact ⟨hlen, hcount.trans (Nat.mul_le_mul_right _ (by omega))⟩
    · have hbuf := (length_readRun dev offset { st with v := u } hlen (by omega) hrun).trans hlen
      have hle := length_readRun_le dev offset (sectors - (m + 1)) { st with v := u }
      have hcount' : st.count + (Volume.readRun dev offset (sectors - (m + 1)) { st with
          v := u }).2.1 ≤
            (sectors - m - 1) * defaultSectorSize := by
        refine (Nat.add_le_add hcount hle).trans_eq ?_
        rw [← Nat.add_mul, Nat.sub_add_cancel hrun, Nat.sub_sub]
      simp only
      split_ifs
      · refine fullReadLoop_counts dev offset sectors m _ (by omega) hlen
          (by simp only; omega) (hcount.trans_eq ?_)
        congr 1
        simp only
        omega
      · split
        · exact ⟨hbuf, hcount'.trans (Nat.mul_le_mul_right _ (by omega))⟩
        · exact fullReadLoop_counts dev offset sectors m _ (by omega) hbuf
            (by simp only; omega) hcount'

/-- A read of whole sectors returns a buffer of the same length, and counts no more bytes. -/
theorem fullReadAt_counts (dev : Dev) (v : Volume) (buf : List Byte) (offset : ℕ) :
    (v.fullReadAt dev buf offset).buf.length = buf.length ∧
    (v.fullReadAt dev buf offset).n ≤ buf.length := by
  unfold Volume.fullReadAt
  split_ifs with halign h0
  · exact ⟨rfl, Nat.zero_le _⟩
  · exact ⟨rfl, Nat.zero_le _⟩
  · rcases v.lookup dev (offset / defaultSectorSize) with ⟨u, e | t⟩
    · exact ⟨rfl, Nat.zero_le _⟩
    · have hlen : buf.length = buf.length / defaultSectorSize * defaultSectorSize := by
        rw [Nat.div_mul_cancel (Nat.dvd_of_mod_eq_zero (by omega))]
      have hpos : 0 < buf.length / defaultSectorSize := Nat.pos_of_ne_zero fun h => by
        rw [h] at hlen
        omega
      have hcounts := fullReadLoop_counts dev offset _ (buf.length / defaultSectorSize - 1)
        ⟨u, buf, 0, t, 1⟩ (by omega) hlen (by simp only; omega) (Nat.zero_le _)
      rwa [← hlen] at hcounts

theorem fullReadAt_kept (dev : Dev) (hv : v.InRange) (buf : List Byte) (offset : ℕ) :
    Kept v buf.length (v.fullReadAt dev buf offset) where
  inRange := fullReadAt_rec (fun _ s hu => (hu.lookup dev s).1) buf offset hv
  same := fullReadAt_rec (P := v.SameChain) (fun u s hu => hu.trans (lookup_sameChain dev u s)) buf
    offset (.refl v)
  length := (fullReadAt_counts dev v buf offset).1
  count := (fullReadAt_counts dev v buf offset).2

/-- A sector that could be read lies in a file. -/
theorem sector_le (dev : Dev) {k : ℕ} (hlt : ∀ t, (v.lookup dev k).2 = .ok t →
      0 < t ∧ t < v.files.length)
    (h : (v.fullReadAt dev zeroSector (k * defaultSectorSize)).err = none) :
    ∃ t, 0 < t ∧ t < v.files.length ∧
    k * defaultSectorSize + defaultSectorSize ≤ (v.store (v.file t)).size := by
  have hk := mul_sector_div k
  have h1 : zeroSector.length / defaultSectorSize = 1 := by rw [length_zeroSector]; decide
  unfold Volume.fullReadAt at h
  rw [if_neg (by rw [length_zeroSector, Nat.mul_mod_left, Nat.mod_self]; simp),
    if_neg (by rw [length_zeroSector]; decide), hk, h1] at h
  have hfiles := (lookup_sameChain dev v k).files
  have hstore := lookup_store dev v k
  rcases hlk : v.lookup dev k with ⟨u, e | t⟩ <;> rw [hlk] at h hstore hfiles hlt
  · cases h
  · have hread : (Jiva.readFile dev u.store (u.file t)
        (k * defaultSectorSize) defaultSectorSize).2 = none := by
      simpa [Volume.fullReadLoop, Volume.readRun, Volume.read, (hlt t rfl).1.ne'] using h
    refine ⟨t, (hlt t rfl).1, (hlt t rfl).2, ?_⟩
    have hfile : u.file t = v.file t := congrArg (fun fs : List ℕ => fs.getD t 0) hfiles
    rw [← hstore, ← hfile]
    unfold Jiva.readFile at hread
    split at hread
    · cases hread
    · split at hread
      · assumption
      · cases hread

theorem sector_lt (dev : Dev) (hv : v.InRange) {k : ℕ}
    (h : (v.fullReadAt dev zeroSector (k * defaultSectorSize)).err = none) :
    k * defaultSectorSize + defaultSectorSize + maxAlloc ≤ 2 ^ 63 := by
  obtain ⟨t, -, -, hle⟩ := sector_le dev (hv.lookup dev k).2.2.2 h
  have := hv.sizes (v.file t)
  omega

theorem readThen_ok (r : ReadResult) (buf : List Byte) {next : Volume → Except Panic ReadResult}
    {next' : Volume → ReadResult} (h : r.err = none → next r.v = .ok (next' r.v)) :
    readThen r buf next = .ok (r.andThen buf next') := by
  unfold readThen ReadResult.andThen
  cases herr : r.err with
  | some e => rfl
  | none => exact h herr

theorem readEnd_ofNat (dev : Dev) (hv : v.InRange) {readBuf : List Byte}
    {endOffset : ℕ} (hread : readBuf.length = defaultSectorSize)
    (hend : endOffset ≤ defaultSectorSize) (hle : endOffset ≤ buf.length)
    (hin : offset + buf.length < 2 ^ 63) :
    readEnd dev readBuf buf offset endOffset v =
      .ok (Volume.readEnd dev readBuf buf offset endOffset v) := by
  have hwrap : wrap64 ((offset : ℤ) + buf.length - endOffset) =
      (offset + buf.length - endOffset : ℕ) := by
    rw [← Int.natCast_add, ← Int.natCast_sub (by omega)]
    exact wrap64_ofNat (by omega)
  have hfull := fullReadAt_ofNat dev hv readBuf (by rw [hread]; decide)
    (by omega : offset + buf.length - endOffset < 2 ^ 63)
  have hlast := (fullReadAt_kept dev hv readBuf (offset + buf.length - endOffset)).length
  rw [hread] at hlast
  unfold readEnd Volume.readEnd
  simp only [hwrap, hfull, bind, Except.bind, Int.natCast_pos]
  split_ifs
  · refine readThen_ok _ _ fun _ => ?_
    have hbuf := slice_ofNat buf (Nat.sub_le buf.length endOffset) le_rfl
    have hcut := slice_ofNat _ (Nat.zero_le endOffset) (hend.trans_eq hlast.symm)
    rw [Int.natCast_zero, List.drop_zero, Nat.sub_zero] at hcut
    rw [← Int.natCast_sub hle]
    simp only [hbuf, hcut, Int.toNat_natCast]
    rfl
  · rfl

/-- The whole sectors of a request lie between its first and its last sector. -/
theorem cut_le {len : ℕ} (h : defaultSectorSize - offset % defaultSectorSize < len) :
    defaultSectorSize - offset % defaultSectorSize + (len + offset) % defaultSectorSize ≤ len := by
  unfold defaultSectorSize at *
  omega

theorem next_sector (offset : ℕ) : offset + (defaultSectorSize - offset % defaultSectorSize) =
    offset / defaultSectorSize * defaultSectorSize + defaultSectorSize := by
  have hdiv := Nat.div_add_mod' offset defaultSectorSize
  have hmod := mod_sector_lt offset
  omega

/-- What follows the first sector, and what is left at the end, start at a sector. -/
theorem next_sector_mod (offset : ℕ) :
    (offset + (defaultSectorSize - offset % defaultSectorSize)) % defaultSectorSize = 0 := by
  rw [next_sector offset, Nat.add_mod_right, Nat.mul_mod_left]

theorem last_sector_mod (offset len : ℕ) :
    (offset + len - (len + offset) % defaultSectorSize) % defaultSectorSize = 0 := by
  rw [Nat.add_comm offset, Nat.mod_eq_zero_of_dvd (Nat.dvd_sub_mod _)]

theorem length_middle (buf : List Byte) (k e : ℕ) :
    ((buf.drop k).take (buf.length - e - k)).length = buf.length - e - k := by
  rw [List.length_take, List.length_drop]
  omega

theorem readRest_ofNat (dev : Dev) (hv : v.InRange) {readBuf : List Byte}
    (hread : readBuf.length = defaultSectorSize) (hbuf : buf.length ≤ maxAlloc)
    (hin : offset + buf.length < 2 ^ 63) :
    let startCut := defaultSectorSize - offset % defaultSectorSize
    let endOffset := (buf.length + offset) % defaultSectorSize
    readRest dev readBuf buf offset startCut endOffset v =
      .ok (Volume.readRest dev readBuf buf offset startCut endOffset v) := by
  intro startCut endOffset
  unfold readRest Volume.readRest
  simp only [Int.ofNat_le]
  split_ifs with hone
  · rfl
  · have hcut : startCut + endOffset ≤ buf.length := cut_le (by omega)
    have hend : endOffset ≤ defaultSectorSize := (mod_sector_lt _).le
    generalize startCut = startCut at hone hcut ⊢
    generalize endOffset = endOffset at hcut hend ⊢
    have hslice := slice_ofNat buf (by omega : startCut ≤ buf.length - endOffset) (Nat.sub_le _ _)
    rw [Int.natCast_sub (by omega)] at hslice
    have hwrap : wrap64 ((offset : ℤ) + startCut) = (offset + startCut : ℕ) := by
      rw [← Int.natCast_add]
      exact wrap64_ofNat (by omega)
    generalize hwhole : (buf.drop startCut).take (buf.length - endOffset - startCut) =
      whole at hslice ⊢
    have hlen : whole.length = buf.length - endOffset - startCut := by
      rw [← hwhole, List.length_take, List.length_drop]
      omega
    have hfull := fullReadAt_ofNat dev hv whole (by omega) (by omega : offset + startCut < 2 ^ 63)
    obtain ⟨hv', -, hlen', -⟩ := fullReadAt_kept dev hv whole (offset + startCut)
    simp only [hslice, hwrap, hfull, bind, Except.bind, Int.toNat_natCast]
    generalize v.fullReadAt dev whole (offset + startCut) = m at hv' hlen' ⊢
    have hsplice : (splice buf startCut m.buf).length = buf.length := length_splice (by omega)
    exact readThen_ok m _ fun _ =>
      readEnd_ofNat dev hv' hread hend (by omega) (by rwa [hsplice])

/-- A read at an offset that is not negative does not panic. -/
theorem readAt_ofNat (dev : Dev) (hv : v.InRange) (hbuf : buf.length ≤ maxAlloc)
    (ho : offset < 2 ^ 63) : readAt dev v buf offset = .ok (v.readAt dev buf offset) := by
  have hend : (wrap64 (buf.length + offset)).tmod sectorSize = 0 ↔
      (buf.length + offset) % defaultSectorSize = 0 := by
    rw [tmod_wrap64_eq_zero, ← Int.natCast_add, tmod_ofNat, Int.natCast_eq_zero]
  unfold readAt Volume.readAt
  simp only [tmod_ofNat, hend, Int.natCast_eq_zero]
  split_ifs with h0 halign
  · rfl
  · exact fullReadAt_ofNat dev hv _ hbuf ho
  · have hfirst : offset - offset % defaultSectorSize =
        offset / defaultSectorSize * defaultSectorSize := by
      rw [Nat.mul_comm]
      exact Nat.sub_eq_of_eq_add (Nat.div_add_mod _ _).symm
    have hmod := mod_sector_lt offset
    rw [← Int.natCast_sub (Nat.mod_le _ _), hfirst,
      fullReadAt_ofNat dev hv _ (by rw [length_zeroSector]; decide) (by omega)]
    obtain ⟨hv', -, hlen, -⟩ :=
      fullReadAt_kept dev hv zeroSector (offset / defaultSectorSize * defaultSectorSize)
    have hlt := sector_lt dev hv (k := offset / defaultSectorSize)
    generalize v.fullReadAt dev zeroSector (offset / defaultSectorSize * defaultSectorSize) = r
      at hv' hlen hlt ⊢
    rw [length_zeroSector] at hlen
    simp only [bind, Except.bind]
    refine readThen_ok _ _ fun herr => ?_
    have hin : offset + buf.length < 2 ^ 63 := by
      have := hlt herr
      omega
    have hslice := slice_ofNat r.buf (hmod.le.trans_eq hlen.symm) le_rfl
    rw [List.take_of_length_le (by rw [List.length_drop])] at hslice
    have hwrap : wrap64 ((buf.length : ℤ) + offset) = (buf.length + offset : ℕ) := by
      rw [← Int.natCast_add]
      exact wrap64_ofNat (by omega)
    have hcut : sectorSize - (offset % defaultSectorSize : ℕ) =
        (defaultSectorSize - offset % defaultSectorSize : ℕ) :=
      (Int.natCast_sub hmod.le).symm
    simp only [hslice, hwrap, hcut, tmod_ofNat]
    generalize hbuf' : splice buf 0 ((r.buf.drop (offset % defaultSectorSize)).take buf.length) =
      buf'
    have hlen' : buf'.length = buf.length := by
      rw [← hbuf']
      exact length_splice (by rw [Nat.zero_add, List.length_take]; exact Nat.min_le_left _ _)
    rw [← hlen'] at hbuf hin ⊢
    exact readRest_ofNat dev hv' hlen hbuf hin

/-! ## What stays in range -/

theorem andThen_inRange {r : ReadResult} {next : Volume → ReadResult}
    (hr : r.v.InRange) (hnext : (next r.v).v.InRange) : (r.andThen buf next).v.InRange := by
  unfold ReadResult.andThen
  cases r.err with
  | some e => exact hr
  | none => exact hnext

theorem readAt_inRange (dev : Dev) (hv : v.InRange) (buf : List Byte) (offset : ℕ) :
    (v.readAt dev buf offset).v.InRange := by
  have hend : ∀ {u : Volume} (readBuf buf : List Byte) (endOffset : ℕ), u.InRange →
      (Volume.readEnd dev readBuf buf offset endOffset u).v.InRange := by
    intro u readBuf buf endOffset hu
    unfold Volume.readEnd
    split_ifs
    · exact andThen_inRange (fullReadAt_kept dev hu _ _).inRange
        (fullReadAt_kept dev hu _ _).inRange
    · exact hu
  unfold Volume.readAt
  simp only
  split_ifs
  · exact hv
  · exact (fullReadAt_kept dev hv _ _).inRange
  · have hfirst := (fullReadAt_kept dev hv zeroSector (offset - offset % defaultSectorSize)).inRange
    generalize v.fullReadAt dev zeroSector (offset - offset % defaultSectorSize) = r at hfirst ⊢
    refine andThen_inRange hfirst ?_
    unfold Volume.readRest
    split_ifs
    · exact hfirst
    · exact andThen_inRange (fullReadAt_kept dev hfirst _ _).inRange
        (hend _ _ _ (fullReadAt_kept dev hfirst _ _).inRange)

/-- A read that fails counts nothing, unless it is a read of whole sectors. -/
theorem readAt_failed {dev : Dev} (h : (v.readAt dev buf offset).err ≠ none) :
    (v.readAt dev buf offset).n = 0 ∨ v.readAt dev buf offset = v.fullReadAt dev buf offset := by
  have hthen : ∀ (r : ReadResult) (buf : List Byte) (next : Volume → ReadResult),
      (∀ u, (next u).err ≠ none → (next u).n = 0) →
      (r.andThen buf next).err ≠ none → (r.andThen buf next).n = 0 := by
    intro r buf next hnext
    unfold ReadResult.andThen
    cases r.err with
    | some e => exact fun _ => rfl
    | none => exact hnext _
  have hrest : ∀ readBuf buf startCut endOffset u,
      (Volume.readRest dev readBuf buf offset startCut endOffset u).err ≠ none →
      (Volume.readRest dev readBuf buf offset startCut endOffset u).n = 0 := by
    intro readBuf buf startCut endOffset u
    unfold Volume.readRest
    split_ifs
    · exact fun h => (h rfl).elim
    · refine hthen _ _ _ fun u => ?_
      unfold Volume.readEnd
      split_ifs
      · exact hthen _ _ _ fun u h => (h rfl).elim
      · exact fun h => (h rfl).elim
  unfold Volume.readAt at h ⊢
  simp only at h ⊢
  split_ifs at h ⊢ with h0 halign
  · exact .inl rfl
  · exact .inr rfl
  · exact .inl (hthen _ _ _ (hrest _ _ _ _) h)

/-- A read that fails counts no more bytes than its buffer has. -/
theorem readAt_count {dev : Dev} {e : String} (h : (v.readAt dev buf offset).err = some e) :
    (v.readAt dev buf offset).n ≤ (v.readAt dev buf offset).buf.length := by
  rcases readAt_failed (by rw [h]; nofun) with h0 | hfull
  · rw [h0]
    exact Nat.zero_le _
  · obtain ⟨hlen, hn⟩ := fullReadAt_counts dev v buf offset
    rw [hfull, hlen]
    exact hn

end Checked

end Jiva
