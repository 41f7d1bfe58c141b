import Jiva.CheckedReads

/-!
# Writes with their run-time checks, and negative offsets

A write at an offset that is not negative panics exactly if it comes to mark a sector that the table
does not have, and gives what `writeAt` of `DiffDisk` gives otherwise (`writeAt_ofNat`). The steps
of a write are put together by `Marks.andThen`.

At a negative offset the request is saved by an error of its first sector only (`below`), and an
aligned write by nothing : it goes to the table whether or not the file was written.
-/

namespace Jiva

namespace Checked

open Volume

variable {v : Volume} {buf : List Byte} {offset : ℤ} {runs : List (ℕ × ℕ)} {dev : Dev}

/-! ## Writes at offsets that are not negative -/

/-- The loop of a write comes through if and only if all its sectors are in the table. -/
theorem markLoop_ofNat (hfiles : v.target < v.files.length) (hl : v.LocationLe)
    (k : ℕ) : ∀ n : ℕ, markLoop v k n = if n = 0 ∨ k + n ≤ v.locationLen then .ok
    (Volume.markLoop v k n)
      else .error .indexOutOfRange
  | 0 => rfl
  | n + 1 => by
    have ih := markLoop_ofNat hfiles hl k n
    unfold markLoop at ih ⊢
    rw [List.range_succ, List.foldlM_append, ih]
    by_cases hn : n = 0 ∨ k + n ≤ v.locationLen
    · simp only [if_pos hn, bind, Except.bind, List.foldlM_cons, List.foldlM_nil, ← Int.natCast_add]
      by_cases hin : k + n < v.locationLen
      · have hinv := Volume.markLoop_inv v k n
        have hloc : (Volume.markLoop v k n).v.location (k + n) < v.files.length := by
          rw [hinv.start_eq]
          exact (hl _ hin).trans_lt hfiles
        rw [index_ofNat hin, if_pos (by omega)]
        simp only [index_ofNat hloc, pure, Except.pure]
        simp only [Volume.markLoop, List.range_succ, List.foldl_append, List.foldl_cons,
          List.foldl_nil]
      · rw [index_of_le (by omega), if_neg (by omega)]
    · rw [if_neg hn, if_neg (by omega)]
      rfl

theorem fullWriteAt_ofNat (dev : Dev) (hv : v.InRange) {offset : ℕ}
    (hb : buf.length % defaultSectorSize = 0) (ho : offset % defaultSectorSize = 0) :
    fullWriteAt dev v buf offset =
      if v.InTable [(offset / defaultSectorSize, buf.length / defaultSectorSize)] then
        .ok (v.fullWriteAt dev buf offset)
      else .error .indexOutOfRange := by
  have hz : (offset : ℤ).tmod sectorSize = 0 := by rw [tmod_ofNat, ho, Int.natCast_zero]
  have hloop := fun store => markLoop_ofNat (v := { v with store := store }) hv.target_lt
    hv.location_le (offset / defaultSectorSize) (buf.length / defaultSectorSize)
  unfold fullWriteAt Volume.fullWriteAt writeFile
  simp only [hb, hz, ho, ne_eq, not_true_eq_false, or_self, if_false, tdiv_ofNat, hloop,
    Int.not_lt.2 (Int.natCast_nonneg offset), Int.toNat_natCast, Volume.InTable,
    List.mem_singleton, forall_eq]
  split_ifs <;> rfl

/-- What a write in the table keeps in range. -/
theorem fullWriteAt_inRange (dev : Dev) (hv : v.InRange) {offset : ℕ}
    (hb : buf.length % defaultSectorSize = 0) (ho : offset % defaultSectorSize = 0)
    (hsize : offset + buf.length + maxAlloc ≤ 2 ^ 63) :
    (v.fullWriteAt dev buf offset).v.InRange ∧ v.SameChain (v.fullWriteAt dev buf offset).v := by
  have h := fullWriteAt_spec dev v buf offset hb ho
  refine ⟨⟨?_, ?_, fun s hs => ?_, ?_, fun f => ?_⟩, h.same⟩
  · rw [h.same.files]
    exact hv.two_le
  · rw [h.same.files]
    exact hv.le_u16
  · rw [h.location, h.same.target]
    split_ifs
    · exact hv.u16_target.le
    · exact hv.location_le s (h.same.locationLen ▸ hs)
  · rw [h.same.locationLen]
    exact hv.table
  · have hf := hv.sizes f
    rw [h.store, Jiva.writeFile]
    split
    · rename_i n e _
      rcases eq_or_ne f (v.file v.target) with rfl | hne
      · have hlen : (buf.take n).length ≤ buf.length := List.length_take_le' _ _
        simp only [Function.update_self, SparseFile.writeAt]
        omega
      · simpa only [Function.update_of_ne hne] using hf
    · rcases eq_or_ne f (v.file v.target) with rfl | hne
      · simp only [Function.update_self, SparseFile.writeAt]
        omega
      · simpa only [Function.update_of_ne hne] using hf

/-- A write inside one sector panics if and only if it can read the sector and has no entry for
it. -/
theorem readModifyWrite_ofNat (dev : Dev) (hv : v.InRange) {offset : ℕ}
    (hone : offset % defaultSectorSize + buf.length ≤ defaultSectorSize) (ho : offset < 2 ^ 63) :
    readModifyWrite dev v buf offset =
      (if v.InTable (v.modifyMarks dev buf offset) then .ok (v.readModifyWrite dev buf offset)
        else .error .indexOutOfRange) ∧
    (v.readModifyWrite dev buf offset).v.InRange ∧
    v.SameChain (v.readModifyWrite dev buf offset).v := by
  have hin : v.InTable [] := fun _ h => (List.not_mem_nil h).elim
  unfold readModifyWrite Volume.readModifyWrite Volume.modifyMarks Volume.readable
  by_cases h0 : buf.length = 0
  · simp only [h0, ne_eq, not_true_eq_false, false_and, if_false, if_true, if_pos hin]
    exact ⟨trivial, hv, SameChain.refl v⟩
  · have hread := fullReadAt_ofNat dev hv zeroSector (by rw [length_zeroSector]; decide)
      ((Nat.div_mul_le_self offset defaultSectorSize).trans_lt ho)
    obtain ⟨hv', hsame, hlen, -⟩ :=
      fullReadAt_kept dev hv zeroSector (offset / defaultSectorSize * defaultSectorSize)
    have hlt := sector_lt dev hv (k := offset / defaultSectorSize)
    have hmul : (offset : ℤ).tdiv sectorSize * sectorSize =
        (offset / defaultSectorSize * defaultSectorSize : ℕ) := by
      rw [tdiv_ofNat, Int.natCast_mul]
      rfl
    simp only [if_neg h0, hmul, hread, bind, Except.bind]
    rw [length_zeroSector] at hlen
    generalize v.fullReadAt dev zeroSector (offset / defaultSectorSize * defaultSectorSize) = r
      at hv' hsame hlen hlt ⊢
    cases herr : r.err with
    | some e =>
      simp only [Option.isNone_some, Bool.false_eq_true, and_false, if_false, if_pos hin]
      exact ⟨rfl, hv', hsame⟩
    | none =>
      have hslice := slice_ofNat r.buf (by omega : offset % defaultSectorSize ≤ r.buf.length) le_rfl
      have htake : buf.take ((r.buf.drop (offset % defaultSectorSize)).take
          (r.buf.length - offset % defaultSectorSize)).length = buf := by
        refine List.take_of_length_le ?_
        rw [List.length_take, List.length_drop]
        omega
      have hsl : (splice r.buf (offset % defaultSectorSize) buf).length = defaultSectorSize := by
        rw [length_splice (by omega), hlen]
      have hmod : (splice r.buf (offset % defaultSectorSize) buf).length % defaultSectorSize =
          0 := by
        rw [hsl, Nat.mod_self]
      have hfull := fullWriteAt_ofNat dev hv' hmod (Nat.mul_mod_left (offset / defaultSectorSize) _)
      rw [hsl, Nat.mul_div_cancel _ (by decide), Nat.div_self (by decide)] at hfull
      obtain ⟨hv'', hsame'⟩ := fullWriteAt_inRange dev hv' hmod
        (Nat.mul_mod_left (offset / defaultSectorSize) _) (by rw [hsl]; exact hlt herr)
      refine ⟨?_, hv'', hsame.trans hsame'⟩
      simp only [tmod_ofNat, hslice, htake, Int.toNat_natCast, hfull, Option.isNone_none, ne_eq, h0,
        not_false_eq_true, and_self, if_true, Volume.InTable, hsame.locationLen]

theorem inTable_append {rest : List (ℕ × ℕ)} :
    v.InTable (runs ++ rest) ↔ v.InTable runs ∧ v.InTable rest :=
  List.forall_mem_append

theorem inTable_nil (v : Volume) : v.InTable [] :=
  fun _ h => (List.not_mem_nil h).elim

/-- A step of a write that marks `runs` : it panics if they are not all in the table, and has the
result `w` otherwise. -/
structure Marks (v : Volume) (runs : List (ℕ × ℕ)) (x : Except Panic WriteResult)
    (w : WriteResult) : Prop where
  result : x = if v.InTable runs then .ok w else .error .indexOutOfRange
  kept : v.InTable runs → w.v.InRange ∧ v.SameChain w.v

theorem Marks.andThen {rest : List (ℕ × ℕ)} {x : Except Panic WriteResult}
    {w : WriteResult} {next : Volume → Except Panic WriteResult} {next' : Volume → WriteResult}
    (h : Marks v runs x w)
    (hnext : w.err = none → w.v.InRange → Marks w.v rest (next w.v) (next' w.v)) :
    Marks v (runs ++ if w.err.isSome then [] else rest) (x >>= fun w => writeThen w next)
      (w.andThen next') := by
  rw [h.result]
  by_cases hin : v.InTable runs
  · obtain ⟨hw, hsame⟩ := h.kept hin
    rw [if_pos hin]
    unfold WriteResult.andThen
    cases herr : w.err with
    | some e =>
      simp only [Option.isSome_some, if_true, List.append_nil, bind, Except.bind, writeThen, herr]
      exact ⟨by rw [if_pos hin], fun _ => ⟨hw, hsame⟩⟩
    | none =>
      have hn := hnext herr hw
      have hiff : w.v.InTable rest ↔ v.InTable rest := by
        unfold Volume.InTable
        rw [hsame.locationLen]
      simp only [Option.isSome_none, Bool.false_eq_true, if_false, bind, Except.bind,
        writeThen, herr]
      refine ⟨?_, fun hall => ?_⟩
      · simp only [hn.result, hiff, inTable_append, hin, true_and]
      · obtain ⟨hw', hsame'⟩ := hn.kept (hiff.2 (inTable_append.1 hall).2)
        exact ⟨hw', hsame.trans hsame'⟩
  · have hall : ∀ more, ¬v.InTable (runs ++ more) := fun more h => hin (inTable_append.1 h).1
    exact ⟨by rw [if_neg hin, if_neg (hall _)]; rfl, fun h => (hall _ h).elim⟩

/-- The return of the byte count at the end of a write. -/
theorem Marks.finish {x : Except Panic WriteResult} {w : WriteResult} (h : Marks v runs x w)
    (n : ℕ) : Marks v runs (x >>= fun w => writeThen w fun v => .ok ⟨v, n, none⟩)
    (w.andThen fun v => ⟨v, n, none⟩) := by
  have hdone : Marks v (runs ++ if w.err.isSome then [] else [])
      (x >>= fun w => writeThen w fun v => .ok ⟨v, n, none⟩) (w.andThen fun v => ⟨v, n, none⟩) :=
    h.andThen fun _ hw =>
      ⟨by rw [if_pos (inTable_nil _)], fun _ => ⟨hw, SameChain.refl _⟩⟩
  simpa using hdone

theorem readModifyWrite_marks (dev : Dev) (hv : v.InRange) (buf : List Byte)
    {offset : ℕ} (hone : offset % defaultSectorSize + buf.length ≤ defaultSectorSize)
    (ho : offset < 2 ^ 63) :
    Marks v (v.modifyMarks dev buf offset) (readModifyWrite dev v buf offset)
      (v.readModifyWrite dev buf offset) :=
  ⟨(readModifyWrite_ofNat dev hv hone ho).1, fun _ => (readModifyWrite_ofNat dev hv hone ho).2⟩

theorem fullWriteAt_marks (dev : Dev) (hv : v.InRange) {offset : ℕ}
    (hb : buf.length % defaultSectorSize = 0) (ho : offset % defaultSectorSize = 0)
    (hsize : buf.length = 0 → offset + maxAlloc ≤ 2 ^ 63) :
    Marks v [(offset / defaultSectorSize, buf.length / defaultSectorSize)]
      (fullWriteAt dev v buf offset) (v.fullWriteAt dev buf offset) := by
  refine ⟨fullWriteAt_ofNat dev hv hb ho, fun hin => fullWriteAt_inRange dev hv hb ho ?_⟩
  have htable := hv.table
  rcases hin _ (List.mem_singleton_self _) with h0 | hle
  · have hlen : buf.length = 0 := by
      rw [← Nat.div_add_mod buf.length defaultSectorSize, hb, show _ / _ = 0 from h0, Nat.mul_zero]
    rw [hlen]
    exact hsize hlen
  · unfold maxAlloc defaultSectorSize at *
    omega

theorem readable_of_modify {offset : ℕ}
    (h0 : buf.length ≠ 0) (h : (v.readModifyWrite dev buf offset).err = none) :
    (v.fullReadAt dev zeroSector (offset / defaultSectorSize * defaultSectorSize)).err = none := by
  unfold Volume.readModifyWrite at h
  rw [if_neg h0] at h
  cases herr :
    (v.fullReadAt dev zeroSector (offset / defaultSectorSize * defaultSectorSize)).err with
  | none => rfl
  | some e => simp [herr] at h

/-- The part of an unaligned write behind its first sector. -/
theorem writeRest_marks (dev : Dev) {u : Volume} (hu : u.InRange)
    {offset startCut endOffset : ℕ} (hcut : startCut + endOffset ≤ buf.length)
    (hend : endOffset ≤ defaultSectorSize) (hstart : (offset + startCut) % defaultSectorSize = 0)
    (hlast : (offset + buf.length - endOffset) % defaultSectorSize = 0)
    (hin : offset + buf.length < 2 ^ 63) (hsize : offset + startCut + maxAlloc ≤ 2 ^ 63) :
    let whole := (buf.drop startCut).take (buf.length - endOffset - startCut)
    let w := u.fullWriteAt dev whole (offset + startCut)
    Marks u ([((offset + startCut) / defaultSectorSize, whole.length / defaultSectorSize)] ++
        if w.err.isSome then []
        else w.v.modifyMarks dev (buf.drop (buf.length - endOffset))
          (offset + buf.length - endOffset))
      (do
        let whole ← slice buf startCut (buf.length - endOffset)
        let w ← fullWriteAt dev u whole (wrap64 (offset + startCut))
        writeThen w fun v => do
          let last ← slice buf (buf.length - endOffset) buf.length
          let w ← readModifyWrite dev v last (wrap64 (offset + buf.length - endOffset))
          writeThen w fun v => .ok ⟨v, buf.length, none⟩)
      (w.andThen fun v =>
        (v.readModifyWrite dev (buf.drop (buf.length - endOffset))
          (offset + buf.length - endOffset)).andThen fun v => ⟨v, buf.length, none⟩) := by
  intro whole w
  have hslice := slice_ofNat buf (by omega : startCut ≤ buf.length - endOffset) (Nat.sub_le _ _)
  have hslice' := slice_ofNat buf (Nat.sub_le buf.length endOffset) le_rfl
  rw [List.take_of_length_le (by rw [List.length_drop])] at hslice'
  have hwrap : wrap64 ((offset : ℤ) + startCut) = (offset + startCut : ℕ) := by
    rw [← Int.natCast_add]
    exact wrap64_ofNat (by omega)
  have hwrap' : wrap64 ((offset : ℤ) + buf.length - endOffset) =
      (offset + buf.length - endOffset : ℕ) := by
    rw [← Int.natCast_add, ← Int.natCast_sub (by omega)]
    exact wrap64_ofNat (by omega)
  have hwhole : whole.length = buf.length - endOffset - startCut := by
    rw [List.length_take, List.length_drop]
    omega
  rw [← Int.natCast_sub (by omega), hslice, hslice', hwrap, hwrap']
  have hfull : Marks u _ (fullWriteAt dev u whole (offset + startCut : ℕ)) w :=
    fullWriteAt_marks dev hu (by rw [hwhole]; unfold defaultSectorSize at *; omega) hstart
      fun _ => hsize
  refine hfull.andThen fun _ hw => ?_
  exact (readModifyWrite_marks dev hw _ (by rw [hlast, List.length_drop]; omega)
    (by omega)).finish _

/-- A write at an offset that is not negative panics if and only if it comes to mark a sector that
the table does not have. -/
theorem writeAt_ofNat (dev : Dev) (hv : v.InRange) (buf : List Byte) {offset : ℕ}
    (hbuf : buf.length ≤ maxAlloc) (ho : offset < 2 ^ 63) :
    Marks v (v.marks dev buf offset) (writeAt dev v buf offset) (v.writeAt dev buf offset) := by
  have hend : (wrap64 (buf.length + offset)).tmod sectorSize = 0 ↔
      (buf.length + offset) % defaultSectorSize = 0 := by
    rw [tmod_wrap64_eq_zero, ← Int.natCast_add, tmod_ofNat, Int.natCast_eq_zero]
  have hmod := mod_sector_lt offset
  have hcut : sectorSize - (offset % defaultSectorSize : ℕ) =
      (defaultSectorSize - offset % defaultSectorSize : ℕ) :=
    (Int.natCast_sub hmod.le).symm
  unfold writeAt Volume.writeAt Volume.marks
  simp only [tmod_ofNat, hend, hcut, Int.natCast_eq_zero, Int.ofNat_le]
  by_cases h0 : buf.length = 0
  · simp only [if_pos h0]
    exact ⟨by rw [if_pos (inTable_nil v)], fun _ => ⟨hv, SameChain.refl v⟩⟩
  by_cases halign : offset % defaultSectorSize = 0 ∧ (buf.length + offset) % defaultSectorSize = 0
  · simp only [if_neg h0, if_pos halign]
    refine fullWriteAt_marks dev hv ?_ halign.1 fun h => (h0 h).elim
    unfold defaultSectorSize at *
    omega
  by_cases hone : buf.length ≤ defaultSectorSize - offset % defaultSectorSize
  · simp only [if_neg h0, if_neg halign, if_pos hone]
    exact readModifyWrite_marks dev hv buf (by omega) ho
  · simp only [if_neg h0, if_neg halign, if_neg hone]
    have hle := cut_le (not_le.1 hone)
    have hfirst :=
      slice_ofNat buf (Nat.zero_le (defaultSectorSize - offset % defaultSectorSize)) (by omega)
    rw [Int.natCast_zero, List.drop_zero, Nat.sub_zero] at hfirst
    have htake : (buf.take (defaultSectorSize - offset % defaultSectorSize)).length =
        defaultSectorSize - offset % defaultSectorSize := by
      rw [List.length_take]
      omega
    have hmodify := readModifyWrite_marks dev hv
      (buf.take (defaultSectorSize - offset % defaultSectorSize)) (by omega) ho
    rw [hfirst]
    refine hmodify.andThen fun herr hw => ?_
    -- the first sector was read, so nothing goes around from here on
    have hlt := sector_lt dev hv (readable_of_modify (by omega) herr)
    have hdiv := Nat.div_add_mod' offset defaultSectorSize
    have hin : offset + buf.length < 2 ^ 63 := by omega
    have hwrap : wrap64 ((buf.length : ℤ) + offset) = (buf.length + offset : ℕ) := by
      rw [← Int.natCast_add]
      exact wrap64_ofNat (by omega)
    rw [hwrap, tmod_ofNat]
    refine writeRest_marks dev hw hle (mod_sector_lt _).le ?_ ?_ hin
      (next_sector offset ▸ hlt)
    · clear hlt
      unfold defaultSectorSize
      omega
    · clear hlt hdiv
      unfold defaultSectorSize
      omega

/-! ## Negative offsets -/

/-- What becomes of a request whose first sector is read at a negative offset : the volume and the
error, or the panic. Sectors below zero are not in the table, which is looked at unless there are
two files only. The bytes right below zero round to sector zero, and are then cut out of it with a
negative index. -/
def below (dev : Dev) (v : Volume) (offset : ℤ) : Except Panic (Volume × String) :=
  if offset ≤ -sectorSize then
    if v.files.length = 2 then .ok (v, "negative offset") else .error .indexOutOfRange
  else
    match (v.fullReadAt dev zeroSector 0).err with
    | some e => .ok ((v.fullReadAt dev zeroSector 0).v, e)
    | none => .error .sliceBounds

theorem below_of_readable (hle : ¬offset ≤ -sectorSize)
    (h : (v.fullReadAt dev zeroSector 0).err = none) :
    below dev v offset = .error .sliceBounds := by
  unfold below
  rw [if_neg hle]
  generalize v.fullReadAt dev zeroSector 0 = r at h ⊢
  rw [h]

theorem lookup_two (dev : Dev) (h2 : v.files.length = 2) (s : ℤ) :
    lookup dev v s = .ok (v, .ok 1) := by
  unfold lookup
  split_ifs
  · rw [DiffDisk.target, h2]
    rfl
  · rfl

theorem fullReadLoop_neg (dev : Dev) (h2 : v.files.length = 2)
    (hneg : offset < 0) (hge : -2 ^ 63 ≤ offset) {sectors : ℕ}
    (hlen : buf.length = sectors * defaultSectorSize) : ∀ m, m < sectors →
      fullReadLoop dev offset sectors m ⟨v, buf, 0, 1, sectors - m⟩ = .ok ⟨v, buf, 0,
        some "negative offset"⟩
  | 0, _ => by
    have hslice := slice_ofNat buf (Nat.zero_le (sectors * defaultSectorSize)) hlen.ge
    have hindex : index ((1 : ℕ) : ℤ) v.files.length = .ok 1 := index_ofNat (by omega)
    have hwrap : wrap64 offset = offset := by
      rw [wrap64, Int.bmod_eq_of_le] <;> omega
    rw [Int.natCast_zero] at hslice
    simp only [fullReadLoop, readRun, read, Nat.sub_zero, Nat.sub_self, Nat.zero_mul,
      Nat.one_ne_zero, if_false, Int.natCast_zero, Int.zero_add, Int.add_zero, hslice, hindex,
      hwrap, hneg, if_true, bind, Except.bind, readFile, pure, Except.pure]
    simp [splice]
  | m + 1, hm => by
    have hnext : sectors - (m + 1) + 1 = sectors - m := by omega
    simp only [fullReadLoop, lookup_two dev h2, bind, Except.bind, if_true, hnext]
    exact fullReadLoop_neg dev h2 hneg hge hlen m (by omega)

theorem fullReadAt_neg (dev : Dev) (v : Volume)
    (hlen : buf.length % defaultSectorSize = 0) (h0 : buf.length ≠ 0)
    (halign : offset.tmod sectorSize = 0) (hneg : offset < 0) (hge : -2 ^ 63 ≤ offset) :
    fullReadAt dev v buf offset = if v.files.length = 2 then .ok ⟨v, buf, 0, some "negative offset"⟩
      else .error .indexOutOfRange := by
  have hsector : offset.tdiv sectorSize < 0 := by
    have := Int.mul_tdiv_add_tmod offset sectorSize
    unfold sectorSize defaultSectorSize at *
    omega
  unfold fullReadAt
  rw [if_neg (by rw [halign, hlen]; simp), if_neg h0]
  by_cases h2 : v.files.length = 2
  · have hbuf : buf.length = buf.length / defaultSectorSize * defaultSectorSize :=
      (Nat.div_mul_cancel (Nat.dvd_of_mod_eq_zero hlen)).symm
    have hpos : 0 < buf.length / defaultSectorSize := Nat.pos_of_ne_zero fun h => by
      rw [h] at hbuf
      omega
    have hloop :=
      fullReadLoop_neg dev h2 hneg hge hbuf (buf.length / defaultSectorSize - 1) (by omega)
    rw [Nat.sub_sub_self hpos] at hloop
    rw [if_pos h2, lookup_two dev h2]
    exact hloop
  · rw [if_neg h2, lookup, if_neg (by omega), if_neg h2, index_neg hsector]
    rfl

theorem tmod_nonpos (h : offset < 0) : offset.tmod sectorSize ≤ 0 := by
  have hneg := Int.tmod_nonneg sectorSize (show 0 ≤ -offset by omega)
  rw [Int.neg_tmod] at hneg
  omega

theorem tmod_neg (h : offset < 0) (hle : ¬offset ≤ -sectorSize) : offset.tmod sectorSize < 0 := by
  have hdiv := Int.mul_tdiv_add_tmod offset sectorSize
  have hgt := tmod_nonpos h
  unfold sectorSize defaultSectorSize at *
  omega

theorem aligned_neg {len : ℕ} (h : offset < 0)
    (halign : offset.tmod sectorSize = 0 ∧ (len + offset).tmod sectorSize = 0) :
    len % defaultSectorSize = 0 ∧ offset ≤ -sectorSize := by
  obtain ⟨h₁, h₂⟩ := halign
  rw [← Int.dvd_iff_tmod_eq_zero] at h₁ h₂
  unfold sectorSize defaultSectorSize at *
  omega

/-- The read of the first sector of a request at a negative offset. -/
theorem firstSector_neg (dev : Dev) (hv : v.InRange) (hneg : offset < 0) (hge : -2 ^ 63 ≤ offset) :
    fullReadAt dev v zeroSector (offset.tdiv sectorSize * sectorSize) = if offset ≤ -sectorSize then
        if v.files.length = 2 then .ok ⟨v, zeroSector, 0, some "negative offset"⟩
        else .error .indexOutOfRange
      else .ok (v.fullReadAt dev zeroSector 0) := by
  have hdiv := Int.mul_tdiv_add_tmod offset sectorSize
  have hlt := Int.tmod_lt_of_pos offset (show 0 < sectorSize by decide)
  have hgt := Int.lt_tmod_of_pos offset (show 0 < sectorSize by decide)
  have hle := tmod_nonpos hneg
  by_cases hin : offset ≤ -sectorSize
  · rw [if_pos hin]
    refine fullReadAt_neg dev v (by rw [length_zeroSector, Nat.mod_self])
      (by rw [length_zeroSector]; decide) (Int.mul_tmod_left _ _) ?_ ?_
    all_goals unfold sectorSize defaultSectorSize at *; omega
  · have hzero : offset.tdiv sectorSize * sectorSize = ((0 : ℕ) : ℤ) := by
      unfold sectorSize defaultSectorSize at *
      omega
    rw [if_neg hin, hzero]
    exact fullReadAt_ofNat dev hv _ (by rw [length_zeroSector]; decide) (by decide)

/-- A read at a negative offset. -/
theorem readAt_neg (dev : Dev) (hv : v.InRange) (buf : List Byte)
    (h0 : buf.length ≠ 0) (hneg : offset < 0) (hge : -2 ^ 63 ≤ offset) :
    readAt dev v buf offset = (below dev v offset).map fun p => ⟨p.1, buf, 0, some p.2⟩ := by
  have hsub : offset - offset.tmod sectorSize = offset.tdiv sectorSize * sectorSize := by
    have := Int.mul_tdiv_add_tmod offset sectorSize
    rw [Int.mul_comm] at this
    omega
  unfold readAt
  simp only [if_neg h0, hsub, firstSector_neg dev hv hneg hge, tmod_wrap64_eq_zero]
  by_cases halign : offset.tmod sectorSize = 0 ∧ (buf.length + offset).tmod sectorSize = 0
  · obtain ⟨hlen, hle⟩ := aligned_neg hneg halign
    rw [if_pos halign, fullReadAt_neg dev v hlen h0 halign.1 hneg hge, below, if_pos hle]
    split_ifs <;> rfl
  · rw [if_neg halign, below]
    by_cases hle : offset ≤ -sectorSize
    · simp only [if_pos hle]
      split_ifs <;> rfl
    · simp only [if_neg hle]
      generalize v.fullReadAt dev zeroSector 0 = r
      cases herr : r.err with
      | some e => simp only [readThen, herr, bind, Except.bind, Except.map]
      | none =>
        simp only [readThen, herr, bind, Except.bind, Except.map, slice_neg (tmod_neg hneg hle)]

/-- An aligned write at a negative offset. -/
theorem fullWriteAt_neg (dev : Dev) (v : Volume) (hlen : buf.length % defaultSectorSize = 0)
    (h0 : buf.length ≠ 0) (halign : offset.tmod sectorSize = 0) (hneg : offset < 0) :
    fullWriteAt dev v buf offset = .error .indexOutOfRange := by
  have hsector : offset.tdiv sectorSize < 0 := by
    have := Int.mul_tdiv_add_tmod offset sectorSize
    unfold sectorSize defaultSectorSize at *
    omega
  obtain ⟨n, hn⟩ : ∃ n, buf.length / defaultSectorSize = n + 1 :=
    Nat.exists_eq_succ_of_ne_zero fun h => by
      have := Nat.div_add_mod buf.length defaultSectorSize
      rw [h, hlen] at this
      omega
  unfold fullWriteAt markLoop
  rw [if_neg (by rw [halign, hlen]; simp), hn, List.range_succ_eq_map]
  simp only [List.foldlM_cons, Int.natCast_zero, Int.add_zero, index_neg hsector, bind, Except.bind]

/-- A write at a negative offset. -/
theorem writeAt_neg (dev : Dev) (hv : v.InRange)
    (h0 : buf.length ≠ 0) (hneg : offset < 0) (hge : -2 ^ 63 ≤ offset) :
    writeAt dev v buf offset =
      if offset.tmod sectorSize = 0 ∧ (buf.length + offset).tmod sectorSize = 0 then
        .error .indexOutOfRange
      else (below dev v offset).map fun p => ⟨p.1, 0, some p.2⟩ := by
  have hmodify : ∀ first : List Byte, first.length ≠ 0 → readModifyWrite dev v first offset =
      (below dev v offset).map fun p => ⟨p.1, 0, some p.2⟩ := by
    intro first hfirst
    unfold readModifyWrite below
    simp only [if_neg hfirst, firstSector_neg dev hv hneg hge]
    by_cases hle : offset ≤ -sectorSize
    · simp only [if_pos hle]
      split_ifs <;> rfl
    · simp only [if_neg hle]
      generalize v.fullReadAt dev zeroSector 0 = r
      cases herr : r.err with
      | some e => simp only [herr, bind, Except.bind, Except.map, pure, Except.pure]
      | none => simp only [herr, bind, Except.bind, Except.map, slice_neg (tmod_neg hneg hle)]
  have hcut : 0 < sectorSize - offset.tmod sectorSize := by
    have := tmod_nonpos hneg
    unfold sectorSize defaultSectorSize at *
    omega
  unfold writeAt
  simp only [if_neg h0, tmod_wrap64_eq_zero]
  split_ifs with halign hone
  · obtain ⟨hlen, -⟩ := aligned_neg hneg halign
    exact fullWriteAt_neg dev v hlen h0 halign.1 hneg
  · exact hmodify buf h0
  · rw [slice, if_pos (by omega)]
    simp only [bind, Except.bind]
    rw [hmodify _ (by simp only [List.length_take, List.length_drop, Int.toNat_zero]; omega)]
    cases below dev v offset <;> rfl

theorem below_inRange (hv : v.InRange) {p : Volume × String}
    (h : below dev v offset = .ok p) : p.1.InRange := by
  have hfirst := (fullReadAt_kept dev hv zeroSector 0).inRange
  unfold below at h
  generalize v.fullReadAt dev zeroSector 0 = r at hfirst h
  split_ifs at h
  · cases h
    exact hv
  · split at h
    · cases h
      exact hfirst
    · cases h

theorem unmapLoop_inRange (offset len : ℕ) : ∀ (is : List ℕ) {v : Volume}, v.InRange →
    (unmapLoop offset len is v).1.InRange
  | [], _, hv => hv
  | i :: is, v, hv => by
    unfold unmapLoop fallocatePunch
    split_ifs
    · exact unmapLoop_inRange offset len is hv
    · exact hv
    · refine unmapLoop_inRange offset len is ⟨hv.two_le, hv.le_u16, hv.location_le,
        hv.table, fun f => ?_⟩
      rcases eq_or_ne f (v.file i) with rfl | hf
      · simpa only [setInode, Function.update_self, SparseFile.punchHole] using hv.sizes (v.file i)
      · simpa only [setInode, Function.update_of_ne hf] using hv.sizes f

theorem unmap_inRange (hv : v.InRange) (offset len : ℕ) : (v.unmap offset len).1.InRange := by
  have h := unmapLoop_inRange offset len (List.range v.files.length) hv
  unfold Volume.unmap
  rcases hloop : unmapLoop offset len (List.range v.files.length) v with ⟨u, e | e⟩
    <;> rw [hloop] at h <;> exact h

end Checked

end Jiva
