import Jiva.Stocked

/-!
# The table covers the volume

The location table gets its length in three ways. `construct` divides the size in `volume.meta` by
the sector size and adds an entry if the size it was called with, not the stored one, is not a
number of whole sectors. `NewReadOnly` calls it with size zero. `Resize` appends the difference of
the sizes, divided by the sector size, to the table that is there.

If all the sizes are numbers of whole sectors the roundings do not matter : the table covers the
volume, and no request inside the volume fails or indexes the table out of range (`table_covers`). A
size of `4096` that is changed to `4608` leaves a table of one entry (`grown_not_covered`), and the
last sector of such a volume can not be read or written anyway.
-/

namespace Jiva

open Faults Links Transition

/-! ## Requests on a covered volume -/

namespace Volume

variable {v : Volume} {z : ℕ}

/-- The runs of a write inside the volume lie in a table that covers the volume. -/
theorem inTable_marks (hcover : z ≤ v.locationLen * defaultSectorSize) (dev : Dev)
    {buf : List Byte} {offset : ℕ} (hin : offset + buf.length ≤ z) :
    v.InTable (v.marks dev buf offset) := by
  have hmod := mod_sector_lt offset
  have hone : ∀ {part : List Byte} {off : ℕ}, part.length ≠ 0 → off + part.length ≤ z →
      off / defaultSectorSize + 1 ≤ v.locationLen := by
    intro part off h0 hle
    rw [defaultSectorSize_eq] at *
    omega
  have hmodify : ∀ (u : Volume) (part : List Byte) (off : ℕ), off + part.length ≤ z →
      v.InTable (u.modifyMarks dev part off) := by
    intro u part off hle
    unfold modifyMarks
    split_ifs with h
    · intro r hr
      obtain rfl := List.mem_singleton.1 hr
      exact .inr (hone h.1 hle)
    · exact Checked.inTable_nil v
  have hrun : ∀ (part : List Byte) (off : ℕ), off + part.length ≤ z →
      part.length / defaultSectorSize = 0 ∨
      off / defaultSectorSize + part.length / defaultSectorSize ≤ v.locationLen := by
    intro part off hle
    rw [defaultSectorSize_eq] at *
    omega
  unfold marks
  dsimp only
  split_ifs with h0 halign hle
  · exact Checked.inTable_nil v
  · intro r hr
    obtain rfl := List.mem_singleton.1 hr
    exact hrun buf offset hin
  · exact hmodify v buf offset hin
  · rw [Checked.inTable_append]
    exact ⟨hmodify _ _ _ (by rw [List.length_take]; omega), Checked.inTable_nil v⟩
  · have hcut := Checked.cut_le (Nat.lt_of_not_le hle)
    rw [Checked.inTable_append]
    refine ⟨hmodify _ _ _ (by rw [List.length_take]; omega), fun r hr => ?_⟩
    rcases List.mem_cons.1 hr with rfl | hr
    · exact hrun _ _ (by rw [List.length_take, List.length_drop]; omega)
    · exact absurd hr (List.not_mem_nil)
  · have hcut := Checked.cut_le (Nat.lt_of_not_le hle)
    rw [Checked.inTable_append]
    refine ⟨hmodify _ _ _ (by rw [List.length_take]; omega), fun r hr => ?_⟩
    rcases List.mem_cons.1 hr with rfl | hr
    · exact hrun _ _ (by rw [List.length_take, List.length_drop]; omega)
    · exact hmodify _ _ _ (by rw [List.length_drop]; omega) r hr

/-- The volume of `z` bytes can be read and written everywhere : its table has an entry for every
byte, and no request inside the volume panics or fails on a device that works. -/
structure Covered (v : Volume) (z : ℕ) : Prop where
  table : z ≤ v.locationLen * defaultSectorSize
  reads : ∀ (buf : List Byte) (offset : ℕ), buf.length ≤ maxAlloc → offset + buf.length ≤ z →
    ∃ res, Checked.readAt Dev.ok v buf offset = .ok res ∧ res.err = none
  writes : ∀ (buf : List Byte) (offset : ℕ), buf.length ≤ maxAlloc → offset + buf.length ≤ z →
    ∃ res, Checked.writeAt Dev.ok v buf offset = .ok res ∧ res.err = none

theorem Sized.inRange (h : v.Sized z) (hcover : z ≤ v.locationLen * defaultSectorSize)
    (halloc : 2 * v.locationLen ≤ maxAlloc) : v.InRange where
  two_le := h.two_le
  le_u16 := h.le_u16
  location_le := h.locationLe
  table := halloc
  sizes f := by
    have hf := h.bound f
    unfold maxAlloc at *
    rw [defaultSectorSize_eq] at hcover
    omega

theorem Sized.covered (h : v.Sized z) (hz : z % defaultSectorSize = 0)
    (hcover : z ≤ v.locationLen * defaultSectorSize) (halloc : 2 * v.locationLen ≤ maxAlloc) :
    v.Covered z := by
  have hrange := h.inRange hcover halloc
  have hlt : z < 2 ^ 63 := by
    unfold maxAlloc at halloc
    rw [defaultSectorSize_eq] at hcover
    omega
  refine ⟨hcover, fun buf offset hbuf hin => ?_, fun buf offset hbuf hin => ?_⟩
  · exact ⟨_, Checked.readAt_ofNat Dev.ok hrange hbuf (by omega), h.readAt_ok hz hin⟩
  · have hmarks :=
      (Checked.writeAt_ofNat Dev.ok hrange buf hbuf (by omega : offset < 2 ^ 63)).result
    rw [if_pos (inTable_marks hcover Dev.ok hin)] at hmarks
    exact ⟨_, hmarks, h.writeAt_ok hz hin⟩

end Volume

/-! ## A replica with any head -/

namespace Replica

/-- `if head != "" { r.info.Head = head }`. -/
def overrideHead (head : Option DiskName) (r : Replica) : Replica :=
  match head with
  | none => r
  | some h => { r with info := { r.info with head := some h } }

/-- `NewReadOnly`, which is `construct` with size zero and the given head. The flag for read-only
replicas is not passed on to the replica. -/
def newReadOnly (preload : Bool) (head : Option DiskName) (fuel : ℕ) : ReplicaAct String Unit := do
  Act.modify (blank 0 512)
  let found ← readMetadata fuel
  Act.modify (allocLocation 0)
  Act.modify (overrideHead head)
  (if found then openLiveChain fuel else Act.throw "file does not exist" : ReplicaAct String Unit)
  Act.modify fun r => { r with info := { r.info with
    parent := (r.info.head.bind r.diskData).bind Disk.parent } }
  (if preload then Act.modify (preloadLunMap none) else pure () : ReplicaAct String Unit)
  let r ← Act.get
  encodeInfo .reopened { r.info with dirty := true }

/-- The replica is open on the chain `ns`, from whatever disk it starts, and the metadata files lead
along this chain. -/
structure Laid (r : Replica) (h : DiskName) (ss : List DiskName) : Prop where
  stocked : r.Stocked (h :: ss)
  readOnly : r.readOnly = false
  head : r.info.head = some h
  records : Follows r.parentOf (some h) (h :: ss)
  named : r.dir.Named
  links : Follows r.dir.next (some h) (h :: ss)
  imgs : ∀ n ∈ h :: ss, (r.dir.img n).isSome
  volumeMeta : ∃ i, r.dir.volumeMeta = some i ∧ i.size = r.info.size ∧ i.head = some h
  chainLen : ss.length + 1 ≤ r.maxChainLen

section Laid

variable {r t u : Replica} {h : DiskName} {ss : List DiskName}

theorem Coherent.laid {k : ℕ} {gone : List DiskName} (hc : r.Coherent [] k ss gone)
    (hs : r.Stocked (.head k :: ss)) : r.Laid (.head k) ss := by
  obtain ⟨i, hi, ha⟩ := hc.volumeMeta
  exact ⟨hs, hc.readOnly, hc.head, hc.follows, hc.tidy.named, hc.follows_dir, fun _ => hc.imgs,
    ⟨i, hi, ha.size, ha.head.trans hc.head⟩, hc.chainLen⟩

theorem Laid.withVol {v : Volume} (hl : r.Laid h ss) (hs : r.vol.SameChain v)
    (hv : v.Sized r.info.size) : (r.withVol v).Laid h ss :=
  { hl with stocked := hl.stocked.withVol hs hv }

theorem Laid.readAt (hl : r.Laid h ss) (dev : Dev) (buf : List Byte) (offset : ℕ) :
    (r.readAt dev buf offset).1.Laid h ss :=
  hl.withVol (Volume.readAt_sameChain dev r.vol buf offset) (hl.stocked.sized.readAt dev buf offset)

theorem Laid.writeAt (hl : r.Laid h ss) (dev : Dev) {buf : List Byte} {offset : ℕ}
    (hin : offset + buf.length ≤ r.info.size) : (r.writeAt dev buf offset).1.Laid h ss := by
  have hd : r.setDirty.Laid h ss := { hl with stocked := hl.stocked.setDirty }
  have hw : (r.setDirty.withVol (r.vol.writeAt dev buf offset).v).Laid h ss :=
    hd.withVol (Volume.writeAt_sameChain dev r.vol buf offset) (hl.stocked.sized.writeAt dev hin)
  unfold Replica.writeAt
  dsimp only
  split_ifs
  · exact hl
  · split
    · exact hw
    · split
      · exact { hw with stocked := hw.stocked.of_same rfl rfl rfl rfl rfl rfl }
      · exact hw
      · exact hw

theorem Laid.close (hl : r.Laid h ss) (hk : close .calm r = (.ok (), t)) :
    t.Laid h ss ∧ t.info = r.info ∧ t.volume = r.volume := by
  rw [close_calm hl.readOnly] at hk
  cases hk
  exact ⟨{ hl with
    stocked := hl.stocked.of_same rfl rfl rfl rfl rfl rfl
    volumeMeta := ⟨_, rfl, rfl, hl.head⟩ }, rfl, rfl⟩

theorem Laid.liveChain_eq (hl : r.Laid h ss) : r.liveChain (r.maxChainLen + 1) = .ok (h :: ss) := by
  unfold liveChain
  rw [hl.head]
  exact chain_eq hl.records (by have := hl.chainLen; omega)

theorem Laid.resize {obj : NewSize} (hl : r.Laid h ss)
    (hk : resize obj (r.maxChainLen + 1) .calm r = (.ok (), t)) :
    t.Laid h ss ∧ GrownTo obj.toBytes.toNat r t := by
  obtain ⟨hst, hgrown, -, rfl⟩ := resize_stocked hl.readOnly hl.liveChain_eq hl.imgs hl.stocked hk
  exact ⟨{ hl with stocked := hst, volumeMeta := ⟨_, rfl, rfl, hl.head⟩ }, hgrown⟩

theorem Laid.diskMeta_isSome (hl : r.Laid h ss) : (r.dir.diskMeta h).isSome :=
  Dir.isSome_of_follows hl.links (List.mem_cons_self ..)

/-- The metadata files that are read again lead the same way. -/
theorem next_reread {ns : List DiskName} {c : ℤ} (hm : ∀ n, t.dir.diskMeta n =
    if n ∈ ns then (r.dir.diskMeta n).map (Disk.reread n c) else r.dir.diskMeta n) (n : DiskName) :
    t.dir.next n = r.dir.next n := by
  unfold Dir.next
  rw [hm]
  split_ifs
  · rw [Option.map_map]
    rfl
  · rfl

theorem named_reread {ns : List DiskName} {c : ℤ} (hm : ∀ n, t.dir.diskMeta n =
    if n ∈ ns then (r.dir.diskMeta n).map (Disk.reread n c) else r.dir.diskMeta n)
    (hn : r.dir.Named) : t.dir.Named := by
  intro n d hd
  rw [hm] at hd
  split_ifs at hd
  · obtain ⟨e, -, rfl⟩ := Option.map_eq_some_iff.1 hd
    rfl
  · exact hn n d hd

/-- `New` on the directory. -/
theorem Laid.construct {preload : Bool} {size sectorSize fuel : ℕ} {created : String}
    (hl : r.Laid h ss)
    (hk : constructWith none preload size sectorSize fuel created .calm r = (.ok (), t)) :
    t.Laid h ss ∧ SameSize r t := by
  obtain ⟨vm, hv, hsize, hhead⟩ := hl.volumeMeta
  obtain ⟨hmod, ss', hf, hfuel, hlen⟩ :=
    constructWith_follows hv hhead hl.named hl.diskMeta_isSome hk
  obtain rfl : ss = ss' := (List.cons.inj (hl.links.unique hf)).2
  obtain ⟨t', hk', ho⟩ :=
    constructWith_opened hv hhead hl.named hf hfuel hlen hl.imgs hmod none preload created
  obtain rfl : t = t' := congrArg Prod.snd (hk.symm.trans hk')
  have hst := hl.stocked.opened ho hsize hlen
  have hrecords : Follows t.parentOf (some h) (h :: ss) := by
    refine hl.links.congr fun n hn => ?_
    unfold parentOf
    rw [ho.data n (by simp [backingNames]), if_pos hn, Option.map_map]
    rfl
  refine ⟨⟨hst, ho.readOnly, ?_, hrecords, named_reread ho.metas hl.named, ?_, ?_, ?_, ?_⟩,
    ⟨?_, .inr ?_⟩⟩
  · rw [ho.info]
    exact hhead
  · exact hl.links.congr fun n _ => next_reread ho.metas n
  · rw [ho.dir]
    exact hl.imgs
  · exact ⟨{ vm with parent := ss.head?, dirty := true }, by rw [ho.dir], by rw [ho.info], hhead⟩
  · rw [ho.maxChainLen]
    exact hlen
  · rw [ho.info]
    exact hsize
  · rw [← hsize]
    exact ho.table

/-- What is left of `NewReadOnly` once the metadata is read and the head is set. -/
theorem newReadOnly_eq {head : Option DiskName} {fuel : ℕ} {e w : Replica} {found : Bool}
    (hread : readMetadata fuel .calm (r.blank 0 512) = (.ok found, e))
    (hopen : (if found then openLiveChain fuel else Act.throw "file does not exist" :
      ReplicaAct String Unit) .calm ((e.allocLocation 0).overrideHead head) = (.ok (), w))
    (hro : w.readOnly = false) (preload : Bool) :
    newReadOnly preload head fuel .calm r = (.ok (), w.finished none preload) := by
  unfold newReadOnly
  rw [calm_bind (calm_modify _), calm_bind hread, calm_bind (calm_modify _),
    calm_bind (calm_modify _), calm_bind hopen, calm_bind (calm_modify _)]
  cases preload with
  | false =>
    rw [if_neg Bool.false_ne_true, calm_bind (calm_pure _), calm_bind calm_get,
      encodeInfo_calm (by exact hro)]
    rfl
  | true =>
    rw [if_pos rfl, calm_bind (calm_modify _), calm_bind calm_get, encodeInfo_calm (by exact hro)]
    rfl

/-- A chain that is opened with a head that is not at its start. -/
theorem Laid.finished {e : Replica} {as : List DiskName} {h₀ : DiskName} {ss₀ : List DiskName}
    (hl : r.Laid h₀ ss₀) {vm : Info} (hsize : vm.size = r.info.size)
    (hsplit : h₀ :: ss₀ = as ++ h :: ss)
    (he : Entered { r.blank 0 512 with info := vm } (h₀ :: ss₀) e)
    (hfin : Finished none
      (({ e.allocLocation 0 with info := { vm with head := some h } } : Replica).assemble
      (h :: ss).reverse) t) : t.Laid h ss ∧ SameSize r t := by
  have hmem : ∀ n ∈ h :: ss, n ∈ h₀ :: ss₀ := fun n hn => by
    rw [hsplit]
    exact List.mem_append_right _ hn
  have hlinks : Follows r.dir.next (some h) (h :: ss) := by
    have := hl.links
    rw [hsplit] at this
    exact this.drop
  have hlen : ss.length + 1 ≤ r.maxChainLen := by
    have := congrArg List.length hsplit
    have := hl.chainLen
    simp only [List.length_cons, List.length_append] at *
    omega
  have hdir : e.dir = { r.dir with diskMeta := e.dir.diskMeta } := (congrArg Replica.dir he.rest :)
  have htdir : t.dir = { e.dir with volumeMeta := some { t.info with dirty := true } } := hfin.dir
  have himg : t.dir.img = r.dir.img := by rw [htdir, hdir]
  have hstore : t.dir.store = r.dir.store := by rw [htdir, hdir]
  have hnext : t.dir.nextIno = r.dir.nextIno := by rw [htdir, hdir]
  have hino : t.ino = r.ino := funext fun n => by unfold ino; rw [himg]
  have hmetas : ∀ n, t.dir.diskMeta n = if n ∈ h₀ :: ss₀ then
      (r.dir.diskMeta n).map (Disk.reread n r.getRevisionCounter) else r.dir.diskMeta n :=
        fun n => by
    rw [htdir]
    exact he.metas n
  have hdata : ∀ n, t.diskData n = if n ∈ h₀ :: ss₀ then
      (r.dir.diskMeta n).map (Disk.reread n r.getRevisionCounter) else none := fun n => by
    rw [hfin.data n (by simp [backingNames])]
    exact he.data n
  obtain ⟨hro, -, hmax, -⟩ := hfin.rest
  have hmax : t.maxChainLen = r.maxChainLen := by
    rw [hmax]
    show e.maxChainLen = _
    rw [he.rest]
    rfl
  have hhead : t.info.head = some h := by rw [hfin.info]; rfl
  have htsize : t.info.size = r.info.size := by
    rw [hfin.info]
    exact hsize
  have hfiles : t.volume.files = 0 :: (h :: ss).reverse.map t.ino := by
    have heino : e.ino = r.ino := funext fun n => by unfold ino; rw [hdir]
    rw [hino, ← heino]
    exact hfin.files _ rfl
  have hst : t.Stocked (h :: ss) := by
    refine Stocked.of_files hfiles (Nat.succ_pos _) (fun s _ => hfin.location (fun _ => rfl) s)
      (fun n hn => ?_) ?_ (hmax ▸ hlen) (hmax ▸ hl.stocked.limit)
    · rw [hstore, hino, htsize]
      exact hl.stocked.size_eq (hmem n hn)
    · rw [htsize]
      exact hl.stocked.filed.of_sub hstore hnext fun n i hi => himg ▸ hi
  have hrecords : Follows t.parentOf (some h) (h :: ss) := by
    refine hlinks.congr fun n hn => ?_
    unfold parentOf
    rw [hdata n, if_pos (hmem n hn), Option.map_map]
    rfl
  refine ⟨⟨hst, ?_, hhead, hrecords, named_reread hmetas hl.named,
    hlinks.congr fun n _ => next_reread hmetas n, ?_, ?_, hmax ▸ hlen⟩, htsize, .inr ?_⟩
  · rw [hro]
    show e.readOnly = false
    rw [he.rest]
    rfl
  · rw [himg]
    exact fun n hn => hl.imgs n (hmem n hn)
  · exact ⟨{ t.info with dirty := true }, by rw [htdir], rfl, hhead⟩
  · rw [hfin.locationLen, ← hsize]
    have hinfo : e.info.size = vm.size := congrArg Info.size (congrArg Replica.info he.rest :)
    show _ ≤ e.info.size / defaultSectorSize + _
    rw [hinfo]
    exact Nat.le_add_right _ _

/-- `NewReadOnly` on the directory. -/
theorem Laid.newReadOnly {preload : Bool} {head : Option DiskName} {fuel : ℕ} (hl : r.Laid h ss)
    (hfuel : ss.length < fuel) (hk : newReadOnly preload head fuel .calm r = (.ok (), t)) :
    ∃ h' ss', t.Laid h' ss' ∧ SameSize r t := by
  obtain ⟨vm, hv, hsize, hhead⟩ := hl.volumeMeta
  set r₁ : Replica := { r.blank 0 512 with info := vm } with hr₁
  have hread := readMetadata_calm (r := r.blank 0 512) rfl hv hhead hl.named hl.links hfuel
  have he : Entered r₁ (h :: ss) ((h :: ss).foldl enter r₁) :=
    Entered.chain (Entered.refl r₁) hl.links.nodup hl.links.isSome
  rw [← hr₁] at hread
  generalize (h :: ss).foldl enter r₁ = e at hread he
  have hinfo : e.info = vm := (congrArg Replica.info he.rest :)
  have hset : (e.allocLocation 0).overrideHead head =
      { e.allocLocation 0 with info := { vm with head := some (head.getD h) } } := by
    cases head with
    | none =>
      rw [Option.getD_none, ← hhead, ← hinfo]
      rfl
    | some x =>
      rw [← hinfo]
      rfl
  have hdata : e.diskData = ((e.allocLocation 0).overrideHead head).diskData := by rw [hset]; rfl
  -- the head that is set is in the chain, or the live chain could not be opened
  have hmem : head.getD h ∈ h :: ss := by
    by_contra hnot
    have hnone : e.diskData (head.getD h) = none := by
      rw [he.data, if_neg hnot]
      rfl
    unfold Replica.newReadOnly at hk
    rw [calm_bind (calm_modify _), calm_bind hread, calm_bind (calm_modify _),
      calm_bind (calm_modify _), hset] at hk
    obtain ⟨⟨⟩, w, hw, -⟩ := calm_bind_ok.1 hk
    rw [if_pos rfl] at hw
    obtain ⟨fuel, rfl⟩ := Nat.exists_eq_succ_of_ne_zero (Nat.ne_zero_of_lt hfuel)
    unfold openLiveChain at hw
    rw [calm_bind calm_get] at hw
    dsimp only at hw
    unfold chain at hw
    rw [show (e.allocLocation 0).diskData (head.getD h) = none from hnone] at hw
    cases hw
  obtain ⟨as, bs, hsplit⟩ := List.append_of_mem hmem
  have hfollows : Follows (fun m => (e.diskData m).map Disk.parent) (some (head.getD h))
      (head.getD h :: bs) := by
    have hall := he.follows hl.links
    rw [hsplit] at hall
    exact hall.drop
  have hlen : bs.length < fuel ∧ bs.length + 1 ≤ r.maxChainLen := by
    have hcount := congrArg List.length hsplit
    have hchain := hl.chainLen
    simp only [List.length_cons, List.length_append] at hcount
    omega
  have hmax : e.maxChainLen = r.maxChainLen := (congrArg Replica.maxChainLen he.rest :)
  have himg : e.dir.img = r.dir.img := congrArg (fun x => x.dir.img) he.rest
  have hro : e.readOnly = false := (congrArg Replica.readOnly he.rest :)
  set x : Replica :=
    { e.allocLocation 0 with info := { vm with head := some (head.getD h) } } with hx
  have hopen : openLiveChain fuel .calm x = (.ok (), x.assemble (head.getD h :: bs).reverse) := by
    refine openLiveChain_calm rfl hfollows hlen.1 ?_ fun n hn => ?_
    · rw [show x.maxChainLen = e.maxChainLen from rfl, hmax]
      exact hlen.2
    · rw [show x.dir.img = e.dir.img from rfl, himg]
      refine hl.imgs n ?_
      rw [hsplit]
      exact List.mem_append_right _ hn
  rw [← hset] at hopen
  have heq := newReadOnly_eq (r := r) hread hopen (by rw [hset]; exact hro) preload
  obtain rfl : t = _ := congrArg Prod.snd (hk.symm.trans heq)
  rw [hset]
  exact ⟨_, _, hl.finished hsize hsplit he (finished_spec none preload _)⟩

end Laid

end Replica

/-! ## Runs -/

/-- How a call panics, if it does. -/
def panicOf {α : Type} : Except Panic α → Option Panic
  | .ok _ => none
  | .error p => some p

theorem panicOf_some {α : Type} {x : Except Panic α} {p : Panic} (h : panicOf x = some p) :
    x = .error p := by
  cases x with
  | ok a => cases h
  | error q =>
    cases h
    rfl

/-- What opens a replica or changes its size, and requests in between. `new` and `newReadOnly` come
after `Close`. -/
inductive TableOp
  | readAt (dev : Dev) (buf : List Byte) (offset : ℕ)
  | writeAt (dev : Dev) (buf : List Byte) (offset : ℕ)
  | resize (obj : Replica.NewSize)
  | new (preload : Bool) (size sectorSize : ℕ) (created : String)
  | newReadOnly (preload : Bool) (head : Option DiskName)

namespace Replica

/-- The replica that a call leaves if it returns without an error. -/
def afterCall (act : ReplicaAct String Unit) (r : Replica) : Option Replica :=
  match act .calm r with
  | (.ok (), t) => some t
  | _ => none

theorem afterCall_some {act : ReplicaAct String Unit} {r t : Replica}
    (h : afterCall act r = some t) : act .calm r = (.ok (), t) := by
  unfold afterCall at h
  split at h
  · next heq =>
    cases h
    exact heq
  · cases h

/-- One step. Calls return without an error, and writes are inside the volume. -/
def tableStep (r : Replica) : TableOp → Option Replica
  | .readAt dev buf offset => some (r.readAt dev buf offset).1
  | .writeAt dev buf offset =>
    if offset + buf.length ≤ r.info.size then some (r.writeAt dev buf offset).1 else none
  | .resize obj => afterCall (resize obj (r.maxChainLen + 1)) r
  | .new preload size sectorSize created =>
    afterCall (do close; constructWith none preload size sectorSize (r.maxChainLen + 1) created) r
  | .newReadOnly preload head =>
    afterCall (do close; newReadOnly preload head (r.maxChainLen + 1)) r

/-- A new size is a number of whole sectors. -/
def WholeSize (_ : Replica) : TableOp → Prop
  | .resize obj => obj.toBytes % 4096 = 0
  | _ => True

instance (r : Replica) (op : TableOp) : Decidable (r.WholeSize op) := by
  unfold WholeSize
  split <;> infer_instance

/-- The size is a number of whole sectors, and the table has an entry for each of them. -/
def Even (r : Replica) : Prop :=
  r.info.size % 4096 = 0 ∧ r.info.size ≤ r.volume.locationLen * 4096

theorem Even.same {r t : Replica} (h : r.Even) (hs : SameSize r t) : t.Even := by
  obtain ⟨h₁, h₂⟩ := h
  obtain ⟨hsize, hlen⟩ := hs
  unfold Even
  rw [defaultSectorSize_eq] at hlen
  omega

theorem Even.grown {r t : Replica} {obj : NewSize} (h : r.Even) (hg : GrownTo obj.toBytes.toNat r t)
    (hobj : obj.toBytes % 4096 = 0) : t.Even := by
  obtain ⟨h₁, h₂⟩ := h
  obtain ⟨hle, hsize, hlen⟩ := hg
  unfold Even
  omega

/-- Opening a replica, in whatever way, and resizing it by whole sectors keep the table large
enough. -/
theorem tableStep_even {r t : Replica} {op : TableOp} (h : (∃ h ss, r.Laid h ss) ∧ r.Even)
    (hwhole : r.WholeSize op) (hstep : r.tableStep op = some t) :
    (∃ h ss, t.Laid h ss) ∧ t.Even := by
  obtain ⟨⟨h, ss, hl⟩, he⟩ := h
  cases op with
  | readAt dev buf offset =>
    cases hstep
    exact ⟨⟨h, ss, hl.readAt dev buf offset⟩,
      he.same ⟨rfl, .inl (Volume.readAt_sameChain dev r.vol buf offset).locationLen⟩⟩
  | writeAt dev buf offset =>
    simp only [tableStep] at hstep
    split_ifs at hstep with hin
    cases hstep
    exact ⟨⟨h, ss, hl.writeAt dev hin⟩, he.same (writeAt_sameSize r dev buf offset)⟩
  | resize obj =>
    obtain ⟨hlt, hg⟩ := hl.resize (afterCall_some hstep)
    exact ⟨⟨h, ss, hlt⟩, he.grown hg hwhole⟩
  | new preload size sectorSize created =>
    obtain ⟨⟨⟩, u, hu, hk⟩ := calm_bind_ok.1 (afterCall_some hstep)
    obtain ⟨hlu, hinfo, hvol⟩ := hl.close hu
    obtain ⟨hlt, hs⟩ := hlu.construct hk
    exact ⟨⟨h, ss, hlt⟩, (he.same ⟨by rw [hinfo], .inl (by rw [hvol])⟩).same hs⟩
  | newReadOnly preload head =>
    obtain ⟨⟨⟩, u, hu, hk⟩ := calm_bind_ok.1 (afterCall_some hstep)
    obtain ⟨hlu, hinfo, hvol⟩ := hl.close hu
    obtain ⟨h', ss', hlt, hs⟩ := hlu.newReadOnly (by have := hl.chainLen; omega) hk
    exact ⟨⟨h', ss', hlt⟩, (he.same ⟨by rw [hinfo], .inl (by rw [hvol])⟩).same hs⟩

end Replica

namespace Running

/-- A new size is a number of whole sectors, and `Revert` goes to a disk of the live chain. -/
def Whole (s : Running) : Op → Prop
  | .manage (.resize obj) => obj.toBytes % 4096 = 0
  | op => s.InChain op

instance (s : Running) (op : Op) : Decidable (s.Whole op) := by
  unfold Whole
  split <;> infer_instance

theorem Whole.inChain {s : Running} {op : Op} (h : s.Whole op) : s.InChain op := by
  unfold Whole at h
  split at h
  · trivial
  · exact h

theorem step_even {s s' : Running} {op : Op} (h : (∃ g, s.Complete g) ∧ s.replica.Even)
    (hwhole : s.Whole op) (hstep : s.step op = some s') :
    (∃ g, s'.Complete g) ∧ s'.replica.Even := by
  obtain ⟨g, hg⟩ := h.1
  obtain ⟨hc, hsize⟩ := step_complete hg hwhole.inChain hstep
  refine ⟨⟨_, hc⟩, ?_⟩
  rcases hsize with hs | ⟨obj, rfl, hg⟩
  · exact h.2.same hs
  · exact h.2.grown hg hwhole

theorem IsNew.even {s : Running} (h : s.IsNew) (hlimit : s.replica.maxChainLen ≤ 65535)
    (hwhole : s.replica.info.size % 4096 = 0) : s.replica.Even := by
  obtain ⟨⟨preload, size, sectorSize, fuel, created, maxChainLen, hk⟩, -⟩ := h
  have hmax : s.replica.maxChainLen = maxChainLen := by
    obtain ⟨-, -, hfin⟩ := Replica.constructWith_new hk
    exact hfin.rest.2.2.1
  rw [hmax] at hlimit
  obtain ⟨-, hsize, hlen⟩ := Replica.constructWith_new_stocked hlimit hk
  refine ⟨hwhole, ?_⟩
  rw [hlen, hsize, defaultSectorSize_eq]
  rw [hsize] at hwhole
  omega

/-- A replica is made, requests and operations come in any order, and then it is opened and resized
in any way. As long as all sizes are numbers of whole sectors, its table covers the volume, and
every request inside the volume returns without an error. -/
theorem table_covers {s s' : Running} {r : Replica} {ops : List Op} {later : List TableOp}
    (h : s.IsNew) (hlimit : s.replica.maxChainLen ≤ 65535) (hwhole : s.replica.info.size % 4096 = 0)
    (hrun : run step s ops = some s') (hops : Transition.Along step Whole s ops)
    (hlater : run Replica.tableStep s'.replica later = some r)
    (hsizes : Transition.Along Replica.tableStep Replica.WholeSize s'.replica later)
    (halloc : 2 * r.volume.locationLen ≤ maxAlloc) : r.vol.Covered r.info.size := by
  obtain ⟨⟨-, k, ss, gone, hc, -, hs⟩, heven⟩ := inv_of_run
    (I := fun s => (∃ g, s.Complete g) ∧ s.replica.Even)
    (fun _ _ _ hI hg hstep => step_even hI hg hstep) ⟨⟨_, h.complete hlimit⟩,
      h.even hlimit hwhole⟩ hops hrun
  obtain ⟨⟨h', ss', hl⟩, he⟩ := inv_of_run (I := fun r => (∃ h ss, r.Laid h ss) ∧ r.Even)
    (fun _ _ _ hI hg hstep => Replica.tableStep_even hI hg hstep) ⟨⟨_, _, hc.laid hs⟩,
      heven⟩ hsizes hlater
  exact hl.stocked.sized.covered he.1 he.2 halloc

/-- A new replica of two sectors, opened with the sector size of the production set-up. -/
def twoSectors : Running :=
  ⟨Replica.new 8192 512 512 "", []⟩

theorem twoSectors_isNew : twoSectors.IsNew :=
  ⟨⟨true, 8192, 512, 1, "", 512, Prod.ext rfl rfl⟩, rfl⟩

/-- A write, a snapshot and a larger size. Then the replica is opened again at its snapshot and
resized once more. -/
theorem table_covers_reopened :
    let ops : List Op := [.writeAt Dev.ok [7, 7] 4095, .manage (.snapshot "a" true ""),
      .manage (.resize (.text 12288))]
    let later :
    List TableOp := [.new true 12288 512 "", .newReadOnly false (some (.snap "a")),
      .resize (.text 20480)]
    ∃ s r, run step twoSectors ops = some s ∧ run Replica.tableStep s.replica later = some r ∧
      r.volume.locationLen = 5 ∧ r.vol.Covered 20480 := by
  intro ops later
  have heval : (run step twoSectors ops).bind (fun s =>
      (run Replica.tableStep s.replica later).map fun r =>
        (r.info.size, r.volume.locationLen, check step Whole twoSectors ops,
          check Replica.tableStep Replica.WholeSize s.replica later)) =
            some (20480, 5, true, true) := by
    decide +kernel
  obtain ⟨s, hs, heval⟩ := Option.bind_eq_some_iff.1 heval
  obtain ⟨r, hr, heval⟩ := Option.map_eq_some_iff.1 heval
  simp only [Prod.mk.injEq] at heval
  obtain ⟨hsize, hlen, hops, hlater⟩ := heval
  refine ⟨s, r, hs, hr, hlen, ?_⟩
  rw [← hsize]
  exact table_covers twoSectors_isNew (by decide) (by decide) hs (along_of_check hops) hr
    (along_of_check hlater) (by rw [hlen]; decide)

/-- A replica of one sector is resized to nine times 512 bytes and then to two sectors. Both calls
return without an error. The table still has one entry, and a write of the second sector panics. -/
theorem grown_not_covered :
    ∃ s, IsNew ⟨Replica.new 4096 512 512 "", []⟩ ∧ run step ⟨Replica.new 4096 512 512 "", []⟩
      [.manage (.resize (.text 4608)), .manage (.resize (.text 8192))] = some s ∧
      s.replica.info.size = 8192 ∧ s.replica.volume.locationLen = 1 ∧
      Checked.writeAt Dev.ok s.replica.vol Volume.zeroSector 4096 = .error .indexOutOfRange ∧
      ¬s.replica.vol.Covered s.replica.info.size := by
  have heval : (run step ⟨Replica.new 4096 512 512 "", []⟩
      [.manage (.resize (.text 4608)), .manage (.resize (.text 8192))]).map (fun s =>
        (s.replica.info.size, s.replica.volume.locationLen,
          panicOf (Checked.writeAt Dev.ok s.replica.vol Volume.zeroSector 4096))) =
            some (8192, 1, some .indexOutOfRange) := by
    decide +kernel
  obtain ⟨s, hs, heval⟩ := Option.map_eq_some_iff.1 heval
  simp only [Prod.mk.injEq] at heval
  obtain ⟨hsize, hlen, hpanic⟩ := heval
  refine ⟨s, ⟨⟨true, 4096, 512, 1, "", 512, Prod.ext rfl rfl⟩, rfl⟩, hs, hsize, hlen,
    panicOf_some hpanic, fun hc => ?_⟩
  have htable := hc.table
  rw [hsize, show s.replica.vol.locationLen = 1 from hlen, defaultSectorSize_eq] at htable
  omega

end Running

end Jiva
