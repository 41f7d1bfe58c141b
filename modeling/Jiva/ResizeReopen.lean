import Jiva.MetadataFile
import Jiva.TableCover

/-!
# Resizing a volume and opening it again

`Resize` tests only that the volume does not shrink. `Server.Open` then calls `construct` with the
size that `volume.meta` has, and refuses it if it is not a multiple of the sector size of the
server. `ResizeSafe` says what a request to resize should guarantee, whichever of its calls fails :
after success the replica can be closed and opened with the new size and the old image, and after an
error it is as it was.

A directory that holds a volume (`Dir.Written`) may have images that are longer than the volume,
because a `Resize` that fails at one file has truncated the files before. What matters is that they
have no bytes there. An open replica that agrees with such a directory (`OnDisk`) stays so, unless
`volume.meta` can not be written. A failed `Encode` is not noticed, but `Close` writes `volume.meta`
once more.
-/

namespace Jiva

open Faults Links Transition

/-- The directory holds a volume : `volume.meta` has `info`, the metadata files lead from the head
`h` along `ss`, the images are there, and no file has bytes behind the size of the volume. -/
structure Dir.Written (dir : Dir) (info : Info) (h : DiskName) (ss : List DiskName) : Prop where
  volumeMeta : dir.volumeMeta = some info
  head : info.head = some h
  named : dir.Named
  links : Follows dir.next (some h) (h :: ss)
  imgs : ∀ n ∈ h :: ss, (dir.img n).isSome
  clear : ∀ f b, info.size ≤ b → (dir.store f).data b = 0

namespace Volume

variable {v w : Volume} {z : ℕ}

/-- No byte behind `z` is shown if no file has one. -/
theorem image_of_clear (h : ∀ f b, z ≤ b → (v.store f).data b = 0) {b : ℕ} (hb : z ≤ b) :
    v.image b = 0 := by
  unfold image imageAt
  split_ifs
  · rfl
  · exact h _ b hb

/-- Two volumes of the same files show the same if the files agree up to `z` and are clear behind
it. -/
theorem image_eq_of_clear (hf : w.files = v.files)
    (halloc : ∀ f s, s * defaultSectorSize < z → (w.store f).alloc s = (v.store f).alloc s)
    (hdata : ∀ f b, b < z → (w.store f).data b = (v.store f).data b)
    (hv : ∀ f b, z ≤ b → (v.store f).data b = 0) (hw : ∀ f b, z ≤ b → (w.store f).data b = 0) :
    w.image = v.image := by
  funext b
  rcases Nat.lt_or_ge b z with hb | hb
  · have hfile : w.file = v.file := funext fun i => by simp only [DiffDisk.file, hf]
    have hle := Nat.div_mul_le_self b defaultSectorSize
    have htop : w.topFile w.target (b / defaultSectorSize) =
        v.topFile v.target (b / defaultSectorSize) := by
      unfold topFile DiffDisk.target
      rw [hf]
      refine Layered.top_congr fun i _ _ => ?_
      unfold hasExtent
      rw [hfile, halloc _ _ (by omega)]
    unfold image imageAt
    rw [htop, hfile, hdata _ _ hb]
  · rw [image_of_clear hw hb, image_of_clear hv hb]

end Volume

namespace Replica

variable {fate : Fate Site} {r t : Replica}

/-! ## The server -/

/-- `Server.Open` of a server without a backing file, with the sector size of the production set-up.
`Status` reads the size from `volume.meta`. -/
def openServer (preload : Bool) (created : String) : ReplicaAct String Unit := do
  let r ← Act.get
  constructWith none preload ((r.dir.volumeMeta.map Info.size).getD 0) 512
    (r.maxChainLen + 1) created

/-- `Close` and `Open` succeed, and give a replica of size `size` with the image `img`. -/
def Reopens (preload : Bool) (created : String) (r : Replica) (size : ℤ) (img : ℕ → Byte) : Prop :=
  ∃ u t, close .calm r = (.ok (), u) ∧ openServer preload created .calm u = (.ok (), t) ∧
    (t.info.size : ℤ) = size ∧ t.vol.image = img

/-- The size, the table and `volume.meta` are those of `r`. -/
structure Unresized (r t : Replica) : Prop where
  size : t.info.size = r.info.size
  locationLen : t.volume.locationLen = r.volume.locationLen
  location : ∀ s, s < r.volume.locationLen → t.volume.location s = r.volume.location s
  volumeMeta : t.dir.volumeMeta = r.dir.volumeMeta
  torn : t.dir.torn none = r.dir.torn none

/-- What a request to resize should guarantee. -/
def ResizeSafe (preload : Bool) (created : String) (obj : NewSize) (fate : Fate Site)
    (r : Replica) : Prop :=
  match resize obj (r.maxChainLen + 1) fate r with
  | (.ok (), t) => Reopens preload created t obj.toBytes fun b =>
    if b < r.info.size then r.vol.image b else 0
  | (.err _, t) => Unresized r t ∧ Reopens preload created t r.info.size r.vol.image
  | (.crash, _) => True

/-! ## A replica that agrees with its directory -/

/-- The replica is open on the chain of its directory, and no file has bytes behind its size. What
is in `volume.meta` does not matter as long as the replica is open. -/
structure OnDisk (r : Replica) (h : DiskName) (ss : List DiskName) : Prop where
  readOnly : r.readOnly = false
  head : r.info.head = some h
  records : Follows r.parentOf (some h) (h :: ss)
  files : r.volume.files = 0 :: (h :: ss).reverse.map r.ino
  chainLen : ss.length + 1 ≤ r.maxChainLen
  named : r.dir.Named
  links : Follows r.dir.next (some h) (h :: ss)
  imgs : ∀ n ∈ h :: ss, (r.dir.img n).isSome
  clear : ∀ f b, r.info.size ≤ b → (r.dir.store f).data b = 0

section

variable {r t u : Replica} {h : DiskName} {ss : List DiskName} {vm : Info} {preload : Bool}
    {created : String}
variable {size : ℕ}

theorem Laid.written (hl : r.Laid h ss) :
    ∃ info, r.dir.Written info h ss ∧ info.size = r.info.size := by
  obtain ⟨info, hi, hsize, hhead⟩ := hl.volumeMeta
  refine ⟨info, ⟨hi, hhead, hl.named, hl.links, hl.imgs, fun f b hb => ?_⟩, hsize⟩
  have hbound := hl.stocked.sized.bound f
  exact hl.stocked.sized.tight f b (hbound.trans (hsize ▸ hb))

theorem OnDisk.image_behind (hl : r.OnDisk h ss) {b : ℕ} (hb : r.info.size ≤ b) :
    r.vol.image b = 0 :=
  Volume.image_of_clear (v := r.vol) hl.clear hb

theorem OnDisk.liveChain_eq (hl : r.OnDisk h ss) :
    r.liveChain (r.maxChainLen + 1) = .ok (h :: ss) := by
  unfold liveChain
  rw [hl.head]
  exact chain_eq hl.records (by have := hl.chainLen; omega)

/-- `Server.Open` refuses a size that is not a multiple of 512. -/
theorem openServer_refuses (hv : r.dir.volumeMeta = some vm) (hsize : vm.size % 512 ≠ 0) :
    openServer preload created .calm r ≠ (.ok (), t) := by
  unfold openServer constructWith
  rw [calm_bind calm_get, hv, if_pos (by exact hsize)]
  nofun

/-- What `construct` opens on a directory that holds a volume. -/
theorem Opened.onDisk (ho : Opened r none vm h ss t) (hw : r.dir.Written vm h ss)
    (hlen : ss.length + 1 ≤ r.maxChainLen) :
    t.OnDisk h ss ∧ t.vol.image = r.dir.image (h :: ss) := by
  have hino : t.ino = r.ino := by
    funext n
    unfold ino
    rw [ho.dir]
  have hfiles : t.volume.files = 0 :: (h :: ss).reverse.map r.ino := ho.files
  have hstore : t.dir.store = r.dir.store := by rw [ho.dir]
  have hrecords : Follows t.parentOf (some h) (h :: ss) := by
    refine hw.links.congr fun n hn => ?_
    unfold parentOf
    rw [ho.data n (by simp [backingNames]), if_pos hn, Option.map_map]
    rfl
  refine ⟨⟨ho.readOnly, ?_, hrecords, hino ▸ hfiles, ?_, named_reread ho.metas hw.named,
    ?_, ?_, ?_⟩, ?_⟩
  · rw [ho.info]
    exact hw.head
  · rw [ho.maxChainLen]
    exact hlen
  · exact hw.links.congr fun n _ => next_reread ho.metas n
  · rw [ho.dir]
    exact hw.imgs
  · rw [hstore, ho.info]
    exact hw.clear
  · exact Dir.image_of_files (show _ = (r.dir.view (h :: ss)).files from hfiles) hstore

/-- `Server.Open` of a directory that holds a volume. -/
theorem Dir.Written.openServer (hw : r.dir.Written vm h ss) (hlen : ss.length + 1 ≤ r.maxChainLen)
    (hsize : vm.size % 512 = 0) (preload : Bool) (created : String) :
    ∃ t, openServer preload created .calm r = (.ok (), t) ∧ t.OnDisk h ss ∧ t.info.size = vm.size ∧
    t.vol.image = r.dir.image (h :: ss) := by
  obtain ⟨t, hk, ho⟩ := constructWith_opened hw.volumeMeta hw.head hw.named hw.links
    (show ss.length < r.maxChainLen + 1 by omega) hlen hw.imgs hsize none preload created
  obtain ⟨hd, himage⟩ := ho.onDisk hw hlen
  refine ⟨t, ?_, hd, by rw [ho.info], himage⟩
  unfold Replica.openServer
  rw [calm_bind calm_get, hw.volumeMeta]
  exact hk

/-- Closing a replica and opening it gives what it was, if and only if its size is a multiple of
512. -/
theorem OnDisk.reopens_iff (hl : r.OnDisk h ss) (preload : Bool) (created : String) (size : ℤ)
    (img : ℕ → Byte) : Reopens preload created r size img ↔
    r.info.size % 512 = 0 ∧ (r.info.size : ℤ) = size ∧ r.vol.image = img := by
  have hclose := close_calm hl.readOnly
  set u : Replica := { r.setVolumeMeta { r.info with dirty := false } with mode := .closed } with hu
  have hwu : u.dir.Written { r.info with dirty := false } h ss :=
    ⟨rfl, hl.head, hl.named, hl.links, hl.imgs, hl.clear⟩
  have himage : r.vol.image = u.dir.image (h :: ss) := Dir.image_of_files hl.files rfl
  by_cases hmod : r.info.size % 512 = 0
  · obtain ⟨t, ht, -, htsize, htimage⟩ :=
      Dir.Written.openServer hwu hl.chainLen hmod preload created
    constructor
    · rintro ⟨u', t', hu', ht', rfl, rfl⟩
      obtain rfl : u = u' := congrArg Prod.snd (hclose.symm.trans hu')
      obtain rfl : t = t' := congrArg Prod.snd (ht.symm.trans ht')
      exact ⟨hmod, by rw [htsize], himage.trans htimage.symm⟩
    · rintro ⟨-, rfl, rfl⟩
      exact ⟨u, t, hclose, ht, by rw [htsize], htimage.trans himage.symm⟩
  · constructor
    · rintro ⟨u', t', hu', ht', -⟩
      obtain rfl : u = u' := congrArg Prod.snd (hclose.symm.trans hu')
      exact absurd ht' (openServer_refuses hwu.volumeMeta hmod)
    · exact fun hc => absurd hc.1 hmod

/-! ## One request -/

theorem truncated_clear (hclear : ∀ f b, r.info.size ≤ b → (r.dir.store f).data b = 0)
    (ms : List DiskName) (f b : ℕ) (hb : r.info.size ≤ b) :
    ((r.truncated size ms).dir.store f).data b = 0 := by
  show (if f ∈ ms.filterMap r.dir.img then (r.dir.store f).truncate size
    else r.dir.store f).data b = 0
  split_ifs
  · show (if b < size then (r.dir.store f).data b else 0) = 0
    rw [hclear f b hb, ite_self]
  · exact hclear f b hb

/-- Truncating some of the images to more than the volume has does not change what it shows. -/
theorem OnDisk.truncated_image (hl : r.OnDisk h ss) (hle : r.info.size ≤ size)
    (ms : List DiskName) : (r.truncated size ms).vol.image = r.vol.image := by
  have hstore : ∀ f, (r.truncated size ms).vol.store f =
      if f ∈ ms.filterMap r.dir.img then (r.dir.store f).truncate size else r.dir.store f :=
      fun _ => rfl
  refine Volume.image_eq_of_clear (z := r.info.size) rfl (fun f s hs => ?_)
    (fun f b hb => ?_) hl.clear (truncated_clear hl.clear ms)
  · rw [hstore]
    split_ifs
    · show ((r.dir.store f).alloc s && decide (s * defaultSectorSize < size)) = _
      rw [decide_eq_true (by omega), Bool.and_true]
      rfl
    · rfl
  · rw [hstore]
    split_ifs
    · exact if_pos (by omega)
    · rfl

theorem OnDisk.truncated (hl : r.OnDisk h ss) (size : ℕ) (ms : List DiskName) :
    (r.truncated size ms).OnDisk h ss :=
  ⟨hl.readOnly, hl.head, hl.records, hl.files, hl.chainLen, hl.named, hl.links, hl.imgs,
    truncated_clear hl.clear ms⟩

/-- The files and the table have the new size, and `volume.meta` is whatever has become of it. -/
def grownTo (size : ℕ) (ms : List DiskName) (vm : Option Info) (torn : Option DiskName → Bool)
    (r : Replica) : Replica :=
  let g := growLocation size (r.truncated size ms)
  { g with dir := { g.dir with volumeMeta := vm, torn := torn } }

theorem OnDisk.grownTo (hl : r.OnDisk h ss) (hle : r.info.size ≤ size) (ms : List DiskName)
    (vm : Option Info) (torn : Option DiskName → Bool) : (r.grownTo size ms vm torn).OnDisk h ss ∧
      (r.grownTo size ms vm torn).vol.image = r.vol.image := by
  have ht := hl.truncated size ms
  refine ⟨⟨ht.readOnly, ht.head, ht.records, ht.files, ht.chainLen, ht.named, ht.links, ht.imgs,
    fun f b hb => ht.clear f b (hle.trans hb)⟩, ?_⟩
  exact hl.truncated_image hle ms

/-- The loop over the chain truncates some images, and all of them if no call fails. -/
theorem truncateChain_cases (size : ℕ) (fate : Fate Site) : ∀ {ns : List DiskName} {r : Replica},
    (∀ n ∈ ns, (r.dir.img n).isSome) →
    ((∀ n ∈ ns, fate ≠ .failAt (.resize n) ∧ fate ≠ .crashAt (.resize n)) ∧
      truncateChain size ns fate r = (.ok (), r.truncated size ns)) ∨
    ∃ ms, ∃ n ∈ ns,
      (fate = .failAt (.resize n) ∧
        truncateChain size ns fate r = (.err ioError, r.truncated size ms)) ∨
      (fate = .crashAt (.resize n) ∧ truncateChain size ns fate r = (.crash, r.truncated size ms))
  | [], r, _ => .inl ⟨nofun, by rw [truncated_nil]; rfl⟩
  | n :: ns, r, himg => by
    obtain ⟨i, hi⟩ := Option.isSome_iff_exists.1 (himg n (List.mem_cons_self ..))
    unfold truncateChain
    rw [bind_of_ok get_apply, hi]
    dsimp only
    by_cases hfail : fate = .failAt (.resize n)
    · refine .inr ⟨[], n, List.mem_cons_self, .inl ⟨hfail, ?_⟩⟩
      rw [truncated_nil, hfail]
      exact bind_of_err (call_failed ..) _
    by_cases hcrash : fate = .crashAt (.resize n)
    · refine .inr ⟨[n], n, List.mem_cons_self, .inr ⟨hcrash, ?_⟩⟩
      rw [hcrash, ← truncated_cons hi, truncated_nil]
      exact bind_of_crash (by unfold Act.call; rw [if_neg (by simp), if_pos rfl]) _
    have hcall :
        (Act.call (.resize n) ioError (Replica.truncate i size) : ReplicaAct String Unit) fate r =
          (.ok (), Replica.truncate i size r) := by
      unfold Act.call
      rw [if_neg hfail, if_neg hcrash]
    rw [bind_of_ok hcall]
    have himg' : ∀ m ∈ ns, ((Replica.truncate i size r).dir.img m).isSome :=
      fun m hm => himg m (List.mem_cons_of_mem _ hm)
    rcases truncateChain_cases size fate himg' with ⟨hne, hok⟩ |
      ⟨ms, m, hm, ⟨hf, hrun⟩ | ⟨hf, hrun⟩⟩
    · rw [hok, truncated_cons hi]
      exact .inl ⟨List.forall_mem_cons.2 ⟨⟨hfail, hcrash⟩, hne⟩, rfl⟩
    · rw [hrun, truncated_cons hi]
      exact .inr ⟨n :: ms, m, List.mem_cons_of_mem _ hm, .inl ⟨hf, rfl⟩⟩
    · rw [hrun, truncated_cons hi]
      exact .inr ⟨n :: ms, m, List.mem_cons_of_mem _ hm, .inr ⟨hf, rfl⟩⟩

/-- The four calls of `encodeToFile`. -/
theorem encodeToFile_cases (hro : r.readOnly = false) (w : Enc) (file : Option DiskName)
    (replace : Replica → Replica) (fate : Fate Site) :
    (∃ p, fate = .failAt (.encode w p) ∧
      encodeToFile w file replace fate r = (.err ioError, if p = .sync then replace r else r)) ∨
    (∃ t, ((∃ p, fate = .crashAt (.encode w p)) ∨ fate = .crashAt (.encoder w)) ∧
      encodeToFile w file replace fate r = (.crash, t)) ∨
    ((∀ p, fate ≠ .failAt (.encode w p) ∧ fate ≠ .crashAt (.encode w p)) ∧
      fate ≠ .crashAt (.encoder w) ∧ ∃ whole : Bool,
      encodeToFile w file replace fate r = (.ok (), (if whole then replace else tear file) r)) := by
  by_cases hfail : ∃ p, fate = .failAt (.encode w p)
  · obtain ⟨p, rfl⟩ := hfail
    exact .inl ⟨p, rfl, MetadataFile.encodeToFile_failAt hro w file replace p⟩
  by_cases henc : fate = .failAt (.encoder w)
  · rw [henc]
    exact .inr
      (.inr ⟨by simp, by simp, false, MetadataFile.encodeToFile_encoder hro w file replace⟩)
  have hfail : ∀ p, fate ≠ .failAt (.encode w p) := fun p hp => hfail ⟨p, hp⟩
  have hcall : ∀ p (f : Replica → Replica) (s : Replica),
      (Act.call (.encode w p) ioError f : ReplicaAct String Unit) fate s =
        if fate = .crashAt (.encode w p) then (.crash, f s) else (.ok (), f s) :=
    fun p f s => by unfold Act.call; rw [if_neg (hfail p)]
  have hquery : ∀ s : Replica,
      (Act.query (.encoder w) false fun _ => true : ReplicaAct String Bool) fate s =
        if fate = .crashAt (.encoder w) then (.crash, s) else (.ok true, s) :=
    fun s => by unfold Act.query; rw [if_neg henc]
  unfold encodeToFile
  rw [bind_of_ok get_apply, if_neg (by simp [hro])]
  by_cases h₁ : fate = .crashAt (.encode w .openTmp)
  · exact .inr (.inl ⟨_, .inl ⟨_, h₁⟩, bind_of_crash ((hcall ..).trans (if_pos h₁)) _⟩)
  rw [bind_of_ok ((hcall ..).trans (if_neg h₁))]
  by_cases h₂ : fate = .crashAt (.encoder w)
  · exact .inr (.inl ⟨_, .inr h₂, bind_of_crash ((hquery _).trans (if_pos h₂)) _⟩)
  rw [bind_of_ok ((hquery _).trans (if_neg h₂))]
  by_cases h₃ : fate = .crashAt (.encode w .rename)
  · exact .inr (.inl ⟨_, .inl ⟨_, h₃⟩, bind_of_crash ((hcall ..).trans (if_pos h₃)) _⟩)
  rw [bind_of_ok ((hcall ..).trans (if_neg h₃)), hcall]
  by_cases h₄ : fate = .crashAt (.encode w .sync)
  · exact .inr (.inl ⟨_, .inl ⟨_, h₄⟩, if_pos h₄⟩)
  · refine .inr (.inr ⟨fun p => ⟨hfail p, ?_⟩, h₂, true, if_neg h₄⟩)
    cases p <;> assumption

/-- The failing call is a truncation of the chain, or the process stops at one of the calls. -/
def Interrupts (r : Replica) : Fate Site → Prop
  | .failAt (.resize n) | .crashAt (.resize n) => n ∈
    (r.liveChain (r.maxChainLen + 1)).toOption.getD []
  | .crashAt (.encode .resized _) | .crashAt (.encoder .resized) => True
  | _ => False

instance (r : Replica) (fate : Fate Site) : Decidable (r.Interrupts fate) := by
  unfold Interrupts
  split <;> infer_instance

theorem OnDisk.not_interrupts (hl : r.OnDisk h ss)
    (hresize : ∀ n ∈ h :: ss, fate ≠ .failAt (.resize n) ∧ fate ≠ .crashAt (.resize n))
    (hencode : ∀ p, fate ≠ .crashAt (.encode .resized p))
    (hencoder : fate ≠ .crashAt (.encoder .resized)) : ¬r.Interrupts fate := by
  unfold Interrupts
  rw [hl.liveChain_eq]
  split
  · next n => exact fun hn => (hresize n hn).1 rfl
  · next n => exact fun hn => (hresize n hn).2 rfl
  · next p => exact absurd rfl (hencode p)
  · exact absurd rfl hencoder
  · exact id

/-- What a request to resize does. -/
inductive Resizing (r : Replica) (h : DiskName) (ss : List DiskName) (n : ℤ) (fate : Fate Site) :
    Exit String Unit × Replica → Prop
  | refused (e : String) (hlt : n < r.info.size) : Resizing r h ss n fate (.err e, r)
  | stuck (e : String) (ms : List DiskName) (m : DiskName) (hle : (r.info.size : ℤ) ≤ n)
      (hm : m ∈ h :: ss) (hfate : fate = .failAt (.resize m)) : Resizing r h ss n fate
      (.err e, r.truncated n.toNat ms)
  | unrecorded (e : String) (p : EncodePart) (hle : (r.info.size : ℤ) ≤ n)
      (hfate : fate = .failAt (.encode .resized p)) : Resizing r h ss n fate (.err e,
        if p = .sync then r.resized n.toNat (h :: ss) else growLocation n.toNat
        (r.truncated n.toNat (h :: ss)))
  | crashed (t : Replica) (hencode : ∀ p, fate ≠ .failAt (.encode .resized p))
      (hfate : r.Interrupts fate) : Resizing r h ss n fate (.crash, t)
  | done (vm : Option Info) (torn : Option DiskName → Bool) (hle : (r.info.size : ℤ) ≤ n)
      (hencode : ∀ p, fate ≠ .failAt (.encode .resized p)) (hfate : ¬r.Interrupts fate) :
      Resizing r h ss n fate (.ok (), r.grownTo n.toNat (h :: ss) vm torn)

theorem OnDisk.resize (hl : r.OnDisk h ss) (obj : NewSize) (fate : Fate Site) :
    Resizing r h ss obj.toBytes fate (resize obj (r.maxChainLen + 1) fate r) := by
  unfold Replica.resize
  rw [bind_of_ok get_apply, hl.liveChain_eq]
  dsimp only
  unfold resizeTo
  rw [bind_of_ok get_apply]
  split_ifs with hlt
  · exact .refused _ hlt
  have hle : (r.info.size : ℤ) ≤ obj.toBytes := by omega
  rcases truncateChain_cases obj.toBytes.toNat fate hl.imgs with
    ⟨hne, hok⟩ | ⟨ms, m, hm, ⟨hf, hrun⟩ | ⟨hf, hrun⟩⟩
  · set g := growLocation obj.toBytes.toNat (r.truncated obj.toBytes.toNat (h :: ss))
    rw [bind_of_ok hok, bind_of_ok (modify_apply _), bind_of_ok get_apply]
    unfold encodeInfo
    rcases encodeToFile_cases (r := g) hl.readOnly .resized none (setVolumeMeta g.info) fate with
      ⟨p, hf, hrun⟩ | ⟨t, hf, hrun⟩ | ⟨hencode, hencoder, whole, hrun⟩
    · rw [hrun]
      exact .unrecorded _ p hle hf
    · rw [hrun]
      rcases hf with ⟨p, rfl⟩ | rfl <;> exact .crashed t nofun trivial
    · have hgo := hl.not_interrupts hne (fun p => (hencode p).2) hencoder
      rw [hrun]
      cases whole <;> exact .done _ _ hle (fun p => (hencode p).1) hgo
  · rw [bind_of_err hrun]
    exact .stuck _ ms m hle hm hf
  · rw [bind_of_crash hrun]
    refine .crashed _ (by rw [hf]; nofun) ?_
    rw [hf]
    unfold Interrupts
    rw [hl.liveChain_eq]
    exact hm

/-! ## When a request is safe -/

/-- If `volume.meta` can not be written, the size is refused or is that of the volume, and in the
second case the file has what is written. Else the size is refused, or a multiple of 512, or a call
before that fails. -/
def Sound (r : Replica) (obj : NewSize) : Fate Site → Prop
  | .failAt (.encode .resized p) => obj.toBytes < r.info.size ∨
      obj.toBytes = r.info.size ∧ (p = .sync → r.dir.volumeMeta = some r.info)
  | fate => obj.toBytes < r.info.size ∨ obj.toBytes % 512 = 0 ∨ r.Interrupts fate

instance (r : Replica) (obj : NewSize) (fate : Fate Site) : Decidable (r.Sound obj fate) := by
  unfold Sound
  split <;> infer_instance

theorem sound_iff {obj : NewSize} (h : ∀ p, fate ≠ .failAt (.encode .resized p)) :
    r.Sound obj fate ↔ obj.toBytes < r.info.size ∨ obj.toBytes % 512 = 0 ∨ r.Interrupts fate := by
  unfold Sound
  split
  · next p => exact absurd rfl (h p)
  · exact Iff.rfl

theorem Unresized.refl (r : Replica) : Unresized r r :=
  ⟨rfl, rfl, fun _ _ => rfl, rfl, rfl⟩

theorem Unresized.grown (r : Replica) (ms : List DiskName) :
    Unresized r (growLocation r.info.size (r.truncated r.info.size ms)) := by
  refine ⟨rfl, ?_, fun s hs => if_pos hs, rfl, rfl⟩
  show r.volume.locationLen + (r.info.size - r.info.size) / 4096 = _
  rw [Nat.sub_self, Nat.zero_div, Nat.add_zero]

/-- A replica that can be opened again is safe against a request if and only if the request is
sound. -/
theorem OnDisk.resizeSafe_iff (hl : r.OnDisk h ss) (hmod : r.info.size % 512 = 0) (preload : Bool)
    (created : String) (obj : NewSize) (fate : Fate Site) : ResizeSafe preload created obj fate r ↔
    r.Sound obj fate := by
  unfold ResizeSafe
  have hres := hl.resize obj fate
  generalize Replica.resize obj (r.maxChainLen + 1) fate r = res at hres
  cases hres with
  | refused e hlt =>
    refine iff_of_true ⟨.refl r, (hl.reopens_iff ..).2 ⟨hmod, rfl, rfl⟩⟩ ?_
    by_cases hencode : ∀ p, fate ≠ .failAt (.encode .resized p)
    · exact (sound_iff hencode).2 (.inl hlt)
    · obtain ⟨p, hp⟩ := not_forall.1 hencode
      rw [not_not] at hp
      rw [hp]
      exact .inl hlt
  | stuck e ms m hle hm hfate =>
    refine iff_of_true ⟨⟨rfl, rfl, fun _ _ => rfl, rfl, rfl⟩, ?_⟩ ?_
    · exact ((hl.truncated obj.toBytes.toNat ms).reopens_iff ..).2 ⟨hmod, rfl,
        hl.truncated_image (by omega) ms⟩
    · rw [hfate]
      refine .inr (.inr ?_)
      unfold Interrupts
      rw [hl.liveChain_eq]
      exact hm
  | crashed t hencode hfate => exact iff_of_true trivial ((sound_iff hencode).2 (.inr (.inr hfate)))
  | done vm torn hle hencode hfate =>
    obtain ⟨hd, hsame⟩ :=
      hl.grownTo (show r.info.size ≤ obj.toBytes.toNat by omega) (h :: ss) vm torn
    have hsize : ((r.grownTo obj.toBytes.toNat (h :: ss) vm torn).info.size : ℤ) = obj.toBytes :=
      Int.toNat_of_nonneg (by omega)
    rw [sound_iff hencode, or_iff_left hfate]
    dsimp only
    rw [hd.reopens_iff]
    refine ⟨fun hc => .inr (by omega), fun hc => ⟨by omega, hsize, ?_⟩⟩
    rw [hsame]
    funext b
    split_ifs with hb
    · rfl
    · exact hl.image_behind (Nat.le_of_not_lt hb)
  | unrecorded e p hle hfate =>
    rw [hfate]
    dsimp only [Sound]
    rcases hle.eq_or_lt with heq | hlt
    · have hnat : obj.toBytes.toNat = r.info.size := by omega
      rw [hnat]
      by_cases hp : p = .sync
      · obtain ⟨hd, hsame⟩ := hl.grownTo le_rfl (h :: ss) (some r.info) r.dir.torn
        have hinfo : (r.resized r.info.size (h :: ss)).dir.volumeMeta = some r.info := rfl
        rw [if_pos hp]
        constructor
        · rintro ⟨hun, -⟩
          exact .inr ⟨heq.symm, fun _ => hun.volumeMeta.symm.trans hinfo⟩
        · rintro (hlt | ⟨-, hmeta⟩)
          · omega
          · have hun := Unresized.grown r (h :: ss)
            exact ⟨⟨hun.size, hun.locationLen, hun.location, hinfo.trans (hmeta hp).symm, rfl⟩,
              (hd.reopens_iff ..).2 ⟨hmod, rfl, hsame⟩⟩
      · rw [if_neg hp]
        obtain ⟨hg, -⟩ := hl.grownTo le_rfl (h :: ss) r.dir.volumeMeta r.dir.torn
        refine iff_of_true ⟨.grown r _, (hg.reopens_iff ..).2 ⟨hmod, rfl, ?_⟩⟩
          (.inr ⟨heq.symm, fun hc => absurd hc hp⟩)
        exact hl.truncated_image le_rfl (h :: ss)
    · refine iff_of_false (fun hc => ?_) (by omega)
      have hsize := hc.1.size
      have hnew : (if p = .sync then r.resized obj.toBytes.toNat (h :: ss)
          else growLocation obj.toBytes.toNat (r.truncated obj.toBytes.toNat (h :: ss))).info.size =
            obj.toBytes.toNat := by
        split_ifs <;> rfl
      rw [hnew] at hsize
      omega

end

/-! ## Any sequence of requests -/

/-- A request to resize, one of whose calls may fail, or `Close` and `Open`. -/
inductive ResizeOp
  | resize (obj : NewSize) (fate : Fate Site)
  | reopen (preload : Bool) (created : String)

/-- One step. A process that stops takes no more steps. -/
def resizeStep (r : Replica) : ResizeOp → Option Replica
  | .resize obj fate =>
    match resize obj (r.maxChainLen + 1) fate r with
    | (.ok (), t) => some t
    | (.err _, t) => some t
    | (.crash, _) => none
  | .reopen preload created => afterCall (do close; openServer preload created) r

def SoundOp (r : Replica) : ResizeOp → Prop
  | .resize obj fate => r.Sound obj fate
  | .reopen _ _ => True

instance (r : Replica) (op : ResizeOp) : Decidable (r.SoundOp op) := by
  unfold SoundOp
  split <;> infer_instance

/-- The replica agrees with its directory, and can be opened again. -/
def Openable (r : Replica) : Prop :=
  (∃ h ss, r.OnDisk h ss) ∧ r.info.size % 512 = 0

theorem OnDisk.step_resize {h : DiskName} {ss : List DiskName} {obj : NewSize}
    (hl : r.OnDisk h ss) (hmod : r.info.size % 512 = 0) (hsound : r.Sound obj fate)
    (hstep : r.resizeStep (.resize obj fate) = some t) : t.OnDisk h ss ∧ t.info.size % 512 = 0 := by
  have hres := hl.resize obj fate
  dsimp only [resizeStep] at hstep
  generalize Replica.resize obj (r.maxChainLen + 1) fate r = res at hres hstep
  cases hres with
  | refused e hlt =>
    cases hstep
    exact ⟨hl, hmod⟩
  | stuck e ms m hle hm hfate =>
    cases hstep
    exact ⟨hl.truncated _ ms, hmod⟩
  | crashed t hencode hfate => cases hstep
  | done vm torn hle hencode hfate =>
    cases hstep
    have hdvd := (sound_iff hencode).1 hsound
    rw [or_iff_left hfate] at hdvd
    refine ⟨(hl.grownTo (by omega) _ vm torn).1, ?_⟩
    show obj.toBytes.toNat % 512 = 0
    omega
  | unrecorded e p hle hfate =>
    rw [hfate] at hsound
    have heq : obj.toBytes.toNat = r.info.size := by
      rcases hsound with hlt | ⟨heq, -⟩ <;> omega
    cases hstep
    rw [heq]
    split_ifs
    · exact ⟨(hl.grownTo le_rfl _ (some r.info) r.dir.torn).1, hmod⟩
    · exact ⟨(hl.grownTo le_rfl _ r.dir.volumeMeta r.dir.torn).1, hmod⟩

theorem step_openable {op : ResizeOp} (hr : r.Openable) (hsound : r.SoundOp op)
    (hstep : r.resizeStep op = some t) : t.Openable := by
  obtain ⟨⟨h, ss, hl⟩, hmod⟩ := hr
  cases op with
  | resize obj fate =>
    obtain ⟨hd, hsize⟩ := hl.step_resize hmod hsound hstep
    exact ⟨⟨h, ss, hd⟩, hsize⟩
  | reopen preload created =>
    have hk := afterCall_some hstep
    rw [calm_bind (close_calm hl.readOnly)] at hk
    obtain ⟨w, hw', hd, hsize, -⟩ := Dir.Written.openServer
      (r := { r.setVolumeMeta { r.info with dirty := false } with mode := .closed })
      ⟨rfl, hl.head, hl.named, hl.links, hl.imgs, hl.clear⟩ hl.chainLen hmod preload created
    obtain rfl : w = t := congrArg Prod.snd (hw'.symm.trans hk)
    exact ⟨⟨h, ss, hd⟩, by rw [hsize]; exact hmod⟩

/-- A replica that `Server.Open` has opened. -/
theorem openable_of_openServer {vm : Info} {h : DiskName} {ss : List DiskName} {preload : Bool}
    {created : String} (hw : r.dir.Written vm h ss)
    (hopen : openServer preload created .calm r = (.ok (), t)) :
    t.Openable := by
  have hmod : vm.size % 512 = 0 := by
    by_contra hc
    exact openServer_refuses hw.volumeMeta hc hopen
  have hk := hopen
  unfold openServer at hk
  rw [calm_bind calm_get, hw.volumeMeta] at hk
  have hmeta := Dir.isSome_of_follows hw.links (List.mem_cons_self ..)
  obtain ⟨-, ss', hf, -, hlen⟩ := constructWith_follows hw.volumeMeta hw.head hw.named hmeta hk
  obtain rfl : ss = ss' := (List.cons.inj (hw.links.unique hf)).2
  obtain ⟨w, hw', hd, hsize, -⟩ := Dir.Written.openServer hw hlen hmod preload created
  obtain rfl : w = t := congrArg Prod.snd (hw'.symm.trans hopen)
  exact ⟨⟨h, ss, hd⟩, by rw [hsize]; exact hmod⟩

/-- A replica is opened by the server on any directory that holds a volume, and is resized any
number of times, with any call failing. As long as the requests are sound, each request is safe if
and only if it is sound. -/
theorem resize_safe_iff {r₀ r r' : Replica} {vm : Info} {h : DiskName} {ss : List DiskName}
    {preload : Bool} {created : String} {ops : List ResizeOp} (hw : r₀.dir.Written vm h ss)
    (hopen : openServer preload created .calm r₀ = (.ok (), r))
    (hrun : run resizeStep r ops = some r') (hops : Transition.Along resizeStep SoundOp r ops)
    (preload' : Bool) (created' : String) (obj : NewSize) (fate : Fate Site) :
    ResizeSafe preload' created' obj fate r' ↔ r'.Sound obj fate := by
  obtain ⟨⟨h', ss', hl⟩, hmod⟩ := inv_of_run (I := Openable)
    (fun _ _ _ hI hg hstep => step_openable hI hg hstep) (openable_of_openServer hw hopen) hops hrun
  exact hl.resizeSafe_iff hmod preload' created' obj fate

/-- The directory of a new replica of one sector that has been closed. -/
def oneSector : Replica :=
  (close .calm (new 4096 512 512 "")).2

theorem oneSector_written : ∃ vm h ss, oneSector.dir.Written vm h ss := by
  have hnew : Running.IsNew ⟨new 4096 512 512 "", []⟩ :=
    ⟨⟨true, 4096, 512, 1, "", 512, Prod.ext rfl rfl⟩, rfl⟩
  obtain ⟨k, ss, gone, hc, -, hs⟩ := hnew.complete (by decide)
  have hl : oneSector.Laid (.head k) ss := ((hc.laid hs).close (close_calm hc.readOnly)).1
  obtain ⟨vm, hw, -⟩ := hl.written
  exact ⟨vm, .head k, ss, hw⟩

/-- The size is doubled, a truncation fails, and the replica is closed and opened. Then 5120 bytes
are too few, which does no harm, 12288 bytes can be had, and 9000 bytes are accepted but can not be
opened. -/
theorem resize_safe_iff_doubled :
    let ops : List ResizeOp :=
    [.resize (.text 8192) .calm, .resize (.text 12288) (.failAt (.resize (.head 0))),
      .reopen true ""]
    ∃ r r', openServer true "" .calm oneSector = (.ok (), r) ∧ run resizeStep r ops = some r' ∧
      r'.info.size = 8192 ∧ ResizeSafe true "" (.text 5120) .calm r' ∧
      ResizeSafe true "" (.text 12288) .calm r' ∧ ¬ResizeSafe true "" (.text 9000) .calm r' := by
  intro ops
  obtain ⟨vm, h, ss, hw⟩ := oneSector_written
  obtain ⟨r, hr⟩ : ∃ r, openServer true "" .calm oneSector = (.ok (), r) := ⟨_, Prod.ext rfl rfl⟩
  have hr' : (openServer true "" .calm oneSector).2 = r := congrArg Prod.snd hr
  have heval : (run resizeStep (openServer true "" .calm oneSector).2 ops).map (fun r' =>
      (r'.info.size, check resizeStep SoundOp (openServer true "" .calm oneSector).2 ops,
        decide (r'.Sound (.text 5120) .calm), decide (r'.Sound (.text 12288) .calm),
        decide (r'.Sound (.text 9000) .calm))) = some (8192, true, true, true, false) := by
    decide +kernel
  rw [hr'] at heval
  obtain ⟨r', hrun, heval⟩ := Option.map_eq_some_iff.1 heval
  simp only [Prod.mk.injEq, decide_eq_true_eq, decide_eq_false_iff_not] at heval
  obtain ⟨hsize, hops, hless, hmore, hodd⟩ := heval
  have hiff := resize_safe_iff hw hr hrun (along_of_check hops) true ""
  exact ⟨r, r', hr, hrun, hsize, (hiff _ _).2 hless, (hiff _ _).2 hmore,
    fun hc => hodd ((hiff _ _).1 hc)⟩

/-- A replica of one sector is opened and resized to 5000 bytes. `Resize` returns `nil`, and `Open`
refuses the size. -/
theorem resized_not_opened : ∃ r t, openServer true "" .calm oneSector = (.ok (), r) ∧
    resize (.text 5000) (r.maxChainLen + 1) .calm r = (.ok (), t) ∧
    (openServer true "" .calm (close .calm t).2).1 =
      .err "Size 5000 not a multiple of sector size 512" ∧
    ¬ResizeSafe true "" (.text 5000) .calm r := by
  obtain ⟨vm, h, ss, hw⟩ := oneSector_written
  obtain ⟨r, hr⟩ : ∃ r, openServer true "" .calm oneSector = (.ok (), r) := ⟨_, Prod.ext rfl rfl⟩
  have hr' : (openServer true "" .calm oneSector).2 = r := congrArg Prod.snd hr
  have heval : (openServer true "" .calm oneSector).2.info.size = 4096 ∧
      (resize (.text 5000) ((openServer true "" .calm oneSector).2.maxChainLen + 1) .calm
        (openServer true "" .calm oneSector).2).1 = .ok () ∧
      (openServer true "" .calm (close .calm (resize (.text 5000)
        ((openServer true "" .calm oneSector).2.maxChainLen + 1) .calm
        (openServer true "" .calm oneSector).2).2).2).1 =
          .err "Size 5000 not a multiple of sector size 512" := by
    decide +kernel
  rw [hr'] at heval
  obtain ⟨hsize, hok, herr⟩ := heval
  obtain ⟨⟨h', ss', hl⟩, hmod⟩ := openable_of_openServer hw hr
  refine ⟨r, _, hr, Prod.ext hok rfl, herr, fun hc => ?_⟩
  rcases (hl.resizeSafe_iff hmod true "" (.text 5000) .calm).1 hc with hlt | hdvd | hint
  · exact absurd hlt (by rw [hsize]; decide)
  · exact absurd hdvd (by decide)
  · exact hint

end Replica

end Jiva
