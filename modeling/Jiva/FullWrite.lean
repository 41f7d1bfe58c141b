import Jiva.Image
import Jiva.Runs

/-!
# A write of whole sectors

What the loop of `fullWriteAt` does, said once : the table names the active layer for
every sector of the request, the chain and the inodes are as before the loop, and every
hole sent to the hole creator lies inside the request and names a file that held one of
its sectors (`fullWriteAt_spec`).

A run of sectors is sent off inside the loop as a hole in the file of the next sector,
not in the file of the run. `CrossFlush` says that this file is not above the latest
user-created snapshot although the file of the run is. Without it every hole names a
file above that snapshot.
-/

namespace Jiva

namespace DiffDisk

/-- The table names a file other than the active layer for the sector. -/
def Owned (d : DiffDisk) (s : ℕ) : Prop :=
  d.location s ≠ 0 ∧ d.location s ≠ u16 d.target

/-- Among the sectors of the request that another file holds, some sector above the latest
user-created snapshot is followed by one that is not. -/
def CrossFlush (d : DiffDisk) (start n : ℕ) : Prop :=
  ∃ a b, start ≤ a ∧ a < b ∧ b < start + n ∧ d.Owned a ∧ d.Owned b ∧
    (∀ c, a < c → c < b → ¬d.Owned c) ∧ d.snapIndx < d.location a ∧ d.location b ≤ d.snapIndx

/-- A hole that a write of `n` sectors from `start` sends off : in a file that held one of the
sectors, and inside the request. -/
structure WriteHole (d : DiffDisk) (start n : ℕ) (h : Hole) (i lo len : ℕ) : Prop where
  eq : h = ⟨d.file i, lo * defaultSectorSize, len * defaultSectorSize⟩
  start_le : start ≤ lo
  le_end : lo + len ≤ start + n
  held : ∃ s, start ≤ s ∧ s < start + n ∧ d.Owned s ∧ d.location s = i
  above : ¬d.CrossFlush start n → d.snapIndx < i

/-- The pending run of the loop after `k` sectors : nothing yet, or a run of sectors of one
file that ends in the last sector another file held. -/
inductive Pending (d : DiffDisk) (start k : ℕ) : Volume.MarkState → Prop
  | none {u : Volume} (h : ∀ c, start ≤ c → c < start + k → ¬d.Owned c) :
    Pending d start k ⟨u, 0, 0, 0, 0⟩
  | run {u : Volume} {len lo i : ℕ} (hlo : start ≤ lo) (hlen : 0 < len)
    (hend : lo + len ≤ start + k) (hown : d.Owned (lo + len - 1))
    (hloc : d.location (lo + len - 1) = i)
    (hnone : ∀ c, lo + len ≤ c → c < start + k → ¬d.Owned c) :
    Pending d start k ⟨u, len, lo, d.file i, i⟩

theorem Pending.skip {d : DiffDisk} {start k : ℕ} {st : Volume.MarkState} (h : d.Pending start k st)
    (hown : ¬d.Owned (start + k)) (u : Volume) : d.Pending start (k + 1) { st with v := u } := by
  have hstep : ∀ {c}, c < start + (k + 1) → c = start + k ∨ c < start + k := fun h => by omega
  cases h with
  | none hnone =>
    refine Pending.none fun c hc hck => ?_
    rcases hstep hck with rfl | hlt
    · exact hown
    · exact hnone c hc hlt
  | run hlo hlen hend hown' hloc hnone =>
    refine Pending.run hlo hlen (Nat.le_succ_of_le hend) hown' hloc fun c hc hck => ?_
    rcases hstep hck with rfl | hlt
    · exact hown
    · exact hnone c hc hlt

end DiffDisk

namespace Volume

open DiffDisk

/-- The same chain of files. The table, the counters, the inodes and the queue of holes
may differ. -/
structure SameChain (v v' : Volume) : Prop where
  files : v'.files = v.files
  locationLen : v'.locationLen = v.locationLen
  userCreatedSnap : v'.userCreatedSnap = v.userCreatedSnap
  snapIndx : v'.snapIndx = v.snapIndx
  punch : v'.shouldPunchHoles = v.shouldPunchHoles

namespace SameChain

variable {v v' v'' : Volume}

theorem refl (v : Volume) : v.SameChain v :=
  ⟨rfl, rfl, rfl, rfl, rfl⟩

theorem trans (h : v.SameChain v') (h' : v'.SameChain v'') : v.SameChain v'' :=
  ⟨h'.1.trans h.1, h'.2.trans h.2, h'.3.trans h.3, h'.4.trans h.4, h'.5.trans h.5⟩

theorem file (h : v.SameChain v') (i : ℕ) : v'.file i = v.file i := by
  unfold DiffDisk.file
  rw [h.files]

theorem target (h : v.SameChain v') : v'.target = v.target := by
  unfold DiffDisk.target
  rw [h.files]

theorem size (h : v.SameChain v') : v'.size = v.size := by
  unfold Volume.size
  rw [h.locationLen]

end SameChain

theorem Fills.sameChain {v v' : Volume} (h : v.Fills v') : v.SameChain v' := by
  obtain ⟨l, rfl, -⟩ := h
  exact ⟨rfl, rfl, rfl, rfl, rfl⟩

theorem Fills.store {v v' : Volume} (h : v.Fills v') : v'.store = v.store := by
  obtain ⟨l, rfl, -⟩ := h
  rfl

theorem Fills.chan {v v' : Volume} (h : v.Fills v') : v'.holeCreatorChan = v.holeCreatorChan := by
  obtain ⟨l, rfl, -⟩ := h
  rfl

/-- What is known after `k` passes of the loop. -/
structure MarkInv (v : Volume) (start n k : ℕ) (st : MarkState) : Prop where
  same : v.SameChain st.v
  store : st.v.store = v.store
  location : ∀ s, st.v.location s =
    if start ≤ s ∧ s < start + k then u16 v.target else v.location s
  holes : ∃ hs, st.v.holeCreatorChan = v.holeCreatorChan ++ hs ∧
    ∀ h ∈ hs, ∃ i lo len, v.WriteHole start n h i lo len
  pending : v.Pending start k st

/-! ## One pass of the loop -/

section Step

variable {v : Volume} {start n k : ℕ} {st : MarkState}

/-- Sending the pending run off appends at most one hole, and changes nothing else but a
counter. -/
theorem punchRun_spec (st : MarkState) (f : ℕ) :
    st.v.SameChain (st.punchRun f) ∧ (st.punchRun f).store = st.v.store ∧
    (st.punchRun f).location = st.v.location ∧
    ((st.punchRun f).holeCreatorChan = st.v.holeCreatorChan ∨
      st.file ≠ 0 ∧ st.v.snapIndx < st.fileIndx ∧
      (st.punchRun f).holeCreatorChan = st.v.holeCreatorChan ++
        [⟨f, st.lOffset * defaultSectorSize, st.length * defaultSectorSize⟩]) := by
  unfold MarkState.punchRun
  split_ifs with h
  · exact ⟨⟨rfl, rfl, rfl, rfl, rfl⟩, rfl, rfl, .inr ⟨h.1, h.2.1, rfl⟩⟩
  · exact ⟨SameChain.refl _, rfl, rfl, .inl rfl⟩

/-- The run that is pending when the loop meets a sector held by another file. -/
theorem MarkInv.writeHole_next (h : MarkInv v start n k st) (hk : k < n)
    (hown : v.Owned (start + k)) (hfile : st.file ≠ 0) (hidx : v.snapIndx < st.fileIndx) :
    v.WriteHole start n ⟨v.file (v.location (start + k)), st.lOffset * defaultSectorSize,
      st.length * defaultSectorSize⟩ (v.location (start + k)) st.lOffset st.length := by
  obtain ⟨-, -, -, -, hp⟩ := h
  cases hp with
  | none _ => exact absurd rfl hfile
  | run hlo hlen hend hown' hloc hnone =>
    refine ⟨rfl, hlo, by simp only; omega, ⟨_, by omega, by omega, hown, rfl⟩, fun hx => ?_⟩
    by_contra hle
    refine hx ⟨_, start + k, ?_, ?_, by omega, hown', hown, fun c hc hck => ?_, ?_, by omega⟩
    · omega
    · omega
    · exact hnone c (by omega) hck
    · rw [hloc]
      exact hidx

/-- The run that is pending when the loop ends. -/
theorem MarkInv.writeHole_last (h : MarkInv v start n n st) (hfile : st.file ≠ 0)
    (hidx : v.snapIndx < st.fileIndx) :
    v.WriteHole start n ⟨st.file, st.lOffset * defaultSectorSize, st.length * defaultSectorSize⟩
      st.fileIndx st.lOffset st.length := by
  obtain ⟨-, -, -, -, hp⟩ := h
  cases hp with
  | none _ => exact absurd rfl hfile
  | run hlo hlen hend hown hloc hnone =>
    exact ⟨rfl, hlo, hend, ⟨_, by omega, by omega, hown, hloc⟩, fun _ => hidx⟩

/-- The holes after the pending run is sent off. -/
theorem holes_punchRun {f : ℕ} (h : ∃ hs, st.v.holeCreatorChan = v.holeCreatorChan ++ hs ∧
      ∀ h ∈ hs, ∃ i lo len, v.WriteHole start n h i lo len) (hsnap : st.v.snapIndx = v.snapIndx)
    (hnew : st.file ≠ 0 → v.snapIndx < st.fileIndx → ∃ i lo len, v.WriteHole start n
      ⟨f, st.lOffset * defaultSectorSize, st.length * defaultSectorSize⟩ i lo len) :
    ∃ hs, (st.punchRun f).holeCreatorChan = v.holeCreatorChan ++ hs ∧
      ∀ h ∈ hs, ∃ i lo len, v.WriteHole start n h i lo len := by
  obtain ⟨hs, heq, hall⟩ := h
  rcases (punchRun_spec st f).2.2.2 with hc | ⟨hf, hi, hc⟩
  · exact ⟨hs, hc.trans heq, hall⟩
  · refine ⟨hs ++ [_], by rw [hc, heq, List.append_assoc], fun h hh => ?_⟩
    rcases List.mem_append.1 hh with hh | hh
    · exact hall h hh
    · rw [List.mem_singleton.1 hh]
      exact hnew hf (hsnap ▸ hi)

theorem MarkInv.start_eq (h : MarkInv v start n k st) :
    st.v.location (start + k) = v.location (start + k) := by
  rw [h.location, if_neg (by omega)]

/-- A sector held by another file joins the pending run or starts a new one. -/
theorem MarkInv.overwrite (h : MarkInv v start n k st) (hk : k < n) (hown : v.Owned (start + k)) :
    let st' := st.overwrite (start + k) (v.location (start + k))
    v.SameChain st'.v ∧ st'.v.store = v.store ∧ st'.v.location = st.v.location ∧
    (∃ hs, st'.v.holeCreatorChan = v.holeCreatorChan ++ hs ∧
      ∀ h ∈ hs, ∃ i lo len, v.WriteHole start n h i lo len) ∧
    ∀ u, v.Pending start (k + 1) { st' with v := u } := by
  have hnone : ∀ c, start + k + 1 ≤ c → c < start + (k + 1) → ¬v.Owned c :=
    fun c hc hck => absurd hck (by omega)
  unfold MarkState.overwrite
  simp only
  split_ifs with hnew
  · obtain ⟨hsame, hstore, hloc, -⟩ := punchRun_spec st (st.v.file (v.location (start + k)))
    have hsame' := h.same.trans hsame
    refine ⟨⟨hsame'.1, hsame'.2, hsame'.3, hsame'.4, hsame'.5⟩, hstore.trans h.store, hloc,
      ?_, fun u => ?_⟩
    · refine holes_punchRun h.holes h.same.snapIndx fun hf hi => ?_
      rw [h.same.file]
      exact ⟨_, _, _, h.writeHole_next hk hown hf hi⟩
    · rw [h.same.file]
      exact @Pending.run _ _ _ _ 1 (start + k) _ (by omega) Nat.one_pos (by omega) hown rfl hnone
  · refine ⟨⟨h.same.1, h.same.2, h.same.3, h.same.4, h.same.5⟩, h.store, rfl, h.holes, fun u => ?_⟩
    obtain ⟨hval, hend⟩ := not_or.1 hnew
    rw [not_not] at hval hend
    have hp := h.pending
    cases hp with
    | none _ => exact absurd hval hown.1
    | @run _ len lo i hlo hlen hle hown' hloc hnone' =>
      simp only at hend
      refine @Pending.run _ _ _ _ (len + 1) lo _ hlo (Nat.succ_pos _) (by omega) ?_ ?_
        fun c hc => hnone c (by omega)
      · rwa [show lo + (len + 1) - 1 = start + k by omega]
      · rwa [show lo + (len + 1) - 1 = start + k by omega]

/-- One pass of the loop. -/
theorem MarkInv.step (h : MarkInv v start n k st) (hk : k < n) :
    MarkInv v start n (k + 1) (markSector v.target st (start + k)) := by
  have hset : ∀ {u : Volume}, u.location = st.v.location → ∀ s,
      (u.setLocation (start + k) (u16 v.target)).location s =
        if start ≤ s ∧ s < start + (k + 1) then u16 v.target else v.location s := by
    intro u hu s
    show Function.update u.location (start + k) (u16 v.target) s = _
    rcases eq_or_ne s (start + k) with rfl | hs
    · rw [Function.update_self, if_pos (by omega)]
    · rw [Function.update_of_ne hs, hu, h.location]
      exact if_congr (by omega) rfl rfl
  unfold markSector
  simp only [h.start_eq]
  split_ifs with h0 ht
  · refine ⟨⟨h.same.1, h.same.2, h.same.3, h.same.4, h.same.5⟩, h.store, hset rfl, h.holes, ?_⟩
    exact h.pending.skip (fun ho => ho.1 h0) _
  · obtain ⟨hsame, hstore, hloc, hholes, hpend⟩ := h.overwrite hk ⟨h0, ht⟩
    exact ⟨⟨hsame.1, hsame.2, hsame.3, hsame.4, hsame.5⟩, hstore, hset hloc, hholes, hpend _⟩
  · refine ⟨⟨h.same.1, h.same.2, h.same.3, h.same.4, h.same.5⟩, h.store, hset rfl, h.holes, ?_⟩
    exact h.pending.skip (fun ho => ht ho.2) _

theorem markLoop_inv (v : Volume) (start n : ℕ) : MarkInv v start n n (markLoop v start n) := by
  refine Transition.foldl_range_rec (P := MarkInv v start n) _ _ ?_ n fun k st hk h => h.step hk
  exact ⟨SameChain.refl v, rfl, fun s => by rw [if_neg (by omega)], ⟨[], by simp, by simp⟩,
    Pending.none fun c hc hck => absurd hck (by omega)⟩

end Step

/-! ## The whole write -/

/-- What an aligned write of `buf` at `offset` does. -/
structure FullWrite (dev : Dev) (v : Volume) (buf : List Byte) (offset : ℕ) (r : WriteResult) :
    Prop where
  same : v.SameChain r.v
  store : r.v.store = (writeFile dev v.store (v.file v.target) buf offset).1
  count : r.n = (writeFile dev v.store (v.file v.target) buf offset).2.1
  err : r.err = (writeFile dev v.store (v.file v.target) buf offset).2.2
  location : ∀ s, r.v.location s =
    if offset / defaultSectorSize ≤ s ∧
        s < offset / defaultSectorSize + buf.length / defaultSectorSize then
      u16 v.target
    else v.location s
  holes : ∃ hs, r.v.holeCreatorChan = v.holeCreatorChan ++ hs ∧
    ∀ h ∈ hs, ∃ i lo len, v.WriteHole (offset / defaultSectorSize)
      (buf.length / defaultSectorSize) h i lo len

theorem fullWriteAt_spec (dev : Dev) (v : Volume) (buf : List Byte) (offset : ℕ)
    (hb : buf.length % defaultSectorSize = 0) (ho : offset % defaultSectorSize = 0) :
    FullWrite dev v buf offset (v.fullWriteAt dev buf offset) := by
  unfold fullWriteAt
  rw [if_neg (by omega)]
  generalize hw : writeFile dev v.store (v.file v.target) buf offset = w
  have hinv := markLoop_inv { v with store := w.1 } (offset / defaultSectorSize)
    (buf.length / defaultSectorSize)
  simp only
  generalize markLoop { v with store := w.1 } (offset / defaultSectorSize)
    (buf.length / defaultSectorSize) = st at hinv ⊢
  obtain ⟨hsame, hstore, hloc, -⟩ := punchRun_spec st st.file
  have hsame' := hinv.same.trans hsame
  refine ⟨⟨hsame'.1, hsame'.2, hsame'.3, hsame'.4, hsame'.5⟩,
    ?_, by rw [hw], by rw [hw], fun s => ?_, ?_⟩
  · rw [hw]
    exact hstore.trans hinv.store
  · simp only [hloc]
    exact hinv.location s
  · exact holes_punchRun hinv.holes hinv.same.snapIndx fun hf hi =>
      ⟨_, _, _, hinv.writeHole_last hf hi⟩

/-! ## What requests keep -/

section Rec

variable {P : Volume → Prop} {dev : Dev}

theorem fullReadLoop_rec (hl : ∀ v s, P v → P (lookup dev v s).1) (offset sectors : ℕ) :
    ∀ (m : ℕ) (st : ReadState), P st.v → P (fullReadLoop dev offset sectors m st).v
  | 0, _, h => h
  | m + 1, st, h => by
    have hnext := hl st.v (offset / defaultSectorSize + (sectors - (m + 1))) h
    unfold fullReadLoop
    dsimp only
    generalize lookup dev st.v (offset / defaultSectorSize + (sectors - (m + 1))) = l at hnext ⊢
    obtain ⟨w, e | t⟩ := l
    · exact hnext
    · dsimp only at hnext ⊢
      split_ifs
      · exact fullReadLoop_rec hl offset sectors m _ hnext
      · split
        · exact hnext
        · exact fullReadLoop_rec hl offset sectors m _ hnext

theorem fullReadAt_rec (hl : ∀ v s, P v → P (lookup dev v s).1) {v : Volume}
    (buf : List Byte) (offset : ℕ) (h : P v) : P (v.fullReadAt dev buf offset).v := by
  unfold fullReadAt
  split_ifs
  · exact h
  · exact h
  · have hnext := hl v (offset / defaultSectorSize) h
    generalize lookup dev v (offset / defaultSectorSize) = l at hnext ⊢
    obtain ⟨w, e | t⟩ := l
    · exact hnext
    · exact fullReadLoop_rec hl _ _ _ _ hnext

theorem ReadResult.andThen_rec {r : ReadResult} {buf : List Byte} {next : Volume → ReadResult}
    (h : P r.v) (hn : ∀ v, P v → P (next v).v) : P (r.andThen buf next).v := by
  unfold andThen
  split
  · exact h
  · exact hn _ h

/-- What a lookup keeps, `ReadAt` keeps. -/
theorem readAt_rec (hl : ∀ v s, P v → P (lookup dev v s).1) {v : Volume} (buf : List Byte)
    (offset : ℕ) (h : P v) : P (v.readAt dev buf offset).v := by
  have hend : ∀ readBuf buf offset endOffset v, P v →
      P (readEnd dev readBuf buf offset endOffset v).v := by
    intro readBuf buf offset endOffset v hv
    unfold readEnd
    split_ifs
    · exact ReadResult.andThen_rec (fullReadAt_rec hl _ _ hv) fun _ hw => hw
    · exact hv
  have hrest : ∀ readBuf buf offset startCut endOffset v, P v →
      P (readRest dev readBuf buf offset startCut endOffset v).v := by
    intro readBuf buf offset startCut endOffset v hv
    unfold readRest
    split_ifs
    · exact hv
    · exact ReadResult.andThen_rec (fullReadAt_rec hl _ _ hv) fun _ hw => hend _ _ _ _ _ hw
  unfold readAt
  dsimp only
  split_ifs
  · exact h
  · exact fullReadAt_rec hl _ _ h
  · exact ReadResult.andThen_rec (fullReadAt_rec hl _ _ h) fun _ hw => hrest _ _ _ _ _ _ hw

theorem WriteResult.andThen_rec {w : WriteResult} {next : Volume → WriteResult} (h : P w.v)
    (hn : ∀ v, P v → P (next v).v) : P (w.andThen next).v := by
  unfold andThen
  split
  · exact h
  · exact hn _ h

/-- What a lookup and a write of whole sectors keep, `WriteAt` keeps. -/
theorem writeAt_rec (hl : ∀ v s, P v → P (lookup dev v s).1)
    (hw : ∀ v buf offset, P v → P (fullWriteAt dev v buf offset).v) {v : Volume}
    (buf : List Byte) (offset : ℕ) (h : P v) : P (v.writeAt dev buf offset).v := by
  have hmodify : ∀ v buf offset, P v → P (readModifyWrite dev v buf offset).v := by
    intro v buf offset hv
    have hread := fullReadAt_rec hl zeroSector (offset / defaultSectorSize * defaultSectorSize) hv
    unfold readModifyWrite
    dsimp only
    generalize fullReadAt dev v zeroSector (offset / defaultSectorSize * defaultSectorSize) =
      r at hread ⊢
    split_ifs
    · exact hv
    · split
      · exact hread
      · exact hw _ _ _ hread
  unfold writeAt
  dsimp only
  split_ifs
  · exact h
  · exact hw _ _ _ h
  · exact hmodify _ _ _ h
  · exact WriteResult.andThen_rec (hmodify _ _ _ h) fun _ h₁ =>
      WriteResult.andThen_rec (hw _ _ _ h₁) fun _ h₂ => WriteResult.andThen_rec (hmodify _ _ _ h₂)
        fun _ h₃ => h₃

end Rec

theorem lookup_sameChain (dev : Dev) (v : Volume) (s : ℕ) : v.SameChain (lookup dev v s).1 := by
  unfold lookup
  split_ifs
  · exact .refl v
  · exact .refl v
  · split
    · exact ⟨rfl, rfl, rfl, rfl, rfl⟩
    · exact .refl v
  · exact .refl v

theorem lookup_store (dev : Dev) (v : Volume) (s : ℕ) : (lookup dev v s).1.store = v.store := by
  unfold lookup
  split_ifs
  · rfl
  · rfl
  · split <;> rfl
  · rfl

theorem fullWriteAt_sameChain (dev : Dev) (v : Volume) (buf : List Byte) (offset : ℕ) :
    v.SameChain (v.fullWriteAt dev buf offset).v := by
  by_cases h : buf.length % defaultSectorSize ≠ 0 ∨ offset % defaultSectorSize ≠ 0
  · unfold fullWriteAt
    rw [if_pos h]
    exact .refl v
  · exact (fullWriteAt_spec dev v buf offset (by omega) (by omega)).same

theorem readAt_sameChain (dev : Dev) (v : Volume) (buf : List Byte) (offset : ℕ) :
    v.SameChain (v.readAt dev buf offset).v :=
  readAt_rec (P := v.SameChain) (fun w s h => h.trans (lookup_sameChain dev w s)) buf
    offset (.refl v)

theorem writeAt_sameChain (dev : Dev) (v : Volume) (buf : List Byte) (offset : ℕ) :
    v.SameChain (v.writeAt dev buf offset).v :=
  writeAt_rec (P := v.SameChain) (fun w s h => h.trans (lookup_sameChain dev w s))
    (fun w _ _ h => h.trans (fullWriteAt_sameChain dev w _ _)) buf offset (.refl v)

end Volume

end Jiva
