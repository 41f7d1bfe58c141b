import Jiva.LatestSnapshot

/-!
# The check of a rebuild

`VerifyRebuildReplica` takes a chain from a replica in mode `RW`, and the chain and the checkpoint
of the one that was rebuilt, cuts both chains at an index it finds in the first one, and promotes
the replica if they agree. Here the chains are whatever the replicas report, of any length. They are
slices, which have a capacity beyond their length, and a cut that goes beyond the capacity ends the
call with a panic.

`verify_iff` says exactly when the call keeps what is expected of it : the cuts are in range, a
replica is promoted only if the chains match, and an error leaves the replica as it was.
`verify_breaks` has the three ways it does not : an empty chain, a rebuilt replica whose chain is
the longer one, and a promotion that fails between its two requests. `verifyReported_nodes` is that
this is `verifyRebuildReplica` for the chains that the replicas have.
-/

namespace Jiva

open Hoare Controller Relation

/-! ## Slices -/

/-- A slice : its elements, and the cells that its array has for it. -/
structure Slice (α : Type) where
  elems : List α
  cap : ℕ
  le_cap : elems.length ≤ cap

namespace Slice

variable {α : Type}

/-- A slice without room. -/
def exact (elems : List α) : Slice α :=
  ⟨elems, elems.length, le_rfl⟩

/-- The cells of the array. Those after the elements have the zero value. -/
def cells (s : Slice α) : List (Option α) :=
  s.elems.map some ++ List.replicate (s.cap - s.elems.length) none

/-- `s[1 : indx+1]`, `none` if it is out of range. -/
def upTo (s : Slice α) (indx : ℕ) : Option (List (Option α)) :=
  if indx + 1 ≤ s.cap then some ((s.cells.take (indx + 1)).drop 1) else none

theorem upTo_of_le {s : Slice α} {indx : ℕ} (h : indx + 1 ≤ s.cap) :
    s.upTo indx = some ((s.cells.take (indx + 1)).drop 1) :=
  if_pos h

theorem upTo_of_lt {s : Slice α} {indx : ℕ} (h : s.cap < indx + 1) : s.upTo indx = none :=
  if_neg (by omega)

theorem getElem?_cells (s : Slice α) (i : ℕ) :
    s.cells[i]? = if i < s.cap then some s.elems[i]? else none := by
  have hle := s.le_cap
  by_cases hi : i < s.elems.length
  · rw [cells, List.getElem?_append_left (by simpa using hi), if_pos (by omega)]
    simp [hi]
  · rw [cells, List.getElem?_append_right (by simpa using hi), List.getElem?_replicate,
      List.length_map, List.getElem?_eq_none (by omega)]
    split_ifs <;> first | rfl | omega

end Slice

/-! ## The comparison -/

section

variable {α : Type} [DecidableEq α]

/-- `ChainContainsSnapshot`. -/
def chainContainsSnapshot (chain : List α) (snapshot : α) : Bool :=
  chain.any (· = snapshot)

/-- The loop that looks for the checkpoint : `i` is the next index, and `indx` the last one. -/
def findCheckpoint (woCheckpoint : Option α) : List α → ℕ → ℕ → ℕ
  | [], _, indx => indx
  | snapshot :: rest, i, _ =>
    if some snapshot = woCheckpoint then i else findCheckpoint woCheckpoint rest (i + 1) i

/-- How the comparison of the chains ends. -/
inductive Verdict
  | outOfRange
  | fails (message : String)
  | equal
  deriving DecidableEq

/-- The comparison of the chains in `VerifyRebuildReplica`. A file has a name that is not empty, so
an empty checkpoint is none of them. -/
def compareChains (a rwReplica : Address) (rwChain chain : Slice α) (woCheckpoint : Option α) :
    Verdict :=
  if woCheckpoint.any fun s => !chainContainsSnapshot rwChain.elems s then
    .fails "WO replica's checkpoint not present in rwReplica chain"
  else
    let indx := findCheckpoint woCheckpoint rwChain.elems 0 0
    match rwChain.upTo indx with
    | none => .outOfRange
    | some rwPart =>
      match chain.upTo indx with
      | none => .outOfRange
      | some part =>
        if rwPart ≠ part then
          .fails ("Replica " ++ a ++ "'s chain not equal to RW replica " ++ rwReplica ++ "'s chain")
        else .equal

/-- The chains match : without a checkpoint they are equal but for their heads, and with one they
both have it and are equal from index `1` through it. -/
def Matching (rwChain chain : List α) : Option α → Prop
  | none => rwChain.drop 1 = chain.drop 1
  | some s => s ∈ rwChain ∧ s ∈ chain ∧
      (rwChain.take (rwChain.idxOf s + 1)).drop 1 = (chain.take (chain.idxOf s + 1)).drop 1

/-- What the comparison leaves open : the chain of the replica in mode `WO` is not the longer one,
or the checkpoint is the head of both chains if it is the head of one. -/
def SameEnd (rwChain chain : List α) : Option α → Prop
  | none => chain.length ≤ max 1 rwChain.length
  | some s => rwChain.head? = some s ↔ chain.head? = some s

theorem chainContainsSnapshot_eq {chain : List α} {s : α} :
    chainContainsSnapshot chain s = true ↔ s ∈ chain := by
  simp [chainContainsSnapshot]

theorem findCheckpoint_none : ∀ (chain : List α) (i indx : ℕ),
    findCheckpoint none chain i indx = if chain = [] then indx else i + (chain.length - 1)
  | [], _, _ => rfl
  | [s], i, indx => by simp [findCheckpoint]
  | s :: t :: rest, i, indx => by
    rw [findCheckpoint, if_neg nofun, findCheckpoint_none, if_neg (by simp), if_neg (by simp)]
    simp
    omega

theorem findCheckpoint_some {s : α} : ∀ {chain : List α} (i indx : ℕ), s ∈ chain →
    findCheckpoint (some s) chain i indx = i + chain.idxOf s
  | x :: rest, i, indx, h => by
    by_cases hx : x = s
    · simp [findCheckpoint, hx]
    · have hrest : s ∈ rest := (List.mem_cons.1 h).resolve_left (Ne.symm hx)
      rw [findCheckpoint, if_neg (by simpa using hx), findCheckpoint_some (i + 1) i hrest,
        List.idxOf_cons_ne _ hx]
      omega

/-- The index is in the chain of the replica in mode `RW`, unless that is empty. -/
theorem findCheckpoint_lt {rwChain : List α} {woCheckpoint : Option α}
    (h : ∀ s ∈ woCheckpoint, s ∈ rwChain) :
    findCheckpoint woCheckpoint rwChain 0 0 + 1 ≤ max 1 rwChain.length := by
  cases woCheckpoint with
  | none =>
    rw [findCheckpoint_none]
    split_ifs with hnil
    · omega
    · have := List.length_pos_iff.2 hnil
      omega
  | some s =>
    rw [findCheckpoint_some 0 0 (h s rfl)]
    have := List.idxOf_lt_length_iff.2 (h s rfl)
    omega

omit [DecidableEq α] in
theorem getElem?_part (chain : List α) (n i : ℕ) :
    ((chain.take (n + 1)).drop 1)[i]? = if i < n then chain[i + 1]? else none := by
  rw [List.getElem?_drop, List.getElem?_take, Nat.add_comm 1 i]
  by_cases hi : i < n
  · rw [if_pos hi, if_pos (by omega)]
  · rw [if_neg hi, if_neg (by omega)]

omit [DecidableEq α] in
/-- Two parts that are in range are equal if the chains are, from index `1` through `n`. -/
theorem parts_eq_iff {s t : Slice α} {n : ℕ} (hs : n + 1 ≤ s.cap) (ht : n + 1 ≤ t.cap) :
    (s.cells.take (n + 1)).drop 1 = (t.cells.take (n + 1)).drop 1 ↔
      ∀ i < n, s.elems[i + 1]? = t.elems[i + 1]? := by
  rw [List.ext_getElem?_iff]
  refine forall_congr' fun i => ?_
  rw [getElem?_part, getElem?_part, s.getElem?_cells, t.getElem?_cells]
  by_cases hi : i < n
  · rw [if_pos hi, if_pos hi, if_pos (by omega), if_pos (by omega)]
    simp [hi]
  · simp [hi]

/-- The checkpoint is in the chain of the replica in mode `RW`. -/
def Contained (rwChain : Slice α) (woCheckpoint : Option α) : Prop :=
  ∀ s ∈ woCheckpoint, s ∈ rwChain.elems

/-- Both cuts are in range. -/
def CutsInRange (rwChain chain : Slice α) (woCheckpoint : Option α) : Prop :=
  1 ≤ rwChain.cap ∧ findCheckpoint woCheckpoint rwChain.elems 0 0 + 1 ≤ chain.cap

/-- The parts that are compared are equal. -/
def PartsEqual (rwChain chain : Slice α) (woCheckpoint : Option α) : Prop :=
  ∀ i < findCheckpoint woCheckpoint rwChain.elems 0 0, rwChain.elems[i + 1]? = chain.elems[i + 1]?

variable {a rwReplica : Address} {rwChain chain : Slice α} {woCheckpoint : Option α}

theorem contained_iff : Contained rwChain woCheckpoint ↔
    ¬woCheckpoint.any (fun s => !chainContainsSnapshot rwChain.elems s) = true := by
  cases woCheckpoint with
  | none => simp [Contained]
  | some s => simp [Contained, chainContainsSnapshot_eq]

theorem compareChains_of_not_contained (h : ¬Contained rwChain woCheckpoint) :
    compareChains a rwReplica rwChain chain woCheckpoint =
      .fails "WO replica's checkpoint not present in rwReplica chain" :=
  if_pos (not_not.1 (contained_iff.not.1 h))

theorem compareChains_of_contained (h : Contained rwChain woCheckpoint) :
    compareChains a rwReplica rwChain chain woCheckpoint =
      let indx := findCheckpoint woCheckpoint rwChain.elems 0 0
      match rwChain.upTo indx with
      | none => .outOfRange
      | some rwPart =>
        match chain.upTo indx with
        | none => .outOfRange
        | some part =>
          if rwPart ≠ part then
            .fails ("Replica " ++ a ++ "'s chain not equal to RW replica " ++
              rwReplica ++ "'s chain")
          else .equal :=
  if_neg (contained_iff.1 h)

theorem cut_le_cap (h : Contained rwChain woCheckpoint) (hcap : 1 ≤ rwChain.cap) :
    findCheckpoint woCheckpoint rwChain.elems 0 0 + 1 ≤ rwChain.cap := by
  have hlt := findCheckpoint_lt h
  have hle := rwChain.le_cap
  omega

theorem compareChains_of_not_inRange (h : Contained rwChain woCheckpoint)
    (hr : ¬CutsInRange rwChain chain woCheckpoint) :
    compareChains a rwReplica rwChain chain woCheckpoint = .outOfRange := by
  rw [compareChains_of_contained h]
  by_cases hcap : 1 ≤ rwChain.cap
  · dsimp only
    rw [Slice.upTo_of_le (cut_le_cap h hcap), Slice.upTo_of_lt]
    have := not_and.1 hr hcap
    omega
  · dsimp only
    rw [Slice.upTo_of_lt (by omega)]

variable (a rwReplica) in
theorem compareChains_of_inRange (h : Contained rwChain woCheckpoint)
    (hr : CutsInRange rwChain chain woCheckpoint) :
    (PartsEqual rwChain chain woCheckpoint ∧
      compareChains a rwReplica rwChain chain woCheckpoint = .equal) ∨
    (¬PartsEqual rwChain chain woCheckpoint ∧
      ∃ message, compareChains a rwReplica rwChain chain woCheckpoint = .fails message) := by
  have hcut := cut_le_cap h hr.1
  rw [compareChains_of_contained h]
  dsimp only
  rw [Slice.upTo_of_le hcut, Slice.upTo_of_le hr.2]
  dsimp only
  by_cases heq : PartsEqual rwChain chain woCheckpoint
  · exact .inl ⟨heq, if_neg (not_not.2 ((parts_eq_iff hcut hr.2).2 heq))⟩
  · exact .inr ⟨heq, _, if_pos fun h => heq ((parts_eq_iff hcut hr.2).1 h)⟩

omit [DecidableEq α] in
theorem drop_one_eq_iff {xs ys : List α} :
    xs.drop 1 = ys.drop 1 ↔ ∀ i, xs[i + 1]? = ys[i + 1]? := by
  rw [List.ext_getElem?_iff]
  simp

theorem head_iff_idxOf {xs : List α} {s : α} (h : s ∈ xs) : xs.head? = some s ↔ xs.idxOf s = 0 := by
  cases xs with
  | nil => simp at h
  | cons x xs =>
    by_cases hx : x = s
    · simp [hx]
    · simp [hx, List.idxOf_cons_ne]

theorem idxOf_le {xs : List α} {s : α} {i : ℕ} (h : xs[i]? = some s) : xs.idxOf s ≤ i := by
  obtain ⟨hi, rfl⟩ := List.getElem?_eq_some_iff.1 h
  by_contra hlt
  have := List.not_of_lt_findIdx (Nat.lt_of_not_le hlt)
  simp at this

/-- Without a checkpoint, the end of the longer chain is not compared. -/
theorem matching_none_iff (heq : PartsEqual rwChain chain none) :
    Matching rwChain.elems chain.elems none ↔ SameEnd rwChain.elems chain.elems none := by
  rw [Matching, SameEnd]
  constructor
  · intro hall
    have := congrArg List.length hall
    rw [List.length_drop, List.length_drop] at this
    omega
  · intro hle
    refine drop_one_eq_iff.2 fun i => ?_
    by_cases hi : i < findCheckpoint none rwChain.elems 0 0
    · exact heq i hi
    · rw [findCheckpoint_none] at hi
      have hbeyond : max 1 rwChain.elems.length ≤ i + 1 := by
        split_ifs at hi with hnil
        · simp [hnil]
        · omega
      rw [List.getElem?_eq_none (by omega), List.getElem?_eq_none (by omega)]

/-- With one, the heads are not. -/
theorem matching_some_iff {s : α} (h : s ∈ rwChain.elems)
    (heq : PartsEqual rwChain chain (some s)) : Matching rwChain.elems chain.elems (some s) ↔
    SameEnd rwChain.elems chain.elems (some s) := by
  rw [PartsEqual, findCheckpoint_some 0 0 h, Nat.zero_add] at heq
  rw [Matching, SameEnd, head_iff_idxOf h]
  have hlt := List.idxOf_lt_length_iff.2 h
  constructor
  · rintro ⟨-, hmem, hparts⟩
    have hlt' := List.idxOf_lt_length_iff.2 hmem
    have := congrArg List.length hparts
    simp only [List.length_drop, List.length_take] at this
    rw [head_iff_idxOf hmem]
    omega
  · intro hhead
    rcases Nat.eq_zero_or_pos (rwChain.elems.idxOf s) with hzero | hpos
    · have hmem := List.mem_of_mem_head? (hhead.1 hzero)
      have hzero' := (head_iff_idxOf hmem).1 (hhead.1 hzero)
      exact ⟨h, hmem, by rw [hzero, hzero']; simp⟩
    · -- the checkpoint is at the same place in both chains
      have hat : chain.elems[rwChain.elems.idxOf s]? = some s := by
        have := heq (rwChain.elems.idxOf s - 1) (by omega)
        rw [Nat.sub_add_cancel hpos, List.getElem?_idxOf h] at this
        exact this.symm
      have hmem := List.mem_of_getElem? hat
      have hle : chain.elems.idxOf s ≤ rwChain.elems.idxOf s := idxOf_le hat
      have hne : chain.elems.idxOf s ≠ 0 := fun h0 =>
        hpos.ne' (hhead.2 ((head_iff_idxOf hmem).2 h0))
      have hge : rwChain.elems.idxOf s ≤ chain.elems.idxOf s := by
        rcases Nat.eq_or_lt_of_le hle with heq' | hlt'
        · exact heq'.ge
        · have := heq (chain.elems.idxOf s - 1) (by omega)
          rw [Nat.sub_add_cancel (Nat.pos_of_ne_zero hne), List.getElem?_idxOf hmem] at this
          exact idxOf_le this
      refine ⟨h, hmem, ?_⟩
      rw [le_antisymm hle hge]
      refine List.ext_getElem? fun i => ?_
      rw [getElem?_part, getElem?_part]
      split_ifs with hi
      · exact heq i hi
      · rfl

/-! ## The call -/

/-- `VerifyRebuildReplica` for a replica in mode `WO`, where the replicas report the chains
`chainOf` and the checkpoints `checkpointOf`. A panic is `none`. -/
def verifyReportedWO (chainOf : Address → Slice α) (checkpointOf : Address → Option α)
    (a rwReplica : Address) : Ctl (Option (Option Err)) := do
  let rwChain ← query rwReplica fun _ => chainOf rwReplica
  match rwChain with
  | .error e => pure (some (some (.msg e)))
  | .ok rwChain => do
    let chain ← query a fun _ => chainOf a
    match chain with
    | .error e => pure (some (some (.msg e)))
    | .ok chain => do
      let woCheckpoint ← query a fun _ => checkpointOf a
      match woCheckpoint with
      | .error e => pure (some (some (.msg e)))
      | .ok woCheckpoint =>
        match compareChains a rwReplica rwChain chain woCheckpoint with
        | .outOfRange => pure none
        | .fails message => pure (some (some (.msg message)))
        | .equal => do
          let err ← promote a rwReplica
          pure (some err)

/-- `VerifyRebuildReplica`, where the replicas report `chainOf` and `checkpointOf`. -/
def verifyReported (chainOf : Address → Slice α) (checkpointOf : Address → Option α) (a : Address) :
    Ctl (Option (Option Err)) := do
  let w ← get
  match w.c.getCurrentAndRWReplica a with
  | .error e => pure (some (some (.msg e)))
  | .ok (replica, rwReplica) =>
    match replica.mode with
    | .rw => pure (some none)
    | .err => pure (some (some (.msg ("Invalid mode ERR for replica " ++ a ++ " to check"))))
    | .wo => verifyReportedWO chainOf checkpointOf a rwReplica.address

end

/-! ## The call of the controller -/

section

variable {rwChain chain : List DiskName} {woCheckpoint : Option DiskName} (a b : Address)

theorem findCheckpoint_eq (hne : rwChain ≠ []) (h : ∀ s ∈ woCheckpoint, s ∈ rwChain) :
    findCheckpoint woCheckpoint rwChain 0 0 = stopIndex rwChain woCheckpoint := by
  unfold stopIndex
  cases woCheckpoint with
  | none =>
    rw [findCheckpoint_none, if_neg hne, List.findIdx?_eq_none_iff.2 (by simp), Nat.zero_add]
  | some s =>
    have hp : (fun d : DiskName => decide (some d = some s)) = (· == s) := by
      funext d
      simp [beq_eq_decide]
    rw [findCheckpoint_some 0 0 (h s rfl), hp,
      List.findIdx?_eq_some_of_exists ⟨s, h s rfl, by simp⟩, Nat.zero_add, List.idxOf]

theorem upTo_exact (indx : ℕ) (chain : List DiskName) : (Slice.exact chain).upTo indx =
    if chain.length < indx + 1 then none else some ((compared indx chain).map some) := by
  have hcells : (Slice.exact chain).cells = chain.map some := by
    simp [Slice.cells, Slice.exact]
  split_ifs with h
  · exact Slice.upTo_of_lt h
  · rw [Slice.upTo_of_le (Nat.le_of_not_lt h), hcells, compared, List.map_drop, List.map_take]

/-- For the chains of replicas, which have no room, the two comparisons are the same. -/
theorem verifyChains_eq (hne : rwChain ≠ []) : verifyChains a b rwChain chain woCheckpoint =
    match compareChains a b (.exact rwChain) (.exact chain) woCheckpoint with
    | .outOfRange => some "slice bounds out of range"
    | .fails message => some message
    | .equal => none := by
  have hany : (woCheckpoint.any fun d => decide (d ∉ rwChain)) =
      woCheckpoint.any fun s => !chainContainsSnapshot (Slice.exact rwChain).elems s := by
    cases woCheckpoint with
    | none => rfl
    | some s =>
      show (decide (s ∉ rwChain)) = !chainContainsSnapshot rwChain s
      rw [Bool.eq_iff_iff, Bool.not_eq_true', ← Bool.not_eq_true, chainContainsSnapshot_eq,
        decide_eq_true_eq]
  unfold verifyChains compareChains
  rw [hany]
  split_ifs with hmem
  · rfl
  have hin : ∀ s ∈ woCheckpoint, s ∈ rwChain := by
    rintro s rfl
    simpa [chainContainsSnapshot, Slice.exact] using hmem
  have hlt := findCheckpoint_lt hin
  have hpos := List.length_pos_iff.2 hne
  have hindx : findCheckpoint woCheckpoint (Slice.exact rwChain).elems 0 0 =
      stopIndex rwChain woCheckpoint :=
    findCheckpoint_eq hne hin
  rw [findCheckpoint_eq hne hin] at hlt
  simp only [hindx, upTo_exact]
  rw [if_neg (show ¬rwChain.length < stopIndex rwChain woCheckpoint + 1 by omega)]
  dsimp only
  split_ifs with hshort hdiff
  · rfl
  · dsimp only
    rw [if_pos ((List.map_injective_iff.2 (Option.some_injective _)).ne hdiff)]
  · dsimp only
    rw [not_not.1 hdiff, if_neg (not_not.2 rfl)]

theorem verifyReportedWO_nodes (w : World) : (verifyRebuildWO a b).run w =
    let x := (verifyReportedWO (fun x => .exact (w.nodes x).chain)
      (fun x => (w.nodes x).checkpoint.map .snap) a b).run w
    (x.1.getD (some (.msg "slice bounds out of range")), x.2) := by
  unfold verifyRebuildWO verifyReportedWO getReplicaChain getReplicaCheckpoint
  rw [run_bind (query_run ..), run_bind (query_run ..)]
  cases (w.tape 0).reply.err with
  | some e => rfl
  | none =>
    dsimp only
    rw [run_bind (query_run ..), run_bind (query_run ..)]
    cases (w.advance.tape 0).reply.err with
    | some e => rfl
    | none =>
      dsimp only
      rw [run_bind (query_run ..), run_bind (query_run ..)]
      cases (w.advance.advance.tape 0).reply.err with
      | some e => rfl
      | none =>
        dsimp only
        rw [verifyChains_eq a b (show (w.nodes b).chain ≠ [] from List.cons_ne_nil _ _),
          show w.advance.nodes = w.nodes from rfl, show w.advance.advance.nodes = w.nodes from rfl]
        cases compareChains a b (.exact (w.nodes b).chain) (.exact (w.nodes a).chain)
          ((w.nodes a).checkpoint.map .snap) <;> rfl

/-- `VerifyRebuildReplica` of the controller is the call for the chains that the replicas have. -/
theorem verifyReported_nodes (w : World) : (verifyRebuildReplica a).run w =
    let x := (verifyReported (fun x => .exact (w.nodes x).chain)
      (fun x => (w.nodes x).checkpoint.map .snap) a).run w
    (x.1.getD (some (.msg "slice bounds out of range")), x.2) := by
  unfold verifyRebuildReplica verifyReported
  have hget : (get : Ctl World).run w = (w, w) := rfl
  rw [run_bind hget, run_bind hget]
  cases w.c.getCurrentAndRWReplica a with
  | error e => rfl
  | ok x =>
    dsimp only
    cases x.1.mode with
    | wo => exact verifyReportedWO_nodes a x.2.address w
    | rw => rfl
    | err => rfl

end

/-! ## The promotion -/

/-- The promotion, with the replies `r₁` and `r₂` to its two requests, does not change a replica
that it does not promote. -/
def PromotionKept (r₁ r₂ : Reply) (counter : ℤ) (n : Node) : Prop :=
  if r₁.err = none then
    r₂.err ≠ none → n.mode = .rw ∧ (r₂.applied = true → n.revisionCounter = counter)
  else r₁.applied = true → n.mode = .rw

/-- The revision counter of the replica at `b` is known. -/
def CounterKnown (b : Address) (w : World) : Prop :=
  (w.tape 0).reply.err = none ∧ (w.nodes b).revisionCounter ≠ -1

/-- How the promotion of the replica at `a` ends, from the counter of the one at `b`. -/
structure Promotes (a b : Address) (w : World) (err : Option Err) (w' : World) : Prop where
  unknown : ¬CounterKnown b w → err ≠ none ∧ w'.c = w.c ∧ w'.nodes = w.nodes
  first : CounterKnown b w → (w.tape 1).reply.err ≠ none → err ≠ none ∧ w'.c = w.c ∧
    w'.nodes a = (w.tape 1).reply.leaves (Node.setReplicaMode .rw) (w.nodes a)
  second : CounterKnown b w → (w.tape 1).reply.err = none → (w.tape 2).reply.err ≠ none →
    err ≠ none ∧ w'.c = w.c ∧ w'.nodes a = (w.tape 2).reply.leaves
      (Node.setRevisionCounter (w.nodes b).revisionCounter) (Node.setReplicaMode .rw (w.nodes a))
  done : CounterKnown b w → (w.tape 1).reply.err = none → (w.tape 2).reply.err = none →
    err = none ∧ ⟨a, .rw⟩ ∈ w'.c.replicas

/-- The end of the promotion, after both requests. -/
theorem promoted_spec {w : World} (hw : Mirrored w.c) {a : Address} (ha : ⟨a, .wo⟩ ∈ w.c.replicas) :
    Triple (fun s => s = w) (do
      setReplicaModeNoLock a .rw
      modify fun w => w.setC fun c =>
        { c with quorumReplicaCount := max c.quorumReplicaCount c.quorumReplicas.length }
      updateVolStatus
      updateCheckpoint
      pure none : Ctl (Option Err)) fun err s => err = none ∧ ⟨a, .rw⟩ ∈ s.c.replicas := by
  have hset := setReplicaModeNoLock_edited hw a (m := .rw) (by decide)
  have hmem : ⟨a, .rw⟩ ∈ ((setReplicaModeNoLock a .rw).run w).2.c.replicas := by
    rw [hset.replicas]
    exact List.mem_map.2 ⟨_, ha, if_pos ⟨rfl, nofun⟩⟩
  refine .bind (Q := fun _ s => Mirrored s.c ∧ ⟨a, .rw⟩ ∈ s.c.replicas) ?_ fun _ => ?_
  · rintro s rfl
    exact ⟨hset.mirrored, hmem⟩
  refine .bind (Q := fun _ s => Mirrored s.c ∧ ⟨a, .rw⟩ ∈ s.c.replicas)
    (.modify fun s hs => ⟨⟨hs.1.toMatches, hs.1.built⟩, hs.2⟩) fun _ => ?_
  refine .bind (Q := fun _ s => Mirrored s.c ∧ ⟨a, .rw⟩ ∈ s.c.replicas) ?_ fun _ =>
    .bind (Q := fun _ s => ⟨a, .rw⟩ ∈ s.c.replicas) ?_ fun _ => .pure fun s hs => ⟨rfl,
      hs⟩
  · refine .fix fun s hs => (leaves_of_safe (fun _ => safe_updateVolStatus) s hs.1).post ?_
    exact fun _ t ht => ⟨ht.mirrored, ht.replicas ▸ hs.2⟩
  · refine .fix fun s hs => (leaves_of_safe (fun _ => safe_updateCheckpoint) s hs.1).post ?_
    exact fun _ t ht => ht.replicas ▸ hs.2

theorem promote_spec {w : World} (hw : Mirrored w.c) {a b : Address} (ha : ⟨a, .wo⟩ ∈ w.c.replicas)
    (hb : ⟨b, .rw⟩ ∈ w.c.replicas) : Triple (fun s => s = w) (promote a b) (Promotes a b w) := by
  rintro w rfl
  unfold promote
  rw [run_bind (getRevisionCounter_run hw hb)]
  cases h₀ : (w.tape 0).reply.err with
  | some e =>
    have hno : ¬CounterKnown b w := fun h => by simp [CounterKnown, h₀] at h
    exact ⟨fun _ => ⟨nofun, rfl, rfl⟩, fun h => (hno h).elim, fun h => (hno h).elim,
      fun h => (hno h).elim⟩
  | none =>
    by_cases hm : (w.nodes b).revisionCounter = -1
    · have hno : ¬CounterKnown b w := fun h => h.2 hm
      dsimp only
      rw [if_pos (.inr hm)]
      exact ⟨fun _ => ⟨nofun, rfl, rfl⟩, fun h => (hno h).elim, fun h => (hno h).elim,
        fun h => (hno h).elim⟩
    have hknown : CounterKnown b w := ⟨h₀, hm⟩
    dsimp only
    set counter := (w.nodes b).revisionCounter with hcounter
    have hmode : (Replicator.setReplicaMode a .rw).run w.advance =
        ((w.tape 1).reply.err, w.advance.requested a (Node.setReplicaMode .rw)) :=
      toOne_run (w := w.advance) hw ha _
    rw [if_neg (by simpa using hm), run_bind hmode]
    cases h₁ : (w.tape 1).reply.err with
    | some e =>
      refine ⟨fun h => (h hknown).elim, fun _ _ => ⟨nofun, requested_c .., requested_node ..⟩,
        fun _ h => ?_, fun _ h => ?_⟩
      · simp [h₁] at h
      · simp [h₁] at h
    | none =>
      set w₁ := w.advance.requested a (Node.setReplicaMode .rw)
      have hc₁ : w₁.c = w.c := requested_c ..
      have hset : (Replicator.setRevisionCounter a counter).run w₁ =
          ((w.tape 2).reply.err, w₁.requested a (Node.setRevisionCounter counter)) := by
        rw [Replicator.setRevisionCounter, toOne_run (hc₁ ▸ hw) (hc₁ ▸ ha), requested_tape]
        rfl
      dsimp only
      rw [run_bind hset]
      cases h₂ : (w.tape 2).reply.err with
      | some e =>
        refine ⟨fun h => (h hknown).elim, fun _ h => (h h₁).elim, fun _ _ _ => ?_, fun _ _ h => ?_⟩
        · have happlied : (w.advance.tape 0).reply.applied = true := Reply.applied_of_err h₁
          have hn₁ : w₁.nodes a = Node.setReplicaMode .rw (w.nodes a) :=
            (requested_node ..).trans (if_pos happlied)
          refine ⟨nofun, (requested_c ..).trans hc₁, (requested_node ..).trans ?_⟩
          rw [hn₁, requested_tape]
          rfl
        · simp [h₂] at h
      | none =>
        refine ⟨fun h => (h hknown).elim, fun _ h => (h h₁).elim, fun _ _ h => (h h₂).elim,
          fun _ _ _ => ?_⟩
        have hc₂ : (w₁.requested a (Node.setRevisionCounter counter)).c = w.c :=
          (requested_c ..).trans hc₁
        exact promoted_spec (hc₂ ▸ hw) (hc₂ ▸ ha) _ rfl

/-! ## What is expected of the call -/

section

variable {α : Type} [DecidableEq α]

/-- What is expected of the call `res` for the replica at `a` : it does not panic, it promotes the
replica only if the chains match, and an error leaves the replica as it was, in the controller and
on its own side. -/
structure Verified (chainOf : Address → Slice α) (checkpointOf : Address → Option α) (a : Address)
    (w : World) (res : Option (Option Err) × World) : Prop where
  inRange : res.1 ≠ none
  promoted : ⟨a, .wo⟩ ∈ w.c.replicas → ⟨a, .rw⟩ ∈ res.2.c.replicas →
    ∃ current b, w.c.getCurrentAndRWReplica a = .ok (current, b) ∧
      Matching (chainOf b.address).elems (chainOf a).elems (checkpointOf a)
  kept : ∀ e, res.1 = some (some e) → modeOf res.2.c.replicas a = modeOf w.c.replicas a ∧
    (res.2.nodes a).mode = (w.nodes a).mode ∧
    (res.2.nodes a).revisionCounter = (w.nodes a).revisionCounter

/-- When it keeps that. The replies from the fourth on are those to `GetRevisionCounter`,
`SetReplicaMode` and `SetRevisionCounter`. -/
def VerifiesWell (chainOf : Address → Slice α) (checkpointOf : Address → Option α) (a : Address)
    (w : World) : Prop :=
  ∀ current b, w.c.getCurrentAndRWReplica a = .ok (current, b) → current.mode = .wo →
    (∀ i < 3, (w.tape i).reply.err = none) →
    Contained (chainOf b.address) (checkpointOf a) →
    CutsInRange (chainOf b.address) (chainOf a) (checkpointOf a) ∧
    (PartsEqual (chainOf b.address) (chainOf a) (checkpointOf a) →
      (w.tape 3).reply.err = none → (w.nodes b.address).revisionCounter ≠ -1 →
      if (w.tape 4).reply.err = none ∧ (w.tape 5).reply.err = none then
        SameEnd (chainOf b.address).elems (chainOf a).elems (checkpointOf a)
      else PromotionKept (w.tape 4).reply (w.tape 5).reply (w.nodes b.address).revisionCounter
        (w.nodes a))

variable {chainOf : Address → Slice α} {checkpointOf : Address → Option α} {a : Address} {w : World}

theorem not_wo_and_rw {c : Controller} (hw : Mirrored c) (hwo : ⟨a, .wo⟩ ∈ c.replicas) :
    ⟨a, .rw⟩ ∉ c.replicas := by
  intro hrw
  rw [mem_iff_modeOf hw.nodup_replicas] at hwo hrw
  exact nomatch hwo.symm.trans hrw

/-- An error that leaves the controller as it was. -/
theorem verified_err_iff (hw : Mirrored w.c) {err : Option Err} {s : World} (herr : err ≠ none)
    (hc : s.c = w.c) : Verified chainOf checkpointOf a w (some err, s) ↔
      (s.nodes a).mode = (w.nodes a).mode ∧
      (s.nodes a).revisionCounter = (w.nodes a).revisionCounter := by
  obtain ⟨e, rfl⟩ := Option.ne_none_iff_exists'.1 herr
  refine ⟨fun h => (h.kept e rfl).2, fun h => ⟨nofun, fun hwo hrw => ?_, fun _ _ => ⟨?_, h⟩⟩⟩
  · exact (not_wo_and_rw hw hwo (hc ▸ hrw)).elim
  · exact congrArg (fun c : Controller => modeOf c.replicas a) hc

theorem verified_of_unchanged (hw : Mirrored w.c) {err : Option Err} {s : World} (hc : s.c = w.c)
    (hn : s.nodes = w.nodes) : Verified chainOf checkpointOf a w (some err, s) := by
  cases err with
  | none =>
    exact ⟨nofun, fun hwo hrw => (not_wo_and_rw hw hwo (hc ▸ hrw)).elim, nofun⟩
  | some e => exact (verified_err_iff hw (Option.some_ne_none e) hc).2 (by simp [hn])

/-- The chains have passed, and the replica is to be promoted. -/
theorem verified_promote_iff (hw : Mirrored w.c) {b current : ReplicaEntry}
    (hcur : w.c.getCurrentAndRWReplica a = .ok (current, b)) (hwo : ⟨a, .wo⟩ ∈ w.c.replicas)
    (hcont : Contained (chainOf b.address) (checkpointOf a))
    (heq : PartsEqual (chainOf b.address) (chainOf a) (checkpointOf a))
    {w₁ : World} {err : Option Err} {s : World} (h : Promotes a b.address w₁ err s)
    (hc : w₁.c = w.c) (hn : w₁.nodes = w.nodes) :
    Verified chainOf checkpointOf a w (some err, s) ↔ (CounterKnown b.address w₁ →
        if (w₁.tape 1).reply.err = none ∧ (w₁.tape 2).reply.err = none then
          SameEnd (chainOf b.address).elems (chainOf a).elems (checkpointOf a)
        else PromotionKept (w₁.tape 1).reply (w₁.tape 2).reply (w.nodes b.address).revisionCounter
          (w.nodes a)) := by
  by_cases hknown : CounterKnown b.address w₁
  swap
  · obtain ⟨-, hsc, hsn⟩ := h.unknown hknown
    exact iff_of_true (verified_of_unchanged hw (hsc.trans hc) (hsn.trans hn)) fun hk =>
      (hknown hk).elim
  rw [forall_prop_of_true hknown]
  by_cases h₁ : (w₁.tape 1).reply.err = none
  swap
  · obtain ⟨herr, hsc, hsn⟩ := h.first hknown h₁
    rw [if_neg fun h => h₁ h.1, PromotionKept, if_neg h₁, verified_err_iff hw herr (hsc.trans hc),
      hsn, hn, Reply.leaves]
    by_cases happ : (w₁.tape 1).reply.applied = true
    · simp [happ, Node.setReplicaMode, eq_comm]
    · simp [happ]
  by_cases h₂ : (w₁.tape 2).reply.err = none
  · obtain ⟨rfl, hrw⟩ := h.done hknown h₁ h₂
    have hiff : Matching (chainOf b.address).elems (chainOf a).elems (checkpointOf a) ↔
        SameEnd (chainOf b.address).elems (chainOf a).elems (checkpointOf a) := by
      cases hcp : checkpointOf a with
      | none => exact matching_none_iff (hcp ▸ heq)
      | some x => exact matching_some_iff (hcont x hcp) (hcp ▸ heq)
    rw [if_pos ⟨h₁, h₂⟩, ← hiff]
    constructor
    · intro hv
      obtain ⟨current', b', hcur', hmatch⟩ := hv.promoted hwo hrw
      obtain ⟨-, rfl⟩ := Prod.mk.inj (Except.ok.inj (hcur.symm.trans hcur'))
      exact hmatch
    · exact fun hmatch => ⟨nofun, fun _ _ => ⟨current, b, hcur, hmatch⟩, nofun⟩
  · obtain ⟨herr, hsc, hsn⟩ := h.second hknown h₁ h₂
    rw [if_neg fun h => h₂ h.2, PromotionKept, if_pos h₁, verified_err_iff hw herr (hsc.trans hc),
      hsn, hn, Reply.leaves, forall_prop_of_true h₂]
    by_cases happ : (w₁.tape 2).reply.applied = true
    · simp [happ, Node.setReplicaMode, Node.setRevisionCounter, eq_comm]
    · simp [happ, Node.setReplicaMode, eq_comm]

theorem verifyReportedWO_iff (hw : Mirrored w.c) {b current : ReplicaEntry}
    (hcur : w.c.getCurrentAndRWReplica a = .ok (current, b)) (hwo : ⟨a, .wo⟩ ∈ w.c.replicas)
    (hrw : ⟨b.address, .rw⟩ ∈ w.c.replicas) :
    Verified chainOf checkpointOf a w ((verifyReportedWO chainOf checkpointOf a b.address).run w) ↔
      ((∀ i < 3, (w.tape i).reply.err = none) → Contained (chainOf b.address) (checkpointOf a) →
        CutsInRange (chainOf b.address) (chainOf a) (checkpointOf a) ∧
        (PartsEqual (chainOf b.address) (chainOf a) (checkpointOf a) →
          (w.tape 3).reply.err = none → (w.nodes b.address).revisionCounter ≠ -1 →
          if (w.tape 4).reply.err = none ∧ (w.tape 5).reply.err = none then
            SameEnd (chainOf b.address).elems (chainOf a).elems (checkpointOf a)
          else PromotionKept (w.tape 4).reply (w.tape 5).reply
            (w.nodes b.address).revisionCounter (w.nodes a))) := by
  -- a call that has no answer ends with its error
  have hno : ∀ {i : ℕ} {e : String}, i < 3 → (w.tape i).reply.err = some e →
      ¬∀ i < 3, (w.tape i).reply.err = none := fun hi he h => nomatch (h _ hi).symm.trans he
  unfold verifyReportedWO
  rw [run_bind (query_run b.address (fun _ => _) w)]
  cases h₀ : (w.tape 0).reply.err with
  | some e =>
    exact iff_of_true (verified_of_unchanged hw rfl rfl) fun h => (hno (by omega) h₀ h).elim
  | none =>
  dsimp only
  rw [run_bind (query_run a (fun _ => _) _)]
  cases h₁ : (w.advance.tape 0).reply.err with
  | some e =>
    exact iff_of_true (verified_of_unchanged hw rfl rfl) fun h =>
      (hno (i := 1) (by omega) h₁ h).elim
  | none =>
  dsimp only
  rw [run_bind (query_run a (fun _ => _) _)]
  cases h₂ : (w.advance.advance.tape 0).reply.err with
  | some e =>
    exact iff_of_true (verified_of_unchanged hw rfl rfl) fun h =>
      (hno (i := 2) (by omega) h₂ h).elim
  | none =>
  have hall : ∀ i < 3, (w.tape i).reply.err = none := by
    intro i hi
    match i with
    | 0 => exact h₀
    | 1 => exact h₁
    | 2 => exact h₂
  rw [forall_prop_of_true hall]
  dsimp only
  by_cases hcont : Contained (chainOf b.address) (checkpointOf a)
  swap
  · rw [compareChains_of_not_contained hcont]
    exact iff_of_true (verified_of_unchanged hw rfl rfl) fun h => (hcont h).elim
  rw [forall_prop_of_true hcont]
  by_cases hrange : CutsInRange (chainOf b.address) (chainOf a) (checkpointOf a)
  swap
  · rw [compareChains_of_not_inRange hcont hrange]
    exact iff_of_false (fun h => h.inRange rfl) fun h => hrange h.1
  rcases compareChains_of_inRange a b.address hcont hrange with
    ⟨heq, hcmp⟩ | ⟨hne, message, hcmp⟩
  · rw [hcmp]
    have hp := promote_spec (w := w.advance.advance.advance) hw hwo hrw _ rfl
    refine (verified_promote_iff hw hcur hwo hcont heq hp rfl rfl).trans ?_
    rw [and_iff_right hrange, forall_prop_of_true heq]
    exact and_imp
  · rw [hcmp]
    exact iff_of_true (verified_of_unchanged hw rfl rfl) ⟨hrange, fun h => (hne h).elim⟩

/-- In every state that a run reaches, for all chains and checkpoints that are reported and all
failures : the call keeps what is expected of it exactly if the cuts are in range, what is not
compared agrees, and a promotion that fails has not begun. -/
theorem verify_iff (name : String) (rf : ℕ) (nodes : Address → Node)
    (ls : List (Op × (ℕ → Moment))) (s : System)
    (h : Transition.run System.step (System.new name rf nodes) ls = some s)
    (chainOf : Address → Slice α) (checkpointOf : Address → Option α) (a : Address)
    (tape : ℕ → Moment) : Verified chainOf checkpointOf a (s.world.onTape tape)
        ((verifyReported chainOf checkpointOf a).run (s.world.onTape tape)) ↔
      VerifiesWell chainOf checkpointOf a (s.world.onTape tape) := by
  have hw : Mirrored (s.world.onTape tape).c := System.mirrored_of_run h
  generalize s.world.onTape tape = w at hw ⊢
  unfold verifyReported VerifiesWell
  rw [run_bind (x := get) (s := w) rfl]
  cases hcur : w.c.getCurrentAndRWReplica a with
  | error e => exact iff_of_true (verified_of_unchanged hw rfl rfl) nofun
  | ok rs =>
    obtain ⟨current, b⟩ := rs
    obtain ⟨hmem, rfl, hbmem, hbrw⟩ := getCurrentAndRWReplica_ok hcur
    dsimp only
    have honly : ∀ {P : ReplicaEntry → ReplicaEntry → Prop},
        (∀ c b', (Except.ok (current, b) : Except String _) = .ok (c, b') → P c b') ↔ P current b :=
      fun {P} => ⟨fun h => h _ _ rfl, fun h c b' heq => by
        obtain ⟨rfl, rfl⟩ := Prod.mk.inj (Except.ok.inj heq)
        exact h⟩
    rw [honly]
    cases hmode : current.mode with
    | rw => exact iff_of_true (verified_of_unchanged hw rfl rfl) nofun
    | err => exact iff_of_true (verified_of_unchanged hw rfl rfl) nofun
    | wo =>
      rw [forall_prop_of_true rfl]
      exact verifyReportedWO_iff hw hcur (hmode ▸ hmem) (hbrw ▸ hbmem)

end

/-- A replica that was added, and is to be verified. -/
def addOne : List Op :=
  rebuildOne.dropLast

/-- The replicas report equal chains, and the one that was added is promoted. -/
theorem verify_iff_addOne : ∃ s,
    Transition.run System.step (System.new "vol" 2 fun _ => .blank) (System.calmly addOne) =
      some s ∧
    let w := s.world.onTape fun _ => .calm
    let res := (verifyReported (fun _ => .exact ["head", "snap"]) (fun _ => none)
      "tcp://b:9502").run w
    ⟨"tcp://b:9502", .wo⟩ ∈ w.c.replicas ∧ ⟨"tcp://b:9502", .rw⟩ ∈ res.2.c.replicas ∧
      Verified (fun _ => .exact ["head", "snap"]) (fun _ => none) "tcp://b:9502" w res := by
  refine Transition.exists_of_any (p := fun s => ⟨"tcp://b:9502", .wo⟩ ∈ s.world.c.replicas ∧
    ⟨"tcp://b:9502", .rw⟩ ∈ ((verifyReported (fun _ => .exact ["head", "snap"]) (fun _ => none)
      "tcp://b:9502").run (s.world.onTape fun _ => .calm)).2.c.replicas) (by decide +kernel) ?_
  rintro s hs ⟨hwo, hrw⟩
  refine ⟨hwo, hrw, (verify_iff _ _ _ _ s hs _ _ _ _).2 ?_⟩
  intro current b _ _ _ _
  have hrange : CutsInRange (Slice.exact ["head", "snap"]) (Slice.exact ["head", "snap"]) none :=
    ⟨by decide, by decide⟩
  refine ⟨hrange, fun _ _ _ => ?_⟩
  rw [if_pos ⟨rfl, rfl⟩]
  exact (by decide : 2 ≤ max 1 2)

/-- The replica at `b` reports the chain `wo`, and all others report `rw`. -/
def reports (rw wo : List String) (x : Address) : Slice String :=
  if x = "tcp://b:9502" then .exact wo else .exact rw

/-- An empty chain is cut out of range, a chain that is longer than the one of the replica in mode
`RW` is promoted, and a promotion whose second request is refused leaves the replica in mode
`RW`. -/
theorem verify_breaks : ∃ s,
    Transition.run System.step (System.new "vol" 2 fun _ => .blank) (System.calmly addOne) =
      some s ∧
    let calm := s.world.onTape fun _ => .calm
    let refused := s.world.onTape (refuseAt 5)
    let verify (rw wo : List String) :=
    verifyReported (reports rw wo) (fun _ => none) "tcp://b:9502"
    ¬Verified (reports [] ["head"]) (fun _ => none) "tcp://b:9502" calm
      ((verify [] ["head"]).run calm) ∧
    ¬Verified (reports ["head", "s1"] ["head", "s1", "s0"]) (fun _ => none) "tcp://b:9502" calm
      ((verify ["head", "s1"] ["head", "s1", "s0"]).run calm) ∧
    ¬Verified (reports ["head", "s1"] ["head", "s1"]) (fun _ => none) "tcp://b:9502" refused
      ((verify ["head", "s1"] ["head", "s1"]).run refused) := by
  have hrun : (Transition.run System.step (System.new "vol" 2 fun _ => .blank)
      (System.calmly addOne)).map (fun s =>
        let calm := s.world.onTape fun _ => .calm
        let refused := s.world.onTape (refuseAt 5)
        let verify (rw wo : List String) :=
          verifyReported (reports rw wo) (fun _ => none) "tcp://b:9502"
        let half := (verify ["head", "s1"] ["head", "s1"]).run refused
        decide (((verify [] ["head"]).run calm).1 = none ∧
          ⟨"tcp://b:9502", .wo⟩ ∈ calm.c.replicas ∧
          ⟨"tcp://b:9502", .rw⟩ ∈
            ((verify ["head", "s1"] ["head", "s1", "s0"]).run calm).2.c.replicas ∧
          half.1 ≠ none ∧ half.1 ≠ some none ∧ (half.2.nodes "tcp://b:9502").mode = .rw ∧
          (refused.nodes "tcp://b:9502").mode ≠ .rw)) = some true := by
    decide +kernel
  obtain ⟨s, hs, hst⟩ := Option.map_eq_some_iff.1 hrun
  obtain ⟨hpanic, hwo, hrw, hne, hsome, hmode, hmode'⟩ := of_decide_eq_true hst
  refine ⟨s, hs, fun h => h.inRange hpanic, fun h => ?_, fun h => ?_⟩
  · obtain ⟨current, b, hcur, hmatch⟩ := h.promoted hwo hrw
    obtain ⟨-, -, hb, hbrw⟩ := getCurrentAndRWReplica_ok hcur
    have hbne : b.address ≠ "tcp://b:9502" := fun hb' =>
      not_wo_and_rw (System.mirrored_of_run hs) hwo (hb' ▸ hbrw ▸ hb)
    rw [reports, if_neg hbne] at hmatch
    exact absurd hmatch (by decide : ¬["s1"] = ["s1", "s0"])
  · obtain ⟨err, herr⟩ := Option.ne_none_iff_exists'.1 hne
    have hne' : err ≠ none := by
      rintro rfl
      exact hsome herr
    obtain ⟨e, rfl⟩ := Option.ne_none_iff_exists'.1 hne'
    exact hmode' ((h.kept e herr).2.1.symm.trans hmode)

end Jiva
