import Jiva.ReplicaRuns

/-!
# The chain as the parts of a replica show it

Along every run of operations the live chain, the files of the volume, its flags and the parent of
the head agree (`chain_consistent`). The map of children is exact at every name that was not removed
since the chain was last read, and there a disk in the middle of the chain can be removed.

At a removed name the map keeps the child that the disk had : `removeDiskNode` relinks the child,
but it does not delete the entry. If the name is used again, the new disk has two children, and its
removal is refused (`stale_children`).
-/

namespace Jiva

open Faults Links Transition

namespace Replica

section Removable

variable {r t : Replica} {k : ℕ} {as cs bs ss gone : List DiskName} {n child : DiskName}
    {d c : Disk}

theorem Coherent.children_eq (h : r.Coherent bs k (as ++ child :: n :: cs) gone) (hg : n ∉ gone) :
    r.diskChildrenMap (some n) = [child] := by
  have hmem := h.mem_children
  have hall : ∀ m ∈ r.diskChildrenMap (some n), m = child := by
    intro m hm
    obtain ⟨x, hx, hxp⟩ := h.inverse n hg m hm
    have hfol : Follows r.parentOf (some (.head k)) ((.head k :: as) ++ child :: n :: cs) :=
      h.follows
    refine hfol.pointer_unique ?_ (by simp) ?_ hfol.next_eq
    · exact (h.mem_of_parent hx hxp).1
    · unfold parentOf
      rw [hx, Option.map_some, hxp]
  have hnd := h.nodup (some n)
  generalize r.diskChildrenMap (some n) = l at hmem hall hnd ⊢
  match l with
  | [] => cases hmem
  | [a] => rw [hall a (by simp)]
  | a :: b :: l =>
    rw [hall a (by simp), hall b (by simp)] at hnd
    simp at hnd

/-- A disk of the chain that is neither the head nor the latest snapshot, with one child, can be
removed. -/
theorem Coherent.removable (h : r.Coherent bs k (as ++ child :: n :: cs) gone)
    (hmap : r.diskChildrenMap (some n) = [child]) (hmode : r.mode = .rw) :
    ∃ t, removeDiffDisk n .calm r = (.ok (), t) := by
  obtain ⟨d, hd, -⟩ := h.record (n := n) (by simp)
  obtain ⟨c, hc, -⟩ := h.record (n := child) (by simp)
  have hnot := h.not_mem_rest
  have hne : child ≠ n := by
    rintro rfl
    simp at hnot
  have hhead : r.info.head ≠ some n := by
    rw [h.head]
    rintro heq
    cases heq
    simp at hnot
  have hparent : r.info.parent ≠ some n := by
    rw [h.parent]
    intro heq
    have := List.mem_of_mem_head? (l := as ++ child :: cs) (a := n)
      (by cases as <;> simpa using heq)
    exact hnot (by simpa using Or.inr this)
  have hnode : ∃ u, removeDiskNode n .calm r = (.ok (), u) := by
    unfold removeDiskNode
    rw [calm_bind calm_get, hd]
    dsimp only
    rw [hmap]
    dsimp only
    have hup : updateParentDisk child n .calm (r.updateChildDisk n (some child)) =
        (.ok (), r.relinked n child d c) := by
      unfold updateParentDisk
      rw [calm_bind calm_get, show (r.updateChildDisk n (some child)).diskData child =
        some c from hc, show (r.updateChildDisk n (some child)).diskData n = some d from hd]
      dsimp only
      rw [calm_bind (calm_modify _), encodeDisk_calm (by exact h.readOnly)]
      rfl
    have hd' : (r.relinked n child d c).diskData n = some d :=
      (Function.update_of_ne hne.symm _ _).trans hd
    have hcount : ∃ v, updateParentRevisionCounter n .calm (r.relinked n child d c) =
        (.ok (), v) := by
      unfold updateParentRevisionCounter
      rw [calm_bind calm_get, hd']
      dsimp only
      cases hp : d.parent with
      | none => exact ⟨_, rfl⟩
      | some p =>
        have hpc := h.parent_mem hd hp
        obtain ⟨e, he, -⟩ := h.record (n := p) (by simp [hpc])
        have hpne : p ≠ child := by
          rintro rfl
          have hnd := h.follows.nodup
          rw [← List.cons_append, List.nodup_middle, List.nodup_cons] at hnd
          exact hnd.1 (by simp [hpc])
        have he' : (r.relinked n child d c).diskData p = some e :=
          (Function.update_of_ne hpne _ _).trans he
        dsimp only
        rw [he']
        dsimp only
        rw [calm_bind (calm_modify _), encodeDisk_calm (by exact h.readOnly)]
        exact ⟨_, rfl⟩
    obtain ⟨v, hv⟩ := hcount
    rw [calm_bind (calm_modify _), calm_bind (calm_handle hup _), calm_bind (calm_handle hv _),
      calm_bind (calm_modify _)]
    split_ifs
    · exact ⟨_, rfl⟩
    · exact ⟨_, rfl⟩
  obtain ⟨u, hu⟩ := hnode
  refine ⟨u.clear n, ?_⟩
  unfold removeDiffDisk
  rw [calm_bind calm_get, if_neg (by simp [hmode]), if_neg hhead, if_neg hparent,
    calm_bind hu, rmDisk_calm]

end Removable

end Replica

namespace Serving

/-- The parts of the replica agree on the chain, and at the names outside `gone` the map of children
is exact. -/
structure Consistent (gone : List DiskName) (s : Serving) : Prop where
  chain : ∃ chain, s.replica.liveChain (s.replica.maxChainLen + 1) = .ok chain ∧ chain.Nodup ∧
    chain.head? = s.replica.info.head ∧
    s.replica.activeDiskData = Replica.backingNames s.backing ++ chain.reverse
  files : s.replica.volume.files.length = s.replica.activeDiskData.length + 1
  flags : s.replica.volume.userCreatedSnap.length = s.replica.activeDiskData.length + 1
  parent : s.replica.info.parent = (s.replica.info.head.bind s.replica.diskData).bind Disk.parent
  children : ∀ p, p ∉ gone → ∀ n, n ∈ s.replica.diskChildrenMap (some p) ↔
    ∃ d, s.replica.diskData n = some d ∧ d.parent = some p
  removable : ∀ n d, n ∉ gone → s.replica.mode = .rw → s.replica.diskData n = some d →
    d.parent.isSome → s.replica.info.head ≠ some n → s.replica.info.parent ≠ some n →
    ∃ t, Replica.removeDiffDisk n .calm s.replica = (.ok (), t)

theorem Sound.consistent {gone : List DiskName} {s : Serving} (h : s.Sound gone) :
    s.Consistent gone := by
  obtain ⟨k, ss, g, h, hg⟩ := h
  constructor
  · refine ⟨.head k :: ss, ?_, h.follows.nodup, h.head.symm, h.active⟩
    unfold Replica.liveChain
    rw [h.head]
    exact Replica.chain_eq h.follows (by have := h.chainLen; omega)
  · exact h.files
  · exact h.flags
  · rw [h.parent, h.head]
    obtain ⟨-, m, hm, hf⟩ := h.follows
    obtain ⟨d, hd, rfl⟩ := Option.map_eq_some_iff.1 hm
    rw [Option.bind_some, hd]
    exact hf.start.symm
  · intro p hp n
    constructor
    · exact h.inverse p (fun hg' => hp (hg hg')) n
    · rintro ⟨d, hd, hdp⟩
      exact h.children n d p hd hdp
  · intro n d hn hmode hd hdp hhead hparent
    obtain ⟨p, hdp⟩ := Option.isSome_iff_exists.1 hdp
    have hmem := (h.mem_of_parent hd hdp).1
    have hss : n ∈ ss := by
      rcases List.mem_cons.1 hmem with rfl | hss
      · exact absurd h.head hhead
      · exact hss
    obtain ⟨as, child, cs, rfl⟩ := h.split hss hparent
    exact h.removable (h.children_eq fun hg' => hn (hg hg')) hmode

/-- Along every run the parts of the replica agree on the chain, and the map of children is exact at
every name that was not removed since the chain was last read. -/
theorem chain_consistent {s s' : Serving} {ops : List ReplicaOp} (h : s.IsNew)
    (hrun : run step s ops = some s') : s'.Consistent (gone ops) :=
  (run_sound h hrun).consistent

/-- Three snapshots, of which the middle one is removed. -/
def removedMiddle : List ReplicaOp :=
  [.setReplicaMode "RW", .snapshot "a" false "", .snapshot "b" false "", .snapshot "c" false "",
    .removeDiffDisk (.snap "b")]

/-- Once the chain is read again, everything is exact. -/
theorem chain_consistent_reloaded :
    ∃ s, run step fresh [.setReplicaMode "RW", .snapshot "a" true "",
    .snapshot "b" false "", .snapshot "c" false "", .prepareRemoveDisk (.snap "b"),
    .removeDiffDisk (.snap "b"), .reload true ""] = some s ∧ s.Consistent [] :=
  exists_of_any (p := fun _ => True) (by decide +kernel) fun _ hs _ =>
    chain_consistent fresh_isNew hs

/-- After the removal of `b`, its entry in the map of children is still there. A new snapshot `b`
then has two children, and it cannot be removed although it is in the middle of the chain. -/
theorem stale_children : ∃ s₁ s₂, run step fresh removedMiddle = some s₁ ∧
    .snap "c" ∈ s₁.replica.diskChildrenMap (some (.snap "b")) ∧
    s₁.replica.diskData (.snap "b") = none ∧ ¬s₁.Consistent [] ∧
    run step s₁ [.snapshot "b" false "", .snapshot "d" false ""] = some s₂ ∧
    s₂.replica.liveChain 11 = .ok [.head 5, .snap "d", .snap "b", .snap "c", .snap "a"] ∧
    s₂.replica.mode = .rw ∧ (Replica.removeDiffDisk (.snap "b") .calm s₂.replica).1 =
      .err "Cannot remove snapshot volume-snap-b.img with 2 children" := by
  have h₁ : (run step fresh removedMiddle).map (fun s =>
      (s.replica.diskChildrenMap (some (.snap "b")), s.replica.diskData (.snap "b"),
        (s.replica.diskData (.snap "c")).bind Disk.parent)) =
      some ([.snap "c"], none, some (.snap "a")) := by
    decide +kernel
  have h₂ : (run step fresh (removedMiddle ++ [.snapshot "b" false "", .snapshot "d" false ""])).map
      (fun s => (s.replica.liveChain 11, s.replica.mode,
        (Replica.removeDiffDisk (.snap "b") .calm s.replica).1)) =
      some (.ok [.head 5, .snap "d", .snap "b", .snap "c", .snap "a"], .rw,
        .err "Cannot remove snapshot volume-snap-b.img with 2 children") := by
    decide +kernel
  obtain ⟨s₁, hs₁, heq⟩ := Option.map_eq_some_iff.1 h₁
  rw [run_append, hs₁, Option.bind_some] at h₂
  obtain ⟨s₂, hs₂, heq₂⟩ := Option.map_eq_some_iff.1 h₂
  simp only [Prod.mk.injEq] at heq heq₂
  have hmem : .snap "c" ∈ s₁.replica.diskChildrenMap (some (.snap "b")) := by
    rw [heq.1]
    exact List.mem_singleton_self _
  refine ⟨s₁, s₂, hs₁, hmem, heq.2.1, fun hcon => ?_, hs₂, heq₂.1, heq₂.2.1, heq₂.2.2⟩
  obtain ⟨d, hd, hdp⟩ := (hcon.children (.snap "b") List.not_mem_nil (.snap "c")).1 hmem
  rw [hd, Option.bind_some, hdp] at heq
  exact absurd heq.2.2 (by decide)

end Serving

end Jiva
