import Jiva.Preload
import Mathlib.Data.List.Sort
import Mathlib.Data.List.TakeWhile

/-!
# The enumeration of the extents of a file

`findExtents` sends the numbers of the sectors of a file that have data to `preload`, which takes
them as indices of the location table. It asks the file system for at most 1024 extents at a time,
from the end of the last extent on, up to the end of the table, and stops at an empty answer or at
the extent with the flag for the last one.

The file system is a parameter that keeps the contract of `Fiemap` (`Answers`) : it returns the
first extents, as a whole, that intersect the range. An extent that starts inside the table and ends
behind it is sent as a whole. Its last sectors are behind the table, and the next query has a length
that wraps around (`sub64`).

The loop always ends (`findExtents_terminates`), and what it sent are the sectors of the first
extents. If no extent crosses the end of the table, these are the sectors with data, in order, and
no length wraps (`enumerates_iff`).
-/

namespace Jiva

namespace Extents

/-- An extent of a file. `last` is the flag `FIEMAP_EXTENT_LAST`. -/
structure Extent where
  logical : ℕ
  length : ℕ
  last : Bool
  deriving DecidableEq, Repr

/-- Subtraction of two `uint64`. -/
def sub64 (a b : ℕ) : ℕ :=
  (2 ^ 64 + a - b) % 2 ^ 64

/-- `Fiemap` on a file, for the extents that intersect a range. -/
abbrev Query := (start len count : ℕ) → Except String (List Extent)

/-- The first `count` of the extents `es` that intersect the range. -/
def firstHits (es : List Extent) (start len count : ℕ) : List Extent :=
  (es.filter fun e => e.logical < start + len ∧ start < e.logical + e.length).take count

/-- The contract of `Fiemap` for a file with the extents `es`. -/
def Answers (query : Query) (es : List Extent) : Prop :=
  ∀ start len count, query start len count = .ok (firstHits es start len count)

/-- The variables of `findExtents`, with what went over the channel and the ranges that were asked
for. -/
structure Gen where
  start : ℕ
  sent : List ℕ
  queries : List (ℕ × ℕ)
  err : Option String
  deriving DecidableEq, Repr

/-- The next range is asked for. -/
def Gen.ask (stop : ℕ) (g : Gen) : Gen :=
  { g with queries := g.queries ++ [(g.start, sub64 stop g.start)] }

/-- The sectors of an extent, as the innermost loop counts them. -/
def sectors (e : Extent) : List ℕ :=
  (List.range ((e.length + (defaultSectorSize - 1)) / defaultSectorSize)).map fun i =>
    (e.logical + i * defaultSectorSize) / defaultSectorSize

/-- The loop over the extents of one answer. The flag tells whether it returned. -/
def sendAll : List Extent → Gen → Gen × Bool
  | [], g => (g, false)
  | e :: es, g =>
    let g := { g with start := (e.logical + e.length) % 2 ^ 64, sent := g.sent ++ sectors e }
    if e.last then (g, true) else sendAll es g

/-- The outer loop. -/
def findExtentsLoop (query : Query) (stop : ℕ) : ℕ → Gen → Option Gen
  | 0, _ => none
  | n + 1, g =>
    match query g.start (sub64 stop g.start) 1024 with
    | .error e => some { g.ask stop with err := some e }
    | .ok [] => some (g.ask stop)
    | .ok (e :: es) =>
      match sendAll (e :: es) (g.ask stop) with
      | (g, true) => some g
      | (g, false) => findExtentsLoop query stop n g

/-- `findExtents`. The backing file has the descriptor `0`. -/
def findExtents (fd : ℕ) (query : Query) (locationLen fuel : ℕ) : Option Gen :=
  if fd = 0 then some ⟨0, [], [], none⟩
  else findExtentsLoop query (locationLen * defaultSectorSize % 2 ^ 64) fuel ⟨0, [], [], none⟩

/-- The extents of a file : in increasing order, of whole sectors, with the flag at the last one.
Offsets in a file are below `2 ^ 63`. -/
structure WellFormed (es : List Extent) : Prop where
  sorted : es.Pairwise fun e e' => e.logical + e.length ≤ e'.logical
  length_pos : ∀ e ∈ es, 0 < e.length
  aligned : ∀ e ∈ es, e.logical % defaultSectorSize = 0 ∧ e.length % defaultSectorSize = 0
  flagged : ∀ as e bs, es = as ++ e :: bs → (e.last = true ↔ bs = [])
  bounded : ∀ e ∈ es, e.logical + e.length < 2 ^ 63

/-- Some extent holds the sector. -/
def allocated (es : List Extent) (s : ℕ) : Bool :=
  es.any fun e => e.logical ≤ s * defaultSectorSize ∧ s * defaultSectorSize < e.logical + e.length

/-! ## The sectors of an extent -/

theorem mem_sectors {e : Extent}
    (ha : e.logical % defaultSectorSize = 0 ∧ e.length % defaultSectorSize = 0)
    {s : ℕ} : s ∈ sectors e ↔
    e.logical ≤ s * defaultSectorSize ∧ s * defaultSectorSize < e.logical + e.length := by
  unfold sectors
  rw [List.mem_map]
  rw [defaultSectorSize_eq] at *
  constructor
  · rintro ⟨i, hi, rfl⟩
    rw [List.mem_range] at hi
    omega
  · intro h
    exact ⟨s - e.logical / 4096, List.mem_range.2 (by omega), by omega⟩

theorem sectors_pairwise {e : Extent} : (sectors e).Pairwise (· < ·) := by
  unfold sectors
  rw [List.pairwise_map]
  refine List.pairwise_lt_range.imp fun {i j} hij => ?_
  rw [defaultSectorSize_eq]
  omega

theorem mem_flatMap_sectors {es : List Extent} (h : ∀ e ∈ es, e.logical % defaultSectorSize = 0 ∧
    e.length % defaultSectorSize = 0) {s : ℕ} : s ∈ es.flatMap sectors ↔ allocated es s = true := by
  unfold allocated
  rw [List.mem_flatMap, List.any_eq_true]
  constructor
  · rintro ⟨e, he, hs⟩
    exact ⟨e, he, by simpa using (mem_sectors (h e he)).1 hs⟩
  · rintro ⟨e, he, hs⟩
    exact ⟨e, he, (mem_sectors (h e he)).2 (by simpa using hs)⟩

/-- The sectors of all extents are in increasing order. -/
theorem flatMap_sectors_pairwise {es : List Extent}
    (hs : es.Pairwise fun e e' => e.logical + e.length ≤ e'.logical)
    (ha : ∀ e ∈ es, e.logical % defaultSectorSize = 0 ∧ e.length % defaultSectorSize = 0) :
    (es.flatMap sectors).Pairwise (· < ·) := by
  induction es with
  | nil => exact List.Pairwise.nil
  | cons e es ih =>
    obtain ⟨hhead, htail⟩ := List.pairwise_cons.1 hs
    rw [List.flatMap_cons]
    refine List.pairwise_append.2 ⟨sectors_pairwise,
      ih htail fun x hx => ha x (List.mem_cons_of_mem e hx), fun a hea b hb => ?_⟩
    obtain ⟨x, hx, hxb⟩ := List.mem_flatMap.1 hb
    have h1 := (mem_sectors (ha e (List.mem_cons_self ..))).1 hea
    have h2 := (mem_sectors (ha x (List.mem_cons_of_mem e hx))).1 hxb
    have h3 := hhead x hx
    rw [defaultSectorSize_eq] at h1 h2
    omega

/-! ## One answer of the file system -/

/-- The extents `as` are sent, and the next query is for the extents `bs`. -/
structure At (es as bs : List Extent) (start : ℕ) : Prop where
  split : es = as ++ bs
  done : ∀ e ∈ as, e.logical + e.length ≤ start
  todo : ∀ e ∈ bs, start ≤ e.logical
  fits : start < 2 ^ 63

section

variable {query : Query} {es as bs : List Extent} {start : ℕ}

/-- On a sorted list, the extents before an offset are a first part of the list. -/
theorem filter_logical_lt {bs : List Extent}
    (hs : bs.Pairwise fun e e' => e.logical + e.length ≤ e'.logical)
    (x : ℕ) : bs.filter (fun e => e.logical < x) = bs.takeWhile fun e => e.logical < x := by
  induction bs with
  | nil => rfl
  | cons e bs ih =>
    obtain ⟨hhead, htail⟩ := List.pairwise_cons.1 hs
    by_cases hx : e.logical < x
    · rw [List.filter_cons_of_pos (by simpa using hx),
        List.takeWhile_cons_of_pos (by simpa using hx), ih htail]
    · rw [List.filter_cons_of_neg (by simpa using hx),
        List.takeWhile_cons_of_neg (by simpa using hx), List.filter_eq_nil_iff]
      intro e' he'
      have := hhead e' he'
      simp only [decide_eq_true_eq]
      omega

/-- The answer is a first part of the extents that are to be sent. -/
theorem At.firstHits_eq (h : At es as bs start) (hw : WellFormed es) (len count : ℕ) :
    firstHits es start len count = (bs.takeWhile fun e => e.logical < start + len).take count := by
  have hsorted := hw.sorted
  rw [h.split, List.pairwise_append] at hsorted
  unfold firstHits
  rw [h.split, List.filter_append]
  have has : as.filter (fun e => e.logical < start + len ∧ start < e.logical + e.length) = [] := by
    rw [List.filter_eq_nil_iff]
    intro e he
    have := h.done e he
    simp only [decide_eq_true_eq]
    omega
  have hbs : bs.filter (fun e => e.logical < start + len ∧ start < e.logical + e.length) =
      bs.filter fun e => e.logical < start + len := by
    refine List.filter_congr fun e he => ?_
    have h1 := h.todo e he
    have h2 := hw.length_pos e (by rw [h.split]; exact List.mem_append_right as he)
    simp only [decide_eq_decide]
    omega
  rw [has, hbs, List.nil_append, filter_logical_lt hsorted.2.1]

/-- An answer is sent as a whole, and the loop returns if it ends with the last extent of the
file. -/
theorem sendAll_concat (e : Extent) : ∀ (cs : List Extent) (g : Gen), (∀ c ∈ cs, c.last = false) →
    sendAll (cs ++ [e]) g = ({ g with
      start := (e.logical + e.length) % 2 ^ 64
      sent := g.sent ++ (cs ++ [e]).flatMap sectors }, e.last)
  | [], g, _ => by
    cases he : e.last <;> simp [sendAll, he]
  | c :: cs, g, h => by
    have hc : c.last = false := h c (List.mem_cons_self ..)
    rw [List.cons_append, sendAll, hc, if_neg Bool.false_ne_true,
      sendAll_concat e cs _ fun x hx => h x (List.mem_cons_of_mem c hx)]
    simp only [List.flatMap_cons, List.append_assoc]

/-- After an answer that is not the end of the file, the next query starts at the end of its last
extent. -/
theorem At.advance {cs ds : List Extent} {e : Extent} (h : At es as (cs ++ e :: ds) start)
    (hw : WellFormed es) : At es (as ++ (cs ++ [e])) ds (e.logical + e.length) := by
  have hsplit : es = (as ++ cs) ++ e :: ds := by
    rw [h.split, List.append_assoc]
  have hsorted := hw.sorted
  rw [hsplit, List.pairwise_append, List.pairwise_cons] at hsorted
  obtain ⟨-, ⟨hlater, -⟩, hbefore⟩ := hsorted
  refine ⟨by rw [hsplit]; simp, fun x hx => ?_, hlater, hw.bounded e (by rw [hsplit]; simp)⟩
  rw [← List.append_assoc, List.mem_append, List.mem_singleton] at hx
  rcases hx with hx | rfl
  · have := hbefore x hx e (List.mem_cons_self ..)
    omega
  · exact le_rfl

/-- An answer that is empty, or a first part of what is to be sent. -/
theorem answer_cases (bs : List Extent) (x : ℕ) :
    ((bs.takeWhile fun e => e.logical < x).take 1024 = [] ∧ ∀ e, bs.head? = some e →
      x ≤ e.logical) ∨ ∃ cs e ds, (bs.takeWhile fun e => e.logical < x).take 1024 = cs ++ [e] ∧
      bs = cs ++ e :: ds ∧
        ∀ c ∈ cs ++ [e], c.logical < x := by
  rcases List.eq_nil_or_concat ((bs.takeWhile fun e => e.logical < x).take 1024) with hnil | ⟨cs, e,
    hcs⟩
  · refine .inl ⟨hnil, fun e he => ?_⟩
    obtain ⟨bs', rfl⟩ : ∃ bs', bs = e :: bs' := ⟨bs.tail, (List.cons_head?_tail he).symm⟩
    by_contra hlt
    rw [List.takeWhile_cons_of_pos (by simpa using hlt)] at hnil
    cases hnil
  · rw [List.concat_eq_append] at hcs
    obtain ⟨ds, hds⟩ : List.IsPrefix (cs ++ [e]) bs := by
      rw [← hcs]
      exact (List.take_prefix ..).trans (List.takeWhile_prefix _)
    refine .inr ⟨cs, e, ds, hcs, by rw [← hds]; simp, fun c hc => ?_⟩
    rw [← hcs] at hc
    simpa using List.mem_takeWhile_imp (List.mem_of_mem_take hc)

theorem sub64_of_le {a b : ℕ} (h : b ≤ a) (ha : a < 2 ^ 64) : b + sub64 a b = a := by
  unfold sub64
  rw [show 2 ^ 64 + a - b = (a - b) + 2 ^ 64 by omega, Nat.add_mod_right,
    Nat.mod_eq_of_lt (by omega)]
  omega

/-- No extent starts before the offset and ends after it. -/
def NoneCrosses (es : List Extent) (stop : ℕ) : Prop :=
  ∀ e ∈ es, e.logical < stop → e.logical + e.length ≤ stop

/-- What is true of a run whose extents do not cross the end of the table : the extents that are
sent are before it, and no query has wrapped around. -/
structure Inside (as : List Extent) (stop : ℕ) (g : Gen) : Prop where
  before : ∀ e ∈ as, e.logical < stop
  start_le : g.start ≤ stop
  queries : ∀ q ∈ g.queries, q.1 + q.2 = stop

/-- The loop, when the extents `as` are sent : it ends, and it has sent a first part of the extents.
If no extent crosses the end of the table, those that it did not send start behind it. -/
theorem findExtentsLoop_spec (hq : Answers query es) (hw : WellFormed es) (stop : ℕ) :
    ∀ (n : ℕ) {g : Gen} {as bs : List Extent}, At es as bs g.start → bs.length < n →
    g.sent = as.flatMap sectors → g.err = none →
      ∃ g' as' bs', findExtentsLoop query stop n g = some g' ∧ es = as' ++ bs' ∧
        g'.sent = as'.flatMap sectors ∧ g'.err = none ∧
        (NoneCrosses es stop → stop < 2 ^ 64 → Inside as stop g →
          Inside as' stop g' ∧ ∀ e ∈ bs', stop ≤ e.logical)
  | 0, _, _, _, _, hn, _, _ => absurd hn (Nat.not_lt_zero _)
  | n + 1, g, as, bs, hat, hn, hsent, herr => by
    -- the query itself
    have hquery : stop < 2 ^ 64 → Inside as stop g → Inside as stop (g.ask stop) := by
      intro hstop hin
      refine ⟨hin.before, hin.start_le, fun q hq => ?_⟩
      rcases List.mem_append.1 hq with hq | hq
      · exact hin.queries q hq
      · rw [List.mem_singleton.1 hq]
        exact sub64_of_le hin.start_le hstop
    rw [findExtentsLoop, hq, hat.firstHits_eq hw]
    rcases answer_cases bs (g.start + sub64 stop g.start) with ⟨hnil, hhead⟩ |
      ⟨cs, e, ds, hcs, rfl, hlt⟩
    · rw [hnil]
      refine ⟨_, as, bs, rfl, hat.split, hsent, herr,
        fun _ hstop hin => ⟨hquery hstop hin, fun e he => ?_⟩⟩
      -- the first extent that is left is behind the end, and so are the others
      obtain ⟨e₀, bs', rfl⟩ := List.exists_cons_of_ne_nil (List.ne_nil_of_mem he)
      have h0 : stop ≤ e₀.logical := by
        have := hhead e₀ rfl
        rwa [sub64_of_le hin.start_le hstop] at this
      rcases List.mem_cons.1 he with rfl | he'
      · exact h0
      · have hsorted := hw.sorted
        rw [hat.split, List.pairwise_append, List.pairwise_cons] at hsorted
        have := hsorted.2.1.1 e he'
        omega
    · rw [hcs]
      have hnext := hat.advance hw
      have hflag : ∀ x xs ys, cs ++ [e] = xs ++ x :: ys → (x.last = true ↔ ys ++ ds = []) := by
        intro x xs ys hx
        refine hw.flagged (as ++ xs) x (ys ++ ds) ?_
        rw [hnext.split, hx]
        simp
      have hplain : ∀ c ∈ cs, c.last = false := by
        intro c hc
        obtain ⟨xs, ys, rfl⟩ := List.append_of_mem hc
        have := hflag c xs (ys ++ [e]) (by simp)
        simpa using this
      have hlast : e.last = true ↔ ds = [] := by
        simpa using hflag e cs [] rfl
      have hinside : NoneCrosses es stop → stop < 2 ^ 64 → Inside as stop g →
          Inside (as ++ (cs ++ [e])) stop { g.ask stop with
            start := e.logical + e.length
            sent := (g.ask stop).sent ++ (cs ++ [e]).flatMap sectors } := by
        intro hnone hstop hin
        rw [sub64_of_le hin.start_le hstop] at hlt
        refine ⟨fun x hx => ?_, ?_, (hquery hstop hin).queries⟩
        · rcases List.mem_append.1 hx with hx | hx
          · exact hin.before x hx
          · exact hlt x hx
        · exact hnone e (by rw [hnext.split]; simp) (hlt e (by simp))
      have hsends : (g.ask stop).sent ++ (cs ++ [e]).flatMap sectors =
          (as ++ (cs ++ [e])).flatMap sectors := by
        rw [show (g.ask stop).sent = _ from hsent]
        exact List.flatMap_append.symm
      obtain ⟨c₀, cs', hc₀⟩ := List.exists_cons_of_ne_nil (show cs ++ [e] ≠ [] by simp)
      rw [hc₀]
      dsimp only
      rw [← hc₀, sendAll_concat e cs _ hplain, Nat.mod_eq_of_lt (hnext.fits.trans (by decide))]
      cases hl : e.last with
      | true =>
        obtain rfl := hlast.1 hl
        exact ⟨_, as ++ (cs ++ [e]), [], rfl, hnext.split, hsends, herr, fun hnone hstop hin =>
          ⟨hinside hnone hstop hin, nofun⟩⟩
      | false =>
        dsimp only
        obtain ⟨g', as', bs', hrun, hsplit, hsent', herr', hgood⟩ :=
          findExtentsLoop_spec hq hw stop n
          (g := { g.ask stop with
            start := e.logical + e.length
            sent := (g.ask stop).sent ++ (cs ++ [e]).flatMap sectors }) hnext
          (by simp only [List.length_append, List.length_cons] at hn; omega) hsends herr
        exact ⟨g', as', bs', hrun, hsplit, hsent', herr', fun hnone hstop hin =>
          hgood hnone hstop (hinside hnone hstop hin)⟩

/-- More fuel does not change a run that has ended. -/
theorem findExtentsLoop_mono (query : Query) (stop : ℕ) :
    ∀ {n m : ℕ} {g g' : Gen}, n ≤ m → findExtentsLoop query stop n g = some g' →
      findExtentsLoop query stop m g = some g'
  | 0, _, _, _, _, h => nomatch h
  | n + 1, m, g, g', hnm, h => by
    obtain ⟨m, rfl⟩ : ∃ k, m = k + 1 := ⟨m - 1, by omega⟩
    rw [findExtentsLoop] at h ⊢
    cases hq : query g.start (sub64 stop g.start) 1024 with
    | error e =>
      rw [hq] at h
      exact h
    | ok es =>
      rw [hq] at h
      cases es with
      | nil => exact h
      | cons e es =>
        rcases hs : sendAll (e :: es) (g.ask stop) with ⟨g₁, _ | _⟩
        · simp only [hs] at h ⊢
          exact findExtentsLoop_mono query stop (by omega) h
        · simp only [hs] at h ⊢
          exact h

end

/-! ## The whole enumeration -/

section

variable {query : Query} {es : List Extent} {fd locationLen : ℕ}

/-- `findExtents` ends, with the sectors of a first part of the extents. -/
theorem findExtents_terminates (hq : Answers query es) (hw : WellFormed es) (hfd : fd ≠ 0)
    (hlen : locationLen * defaultSectorSize < 2 ^ 64) :
    ∃ g as bs, (∀ fuel, es.length < fuel → findExtents fd query locationLen fuel = some g) ∧
      es = as ++ bs ∧ g.sent = as.flatMap sectors ∧ g.err = none ∧
      (NoneCrosses es (locationLen * defaultSectorSize) →
        Inside as (locationLen * defaultSectorSize) g ∧
          ∀ e ∈ bs, locationLen * defaultSectorSize ≤ e.logical) := by
  obtain ⟨g, as, bs, hrun, hsplit, hsent, herr, hgood⟩ := findExtentsLoop_spec hq hw
    (locationLen * defaultSectorSize) (es.length + 1) (g := ⟨0, [], [], none⟩)
    ⟨(List.nil_append es).symm, nofun, fun _ _ => Nat.zero_le _, by decide⟩
    (Nat.lt_succ_self _) rfl rfl
  refine ⟨g, as, bs, fun fuel hfuel => ?_, hsplit, hsent, herr, fun hnone => hgood hnone hlen
    ⟨nofun, Nat.zero_le _, nofun⟩⟩
  unfold findExtents
  rw [if_neg hfd, Nat.mod_eq_of_lt hlen]
  exact findExtentsLoop_mono _ _ hfuel hrun

/-- `findExtents` ends without an error, it has sent the sectors of the table that have data, each
once and in increasing order, and no length that it computed has wrapped around. -/
def Enumerates (fd : ℕ) (query : Query) (es : List Extent) (locationLen : ℕ) : Prop :=
  ∃ g, (∀ fuel, es.length < fuel → findExtents fd query locationLen fuel = some g) ∧
    g.err = none ∧ g.sent = (List.range locationLen).filter (allocated es) ∧
    ∀ q ∈ g.queries, q.1 + q.2 = locationLen * defaultSectorSize

/-- Two extents that hold the same sector are one. -/
theorem WellFormed.unique (hw : WellFormed es) {e e' : Extent} (he : e ∈ es) (he' : e' ∈ es) {x : ℕ}
    (hx : e.logical ≤ x ∧ x < e.logical + e.length)
    (hx' : e'.logical ≤ x ∧ x < e'.logical + e'.length) : e = e' := by
  by_contra hne
  obtain ⟨as, bs, rfl⟩ := List.append_of_mem he
  have hsorted := hw.sorted
  rw [List.pairwise_append, List.pairwise_cons] at hsorted
  obtain ⟨-, ⟨hlater, -⟩, hbefore⟩ := hsorted
  rcases List.mem_append.1 he' with h | h
  · have := hbefore e' h e (List.mem_cons_self ..)
    omega
  · rcases List.mem_cons.1 h with h | h
    · exact hne h.symm
    · have := hlater e' h
      omega

/-- The sectors of the extents that start before the end of the table are those of the table that
have data. -/
theorem sectors_inside (hw : WellFormed es) {as bs : List Extent} (hsplit : es = as ++ bs)
    (hnone : NoneCrosses es (locationLen * defaultSectorSize))
    (hbefore : ∀ e ∈ as, e.logical < locationLen * defaultSectorSize)
    (hbehind : ∀ e ∈ bs, locationLen * defaultSectorSize ≤ e.logical) :
    as.flatMap sectors = (List.range locationLen).filter (allocated es) := by
  have hsorted := hw.sorted
  rw [hsplit, List.pairwise_append] at hsorted
  have haligned : ∀ e ∈ as, e.logical % defaultSectorSize = 0 ∧ e.length % defaultSectorSize = 0 :=
    fun e he =>
    hw.aligned e (by rw [hsplit]; exact List.mem_append_left bs he)
  refine List.Pairwise.eq_of_mem_iff (flatMap_sectors_pairwise hsorted.1 haligned)
    (List.pairwise_lt_range.filter _) fun s => ?_
  rw [mem_flatMap_sectors haligned, List.mem_filter, List.mem_range]
  unfold allocated
  rw [List.any_eq_true, List.any_eq_true]
  constructor
  · rintro ⟨e, he, hs⟩
    have hes : e ∈ es := by
      rw [hsplit]
      exact List.mem_append_left bs he
    refine ⟨?_, e, hes, hs⟩
    have h1 := hnone e hes (hbefore e he)
    have h2 : s * defaultSectorSize < e.logical + e.length := (by simpa using hs : _ ∧ _).2
    exact Nat.lt_of_mul_lt_mul_right (h2.trans_le h1)
  · rintro ⟨hlt, e, he, hs⟩
    refine ⟨e, ?_, hs⟩
    rw [hsplit] at he
    rcases List.mem_append.1 he with he | he
    · exact he
    · have h1 := hbehind e he
      have h2 : e.logical ≤ s * defaultSectorSize := (by simpa using hs : _ ∧ _).1
      have h3 : s * defaultSectorSize < locationLen * defaultSectorSize :=
        Nat.mul_lt_mul_of_pos_right hlt (by rw [defaultSectorSize_eq]; decide)
      omega

/-- The enumeration of a file of the replica is right if and only if no extent of the file crosses
the end of the table. -/
theorem enumerates_iff (hq : Answers query es) (hw : WellFormed es) (hfd : fd ≠ 0)
    (hlen : locationLen * defaultSectorSize < 2 ^ 64) :
    Enumerates fd query es locationLen ↔ NoneCrosses es (locationLen * defaultSectorSize) := by
  obtain ⟨g, as, bs, hrun, hsplit, hsent, herr, hgood⟩ := findExtents_terminates hq hw hfd hlen
  constructor
  · rintro ⟨g', hrun', -, hsent', -⟩ e he hlt
    obtain rfl : g = g' :=
      Option.some.inj ((hrun _ (Nat.lt_succ_self _)).symm.trans (hrun' _ (Nat.lt_succ_self _)))
    by_contra hcross
    have ha := hw.aligned e he
    have hpos := hw.length_pos e he
    -- the first sector of the extent was sent, so the whole extent was, with the sector behind the
    -- table
    have hfirst : e.logical / defaultSectorSize ∈ g.sent := by
      rw [hsent', List.mem_filter, List.mem_range]
      unfold allocated
      rw [List.any_eq_true]
      refine ⟨?_, e, he, ?_⟩
      · rw [defaultSectorSize_eq] at *
        omega
      · simp only [decide_eq_true_eq]
        rw [defaultSectorSize_eq] at *
        omega
    rw [hsent] at hfirst
    obtain ⟨x, hx, hmem⟩ := List.mem_flatMap.1 hfirst
    have hxes : x ∈ es := by
      rw [hsplit]
      exact List.mem_append_left bs hx
    have hx' := (mem_sectors (hw.aligned x hxes)).1 hmem
    rw [Nat.div_mul_cancel (Nat.dvd_of_mod_eq_zero ha.1)] at hx'
    obtain rfl := hw.unique hxes he hx' ⟨le_rfl, by omega⟩
    have hlast : locationLen ∈ g.sent := by
      rw [hsent]
      exact List.mem_flatMap.2 ⟨x, hx, (mem_sectors ha).2 ⟨hlt.le, by omega⟩⟩
    rw [hsent', List.mem_filter, List.mem_range] at hlast
    exact absurd hlast.1 (Nat.lt_irrefl _)
  · intro hnone
    obtain ⟨hin, hbehind⟩ := hgood hnone
    exact ⟨g, hrun, herr, hsent.trans (sectors_inside hw hsplit hnone hin.before hbehind),
      hin.queries⟩

end

/-- A file with a hole after its second sector. -/
def twoExtents : List Extent :=
  [⟨0, 8192, false⟩, ⟨12288, 4096, true⟩]

theorem twoExtents_wellFormed : WellFormed twoExtents where
  sorted := by decide
  length_pos := by decide
  aligned := by decide
  flagged as e bs h := by
    unfold twoExtents at h
    rcases as with _ | ⟨a, _ | ⟨b, as⟩⟩
    · simp only [List.nil_append, List.cons.injEq] at h
      obtain ⟨rfl, rfl⟩ := h
      simp
    · simp only [List.cons_append, List.nil_append, List.cons.injEq] at h
      obtain ⟨-, rfl, rfl⟩ := h
      simp
    · simp at h
  bounded := by decide

/-- The file system for this file. -/
def fiemap : Query := fun start len count =>
  .ok (firstHits twoExtents start len count)

/-- A table of four sectors, which the file fills. -/
theorem enumerates_iff_full : Enumerates 3 fiemap twoExtents 4 ∧
    (List.range 4).filter (allocated twoExtents) = [0, 1, 3] := by
  refine ⟨(enumerates_iff (fun _ _ _ => rfl) twoExtents_wellFormed (by decide) ?_).2 ?_,
    by decide +kernel⟩
  · rw [defaultSectorSize_eq]
    decide
  · unfold NoneCrosses
    rw [defaultSectorSize_eq]
    decide

/-- A table of one sector, which ends in the middle of the first extent. The sectors behind the
table are sent, too, and the length of the second query has wrapped around. -/
theorem crossing_extent_sent : Answers fiemap twoExtents ∧ WellFormed twoExtents ∧
    findExtents 3 fiemap 1 3 =
      some ⟨16384, [0, 1, 3], [(0, 4096), (8192, 18446744073709547520)], none⟩ ∧
    ¬Enumerates 3 fiemap twoExtents 1 := by
  have hrun : findExtents 3 fiemap 1 3 =
      some ⟨16384, [0, 1, 3], [(0, 4096), (8192, 18446744073709547520)], none⟩ := by
    decide +kernel
  refine ⟨fun _ _ _ => rfl, twoExtents_wellFormed, hrun, fun ⟨g, hg, _, hsent, _⟩ => ?_⟩
  obtain rfl := Option.some.inj ((hg 3 (by decide)).symm.trans hrun)
  exact absurd hsent (by decide +kernel)

end Extents

end Jiva
