import Mathlib.Tactic.Ring

/-!
# Little-endian words and framed streams

A word of `width` bytes is written least significant byte first (`Word.put`) and read back from the
front of a stream (`Word.get`). A stream that is too short gives `eof` if nothing is left of it and
`unexpectedEOF` if something is.

A reader and a writer of a type are `Framed` if the reader gives back what was written, whatever
follows it in the stream, and whatever it accepts is what the writer writes. Nothing else is asked
of them. Then no proper initial part of an encoding is accepted (`Framed.truncated`), a stream of
encodings is read back in order (`Framed.readMany_flatMap`), a stream that is cut off gives the
complete encodings and an error (`Framed.readMany_cut`), and any stream is the encodings of what was
read from it, followed by what was left over (`Framed.flatMap_readMany`).
-/

namespace Framing

/-- The `n` little-endian bytes of a number. -/
def bytesLE : ℕ → ℕ → List UInt8
  | 0, _ => []
  | n + 1, x => UInt8.ofNat (x % 256) :: bytesLE n (x / 256)

/-- The number that is written as these bytes. -/
def ofBytesLE : List UInt8 → ℕ
  | [] => 0
  | b :: bs => b.toNat + 256 * ofBytesLE bs

@[simp] theorem length_bytesLE : ∀ n x, (bytesLE n x).length = n
  | 0, _ => rfl
  | n + 1, x => by simp [bytesLE, length_bytesLE n]

theorem ofBytesLE_bytesLE : ∀ {n x : ℕ}, x < 256 ^ n → ofBytesLE (bytesLE n x) = x
  | 0, x, h => by
    rw [bytesLE, ofBytesLE]
    omega
  | n + 1, x, h => by
    have hx : x / 256 < 256 ^ n := Nat.div_lt_of_lt_mul (by rwa [Nat.pow_succ'] at h)
    rw [bytesLE, ofBytesLE, ofBytesLE_bytesLE hx, UInt8.toNat_ofNat']
    omega

theorem ofBytesLE_lt : ∀ bs, ofBytesLE bs < 256 ^ bs.length
  | [] => by simp [ofBytesLE]
  | b :: bs => by
    have hb : b.toNat < 256 := b.toNat_lt
    have hbs := ofBytesLE_lt bs
    rw [ofBytesLE, List.length_cons, Nat.pow_succ]
    omega

theorem bytesLE_ofBytesLE : ∀ bs, bytesLE bs.length (ofBytesLE bs) = bs
  | [] => rfl
  | b :: bs => by
    have hb : b.toNat < 256 := b.toNat_lt
    have hlow : ofBytesLE (b :: bs) % 256 = b.toNat := by rw [ofBytesLE]; omega
    have hhigh : ofBytesLE (b :: bs) / 256 = ofBytesLE bs := by rw [ofBytesLE]; omega
    rw [List.length_cons, bytesLE, hlow, hhigh, bytesLE_ofBytesLE bs, UInt8.ofNat_toNat]

/-! ## Reading from a stream -/

/-- How a read at the end of a stream fails. -/
inductive Short where
  | eof
  | unexpectedEOF
  deriving DecidableEq, Repr

/-- Exactly `n` bytes from the front of the stream. -/
def readFull (n : ℕ) (bs : List UInt8) : Except Short (List UInt8 × List UInt8) :=
  if n ≤ bs.length then .ok (bs.take n, bs.drop n)
  else if bs = [] then .error .eof else .error .unexpectedEOF

theorem readFull_append {n : ℕ} {buf : List UInt8} (h : buf.length = n) (rest : List UInt8) :
    readFull n (buf ++ rest) = .ok (buf, rest) := by
  subst h
  simp [readFull]

theorem readFull_eq_ok {n : ℕ} {bs buf rest : List UInt8} (h : readFull n bs = .ok (buf, rest)) :
    bs = buf ++ rest ∧ buf.length = n := by
  unfold readFull at h
  split at h
  · rename_i hn
    obtain ⟨rfl, rfl⟩ := Prod.mk.inj (Except.ok.inj h)
    exact ⟨(List.take_append_drop n bs).symm, List.length_take_of_le hn⟩
  · split at h <;> cases h

theorem bind_eq_ok {ε α β : Type} {x : Except ε α} {f : α → Except ε β} {b : β}
    (h : x >>= f = .ok b) : ∃ a, x = .ok a ∧ f a = .ok b := by
  cases x with
  | error e => cases h
  | ok a => exact ⟨a, rfl, h⟩

/-- A type whose values are the numbers of `width` bytes. -/
structure Word (α : Type) where
  width : ℕ
  toNat : α → ℕ
  ofNat : ℕ → α
  toNat_lt : ∀ a, toNat a < 256 ^ width
  ofNat_toNat : ∀ a, ofNat (toNat a) = a
  toNat_ofNat : ∀ n, n < 256 ^ width → toNat (ofNat n) = n

namespace Word

variable {α : Type} (w : Word α)

def put (a : α) : List UInt8 :=
  bytesLE w.width (w.toNat a)

def get (bs : List UInt8) : Except Short (α × List UInt8) := do
  let (buf, rest) ← readFull w.width bs
  return (w.ofNat (ofBytesLE buf), rest)

@[simp] theorem length_put (a : α) : (w.put a).length = w.width :=
  length_bytesLE _ _

theorem get_put (a : α) (rest : List UInt8) : w.get (w.put a ++ rest) = .ok (a, rest) := by
  simp only [get, readFull_append (w.length_put a), bind, Except.bind, pure, Except.pure]
  rw [put, ofBytesLE_bytesLE (w.toNat_lt a), w.ofNat_toNat]

theorem eq_of_get {bs rest : List UInt8} {a : α} (h : w.get bs = .ok (a, rest)) :
    bs = w.put a ++ rest := by
  obtain ⟨⟨buf, left⟩, hread, hret⟩ := bind_eq_ok h
  obtain ⟨rfl, rfl⟩ := Prod.mk.inj (Except.ok.inj hret)
  obtain ⟨rfl, hlen⟩ := readFull_eq_ok hread
  have hlt : ofBytesLE buf < 256 ^ w.width := hlen ▸ ofBytesLE_lt buf
  rw [put, w.toNat_ofNat _ hlt, ← hlen, bytesLE_ofBytesLE]

end Word

def uint16 : Word UInt16 where
  width := 2
  toNat := UInt16.toNat
  ofNat := UInt16.ofNat
  toNat_lt := UInt16.toNat_lt
  ofNat_toNat _ := UInt16.ofNat_toNat
  toNat_ofNat _ := UInt16.toNat_ofNat_of_lt'

def uint32 : Word UInt32 where
  width := 4
  toNat := UInt32.toNat
  ofNat := UInt32.ofNat
  toNat_lt := UInt32.toNat_lt
  ofNat_toNat _ := UInt32.ofNat_toNat
  toNat_ofNat _ := UInt32.toNat_ofNat_of_lt'

/-- Signed words are written as the unsigned ones with the same bits. -/
def int64 : Word Int64 where
  width := 8
  toNat x := x.toUInt64.toNat
  ofNat n := (UInt64.ofNat n).toInt64
  toNat_lt x := x.toUInt64.toNat_lt
  ofNat_toNat x := by simp
  toNat_ofNat n h := by simpa using UInt64.toNat_ofNat_of_lt' h

/-! ## Framed streams -/

section

variable {α ε : Type*} {read : List UInt8 → Except ε (α × List UInt8)} {write : α → List UInt8}
  {P : α → Prop}

/-- The reader inverts the writer on the values with `P`, and accepts nothing but what the writer
writes for such a value. -/
structure Framed (read : List UInt8 → Except ε (α × List UInt8)) (write : α → List UInt8)
    (P : α → Prop) : Prop where
  read_write : ∀ a rest, P a → read (write a ++ rest) = .ok (a, rest)
  eq_write : ∀ bs a rest, read bs = .ok (a, rest) → bs = write a ++ rest ∧ P a

/-- Up to `n` reads from the stream : the values read, the error that ended the reads if one did,
and the stream from the end of the last value on. -/
def readMany (read : List UInt8 → Except ε (α × List UInt8)) :
    ℕ → List UInt8 → List α × Option ε × List UInt8
  | 0, bs => ([], none, bs)
  | n + 1, bs =>
    match read bs with
    | .error e => ([], some e, bs)
    | .ok (a, rest) => (a :: (readMany read n rest).1, (readMany read n rest).2)

theorem readMany_succ_error {bs : List UInt8} {e : ε} (h : read bs = .error e) (n : ℕ) :
    readMany read (n + 1) bs = ([], some e, bs) := by
  simp only [readMany, h]

namespace Framed

/-- No proper initial part of an encoding is accepted. -/
theorem truncated (h : Framed read write P) {a : α} (ha : P a) {cut : List UInt8}
    (hcut : cut <+: write a) (hne : cut ≠ write a) : ∃ e, read cut = .error e := by
  cases hread : read cut with
  | error e => exact ⟨e, rfl⟩
  | ok p =>
    obtain ⟨b, rest⟩ := p
    obtain ⟨hb, hPb⟩ := h.eq_write _ _ _ hread
    obtain ⟨tail, htail⟩ := hcut
    -- the encoding of `a` starts with the one of `b`, and both are read from its front
    have hread_a : read (write a) = .ok (a, []) := by simpa using h.read_write a [] ha
    have hread_b : read (write a) = .ok (b, rest ++ tail) := by
      rw [← htail, hb, List.append_assoc]
      exact h.read_write b _ hPb
    rw [hread_a] at hread_b
    obtain ⟨-, hnil⟩ := Prod.mk.inj (Except.ok.inj hread_b)
    obtain ⟨-, rfl⟩ := List.append_eq_nil_iff.1 hnil.symm
    exact (hne (by simpa using htail)).elim

/-- Reading goes through the encodings at the front of a stream one by one. -/
theorem readMany_append (h : Framed read write P) (rest : List UInt8) (n : ℕ) :
    ∀ as : List α, (∀ a ∈ as, P a) → readMany read (as.length + n) (as.flatMap write ++ rest) =
      (as ++ (readMany read n rest).1, (readMany read n rest).2)
  | [], _ => by simp
  | a :: as, hP => by
    have hread : read ((a :: as).flatMap write ++ rest) = .ok (a, as.flatMap write ++ rest) := by
      rw [List.flatMap_cons, List.append_assoc]
      exact h.read_write a _ (hP a List.mem_cons_self)
    have hrest := readMany_append h rest n as fun b hb => hP b (List.mem_cons_of_mem _ hb)
    rw [List.length_cons, Nat.add_right_comm, readMany, hread]
    simp only [hrest, List.cons_append]

/-- Any stream is the encodings of what is read from it, and what is left. -/
theorem flatMap_readMany (h : Framed read write P) : ∀ (n : ℕ) (bs : List UInt8),
    (readMany read n bs).1.flatMap write ++ (readMany read n bs).2.2 = bs ∧
    ∀ a ∈ (readMany read n bs).1, P a
  | 0, bs => by simp [readMany]
  | n + 1, bs => by
    cases hread : read bs with
    | error e => simp [readMany_succ_error hread]
    | ok p =>
      obtain ⟨a, rest⟩ := p
      obtain ⟨rfl, ha⟩ := h.eq_write _ _ _ hread
      obtain ⟨hbs, hP⟩ := flatMap_readMany h n rest
      rw [readMany, hread]
      refine ⟨by simp only [List.flatMap_cons, List.append_assoc, hbs], ?_⟩
      simpa using ⟨ha, hP⟩

end Framed

/-- An initial part of a stream of pieces is a number of whole pieces and an initial part of the
next, which is not the whole of it. -/
theorem exists_cut {cut : List UInt8} : ∀ {as : List α}, cut <+: as.flatMap write →
    cut ≠ as.flatMap write → ∃ whole a later piece, as = whole ++ a :: later ∧
      cut = whole.flatMap write ++ piece ∧ piece <+: write a ∧ piece ≠ write a
  | [], hcut, hne => (hne (List.prefix_nil.1 hcut)).elim
  | a :: as, hcut, hne => by
    rw [List.flatMap_cons] at hcut hne
    by_cases hfirst : write a <+: cut
    · obtain ⟨piece, rfl⟩ := hfirst
      have hpiece : piece ≠ as.flatMap write := fun h => hne (by rw [h])
      obtain ⟨whole, b, later, last, rfl, hlast, hin⟩ :=
        exists_cut ((List.prefix_append_right_inj _).1 hcut) hpiece
      exact ⟨a :: whole, b, later, last, rfl, by simp [hlast], hin⟩
    · have hor := List.prefix_or_prefix_of_prefix hcut (List.prefix_append _ _)
      exact ⟨[], a, as, cut, rfl, rfl, hor.resolve_right hfirst,
        fun h => hfirst (h ▸ List.prefix_rfl)⟩

/-- A stream of encodings that is cut off gives the encodings that are complete, and then an
error. -/
theorem Framed.readMany_cut (h : Framed read write P) {as : List α}
    (hP : ∀ a ∈ as, P a) {cut : List UInt8} (hcut : cut <+: as.flatMap write)
    (hne : cut ≠ as.flatMap write) : ∃ whole a later piece e, as = whole ++ a :: later ∧
    cut = whole.flatMap write ++ piece ∧ piece <+: write a ∧ piece ≠ write a ∧ ∀ n,
    whole.length < n → readMany read n cut = (whole, some e, piece) := by
  obtain ⟨whole, a, later, piece, rfl, rfl, hpiece, hpne⟩ := exists_cut hcut hne
  obtain ⟨e, he⟩ := h.truncated (hP a (by simp)) hpiece hpne
  refine ⟨whole, a, later, piece, e, rfl, rfl, hpiece, hpne, fun n hn => ?_⟩
  obtain ⟨k, rfl⟩ := Nat.exists_eq_add_of_lt hn
  rw [Nat.add_assoc, h.readMany_append piece (k + 1) whole fun b hb => hP b (by simp [hb]),
    readMany_succ_error he, List.append_nil]

/-- A whole stream of encodings is read back in order, up to the error at its end. -/
theorem Framed.readMany_flatMap (h : Framed read write P) {e : ε} (hnil : read [] = .error e)
    {as : List α} (hP : ∀ a ∈ as, P a) {n : ℕ} (hn : as.length < n) :
    readMany read n (as.flatMap write) = (as, some e, []) := by
  obtain ⟨k, rfl⟩ := Nat.exists_eq_add_of_lt hn
  have hall := h.readMany_append [] (k + 1) as hP
  rwa [List.append_nil, readMany_succ_error hnil, List.append_nil, ← Nat.add_assoc] at hall

end

end Framing
