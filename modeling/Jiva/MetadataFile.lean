import Jiva.Undisturbed

/-!
# Writing a metadata file

`encodeToFile` writes `volume.meta` and the metadata files of the disks : the object goes to a
temporary file, which is renamed over the file. Each of the five steps can fail. The source tests
the errors of the opening, the closing, the renaming and of `SyncDir`. The error of the encoder is
put in a new variable, and the test after it is on the error of the opening, which is `nil` there.
So the temporary file is renamed over the metadata file however much of the object could be written,
and `nil` is returned.

The encoding is a parameter (`Codec`). `allOrNothing_iff` says for every object, file and pattern of
failures when the write is all or nothing, and `encodeToFile_simulates` ties the steps to those of
`Replica.encodeToFile`, where a file whose `Encode` has failed is torn.
-/

namespace Jiva

open Faults Function

namespace MetadataFile

/-- A directory : what is in the file of each name. -/
abbrev Files := String → Option (List Byte)

/-- The encoder and the decoder of `encoding/json` for one type of objects. An object is read back,
and an empty file holds none. -/
structure Codec (α : Type) where
  encode : α → List Byte
  decode : List Byte → Except String α
  decode_encode : ∀ a, decode (encode a) = .ok a
  decode_nil : ∀ a, decode [] ≠ .ok a

/-- How the steps end. A failed `Encode` has written the first bytes of the object. -/
structure Outcome where
  openTmp : Option String
  encode : Option (ℕ × String)
  close : Option String
  rename : Option String
  syncDir : Option String
  deriving DecidableEq, Repr

/-- No step fails. -/
def Outcome.ok : Outcome :=
  ⟨none, none, none, none, none⟩

variable {α : Type}

/-- What `Encode` writes. -/
def Outcome.written (o : Outcome) (c : Codec α) (obj : α) : List Byte :=
  match o.encode with
  | none => c.encode obj
  | some (n, _) => (c.encode obj).take n

/-- The part of `encodeToFile` after `Encode`. -/
def closeAndRename (o : Outcome) (file : String) (fs : Files) : Files × Option String :=
  match o.close with
  | some e => (fs, some e)
  | none =>
    match o.rename with
    | some e => (fs, some e)
    | none => (update (update fs file (fs (file ++ ".tmp"))) (file ++ ".tmp") none, o.syncDir)

/-- `encodeToFile`. -/
def encodeToFile (c : Codec α) (readOnly : Bool) (obj : α) (file : String) (o : Outcome)
    (fs : Files) : Files × Option String :=
  if readOnly then (fs, none)
  else
    -- `f, err := os.OpenFile(...)`
    let err := o.openTmp
    match err with
    | some e => (fs, some e)
    | none =>
      -- `if lastErr := json.NewEncoder(f).Encode(&obj); err != nil`
      let fs := update fs (file ++ ".tmp") (some (o.written c obj))
      let lastErr := o.encode
      if err ≠ none then (fs, lastErr.map Prod.snd)
      else closeAndRename o file fs

/-- `unmarshalFile`. -/
def unmarshalFile (c : Codec α) (file : String) (fs : Files) : Except String α :=
  match fs file with
  | none => .error "no such file or directory"
  | some bytes => c.decode bytes

/-- If `encodeToFile` returns `nil`, the object is read back, and if the file has changed at all,
too. -/
def AllOrNothing (c : Codec α) (readOnly : Bool) (obj : α) (file : String) (o : Outcome)
    (fs : Files) : Prop :=
  ((encodeToFile c readOnly obj file o fs).2 = none →
    unmarshalFile c file (encodeToFile c readOnly obj file o fs).1 = .ok obj) ∧
  ((encodeToFile c readOnly obj file o fs).1 file ≠ fs file →
    unmarshalFile c file (encodeToFile c readOnly obj file o fs).1 = .ok obj)

/-- The rename is reached and takes effect. -/
def Outcome.Replaces (o : Outcome) : Prop :=
  o.openTmp = none ∧ o.close = none ∧ o.rename = none

instance (o : Outcome) : Decidable o.Replaces :=
  inferInstanceAs (Decidable (_ ∧ _))

theorem tmp_ne (file : String) : file ≠ file ++ ".tmp" := by
  intro h
  have := congrArg String.length h
  rw [String.length_append] at this
  exact absurd this (by simp)

/-! ## What happens to the file -/

section

variable (c : Codec α) (obj : α) (file : String) {o : Outcome} (fs : Files)

/-- A read-only replica writes nothing. -/
theorem encodeToFile_readOnly : encodeToFile c true obj file o fs = (fs, none) :=
  rfl

/-- If the rename is reached, the file holds what was written, and the error is that of
`SyncDir`. -/
theorem encodeToFile_replaces (h : o.Replaces) :
    (encodeToFile c false obj file o fs).1 file = some (o.written c obj) ∧
    (encodeToFile c false obj file o fs).2 = o.syncDir := by
  obtain ⟨hopen, hclose, hrename⟩ := h
  unfold encodeToFile closeAndRename
  rw [if_neg Bool.false_ne_true]
  simp only [hopen, hclose, hrename]
  rw [if_neg (by simp)]
  refine ⟨?_, rfl⟩
  dsimp only
  rw [update_of_ne (tmp_ne file), update_self, update_self]

/-- If it is not reached, the file is as it was, and there is an error. -/
theorem encodeToFile_keeps (h : ¬o.Replaces) :
    (encodeToFile c false obj file o fs).1 file = fs file ∧
    (encodeToFile c false obj file o fs).2 ≠ none := by
  unfold Outcome.Replaces at h
  unfold encodeToFile closeAndRename
  rw [if_neg Bool.false_ne_true]
  cases hopen : o.openTmp with
  | some e => exact ⟨rfl, nofun⟩
  | none =>
    dsimp only
    rw [if_neg (by simp)]
    cases hclose : o.close with
    | some e => exact ⟨update_of_ne (tmp_ne file) _ _, nofun⟩
    | none =>
      cases hrename : o.rename with
      | some e => exact ⟨update_of_ne (tmp_ne file) _ _, nofun⟩
      | none => exact absurd ⟨hopen, hclose, hrename⟩ h

end

/-! ## When the write is all or nothing -/

/-- The write of `obj` does no harm : the replica is read-only and the file holds the object
already, or a step that is tested fails before the rename, or the bytes that were written are read
back as the object. A failed `SyncDir` does not matter if the file held these bytes already. -/
def Harmless (c : Codec α) (readOnly : Bool) (obj : α) (file : String) (o : Outcome)
    (fs : Files) : Prop :=
  if readOnly then unmarshalFile c file fs = .ok obj
  else o.Replaces →
    c.decode (o.written c obj) = .ok obj ∨ (o.syncDir ≠ none ∧ fs file = some (o.written c obj))

/-- Every object, every file and every pattern of failures. -/
theorem allOrNothing_iff (c : Codec α) (readOnly : Bool) (obj : α) (file : String) (o : Outcome)
    (fs : Files) : AllOrNothing c readOnly obj file o fs ↔ Harmless c readOnly obj file o fs := by
  unfold AllOrNothing Harmless
  cases readOnly with
  | true =>
    rw [encodeToFile_readOnly, if_pos rfl]
    exact ⟨fun h => h.1 rfl, fun h => ⟨fun _ => h, fun hne => absurd rfl hne⟩⟩
  | false =>
    rw [if_neg Bool.false_ne_true]
    by_cases hrep : o.Replaces
    · obtain ⟨hfile, herr⟩ := encodeToFile_replaces c obj file fs hrep
      have hread : unmarshalFile c file (encodeToFile c false obj file o fs).1 =
          c.decode (o.written c obj) := by
        unfold unmarshalFile
        rw [hfile]
      rw [hread, hfile, herr]
      constructor
      · rintro ⟨hnil, hchanged⟩ -
        by_cases hsync : o.syncDir = none
        · exact .inl (hnil hsync)
        · by_cases hold : some (o.written c obj) = fs file
          · exact .inr ⟨hsync, hold.symm⟩
          · exact .inl (hchanged hold)
      · intro h
        rcases h hrep with hdec | ⟨hsync, hold⟩
        · exact ⟨fun _ => hdec, fun _ => hdec⟩
        · exact ⟨fun hnone => absurd hnone hsync, fun hne => absurd hold.symm hne⟩
    · obtain ⟨hfile, herr⟩ := encodeToFile_keeps c obj file fs hrep
      exact ⟨fun _ h => absurd h hrep, fun _ => ⟨fun h => absurd h herr, fun h => absurd hfile h⟩⟩

/-- The disk is full : nothing of the object can be written. -/
def noSpace : Outcome :=
  { Outcome.ok with encode := some (0, "no space left on device") }

/-- The file held an object. A write to it finds the disk full and returns `nil`, and then nothing
can be read from the file. -/
theorem encodeToFile_noSpace (c : Codec α) (old obj : α) :
    let fs : Files := fun n => if n = "volume.meta" then some (c.encode old) else none
    unmarshalFile c "volume.meta" fs = .ok old ∧
    (encodeToFile c false obj "volume.meta" noSpace fs).2 = none ∧
      (∀ a, unmarshalFile c "volume.meta" (encodeToFile c false obj "volume.meta" noSpace fs).1 ≠
        .ok a) ∧
      ¬AllOrNothing c false obj "volume.meta" noSpace fs := by
  intro fs
  have hrep : noSpace.Replaces := ⟨rfl, rfl, rfl⟩
  obtain ⟨hfile, herr⟩ := encodeToFile_replaces c obj "volume.meta" fs hrep
  have hread : ∀ a,
      unmarshalFile c "volume.meta" (encodeToFile c false obj "volume.meta" noSpace fs).1 ≠
        .ok a := by
    intro a
    unfold unmarshalFile
    rw [hfile]
    exact c.decode_nil a
  exact ⟨c.decode_encode old, herr, hread, fun h => hread obj (h.1 herr)⟩

/-- A codec for objects of one byte. -/
def byteCodec : Codec Byte where
  encode a := [a]
  decode
    | [a] => .ok a
    | _ => .error "unexpected end of JSON input"
  decode_encode _ := rfl
  decode_nil _ := nofun

/-- The object `1` is to be replaced by `2`, and the disk is full. -/
theorem encodeError_replaces :
    let fs : Files := fun n => if n = "volume.meta" then some [1] else none
    unmarshalFile byteCodec "volume.meta" fs = .ok 1 ∧
      (encodeToFile byteCodec false 2 "volume.meta" noSpace fs).2 = none ∧
      (∀ a, unmarshalFile byteCodec "volume.meta"
        (encodeToFile byteCodec false 2 "volume.meta" noSpace fs).1 ≠ .ok a) ∧
      ¬AllOrNothing byteCodec false 2 "volume.meta" noSpace fs :=
  encodeToFile_noSpace byteCodec 1 2

/-! ## The steps of `Replica.encodeToFile` -/

section

variable {r : Replica} (h : r.readOnly = false) (w : Enc) (name : Option DiskName)
  (replace : Replica → Replica)
include h

/-- The error of a failed step of `Replica.encodeToFile`. The file is replaced before `SyncDir`. -/
theorem encodeToFile_failAt (p : EncodePart) :
    Replica.encodeToFile w name replace (.failAt (.encode w p)) r =
      (.err ioError, if p = .sync then replace r else r) := by
  unfold Replica.encodeToFile
  rw [bind_of_ok get_apply, if_neg (by simp [h])]
  cases p with
  | openTmp => exact bind_of_err (call_failed ..) _
  | rename =>
    rw [bind_of_ok (call_failAt (by simp) ..), bind_of_ok (query_failAt (by simp) ..)]
    exact bind_of_err (call_failed ..) _
  | sync =>
    rw [bind_of_ok (call_failAt (by simp) ..), bind_of_ok (query_failAt (by simp) ..),
      bind_of_ok (call_failAt (by simp) ..)]
    exact call_failed ..

/-- A failed `Encode` is not reported, and the file is torn. -/
theorem encodeToFile_encoder :
    Replica.encodeToFile w name replace (.failAt (.encoder w)) r = (.ok (), r.tear name) := by
  unfold Replica.encodeToFile
  rw [bind_of_ok get_apply, if_neg (by simp [h]), bind_of_ok (call_failAt (by simp) ..),
    bind_of_ok (if_pos rfl), bind_of_ok (call_failAt (by simp) ..), call_failAt (by simp)]
  rfl

end

/-- The failure that `Replica.encodeToFile` meets. There the closing of the temporary file counts as
its opening. -/
def Outcome.fate (o : Outcome) (w : Enc) : Fate Site :=
  if o.openTmp ≠ none ∨ o.close ≠ none then .failAt (.encode w .openTmp)
  else if o.rename ≠ none then .failAt (.encode w .rename)
  else if o.syncDir ≠ none then .failAt (.encode w .sync)
  else if o.encode ≠ none then .failAt (.encoder w)
  else .calm

/-- No step but `Encode` fails. -/
def Outcome.EncodeOnly (o : Outcome) : Prop :=
  o.Replaces ∧ o.syncDir = none

/-- `Replica.encodeToFile` replaces the file when the rename is reached. -/
theorem encodeToFile_fate {r : Replica} (h : r.readOnly = false) {o : Outcome}
    (henc : o.encode = none ∨ o.EncodeOnly) (w : Enc) (name : Option DiskName)
    (replace : Replica → Replica) :
    ((Replica.encodeToFile w name replace (o.fate w) r).1 = .ok () ↔ o.EncodeOnly) ∧
      (Replica.encodeToFile w name replace (o.fate w) r).2 =
        if o.Replaces then if o.encode = none then replace r else r.tear name else r := by
  unfold Outcome.fate
  by_cases hopen : o.openTmp ≠ none ∨ o.close ≠ none
  · have hrep : ¬o.Replaces := fun hr => hopen.elim (· hr.1) (· hr.2.1)
    rw [if_pos hopen, encodeToFile_failAt h, if_neg hrep]
    exact ⟨⟨nofun, fun hc => absurd hc.1 hrep⟩, rfl⟩
  rw [if_neg hopen]
  by_cases hrename : o.rename ≠ none
  · have hrep : ¬o.Replaces := fun hr => hrename hr.2.2
    rw [if_pos hrename, encodeToFile_failAt h, if_neg hrep]
    exact ⟨⟨nofun, fun hc => absurd hc.1 hrep⟩, rfl⟩
  rw [if_neg hrename]
  have hrep : o.Replaces := by
    unfold Outcome.Replaces
    tauto
  rw [if_pos hrep]
  by_cases hsync : o.syncDir ≠ none
  · rw [if_pos hsync, encodeToFile_failAt h, if_pos (henc.resolve_right fun hc => hsync hc.2)]
    exact ⟨⟨nofun, fun hc => absurd hc.2 hsync⟩, rfl⟩
  rw [if_neg hsync]
  have honly : o.EncodeOnly := ⟨hrep, not_not.1 hsync⟩
  by_cases hencode : o.encode = none
  · rw [if_neg (not_not.2 hencode), if_pos hencode, Replica.encodeToFile_calm h]
    exact ⟨⟨fun _ => honly, fun _ => rfl⟩, rfl⟩
  · rw [if_pos hencode, if_neg hencode, encodeToFile_encoder h]
    exact ⟨⟨fun _ => honly, fun _ => rfl⟩, rfl⟩

/-- If no other step fails when `Encode` does, `Replica.encodeToFile` returns an error when
`encodeToFile` does. It puts the new object in place when the file is read back as the new object,
and the file is torn when a failed `Encode` has written it. -/
theorem encodeToFile_simulates (c : Codec α) (obj : α) (file : String) {o : Outcome} (fs : Files)
    (henc : o.encode = none ∨ o.EncodeOnly) (w : Enc) (name : Option DiskName)
    (replace : Replica → Replica) (r : Replica) :
    let x := encodeToFile c r.readOnly obj file o fs
    let y := Replica.encodeToFile w name replace (o.fate w) r
    (y.1 = .ok () ↔ x.2 = none) ∧ ((y.2 = replace r ∧ unmarshalFile c file x.1 = .ok obj) ∨
      (y.2 = r ∧ x.1 file = fs file) ∨
      (o.encode ≠ none ∧ y.2 = r.tear name ∧ x.1 file = some (o.written c obj))) := by
  intro x y
  cases hro : r.readOnly with
  | true =>
    have hx : x = (fs, none) := by rw [← encodeToFile_readOnly c obj file fs (o := o), ← hro]
    have hy : y = (.ok (), r) := by
      show Replica.encodeToFile w name replace (o.fate w) r = _
      unfold Replica.encodeToFile
      rw [bind_of_ok get_apply, if_pos hro]
      rfl
    rw [hx, hy]
    exact ⟨⟨fun _ => rfl, fun _ => rfl⟩, .inr (.inl ⟨rfl, rfl⟩)⟩
  | false =>
    have hx : x = encodeToFile c false obj file o fs := by rw [← hro]
    obtain ⟨hexit, hstate⟩ := encodeToFile_fate hro henc w name replace
    by_cases hrep : o.Replaces
    · obtain ⟨hfile, herr⟩ := encodeToFile_replaces c obj file fs hrep
      rw [if_pos hrep] at hstate
      rw [hx]
      refine ⟨hexit.trans ?_, ?_⟩
      · rw [herr]
        exact ⟨fun h => h.2, fun h => ⟨hrep, h⟩⟩
      · by_cases hencode : o.encode = none
        · rw [if_pos hencode] at hstate
          refine .inl ⟨hstate, ?_⟩
          unfold unmarshalFile
          rw [hfile]
          unfold Outcome.written
          rw [hencode]
          exact c.decode_encode obj
        · rw [if_neg hencode] at hstate
          exact .inr (.inr ⟨hencode, hstate, hfile⟩)
    · obtain ⟨hfile, herr⟩ := encodeToFile_keeps c obj file fs hrep
      rw [if_neg hrep] at hstate
      rw [hx]
      exact ⟨hexit.trans ⟨fun h => absurd h.1 hrep, fun h => absurd h herr⟩,
        .inr (.inl ⟨hstate, hfile⟩)⟩

/-- The disk is full, and `volume.meta` is torn. -/
theorem encodeToFile_simulates_noSpace :
    let x := encodeToFile byteCodec false 2 "volume.meta" noSpace fun _ => some [1]
    let r := Replica.empty 2
    let y := Replica.encodeToFile .volume none (Replica.setVolumeMeta r.info)
      (noSpace.fate .volume) r
    (y.1 = .ok () ↔ x.2 = none) ∧
      ((y.2 = r.setVolumeMeta r.info ∧ unmarshalFile byteCodec "volume.meta" x.1 = .ok 2) ∨
      (y.2 = r ∧ x.1 "volume.meta" = some [1]) ∨
      (noSpace.encode ≠ none ∧ y.2 = r.tear none ∧ x.1 "volume.meta" = some [])) :=
  encodeToFile_simulates byteCodec 2 "volume.meta" _ (.inr ⟨⟨rfl, rfl, rfl⟩,
    rfl⟩) .volume none _ (Replica.empty 2)

end MetadataFile

end Jiva
