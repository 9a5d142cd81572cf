/-
# Writes to an object

An object can only be replaced as a whole, so a write reads it first and puts the new content
together.  It does so if the offset is positive or the write appends; an error of the read counts
as an empty object, what comes after the written bytes is dropped, a gap is not filled, and with
the offset zero nothing is appended to.

So a write preserves the rest of the object, whatever a lawful service answers, only if its read
does not fail, and it begins inside of the object and reaches its end, or appends with a positive
offset (`write_preserves_iff`).  Beside that there are only the contents of so many parts that
they cannot be counted, which are never stored.
-/
import Racfs.Lib.Offset
import Racfs.Lib.Overlay
import Racfs.S3Fs.Multipart

namespace Racfs.S3Fs

open S3FS

variable {s : Service} {objects : History → ObjectId → Option Bytes} {checks : Bool} {fs : S3FS}
  {h : History} {o : ObjectId} {path : PathBuf} {data : Bytes} {offset : Int64}
  {flags : WriteFlags}

/-! ### What a write is meant to do -/

/-- What a write is meant to leave. -/
def meant (content data : Bytes) (offset : Int64) (flags : WriteFlags) : Bytes :=
  if flags.containsAppend then content ++ data else overlay content (offset.toInt.toNat, data)

/-- A successful write leaves what it is meant to; and if a read that it makes fails, and not
because there is no object, it returns an error and leaves the object as it was. -/
structure Preserves (s : Service) (objects : History → ObjectId → Option Bytes) (checks : Bool)
    (fs : S3FS) (h : History) (path : PathBuf) (data : Bytes) (offset : Int64)
    (flags : WriteFlags) : Prop where
  kept : ∀ n, (fs.write s checks h path data offset flags).1 = .ok n →
    objects (fs.write s checks h path data offset flags).2 (fs.object path) =
      some (meant ((objects h (fs.object path)).getD []) data offset flags)
  refused : ∀ m, Call.getObject (fs.object path) none (.error (.other m)) ∈
      (fs.write s checks h path data offset flags).2.drop h.length →
    (∃ e, (fs.write s checks h path data offset flags).1 = .err e) ∧
      objects (fs.write s checks h path data offset flags).2 (fs.object path) =
        objects h (fs.object path)

/-- The write reads the object first. -/
def Reads (offset : Int64) (flags : WriteFlags) : Prop := offset > 0 ∨ flags.containsAppend = true

instance (offset : Int64) (flags : WriteFlags) : Decidable (Reads offset flags) :=
  inferInstanceAs (Decidable (_ ∨ _))

/-- The service does not answer with the object, but not because there is none. -/
def GetFails (s : Service) (h : History) (o : ObjectId) : Prop :=
  ∃ m, s.getObject h o none = .error (.other m)

/-- The write reads the object, and this fails. -/
def ReadFails (s : Service) (h : History) (o : ObjectId) (offset : Int64)
    (flags : WriteFlags) : Prop :=
  Reads offset flags ∧ GetFails s h o

/-- The new content is what it is meant to be. -/
def Fits (content data : Bytes) (offset : Int64) (flags : WriteFlags) : Prop :=
  if flags.containsAppend then 0 < offset ∨ content = []
  else offset.toInt.toNat ≤ content.length ∧ content.length ≤ offset.toInt.toNat + data.length

instance (content data : Bytes) (offset : Int64) (flags : WriteFlags) :
    Decidable (Fits content data offset flags) :=
  inferInstanceAs (Decidable (if flags.containsAppend then _ ∨ _ else _ ∧ _))

/-- What the write finds in the object. -/
def found (s : Service) (h : History) (o : ObjectId) (offset : Int64) (flags : WriteFlags) :
    Bytes :=
  if Reads offset flags then (s.getObject h o none).toOption.getD [] else []

/-- The calls after the read. -/
def afterRead (s : Service) (h : History) (o : ObjectId) (offset : Int64) (flags : WriteFlags) :
    History :=
  if Reads offset flags then h ++ [.getObject o none (s.getObject h o none)] else h

/-- The upload of the new content. -/
def S3FS.sent (s : Service) (checks : Bool) (fs : S3FS) (h : History) (path : PathBuf)
    (data : Bytes) (offset : Int64) (flags : WriteFlags) : Outcome Unit × History :=
  fs.upload s checks (afterRead s h (fs.object path) offset flags) (fs.object path)
    (finalData (found s h (fs.object path) offset flags) data offset flags)

/-- The new content is what is meant exactly if nothing is cut off and no gap is left. -/
lemma finalData_eq_meant_iff {content : Bytes} (hoffset : 0 ≤ offset) :
    finalData content data offset flags = meant content data offset flags ↔
      Fits content data offset flags := by
  have hcast := Offset.toNat_of_nonneg hoffset
  have hzero : ¬ offset > 0 → offset.toInt.toNat = 0 := by
    intro hle
    rw [Int.toNat_of_nonpos (Int64.le_iff_toInt_le.1 (Int64.not_lt.1 hle))]
  rw [finalData, meant, Fits, hcast]
  by_cases happend : flags.containsAppend = true
  · rw [if_pos happend, if_pos happend]
    by_cases hpos : offset > 0
    · rw [if_pos ⟨hpos, happend⟩]
      exact iff_of_true rfl (.inl hpos)
    · rw [if_neg fun hboth => hpos hboth.1, if_neg hpos, List.self_eq_append_left]
      exact ⟨.inr, fun hor => hor.resolve_left hpos⟩
  · rw [if_neg fun hboth => happend hboth.2, if_neg happend, if_neg happend,
      ← overlay_eq_take_append_iff (s := (offset.toInt.toNat, data)), eq_comm]
    by_cases hpos : offset > 0
    · have htake : (if offset.toInt.toNat < content.length then content.take offset.toInt.toNat
          else content) = content.take offset.toInt.toNat := by
        split_ifs with hlt
        · rfl
        · exact (List.take_of_length_le (Nat.not_lt.1 hlt)).symm
      rw [if_pos hpos, htake]
    · rw [if_neg hpos, hzero hpos]
      rfl

lemma finalData_nil (data : Bytes) (offset : Int64) (flags : WriteFlags) :
    finalData [] data offset flags = data := by
  rw [finalData]
  split_ifs <;> simp

/-! ### The read -/

/-- What the write reads, and that it makes one call for it. -/
lemma existingData_eq (hvalid : fs.validateConfig = .ok ()) (hkey : pathToKey path ≠ []) :
    fs.existingData s checks h path offset flags =
      (.ok (found s h (fs.object path) offset flags),
        afterRead s h (fs.object path) offset flags) := by
  rw [existingData, found, afterRead]
  change (if Reads offset flags then _ else _) = _
  by_cases hreads : Reads offset flags
  · have hrange : rangeFor checks 0 (-1) = .ok none := by
      rw [rangeFor, if_neg (by decide)]
    rw [if_pos hreads, if_pos hreads, if_pos hreads, S3FS.read, hvalid]
    simp only [if_neg hkey, hrange]
    cases s.getObject h (fs.object path) none <;> rfl
  · rw [if_neg hreads, if_neg hreads, if_neg hreads]

/-- A write is the upload of the new content. -/
lemma write_eq (hvalid : fs.validateConfig = .ok ()) (hkey : pathToKey path ≠ []) :
    fs.write s checks h path data offset flags =
      ((fs.sent s checks h path data offset flags).1.map fun _ => data.length.toUInt64,
        (fs.sent s checks h path data offset flags).2) := by
  rw [write, hvalid]
  simp only [if_neg hkey, existingData_eq hvalid hkey]
  rfl

lemma objects_afterRead (hs : s.Lawful objects) :
    objects (afterRead s h o offset flags) = objects h := by
  rw [afterRead]
  split_ifs
  · exact hs.getObject _ _ _ _
  · rfl

/-- If the read fails, nothing of the object is kept. -/
lemma finalData_of_readFails (hread : ReadFails s h o offset flags) :
    finalData (found s h o offset flags) data offset flags = data := by
  obtain ⟨hreads, m, hanswer⟩ := hread
  rw [found, if_pos hreads, hanswer]
  exact finalData_nil data offset flags

/-- Unless the read fails, the new content is put together from that of the object. -/
lemma finalData_found (hs : s.Lawful objects) (hread : ¬ ReadFails s h o offset flags) :
    finalData (found s h o offset flags) data offset flags =
      finalData ((objects h o).getD []) data offset flags := by
  by_cases hreads : Reads offset flags
  · rw [found, if_pos hreads]
    cases hanswer : s.getObject h o none with
    | ok body =>
      rw [hs.read_ok h o body hanswer]
      rfl
    | error e =>
      cases e with
      | noSuchKey m =>
        rw [hs.read_noSuchKey h o m hanswer]
        rfl
      | other m => exact absurd ⟨hreads, m, hanswer⟩ hread
  · obtain ⟨hpos, happend⟩ := not_or.1 hreads
    rw [finalData, finalData, if_neg fun h => hpos h.1, if_neg hpos, if_neg fun h => hpos h.1,
      if_neg hpos]

variable (s checks fs h path data offset flags) in
lemma sent_ends : UploadEnd s checks fs (afterRead s h (fs.object path) offset flags)
    (fs.object path) (finalData (found s h (fs.object path) offset flags) data offset flags)
    (fs.sent s checks h path data offset flags) :=
  upload_ends _ _ _ _ _ _

variable (s checks fs h path data offset flags) in
/-- A read that failed is among the calls of the write exactly if it fails. -/
lemma mem_sent_iff : (∃ m, Call.getObject (fs.object path) none (.error (.other m)) ∈
      (fs.sent s checks h path data offset flags).2.drop h.length) ↔
    ReadFails s h (fs.object path) offset flags := by
  obtain ⟨calls, hcalls, hno⟩ := (sent_ends s checks fs h path data offset flags).exists_calls
  have hnot : ∀ answer, Call.getObject (fs.object path) none answer ∉ calls := by
    intro answer hmem
    cases hno _ hmem
  rw [hcalls, afterRead, ReadFails, GetFails]
  by_cases hreads : Reads offset flags
  · rw [if_pos hreads, List.append_assoc, List.drop_left, and_iff_right hreads]
    refine exists_congr fun m => ?_
    rw [List.singleton_append, List.mem_cons, or_iff_left (hnot _), Call.getObject.injEq]
    simp only [true_and, eq_comm]
  · rw [if_neg hreads, List.drop_left]
    exact iff_of_false (fun ⟨m, hmem⟩ => hnot _ hmem) fun h => hreads h.1

/-! ### The write -/

variable (checks fs h path data offset flags) in
/-- What is there after the upload. -/
lemma objects_sent (hs : s.Lawful objects) :
    ((fs.sent s checks h path data offset flags).1 = .ok () →
      objects (fs.sent s checks h path data offset flags).2 (fs.object path) =
        some (finalData (found s h (fs.object path) offset flags) data offset flags)) ∧
    ((fs.sent s checks h path data offset flags).1 ≠ .ok () →
      objects (fs.sent s checks h path data offset flags).2 = objects h) := by
  obtain ⟨hstored, hunchanged⟩ := (sent_ends s checks fs h path data offset flags).objects_eq hs
  constructor
  · intro hok
    rw [hstored hok, Function.update_self]
  · intro hne
    rw [hunchanged hne, objects_afterRead hs]

lemma finalData_found_iff (hs : s.Lawful objects) (hoffset : 0 ≤ offset)
    (hread : ¬ ReadFails s h o offset flags) :
    finalData (found s h o offset flags) data offset flags =
        meant ((objects h o).getD []) data offset flags ↔
      Fits ((objects h o).getD []) data offset flags := by
  rw [finalData_found hs hread]
  exact finalData_eq_meant_iff hoffset

/-- When a write preserves the rest of the object, by how the upload ends. -/
lemma preserves_iff (hs : s.Lawful objects) (hvalid : fs.validateConfig = .ok ())
    (hkey : pathToKey path ≠ []) (hoffset : 0 ≤ offset) :
    Preserves s objects checks fs h path data offset flags ↔
      (ReadFails s h (fs.object path) offset flags →
        ∃ e, (fs.sent s checks h path data offset flags).1 = .err e) ∧
      ((fs.sent s checks h path data offset flags).1 = .ok () →
        ¬ ReadFails s h (fs.object path) offset flags →
          Fits ((objects h (fs.object path)).getD []) data offset flags) := by
  obtain ⟨hstored, hunchanged⟩ := objects_sent checks fs h path data offset flags hs
  have hwrite : fs.write s checks h path data offset flags = _ := write_eq hvalid hkey
  have hmem := mem_sent_iff s checks fs h path data offset flags
  have hiff := @finalData_found_iff s objects h (fs.object path) data offset flags hs hoffset
  generalize fs.sent s checks h path data offset flags = run at hstored hunchanged hwrite hmem ⊢
  obtain ⟨sent, h'⟩ := run
  dsimp only at hstored hunchanged hmem hwrite ⊢
  constructor
  · intro hp
    obtain ⟨hkept, hrefused⟩ := hp
    simp only [hwrite] at hkept hrefused
    constructor
    · intro hfail
      obtain ⟨m, hm⟩ := hmem.2 hfail
      obtain ⟨⟨e, he⟩, -⟩ := hrefused m hm
      cases sent with
      | err e' => exact ⟨e', rfl⟩
      | ok u => cases he
      | panic => cases he
    · rintro rfl hread
      exact (hiff hread).1 (Option.some.inj ((hstored rfl).symm.trans (hkept _ rfl)))
  · rintro ⟨hfails, hfits⟩
    constructor
    · intro n hn
      rw [hwrite] at hn ⊢
      cases sent with
      | ok u =>
        have hread : ¬ ReadFails s h (fs.object path) offset flags := by
          intro hfail
          obtain ⟨e, he⟩ := hfails hfail
          cases he
        rw [hstored rfl, (hiff hread).2 (hfits rfl hread)]
      | err e => cases hn
      | panic => cases hn
    · intro m hm
      rw [hwrite] at hm ⊢
      obtain ⟨e, rfl⟩ := hfails (hmem.1 ⟨m, hm⟩)
      exact ⟨⟨e, rfl⟩, congrFun (hunchanged nofun) _⟩

/-! ### Whatever is answered -/

/-- A service whose reads time out. -/
def Service.timesOut : Service :=
  { Service.store with getObject := fun _ _ _ => .error (.other "timeout") }

lemma Service.lawful_timesOut : Service.timesOut.Lawful stored :=
  { Service.lawful_store with read_ok := nofun, read_noSuchKey := nofun }

lemma Service.accepts_timesOut : Service.timesOut.Accepts :=
  { Service.accepts_store with }

lemma not_getFails_store (h : History) (o : ObjectId) : ¬ GetFails Service.store h o := by
  rintro ⟨m, hm⟩
  rw [Service.store] at hm
  cases hstored : stored h o <;> simp [hstored] at hm

/-- Calls after which an object has a content, or there is none. -/
def storing (o : ObjectId) (content : Option Bytes) : History :=
  content.toList.map fun body => .putObject o body (.ok ())

lemma stored_storing (o : ObjectId) (content : Option Bytes) :
    stored (storing o content) o = content := by
  cases content with
  | none => rfl
  | some body => exact Function.update_self _ _ _

variable (o) in
/-- There is a service that refuses nothing, has the object, and fails to read it or not. -/
lemma exists_service (content : Option Bytes) (fails : Bool) :
    ∃ s : Service, s.Lawful stored ∧ s.Accepts ∧
      (GetFails s (storing o content) o ↔ fails = true) := by
  cases fails with
  | false =>
    exact ⟨Service.store, Service.lawful_store, Service.accepts_store,
      iff_of_false (not_getFails_store _ _) Bool.false_ne_true⟩
  | true =>
    exact ⟨Service.timesOut, Service.lawful_timesOut, Service.accepts_timesOut,
      iff_of_true ⟨"timeout", rfl⟩ rfl⟩

/-- **Writes.**  Let the object have a content, and let a read of it fail, otherwise than by there
being none, or not.  A write with an offset that is not negative preserves the rest of the object,
whatever a lawful service answers to its other calls, if and only if it makes no read that fails,
and the data begin inside of the object or at its end and reach its end, or, for a write that
appends, the offset is positive or the object is empty.  Only where the parts of the new content
cannot be counted there is no write that could fail to. -/
theorem write_preserves_iff (checks : Bool) (data : Bytes) (flags : WriteFlags)
    (hvalid : fs.validateConfig = .ok ()) (hkey : pathToKey path ≠ []) (hoffset : 0 ≤ offset)
    (content : Option Bytes) (fails : Bool) :
    (∀ s objects, s.Lawful objects → ∀ h, objects h (fs.object path) = content →
      (GetFails s h (fs.object path) ↔ fails = true) →
      Preserves s objects checks fs h path data offset flags) ↔
    if Reads offset flags ∧ fails = true then checks = false ∧ ¬ fs.CanCount checks data
    else Fits (content.getD []) data offset flags ∨
      ¬ fs.CanCount checks (finalData (content.getD []) data offset flags) := by
  constructor
  · intro hall
    obtain ⟨s, hs, haccepts, hget⟩ := exists_service (fs.object path) content fails
    have hcontent : stored (storing (fs.object path) content) (fs.object path) = content :=
      stored_storing _ _
    obtain ⟨hfails, hfits⟩ := (preserves_iff hs hvalid hkey hoffset).1
      (hall s stored hs _ hcontent hget)
    have hends := sent_ends s checks fs (storing (fs.object path) content) path data offset flags
    split_ifs with hread
    · have hfail : ReadFails s (storing (fs.object path) content) (fs.object path) offset flags :=
        ⟨hread.1, hget.2 hread.2⟩
      obtain ⟨e, he⟩ := hfails hfail
      rw [finalData_of_readFails hfail] at hends
      obtain ⟨hok, hpanic⟩ := hends.of_accepts haccepts
      rw [he] at hok hpanic
      have hmany : ¬ fs.CanCount checks data := fun hcan => nomatch hok hcan
      refine ⟨?_, hmany⟩
      by_contra hchecks
      exact nomatch hpanic (by simpa using hchecks) hmany
    · have hno : ¬ ReadFails s (storing (fs.object path) content) (fs.object path) offset flags :=
        fun hfail => hread ⟨hfail.1, hget.1 hfail.2⟩
      rw [finalData_found hs hno, hcontent] at hends
      rw [hcontent] at hfits
      rw [or_iff_not_imp_right, not_not]
      exact fun hcan => hfits ((hends.of_accepts haccepts).1 hcan) hno
  · intro hcond s objects hs h hcontent hget
    have hends := sent_ends s checks fs h path data offset flags
    rw [preserves_iff hs hvalid hkey hoffset, hcontent]
    split_ifs at hcond with hread
    · have hfail : ReadFails s h (fs.object path) offset flags := ⟨hread.1, hget.2 hread.2⟩
      refine ⟨fun _ => ?_, fun _ hno => absurd hfail hno⟩
      obtain ⟨rfl, hmany⟩ := hcond
      rw [finalData_of_readFails hfail] at hends
      cases hsent : (fs.sent s false h path data offset flags).1 with
      | ok u => exact absurd (hends.canCount hs hsent) hmany
      | err e => exact ⟨e, rfl⟩
      | panic => exact absurd hsent hends.ne_panic
    · refine ⟨fun hfail => absurd ⟨hfail.1, hget.1 hfail.2⟩ hread, fun hok hno => ?_⟩
      rw [finalData_found hs hno, hcontent] at hends
      exact hcond.resolve_right fun hmany => hmany (hends.canCount hs hok)

/-- An object with a content. -/
def holding (content : String) : History :=
  storing ⟨ascii "bucket", ascii "a"⟩ (some (ascii content))

/-- A write at the end of an object. -/
theorem write_preserves_abc : Preserves Service.store stored false (inParts 2) (holding "abc")
    ⟨ascii "/a"⟩ (ascii "de") 3 .NONE := by
  have hfits : Fits (ascii "abc") (ascii "de") 3 .NONE := by decide
  refine (write_preserves_iff false (ascii "de") .NONE rfl (by decide) (by decide)
    (some (ascii "abc")) false).2 ?_ Service.store stored Service.lawful_store (holding "abc")
      (stored_storing _ _) (iff_of_false (not_getFails_store _ _) Bool.false_ne_true)
  rw [if_neg (by decide)]
  exact .inl hfits

/-- A write of one byte at the beginning of an object of three leaves this byte only; a write that
appends at the offset zero does so too, and a read that fails leaves nothing of the object. -/
theorem write_loses_rest :
    (stored ((inParts 0).write Service.store false (holding "abc") ⟨ascii "/a"⟩ (ascii "x") 0
        .NONE).2 ⟨ascii "bucket", ascii "a"⟩ = some (ascii "x") ∧
      meant (ascii "abc") (ascii "x") 0 .NONE = ascii "xbc" ∧
      ¬ Preserves Service.store stored false (inParts 0) (holding "abc") ⟨ascii "/a"⟩ (ascii "x") 0
        .NONE) ∧
    ¬ Preserves Service.store stored false (inParts 0) (holding "abc") ⟨ascii "/a"⟩ (ascii "x") 0
      .APPEND ∧
    (stored ((inParts 0).write Service.timesOut false (holding "abc") ⟨ascii "/a"⟩ (ascii "x") 3
        .NONE).2 ⟨ascii "bucket", ascii "a"⟩ = some (ascii "x") ∧
      ¬ Preserves Service.timesOut stored false (inParts 0) (holding "abc") ⟨ascii "/a"⟩
        (ascii "x") 3 .NONE) := by
  refine ⟨⟨by decide, by decide, fun hp => ?_⟩, fun hp => ?_, by decide, fun hp => ?_⟩
  · have hfits := ((preserves_iff Service.lawful_store rfl (by decide) (by decide)).1 hp).2 rfl
      fun hfail => not_getFails_store _ _ hfail.2
    exact absurd hfits (by decide)
  · have hfits := ((preserves_iff Service.lawful_store rfl (by decide) (by decide)).1 hp).2 rfl
      fun hfail => not_getFails_store _ _ hfail.2
    exact absurd hfits (by decide)
  · obtain ⟨e, he⟩ := ((preserves_iff Service.lawful_timesOut rfl (by decide) (by decide)).1 hp).1
      ⟨by decide, "timeout", rfl⟩
    cases he

end Racfs.S3Fs
