/-
# Uploads in parts

The loop keeps three things aligned: after `k` rounds it has sent the first `k` pieces of the
content, has `k` entity tags, and stands where the next piece begins (`uploadParts_ends`).  So an
upload ends in one of five ways (`MultipartEnd`): it was not created, a part failed, the completion
failed, all went well, or the counter of the parts overflowed.  The counter is incremented after
the last part as well, so it overflows with `2 ^ 31 - 1` parts, although their numbers fit.

If the counter does not overflow, an upload in parts is as good as a single `put`: a successful one
leaves the content, and one that fails leaves the object as it was (`multipart_iff`).
-/
import Mathlib.Data.List.Forall2
import Racfs.Lib.Chunks
import Racfs.S3Fs.Model

namespace Racfs.S3Fs

open S3FS

variable {s : Service} {objects : History → ObjectId → Option Bytes} {checks : Bool} {fs : S3FS}
  {h : History} {o : ObjectId} {uploadId data : Bytes} {partSize : ℕ}

/-! ### The parts that have been sent -/

/-- Parts that were uploaded one after another, with their entity tags. -/
def uploads (o : ObjectId) (uploadId : Bytes) (bodies eTags : List Bytes) : History :=
  (bodies.zip eTags).zipIdx.map fun ((body, eTag), i) =>
    .uploadPart o uploadId (partNumber i) body (.ok (some eTag))

lemma uploads_concat {bodies eTags : List Bytes} (hlen : bodies.length = eTags.length)
    (body eTag : Bytes) : uploads o uploadId (bodies ++ [body]) (eTags ++ [eTag]) =
      uploads o uploadId bodies eTags ++
        [.uploadPart o uploadId (partNumber bodies.length) body (.ok (some eTag))] := by
  rw [uploads, List.zip_append hlen, List.zipIdx_append, List.map_append, uploads]
  simp [hlen]

lemma partNumber_succ (i : ℕ) : partNumber i + 1 = partNumber (i + 1) :=
  (Int32.ofNat_add (i + 1) 1).symm

lemma toInt_partNumber {i : ℕ} (hi : i + 1 < 2 ^ 31) : (partNumber i).toInt = i + 1 := by
  rw [partNumber, Int32.toInt_ofNat_of_lt hi]
  rfl

/-- The greatest number of a part. -/
lemma partNumber_eq_maxValue_iff {i : ℕ} (hi : i + 1 < 2 ^ 31) :
    partNumber i = Int32.maxValue ↔ i + 1 = 2 ^ 31 - 1 := by
  rw [← Int32.toInt_inj, toInt_partNumber hi]
  have hmax : Int32.maxValue.toInt = 2 ^ 31 - 1 := by decide
  rw [hmax]
  omega

lemma partNumber_lt {i j : ℕ} (hij : i < j) (hj : j + 1 < 2 ^ 31) :
    partNumber i < partNumber j := by
  rw [Int32.lt_iff_toInt_lt, toInt_partNumber (by omega), toInt_partNumber hj]
  omega

lemma length_completedParts (eTags : List Bytes) :
    (completedParts eTags).length = eTags.length := by
  rw [completedParts, List.length_map, List.length_zipIdx]

lemma getElem_completedParts {eTags : List Bytes} {i : ℕ} (hi : i < eTags.length)
    (hi' : i < (completedParts eTags).length) :
    (completedParts eTags)[i] = ⟨partNumber i, eTags[i]⟩ := by
  simp [completedParts]

/-- The parts are listed in ascending order unless the numbers start again from below. -/
lemma pairwise_completedParts_iff {eTags : List Bytes} :
    ((completedParts eTags).map CompletedPart.partNumber).Pairwise (· < ·) ↔
      eTags.length < 2 ^ 31 := by
  have hlength := length_completedParts eTags
  rw [List.pairwise_iff_getElem]
  constructor
  · intro hsorted
    by_contra hmany
    have hlt := hsorted 0 (2 ^ 31 - 1) (by rw [List.length_map]; omega)
      (by rw [List.length_map]; omega) (by decide)
    rw [List.getElem_map, List.getElem_map, getElem_completedParts (by omega),
      getElem_completedParts (by omega)] at hlt
    have hnot : ¬ partNumber 0 < partNumber (2 ^ 31 - 1) := by decide
    exact hnot hlt
  · intro hfew i j hi hj hij
    rw [List.length_map] at hi hj
    rw [List.getElem_map, List.getElem_map, getElem_completedParts (by omega),
      getElem_completedParts (by omega)]
    exact partNumber_lt hij (by omega)

/-! ### The loop -/

/-- How the loop ends: all parts were uploaded, one of them failed, or the counter overflowed. -/
inductive LoopEnd (s : Service) (checks : Bool) (o : ObjectId) (uploadId : Bytes)
    (bodies : List Bytes) (h : History) : Outcome (List Bytes) × History → Prop
  | done {eTags : List Bytes} (hlen : bodies.length = eTags.length)
      (hcount : checks = true → bodies.length < 2 ^ 31 - 1) :
      LoopEnd s checks o uploadId bodies h (.ok eTags, h ++ uploads o uploadId bodies eTags)
  | failed {k : ℕ} {eTags : List Bytes} {answer : Except String (Option Bytes)} {e : FSError}
      {aborted : Except String Unit} (hk : k < bodies.length) (hlen : eTags.length = k)
      (hanswer : s.uploadPart (h ++ uploads o uploadId (bodies.take k) eTags) o uploadId
        (partNumber k) bodies[k] = answer)
      (hfail : ∀ eTag, answer ≠ .ok (some eTag)) :
      LoopEnd s checks o uploadId bodies h (.err e, h ++ uploads o uploadId (bodies.take k) eTags ++
        [.uploadPart o uploadId (partNumber k) bodies[k] answer] ++
        [.abortMultipartUpload o uploadId aborted])
  | panicked {k : ℕ} {eTags : List Bytes} (hk : k < bodies.length) (hlen : eTags.length = k + 1)
      (hchecks : checks = true) (hcount : k + 1 = 2 ^ 31 - 1) :
      LoopEnd s checks o uploadId bodies h
        (.panic, h ++ uploads o uploadId (bodies.take (k + 1)) eTags)

/-- After `k` rounds the loop has sent the first `k` pieces. -/
lemma uploadParts_ends_of_sent (hpos : 0 < partSize) {k m : ℕ}
    (hm : k + m = chunkCount partSize data.length) {eTags : List Bytes} (hlen : eTags.length = k)
    (hcount : checks = true → k < 2 ^ 31 - 1) :
    LoopEnd s checks o uploadId (chunks partSize data) h
      (uploadParts s checks o uploadId data hpos
        (h ++ uploads o uploadId ((chunks partSize data).take k) eTags) eTags (partNumber k)
        (min (k * partSize) data.length)) := by
  induction m generalizing k eTags with
  | zero =>
    have hend : ¬ min (k * partSize) data.length < data.length := by
      have hall : k < chunkCount partSize data.length ↔ k * partSize < data.length :=
        lt_chunkCount_iff hpos
      omega
    have hchunks : (chunks partSize data).take k = chunks partSize data :=
      List.take_of_length_le (by rw [length_chunks]; omega)
    rw [uploadParts, if_neg hend, hchunks]
    refine .done (by rw [length_chunks]; omega) fun hchecks => ?_
    rw [length_chunks, ← hm]
    exact hcount hchecks
  | succ m ih =>
    have hk : k < chunkCount partSize data.length := by omega
    have hbegin : min (k * partSize) data.length = k * partSize :=
      min_eq_left ((lt_chunkCount_iff hpos).1 hk).le
    have hlt : k < (chunks partSize data).length := by rwa [length_chunks]
    have hnext : min (k * partSize + partSize) data.length =
        min ((k + 1) * partSize) data.length := by rw [Nat.succ_mul]
    have hpart : (data.take (min ((k + 1) * partSize) data.length)).drop (k * partSize) =
        (chunks partSize data)[k] := by
      rw [getElem_chunks hlt, chunkAt_eq_drop_take, hnext]
    rw [uploadParts, hbegin, if_pos ((lt_chunkCount_iff hpos).1 hk)]
    simp only [hnext, hpart, uploadPart]
    generalize hanswer : s.uploadPart (h ++ uploads o uploadId ((chunks partSize data).take k)
      eTags) o uploadId (partNumber k) (chunks partSize data)[k] = answer
    rcases answer with e | _ | eTag
    · exact .failed hlt hlen hanswer (by simp)
    · exact .failed hlt hlen hanswer (by simp)
    · have hsent : h ++ uploads o uploadId ((chunks partSize data).take k) eTags ++
          [.uploadPart o uploadId (partNumber k) (chunks partSize data)[k] (.ok (some eTag))] =
          h ++ uploads o uploadId ((chunks partSize data).take (k + 1)) (eTags ++ [eTag]) := by
        have htake : ((chunks partSize data).take k).length = k :=
          List.length_take_of_le hlt.le
        rw [List.take_succ_eq_append_getElem hlt, uploads_concat (htake.trans hlen.symm), htake,
          List.append_assoc]
      have hlen' : (eTags ++ [eTag]).length = k + 1 := by
        rw [List.length_append, hlen, List.length_singleton]
      simp only [hsent, partNumber_succ]
      split_ifs with hmax
      · have hcount' := hcount hmax.1
        exact .panicked hlt hlen' hmax.1 ((partNumber_eq_maxValue_iff (by omega)).1 hmax.2)
      · refine ih (by omega) hlen' fun hchecks => ?_
        have hcount' := hcount hchecks
        by_contra hge
        exact hmax ⟨hchecks, (partNumber_eq_maxValue_iff (by omega)).2 (by omega)⟩

lemma uploadParts_ends (hpos : 0 < partSize) :
    LoopEnd s checks o uploadId (chunks partSize data) h
      (uploadParts s checks o uploadId data hpos h [] 1 0) := by
  have hempty : h ++ uploads o uploadId ((chunks partSize data).take 0) [] = h := List.append_nil h
  have hbegin : min (0 * partSize) data.length = 0 := by rw [Nat.zero_mul, Nat.zero_min]
  have hone : partNumber 0 = 1 := rfl
  have hends : LoopEnd s checks o uploadId (chunks partSize data) h
      (uploadParts s checks o uploadId data hpos
        (h ++ uploads o uploadId ((chunks partSize data).take 0) []) [] (partNumber 0)
          (min (0 * partSize) data.length)) :=
    uploadParts_ends_of_sent hpos (Nat.zero_add _) rfl fun _ => by decide
  rwa [hempty, hbegin, hone] at hends

/-! ### The upload -/

/-- The call that creates an upload. -/
abbrev created (o : ObjectId) (uploadId : Bytes) : Call :=
  .createMultipartUpload o (.ok (some uploadId))

/-- How an upload ends. -/
inductive MultipartEnd (s : Service) (checks : Bool) (h : History) (o : ObjectId)
    (bodies : List Bytes) : Outcome Unit × History → Prop
  | notCreated {answer : Except String (Option Bytes)} {e : FSError}
      (hanswer : s.createMultipartUpload h o = answer)
      (hfail : ∀ uploadId, answer ≠ .ok (some uploadId)) :
      MultipartEnd s checks h o bodies (.err e, h ++ [.createMultipartUpload o answer])
  | partFailed {uploadId : Bytes} {k : ℕ} {eTags : List Bytes}
      {answer : Except String (Option Bytes)} {e : FSError} {aborted : Except String Unit}
      (hk : k < bodies.length) (hlen : eTags.length = k)
      (hanswer : s.uploadPart (h ++ [created o uploadId] ++
        uploads o uploadId (bodies.take k) eTags) o uploadId (partNumber k) bodies[k] = answer)
      (hfail : ∀ eTag, answer ≠ .ok (some eTag)) :
      MultipartEnd s checks h o bodies (.err e, h ++ [created o uploadId] ++
        uploads o uploadId (bodies.take k) eTags ++
          [.uploadPart o uploadId (partNumber k) bodies[k] answer] ++
            [.abortMultipartUpload o uploadId aborted])
  | panicked {uploadId : Bytes} {k : ℕ} {eTags : List Bytes} (hk : k < bodies.length)
      (hlen : eTags.length = k + 1) (hchecks : checks = true) (hcount : k + 1 = 2 ^ 31 - 1) :
      MultipartEnd s checks h o bodies (.panic, h ++ [created o uploadId] ++
        uploads o uploadId (bodies.take (k + 1)) eTags)
  | notCompleted {uploadId : Bytes} {eTags : List Bytes} {message : String} {e : FSError}
      {aborted : Except String Unit} (hlen : bodies.length = eTags.length)
      (hcount : checks = true → bodies.length < 2 ^ 31 - 1)
      (hanswer : s.completeMultipartUpload (h ++ [created o uploadId] ++
        uploads o uploadId bodies eTags) o uploadId (completedParts eTags) = .error message) :
      MultipartEnd s checks h o bodies (.err e, h ++ [created o uploadId] ++
        uploads o uploadId bodies eTags ++
          [.completeMultipartUpload o uploadId (completedParts eTags) (.error message)] ++
            [.abortMultipartUpload o uploadId aborted])
  | completed {uploadId : Bytes} {eTags : List Bytes} (hlen : bodies.length = eTags.length)
      (hcount : checks = true → bodies.length < 2 ^ 31 - 1)
      (hok : s.completeMultipartUpload (h ++ [created o uploadId] ++
        uploads o uploadId bodies eTags) o uploadId (completedParts eTags) = .ok ()) :
      MultipartEnd s checks h o bodies (.ok (), h ++ [created o uploadId] ++
        uploads o uploadId bodies eTags ++
          [.completeMultipartUpload o uploadId (completedParts eTags) (.ok ())])

/-- Sending a content in parts ends so, with its pieces as parts. -/
lemma uploadMultipart_ends (hpos : 0 < partSize) : MultipartEnd s checks h o (chunks partSize data)
    (uploadMultipart s checks h o data hpos) := by
  rw [uploadMultipart, createMultipartUpload]
  generalize hanswer : s.createMultipartUpload h o = answer
  match answer with
  | .error e => exact .notCreated hanswer nofun
  | .ok none => exact .notCreated hanswer nofun
  | .ok (some uploadId) =>
    have hloop : LoopEnd s checks o uploadId (chunks partSize data) (h ++ [created o uploadId])
        (uploadParts s checks o uploadId data hpos (h ++ [created o uploadId]) [] 1 0) :=
      uploadParts_ends hpos
    dsimp only
    generalize uploadParts s checks o uploadId data hpos (h ++ [created o uploadId]) [] 1 0 = run
      at hloop
    cases hloop with
    | failed hk hlen hpart hfail => exact .partFailed hk hlen hpart hfail
    | panicked hk hlen hchecks hcount => exact .panicked hk hlen hchecks hcount
    | @done eTags hlen hcount =>
      simp only [completeMultipartUpload]
      generalize hcomplete : s.completeMultipartUpload (h ++ [created o uploadId] ++
        uploads o uploadId (chunks partSize data) eTags) o uploadId (completedParts eTags) = answer
      cases answer with
      | error message => exact .notCompleted hlen hcount hcomplete
      | ok _ => exact .completed hlen hcount hcomplete

/-! ### The object after it -/

lemma Service.Lawful.objects_uploads (hs : s.Lawful objects) (h : History)
    (bodies eTags : List Bytes) :
    objects (h ++ uploads o uploadId bodies eTags) = objects h := by
  have hcalls : ∀ (l : List ((Bytes × Bytes) × ℕ)) (h : History),
      objects (h ++ l.map fun ((body, eTag), i) =>
        .uploadPart o uploadId (partNumber i) body (.ok (some eTag))) = objects h := by
    intro l
    induction l with
    | nil => exact fun h => congrArg objects (List.append_nil h)
    | cons p l ih =>
      intro h
      rw [List.map_cons, List.append_cons, ih, hs.uploadPart]
  exact hcalls _ h

lemma part?_concat (h : History) (call : Call) (n : Int32) :
    part? (h ++ [call]) o uploadId n =
      (Call.part? o uploadId n call).or (part? h o uploadId n) := by
  rw [part?, List.reverse_append, List.reverse_singleton, List.singleton_append,
    List.findSome?_cons]
  cases Call.part? o uploadId n call <;> rfl

variable (h o uploadId) in
/-- As long as the numbers differ, each part is found under its number. -/
lemma part?_uploads {bodies eTags : List Bytes} (hlen : bodies.length = eTags.length)
    (hcount : bodies.length < 2 ^ 31) {k : ℕ} (hk : k ≤ bodies.length) {i : ℕ}
    {body eTag : Bytes} (hi : i < k) (hbody : bodies[i]? = some body)
    (heTag : eTags[i]? = some eTag) :
    part? (h ++ uploads o uploadId (bodies.take k) (eTags.take k)) o uploadId (partNumber i) =
      some (some eTag, body) := by
  induction k with
  | zero => exact absurd hi (Nat.not_lt_zero i)
  | succ k ih =>
    have hlenk : (bodies.take k).length = (eTags.take k).length := by
      rw [List.length_take, List.length_take, hlen]
    have htake : (bodies.take k).length = k := List.length_take_of_le (by omega)
    rw [List.take_succ_eq_append_getElem (by omega), List.take_succ_eq_append_getElem (by omega),
      uploads_concat hlenk, htake, ← List.append_assoc, part?_concat, Call.part?]
    rcases Nat.lt_succ_iff_lt_or_eq.1 hi with hlt | rfl
    · have hne : ¬ (o = o ∧ uploadId = uploadId ∧ partNumber k = partNumber i) := by
        intro heq
        exact Int32.lt_irrefl (heq.2.2 ▸ partNumber_lt hlt (by omega))
      rw [if_neg hne, Option.none_or]
      exact ih (by omega) hlt
    · obtain ⟨-, rfl⟩ := List.getElem_of_getElem? hbody
      obtain ⟨-, rfl⟩ := List.getElem_of_getElem? heTag
      rw [if_pos ⟨rfl, rfl, rfl⟩, Option.some_or]

variable (h o uploadId) in
/-- What was sent is found by the list of the parts. -/
lemma lists_uploads {bodies eTags : List Bytes} (hlen : bodies.length = eTags.length)
    (hcount : bodies.length < 2 ^ 31) :
    Lists (h ++ uploads o uploadId bodies eTags) o uploadId (completedParts eTags) bodies := by
  have hlength := length_completedParts eTags
  refine List.forall₂_of_length_eq_of_get (hlength.trans hlen.symm) fun i hi hi' => ?_
  have hpart := part?_uploads h o uploadId hlen hcount le_rfl hi'
    (List.getElem?_eq_getElem hi') (List.getElem?_eq_getElem (hlen ▸ hi'))
  rw [List.take_length, List.take_of_length_le hlen.ge] at hpart
  rw [List.get_eq_getElem, List.get_eq_getElem, getElem_completedParts (hlen ▸ hi')]
  exact hpart

lemma lists_unique {parts : List CompletedPart} {bodies bodies' : List Bytes}
    (hlists : Lists h o uploadId parts bodies) (hlists' : Lists h o uploadId parts bodies') :
    bodies = bodies' := by
  refine List.right_unique_forall₂' ?_ hlists hlists'
  intro p body body' hbody hbody'
  exact (Prod.mk.inj (Option.some.inj (hbody.symm.trans hbody'))).2

/-- A successful upload leaves the parts put together, and another one leaves the objects alone. -/
lemma MultipartEnd.objects_eq (hs : s.Lawful objects) {bodies : List Bytes}
    {run : Outcome Unit × History} (hend : MultipartEnd s checks h o bodies run) :
    (run.1 = .ok () → objects run.2 = Function.update (objects h) o (some bodies.flatten)) ∧
      (run.1 ≠ .ok () → objects run.2 = objects h) := by
  cases hend with
  | notCreated => exact ⟨nofun, fun _ => hs.createMultipartUpload _ _ _⟩
  | partFailed =>
    refine ⟨nofun, fun _ => ?_⟩
    rw [hs.abortMultipartUpload, hs.uploadPart, hs.objects_uploads, hs.createMultipartUpload]
  | panicked =>
    refine ⟨nofun, fun _ => ?_⟩
    rw [hs.objects_uploads, hs.createMultipartUpload]
  | notCompleted =>
    refine ⟨nofun, fun _ => ?_⟩
    rw [hs.abortMultipartUpload, hs.completeMultipartUpload_error, hs.objects_uploads,
      hs.createMultipartUpload]
  | completed hlen hcount hok =>
    refine ⟨fun _ => ?_, fun hne => absurd rfl hne⟩
    obtain ⟨hsorted, bodies', hlists, hobjects⟩ := hs.completeMultipartUpload_ok _ _ _ _ hok
    have hfew := pairwise_completedParts_iff.1 hsorted
    rw [hobjects, lists_unique hlists (lists_uploads _ _ _ hlen (hlen.trans_lt hfew)),
      hs.objects_uploads, hs.createMultipartUpload]

lemma MultipartEnd.ne_panic {bodies : List Bytes} {run : Outcome Unit × History}
    (hend : MultipartEnd s checks h o bodies run)
    (hchecks : checks = true → bodies.length < 2 ^ 31 - 1) : run.1 ≠ .panic := by
  cases hend with
  | panicked hk _ hoverflow hlast =>
    have hfew := hchecks hoverflow
    omega
  | notCreated => exact nofun
  | partFailed => exact nofun
  | notCompleted => exact nofun
  | completed => exact nofun

/-- A lawful service completes no upload whose parts cannot be counted. -/
lemma MultipartEnd.length_lt (hs : s.Lawful objects) {bodies : List Bytes}
    {run : Outcome Unit × History} (hend : MultipartEnd s checks h o bodies run)
    (hok : run.1 = .ok ()) : bodies.length + checks.toNat < 2 ^ 31 := by
  cases hend with
  | completed hlen hcount hcomplete =>
    have hsorted := (hs.completeMultipartUpload_ok _ _ _ _ hcomplete).1
    rw [pairwise_completedParts_iff, ← hlen] at hsorted
    cases checks with
    | false => exact hsorted
    | true =>
      have hfew := hcount rfl
      rw [Bool.toNat_true]
      omega
  | notCreated => cases hok
  | partFailed => cases hok
  | panicked => cases hok
  | notCompleted => cases hok

/-- A service that refuses nothing completes every other one, and lets the counter overflow. -/
lemma MultipartEnd.of_accepts (hs : s.Accepts) {bodies : List Bytes}
    {run : Outcome Unit × History} (hend : MultipartEnd s checks h o bodies run) :
    (bodies.length + checks.toNat < 2 ^ 31 → run.1 = .ok ()) ∧
      (checks = true → 2 ^ 31 - 1 ≤ bodies.length → run.1 = .panic) := by
  cases hend with
  | notCreated hanswer hfail =>
    obtain ⟨uploadId, hcreated⟩ := hs.createMultipartUpload h o
    exact absurd (hanswer.symm.trans hcreated) (hfail uploadId)
  | partFailed _ _ hanswer hfail =>
    obtain ⟨eTag, hsent⟩ := hs.uploadPart _ o _ _ _
    exact absurd (hanswer.symm.trans hsent) (hfail eTag)
  | panicked hk _ hchecks hlast =>
    refine ⟨fun hfew => ?_, fun _ _ => rfl⟩
    rw [hchecks, Bool.toNat_true] at hfew
    omega
  | notCompleted hlen hcount hanswer =>
    refine ⟨fun hfew => ?_, fun hchecks hmany => absurd (hcount hchecks) (Nat.not_lt.2 hmany)⟩
    have hlt : bodies.length < 2 ^ 31 := (Nat.le_add_right _ _).trans_lt hfew
    rw [hs.completeMultipartUpload _ _ _ _ (pairwise_completedParts_iff.2 (hlen ▸ hlt)) bodies
      (lists_uploads _ _ _ hlen hlt)] at hanswer
    cases hanswer
  | completed hlen hcount hcomplete =>
    exact ⟨fun _ => rfl, fun hchecks hmany => absurd (hcount hchecks) (Nat.not_lt.2 hmany)⟩

lemma isRead_uploads {bodies eTags : List Bytes} :
    ∀ call ∈ uploads o uploadId bodies eTags, call.isRead = false := by
  intro call hcall
  obtain ⟨p, -, rfl⟩ := List.mem_map.1 hcall
  rfl

/-- An upload reads nothing. -/
lemma MultipartEnd.exists_calls {bodies : List Bytes} {run : Outcome Unit × History}
    (hend : MultipartEnd s checks h o bodies run) :
    ∃ calls, run.2 = h ++ calls ∧ ∀ call ∈ calls, call.isRead = false := by
  cases hend with
  | notCreated => exact ⟨_, rfl, List.forall_mem_singleton.2 rfl⟩
  | partFailed =>
    refine ⟨_, by simp only [List.append_assoc]; rfl, ?_⟩
    simp only [List.forall_mem_append, List.forall_mem_singleton]
    exact ⟨rfl, isRead_uploads, rfl, rfl⟩
  | panicked =>
    refine ⟨_, by simp only [List.append_assoc]; rfl, ?_⟩
    simp only [List.forall_mem_append, List.forall_mem_singleton]
    exact ⟨rfl, isRead_uploads⟩
  | notCompleted =>
    refine ⟨_, by simp only [List.append_assoc]; rfl, ?_⟩
    simp only [List.forall_mem_append, List.forall_mem_singleton]
    exact ⟨rfl, isRead_uploads, rfl, rfl⟩
  | completed =>
    refine ⟨_, by simp only [List.append_assoc]; rfl, ?_⟩
    simp only [List.forall_mem_append, List.forall_mem_singleton]
    exact ⟨rfl, isRead_uploads, rfl⟩

/-! ### Any upload -/

/-- How many parts a content is sent in; none for a single `put`. -/
def S3FS.partCount (fs : S3FS) (data : Bytes) : ℕ :=
  if data.length ≥ fs.config.multipartThreshold.toNat ∧ fs.config.multipartPartSize.toNat > 0 then
    chunkCount fs.config.multipartPartSize.toNat data.length
  else 0

/-- The parts can be counted, and they can be numbered. -/
def S3FS.CanCount (checks : Bool) (fs : S3FS) (data : Bytes) : Prop :=
  fs.partCount data + checks.toNat < 2 ^ 31

/-- How an upload ends, in parts or not. -/
inductive UploadEnd (s : Service) (checks : Bool) (fs : S3FS) (h : History) (o : ObjectId)
    (data : Bytes) : Outcome Unit × History → Prop
  | inParts {bodies : List Bytes} {run : Outcome Unit × History}
      (hlen : bodies.length = fs.partCount data) (hdata : bodies.flatten = data)
      (hend : MultipartEnd s checks h o bodies run) : UploadEnd s checks fs h o data run
  | notPut {message : String} {e : FSError} (hcount : fs.partCount data = 0)
      (hanswer : s.putObject h o data = .error message) :
      UploadEnd s checks fs h o data (.err e, h ++ [.putObject o data (.error message)])
  | put (hcount : fs.partCount data = 0) (hok : s.putObject h o data = .ok ()) :
      UploadEnd s checks fs h o data (.ok (), h ++ [.putObject o data (.ok ())])

variable (s checks fs h o data) in
lemma upload_ends : UploadEnd s checks fs h o data (fs.upload s checks h o data) := by
  rw [upload]
  split_ifs with hparts
  · refine .inParts ?_ (isCut_chunks hparts.2 data).flatten (uploadMultipart_ends hparts.2)
    rw [length_chunks, partCount, if_pos hparts]
  · have hcount : fs.partCount data = 0 := by rw [partCount, if_neg hparts]
    dsimp only
    generalize hanswer : s.putObject h o data = answer
    cases answer with
    | error message => exact .notPut hcount hanswer
    | ok _ => exact .put hcount hanswer

variable {run : Outcome Unit × History}

/-- An upload reads nothing. -/
lemma UploadEnd.exists_calls (hend : UploadEnd s checks fs h o data run) :
    ∃ calls, run.2 = h ++ calls ∧ ∀ call ∈ calls, call.isRead = false := by
  cases hend with
  | inParts _ _ hend => exact hend.exists_calls
  | notPut => exact ⟨_, rfl, List.forall_mem_singleton.2 rfl⟩
  | put => exact ⟨_, rfl, List.forall_mem_singleton.2 rfl⟩

/-- A successful upload leaves the content, and another one leaves the objects alone. -/
lemma UploadEnd.objects_eq (hs : s.Lawful objects) (hend : UploadEnd s checks fs h o data run) :
    (run.1 = .ok () → objects run.2 = Function.update (objects h) o (some data)) ∧
      (run.1 ≠ .ok () → objects run.2 = objects h) := by
  cases hend with
  | inParts _ hdata hend => exact hdata ▸ hend.objects_eq hs
  | notPut => exact ⟨nofun, fun _ => hs.putObject_error _ _ _ _⟩
  | put => exact ⟨fun _ => hs.putObject_ok _ _ _, fun hne => absurd rfl hne⟩

/-- No upload is successful if its parts cannot be counted. -/
lemma UploadEnd.canCount (hs : s.Lawful objects) (hend : UploadEnd s checks fs h o data run)
    (hok : run.1 = .ok ()) : fs.CanCount checks data := by
  have hput : fs.partCount data = 0 → fs.CanCount checks data := by
    intro hcount
    have hle := checks.toNat_le
    rw [CanCount, hcount]
    omega
  cases hend with
  | inParts hlen _ hend =>
    rw [CanCount, ← hlen]
    exact hend.length_lt hs hok
  | notPut hcount => exact hput hcount
  | put hcount => exact hput hcount

/-- Without overflow checks nothing panics. -/
lemma UploadEnd.ne_panic (hend : UploadEnd s false fs h o data run) : run.1 ≠ .panic := by
  cases hend with
  | inParts _ _ hend => exact hend.ne_panic nofun
  | notPut => exact nofun
  | put => exact nofun

/-- How an upload ends if nothing is refused. -/
lemma UploadEnd.of_accepts (hs : s.Accepts) (hend : UploadEnd s checks fs h o data run) :
    (fs.CanCount checks data → run.1 = .ok ()) ∧
      (checks = true → ¬ fs.CanCount checks data → run.1 = .panic) := by
  cases hend with
  | inParts hlen _ hend =>
    obtain ⟨hok, hpanic⟩ := hend.of_accepts hs
    rw [hlen] at hok hpanic
    refine ⟨hok, fun hchecks hnot => hpanic hchecks ?_⟩
    rw [CanCount, hchecks, Bool.toNat_true] at hnot
    omega
  | notPut hcount hanswer =>
    rw [hs.putObject] at hanswer
    cases hanswer
  | put hcount =>
    refine ⟨fun _ => rfl, fun hchecks hnot => absurd ?_ hnot⟩
    rw [CanCount, hcount, hchecks]
    decide

/-! ### Parts and a single `put` -/

/-- An upload in parts is as good as a single `put`: the parts are a cut of the content, numbered
from one, it returns, and it leaves the content or, with an error, the objects as they were. -/
structure LikePut (s : Service) (objects : History → ObjectId → Option Bytes) (checks : Bool)
    (h : History) (o : ObjectId) (partSize : ℕ) (data : Bytes) (bodies : List Bytes)
    (run : Outcome Unit × History) : Prop where
  cut : IsCut partSize data bodies
  numbers : ∀ i < bodies.length, (partNumber i).toInt = i + 1
  ends : MultipartEnd s checks h o bodies run
  returns : run.1 ≠ .panic
  stored : run.1 = .ok () → objects run.2 = objects (h ++ [.putObject o data (.ok ())])
  unchanged : ∀ e, run.1 = .err e → objects run.2 = objects h

lemma upload_eq_uploadMultipart (hsize : fs.config.multipartThreshold.toNat ≤ data.length)
    (hpos : 0 < fs.config.multipartPartSize.toNat) :
    fs.upload s checks h o data = uploadMultipart s checks h o data hpos := by
  rw [upload, dif_pos ⟨hsize, hpos⟩]

/-- Without an overflow of the counter. -/
lemma likePut_uploadMultipart (hs : s.Lawful objects) (hpos : 0 < partSize)
    (hcount : chunkCount partSize data.length < 2 ^ 31)
    (hchecks : checks = false ∨ chunkCount partSize data.length < 2 ^ 31 - 1) :
    LikePut s objects checks h o partSize data (chunks partSize data)
      (uploadMultipart s checks h o data hpos) := by
  have hends : MultipartEnd s checks h o (chunks partSize data)
      (uploadMultipart s checks h o data hpos) := uploadMultipart_ends hpos
  have hobjects := hends.objects_eq hs
  rw [(isCut_chunks hpos data).flatten, ← hs.putObject_ok] at hobjects
  refine ⟨isCut_chunks hpos data, fun i hi => ?_, hends, ?_, hobjects.1,
    fun e he => hobjects.2 (he ▸ nofun)⟩
  · rw [length_chunks] at hi
    exact toInt_partNumber (by omega)
  · refine hends.ne_panic fun hoverflow => ?_
    rw [length_chunks]
    exact hchecks.resolve_left (by rw [hoverflow]; decide)

variable (h o) in
/-- A service that refuses nothing lets the counter overflow. -/
lemma uploadMultipart_overflows (hs : s.Accepts) (hpos : 0 < partSize)
    (hcount : 2 ^ 31 - 1 ≤ chunkCount partSize data.length) :
    (uploadMultipart s true h o data hpos).1 = .panic := by
  have hends : MultipartEnd s true h o (chunks partSize data)
      (uploadMultipart s true h o data hpos) := uploadMultipart_ends hpos
  exact (hends.of_accepts hs).2 rfl (by rwa [length_chunks])

/-- **Multipart upload.**  For every content of less than `2 ^ 31` parts, an upload in parts is as
good as a single `put`, whatever a lawful service answers, if and only if the build has no overflow
checks or there are less than `2 ^ 31 - 1` parts. -/
theorem multipart_iff (checks : Bool) (fs : S3FS) {data : Bytes}
    (hsize : fs.config.multipartThreshold.toNat ≤ data.length)
    (hpos : 0 < fs.config.multipartPartSize.toNat)
    (hcount : chunkCount fs.config.multipartPartSize.toNat data.length < 2 ^ 31) :
    (∀ s objects, s.Lawful objects → ∀ h o, ∃ bodies, LikePut s objects checks h o
      fs.config.multipartPartSize.toNat data bodies (fs.upload s checks h o data)) ↔
    checks = false ∨ chunkCount fs.config.multipartPartSize.toNat data.length < 2 ^ 31 - 1 := by
  constructor
  · intro hall
    obtain ⟨bodies, hlike⟩ := hall Service.store stored Service.lawful_store [] ⟨[], []⟩
    by_contra hmany
    obtain ⟨hchecks, hparts⟩ := not_or.1 hmany
    rw [Bool.not_eq_false] at hchecks
    subst hchecks
    rw [upload_eq_uploadMultipart hsize hpos] at hlike
    exact hlike.returns
      (uploadMultipart_overflows _ _ Service.accepts_store hpos (Nat.not_lt.1 hparts))
  · intro hchecks s objects hs h o
    rw [upload_eq_uploadMultipart hsize hpos]
    exact ⟨_, likePut_uploadMultipart hs hpos hcount hchecks⟩

/-- A filesystem that uploads in parts of a size. -/
def inParts (size : UInt64) : S3FS :=
  ⟨⟨ascii "bucket", ascii "us-east-1", ascii "key", ascii "secret", 0, size⟩⟩

/-- Three bytes in parts of two. -/
theorem multipart_abc : ∃ bodies, LikePut Service.store stored true [] ⟨ascii "bucket", ascii "a"⟩
    2 (ascii "abc") bodies
    ((inParts 2).upload Service.store true [] ⟨ascii "bucket", ascii "a"⟩ (ascii "abc")) :=
  (multipart_iff true (inParts 2) (by decide) (by decide) (by decide)).2 (.inr (by decide))
    Service.store stored Service.lawful_store [] ⟨ascii "bucket", ascii "a"⟩

/-- With `2 ^ 31 - 1` parts of one byte the counter overflows after the last one. -/
theorem multipart_overflows : chunkCount 1 (List.replicate 2147483647 (0 : UInt8)).length <
      2 ^ 31 ∧
    ((inParts 1).upload Service.store true [] ⟨ascii "bucket", ascii "a"⟩
      (List.replicate 2147483647 0)).1 = .panic ∧
    ¬ ∃ bodies, LikePut Service.store stored true [] ⟨ascii "bucket", ascii "a"⟩ 1
      (List.replicate 2147483647 0) bodies ((inParts 1).upload Service.store true []
        ⟨ascii "bucket", ascii "a"⟩ (List.replicate 2147483647 0)) := by
  have hcount : chunkCount 1 (List.replicate 2147483647 (0 : UInt8)).length = 2147483647 := by
    rw [List.length_replicate, chunkCount]
  have hpanic : ((inParts 1).upload Service.store true [] ⟨ascii "bucket", ascii "a"⟩
      (List.replicate 2147483647 0)).1 = .panic := by
    have hpos : 0 < (inParts 1).config.multipartPartSize.toNat := by decide
    have hone : (inParts 1).config.multipartPartSize.toNat = 1 := rfl
    rw [upload_eq_uploadMultipart (Nat.zero_le _) hpos]
    refine uploadMultipart_overflows _ _ Service.accepts_store hpos ?_
    rw [hone]
    omega
  refine ⟨by rw [hcount]; decide, hpanic, ?_⟩
  rintro ⟨bodies, hlike⟩
  exact hlike.returns hpanic

end Racfs.S3Fs
