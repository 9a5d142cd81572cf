/-
# Listings of the queue filesystem

The files of a queue are not stored: `read_dir`, `stat` and `read` each go by the components of
the path.  An entry of a listing has the name of the queue and of the file in its path, and this
path leads back to them (`parseQueuePath_text`), unless the queue is called `.`, which a path does
not keep.  The messages and the metadata agree; but the listing of a queue has its directories,
for which `stat` finds nothing, and gives its files `head` and `tail` the size zero.  So the
listings that agree with `stat` and `read` are those of the root and below a queue
(`listing_agrees_iff`).
-/
import Racfs.Lib.PathJoin
import Racfs.QueueFs.Order

namespace Racfs.QueueFs

open QueueFS

/-! ### Names and paths -/

lemma map_asOsStr_filterMap_parse (pieces : List Bytes) :
    (pieces.filterMap Component.parse).map Component.asOsStr =
      pieces.filter fun piece => piece ≠ [] ∧ piece ≠ [dot] := by
  induction pieces with
  | nil => rfl
  | cons piece pieces ih =>
    by_cases hblank : piece = [] ∨ piece = [dot]
    · have hparse : Component.parse piece = none := by
        rcases hblank with rfl | rfl <;> rfl
      rw [List.filterMap_cons_none hparse, List.filter_cons_of_neg, ih]
      rw [decide_eq_true_eq, ← not_or]
      exact not_not.2 hblank
    · have hpiece := not_or.1 hblank
      obtain ⟨c, hparse, hc⟩ : ∃ c, Component.parse piece = some c ∧ c.asOsStr = piece := by
        rw [Component.parse, if_neg hpiece.1, if_neg hpiece.2]
        split_ifs with hdots
        · exact ⟨_, rfl, hdots.symm⟩
        · exact ⟨_, rfl, rfl⟩
      rw [List.filterMap_cons_some hparse, List.filter_cons_of_pos (by simpa using hpiece),
        List.map_cons, ih, hc]

/-- What an absolute path is taken apart into: its pieces that are not empty and not `.`. -/
lemma parseQueuePath_text {pieces : List Bytes} (hne : pieces ≠ [])
    (hpieces : ∀ piece ∈ pieces, slash ∉ piece ∧ isUtf8 piece = true) :
    parseQueuePath ⟨AbsPath.text pieces⟩ =
      let kept := pieces.filter fun piece => piece ≠ [] ∧ piece ≠ [dot]
      (kept.headD [], kept.tail) := by
  have hroot : isUtf8 [slash] = true := by rfl
  have hcomponents : ((PathBuf.mk (AbsPath.text pieces)).components.map Component.asOsStr).filter
      isUtf8 = [slash] :: pieces.filter fun piece => piece ≠ [] ∧ piece ≠ [dot] := by
    rw [AbsPath.text, PathBuf.components_cons_slash,
      List.splitOn_intercalate slash (fun l hl => (hpieces l hl).1) hne, List.map_cons,
      map_asOsStr_filterMap_parse, Component.asOsStr, List.filter_cons_of_pos hroot]
    congr 1
    refine List.filter_eq_self.2 fun piece hpiece => ?_
    exact (hpieces piece (List.mem_of_mem_filter hpiece)).2
  rw [parseQueuePath]
  simp only [hcomponents, List.head?_cons, Option.any_some, true_or, decide_true, if_true,
    List.drop_succ_cons, List.drop_zero]
  cases pieces.filter fun piece => piece ≠ [] ∧ piece ≠ [dot] <;> rfl

/-- What a queue can be called. -/
structure IsQueueName (name : Bytes) : Prop where
  ne_nil : name ≠ []
  slash_notMem : slash ∉ name
  isUtf8 : isUtf8 name = true

lemma slash_notMem_of_mem {p : PathBuf} {c : Component} (hc : c ∈ p.components)
    (hne : c ≠ .rootDir) : slash ∉ c.asOsStr := by
  cases c with
  | rootDir => exact absurd rfl hne
  | curDir => decide
  | parentDir => decide
  | normal n => exact (PathBuf.isName_of_mem_components hc).2.1

/-- The name of the queue in a path is empty or one that a queue can have. -/
lemma isQueueName_parse {path : PathBuf} (hne : (parseQueuePath path).1 ≠ []) :
    IsQueueName (parseQueuePath path).1 := by
  have hroot : isUtf8 [slash] = true := by rfl
  obtain ⟨c, hc, hcroot, hname, hutf⟩ : ∃ c ∈ path.components, c ≠ .rootDir ∧
      (parseQueuePath path).1 = c.asOsStr ∧ isUtf8 c.asOsStr = true := by
    have hmem (cs : List Component) (n : ℕ)
        (hparse : (parseQueuePath path).1 =
          (((cs.map Component.asOsStr).filter isUtf8).drop n).headD []) :
        ∃ c ∈ cs, (parseQueuePath path).1 = c.asOsStr ∧ isUtf8 c.asOsStr = true := by
      cases hdrop : ((cs.map Component.asOsStr).filter isUtf8).drop n with
      | nil => rw [hdrop] at hparse; exact absurd hparse hne
      | cons name rest =>
        rw [hdrop] at hparse
        have hin := List.mem_of_mem_drop (hdrop ▸ List.mem_cons_self : name ∈ _)
        obtain ⟨hin, hutf⟩ := List.mem_filter.1 hin
        obtain ⟨c, hc, rfl⟩ := List.mem_map.1 hin
        exact ⟨c, hc, hparse, hutf⟩
    have hparse (start : ℕ) (hstart : start = if ((path.components.map Component.asOsStr).filter
        Racfs.isUtf8).head?.any (fun c => c = [slash] ∨ c = []) then 1 else 0) :
        (parseQueuePath path).1 = (((path.components.map Component.asOsStr).filter
          Racfs.isUtf8).drop start).headD [] := by
      rw [parseQueuePath, hstart]
      cases ((path.components.map Component.asOsStr).filter Racfs.isUtf8).drop
        (if ((path.components.map Component.asOsStr).filter Racfs.isUtf8).head?.any
          (fun c => c = [slash] ∨ c = []) then 1 else 0) <;> rfl
    cases hp : path.hasRoot with
    | true =>
      have hcons := PathBuf.components_eq_cons_steps hp
      have h := hparse _ rfl
      rw [hcons, List.map_cons, Component.asOsStr, List.filter_cons_of_pos hroot] at h
      obtain ⟨c, hc, heq, hutf⟩ := hmem path.steps 0 (by simpa using h)
      refine ⟨c, ?_, ?_, heq, hutf⟩
      · rw [hcons]
        exact List.mem_cons_of_mem _ hc
      · rintro rfl
        rcases PathBuf.isName_of_mem_steps hc with h | ⟨n, h, -⟩ <;> cases h
    | false =>
      obtain ⟨c, hc, heq, hutf⟩ := hmem path.components _ (hparse _ rfl)
      refine ⟨c, hc, ?_, heq, hutf⟩
      rintro rfl
      -- the root is the first component, and then the path has one
      have hhead := mt (PathBuf.head?_components path).1 (by simp [hp])
      cases hcs : path.components with
      | nil => rw [hcs] at hc; cases hc
      | cons first rest =>
        rw [hcs] at hc hhead
        rcases List.mem_cons.1 hc with rfl | hc
        · exact hhead rfl
        · have htail : Component.rootDir ∈ path.components.tail := by rwa [hcs]
          rcases PathBuf.isName_of_mem_tail htail with h | ⟨n, h, -⟩ <;> cases h
  exact ⟨hne, by rw [hname]; exact slash_notMem_of_mem hc hcroot, by rw [hname]; exact hutf⟩

/-! ### What holds of all queues -/

/-- Every message of the queue is stored under its identifier, which is the text of a number. -/
def Queue.Labelled (q : Queue) : Prop :=
  ∀ (id : Bytes) (m : Message), q.messages[id]? = some m →
    m.id = id ∧ ∃ n : UInt64, id = formatMessageId n

lemma Queue.Labelled.enqueue {q : Queue} (h : q.Labelled) (data : Bytes) :
    (q.enqueue data).2.Labelled := by
  intro id m hget
  have hget' : (q.messages.insert (formatMessageId q.nextId)
      ⟨formatMessageId q.nextId, data, false⟩)[id]? = some m := hget
  rw [getElem?_insert_message] at hget'
  split_ifs at hget' with heq
  · rw [← Option.some.inj hget', ← heq]
    exact ⟨rfl, q.nextId, rfl⟩
  · exact h id m hget'

lemma Queue.Labelled.dequeue {q q' : Queue} (h : q.Labelled) {id : Bytes}
    (hdeq : q.dequeue id = .ok q') : q'.Labelled := by
  rw [Queue.dequeue] at hdeq
  cases hold : q.messages[id]? with
  | none => rw [hold] at hdeq; cases hdeq
  | some m₀ =>
    rw [hold] at hdeq
    obtain rfl := Outcome.ok.inj hdeq
    intro id' m hget
    rw [Std.TreeMap.getElem?_modify] at hget
    split_ifs at hget with heq
    · obtain rfl := Std.LawfulEqCmp.eq_of_compare heq
      rw [hold] at hget
      obtain rfl := Option.some.inj hget
      exact h id m₀ hold
    · exact h id' m hget

/-- The queues have names that come from paths, and their messages are labelled. -/
structure Tidy (fs : QueueFS) : Prop where
  name : ∀ name q, fs.queues.get? name = some q → IsQueueName name
  labelled : ∀ name q, fs.queues.get? name = some q → q.Labelled

lemma ne_nil_of_mkdir {fs : QueueFS} {path : PathBuf} (perm : UInt32)
    (h : (fs.mkdir path perm).1 = .ok ()) : (parseQueuePath path).1 ≠ [] := by
  intro hnil
  rw [mkdir] at h
  simp only [hnil, if_true] at h
  cases h

lemma Tidy.modify {fs : QueueFS} (h : Tidy fs) {name : Bytes} {q q' : Queue}
    (hq : fs.queues.get? name = some q) (hlabelled : q'.Labelled) :
    Tidy ⟨fs.queues.modify name fun _ => q'⟩ := by
  have hget (name' : Bytes) (q'' : Queue)
      (hget : (fs.queues.modify name fun _ => q').get? name' = some q'') :
      IsQueueName name' ∧ q''.Labelled := by
    rw [AssocMap.get?_modify] at hget
    split_ifs at hget with heq
    · rw [beq_iff_eq] at heq
      subst heq
      rw [hq] at hget
      obtain rfl := Option.some.inj hget
      exact ⟨h.name name q hq, hlabelled⟩
    · exact ⟨h.name name' q'' hget, h.labelled name' q'' hget⟩
  exact ⟨fun n q hn => (hget n q hn).1, fun n q hn => (hget n q hn).2⟩

/-- A call keeps the queues tidy. -/
lemma Tidy.exec {fs : QueueFS} (h : Tidy fs) (ev : Event) : Tidy (exec fs ev).2 := by
  have heffect := effect_exec fs ev
  generalize hr : (QueueFs.exec fs ev).1 = r at heffect
  generalize (QueueFs.exec fs ev).2 = fs' at heffect ⊢
  cases heffect with
  | fail _ => exact h
  | @mkdir path perm name hpath hnone =>
    have hname := isQueueName_parse (ne_nil_of_mkdir perm hr)
    rw [hpath] at hname
    have hget (name' : Bytes) (q : Queue)
        (hget : (fs.queues.insert name .new).get? name' = some q) :
        IsQueueName name' ∧ q.Labelled := by
      rw [AssocMap.get?_insert] at hget
      split_ifs at hget with heq
      · rw [beq_iff_eq] at heq
        obtain rfl := Option.some.inj hget
        refine ⟨heq ▸ hname, fun id m hm => ?_⟩
        rw [Queue.new, Std.TreeMap.getElem?_emptyc] at hm
        cases hm
      · exact ⟨h.name name' q hget, h.labelled name' q hget⟩
    exact ⟨fun n q hn => (hget n q hn).1, fun n q hn => (hget n q hn).2⟩
  | remove hev hpath =>
    exact ⟨fun n q hn => h.name n q (AssocMap.get?_of_get?_erase hn),
      fun n q hn => h.labelled n q (AssocMap.get?_of_get?_erase hn)⟩
  | enqueue hpath hq => exact h.modify hq ((h.labelled _ _ hq).enqueue _)
  | dequeue hpath hq hid => exact h.modify hq ((h.labelled _ _ hq).dequeue hid)

lemma tidy_of_reachable {s : State} (h : Reachable step init s) : Tidy s.fs := by
  refine h.invariant (P := fun s => Tidy s.fs) ⟨nofun, nofun⟩ ?_
  intro s ev s' hs hstep
  obtain rfl := Option.some.inj hstep
  exact hs.exec ev

/-! ### The paths in the listings -/

/-- The path of an entry leads back to the queue and what follows. -/
lemma parse_below {name : Bytes} (hname : IsQueueName name) {rest : List Bytes}
    (hrest : ∀ piece ∈ rest, slash ∉ piece ∧ isUtf8 piece = true ∧ piece ≠ [] ∧ piece ≠ [dot]) :
    parseQueuePath ⟨AbsPath.text (name :: rest)⟩ =
      if name = [dot] then (rest.headD [], rest.tail) else (name, rest) := by
  have hkept : rest.filter (fun piece => piece ≠ [] ∧ piece ≠ [dot]) = rest :=
    List.filter_eq_self.2 fun piece hpiece => decide_eq_true (hrest piece hpiece).2.2
  rw [parseQueuePath_text (List.cons_ne_nil _ _)]
  · by_cases hdot : name = [dot]
    · rw [if_pos hdot, List.filter_cons_of_neg (by simp [hdot]), hkept]
    · rw [if_neg hdot, List.filter_cons_of_pos (by simp [hdot, hname.ne_nil]), hkept]
      rfl
  · intro piece hpiece
    rcases List.mem_cons.1 hpiece with rfl | hpiece
    · exact ⟨hname.slash_notMem, hname.isUtf8⟩
    · exact ⟨(hrest piece hpiece).1, (hrest piece hpiece).2.1⟩

lemma queuePath_eq (name : Bytes) : queuePath name = ⟨AbsPath.text [name]⟩ := by
  simp [queuePath, AbsPath.text]

lemma filePath_eq (name : Bytes) (file : String) :
    filePath name file = ⟨AbsPath.text [name, ascii file]⟩ := by
  simp [filePath, AbsPath.text, List.intercalate]

lemma messagePath_eq (name id : Bytes) :
    messagePath name id = ⟨AbsPath.text [name, ascii "messages", id]⟩ := by
  have htext : ascii "/messages/" = slash :: ascii "messages" ++ [slash] := by decide
  rw [messagePath, htext]
  simp [AbsPath.text, List.intercalate]

lemma metadataPath_eq (name : Bytes) :
    filePath name "metadata/count" = ⟨AbsPath.text [name, ascii "metadata", ascii "count"]⟩ ∧
      filePath name "metadata/config" =
        ⟨AbsPath.text [name, ascii "metadata", ascii "config"]⟩ := by
  have hcount : ascii "metadata/count" = ascii "metadata" ++ slash :: ascii "count" := by decide
  have hconfig : ascii "metadata/config" = ascii "metadata" ++ slash :: ascii "config" := by decide
  rw [filePath, filePath, hcount, hconfig]
  simp [AbsPath.text, List.intercalate]

/-! ### Agreement -/

namespace QueueFS

/-- The path of the entry can be passed to `stat`, which returns the same type and size, and if the
entry is a file, its size is the length of what is read. -/
def Agrees (fs : QueueFS) (e : FileMetadata) : Prop :=
  ∀ now, ∃ m, fs.stat e.path now = .ok m ∧ m.isFile = e.isFile ∧ m.isDirectory = e.isDirectory ∧
    m.size = e.size ∧
    (e.isFile = true → ∃ data, fs.read e.path 0 (-1) = .ok data ∧
      e.size = data.length.toUInt64)

/-- The listed path is not that of a queue; no queue is called `.` when it is the root; and when it
is below a queue called `.`, it is not that of the metadata, and that of the messages only if all of
them are acknowledged. -/
def LeadsBack (fs : QueueFS) (path : PathBuf) : Prop :=
  ((parseQueuePath path).2 = [] →
    (parseQueuePath path).1 = [] ∧ fs.queues.get? [dot] = none) ∧
  ((parseQueuePath path).1 = [dot] → (parseQueuePath path).2 ≠ [ascii "metadata"] ∧
    ((parseQueuePath path).2 = [ascii "messages"] →
      ∀ q, fs.queues.get? [dot] = some q → q.unacknowledged = []))

variable {fs : QueueFS} {path : PathBuf} {name : Bytes} {rest : List Bytes} {q : Queue}

lemma ensureQueueExists_of_get? (hq : fs.queues.get? name = some q) :
    fs.ensureQueueExists name = .ok () := by
  rw [ensureQueueExists, if_pos (AssocMap.contains_iff.2 ⟨q, hq⟩)]

lemma ensureQueueExists_of_none (hq : fs.queues.get? name = none) :
    fs.ensureQueueExists name = .err (.NotFound (queuePath name)) := by
  rw [ensureQueueExists, if_neg]
  rw [Bool.not_eq_true]
  exact AssocMap.contains_eq_false_iff.2 hq

/-- `stat` of a path below a queue. -/
lemma stat_below (hparse : parseQueuePath path = (name, rest)) (hrest : rest ≠ [])
    (hq : fs.queues.get? name = some q) (now : DateTime) :
    fs.stat path now =
      if rest = [ascii "head"] ∨ rest = [ascii "tail"] then .ok (FileMetadata.file path 0 now)
      else (content path name q rest).map fun data =>
        FileMetadata.file path data.length.toUInt64 now := by
  rw [stat, hparse]
  simp only [if_neg hrest, ensureQueueExists_of_get? hq, getQueue, hq, Outcome.ok_bind]

/-- What is read from all of a file. -/
lemma read_below (hparse : parseQueuePath path = (name, rest)) (hrest : rest ≠ [])
    (hq : fs.queues.get? name = some q) :
    fs.read path 0 (-1) = content path name q rest := by
  rw [read, hparse]
  simp only [if_neg hrest, ensureQueueExists_of_get? hq, getQueue, hq, Outcome.ok_bind]
  cases content path name q rest with
  | ok data => exact MemFs.MemFS.readData_whole data
  | err e => rfl
  | panic => rfl

/-- A file that is listed with the length of its content. -/
lemma agrees_of_content (hparse : parseQueuePath path = (name, rest)) (hrest : rest ≠ [])
    (hname : rest ≠ [ascii "head"] ∧ rest ≠ [ascii "tail"]) (hq : fs.queues.get? name = some q)
    {data : Bytes} (hcontent : content path name q rest = .ok data) (now : DateTime) :
    fs.Agrees (.file path data.length.toUInt64 now) := by
  intro now'
  refine ⟨.file path data.length.toUInt64 now', ?_, rfl, rfl, rfl, fun _ => ⟨data, ?_, rfl⟩⟩
  · show fs.stat path now' = _
    rw [stat_below hparse hrest hq, if_neg (not_or.2 hname), hcontent]
    rfl
  · show fs.read path 0 (-1) = _
    rw [read_below hparse hrest hq, hcontent]

/-- What `stat` does not find does not agree. -/
lemma not_agrees_of_stat {e : FileMetadata} (h : ∀ now m, fs.stat e.path now ≠ .ok m) :
    ¬ fs.Agrees e := by
  intro hagrees
  obtain ⟨m, hm, -⟩ := hagrees 0
  exact h 0 m hm

/-- A queue has no other files than `head` and `tail`. -/
lemma not_agrees_of_unknown {e : FileMetadata} {f : Bytes}
    (hparse : parseQueuePath e.path = (name, [f])) (hhead : f ≠ ascii "head")
    (htail : f ≠ ascii "tail") : ¬ fs.Agrees e := by
  refine not_agrees_of_stat fun now m hm => ?_
  cases hq : fs.queues.get? name with
  | none =>
    rw [stat, hparse] at hm
    simp only [List.cons_ne_nil, if_false, ensureQueueExists_of_none hq] at hm
    cases hm
  | some q =>
    rw [stat_below hparse (List.cons_ne_nil _ _) hq, if_neg (by simp [hhead, htail]), content,
      if_neg hhead, if_neg htail] at hm
    cases hm

/-- The text of a number is neither empty nor `.`, and no other file of a queue has this name. -/
lemma formatMessageId_facts (n : UInt64) :
    (slash ∉ formatMessageId n ∧ isUtf8 (formatMessageId n) = true ∧ formatMessageId n ≠ [] ∧
      formatMessageId n ≠ [dot]) ∧
    formatMessageId n ≠ ascii "head" ∧ formatMessageId n ≠ ascii "tail" := by
  have hname := isName_zeroPadded n.toNat
  have hlen := le_length_zeroPadded 6 n.toNat
  have hother {f : Bytes} (hf : f.length < 6) : formatMessageId n ≠ f := by
    rintro rfl
    exact absurd hlen (Nat.not_le_of_lt hf)
  exact ⟨⟨hname.2.1, isUtf8_of_isAscii (isAscii_zeroPadded 6 n.toNat), hname.1, hname.2.2.1⟩,
    hother (by decide), hother (by decide)⟩

/-! ### The directories -/

/-- The root. -/
lemma agrees_root_iff (h : Tidy fs) (now : DateTime) :
    (∀ e ∈ fs.queues.entries.map fun e => FileMetadata.directory (queuePath e.1) now,
      fs.Agrees e) ↔ fs.queues.get? [dot] = none := by
  have hparse {name : Bytes} (hname : IsQueueName name) : parseQueuePath (queuePath name) =
      if name = [dot] then ([], []) else (name, []) := by
    rw [queuePath_eq, parse_below hname (List.forall_mem_nil _)]
    rfl
  have hstat {p : PathBuf} {n : Bytes} (hp : parseQueuePath p = (n, [])) (now : DateTime) :
      fs.stat p now = (fs.ensureQueueExists n).map fun _ => .directory p now := by
    rw [stat, hp]
    exact if_pos rfl
  constructor
  · intro hall
    by_contra hdot
    obtain ⟨q, hq⟩ := Option.ne_none_iff_exists'.1 hdot
    obtain ⟨name, hmem, heq⟩ := AssocMap.mem_of_get? hq
    obtain rfl := beq_iff_eq.1 heq
    refine not_agrees_of_stat (fun now' m hm => ?_)
      (hall _ (List.mem_map.2 ⟨_, hmem, rfl⟩))
    have hnone : fs.queues.get? [] = none := by
      by_contra hsome
      obtain ⟨q', hq'⟩ := Option.ne_none_iff_exists'.1 hsome
      exact (h.name [] q' hq').ne_nil rfl
    have hroot : parseQueuePath (queuePath [dot]) = ([], []) := rfl
    change fs.stat (queuePath [dot]) now' = _ at hm
    rw [hstat hroot, ensureQueueExists_of_none hnone] at hm
    cases hm
  · intro hdot e he
    obtain ⟨⟨name, q⟩, hmem, rfl⟩ := List.mem_map.1 he
    have hq : fs.queues.get? name = some q := AssocMap.get?_of_mem hmem
    have hne : name ≠ [dot] := by
      rintro rfl
      rw [hdot] at hq
      cases hq
    have hp := hparse (h.name name q hq)
    rw [if_neg hne] at hp
    intro now'
    refine ⟨.directory (queuePath name) now', ?_, rfl, rfl, rfl, fun hfile => ?_⟩
    · show fs.stat (queuePath name) now' = _
      rw [hstat hp, ensureQueueExists_of_get? hq]
      rfl
    · have hnot : (FileMetadata.dirMode &&& S_IFMT == S_IFREG) = false := by decide
      exact absurd (hfile.symm.trans hnot) Bool.noConfusion

/-- A queue. -/
lemma not_agrees_queue (hname : IsQueueName name) (now : DateTime) :
    ¬ ∀ e ∈ [FileMetadata.file (filePath name "head") 0 now,
        FileMetadata.file (filePath name "tail") 0 now,
        FileMetadata.directory (filePath name "messages") now,
        FileMetadata.directory (filePath name "metadata") now,
        FileMetadata.directory (filePath name ".ack") now], fs.Agrees e := by
  intro hall
  by_cases hdot : name = [dot]
  · -- `/./head` is the queue `head`, if there is one
    subst hdot
    obtain ⟨m, hm, hfile, -⟩ := hall _ List.mem_cons_self 0
    have hparse : parseQueuePath (filePath [dot] "head") = (ascii "head", []) := rfl
    change fs.stat (filePath [dot] "head") 0 = _ at hm
    rw [stat, hparse] at hm
    simp only [if_true] at hm
    cases hq : fs.queues.get? (ascii "head") with
    | none => rw [ensureQueueExists_of_none hq] at hm; cases hm
    | some q =>
      rw [ensureQueueExists_of_get? hq] at hm
      rw [← Outcome.ok.inj hm] at hfile
      change (FileMetadata.dirMode &&& S_IFMT == S_IFREG) =
        (FileMetadata.fileMode &&& S_IFMT == S_IFREG) at hfile
      revert hfile
      decide
  · have hparse : parseQueuePath (filePath name "messages") = (name, [ascii "messages"]) := by
      rw [filePath_eq, parse_below hname (by decide), if_neg hdot]
    refine not_agrees_of_unknown (e := .directory (filePath name "messages") now) hparse
      (by decide) (by decide) (hall _ ?_)
    simp

/-- The messages of a queue. -/
lemma agrees_messages_iff (h : Tidy fs) (hq : fs.queues.get? name = some q) (now : DateTime) :
    (∀ e ∈ q.unacknowledged.map fun m =>
        FileMetadata.file (messagePath name m.id) m.data.length.toUInt64 now, fs.Agrees e) ↔
      (name = [dot] → q.unacknowledged = []) := by
  have hname := h.name name q hq
  have hparse (n : UInt64) : parseQueuePath (messagePath name (formatMessageId n)) =
      if name = [dot] then (ascii "messages", [formatMessageId n])
      else (name, [ascii "messages", formatMessageId n]) := by
    rw [messagePath_eq, parse_below hname]
    · rfl
    · intro piece hpiece
      simp only [List.mem_cons, List.not_mem_nil, or_false] at hpiece
      rcases hpiece with rfl | rfl
      · decide
      · exact (formatMessageId_facts n).1
  have hstored {m : Message} (hm : m ∈ q.unacknowledged) :
      q.messages[m.id]? = some m ∧ m.acknowledged = false ∧
        ∃ n : UInt64, m.id = formatMessageId n := by
    obtain ⟨hmem, hack⟩ := List.mem_filter.1 hm
    obtain ⟨⟨id, m'⟩, hin, rfl⟩ := List.mem_map.1 hmem
    have hget := Std.TreeMap.mem_toList_iff_getElem?_eq_some.1 hin
    obtain ⟨hid, n, hn⟩ := h.labelled name q hq id m' hget
    dsimp only at hid hack ⊢
    rw [hid]
    exact ⟨hget, by simpa using hack, n, hn⟩
  constructor
  · rintro hall rfl
    by_contra hne
    obtain ⟨m, hm⟩ := List.exists_mem_of_ne_nil _ hne
    obtain ⟨-, -, n, hn⟩ := hstored hm
    have hp := hparse n
    rw [if_pos rfl, ← hn] at hp
    have hfacts := (formatMessageId_facts n).2
    rw [← hn] at hfacts
    exact not_agrees_of_unknown (e := .file _ _ now) hp hfacts.1 hfacts.2
      (hall _ (List.mem_map.2 ⟨m, hm, rfl⟩))
  · intro hdot e he
    obtain ⟨m, hm, rfl⟩ := List.mem_map.1 he
    have hne : name ≠ [dot] := fun heq => by
      rw [hdot heq] at hm
      cases hm
    obtain ⟨hget, hack, n, hn⟩ := hstored hm
    have hp := hparse n
    rw [if_neg hne, ← hn] at hp
    refine agrees_of_content hp (List.cons_ne_nil _ _) (by simp) hq ?_ now
    rw [content, if_pos rfl, Queue.getMessage, hget]
    simp [hack, Option.filter]

/-- The metadata of a queue. -/
lemma agrees_metadata_iff (h : Tidy fs) (hq : fs.queues.get? name = some q) (now : DateTime) :
    (∀ e ∈ [FileMetadata.file (filePath name "metadata/count")
          (decimal q.getCount.toNat).length.toUInt64 now,
        FileMetadata.file (filePath name "metadata/config")
          (config name q).length.toUInt64 now], fs.Agrees e) ↔ name ≠ [dot] := by
  have hname := h.name name q hq
  constructor
  · rintro hall rfl
    have hp : parseQueuePath (filePath [dot] "metadata/count") =
        (ascii "metadata", [ascii "count"]) := rfl
    exact not_agrees_of_unknown (e := .file _ _ now) hp (by decide) (by decide)
      (hall _ List.mem_cons_self)
  · intro hdot e he
    have hcount : parseQueuePath (filePath name "metadata/count") =
        (name, [ascii "metadata", ascii "count"]) := by
      rw [(metadataPath_eq name).1, parse_below hname (by decide), if_neg hdot]
    have hconfig : parseQueuePath (filePath name "metadata/config") =
        (name, [ascii "metadata", ascii "config"]) := by
      rw [(metadataPath_eq name).2, parse_below hname (by decide), if_neg hdot]
    simp only [List.mem_cons, List.not_mem_nil, or_false] at he
    rcases he with rfl | rfl
    · exact agrees_of_content hcount (List.cons_ne_nil _ _) (by decide) hq rfl now
    · exact agrees_of_content hconfig (List.cons_ne_nil _ _) (by decide) hq rfl now

/-- All entries of all listings agree with `stat` and `read`. -/
def ListingsAgree (fs : QueueFS) : Prop :=
  ∀ path now entries, fs.readDir path now = .ok entries → ∀ e ∈ entries, fs.Agrees e

/-- One listing. -/
lemma agrees_readDir_iff (h : Tidy fs) {now : DateTime} {entries : List FileMetadata}
    (hlist : fs.readDir path now = .ok entries) :
    (∀ e ∈ entries, fs.Agrees e) ↔ fs.LeadsBack path := by
  rcases hparse : parseQueuePath path with ⟨name, rest⟩
  rw [LeadsBack, hparse]
  rw [readDir, hparse] at hlist
  dsimp only at hlist ⊢
  by_cases hroot : rest = [] ∧ name = []
  · obtain ⟨rfl, rfl⟩ := hroot
    rw [if_pos ⟨rfl, rfl⟩] at hlist
    rw [← Outcome.ok.inj hlist, agrees_root_iff h]
    simp
  · rw [if_neg hroot] at hlist
    cases hq : fs.queues.get? name with
    | none =>
      rw [ensureQueueExists_of_none hq] at hlist
      cases hlist
    | some q =>
      rw [ensureQueueExists_of_get? hq, Outcome.ok_bind] at hlist
      simp only [getQueue, hq] at hlist
      have hne : name ≠ [] := (h.name name q hq).ne_nil
      split_ifs at hlist with hnil hmessages hmetadata hack
      · rw [← Outcome.ok.inj hlist]
        exact iff_of_false (not_agrees_queue (h.name name q hq) now) fun hback =>
          hne (hback.1 hnil).1
      · rw [← Outcome.ok.inj hlist, agrees_messages_iff h hq]
        subst hmessages
        constructor
        · refine fun hdot => ⟨fun hnil => absurd hnil (by simp), fun heq => ⟨by decide, ?_⟩⟩
          rintro - q' hq'
          rw [heq] at hq
          obtain rfl := Option.some.inj (hq.symm.trans hq')
          exact hdot heq
        · rintro ⟨-, hdot⟩ heq
          exact (hdot heq).2 rfl q (heq ▸ hq)
      · rw [← Outcome.ok.inj hlist, agrees_metadata_iff h hq]
        subst hmetadata
        constructor
        · exact fun hdot => ⟨fun hnil => absurd hnil (by simp), fun heq => absurd heq hdot⟩
        · rintro ⟨-, hdot⟩ heq
          exact (hdot heq).1 rfl
      · rw [← Outcome.ok.inj hlist]
        subst hack
        refine iff_of_true (List.forall_mem_nil _) ⟨fun hnil => absurd hnil (by simp), ?_⟩
        exact fun _ => ⟨by decide, fun heq => absurd heq (by decide)⟩

/-- A listing that disagrees is there as soon as there is a queue. -/
lemma listingsAgree_iff (h : Tidy fs) :
    fs.ListingsAgree ↔ ∀ name, fs.queues.get? name = none := by
  constructor
  · intro hall name
    by_contra hsome
    obtain ⟨q, hq⟩ := Option.ne_none_iff_exists'.1 hsome
    have hname := h.name name q hq
    obtain ⟨path, hparse⟩ : ∃ path, parseQueuePath path = (name, []) := by
      by_cases hdot : name = [dot]
      · subst hdot
        exact ⟨⟨[dot]⟩, rfl⟩
      · refine ⟨queuePath name, ?_⟩
        rw [queuePath_eq, parse_below hname (List.forall_mem_nil _), if_neg hdot]
    refine not_agrees_queue hname 0 (hall path 0 _ ?_)
    rw [readDir, hparse]
    simp only [hname.ne_nil, and_false, if_false, ensureQueueExists_of_get? hq, Outcome.ok_bind,
      if_true]
  · intro hnone path now entries hlist
    rcases hparse : parseQueuePath path with ⟨name, rest⟩
    rw [readDir, hparse] at hlist
    dsimp only at hlist
    by_cases hroot : rest = [] ∧ name = []
    · rw [if_pos hroot] at hlist
      rw [← Outcome.ok.inj hlist]
      intro e he
      obtain ⟨⟨name', q⟩, hmem, -⟩ := List.mem_map.1 he
      have hq := AssocMap.get?_of_mem hmem
      rw [hnone name'] at hq
      cases hq
    · rw [if_neg hroot, ensureQueueExists_of_none (hnone name)] at hlist
      cases hlist

/-- The call does not ask for a new queue. -/
def MakesNoQueue (_s : State) (ev : Event) : Prop :=
  ∀ path perm, ev = .mkdir path perm →
    (parseQueuePath path).1 = [] ∨ (parseQueuePath path).2 ≠ []

/-- A call makes no queue where there is none, unless it asks for one. -/
lemma noQueue_step_iff {s s' : State} {ev : Event} (h : ∀ name, s.fs.queues.get? name = none)
    (hstep : step s ev = some s') :
    (∀ name, s'.fs.queues.get? name = none) ↔ MakesNoQueue s ev := by
  obtain rfl := Option.some.inj hstep
  change (∀ name, (exec s.fs ev).2.queues.get? name = none) ↔ _
  by_cases hmkdir : ∃ path perm, ev = .mkdir path perm
  · obtain ⟨path, perm, rfl⟩ := hmkdir
    have hmakes : MakesNoQueue s (.mkdir path perm) ↔
        (parseQueuePath path).1 = [] ∨ (parseQueuePath path).2 ≠ [] := by
      refine ⟨fun hm => hm path perm rfl, ?_⟩
      rintro hm _ _ ⟨⟩
      exact hm
    rw [hmakes]
    change (∀ name, (s.fs.mkdir path perm).2.queues.get? name = none) ↔ _
    rw [mkdir]
    dsimp only
    split_ifs with hnil hrest hcontains
    · exact iff_of_true h (Or.inl hnil)
    · exact iff_of_true h (Or.inr hrest)
    · obtain ⟨q, hq⟩ := AssocMap.contains_iff.1 hcontains
      rw [h] at hq
      cases hq
    · refine iff_of_false (fun hnone => ?_) (not_or.2 ⟨hnil, not_not.2 (not_not.1 hrest)⟩)
      have hself := hnone (parseQueuePath path).1
      rw [AssocMap.get?_insert_self] at hself
      cases hself
  · refine iff_of_true ?_ fun path perm heq => absurd ⟨path, perm, heq⟩ hmkdir
    have heffect := effect_exec s.fs ev
    generalize (exec s.fs ev).1 = r at heffect
    generalize (exec s.fs ev).2 = fs' at heffect ⊢
    cases heffect with
    | fail _ => exact h
    | mkdir _ _ => exact absurd ⟨_, _, rfl⟩ hmkdir
    | remove _ _ =>
      intro name
      rw [AssocMap.get?_erase, h name, ite_self]
    | enqueue _ hq => rw [h] at hq; cases hq
    | dequeue _ hq _ => rw [h] at hq; cases hq

/-- **Listing, `stat` and `read`.**  In the state that a run reaches and for every path that can be
listed, the entries agree with `stat` and `read` if and only if they lead back.  All listings of all
states of the run agree if and only if no call of it asks for a queue. -/
theorem listing_agrees_iff (evs : List Event) :
    (∀ s, run step init evs = some s → ∀ path now entries, s.fs.readDir path now = .ok entries →
      ((∀ e ∈ entries, s.fs.Agrees e) ↔ s.fs.LeadsBack path)) ∧
    (StatesMeet step (fun s => s.fs.ListingsAgree) init evs ↔
      StepsMeet step MakesNoQueue init evs) := by
  refine ⟨fun s h path now entries hlist =>
    agrees_readDir_iff (tidy_of_reachable ⟨evs, h⟩) hlist, ?_⟩
  have hinit : Tidy init.fs := ⟨nofun, nofun⟩
  refine statesMeet_iff_stepsMeet (A := fun s => Tidy s.fs) ?_ ?_ hinit
    ((listingsAgree_iff hinit).2 fun _ => rfl)
  · intro s ev s' hs hstep
    obtain rfl := Option.some.inj hstep
    exact hs.exec ev
  · intro s ev s' hs hagree hstep
    have hs' : Tidy s'.fs := by
      obtain rfl := Option.some.inj hstep
      exact hs.exec ev
    rw [listingsAgree_iff hs']
    exact noQueue_step_iff ((listingsAgree_iff hs).1 hagree) hstep

/-- One queue. -/
def oneQueue : List Event := [.mkdir ⟨ascii "/q"⟩ 0o755]

/-- The metadata of a new queue agree. -/
theorem listing_agrees_metadata :
    ∃ s entries, run step init oneQueue = some s ∧
      s.fs.readDir ⟨ascii "/q/metadata"⟩ 0 = .ok entries ∧ entries.length = 2 ∧
      ∀ e ∈ entries, s.fs.Agrees e := by
  refine ⟨_, _, rfl, rfl, rfl, ?_⟩
  refine ((listing_agrees_iff oneQueue).1 _ rfl ⟨ascii "/q/metadata"⟩ 0 _ rfl).2 ⟨?_, ?_⟩
  · intro hnil
    have hparse : (parseQueuePath ⟨ascii "/q/metadata"⟩).2 = [ascii "metadata"] := rfl
    rw [hparse] at hnil
    cases hnil
  · intro hdot
    have hparse : (parseQueuePath ⟨ascii "/q/metadata"⟩).1 = ascii "q" := rfl
    rw [hparse] at hdot
    exact absurd hdot (by decide)

/-- A new queue lists its directory of messages, which `stat` does not find. -/
theorem listing_disagrees_queue :
    ∃ s entries, Reachable step init s ∧ s.fs.readDir ⟨ascii "/q"⟩ 0 = .ok entries ∧
      FileMetadata.directory ⟨ascii "/q/messages"⟩ 0 ∈ entries ∧
      s.fs.stat ⟨ascii "/q/messages"⟩ 0 = .err (.NotFound ⟨ascii "/q/messages"⟩) ∧
      ¬ ∀ e ∈ entries, s.fs.Agrees e := by
  refine ⟨_, _, ⟨oneQueue, rfl⟩, rfl, ?_, rfl, ?_⟩
  · exact List.mem_of_getElem? (i := 2) rfl
  · intro hall
    obtain ⟨m, hm, -⟩ := hall (.directory ⟨ascii "/q/messages"⟩ 0)
      (List.mem_of_getElem? (i := 2) rfl) 0
    cases hm

end QueueFS

end Racfs.QueueFs
