/-
# The endpoints for extended attributes

The handlers behind `/api/v1/xattr` (`racfs-server/src/api/xattr.rs`).  The values are sent in
base64.  A change drops the cached metadata of its path when it succeeds.

An attribute belongs to a file of a mounted filesystem, and different paths may lead to the file.
What is said of the handlers is said of all attributes of all files: one of them changes, or none
(`Attributes`).
-/
import Racfs.Lib.Base64
import Racfs.MemFs.Subtree
import Racfs.Server.Api

namespace Racfs

open MemFs

namespace Server

open Vfs

/-! ### Handlers -/

section Handlers

variable {ι : Type*} [DecidableEq ι]

namespace AppState

variable (s : AppState ι)

/-- The value of an extended attribute. -/
def getXattr (path : PathBuf) (name : Bytes) : Outcome Bytes :=
  (s.vfs.resolveFs path).bind fun r => (s.backend r.1).getXattr r.2 name

/-- The names of the extended attributes. -/
def listXattr (path : PathBuf) : Outcome (List Bytes) :=
  (s.vfs.resolveFs path).bind fun r => (s.backend r.1).listXattr r.2

end AppState

namespace ServerState

variable (engine : Base64Engine) (s : ServerState ι)

/-- `GET`: the value of an attribute. -/
def getXattr (path name : Bytes) : Response Bytes :=
  match validatePath path with
  | some e => .error e
  | none => respond (ascii "get_xattr") ⟨path⟩ engine.encode (s.app.getXattr ⟨path⟩ name)

/-- `POST`: set an attribute. -/
def setXattr (path name value : Bytes) : Response Bytes × ServerState ι :=
  match validatePath path with
  | some e => (.error e, s)
  | none =>
    match engine.decode value with
    | none => (.error ⟨.BadRequest, ascii "Invalid base64 value", none⟩, s)
    | some value =>
      s.change (ascii "set_xattr") ⟨path⟩ (ascii "Set xattr " ++ name ++ ascii " on " ++ path)
        fun fs p => fs.setXattr p name value

/-- `DELETE`: remove an attribute. -/
def removeXattr (path name : Bytes) : Response Bytes × ServerState ι :=
  match validatePath path with
  | some e => (.error e, s)
  | none =>
    s.change (ascii "remove_xattr") ⟨path⟩
      (ascii "Removed xattr " ++ name ++ ascii " from " ++ path) fun fs p => fs.removeXattr p name

/-- `GET`: the names of the attributes. -/
def listXattr (path : Bytes) : Response (List Bytes) :=
  match validatePath path with
  | some e => .error e
  | none => respond (ascii "list_xattr") ⟨path⟩ id (s.app.listXattr ⟨path⟩)

end ServerState

end Handlers

end Server

/-! ### The attributes of a file in memory -/

namespace MemFs

open MemFS

variable {fs : MemFS} {p : PathBuf}

lemma getEntry_of_contains (h : fs.files.contains p = true) : ∃ e, fs.getEntry p = .ok e := by
  obtain ⟨e, he⟩ := AssocMap.contains_iff.1 h
  exact ⟨e, by rw [getEntry, he]⟩

lemma getEntry_of_not_contains (h : fs.files.contains p = false) :
    fs.getEntry p = .err (.NotFound p) := by
  rw [getEntry, AssocMap.contains_eq_false_iff.1 h]

lemma getXattr_eq (h : fs.files.contains p = true) (name : Bytes) :
    fs.getXattr p name = match attr fs p name with
      | some v => .ok v
      | none => .err xattrNotFound := by
  obtain ⟨e, he⟩ := getEntry_of_contains h
  rw [getXattr, he]
  rfl

/-- The attribute of the path has the value, or none, and all others are as they were. -/
structure AttrChanged (fs fs' : MemFS) (p : PathBuf) (name : Bytes) (value : Option Bytes) : Prop
    where
  files : fs'.files = fs.files
  attr : ∀ q n, attr fs' q n = if (p == q) = true ∧ n = name then value else attr fs q n

lemma setXattr_eq (h : fs.files.contains p = true) (name value : Bytes) :
    (fs.setXattr p name value).1 = .ok .unit ∧
      AttrChanged fs (fs.setXattr p name value).2 p name (some value) := by
  obtain ⟨e, he⟩ := getEntry_of_contains h
  have hset : fs.setXattr p name value = (.ok .unit, { fs with
      xattrs := fs.xattrs.insert p (((fs.xattrs.get? p).getD ∅).insert name value) }) :=
    check_of_ok he _
  rw [hset]
  refine ⟨rfl, rfl, fun q n => ?_⟩
  rw [attr, AssocMap.get?_insert]
  split_ifs with hq hboth hboth
  · rw [Option.bind_some, hboth.2, AssocMap.get?_insert_self]
  · rw [Option.bind_some, AssocMap.get?_insert, if_neg, attr, ← AssocMap.get?_congr _ hq]
    · cases fs.xattrs.get? p <;> rfl
    · exact fun heq => hboth ⟨hq, (eq_of_beq heq).symm⟩
  · exact absurd hboth.1 hq
  · rfl

lemma removeXattr_of_some (h : fs.files.contains p = true) {name value : Bytes}
    (hattr : attr fs p name = some value) :
    (fs.removeXattr p name).1 = .ok .unit ∧
      AttrChanged fs (fs.removeXattr p name).2 p name none := by
  obtain ⟨e, he⟩ := getEntry_of_contains h
  obtain ⟨attrs, hattrs, hget⟩ := Option.bind_eq_some_iff.1 hattr
  have hcontains : attrs.contains name = true := AssocMap.contains_iff.2 ⟨value, hget⟩
  have hremove : fs.removeXattr p name =
      (.ok .unit, { fs with xattrs := fs.xattrs.modify p fun _ => attrs.erase name }) := by
    rw [removeXattr, check_of_ok he, hattrs]
    simp only [hcontains, if_true]
  rw [hremove]
  refine ⟨rfl, rfl, fun q n => ?_⟩
  rw [attr, AssocMap.get?_modify]
  split_ifs with hq hboth hboth
  · rw [← AssocMap.get?_congr _ hq, hattrs, Option.map_some, Option.bind_some, hboth.2,
      AssocMap.get?_erase_self]
  · rw [← AssocMap.get?_congr _ hq, hattrs, Option.map_some, Option.bind_some,
      AssocMap.get?_erase, if_neg, attr, ← AssocMap.get?_congr _ hq, hattrs, Option.bind_some]
    exact fun heq => hboth ⟨hq, (eq_of_beq heq).symm⟩
  · exact absurd hboth.1 hq
  · rfl

lemma removeXattr_of_none (h : fs.files.contains p = true) {name : Bytes}
    (hattr : attr fs p name = none) : fs.removeXattr p name = (.err xattrNotFound, fs) := by
  obtain ⟨e, he⟩ := getEntry_of_contains h
  rw [removeXattr, check_of_ok he]
  cases hattrs : fs.xattrs.get? p with
  | none => rfl
  | some attrs =>
    rw [attr, hattrs, Option.bind_some] at hattr
    have hcontains : attrs.contains name = false := AssocMap.contains_eq_false_iff.2 hattr
    simp only [hcontains, Bool.false_eq_true, if_false]

lemma listXattr_eq (h : fs.files.contains p = true) :
    ∃ names, fs.listXattr p = .ok names ∧ names.Nodup ∧
      ∀ name, name ∈ names ↔ (attr fs p name).isSome = true := by
  obtain ⟨e, he⟩ := getEntry_of_contains h
  refine ⟨((fs.xattrs.get? p).map AssocMap.keys).getD [], by rw [listXattr, he]; rfl, ?_⟩
  cases hattrs : fs.xattrs.get? p with
  | none => simp [attr, hattrs]
  | some attrs =>
    refine ⟨attrs.nodup_keys, fun name => ?_⟩
    rw [attr, hattrs, Option.bind_some, Option.isSome_iff_exists]
    exact AssocMap.mem_keys

end MemFs

/-! ### The handlers and the attributes -/

namespace Server

open Vfs MemFs

/-- The attributes of the files of mounted filesystems. -/
abbrev Attributes (ι : Type*) := ι → PathBuf → Bytes → Option Bytes

/-- The attributes after a change of one. -/
def Attributes.put {ι : Type*} [DecidableEq ι] (attrs : Attributes ι) (file : ι × PathBuf)
    (name : Bytes) (value : Option Bytes) : Attributes ι := fun i p n =>
  if i = file.1 ∧ (file.2 == p) = true ∧ n = name then value else attrs i p n

namespace AppState

section Locate

variable {ι : Type*}

/-- All attributes. -/
def attributes (s : AppState ι) : Attributes ι := fun i => MemFs.attr (s.backend i)

/-- The file that a path leads to. -/
def locate (s : AppState ι) (path : Bytes) : Option (ι × PathBuf) :=
  match validatePath path with
  | some _ => none
  | none =>
    match s.vfs.resolveFs ⟨path⟩ with
    | .ok file => if (s.backend file.1).files.contains file.2 then some file else none
    | _ => none

variable {s : AppState ι} {path : Bytes} {file : ι × PathBuf}

lemma of_locate (h : s.locate path = some file) : validatePath path = none ∧
    s.vfs.resolveFs ⟨path⟩ = .ok file ∧ (s.backend file.1).files.contains file.2 = true := by
  rw [locate] at h
  cases hvalid : validatePath path with
  | some e =>
    rw [hvalid] at h
    cases h
  | none =>
    cases hresolve : s.vfs.resolveFs ⟨path⟩ with
    | err e =>
      rw [hvalid, hresolve] at h
      cases h
    | panic =>
      rw [hvalid, hresolve] at h
      cases h
    | ok r =>
      rw [hvalid, hresolve] at h
      obtain ⟨hcontains, hr⟩ := Option.ite_none_right_eq_some.1 h
      obtain rfl := Option.some.inj hr
      exact ⟨rfl, rfl, hcontains⟩

lemma not_contains_of_locate (h : s.locate path = none) (hvalid : validatePath path = none)
    (hresolve : s.vfs.resolveFs ⟨path⟩ = .ok file) :
    (s.backend file.1).files.contains file.2 = false := by
  rw [locate, hvalid, hresolve] at h
  simpa using h

end Locate

variable {ι : Type*} [DecidableEq ι]

/-- The paths lead where they led, and one attribute of a file has changed. -/
structure AttributeChanged (s s' : AppState ι) (file : ι × PathBuf) (name : Bytes)
    (value : Option Bytes) : Prop where
  locate : s'.locate = s.locate
  attributes : s'.attributes = s.attributes.put file name value

lemma attributeChanged_update {s : AppState ι} {file : ι × PathBuf} {name : Bytes}
    {value : Option Bytes} {fs' : MemFS}
    (h : AttrChanged (s.backend file.1) fs' file.2 name value) :
    AttributeChanged s { s with backend := Function.update s.backend file.1 fs' } file name
      value := by
  have hfiles : ∀ i, (Function.update s.backend file.1 fs' i).files = (s.backend i).files := by
    intro i
    rcases eq_or_ne i file.1 with rfl | hi
    · rw [Function.update_self, h.files]
    · rw [Function.update_of_ne hi]
  refine ⟨?_, ?_⟩
  · funext path
    simp only [AppState.locate, hfiles]
  · funext i p n
    show MemFs.attr (Function.update s.backend file.1 fs' i) p n =
      s.attributes.put file name value i p n
    rcases eq_or_ne i file.1 with rfl | hi
    · rw [Function.update_self, h.attr, Attributes.put]
      simp only [true_and]
      rfl
    · rw [Function.update_of_ne hi, Attributes.put, if_neg fun heq => hi heq.1]
      rfl

/-- There is nothing to remove. -/
lemma put_none_of_none {s : AppState ι} {file : ι × PathBuf} {name : Bytes}
    (h : s.attributes file.1 file.2 name = none) :
    s.attributes.put file name none = s.attributes := by
  funext i p n
  rw [Attributes.put]
  split_ifs with heq
  · obtain ⟨rfl, hp, rfl⟩ := heq
    rw [← h, attributes, MemFs.attr, MemFs.attr, AssocMap.get?_congr _ hp]
  · rfl

end AppState

lemma Response.error_ne_ok {A : Type*} (e : HttpErrorResponse) (body : A) :
    (.error e : Response A) ≠ .ok body := by
  intro h
  cases h

lemma Response.panic_ne_ok {A : Type*} (body : A) : (.panic : Response A) ≠ .ok body := by
  intro h
  cases h

namespace ServerState

open AppState Response

section Reads

variable {ι : Type*} (engine : Base64Engine) {s : ServerState ι} {path : Bytes}
  {file : ι × PathBuf}

/-- Nothing is read at a path that leads nowhere. -/
lemma respond_bind_ne_ok (h : s.app.locate path = none) (hvalid : validatePath path = none)
    {A B : Type*} (operation : Bytes) (g : A → B) {f : MemFS → PathBuf → Outcome A}
    (hf : ∀ fs p, fs.files.contains p = false → f fs p = .err (.NotFound p)) (body : B) :
    respond operation ⟨path⟩ g
      ((s.app.vfs.resolveFs ⟨path⟩).bind fun r => f (s.app.backend r.1) r.2) ≠ .ok body := by
  cases hresolve : s.app.vfs.resolveFs ⟨path⟩ with
  | err e => exact error_ne_ok _ _
  | panic => exact panic_ne_ok _
  | ok file =>
    rw [Outcome.ok_bind, hf _ _ (not_contains_of_locate h hvalid hresolve)]
    exact error_ne_ok _ _

lemma getXattr_of_locate (h : s.app.locate path = some file) (name : Bytes) :
    match s.app.attributes file.1 file.2 name with
    | some value => s.getXattr engine path name = .ok (engine.encode value)
    | none => ∀ body, s.getXattr engine path name ≠ .ok body := by
  obtain ⟨hvalid, hresolve, hcontains⟩ := of_locate h
  have hget : s.getXattr engine path name = respond (ascii "get_xattr") ⟨path⟩ engine.encode
      ((s.app.backend file.1).getXattr file.2 name) := by
    rw [getXattr, hvalid, AppState.getXattr, hresolve]
    rfl
  rw [hget, getXattr_eq hcontains, attributes]
  cases MemFs.attr (s.app.backend file.1) file.2 name with
  | some value => rfl
  | none => exact fun body => error_ne_ok _ body

lemma getXattr_of_locate_none (h : s.app.locate path = none) (name body : Bytes) :
    s.getXattr engine path name ≠ .ok body := by
  rw [getXattr]
  cases hvalid : validatePath path with
  | some e => exact error_ne_ok _ _
  | none =>
    refine respond_bind_ne_ok h hvalid _ _ (f := fun fs p => fs.getXattr p name)
      (fun fs p hp => ?_) body
    rw [MemFS.getXattr, getEntry_of_not_contains hp]
    rfl

lemma listXattr_of_locate (h : s.app.locate path = some file) :
    ∃ names, s.listXattr path = .ok names ∧ names.Nodup ∧
      ∀ name, name ∈ names ↔ (s.app.attributes file.1 file.2 name).isSome = true := by
  obtain ⟨hvalid, hresolve, hcontains⟩ := of_locate h
  obtain ⟨names, hlist, hnodup, hmem⟩ := listXattr_eq hcontains
  refine ⟨names, ?_, hnodup, hmem⟩
  rw [listXattr, hvalid, AppState.listXattr, hresolve, Outcome.ok_bind, hlist]
  rfl

lemma listXattr_of_locate_none (h : s.app.locate path = none) (names : List Bytes) :
    s.listXattr path ≠ .ok names := by
  rw [listXattr]
  cases hvalid : validatePath path with
  | some e => exact error_ne_ok _ _
  | none =>
    refine respond_bind_ne_ok h hvalid _ _ (f := MemFS.listXattr) (fun fs p hp => ?_) names
    rw [MemFS.listXattr, getEntry_of_not_contains hp]
    rfl

end Reads

variable {ι : Type*} [DecidableEq ι] {s : ServerState ι} {path : Bytes} {file : ι × PathBuf}

lemma change_of_resolveFs (hresolve : s.app.vfs.resolveFs ⟨path⟩ = .ok file)
    (operation message : Bytes) (f : MemFS → PathBuf → Outcome Reply × MemFS) :
    (s.change operation ⟨path⟩ message f).1 =
        respond operation ⟨path⟩ (fun _ => message) (f (s.app.backend file.1) file.2).1 ∧
      (s.change operation ⟨path⟩ message f).2.app =
        { s.app with backend :=
            Function.update s.app.backend file.1 (f (s.app.backend file.1) file.2).2 } := by
  have hmutate : s.app.mutate ⟨path⟩ f = ((f (s.app.backend file.1) file.2).1,
      { s.app with backend :=
          Function.update s.app.backend file.1 (f (s.app.backend file.1) file.2).2 }) := by
    rw [AppState.mutate, hresolve]
  rw [change, hmutate, conclude]
  cases (f (s.app.backend file.1) file.2).1 <;> exact ⟨rfl, rfl⟩

/-- Nothing is changed at a path that leads nowhere. -/
lemma change_of_locate_none (h : s.app.locate path = none) (hvalid : validatePath path = none)
    (operation message : Bytes) {f : MemFS → PathBuf → Outcome Reply × MemFS}
    (hf : ∀ fs p, fs.files.contains p = false → f fs p = (.err (.NotFound p), fs)) :
    (∀ body, (s.change operation ⟨path⟩ message f).1 ≠ .ok body) ∧
      (s.change operation ⟨path⟩ message f).2 = s := by
  rw [change, AppState.mutate]
  cases hresolve : s.app.vfs.resolveFs ⟨path⟩ with
  | err e => exact ⟨error_ne_ok _, rfl⟩
  | panic => exact ⟨panic_ne_ok, rfl⟩
  | ok file =>
    simp only [hf _ _ (not_contains_of_locate h hvalid hresolve), Function.update_eq_self]
    exact ⟨error_ne_ok _, rfl⟩

variable (engine : Base64Engine)

lemma setXattr_of_locate (h : s.app.locate path = some file) (name value : Bytes) :
    (∃ message, (s.setXattr engine path name (engine.encode value)).1 = .ok message) ∧
      AttributeChanged s.app (s.setXattr engine path name (engine.encode value)).2.app file name
        (some value) := by
  obtain ⟨hvalid, hresolve, hcontains⟩ := of_locate h
  obtain ⟨hok, hchanged⟩ := setXattr_eq hcontains name value
  simp only [setXattr, hvalid, engine.decode_encode]
  obtain ⟨hresponse, happ⟩ := change_of_resolveFs hresolve (ascii "set_xattr")
    (ascii "Set xattr " ++ name ++ ascii " on " ++ path) fun fs p => fs.setXattr p name value
  rw [hresponse, happ, hok]
  exact ⟨⟨_, rfl⟩, attributeChanged_update hchanged⟩

lemma setXattr_of_locate_none (h : s.app.locate path = none) (name value : Bytes) :
    (∀ body, (s.setXattr engine path name value).1 ≠ .ok body) ∧
      (s.setXattr engine path name value).2 = s := by
  rw [setXattr]
  cases hvalid : validatePath path with
  | some e => exact ⟨error_ne_ok _, rfl⟩
  | none =>
    cases engine.decode value with
    | none => exact ⟨error_ne_ok _, rfl⟩
    | some value =>
      refine change_of_locate_none h hvalid _ _ fun fs p hp => ?_
      rw [MemFS.setXattr, getEntry_of_not_contains hp]
      rfl

lemma removeXattr_of_locate (h : s.app.locate path = some file) {name value : Bytes}
    (hattr : s.app.attributes file.1 file.2 name = some value) :
    (∃ message, (s.removeXattr path name).1 = .ok message) ∧
      AttributeChanged s.app (s.removeXattr path name).2.app file name none := by
  obtain ⟨hvalid, hresolve, hcontains⟩ := of_locate h
  obtain ⟨hok, hchanged⟩ := removeXattr_of_some hcontains hattr
  simp only [removeXattr, hvalid]
  obtain ⟨hresponse, happ⟩ := change_of_resolveFs hresolve (ascii "remove_xattr")
    (ascii "Removed xattr " ++ name ++ ascii " from " ++ path) fun fs p => fs.removeXattr p name
  rw [hresponse, happ, hok]
  exact ⟨⟨_, rfl⟩, attributeChanged_update hchanged⟩

/-- An attribute that is not there, or a path that leads nowhere. -/
lemma removeXattr_of_none {name : Bytes} (h : ∀ file, s.app.locate path = some file →
    s.app.attributes file.1 file.2 name = none) :
    (∀ body, (s.removeXattr path name).1 ≠ .ok body) ∧ (s.removeXattr path name).2 = s := by
  rw [removeXattr]
  cases hvalid : validatePath path with
  | some e => exact ⟨error_ne_ok _, rfl⟩
  | none =>
    cases hlocate : s.app.locate path with
    | none =>
      refine change_of_locate_none hlocate hvalid _ _ fun fs p hp => ?_
      rw [MemFS.removeXattr, getEntry_of_not_contains hp]
      rfl
    | some file =>
      obtain ⟨-, hresolve, hcontains⟩ := of_locate hlocate
      have hremove := MemFs.removeXattr_of_none hcontains (h file hlocate)
      simp only [change, AppState.mutate, hresolve, hremove, Function.update_eq_self]
      exact ⟨error_ne_ok _, rfl⟩

end ServerState

end Server

end Racfs
