/-
# The locks of the vector filesystem

`VectorFS` has a lock for each of its three maps.  An operation is a program that takes and drops
guards and calls the database in between; which branch it takes depends on the maps and on what
the database says.  A guard that is taken in a statement is dropped at its end, and one that is
taken in the scrutinee of an `if let` at the end of the block.

`metadata` is taken before `search_queries`, and `xattrs` alone, except in `rename`: it takes the
attributes of a document out of their map in the scrutinee of an `if let`, whose block takes the
lock again.  So nobody waits forever, in any run of any number of operations, exactly if every
`rename` that comes there finds no attributes (`not_hangs_iff`).  An operation that runs alone
does what the function for it in the model does (`alone_program`).
-/
import Racfs.Lib.LockProgram
import Racfs.VectorFs.Model

namespace Racfs.VectorFs.Locks

open RwLock VectorFS

/-- The three locks. -/
inductive Lock
  | metadata
  | xattrs
  | searchQueries
deriving DecidableEq

/-- An operation. -/
inductive Op
  | create (path : PathBuf) (now : DateTime)
  | read (path : PathBuf)
  | write (path : PathBuf) (data : Bytes) (offset : Int64) (flags : WriteFlags) (now : DateTime)
  | truncate (path : PathBuf) (size : UInt64) (now : DateTime)
  | stat (path : PathBuf)
  | touch (path : PathBuf) (now : DateTime)
  | chmod (path : PathBuf) (mode : UInt32) (now : DateTime)
  | mkdir (path : PathBuf) (now : DateTime)
  | readDir (path : PathBuf)
  | remove (path : PathBuf)
  | removeAll (path : PathBuf)
  | rename (oldPath newPath : PathBuf) (now : DateTime)
  | getXattr (path : PathBuf) (name : Bytes)
  | setXattr (path : PathBuf) (name value : Bytes)
  | removeXattr (path : PathBuf) (name : Bytes)
  | listXattr (path : PathBuf)

/-- The steps of an operation; the answers of the database are errors or not. -/
abbrev Steps (V : Type*) := Program Lock (VectorFS V) DbCall (Option String)

variable {V : Type*}

/-! ### Statements -/

/-- A statement under a guard. -/
def under (lock : Lock) (mode : Mode) (f : VectorFS V → VectorFS V)
    (rest : VectorFS V → Steps V) : Steps V :=
  .acquire ⟨lock, mode⟩ f fun fs => .release lock (rest fs)

/-- A call to the database; when it fails the operation returns. -/
def request {A : Type*} (call : DbCall) (f : Faults → VectorFS V → Outcome A × VectorFS V)
    (rest : A → Steps V) : Steps V :=
  .call call (fun answer fs => (f (fun _ => answer) fs).2) fun answer fs =>
    match (f (fun _ => answer) fs).1 with
    | .ok a => rest a
    | _ => .done

def getDocument (call : DbCall) (path : PathBuf) (rest : Option (Document V) → Steps V) :
    Steps V :=
  request call (fun faults fs => (fs.getDocument faults call path, fs)) rest

def persistDocument (path : PathBuf) (d : Document V) (rest : Steps V) : Steps V :=
  request .persist (fun faults fs => fs.persistDocument faults path d) fun _ => rest

def deleteFromDb (call : DbCall) (path : PathBuf) (rest : Steps V) : Steps V :=
  request call (fun faults fs => fs.deleteFromDb faults call path) fun _ => rest

def documentCount (rest : ℕ → Steps V) : Steps V :=
  request .count (fun faults fs => (fs.documentCount faults, fs)) rest

def listDocumentPaths (rest : List PathBuf → Steps V) : Steps V :=
  request .list (fun faults fs => (fs.listDocumentPaths faults, fs)) rest

def updateMetadata (path : PathBuf) (f : FileMetadata → FileMetadata) (rest : Steps V) : Steps V :=
  under .metadata .write (fun fs => fs.updateMetadata path f) fun _ => rest

def removeMetadata (path : PathBuf) (rest : Steps V) : Steps V :=
  under .metadata .write (fun fs => { fs with metadata := fs.metadata.erase path }) fun _ => rest

def removeXattrs (path : PathBuf) (rest : Steps V) : Steps V :=
  under .xattrs .write (fun fs => { fs with xattrs := fs.xattrs.erase path }) fun _ => rest

/-! ### The operations -/

/-- `create`, and what comes after it. -/
def create (e : Embedding V) (path : PathBuf) (now : DateTime) (rest : Steps V) : Steps V :=
  if isVirtualPath path then .done
  else if ¬ isDocument path then .done
  else
    getDocument .get path fun found =>
      if found.isSome then .done
      else
        let t := timestampMillis now
        persistDocument path ⟨[], e.contentToVector [], 0o644, t, t⟩ <|
          under .metadata .write
            (fun fs => { fs with metadata := fs.metadata.insert path (.file path 0 now) })
            fun _ => rest

/-- Whether a path is that of a file of a search with this name. -/
def isSearchFile (path : PathBuf) (name : String) : Bool :=
  decide (ascii "/search/" <:+: path.toStringLossy ∧ ascii name <:+ path.toStringLossy)

def read (path : PathBuf) : Steps V :=
  let text := path.toStringLossy
  if text = ascii "/index/count" then documentCount fun _ => .done
  else if text = ascii "/index/status" ∨ text = ascii "/index/dimension" then .done
  else if isDocument path then getDocument .get path fun _ => .done
  -- the search for the file `matches.txt` is made when the guard is dropped
  else if isSearchFile path "/query.txt" ∨ isSearchFile path "/matches.txt" then
    under .searchQueries .read id fun _ => .done
  else .done

def writeQuery (path : PathBuf) (data : Bytes) (offset : Int64) (flags : WriteFlags) : Steps V :=
  let id := queryId path.toStringLossy
  if id = [] ∨ slash ∈ id then .done
  else
    under .searchQueries .write
      (fun fs =>
        match fs.searchQueries.get? id with
        | none => fs
        | some stored =>
          { fs with
            searchQueries :=
              fs.searchQueries.modify id fun _ => queryData stored data offset flags })
      fun fs =>
        match fs.searchQueries.get? id with
        | none => .done
        | some stored =>
          updateMetadata path
            (fun m => { m with size := (queryData stored data offset flags).length.toUInt64 }) .done

def write (e : Embedding V) (path : PathBuf) (data : Bytes) (offset : Int64) (flags : WriteFlags)
    (now : DateTime) : Steps V :=
  if isSearchFile path "/query.txt" then writeQuery path data offset flags
  else if isVirtualPath path then .done
  else if ¬ isDocument path then .done
  else
    getDocument .get path fun found =>
      match found with
      | none => .done
      | some d =>
        let new := writeData d.data data offset flags
        under .xattrs .read id fun fs =>
          match fs.vectorFor e path new with
          | .ok vector =>
            let t := timestampMillis now
            persistDocument path ⟨new, vector, d.mode, d.createdAt, t⟩ <|
              updateMetadata path
                (fun m => { m with
                  size := new.length.toUInt64, modified := some (fromTimestampMillis t) }) <|
                documentCount fun count =>
                  updateMetadata ⟨ascii "/index/count"⟩
                    (fun m => { m with size := count.toUInt64 }) .done
          | _ => .done

def truncate (path : PathBuf) (size : UInt64) (now : DateTime) : Steps V :=
  if isVirtualPath path then .done
  else if ¬ isDocument path then .done
  else
    getDocument .get path fun found =>
      match found with
      | none => .done
      | some d =>
        let t := timestampMillis now
        persistDocument path ⟨resize d.data size.toNat, d.vector, d.mode, d.createdAt, t⟩ <|
          updateMetadata path
            (fun m => { m with size := size, modified := some (fromTimestampMillis t) }) .done

/-- `stat`, when the path is not that of the query of a search. -/
def statOther (path : PathBuf) : Steps V :=
  let last : Steps V := under .metadata .read id fun _ => .done
  let document : Steps V :=
    if isDocument path then getDocument .get path fun found => if found.isSome then .done else last
    else last
  if isSearchFile path "/matches.txt" then
    under .metadata .read id fun fs => if fs.metadata.contains path then .done else document
  else document

def stat (path : PathBuf) : Steps V :=
  let text := path.toStringLossy
  if text = ascii "/index/count" then
    under .metadata .read id fun fs =>
      if fs.metadata.contains path then documentCount fun _ => .done else .done
  else if text = ascii "/index/status" ∨ text = ascii "/index/dimension" then
    under .metadata .read id fun _ => .done
  else if isSearchFile path "/query.txt" then
    -- the guard in the scrutinee lives until the end of the block
    .acquire ⟨.metadata, .read⟩ id fun fs =>
      if fs.metadata.contains path then
        under .searchQueries .read id fun _ => .release .metadata .done
      else .release .metadata (statOther path)
  else statOther path

def touch (e : Embedding V) (path : PathBuf) (now : DateTime) : Steps V :=
  if isVirtualPath path ∧ startsWith path.toStringLossy "/index/" then .done
  else if ¬ isDocument path then .done
  else
    getDocument .get path fun found =>
      match found with
      | some d =>
        let t := timestampMillis now
        let time := some (fromTimestampMillis t)
        persistDocument path ⟨d.data, d.vector, d.mode, d.createdAt, t⟩ <|
          updateMetadata path (fun m => { m with accessed := time, modified := time }) .done
      | none =>
        create e path now <|
          updateMetadata path (fun m => { m with accessed := some now, modified := some now }) .done

def chmod (path : PathBuf) (mode : UInt32) (now : DateTime) : Steps V :=
  if isVirtualPath path ∧ startsWith path.toStringLossy "/index/" then .done
  else
    under .metadata .read id fun fs =>
      if fs.metadata.contains path = false then .done
      else
        let set := updateMetadata (V := V) path fun m =>
          { m.setPermissions mode with modified := some now }
        set <|
          if isDocument path then
            getDocument .get path fun found =>
              match found with
              | some d =>
                persistDocument path ⟨d.data, d.vector, mode, d.createdAt, timestampMillis now⟩
                  (set .done)
              | none => set .done
          else set .done

def mkdir (path : PathBuf) (now : DateTime) : Steps V :=
  if startsWith path.toStringLossy "/search/" = false then .done
  else
    .acquire ⟨.metadata, .write⟩ (fun fs => { fs with metadata := (fs.mkdir path now).2.metadata })
      fun fs =>
        let id := searchId path.toStringLossy
        if fs.metadata.contains path ∨ id = [] ∨ slash ∈ id then .release .metadata .done
        else
          under .searchQueries .write
            (fun fs => { fs with searchQueries := fs.searchQueries.insert id [] })
            fun _ => .release .metadata .done

def readDir (path : PathBuf) : Steps V :=
  under .metadata .read id fun _ =>
    if path.toStringLossy = ascii "/documents" then listDocumentPaths fun _ => .done else .done

def remove (path : PathBuf) : Steps V :=
  if isVirtualPath path ∧ startsWith path.toStringLossy "/index/" then .done
  else if isDocument path then
    getDocument .get path fun found =>
      if found.isSome then
        deleteFromDb (.delete 0) path (removeXattrs path (removeMetadata path .done))
      else removeXattrs path .done
  else if startsWith path.toStringLossy "/search/" then
    let hasChildren := fun fs : VectorFS V =>
      fs.metadata.keys.any fun p => p != path && p.startsWith path
    .acquire ⟨.metadata, .write⟩
      (fun fs =>
        if hasChildren fs then fs else { fs with metadata := (fs.removeSearch path).2.metadata })
      fun fs =>
        let id := searchId path.toStringLossy
        if hasChildren fs ∨ id = [] then .release .metadata .done
        else
          under .searchQueries .write
            (fun fs => { fs with searchQueries := fs.searchQueries.erase id })
            fun _ => .release .metadata .done
  else .done

def removeDocuments : ℕ → List PathBuf → Steps V → Steps V
  | _, [], rest => rest
  | i, p :: ps, rest =>
    deleteFromDb (.delete i) p <|
      removeMetadata p <| removeXattrs p <| removeDocuments (i + 1) ps rest

def removeAll (path : PathBuf) : Steps V :=
  if isVirtualPath path ∧ startsWith path.toStringLossy "/index/" then .done
  else if isDocument path then
    under .metadata .read id fun _ =>
      listDocumentPaths fun paths =>
        removeDocuments 0 (paths.filter fun p => p.startsWith path) (removeMetadata path .done)
  else
    under .metadata .write
      (fun fs =>
        if fs.metadata.contains path = false then fs
        else
          { fs with
            metadata := fs.metadata.retain fun p _ => !p.startsWith path || p == path })
      fun _ => .done

/-- The attributes of a document get to another path.  The map is still locked when the block
locks it. -/
def moveXattrs (oldPath newPath : PathBuf) : Steps V :=
  .acquire ⟨.xattrs, .write⟩ (fun fs => { fs with xattrs := fs.xattrs.erase oldPath }) fun fs =>
    match fs.xattrs.get? oldPath with
    | some attrs =>
      under .xattrs .write (fun fs => { fs with xattrs := fs.xattrs.insert newPath attrs })
        fun _ => .release .xattrs .done
    | none => .release .xattrs .done

/-- The row of a document, its metadata and its attributes get to another path. -/
def moveDocument (oldPath newPath : PathBuf) (d : Document V) (now : DateTime) : Steps V :=
  let t := timestampMillis now
  let time := some (fromTimestampMillis t)
  let m : FileMetadata :=
    { FileMetadata.file newPath d.data.length.toUInt64 now with
      mode := d.mode
      created := some (fromTimestampMillis d.createdAt)
      modified := time
      accessed := time }
  deleteFromDb (.delete 0) oldPath <|
    persistDocument newPath ⟨d.data, d.vector, d.mode, d.createdAt, t⟩ <|
      removeMetadata oldPath <|
        under .metadata .write (fun fs => { fs with metadata := fs.metadata.insert newPath m })
          fun _ => moveXattrs oldPath newPath

def renameDocument (oldPath newPath : PathBuf) (now : DateTime) : Steps V :=
  getDocument .get oldPath fun found =>
    match found with
    | none => .done
    | some d =>
      getDocument .getNew newPath fun target =>
        let move := moveDocument oldPath newPath d now
        if target.isSome then deleteFromDb .deleteNew newPath move else move

def rename (oldPath newPath : PathBuf) (now : DateTime) : Steps V :=
  let oldText := oldPath.toStringLossy
  let newText := newPath.toStringLossy
  if startsWith oldText "/index/" ∨ startsWith newText "/index/" then .done
  else if isDocument oldPath ∧ isDocument newPath then
    if oldPath == newPath then .done
    else renameDocument oldPath newPath now
  else if startsWith oldText "/search/" ∧ startsWith newText "/search/" then
    if oldPath == newPath then .done
    else under .metadata .write (fun fs => (fs.renameSearch oldPath newPath).2) fun _ => .done
  else .done

/-- Go on with an existing document. -/
def onDocument (path : PathBuf) (rest : Steps V) : Steps V :=
  if ¬ isDocument path then .done
  else getDocument .get path fun found => if found.isSome then rest else .done

def getXattr (path : PathBuf) : Steps V :=
  onDocument path <| under .xattrs .read id fun _ => .done

def setXattr (path : PathBuf) (name value : Bytes) : Steps V :=
  onDocument path <|
    under .xattrs .write
      (fun fs =>
        { fs with
          xattrs := fs.xattrs.insert path (((fs.xattrs.get? path).getD ∅).insert name value) })
      fun _ => .done

def removeXattr (path : PathBuf) (name : Bytes) : Steps V :=
  onDocument path <|
    under .xattrs .write
      (fun fs =>
        if ((fs.xattrs.get? path).any fun attrs => attrs.contains name) then
          { fs with xattrs := fs.xattrs.modify path fun attrs => attrs.erase name }
        else fs)
      fun _ => .done

/-- The steps of an operation. -/
def program (e : Embedding V) : Op → Steps V
  | .create path now => create e path now .done
  | .read path => read path
  | .write path data offset flags now => write e path data offset flags now
  | .truncate path size now => truncate path size now
  | .stat path => stat path
  | .touch path now => touch e path now
  | .chmod path mode now => chmod path mode now
  | .mkdir path now => mkdir path now
  | .readDir path => readDir path
  | .remove path => remove path
  | .removeAll path => removeAll path
  | .rename oldPath newPath now => rename oldPath newPath now
  | .getXattr path _ => getXattr path
  | .setXattr path name value => setXattr path name value
  | .removeXattr path name => removeXattr path name
  | .listXattr path => getXattr path

/-! ### The order of the locks -/

/-- Which lock comes first. -/
def level : Lock → ℕ
  | .metadata => 1
  | .xattrs => 0
  | .searchQueries => 0

/-- A rename that takes the lock of the attributes finds none of the old path. -/
def FindsNone : Op → Guard Lock → VectorFS V → Prop
  | .rename oldPath _ _, ⟨.xattrs, _⟩, fs => fs.xattrs.get? oldPath = none
  | _, _, _ => True

section Ordered

variable {Ok : Guard Lock → VectorFS V → Prop} {held : List (Guard Lock)}

/-- A program that keeps to the order. -/
abbrev InOrder (Ok : Guard Lock → VectorFS V → Prop) (held : List (Guard Lock)) (p : Steps V) :
    Prop := p.Ordered level Ok held

lemma inOrder_ite {p : Prop} [Decidable p] {a b : Steps V} (ha : InOrder Ok held a)
    (hb : InOrder Ok held b) : InOrder Ok held (if p then a else b) := by
  split_ifs
  · exact ha
  · exact hb

/-- A guard that may be taken. -/
lemma inOrder_acquire {g : Guard Lock} {f : VectorFS V → VectorFS V} {rest : VectorFS V → Steps V}
    (hlevel : ∀ h ∈ held, level g.lock < level h.lock) (hok : ∀ fs, Ok g fs)
    (hrest : ∀ fs, InOrder Ok (g :: held) (rest fs)) : InOrder Ok held (.acquire g f rest) :=
  ⟨hlevel, fun fs => ⟨fun _ => hrest fs, fun hnot => absurd (hok fs) hnot⟩⟩

lemma drop_cons (lock : Lock) (mode : Mode) (held : List (Guard Lock)) :
    drop lock (⟨lock, mode⟩ :: held) = held :=
  List.eraseP_cons_of_pos (decide_eq_true rfl)

lemma inOrder_under {lock : Lock} {mode : Mode} {f : VectorFS V → VectorFS V}
    {rest : VectorFS V → Steps V} (hlevel : ∀ h ∈ held, level lock < level h.lock)
    (hok : ∀ fs, Ok ⟨lock, mode⟩ fs) (hrest : ∀ fs, InOrder Ok held (rest fs)) :
    InOrder Ok held (under lock mode f rest) := by
  refine inOrder_acquire hlevel hok fun fs => ?_
  change InOrder Ok (drop lock (⟨lock, mode⟩ :: held)) (rest fs)
  rw [drop_cons]
  exact hrest fs

lemma inOrder_request {A : Type*} {call : DbCall}
    {f : Faults → VectorFS V → Outcome A × VectorFS V} {rest : A → Steps V}
    (hrest : ∀ a, InOrder Ok held (rest a)) : InOrder Ok held (request call f rest) := by
  intro answer fs
  dsimp only
  cases (f (fun _ => answer) fs).1 with
  | ok a => exact hrest a
  | err _ => trivial
  | panic => trivial

/-- A guard that is taken alone. -/
lemma inOrder_alone {lock : Lock} {mode : Mode} {f : VectorFS V → VectorFS V}
    {rest : VectorFS V → Steps V} (hok : ∀ g fs, Ok g fs) (hrest : ∀ fs, InOrder Ok [] (rest fs)) :
    InOrder Ok [] (under lock mode f rest) :=
  inOrder_under (fun _ h => by cases h) (hok _) hrest

lemma inOrder_done : InOrder Ok held .done := trivial

lemma inOrder_release {lock : Lock} {p : Steps V} (h : InOrder Ok (drop lock held) p) :
    InOrder Ok held (.release lock p) := h

variable (hok : ∀ g fs, Ok g fs)
include hok

lemma inOrder_create (e : Embedding V) (path : PathBuf) (now : DateTime) {rest : Steps V}
    (hrest : InOrder Ok [] rest) : InOrder Ok [] (create e path now rest) := by
  refine inOrder_ite inOrder_done (inOrder_ite inOrder_done (inOrder_request fun found => ?_))
  refine inOrder_ite inOrder_done (inOrder_request fun _ => ?_)
  exact inOrder_alone hok fun _ => hrest

lemma inOrder_read (path : PathBuf) : InOrder Ok [] (read path) := by
  refine inOrder_ite (inOrder_request fun _ => inOrder_done) (inOrder_ite inOrder_done ?_)
  refine inOrder_ite (inOrder_request fun _ => inOrder_done) (inOrder_ite ?_ inOrder_done)
  exact inOrder_alone hok fun _ => inOrder_done

lemma inOrder_writeQuery (path : PathBuf) (data : Bytes) (offset : Int64) (flags : WriteFlags) :
    InOrder Ok [] (writeQuery path data offset flags) := by
  refine inOrder_ite inOrder_done (inOrder_alone hok fun fs => ?_)
  split
  · exact inOrder_done
  · exact inOrder_alone hok fun _ => inOrder_done

lemma inOrder_write (e : Embedding V) (path : PathBuf) (data : Bytes) (offset : Int64)
    (flags : WriteFlags) (now : DateTime) :
    InOrder Ok [] (write e path data offset flags now) := by
  refine inOrder_ite (inOrder_writeQuery hok path data offset flags) ?_
  refine inOrder_ite inOrder_done (inOrder_ite inOrder_done (inOrder_request fun found => ?_))
  cases found with
  | none => exact inOrder_done
  | some d =>
    refine inOrder_alone hok fun fs => ?_
    split
    · refine inOrder_request fun _ => inOrder_alone hok fun _ => ?_
      exact inOrder_request fun _ => inOrder_alone hok fun _ => inOrder_done
    · exact inOrder_done

lemma inOrder_truncate (path : PathBuf) (size : UInt64) (now : DateTime) :
    InOrder Ok [] (truncate (V := V) path size now) := by
  refine inOrder_ite inOrder_done (inOrder_ite inOrder_done (inOrder_request fun found => ?_))
  cases found with
  | none => exact inOrder_done
  | some d => exact inOrder_request fun _ => inOrder_alone hok fun _ => inOrder_done

lemma inOrder_statOther (path : PathBuf) : InOrder Ok [] (statOther path) := by
  have hlast : InOrder Ok [] (under .metadata .read id fun _ => .done) :=
    inOrder_alone hok fun _ => inOrder_done
  have hdocument : InOrder Ok [] (if isDocument path then
      getDocument .get path fun found =>
        if found.isSome then .done else under .metadata .read id fun _ => .done
      else under .metadata .read id fun _ => .done) :=
    inOrder_ite (inOrder_request fun _ => inOrder_ite inOrder_done hlast) hlast
  exact inOrder_ite (inOrder_alone hok fun _ => inOrder_ite inOrder_done hdocument) hdocument

lemma inOrder_stat (path : PathBuf) : InOrder Ok [] (stat path) := by
  refine inOrder_ite (inOrder_alone hok fun _ => ?_) (inOrder_ite ?_ (inOrder_ite ?_ ?_))
  · exact inOrder_ite (inOrder_request fun _ => inOrder_done) inOrder_done
  · exact inOrder_alone hok fun _ => inOrder_done
  · refine inOrder_acquire (fun _ h => by cases h) (hok _) fun fs => inOrder_ite ?_ ?_
    · refine inOrder_under (fun h hmem => ?_) (hok _) fun _ => inOrder_release inOrder_done
      rw [List.mem_singleton.1 hmem]
      exact Nat.zero_lt_one
    · exact inOrder_release (inOrder_statOther hok path)
  · exact inOrder_statOther hok path

lemma inOrder_touch (e : Embedding V) (path : PathBuf) (now : DateTime) :
    InOrder Ok [] (touch e path now) := by
  refine inOrder_ite inOrder_done (inOrder_ite inOrder_done (inOrder_request fun found => ?_))
  cases found with
  | none => exact inOrder_create hok e path now (inOrder_alone hok fun _ => inOrder_done)
  | some d => exact inOrder_request fun _ => inOrder_alone hok fun _ => inOrder_done

lemma inOrder_chmod (path : PathBuf) (mode : UInt32) (now : DateTime) :
    InOrder Ok [] (chmod (V := V) path mode now) := by
  refine inOrder_ite inOrder_done (inOrder_alone hok fun _ => inOrder_ite inOrder_done ?_)
  refine inOrder_alone hok fun _ => inOrder_ite (inOrder_request fun found => ?_) ?_
  · cases found with
    | none => exact inOrder_alone hok fun _ => inOrder_done
    | some d => exact inOrder_request fun _ => inOrder_alone hok fun _ => inOrder_done
  · exact inOrder_alone hok fun _ => inOrder_done

/-- The queries of searches under the guard of the metadata. -/
lemma inOrder_queries {mode : Mode} {f f' : VectorFS V → VectorFS V} {p : VectorFS V → Prop}
    [DecidablePred p] :
    InOrder Ok [] (.acquire ⟨.metadata, mode⟩ f fun fs =>
      if p fs then .release .metadata .done
      else under .searchQueries mode f' fun _ => .release .metadata .done) := by
  refine inOrder_acquire (fun _ h => by cases h) (hok _) fun fs => ?_
  refine inOrder_ite (inOrder_release inOrder_done) ?_
  refine inOrder_under (fun h hmem => ?_) (hok _) fun _ => inOrder_release inOrder_done
  rw [List.mem_singleton.1 hmem]
  exact Nat.zero_lt_one

lemma inOrder_mkdir (path : PathBuf) (now : DateTime) :
    InOrder Ok [] (mkdir (V := V) path now) :=
  inOrder_ite inOrder_done (inOrder_queries hok)

lemma inOrder_readDir (path : PathBuf) : InOrder Ok [] (readDir (V := V) path) :=
  inOrder_alone hok fun _ => inOrder_ite (inOrder_request fun _ => inOrder_done) inOrder_done

lemma inOrder_remove (path : PathBuf) : InOrder Ok [] (remove (V := V) path) := by
  refine inOrder_ite inOrder_done (inOrder_ite (inOrder_request fun found => ?_)
    (inOrder_ite (inOrder_queries hok) inOrder_done))
  refine inOrder_ite (inOrder_request fun _ => ?_) (inOrder_alone hok fun _ => inOrder_done)
  exact inOrder_alone hok fun _ => inOrder_alone hok fun _ => inOrder_done

lemma inOrder_removeDocuments (i : ℕ) (ps : List PathBuf) {rest : Steps V}
    (hrest : InOrder Ok [] rest) : InOrder Ok [] (removeDocuments i ps rest) := by
  induction ps generalizing i with
  | nil => exact hrest
  | cons p ps ih =>
    rw [removeDocuments]
    refine inOrder_request fun _ => inOrder_alone hok fun _ => ?_
    exact inOrder_alone hok fun _ => ih (i + 1)

lemma inOrder_removeAll (path : PathBuf) : InOrder Ok [] (removeAll (V := V) path) := by
  refine inOrder_ite inOrder_done (inOrder_ite (inOrder_alone hok fun _ => ?_)
    (inOrder_alone hok fun _ => inOrder_done))
  refine inOrder_request fun paths => inOrder_removeDocuments hok _ _ ?_
  exact inOrder_alone hok fun _ => inOrder_done

lemma inOrder_onDocument (path : PathBuf) {lock : Lock} {mode : Mode}
    {f : VectorFS V → VectorFS V} :
    InOrder Ok [] (onDocument path (under lock mode f fun _ => .done)) := by
  refine inOrder_ite inOrder_done (inOrder_request fun found => inOrder_ite ?_ inOrder_done)
  exact inOrder_alone hok fun _ => inOrder_done

end Ordered

lemma findsNone_metadata {oldPath newPath : PathBuf} {now : DateTime} {mode : Mode}
    (fs : VectorFS V) : FindsNone (.rename oldPath newPath now) ⟨.metadata, mode⟩ fs := trivial

/-- A rename that finds attributes gets to wait for the lock that it holds. -/
lemma inOrder_moveXattrs (oldPath newPath : PathBuf) (now : DateTime) :
    InOrder (V := V) (FindsNone (.rename oldPath newPath now)) [] (moveXattrs oldPath newPath) := by
  rw [moveXattrs]
  refine ⟨fun _ h => (by cases h), fun fs => ⟨fun hnone => ?_, fun hsome => ?_⟩⟩
  · have heq : fs.xattrs.get? oldPath = none := hnone
    simp only [heq]
    trivial
  · obtain ⟨attrs, heq⟩ := Option.ne_none_iff_exists'.1 hsome
    simp only [heq]
    exact ⟨_, rfl, _, List.mem_singleton_self _, rfl⟩

lemma inOrder_rename (oldPath newPath : PathBuf) (now : DateTime) :
    InOrder (V := V) (FindsNone (.rename oldPath newPath now)) [] (rename oldPath newPath now) := by
  have hmetadata : ∀ {f : VectorFS V → VectorFS V} {rest : VectorFS V → Steps V},
      (∀ fs, InOrder (FindsNone (.rename oldPath newPath now)) [] (rest fs)) →
      InOrder (FindsNone (.rename oldPath newPath now)) [] (under .metadata .write f rest) :=
    inOrder_under (fun _ h => by cases h) findsNone_metadata
  have hmove : ∀ d, InOrder (V := V) (FindsNone (.rename oldPath newPath now)) []
      (moveDocument oldPath newPath d now) := fun d => by
    rw [moveDocument]
    refine inOrder_request fun _ => inOrder_request fun _ => ?_
    exact hmetadata fun _ => hmetadata fun _ => inOrder_moveXattrs oldPath newPath now
  refine inOrder_ite inOrder_done (inOrder_ite (inOrder_ite inOrder_done ?_)
    (inOrder_ite (inOrder_ite inOrder_done ?_) inOrder_done))
  · rw [renameDocument]
    refine inOrder_request fun found => ?_
    cases found with
    | none => exact inOrder_done
    | some d =>
      refine inOrder_request fun target => ?_
      exact inOrder_ite (inOrder_request fun _ => hmove d) (hmove d)
  · exact hmetadata fun _ => inOrder_done

/-- Every operation keeps to the order, apart from that rename. -/
lemma inOrder_program (e : Embedding V) (op : Op) : InOrder (FindsNone op) [] (program e op) := by
  cases op with
  | create path now => exact inOrder_create (fun _ _ => trivial) e path now inOrder_done
  | read path => exact inOrder_read (fun _ _ => trivial) path
  | write path data offset flags now =>
    exact inOrder_write (fun _ _ => trivial) e path data offset flags now
  | truncate path size now => exact inOrder_truncate (fun _ _ => trivial) path size now
  | stat path => exact inOrder_stat (fun _ _ => trivial) path
  | touch path now => exact inOrder_touch (fun _ _ => trivial) e path now
  | chmod path mode now => exact inOrder_chmod (fun _ _ => trivial) path mode now
  | mkdir path now => exact inOrder_mkdir (fun _ _ => trivial) path now
  | readDir path => exact inOrder_readDir (fun _ _ => trivial) path
  | remove path => exact inOrder_remove (fun _ _ => trivial) path
  | removeAll path => exact inOrder_removeAll (fun _ _ => trivial) path
  | rename oldPath newPath now => exact inOrder_rename oldPath newPath now
  | getXattr path name => exact inOrder_onDocument (fun _ _ => trivial) path
  | setXattr path name value => exact inOrder_onDocument (fun _ _ => trivial) path
  | removeXattr path name => exact inOrder_onDocument (fun _ _ => trivial) path
  | listXattr path => exact inOrder_onDocument (fun _ _ => trivial) path

/-! ### One operation -/

section Alone

variable {faults : Faults} {fs : VectorFS V}

/-- The state after a program that runs alone. -/
abbrev after (faults : Faults) (p : Steps V) (fs : VectorFS V) : Option (VectorFS V) :=
  p.alone faults [] fs

lemma after_under {lock : Lock} {mode : Mode} {f : VectorFS V → VectorFS V}
    {rest : VectorFS V → Steps V} :
    after faults (under lock mode f rest) fs = after faults (rest fs) (f fs) := by
  change Program.alone faults (drop lock [⟨lock, mode⟩]) (rest fs) (f fs) = _
  rw [drop_cons]

/-- Go on from the state that a function leaves if it succeeds. -/
def settle {A : Type*} (r : Outcome A × VectorFS V) (k : VectorFS V → Option (VectorFS V)) :
    Option (VectorFS V) :=
  match r with
  | (.ok _, fs) => k fs
  | (_, fs) => some fs

lemma settle_some {A : Type*} (r : Outcome A × VectorFS V) : settle r some = some r.2 := by
  obtain ⟨_ | _ | _, fs⟩ := r <;> rfl

/-- A call to the database in a program and in a function. -/
lemma after_request_settle {A B : Type*} {call : DbCall}
    {f : Faults → VectorFS V → Outcome A × VectorFS V} {rest : A → Steps V}
    {g : A → VectorFS V → Outcome B × VectorFS V} {k : VectorFS V → Option (VectorFS V)}
    (hf : f (fun _ => faults call) fs = f faults fs)
    (hrest : ∀ a, (f faults fs).1 = .ok a →
      after faults (rest a) (f faults fs).2 = settle (g a (f faults fs).2) k) :
    after faults (request call f rest) fs = settle (andThen (f faults fs) g) k := by
  rw [after, request, Program.alone, hf]
  generalize f faults fs = r at hrest ⊢
  obtain ⟨x, fs'⟩ := r
  cases x with
  | ok a => exact hrest a rfl
  | err _ => rfl
  | panic => rfl

lemma after_request {A B : Type*} {call : DbCall}
    {f : Faults → VectorFS V → Outcome A × VectorFS V} {rest : A → Steps V}
    {g : A → VectorFS V → Outcome B × VectorFS V}
    (hf : f (fun _ => faults call) fs = f faults fs)
    (hrest : ∀ a, (f faults fs).1 = .ok a →
      after faults (rest a) (f faults fs).2 = some (g a (f faults fs).2).2) :
    after faults (request call f rest) fs = some (andThen (f faults fs) g).2 := by
  rw [← settle_some]
  refine after_request_settle hf fun a ha => ?_
  rw [settle_some]
  exact hrest a ha

/-- The state after an operation, as in the model; none if it does not return. -/
def Op.result (e : Embedding V) (faults : Faults) (fs : VectorFS V) : Op → Option (VectorFS V)
  | .create path now => some (fs.create e faults path now).2
  | .write path data offset flags now => some (fs.write e faults path data offset flags now).2
  | .truncate path size now => some (fs.truncate faults path size now).2
  | .touch path now => some (fs.touch e faults path now).2
  | .chmod path mode now => some (fs.chmod faults path mode now).2
  | .mkdir path now => some (fs.mkdir path now).2
  | .remove path => some (fs.remove faults path).2
  | .removeAll path => some (fs.removeAll faults path).2
  | .rename oldPath newPath now =>
    (fs.rename faults oldPath newPath now).1.map fun _ => (fs.rename faults oldPath newPath now).2
  | .setXattr path name value => some (fs.setXattr faults path name value).2
  | .removeXattr path name => some (fs.removeXattr faults path name).2
  | .read _ | .stat _ | .readDir _ | .getXattr _ _ | .listXattr _ => some fs

lemma andThen_andThen {A B C : Type*} (r : Outcome A × VectorFS V)
    (f : A → VectorFS V → Outcome B × VectorFS V) (g : B → VectorFS V → Outcome C × VectorFS V) :
    andThen (andThen r f) g = andThen r fun a fs => andThen (f a fs) g := by
  obtain ⟨_ | _ | _, fs⟩ := r <;> rfl

lemma after_ite {B : Type*} {p q : Prop} [Decidable p] [Decidable q] {a b : Steps V}
    {r r' : Outcome B × VectorFS V} (hpq : p ↔ q) (h : after faults a fs = some r.2)
    (h' : after faults b fs = some r'.2) :
    after faults (if p then a else b) fs = some (if q then r else r').2 := by
  by_cases hp : p
  · rw [if_pos hp, if_pos (hpq.1 hp)]
    exact h
  · rw [if_neg hp, if_neg fun hq => hp (hpq.2 hq)]
    exact h'

lemma after_done {B : Type*} {x : Outcome B} : after faults .done fs = some (x, fs).2 := rfl

/-- What comes after `create` comes if it succeeds. -/
lemma after_create (e : Embedding V) (path : PathBuf) (now : DateTime) {rest : Steps V}
    {g : Reply → VectorFS V → Outcome Reply × VectorFS V}
    (hrest : ∀ fs, after faults rest fs = some (g .unit fs).2) :
    after faults (create e path now rest) fs =
      some (andThen (fs.create e faults path now) g).2 := by
  rw [create, VectorFS.create]
  by_cases hvirtual : isVirtualPath path = true
  · rw [if_pos hvirtual, if_pos hvirtual]
    rfl
  rw [if_neg hvirtual, if_neg hvirtual]
  by_cases hdoc : isDocument path = true
  · rw [if_neg (not_not.2 hdoc), if_neg (not_not.2 hdoc), andThen_andThen]
    refine after_request rfl fun found _ => ?_
    by_cases hfound : found.isSome = true
    · rw [if_pos hfound, if_pos hfound]
      rfl
    · rw [if_neg hfound, if_neg hfound, andThen_andThen]
      exact after_request rfl fun _ _ => after_under.trans (hrest _)
  · rw [if_pos hdoc, if_pos hdoc]
    rfl

lemma isSearchFile_iff {path : PathBuf} {name : String} : isSearchFile path name = true ↔
    ascii "/search/" <:+: path.toStringLossy ∧ ascii name <:+ path.toStringLossy :=
  decide_eq_true_iff

lemma after_writeQuery (path : PathBuf) (data : Bytes) (offset : Int64) (flags : WriteFlags) :
    after faults (writeQuery path data offset flags) fs =
      some (fs.writeQuery path data offset flags).2 := by
  rw [writeQuery, VectorFS.writeQuery]
  refine after_ite Iff.rfl after_done (after_under.trans ?_)
  cases fs.searchQueries.get? (queryId path.toStringLossy) with
  | none => rfl
  | some stored => exact after_under

lemma after_write (e : Embedding V) (path : PathBuf) (data : Bytes) (offset : Int64)
    (flags : WriteFlags) (now : DateTime) :
    after faults (write e path data offset flags now) fs =
      some (fs.write e faults path data offset flags now).2 := by
  rw [write, VectorFS.write]
  refine after_ite isSearchFile_iff (after_writeQuery path data offset flags) ?_
  refine after_ite Iff.rfl after_done (after_ite Iff.rfl after_done ?_)
  refine after_request rfl fun found _ => ?_
  cases found with
  | none => rfl
  | some d =>
    refine after_under.trans ?_
    dsimp only [id]
    cases fs.vectorFor e path (writeData d.data data offset flags) with
    | ok vector =>
      refine after_request rfl fun _ _ => after_under.trans ?_
      exact after_request rfl fun _ _ => after_under
    | err _ => rfl
    | panic => rfl

lemma after_truncate (path : PathBuf) (size : UInt64) (now : DateTime) :
    after faults (truncate path size now) fs = some (fs.truncate faults path size now).2 := by
  rw [truncate, VectorFS.truncate]
  refine after_ite Iff.rfl after_done (after_ite Iff.rfl after_done ?_)
  refine after_request rfl fun found _ => ?_
  cases found with
  | none => rfl
  | some d => exact after_request rfl fun _ _ => after_under

lemma after_touch (e : Embedding V) (path : PathBuf) (now : DateTime) :
    after faults (touch e path now) fs = some (fs.touch e faults path now).2 := by
  rw [touch, VectorFS.touch]
  refine after_ite Iff.rfl after_done (after_ite Iff.rfl after_done ?_)
  refine after_request rfl fun found _ => ?_
  cases found with
  | none => exact after_create e path now fun _ => after_under
  | some d => exact after_request rfl fun _ _ => after_under

lemma after_chmod (path : PathBuf) (mode : UInt32) (now : DateTime) :
    after faults (chmod path mode now) fs = some (fs.chmod faults path mode now).2 := by
  rw [chmod, VectorFS.chmod]
  refine after_ite Iff.rfl after_done (after_under.trans (after_ite Iff.rfl after_done ?_))
  refine after_under.trans (after_ite Iff.rfl ?_ after_under)
  refine after_request rfl fun found _ => ?_
  cases found with
  | none => exact after_under
  | some d => exact after_request rfl fun _ _ => after_under

/-- A guard of the queries under one of the metadata. -/
lemma after_queries {mode : Mode} {f f' : VectorFS V → VectorFS V} {p : VectorFS V → Prop}
    [DecidablePred p] :
    after faults (.acquire ⟨.metadata, mode⟩ f fun fs =>
      if p fs then .release .metadata .done
      else under .searchQueries mode f' fun _ => .release .metadata .done) fs =
        some (if p fs then f fs else f' (f fs)) := by
  rw [after, Program.alone, List.all_nil, if_pos rfl]
  split_ifs
  · rfl
  · cases mode <;> rfl

lemma after_mkdir (path : PathBuf) (now : DateTime) :
    after faults (mkdir path now) fs = some (fs.mkdir path now).2 := by
  rw [mkdir]
  split_ifs with hsearch
  · rw [VectorFS.mkdir, if_pos hsearch]
    rfl
  · refine after_queries.trans (congrArg some ?_)
    rw [VectorFS.mkdir, if_neg hsearch]
    by_cases hcontains : fs.metadata.contains path = true
    · rw [if_pos (Or.inl hcontains), if_pos hcontains]
    · rw [if_neg hcontains]
      by_cases hid : searchId path.toStringLossy = [] ∨ slash ∈ searchId path.toStringLossy
      · have hnot : ¬ (searchId path.toStringLossy ≠ [] ∧
            slash ∉ searchId path.toStringLossy) := by tauto
        rw [if_pos (Or.inr hid)]
        dsimp only
        rw [if_neg hnot]
      · rw [if_neg (by tauto)]
        dsimp only
        rw [if_pos (not_or.1 hid)]

/-- What a removal below the searches leaves is what the removal of the search leaves. -/
lemma remove_search_snd (path : PathBuf) (r : Bool × VectorFS V) :
    (match r with
      | (true, fs) => ((.ok .unit, fs) : Outcome Reply × VectorFS V)
      | (false, fs) => (.err (.NotFound path), fs)).2 = r.2 := by
  obtain ⟨_ | _, fs⟩ := r
  · rfl
  · rfl

lemma after_remove (path : PathBuf) :
    after faults (remove path) fs = some (fs.remove faults path).2 := by
  rw [remove, VectorFS.remove]
  refine after_ite Iff.rfl after_done (after_ite Iff.rfl ?_ (after_ite Iff.rfl ?_ after_done))
  · refine after_request rfl fun found _ => after_ite Iff.rfl ?_ after_under
    exact after_request rfl fun _ _ => after_under.trans after_under
  · refine after_queries.trans (congrArg some ?_)
    dsimp only
    by_cases hchildren : (fs.metadata.keys.any fun p => p != path && p.startsWith path) = true
    · rw [if_pos (Or.inl hchildren), if_pos hchildren, if_pos hchildren]
    rw [if_neg hchildren, if_neg hchildren]
    refine Eq.trans ?_ (remove_search_snd path (fs.removeSearch path)).symm
    rw [removeSearch]
    by_cases hid : searchId path.toStringLossy = []
    · rw [if_pos (Or.inr hid)]
      dsimp only
      rw [if_pos hid]
    · rw [if_neg (not_or.2 ⟨hchildren, hid⟩)]
      dsimp only
      rw [if_neg hid]

lemma after_removeDocuments {ps : List PathBuf} {rest : Steps V}
    {g : Unit → VectorFS V → Outcome Reply × VectorFS V} (i : ℕ)
    (hrest : ∀ fs, after faults rest fs = some (g () fs).2) :
    after faults (removeDocuments i ps rest) fs =
      some (andThen (VectorFS.removeDocuments faults i ps fs) g).2 := by
  induction ps generalizing i fs with
  | nil => exact hrest fs
  | cons p ps ih =>
    rw [removeDocuments, VectorFS.removeDocuments, andThen_andThen]
    refine after_request rfl fun _ _ => after_under.trans (after_under.trans ?_)
    exact ih (i + 1)

lemma after_removeAll (path : PathBuf) :
    after faults (removeAll path) fs = some (fs.removeAll faults path).2 := by
  rw [removeAll, VectorFS.removeAll]
  refine after_ite Iff.rfl after_done (after_ite Iff.rfl ?_ ?_)
  · refine after_under.trans (after_request rfl fun paths _ => ?_)
    refine after_removeDocuments 0 fun fs => after_under.trans ?_
    split_ifs <;> rfl
  · refine after_under.trans ?_
    split_ifs <;> rfl

lemma after_onDocument (path : PathBuf) {rest : Steps V}
    {f : VectorFS V → Outcome Reply × VectorFS V}
    (hrest : after faults rest fs = some (f fs).2) :
    after faults (onDocument path rest) fs = some (fs.onDocument faults path f).2 := by
  rw [onDocument, VectorFS.onDocument]
  refine after_ite Iff.rfl after_done (after_request rfl fun found _ => ?_)
  exact after_ite Iff.rfl hrest after_done

lemma after_removeXattr (path : PathBuf) (name : Bytes) :
    after faults (removeXattr path name) fs = some (fs.removeXattr faults path name).2 := by
  refine after_onDocument path (after_under.trans ?_)
  cases fs.xattrs.get? path with
  | none => rfl
  | some attrs =>
    dsimp only [Option.any]
    split_ifs <;> rfl

lemma after_moveXattrs (oldPath newPath : PathBuf) :
    after faults (moveXattrs oldPath newPath) fs =
      if fs.xattrs.contains oldPath then none else some fs := by
  rw [AssocMap.contains, moveXattrs, after, Program.alone, List.all_nil, if_pos rfl]
  cases hattrs : fs.xattrs.get? oldPath with
  | none =>
    have herase : fs.xattrs.erase oldPath = fs.xattrs := AssocMap.erase_eq_self_iff.2 hattrs
    rw [herase]
    rfl
  | some attrs => rfl

lemma after_renameDocument (oldPath newPath : PathBuf) (now : DateTime) :
    after faults (renameDocument oldPath newPath now) fs =
      settle (fs.renameRow faults oldPath newPath now)
        fun fs => if fs.xattrs.contains oldPath then none else some fs := by
  rw [renameDocument, renameRow]
  refine after_request_settle rfl fun found _ => ?_
  cases found with
  | none => rfl
  | some d =>
    refine after_request_settle rfl fun target _ => ?_
    by_cases htarget : target.isSome = true
    · rw [if_pos htarget, if_pos htarget]
      refine after_request_settle rfl fun _ _ => ?_
      rw [moveDocument]
      refine after_request_settle rfl fun _ _ => after_request_settle rfl fun _ _ => ?_
      exact after_under.trans (after_under.trans (after_moveXattrs oldPath newPath))
    · rw [if_neg htarget, if_neg htarget, moveDocument]
      refine after_request_settle rfl fun _ _ => after_request_settle rfl fun _ _ => ?_
      exact after_under.trans (after_under.trans (after_moveXattrs oldPath newPath))

lemma after_rename (oldPath newPath : PathBuf) (now : DateTime) :
    after faults (rename oldPath newPath now) fs =
      (fs.rename faults oldPath newPath now).1.map
        fun _ => (fs.rename faults oldPath newPath now).2 := by
  rw [rename, VectorFS.rename]
  dsimp only
  split_ifs with hindex hdocuments heq hsearch heq
  · rfl
  · rfl
  · rw [after_renameDocument]
    generalize fs.renameRow faults oldPath newPath now = r
    obtain ⟨_ | _ | _, fs'⟩ := r
    · dsimp only [settle]
      split_ifs <;> rfl
    · rfl
    · rfl
  · rfl
  · exact after_under
  · rfl

/-- A call to the database that reads. -/
lemma after_query {A : Type*} {call : DbCall} {f : Faults → VectorFS V → Outcome A × VectorFS V}
    {rest : A → Steps V} (hf : (f (fun _ => faults call) fs).2 = fs)
    (hrest : ∀ a, after faults (rest a) fs = some fs) :
    after faults (request call f rest) fs = some fs := by
  rw [after, request, Program.alone, hf]
  cases (f (fun _ => faults call) fs).1 with
  | ok a => exact hrest a
  | err _ => rfl
  | panic => rfl

lemma after_same {p : Prop} [Decidable p] {a b : Steps V} (ha : after faults a fs = some fs)
    (hb : after faults b fs = some fs) : after faults (if p then a else b) fs = some fs := by
  split_ifs
  · exact ha
  · exact hb

lemma after_statOther (path : PathBuf) : after faults (statOther path) fs = some fs := by
  have hlast : after faults (under .metadata .read id fun _ => .done) fs = some fs := after_under
  have hdocument : after faults (if isDocument path then
      getDocument .get path fun found =>
        if found.isSome then .done else under .metadata .read id fun _ => .done
      else under .metadata .read id fun _ => .done) fs = some fs :=
    after_same (after_query rfl fun _ => after_same rfl hlast) hlast
  exact after_same (after_under.trans (after_same rfl hdocument)) hdocument

lemma after_stat (path : PathBuf) : after faults (stat path) fs = some fs := by
  refine after_same (after_under.trans (after_same (after_query rfl fun _ => rfl) rfl)) ?_
  refine after_same after_under (after_same ?_ (after_statOther path))
  rw [after, Program.alone, List.all_nil, if_pos rfl]
  split_ifs
  · rfl
  · exact after_statOther path

lemma after_read (path : PathBuf) : after faults (read path) fs = some fs := by
  refine after_same (after_query rfl fun _ => rfl) (after_same rfl (after_same ?_ ?_))
  · exact after_query rfl fun _ => rfl
  · exact after_same after_under rfl

lemma after_readDir (path : PathBuf) : after faults (readDir path) fs = some fs :=
  after_under.trans (after_same (after_query rfl fun _ => rfl) rfl)

lemma after_getXattr (path : PathBuf) : after faults (getXattr path) fs = some fs :=
  after_same rfl (after_query rfl fun _ => after_same after_under rfl)

/-- An operation that runs alone does what the function for it does, and does not come to its end
if that function does not return. -/
theorem alone_program (e : Embedding V) (faults : Faults) (fs : VectorFS V) (op : Op) :
    (program e op).alone faults [] fs = op.result e faults fs := by
  cases op with
  | create path now =>
    refine (after_create (g := fun r fs => (.ok r, fs)) e path now fun _ => rfl).trans ?_
    rw [Op.result]
    generalize fs.create e faults path now = r
    obtain ⟨_ | _ | _, fs'⟩ := r <;> rfl
  | read path => exact after_read path
  | write path data offset flags now => exact after_write e path data offset flags now
  | truncate path size now => exact after_truncate path size now
  | stat path => exact after_stat path
  | touch path now => exact after_touch e path now
  | chmod path mode now => exact after_chmod path mode now
  | mkdir path now => exact after_mkdir path now
  | readDir path => exact after_readDir path
  | remove path => exact after_remove path
  | removeAll path => exact after_removeAll path
  | rename oldPath newPath now => exact after_rename oldPath newPath now
  | getXattr path name => exact after_getXattr path
  | setXattr path name value => exact after_onDocument path after_under
  | removeXattr path name => exact after_removeXattr path name
  | listXattr path => exact after_getXattr path

/-- So it takes the system to the state that the function computes. -/
theorem run_program {e : Embedding V} {faults : Faults} {fs fs' : VectorFS V} {op : Op}
    (h : op.result e faults fs = some fs') (i : ℕ) :
    ∃ evs, run (System.step (program e)) ⟨fs, ∅⟩ (.begin i op :: evs) = some ⟨fs', ∅⟩ :=
  System.run_alone i op ((alone_program e faults fs op).trans h) none

end Alone

/-! ### Runs -/

/-- In every run of any number of operations, from any state: no operation waits for a lock that
it holds and none wait for each other in a circle, exactly if no rename finds attributes when it
takes their lock. -/
theorem not_hangs_iff (e : Embedding V) (fs : VectorFS V)
    (evs : List (Event Op (Option String))) :
    StatesMeet (System.step (program e)) (fun s => ¬ s.Hangs) ⟨fs, ∅⟩ evs ↔
      StepsMeet (System.step (program e)) (System.Taken FindsNone) ⟨fs, ∅⟩ evs :=
  System.not_hangs_iff_taken (inOrder_program e) fs evs

/-- Steps of one operation; the database does what it is asked to. -/
def steps (i n : ℕ) : List (Event Op (Option String)) := List.replicate n (.next i none)

/-- A document is created (operation 0) and gets an attribute (operation 1), and is renamed
(operation 2), up to where the attributes are taken. -/
def renameRun : List (Event Op (Option String)) :=
  .begin 0 (.create ⟨ascii "/documents/a"⟩ 0) :: steps 0 5 ++
  .begin 1 (.setXattr ⟨ascii "/documents/a"⟩ (ascii "k") []) :: steps 1 4 ++
  .begin 2 (.rename ⟨ascii "/documents/a"⟩ ⟨ascii "/documents/b"⟩ 0) :: steps 2 9

/-- The rename never returns. -/
theorem hangs_renameRun :
    ∃ s, run (System.step (program plainEmbedding)) ⟨VectorFS.new 8 0, ∅⟩ renameRun = some s ∧
      s.Hangs ∧ ∀ s', Reachable (System.step (program plainEmbedding)) s s' →
        (s'.calls.get? 2).isSome = true := by
  have hplace : ((run (System.step (program plainEmbedding)) ⟨VectorFS.new 8 0, ∅⟩
      renameRun).bind fun s => s.calls.get? 2).map (fun c => (c.program.wants, c.held)) =
        some (some ⟨.xattrs, .write⟩, [⟨.xattrs, .write⟩]) := by decide +kernel
  obtain ⟨c, hc, heq⟩ := Option.map_eq_some_iff.1 hplace
  obtain ⟨s, hrun, hget⟩ := Option.bind_eq_some_iff.1 hc
  have hwants : c.program.wants = some ⟨.xattrs, .write⟩ := (Prod.mk.inj heq).1
  have hheld : (⟨.xattrs, .write⟩ : Guard Lock) ∈ c.held := by
    rw [(Prod.mk.inj heq).2]
    exact List.mem_singleton_self _
  refine ⟨s, hrun, Or.inl ⟨2, c, hget, _, hwants, _, hheld, rfl⟩, fun s' hs' => ?_⟩
  rw [System.get?_of_stuck hget hwants hheld rfl hs']
  rfl

end Racfs.VectorFs.Locks
