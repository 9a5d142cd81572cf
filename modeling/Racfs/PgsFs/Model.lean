/-
# The filesystem in a PostgreSQL database

`PgsFS` (`racfs-plugin-pgsfs`) has one row for every file and directory, with its path as the
primary key.  A rename of a directory selects the rows below it by a pattern and gives them their
new paths one after the other, each by a statement of its own, and the directory comes last.
There is no transaction around the statements, and the first that fails ends the call.

The statements of a call are numbered from 0.  Which of them fail, what the database says then,
and the order in which it returns rows are parameters (`Database`).
-/
import Racfs.Core
import Racfs.Lib.Like
import Racfs.Lib.Replace

namespace Racfs.PgsFs

open Like (below)
open Sql (percent)

/-- A row of the table `files`. -/
structure FileRow where
  data : Option Bytes
  isDir : Bool
  mode : Int32
  /-- The times in milliseconds. -/
  createdAt : Option Int64
  modifiedAt : Option Int64
  accessedAt : Option Int64

/-- What the database does in a call, and a program cannot know. -/
structure Database where
  /-- Whether a statement fails. -/
  fails : ℕ → Bool
  /-- What it says about a statement that fails. -/
  message : ℕ → String
  /-- The order of the rows that a query returns. -/
  order : List Bytes → List Bytes
  order_perm : ∀ paths, (order paths).Perm paths

/-- The filesystem: the table `files`. -/
structure PgsFS where
  /-- Whether the database takes a row under this path.  It has limits on texts and on the keys of
  an index. -/
  fits : Bytes → FileRow → Bool
  files : AssocMap Bytes FileRow

namespace PgsFS

/-! ### Queries -/

/-- The error of a statement. -/
def failed {A : Type*} (db : Database) (n : ℕ) (what : String) : Outcome A :=
  .err (.Io ("Failed to " ++ what ++ ": " ++ db.message n))

/-- The answer to a query. -/
def query {A : Type*} (db : Database) (n : ℕ) (what : String) (answer : A) : Outcome A :=
  if db.fails n then failed db n what else .ok answer

/-- Whether a path is stored. -/
def exists? (db : Database) (n : ℕ) (fs : PgsFS) (text : Bytes) : Outcome Bool :=
  query db n "query exists" (fs.files.contains text)

/-- Whether a path is a directory. -/
def isDir (db : Database) (n : ℕ) (fs : PgsFS) (text : Bytes) : Outcome Bool :=
  (query db n "query is_dir" (fs.files.get? text)).bind fun row =>
    match row with
    | none => .err (.NotFound ⟨text⟩)
    | some row => .ok row.isDir

/-- The paths that match the pattern for what is below a directory.  An error in the pattern is an
error of the statement. -/
def children (db : Database) (n : ℕ) (fs : PgsFS) (text : Bytes) : Outcome (List Bytes) :=
  match Like.parts (Utf8.chars (text ++ slash :: percent)) with
  | none => failed db n "query children"
  | some _ => query db n "query children" (db.order (fs.files.keys.filter (below text)))

/-! ### Renaming -/

/-- Go on after a query, which leaves the table as it is. -/
def check {A : Type*} (fs : PgsFS) (x : Outcome A) (f : A → Outcome Unit × PgsFS) :
    Outcome Unit × PgsFS :=
  match x with
  | .ok a => f a
  | .err e => (.err e, fs)
  | .panic => (.panic, fs)

/-- Change the path of a row.  Without such a row nothing happens. -/
def movePath (db : Database) (n : ℕ) (what : String) (fs : PgsFS) (text newText : Bytes) :
    Outcome Unit × PgsFS :=
  if db.fails n then (failed db n what, fs)
  else
    match Sql.moveRow fs.fits fs.files text newText with
    | .error _ => (failed db n what, fs)
    | .ok files => (.ok (), { fs with files })

/-- Change the paths of rows, from the `n`-th statement on, until one of them fails. -/
def moveChildren (db : Database) (oldText newText : Bytes) :
    ℕ → List Bytes → PgsFS → Outcome Unit × PgsFS
  | _, [], fs => (.ok (), fs)
  | n, childPath :: rows, fs =>
    let newChildPath := replaceFirst oldText newText childPath
    match fs.movePath db n "move child" childPath newChildPath with
    | (.ok (), fs) => moveChildren db oldText newText (n + 1) rows fs
    | r => r

/-- Rename a file, or a directory with what is below it. -/
def rename (db : Database) (fs : PgsFS) (oldPath newPath : PathBuf) : Outcome Unit × PgsFS :=
  fs.check (pathToStr oldPath) fun oldText =>
    fs.check (pathToStr newPath) fun newText =>
      fs.check (fs.exists? db 0 oldText) fun found =>
        if !found then (.err (.NotFound oldPath), fs)
        else
          fs.check (fs.exists? db 1 newText) fun used =>
            if used then (.err (.AlreadyExists newPath), fs)
            else
              fs.check (fs.isDir db 2 oldText) fun dir =>
                if dir then
                  fs.check (fs.children db 3 oldText) fun rows =>
                    match moveChildren db oldText newText 4 rows fs with
                    | (.ok (), fs) =>
                      fs.movePath db (4 + rows.length) "move directory" oldText newText
                    | r => r
                else fs.movePath db 3 "rename" oldText newText

end PgsFS

end Racfs.PgsFs
