/-
# Copies in the S3 filesystem

`rename` of `S3FS` copies the object to the new key and then removes the old one, and `touch`
copies an object to its own key.  What is copied is named by a text, the bucket and the key with a
slash between.  The service takes the text apart in its own way: the text is an encoded one, but
the filesystem does not encode the key.

If the text names the object of the old path, and the new key is another one, then `rename` does
not lose the content, whatever fails (`rename_keeps_content`).  To its own key it removes the object
(`rename_ok_iff`).  No other object is touched, so what is below a path stays where it is.
-/
import Racfs.S3Fs.Removal

namespace Racfs.S3Fs

variable {σ : Type*}

namespace S3FS

variable (svc : BucketService σ) (fs : S3FS)

/-- The text that names the object of a path as the source of a copy. -/
def copySource (path : PathBuf) : Bytes := fs.config.bucket ++ slash :: pathToKey path

/-- Move the object of a path. -/
def rename (oldPath newPath : PathBuf) (s : σ) : Except FSError Unit × σ :=
  match fs.validateConfig with
  | .error e => (.error e, s)
  | .ok () =>
    if pathToKey oldPath = [] ∨ pathToKey newPath = [] then (.error (.PermissionDenied oldPath), s)
    else
      match svc.copyObject (fs.object newPath) (fs.copySource oldPath) s with
      | (.error e, s) => (.error (.Io e), s)
      | (.ok (), s) => fs.remove svc oldPath s

/-- Copy an object to its own key, or create an empty one. -/
def touch (path : PathBuf) (s : σ) : Except FSError Unit × σ :=
  match fs.validateConfig with
  | .error e => (.error e, s)
  | .ok () =>
    if pathToKey path = [] then (.ok (), s)
    else
      match fs.pathExists svc path s with
      | (.error e, s) => (.error e, s)
      | (.ok true, s) => done (svc.copyObject (fs.object path) (fs.copySource path) s)
      | (.ok false, s) => done (svc.putObject (fs.object path) [] s)

end S3FS

/-- The name has the content. -/
def HasBody (objects : Objects) (o : ObjectId) (body : Bytes) : Prop :=
  ∃ t, objects o = some ⟨body, t⟩

variable {svc : BucketService σ} {fs : S3FS} {objects : σ → Objects} {marker : Bytes → List ℕ}
  {source : Bytes → ObjectId} {oldPath newPath : PathBuf}

/-- What a move can do. -/
inductive RenameEnds (objs objs' : Objects) (src old new : ObjectId) :
    Except FSError Unit → Prop
  | moved {body : Bytes} {t : Timestamp} (hbody : HasBody objs src body)
    (hobjs : objs' = Function.update (Function.update objs new (some ⟨body, t⟩)) old none) :
    RenameEnds objs objs' src old new (.ok ())
  | unchanged {m : String} (hobjs : objs' = objs) :
    RenameEnds objs objs' src old new (.error (.Io m))
  | copied {m : String} {body : Bytes} {t : Timestamp} (hbody : HasBody objs src body)
    (hobjs : objs' = Function.update objs new (some ⟨body, t⟩)) :
    RenameEnds objs objs' src old new (.error (.Io m))
  | movedWithError {m : String} {body : Bytes} {t : Timestamp} (hbody : HasBody objs src body)
    (hobjs : objs' = Function.update (Function.update objs new (some ⟨body, t⟩)) old none) :
    RenameEnds objs objs' src old new (.error (.Io m))

lemma rename_ends (fs : S3FS) (hs : svc.Lawful objects marker source)
    (hvalid : fs.validateConfig = .ok ())
    (hold : S3FS.pathToKey oldPath ≠ []) (hnew : S3FS.pathToKey newPath ≠ []) (s : σ) :
    RenameEnds (objects s) (objects (fs.rename svc oldPath newPath s).2)
      (source (fs.copySource oldPath)) (fs.object oldPath) (fs.object newPath)
      (fs.rename svc oldPath newPath s).1 := by
  have hok := hs.copyObject_ok (fs.object newPath) (fs.copySource oldPath) s
  have herror := hs.copyObject_error (fs.object newPath) (fs.copySource oldPath) s
  rw [S3FS.rename, hvalid]
  simp only [if_neg (not_or.2 ⟨hold, hnew⟩)]
  rcases hcopy : svc.copyObject (fs.object newPath) (fs.copySource oldPath) s with ⟨e | ⟨⟩, s₁⟩
  · rw [hcopy] at herror
    rcases herror e rfl with hsame | ⟨obj, t, hobj, hupdate⟩
    · exact .unchanged hsame
    · exact .copied ⟨obj.lastModified, hobj⟩ hupdate
  · rw [hcopy] at hok
    obtain ⟨obj, t, hobj, hupdate⟩ := hok rfl
    have hbody : HasBody (objects s) (source (fs.copySource oldPath)) obj.body :=
      ⟨obj.lastModified, hobj⟩
    have hdeleted := hs.deleteObject_ok (fs.object oldPath) s₁
    have hfailed := hs.deleteObject_error (fs.object oldPath) s₁
    dsimp only at hupdate ⊢
    rw [S3FS.remove, hvalid]
    simp only [if_neg hold]
    rcases hdelete : svc.deleteObject (fs.object oldPath) s₁ with ⟨e | ⟨⟩, s₂⟩
    · rw [hdelete] at hfailed
      rcases hfailed e rfl with hsame | hgone
      · exact .copied hbody (hsame.trans hupdate)
      · exact .movedWithError hbody (hgone.trans (by rw [hupdate]))
    · rw [hdelete] at hdeleted
      exact .moved hbody ((hdeleted rfl).trans (by rw [hupdate]))

/-- No other object is touched. -/
lemma RenameEnds.kept {objs objs' : Objects} {src old new o : ObjectId}
    {r : Except FSError Unit} (h : RenameEnds objs objs' src old new r) (hold : o ≠ old)
    (hnew : o ≠ new) : objs' o = objs o := by
  cases h with
  | unchanged hobjs => rw [hobjs]
  | copied _ hobjs => rw [hobjs, Function.update_of_ne hnew]
  | moved _ hobjs => rw [hobjs, Function.update_of_ne hold, Function.update_of_ne hnew]
  | movedWithError _ hobjs => rw [hobjs, Function.update_of_ne hold, Function.update_of_ne hnew]

lemma HasBody.unique {objs : Objects} {o : ObjectId} {body body' : Bytes} (h : HasBody objs o body)
    (h' : HasBody objs o body') : body = body' := by
  obtain ⟨t, ht⟩ := h
  obtain ⟨t', ht'⟩ := h'
  cases ht.symm.trans ht'
  rfl

lemma RenameEnds.exists_of_ok {objs objs' : Objects} {src old new : ObjectId}
    {r : Except FSError Unit} (h : RenameEnds objs objs' src old new r) (hok : r = .ok ()) :
    ∃ body t, HasBody objs src body ∧
      objs' = Function.update (Function.update objs new (some ⟨body, t⟩)) old none := by
  cases h with
  | @moved body t hbody hobjs => exact ⟨body, t, hbody, hobjs⟩
  | unchanged _ => cases hok
  | copied _ _ => cases hok
  | movedWithError _ _ => cases hok

/-- The content is at the old or at the new name. -/
lemma RenameEnds.keeps {objs objs' : Objects} {old new : ObjectId} {r : Except FSError Unit}
    (h : RenameEnds objs objs' old old new r) (hne : new ≠ old) {body : Bytes}
    (hbody : HasBody objs old body) : HasBody objs' old body ∨ HasBody objs' new body := by
  cases h with
  | unchanged hobjs => exact Or.inl (hobjs ▸ hbody)
  | copied _ hobjs =>
    obtain ⟨t, ht⟩ := hbody
    exact Or.inl ⟨t, by rw [hobjs, Function.update_of_ne hne.symm, ht]⟩
  | @moved _ t hcopied hobjs =>
    refine Or.inr ⟨t, ?_⟩
    rw [hobjs, Function.update_of_ne hne, Function.update_self, hcopied.unique hbody]
  | @movedWithError _ _ t hcopied hobjs =>
    refine Or.inr ⟨t, ?_⟩
    rw [hobjs, Function.update_of_ne hne, Function.update_self, hcopied.unique hbody]

/-- **A move does not lose the content.**  If the source names the object of the old path and the
new key is another one, then the content is afterwards at the old or at the new path, also when a
call fails; it is at the new path only, if there is no error.  All other objects stay. -/
theorem rename_keeps_content (hs : svc.Lawful objects marker source)
    (hvalid : fs.validateConfig = .ok ())
    (hold : S3FS.pathToKey oldPath ≠ []) (hnew : S3FS.pathToKey newPath ≠ [])
    (hsource : source (fs.copySource oldPath) = fs.object oldPath)
    (hne : S3FS.pathToKey oldPath ≠ S3FS.pathToKey newPath) (s : σ) :
    let r := fs.rename svc oldPath newPath s
    (∀ body, HasBody (objects s) (fs.object oldPath) body →
      HasBody (objects r.2) (fs.object oldPath) body ∨
        HasBody (objects r.2) (fs.object newPath) body) ∧
    (r.1 = .ok () → objects r.2 (fs.object oldPath) = none ∧
      ∃ body, HasBody (objects s) (fs.object oldPath) body ∧
        HasBody (objects r.2) (fs.object newPath) body) ∧
    ∀ o, o ≠ fs.object oldPath → o ≠ fs.object newPath → objects r.2 o = objects s o := by
  intro r
  have hobject : fs.object newPath ≠ fs.object oldPath := by
    intro heq
    exact hne (congrArg ObjectId.key heq).symm
  have hends := rename_ends fs hs hvalid hold hnew s
  rw [hsource] at hends
  refine ⟨fun body hbody => hends.keeps hobject hbody, fun hok => ?_,
    fun o ho ho' => hends.kept ho ho'⟩
  obtain ⟨body, t, hbody, hobjs⟩ := hends.exists_of_ok hok
  refine ⟨by rw [hobjs, Function.update_self], body, hbody, t, ?_⟩
  rw [hobjs, Function.update_of_ne hobject, Function.update_self]

theorem rename_keeps_content_a :
    let r := bucketFs.rename (BucketService.store fun _ => false) ⟨ascii "/a"⟩ ⟨ascii "/c"⟩ twoKeys
    (∀ body, HasBody twoKeys.get? (bucketFs.object ⟨ascii "/a"⟩) body →
      HasBody r.2.get? (bucketFs.object ⟨ascii "/a"⟩) body ∨
        HasBody r.2.get? (bucketFs.object ⟨ascii "/c"⟩) body) ∧
    (r.1 = .ok () → r.2.get? (bucketFs.object ⟨ascii "/a"⟩) = none ∧
      ∃ body, HasBody twoKeys.get? (bucketFs.object ⟨ascii "/a"⟩) body ∧
        HasBody r.2.get? (bucketFs.object ⟨ascii "/c"⟩) body) ∧
    ∀ o, o ≠ bucketFs.object ⟨ascii "/a"⟩ → o ≠ bucketFs.object ⟨ascii "/c"⟩ →
      r.2.get? o = twoKeys.get? o :=
  rename_keeps_content (BucketService.lawful_store _) rfl (by decide) (by decide) (by decide)
    (by decide) twoKeys

/-- A move without an error puts the content at the new path exactly if the new key is another
one and the source names an object with this content. -/
theorem rename_ok_iff (hs : svc.Lawful objects marker source) (hvalid : fs.validateConfig = .ok ())
    (hold : S3FS.pathToKey oldPath ≠ []) (hnew : S3FS.pathToKey newPath ≠ []) {s : σ}
    (hok : (fs.rename svc oldPath newPath s).1 = .ok ()) {body : Bytes} :
    HasBody (objects (fs.rename svc oldPath newPath s).2) (fs.object newPath) body ↔
      S3FS.pathToKey oldPath ≠ S3FS.pathToKey newPath ∧
        HasBody (objects s) (source (fs.copySource oldPath)) body := by
  obtain ⟨copied, t, hcopied, hobjs⟩ :=
    (rename_ends fs hs hvalid hold hnew s).exists_of_ok hok
  rw [hobjs]
  by_cases hkeys : S3FS.pathToKey oldPath = S3FS.pathToKey newPath
  · have hobject : fs.object newPath = fs.object oldPath :=
      congrArg (ObjectId.mk fs.config.bucket) hkeys.symm
    refine iff_of_false ?_ (fun h => h.1 hkeys)
    rintro ⟨t', ht'⟩
    rw [hobject, Function.update_self] at ht'
    cases ht'
  · have hobject : fs.object newPath ≠ fs.object oldPath := fun heq =>
      hkeys (congrArg ObjectId.key heq).symm
    rw [HasBody, Function.update_of_ne hobject, Function.update_self]
    constructor
    · rintro ⟨t', ht'⟩
      cases ht'
      exact ⟨hkeys, hcopied⟩
    · rintro ⟨-, hbody⟩
      exact ⟨t, by rw [hcopied.unique hbody]⟩

/-! ### `touch` -/

/-- What a `touch` can do: nothing, or the object is put once more, an empty one if there was
none. -/
def Touched (objs objs' : Objects) (o : ObjectId) (ok : Prop) : Prop :=
  (objs' = objs ∧ (ok → objs o ≠ none)) ∨
    ∃ body t, objs' = Function.update objs o (some ⟨body, t⟩) ∧
      (HasBody objs o body ∨ objs o = none ∧ body = [])

lemma touch_cases (hs : svc.Lawful objects marker source) (hvalid : fs.validateConfig = .ok ())
    {path : PathBuf} (hkey : S3FS.pathToKey path ≠ [])
    (hsource : source (fs.copySource path) = fs.object path) (s : σ) :
    Touched (objects s) (objects (fs.touch svc path s).2) (fs.object path)
      ((fs.touch svc path s).1 = .ok ()) := by
  have hhead := hs.headObject (fs.object path) s
  have hfound := hs.head_ok (fs.object path) s
  have hmissing := hs.head_notFound (fs.object path) s
  rw [S3FS.touch, hvalid]
  simp only [if_neg hkey, S3FS.pathExists]
  rcases hcall : svc.headObject (fs.object path) s with ⟨(m | m) | head, s₁⟩
  · -- there is no object, and an empty one is put
    rw [hcall] at hhead hmissing
    dsimp only at hhead ⊢
    have hnone := hmissing m rfl
    have hok := hs.putObject_ok (fs.object path) [] s₁
    have herror := hs.putObject_error (fs.object path) [] s₁
    rcases hput : svc.putObject (fs.object path) [] s₁ with ⟨e | ⟨⟩, s₂⟩
    · rw [hput, hhead] at herror
      rcases herror e rfl with hsame | ⟨t, hupdate⟩
      · exact Or.inl ⟨hsame, by simp [S3FS.done]⟩
      · exact Or.inr ⟨[], t, hupdate, Or.inr ⟨hnone, rfl⟩⟩
    · rw [hput, hhead] at hok
      obtain ⟨t, hupdate⟩ := hok rfl
      exact Or.inr ⟨[], t, hupdate, Or.inr ⟨hnone, rfl⟩⟩
  · rw [hcall] at hhead
    exact Or.inl ⟨hhead, by simp⟩
  · rw [hcall] at hhead hfound
    dsimp only at hhead ⊢
    obtain ⟨obj, hobj, -, -⟩ := hfound head rfl
    have hok := hs.copyObject_ok (fs.object path) (fs.copySource path) s₁
    have herror := hs.copyObject_error (fs.object path) (fs.copySource path) s₁
    rcases hcopy : svc.copyObject (fs.object path) (fs.copySource path) s₁ with ⟨e | ⟨⟩, s₂⟩
    · rw [hcopy, hhead, hsource] at herror
      rcases herror e rfl with hsame | ⟨obj', t, hobj', hupdate⟩
      · exact Or.inl ⟨hsame, by simp [S3FS.done]⟩
      · exact Or.inr ⟨obj'.body, t, hupdate, Or.inl ⟨obj'.lastModified, hobj'⟩⟩
    · rw [hcopy, hhead, hsource] at hok
      obtain ⟨obj', t, hobj', hupdate⟩ := hok rfl
      exact Or.inr ⟨obj'.body, t, hupdate, Or.inl ⟨obj'.lastModified, hobj'⟩⟩

/-- `touch` changes no content, if the source names the object itself, and without an error the
object is there afterwards, an empty one if there was none. -/
theorem touch_keeps (hs : svc.Lawful objects marker source) (hvalid : fs.validateConfig = .ok ())
    {path : PathBuf} (hkey : S3FS.pathToKey path ≠ [])
    (hsource : source (fs.copySource path) = fs.object path) (s : σ) :
    let r := fs.touch svc path s
    (∀ o, o ≠ fs.object path → objects r.2 o = objects s o) ∧
    (∀ body, HasBody (objects s) (fs.object path) body →
      HasBody (objects r.2) (fs.object path) body) ∧
    (r.1 = .ok () → objects s (fs.object path) = none →
      HasBody (objects r.2) (fs.object path) []) := by
  intro r
  rcases touch_cases hs hvalid hkey hsource s with ⟨hsame, hthere⟩ | ⟨body, t, hupdate, hbody⟩
  · refine ⟨fun o _ => by rw [hsame], fun body hbody => ?_, fun hok hnone => ?_⟩
    · rw [hsame]
      exact hbody
    · exact absurd hnone (hthere hok)
  · have hnow : HasBody (objects r.2) (fs.object path) body :=
      ⟨t, by rw [hupdate, Function.update_self]⟩
    refine ⟨fun o ho => by rw [hupdate, Function.update_of_ne ho], fun body' hbody' => ?_,
      fun _ hnone => ?_⟩
    · rcases hbody with hbody | ⟨hnone, -⟩
      · exact hbody'.unique hbody ▸ hnow
      · obtain ⟨t', ht'⟩ := hbody'
        cases hnone.symm.trans ht'
    · rcases hbody with ⟨t', ht'⟩ | ⟨-, rfl⟩
      · cases hnone.symm.trans ht'
      · exact hnow

end Racfs.S3Fs
