/-
# Removal in the S3 filesystem

`remove_all` of `S3FS` (`racfs-plugin-s3fs/src/fs/dir.rs`) lists the keys below the path piece by
piece, and deletes each piece before it asks for the next one.  What is listed changes while it is
listed, but only where the listing has passed.  At the end the object of the path itself is
deleted.

Neither the keys that a deletion of several objects has refused are looked at, nor the end of the
last deletion.  So `remove_all` may return without an error although objects are left: exactly
those that the service refuses to delete (`removeAll_removes`).
-/
import Racfs.S3Fs.Directory

namespace Racfs.S3Fs

variable {σ : Type*}

namespace S3FS

variable (svc : BucketService σ) (fs : S3FS)

/-- Remove the object of a path. -/
def remove (path : PathBuf) (s : σ) : Except FSError Unit × σ :=
  match fs.validateConfig with
  | .error e => (.error e, s)
  | .ok () =>
    if pathToKey path = [] then (.error (.PermissionDenied path), s)
    else done (svc.deleteObject (fs.object path) s)

/-- Delete the objects of a piece; the refused keys are not looked at. -/
def deletePiece (keys : List Bytes) (s : σ) : Except FSError Unit × σ :=
  if keys.isEmpty then (.ok (), s) else done (svc.deleteObjects fs.config.bucket keys s)

/-- The loop over the pieces of a directory, the first `n` of them. -/
def removePieces (keyPrefix : Bytes) :
    (n : ℕ) → (token : Option Bytes) → σ → Option (Except FSError Unit × σ)
  | 0, _, _ => none
  | n + 1, token, s =>
    match svc.listObjectsV2 ⟨fs.config.bucket, keyPrefix, none, 1000, token⟩ s with
    | (.error e, s) => some (.error (.Io e), s)
    | (.ok resp, s) =>
      match fs.deletePiece svc (resp.contents.filterMap ListedObject.key) s with
      | (.error e, s) => some (.error e, s)
      | (.ok (), s) =>
        if resp.isTruncated.getD false then
          match resp.nextContinuationToken with
          | some t => removePieces keyPrefix n (some t) s
          | none => some (.ok (), s)
        else some (.ok (), s)

/-- Remove a path and all below it. -/
def removeAll (path : PathBuf) (n : ℕ) (s : σ) : Option (Except FSError Unit × σ) :=
  match fs.validateConfig with
  | .error e => some (.error e, s)
  | .ok () =>
    if path.toStringLossy = ascii "/" then some (.error (.PermissionDenied path), s)
    else if pathToKey path = [] then some (.ok (), s)
    else
      (fs.removePieces svc (dirKey path) n none s).map fun
        | (.error e, s) => (.error e, s)
        -- the result of the last deletion is dropped
        | (.ok (), s) => (.ok (), (svc.deleteObject (fs.object path) s).2)

end S3FS

/-- Exactly the objects with these names have been removed. -/
structure Removed (before after : Objects) (gone : ObjectId → Prop) : Prop where
  removed : ∀ o, gone o → after o = none
  kept : ∀ o, ¬ gone o → after o = before o

/-- Some of the objects with these names have been removed. -/
def OnlyRemoves (before after : Objects) (among : ObjectId → Prop) : Prop :=
  ∀ o, after o = before o ∨ among o ∧ after o = none

variable {svc : BucketService σ} {fs : S3FS} {objects : σ → Objects} {marker : Bytes → List ℕ}
  {source : Bytes → ObjectId} {before after : Objects} {gone among : ObjectId → Prop}

lemma Removed.refl (before : Objects) : Removed before before fun _ => False :=
  ⟨fun _ h => h.elim, fun _ _ => rfl⟩

lemma Removed.congr {gone' : ObjectId → Prop} (h : Removed before after gone)
    (hiff : ∀ o, (before o).isSome → (gone o ↔ gone' o)) : Removed before after gone' := by
  have hnone : ∀ o, before o = none → after o = none := by
    intro o ho
    by_cases hg : gone o
    · exact h.removed o hg
    · rw [h.kept o hg, ho]
  constructor
  · intro o ho
    cases hb : before o with
    | none => exact hnone o hb
    | some obj => exact h.removed o ((hiff o (by rw [hb]; rfl)).2 ho)
  · intro o ho
    cases hb : before o with
    | none => exact hnone o hb
    | some obj => rw [← hb, h.kept o fun hg => ho ((hiff o (by rw [hb]; rfl)).1 hg)]

lemma Removed.trans {between : Objects} {gone' : ObjectId → Prop} (h : Removed before between gone)
    (h' : Removed between after gone') : Removed before after fun o => gone o ∨ gone' o := by
  constructor
  · intro o ho
    by_cases hg : gone' o
    · exact h'.removed o hg
    · rw [h'.kept o hg, h.removed o (ho.resolve_right hg)]
  · intro o ho
    rw [h'.kept o fun hg => ho (Or.inr hg), h.kept o fun hg => ho (Or.inl hg)]

lemma OnlyRemoves.trans {between : Objects} (h : OnlyRemoves before between among)
    (h' : OnlyRemoves between after among) : OnlyRemoves before after among := by
  intro o
  rcases h' o with heq | hgone
  · rw [heq]
    exact h o
  · exact Or.inr hgone

lemma OnlyRemoves.imp {among' : ObjectId → Prop} (h : OnlyRemoves before after among)
    (himp : ∀ o, among o → among' o) : OnlyRemoves before after among' :=
  fun o => (h o).imp_right fun ho => ⟨himp o ho.1, ho.2⟩

lemma Removed.onlyRemoves (h : Removed before after gone) (hle : ∀ o, gone o → among o) :
    OnlyRemoves before after among := by
  intro o
  by_cases ho : gone o
  · exact Or.inr ⟨hle o ho, h.removed o ho⟩
  · exact Or.inl (h.kept o ho)

/-- Several objects are deleted, but for the refused ones. -/
lemma deletePiece_cases (fs : S3FS) (hs : svc.Lawful objects marker source) {refuses : Bytes → Prop}
    (hrefuses : ∀ keys s refused, (svc.deleteObjects fs.config.bucket keys s).1 = .ok refused →
      ∀ key ∈ keys, (key ∈ refused ↔ refuses key)) (keys : List Bytes) (s : σ) :
    ((fs.deletePiece svc keys s).1 = .ok () ∧
      Removed (objects s) (objects (fs.deletePiece svc keys s).2) fun o =>
        o.bucket = fs.config.bucket ∧ o.key ∈ keys ∧ ¬ refuses o.key) ∨
    (∃ m, (fs.deletePiece svc keys s).1 = .error (.Io m)) ∧
      OnlyRemoves (objects s) (objects (fs.deletePiece svc keys s).2) fun o =>
        o.bucket = fs.config.bucket ∧ o.key ∈ keys := by
  rw [S3FS.deletePiece]
  split_ifs with hempty
  · obtain rfl : keys = [] := List.isEmpty_iff.1 hempty
    exact Or.inl ⟨rfl, fun o ho => by simp at ho, fun o _ => rfl⟩
  · have hok := hs.deleteObjects_ok fs.config.bucket keys s
    have herror := hs.deleteObjects_error fs.config.bucket keys s
    have hrefused := hrefuses keys s
    rcases hcall : svc.deleteObjects fs.config.bucket keys s with ⟨e | refused, s'⟩
    · rw [hcall] at herror
      refine Or.inr ⟨⟨e, rfl⟩, fun o => ?_⟩
      rcases herror e rfl o with hsame | ⟨hbucket, hkey, hnone⟩
      · exact Or.inl hsame
      · exact Or.inr ⟨⟨hbucket, hkey⟩, hnone⟩
    · rw [hcall] at hok hrefused
      have hafter := hok refused rfl
      refine Or.inl ⟨rfl, fun o ho => ?_, fun o ho => ?_⟩
      · have hmem := hrefused refused rfl o.key ho.2.1
        rw [S3FS.done, hafter, if_pos ⟨ho.1, ho.2.1, fun h => ho.2.2 (hmem.1 h)⟩]
      · rw [S3FS.done, hafter, if_neg]
        rintro ⟨hbucket, hkey, hnot⟩
        exact ho ⟨hbucket, hkey, fun h => hnot ((hrefused refused rfl o.key hkey).2 h)⟩

/-- The items of a listing without a delimiter are the keys. -/
lemma mem_items_iff_of_none {req : ListRequest} (hreq : req.delimiter = none) (objs : Objects)
    (i : Item) : i ∈ req.items objs ↔
      ∃ key, i = .key key ∧ req.keyPrefix <+: key ∧ (objs ⟨req.bucket, key⟩).isSome := by
  have hitem : ∀ key, req.itemOf key = .key key := by
    intro key
    rw [ListRequest.itemOf, hreq]
    rfl
  constructor
  · rintro ⟨key, hkey, hsome, rfl⟩
    exact ⟨key, hitem key, hkey, hsome⟩
  · rintro ⟨key, rfl, hkey, hsome⟩
    exact ⟨key, hkey, hsome, (hitem key).symm⟩

/-- The keys of an answer. -/
lemma ListResponse.mem_keys_iff (resp : ListResponse) (key : Bytes) :
    key ∈ resp.contents.filterMap ListedObject.key ↔ .key key ∈ resp.items := by
  rw [ListResponse.items, List.mem_append]
  constructor
  · intro hkey
    obtain ⟨o, ho, heq⟩ := List.mem_filterMap.1 hkey
    exact Or.inl (List.mem_filterMap.2 ⟨o, ho, by rw [heq]; rfl⟩)
  · rintro (hkey | hkey)
    · obtain ⟨o, ho, heq⟩ := List.mem_filterMap.1 hkey
      obtain ⟨key', hkey', hitem⟩ := Option.map_eq_some_iff.1 heq
      cases hitem
      exact List.mem_filterMap.2 ⟨o, ho, hkey'⟩
    · obtain ⟨p, -, heq⟩ := List.mem_filterMap.1 hkey
      obtain ⟨text, -, hitem⟩ := Option.map_eq_some_iff.1 heq
      cases hitem

/-- The object is below the prefix. -/
def Below (bucket keyPrefix : Bytes) (o : ObjectId) : Prop :=
  o.bucket = bucket ∧ keyPrefix <+: o.key

/-- From any turn on, the loop ends, and before it has asked for more pieces than there were
keys.  If it ends without an error, all objects below the prefix are gone but those whose deletion
is refused. -/
lemma removePieces_removes (hs : svc.Lawful objects marker source) {refuses : Bytes → Prop}
    (hrefuses : ∀ keys s refused, (svc.deleteObjects fs.config.bucket keys s).1 = .ok refused →
      ∀ key ∈ keys, (key ∈ refused ↔ refuses key)) {keyPrefix : Bytes} {s₀ : σ}
    {all : List Item} {n : ℕ} :
    let first : ListRequest := ⟨fs.config.bucket, keyPrefix, none, 1000, none⟩
    (∀ i ∈ first.items (objects s₀), i ∈ all) →
    ∀ {token : Option Bytes} {items : List Item} {s : σ}, all.length < items.length + n →
    Pages.ReadTo Item.position (first.items (objects s₀)) items (token.map marker) →
    (Removed (objects s₀) (objects s) fun o =>
      o.bucket = fs.config.bucket ∧ .key o.key ∈ items ∧ ¬ refuses o.key) →
    ∃ r s', fs.removePieces svc keyPrefix n token s = some (r, s') ∧
      ((r = .ok () ∧ Removed (objects s₀) (objects s') fun o =>
          Below fs.config.bucket keyPrefix o ∧ ¬ refuses o.key) ∨
        (∃ m, r = .error (.Io m)) ∧
          OnlyRemoves (objects s₀) (objects s') (Below fs.config.bucket keyPrefix)) := by
  intro first hall
  induction n with
  | zero =>
    intro token items s hlen hread _
    exact absurd (hread.length_le hall) (by omega)
  | succ n ih =>
    intro token items s hlen hread hremoved
    set req : ListRequest := ⟨fs.config.bucket, keyPrefix, none, 1000, token⟩ with hreq
    have hbelow : ∀ o : ObjectId, o.bucket = fs.config.bucket →
        .key o.key ∈ first.items (objects s₀) → Below fs.config.bucket keyPrefix o := by
      intro o hbucket ho
      obtain ⟨key, hitem, hkey, -⟩ := (mem_items_iff_of_none rfl _ _).1 ho
      cases hitem
      exact ⟨hbucket, hkey⟩
    have honly : OnlyRemoves (objects s₀) (objects s) (Below fs.config.bucket keyPrefix) :=
      hremoved.onlyRemoves fun o ho => hbelow o ho.1 (hread.mem ho.2.1)
    have hkept := hs.listObjectsV2 req s
    rw [S3FS.removePieces]
    rcases hcall : svc.listObjectsV2 req s with ⟨e | resp, s₁⟩
    · rw [hcall] at hkept
      dsimp only at hkept
      exact ⟨_, _, rfl, Or.inr ⟨⟨e, rfl⟩, hkept ▸ honly⟩⟩
    · rw [hcall] at hkept
      dsimp only at hkept ⊢
      have hanswers : resp.Answers req (objects s) marker :=
        hs.answers req s resp (show 0 < 1000 by decide) (by rw [hcall])
      -- behind the position nothing has been removed
      have hsame : ∀ i, Pages.Behind (token.map marker) i.position →
          (i ∈ req.items (objects s) ↔ i ∈ first.items (objects s₀)) := by
        intro i hi
        rw [mem_items_iff_of_none rfl, mem_items_iff_of_none rfl]
        refine exists_congr fun key => and_congr_right fun hitem => and_congr_right fun _ => ?_
        rw [hremoved.kept _ fun ho => hread.not_mem hi (hitem ▸ ho.2.1)]
      have hpiece := hread.append hanswers.piece hsame
      rcases deletePiece_cases fs hs hrefuses
        (resp.contents.filterMap ListedObject.key) s₁ with ⟨hok, hgone⟩ | ⟨⟨m, hm⟩, hsome⟩
      · have hboth : Removed (objects s₀)
            (objects (fs.deletePiece svc (resp.contents.filterMap ListedObject.key) s₁).2)
            fun o => o.bucket = fs.config.bucket ∧ .key o.key ∈ items ++ resp.items ∧
              ¬ refuses o.key := by
          refine (hremoved.trans (hkept ▸ hgone)).congr fun o _ => ?_
          rw [resp.mem_keys_iff, List.mem_append]
          tauto
        rcases hdelete : fs.deletePiece svc (resp.contents.filterMap ListedObject.key) s₁ with
          ⟨e | ⟨⟩, s₂⟩
        · rw [hdelete] at hok
          cases hok
        · rw [hdelete] at hboth
          dsimp only at hboth ⊢
          cases htoken : resp.nextContinuationToken with
          | none =>
            rw [htoken] at hpiece
            have htruncated : resp.isTruncated = some false := by
              rw [hanswers.isTruncated, htoken]
              rfl
            simp only [htruncated, Option.getD_some, Bool.false_eq_true, if_false]
            refine ⟨_, _, rfl, Or.inl ⟨rfl, hboth.congr fun o ho => ?_⟩⟩
            rw [hpiece.mem_iff_of_all, mem_items_iff_of_none rfl, Below, and_assoc]
            refine and_congr_right fun hbucket => and_congr_left fun _ => ?_
            constructor
            · rintro ⟨key, hitem, hkey, -⟩
              cases hitem
              exact hkey
            · intro hkey
              have heq : o = ⟨fs.config.bucket, o.key⟩ := by rw [← hbucket]
              exact ⟨o.key, rfl, hkey, heq ▸ ho⟩
          | some t =>
            rw [htoken] at hpiece
            have htruncated : resp.isTruncated = some true := by
              rw [hanswers.isTruncated, htoken]
              rfl
            have hpos : 0 < resp.items.length :=
              List.length_pos_of_ne_nil (hanswers.ne_nil (by rw [htoken]; rfl))
            simp only [htruncated, Option.getD_some, if_true]
            exact ih (by rw [List.length_append]; omega) hpiece hboth
      · rcases hdelete : fs.deletePiece svc (resp.contents.filterMap ListedObject.key) s₁ with
          ⟨e | ⟨⟩, s₂⟩
        · rw [hdelete] at hm hsome
          dsimp only at hm hsome
          cases hm
          refine ⟨_, _, rfl, Or.inr ⟨⟨m, rfl⟩, honly.trans ((hkept ▸ hsome).imp fun o ho => ?_)⟩⟩
          refine hbelow o ho.1 ((hpiece.mem_iff _).1 (List.mem_append_right _ ?_)).1
          exact (resp.mem_keys_iff _).1 ho.2
        · rw [hdelete] at hm
          cases hm

end Racfs.S3Fs
