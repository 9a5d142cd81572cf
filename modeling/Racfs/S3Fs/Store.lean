/-
# A service with objects

`BucketService.store` keeps its objects in a map, and answers as the documentation says: the
listings are sorted and cut at the number of keys that is asked for, a token is the text of the
last item before it, a copy of an object to itself is refused, and so is the deletion of the keys
that are locked.
-/
import Racfs.S3Fs.Bucket
import Mathlib.Data.List.Dedup

namespace Racfs.S3Fs

/-! ### The items of a listing -/

lemma isPrefix_of_upTo {t bs common : Bytes} (h : upTo t bs = some common) : common <+: bs := by
  induction bs generalizing common with
  | nil =>
    rw [upTo] at h
    split_ifs at h
    cases h
    exact List.nil_prefix
  | cons b bs ih =>
    rw [upTo] at h
    split_ifs at h with hpre
    · cases h
      exact List.isPrefixOf_iff_prefix.1 hpre
    · obtain ⟨c, hc, rfl⟩ := Option.map_eq_some_iff.1 h
      exact (List.prefix_cons_inj b).2 (ih hc)

/-- The first occurrence is still the first one when the rest is cut off. -/
lemma upTo_of_upTo {t bs common : Bytes} (h : upTo t bs = some common) :
    upTo t common = some common := by
  induction bs generalizing common with
  | nil =>
    rw [upTo] at h
    split_ifs at h with hnil
    cases h
    rw [upTo, if_pos hnil]
  | cons b bs ih =>
    rw [upTo] at h
    split_ifs at h with hpre
    · cases h
      cases t with
      | nil => rfl
      | cons c t => rw [upTo, if_pos (by simp)]
    · obtain ⟨c, hc, rfl⟩ := Option.map_eq_some_iff.1 h
      have hnot : ¬ t.isPrefixOf (b :: c) = true := by
        intro hpre'
        refine hpre (List.isPrefixOf_iff_prefix.2 ?_)
        exact (List.isPrefixOf_iff_prefix.1 hpre').trans
          ((List.prefix_cons_inj b).2 (isPrefix_of_upTo hc))
      rw [upTo, if_neg hnot, ih hc]
      rfl

/-- A key that counts as itself does not have the text of a common prefix. -/
lemma itemOf_of_text {req : ListRequest} {key key' : Bytes}
    (h : req.itemOf key = .commonPrefix key') : req.itemOf key' = .commonPrefix key' := by
  rw [ListRequest.itemOf] at h
  cases hup : req.delimiter.bind fun d => upTo d (key.drop req.keyPrefix.length) with
  | none =>
    rw [hup] at h
    cases h
  | some common =>
    rw [hup] at h
    cases h
    obtain ⟨d, hd, hcommon⟩ := Option.bind_eq_some_iff.1 hup
    rw [ListRequest.itemOf, List.drop_left, hd, Option.bind_some, upTo_of_upTo hcommon]

lemma eq_of_itemOf_eq_key {req : ListRequest} {key t : Bytes} (h : req.itemOf key = .key t) :
    key = t := by
  rw [ListRequest.itemOf] at h
  split at h
  · cases h
  · exact Item.key.inj h

/-- The items of a listing differ in their texts. -/
lemma itemOf_eq_of_text {req : ListRequest} {key key' : Bytes}
    (h : (req.itemOf key).text = (req.itemOf key').text) : req.itemOf key = req.itemOf key' := by
  cases hkey : req.itemOf key with
  | key t =>
    cases hkey' : req.itemOf key' with
    | key t' =>
      rw [hkey, hkey'] at h
      exact congrArg Item.key h
    | commonPrefix t' =>
      rw [hkey, hkey'] at h
      obtain rfl := eq_of_itemOf_eq_key hkey
      obtain rfl : key = t' := h
      cases hkey.symm.trans (itemOf_of_text hkey')
  | commonPrefix t =>
    cases hkey' : req.itemOf key' with
    | key t' =>
      rw [hkey, hkey'] at h
      obtain rfl := eq_of_itemOf_eq_key hkey'
      obtain rfl : t = key' := h
      cases hkey'.symm.trans (itemOf_of_text hkey)
    | commonPrefix t' =>
      rw [hkey, hkey'] at h
      exact congrArg Item.commonPrefix h

lemma order_injective : Function.Injective order :=
  List.map_injective_iff.2 fun _ _ h => UInt8.toNat_inj.1 h

/-- The items of the keys, in order. -/
def allItems (req : ListRequest) (keys : List Bytes) : List Item :=
  ((keys.filter fun k => req.keyPrefix.isPrefixOf k).map req.itemOf).dedup.insertionSort
    fun i j => i.position ≤ j.position

/-- Those behind a position. -/
def sortedItems (req : ListRequest) (keys : List Bytes) (after : Option (List ℕ)) : List Item :=
  (allItems req keys).filter fun i => after.all fun m => m < i.position

lemma mem_allItems {req : ListRequest} {keys : List Bytes} {i : Item} :
    i ∈ allItems req keys ↔ ∃ key ∈ keys, req.keyPrefix <+: key ∧ req.itemOf key = i := by
  rw [allItems, List.mem_insertionSort, List.mem_dedup, List.mem_map]
  simp [and_assoc]

lemma mem_sortedItems {req : ListRequest} {keys : List Bytes} {after : Option (List ℕ)} {i : Item} :
    i ∈ sortedItems req keys after ↔ i ∈ allItems req keys ∧ Pages.Behind after i.position := by
  rw [sortedItems, List.mem_filter]
  cases after <;> simp [Pages.Behind]

lemma pairwise_sortedItems (req : ListRequest) (keys : List Bytes) (after : Option (List ℕ)) :
    (sortedItems req keys after).Pairwise fun i j => i.position < j.position := by
  have htotal : Std.Total fun i j : Item => i.position ≤ j.position :=
    ⟨fun i j => le_total i.position j.position⟩
  have htrans : IsTrans Item fun i j => i.position ≤ j.position := ⟨fun _ _ _ => le_trans⟩
  have hsorted : (allItems req keys).Pairwise fun i j => i.position ≤ j.position :=
    List.pairwise_insertionSort _ _
  have hnodup : (allItems req keys).Nodup :=
    (List.perm_insertionSort _ _).nodup_iff.2 (List.nodup_dedup _)
  refine ((hsorted.and hnodup).imp_of_mem fun {i j} hi hj hij => ?_).filter _
  refine lt_of_le_of_ne hij.1 fun heq => hij.2 ?_
  obtain ⟨key, -, -, rfl⟩ := mem_allItems.1 hi
  obtain ⟨key', -, -, rfl⟩ := mem_allItems.1 hj
  exact itemOf_eq_of_text (order_injective heq)

/-! ### The service -/

instance partialEquivBEqObjectId : PartialEquivBEq ObjectId := inferInstance

/-- The objects of a service. -/
abbrev Store := AssocMap ObjectId Object

/-- The keys of a bucket. -/
def Store.bucketKeys (s : Store) (bucket : Bytes) : List Bytes :=
  (s.keys.filter fun o => o.bucket = bucket).map ObjectId.key

/-- The entry of an item that is an object. -/
def Store.listed (s : Store) (bucket : Bytes) : Item → Option ListedObject
  | .key key => (s.get? ⟨bucket, key⟩).map fun obj =>
    ⟨some key, some (Int64.ofNat obj.body.length), some obj.lastModified⟩
  | .commonPrefix _ => none

/-- The entry of an item that is a common prefix. -/
def Item.common : Item → Option (Option Bytes)
  | key _ => none
  | commonPrefix text => some (some text)

/-- How the source of a copy is read. -/
def sourceOf (text : Bytes) : ObjectId :=
  ⟨text.takeWhile (· ≠ slash), (text.dropWhile (· ≠ slash)).tail⟩

/-- The answer to a listing. -/
def Store.list (s : Store) (req : ListRequest) : ListResponse :=
  let items := sortedItems req (s.bucketKeys req.bucket) (req.continuationToken.map order)
  let page := items.take req.maxKeys
  { contents := page.filterMap (s.listed req.bucket)
    commonPrefixes := page.filterMap Item.common
    isTruncated := some (decide (req.maxKeys < items.length))
    nextContinuationToken :=
      if req.maxKeys < items.length then page.getLast?.map Item.text else none
    keyCount := some (Int32.ofNat page.length) }

/-- A service with objects, in which some keys are locked. -/
def BucketService.store (locked : Bytes → Bool) : BucketService Store where
  listObjectsV2 req s := (.ok (s.list req), s)
  headObject o s :=
    match s.get? o with
    | some obj => (.ok ⟨some (Int64.ofNat obj.body.length), some obj.lastModified⟩, s)
    | none => (.error (.notFound "NotFound"), s)
  putObject o body s := (.ok (), s.insert o ⟨body, epoch⟩)
  copyObject o text s :=
    if sourceOf text = o then (.error "InvalidRequest", s)
    else
      match s.get? (sourceOf text) with
      | some obj => (.ok (), s.insert o ⟨obj.body, epoch⟩)
      | none => (.error "NoSuchKey", s)
  deleteObject o s := if locked o.key then (.error "AccessDenied", s) else (.ok (), s.erase o)
  deleteObjects bucket keys s :=
    (.ok (keys.filter locked),
      s.retain fun o _ => !(o.bucket = bucket ∧ o.key ∈ keys ∧ locked o.key = false))

lemma Store.mem_bucketKeys {s : Store} {bucket key : Bytes} :
    key ∈ s.bucketKeys bucket ↔ (s.get? ⟨bucket, key⟩).isSome := by
  rw [bucketKeys, List.mem_map]
  constructor
  · rintro ⟨o, ho, rfl⟩
    rw [List.mem_filter, decide_eq_true_eq, AssocMap.mem_keys] at ho
    obtain ⟨⟨obj, hobj⟩, rfl⟩ := ho
    exact Option.isSome_iff_exists.2 ⟨obj, hobj⟩
  · intro h
    obtain ⟨obj, hobj⟩ := Option.isSome_iff_exists.1 h
    refine ⟨⟨bucket, key⟩, List.mem_filter.2 ⟨AssocMap.mem_keys.2 ⟨obj, hobj⟩, ?_⟩, rfl⟩
    rw [decide_eq_true_eq]

lemma Store.key_mem_allItems {s : Store} {req : ListRequest} {key : Bytes}
    (h : .key key ∈ allItems req (s.bucketKeys req.bucket)) :
    (s.get? ⟨req.bucket, key⟩).isSome := by
  obtain ⟨key', hkey', -, hitem⟩ := mem_allItems.1 h
  obtain rfl := eq_of_itemOf_eq_key hitem
  exact mem_bucketKeys.1 hkey'

lemma mem_items_iff_allItems {s : Store} {req : ListRequest} {i : Item} :
    i ∈ allItems req (s.bucketKeys req.bucket) ↔ i ∈ req.items s.get? := by
  rw [mem_allItems]
  refine exists_congr fun key => ?_
  rw [Store.mem_bucketKeys]
  tauto

/-- The items of a page, those that are objects first. -/
lemma Store.perm_page (s : Store) {bucket : Bytes} {page : List Item}
    (h : ∀ key, .key key ∈ page → (s.get? ⟨bucket, key⟩).isSome) :
    ((page.filterMap (s.listed bucket)).filterMap (fun o => o.key.map Item.key) ++
      (page.filterMap Item.common).filterMap fun p => p.map Item.commonPrefix).Perm page := by
  induction page with
  | nil => exact .refl _
  | cons i page ih =>
    have hrest := ih fun key hkey => h key (List.mem_cons_of_mem _ hkey)
    cases i with
    | key key =>
      obtain ⟨obj, hobj⟩ := Option.isSome_iff_exists.1 (h key List.mem_cons_self)
      simpa [List.filterMap_cons, listed, hobj, Item.common] using hrest.cons (Item.key key)
    | commonPrefix text =>
      simp only [List.filterMap_cons, listed, Item.common, Option.map_some]
      exact List.perm_middle.trans (hrest.cons _)

lemma Store.list_answers (s : Store) {req : ListRequest} (hpos : 0 < req.maxKeys) :
    (s.list req).Answers req s.get? order := by
  set items := sortedItems req (s.bucketKeys req.bucket) (req.continuationToken.map order)
    with hitems
  have hpiece : Pages.Piece Item.position (req.items s.get?) (req.continuationToken.map order)
      (items.take req.maxKeys)
      (if req.maxKeys < items.length then (items.take req.maxKeys).getLast?.map Item.position
        else none) :=
    Pages.piece_take (pairwise_sortedItems req (s.bucketKeys req.bucket) _)
      (fun i => mem_sortedItems.trans (and_congr_left fun _ => mem_items_iff_allItems)) hpos
  have hmem : ∀ i ∈ items.take req.maxKeys, i ∈ allItems req (s.bucketKeys req.bucket) :=
    fun i hi => (mem_sortedItems.1 (List.mem_of_mem_take hi)).1
  have hperm : (s.list req).items.Perm (items.take req.maxKeys) :=
    s.perm_page fun key hkey => key_mem_allItems (hmem _ hkey)
  have hne : req.maxKeys < items.length → items.take req.maxKeys ≠ [] := by
    intro hlen hnil
    have hlength := congrArg List.length hnil
    rw [List.length_take, List.length_nil] at hlength
    omega
  refine ⟨?_, ?_, ?_, ?_, ?_, ?_, ?_⟩
  · intro o ho
    obtain ⟨i, hi, hlisted⟩ := List.mem_filterMap.1 ho
    cases i with
    | key key =>
      obtain ⟨obj, hobj, rfl⟩ := Option.map_eq_some_iff.1 hlisted
      exact ⟨key, obj, rfl, hobj, rfl, rfl⟩
    | commonPrefix text => cases hlisted
  · intro p hp
    obtain ⟨i, -, hcommon⟩ := List.mem_filterMap.1 hp
    cases i with
    | key key => cases hcommon
    | commonPrefix text =>
      cases hcommon
      simp
  · have hstop : (s.list req).nextContinuationToken.map order =
        if req.maxKeys < items.length then (items.take req.maxKeys).getLast?.map Item.position
        else none := by
      rw [list]
      dsimp only
      split_ifs
      · rw [Option.map_map]
        rfl
      · rfl
    rw [hstop]
    exact hpiece.perm hperm
  · rw [list]
    dsimp only
    rw [Option.some.injEq]
    split_ifs with hlen
    · rw [Option.isSome_map, List.getLast?_isSome.2 (hne hlen), decide_eq_true hlen]
    · simp [hlen]
  · intro hsome
    rw [list] at hsome
    dsimp only at hsome
    split_ifs at hsome with hlen
    · intro hnil
      rw [hnil, List.nil_perm] at hperm
      exact hne hlen hperm
    · cases hsome
  · rw [hperm.length_eq, List.length_take]
    omega
  · rw [hperm.length_eq]
    rfl

lemma get?_insert_eq_update (s : Store) (o : ObjectId) (obj : Object) :
    (s.insert o obj).get? = Function.update s.get? o (some obj) := by
  funext o'
  rw [AssocMap.get?_insert, Function.update_apply]
  exact if_congr (beq_iff_eq.trans eq_comm) rfl rfl

lemma get?_erase_eq_update (s : Store) (o : ObjectId) :
    (s.erase o).get? = Function.update s.get? o none := by
  funext o'
  rw [AssocMap.get?_erase, Function.update_apply]
  exact if_congr (beq_iff_eq.trans eq_comm) rfl rfl

/-- The service is as it is documented. -/
lemma BucketService.lawful_store (locked : Bytes → Bool) :
    (BucketService.store locked).Lawful (fun s => s.get?) order sourceOf where
  listObjectsV2 _ _ := rfl
  answers req s resp hpos h := by
    cases h
    exact s.list_answers hpos
  headObject o s := by
    rw [store]
    dsimp only
    split <;> rfl
  head_ok o s head h := by
    rw [store] at h
    dsimp only at h
    split at h
    · next obj hobj =>
      cases h
      exact ⟨obj, hobj, rfl, rfl⟩
    · cases h
  head_notFound o s m h := by
    rw [store] at h
    dsimp only at h
    split at h
    · cases h
    · next hnone => exact hnone
  putObject_ok o body s _ := ⟨epoch, get?_insert_eq_update s o _⟩
  putObject_error o body s e h := by cases h
  copyObject_ok o text s h := by
    rw [store] at h ⊢
    dsimp only at h ⊢
    split_ifs at h ⊢
    split at h
    · next obj hobj => exact ⟨obj, epoch, hobj, get?_insert_eq_update s o _⟩
    · cases h
  copyObject_error o text s e h := by
    rw [store] at h ⊢
    dsimp only at h ⊢
    split_ifs at h ⊢
    · exact Or.inl rfl
    · split at h
      · cases h
      · exact Or.inl rfl
  deleteObject_ok o s h := by
    rw [store] at h ⊢
    dsimp only at h ⊢
    split_ifs at h ⊢
    exact get?_erase_eq_update s o
  deleteObject_error o s e h := by
    rw [store] at h ⊢
    dsimp only at h ⊢
    split_ifs at h ⊢
    exact Or.inl rfl
  deleteObjects_ok bucket keys s refused h o := by
    cases h
    rw [store]
    dsimp only
    have hkeep := s.get?_retain_key (k := o)
      (f := fun o => !decide (o.bucket = bucket ∧ o.key ∈ keys ∧ locked o.key = false))
      fun a ha => by rw [eq_of_beq ha]
    have hiff : (o.bucket = bucket ∧ o.key ∈ keys ∧ o.key ∉ keys.filter locked) ↔
        o.bucket = bucket ∧ o.key ∈ keys ∧ locked o.key = false := by
      simp +contextual [List.mem_filter]
    rw [if_congr hiff rfl rfl]
    refine hkeep.trans ?_
    split_ifs with hkept hgone hgone
    · simp [hgone] at hkept
    · rfl
    · rfl
    · simp [hgone] at hkept
  deleteObjects_error _ _ _ _ h := by cases h

end Racfs.S3Fs
