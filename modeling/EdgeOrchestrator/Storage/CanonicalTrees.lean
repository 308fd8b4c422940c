import EdgeOrchestrator.Storage.PutHistory
import EdgeOrchestrator.Storage.TreeHashing

/-!
# What is read back for a tree

The hash of a tree is computed over a sorted copy of the entries, but the object keeps the entries
in the order in which they were listed, and only the first put of a hash is written. What is read
back is therefore the first listing of the directory. It is sorted exactly when the first put of
the history that lists the directory lists it in name order.
-/

namespace EdgeOrchestrator.Storage

/-- The put lists a tree that is printed like the entries. -/
def PutOperation.lists (entries : List TreeEntry) : PutOperation → Bool
  | .tree listed => treeContent listed = treeContent entries
  | .blob _ | .commit _ _ _ _ _ | .tag _ _ _ => false

/-- Of the puts of a history and a put of the entries after it, the first one that lists the
directory lists it in name order. -/
def FirstListedInOrder (operations : List PutOperation) (entries : List TreeEntry) : Prop :=
  (operations ++ [PutOperation.tree entries]).find? (PutOperation.lists entries) =
    some (.tree (sortByName entries))

/-- Plain directories are printed alike exactly when one lists the entries of the other. -/
theorem lists_iff_perm {entries listed : List TreeEntry} (hentries : IsDirectory entries)
    (hlisted : IsDirectory listed) (hplain : ∀ entry ∈ entries, IsPlainName entry.name)
    (hplainListed : ∀ entry ∈ listed, IsPlainName entry.name) :
    (PutOperation.tree listed).lists entries ↔ listed.Perm entries := by
  rw [PutOperation.lists, decide_eq_true_eq]
  constructor
  · intro hcontent
    exact (perm_of_treeContent_eq hentries hlisted hplain hplainListed hcontent.symm).symm
  · intro hperm
    exact treeContent_eq_of_perm hlisted.1 hperm

theorem hash_tree (primitives : Primitives) (entries : List TreeEntry) :
    (PutOperation.tree entries).hash primitives = hashTree primitives entries := rfl

/-- What is hashed like a tree is a tree that is printed alike. -/
theorem hashed_eq_tree_iff {operation : PutOperation} {entries : List TreeEntry} :
    operation.hashed = (PutOperation.tree entries).hashed ↔ operation.lists entries = true := by
  constructor
  · intro hhashed
    have htagged := fun hkind ↦ blob_and_tag_of_hashed_eq hhashed hkind
    cases operation with
    | tree listed => exact decide_eq_true (withHeader_tree_injective hhashed)
    | blob data => simp at htagged
    | commit now treeHash parentHashes author message => simp at htagged
    | tag commitHash name message => simp at htagged
  · intro hlists
    cases operation with
    | tree listed => exact congrArg (withHeader "tree") (of_decide_eq_true hlists)
    | blob data => cases hlists
    | commit now treeHash parentHashes author message => cases hlists
    | tag commitHash name message => cases hlists

/-- Without collisions the first put with the hash of a tree is the first one that lists it. -/
theorem firstPut_hashTree {primitives : Primitives} {operations : List PutOperation}
    {entries : List TreeEntry} (hcollision : NoCollisions primitives operations)
    (hmem : .tree entries ∈ operations) :
    firstPut primitives operations (hashTree primitives entries) =
      operations.find? (PutOperation.lists entries) := by
  have hsame : ∀ operation ∈ operations,
      decide (operation.hash primitives = hashTree primitives entries) =
        operation.lists entries := by
    intro operation hoperation
    rw [Bool.eq_iff_iff, decide_eq_true_eq, ← hashed_eq_tree_iff, ← hash_tree]
    constructor
    · exact hcollision.hashed_eq hoperation hmem
    · intro hhashed
      rw [PutOperation.hash, PutOperation.hash, hhashed]
  rw [firstPut, ← List.head?_filter, List.filter_congr hsame, List.head?_filter]

/-- A tree that was put is read back as it was first listed. -/
theorem exists_first_listing {primitives : Primitives} {operations : List PutOperation}
    {entries : List TreeEntry} {store : LocalObjectStore}
    (hstore : HoldsFirstPuts primitives operations store)
    (hcollision : NoCollisions primitives operations)
    (hroundTrip : ∀ operation ∈ operations, RoundTrips primitives (operation.object primitives))
    (hmem : .tree entries ∈ operations) :
    ∃ listed, operations.find? (PutOperation.lists entries) = some (.tree listed) ∧
      store.getTree primitives (hashTree primitives entries) = .ok listed := by
  have hfirst := firstPut_hashTree hcollision hmem
  cases hfind : operations.find? (PutOperation.lists entries) with
  | none =>
    have hnot := List.find?_eq_none.mp hfind _ hmem
    exact absurd (decide_eq_true rfl) hnot
  | some operation =>
    have hlists := List.find?_some hfind
    cases operation with
    | tree listed =>
      refine ⟨listed, rfl, ?_⟩
      have hhash : (PutOperation.tree listed).hash primitives = hashTree primitives entries := by
        rw [← hash_tree, PutOperation.hash, PutOperation.hash, hashed_eq_tree_iff.mpr hlists]
      have hfile := hstore (hashTree primitives entries)
      rw [hfirst, hfind, ← hhash] at hfile
      have hread := LocalObjectStore.readObject_of_decodes hfile
        (hroundTrip _ (List.mem_of_find?_eq_some hfind))
      rw [LocalObjectStore.getTree_eq_ok_iff, ← hhash]
      exact hread
    | blob data => cases hlists
    | commit now treeHash parentHashes author message => cases hlists
    | tag commitHash name message => cases hlists

/-- The store after a history and a put of entries, which returns the hash of the tree. -/
theorem putTree_afterHistory (primitives : Primitives) (store : LocalObjectStore)
    (operations : List PutOperation) (entries : List TreeEntry) :
    (store.afterHistory primitives operations).putTree primitives none entries =
      (.ok (hashTree primitives entries),
        store.afterHistory primitives (operations ++ [.tree entries])) := by
  have hput := LocalObjectStore.put_none primitives (store.afterHistory primitives operations)
    (.tree entries)
  apply Prod.ext
  · have hreturned := congrArg Prod.fst hput
    rw [hash_tree] at hreturned
    exact hreturned
  · simp only [LocalObjectStore.afterHistory, LocalObjectStore.putAll, List.map_append,
      List.foldl_append]
    rfl

/-- A put of entries after a history returns the hash of the tree, and the entries are read back in
name order exactly when the directory was first listed in that order. -/
theorem getTree_putTree_iff (primitives : Primitives) (store : LocalObjectStore)
    (hempty : store.IsEmpty) (operations : List PutOperation) (entries : List TreeEntry)
    (hcollision : NoCollisions primitives (operations ++ [.tree entries]))
    (hroundTrip : ∀ operation ∈ operations ++ [.tree entries],
      RoundTrips primitives (operation.object primitives)) :
    let put := (store.afterHistory primitives operations).putTree primitives none entries
    put.1 = .ok (hashTree primitives entries) ∧
      (put.2.getTree primitives (hashTree primitives entries) = .ok (sortByName entries) ↔
        FirstListedInOrder operations entries) := by
  intro put
  have hmem : PutOperation.tree entries ∈ operations ++ [.tree entries] := by simp
  obtain ⟨listed, hfind, hget⟩ := exists_first_listing
    (holdsFirstPuts_afterHistory primitives hempty (operations ++ [.tree entries])) hcollision
    hroundTrip hmem
  rw [show put = _ from putTree_afterHistory primitives store operations entries]
  refine ⟨rfl, ?_⟩
  rw [hget, FirstListedInOrder, hfind]
  simp

/-! ## Two files listed in either order -/

def twoFiles (first second : String) : List TreeEntry := [emptyFile first, emptyFile second]

/-- The SHA-256 digest of the tree with the empty files `a` and `b`. -/
def twoFilesDigest : Bytes :=
  [0x36, 0x64, 0xbf, 0xa6, 0xc2, 0xba, 0x92, 0xcd, 0x24, 0x3d, 0x86, 0xf2, 0x07, 0xb3, 0xbe,
   0xb0, 0xed, 0x26, 0xe3, 0x65, 0x93, 0xff, 0xb6, 0x8a, 0x41, 0x07, 0x39, 0x7e, 0x5b, 0x02,
   0x2b, 0x40]

theorem length_twoFilesDigest : twoFilesDigest.length = 32 := rfl

/-- The tree of the two files as the serializer writes it. -/
def twoFilesJson (first second : String) : Bytes :=
  let entry := "\",\"hash\":\"" ++ hexEncode emptyBlobDigest ++ "\",\"mode\":\"Blob\"\x7d"
  utf8 ("\x7b\"Tree\":\x7b\"hash\":\"" ++ hexEncode twoFilesDigest ++
    "\",\"entries\":[\x7b\"name\":\"" ++ (first ++ (entry ++ ",\x7b\"name\":\"" ++ second ++
      entry ++ "]\x7d\x7d")))

/-- The tree listed in name order. -/
def orderedForm : ObjectForm where
  object := .tree ⟨hexEncode twoFilesDigest, twoFiles "a" "b"⟩
  json := twoFilesJson "a" "b"
  zlib :=
    [0x78, 0x9c, 0xb5, 0xcd, 0x3d, 0x6e, 0x02, 0x41, 0x0c, 0x40, 0xe1, 0xbb, 0xb8, 0xa6, 0x18,
     0xff, 0xac, 0x3d, 0xb3, 0x25, 0x67, 0xa0, 0x8b, 0x28, 0xec, 0x1d, 0x8f, 0x88, 0x14, 0x40,
     0x82, 0x74, 0xab, 0xbd, 0x3b, 0x8b, 0x84, 0x72, 0x83, 0xb4, 0xaf, 0xf8, 0xde, 0x0a, 0xa7,
     0x47, 0x26, 0xcc, 0x2b, 0x5c, 0xfc, 0x79, 0x81, 0x19, 0x58, 0x55, 0x62, 0xb8, 0x2e, 0x14,
     0xde, 0x68, 0xe9, 0x24, 0xdc, 0xab, 0x0e, 0x2a, 0x16, 0x1c, 0x19, 0x25, 0x3b, 0x69, 0xb2,
     0x4e, 0x8d, 0xc7, 0x08, 0xad, 0x2e, 0x58, 0x8c, 0x9b, 0xe5, 0x14, 0x85, 0x28, 0xa4, 0xc0,
     0x01, 0xf2, 0xf6, 0xfb, 0xf8, 0xce, 0x27, 0xcc, 0x5f, 0x2b, 0xdc, 0xfc, 0xba, 0xeb, 0xe0,
     0x7b, 0xfe, 0x0c, 0xc4, 0xd8, 0xcb, 0x90, 0x65, 0xd7, 0xaa, 0x37, 0xd6, 0x8a, 0x4e, 0x6a,
     0xc9, 0x81, 0xd9, 0xdc, 0xfa, 0xd2, 0x1d, 0xb1, 0x4e, 0xc2, 0x3a, 0x12, 0x05, 0x87, 0x99,
     0x34, 0xa4, 0xe2, 0x5c, 0xd8, 0x08, 0x2b, 0xf2, 0x2e, 0x5d, 0xef, 0xfd, 0x8d, 0x1e, 0x7f,
     0xee, 0x01, 0xdb, 0xe1, 0x6f, 0x12, 0xff, 0x37, 0x39, 0x6f, 0xdb, 0x0b, 0x97, 0xb7, 0x52,
     0x2e]

/-- The tree listed against the name order. -/
def reversedForm : ObjectForm where
  object := .tree ⟨hexEncode twoFilesDigest, twoFiles "b" "a"⟩
  json := twoFilesJson "b" "a"
  zlib :=
    [0x78, 0x9c, 0xb5, 0xcd, 0x3d, 0x6e, 0x02, 0x41, 0x0c, 0x40, 0xe1, 0xbb, 0xb8, 0xa6, 0x18,
     0xff, 0xac, 0x3d, 0xb3, 0x25, 0x67, 0xa0, 0x8b, 0x28, 0xec, 0x1d, 0x8f, 0x88, 0x14, 0x40,
     0x82, 0x74, 0xab, 0xbd, 0x3b, 0x8b, 0x84, 0x72, 0x83, 0xb4, 0xaf, 0xf8, 0xde, 0x0a, 0xa7,
     0x47, 0x26, 0xcc, 0x2b, 0x5c, 0xfc, 0x79, 0x81, 0x19, 0x58, 0x55, 0x62, 0xb8, 0x2e, 0x14,
     0xde, 0x68, 0xe9, 0x24, 0xdc, 0xab, 0x0e, 0x2a, 0x16, 0x1c, 0x19, 0x25, 0x3b, 0x69, 0xb2,
     0x4e, 0x8d, 0xc7, 0x08, 0xad, 0x2e, 0x58, 0x8c, 0x9b, 0xe5, 0x14, 0x85, 0x28, 0xa4, 0xc0,
     0x01, 0xf2, 0xf6, 0xfb, 0xf8, 0xce, 0x27, 0xcc, 0x5f, 0x2b, 0xdc, 0xfc, 0xba, 0xeb, 0x10,
     0x7b, 0xfe, 0x0c, 0xc4, 0xd8, 0xcb, 0x90, 0x65, 0xd7, 0xaa, 0x37, 0xd6, 0x8a, 0x4e, 0x6a,
     0xc9, 0x81, 0xd9, 0xdc, 0xfa, 0xd2, 0x1d, 0xb1, 0x4e, 0xc2, 0x3a, 0x12, 0x05, 0x87, 0x99,
     0x34, 0xa4, 0xe2, 0x5c, 0xd8, 0x08, 0x2b, 0xf2, 0x2e, 0x5d, 0xef, 0xfd, 0x8d, 0x1e, 0x7f,
     0xee, 0x01, 0xdb, 0xe1, 0x6f, 0xe2, 0xff, 0x37, 0x39, 0x6f, 0xdb, 0x0b, 0x98, 0x1c, 0x52,
     0x2e]

/-- The third-party functions tabulated on the two listings. -/
def twoFilesTabulated : Primitives :=
  .ofForms [⟨(PutOperation.tree (twoFiles "a" "b")).hashed, twoFilesDigest, length_twoFilesDigest⟩]
    [orderedForm, reversedForm]

/-- The text of the listing goes on with the first name. -/
theorem first_of_twoFilesJson {left right other last : String}
    (hjson : twoFilesJson left right = twoFilesJson other last) :
    ∃ rest rest', left.toList ++ rest = other.toList ++ rest' := by
  have htext := congrArg String.toList (utf8_injective hjson)
  rw [String.toList_append, @String.toList_append _ (other ++ _)] at htext
  have hnames := List.append_cancel_left htext
  rw [String.toList_append, @String.toList_append other] at hnames
  exact ⟨_, _, hnames⟩

theorem nodup_twoFilesJson : ([orderedForm, reversedForm].map ObjectForm.json).Nodup := by
  simp only [orderedForm, reversedForm, List.map_cons, List.map_nil]
  apply List.pairwise_pair.mpr
  intro hjson
  obtain ⟨rest, rest', hnames⟩ := first_of_twoFilesJson hjson
  exact absurd (List.cons_eq_cons.mp hnames).1 (by decide)

theorem roundTrips_twoFiles {form : ObjectForm} (hmem : form ∈ [orderedForm, reversedForm]) :
    RoundTrips twoFilesTabulated form.object :=
  roundTrips_of_mem_forms (by decide) nodup_twoFilesJson (by decide) hmem

theorem increase_twoFiles : NamesIncrease (twoFiles "a" "b") :=
  List.pairwise_pair.mpr (by decide)

theorem perm_twoFiles : (twoFiles "b" "a").Perm (twoFiles "a" "b") := List.Perm.swap _ _ _

theorem hashed_reversed :
    (PutOperation.tree (twoFiles "b" "a")).hashed =
      (PutOperation.tree (twoFiles "a" "b")).hashed :=
  congrArg (withHeader "tree") (treeContent_eq_of_perm (by decide) perm_twoFiles)

theorem sha256_twoFiles :
    twoFilesTabulated.sha256 (PutOperation.tree (twoFiles "a" "b")).hashed = twoFilesDigest := by
  unfold twoFilesTabulated
  exact sha256_single_digest ⟨_, twoFilesDigest, length_twoFilesDigest⟩

theorem object_ordered :
    (PutOperation.tree (twoFiles "a" "b")).object twoFilesTabulated = orderedForm.object := by
  rw [PutOperation.object, PutOperation.hash, sha256_twoFiles]
  rfl

theorem object_reversed :
    (PutOperation.tree (twoFiles "b" "a")).object twoFilesTabulated = reversedForm.object := by
  rw [PutOperation.object, PutOperation.hash, hashed_reversed, sha256_twoFiles]
  rfl

/-- A tree listed against the name order is read back in that order. -/
theorem reversed_tree_stays_reversed :
    ¬ ∀ (primitives : Primitives) (store : LocalObjectStore) (operations : List PutOperation)
        (entries : List TreeEntry), store.IsEmpty → NamesDistinct entries →
      (∀ entry ∈ entries, '\n' ∉ entry.name.toList) →
      NoCollisions primitives (operations ++ [.tree entries]) →
      (∀ operation ∈ operations ++ [.tree entries],
        RoundTrips primitives (operation.object primitives)) →
      ((store.afterHistory primitives operations).putTree primitives none entries).2.getTree
        primitives (hashTree primitives entries) = .ok (sortByName entries) := by
  intro hgeneral
  have hcollision :
      NoCollisions twoFilesTabulated ([] ++ [PutOperation.tree (twoFiles "b" "a")]) :=
    noCollisions_singleton _
  have hroundTrip : ∀ operation ∈ [] ++ [PutOperation.tree (twoFiles "b" "a")],
      RoundTrips twoFilesTabulated (operation.object twoFilesTabulated) := by
    rw [List.nil_append, List.forall_mem_singleton, object_reversed]
    exact roundTrips_twoFiles (List.mem_cons_of_mem _ List.mem_cons_self)
  have hget := hgeneral twoFilesTabulated ⟨[], ∅⟩ [] (twoFiles "b" "a") (isEmpty_emptyDisk [])
    (by decide) (by decide) hcollision hroundTrip
  obtain ⟨listed, hfind, hread⟩ := exists_first_listing
    (holdsFirstPuts_afterHistory twoFilesTabulated (isEmpty_emptyDisk []) _) hcollision hroundTrip
    (List.mem_singleton_self _)
  have hlisted : listed = twoFiles "b" "a" := by
    have hmem := List.mem_of_find?_eq_some hfind
    exact PutOperation.tree.inj (List.mem_singleton.mp hmem)
  have hsorted : sortByName (twoFiles "b" "a") = twoFiles "a" "b" := by
    rw [sortByName_eq_of_perm (by decide) perm_twoFiles]
    exact sortByName_of_increase increase_twoFiles
  rw [putTree_afterHistory, hread, hlisted, hsorted] at hget
  exact absurd (Outcome.ok.inj hget) (by decide)

/-- A tree listed in name order is read back in that order. -/
theorem ordered_tree_stays_ordered :
    let put := (LocalObjectStore.afterHistory twoFilesTabulated ⟨[], ∅⟩ []).putTree
      twoFilesTabulated none (twoFiles "a" "b")
    put.2.getTree twoFilesTabulated (hashTree twoFilesTabulated (twoFiles "a" "b")) =
      .ok (sortByName (twoFiles "a" "b")) := by
  have hroundTrip : ∀ operation ∈ [] ++ [PutOperation.tree (twoFiles "a" "b")],
      RoundTrips twoFilesTabulated (operation.object twoFilesTabulated) := by
    rw [List.nil_append, List.forall_mem_singleton, object_ordered]
    exact roundTrips_twoFiles List.mem_cons_self
  apply (getTree_putTree_iff twoFilesTabulated ⟨[], ∅⟩ (isEmpty_emptyDisk []) [] _ _
    hroundTrip).2.mpr
  · rw [FirstListedInOrder, sortByName_of_increase increase_twoFiles]
    simp [PutOperation.lists]
  · exact noCollisions_singleton _

end EdgeOrchestrator.Storage
