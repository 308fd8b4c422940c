import EdgeOrchestrator.Storage.Hashing

/-!
# Confinement of object paths

The path of an object is the root joined with two parts of the hash, and the hash may be any text
a peer has sent. An absolute part replaces the root, and `..` climbs. The system resolves the path,
and the names on the way to the root may be links, so that a text that climbs out of the root does
not get back by spelling the names again. The path leads strictly inside the root on every host
exactly when the text comes to the root by its own names, never climbs out of it again, and names
something more.
-/

namespace EdgeOrchestrator.Storage

open StackWalk

/-! ## The moves of a path -/

def textMoves (text : List Char) : List (StackMove (List Char)) :=
  (text.splitOn '/').filterMap componentMove

namespace RawPath

/-- The moves of the whole path, from the top. -/
def moves (path : RawPath) : List (StackMove (List Char)) :=
  path.start.map StackMove.push ++ path.steps.reduceOption

theorem moves_eq (path : RawPath) : path.moves =
    path.start.map StackMove.push ++ path.components.filterMap componentMove := by
  rw [moves, steps, List.reduceOption, List.filterMap_map, Function.id_comp]

end RawPath

theorem splitOn_of_absolute (tail : List Char) :
    ('/' :: tail).splitOn '/' = [] :: tail.splitOn '/' :=
  List.splitOn_append_cons_self [] tail

/-- An absolute text replaces the moves of the base, and another text adds its own. -/
theorem moves_join (base : RawPath) (text : List Char) :
    (base.join text).moves =
      if IsAbsolute text then textMoves text else base.moves ++ textMoves text := by
  rw [RawPath.join]
  split_ifs with habsolute hslash
  · obtain ⟨tail, rfl⟩ := List.head?_eq_some_iff.mp habsolute
    rw [RawPath.moves_eq, textMoves, splitOn_of_absolute]
    rfl
  · -- the empty component behind the last slash does nothing
    have hbase := List.dropLast_append_getLast?  _ hslash
    rw [RawPath.moves_eq, RawPath.moves_eq, textMoves, List.filterMap_append, ← List.append_assoc]
    congr 2
    conv_rhs => rw [← hbase, List.filterMap_append]
    exact (List.append_nil _).symm
  · rw [RawPath.moves_eq, RawPath.moves_eq, textMoves, List.filterMap_append, List.append_assoc]

/-- The moves that count when both halves of a hash are joined to a path: an absolute second half
undoes the first. -/
def hashMoves (halves : List Char × List Char) : List (StackMove (List Char)) :=
  if IsAbsolute halves.2 then textMoves halves.2 else textMoves halves.1 ++ textMoves halves.2

/-- One of the halves replaces what it is joined to. -/
def LeavesRoot (halves : List Char × List Char) : Prop := IsAbsolute halves.1 ∨ IsAbsolute halves.2

instance (halves : List Char × List Char) : Decidable (LeavesRoot halves) :=
  inferInstanceAs (Decidable (_ ∨ _))

/-- The moves of an object path with both halves of the hash. -/
theorem moves_join_join (root : Path) (halves : List Char × List Char) :
    (((RawPath.mk root []).join halves.1).join halves.2).moves =
      (if LeavesRoot halves then [] else root.map StackMove.push) ++ hashMoves halves := by
  have hstart : (RawPath.mk root []).moves = root.map StackMove.push := List.append_nil _
  rw [moves_join, moves_join, hstart, hashMoves]
  by_cases hrest : IsAbsolute halves.2
  · have hleaves : LeavesRoot halves := Or.inr hrest
    simp only [hrest, hleaves, if_true, List.nil_append]
  · have hleaves : LeavesRoot halves ↔ IsAbsolute halves.1 := or_iff_left hrest
    by_cases hfront : IsAbsolute halves.1
    · simp only [hrest, hleaves, hfront, if_true, if_false, List.nil_append]
    · simp only [hrest, hleaves, hfront, if_false, List.append_assoc]

/-! ## Confined hashes -/

/-- Path of an object in a store with this root. -/
def pathUnder (root : Path) (hash : Hash) : Option RawPath :=
  (LocalObjectStore.mk root ∅).objectPath hash

/-- `exists` of a store with this root on any host. -/
def FileTree.objectExists (tree : FileTree) (root : Path) (hash : Hash) : Outcome CoreError Bool :=
  match pathUnder root hash with
  | none => .lost (.panic LocalObjectStore.splitPanic)
  | some path => .ok (tree.existsAt path)

/-- `get_blob` of a store with this root on any host. -/
def FileTree.getBlob (primitives : Primitives) (tree : FileTree)
    (endless : tree.places.Place → Bool) (root : Path) (hash : Hash) : Outcome CoreError Bytes :=
  blobOf primitives hash
    (match pathUnder root hash with
    | none => .lost (.panic LocalObjectStore.splitPanic)
    | some path => tree.readAt primitives endless path hash)

theorem LocalObjectStore.objectExists_eq (store : LocalObjectStore) (hash : Hash) :
    store.objectExists hash = store.tree.objectExists store.root hash := rfl

theorem LocalObjectStore.getBlob_eq (primitives : Primitives) (store : LocalObjectStore)
    (hash : Hash) : store.getBlob primitives hash =
      store.tree.getBlob primitives (store.isEndless primitives) store.root hash := rfl

/-- The root is there, and so are the directories on the way to it. -/
def RootStands (places : Places (List Char)) (root : Path)
    (node : places.Place → Option FileNode) : Prop :=
  ∀ front, front <+: root → node (places.descend places.top front) = some .directory

/-- The hosts have the same files strictly inside the root. -/
def AgreeInside {Content : Type} (places : Places (List Char)) (root : Path)
    (left right : places.Place → Content) : Prop :=
  ∀ place, places.StrictlyBelow (places.descend places.top root) place → left place = right place

/-- The path of the hash lies strictly inside the root once its `.` and `..` are resolved. On no
host that has no links inside the root does it lead out of the root, whatever links there are
elsewhere, and nothing outside the root has a say in what the store answers about the hash. -/
structure Confined (primitives : Primitives) (root : Path) (hash : Hash) : Prop where
  resolved : ∀ path, pathUnder root hash = some path →
    Above root (path.moves.foldl StackMove.apply [])
  inside : ∀ places : Places (List Char),
    places.NoLinksBelow (places.descend places.top root) →
    ∀ path, pathUnder root hash = some path →
      places.StrictlyBelow (places.descend places.top root) (places.walk places.top path.moves)
  objectExists : ∀ places : Places (List Char),
    places.NoLinksBelow (places.descend places.top root) →
    ∀ left right, RootStands places root left → RootStands places root right →
      AgreeInside places root left right →
      FileTree.objectExists ⟨places, left⟩ root hash =
        FileTree.objectExists ⟨places, right⟩ root hash
  getBlob : ∀ places : Places (List Char),
    places.NoLinksBelow (places.descend places.top root) →
    ∀ left right leftEndless rightEndless, RootStands places root left →
      RootStands places root right → AgreeInside places root left right →
      AgreeInside places root leftEndless rightEndless →
      FileTree.getBlob primitives ⟨places, left⟩ leftEndless root hash =
        FileTree.getBlob primitives ⟨places, right⟩ rightEndless root hash

/-- The text of the hash comes to the root by the names of the root, never climbs out of it again
and names something more. -/
def ComesBack (root : Path) (hash : Hash) : Prop :=
  ∀ path, pathUnder root hash = some path → Places.StaysBelow root path.moves

namespace FileTree

section Confined

variable {places : Places (List Char)} {root : Path} {path : RawPath}

theorem eq_walk_of_locate {tree : FileTree} {place : tree.places.Place}
    (hplace : tree.locate path = some place) :
    place = tree.places.walk tree.places.top path.moves := by
  rw [RawPath.moves, Places.walk_append]
  exact Places.eq_walk_of_reach hplace

/-- Where a path that stays inside the root leads depends on the directories there alone. -/
theorem locate_congr (hlinks : places.NoLinksBelow (places.descend places.top root))
    (hstays : Places.StaysBelow root path.moves) {left right : places.Place → Option FileNode}
    (hleft : RootStands places root left) (hright : RootStands places root right)
    (hagree : AgreeInside places root left right) :
    (FileTree.mk places left).locate path = (FileTree.mk places right).locate path := by
  apply Places.reach_congr
  intro earlier hbefore
  have hmoves : path.start.map StackMove.push ++ earlier.reduceOption <+: path.moves :=
    (List.prefix_append_right_inj _).mpr (hbefore.filterMap id)
  obtain ⟨names, hnames, hplace⟩ := Places.onWay_of_staysBelow hlinks hstays hmoves
  rw [Places.walk_append] at hplace
  have hsame : left (places.descend places.top names) = right (places.descend places.top names) := by
    rcases hnames with hway | ⟨more, hbelow⟩
    · rw [hleft names hway, hright names hway]
    · cases more with
      | nil =>
        rw [List.append_nil] at hbelow
        rw [← hbelow, hleft root List.prefix_rfl, hright root List.prefix_rfl]
      | cons name rest =>
        apply hagree
        refine ⟨name :: rest, List.cons_ne_nil _ _, ?_⟩
        rw [← hbelow, Places.descend, Places.descend, Places.descend, List.map_append,
          Places.walk_append]
  rw [Places.descend, hplace]
  exact congrArg (fun node ↦ decide (node = some FileNode.directory)) hsame

end Confined

end FileTree

/-- What the store answers about a hash that comes back depends on nothing outside the root. -/
theorem confined_of_comesBack (primitives : Primitives) {root : Path} {hash : Hash}
    (hback : ComesBack root hash) : Confined primitives root hash where
  resolved := by
    intro path hpath
    have hlinks := Places.noLinksBelow_lexical
      ((Places.lexical (List Char)).descend (Places.lexical (List Char)).top root)
    have hbelow := Places.strictlyBelow_of_staysBelow hlinks (hback path hpath)
    rw [Places.lexical_walk] at hbelow
    obtain ⟨more, hmore, hplace⟩ := hbelow
    refine ⟨more, hmore, hplace.trans ?_⟩
    rw [Places.lexical_descend, Places.lexical_descend]
    rfl
  inside := by
    intro places hlinks path hpath
    exact Places.strictlyBelow_of_staysBelow hlinks (hback path hpath)
  objectExists := by
    intro places hlinks left right hleft hright hagree
    unfold FileTree.objectExists
    cases hpath : pathUnder root hash with
    | none => rfl
    | some path =>
      have hstays := hback path hpath
      have hbelow := Places.strictlyBelow_of_staysBelow hlinks hstays
      have hlocate := FileTree.locate_congr hlinks hstays hleft hright hagree
      simp only [FileTree.existsAt]
      rw [hlocate]
      cases hplace : (FileTree.mk places right).locate path with
      | none => rfl
      | some place =>
        rw [FileTree.eq_walk_of_locate hplace]
        simp only [Option.bind_some, hagree _ hbelow]
  getBlob := by
    intro places hlinks left right leftEndless rightEndless hleft hright hagree hendless
    unfold FileTree.getBlob
    cases hpath : pathUnder root hash with
    | none => rfl
    | some path =>
      have hstays := hback path hpath
      have hbelow := Places.strictlyBelow_of_staysBelow hlinks hstays
      have hlocate := FileTree.locate_congr hlinks hstays hleft hright hagree
      simp only [FileTree.readAt]
      rw [hlocate]
      cases hplace : (FileTree.mk places right).locate path with
      | none => rfl
      | some place =>
        rw [FileTree.eq_walk_of_locate hplace]
        simp only [hagree _ hbelow, hendless _ hbelow]

/-- A hash is confined to a root exactly when its text comes back to the root. -/
theorem confined_iff (primitives : Primitives) (root : Path) (hash : Hash) :
    Confined primitives root hash ↔ ComesBack root hash := by
  constructor
  · intro hconfined path hpath
    apply (Places.strictlyBelow_everywhere_iff root path.moves).mp
    intro places hlinks
    exact hconfined.inside places hlinks path hpath
  · exact confined_of_comesBack primitives

/-- A hash with an absolute rest leads to any file of the host. -/
theorem not_confined_of_absolute_rest :
    ¬ Confined tabulated ["objects".toList] "ab/etc/passwd" := by
  intro hconfined
  have hpath : pathUnder ["objects".toList] "ab/etc/passwd" =
      some ⟨[], ["etc".toList, "passwd".toList]⟩ := by decide
  obtain ⟨more, -, hinside⟩ := hconfined.resolved _ hpath
  have hplace : (RawPath.mk [] ["etc".toList, "passwd".toList]).moves.foldl StackMove.apply [] =
      ["etc".toList, "passwd".toList] := by decide
  rw [hplace, List.singleton_append, List.cons_eq_cons] at hinside
  exact absurd hinside.1 (by decide)

/-- A hash is confined to every root exactly when neither half is absolute, every `..` cancels
with a name in front of it, and some name is left. -/
theorem comesBack_everywhere_iff (hash : Hash) :
    (∀ root, ComesBack root hash) ↔ ∀ halves, splitAt hash.toList 2 = some halves →
      ¬ LeavesRoot halves ∧ (NetWalk.ofMoves (hashMoves halves)).pops = 0 ∧
        (NetWalk.ofMoves (hashMoves halves)).pushed ≠ [] := by
  constructor
  · intro hback halves hsplit
    have hstays (root : Path) : Places.StaysBelow root
        ((if LeavesRoot halves then [] else root.map StackMove.push) ++ hashMoves halves) := by
      rw [← moves_join_join]
      apply hback root
      rw [pathUnder, LocalObjectStore.objectPath, hsplit, Option.map_some]
    have hrelative : ¬ LeavesRoot halves := by
      intro hleaves
      -- no path spells a root of as many names as it has moves and still names something more
      obtain ⟨tail, hspells, -, hpushed⟩ :=
        hstays (List.replicate (hashMoves halves).length [])
      rw [if_pos hleaves, List.nil_append] at hspells
      have hlength := congrArg List.length hspells
      have hfront := (List.dropWhile_sublist StackMove.isPop (l := hashMoves halves)).length_le
      rw [← Places.fromTop] at hfront
      rw [List.length_append, List.length_map, List.length_replicate] at hlength
      have htail : tail = [] := List.length_eq_zero_iff.mp (by omega)
      rw [htail] at hpushed
      exact hpushed rfl
    have hroot := hstays [[]]
    rw [if_neg hrelative] at hroot
    exact ⟨hrelative, (Places.staysBelow_names_iff (List.cons_ne_nil _ _) _).mp hroot⟩
  · intro hwalk root path hpath
    rw [pathUnder, LocalObjectStore.objectPath, Option.map_eq_some_iff] at hpath
    obtain ⟨halves, hsplit, rfl⟩ := hpath
    obtain ⟨hrelative, hpops, hpushed⟩ := hwalk halves hsplit
    rw [moves_join_join, if_neg hrelative]
    exact Places.staysBelow_of_no_pops root hpops hpushed

/-- The hashes that the store computes itself are confined. -/
theorem confined_of_isDigest (primitives : Primitives) (root : Path) {hash : Hash}
    (hhash : IsDigest hash) : Confined primitives root hash := by
  apply confined_of_comesBack
  intro path hpath
  rw [pathUnder, LocalObjectStore.objectPath_of_isDigest _ hhash, Option.some_inj] at hpath
  have hmoves : path.moves = root.map StackMove.push ++
      [hash.toList.take 2, hash.toList.drop 2].map StackMove.push := by
    rw [← hpath, RawPath.moves, hhash.steps_digestFile]
    rfl
  rw [hmoves]
  apply Places.staysBelow_of_no_pops <;> rw [NetWalk.ofMoves_push]
  exact List.cons_ne_nil _ _

end EdgeOrchestrator.Storage
