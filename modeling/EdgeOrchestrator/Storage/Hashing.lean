import EdgeOrchestrator.Foundation.DelimitedText
import EdgeOrchestrator.Storage.Store

/-!
# Digests, their paths and what is hashed

A hash that the store computes is the hexadecimal form of a digest. It names one file two levels
below the root, and different digests name different files. What is hashed for a blob, a tree and
a commit starts with the kind and the length of the content, so contents of different kinds are
never hashed as the same bytes.
-/

namespace EdgeOrchestrator.Storage

open StackWalk

theorem hexDigit_injective {left right : ℕ} (hleft : left < 16) (hright : right < 16)
    (hdigit : hexDigit left = hexDigit right) : left = right := by
  have hall : ∀ left < 16, ∀ right < 16, hexDigit left = hexDigit right → left = right := by
    decide
  exact hall left hleft right hright hdigit

/-- A hexadecimal digit is not a character with a meaning in a path. -/
theorem hexDigit_ne {digit : ℕ} (hdigit : digit < 16) :
    hexDigit digit ≠ '/' ∧ hexDigit digit ≠ '.' := by
  interval_cases digit <;> decide

theorem hexNibbles_two (byte : UInt8) :
    hexNibbles byte.toNat 2 = [hexDigit (byte.toNat / 16 % 16), hexDigit (byte.toNat % 16)] := by
  simp [hexNibbles]

theorem hexNibbles_two_injective {left right : UInt8}
    (hnibbles : hexNibbles left.toNat 2 = hexNibbles right.toNat 2) : left = right := by
  rw [hexNibbles_two, hexNibbles_two, List.cons_eq_cons, List.cons_eq_cons] at hnibbles
  have hhigh := hexDigit_injective (Nat.mod_lt _ (by decide)) (Nat.mod_lt _ (by decide)) hnibbles.1
  have hlow :=
    hexDigit_injective (Nat.mod_lt _ (by decide)) (Nat.mod_lt _ (by decide)) hnibbles.2.1
  have hleft := left.toNat_lt
  have hright := right.toNat_lt
  apply UInt8.toNat.inj
  omega

theorem toList_hexEncode (bytes : Bytes) :
    (hexEncode bytes).toList = bytes.flatMap fun byte ↦ hexNibbles byte.toNat 2 :=
  String.toList_ofList

/-- The hexadecimal form determines the bytes. -/
theorem hexEncode_injective {left right : Bytes} (hhex : hexEncode left = hexEncode right) :
    left = right := by
  have hchars := congrArg String.toList hhex
  rw [toList_hexEncode, toList_hexEncode] at hchars
  clear hhex
  induction left generalizing right with
  | nil =>
    cases right with
    | nil => rfl
    | cons byte rest => simp [hexNibbles_two] at hchars
  | cons byte rest ih =>
    cases right with
    | nil => simp [hexNibbles_two] at hchars
    | cons other others =>
      rw [List.flatMap_cons, List.flatMap_cons] at hchars
      have hparts := List.append_inj hchars (by rw [hexNibbles_two, hexNibbles_two]; rfl)
      rw [hexNibbles_two_injective hparts.1, ih hparts.2]

/-- The hash is the hexadecimal form of a digest. -/
def IsDigest (hash : Hash) : Prop := ∃ digest : Bytes, digest.length = 32 ∧ hash = hexEncode digest

theorem isDigest_sha256 (primitives : Primitives) (input : Bytes) :
    IsDigest (hexEncode (primitives.sha256 input)) :=
  ⟨primitives.sha256 input, primitives.sha256_length input, rfl⟩

theorem isDigest_hashBlob (primitives : Primitives) (data : Bytes) :
    IsDigest (hashBlob primitives data) :=
  isDigest_sha256 primitives _

theorem IsDigest.hexDigits {hash : Hash} (hhash : IsDigest hash) :
    ∀ char ∈ hash.toList, ∃ digit < 16, char = hexDigit digit := by
  obtain ⟨digest, -, rfl⟩ := hhash
  rw [toList_hexEncode]
  intro char hmem
  obtain ⟨byte, -, hchar⟩ := List.mem_flatMap.mp hmem
  rw [hexNibbles_two] at hchar
  rcases List.mem_cons.mp hchar with hhigh | hlow
  · exact ⟨_, Nat.mod_lt _ (by decide), hhigh⟩
  · exact ⟨_, Nat.mod_lt _ (by decide), List.mem_singleton.mp hlow⟩

theorem IsDigest.length {hash : Hash} (hhash : IsDigest hash) : hash.toList.length = 64 := by
  obtain ⟨digest, hlength, rfl⟩ := hhash
  rw [toList_hexEncode, List.length_flatMap]
  have hbytes : (digest.map fun byte ↦ (hexNibbles byte.toNat 2).length) =
      digest.map fun _ ↦ 2 := by
    apply List.map_congr_left
    intro byte _
    rw [hexNibbles_two]
    rfl
  rw [hbytes, List.map_const', List.sum_replicate, hlength]
  rfl

/-- A text without separators and dots names an entry. -/
theorem componentMove_of_plain {text : List Char} (hne : text ≠ [])
    (hplain : ∀ char ∈ text, char ≠ '/' ∧ char ≠ '.') : componentMove text = some (.push text) := by
  have hdot : '.' ∉ text := fun hmem ↦ (hplain '.' hmem).2 rfl
  have hhere : ¬ (text = [] ∨ text = ['.']) := by
    intro hcases
    rcases hcases with hempty | hsingle
    · exact hne hempty
    · exact hdot (hsingle ▸ List.mem_singleton_self '.')
  have hup : text ≠ ['.', '.'] := fun htext ↦ hdot (htext ▸ List.mem_cons_self)
  rw [componentMove, if_neg hhere, if_neg hup]

/-- Joining a text without separators and dots to a path appends one component. -/
theorem join_of_plain {base : RawPath} {text : List Char}
    (hbase : base.components.getLast? ≠ some [])
    (hplain : ∀ char ∈ text, char ≠ '/' ∧ char ≠ '.') :
    base.join text = ⟨base.start, base.components ++ [text]⟩ := by
  have hslash : '/' ∉ text := fun hmem ↦ (hplain '/' hmem).1 rfl
  have hrelative : ¬ IsAbsolute text := fun hhead ↦ hslash (List.mem_of_mem_head? hhead)
  rw [RawPath.join, if_neg hrelative, if_neg hbase, List.splitOn_eq_singleton hslash]

/-- The file of a digest: its first two characters name the directory, the others the file. -/
def digestPath (root : Path) (hash : Hash) : Path :=
  root ++ [hash.toList.take 2, hash.toList.drop 2]

theorem length_digestPath (root : Path) (hash : Hash) :
    (digestPath root hash).length = root.length + 2 := by
  simp [digestPath]

/-- Different hashes have different files. -/
theorem digestPath_injective {root : Path} {left right : Hash}
    (hpath : digestPath root left = digestPath root right) : left = right := by
  have hparts := List.append_cancel_left hpath
  rw [List.cons_eq_cons, List.cons_eq_cons] at hparts
  apply String.toList_inj.mp
  rw [← List.take_append_drop 2 left.toList, ← List.take_append_drop 2 right.toList, hparts.1,
    hparts.2.1]

/-- The path of a digest as the store writes it. -/
def digestFile (root : Path) (hash : Hash) : RawPath :=
  ⟨root, [hash.toList.take 2, hash.toList.drop 2]⟩

@[simp]
theorem whole_digestFile (root : Path) (hash : Hash) :
    (digestFile root hash).whole = digestPath root hash := rfl

/-- The characters of a digest have no meaning in a path. -/
theorem IsDigest.plain {hash : Hash} (hhash : IsDigest hash) :
    ∀ char ∈ hash.toList, char ≠ '/' ∧ char ≠ '.' := by
  intro char hmem
  obtain ⟨digit, hdigit, rfl⟩ := hhash.hexDigits char hmem
  exact hexDigit_ne hdigit

theorem IsDigest.steps_digestFile {hash : Hash} (hhash : IsDigest hash) (root : Path) :
    (digestFile root hash).steps =
      [hash.toList.take 2, hash.toList.drop 2].map fun name ↦ some (.push name) := by
  have hlength := hhash.length
  have hfront : hash.toList.take 2 ≠ [] := by
    apply List.ne_nil_of_length_pos
    rw [List.length_take]
    omega
  have hback : hash.toList.drop 2 ≠ [] := by
    apply List.ne_nil_of_length_pos
    rw [List.length_drop]
    omega
  have hfrontMove := componentMove_of_plain hfront fun char hmem ↦
    hhash.plain char (List.mem_of_mem_take hmem)
  have hbackMove := componentMove_of_plain hback fun char hmem ↦
    hhash.plain char (List.mem_of_mem_drop hmem)
  simp only [RawPath.steps, digestFile, List.map_cons, List.map_nil, hfrontMove, hbackMove]

namespace LocalObjectStore

variable {primitives : Primitives} (store : LocalObjectStore) {hash : Hash}

theorem objectPath_of_isDigest (hhash : IsDigest hash) :
    store.objectPath hash = some (digestFile store.root hash) := by
  have hlength := hhash.length
  have hplain := hhash.plain
  have hsize : ∀ char ∈ hash.toList, char.utf8Size = 1 := by
    intro char hmem
    obtain ⟨digit, hdigit, rfl⟩ := hhash.hexDigits char hmem
    exact hexDigit_utf8Size hdigit
  unfold objectPath digestFile
  generalize hash.toList = chars at hlength hplain hsize
  match chars with
  | first :: second :: third :: rest =>
    have hnone : (RawPath.mk store.root []).components.getLast? ≠ some [] := by simp
    have hfront : (RawPath.mk store.root []).join [first, second] =
        ⟨store.root, [[first, second]]⟩ := by
      apply join_of_plain hnone
      intro char hmem
      exact hplain char (List.mem_append_left (third :: rest) hmem)
    have hname : (RawPath.mk store.root [[first, second]]).components.getLast? ≠ some [] := by simp
    have hback : (RawPath.mk store.root [[first, second]]).join (third :: rest) =
        ⟨store.root, [[first, second]] ++ [third :: rest]⟩ := by
      apply join_of_plain hname
      intro char hmem
      exact hplain char (List.mem_append_right [first, second] hmem)
    rw [splitAt_two_of_ascii _ (hsize first (by simp)) (hsize second (by simp)), Option.map_some,
      hfront, hback]
    rfl

theorem locate_digestFile (hhash : IsDigest hash) (root : Path) :
    store.tree.locate (digestFile root hash) = some (digestPath root hash) := by
  rw [FileTree.locate, hhash.steps_digestFile, Places.reach_descend, Places.lexical_descend,
    Places.lexical_descend]
  rfl

theorem node_digestPath (root : Path) (hash : Hash) :
    store.tree.node (digestPath root hash) = store.disk.lookup (digestPath root hash) :=
  if_neg (List.append_ne_nil_of_right_ne_nil _ (List.cons_ne_nil _ _))

theorem existsAt_digestFile (hhash : IsDigest hash) (root : Path) :
    store.existsAt (digestFile root hash) = (store.disk.lookup (digestPath root hash)).isSome := by
  rw [existsAt, FileTree.existsAt, locate_digestFile store hhash, Option.bind_some,
    node_digestPath]

theorem objectExists_of_isDigest (hhash : IsDigest hash) :
    store.objectExists hash = .ok (store.disk.lookup (digestPath store.root hash)).isSome := by
  simp only [objectExists, store.objectPath_of_isDigest hhash, existsAt_digestFile store hhash]

variable (primitives) in
theorem isEndless_digestPath (hash : Hash) :
    store.isEndless primitives (digestPath store.root hash) = false := by
  simp [isEndless, digestPath]

variable {store}

/-- The file of a digest is the one at its place, and its reading ends. -/
theorem holdsFile_iff_of_isDigest (hhash : IsDigest hash) {bytes : Bytes} :
    store.HoldsFile primitives hash bytes ↔
      store.disk.lookup (digestPath store.root hash) = some (.file bytes) := by
  constructor
  · rintro ⟨path, place, hpath, hplace, hbytes, -⟩
    rw [store.objectPath_of_isDigest hhash, Option.some_inj] at hpath
    rw [← hpath, locate_digestFile store hhash, Option.some_inj] at hplace
    rw [← hplace, node_digestPath] at hbytes
    exact hbytes
  · intro hbytes
    exact ⟨_, _, store.objectPath_of_isDigest hhash, locate_digestFile store hhash _,
      (store.node_digestPath _ _).trans hbytes, store.isEndless_digestPath primitives hash⟩

theorem not_readsForever_of_isDigest (hhash : IsDigest hash) :
    ¬ store.ReadsForever primitives hash := by
  rintro ⟨path, place, bytes, hpath, hplace, -, hendless⟩
  rw [store.objectPath_of_isDigest hhash, Option.some_inj] at hpath
  rw [← hpath, locate_digestFile store hhash, Option.some_inj] at hplace
  rw [← hplace, isEndless_digestPath] at hendless
  cases hendless

variable (primitives) in
/-- A digest without a file is not found. -/
theorem getBlob_of_missing (hhash : IsDigest hash)
    (hmissing : digestPath store.root hash ∉ store.disk) :
    store.getBlob primitives hash = .err (.objectNotFound hash) := by
  have hnode : store.tree.node (digestPath store.root hash) = none := by
    rw [node_digestPath]
    exact Finmap.lookup_eq_none.mpr hmissing
  rw [getBlob, readObject, store.objectPath_of_isDigest hhash]
  dsimp only
  rw [FileTree.readAt_of_missing (locate_digestFile store hhash store.root) hnode]
  rfl

theorem getBlob_returns_of_isDigest (hhash : IsDigest hash) :
    (store.getBlob primitives hash).Returns := by
  apply getBlob_returns _ (not_readsForever_of_isDigest hhash)
  rw [store.objectPath_of_isDigest hhash]
  exact Option.some_ne_none _

end LocalObjectStore

/-! ## What is hashed -/

/-- The bytes of a text determine the text. -/
theorem utf8_injective {left right : String} (hbytes : utf8 left = utf8 right) : left = right := by
  apply String.toByteArray_inj.mp
  calc
    left.toByteArray = (utf8 left).toByteArray := String.utf8Encode_toList.symm
    _ = (utf8 right).toByteArray := by rw [hbytes]
    _ = right.toByteArray := String.utf8Encode_toList

theorem utf8_append (first second : String) :
    utf8 (first ++ second) = utf8 first ++ utf8 second := by
  simp [utf8]

/-- Printable ASCII characters are encoded without a NUL byte. -/
theorem zero_notMem_utf8 {text : String}
    (htext : ∀ char ∈ text.toList, 0 < char.toNat ∧ char.toNat < 128) :
    (0 : UInt8) ∉ utf8 text := by
  intro hmem
  obtain ⟨char, hchar, hbyte⟩ := List.mem_flatMap.mp hmem
  have hrange := htext char hchar
  have hencode : String.utf8EncodeChar char = [UInt8.ofNat char.toNat] :=
    if_pos (Nat.le_of_lt_succ hrange.2)
  rw [hencode, List.mem_singleton] at hbyte
  have hzero := congrArg UInt8.toNat hbyte
  rw [UInt8.toNat_ofNat_of_lt' (lt_trans hrange.2 (by decide))] at hzero
  exact hrange.1.ne hzero

theorem ascii_of_mem_toDigits {number : ℕ} {char : Char} (hchar : char ∈ Nat.toDigits 10 number) :
    0 < char.toNat ∧ char.toNat < 128 := by
  have hdigit := Nat.isDigit_of_mem_toDigits (by decide) (by decide) hchar
  rw [Char.isDigit_iff_toNat] at hdigit
  change 48 ≤ char.toNat ∧ char.toNat ≤ 57 at hdigit
  omega

/-- The header in front of its final NUL byte. -/
def headerText (kind : String) (length : ℕ) : String := kind ++ " " ++ toString length

theorem withHeader_eq (kind : String) (content : Bytes) :
    withHeader kind content = utf8 (headerText kind content.length) ++ 0 :: content := by
  have hnul : utf8 "\x00" = [0] := by decide
  rw [withHeader, utf8_append, hnul, List.append_assoc]
  rfl

theorem zero_notMem_headerText {kind : String}
    (hkind : ∀ char ∈ (kind ++ " ").toList, 0 < char.toNat ∧ char.toNat < 128) (length : ℕ) :
    (0 : UInt8) ∉ utf8 (headerText kind length) := by
  apply zero_notMem_utf8
  intro char hmem
  rw [headerText, String.toList_append, List.mem_append] at hmem
  rcases hmem with hword | hnumber
  · exact hkind char hword
  · rw [Nat.toString_eq_repr, Nat.toList_repr] at hnumber
    exact ascii_of_mem_toDigits hnumber

/-- What is hashed for a kind determines the content. -/
theorem withHeader_injective {kind : String}
    (hkind : ∀ char ∈ (kind ++ " ").toList, 0 < char.toNat ∧ char.toNat < 128) {left right : Bytes}
    (hbytes : withHeader kind left = withHeader kind right) : left = right := by
  rw [withHeader_eq, withHeader_eq] at hbytes
  exact (DelimitedText.cut_first (zero_notMem_headerText hkind _) (zero_notMem_headerText hkind _)
    hbytes).2

theorem withHeader_blob_injective {left right : Bytes}
    (hbytes : withHeader "blob" left = withHeader "blob" right) : left = right :=
  withHeader_injective (by simp) hbytes

theorem withHeader_tree_injective {left right : Bytes}
    (hbytes : withHeader "tree" left = withHeader "tree" right) : left = right :=
  withHeader_injective (by simp) hbytes

theorem withHeader_commit_injective {left right : Bytes}
    (hbytes : withHeader "commit" left = withHeader "commit" right) : left = right :=
  withHeader_injective (by simp) hbytes

/-- What is hashed starts with the initial of the kind. -/
theorem head?_withHeader {kind : String} {initial : UInt8}
    (hkind : (utf8 kind).head? = some initial) (content : Bytes) :
    (withHeader kind content).head? = some initial := by
  rw [withHeader, utf8_append, utf8_append, utf8_append, List.append_assoc, List.append_assoc,
    List.append_assoc, List.head?_append, hkind]
  rfl

end EdgeOrchestrator.Storage
