import Mathlib.Data.Finmap
import Mathlib.Data.List.DropRight
import Mathlib.Tactic.IntervalCases

/-!
# Core types of the orchestrator

The data exchanged between the crates: node descriptors, roles, project tasks and their results.
Hash maps are Mathlib's finite maps, which forget the iteration order. An unsigned counter or
length of the source is a natural number and a UUID is a 128-bit word. Times are nanoseconds: an
`Instant` counts from an arbitrary origin, a `DateTime` from the Unix epoch.
-/

namespace EdgeOrchestrator

/-- A `Vec<u8>`. -/
abbrev Bytes := List UInt8

/-- A `HashMap<Key, Value>` without its iteration order. -/
abbrev HashMap (Key Value : Type) := Finmap fun _ : Key ↦ Value

/-- An order in which iterating over a hash map can visit its entries. -/
structure IterationOrder {Key Value : Type} [DecidableEq Key] (map : HashMap Key Value) where
  entries : List (Key × Value)
  nodup : (entries.map Prod.fst).Nodup
  mem_iff : ∀ key value, (key, value) ∈ entries ↔ map.lookup key = some value

def HashMap.ofEntries {Key Value : Type} [DecidableEq Key] (entries : List (Key × Value)) :
    HashMap Key Value :=
  (entries.map fun entry ↦ (⟨entry.1, entry.2⟩ : Σ _ : Key, Value)).toFinmap

/-- What a map holds after an insertion is the new value or was there before. -/
theorem eq_or_of_lookup_insert_eq_some {Key Value : Type} [DecidableEq Key]
    {map : HashMap Key Value} {key other : Key} {value found : Value}
    (hfound : (map.insert key value).lookup other = some found) :
    other = key ∧ found = value ∨ map.lookup other = some found := by
  by_cases hother : other = key
  · rw [hother, Finmap.lookup_insert, Option.some.injEq] at hfound
    exact Or.inl ⟨hother, hfound.symm⟩
  · rw [Finmap.lookup_insert_of_ne _ hother] at hfound
    exact Or.inr hfound

theorem foldl_or_eq_true_iff {Item : Type} (test : Item → Bool) (found : Bool)
    (items : List Item) :
    items.foldl (fun found item ↦ found || test item) found = true ↔
      found = true ∨ ∃ item ∈ items, test item = true := by
  induction items generalizing found with
  | nil => simp
  | cons item rest ih => simp [ih, or_assoc]

/-- Some entry of a map passes a test exactly when some key is looked up with a value that does. -/
theorem any_eq_true_iff {Key Value : Type} [DecidableEq Key] (map : HashMap Key Value)
    (test : Key → Value → Bool) :
    map.any test = true ↔ ∃ key value, map.lookup key = some value ∧ test key value = true := by
  induction map using Finmap.induction_on with
  | H entries =>
    have hentries := foldl_or_eq_true_iff (fun entry ↦ test entry.1 entry.2) false entries.entries
    apply hentries.trans
    constructor
    · intro hfound
      rcases hfound.resolve_left Bool.false_ne_true with ⟨⟨key, value⟩, hmem, htest⟩
      exact ⟨key, value, Finmap.lookup_eq_some_iff.mpr hmem, htest⟩
    · rintro ⟨key, value, hlookup, htest⟩
      exact Or.inr ⟨⟨key, value⟩, Finmap.lookup_eq_some_iff.mp hlookup, htest⟩

namespace IterationOrder

variable {Key Value : Type} [DecidableEq Key]

/-- A list of entries with different keys is an order of its map. -/
def ofEntries (entries : List (Key × Value)) (hnodup : (entries.map Prod.fst).Nodup) :
    IterationOrder (HashMap.ofEntries entries) where
  entries := entries
  nodup := hnodup
  mem_iff := by
    intro key value
    have hkeys : (entries.map fun entry ↦ (⟨entry.1, entry.2⟩ : Σ _ : Key, Value)).NodupKeys := by
      rw [List.NodupKeys, List.keys, List.map_map]
      exact hnodup
    rw [HashMap.ofEntries, Finmap.dlookup_list_toFinmap]
    apply Iff.trans _ (List.mem_dlookup_iff hkeys).symm
    simp

/-- Reading a map may begin with any of its entries. -/
theorem exists_beginning_with {map : HashMap Key Value} {key : Key} {value : Value}
    (hlookup : map.lookup key = some value) :
    ∃ (order : IterationOrder map) (rest : List (Key × Value)),
      order.entries = (key, value) :: rest := by
  have hmem : (⟨key, value⟩ : Σ _ : Key, Value) ∈ map.entries.toList :=
    Multiset.mem_toList.mpr (Finmap.lookup_eq_some_iff.mp hlookup)
  obtain ⟨before, after, hlist⟩ := List.append_of_mem hmem
  let entries : List (Σ _ : Key, Value) := ⟨key, value⟩ :: (before ++ after)
  have hperm : entries.Perm map.entries.toList := by
    rw [hlist]
    exact List.perm_middle.symm
  have hkeys : (map.entries.toList.map Sigma.fst).Nodup := by
    have hmap := map.nodupKeys
    rw [← Multiset.coe_toList map.entries] at hmap
    exact hmap
  refine ⟨⟨entries.map fun entry ↦ (entry.1, entry.2), ?_, ?_⟩, _, rfl⟩
  · rw [List.map_map]
    exact (hperm.map Sigma.fst).nodup_iff.mpr hkeys
  · intro other found
    have hentry : (other, found) ∈ entries.map (fun entry ↦ (entry.1, entry.2)) ↔
        ⟨other, found⟩ ∈ entries := by simp
    rw [hentry, hperm.mem_iff, Multiset.mem_toList]
    exact Finmap.lookup_eq_some_iff.symm

/-- Every map can be read. -/
theorem nonempty (map : HashMap Key Value) : Nonempty (IterationOrder map) := by
  by_cases hentry : ∃ key value, map.lookup key = some value
  · obtain ⟨key, value, hlookup⟩ := hentry
    obtain ⟨order, -⟩ := exists_beginning_with hlookup
    exact ⟨order⟩
  · have hmem : ∀ key value, (key, value) ∈ ([] : List (Key × Value)) ↔
        map.lookup key = some value := by
      intro key value
      exact iff_of_false List.not_mem_nil fun hlookup ↦ hentry ⟨key, value, hlookup⟩
    exact ⟨⟨[], List.nodup_nil, hmem⟩⟩

end IterationOrder

abbrev Uuid := BitVec 128

/-- Membership of a UUID in a list is decided by comparing. -/
instance lawfulBEqUuid : LawfulBEq Uuid := inferInstance

abbrev NodeId := Uuid
abbrev TaskId := Uuid

/-- Content hash, a hex string when it was computed here and any string when a peer sent it. -/
abbrev Hash := String

/-- Monotonic clock reading in nanoseconds. -/
abbrev Instant := ℕ

/-- Length of time in nanoseconds. -/
abbrev Duration := ℕ

def Duration.fromSecs (seconds : ℕ) : Duration := seconds * 1000000000

def Duration.fromMillis (millis : ℕ) : Duration := millis * 1000000

/-- `Duration::as_secs`, which drops the fraction. -/
def Duration.asSecs (duration : Duration) : ℕ := duration / 1000000000

/-- `Duration::as_millis`, which drops the fraction. -/
def Duration.asMillis (duration : Duration) : ℕ := duration / 1000000

/-- UTC time in nanoseconds since the Unix epoch. -/
structure DateTime where
  nanos : ℤ
  deriving DecidableEq, Repr

/-- A libp2p address in its text form. -/
structure Multiaddr where
  text : String
  deriving DecidableEq, Repr

/-- A libp2p peer, identified by the multihash of its public key. -/
structure PeerId where
  multihash : Bytes
  deriving DecidableEq, Repr

inductive NodeType
  | heavy
  | light
  deriving DecidableEq, Repr

inductive OsType
  | macOS
  | linux
  | windows
  | ios
  | android
  | unknown
  deriving DecidableEq, Repr

structure Capabilities where
  storage : Bool := true
  gpuAcceleration : Bool := false
  runtimes : List String := ["qlean"]
  maxMemoryMb : ℕ := 1024
  cpuCores : ℕ := 2
  projectSandbox : Bool := false
  deriving DecidableEq, Repr

inductive Role
  | storage
  | execution
  | inference
  | coordinator
  | bootstrap
  deriving DecidableEq, Repr

def Role.display : Role → String
  | .storage => "Storage"
  | .execution => "Execution"
  | .inference => "Inference"
  | .coordinator => "Coordinator"
  | .bootstrap => "Bootstrap"

structure NodeDescriptor where
  nodeId : NodeId
  nodeType : NodeType
  os : OsType
  capabilities : Capabilities
  advertisedAddresses : List Multiaddr
  currentAssignedRoles : List Role
  startedAt : DateTime
  raftId : Option ℕ
  deriving DecidableEq, Repr

structure ResourceLimits where
  maxMemoryMb : ℕ := 256
  maxCpuTimeMs : ℕ := 30000
  maxDiskMb : ℕ := 100
  allowNetwork : Bool := false
  maxFds : ℕ := 64
  deriving DecidableEq, Repr

/-- A working tree with the commands that build and run it, as the sandbox takes it. -/
structure ProjectSpec where
  snapshotHash : Hash
  localProjectDir : Option String
  workDir : String
  buildCmd : List String
  runCmd : List String
  timeoutMs : ℕ
  resourceLimits : ResourceLimits
  deriving DecidableEq, Repr

structure ExecutionResult where
  exitCode : ℤ
  stdout : Bytes
  stderr : Bytes
  executionTimeMs : ℕ
  peakMemoryBytes : ℕ
  resultHash : Option Hash
  deriving DecidableEq, Repr

/-- A packed workspace: its content hash, and the bytes when the sender inlined them. -/
structure ProjectSnapshot where
  hash : Hash
  tarBytes : Bytes
  deriving DecidableEq, Repr

structure ProjectTask where
  taskId : TaskId
  snapshot : ProjectSnapshot
  workDir : String
  buildCmd : List String
  runCmd : List String
  timeoutMs : ℕ
  resourceLimits : ResourceLimits
  pinnedNode : Option NodeId
  deriving DecidableEq, Repr

structure ProjectResult where
  taskId : TaskId
  exitCode : ℤ
  stdout : Bytes
  stderr : Bytes
  executionTimeMs : ℕ
  executedOn : NodeId
  deriving DecidableEq, Repr

/-- The lowercase hexadecimal digit of a number below sixteen. -/
def hexDigit (digit : ℕ) : Char :=
  if digit < 10 then Char.ofNat (48 + digit) else Char.ofNat (87 + digit)

theorem hexDigit_utf8Size {digit : ℕ} (hdigit : digit < 16) : (hexDigit digit).utf8Size = 1 := by
  interval_cases digit <;> decide

/-- Lowercase hexadecimal digits of the `count` lowest nibbles of a number, highest first. -/
def hexNibbles (value : ℕ) : ℕ → List Char
  | 0 => []
  | count + 1 => hexDigit (value / 16 ^ count % 16) :: hexNibbles value count

/-- The hyphenated form in which a UUID is printed. -/
def Uuid.display (uuid : Uuid) : String :=
  let digits := hexNibbles uuid.toNat 32
  String.ofList (digits.take 8 ++ '-' :: (digits.drop 8).take 4 ++ '-' :: (digits.drop 12).take 4 ++
    '-' :: (digits.drop 16).take 4 ++ '-' :: digits.drop 20)

def utf8 (text : String) : Bytes := text.toList.flatMap String.utf8EncodeChar

/-- `char::is_whitespace`: the characters with the Unicode property `White_Space`. -/
def isWhitespace (char : Char) : Bool :=
  let code := char.toNat
  (9 ≤ code && code ≤ 13) || code == 0x20 || code == 0x85 || code == 0xa0 || code == 0x1680 ||
    (0x2000 ≤ code && code ≤ 0x200a) || code == 0x2028 || code == 0x2029 || code == 0x202f ||
    code == 0x205f || code == 0x3000

/-- `str::trim`. -/
def trim (text : String) : String :=
  String.ofList ((text.toList.dropWhile isWhitespace).rdropWhile isWhitespace)

/-- Lowercase hexadecimal form of a byte string. -/
def hexEncode (bytes : Bytes) : String :=
  String.ofList (bytes.flatMap fun byte ↦ hexNibbles byte.toNat 2)

example : hexEncode [0x0f, 0xa0] = "0fa0" := by decide

end EdgeOrchestrator
