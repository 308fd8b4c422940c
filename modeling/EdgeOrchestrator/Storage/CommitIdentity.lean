import EdgeOrchestrator.Storage.PutHistory
import EdgeOrchestrator.Storage.TreeHashing

/-!
# What the hash of a commit says about the call

A commit is hashed as lines: the tree, the parents, the author with the time, the same again for
the committer, and the message. The time is printed in seconds, so two calls that differ only in
the fraction of a second have one hash, and the commit of the second call is never stored. The
author is printed without escapes, so an author can also spell the line break and the committer
line that follow it. Calls of no such pair are told apart and read back.
-/

namespace EdgeOrchestrator.Storage

open DelimitedText

/-- A call of `commit` at a time. -/
structure CommitCall where
  now : DateTime
  treeHash : Hash
  parentHashes : List Hash
  author : String
  message : String
  deriving DecidableEq, Repr

namespace CommitCall

@[simp]
def operation (call : CommitCall) : PutOperation :=
  .commit call.now call.treeHash call.parentHashes call.author call.message

def hash (primitives : Primitives) (call : CommitCall) : Hash :=
  hashCommit primitives call.treeHash call.parentHashes call.author call.now call.message

def recorded (primitives : Primitives) (call : CommitCall) : Commit where
  hash := call.hash primitives
  treeHash := call.treeHash
  parentHashes := call.parentHashes
  author := call.author
  timestamp := call.now
  message := call.message

theorem hash_operation (primitives : Primitives) (call : CommitCall) :
    call.operation.hash primitives = call.hash primitives := rfl

theorem object_operation (primitives : Primitives) (call : CommitCall) :
    call.operation.object primitives = .commit (call.recorded primitives) := rfl

/-- Whole seconds since the Unix epoch. -/
def seconds (call : CommitCall) : ℤ := call.now.nanos / 1000000000

/-- Author and time as they are printed. -/
def signature (call : CommitCall) : String :=
  call.author ++ " " ++ DateTime.secondsAndOffset call.now

/-- Tree and parents are hexadecimal hashes. -/
def HasHexHashes (call : CommitCall) : Prop :=
  IsHexHash call.treeHash ∧ ∀ parent ∈ call.parentHashes, IsHexHash parent

/-- The calls agree in everything but the fraction of a second. -/
def SameToTheSecond (first second : CommitCall) : Prop :=
  first.treeHash = second.treeHash ∧ first.parentHashes = second.parentHashes ∧
    first.author = second.author ∧ first.seconds = second.seconds ∧
    first.message = second.message

/-- The author of the second call goes on where the author line of the first call ends: it spells
the line break, the start of the committer line and more, and the messages make up for it. -/
def AuthorGoesOn (first second : CommitCall) : Prop :=
  first.treeHash = second.treeHash ∧ first.parentHashes = second.parentHashes ∧
    ∃ rest, second.signature = first.signature ++ "\ncommitter " ++ rest ∧
      rest ++ "\ncommitter " ++ second.signature ++ "\n\n" ++ second.message =
        first.signature ++ "\n\n" ++ first.message

end CommitCall

/-! ## The printed lines -/

def parentLines (parentHashes : List Hash) : List Char :=
  parentHashes.flatMap fun parent ↦ "parent ".toList ++ (parent.toList ++ ['\n'])

/-- The text of a commit behind the line of the author. -/
def committerLines (signature message : String) : List Char :=
  "committer ".toList ++ (signature.toList ++ '\n' :: '\n' :: (message.toList ++ ['\n']))

def CommitCall.text (call : CommitCall) : List Char :=
  "tree ".toList ++ (call.treeHash.toList ++ '\n' :: (parentLines call.parentHashes ++
    ("author ".toList ++ (call.signature.toList ++
      '\n' :: committerLines call.signature call.message))))

theorem utf8_parentLines (parentHashes : List Hash) :
    utf8 (String.ofList (parentLines parentHashes)) =
      parentHashes.flatMap fun parent ↦ utf8 ("parent " ++ parent ++ "\n") := by
  rw [utf8, String.toList_ofList, parentLines, List.flatMap_assoc]
  apply List.flatMap_congr
  intro parent _
  rw [utf8, String.toList_append, String.toList_append, List.append_assoc]
  rfl

theorem commitContent_eq (call : CommitCall) :
    commitContent call.treeHash call.parentHashes call.author call.now call.message =
      utf8 (String.ofList call.text) := by
  have htext : String.ofList call.text =
      "tree " ++ call.treeHash ++ "\n" ++ String.ofList (parentLines call.parentHashes) ++
        ("author " ++ call.author ++ " " ++ DateTime.secondsAndOffset call.now ++ "\n") ++
        ("committer " ++ call.author ++ " " ++ DateTime.secondsAndOffset call.now ++ "\n") ++
        ("\n" ++ call.message ++ "\n") := by
    have hnewline : "\n".toList = ['\n'] := rfl
    unfold CommitCall.text committerLines CommitCall.signature
    rw [← String.toList_inj, String.toList_ofList]
    simp only [String.toList_append, String.toList_ofList, hnewline, List.append_assoc,
      List.cons_append, List.nil_append]
  rw [htext, utf8_append, utf8_append, utf8_append, utf8_append, utf8_parentLines]
  rfl

/-- A printed integer holds neither a space nor a line break. -/
theorem notMem_toString {char : Char} (hdigit : char.isDigit = false) (hminus : char ≠ '-')
    (number : ℤ) : char ∉ (toString number).toList := by
  have hrepr : ∀ number : ℕ, char ∉ number.repr.toList := by
    intro number hmem
    rw [Nat.toList_repr] at hmem
    rw [Nat.isDigit_of_mem_toDigits (by decide) (by decide) hmem] at hdigit
    cases hdigit
  cases number with
  | ofNat number => exact hrepr number
  | negSucc number =>
    intro hmem
    change char ∈ ("-" ++ number.succ.repr).toList at hmem
    rw [String.toList_append, List.mem_append] at hmem
    rcases hmem with hsign | hnumber
    · exact hminus (List.mem_singleton.mp hsign)
    · exact hrepr number.succ hnumber

theorem repr_injective {left right : ℕ} (hrepr : left.repr.toList = right.repr.toList) :
    left = right := by
  rw [Nat.toList_repr, Nat.toList_repr] at hrepr
  calc
    left = Nat.ofDigitChars 10 (Nat.toDigits 10 left) 0 := Nat.ofDigitChars_ten_toDigits.symm
    _ = Nat.ofDigitChars 10 (Nat.toDigits 10 right) 0 := by rw [hrepr]
    _ = right := Nat.ofDigitChars_ten_toDigits

/-- A natural number is not printed with a sign. -/
theorem repr_ne_sign (number : ℕ) (rest : List Char) : number.repr.toList ≠ '-' :: rest := by
  intro hrepr
  have hmem : '-' ∈ Nat.toDigits 10 number := by
    rw [← Nat.toList_repr, hrepr]
    exact List.mem_cons_self
  exact absurd (Nat.isDigit_of_mem_toDigits (by decide) (by decide) hmem) (by decide)

theorem toString_injective {left right : ℤ}
    (htext : (toString left).toList = (toString right).toList) : left = right := by
  have hsign : ∀ number : ℕ,
      (toString (Int.negSucc number)).toList = '-' :: number.succ.repr.toList := by
    intro number
    change ("-" ++ number.succ.repr).toList = _
    rw [String.toList_append]
    rfl
  cases left with
  | ofNat left =>
    cases right with
    | ofNat right => exact congrArg Int.ofNat (repr_injective htext)
    | negSucc right =>
      rw [hsign] at htext
      exact absurd htext (repr_ne_sign left _)
  | negSucc left =>
    cases right with
    | ofNat right =>
      rw [hsign] at htext
      exact absurd htext.symm (repr_ne_sign right _)
    | negSucc right =>
      rw [hsign, hsign, List.cons_eq_cons] at htext
      exact congrArg Int.negSucc (Nat.succ.inj (repr_injective htext.2))

theorem toList_signature (call : CommitCall) :
    call.signature.toList =
      call.author.toList ++ ' ' :: ((toString call.seconds).toList ++ " +0000".toList) := by
  rw [CommitCall.signature, DateTime.secondsAndOffset, String.toList_append,
    String.toList_append, String.toList_append, List.append_assoc]
  rfl

/-- Author and seconds are determined by their printed form. -/
theorem author_and_seconds_of_signature {first second : CommitCall}
    (hsignature : first.signature = second.signature) :
    first.author = second.author ∧ first.seconds = second.seconds := by
  have htext := congrArg String.toList hsignature
  rw [toList_signature, toList_signature, ← List.cons_append, ← List.cons_append,
    ← List.append_assoc, ← List.append_assoc] at htext
  obtain ⟨hauthor, hseconds⟩ := cut_last (notMem_toString (by decide) (by decide) _)
    (notMem_toString (by decide) (by decide) _) (List.append_cancel_right htext)
  exact ⟨String.toList_inj.mp hauthor, toString_injective hseconds⟩

theorem signature_eq_iff {first second : CommitCall} :
    first.signature = second.signature ↔
      first.author = second.author ∧ first.seconds = second.seconds := by
  constructor
  · exact author_and_seconds_of_signature
  · intro hsame
    apply String.toList_inj.mp
    rw [toList_signature, toList_signature, hsame.1, hsame.2]

/-- The parents end where the line of the author begins. -/
theorem parentLines_injective {left right : List Hash} {rest other : List Char}
    (hleft : ∀ parent ∈ left, IsHexHash parent) (hright : ∀ parent ∈ right, IsHexHash parent)
    (htext : parentLines left ++ ("author ".toList ++ rest) =
      parentLines right ++ ("author ".toList ++ other)) : left = right ∧ rest = other := by
  have hcons : ∀ (parent : Hash) (parents : List Hash) (rest : List Char),
      parentLines (parent :: parents) ++ rest =
        "parent ".toList ++ (parent.toList ++ '\n' :: (parentLines parents ++ rest)) := by
    intro parent parents rest
    simp only [parentLines, List.flatMap_cons, List.append_assoc, List.cons_append,
      List.nil_append]
  have hinitial : ∀ (parent : Hash) (parents : List Hash) (rest other : List Char),
      parentLines (parent :: parents) ++ rest ≠ parentLines [] ++ ("author ".toList ++ other) := by
    intro parent parents rest other hlines
    rw [hcons] at hlines
    exact absurd (List.cons_eq_cons.mp hlines).1 (by decide)
  induction left generalizing right with
  | nil =>
    cases right with
    | nil => exact ⟨rfl, List.append_cancel_left htext⟩
    | cons parent parents => exact absurd htext.symm (hinitial parent parents _ _)
  | cons parent parents ih =>
    cases right with
    | nil => exact absurd htext (hinitial parent parents _ _)
    | cons other others =>
      rw [hcons, hcons] at htext
      rw [List.forall_mem_cons] at hleft hright
      obtain ⟨hparent, hrest⟩ := List.append_inj (List.append_cancel_left htext)
        (hleft.1.1.trans hright.1.1.symm)
      obtain ⟨hparents, htail⟩ := ih hleft.2 hright.2 (List.cons_eq_cons.mp hrest).2
      rw [String.toList_inj.mp hparent, hparents]
      exact ⟨rfl, htail⟩

/-! ## Calls with one text -/

theorem toList_blankLine : "\n\n".toList = ['\n', '\n'] := rfl

theorem toList_committer : "\ncommitter ".toList = '\n' :: "committer ".toList := rfl

/-- The lines behind a text, as one text and the last line break. -/
theorem append_committerLines (front : List Char) (signature message : String) :
    front ++ '\n' :: committerLines signature message =
      (String.ofList front ++ "\ncommitter " ++ signature ++ "\n\n" ++ message).toList ++
        ['\n'] := by
  unfold committerLines
  simp only [String.toList_append, String.toList_ofList, toList_blankLine, toList_committer,
    List.append_assoc, List.cons_append, List.nil_append]

/-- The lines behind the word `committer`, as one text and the last line break. -/
theorem committerLines_eq (signature message : String) :
    committerLines signature message =
      "committer ".toList ++ ((signature ++ "\n\n" ++ message).toList ++ ['\n']) := by
  unfold committerLines
  simp only [String.toList_append, toList_blankLine, List.append_assoc, List.cons_append,
    List.nil_append]

/-- An author line that goes on behind another one spells the start of the committer line. -/
theorem exists_rest_of_longer {signature other message last : String} {piece : List Char}
    (hlonger : other.toList = signature.toList ++ '\n' :: piece)
    (htext : committerLines signature message = piece ++ '\n' :: committerLines other last) :
    ∃ rest, other = signature ++ "\ncommitter " ++ rest ∧
      rest ++ "\ncommitter " ++ other ++ "\n\n" ++ last = signature ++ "\n\n" ++ message := by
  rw [committerLines_eq] at htext
  obtain ⟨rest, hpiece, hrest⟩ := front_of_cut (by decide) htext
  refine ⟨String.ofList rest, String.toList_inj.mp ?_, String.toList_inj.mp ?_⟩
  · simp only [hlonger, hpiece, String.toList_append, String.toList_ofList, toList_committer,
      List.append_assoc, List.cons_append]
  · rw [append_committerLines] at hrest
    exact (List.append_cancel_right hrest).symm

/-- The lines of two calls agree when the author of one goes on where the line of the other ends. -/
theorem committerLines_of_longer {signature other message last rest : String}
    (hlonger : other = signature ++ "\ncommitter " ++ rest)
    (htext : rest ++ "\ncommitter " ++ other ++ "\n\n" ++ last =
      signature ++ "\n\n" ++ message) :
    signature.toList ++ '\n' :: committerLines signature message =
      other.toList ++ '\n' :: committerLines other last := by
  have hsame : signature ++ "\ncommitter " ++ signature ++ "\n\n" ++ message =
      other ++ "\ncommitter " ++ other ++ "\n\n" ++ last := by
    calc
      signature ++ "\ncommitter " ++ signature ++ "\n\n" ++ message =
          signature ++ "\ncommitter " ++ (signature ++ "\n\n" ++ message) := by
        simp only [String.append_assoc]
      _ = signature ++ "\ncommitter " ++ rest ++ "\ncommitter " ++ other ++ "\n\n" ++ last := by
        rw [← htext]
        simp only [String.append_assoc]
      _ = other ++ "\ncommitter " ++ other ++ "\n\n" ++ last := by rw [← hlonger]
  rw [append_committerLines, append_committerLines, String.ofList_toList, String.ofList_toList,
    hsame]

/-- Calls are printed alike exactly when tree and parents agree and the lines behind them do. -/
theorem text_eq_iff_lines {first second : CommitCall} (hfirst : first.HasHexHashes)
    (hsecond : second.HasHexHashes) :
    first.text = second.text ↔ first.treeHash = second.treeHash ∧
      first.parentHashes = second.parentHashes ∧
      first.signature.toList ++ '\n' :: committerLines first.signature first.message =
        second.signature.toList ++ '\n' :: committerLines second.signature second.message := by
  unfold CommitCall.text
  constructor
  · intro htext
    obtain ⟨htree, hrest⟩ := List.append_inj (List.append_cancel_left htext)
      (hfirst.1.1.trans hsecond.1.1.symm)
    obtain ⟨hparents, hlines⟩ :=
      parentLines_injective hfirst.2 hsecond.2 (List.cons_eq_cons.mp hrest).2
    exact ⟨String.toList_inj.mp htree, hparents, hlines⟩
  · intro hsame
    rw [hsame.1, hsame.2.1, hsame.2.2]

/-- Two calls are printed alike exactly when they agree to the second or the author of one goes on
where the author line of the other ends. -/
theorem text_eq_iff {first second : CommitCall} (hfirst : first.HasHexHashes)
    (hsecond : second.HasHexHashes) :
    first.text = second.text ↔
      first.SameToTheSecond second ∨ first.AuthorGoesOn second ∨ second.AuthorGoesOn first := by
  rw [text_eq_iff_lines hfirst hsecond]
  constructor
  · intro hsame
    obtain ⟨htree, hparents, hlines⟩ := hsame
    rcases eq_or_extends hlines with ⟨hsignature, hrest⟩ | ⟨piece, hlonger, hrest⟩ |
      ⟨piece, hlonger, hrest⟩
    · have hboth := String.toList_inj.mp hsignature
      obtain ⟨hauthor, hseconds⟩ := author_and_seconds_of_signature hboth
      rw [committerLines_eq, committerLines_eq, hboth] at hrest
      have hmessage := List.append_cancel_right (List.append_cancel_left hrest)
      simp only [String.toList_append] at hmessage
      exact Or.inl ⟨htree, hparents, hauthor, hseconds,
        String.toList_inj.mp (List.append_cancel_left hmessage)⟩
    · exact Or.inr (Or.inl ⟨htree, hparents, exists_rest_of_longer hlonger hrest⟩)
    · exact Or.inr (Or.inr ⟨htree.symm, hparents.symm, exists_rest_of_longer hlonger hrest⟩)
  · intro hcases
    rcases hcases with ⟨htree, hparents, hauthor, hseconds, hmessage⟩ |
      ⟨htree, hparents, rest, hlonger, htext⟩ | ⟨htree, hparents, rest, hlonger, htext⟩
    · rw [signature_eq_iff.mpr ⟨hauthor, hseconds⟩, hmessage]
      exact ⟨htree, hparents, rfl⟩
    · exact ⟨htree, hparents, committerLines_of_longer hlonger htext⟩
    · exact ⟨htree.symm, hparents.symm, (committerLines_of_longer hlonger htext).symm⟩

/-- The author holds no line break that the word `committer` follows. -/
def IsPlainAuthor (author : String) : Prop :=
  ∀ before after, author ≠ before ++ "\ncommitter" ++ after

/-- A plain author never goes on where the author line of another call ends. -/
theorem not_authorGoesOn_of_plain {first second : CommitCall}
    (hplain : IsPlainAuthor second.author) : ¬ first.AuthorGoesOn second := by
  intro hgoesOn
  obtain ⟨-, -, rest, hlonger, -⟩ := hgoesOn
  have hword : "\ncommitter ".toList = "\ncommitter".toList ++ [' '] := rfl
  have htime : '\n' ∉ (toString second.seconds).toList ++ " +0000".toList := by
    rw [List.mem_append, not_or]
    exact ⟨notMem_toString (by decide) (by decide) _, by decide⟩
  have htext := congrArg String.toList hlonger
  rw [toList_signature, String.toList_append, String.toList_append, hword, List.append_assoc,
    List.append_assoc, List.singleton_append] at htext
  rcases List.append_eq_append_iff.mp htext with ⟨middle, -, hback⟩ | ⟨middle, hauthor, hback⟩
  · -- the line break would lie in the time
    have hmem : '\n' ∈ ' ' :: ((toString second.seconds).toList ++ " +0000".toList) := by
      rw [hback, List.mem_append]
      exact Or.inr (List.mem_append_left _ List.mem_cons_self)
    rcases List.mem_cons.mp hmem with hspace | hrest
    · exact absurd hspace (by decide)
    · exact htime hrest
  · obtain ⟨after, hmiddle, -⟩ := front_of_cut (by decide) hback
    apply hplain first.signature (String.ofList after)
    apply String.toList_inj.mp
    rw [hauthor, hmiddle, String.toList_append, String.toList_append, List.append_assoc,
      @String.toList_ofList after]

/-! ## Histories of commits -/

/-- Calls with one hash are one call. -/
def CommitsToldApart (primitives : Primitives) (calls : List CommitCall) : Prop :=
  ∀ first ∈ calls, ∀ second ∈ calls,
    first.hash primitives = second.hash primitives → first = second

/-- Every call is read back as it was recorded. -/
def CommitsReadable (primitives : Primitives) (calls : List CommitCall)
    (store : LocalObjectStore) : Prop :=
  ∀ call ∈ calls,
    store.getCommit primitives (call.hash primitives) = .ok (call.recorded primitives)

/-- Calls that agree to the second are one call, and no author goes on where the author line of
another call ends. -/
def NoneConfused (calls : List CommitCall) : Prop :=
  ∀ first ∈ calls, ∀ second ∈ calls,
    (first.SameToTheSecond second → first = second) ∧ ¬ first.AuthorGoesOn second

/-- Calls that are printed alike have one hash. -/
theorem CommitCall.hash_eq_of_text_eq (primitives : Primitives) {first second : CommitCall}
    (htext : first.text = second.text) : first.hash primitives = second.hash primitives := by
  rw [CommitCall.hash, CommitCall.hash, hashCommit, hashCommit, commitContent_eq,
    commitContent_eq, htext]

theorem noneConfused_of_toldApart {primitives : Primitives} {calls : List CommitCall}
    (hhex : ∀ call ∈ calls, call.HasHexHashes) (htold : CommitsToldApart primitives calls) :
    NoneConfused calls := by
  intro first hfirst second hsecond
  have hone : first.SameToTheSecond second ∨ first.AuthorGoesOn second ∨
      second.AuthorGoesOn first → first = second := by
    intro halike
    apply htold first hfirst second hsecond
    apply CommitCall.hash_eq_of_text_eq
    exact (text_eq_iff (hhex first hfirst) (hhex second hsecond)).mpr halike
  refine ⟨fun hsame ↦ hone (Or.inl hsame), fun hgoesOn ↦ ?_⟩
  -- an author line does not go on behind itself
  have heq := hone (Or.inr (Or.inl hgoesOn))
  obtain ⟨-, -, rest, hlonger, -⟩ := hgoesOn
  have hlength := congrArg String.length hlonger
  rw [heq, String.length_append, String.length_append] at hlength
  have hword : "\ncommitter ".length = 11 := rfl
  omega

theorem toldApart_of_noneConfused {primitives : Primitives} {calls : List CommitCall}
    (hhex : ∀ call ∈ calls, call.HasHexHashes)
    (hcollision : NoCollisions primitives (calls.map CommitCall.operation))
    (hnone : NoneConfused calls) : CommitsToldApart primitives calls := by
  intro first hfirst second hsecond hhash
  have hhashed := hcollision.hashed_eq (List.mem_map_of_mem hfirst) (List.mem_map_of_mem hsecond)
    hhash
  have hcontent := withHeader_commit_injective hhashed
  rw [commitContent_eq, commitContent_eq] at hcontent
  have htext := String.ofList_injective (utf8_injective hcontent)
  rcases (text_eq_iff (hhex first hfirst) (hhex second hsecond)).mp htext with hsame | hgoesOn |
    hgoesOn
  · exact (hnone first hfirst second hsecond).1 hsame
  · exact absurd hgoesOn (hnone first hfirst second hsecond).2
  · exact absurd hgoesOn (hnone second hsecond first hfirst).2

/-- A store that holds a history of calls with different hashes returns each of them. -/
theorem commitsReadable_of_toldApart {primitives : Primitives} {calls : List CommitCall}
    {store : LocalObjectStore}
    (hstore : HoldsHistory primitives (calls.map CommitCall.operation) store)
    (hroundTrip : ∀ call ∈ calls, RoundTrips primitives (call.operation.object primitives))
    (htold : CommitsToldApart primitives calls) : CommitsReadable primitives calls store := by
  intro call hcall
  have hmem : call.operation ∈ calls.map CommitCall.operation := List.mem_map_of_mem hcall
  obtain ⟨node, hnode⟩ := Finmap.mem_iff.mp (hstore.present _ hmem)
  obtain ⟨operation, hstored, hhash, hfile⟩ := hstore.files _ _ hnode
  obtain ⟨stored, hearlier, heq⟩ := List.mem_map.mp hstored
  rw [← heq, CommitCall.hash_operation, CommitCall.hash_operation] at hhash
  rw [← heq, htold stored hearlier call hcall hhash] at hfile
  rw [hfile] at hnode
  have hread := LocalObjectStore.readObject_of_decodes hnode (hroundTrip call hcall)
  rw [CommitCall.hash_operation, CommitCall.object_operation] at hread
  exact LocalObjectStore.getCommit_eq_ok_iff.mpr hread

/-- Calls of `commit` are told apart and read back exactly in the histories in which calls that
agree to the second are one call and no author goes on where the author line of another ends. -/
theorem commits_toldApart_iff (primitives : Primitives) (store : LocalObjectStore)
    (hempty : store.IsEmpty) (calls : List CommitCall) (hhex : ∀ call ∈ calls, call.HasHexHashes)
    (hcollision : NoCollisions primitives (calls.map CommitCall.operation))
    (hroundTrip : ∀ call ∈ calls, RoundTrips primitives (call.operation.object primitives)) :
    CommitsToldApart primitives calls ∧
        CommitsReadable primitives calls
          (store.afterHistory primitives (calls.map CommitCall.operation)) ↔
      NoneConfused calls := by
  constructor
  · intro hproperty
    exact noneConfused_of_toldApart hhex hproperty.1
  · intro hnone
    have htold := toldApart_of_noneConfused hhex hcollision hnone
    have hstore := holdsHistory_afterHistory primitives hempty (calls.map CommitCall.operation)
    exact ⟨htold, commitsReadable_of_toldApart hstore hroundTrip htold⟩

/-! ## Two snapshots in one second -/

/-- A call at a number of nanoseconds after the epoch. -/
def snapshotCall (nanos : ℤ) : CommitCall :=
  ⟨⟨nanos⟩, hexEncode emptyTreeDigest, [], "raft", "snapshot"⟩

/-- The zlib stream of the commit a nanosecond later. -/
def nanosecondZlib : Bytes :=
  [0x78, 0x9c, 0x2d, 0x8d, 0x4b, 0x6e, 0xc3, 0x30, 0x0c, 0x44, 0xef, 0xa2, 0x75, 0x1a, 0x88,
   0x22, 0xf5, 0xa1, 0xb7, 0xbd, 0x42, 0x57, 0x0d, 0x8a, 0x82, 0xb2, 0xa8, 0x3a, 0x0b, 0xc7,
   0x86, 0xa5, 0xae, 0x82, 0xdc, 0xbd, 0x6a, 0x10, 0x62, 0x56, 0x33, 0x0f, 0x8f, 0x77, 0xf3,
   0xbe, 0xad, 0xeb, 0xb5, 0x9b, 0xe9, 0x6e, 0x16, 0x69, 0x8b, 0x99, 0x0c, 0xa3, 0x0f, 0x91,
   0x81, 0x2a, 0x62, 0x25, 0x47, 0xa8, 0x73, 0x8e, 0x75, 0x46, 0x09, 0x92, 0x5d, 0xa0, 0xe2,
   0x42, 0xc2, 0x1a, 0x93, 0xc3, 0x3c, 0xb6, 0x0a, 0xca, 0x09, 0x42, 0xaa, 0x56, 0xc9, 0x73,
   0xf1, 0x82, 0x2c, 0xe6, 0x64, 0xfa, 0xa1, 0xfa, 0xfd, 0xd2, 0x05, 0xad, 0xc0, 0x99, 0xc0,
   0x39, 0x3f, 0x7b, 0x0c, 0x5c, 0x61, 0x06, 0x4b, 0x85, 0x7c, 0x49, 0x25, 0x79, 0xad, 0xc2,
   0xd9, 0xfa, 0x98, 0x3d, 0x66, 0xa0, 0x4c, 0x99, 0x33, 0x23, 0x97, 0x12, 0xa9, 0xe8, 0x3c,
   0x78, 0x07, 0x43, 0xb7, 0xcb, 0xa1, 0xb7, 0xfe, 0x14, 0x6a, 0x33, 0xd3, 0xe5, 0xeb, 0x64,
   0xe4, 0xb7, 0x2f, 0xdb, 0x31, 0xf4, 0x87, 0xd4, 0xfe, 0xff, 0xf1, 0xba, 0x6a, 0xeb, 0xb2,
   0xee, 0xa3, 0x02, 0x8e, 0xf6, 0xcd, 0xc2, 0xc8, 0x87, 0xb5, 0xd3, 0x33, 0x67, 0xfb, 0x3a,
   0xf8, 0x1c, 0xf0, 0x40, 0x9b, 0xfc, 0xe8, 0x40, 0xdb, 0x4d, 0xf6, 0xb6, 0x6c, 0xdd, 0x3c,
   0x1e, 0x7f, 0x57, 0x11, 0x4c, 0x48]

def nanosecondForm : ObjectForm :=
  ⟨.commit (snapshotCommit snapshotDigest 1),
    snapshotJson snapshotDigest "1970-01-01T00:00:00.000000001Z", nanosecondZlib⟩

/-- The third-party functions tabulated on the two commits. -/
def snapshotTabulated : Primitives :=
  .ofForms [⟨(snapshotCall 0).operation.hashed, snapshotDigest, length_snapshotDigest⟩]
    [epochForm, nanosecondForm]

theorem sameToTheSecond_snapshot : (snapshotCall 0).SameToTheSecond (snapshotCall 1) :=
  ⟨rfl, rfl, rfl, by decide, rfl⟩

theorem hasHexHashes_snapshot (nanos : ℤ) : (snapshotCall nanos).HasHexHashes := by
  refine ⟨IsDigest.isHexHash ⟨emptyTreeDigest, rfl, rfl⟩, ?_⟩
  intro parent hmem
  cases hmem

theorem hashed_snapshot :
    (snapshotCall 1).operation.hashed = (snapshotCall 0).operation.hashed := by
  have htext := (text_eq_iff (hasHexHashes_snapshot 0) (hasHexHashes_snapshot 1)).mpr
    (Or.inl sameToTheSecond_snapshot)
  change withHeader "commit" (commitContent _ _ _ _ _) =
    withHeader "commit" (commitContent _ _ _ _ _)
  rw [commitContent_eq (snapshotCall 1), commitContent_eq (snapshotCall 0), htext]

theorem snapshotJson_injective {digest : Bytes} {left right : String}
    (hjson : snapshotJson digest left = snapshotJson digest right) : left = right := by
  have htext := congrArg String.toList (utf8_injective hjson)
  rw [String.toList_append, @String.toList_append _ "\",\"message\":\"snapshot\"\x7d\x7d"] at htext
  have hfront := List.append_cancel_right htext
  rw [String.toList_append, @String.toList_append _ right] at hfront
  exact String.toList_inj.mp (List.append_cancel_left hfront)

theorem nodup_snapshotJson : ([epochForm, nanosecondForm].map ObjectForm.json).Nodup := by
  simp only [epochForm, nanosecondForm, List.map_cons, List.map_nil]
  apply List.pairwise_pair.mpr
  intro hjson
  exact absurd (snapshotJson_injective hjson) (by decide)

theorem roundTrips_snapshot {form : ObjectForm} (hmem : form ∈ [epochForm, nanosecondForm]) :
    RoundTrips snapshotTabulated form.object :=
  roundTrips_of_mem_forms (by decide) nodup_snapshotJson (by decide) hmem

theorem sha256_snapshot :
    snapshotTabulated.sha256 (snapshotCall 0).operation.hashed = snapshotDigest := by
  unfold snapshotTabulated
  exact sha256_single_digest ⟨_, snapshotDigest, rfl⟩

theorem hash_snapshot (nanos : ℤ) (hhashed : (snapshotCall nanos).operation.hashed =
    (snapshotCall 0).operation.hashed) :
    (snapshotCall nanos).operation.hash snapshotTabulated = hexEncode snapshotDigest := by
  rw [PutOperation.hash, hhashed, sha256_snapshot]

theorem roundTrips_snapshotCalls : ∀ call ∈ [snapshotCall 0, snapshotCall 1],
    RoundTrips snapshotTabulated (call.operation.object snapshotTabulated) := by
  have hobject : ∀ nanos, (snapshotCall nanos).operation.hashed =
      (snapshotCall 0).operation.hashed →
      (snapshotCall nanos).operation.object snapshotTabulated =
        .commit (snapshotCommit snapshotDigest nanos) := by
    intro nanos hhashed
    rw [CommitCall.object_operation, CommitCall.recorded, ← CommitCall.hash_operation,
      hash_snapshot nanos hhashed]
    rfl
  have hepoch : RoundTrips snapshotTabulated epochForm.object :=
    roundTrips_snapshot List.mem_cons_self
  have hnanosecond : RoundTrips snapshotTabulated nanosecondForm.object :=
    roundTrips_snapshot (List.mem_cons_of_mem _ List.mem_cons_self)
  rw [List.forall_mem_cons, List.forall_mem_singleton, hobject 0 rfl, hobject 1 hashed_snapshot]
  exact ⟨hepoch, hnanosecond⟩

theorem noCollisions_snapshot :
    NoCollisions snapshotTabulated
      ([snapshotCall 0, snapshotCall 1].map CommitCall.operation) := by
  have hsame : ∀ operation ∈ [snapshotCall 0, snapshotCall 1].map CommitCall.operation,
      operation.hashed = (snapshotCall 0).operation.hashed := by
    rw [List.forall_mem_map, List.forall_mem_cons, List.forall_mem_singleton]
    exact ⟨rfl, hashed_snapshot⟩
  exact noCollisions_of_hashed hsame

/-- Of two snapshots in one second the second one is not recorded. -/
theorem snapshots_in_one_second :
    ¬ ∀ (primitives : Primitives) (store : LocalObjectStore) (calls : List CommitCall),
      store.IsEmpty → (∀ call ∈ calls, call.HasHexHashes) →
      NoCollisions primitives (calls.map CommitCall.operation) →
      (∀ call ∈ calls, RoundTrips primitives (call.operation.object primitives)) →
      CommitsToldApart primitives calls ∧
        CommitsReadable primitives calls
          (store.afterHistory primitives (calls.map CommitCall.operation)) := by
  intro hgeneral
  have hhex : ∀ call ∈ [snapshotCall 0, snapshotCall 1], call.HasHexHashes := by
    simp [hasHexHashes_snapshot]
  have hproperty := hgeneral snapshotTabulated ⟨[], ∅⟩ [snapshotCall 0, snapshotCall 1]
    (isEmpty_emptyDisk []) hhex noCollisions_snapshot roundTrips_snapshotCalls
  have hnone := noneConfused_of_toldApart hhex hproperty.1
  have hsame := (hnone _ List.mem_cons_self _ (List.mem_cons_of_mem _ List.mem_cons_self)).1
    sameToTheSecond_snapshot
  exact absurd hsame (by decide)

/-! ## Snapshots of two seconds -/

/-- The SHA-256 digest of the text of the snapshot a second later. -/
def secondDigest : Bytes :=
  [0xe0, 0x99, 0x1b, 0x6e, 0x4a, 0x2f, 0x75, 0xb6, 0x8b, 0xb2, 0x25, 0x3e, 0x24, 0x68, 0x14,
   0x0c, 0x5f, 0xc3, 0x9c, 0xe8, 0x60, 0x32, 0x1b, 0x60, 0x6d, 0x78, 0x7d, 0x4b, 0x1c, 0x09,
   0x07, 0x3b]

/-- The zlib stream of the commit a second later. -/
def secondZlib : Bytes :=
  [0x78, 0x9c, 0x2d, 0xcd, 0x3d, 0x6e, 0xc3, 0x30, 0x0c, 0x86, 0xe1, 0xbb, 0x68, 0x4e, 0x01,
   0x52, 0xa2, 0x7e, 0xe8, 0xb5, 0x57, 0xe8, 0xd4, 0xa2, 0x28, 0x44, 0x89, 0xaa, 0x33, 0x38,
   0x36, 0x2c, 0x75, 0x0a, 0x72, 0xf7, 0x2a, 0x45, 0x81, 0x6f, 0x22, 0x5e, 0x3c, 0xbc, 0x9b,
   0xd7, 0x7d, 0xdb, 0xae, 0xc3, 0x2c, 0x77, 0xb3, 0xe6, 0xbe, 0x9a, 0xc5, 0x28, 0x30, 0xa3,
   0x04, 0xa5, 0x6c, 0x5b, 0xf4, 0x12, 0x92, 0x88, 0xb5, 0xde, 0xa9, 0xa5, 0x90, 0x90, 0xa0,
   0xf8, 0x56, 0x1c, 0x17, 0x4d, 0x01, 0x9c, 0x9d, 0x1d, 0x84, 0x1a, 0x53, 0xac, 0x24, 0x58,
   0x80, 0x21, 0x3a, 0x31, 0x17, 0x33, 0x4e, 0xd5, 0xaf, 0x7f, 0x2e, 0x68, 0x43, 0x16, 0xc2,
   0x69, 0x14, 0xef, 0x02, 0x37, 0x2c, 0x08, 0x54, 0xc9, 0xd7, 0x54, 0x93, 0xd7, 0x96, 0x59,
   0xc0, 0x47, 0xf1, 0x4e, 0x90, 0x84, 0x84, 0x85, 0x1d, 0xd7, 0x1a, 0xa9, 0x6a, 0x99, 0xbd,
   0xc5, 0xc9, 0x1d, 0xf9, 0xd4, 0xdb, 0xf8, 0x03, 0xb5, 0x9b, 0xe5, 0xe3, 0xf3, 0x62, 0xf2,
   0xcf, 0x58, 0xf7, 0x73, 0xf2, 0x67, 0x6e, 0xe3, 0xf9, 0xf1, 0xba, 0x69, 0x1f, 0x79, 0x3b,
   0xe6, 0x09, 0x39, 0xc2, 0x0b, 0xe0, 0xdc, 0x1b, 0xc0, 0xf2, 0x1c, 0xbe, 0xcf, 0x64, 0x06,
   0x3d, 0x7f, 0xeb, 0x0c, 0xfa, 0x2d, 0x1f, 0x7d, 0xdd, 0x87, 0x79, 0x3c, 0x7e, 0x01, 0x85,
   0xb6, 0x4a, 0x50]

def secondForm : ObjectForm :=
  ⟨.commit (snapshotCommit secondDigest 1000000000),
    snapshotJson secondDigest "1970-01-01T00:00:01Z", secondZlib⟩

/-- Two snapshots of the empty tree, a second apart. -/
def secondCalls : List CommitCall := [snapshotCall 0, snapshotCall 1000000000]

def secondDigests : List DigestForm :=
  [⟨(snapshotCall 0).operation.hashed, snapshotDigest, length_snapshotDigest⟩,
    ⟨(snapshotCall 1000000000).operation.hashed, secondDigest, rfl⟩]

def secondTabulated : Primitives := .ofForms secondDigests [epochForm, secondForm]

theorem sha256_seconds : ∀ form ∈ secondDigests,
    secondTabulated.sha256 form.hashed = form.digest := fun _ hmem ↦
  sha256_of_mem_digests (by decide +kernel) hmem

theorem noCollisions_seconds :
    NoCollisions secondTabulated (secondCalls.map CommitCall.operation) := by
  have hdigests : ((secondCalls.map CommitCall.operation).map fun operation ↦
      secondTabulated.sha256 operation.hashed) = secondDigests.map DigestForm.digest :=
    List.map_congr_left sha256_seconds
  apply noCollisions_of_nodup
  rw [hdigests]
  decide

/-- The text of a commit goes on with its hash. -/
theorem hash_of_snapshotJson {digest other : Bytes} {time otherTime : String}
    (hjson : snapshotJson digest time = snapshotJson other otherTime) :
    ∃ rest rest', (hexEncode digest).toList ++ rest = (hexEncode other).toList ++ rest' := by
  have htext := congrArg String.toList (utf8_injective hjson)
  simp only [String.toList_append, List.append_assoc] at htext
  exact ⟨_, _, List.append_cancel_left htext⟩

theorem nodup_secondJson : ([epochForm, secondForm].map ObjectForm.json).Nodup := by
  simp only [epochForm, secondForm, List.map_cons, List.map_nil]
  apply List.pairwise_pair.mpr
  intro hjson
  obtain ⟨rest, rest', hhashes⟩ := hash_of_snapshotJson hjson
  have hchar : '9' = 'e' := (List.cons_eq_cons.mp hhashes).1
  exact absurd hchar (by decide)

theorem roundTrips_seconds : ∀ call ∈ secondCalls,
    RoundTrips secondTabulated (call.operation.object secondTabulated) := by
  have hforms : ∀ form ∈ [epochForm, secondForm], RoundTrips secondTabulated form.object :=
    fun _ hmem ↦ roundTrips_of_mem_forms (by decide) nodup_secondJson (by decide) hmem
  have hdigests := sha256_seconds
  simp only [secondDigests, List.forall_mem_cons] at hdigests
  obtain ⟨hepoch, hsecond, -⟩ := hdigests
  have hepochObject : (snapshotCall 0).operation.object secondTabulated = epochForm.object :=
    congrArg (fun digest ↦ Object.commit (snapshotCommit digest 0)) hepoch
  have hsecondObject : (snapshotCall 1000000000).operation.object secondTabulated =
      secondForm.object :=
    congrArg (fun digest ↦ Object.commit (snapshotCommit digest 1000000000)) hsecond
  rw [secondCalls, List.forall_mem_cons, List.forall_mem_singleton, hepochObject, hsecondObject]
  exact ⟨hforms _ List.mem_cons_self, hforms _ (List.mem_cons_of_mem _ List.mem_cons_self)⟩

theorem noneConfused_seconds : NoneConfused secondCalls := by
  have hseconds : (snapshotCall 0).seconds ≠ (snapshotCall 1000000000).seconds := by decide
  intro first hfirst second hsecond
  simp only [secondCalls, List.mem_cons, List.not_mem_nil, or_false] at hfirst hsecond
  have hauthor : second.author = "raft" := by rcases hsecond with rfl | rfl <;> rfl
  refine ⟨fun hsame ↦ ?_, not_authorGoesOn_of_plain fun before after hbreaks ↦ ?_⟩
  · rcases hfirst with rfl | rfl <;> rcases hsecond with rfl | rfl
    · rfl
    · exact absurd hsame.2.2.2.1 hseconds
    · exact absurd hsame.2.2.2.1.symm hseconds
    · rfl
  · have hbreak : '\n' ∈ "raft".toList := by
      rw [← hauthor, hbreaks]
      simp
    exact absurd hbreak (by decide)

theorem commits_toldApart_seconds :
    CommitsToldApart secondTabulated secondCalls ∧
      CommitsReadable secondTabulated secondCalls
        (LocalObjectStore.afterHistory secondTabulated ⟨[], ∅⟩
          (secondCalls.map CommitCall.operation)) := by
  refine (commits_toldApart_iff secondTabulated ⟨[], ∅⟩ (isEmpty_emptyDisk []) _ ?_
    noCollisions_seconds roundTrips_seconds).mpr noneConfused_seconds
  simp [secondCalls, hasHexHashes_snapshot]

end EdgeOrchestrator.Storage
