import EdgeOrchestrator.Foundation.Execution
import EdgeOrchestrator.Node.SnapshotIntegrity
import EdgeOrchestrator.P2P.Swarm

/-!
# Hashes that peers choose

The hash in a blob request and in a task is a string of the peer's choice, and nothing validates it.
It reaches the store through the blob provider, on the swarm loop, and through the fetcher, in the
job of the task. The store splits it after two bytes, which panics unless a character ends there,
and reads whatever file the path leads to, which takes forever when it is a device outside the
store. With every other string the loop answers the request and the job goes on to its result.
-/

namespace EdgeOrchestrator.Node

open Execution FetchWorld P2P StackWalk Storage

/-- The first two bytes of the text are whole characters: two of one byte, or one of two bytes. -/
def FirstTwoBytesWhole : List Char → Prop
  | [] => False
  | [first] => first.utf8Size = 2
  | first :: second :: _ => first.utf8Size = 2 ∨ first.utf8Size = 1 ∧ second.utf8Size = 1

instance (text : List Char) : Decidable (FirstTwoBytesWhole text) :=
  match text with
  | [] => inferInstanceAs (Decidable False)
  | [_] => inferInstanceAs (Decidable (_ = _))
  | _ :: _ :: _ => inferInstanceAs (Decidable (_ ∨ _))

/-- The path of the hash leads to a file outside the store whose reading never ends, if the
directories on the way are there. -/
def LeadsToEndless (primitives : Primitives) (root : Path) (hash : Hash) : Prop :=
  ∃ path place, (LocalObjectStore.mk root ∅).objectPath hash = some path ∧
    (Places.lexical (List Char)).reach (fun step ↦ step = [] ∨ step ≠ place) path.start
      path.steps = some place ∧
    place ≠ [] ∧ primitives.endless place = true ∧ root.isPrefixOf place = false

/-- `CasBlobProvider::get_blob`: an error of the store counts as a miss. -/
def CasBlobProvider.getBlob (primitives : Primitives) (store : LocalObjectStore) (hash : Hash) :
    Outcome CoreError (Option Bytes) :=
  match store.getBlob primitives hash with
  | .ok bytes => .ok (some bytes)
  | .err _ => .ok none
  | .lost loss => .lost loss

/-- One turn of the swarm loop of a node that provides the blobs of a store. The provider is called
on the loop, so the loop is lost with the provider. -/
def swarmTurn (primitives : Primitives) (context : SwarmContext) (store : LocalObjectStore)
    (event : SwarmEvent) : Outcome CoreError (List Event × Option SwarmResponse) :=
  match event with
  | .behaviour (.blobExchange (.request peer request)) =>
    match CasBlobProvider.getBlob primitives store request.hash with
    | .ok found =>
      .ok ({ context with blobProvider := some fun _ ↦ found }.handleSwarmEvent
        (.behaviour (.blobExchange (.request peer request))))
    | .err error => .err error
    | .lost loss => .lost loss
  | event => .ok (context.handleSwarmEvent event)

/-- The swarm loop over a list of events, each with the store as it is then. It ends when a turn is
lost. -/
def swarmLoop (primitives : Primitives) (context : SwarmContext) :
    List (LocalObjectStore × SwarmEvent) →
      Outcome CoreError (List (List Event × Option SwarmResponse))
  | [] => .ok []
  | (store, event) :: rest =>
    match swarmTurn primitives context store event with
    | .ok handled =>
      match swarmLoop primitives context rest with
      | .ok results => .ok (handled :: results)
      | .err error => .err error
      | .lost loss => .lost loss
    | .err error => .err error
    | .lost loss => .lost loss

/-- `QleanProjectExecutor::run` from what `ensure_blob` returned on. The directory made for the
project and what the sandbox makes of the project are inputs. -/
def QleanProjectExecutor.run (primitives : Primitives)
    (unpackTar : Bytes → Path → Outcome CoreError Unit) (store : LocalObjectStore)
    (task : ProjectTask) (ensured : Except CoreError Bytes) (projectDir : Except String Path)
    (sandboxed : Except String ProjectResult) : Outcome String ProjectResult :=
  match ensured, projectDir with
  | .error error, _ =>
    .err ("snapshot " ++ task.snapshot.hash ++ " unavailable: " ++ error.display)
  | .ok _, .error error => .err error
  | .ok _, .ok dest =>
    match (extractSnapshot primitives unpackTar store task.snapshot dest).2, sandboxed with
    | .ok _, .ok result => .ok result
    | .ok _, .error error => .err error
    | .err error, _ => .err ("extract snapshot: " ++ error.display)
    | .lost loss, _ => .lost loss

/-- A step of the call itself, or the passing of time. -/
def FetchAction.IsOwn (id : ℕ) : FetchAction → Prop
  | .advanceCall other _ => other = id
  | .elapse _ => True
  | _ => False

/-- The call comes to return by its own steps and the passing of time alone. -/
def CanReturn (primitives : Primitives) (world : FetchWorld) (id : ℕ) : Prop :=
  ∃ actions final call outcome, (∀ action ∈ actions, FetchAction.IsOwn id action) ∧
    run (step primitives) world actions = some final ∧ final.calls id = some call ∧
    call.phase = .returned outcome

/-- A string from a peer crashes nothing: neither the store, nor the swarm loop that is asked for
it, nor a fetch of it in any interleaving, nor the executor that goes on from what the fetch
returned. -/
structure CrashesNothing (primitives : Primitives) (store : LocalObjectStore) (hash : Hash) :
    Prop where
  splits : store.objectPath hash ≠ none
  read : (store.getBlob primitives hash).Returns
  tested : (store.objectExists hash).Returns
  provided : (CasBlobProvider.getBlob primitives store hash).Returns
  served : ∀ (context : SwarmContext) (peer : PeerId)
    (earlier : List (LocalObjectStore × SwarmEvent))
    (results : List (List Event × Option SwarmResponse)),
    swarmLoop primitives context earlier = .ok results →
      ∃ response, response.hash = hash ∧
        swarmLoop primitives context
            (earlier ++ [(store, .behaviour (.blobExchange (.request peer ⟨hash⟩)))]) =
          .ok (results ++ [([.blobRequestReceived peer hash], some (.blob response))])
  fetched : ∀ (now : Instant) (actions : List FetchAction) (final : FetchWorld),
    run (step primitives) { now := now, fetcher := { store := store } } actions = some final →
      ∀ id call, final.calls id = some call → call.hash = hash →
        (∀ loss, call.phase ≠ .lost loss) ∧ CanReturn primitives final id
  executed : ∀ (now : Instant) (actions : List FetchAction) (final : FetchWorld),
    run (step primitives) { now := now, fetcher := { store := store } } actions = some final →
      ∀ id call outcome, final.calls id = some call → call.hash = hash →
        call.phase = .returned outcome →
        ∀ (unpackTar : Bytes → Path → Outcome CoreError Unit) (task : ProjectTask)
          (projectDir : Except String Path) (sandboxed : Except String ProjectResult),
          (∀ bytes dest, (unpackTar bytes dest).Returns) → task.snapshot.hash = hash →
          (QleanProjectExecutor.run primitives unpackTar final.fetcher.store task outcome
            projectDir sandboxed).Returns

theorem splitAt_two_isSome_iff (text : List Char) :
    (splitAt text 2).isSome ↔ FirstTwoBytesWhole text := by
  cases text with
  | nil => simp [splitAt, FirstTwoBytesWhole]
  | cons first rest =>
    have hfirst := first.utf8Size_pos
    rcases (by omega : first.utf8Size = 1 ∨ first.utf8Size = 2 ∨ 2 < first.utf8Size) with
      hone | htwo | hmore
    · cases rest with
      | nil => simp [splitAt, FirstTwoBytesWhole, hone]
      | cons second rest =>
        have hsecond := second.utf8Size_pos
        by_cases hascii : second.utf8Size = 1
        · simp [splitAt, FirstTwoBytesWhole, hone, hascii]
        · have hlong : ¬ second.utf8Size ≤ 1 := by omega
          simp [splitAt, FirstTwoBytesWhole, hone, hascii, hlong]
    · cases rest <;> simp [splitAt, FirstTwoBytesWhole, htwo]
    · have hlong : ¬ first.utf8Size ≤ 2 := by omega
      have hshort : first.utf8Size ≠ 1 ∧ first.utf8Size ≠ 2 := by omega
      cases rest <;> simp [splitAt, FirstTwoBytesWhole, hlong, hshort]

/-- The path of an object exists exactly when a character ends after two bytes of the hash. -/
theorem objectPath_ne_none_iff (store : LocalObjectStore) (hash : Hash) :
    store.objectPath hash ≠ none ↔ FirstTwoBytesWhole hash.toList := by
  rw [← splitAt_two_isSome_iff, LocalObjectStore.objectPath, Option.isSome_iff_ne_none, ne_eq,
    Option.map_eq_none_iff]

/-! ### Files that are read forever -/

/-- On some disk the hash is read forever exactly when its path leads to an endless file. -/
theorem exists_readsForever_iff (primitives : Primitives) (root : Path) (hash : Hash) :
    (∃ disk, (LocalObjectStore.mk root disk).ReadsForever primitives hash) ↔
      LeadsToEndless primitives root hash := by
  constructor
  · rintro ⟨disk, path, place, bytes, hpath, hplace, hfile, hendless⟩
    rw [LocalObjectStore.locate_eq_reach] at hplace
    obtain ⟨hendless, houtside⟩ := Bool.and_eq_true_iff.mp hendless
    refine ⟨path, place, hpath, ?_, (LocalObjectStore.node_eq_file_iff.mp hfile).1, hendless,
      by simpa using houtside⟩
    apply Places.reach_mono _ hplace
    intro step hdirectory
    rw [decide_eq_true_eq] at hdirectory ⊢
    right
    intro hsame
    rw [hsame, hfile] at hdirectory
    cases hdirectory
  · rintro ⟨path, place, hpath, hreach, htop, hendless, houtside⟩
    -- a disk with all directories that the walk passes
    let passed := path.steps.inits.map fun earlier ↦
      (Places.lexical (List Char)).walk path.start earlier.reduceOption
    let disk := createDirs ((∅ : Disk).insert place (.file [])) passed
    have hfile : disk.lookup place = some (.file []) :=
      (lookup_createDirs_of_mem (Finmap.mem_insert.mpr (Or.inl rfl)) passed).trans
        (Finmap.lookup_insert _)
    refine ⟨disk, path, place, [], hpath, ?_, LocalObjectStore.node_eq_file_iff.mpr ⟨htop, hfile⟩, ?_⟩
    · rw [LocalObjectStore.locate_eq_reach, ← hreach]
      apply Places.reach_congr
      intro earlier hprefix
      have hpassed : (Places.lexical (List Char)).walk path.start earlier.reduceOption ∈ passed :=
        List.mem_map_of_mem ((List.mem_inits _ _).mpr hprefix)
      generalize (Places.lexical (List Char)).walk path.start earlier.reduceOption = step at hpassed
      rw [decide_eq_decide]
      show (if step = [] then some FileNode.directory else disk.lookup step) = _ ↔ _
      by_cases hstep : step = []
      · simp only [hstep, if_true, true_or]
      · rw [if_neg hstep]
        by_cases hsame : step = place
        · rw [hsame, hfile]
          simp [htop]
        · have hmissing : step ∉ (∅ : Disk).insert place (.file []) := by
            rw [Finmap.mem_insert, not_or]
            exact ⟨hsame, Finmap.notMem_empty⟩
          simp only [lookup_createDirs_of_missing hmissing hpassed, hsame, disk, ne_eq,
            not_false_eq_true, or_true]
    · rw [LocalObjectStore.isEndless, hendless, houtside]
      rfl

section Store

variable {primitives : Primitives} {store : LocalObjectStore} {hash : Hash}

/-- The store can look the hash up: it splits, and no file is read forever. -/
structure Answerable (primitives : Primitives) (store : LocalObjectStore) (hash : Hash) :
    Prop where
  splits : store.objectPath hash ≠ none
  ends : ¬ store.ReadsForever primitives hash

theorem Answerable.getBlob_returns (hanswerable : Answerable primitives store hash) :
    (store.getBlob primitives hash).Returns :=
  LocalObjectStore.getBlob_returns hanswerable.splits hanswerable.ends

/-- Every store with the root can look the hash up. -/
theorem answerable_of_not_leadsToEndless {root : Path} (hwhole : FirstTwoBytesWhole hash.toList)
    (hends : ¬ LeadsToEndless primitives root hash) (hroot : store.root = root) :
    Answerable primitives store hash where
  splits := (objectPath_ne_none_iff store hash).mpr hwhole
  ends := by
    rw [← exists_readsForever_iff, ← hroot] at hends
    exact fun hforever ↦ hends ⟨store.disk, hforever⟩

/-- The provider turns what the store returns into an answer. -/
theorem exists_provided (hanswerable : Answerable primitives store hash) :
    ∃ found, CasBlobProvider.getBlob primitives store hash = .ok found := by
  rw [CasBlobProvider.getBlob]
  split
  · exact ⟨_, rfl⟩
  · exact ⟨_, rfl⟩
  · exact absurd ‹_› (hanswerable.getBlob_returns _)

/-- The loop answers a request for a hash that can be looked up. -/
theorem swarmTurn_blobRequest (hanswerable : Answerable primitives store hash)
    (context : SwarmContext) (peer : PeerId) :
    ∃ response, response.hash = hash ∧
      swarmTurn primitives context store (.behaviour (.blobExchange (.request peer ⟨hash⟩))) =
        .ok ([.blobRequestReceived peer hash], some (.blob response)) := by
  obtain ⟨found, hfound⟩ := exists_provided hanswerable
  simp only [swarmTurn, hfound]
  cases found with
  | none => exact ⟨⟨hash, false, []⟩, rfl, rfl⟩
  | some bytes => exact ⟨⟨hash, true, bytes⟩, rfl, rfl⟩

theorem swarmLoop_append {context : SwarmContext}
    {earlier : List (LocalObjectStore × SwarmEvent)} {event : SwarmEvent}
    {results : List (List Event × Option SwarmResponse)}
    {handled : List Event × Option SwarmResponse}
    (hearlier : swarmLoop primitives context earlier = .ok results)
    (hturn : swarmTurn primitives context store event = .ok handled) :
    swarmLoop primitives context (earlier ++ [(store, event)]) = .ok (results ++ [handled]) := by
  induction earlier generalizing results with
  | nil =>
    rw [swarmLoop, Outcome.ok.injEq] at hearlier
    rw [← hearlier]
    simp only [List.nil_append, swarmLoop, hturn]
  | cons turn rest ih =>
    rw [swarmLoop] at hearlier
    split at hearlier
    · rename_i first hfirst
      split at hearlier
      · rename_i later hlater
        rw [Outcome.ok.injEq] at hearlier
        rw [← hearlier, List.cons_append, swarmLoop, hfirst, ih hlater]
        rfl
      · cases hearlier
      · cases hearlier
    · cases hearlier
    · cases hearlier

theorem extractSnapshot_returns {unpackTar : Bytes → Path → Outcome CoreError Unit}
    {snapshot : ProjectSnapshot} (hunpack : ∀ bytes dest, (unpackTar bytes dest).Returns)
    (hanswerable : Answerable primitives store snapshot.hash) (dest : Path) :
    (extractSnapshot primitives unpackTar store snapshot dest).2.Returns := by
  have hbytes : (snapshotBytes primitives store snapshot).Returns := by
    rw [snapshotBytes]
    split_ifs
    · exact Outcome.returns_ok _
    · split
      · exact Outcome.returns_ok _
      · exact Outcome.returns_err _
      · exact absurd ‹_› (hanswerable.getBlob_returns _)
  rw [extractSnapshot]
  split
  · exact hunpack _ dest
  · exact Outcome.returns_err _
  · exact absurd ‹_› (hbytes _)

theorem executor_returns {unpackTar : Bytes → Path → Outcome CoreError Unit} {task : ProjectTask}
    (hunpack : ∀ bytes dest, (unpackTar bytes dest).Returns)
    (hanswerable : Answerable primitives store task.snapshot.hash)
    (ensured : Except CoreError Bytes)
    (projectDir : Except String Path) (sandboxed : Except String ProjectResult) :
    (QleanProjectExecutor.run primitives unpackTar store task ensured projectDir
      sandboxed).Returns := by
  unfold QleanProjectExecutor.run
  split
  · exact Outcome.returns_err _
  · exact Outcome.returns_err _
  · split
    · exact Outcome.returns_ok _
    · exact Outcome.returns_err _
    · exact Outcome.returns_err _
    · exact absurd ‹_› (extractSnapshot_returns hunpack hanswerable _ _)

end Store

section Fetch

variable {primitives : Primitives} {world next : FetchWorld} {id : ℕ} {call : Call}

theorem calls_setPhase_self (world : FetchWorld) (id : ℕ) (call : Call) (phase : Phase) :
    (world.setPhase id call phase).calls id = some { call with phase := phase } :=
  Function.update_self ..

/-- The call comes to return such an outcome by its own steps and the passing of time alone. -/
def CanReturnWith (primitives : Primitives) (accept : Except CoreError Bytes → Prop)
    (world : FetchWorld) (id : ℕ) : Prop :=
  ∃ actions final call outcome, (∀ action ∈ actions, FetchAction.IsOwn id action) ∧
    run (step primitives) world actions = some final ∧ final.calls id = some call ∧
    call.phase = .returned outcome ∧ accept outcome

variable {accept : Except CoreError Bytes → Prop}

theorem CanReturnWith.canReturn (hreturn : CanReturnWith primitives accept world id) :
    CanReturn primitives world id := by
  obtain ⟨actions, final, done, outcome, hactions, hrun, hdone, hphase, -⟩ := hreturn
  exact ⟨actions, final, done, outcome, hactions, hrun, hdone, hphase⟩

theorem canReturn_of_returned {outcome : Except CoreError Bytes}
    (hcall : world.calls id = some call) (hphase : call.phase = .returned outcome)
    (haccept : accept outcome) : CanReturnWith primitives accept world id :=
  ⟨[], world, call, outcome, List.forall_mem_nil _, rfl, hcall, hphase, haccept⟩

theorem CanReturnWith.of_step (hnext : CanReturnWith primitives accept next id)
    (action : FetchAction) (hown : FetchAction.IsOwn id action)
    (hstep : world.step primitives action = some next) :
    CanReturnWith primitives accept world id := by
  obtain ⟨actions, final, done, outcome, hactions, hrun, hdone, hphase⟩ := hnext
  have hall : ∀ other ∈ action :: actions, FetchAction.IsOwn id other :=
    List.forall_mem_cons.mpr ⟨hown, hactions⟩
  have hlonger : run (step primitives) world (action :: actions) = some final :=
    (run_cons_eq_some _).mpr ⟨next, hstep, hrun⟩
  exact ⟨action :: actions, final, done, outcome, hall, hlonger, hdone, hphase⟩

theorem CanReturnWith.of_move {callStep : CallStep}
    (hnext : CanReturnWith primitives accept next id) (hcall : world.calls id = some call)
    (hmove : CallMove primitives world id call callStep next) :
    CanReturnWith primitives accept world id := by
  apply hnext.of_step (.advanceCall id callStep) rfl
  rw [FetchWorld.step, hcall]
  exact stepCall_of_callMove hmove

section AcceptsErrors

variable (herror : ∀ error, accept (.error error))

include herror

theorem canReturn_of_failing {error : CoreError} (hcall : world.calls id = some call)
    (hphase : call.phase = .failing error) : CanReturnWith primitives accept world id := by
  have hreturned : CanReturnWith primitives accept (world.cleanup id call error) id :=
    canReturn_of_returned (calls_setPhase_self ..) rfl (herror error)
  exact hreturned.of_move hcall (.cleanup hphase)

/-- A waiting call takes what is in its channel, or fails once its deadline has passed. -/
theorem canReturn_of_waiting {deadline : Instant} {peers : ℕ}
    (hcall : world.calls id = some call) (hphase : call.phase = .waiting deadline peers)
    (hsent : ∀ data, call.channel = .sent data → accept (.ok data)) :
    CanReturnWith primitives accept world id := by
  cases hchannel : call.channel with
  | sent data =>
    have hreturned : CanReturnWith primitives accept
        (world.setPhase id call (.returned (.ok data))) id :=
      canReturn_of_returned (calls_setPhase_self ..) rfl (hsent data hchannel)
    exact hreturned.of_move hcall (.receive hphase hchannel)
  | closed =>
    have hfailing : CanReturnWith primitives accept
        (world.setPhase id call (.failing (droppedError call.hash))) id :=
      canReturn_of_failing herror (calls_setPhase_self ..) rfl
    exact hfailing.of_move hcall (.dropped hphase hchannel)
  | empty =>
    let late : FetchWorld := { world with now := world.now + deadline }
    have hdeadline : deadline ≤ late.now := Nat.le_add_left deadline world.now
    have hfailing : CanReturnWith primitives accept
        (late.setPhase id call (.failing (timeoutError call.timeout call.hash peers))) id :=
      canReturn_of_failing herror (calls_setPhase_self ..) rfl
    have hlate : CanReturnWith primitives accept late id :=
      hfailing.of_move hcall (.expire hphase hchannel hdeadline)
    exact hlate.of_step (.elapse deadline) trivial rfl

theorem canReturn_of_requesting {remaining : List (ℕ × PeerId)} {peers : ℕ}
    (hcall : world.calls id = some call) (hphase : call.phase = .requesting remaining peers)
    (hsent : ∀ data, call.channel = .sent data → accept (.ok data)) :
    CanReturnWith primitives accept world id := by
  induction remaining generalizing world call with
  | nil =>
    have hwaiting : CanReturnWith primitives accept
        (world.setPhase id call (.waiting (world.now + call.timeout) peers)) id :=
      canReturn_of_waiting herror (calls_setPhase_self ..) rfl hsent
    exact hwaiting.of_move hcall (.await hphase)
  | cons peer rest ih =>
    have hrequesting : CanReturnWith primitives accept
        { world.setPhase id call (.requesting rest peers) with
          commands := world.commands ++ [.requestBlob peer.2 call.hash] } id :=
      ih (calls_setPhase_self world id call (.requesting rest peers)) rfl hsent
    exact hrequesting.of_move hcall (.request hphase)

theorem canReturn_of_registered (hcall : world.calls id = some call)
    (hphase : call.phase = .registered)
    (hsent : ∀ data, call.channel = .sent data → accept (.ok data)) :
    CanReturnWith primitives accept world id := by
  have hnext : CanReturnWith primitives accept
      (world.setPhase id call (world.phaseAfterSnapshot call.hash)) id := by
    unfold phaseAfterSnapshot
    split_ifs
    · exact canReturn_of_failing herror (calls_setPhase_self ..) rfl
    · exact canReturn_of_requesting herror (calls_setPhase_self ..) rfl hsent
  exact hnext.of_move hcall (.snapshot hphase)

theorem canReturn_of_missed (hcall : world.calls id = some call) (hphase : call.phase = .missed)
    (hsent : ∀ data, call.channel = .sent data → accept (.ok data)) :
    CanReturnWith primitives accept world id := by
  have hregistered : CanReturnWith primitives accept { world.setPhase id call .registered with
      fetcher := world.fetcher.pushWaiter call.hash id } id :=
    canReturn_of_registered herror (calls_setPhase_self world id call .registered) rfl hsent
  exact hregistered.of_move hcall (.register hphase)

end AcceptsErrors

/-- Every outcome is accepted. -/
abbrev anyOutcome : Except CoreError Bytes → Prop := fun _ ↦ True

theorem canReturn_of_started (hanswerable : Answerable primitives world.fetcher.store call.hash)
    (hcall : world.calls id = some call) (hphase : call.phase = .started) :
    CanReturnWith primitives anyOutcome world id := by
  have hnext : CanReturnWith primitives anyOutcome
      (world.setPhase id call (world.phaseAfterLookup primitives call.hash)) id := by
    unfold phaseAfterLookup
    split
    · exact canReturn_of_returned (calls_setPhase_self ..) rfl trivial
    · exact canReturn_of_missed (fun _ ↦ trivial) (calls_setPhase_self ..) rfl fun _ _ ↦ trivial
    · exact absurd ‹_› (hanswerable.getBlob_returns _)
  exact hnext.of_move hcall (.lookup hphase)

/-- A call that is not lost can return, wherever it stands. -/
theorem canReturn_of_ne_lost (hanswerable : Answerable primitives world.fetcher.store call.hash)
    (hcall : world.calls id = some call) (hphase : ∀ loss, call.phase ≠ .lost loss) :
    CanReturnWith primitives anyOutcome world id := by
  have herror : ∀ error, anyOutcome (.error error) := fun _ ↦ trivial
  have hsent : ∀ data, call.channel = .sent data → anyOutcome (.ok data) := fun _ _ ↦ trivial
  cases hcase : call.phase with
  | started => exact canReturn_of_started hanswerable hcall hcase
  | missed => exact canReturn_of_missed herror hcall hcase hsent
  | registered => exact canReturn_of_registered herror hcall hcase hsent
  | requesting remaining peers => exact canReturn_of_requesting herror hcall hcase hsent
  | waiting deadline peers => exact canReturn_of_waiting herror hcall hcase hsent
  | failing error => exact canReturn_of_failing herror hcall hcase
  | returned outcome => exact canReturn_of_returned hcall hcase trivial
  | lost loss => exact absurd hcase (hphase loss)

/-! ### No call for the hash is lost -/

/-- No call for the hash is lost. -/
def NoneLost (hash : Hash) (world : FetchWorld) : Prop :=
  ∀ id call, world.calls id = some call → call.hash = hash →
    ∀ loss, call.phase ≠ .lost loss

variable {hash : Hash}

/-- Replace one call by one that is not lost. -/
theorem NoneLost.setCall (hnone : NoneLost hash world)
    (hcall : call.hash = hash → ∀ loss, call.phase ≠ .lost loss) :
    NoneLost hash (world.setCall id call) := by
  intro other found hfound
  rcases eq_or_of_update_eq_some hfound with ⟨-, hnew⟩ | hkept
  · rw [hnew]
    exact hcall
  · exact hnone other found hkept

theorem NoneLost.congr (hnone : NoneLost hash world) (hcalls : next.calls = world.calls) :
    NoneLost hash next := by
  intro id call hcall
  rw [hcalls] at hcall
  exact hnone id call hcall

/-- What leaves the hash and the phase of every call alone makes none of them panic. -/
theorem NoneLost.map (hnone : NoneLost hash world) {change : ℕ → Call → Call}
    (hcalls : ∀ id, next.calls id = (world.calls id).map (change id))
    (hhash : ∀ id call, (change id call).hash = call.hash)
    (hphase : ∀ id call, (change id call).phase = call.phase) : NoneLost hash next := by
  intro id call hcall
  rw [hcalls, Option.map_eq_some_iff] at hcall
  obtain ⟨before, hbefore, hchange⟩ := hcall
  rw [← hchange, hhash, hphase]
  exact hnone id before hbefore

theorem NoneLost.deliver (hnone : NoneLost hash world) (answered : Hash) (found : Bool)
    (data : Bytes) (fault : Option WriteFault) :
    NoneLost hash (world.deliver primitives answered found data fault) := by
  obtain ⟨change, hcalls, hhash, hphase⟩ :=
    world.calls_deliver primitives answered found data fault
  exact hnone.map hcalls hhash hphase

theorem NoneLost.cleanup (hnone : NoneLost hash world) (id : ℕ) (call : Call)
    (error : CoreError) : NoneLost hash (world.cleanup id call error) := by
  apply NoneLost.setCall
  · apply hnone.map fun id ↦ rfl
    · exact hash_signalCall _ _
    · exact phase_signalCall _ _
  · intro _ loss hlost
    cases hlost

theorem NoneLost.setPhase (hnone : NoneLost hash world) {phase : Phase}
    (hphase : call.hash = hash → ∀ loss, phase ≠ .lost loss) :
    NoneLost hash (world.setPhase id call phase) := hnone.setCall hphase

theorem NoneLost.callMove (hanswerable : Answerable primitives world.fetcher.store hash)
    (hnone : NoneLost hash world) {callStep : CallStep}
    (hmove : CallMove primitives world id call callStep next) : NoneLost hash next := by
  cases hmove with
  | lookup hphase =>
    apply hnone.setPhase
    intro hhash
    rw [hhash]
    unfold phaseAfterLookup
    split
    · exact fun loss ↦ Phase.noConfusion
    · exact fun loss ↦ Phase.noConfusion
    · exact absurd ‹_› (hanswerable.getBlob_returns _)
  | snapshot hphase =>
    apply hnone.setPhase
    intro _ loss
    unfold phaseAfterSnapshot
    split_ifs <;> exact Phase.noConfusion
  | cleanup hphase => exact hnone.cleanup _ _ _
  | _ => exact (hnone.setPhase fun _ _ ↦ Phase.noConfusion).congr rfl

theorem NoneLost.step (hanswerable : Answerable primitives world.fetcher.store hash)
    (hnone : NoneLost hash world) {action : FetchAction}
    (hstep : world.step primitives action = some next) : NoneLost hash next := by
  cases move_of_step hstep with
  | call hnew => exact hnone.setCall fun _ _ ↦ Phase.noConfusion
  | advanceCall hcall hmove => exact hnone.callMove hanswerable hmove
  | deliver => exact hnone.deliver _ _ _ _
  | elapse => exact hnone.congr rfl
  | updateRegistry => exact hnone.congr rfl

theorem root_deliver (world : FetchWorld) (answered : Hash) (found : Bool) (data : Bytes)
    (fault : Option WriteFault) :
    (world.deliver primitives answered found data fault).fetcher.store.root =
      world.fetcher.store.root := by
  have hput : (world.fetcher.store.putBlob primitives fault data).2.root =
      world.fetcher.store.root := world.fetcher.store.put_root primitives fault (.blob data)
  simp only [FetchWorld.deliver, BlobFetcher.onBlobReceived]
  split_ifs
  · rfl
  · split <;> rename_i hwritten <;> rw [hwritten] at hput <;> exact hput

/-- No step moves the store. -/
theorem root_of_step {action : FetchAction} (hstep : world.step primitives action = some next) :
    next.fetcher.store.root = world.fetcher.store.root := by
  cases move_of_step hstep with
  | advanceCall hcall hmove => cases hmove <;> rfl
  | @deliver answered found data fault =>
    exact root_deliver world answered found data fault
  | _ => rfl

theorem noneLost_of_run {root : Path} (hwhole : FirstTwoBytesWhole hash.toList)
    (hends : ¬ LeadsToEndless primitives root hash) {now : Instant} {disk : Disk}
    {actions : List FetchAction}
    (hrun : run (step primitives) { now := now, fetcher := { store := ⟨root, disk⟩ } } actions =
      some next) : next.fetcher.store.root = root ∧ NoneLost hash next := by
  have hstart : NoneLost hash { now := now, fetcher := { store := ⟨root, disk⟩ } } := by
    intro id call hcall
    cases hcall
  apply invariant_of_run (fun world ↦ world.fetcher.store.root = root ∧ NoneLost hash world) _
    ⟨rfl, hstart⟩ hrun
  rintro world action next ⟨hroot, hnone⟩ hstep
  have hanswerable := answerable_of_not_leadsToEndless hwhole hends hroot
  exact ⟨(root_of_step hstep).trans hroot, hnone.step hanswerable hstep⟩

end Fetch

end EdgeOrchestrator.Node
