import EdgeOrchestrator.Node.AnswerAcceptance
import EdgeOrchestrator.Node.ProjectSubmission
import EdgeOrchestrator.Node.RemoteHash
import EdgeOrchestrator.Wire.Exchanges

/-!
# From the workspace to the executor

A submitted project travels in two parts: the task in a project request, and the packed workspace
in the answer to a blob request. What the executor unpacks is what the submitting node packed, when
the workspace is small enough for the answer.
-/

namespace EdgeOrchestrator.Wire

open Codecs Node P2P Raft Serde Storage

variable {text : SerdeReader} {forms : TextForms} {primitives : Primitives}

/-- No two objects of the history share a hash, each is read back as written, and no blob is the
JSON form of a tag. -/
structure SoundHistory (primitives : Primitives) (operations : List PutOperation) : Prop where
  noCollisions : NoCollisions primitives operations
  roundTrips : ∀ operation ∈ operations, RoundTrips primitives (operation.object primitives)
  noBlobIsTagJson : NoBlobIsTagJson operations

theorem getBlob_of_history {operations : List PutOperation} {store : LocalObjectStore}
    (hstore : HoldsFirstPuts primitives operations store)
    (hsound : SoundHistory primitives operations) {data : Bytes}
    (hmem : .blob data ∈ operations) :
    store.getBlob primitives (hashBlob primitives data) = .ok data :=
  blobsReadable_of_noBlobIsTagJson hstore.holdsHistory hsound.noCollisions hsound.roundTrips
    hsound.noBlobIsTagJson data hmem

/-- The provider over a store. -/
def casProvider (primitives : Primitives) (store : LocalObjectStore) (hash : Hash) :
    Option Bytes :=
  match CasBlobProvider.getBlob primitives store hash with
  | .ok found => found
  | _ => none

theorem casProvider_of_getBlob {store : LocalObjectStore} {hash : Hash} {data : Bytes}
    (hget : store.getBlob primitives hash = .ok data) :
    casProvider primitives store hash = some data := by
  simp only [casProvider, CasBlobProvider.getBlob, hget]

theorem length_toVec_blobRequest {hash : Hash} (hhash : IsDigest hash) :
    (toVec blobRequest ⟨hash⟩).length = 75 := by
  have hname : IsPlainText "hash" := by decide
  refine (length_compact_of_one_member hname (.string hash)).trans ?_
  rw [compact, length_jsonString_digest hhash]
  rfl

/-- The request for a blob and the answer with its data are read back. -/
structure BlobReadable (text : SerdeReader) (primitives : Primitives) (data : Bytes) : Prop where
  request : text.ReadsBack (blobRequest.encode ⟨hashBlob primitives data⟩)
  answer : text.ReadsBack (blobResponse.encode ⟨hashBlob primitives data, true, data⟩)

section Exchange

variable {asker : SwarmContext} {peerId : PeerId} {descriptor : NodeDescriptor}
  {store : LocalObjectStore} {data : Bytes}

/-- A node that asks a peer for a blob of its store gets it when it is small enough, and nothing
when it is too large. -/
theorem requestBlob_eq (hreadable : BlobReadable text primitives data)
    (hget : store.getBlob primitives (hashBlob primitives data) = .ok data) :
    (data.length + 32 ≤ 128 * 1024 * 1024 →
      requestBlob text forms asker
          (swarmContext text forms peerId descriptor (some (casProvider primitives store)))
          (hashBlob primitives data) =
        [.blobResponseReceived peerId (hashBlob primitives data) true data]) ∧
    (256 * 1024 * 1024 ≤ data.length →
      requestBlob text forms asker
          (swarmContext text forms peerId descriptor (some (casProvider primitives store)))
          (hashBlob primitives data) = []) := by
  have hhash : IsDigest (hashBlob primitives data) := isDigest_sha256 primitives _
  have hasked : transfer text forms .blobRequest ⟨hashBlob primitives data⟩ =
      .ok ⟨hashBlob primitives data⟩ := by
    refine transfer_of_fits ⟨⟨trivial, trivial⟩, hreadable.request⟩ ?_
    exact (length_toVec_blobRequest hhash).trans_le (by decide)
  have hanswer : ((swarmContext text forms peerId descriptor
      (some (casProvider primitives store))).handleSwarmEvent (.behaviour (.blobExchange
        (.request asker.selfPeerId ⟨hashBlob primitives data⟩)))).2.bind blobProtocol.answer =
          some ⟨hashBlob primitives data, true, data⟩ := by
    have hprovided := casProvider_of_getBlob hget
    simp only [SwarmContext.handleSwarmEvent, SwarmContext.handleBehaviourEvent,
      SwarmContext.handleBlobExchange, swarmContext, Option.bind_some, hprovided, Prod.map_snd, id]
    rfl
  have hcontent : Readable text forms .blobResponse ⟨hashBlob primitives data, true, data⟩ :=
    ⟨⟨trivial, trivial, fun _ _ ↦ trivial, trivial⟩, hreadable.answer⟩
  obtain ⟨hsmall, hlarge⟩ := transfer_stored_blob primitives hcontent
  constructor
  · intro hsize
    exact (exchange_of_ok blobProtocol hasked hanswer (hsmall hsize)).trans rfl
  · intro hsize
    obtain ⟨error, hlost⟩ := hlarge hsize
    exact (exchange_of_error blobProtocol hasked hanswer hlost).trans rfl

end Exchange

/-- The monitor after some events, and what it wakes. -/
def handleEvents (primitives : Primitives) (now : Instant) (monitor : EventMonitor) :
    List Event → EventMonitor × List (Waiter × Bytes)
  | [] => (monitor, [])
  | event :: rest =>
    let (next, output) := monitor.handleEvent primitives none now event
    let (final, woken) := handleEvents primitives now next rest
    (final, output.woken ++ woken)

section Delivery

variable {monitor : EventMonitor} {data : Bytes} {peerId : PeerId} {now : Instant}

/-- A delivered blob is in the store of the node and wakes everyone who waits for it. -/
theorem handleEvents_blobReceived {operations : List PutOperation} (hdata : data ≠ [])
    (hstore : HoldsFirstPuts primitives operations monitor.cas.store)
    (hsound : SoundHistory primitives (operations ++ [.blob data])) :
    let handled := handleEvents primitives now monitor
      [.blobResponseReceived peerId (hashBlob primitives data) true data]
    handled.1.cas.store.getBlob primitives (hashBlob primitives data) = .ok data ∧
      handled.2 = (monitor.cas.waitersFor (hashBlob primitives data)).map (·, data) := by
  intro handled
  have husable : monitor.cas.Usable primitives none true data :=
    AnswerAcceptance.usable_none_iff.mpr ⟨rfl, hdata⟩
  have hreceived := BlobFetcher.onBlobReceived_of_usable husable (hashBlob primitives data)
  have hput : HoldsFirstPuts primitives (operations ++ [.blob data])
      (monitor.cas.store.putBlob primitives none data).2 := hstore.put (.blob data)
  have hstored : handled.1.cas.store = (monitor.cas.store.putBlob primitives none data).2 := by
    simp only [handled, handleEvents, EventMonitor.handleEvent, hreceived]
    rfl
  have hwoken : handled.2 =
      (monitor.cas.waitersFor (hashBlob primitives data)).map (·, data) := by
    simp only [handled, handleEvents, EventMonitor.handleEvent, hreceived, List.append_nil]
  rw [hstored]
  exact ⟨getBlob_of_history hput hsound (by simp), hwoken⟩

/-- Further puts without a fault extend the history. -/
theorem holdsFirstPuts_append {operations : List PutOperation} {store : LocalObjectStore}
    (hstore : HoldsFirstPuts primitives operations store) (later : List PutOperation) :
    HoldsFirstPuts primitives (operations ++ later) (store.afterHistory primitives later) := by
  induction later generalizing operations store with
  | nil =>
    rw [List.append_nil]
    exact hstore
  | cons operation rest ih =>
    rw [List.append_cons]
    exact ih (hstore.put operation)

variable (peerId now) in
/-- The executor gets the task as it was submitted, and unpacks the bytes that the submitting node
packed, whatever both have stored before, and the submitting node since. -/
theorem workspace_reaches_executor (descriptor : NodeDescriptor) (executor : SwarmContext)
    {packDirectory : String → Outcome CoreError Bytes} {channel : Except String Unit}
    {taskId : TaskId} {submitter after : Submitter} {params : SubmitProjectParams}
    {target : Option NodeId} {task : ProjectTask} {executorPeer : PeerId}
    {submitted since executed : List PutOperation} {submittedAt : Instant}
    (hpacked : packDirectory params.projectDir = .ok data)
    (hsubmitted : submitter.submitLocalProject primitives packDirectory none channel taskId
      submittedAt params target = (.ok taskId, after, [.sendProjectTask executorPeer task]))
    (hsubmitter : HoldsFirstPuts primitives submitted submitter.store)
    (hsubmitterSound : SoundHistory primitives (submitted ++ [.blob data] ++ since))
    (hexecutor : HoldsFirstPuts primitives executed monitor.cas.store)
    (hexecutorSound : SoundHistory primitives (executed ++ [.blob data]))
    (htask : Readable text forms .projectRequest task)
    (hblob : BlobReadable text primitives data) (hdata : data ≠ [])
    (hsize : data.length + 32 ≤ 128 * 1024 * 1024) :
    let provider := casProvider primitives (after.store.afterHistory primitives since)
    let handled := handleEvents primitives now monitor
      (requestBlob text forms executor
        (swarmContext text forms peerId descriptor (some provider)) task.snapshot.hash)
    task = taskOf taskId (snapshotOfHash (hashBlob primitives data)) params target ∧
      ((toVec (message forms .projectRequest) task).length ≤ MessageKind.projectRequest.maxSize →
        transfer text forms .projectRequest task = .ok task) ∧
      handled.2 = (monitor.cas.waitersFor task.snapshot.hash).map (·, data) ∧
      ∀ (unpackTar : Bytes → Path → Outcome CoreError Unit) (dest : Path),
        extractSnapshot primitives unpackTar handled.1.cas.store task.snapshot dest =
          (some data, unpackTar data dest) := by
  intro provider handled
  obtain ⟨-, peer, sent, hcommands, hafter⟩ := Submitter.submitted_of_ok hsubmitted
  obtain ⟨tar, htar, hput, hsent⟩ := hafter.packed
  rw [Outcome.ok.inj (htar.symm.trans hpacked)] at hput hsent
  have hsame : task = sent := by
    simp only [List.cons.injEq, SwarmCommand.sendProjectTask.injEq, and_true] at hcommands
    exact hcommands.2
  have htaskOf := hsame.trans hsent
  have hhash : task.snapshot.hash = hashBlob primitives data := by rw [htaskOf]; rfl
  -- the submitting node still has what it packed
  have hstored : HoldsFirstPuts primitives (submitted ++ [.blob data]) after.store := by
    have hstore := hsubmitter.put (.blob data)
    have hsnd : (submitter.store.put primitives none (.blob data)).2 = after.store :=
      congrArg Prod.snd hput
    rwa [hsnd] at hstore
  have hget : (after.store.afterHistory primitives since).getBlob primitives
      (hashBlob primitives data) = .ok data :=
    getBlob_of_history (holdsFirstPuts_append hstored since) hsubmitterSound (by simp)
  have hexchange : requestBlob text forms executor
      (swarmContext text forms peerId descriptor (some provider)) (hashBlob primitives data) =
        [.blobResponseReceived peerId (hashBlob primitives data) true data] :=
    (requestBlob_eq hblob hget).1 hsize
  have hhandled : handled = handleEvents primitives now monitor
      [.blobResponseReceived peerId (hashBlob primitives data) true data] := by
    rw [← hexchange, ← hhash]
  obtain ⟨hfetched, hwoken⟩ := handleEvents_blobReceived hdata hexecutor hexecutorSound
  rw [← hhandled] at hfetched hwoken
  rw [hhash]
  refine ⟨htaskOf, transfer_of_fits htask, hwoken, fun unpackTar dest ↦ ?_⟩
  have hbytes : snapshotBytes primitives handled.1.cas.store task.snapshot = .ok data := by
    have hempty : task.snapshot.tarBytes = [] := by rw [htaskOf]; rfl
    rw [snapshotBytes, if_neg (by simp [hempty]), hhash, hfetched]
  simp only [extractSnapshot, hbytes]

end Delivery

/-! ## One submission -/

/-- A blob request and the answer to it differ behind the hash. -/
theorem apart_blobRequest (hash : Hash) (found : Bool) (data : Bytes) :
    Apart (blobRequest.encode ⟨hash⟩) (blobResponse.encode ⟨hash, found, data⟩) := by
  let shared := utf8 ("\x7b" ++ (jsonString "hash" ++ ":" ++ jsonString hash))
  have hrequest : utf8 (compact (blobRequest.encode ⟨hash⟩)) = shared ++ 125 :: [] := by
    have htext : compact (blobRequest.encode ⟨hash⟩) =
        "\x7b" ++ (jsonString "hash" ++ ":" ++ jsonString hash) ++ "\x7d" := rfl
    rw [htext, utf8_append]
    rfl
  have hanswer : utf8 (compact (blobResponse.encode ⟨hash, found, data⟩)) = shared ++ 44 ::
      utf8 (compactMembers [("found", .bool found), ("data", (vec byte).encode data)] ++
        "\x7d") := by
    have htext : compact (blobResponse.encode ⟨hash, found, data⟩) =
        "\x7b" ++ (jsonString "hash" ++ ":" ++ jsonString hash ++ "," ++
          compactMembers [("found", .bool found), ("data", (vec byte).encode data)]) ++
        "\x7d" := rfl
    have hcomma : utf8 "," = [44] := by decide
    rw [htext]
    simp only [utf8_append, hcomma, shared, List.append_assoc, List.cons_append, List.nil_append]
  exact apart_of_byte hrequest hanswer (by decide)

/-- A master with two executors, in front of an empty store. -/
def smallMaster : Submitter where
  selfNodeId := 1
  store := ⟨[], ∅⟩
  catalog := .peers _
  order := peersOrder

def smallParams : SubmitProjectParams where
  projectDir := "/src"
  workDir := defaultProjectWorkDir
  buildCmd := []
  runCmd := ["make"]
  timeoutMs := 60000
  targetNode := none

def smallPack : String → Outcome CoreError Bytes := fun _ ↦ .ok releaseJson

/-- The task of the submission, with the workspace that `releaseJson` stands for. -/
def smallTask : ProjectTask :=
  taskOf 9 (snapshotOfHash (hashBlob releaseTabulated releaseJson)) smallParams (some 3)

def smallMasterAfter : Submitter :=
  { smallMaster with
    store := (smallMaster.store.putBlob releaseTabulated none releaseJson).2
    client := smallMaster.client.insertDispatched 0 9 }

def smallForms : TextForms := textFormsOf [9, 3] ⟨0⟩ ""

def smallDocuments : List Json :=
  [(message smallForms .projectRequest).encode smallTask,
    blobRequest.encode ⟨hashBlob releaseTabulated releaseJson⟩,
    blobResponse.encode ⟨hashBlob releaseTabulated releaseJson, true, releaseJson⟩]

theorem pairwise_apart_smallDocuments : smallDocuments.Pairwise Apart := by
  refine List.Pairwise.cons ?_ (List.Pairwise.cons ?_ (List.pairwise_singleton ..))
  · intro document hmem
    simp only [List.mem_cons, List.not_mem_nil, or_false] at hmem
    rcases hmem with rfl | rfl
    · exact apart_of_first_name (by decide) (by decide) (by decide)
    · exact apart_of_first_name (by decide) (by decide) (by decide)
  · intro document hmem
    rw [List.mem_singleton] at hmem
    rw [hmem]
    exact apart_blobRequest _ _ _

theorem soundHistory_releaseBlob : SoundHistory releaseTabulated [releaseBlobPut] where
  noCollisions := noCollisions_singleton releaseBlobPut
  roundTrips := roundTrips_of_mem_releaseBlobPut
  noBlobIsTagJson := by
    intro data commitHash name message _ htag
    cases List.mem_singleton.mp htag

theorem readable_smallTask :
    Readable (textOf smallDocuments) smallForms .projectRequest smallTask where
  valid := by
    have huuid : smallForms.parseUuid (Uuid.display 9) = some 9 :=
      parseUuid_textFormsOf (by decide)
    have hsnapshot : projectSnapshot.Valid smallTask.snapshot :=
      ⟨trivial, fun _ _ ↦ trivial, trivial⟩
    have htimeout : (unsigned 64).Valid 60000 := (by decide : 60000 < 2 ^ 64)
    have hlimits : resourceLimits.Valid {} :=
      ⟨(by decide : 256 < 2 ^ 64), (by decide : 30000 < 2 ^ 64), (by decide : 100 < 2 ^ 64),
        trivial, (by decide : 64 < 2 ^ 32), trivial⟩
    have htarget : smallForms.parseUuid (Uuid.display 3) = some 3 :=
      parseUuid_textFormsOf (by decide)
    have hpinned : (option (uuid smallForms)).Valid (some 3) := by
      intro held hheld
      rw [← Option.some.inj hheld]
      exact ⟨htarget, by simp [uuid, Serde.text]⟩
    exact ⟨huuid, hsnapshot, trivial, fun _ _ ↦ trivial, fun _ _ ↦ trivial, htimeout, hlimits,
      hpinned, trivial⟩
  readsBack := readsBack_textOf pairwise_apart_smallDocuments (by simp [smallDocuments])

theorem workspace_reaches_executor_small :
    let provider := casProvider releaseTabulated
      (smallMasterAfter.store.afterHistory releaseTabulated [])
    let executor := swarmContext (textOf smallDocuments) smallForms ⟨[3]⟩ plainNode none
    let handled := handleEvents releaseTabulated 0 { cas := { store := ⟨[], ∅⟩ } }
      (requestBlob (textOf smallDocuments) smallForms executor
        (swarmContext (textOf smallDocuments) smallForms ⟨[1]⟩ plainNode (some provider))
        smallTask.snapshot.hash)
    ∀ (unpackTar : Bytes → Path → Outcome CoreError Unit) (dest : Path),
      extractSnapshot releaseTabulated unpackTar handled.1.cas.store smallTask.snapshot dest =
        (some releaseJson, unpackTar releaseJson dest) := by
  have hroute : resolvePeer smallMaster.selfNodeId (some 3) smallMaster.catalog smallMaster.order =
      .ok ⟨[3]⟩ := resolvePeer_peers_eq_ok_iff.mpr (by decide)
  have hpacked : smallPack smallParams.projectDir = .ok releaseJson := rfl
  have hempty := holdsFirstPuts_nil releaseTabulated (isEmpty_emptyDisk [])
  have hmonitor : HoldsFirstPuts releaseTabulated []
      ({ cas := { store := ⟨[], ∅⟩ } } : EventMonitor).cas.store := hempty
  have hblob : BlobReadable (textOf smallDocuments) releaseTabulated releaseJson :=
    ⟨readsBack_textOf pairwise_apart_smallDocuments (by simp [smallDocuments]),
      readsBack_textOf pairwise_apart_smallDocuments (by simp [smallDocuments])⟩
  have hsubmitter : SoundHistory releaseTabulated ([] ++ [.blob releaseJson] ++ []) :=
    soundHistory_releaseBlob
  have hexecutor : SoundHistory releaseTabulated ([] ++ [.blob releaseJson]) :=
    soundHistory_releaseBlob
  have hsubmitted : smallMaster.submitLocalProject releaseTabulated smallPack none (.ok ()) 9 0
      smallParams (some 3) = (.ok 9, smallMasterAfter, [.sendProjectTask ⟨[3]⟩ smallTask]) :=
    Submitter.submitLocalProject_of_routed hpacked hroute
  exact (workspace_reaches_executor ⟨[1]⟩ 0 plainNode
    (swarmContext (textOf smallDocuments) smallForms ⟨[3]⟩ plainNode none) hpacked
    hsubmitted hempty hsubmitter
    hmonitor hexecutor readable_smallTask hblob (by decide) (by decide)).2.2.2

end EdgeOrchestrator.Wire
