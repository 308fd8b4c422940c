import EdgeOrchestrator.Node.JsonRpc
import EdgeOrchestrator.Node.Routing
import EdgeOrchestrator.Node.SnapshotIntegrity
import EdgeOrchestrator.P2P.Events

/-!
# Submitting a project

The submitting node packs the directory into its own store and sends the hash of the snapshot, with
the commands, to one executor. Packing a directory, the random task id and the room in the command
channel are inputs.
-/

namespace EdgeOrchestrator.Node

open P2P Storage

/-- `ProjectSnapshot::from_hash` -/
def snapshotOfHash (hash : Hash) : ProjectSnapshot where
  hash := hash
  tarBytes := []

def snapshotFromDir (primitives : Primitives) (packDirectory : String → Outcome CoreError Bytes)
    (fault : Option WriteFault) (store : LocalObjectStore) (dir : String) :
    Outcome CoreError ProjectSnapshot × LocalObjectStore :=
  match packDirectory dir with
  | .err error => (.err error, store)
  | .lost loss => (.lost loss, store)
  | .ok tarBytes =>
    match store.putBlob primitives fault tarBytes with
    | (.ok hash, written) => (.ok (snapshotOfHash hash), written)
    | (.err error, written) => (.err error, written)
    | (.lost loss, written) => (.lost loss, written)

/-- A node that submits projects, with the order in which it reads its catalog. -/
structure Submitter where
  selfNodeId : NodeId
  client : ProjectClient := {}
  store : LocalObjectStore
  catalog : Catalog
  order : catalog.Order

/-- The task of a submission. -/
def taskOf (taskId : TaskId) (snapshot : ProjectSnapshot) (params : SubmitProjectParams)
    (target : Option NodeId) : ProjectTask where
  taskId := taskId
  snapshot := snapshot
  workDir := params.workDir
  buildCmd := params.buildCmd
  runCmd := params.runCmd
  timeoutMs := params.timeoutMs
  resourceLimits := {}
  pinnedNode := target

/-- `submit_local_project`: what it returns, the node after it and the commands it sends. The
channel takes the command or is closed. -/
def Submitter.submitLocalProject (primitives : Primitives)
    (packDirectory : String → Outcome CoreError Bytes) (fault : Option WriteFault)
    (channel : Except String Unit) (taskId : TaskId) (now : Instant) (submitter : Submitter)
    (params : SubmitProjectParams) (target : Option NodeId) :
    Outcome CoreError TaskId × Submitter × List SwarmCommand :=
  match snapshotFromDir primitives packDirectory fault submitter.store params.projectDir with
  | (.err error, store) => (.err error, { submitter with store }, [])
  | (.lost loss, store) => (.lost loss, { submitter with store }, [])
  | (.ok snapshot, store) =>
    match store.objectExists snapshot.hash with
    | .err error => (.err error, { submitter with store }, [])
    | .lost loss => (.lost loss, { submitter with store }, [])
    | .ok false =>
      (.err (.internal ("packed snapshot " ++ snapshot.hash ++ " is missing from the local CAS; " ++
        "refusing to dispatch a task the executor cannot fetch")), { submitter with store }, [])
    | .ok true =>
      match resolvePeer submitter.selfNodeId target submitter.catalog submitter.order, channel with
      | .error error, _ => (.err error, { submitter with store }, [])
      | .ok _, .error error =>
        (.err (.network ("send project task: " ++ error)), { submitter with store }, [])
      | .ok peer, .ok () =>
        (.ok taskId,
          { submitter with store, client := submitter.client.insertDispatched now taskId },
          [.sendProjectTask peer (taskOf taskId snapshot params target)])

variable {primitives : Primitives} {packDirectory : String → Outcome CoreError Bytes}
  {fault : Option WriteFault} {channel : Except String Unit} {taskId : TaskId} {now : Instant}
  {submitter : Submitter} {params : SubmitProjectParams} {target : Option NodeId}

/-- What a successful submission has done. -/
structure Submitter.Submitted (primitives : Primitives)
    (packDirectory : String → Outcome CoreError Bytes) (fault : Option WriteFault)
    (taskId : TaskId) (now : Instant) (submitter : Submitter) (params : SubmitProjectParams)
    (target : Option NodeId) (after : Submitter) (peer : PeerId) (task : ProjectTask) : Prop where
  packed : ∃ tar, packDirectory params.projectDir = .ok tar ∧
    submitter.store.putBlob primitives fault tar = (.ok (hashBlob primitives tar), after.store) ∧
    task = taskOf taskId (snapshotOfHash (hashBlob primitives tar)) params target
  routed : resolvePeer submitter.selfNodeId target submitter.catalog submitter.order = .ok peer
  tracked : after.client = submitter.client.insertDispatched now taskId

theorem snapshotFromDir_eq_ok {snapshot : ProjectSnapshot} {store written : LocalObjectStore}
    {dir : String}
    (hsnapshot :
      snapshotFromDir primitives packDirectory fault store dir = (.ok snapshot, written)) :
    ∃ tar, packDirectory dir = .ok tar ∧
      store.putBlob primitives fault tar = (.ok (hashBlob primitives tar), written) ∧
      snapshot = snapshotOfHash (hashBlob primitives tar) := by
  unfold snapshotFromDir at hsnapshot
  split at hsnapshot
  · cases hsnapshot
  · cases hsnapshot
  · rename_i tar hpacked
    split at hsnapshot
    · rename_i hash after hput
      cases hsnapshot
      have hhash : hash = hashBlob primitives tar := by
        rcases store.putBlob_fst primitives fault tar with ⟨hok, -⟩ | ⟨⟨error, herror⟩, -⟩
        · rw [hput] at hok
          exact Outcome.ok.inj hok
        · rw [hput] at herror
          cases herror
      rw [hhash] at hput
      exact ⟨tar, hpacked, hput, by rw [hhash]⟩
    · cases hsnapshot
    · cases hsnapshot

/-- A submission that returns a task id has sent the task, once, and tracks it. -/
theorem Submitter.submitted_of_ok {found : TaskId} {after : Submitter}
    {commands : List SwarmCommand}
    (hresult : submitter.submitLocalProject primitives packDirectory fault channel taskId now params
      target = (.ok found, after, commands)) :
    found = taskId ∧ ∃ peer task, commands = [.sendProjectTask peer task] ∧
      Submitted primitives packDirectory fault taskId now submitter params target after peer
        task := by
  unfold submitLocalProject at hresult
  split at hresult
  · cases hresult
  · cases hresult
  · rename_i snapshot store hsnapshot
    split at hresult
    · cases hresult
    · cases hresult
    · cases hresult
    · split at hresult
      · cases hresult
      · cases hresult
      · rename_i peer hroute
        cases hresult
        obtain ⟨tar, hpacked, hput, rfl⟩ := snapshotFromDir_eq_ok hsnapshot
        exact ⟨rfl, peer, _, rfl, ⟨tar, hpacked, hput, rfl⟩, hroute, rfl⟩

/-- A submission that fails has sent nothing and tracks nothing. -/
theorem Submitter.unchanged_of_not_ok {result : Outcome CoreError TaskId} {after : Submitter}
    {commands : List SwarmCommand}
    (hresult : submitter.submitLocalProject primitives packDirectory fault channel taskId now params
      target = (result, after, commands)) (hfailed : ∀ found, result ≠ .ok found) :
    commands = [] ∧ after.client = submitter.client := by
  unfold submitLocalProject at hresult
  split at hresult
  · cases hresult
    exact ⟨rfl, rfl⟩
  · cases hresult
    exact ⟨rfl, rfl⟩
  · split at hresult
    · cases hresult
      exact ⟨rfl, rfl⟩
    · cases hresult
      exact ⟨rfl, rfl⟩
    · cases hresult
      exact ⟨rfl, rfl⟩
    · split at hresult
      · cases hresult
        exact ⟨rfl, rfl⟩
      · cases hresult
        exact ⟨rfl, rfl⟩
      · cases hresult
        exact absurd rfl (hfailed taskId)

/-- What was put without a fault is there. -/
theorem objectExists_putBlob (primitives : Primitives) (store : LocalObjectStore) (data : Bytes) :
    (store.putBlob primitives none data).2.objectExists (hashBlob primitives data) = .ok true := by
  have hput : store.putBlob primitives none data = _ := store.put_none primitives (.blob data)
  rw [LocalObjectStore.objectExists_of_isDigest _ (isDigest_hashBlob primitives data),
    Outcome.ok.injEq, Finmap.lookup_isSome, hput]
  split_ifs with hmem
  · exact hmem
  · exact Finmap.mem_insert.mpr (Or.inl rfl)

/-- Without a fault and with room in the channel, a packed directory is sent to the executor. -/
theorem Submitter.submitLocalProject_of_routed {tar : Bytes} {peer : PeerId}
    (hpacked : packDirectory params.projectDir = .ok tar)
    (hroute : resolvePeer submitter.selfNodeId target submitter.catalog submitter.order =
      .ok peer) :
    submitter.submitLocalProject primitives packDirectory none (.ok ()) taskId now params target =
      (.ok taskId,
        { submitter with
          store := (submitter.store.putBlob primitives none tar).2
          client := submitter.client.insertDispatched now taskId },
        [.sendProjectTask peer
          (taskOf taskId (snapshotOfHash (hashBlob primitives tar)) params target)]) := by
  have hput := LocalObjectStore.putBlob_of_not_fails
    (LocalObjectStore.not_writeFails_none primitives submitter.store tar)
  have hsnapshot : snapshotFromDir primitives packDirectory none submitter.store params.projectDir =
      (.ok (snapshotOfHash (hashBlob primitives tar)),
        (submitter.store.putBlob primitives none tar).2) := by
    rw [snapshotFromDir, hpacked]
    simp only
    rw [hput]
  have hthere := objectExists_putBlob primitives submitter.store tar
  simp only [submitLocalProject, hsnapshot, snapshotOfHash, hthere, hroute]

end EdgeOrchestrator.Node
