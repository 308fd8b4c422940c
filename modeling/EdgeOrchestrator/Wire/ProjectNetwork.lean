import EdgeOrchestrator.Node.TaskRecords
import EdgeOrchestrator.P2P.ServedRequests
import EdgeOrchestrator.Wire.ResultDelivery

/-!
# Tasks and results between nodes

Every node runs the same program: it submits tasks to other nodes, executes the tasks that reach it,
and records the results that reach its monitor. A request may be on its way for long, may exceed its
cap, and may fail for the submitting node at any time, also while the task is being executed or
after its answer was sent; the executing node may find its response channel closed. Since a task id
is drawn once, every task is executed at most once, on the node it was sent to, and whoever records
a result for it records the same one.
-/

namespace EdgeOrchestrator.Wire.ProjectNetwork

open Execution Node Node.ProjectTraffic P2P P2P.ServedRequests Serde Storage

/-- A request of libp2p: the node that made it, and its number there. -/
abbrev RequestId := PeerId × ℕ

/-- A task on its way to the node that shall execute it. -/
structure Message where
  request : RequestId
  executor : PeerId
  task : ProjectTask
  deriving DecidableEq

/-- What arrived on a response channel. -/
structure Arrival where
  request : RequestId
  task : ProjectTask

/-- The nodes, the requests and the answers that are on their way, and what arrived on the response
channels. Beside them stand the submissions of every node in their order and the task ids that were
drawn. -/
structure Network where
  worlds : PeerId → World := fun _ ↦ {}
  sent : List Message := []
  answers : List (RequestId × ProjectResult) := []
  inbound : PeerId × ResponseChannel → Option Arrival := fun _ ↦ none
  submissions : PeerId → List (PeerId × ProjectTask) := fun _ ↦ []
  drawn : List TaskId := []

inductive Step
  | submit (node peer : PeerId) (task : ProjectTask)
  | sendRequest (node : PeerId)
  | arrive (message : Message) (channel : ResponseChannel)
  | answer (request : RequestId) (result : ProjectResult)
  | proceed (node : PeerId) (action : Action)

/-- A node can do the action without a message from another one. -/
def IsLocal : Action → Bool
  | .submit _ _ | .sendRequest | .respond _ _ | .exchange (.request _ _ _) => false
  | _ => true

section Machine

variable (text : SerdeReader) (forms : TextForms) (hasExecutor : PeerId → Bool)

/-- The request that the oldest command of a node becomes. -/
def nextMessage (network : Network) (node : PeerId) : List Message :=
  match (network.worlds node).commands with
  | .sendProjectTask peer task :: _ => [⟨(node, (network.worlds node).requests), peer, task⟩]
  | _ => []

/-- The answers that a node wrote on the way to its next state, each with the request that came in
on its channel. -/
def newAnswers (network : Network) (node : PeerId) (world : World) :
    List (RequestId × ProjectResult) :=
  let before := (network.worlds node).exchange.answered.length
  (world.exchange.answered.take (world.exchange.answered.length - before)).filterMap fun answer ↦
    (network.inbound (node, answer.1)).map fun arrival ↦ (arrival.request, answer.2)

/-- One step of a node. -/
def act (network : Network) (node : PeerId) (action : Action) : Option Network :=
  (ProjectTraffic.step (hasExecutor node) (network.worlds node) action).map fun world ↦
    { network with
      worlds := Function.update network.worlds node world
      answers := network.answers ++ newAnswers network node world }

/-- The executing node gets the task, or an error closes the stream. -/
def receive (network : Network) (message : Message) (channel : ResponseChannel) :
    Except IoError ProjectTask → Option Network
  | .error _ => some { network with sent := network.sent.erase message }
  | .ok task => act hasExecutor { network with
      sent := network.sent.erase message
      inbound := Function.update network.inbound (message.executor, channel)
        (some ⟨message.request, task⟩) } message.executor
          (.exchange (.request channel message.request.1 task))

/-- The submitting node gets the result, unless an error closes the stream or it has given the
request up. -/
def settle (network : Network) (answer : RequestId × ProjectResult) :
    Except IoError ProjectResult → Network
  | .error _ => { network with answers := network.answers.erase answer }
  | .ok result =>
    let arrived := { network with answers := network.answers.erase answer }
    (act hasExecutor arrived answer.1.1 (.respond answer.1.2 result)).getD arrived

/-- One step of the network. A task id is drawn once. -/
def step (network : Network) : Step → Option Network
  | .submit node peer task =>
    if task.taskId ∈ network.drawn then none
    else (act hasExecutor network node (.submit peer task)).map fun next ↦
      { next with
        submissions := Function.update network.submissions node
          (network.submissions node ++ [(peer, task)])
        drawn := task.taskId :: network.drawn }
  | .sendRequest node =>
    (act hasExecutor network node .sendRequest).map fun next ↦
      { next with sent := network.sent ++ nextMessage network node }
  | .arrive message channel =>
    if message ∈ network.sent then
      receive hasExecutor network message channel
        (transfer text forms .projectRequest message.task)
    else none
  | .answer request result =>
    if (request, result) ∈ network.answers then
      some (settle hasExecutor network (request, result)
        (transfer text forms .projectResponse result))
    else none
  | .proceed node action =>
    if IsLocal action then act hasExecutor network node action else none

end Machine

/-! ## Faithful executors -/

section Faithful

variable (primitives : Primitives) (nodeIds : PeerId → NodeId) (text : SerdeReader)
  (forms : TextForms) (hasExecutor : PeerId → Bool)

/-- The executor of a node returns from running the task. -/
def Executes (executor : PeerId) (task : ProjectTask) (outcome : Except String ProjectResult) :
    Prop :=
  ∃ unpackTar store ensured projectDir execution,
    JobReturns (QleanProjectExecutor.run primitives unpackTar store task ensured projectDir
      (resultOf (nodeIds executor) task execution)) outcome

/-- The result is what the executor of the node made of the task, or its refusal when it has no
executor. -/
def ResultOf (executor : PeerId) (task : ProjectTask) (result : ProjectResult) : Prop :=
  (∃ outcome, Executes primitives nodeIds executor task outcome ∧ result = jobResult task outcome) ∨
    hasExecutor executor = false ∧ result = projectFailure task 101 noExecutorMessage

/-- Jobs end as the executor returns, and the peer can read every task, every refusal and every
result. -/
def Faithful (network : Network) : Step → Prop
  | .submit _ _ task => Readable text forms .projectRequest task ∧
      Readable text forms .projectResponse (projectFailure task 101 noExecutorMessage)
  | .proceed node (.exchange (.finish channel outcome)) =>
      ∀ job, (network.worlds node).exchange.jobs channel = some job →
        Executes primitives nodeIds node job.task outcome ∧
          Readable text forms .projectResponse (jobResult job.task outcome)
  | _ => True

/-- A result of the task that its submitter can read. -/
def AnswersTo (executor : PeerId) (task : ProjectTask) (result : ProjectResult) : Prop :=
  ResultOf primitives nodeIds hasExecutor executor task result ∧
    Readable text forms .projectResponse result

end Faithful

theorem ResultOf.taskId_eq {primitives : Primitives} {nodeIds : PeerId → NodeId}
    {hasExecutor : PeerId → Bool} {executor : PeerId} {task : ProjectTask} {result : ProjectResult}
    (hresult : ResultOf primitives nodeIds hasExecutor executor task result) :
    result.taskId = task.taskId := by
  rcases hresult with ⟨outcome, ⟨_, _, _, _, _, hreturns⟩, rfl⟩ | ⟨-, rfl⟩
  · exact taskId_jobResult hreturns
  · rfl

/-! ## The account of a network -/

/-- The request was made, for a task that its node submitted to the executing node. -/
structure Made (network : Network) (request : RequestId) (executor : PeerId) (task : ProjectTask) :
    Prop where
  submitted : (network.submissions request.1)[request.2]? = some (executor, task)
  counted : request.2 < (network.worlds request.1).requests

/-- What is on its way or arrived was submitted, and no request is there twice. -/
structure Wired (text : SerdeReader) (forms : TextForms) (network : Network) : Prop where
  drawn : ∀ node, ∀ sent ∈ network.submissions node, sent.2.taskId ∈ network.drawn
  distinct : ∀ (one other : RequestId) (first second : PeerId × ProjectTask),
    (network.submissions one.1)[one.2]? = some first →
      (network.submissions other.1)[other.2]? = some second →
        first.2.taskId = second.2.taskId → one = other
  readable : ∀ node, ∀ sent ∈ network.submissions node,
    Readable text forms .projectRequest sent.2 ∧
      Readable text forms .projectResponse (projectFailure sent.2 101 noExecutorMessage)
  sent : ∀ message ∈ network.sent, Made network message.request message.executor message.task
  sentOnce : (network.sent.map Message.request).Nodup
  inbound : ∀ key arrival, network.inbound key = some arrival →
    Made network arrival.request key.1 arrival.task ∧
      arrival.request ∉ network.sent.map Message.request
  inboundOnce : ∀ one other first second, network.inbound one = some first →
    network.inbound other = some second → first.request = second.request → one = other

/-- The result was produced on a channel, for the task that arrived there. -/
structure Produced (network : Network) (key : PeerId × ResponseChannel) (arrival : Arrival)
    (result : ProjectResult) : Prop where
  inbound : network.inbound key = some arrival
  produced : (key.2, result) ∈ (network.worlds key.1).exchange.produced

/-- The result was produced for a request of the node, or by the node. -/
def Reported (network : Network) (node : PeerId) (result : ProjectResult) : Prop :=
  ∃ key arrival, Produced network key arrival result ∧ (node = arrival.request.1 ∨ node = key.1)

/-- The tasks that arrived on the channels of a node. -/
def arrivedAt (network : Network) (node : PeerId) (channel : ResponseChannel) :
    Option ProjectTask :=
  (network.inbound (node, channel)).map Arrival.task

section Account

variable {primitives : Primitives} {nodeIds : PeerId → NodeId} {text : SerdeReader}
  {forms : TextForms} {hasExecutor : PeerId → Bool}

variable (primitives nodeIds text forms hasExecutor) in
/-- Every node keeps its books, and every answer on its way was produced for its request. -/
structure Accounted (network : Network) : Prop where
  wired : Wired text forms network
  dispatching : ∀ node, Dispatching (network.submissions node) (network.worlds node)
  serving : ∀ node, Serving (AnswersTo primitives nodeIds text forms hasExecutor node)
    (arrivedAt network node) (network.worlds node).exchange
  recording : ∀ node, Recording (Reported network node) (network.worlds node)
  answers : ∀ answer ∈ network.answers, ∃ key arrival,
    Produced network key arrival answer.2 ∧ arrival.request = answer.1

theorem accounted_start : Accounted primitives nodeIds text forms hasExecutor {} where
  wired := by constructor <;> simp
  dispatching _ := dispatching_start 0
  serving _ := serving_start
  recording _ := recording_start 0
  answers _ hmem := by cases hmem

/-- Requests are made once and for all. -/
theorem Made.mono {network next : Network} {request : RequestId} {executor : PeerId}
    {task : ProjectTask} (hmade : Made network request executor task)
    (hsubmissions : network.submissions request.1 <+: next.submissions request.1)
    (hrequests : (network.worlds request.1).requests ≤ (next.worlds request.1).requests) :
    Made next request executor task where
  submitted := by
    obtain ⟨later, hlater⟩ := hsubmissions
    rw [← hlater, List.getElem?_append_left (List.getElem?_eq_some_iff.mp hmade.submitted).1]
    exact hmade.submitted
  counted := lt_of_lt_of_le hmade.counted hrequests

theorem Produced.mono {network next : Network} {key : PeerId × ResponseChannel}
    {arrival : Arrival} {result : ProjectResult} (hproduced : Produced network key arrival result)
    (hinbound : ∀ arrival, network.inbound key = some arrival → next.inbound key = some arrival)
    (hgrows : (network.worlds key.1).exchange.produced ⊆ (next.worlds key.1).exchange.produced) :
    Produced next key arrival result :=
  ⟨hinbound arrival hproduced.inbound, hgrows hproduced.produced⟩

/-- What is on the wire may get lost, and counters may go on. -/
theorem Wired.grow {network next : Network} (hwired : Wired text forms network)
    (hsubmissions : next.submissions = network.submissions) (hdrawn : next.drawn = network.drawn)
    (hinbound : next.inbound = network.inbound) (hsent : next.sent.Sublist network.sent)
    (hrequests : ∀ node, (network.worlds node).requests ≤ (next.worlds node).requests) :
    Wired text forms next := by
  have hmade : ∀ request executor task, Made network request executor task →
      Made next request executor task := by
    intro request executor task hmade
    exact hmade.mono (by rw [hsubmissions]) (hrequests request.1)
  have hmessages := hsent.map Message.request
  constructor
  · rw [hsubmissions, hdrawn]
    exact hwired.drawn
  · rw [hsubmissions]
    exact hwired.distinct
  · rw [hsubmissions]
    exact hwired.readable
  · exact fun message hmem ↦ hmade _ _ _ (hwired.sent message (hsent.subset hmem))
  · exact hwired.sentOnce.sublist hmessages
  · rw [hinbound]
    intro key arrival harrival
    obtain ⟨harrived, hnot⟩ := hwired.inbound key arrival harrival
    exact ⟨hmade _ _ _ harrived, fun hmem ↦ hnot (hmessages.subset hmem)⟩
  · rw [hinbound]
    exact hwired.inboundOnce

theorem Accounted.lose {network : Network}
    (haccounted : Accounted primitives nodeIds text forms hasExecutor network)
    {sent : List Message} (hsent : sent.Sublist network.sent)
    {answers : List (RequestId × ProjectResult)} (hanswers : answers ⊆ network.answers) :
    Accounted primitives nodeIds text forms hasExecutor
      { network with sent := sent, answers := answers } where
  wired := haccounted.wired.grow rfl rfl rfl hsent fun _ ↦ le_rfl
  dispatching := haccounted.dispatching
  serving := haccounted.serving
  recording node := (haccounted.recording node).mono fun _ ⟨key, arrival, hproduced, hside⟩ ↦
    ⟨key, arrival, ⟨hproduced.inbound, hproduced.produced⟩, hside⟩
  answers answer hmem := by
    obtain ⟨key, arrival, hproduced, hrequest⟩ := haccounted.answers answer (hanswers hmem)
    exact ⟨key, arrival, ⟨hproduced.inbound, hproduced.produced⟩, hrequest⟩

/-- The tasks that have arrived at a node after an action of it. -/
def arrivedFor (arrived : ResponseChannel → Option ProjectTask) :
    Action → ResponseChannel → Option ProjectTask
  | .exchange action => arrivedAfter arrived action
  | _ => arrived

theorem mem_newAnswers {network : Network} {node : PeerId} {world : World}
    {answer : RequestId × ProjectResult} (hmem : answer ∈ newAnswers network node world) :
    ∃ channel arrival, network.inbound (node, channel) = some arrival ∧
      (channel, answer.2) ∈ world.exchange.answered ∧ arrival.request = answer.1 := by
  obtain ⟨⟨channel, result⟩, hwritten, hanswer⟩ := List.mem_filterMap.mp hmem
  obtain ⟨arrival, harrival, rfl⟩ := Option.map_eq_some_iff.mp hanswer
  exact ⟨channel, arrival, harrival, List.mem_of_mem_take hwritten, rfl⟩

/-- One node does something, and what belongs to it on the wire follows. -/
theorem Accounted.move {network next : Network} {node : PeerId} {action : Action} {world : World}
    (haccounted : Accounted primitives nodeIds text forms hasExecutor network)
    (hmove : Move (hasExecutor node) (network.worlds node) action world)
    (hworlds : next.worlds = Function.update network.worlds node world)
    (hsubmissions : next.submissions = Function.update network.submissions node
      (submittedAfter (network.submissions node) action))
    (harrived : arrivedAt next node = arrivedFor (arrivedAt network node) action)
    (hothers : ∀ key, key.1 ≠ node → next.inbound key = network.inbound key)
    (hinbound : ∀ key arrival, network.inbound key = some arrival →
      next.inbound key = some arrival)
    (hwired : Wired text forms next)
    (hadmissible : ∀ own, action = .exchange own →
      Admissible (AnswersTo primitives nodeIds text forms hasExecutor node) (hasExecutor node)
        (arrivedAt network node) (network.worlds node).exchange own)
    (htask : AnswersTask (network.worlds node) action)
    (hbrings : ∀ result, Brings (network.worlds node) result action → Reported network node result)
    (hanswers : ∀ answer ∈ next.answers, answer ∈ network.answers ∨
      answer ∈ newAnswers { network with inbound := next.inbound } node world) :
    Accounted primitives nodeIds text forms hasExecutor next := by
  have hself : next.worlds node = world := by rw [hworlds, Function.update_self]
  have hother : ∀ other, other ≠ node → next.worlds other = network.worlds other := by
    intro other hne
    rw [hworlds, Function.update_of_ne hne]
  have hserving : Serving (AnswersTo primitives nodeIds text forms hasExecutor node)
      (arrivedAt next node) world.exchange := by
    rw [harrived]
    rcases exchange_of_move hmove with ⟨own, rfl, hstep⟩ | ⟨hnone, hsame⟩
    · exact (haccounted.serving node).step (hadmissible own rfl) hstep
    · have hkept : arrivedFor (arrivedAt network node) action = arrivedAt network node := by
        cases action with
        | exchange own => exact absurd rfl (hnone own)
        | _ => rfl
      rw [hkept, hsame]
      exact haccounted.serving node
  have hgrows : (network.worlds node).exchange.produced ⊆ world.exchange.produced := by
    rcases exchange_of_move hmove with ⟨own, -, hstep⟩ | ⟨-, hsame⟩
    · exact produced_subset hstep
    · rw [hsame]
      exact List.Subset.refl _
  have hproduced : ∀ key arrival result, Produced network key arrival result →
      Produced next key arrival result := by
    intro key arrival result hproduced
    refine hproduced.mono (hinbound key) ?_
    by_cases hkey : key.1 = node
    · rw [hkey, hself]
      exact hgrows
    · rw [hother key.1 hkey]
      exact List.Subset.refl _
  have hreported : ∀ other result, Reported network other result → Reported next other result := by
    rintro other result ⟨key, arrival, hearlier, hside⟩
    exact ⟨key, arrival, hproduced key arrival result hearlier, hside⟩
  refine ⟨hwired, fun other ↦ ?_, fun other ↦ ?_, fun other ↦ ?_, fun answer hmem ↦ ?_⟩
  · rw [hsubmissions]
    by_cases hne : other = node
    · rw [hne, hself, Function.update_self]
      exact (haccounted.dispatching node).move htask hmove
    · rw [hother other hne, Function.update_of_ne hne]
      exact haccounted.dispatching other
  · by_cases hne : other = node
    · rw [hne, hself]
      exact hserving
    · have hsame : arrivedAt next other = arrivedAt network other := by
        funext channel
        rw [arrivedAt, arrivedAt, hothers (other, channel) hne]
      rw [hsame, hother other hne]
      exact haccounted.serving other
  · by_cases hne : other = node
    · rw [hne, hself]
      exact ((haccounted.recording node).move hbrings hmove).mono (hreported node)
    · rw [hother other hne]
      exact (haccounted.recording other).mono (hreported other)
  · rcases hanswers answer hmem with hearlier | hnew
    · obtain ⟨key, arrival, hfound, hrequest⟩ := haccounted.answers answer hearlier
      exact ⟨key, arrival, hproduced key arrival answer.2 hfound, hrequest⟩
    · obtain ⟨channel, arrival, harrival, hanswered, hrequest⟩ := mem_newAnswers hnew
      refine ⟨(node, channel), arrival, ⟨harrival, ?_⟩, hrequest⟩
      rw [hself]
      exact (hserving.sound.answered _ hanswered).1

theorem move_of_act {network next : Network} {node : PeerId} {action : Action}
    (hact : act hasExecutor network node action = some next) :
    ∃ world, Move (hasExecutor node) (network.worlds node) action world ∧
      next = { network with
        worlds := Function.update network.worlds node world
        answers := network.answers ++ newAnswers network node world } := by
  obtain ⟨world, hstep, hnext⟩ := Option.map_eq_some_iff.mp hact
  exact ⟨world, move_of_step hstep, hnext.symm⟩

/-! ### The steps -/

/-- A submission has the number behind the earlier ones of its node. -/
theorem getElem?_submissions_cases {submissions : PeerId → List (PeerId × ProjectTask)}
    {node : PeerId} {new found : PeerId × ProjectTask} {request : RequestId}
    (hfound : (Function.update submissions node (submissions node ++ [new]) request.1)[request.2]? =
      some found) :
    (submissions request.1)[request.2]? = some found ∨
      request = (node, (submissions node).length) ∧ found = new := by
  by_cases hnode : request.1 = node
  · rw [hnode, Function.update_self, List.getElem?_append] at hfound
    split_ifs at hfound with hearlier
    · rw [hnode]
      exact Or.inl hfound
    · have hlast := List.getElem?_eq_some_iff.mp hfound
      have hnumber : request.2 - (submissions node).length = 0 := by simpa using hlast.1
      rw [hnumber, List.getElem?_cons_zero, Option.some.injEq] at hfound
      exact Or.inr ⟨Prod.ext hnode (by omega), hfound.symm⟩
  · rw [Function.update_of_ne hnode] at hfound
    exact Or.inl hfound

/-- A node draws a new task id and submits a task under it. -/
theorem Wired.submit {network next : Network} {node peer : PeerId} {task : ProjectTask}
    (hwired : Wired text forms network) (hnew : task.taskId ∉ network.drawn)
    (hreadable : Readable text forms .projectRequest task ∧
      Readable text forms .projectResponse (projectFailure task 101 noExecutorMessage))
    (hsubmissions : next.submissions = Function.update network.submissions node
      (network.submissions node ++ [(peer, task)]))
    (hdrawn : next.drawn = task.taskId :: network.drawn) (hsent : next.sent = network.sent)
    (hinbound : next.inbound = network.inbound)
    (hrequests : ∀ node, (next.worlds node).requests = (network.worlds node).requests) :
    Wired text forms next := by
  have hgrows : ∀ other, network.submissions other <+: next.submissions other := by
    intro other
    rw [hsubmissions]
    by_cases hnode : other = node
    · rw [hnode, Function.update_self]
      exact List.prefix_append ..
    · rw [Function.update_of_ne hnode]
  have hmade : ∀ request executor task, Made network request executor task →
      Made next request executor task := by
    intro request executor task hmade
    exact hmade.mono (hgrows request.1) (hrequests request.1).ge
  have hmem : ∀ other, ∀ sent ∈ next.submissions other,
      sent ∈ network.submissions other ∨ sent = (peer, task) := by
    intro other sent hsent
    rw [hsubmissions] at hsent
    by_cases hnode : other = node
    · rw [hnode, Function.update_self] at hsent
      rw [hnode]
      exact (List.mem_append.mp hsent).imp_right List.mem_singleton.mp
    · rw [Function.update_of_ne hnode] at hsent
      exact Or.inl hsent
  have hold : ∀ request : RequestId, ∀ found : PeerId × ProjectTask,
      (network.submissions request.1)[request.2]? = some found → found.2.taskId ≠ task.taskId := by
    intro request found hfound hsame
    exact hnew (hsame ▸ hwired.drawn request.1 found (List.mem_of_getElem? hfound))
  constructor
  · intro other sent hsent
    rw [hdrawn]
    rcases hmem other sent hsent with hearlier | rfl
    · exact List.mem_cons_of_mem _ (hwired.drawn other sent hearlier)
    · exact List.mem_cons_self
  · intro one other first second hfirst hsecond hsame
    rw [hsubmissions] at hfirst hsecond
    rcases getElem?_submissions_cases hfirst with hfirst | ⟨hone, rfl⟩ <;>
      rcases getElem?_submissions_cases hsecond with hsecond | ⟨hother, rfl⟩
    · exact hwired.distinct one other first second hfirst hsecond hsame
    · exact absurd hsame (hold one first hfirst)
    · exact absurd hsame.symm (hold other second hsecond)
    · rw [hone, hother]
  · intro other sent hsent
    rcases hmem other sent hsent with hearlier | rfl
    · exact hwired.readable other sent hearlier
    · exact hreadable
  · rw [hsent]
    exact fun message hmessage ↦ hmade _ _ _ (hwired.sent message hmessage)
  · rw [hsent]
    exact hwired.sentOnce
  · rw [hsent, hinbound]
    exact fun key arrival harrival ↦
      (hwired.inbound key arrival harrival).imp_left (hmade _ _ _)
  · rw [hinbound]
    exact hwired.inboundOnce

/-- The oldest submission that is no request yet becomes one. -/
theorem Wired.sendRequest {network next : Network} {node : PeerId} {message : Message}
    (hwired : Wired text forms network)
    (hmessage : message.request = (node, (network.worlds node).requests))
    (hsubmitted : (network.submissions node)[(network.worlds node).requests]? =
      some (message.executor, message.task))
    (hsubmissions : next.submissions = network.submissions) (hdrawn : next.drawn = network.drawn)
    (hsent : next.sent = network.sent ++ [message]) (hinbound : next.inbound = network.inbound)
    (hrequests : ∀ other, (next.worlds other).requests =
      if other = node then (network.worlds node).requests + 1
      else (network.worlds other).requests) : Wired text forms next := by
  have hmade : ∀ request executor task, Made network request executor task →
      Made next request executor task := by
    intro request executor task hmade
    refine hmade.mono (by rw [hsubmissions]) ?_
    rw [hrequests]
    split_ifs with hnode
    · rw [hnode]
      exact Nat.le_succ _
    · exact le_rfl
  have hunused : ∀ executor task, ¬ Made network message.request executor task := by
    intro executor task hmade
    have hcounted := hmade.counted
    rw [hmessage] at hcounted
    exact lt_irrefl _ hcounted
  have hnotSent : message.request ∉ network.sent.map Message.request := by
    intro hmem
    obtain ⟨other, hother, hsame⟩ := List.mem_map.mp hmem
    exact hunused _ _ (hsame ▸ hwired.sent other hother)
  constructor
  · rw [hsubmissions, hdrawn]
    exact hwired.drawn
  · rw [hsubmissions]
    exact hwired.distinct
  · rw [hsubmissions]
    exact hwired.readable
  · rw [hsent]
    intro other hother
    rcases List.mem_append.mp hother with hearlier | hlast
    · exact hmade _ _ _ (hwired.sent other hearlier)
    · rw [List.mem_singleton.mp hlast]
      constructor
      · rw [hsubmissions, hmessage]
        exact hsubmitted
      · rw [hmessage, hrequests, if_pos rfl]
        exact Nat.lt_succ_self _
  · rw [hsent, List.map_append, List.map_singleton]
    exact hwired.sentOnce.append (List.nodup_singleton _) (List.disjoint_singleton.mpr hnotSent)
  · rw [hsent, hinbound]
    intro key arrival harrival
    obtain ⟨harrived, hnot⟩ := hwired.inbound key arrival harrival
    refine ⟨hmade _ _ _ harrived, fun hmem ↦ ?_⟩
    rw [List.map_append, List.map_singleton, List.mem_append, List.mem_singleton] at hmem
    rcases hmem with hearlier | hlast
    · exact hnot hearlier
    · exact hunused _ _ (hlast ▸ harrived)
  · rw [hinbound]
    exact hwired.inboundOnce

/-- A request arrives on a channel of its own. -/
theorem Wired.arrive {network next : Network} {message : Message} {channel : ResponseChannel}
    (hwired : Wired text forms network) (hmem : message ∈ network.sent)
    (hsubmissions : next.submissions = network.submissions) (hdrawn : next.drawn = network.drawn)
    (hsent : next.sent = network.sent.erase message)
    (hinbound : next.inbound = Function.update network.inbound (message.executor, channel)
      (some ⟨message.request, message.task⟩))
    (hrequests : ∀ node, (next.worlds node).requests = (network.worlds node).requests) :
    Wired text forms next := by
  have hmade : ∀ request executor task, Made network request executor task →
      Made next request executor task := by
    intro request executor task hmade
    exact hmade.mono (by rw [hsubmissions]) (hrequests request.1).ge
  have hsublist : (next.sent.map Message.request).Sublist (network.sent.map Message.request) := by
    rw [hsent]
    exact List.erase_sublist.map _
  have hgone : message.request ∉ next.sent.map Message.request := by
    have hperm := (List.perm_cons_erase hmem).map Message.request
    have hnodup := hperm.nodup_iff.mp hwired.sentOnce
    rw [List.map_cons, List.nodup_cons] at hnodup
    rw [hsent]
    exact hnodup.1
  have hwaiting : ∀ key arrival, network.inbound key = some arrival →
      arrival.request ≠ message.request := by
    intro key arrival harrival hsame
    exact (hwired.inbound key arrival harrival).2 (hsame ▸ List.mem_map_of_mem hmem)
  constructor
  · rw [hsubmissions, hdrawn]
    exact hwired.drawn
  · rw [hsubmissions]
    exact hwired.distinct
  · rw [hsubmissions]
    exact hwired.readable
  · rw [hsent]
    exact fun other hother ↦ hmade _ _ _ (hwired.sent other (List.mem_of_mem_erase hother))
  · exact hwired.sentOnce.sublist hsublist
  · rw [hinbound]
    intro key arrival harrival
    rcases eq_or_of_update_eq_some harrival with ⟨rfl, rfl⟩ | hearlier
    · exact ⟨hmade _ _ _ (hwired.sent message hmem), hgone⟩
    · obtain ⟨harrived, hnot⟩ := hwired.inbound key arrival hearlier
      exact ⟨hmade _ _ _ harrived, fun hlater ↦ hnot (hsublist.subset hlater)⟩
  · rw [hinbound]
    intro one other first second hfirst hsecond hsame
    rcases eq_or_of_update_eq_some hfirst with ⟨rfl, rfl⟩ | hfirst <;>
      rcases eq_or_of_update_eq_some hsecond with ⟨rfl, rfl⟩ | hsecond
    · rfl
    · exact absurd hsame.symm (hwaiting other second hsecond)
    · exact absurd hsame (hwaiting one first hfirst)
    · exact hwired.inboundOnce one other first second hfirst hsecond hsame

theorem requests_of_update {worlds : PeerId → World} {node : PeerId} {action : Action}
    {world : World} (hmove : Move (hasExecutor node) (worlds node) action world)
    (haction : action ≠ .sendRequest) (other : PeerId) :
    (Function.update worlds node world other).requests = (worlds other).requests := by
  by_cases hnode : other = node
  · rw [hnode, Function.update_self, requests_of_move hmove haction]
  · rw [Function.update_of_ne hnode]

theorem Accounted.submit {network next : Network} {node peer : PeerId} {task : ProjectTask}
    (haccounted : Accounted primitives nodeIds text forms hasExecutor network)
    (hnew : task.taskId ∉ network.drawn)
    (hreadable : Readable text forms .projectRequest task ∧
      Readable text forms .projectResponse (projectFailure task 101 noExecutorMessage))
    (hact : act hasExecutor network node (.submit peer task) = some next) :
    Accounted primitives nodeIds text forms hasExecutor { next with
      submissions := Function.update network.submissions node
        (network.submissions node ++ [(peer, task)])
      drawn := task.taskId :: network.drawn } := by
  obtain ⟨world, hmove, rfl⟩ := move_of_act hact
  refine haccounted.move hmove rfl rfl rfl (fun _ _ ↦ rfl) (fun _ _ harrival ↦ harrival)
    ?_ (by rintro own ⟨⟩) trivial (fun _ hbrings ↦ hbrings.elim) ?_
  · exact haccounted.wired.submit hnew hreadable rfl rfl rfl rfl (requests_of_update hmove nofun)
  · exact fun answer hmem ↦ List.mem_append.mp hmem

theorem Accounted.sendRequest {network next : Network} {node : PeerId}
    (haccounted : Accounted primitives nodeIds text forms hasExecutor network)
    (hact : act hasExecutor network node .sendRequest = some next) :
    Accounted primitives nodeIds text forms hasExecutor
      { next with sent := network.sent ++ nextMessage network node } := by
  obtain ⟨world, hmove, rfl⟩ := move_of_act hact
  obtain ⟨peer, task, rest, hcommands, hworld⟩ : ∃ peer task rest,
      (network.worlds node).commands = .sendProjectTask peer task :: rest ∧
        world.requests = (network.worlds node).requests + 1 := by
    cases hmove with
    | sendRequest hcommands => exact ⟨_, _, _, hcommands, rfl⟩
  have hmessage : nextMessage network node =
      [⟨(node, (network.worlds node).requests), peer, task⟩] := by
    rw [nextMessage, hcommands]
  have hrequests : ∀ other, (Function.update network.worlds node world other).requests =
      if other = node then (network.worlds node).requests + 1
      else (network.worlds other).requests := by
    intro other
    by_cases hnode : other = node
    · rw [hnode, Function.update_self, if_pos rfl, hworld]
    · rw [Function.update_of_ne hnode, if_neg hnode]
  refine haccounted.move hmove rfl (Function.update_eq_self ..).symm rfl (fun _ _ ↦ rfl)
    (fun _ _ harrival ↦ harrival) ?_ (by rintro own ⟨⟩) trivial (fun _ hbrings ↦ hbrings.elim) ?_
  · exact haccounted.wired.sendRequest rfl
      ((haccounted.dispatching node).getElem?_requests hcommands).1 rfl rfl (by rw [hmessage]) rfl
        hrequests
  · exact fun answer hmem ↦ List.mem_append.mp hmem

/-- A task that arrives was neither received before nor sent twice. -/
theorem Wired.taskId_ne {network : Network} (hwired : Wired text forms network) {message : Message}
    (hmem : message ∈ network.sent) {key : PeerId × ResponseChannel} {arrival : Arrival}
    (harrival : network.inbound key = some arrival) :
    arrival.task.taskId ≠ message.task.taskId := by
  intro hsame
  obtain ⟨harrived, hnot⟩ := hwired.inbound key arrival harrival
  have hrequest := hwired.distinct _ _ _ _ harrived.submitted
    (hwired.sent message hmem).submitted hsame
  exact hnot (hrequest ▸ List.mem_map_of_mem hmem)

theorem map_update_inbound (inbound : PeerId × ResponseChannel → Option Arrival)
    (executor : PeerId) (channel : ResponseChannel) (arrival : Arrival) :
    (fun other ↦ (Function.update inbound (executor, channel) (some arrival)
      (executor, other)).map Arrival.task) =
      Function.update (fun other ↦ (inbound (executor, other)).map Arrival.task) channel
        (some arrival.task) := by
  funext other
  by_cases hother : other = channel
  · rw [hother, Function.update_self, Function.update_self, Option.map_some]
  · rw [Function.update_of_ne (by simpa using hother), Function.update_of_ne hother]

theorem Accounted.receive {network next : Network} {message : Message} {channel : ResponseChannel}
    (haccounted : Accounted primitives nodeIds text forms hasExecutor network)
    (hmem : message ∈ network.sent) {received : Except IoError ProjectTask}
    (htask : ∀ task, received = .ok task → task = message.task)
    (hreceive : receive hasExecutor network message channel received = some next) :
    Accounted primitives nodeIds text forms hasExecutor next := by
  cases received with
  | error error =>
    obtain rfl : _ = next := Option.some.inj hreceive
    exact haccounted.lose List.erase_sublist (List.Subset.refl _)
  | ok task =>
    obtain rfl := htask task rfl
    obtain ⟨world, hmove, rfl⟩ := move_of_act hreceive
    have hserving := haccounted.serving message.executor
    have hchannel : channel ∉ (network.worlds message.executor).exchange.requested := by
      cases hmove with
      | exchange hstep => exact (Option.ite_none_left_eq_some.mp hstep).1
    have hfree : ∀ arrival, network.inbound (message.executor, channel) ≠ some arrival := by
      intro arrival harrival
      apply hchannel
      rw [hserving.requested, arrivedAt, harrival]
      rfl
    refine haccounted.move hmove rfl (Function.update_eq_self ..).symm ?_ (fun key hkey ↦ ?_)
      (fun key arrival harrival ↦ ?_) ?_ ?_ trivial ?_ ?_
    · exact map_update_inbound ..
    · exact Function.update_of_ne (fun hsame ↦ hkey (congrArg Prod.fst hsame)) ..
    · refine (Function.update_of_ne ?_ ..).trans harrival
      rintro rfl
      exact hfree arrival harrival
    · exact haccounted.wired.arrive hmem rfl rfl rfl rfl (requests_of_update hmove nofun)
    · rintro own ⟨⟩
      refine ⟨fun other found hfound ↦ ?_, fun hnone ↦ ⟨Or.inr ⟨hnone, rfl⟩, ?_⟩⟩
      · obtain ⟨arrival, harrival, rfl⟩ := Option.map_eq_some_iff.mp hfound
        exact haccounted.wired.taskId_ne hmem harrival
      · exact (haccounted.wired.readable _ _ (List.mem_of_getElem?
          (haccounted.wired.sent message hmem).submitted)).2
    · rintro result ⟨peer, hforwarded⟩
      cases hforwarded
    · exact fun answer hanswer ↦ List.mem_append.mp hanswer

/-- What was produced on a channel answers the task that arrived there. -/
theorem Accounted.answersTo {network : Network}
    (haccounted : Accounted primitives nodeIds text forms hasExecutor network)
    {key : PeerId × ResponseChannel} {arrival : Arrival} {result : ProjectResult}
    (hproduced : Produced network key arrival result) :
    AnswersTo primitives nodeIds text forms hasExecutor key.1 arrival.task result := by
  obtain ⟨task, harrived, hanswers⟩ :=
    (haccounted.serving key.1).produced key.2 result hproduced.produced
  rw [arrivedAt, hproduced.inbound, Option.map_some, Option.some.injEq] at harrived
  rw [harrived]
  exact hanswers

theorem Accounted.settle {network : Network} {request : RequestId} {result : ProjectResult}
    (haccounted : Accounted primitives nodeIds text forms hasExecutor network)
    (hmem : (request, result) ∈ network.answers) {received : Except IoError ProjectResult}
    (hresult : ∀ other, received = .ok other → other = result) :
    Accounted primitives nodeIds text forms hasExecutor
      (settle hasExecutor network (request, result) received) := by
  have hfewer : network.answers.erase (request, result) ⊆ network.answers := List.erase_subset
  have hlost := haccounted.lose (List.Sublist.refl _) hfewer
  cases received with
  | error error => exact hlost
  | ok other =>
    obtain rfl := hresult other rfl
    rw [ProjectNetwork.settle]
    cases hact : act hasExecutor { network with answers := network.answers.erase (request, other) }
      request.1 (.respond request.2 other) with
    | none => exact hlost
    | some next =>
      obtain ⟨world, hmove, rfl⟩ := move_of_act hact
      obtain ⟨key, arrival, hproduced, rfl⟩ := haccounted.answers (request, other) hmem
      have habout := (haccounted.answersTo hproduced).1.taskId_eq
      refine hlost.move hmove rfl (Function.update_eq_self ..).symm rfl (fun _ _ ↦ rfl)
        (fun _ _ harrival ↦ harrival) ?_ (by rintro own ⟨⟩) (fun peer task houtbound ↦ ?_)
        (fun found hfound ↦ ?_) fun answer hanswer ↦ List.mem_append.mp hanswer
      · exact hlost.wired.grow rfl rfl rfl (List.Sublist.refl _)
          fun node ↦ (requests_of_update hmove nofun node).ge
      · have hsubmitted := (haccounted.dispatching _).outbound _ _ houtbound
        rw [(haccounted.wired.inbound key arrival hproduced.inbound).1.submitted,
          Option.some.injEq, Prod.mk.injEq] at hsubmitted
        rw [habout, hsubmitted.2]
      · obtain rfl : other = found := hfound
        exact ⟨key, arrival, ⟨hproduced.inbound, hproduced.produced⟩, Or.inl rfl⟩

theorem Accounted.proceed {network next : Network} {node : PeerId} {action : Action}
    (haccounted : Accounted primitives nodeIds text forms hasExecutor network)
    (hlocal : IsLocal action = true)
    (hfaithful : Faithful primitives nodeIds text forms network (.proceed node action))
    (hact : act hasExecutor network node action = some next) :
    Accounted primitives nodeIds text forms hasExecutor next := by
  obtain ⟨world, hmove, rfl⟩ := move_of_act hact
  have hsubmitted : submittedAfter (network.submissions node) action =
      network.submissions node := by
    cases action with
    | submit peer task => cases hlocal
    | _ => rfl
  have harrived : arrivedFor (arrivedAt network node) action = arrivedAt network node := by
    rcases action with _ | _ | _ | _ | _ | own | _ | _ | _
    case exchange =>
      cases own with
      | request channel peer task => cases hlocal
      | _ => rfl
    all_goals rfl
  have haction : action ≠ .sendRequest := by
    rintro rfl
    cases hlocal
  refine haccounted.move hmove rfl (by rw [hsubmitted, Function.update_eq_self])
    harrived.symm (fun _ _ ↦ rfl) (fun _ _ harrival ↦ harrival) ?_ ?_ ?_ (fun result hbrings ↦ ?_)
    fun answer hanswer ↦ List.mem_append.mp hanswer
  · exact haccounted.wired.grow rfl rfl rfl (List.Sublist.refl _)
      fun other ↦ (requests_of_update hmove haction other).ge
  · rintro own rfl
    cases own with
    | request channel peer task => cases hlocal
    | finish channel outcome =>
      intro job hjob
      obtain ⟨hexecutes, hreadable⟩ := hfaithful job hjob
      exact ⟨Or.inl ⟨outcome, hexecutes, rfl⟩, hreadable⟩
    | _ => trivial
  · cases action with
    | respond request result => cases hlocal
    | _ => trivial
  · cases action with
    | respond request other => cases hlocal
    | exchange own =>
      obtain ⟨peer, hforwarded⟩ := hbrings
      have hserving := haccounted.serving node
      obtain ⟨channel, hproduced⟩ := forwarded_produced hserving.sound hforwarded
      obtain ⟨task, hfound, -⟩ := hserving.produced channel result hproduced
      obtain ⟨arrival, harrival, -⟩ := Option.map_eq_some_iff.mp hfound
      exact ⟨(node, channel), arrival, ⟨harrival, hproduced⟩, Or.inr rfl⟩
    | _ => exact hbrings.elim

theorem Accounted.step {network next : Network} {label : Step}
    (haccounted : Accounted primitives nodeIds text forms hasExecutor network)
    (hfaithful : Faithful primitives nodeIds text forms network label)
    (hstep : step text forms hasExecutor network label = some next) :
    Accounted primitives nodeIds text forms hasExecutor next := by
  cases label with
  | submit node peer task =>
    obtain ⟨hnew, hnext⟩ := Option.ite_none_left_eq_some.mp hstep
    obtain ⟨acted, hact, rfl⟩ := Option.map_eq_some_iff.mp hnext
    exact haccounted.submit hnew hfaithful hact
  | sendRequest node =>
    obtain ⟨acted, hact, rfl⟩ := Option.map_eq_some_iff.mp hstep
    exact haccounted.sendRequest hact
  | arrive message channel =>
    obtain ⟨hmem, hnext⟩ := Option.ite_none_right_eq_some.mp hstep
    have hreadable := (haccounted.wired.readable _ _ (List.mem_of_getElem?
      (haccounted.wired.sent message hmem).submitted)).1
    exact haccounted.receive hmem (fun task htask ↦ hreadable.eq_of_transfer htask) hnext
  | answer request result =>
    obtain ⟨hmem, hnext⟩ := Option.ite_none_right_eq_some.mp hstep
    obtain rfl : _ = next := Option.some.inj hnext
    obtain ⟨key, arrival, hproduced, -⟩ := haccounted.answers (request, result) hmem
    have hreadable := (haccounted.answersTo hproduced).2
    exact haccounted.settle hmem fun other hother ↦ hreadable.eq_of_transfer hother
  | proceed node action =>
    obtain ⟨hlocal, hact⟩ := Option.ite_none_right_eq_some.mp hstep
    exact haccounted.proceed hlocal hfaithful hact

/-- Tasks with the same id arrived on the same channel. -/
theorem Accounted.key_eq {network : Network}
    (haccounted : Accounted primitives nodeIds text forms hasExecutor network)
    {one other : PeerId × ResponseChannel} {first second : Arrival}
    (hfirst : network.inbound one = some first) (hsecond : network.inbound other = some second)
    (hsame : first.task.taskId = second.task.taskId) : one = other :=
  haccounted.wired.inboundOnce one other first second hfirst hsecond
    (haccounted.wired.distinct _ _ _ _ (haccounted.wired.inbound one first hfirst).1.submitted
      (haccounted.wired.inbound other second hsecond).1.submitted hsame)

/-- Whatever nodes hold as the result of a task is the same. -/
theorem Accounted.results_agree {network : Network}
    (haccounted : Accounted primitives nodeIds text forms hasExecutor network)
    {one other : PeerId} {taskId : TaskId} {first second : ProjectResult}
    (hfirst : (network.worlds one).client.results.lookup taskId = some first)
    (hsecond : (network.worlds other).client.results.lookup taskId = some second) :
    first = second := by
  obtain ⟨hfirstId, firstKey, firstArrival, hfirst, -⟩ :=
    (haccounted.recording one).stored taskId first hfirst
  obtain ⟨hsecondId, secondKey, secondArrival, hsecond, -⟩ :=
    (haccounted.recording other).stored taskId second hsecond
  have hkey : firstKey = secondKey := by
    apply haccounted.key_eq hfirst.inbound hsecond.inbound
    rw [← (haccounted.answersTo hfirst).1.taskId_eq, ← (haccounted.answersTo hsecond).1.taskId_eq,
      hfirstId, hsecondId]
  have hproduced := hsecond.produced
  rw [← hkey] at hproduced
  have hentry := List.inj_on_of_nodup_map (haccounted.serving firstKey.1).once hfirst.produced
    hproduced rfl
  exact (Prod.mk.inj hentry).2

end Account

/-- In every run of faithful nodes a task is executed at most once, on the node it was sent to and
as it was submitted, and every request that reaches a node is answered at most once, and exactly
once in the end if its response channel stays open. What any node holds as the result of a task is
what came of executing it, or the refusal of a node without an executor, and all that hold one hold
the same. A node with nothing left to do holds a result for each of its tasks whose request did not
fail. -/
theorem tasks_run_once_and_results_agree {primitives : Primitives} {nodeIds : PeerId → NodeId}
    {text : SerdeReader} {forms : TextForms} {hasExecutor : PeerId → Bool} {steps : List Step}
    {network : Network}
    (hfaithful : Guarded (step text forms hasExecutor) (Faithful primitives nodeIds text forms) {}
      steps)
    (hrun : run (step text forms hasExecutor) {} steps = some network) :
    (∀ key arrival, network.inbound key = some arrival →
      (key.1, arrival.task) ∈ network.submissions arrival.request.1) ∧
    (∀ one other first second, network.inbound one = some first →
      network.inbound other = some second → first.task.taskId = second.task.taskId →
        one = other) ∧
    (∀ node, ExactlyOnce.AnswersOpenChannels (network.worlds node).exchange) ∧
    (∀ node taskId result, (network.worlds node).client.results.lookup taskId = some result →
      ∃ key arrival, network.inbound key = some arrival ∧ arrival.task.taskId = taskId ∧
        ResultOf primitives nodeIds hasExecutor key.1 arrival.task result ∧
          (node = arrival.request.1 ∨ node = key.1)) ∧
    (∀ one other taskId first second,
      (network.worlds one).client.results.lookup taskId = some first →
        (network.worlds other).client.results.lookup taskId = some second → first = second) ∧
    ∀ node, Idle (network.worlds node) → ∀ sent ∈ network.submissions node,
      sent.2.taskId ∈ (network.worlds node).client.results ∨
        sent.2.taskId ∈ (network.worlds node).failedDispatches := by
  have haccounted : Accounted primitives nodeIds text forms hasExecutor network :=
    invariant_of_guarded (Accounted primitives nodeIds text forms hasExecutor)
      (fun _ _ _ haccounted hguard hstep ↦ haccounted.step hguard hstep) accounted_start hfaithful
      hrun
  refine ⟨fun key arrival harrival ↦ ?_, fun _ _ _ _ ↦ haccounted.key_eq,
    fun node ↦ (haccounted.serving node).sound.answersOpenChannels,
    fun node taskId result hlookup ↦ ?_, fun _ _ _ _ _ ↦ haccounted.results_agree,
    fun node hidle sent hsent ↦ (haccounted.dispatching node).settled hidle hsent⟩
  · exact List.mem_of_getElem? (haccounted.wired.inbound key arrival harrival).1.submitted
  · obtain ⟨htaskId, key, arrival, hproduced, hside⟩ :=
      (haccounted.recording node).stored taskId result hlookup
    have hresult := (haccounted.answersTo hproduced).1
    exact ⟨key, arrival, hproduced.inbound, hresult.taskId_eq.symm.trans htaskId, hresult, hside⟩

/-! ## A task in each direction -/

def sampleTask (taskId : TaskId) : ProjectTask where
  taskId := taskId
  snapshot := ⟨"", [1]⟩
  workDir := "/root/project"
  buildCmd := []
  runCmd := ["./app"]
  timeoutMs := 1000
  resourceLimits := ⟨1024, 30000, 100, false, 64⟩
  pinnedNode := none

def refusal (taskId : TaskId) : ProjectResult :=
  projectFailure (sampleTask taskId) 101 noExecutorMessage

/-- What the second node makes of the task of the first. -/
def sampleResult : ProjectResult := ⟨5, 0, utf8 "ok\n", [], 1200, 3⟩

def sampleForms : TextForms := textFormsOf [5, 6, 3, 0] ⟨0⟩ ""

def sampleDocuments : List Json :=
  [(projectTask sampleForms).encode (sampleTask 5), (projectTask sampleForms).encode (sampleTask 6),
    (projectResult sampleForms).encode sampleResult,
    (projectResult sampleForms).encode (refusal 5), (projectResult sampleForms).encode (refusal 6)]

def sampleText : SerdeReader := textOf sampleDocuments

/-- The first node has no executor and the second has one. -/
def secondExecutes (peer : PeerId) : Bool := peer == ⟨[2]⟩

/-- Two nodes submit a task to each other. The request of the second is refused at once. -/
def bothSubmit : List Step :=
  [.submit ⟨[1]⟩ ⟨[2]⟩ (sampleTask 5), .proceed ⟨[1]⟩ (.insertDispatched 5), .sendRequest ⟨[1]⟩,
    .submit ⟨[2]⟩ ⟨[1]⟩ (sampleTask 6), .sendRequest ⟨[2]⟩, .proceed ⟨[2]⟩ (.insertDispatched 6),
    .arrive ⟨(⟨[2]⟩, 0), ⟨[1]⟩, sampleTask 6⟩ 0, .arrive ⟨(⟨[1]⟩, 0), ⟨[2]⟩, sampleTask 5⟩ 0]

/-- The second node executes its task, and both record the results. -/
def bothRecord : List Step :=
  [.proceed ⟨[2]⟩ (.exchange (.forward 0)), .proceed ⟨[2]⟩ (.exchange (.send 0)),
    .proceed ⟨[2]⟩ (.exchange .deliver), .answer (⟨[2]⟩, 0) (refusal 6),
    .proceed ⟨[2]⟩ .handleEvent, .proceed ⟨[2]⟩ .insertResult, .answer (⟨[1]⟩, 0) sampleResult,
    .proceed ⟨[1]⟩ .handleEvent, .proceed ⟨[1]⟩ .insertResult, .proceed ⟨[2]⟩ .handleEvent,
    .proceed ⟨[2]⟩ .insertResult]

theorem pairwise_apart_sampleDocuments : sampleDocuments.Pairwise Apart := by
  decide +kernel

theorem parseUuid_sampleForms {uuid : Uuid} (hmem : uuid ∈ [5, 6, 3, 0]) :
    sampleForms.parseUuid (Uuid.display uuid) = some uuid :=
  parseUuid_textFormsOf hmem

theorem readable_sampleTask {taskId : TaskId} (hmem : taskId ∈ [5, 6]) :
    Readable sampleText sampleForms .projectRequest (sampleTask taskId) where
  valid := by
    have huuid : sampleForms.parseUuid (Uuid.display taskId) = some taskId :=
      parseUuid_sampleForms (List.mem_append_left [3, 0] hmem)
    have hsnapshot : projectSnapshot.Valid (sampleTask taskId).snapshot :=
      ⟨trivial, fun _ _ ↦ trivial, trivial⟩
    have htimeout : (unsigned 64).Valid 1000 := (by decide : 1000 < 2 ^ 64)
    have hlimits : resourceLimits.Valid (sampleTask taskId).resourceLimits :=
      ⟨(by decide : 1024 < 2 ^ 64), (by decide : 30000 < 2 ^ 64), (by decide : 100 < 2 ^ 64),
        trivial, (by decide : 64 < 2 ^ 32), trivial⟩
    have hpinned : (option (uuid sampleForms)).Valid none := nofun
    exact ⟨huuid, hsnapshot, trivial, fun _ _ ↦ trivial, fun _ _ ↦ trivial, htimeout, hlimits,
      hpinned, trivial⟩
  readsBack := by
    apply readsBack_textOf pairwise_apart_sampleDocuments
    rcases List.mem_pair.mp hmem with rfl | rfl
    · exact List.mem_cons_self
    · exact List.mem_cons_of_mem _ List.mem_cons_self

theorem readable_projectResult {result : ProjectResult}
    (htask : result.taskId ∈ [5, 6, 3, 0]) (hnode : result.executedOn ∈ [5, 6, 3, 0])
    (hcode : (signed 32).Valid result.exitCode)
    (htime : (unsigned 64).Valid result.executionTimeMs)
    (hmem : (projectResult sampleForms).encode result ∈ sampleDocuments) :
    Readable sampleText sampleForms .projectResponse result where
  valid := ⟨parseUuid_sampleForms htask, hcode, fun _ _ ↦ trivial, fun _ _ ↦ trivial, htime,
    parseUuid_sampleForms hnode, trivial⟩
  readsBack := readsBack_textOf pairwise_apart_sampleDocuments hmem

theorem readable_sampleResult : Readable sampleText sampleForms .projectResponse sampleResult :=
  readable_projectResult (by decide) (by decide) ⟨by decide, by decide⟩
    (by decide : 1200 < 2 ^ 64) (by simp [sampleDocuments])

theorem readable_refusal {taskId : TaskId} (hmem : taskId ∈ [5, 6]) :
    Readable sampleText sampleForms .projectResponse (refusal taskId) := by
  have hcode : (signed 32).Valid 101 := ⟨by decide, by decide⟩
  refine readable_projectResult (List.mem_append_left [3, 0] hmem) (by decide : (0 : NodeId) ∈ _)
    hcode (by decide : 0 < 2 ^ 64) ?_
  rcases List.mem_pair.mp hmem with rfl | rfl <;> simp [sampleDocuments]

theorem arrive_sampleTask {taskId : TaskId} (hmem : taskId ∈ [5, 6]) (network : Network)
    (request : RequestId) (executor : PeerId) (channel : ResponseChannel) :
    step sampleText sampleForms secondExecutes network
        (.arrive ⟨request, executor, sampleTask taskId⟩ channel) =
      if ⟨request, executor, sampleTask taskId⟩ ∈ network.sent then
        receive secondExecutes network ⟨request, executor, sampleTask taskId⟩ channel
          (.ok (sampleTask taskId))
      else none := by
  have htask : transfer sampleText sampleForms .projectRequest (sampleTask taskId) =
      .ok (sampleTask taskId) := by
    apply transfer_of_fits (readable_sampleTask hmem)
    change (utf8 (compact ((projectTask sampleForms).encode (sampleTask taskId)))).length ≤ _
    rw [utf8_compact]
    rcases List.mem_pair.mp hmem with rfl | rfl <;> decide +kernel
  rw [step, htask]

theorem answer_of_readable {result : ProjectResult}
    (hreadable : Readable sampleText sampleForms .projectResponse result)
    (hlength : outputLength result + 48 ≤ 16 * 1024 * 1024) (network : Network)
    (request : RequestId) :
    step sampleText sampleForms secondExecutes network (.answer request result) =
      if (request, result) ∈ network.answers then
        some (settle secondExecutes network (request, result) (.ok result))
      else none := by
  have hresult : transfer sampleText sampleForms .projectResponse result = .ok result :=
    transfer_of_fits hreadable ((fitsResponse_of_valid hreadable.valid).1 hlength)
  rw [step, hresult]

theorem exists_run_bothSubmit : ∃ network,
    run (step sampleText sampleForms secondExecutes) {} bothSubmit = some network ∧
      (network.worlds ⟨[2]⟩).exchange.jobs 0 = some { peer := ⟨[1]⟩, task := sampleTask 5 } ∧
      ∃ final, run (step sampleText sampleForms secondExecutes) network
        (.proceed ⟨[2]⟩ (.exchange (.finish 0 (.ok sampleResult))) :: bothRecord) =
          some final ∧
        (final.worlds ⟨[1]⟩).client.results.lookup 5 = some sampleResult ∧
        (final.worlds ⟨[2]⟩).client.results.lookup 5 = some sampleResult ∧
        (final.worlds ⟨[2]⟩).client.results.lookup 6 = some (refusal 6) := by
  have hfirst : (5 : TaskId) ∈ [5, 6] := by decide
  have hsecond : (6 : TaskId) ∈ [5, 6] := by decide
  simp only [bothSubmit, bothRecord, run_cons, arrive_sampleTask hfirst, arrive_sampleTask hsecond,
    answer_of_readable readable_sampleResult (by decide),
    answer_of_readable (readable_refusal hsecond) (by decide)]
  exact ⟨_, rfl, rfl, _, rfl, rfl, rfl, rfl⟩

theorem tasks_run_once_and_results_agree_bothSubmit :
    ∃ network, run (step sampleText sampleForms secondExecutes) {}
        (bothSubmit ++ .proceed ⟨[2]⟩ (.exchange (.finish 0 (.ok sampleResult))) :: bothRecord) =
          some network ∧
      (network.worlds ⟨[1]⟩).client.results.lookup 5 = some sampleResult ∧
      (network.worlds ⟨[2]⟩).client.results.lookup 6 = some (refusal 6) ∧
      ∀ node taskId result, (network.worlds node).client.results.lookup taskId = some result →
        ∃ key arrival, network.inbound key = some arrival ∧ arrival.task.taskId = taskId ∧
          ResultOf tabulated (fun _ ↦ 3) secondExecutes key.1 arrival.task result ∧
            (node = arrival.request.1 ∨ node = key.1) := by
  obtain ⟨middle, hsubmit, hjob, final, hrecord, hfirst, -, hsecond⟩ := exists_run_bothSubmit
  have hrun : run (step sampleText sampleForms secondExecutes) {}
      (bothSubmit ++ .proceed ⟨[2]⟩ (.exchange (.finish 0 (.ok sampleResult))) :: bothRecord) =
        some final := by
    rw [run_append, hsubmit, Option.bind_some, hrecord]
  have hexecutes : Executes tabulated (fun _ ↦ 3) ⟨[2]⟩ (sampleTask 5) (.ok sampleResult) :=
    ⟨fun _ _ ↦ .ok (), ⟨[], ∅⟩, .ok [], .ok [], .ok ⟨0, utf8 "ok\n", [], 1200, 0, none⟩,
      .ok sampleResult⟩
  have htask : Readable sampleText sampleForms .projectRequest (sampleTask 5) ∧
      Readable sampleText sampleForms .projectResponse (refusal 5) :=
    ⟨readable_sampleTask (by decide), readable_refusal (by decide)⟩
  have hother : Readable sampleText sampleForms .projectRequest (sampleTask 6) ∧
      Readable sampleText sampleForms .projectResponse (refusal 6) :=
    ⟨readable_sampleTask (by decide), readable_refusal (by decide)⟩
  have hfaithful : Guarded (step sampleText sampleForms secondExecutes)
      (Faithful tabulated (fun _ ↦ 3) sampleText sampleForms) {}
      (bothSubmit ++
        .proceed ⟨[2]⟩ (.exchange (.finish 0 (.ok sampleResult))) :: bothRecord) := by
    refine (guarded_append hsubmit).mpr ⟨?_, fun next hstep ↦ ⟨?_, ?_⟩⟩
    · refine fun _ _ ↦ ⟨htask, fun _ _ ↦ ⟨trivial, fun _ _ ↦ ⟨trivial, fun _ _ ↦ ⟨hother, ?_⟩⟩⟩⟩
      exact guarded_of_forall_mem fun _ label hmem ↦ by
        simp only [List.mem_cons, List.not_mem_nil, or_false] at hmem
        rcases hmem with rfl | rfl | rfl | rfl <;> trivial
    · intro job hfound
      obtain rfl := Option.some.inj (hjob.symm.trans hfound)
      exact ⟨hexecutes, readable_sampleResult⟩
    · exact guarded_of_forall_mem fun _ label hmem ↦ by
        simp only [bothRecord, List.mem_cons, List.not_mem_nil, or_false] at hmem
        rcases hmem with rfl | rfl | rfl | rfl | rfl | rfl | rfl | rfl | rfl | rfl | rfl <;> trivial
  exact ⟨final, hrun, hfirst, hsecond,
    (tasks_run_once_and_results_agree hfaithful hrun).2.2.2.1⟩

end EdgeOrchestrator.Wire.ProjectNetwork
