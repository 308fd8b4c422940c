import EdgeOrchestrator.Agent.PlanReplies

/-!
# The attempts of a run

The agent looks at a workspace and makes a plan. A dry run prints the plan and ends. Otherwise the
agent submits it, and after a failure a plan that a language model has revised, until a run
succeeds, the attempts are used up or there is no revised plan. What the file system shows, what the
model replies, and what each submission returns, are inputs. Only the last result decides the exit
status.
-/

namespace EdgeOrchestrator.Agent

open BoundedRounds Node

/-- `result["exit_code"].as_i64().unwrap_or(-1)` -/
def exitCodeOf (result : Json) : ℤ :=
  match index result "exit_code" with
  | .integer code => if -2 ^ 63 ≤ code ∧ code < 2 ^ 63 then code else -1
  | _ => -1

/-- What one run of the agent gets from outside: its arguments, the file system, the replies of the
language model if one is configured, and the submissions. -/
structure Session where
  formats : Formats
  workspace : String
  dryRun : Bool
  maxAttempts : ℕ
  canonicalize : String → Except String String
  isDir : String → Bool
  scanWorkspace : String → Except String WorkspaceInfo
  llmEnabled : Bool
  planReply : Except String String
  reviseReply : ℕ → Except String String
  submit : ℕ → Plan → Except String Json

namespace Session

variable (session : Session)

/-- The workspace that is named, which has to be a directory. -/
def workspaceInfo : Except String WorkspaceInfo :=
  match session.canonicalize session.workspace with
  | .error _ => .error ("workspace not found: " ++ session.workspace)
  | .ok workspace =>
    if session.isDir workspace then session.scanWorkspace workspace
    else .error ("workspace is not a directory: " ++ workspace)

section Rounds

variable (info : WorkspaceInfo)

/-- A reply of the language model as a plan. -/
def readReply : Except String String → Except String Plan
  | .error error => .error error
  | .ok content => parsePlan session.formats content info

/-- The plan of the first attempt: that of the model, or the heuristic one. -/
def firstPlan : Plan :=
  if session.llmEnabled then
    match session.readReply info session.planReply with
    | .ok plan => plan
    | .error _ => heuristicPlan info
  else heuristicPlan info

def attempts : ℕ := max session.maxAttempts 1

/-- One attempt: the run ends with an error or a last result, or goes on with another plan. -/
def attempt (round : ℕ) (plan : Plan) : Except String Json ⊕ Plan :=
  match session.submit round plan with
  | .error error => .inl (.error error)
  | .ok result =>
    if exitCodeOf result = 0 then .inl (.ok result)
    else if round + 1 = session.attempts then .inl (.ok result)
    else if session.llmEnabled then
      match session.readReply info (session.reviseReply round) with
      | .ok plan => .inr plan
      | .error _ => .inl (.ok result)
    else .inl (.ok result)

/-- The last result of the attempts, or the error that ends them. -/
def lastResult : Except String Json :=
  BoundedRounds.run (session.attempt info) (fun _ ↦ .ok .null) session.attempts 0
    (session.firstPlan info)

end Rounds

def exitStatus : ℕ :=
  match session.workspaceInfo with
  | .error _ => 1
  | .ok info =>
    if session.dryRun then 0
    else
      match session.lastResult info with
      | .error _ => 1
      | .ok result => if exitCodeOf result = 0 then 0 else 1

/-- An attempt submits a plan. -/
def Submits (round : ℕ) (plan : Plan) : Prop :=
  session.dryRun = false ∧ ∃ info, session.workspaceInfo = .ok info ∧
    Begins (session.attempt info) (session.firstPlan info) round plan

/-- The run ends with a status before anything is submitted. -/
structure EndsEarly (status : ℕ) : Prop where
  submitsNothing : ∀ round plan, ¬ session.Submits round plan
  status : session.exitStatus = status

/-- What a run of the agent is: the first plan and revisions of plans that failed are submitted in
turn, within the limit, up to a last one whose result decides the exit status. -/
structure EndsWith (info : WorkspaceInfo) (last : ℕ) (plan : Plan) : Prop where
  submitted : session.Submits last plan
  within : last < max session.maxAttempts 1
  rounds : ∀ round, (∃ other, session.Submits round other) ↔ round ≤ last
  first : session.Submits 0 (session.firstPlan info)
  runs : ∀ round other, session.Submits round other → other.runCmd ≠ []
  revised : ∀ round < last, session.llmEnabled = true ∧ ∃ failed result next,
    session.Submits round failed ∧ session.submit round failed = .ok result ∧
      exitCodeOf result ≠ 0 ∧ session.readReply info (session.reviseReply round) = .ok next ∧
        session.Submits (round + 1) next
  result : session.lastResult info = session.submit last plan
  status : session.exitStatus = 0 ↔
    ∃ result, session.submit last plan = .ok result ∧ exitCodeOf result = 0

end Session

/-- The heuristic plan has something to run. -/
theorem runCmd_heuristicPlan (info : WorkspaceInfo) : (heuristicPlan info).runCmd ≠ [] := by
  unfold heuristicPlan
  dsimp only
  split
  · exact List.cons_ne_nil _ _
  · split
    · exact List.cons_ne_nil _ _
    · split
      · exact List.cons_ne_nil _ _
      · split
        · exact List.cons_ne_nil _ _
        · split
          · exact List.cons_ne_nil _ _
          · exact List.cons_ne_nil _ _

namespace Session

variable {session : Session} {info : WorkspaceInfo}

theorem runCmd_of_readReply {reply : Except String String} {plan : Plan}
    (hread : session.readReply info reply = .ok plan) : plan.runCmd ≠ [] := by
  cases reply with
  | error error => cases hread
  | ok content => exact runCmd_of_parsePlan hread

theorem runCmd_firstPlan (session : Session) (info : WorkspaceInfo) :
    (session.firstPlan info).runCmd ≠ [] := by
  unfold firstPlan
  split
  · split
    · rename_i hread
      exact runCmd_of_readReply hread
    · exact runCmd_heuristicPlan info
  · exact runCmd_heuristicPlan info

/-- What ends the attempts is what the submission returned. -/
theorem submit_of_attempt {round : ℕ} {plan : Plan} {ended : Except String Json}
    (hattempt : session.attempt info round plan = .inl ended) : session.submit round plan = ended := by
  unfold attempt at hattempt
  split at hattempt
  · rename_i hsubmit
    rw [hsubmit, Sum.inl.inj hattempt]
  · rename_i result hsubmit
    rw [hsubmit]
    split_ifs at hattempt
    · exact Sum.inl.inj hattempt
    · exact Sum.inl.inj hattempt
    · split at hattempt
      · cases hattempt
      · exact Sum.inl.inj hattempt
    · exact Sum.inl.inj hattempt

/-- When another attempt follows: after a failure, before the limit, with a revised plan. -/
theorem revised_of_attempt {round : ℕ} {plan next : Plan}
    (hattempt : session.attempt info round plan = .inr next) :
    (∃ result, session.submit round plan = .ok result ∧ exitCodeOf result ≠ 0) ∧
      round + 1 ≠ session.attempts ∧ session.llmEnabled = true ∧
      session.readReply info (session.reviseReply round) = .ok next := by
  unfold attempt at hattempt
  split at hattempt
  · cases hattempt
  · rename_i result hsubmit
    split_ifs at hattempt with hcode hlast hllm
    split at hattempt
    · rename_i hread
      rw [← Sum.inr.inj hattempt]
      exact ⟨⟨result, hsubmit, hcode⟩, hlast, hllm, hread⟩
    · cases hattempt

/-- Every attempt that begins is within the limit and has something to run. -/
theorem submits_of_begins {round : ℕ} {plan : Plan}
    (hbegins : Begins (session.attempt info) (session.firstPlan info) round plan) :
    round < session.attempts ∧ plan.runCmd ≠ [] := by
  refine hbegins.invariant (fun round plan ↦ round < session.attempts ∧ plan.runCmd ≠ [])
    ⟨lt_of_lt_of_le Nat.one_pos (le_max_right _ _), session.runCmd_firstPlan info⟩ ?_
  intro round plan next hholds hattempt
  obtain ⟨-, hlast, -, hread⟩ := revised_of_attempt hattempt
  exact ⟨lt_of_le_of_ne hholds.1 hlast, runCmd_of_readReply hread⟩

/-- There is a last attempt, and what it returns is what the agent makes its exit status of. -/
theorem exists_last (session : Session) (info : WorkspaceInfo) : ∃ last plan,
    Begins (session.attempt info) (session.firstPlan info) last plan ∧
      session.attempt info last plan = .inl (session.submit last plan) ∧
      session.lastResult info = session.submit last plan := by
  rcases ends_or_exhausted (session.attempt info) (session.firstPlan info) session.attempts with
    ⟨last, hlast, plan, ended, hbegins, hends⟩ | ⟨plan, hbegins⟩
  · have hsubmit := submit_of_attempt hends
    refine ⟨last, plan, hbegins, hsubmit ▸ hends, ?_⟩
    rw [hsubmit]
    exact hbegins.run_of_inl hlast hends
  · exact absurd (submits_of_begins hbegins).1 (lt_irrefl _)

/-- No attempt follows one that ends the run. -/
theorem le_of_begins {round last : ℕ} {plan other : Plan} {ended : Except String Json}
    (hlast : Begins (session.attempt info) (session.firstPlan info) last plan)
    (hends : session.attempt info last plan = .inl ended)
    (hbegins : Begins (session.attempt info) (session.firstPlan info) round other) : round ≤ last := by
  by_contra hlater
  obtain ⟨same, next, hsame, hstep⟩ := hbegins.earlier (Nat.lt_of_not_le hlater)
  rw [hsame.unique hlast, hends] at hstep
  cases hstep

theorem submits_iff (hfound : session.workspaceInfo = .ok info) (hdryRun : session.dryRun = false)
    (round : ℕ) (plan : Plan) :
    session.Submits round plan ↔
      Begins (session.attempt info) (session.firstPlan info) round plan := by
  constructor
  · rintro ⟨-, other, hother, hbegins⟩
    rwa [Except.ok.inj (hfound.symm.trans hother)]
  · intro hbegins
    exact ⟨hdryRun, info, hfound, hbegins⟩

/-- A run of the agent that is not dry ends with some attempt. -/
theorem exists_endsWith (hfound : session.workspaceInfo = .ok info)
    (hdryRun : session.dryRun = false) : ∃ last plan, session.EndsWith info last plan := by
  obtain ⟨last, plan, hbegins, hends, hresult⟩ := session.exists_last info
  have hsubmits := submits_iff hfound hdryRun
  refine ⟨last, plan, (hsubmits _ _).mpr hbegins, (submits_of_begins hbegins).1, ?_,
    (hsubmits _ _).mpr .start,
    fun round other hother ↦ (submits_of_begins ((hsubmits _ _).mp hother)).2, ?_, hresult, ?_⟩
  · intro round
    simp only [hsubmits]
    constructor
    · rintro ⟨other, hother⟩
      exact le_of_begins hbegins hends hother
    · intro hround
      rcases Nat.lt_or_eq_of_le hround with hlt | rfl
      · obtain ⟨earlier, -, hearlier, -⟩ := hbegins.earlier hlt
        exact ⟨earlier, hearlier⟩
      · exact ⟨plan, hbegins⟩
  · intro round hround
    simp only [hsubmits]
    obtain ⟨failed, next, hfailed, hstep⟩ := hbegins.earlier hround
    obtain ⟨⟨result, hsubmit, hcode⟩, -, hllm, hread⟩ := revised_of_attempt hstep
    exact ⟨hllm, failed, result, next, hfailed, hsubmit, hcode, hread, hfailed.again hstep⟩
  · rw [exitStatus, hfound]
    dsimp only
    rw [hdryRun, if_neg Bool.false_ne_true, hresult]
    cases session.submit last plan with
    | error error => simp
    | ok result => simp

/-- A run of the agent fails without a workspace, ends with its plan when it is dry, and ends with
some attempt otherwise. -/
theorem endsEarly_or_endsWith (session : Session) :
    match session.workspaceInfo with
    | .error _ => session.EndsEarly 1
    | .ok info =>
      if session.dryRun then session.EndsEarly 0
      else ∃ last plan, session.EndsWith info last plan := by
  cases hfound : session.workspaceInfo with
  | error error =>
    refine ⟨?_, by rw [exitStatus, hfound]⟩
    rintro round plan ⟨-, info, hother, -⟩
    cases hfound.symm.trans hother
  | ok info =>
    dsimp only
    split_ifs with hdryRun
    · refine ⟨fun round plan hsubmits ↦ ?_, ?_⟩
      · cases hdryRun.symm.trans hsubmits.1
      · rw [exitStatus, hfound]
        exact if_pos hdryRun
    · exact exists_endsWith hfound (Bool.eq_false_iff.mpr hdryRun)

end Session

end EdgeOrchestrator.Agent
