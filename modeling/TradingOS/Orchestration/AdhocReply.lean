import TradingOS.Orchestration.RunLifecycle

namespace TradingOS.Orchestration.AdhocReply

/-- What is raised, with its text; chat handles `NoProviderAvailableError` as it does the rest. -/
inductive Raised
  | noProviderAvailable (text : String)
  | other (text : String)

def Raised.text : Raised → String
  | noProviderAvailable text => text
  | other text => text

inductive ReplyStatus
  | pending | completed | failed
  deriving DecidableEq

structure ChatMessage where
  content : String
  status : ReplyStatus
  error : Option String

def ChatMessage.reply (content : String) (status : ReplyStatus) (m : ChatMessage) : ChatMessage :=
  { m with content := content, status := status }

def ChatMessage.fail (error : String) (_ : ChatMessage) : ChatMessage := ⟨"", .failed, some error⟩

/-- The assistant's row, with two history variables: what has been stored in it, and what the
callback has been called with. -/
structure Chat where
  message : Option ChatMessage
  stored : List ChatMessage
  calls : List (String × ReplyStatus)

namespace Chat

/-- The row that waits for its reply. -/
def begin : Chat := ⟨some ⟨"", .pending, none⟩, [], []⟩

def store (f : ChatMessage → ChatMessage) (c : Chat) : Chat :=
  match c.message with
  | none => c
  | some m => { c with message := some (f m), stored := c.stored ++ [f m] }

def call (reply : String) (status : ReplyStatus) (c : Chat) : Chat :=
  { c with calls := c.calls ++ [(reply, status)] }

end Chat

/-- How opening a session, reading the row and committing it ends: a commit that raises may have
been applied. -/
inductive WriteOutcome
  | committed
  | raises (applied : Bool) (e : Raised)

/-- `on_complete`, which may raise. -/
abbrev Callback := String → ReplyStatus → Except Raised Unit

abbrev M := ExceptT Raised (StateM Chat)

def storeMessage (write : WriteOutcome) (f : ChatMessage → ChatMessage) : M Unit :=
  match write with
  | .committed => modify (Chat.store f)
  | .raises applied e => do
    if applied then modify (Chat.store f)
    throw e

def notify (onComplete : Option Callback) (reply : String) (status : ReplyStatus) : M Unit :=
  match onComplete with
  | none => pure ()
  | some callback => do
    modify (Chat.call reply status)
    MonadExcept.ofExcept (callback reply status)

structure Classification where
  actionable : Bool
  objective : Option String

/-- The fallback of the classifier: answer directly. -/
def classifyMessage : Except Raised Classification → Classification
  | .ok classification => classification
  | .error _ => ⟨false, none⟩

inductive RunSource
  | web | schedule | telegram | discord | slack | api
  deriving DecidableEq

def RunSource.ofChannel (channel : String) : RunSource :=
  match channel.toLower with
  | "web" => .web
  | "schedule" => .schedule
  | "telegram" => .telegram
  | "discord" => .discord
  | "slack" => .slack
  | _ => .api

inductive ArtefactType
  | ceoSynthesis | adHocAnalysis
  deriving DecidableEq

/-- A value of a payload: its text, and whether it counts as true. -/
structure PayloadValue where
  text : String
  truthy : Bool

structure ResultArtefact where
  artefactType : ArtefactType
  payload : String → Option PayloadValue

def ResultArtefact.get (artefact : ResultArtefact) (key : String) : PayloadValue :=
  (artefact.payload key).getD ⟨"", false⟩

def ResultArtefact.body (artefact : ResultArtefact) : String :=
  match artefact.artefactType with
  | .adHocAnalysis => (artefact.get "answer").text
  | .ceoSynthesis =>
    let summary := (artefact.get "summary").text
    let recommendation := artefact.get "recommendation"
    let text := recommendation.text
    if recommendation.truthy then s!"{summary}\n\nRecommendation: {text}" else summary

/-- What `_compose_reply` reads: whether there is such a run, its last synthesis, and the reason of
its last decision that it cannot be planned. -/
structure RunRecords where
  run : Except Raised Bool
  synthesis : Except Raised (Option ResultArtefact)
  cannotPlan : Except Raised (Option String)

/-- How everything that the thread depends on turns out. `complete` is building the messages and the
call that answers them; an answer without content raises, as its column refuses it. -/
structure Outcomes where
  classifier : Except Raised Classification
  createRun : String → RunSource → Option String → Except Raised String
  polls : List (Except Raised (Option RunStatus))
  records : RunRecords
  runWrite : WriteOutcome
  agentEnabled : Except Raised Bool
  disabledWrite : WriteOutcome
  complete : Except Raised String
  replyWrite : WriteOutcome
  failedWrite : WriteOutcome

def maybeRouteToOrganization (o : Outcomes) (channel : String) (requestedBy : Option String) :
    Except Raised (Option String) :=
  let classification := classifyMessage o.classifier
  if classification.actionable then
    match classification.objective with
    | none | some "" => .ok none
    | some objective =>
      (o.createRun objective (.ofChannel channel) requestedBy).map some
  else .ok none

/-- The polls until one sees the run at its end, or until the deadline. -/
def awaitRun : Option RunStatus → List (Except Raised (Option RunStatus)) →
    Except Raised (Option RunStatus)
  | status, [] => .ok status
  | _, .error e :: _ => .error e
  | _, .ok status :: polls =>
    if status.any RunStatus.isTerminal then .ok status else awaitRun status polls

def composeReply (runId : String) (records : RunRecords) (status : Option RunStatus) :
    Except Raised (String × ReplyStatus) := do
  let found ← records.run
  if found then
    match status with
    | some .completed =>
      match ← records.synthesis with
      | none =>
        return (s!"[Organization Run {runId}] Completed, but produced no synthesis artefact.",
          .completed)
      | some synthesis =>
        let body := synthesis.body
        return (s!"[Organization Run {runId}]\n{body}", .completed)
    | some .cannotPlan =>
      let reason := (← records.cannotPlan).getD "the objective is unservable"
      return (s!"The organisation could not plan this objective: {reason}", .failed)
    | some .failed =>
      return (s!"[Organization Run {runId}] ended 'failed' -- see the console for details.",
        .failed)
    | some .cancelled =>
      return (s!"[Organization Run {runId}] ended 'cancelled' -- see the console for details.",
        .failed)
    | _ =>
      return (s!"[Organization Run {runId}] is still running; check the Command Center for " ++
        "live progress.", .completed)
  else return ("The organisation run for this request could not be found.", .failed)

section Threads

variable (o : Outcomes) (onComplete : Option Callback)

def watchRunAndReply (runId : String) : M Unit := do
  let status ← MonadExcept.ofExcept (awaitRun none o.polls)
  let (reply, chatStatus) ← MonadExcept.ofExcept (composeReply runId o.records status)
  storeMessage o.runWrite (ChatMessage.reply reply chatStatus)
  notify onComplete reply chatStatus

/-- The block that a disabled agent and both handlers share. -/
def storeFailure (write : WriteOutcome) (error : String) : M Unit := do
  storeMessage write (ChatMessage.fail error)
  notify onComplete "" .failed

/-- The body of the `try`, where the callback is called too. -/
def storeReply : M Unit := do
  let reply ← MonadExcept.ofExcept o.complete
  storeMessage o.replyWrite (ChatMessage.reply reply .completed)
  notify onComplete reply .completed

def generateAndStoreReply : M Unit := do
  let enabled ← MonadExcept.ofExcept o.agentEnabled
  if enabled then
    try
      storeReply o onComplete
    catch exc =>
      storeFailure onComplete o.failedWrite exc.text
  else
    storeFailure onComplete o.disabledWrite "ceo_agent_chat is administratively disabled"

def classifyAndDispatch (channel : String) (requestedBy : Option String) : M Unit := do
  match ← MonadExcept.ofExcept (maybeRouteToOrganization o channel requestedBy) with
  | some runId => watchRunAndReply o onComplete runId
  | none => generateAndStoreReply o onComplete

end Threads

/-- What `_on_complete` of the webhooks depends on; the skill's own exceptions are all swallowed. -/
structure Delivery where
  agentEnabled : Except Raised Bool
  execute : Except Raised Unit
  markResponseSent : Except Raised Unit

def webhookOnComplete (d : Delivery) : Callback := fun reply status ↦
  if status ≠ .completed ∨ reply = "" then .ok ()
  else do
    if ← d.agentEnabled then
      match d.execute with
      | .ok () => d.markResponseSent
      | .error _ => .ok ()

/-- The reply is resolved once: the row waits no longer, the callback, if there is one, was called
once with what the row holds, and nothing overwrote a completed reply as failed. -/
def ResolvedOnce (onComplete : Option Callback) (c : Chat) : Prop :=
  ∃ m, c.message = some m ∧ m.status ≠ .pending ∧
    (onComplete.isSome → c.calls = [(m.content, m.status)]) ∧
    c.stored.Pairwise fun m m' ↦ m.status = .completed → m'.status ≠ .failed

/-- The row is written, and then the callback is called, if there is one. -/
def Told (onComplete : Option Callback) : WriteOutcome → Prop
  | .committed => True
  | .raises applied _ => applied = true ∧ onComplete = none

def WriteOutcome.Lost (write : WriteOutcome) : Prop := ∃ e, write = .raises false e

/-- No poll raises before one has seen the run at its end. -/
def Answered (polls : List (Except Raised (Option RunStatus))) : Prop :=
  ∀ pre e post, polls = pre ++ .error e :: post →
    ∃ status : RunStatus, .ok (some status) ∈ pre ∧ status.isTerminal

def RunRecords.Readable (records : RunRecords) (status : Option RunStatus) : Prop :=
  records.run.isOk ∧ (records.run = .ok true →
    (status = some .completed → records.synthesis.isOk) ∧
      (status = some .cannotPlan → records.cannotPlan.isOk))

/-- The run is watched to its end, its reply can be composed, and gets through. -/
structure RepliedByRun (o : Outcomes) (onComplete : Option Callback) : Prop where
  answered : Answered o.polls
  readable : ∀ status, awaitRun none o.polls = .ok status → o.records.Readable status
  told : Told onComplete o.runWrite

/-- What must turn out well for an answer that no run gives. After a reply was stored, the handler
must not be reached, or fail to write. -/
def RepliedDirectly (o : Outcomes) (onComplete : Option Callback) : Prop :=
  match o.agentEnabled with
  | .error _ => False
  | .ok false => Told onComplete o.disabledWrite
  | .ok true =>
    match o.complete, o.replyWrite with
    | .ok reply, .committed =>
      (∀ callback, onComplete = some callback → (callback reply .completed).isOk) ∨
        o.failedWrite.Lost
    | .ok _, .raises true _ => onComplete = none ∧ o.failedWrite.Lost
    | _, _ => Told onComplete o.failedWrite

def Replied (o : Outcomes) (onComplete : Option Callback) (channel : String)
    (requestedBy : Option String) : Prop :=
  match maybeRouteToOrganization o channel requestedBy with
  | .error _ => False
  | .ok (some _) => RepliedByRun o onComplete
  | .ok none => RepliedDirectly o onComplete

section Exec

variable {α β : Type} {onComplete : Option Callback} {c : Chat}

/-- What a thread returns or raises, and what it leaves. -/
def exec (m : M α) (c : Chat) : Except Raised α × Chat := m.run.run c

theorem exec_bind (m : M α) (k : α → M β) :
    exec (m >>= k) c =
      match exec m c with
      | (.ok a, c') => exec (k a) c'
      | (.error e, c') => (.error e, c') := by
  simp only [exec, ExceptT.run_bind, StateT.run_bind]
  rcases h : (m.run).run c with ⟨_ | _, c'⟩ <;> rfl

theorem exec_ofExcept (x : Except Raised α) : exec (MonadExcept.ofExcept x) c = (x, c) := by
  cases x <;> rfl

theorem exec_tryCatch (m : M α) (handler : Raised → M α) :
    exec (tryCatch m handler) c =
      match exec m c with
      | (.ok a, c') => (.ok a, c')
      | (.error e, c') => exec (handler e) c' := by
  simp only [exec, ExceptT.run_tryCatch, StateT.run_bind]
  rcases h : (m.run).run c with ⟨_ | _, c'⟩ <;> rfl

theorem exec_storeMessage (write : WriteOutcome) (f : ChatMessage → ChatMessage) :
    exec (storeMessage write f) c =
      match write with
      | .committed => (.ok (), c.store f)
      | .raises true e => (.error e, c.store f)
      | .raises false e => (.error e, c) := by
  rcases write with _ | ⟨_ | _, e⟩ <;> rfl

theorem exec_notify (reply : String) (status : ReplyStatus) :
    exec (notify onComplete reply status) c =
      match onComplete with
      | none => (.ok (), c)
      | some callback => (callback reply status, c.call reply status) := by
  rcases onComplete with _ | callback
  · rfl
  · cases h : callback reply status <;> simp only [notify, h] <;> rfl

end Exec

section Run

variable {polls : List (Except Raised (Option RunStatus))} {records : RunRecords}

theorem answered_cons_ok {status : Option RunStatus} :
    Answered (.ok status :: polls) ↔ status.any RunStatus.isTerminal ∨ Answered polls := by
  constructor
  · intro h
    refine or_iff_not_imp_left.mpr fun hrunning pre e post hpolls ↦ ?_
    obtain ⟨s, hs, hterminal⟩ := h (.ok status :: pre) e post (by rw [hpolls, List.cons_append])
    rcases List.mem_cons.mp hs with hs | hs
    · rw [Except.ok.injEq] at hs
      exact absurd (hs ▸ hterminal) hrunning
    · exact ⟨s, hs, hterminal⟩
  · rintro h pre e post hpolls
    cases pre with
    | nil => cases hpolls
    | cons poll pre =>
      obtain ⟨rfl, hrest⟩ := List.cons_eq_cons.mp hpolls
      rcases h with hterminal | h
      · cases status with
        | none => cases hterminal
        | some s => exact ⟨s, List.mem_cons_self, hterminal⟩
      · obtain ⟨s, hs, hterminal⟩ := h pre e post hrest
        exact ⟨s, List.mem_cons_of_mem _ hs, hterminal⟩

theorem awaitRun_isOk_iff (status : Option RunStatus) :
    (awaitRun status polls).isOk ↔ Answered polls := by
  induction polls generalizing status with
  | nil => exact iff_of_true rfl (by simp [Answered])
  | cons poll polls ih =>
    cases poll with
    | error e =>
      refine iff_of_false nofun fun h ↦ ?_
      obtain ⟨s, hs, -⟩ := h [] e polls rfl
      cases hs
    | ok seen =>
      rw [awaitRun, answered_cons_ok]
      split_ifs with hterminal
      · exact iff_of_true rfl (.inl hterminal)
      · rw [ih, or_iff_right hterminal]

theorem composeReply_isOk_iff (runId : String) (status : Option RunStatus) :
    (composeReply runId records status).isOk ↔ records.Readable status := by
  obtain ⟨run, synthesis, cannotPlan⟩ := records
  rcases run with e | _ | _
  · exact iff_of_false nofun fun h ↦ nomatch h.1
  · exact iff_of_true rfl ⟨rfl, nofun⟩
  · rcases status with _ | status
    · exact iff_of_true rfl ⟨rfl, fun _ ↦ ⟨nofun, nofun⟩⟩
    · cases status with
      | completed =>
        rcases synthesis with e | _ | synthesis
        · exact iff_of_false nofun fun h ↦ nomatch (h.2 rfl).1 rfl
        · exact iff_of_true rfl ⟨rfl, fun _ ↦ ⟨fun _ ↦ rfl, nofun⟩⟩
        · exact iff_of_true rfl ⟨rfl, fun _ ↦ ⟨fun _ ↦ rfl, nofun⟩⟩
      | cannotPlan =>
        cases cannotPlan with
        | error e => exact iff_of_false nofun fun h ↦ nomatch (h.2 rfl).2 rfl
        | ok reason => exact iff_of_true rfl ⟨rfl, fun _ ↦ ⟨nofun, fun _ ↦ rfl⟩⟩
      | _ => exact iff_of_true rfl ⟨rfl, fun _ ↦ ⟨nofun, nofun⟩⟩

theorem status_composeReply {runId reply : String} {status : Option RunStatus} {s : ReplyStatus}
    (h : composeReply runId records status = .ok (reply, s)) : s ≠ .pending := by
  obtain ⟨run, synthesis, cannotPlan⟩ := records
  rcases run with e | _ | _
  · cases h
  · cases h
    exact nofun
  · rcases status with _ | status
    · cases h
      exact nofun
    · cases status with
      | completed =>
        rcases synthesis with e | _ | synthesis <;> cases h <;> exact nofun
      | cannotPlan =>
        cases cannotPlan <;> cases h
        exact nofun
      | _ =>
        cases h
        exact nofun

end Run

section Settle

variable {onComplete : Option Callback} {o : Outcomes}

/-- The row still waits for its reply, so writing it and calling the callback resolves it. -/
theorem resolvedOnce_settle (onComplete : Option Callback) (write : WriteOutcome)
    (f : ChatMessage → ChatMessage) {reply : String} {status : ReplyStatus}
    (hf : ∀ m, (f m).content = reply ∧ (f m).status = status) (hstatus : status ≠ .pending) :
    ResolvedOnce onComplete
        (exec (do storeMessage write f; notify onComplete reply status) .begin).2 ↔
      Told onComplete write := by
  rw [exec_bind, exec_storeMessage]
  rcases write with _ | ⟨_ | _, e⟩
  · rcases onComplete with _ | callback <;>
      simp [exec_notify, ResolvedOnce, Told, Chat.store, Chat.begin, Chat.call, hf, hstatus]
  · simp [ResolvedOnce, Told, Chat.begin]
  · cases onComplete <;> simp [ResolvedOnce, Told, Chat.store, Chat.begin, hf, hstatus]

theorem resolvedOnce_storeFailure (write : WriteOutcome) (error : String) :
    ResolvedOnce onComplete (exec (storeFailure onComplete write error) .begin).2 ↔
      Told onComplete write :=
  resolvedOnce_settle onComplete write (ChatMessage.fail error) (fun _ ↦ ⟨rfl, rfl⟩) nofun

theorem not_resolvedOnce_begin : ¬ ResolvedOnce onComplete .begin := by
  rintro ⟨m, hm, hstatus, -⟩
  obtain rfl := Option.some.inj hm
  exact hstatus rfl

theorem resolvedOnce_watchRunAndReply (runId : String) :
    ResolvedOnce onComplete (exec (watchRunAndReply o onComplete runId) .begin).2 ↔
      RepliedByRun o onComplete := by
  have hanswered : (awaitRun none o.polls).isOk ↔ Answered o.polls := awaitRun_isOk_iff none
  rw [watchRunAndReply, exec_bind, exec_ofExcept]
  cases hstatus : awaitRun none o.polls with
  | error e =>
    refine iff_of_false not_resolvedOnce_begin fun h ↦ ?_
    rw [hstatus] at hanswered
    cases hanswered.mpr h.answered
  | ok status =>
    have hreadable : (composeReply runId o.records status).isOk ↔ o.records.Readable status :=
      composeReply_isOk_iff runId status
    rw [hstatus] at hanswered
    simp only [exec_bind, exec_ofExcept]
    cases hreply : composeReply runId o.records status with
    | error e =>
      refine iff_of_false not_resolvedOnce_begin fun h ↦ ?_
      rw [hreply] at hreadable
      cases hreadable.mpr (h.readable status hstatus)
    | ok r =>
      obtain ⟨reply, chatStatus⟩ := r
      rw [hreply] at hreadable
      have hsettle := resolvedOnce_settle onComplete o.runWrite
        (ChatMessage.reply reply chatStatus) (fun _ ↦ ⟨rfl, rfl⟩) (status_composeReply hreply)
      rw [exec_bind] at hsettle
      refine hsettle.trans ⟨fun htold ↦ ⟨hanswered.mp rfl, fun s hs ↦ ?_, htold⟩, fun h ↦ h.told⟩
      obtain rfl := Except.ok.inj (hstatus.symm.trans hs)
      exact hreadable.mp rfl

/-- The row once a reply has been stored, and the calls made so far. -/
def Chat.answered (reply : String) (calls : List (String × ReplyStatus)) : Chat :=
  ⟨some ⟨reply, .completed, none⟩, [⟨reply, .completed, none⟩], calls⟩

theorem resolvedOnce_answered {reply : String} {calls : List (String × ReplyStatus)} :
    ResolvedOnce onComplete (.answered reply calls) ↔
      (onComplete.isSome → calls = [(reply, .completed)]) := by
  simp [ResolvedOnce, Chat.answered]

/-- Where the handler is reached after a reply was stored, its own write must be lost. -/
theorem resolvedOnce_storeFailure_answered {reply : String}
    {calls : List (String × ReplyStatus)} (write : WriteOutcome) (error : String) :
    ResolvedOnce onComplete (exec (storeFailure onComplete write error) (.answered reply calls)).2 ↔
      (onComplete.isSome → calls = [(reply, .completed)]) ∧ write.Lost := by
  rw [storeFailure, exec_bind, exec_storeMessage]
  rcases write with _ | ⟨_ | _, e⟩
  · rcases onComplete with _ | callback <;>
      simp [exec_notify, ResolvedOnce, WriteOutcome.Lost, Chat.answered, Chat.store, Chat.call,
        ChatMessage.fail]
  · simp [ResolvedOnce, WriteOutcome.Lost, Chat.answered]
  · simp [ResolvedOnce, WriteOutcome.Lost, Chat.answered, Chat.store, ChatMessage.fail]

theorem exec_storeReply_ok {reply : String} (hcomplete : o.complete = .ok reply) :
    exec (storeReply o onComplete) .begin =
      match o.replyWrite with
      | .committed => exec (notify onComplete reply .completed) (.answered reply [])
      | .raises true e => (.error e, .answered reply [])
      | .raises false e => (.error e, .begin) := by
  rw [storeReply, exec_bind, exec_ofExcept, hcomplete]
  simp only [exec_bind, exec_storeMessage]
  rcases o.replyWrite with _ | ⟨_ | _, e⟩ <;> rfl

theorem resolvedOnce_generateAndStoreReply :
    ResolvedOnce onComplete (exec (generateAndStoreReply o onComplete) .begin).2 ↔
      RepliedDirectly o onComplete := by
  rw [generateAndStoreReply, exec_bind, exec_ofExcept, RepliedDirectly]
  cases o.agentEnabled with
  | error e => exact iff_of_false not_resolvedOnce_begin id
  | ok enabled =>
    cases enabled with
    | false => exact resolvedOnce_storeFailure _ _
    | true =>
      simp only [if_true, exec_tryCatch]
      cases hcomplete : o.complete with
      | error e =>
        have hraises : exec (storeReply o onComplete) .begin = (.error e, .begin) := by
          rw [storeReply, exec_bind, exec_ofExcept, hcomplete]
        rw [hraises]
        exact resolvedOnce_storeFailure _ _
      | ok reply =>
        rw [exec_storeReply_ok hcomplete]
        rcases o.replyWrite with _ | ⟨_ | _, e⟩
        · simp only [exec_notify]
          rcases onComplete with _ | callback
          · exact iff_of_true (resolvedOnce_answered.mpr nofun) (.inl nofun)
          · cases hcalled : callback reply .completed with
            | ok _ =>
              simp only [hcalled]
              refine iff_of_true (resolvedOnce_answered.mpr fun _ ↦ rfl) (.inl ?_)
              rintro _ ⟨⟩
              rw [hcalled]
              rfl
            | error e =>
              simp only [hcalled]
              refine (resolvedOnce_storeFailure_answered _ _).trans ?_
              simp [hcalled, Except.isOk, Except.toBool, Chat.answered]
        · exact resolvedOnce_storeFailure _ _
        · refine (resolvedOnce_storeFailure_answered _ _).trans ?_
          cases onComplete <;> simp

end Settle

/-- When the thread has ended, the reply is resolved once exactly if everything has turned out well
that lies outside the handlers, and no handler was reached after a reply was stored. -/
theorem resolvedOnce_iff (o : Outcomes) (onComplete : Option Callback) (channel : String)
    (requestedBy : Option String) :
    ResolvedOnce onComplete
        (exec (classifyAndDispatch o onComplete channel requestedBy) .begin).2 ↔
      Replied o onComplete channel requestedBy := by
  rw [classifyAndDispatch, exec_bind, exec_ofExcept, Replied]
  rcases maybeRouteToOrganization o channel requestedBy with e | _ | runId
  · exact iff_of_false not_resolvedOnce_begin id
  · exact resolvedOnce_generateAndStoreReply
  · exact resolvedOnce_watchRunAndReply runId

section Telegram

/-- Everything gets through. -/
def wellAnswered : Outcomes where
  classifier := .ok ⟨false, none⟩
  createRun _ _ _ := .ok "run"
  polls := []
  records := ⟨.ok true, .ok none, .ok none⟩
  runWrite := .committed
  agentEnabled := .ok true
  disabledWrite := .committed
  complete := .ok "2 strategies are live."
  replyWrite := .committed
  failedWrite := .committed

/-- The reply was sent, and that it was cannot be recorded. -/
def unrecorded : Delivery := ⟨.ok true, .ok (), .error (.other "connection lost")⟩

/-- A reply that was stored and sent is overwritten as failed, and the callback called again. -/
theorem sent_reply_overwritten :
    ¬ ResolvedOnce (some (webhookOnComplete unrecorded))
      (exec (classifyAndDispatch wellAnswered (some (webhookOnComplete unrecorded)) "Telegram"
        (some "telegram:1")) .begin).2 := by
  have hend : (exec (classifyAndDispatch wellAnswered (some (webhookOnComplete unrecorded))
      "Telegram" (some "telegram:1")) .begin).2 =
      ⟨some ⟨"", .failed, some "connection lost"⟩,
        [⟨"2 strategies are live.", .completed, none⟩, ⟨"", .failed, some "connection lost"⟩],
        [("2 strategies are live.", .completed), ("", .failed)]⟩ := by
    rfl
  rw [hend]
  rintro ⟨m, -, -, hcalls, -⟩
  have hlength := congrArg List.length (hcalls rfl)
  simp at hlength

end Telegram

end TradingOS.Orchestration.AdhocReply
