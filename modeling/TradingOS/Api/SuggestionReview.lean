import TradingOS.Agents.Graph
import TradingOS.Lib.Calls

namespace TradingOS.Api.SuggestionReview

open Agents Lib Lib.Runs

inductive SuggestionStatus
  | pending | reviewing | rejected | applied
  deriving DecidableEq

structure StrategySuggestion where
  strategyId : ℕ
  status : SuggestionStatus
  aiVerdict : Option String
  resultingVersion : Option ℕ
  deriving DecidableEq

/-- The strategy's columns that the pipeline starts from. -/
structure StrategyRow where
  researchContext : Option String
  marketContext : Option String
  deriving DecidableEq

/-- A version of the strategy, and the call whose thread has stored it. -/
structure Version where
  versionNo : ℕ
  pythonCode : String
  storedBy : Option ℕ
  deriving DecidableEq

/-- A request, and the thread that it starts. `conflict` and `notFound` are its refusals. -/
inductive Phase
  | called
  | notFound
  | conflict (status : SuggestionStatus)
  | accepted
  | returned
  | reviewing (latestVersionNo : ℕ) (strategy : StrategyRow)
  | regenerating (state : TradingOSGraphState) (newVersion : Option ℕ)
  | closed (newVersion : Option ℕ)
  deriving DecidableEq

namespace Phase

/-- The thread has marked the suggestion, and asks for its review. -/
def reviews : Phase → Bool
  | reviewing _ _ | regenerating _ _ | closed _ => true
  | _ => false

/-- `tracking.new_version_id`: the last version that the thread has stored. -/
def newVersion : Phase → Option ℕ
  | regenerating _ newVersion | closed newVersion => newVersion
  | _ => none

def state? : Phase → Option TradingOSGraphState
  | regenerating state _ => some state
  | _ => none

end Phase

/-- The sessions of a call, in turn. A review that raises gives no verdict; `fail` is a halt or any
other error of the pipeline. -/
inductive Action
  | check
  | begin
  | review (sound : Option Bool) (threadId : String)
  | node (update : Update)
  | finish
  | fail
  deriving DecidableEq

/-- Versions come from elsewhere too, such as from the reviews of the strategy's other
suggestions. -/
inductive Event
  | call (i : ℕ) (action : Action)
  | insertVersion (versionNo : ℕ) (pythonCode : String)
  deriving DecidableEq

/-- The rows of one suggestion and of its strategy, and the calls. -/
structure Race where
  suggestion : Option StrategySuggestion
  strategy : Option StrategyRow
  versions : List Version
  calls : List (Served ℕ Phase)
  deriving DecidableEq

/-- The state that `build_suggestion_regeneration_graph` is run on, at its entry point. -/
def regenerationState (threadId : String) (latestVersionNo : ℕ) (strategy : StrategyRow) :
    TradingOSGraphState :=
  { TradingOSGraphState.init threadId with
    researchDirective := strategy.researchContext
    marketContext := strategy.marketContext
    pythonCode := some ⟨"", latestVersionNo⟩
    evaluationVerdict := some ⟨false, ["User-submitted suggestion"]⟩
    next := some .strategyGenerator }

/-- The nodes of the research graph, but the run is over after the evaluator. -/
def regenerationStep (state : TradingOSGraphState) (update : Update) : Option TradingOSGraphState :=
  (state.step update).map fun state ↦
    if update.node = .evaluator then { state with next := none } else state

namespace Race

variable (r : Race)

def isPending : Bool := r.suggestion.all (·.status = .pending)

def latestVersionNo : ℕ := (r.versions.map Version.versionNo).foldl max 0

def isTaken (versionNo : ℕ) : Bool := r.versions.any (·.versionNo = versionNo)

def move (i : ℕ) (phase : Phase) : Race := { r with calls := Served.move r.calls i phase }

def update (f : StrategySuggestion → StrategySuggestion) : Race :=
  { r with suggestion := r.suggestion.map f }

def reject : Race := r.update fun s ↦ { s with status := .rejected }

/-- `trigger_suggestion_review`, up to the start of its thread. -/
def triggerSuggestionReview (strategyId : ℕ) : Phase :=
  match r.suggestion with
  | none => .notFound
  | some suggestion =>
    if suggestion.strategyId ≠ strategyId then .notFound
    else if suggestion.status ≠ .pending then .conflict suggestion.status
    else .accepted

/-- The thread's first session, which does not look at the status again. -/
def beginReview (i : ℕ) : Race :=
  match r.suggestion, r.strategy with
  | none, _ => r.move i .returned
  | some _, none => r.reject.move i .returned
  | some _, some strategy =>
    (r.update fun s ↦ { s with status := .reviewing }).move i
      (.reviewing r.latestVersionNo strategy)

def recordReview (i : ℕ) (latestVersionNo : ℕ) (strategy : StrategyRow) (threadId : String) :
    Option Bool → Race
  | none =>
    (r.update fun s ↦ { s with status := .rejected, aiVerdict := some "Review failed" }).move i
      (.closed none)
  | some false =>
    (r.update fun s ↦ { s with status := .rejected, aiVerdict := some "Not sound" }).move i
      (.closed none)
  | some true =>
    if r.suggestion.isNone then r.move i (.closed none)
    else
      (r.update fun s ↦ { s with aiVerdict := some "Sound" }).move i
        (.regenerating (regenerationState threadId latestVersionNo strategy) none)

/-- A node of the pipeline with what is stored after it. The number of a version is unique for the
strategy. -/
def persistNode (i : ℕ) (state : TradingOSGraphState) (newVersion : Option ℕ) :
    Update → TradingOSGraphState → Race
  | .pythonCodeGenerator code, state' =>
    if r.isTaken state.nextVersionNo then r.reject.move i (.closed newVersion)
    else
      { r.move i (.regenerating state' (some state.nextVersionNo)) with
        versions := r.versions ++ [⟨state.nextVersionNo, code, some i⟩] }
  | _, state' => r.move i (.regenerating state' newVersion)

def finishReview (i : ℕ) (newVersion : Option ℕ) : Race :=
  match newVersion with
  | none => r.reject.move i (.closed none)
  | some versionNo =>
    (r.update fun s ↦ { s with status := .applied, resultingVersion := some versionNo }).move i
      (.closed (some versionNo))

def step : Event → Option Race
  | .insertVersion versionNo pythonCode =>
    if r.isTaken versionNo then none
    else some { r with versions := r.versions ++ [⟨versionNo, pythonCode, none⟩] }
  | .call i action =>
    match r.calls[i]? with
    | none => none
    | some ⟨strategyId, phase⟩ =>
      match action, phase with
      | .check, .called => some (r.move i (r.triggerSuggestionReview strategyId))
      | .begin, .accepted => some (r.beginReview i)
      | .review sound threadId, .reviewing latestVersionNo strategy =>
        some (r.recordReview i latestVersionNo strategy threadId sound)
      | .node update, .regenerating state newVersion =>
        (regenerationStep state update).map (r.persistNode i state newVersion update)
      | .finish, .regenerating state newVersion =>
        if state.next = none then some (r.finishReview i newVersion) else none
      | .fail, .regenerating _ newVersion => some (r.reject.move i (.closed newVersion))
      | _, _ => none

def start (suggestion : Option StrategySuggestion) (strategy : Option StrategyRow)
    (versions : List (ℕ × String)) (requests : List ℕ) : Race where
  suggestion := suggestion
  strategy := strategy
  versions := versions.map fun (versionNo, pythonCode) ↦ ⟨versionNo, pythonCode, none⟩
  calls := Served.start requests .called

end Race

namespace Race

def reviews (r : Race) (i : ℕ) : Bool := (r.calls[i]?).any (·.phase.reviews)

def newVersion (r : Race) (i : ℕ) : Option ℕ := (r.calls[i]?).bind (·.phase.newVersion)

end Race

/-- One thread at most reviews the suggestion, and one version at most is stored for it. -/
structure RegeneratedOnce (r : Race) : Prop where
  review : ∀ i j : ℕ, r.reviews i → r.reviews j → i = j
  version : r.versions.countP (·.storedBy.isSome) ≤ 1

/-- The condition: a thread that begins finds the suggestion pending still, and code is not written
again by a thread that has stored a version, unless the next number is taken. -/
def Fresh (r : Race) : Event → Race → Prop
  | .call _ .begin, _ => r.strategy.isSome → r.isPending
  | .call i (.node (.pythonCodeGenerator _)), _ =>
    ∀ call ∈ r.calls[i]?, ∀ state ∈ call.phase.state?,
      call.phase.newVersion = none ∨ r.isTaken state.nextVersionNo
  | _, _ => True

namespace Race

variable {r r' : Race} {i : ℕ}

def IsReviewed (r : Race) : Prop := ∃ i, r.reviews i

/-- What an action does: it begins the review, stores a version, or does neither. -/
inductive Advance (r : Race) (i : ℕ) (action : Action) : Phase → Phase → Race → Prop
  | quiet {phase phase' : Phase} {r' : Race} (hreviews : phase'.reviews = phase.reviews)
      (hnew : phase'.newVersion = phase.newVersion) (hversions : r'.versions = r.versions)
      (hpending : r'.isPending = r.isPending ∨
        r'.isPending = false ∧ (phase.reviews ∨ r.strategy = none))
      (haccepted : phase' = .accepted → r'.isPending) (hfresh : Fresh r (.call i action) r') :
      Advance r i action phase phase' r'
  | begin {latestVersionNo : ℕ} {strategy : StrategyRow} {r' : Race} (haction : action = .begin)
      (hstrategy : r.strategy.isSome) (hversions : r'.versions = r.versions)
      (hpending : r'.isPending = false) :
      Advance r i action .accepted (.reviewing latestVersionNo strategy) r'
  | store {state state' : TradingOSGraphState} {newVersion : Option ℕ} {code : String} {r' : Race}
      (haction : action = .node (.pythonCodeGenerator code))
      (hfree : r.isTaken state.nextVersionNo = false)
      (hversions : r'.versions = r.versions ++ [⟨state.nextVersionNo, code, some i⟩])
      (hpending : r'.isPending = r.isPending) :
      Advance r i action (.regenerating state newVersion)
        (.regenerating state' (some state.nextVersionNo)) r'

theorem isPending_update_or {f : StrategySuggestion → StrategySuggestion}
    (hf : ∀ s, (f s).status ≠ .pending) :
    (r.update f).isPending = r.isPending ∨ (r.update f).isPending = false := by
  rw [isPending, isPending, update]
  cases r.suggestion with
  | none => exact .inl rfl
  | some s => exact .inr (by simpa using hf s)

theorem isPending_triggerSuggestionReview {strategyId : ℕ}
    (h : r.triggerSuggestionReview strategyId = .accepted) : r.isPending := by
  rw [triggerSuggestionReview] at h
  rw [isPending]
  split at h
  · cases h
  · next hsuggestion =>
    split_ifs at h with hstrategy hstatus
    simpa [hsuggestion] using hstatus

/-- An action with the phase that the call comes to. -/
def Turn (r : Race) (i : ℕ) (action : Action) (phase : Phase) (r' : Race) : Prop :=
  ∃ phase', Advance r i action phase phase' r' ∧ r'.calls = Served.move r.calls i phase' ∧
    r'.strategy = r.strategy

theorem turn_triggerSuggestionReview {strategyId : ℕ} :
    Turn r i .check .called (r.move i (r.triggerSuggestionReview strategyId)) := by
  refine ⟨_, .quiet ?_ ?_ rfl (.inl rfl) isPending_triggerSuggestionReview trivial, rfl, rfl⟩
  all_goals
    rw [triggerSuggestionReview]
    split
    · rfl
    · split_ifs <;> rfl

theorem turn_beginReview : Turn r i .begin .accepted (r.beginReview i) := by
  rw [beginReview]
  cases hsuggestion : r.suggestion with
  | none =>
    refine ⟨.returned, .quiet rfl rfl rfl (.inl rfl) (fun h ↦ by cases h) fun _ ↦ ?_, rfl, rfl⟩
    rw [isPending, hsuggestion]
    rfl
  | some suggestion =>
    cases hstrategy : r.strategy with
    | none =>
      refine ⟨.returned, .quiet rfl rfl rfl (.inr ⟨?_, .inr hstrategy⟩) (fun h ↦ by cases h)
        fun h ↦ ?_, rfl, rfl⟩
      · simp [isPending, move, reject, update, hsuggestion]
      · simp [hstrategy] at h
    | some strategy =>
      refine ⟨_, .begin rfl ?_ rfl ?_, rfl, rfl⟩
      · rw [hstrategy]
        rfl
      · simp [isPending, move, update, hsuggestion]

/-- The end of a thread that reviews leaves its version, and the suggestion as it is or no longer
pending. -/
theorem turn_closed {action : Action} {phase : Phase} {s : Race} (hreviews : phase.reviews)
    (hversions : s.versions = r.versions) (hcalls : s.calls = r.calls)
    (hstrategy : s.strategy = r.strategy)
    (hpending : s.isPending = r.isPending ∨ s.isPending = false)
    (hfresh : Fresh r (.call i action) (s.move i (.closed phase.newVersion))) :
    Turn r i action phase (s.move i (.closed phase.newVersion)) := by
  refine ⟨.closed phase.newVersion, .quiet hreviews.symm rfl hversions ?_ (fun h ↦ by cases h)
    hfresh, ?_, hstrategy⟩
  · exact hpending.imp_right fun h ↦ ⟨h, .inl hreviews⟩
  · rw [move, hcalls]

theorem turn_recordReview {latestVersionNo : ℕ} {strategy : StrategyRow} {threadId : String}
    {sound : Option Bool} :
    Turn r i (.review sound threadId) (.reviewing latestVersionNo strategy)
      (r.recordReview i latestVersionNo strategy threadId sound) := by
  rw [recordReview.eq_def]
  split
  · exact turn_closed rfl rfl rfl rfl (isPending_update_or fun _ ↦ by simp) trivial
  · exact turn_closed rfl rfl rfl rfl (isPending_update_or fun _ ↦ by simp) trivial
  · split
    · exact turn_closed rfl rfl rfl rfl (.inl rfl) trivial
    · refine ⟨.regenerating _ none, .quiet rfl rfl rfl (.inl ?_) (fun h ↦ by cases h) trivial, rfl,
        rfl⟩
      simp [isPending, move, update, Option.all_map]

theorem turn_persistNode {state state' : TradingOSGraphState} {newVersion : Option ℕ}
    {node : Update} (hcall : r.calls[i]?.map Served.phase = some (.regenerating state newVersion)) :
    Turn r i (.node node) (.regenerating state newVersion)
      (r.persistNode i state newVersion node state') := by
  rw [persistNode.eq_def]
  split
  · next code =>
    split_ifs with htaken
    · refine turn_closed rfl rfl rfl rfl (isPending_update_or fun _ ↦ by simp) ?_
      intro call hmem state'' hstate
      rw [Option.mem_def.mp hmem] at hcall
      rw [Option.some.inj hcall] at hstate
      obtain rfl := Option.some.inj hstate
      exact .inr htaken
    · exact ⟨_, .store rfl (by simpa using htaken) rfl rfl, rfl, rfl⟩
  · next hcode =>
    refine ⟨.regenerating state' newVersion, .quiet rfl rfl rfl (.inl rfl) (fun h ↦ by cases h) ?_,
      rfl, rfl⟩
    rw [Fresh.eq_def]
    split
    · next heq => cases heq
    · next code heq =>
      cases heq
      exact (hcode _ rfl).elim
    · trivial

theorem turn_finishReview {state : TradingOSGraphState} {newVersion : Option ℕ} :
    Turn r i .finish (.regenerating state newVersion) (r.finishReview i newVersion) := by
  cases newVersion with
  | none => exact turn_closed rfl rfl rfl rfl (isPending_update_or fun _ ↦ by simp) trivial
  | some versionNo => exact turn_closed rfl rfl rfl rfl (isPending_update_or fun _ ↦ by simp) trivial

theorem step_turn {event : Event} (h : r.step event = some r') :
    (∃ versionNo pythonCode, event = .insertVersion versionNo pythonCode ∧
      r' = { r with versions := r.versions ++ [⟨versionNo, pythonCode, none⟩] }) ∨
    ∃ i action strategyId phase, event = .call i action ∧
      r.calls[i]? = some ⟨strategyId, phase⟩ ∧ Turn r i action phase r' := by
  cases event with
  | insertVersion versionNo pythonCode =>
    simp only [step] at h
    split_ifs at h
    cases h
    exact .inl ⟨versionNo, pythonCode, rfl, rfl⟩
  | call i action =>
    refine .inr ⟨i, action, ?_⟩
    simp only [step] at h
    split at h
    · cases h
    · next strategyId phase hcall =>
      refine ⟨strategyId, phase, rfl, hcall, ?_⟩
      split at h
      · cases h
        exact turn_triggerSuggestionReview
      · cases h
        exact turn_beginReview
      · cases h
        exact turn_recordReview
      · obtain ⟨state', -, rfl⟩ := Option.map_eq_some_iff.mp h
        exact turn_persistNode (by rw [hcall]; rfl)
      · split_ifs at h
        cases h
        exact turn_finishReview
      · cases h
        exact turn_closed rfl rfl rfl rfl (isPending_update_or fun _ ↦ by simp) trivial
      · cases h

end Race

/-- A suggestion under review is not pending; one that a thread was started for is, up to the
review; and the versions stored for it are those of the calls that have stored one. -/
structure Tracked (r : Race) : Prop where
  marked : r.IsReviewed → r.isPending = false
  waiting : ∀ call ∈ r.calls, call.phase = .accepted → r.strategy.isSome →
    r.isPending ∨ r.IsReviewed
  stored : ∀ version ∈ r.versions, ∀ i ∈ version.storedBy, r.reviews i ∧ (r.newVersion i).isSome
  recorded : ∀ i, (r.newVersion i).isSome → ∃ version ∈ r.versions, version.storedBy = some i

namespace Race

variable {r r' : Race} {i j : ℕ} {event : Event} {call : Served ℕ Phase} {phase : Phase}

theorem reviews_of_move (hcall : r.calls[i]? = some call)
    (hcalls : r'.calls = Served.move r.calls i phase) (j : ℕ) :
    r'.reviews j = if j = i then phase.reviews else r.reviews j := by
  rw [reviews, reviews, hcalls]
  split_ifs with h
  · rw [h, Served.getElem?_move_self hcall]
    rfl
  · rw [Served.getElem?_move_of_ne h]

theorem newVersion_of_move (hcall : r.calls[i]? = some call)
    (hcalls : r'.calls = Served.move r.calls i phase) (j : ℕ) :
    r'.newVersion j = if j = i then phase.newVersion else r.newVersion j := by
  rw [newVersion, newVersion, hcalls]
  split_ifs with h
  · rw [h, Served.getElem?_move_self hcall]
    rfl
  · rw [Served.getElem?_move_of_ne h]

theorem reviews_of_call (hcall : r.calls[i]? = some call) : r.reviews i = call.phase.reviews := by
  rw [reviews, hcall]
  rfl

theorem newVersion_of_call (hcall : r.calls[i]? = some call) :
    r.newVersion i = call.phase.newVersion := by
  rw [newVersion, hcall]
  rfl

theorem reviews_eq_of_move (hcall : r.calls[i]? = some call)
    (hcalls : r'.calls = Served.move r.calls i phase) (h : phase.reviews = call.phase.reviews) :
    r'.reviews = r.reviews := by
  funext j
  rw [reviews_of_move hcall hcalls]
  split_ifs with hj
  · rw [hj, reviews_of_call hcall, h]
  · rfl

theorem newVersion_eq_of_move (hcall : r.calls[i]? = some call)
    (hcalls : r'.calls = Served.move r.calls i phase) (h : phase.newVersion = call.phase.newVersion) :
    r'.newVersion = r.newVersion := by
  funext j
  rw [newVersion_of_move hcall hcalls]
  split_ifs with hj
  · rw [hj, newVersion_of_call hcall, h]
  · rfl

theorem tracked_insert {versionNo : ℕ} {pythonCode : String} (h : Tracked r) :
    Tracked { r with versions := r.versions ++ [⟨versionNo, pythonCode, none⟩] } := by
  refine ⟨h.marked, h.waiting, fun version hmem j hj ↦ ?_, fun j hnew ↦ ?_⟩
  · rcases List.mem_append.mp hmem with hold | hlast
    · exact h.stored version hold j hj
    · rw [List.mem_singleton.mp hlast] at hj
      cases hj
  · obtain ⟨version, hmem, hversion⟩ := h.recorded j hnew
    exact ⟨version, List.mem_append_left _ hmem, hversion⟩

theorem tracked_step (h : Tracked r) (hstep : r.step event = some r') : Tracked r' := by
  rcases step_turn hstep with ⟨versionNo, pythonCode, -, rfl⟩ |
    ⟨i, action, strategyId, phase, -, hcall, phase', hadvance, hcalls, hstrategy⟩
  · exact tracked_insert h
  · cases hadvance with
    | quiet hsame hsameNew hversions hpending haccepted _ =>
      have hreviews := reviews_eq_of_move hcall hcalls hsame
      have hnew := newVersion_eq_of_move hcall hcalls hsameNew
      refine ⟨?_, ?_, ?_, ?_⟩
      · rw [IsReviewed, hreviews]
        intro hreviewed
        rcases hpending with hpending | ⟨hpending, -⟩
        · rw [hpending, h.marked hreviewed]
        · exact hpending
      · rw [hcalls, hstrategy, IsReviewed, hreviews]
        refine Served.forall_mem_move hcall (fun call hmem hphase hsome ↦ ?_)
          fun hphase _ ↦ .inl (haccepted hphase)
        rcases h.waiting call hmem hphase hsome with hbefore | hreviewed
        · rcases hpending with hpending | ⟨-, hphase | hnone⟩
          · exact .inl (hpending.trans hbefore)
          · exact .inr ⟨i, (reviews_of_call hcall).trans hphase⟩
          · simp [hnone] at hsome
        · exact .inr hreviewed
      · rw [hversions, hreviews, hnew]
        exact h.stored
      · rw [hversions, hnew]
        exact h.recorded
    | begin _ _ hversions hpending =>
      have hreviews := reviews_of_move hcall hcalls
      have hnew := newVersion_eq_of_move hcall hcalls rfl
      refine ⟨fun _ ↦ hpending, fun _ _ _ _ ↦ .inr ⟨i, ?_⟩, ?_, ?_⟩
      · rw [hreviews, if_pos rfl]
        rfl
      · rw [hversions, hnew]
        intro version hmem j hj
        refine ⟨?_, (h.stored version hmem j hj).2⟩
        rw [hreviews]
        split_ifs
        · rfl
        · exact (h.stored version hmem j hj).1
      · rw [hversions, hnew]
        exact h.recorded
    | store _ _ hversions hpending =>
      have hreviews := reviews_eq_of_move hcall hcalls rfl
      have hnew := newVersion_of_move hcall hcalls
      refine ⟨?_, ?_, ?_, fun j hj ↦ ?_⟩
      · rw [IsReviewed, hreviews, hpending]
        exact h.marked
      · rw [hcalls, hstrategy, hpending, IsReviewed, hreviews]
        exact Served.forall_mem_move hcall h.waiting fun hphase ↦ by cases hphase
      · rw [hversions, hreviews]
        intro version hmem j hj
        rw [hnew]
        rcases List.mem_append.mp hmem with hold | hlast
        · obtain ⟨hreviewed, hsome⟩ := h.stored version hold j hj
          refine ⟨hreviewed, ?_⟩
          split_ifs
          · rfl
          · exact hsome
        · rw [List.mem_singleton.mp hlast] at hj
          obtain rfl := Option.some.inj hj
          rw [if_pos rfl]
          exact ⟨reviews_of_call hcall, rfl⟩
      · rw [hversions]
        rw [hnew] at hj
        split_ifs at hj with hself
        · exact ⟨_, List.mem_append_right _ List.mem_cons_self, by rw [hself]⟩
        · obtain ⟨version, hmem, hversion⟩ := h.recorded j hj
          exact ⟨version, List.mem_append_left _ hmem, hversion⟩

variable {suggestion : Option StrategySuggestion} {strategy : Option StrategyRow}
  {versions : List (ℕ × String)} {requests : List ℕ}

theorem reviews_start : (start suggestion strategy versions requests).reviews i = false := by
  cases h : requests[i]? <;> simp [reviews, start, Served.start, h, Phase.reviews]

theorem newVersion_start : (start suggestion strategy versions requests).newVersion i = none := by
  cases h : requests[i]? <;> simp [newVersion, start, Served.start, h, Phase.newVersion]

theorem tracked_start : Tracked (start suggestion strategy versions requests) := by
  have hstored : ∀ version ∈ (start suggestion strategy versions requests).versions,
      version.storedBy = none := by
    intro version hmem
    obtain ⟨_, -, rfl⟩ := List.mem_map.mp hmem
    rfl
  refine ⟨fun ⟨i, hi⟩ ↦ ?_, fun call hmem hphase ↦ ?_, fun version hmem i hi ↦ ?_, fun i hi ↦ ?_⟩
  · simp [reviews_start] at hi
  · rw [Served.phase_of_mem_start hmem] at hphase
    cases hphase
  · rw [hstored version hmem] at hi
    cases hi
  · simp [newVersion_start] at hi

theorem regeneratedOnce_start : RegeneratedOnce (start suggestion strategy versions requests) := by
  refine ⟨fun i j hi ↦ ?_, ?_⟩
  · simp [reviews_start] at hi
  · simp [start, List.countP_map, Function.comp_def]

theorem regeneratedOnce_step_iff (h : Tracked r) (honce : RegeneratedOnce r)
    (hstep : r.step event = some r') : RegeneratedOnce r' ↔ Fresh r event r' := by
  rcases step_turn hstep with ⟨versionNo, pythonCode, rfl, rfl⟩ |
    ⟨i, action, strategyId, phase, rfl, hcall, phase', hadvance, hcalls, -⟩
  · refine iff_of_true ⟨honce.review, ?_⟩ trivial
    rw [List.countP_append]
    exact honce.version
  · cases hadvance with
    | quiet hsame _ hversions _ _ hfresh =>
      refine iff_of_true ⟨?_, ?_⟩ hfresh
      · rw [reviews_eq_of_move hcall hcalls hsame]
        exact honce.review
      · rw [hversions]
        exact honce.version
    | begin haction hstrategy hversions _ =>
      have hreviews := reviews_of_move hcall hcalls
      rw [haction]
      constructor
      · intro honce' _
        refine (h.waiting _ (List.mem_of_getElem? hcall) rfl hstrategy).resolve_right ?_
        rintro ⟨j, hj⟩
        have hne : j ≠ i := by
          rintro rfl
          rw [reviews_of_call hcall] at hj
          cases hj
        refine hne (honce'.review j i ?_ ?_)
        · rw [hreviews, if_neg hne, hj]
        · rw [hreviews, if_pos rfl]
          rfl
      · intro hfresh
        have hnone (j : ℕ) : r.reviews j = false := by
          refine Bool.eq_false_iff.mpr fun hj ↦ ?_
          have hpending := hfresh hstrategy
          rw [h.marked ⟨j, hj⟩] at hpending
          cases hpending
        refine ⟨fun j k hj hk ↦ ?_, hversions ▸ honce.version⟩
        rw [hreviews, hnone] at hj hk
        split_ifs at hj hk with hji hki
        rw [hji, hki]
    | @store state state' newVersion code _ haction hfree hversions _ =>
      have hreviewed : r.reviews i := reviews_of_call hcall
      have hfresh : Fresh r (.call i action) r' ↔ newVersion = none := by
        rw [haction]
        simp [Fresh, hcall, Phase.state?, Phase.newVersion, hfree]
      have hcount : r'.versions.countP (·.storedBy.isSome) =
          r.versions.countP (·.storedBy.isSome) + 1 := by
        rw [hversions, List.countP_append]
        rfl
      rw [hfresh]
      constructor
      · intro honce'
        have hzero : r.versions.countP (·.storedBy.isSome) = 0 := by
          have := honce'.version
          omega
        by_contra hsome
        obtain ⟨version, hmem, hversion⟩ := h.recorded i
          ((newVersion_of_call hcall).symm ▸ Option.isSome_iff_ne_none.mpr hsome)
        refine List.countP_eq_zero.mp hzero version hmem ?_
        rw [hversion]
        rfl
      · intro hnone
        refine ⟨?_, ?_⟩
        · rw [reviews_eq_of_move hcall hcalls rfl]
          exact honce.review
        · have hzero : r.versions.countP (·.storedBy.isSome) = 0 := by
            refine List.countP_eq_zero.mpr fun version hmem hsome ↦ ?_
            obtain ⟨j, hj⟩ := Option.isSome_iff_exists.mp hsome
            obtain ⟨hreviews, hnew⟩ := h.stored version hmem j hj
            rw [honce.review j i hreviews hreviewed, newVersion_of_call hcall] at hnew
            simp [Phase.newVersion, hnone] at hnew
          rw [hcount, hzero]

end Race

/-- In every interleaving the suggestion is regenerated once at most exactly if threads only begin
while it is pending, and code is not written again once it is stored. -/
theorem regenerated_once_iff (suggestion : Option StrategySuggestion)
    (strategy : Option StrategyRow) (versions : List (ℕ × String)) (requests : List ℕ)
    (events : List Event) :
    Along Race.step (fun _ _ r ↦ RegeneratedOnce r)
        (.start suggestion strategy versions requests) events ↔
      Along Race.step Fresh (.start suggestion strategy versions requests) events :=
  along_state_iff_of_invariant (fun _ _ _ h hstep ↦ Race.tracked_step h hstep)
    (fun _ _ _ h honce hstep ↦ Race.regeneratedOnce_step_iff h honce hstep)
    Race.tracked_start Race.regeneratedOnce_start

/-- A pending suggestion on a strategy without versions. -/
def pendingSuggestion : StrategySuggestion := ⟨1, .pending, none, none⟩

def oneSuggestion (requests : List ℕ) : Race :=
  .start (some pendingSuggestion) (some ⟨none, none⟩) [] requests

/-- A thread from its first session to the version that it stores. -/
def toVersion (i : ℕ) : List Event :=
  [.call i .begin, .call i (.review (some true) "thread"),
    .call i (.node (.strategyGenerator ⟨.equity, ["INFY"], none⟩)),
    .call i (.node (.optionsStrategyAgent ⟨none, none, none⟩)),
    .call i (.node (.pythonCodeGenerator "buy()"))]

def overlapping : List Event := [.call 0 .check, .call 1 .check] ++ toVersion 0 ++ toVersion 1

theorem not_along_of_two_versions {r : Race} (events : List Event) {event : Event}
    {versions : List (ℕ × Option ℕ)}
    (hrun : (exec Race.step r (events ++ [event])).map
      (fun r ↦ r.versions.map fun v ↦ (v.versionNo, v.storedBy)) = some versions)
    (htwo : 1 < versions.countP (·.2.isSome)) :
    ¬ Along Race.step (fun _ _ r ↦ RegeneratedOnce r) r (events ++ [event]) := by
  intro h
  obtain ⟨r', hr, rfl⟩ := Option.map_eq_some_iff.mp hrun
  obtain ⟨-, honce⟩ := h.last (exec_eq_some.mp hr)
  rw [List.countP_map] at htwo
  exact absurd honce.version (Nat.not_le.mpr htwo)

/-- Both requests find the suggestion pending, and both their threads store a version. -/
theorem overlapping_stores_twice :
    (exec Race.step (oneSuggestion [1, 1]) overlapping).map
        (fun r ↦ r.versions.map fun v ↦ (v.versionNo, v.storedBy)) =
      some [(1, some 0), (2, some 1)] ∧
    ¬ Along Race.step (fun _ _ r ↦ RegeneratedOnce r) (oneSuggestion [1, 1]) overlapping := by
  have hrun : (exec Race.step (oneSuggestion [1, 1]) overlapping).map
      (fun r ↦ r.versions.map fun v ↦ (v.versionNo, v.storedBy)) =
        some [(1, some 0), (2, some 1)] := by decide +kernel
  exact ⟨hrun, not_along_of_two_versions overlapping.dropLast hrun (by decide)⟩

/-- The version of a single thread fails validation, and the thread writes the code again. -/
def retried : List Event :=
  [.call 0 .check] ++ toVersion 0 ++
    [.call 0 (.node (.compliance ⟨.pass, [], true, true, true⟩)),
      .call 0 (.node (.pythonValidator ⟨false, none⟩)),
      .call 0 (.node (.pythonCodeGenerator "sell()"))]

example : (exec Race.step (oneSuggestion [1]) retried).map
    (fun r ↦ r.versions.map fun v ↦ (v.versionNo, v.storedBy)) =
      some [(1, some 0), (2, some 0)] := by decide +kernel

end TradingOS.Api.SuggestionReview
