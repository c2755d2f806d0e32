import TradingOS.Governance.TradingGate
import TradingOS.Lib.Lists

namespace TradingOS.Governance

open Lib Lib.Runs

/-- Where a call of `approve` or `reject` stands, with what its reads have returned. -/
inductive Phase
  | called
  | readRequest (request : ApprovalRequest)
  | readStrategy (request : ApprovalRequest) (strategy : Option Strategy)
  | locked (request : ApprovalRequest) (strategy : Option Strategy)
  | flushed (request : ApprovalRequest) (strategy : Option Strategy)
  | succeeded
  | refused (error : HttpError)
  deriving DecidableEq

structure Call where
  decision : Decision
  actorId : String
  phase : Phase
  deriving DecidableEq

/-- The statements of a call. The audit entry's advisory lock is taken before the session sends
its updates, and is held until the commit. -/
inductive Action
  | readRequest | readStrategy | lock | flush | commit
  deriving DecidableEq

/-- The committed database, and the calls by the order they came in. -/
structure Race where
  db : Db
  lock : Option ℕ
  calls : List Call
  deriving DecidableEq

def Decision.isBlank : Decision → Bool
  | approve => false
  | reject reason => strip reason = ""

def Db.admission (db : Db) (rid : RequestId) (d : Decision) : Phase :=
  if d.isBlank then .refused ⟨422, "a rejection reason is required (FR-053)"⟩
  else
    match db.loadPending rid with
    | .error e => .refused e
    | .ok request => .readRequest request

/-- What becomes visible when a call commits. The updates name their rows by key alone, and the
strategy's is sent only if the call has changed the status it read. -/
def Db.commitDecision (db : Db) (rid : RequestId) (call : Call) (request : ApprovalRequest)
    (strategy : Option Strategy) : Db :=
  let d := call.decision
  let before := strategy.map Strategy.status
  let after := (strategy.map d.applyTo).map Strategy.status
  let db :=
    match after with
    | none => db
    | some status => if before = after then db else db.setStatus request.strategyId status
  let db := db.modifyRequest rid fun r ↦
    { r with status := d.requestStatus, decidedBy := some call.actorId, reason := d.reason }
  { db with
    audit := db.audit ++
      [⟨call.actorId, d.action, rid, request.strategyId, before, after, d.reason⟩] }

namespace Race

def setPhase (r : Race) (i : ℕ) (phase : Phase) : Race :=
  { r with calls := r.calls.modify i fun call ↦ { call with phase := phase } }

def step (rid : RequestId) (r : Race) : ℕ × Action → Option Race
  | (i, action) =>
    match r.calls[i]? with
    | none => none
    | some call =>
      match action, call.phase with
      | .readRequest, .called => some (r.setPhase i (r.db.admission rid call.decision))
      | .readStrategy, .readRequest request =>
        some (r.setPhase i (.readStrategy request r.db.strategies[request.strategyId]?))
      | .lock, .readStrategy request strategy =>
        if r.lock = none then
          some { r.setPhase i (.locked request strategy) with lock := some i }
        else none
      | .flush, .locked request strategy => some (r.setPhase i (.flushed request strategy))
      | .commit, .flushed request strategy =>
        some
          { r.setPhase i .succeeded with
            db := r.db.commitDecision rid call request strategy
            lock := none }
      | _, _ => none

def begin (db : Db) (calls : List (Decision × String)) : Race :=
  ⟨db, none, calls.map fun c ↦ ⟨c.1, c.2, .called⟩⟩

end Race

/-- A call that has found the request pending: nothing in it looks at the status again. -/
def Phase.isAdmitted : Phase → Bool
  | called | refused _ => false
  | _ => true

def Phase.isOver : Phase → Bool
  | succeeded | refused _ => true
  | _ => false

def Race.Finished (r : Race) : Prop := ∀ call ∈ r.calls, call.phase.isOver

/-- One call has succeeded, its entry is all that the audit log has gained, and the strategy is
where that decision puts it. -/
def DecidedOnce (rid : RequestId) (request : ApprovalRequest) (db : Db) (r : Race) : Prop :=
  ∃ (i : ℕ) (call : Call), r.calls[i]? = some call ∧ call.phase = .succeeded ∧
    (∀ (j : ℕ) (call' : Call), r.calls[j]? = some call' → call'.phase = .succeeded → j = i) ∧
    (∃ entry, r.db.audit = db.audit ++ [entry] ∧ entry.entityId = rid ∧
      entry.action = call.decision.action) ∧
    r.db.strategies[request.strategyId]? =
      (db.strategies[request.strategyId]?).map call.decision.applyTo

/-- A call with a reason to give, if it needs one, does not read the request pending while
another that has read it pending is yet to commit. -/
def ReadsAlone (rid : RequestId) (r : Race) : ℕ × Action → Race → Prop
  | (i, .readRequest), _ => ∀ (call : Call) (j : ℕ) (call' : Call) (request : ApprovalRequest),
    r.calls[i]? = some call →
    call.decision.isBlank = false → r.db.loadPending rid = .ok request →
    r.calls[j]? = some call' → call'.phase.isAdmitted → call'.phase = .succeeded
  | _, _ => True

/-- One statement of one call. -/
inductive Advance (rid : RequestId) (db : Db) (call : Call) : Action → Phase → Db → Prop
  | readRequest :
      call.phase = .called →
      Advance rid db call .readRequest (db.admission rid call.decision) db
  | readStrategy {request : ApprovalRequest} :
      call.phase = .readRequest request →
      Advance rid db call .readStrategy
        (.readStrategy request db.strategies[request.strategyId]?) db
  | lock {request : ApprovalRequest} {strategy : Option Strategy} :
      call.phase = .readStrategy request strategy →
      Advance rid db call .lock (.locked request strategy) db
  | flush {request : ApprovalRequest} {strategy : Option Strategy} :
      call.phase = .locked request strategy →
      Advance rid db call .flush (.flushed request strategy) db
  | commit {request : ApprovalRequest} {strategy : Option Strategy} :
      call.phase = .flushed request strategy →
      Advance rid db call .commit .succeeded (db.commitDecision rid call request strategy)

namespace Race

variable {rid : RequestId} {r r' : Race} {i : ℕ} {action : Action}

theorem step_advance (h : r.step rid (i, action) = some r') :
    ∃ call phase, r.calls[i]? = some call ∧ Advance rid r.db call action phase r'.db ∧
      r'.calls = r.calls.modify i (fun call ↦ { call with phase := phase }) := by
  simp only [step] at h
  split at h
  · cases h
  · next call hcall =>
    split at h
    · next hphase =>
      obtain rfl := Option.some.inj h
      exact ⟨call, _, hcall, .readRequest hphase, rfl⟩
    · next request hphase =>
      obtain rfl := Option.some.inj h
      exact ⟨call, _, hcall, .readStrategy hphase, rfl⟩
    · next request strategy hphase =>
      split_ifs at h
      obtain rfl := Option.some.inj h
      exact ⟨call, _, hcall, .lock hphase, rfl⟩
    · next request strategy hphase =>
      obtain rfl := Option.some.inj h
      exact ⟨call, _, hcall, .flush hphase, rfl⟩
    · next request strategy hphase =>
      obtain rfl := Option.some.inj h
      exact ⟨call, _, hcall, .commit hphase, rfl⟩
    · cases h

theorem calls_step {phase : Phase} (h : r'.calls = r.calls.modify i fun call ↦
    { call with phase := phase }) {j : ℕ} {call' : Call} (hj : r'.calls[j]? = some call') :
    ∃ call, r.calls[j]? = some call ∧
      call' = if j = i then { call with phase := phase } else call := by
  rw [h, List.getElem?_modify, Option.map_eq_map, Option.map_eq_some_iff] at hj
  obtain ⟨call, hcall, rfl⟩ := hj
  refine ⟨call, hcall, ?_⟩
  by_cases hi : j = i
  · simp [hi]
  · simp [hi, Ne.symm hi]

theorem calls_step_self {call : Call} {phase : Phase} (h : r'.calls = r.calls.modify i fun call ↦
    { call with phase := phase }) (hi : r.calls[i]? = some call) :
    r'.calls[i]? = some { call with phase := phase } := by
  rw [h, List.getElem?_modify_eq, hi]
  rfl

theorem calls_step_of_ne {phase : Phase} (h : r'.calls = r.calls.modify i fun call ↦
    { call with phase := phase }) {j : ℕ} (hj : j ≠ i) : r'.calls[j]? = r.calls[j]? := by
  rw [h, List.getElem?_modify, Option.map_eq_map]
  simp [hj.symm]

end Race

theorem Advance.of_readRequest {rid : RequestId} {db db' : Db} {call : Call} {phase : Phase}
    (h : Advance rid db call .readRequest phase db') :
    call.phase = .called ∧ phase = db.admission rid call.decision ∧ db' = db := by
  cases h with
  | readRequest hphase => exact ⟨hphase, rfl, rfl⟩

theorem Advance.isAdmitted {rid : RequestId} {db db' : Db} {call : Call} {action : Action}
    {phase : Phase} (h : Advance rid db call action phase db') (hadm : call.phase.isAdmitted) :
    phase.isAdmitted := by
  cases h with
  | readRequest hphase =>
    rw [hphase] at hadm
    cases hadm
  | _ => rfl

theorem Advance.isAdmitted_before {rid : RequestId} {db db' : Db} {call : Call} {action : Action}
    {phase : Phase} (h : Advance rid db call action phase db') (haction : action ≠ .readRequest) :
    call.phase.isAdmitted := by
  cases h with
  | readRequest => exact absurd rfl haction
  | readStrategy hphase | lock hphase | flush hphase | commit hphase =>
    rw [hphase]
    rfl

def Race.TwoAdmitted (r : Race) : Prop :=
  ∃ (i j : ℕ) (call call' : Call), i ≠ j ∧ r.calls[i]? = some call ∧ r.calls[j]? = some call' ∧
    call.phase.isAdmitted ∧ call'.phase.isAdmitted

namespace Race

variable {rid : RequestId} {r r' : Race} {label : ℕ × Action}

theorem step_admitted (hstep : r.step rid label = some r') {j : ℕ} {call : Call}
    (hj : r.calls[j]? = some call) (hadm : call.phase.isAdmitted) :
    ∃ call', r'.calls[j]? = some call' ∧ call'.phase.isAdmitted := by
  obtain ⟨call₀, phase, hi, hadv, hcalls⟩ := step_advance hstep
  by_cases hji : j = label.1
  · subst hji
    obtain rfl := Option.some.inj (hj.symm.trans hi)
    exact ⟨_, calls_step_self hcalls hi, hadv.isAdmitted hadm⟩
  · exact ⟨call, (calls_step_of_ne hcalls hji).trans hj, hadm⟩

theorem TwoAdmitted.step (h : r.TwoAdmitted) (hstep : r.step rid label = some r') :
    r'.TwoAdmitted := by
  obtain ⟨i, j, call, call', hne, hi, hj, hadm, hadm'⟩ := h
  obtain ⟨call₁, hi₁, hadm₁⟩ := step_admitted hstep hi hadm
  obtain ⟨call₂, hj₂, hadm₂⟩ := step_admitted hstep hj hadm'
  exact ⟨i, j, call₁, call₂, hne, hi₁, hj₂, hadm₁, hadm₂⟩

theorem twoAdmitted_of_not_readsAlone (hstep : r.step rid label = some r')
    (h : ¬ ReadsAlone rid r label r') : r'.TwoAdmitted := by
  obtain ⟨i, action⟩ := label
  cases action with
  | readRequest =>
    simp only [ReadsAlone, not_forall] at h
    obtain ⟨call, j, call', request, hi, hblank, hload, hj, hadm, hopen⟩ := h
    obtain ⟨call₀, phase, hi₀, hadv, hcalls⟩ := step_advance hstep
    obtain rfl := Option.some.inj (hi.symm.trans hi₀)
    obtain ⟨hphase, rfl, -⟩ := hadv.of_readRequest
    have hne : i ≠ j := by
      rintro rfl
      obtain rfl := Option.some.inj (hi.symm.trans hj)
      rw [hphase] at hadm
      cases hadm
    refine ⟨i, j, _, call', hne, calls_step_self hcalls hi,
      (calls_step_of_ne hcalls hne.symm).trans hj, ?_, hadm⟩
    simp [Db.admission, hblank, hload, Phase.isAdmitted]
  | _ => exact absurd trivial h

theorem not_decidedOnce {request : ApprovalRequest} {db : Db} (h : r.TwoAdmitted)
    (hfin : r.Finished) : ¬ DecidedOnce rid request db r := by
  rintro ⟨k, -, -, -, honly, -⟩
  obtain ⟨i, j, call, call', hne, hi, hj, hadm, hadm'⟩ := h
  have hover {j : ℕ} {call : Call} (hj : r.calls[j]? = some call)
      (hadm : call.phase.isAdmitted) : call.phase = .succeeded := by
    have hend := hfin call (List.mem_of_getElem? hj)
    cases hphase : call.phase <;> simp_all [Phase.isAdmitted, Phase.isOver]
  exact hne ((honly i call hi (hover hi hadm)).trans (honly j call' hj (hover hj hadm')).symm)

end Race

namespace Db

variable {db : Db} {rid : RequestId} {request : ApprovalRequest}

theorem admission_cases (db : Db) (rid : RequestId) (d : Decision) :
    (∃ e, db.admission rid d = .refused e ∧
        (d.isBlank = false → ∃ e, db.loadPending rid = .error e)) ∨
      d.isBlank = false ∧ ∃ request, db.loadPending rid = .ok request ∧
        db.admission rid d = .readRequest request := by
  simp only [admission]
  cases d.isBlank with
  | true => exact .inl ⟨_, rfl, nofun⟩
  | false =>
    cases db.loadPending rid with
    | error e => exact .inl ⟨e, rfl, fun _ ↦ ⟨e, rfl⟩⟩
    | ok request => exact .inr ⟨rfl, request, rfl, rfl⟩

theorem applyTo_status_eq_self {d : Decision} {s : Strategy}
    (h : s.status = (d.applyTo s).status) : d.applyTo s = s := by
  simp only [Decision.applyTo] at h ⊢
  split_ifs at h ⊢ with hwait
  · rw [hwait] at h
    cases d <;> cases h
  · rfl

/-- A call that nobody comes between does what `decideRequest` does in one transaction. -/
theorem decideRequest_eq_commitDecision (h : db.loadPending rid = .ok request) (call : Call) :
    db.decideRequest rid call.decision call.actorId =
      .ok (db.commitDecision rid call request db.strategies[request.strategyId]?) := by
  obtain ⟨d, actorId, phase⟩ := call
  have hafter : ((db.modifyStrategy request.strategyId d.applyTo).strategies[request.strategyId]?) =
      (db.strategies[request.strategyId]?).map d.applyTo :=
    List.getElem?_modify_eq _ _ _
  simp only [decideRequest, h, commitDecision, hafter]
  cases hs : db.strategies[request.strategyId]? with
  | none =>
    have hstay : db.modifyStrategy request.strategyId d.applyTo = db := by
      rw [modifyStrategy, modify_eq_self fun s hs' ↦ by rw [hs] at hs'; cases hs']
    rw [hstay]
    rfl
  | some s =>
    simp only [Option.map_some, Option.some.injEq]
    split_ifs with hsame
    · have hstay : db.modifyStrategy request.strategyId d.applyTo = db := by
        rw [modifyStrategy, modify_eq_self fun s' hs' ↦ ?_]
        obtain rfl := Option.some.inj (hs.symm.trans hs')
        exact applyTo_status_eq_self hsame
      rw [hstay]
    · have hset : db.modifyStrategy request.strategyId d.applyTo =
          db.setStatus request.strategyId (d.applyTo s).status := by
        rw [modifyStrategy, setStatus, modifyStrategy, modify_congr fun s' hs' ↦ ?_]
        obtain rfl := Option.some.inj (hs.symm.trans hs')
        simp only [Decision.applyTo]
        split <;> rfl
      rw [hset]

theorem loadPending_of_decideRequest {db' : Db} {d : Decision} {actorId : String}
    (h : db.decideRequest rid d actorId = .ok db') : ∃ e, db'.loadPending rid = .error e := by
  obtain ⟨-, -, -, -, -, hrequests, -⟩ := decideRequest_eq_ok h
  cases hload : db'.loadPending rid with
  | error e => exact ⟨e, rfl⟩
  | ok request' =>
    obtain ⟨hmem, hid, hpending⟩ := loadPending_eq_ok hload
    rw [hrequests] at hmem
    obtain ⟨r, -, rfl⟩ := List.mem_map.mp hmem
    split_ifs at hid hpending with hr
    · cases d <;> cases hpending
    · exact absurd hid hr

end Db

/-- What a call has read while it was the only one admitted. -/
def Phase.Consistent (rid : RequestId) (request : ApprovalRequest) (db db' : Db) (d : Decision)
    (actorId : String) : Phase → Prop
  | called | refused _ => True
  | readRequest request' => request' = request ∧ db' = db
  | readStrategy request' strategy | locked request' strategy | flushed request' strategy =>
    request' = request ∧ strategy = db.strategies[request.strategyId]? ∧ db' = db
  | succeeded => db.decideRequest rid d actorId = .ok db'

theorem Advance.consistent {rid : RequestId} {request : ApprovalRequest} {db db₁ db₂ : Db}
    {call : Call} {action : Action} {phase : Phase} (h : Advance rid db₁ call action phase db₂)
    (hpending : db.loadPending rid = .ok request) (hadm : call.phase.isAdmitted)
    (hcons : call.phase.Consistent rid request db db₁ call.decision call.actorId) :
    phase.Consistent rid request db db₂ call.decision call.actorId := by
  cases h with
  | readRequest hphase =>
    rw [hphase] at hadm
    cases hadm
  | readStrategy hphase =>
    rw [hphase] at hcons
    obtain ⟨rfl, rfl⟩ := hcons
    exact ⟨rfl, rfl, rfl⟩
  | lock hphase | flush hphase =>
    rw [hphase] at hcons
    exact hcons
  | commit hphase =>
    rw [hphase] at hcons
    obtain ⟨rfl, rfl, rfl⟩ := hcons
    exact Db.decideRequest_eq_commitDecision hpending call

/-- At most one call has been admitted, and it works on the database as it was at the start. -/
structure Race.Serial (rid : RequestId) (request : ApprovalRequest) (db : Db) (r : Race) : Prop where
  consistent : ∀ (i : ℕ) (call : Call), r.calls[i]? = some call →
    call.phase.Consistent rid request db r.db call.decision call.actorId
  unique : ∀ (i j : ℕ) (call call' : Call), r.calls[i]? = some call → r.calls[j]? = some call' →
    call.phase.isAdmitted → call'.phase.isAdmitted → i = j
  untouched : r.db = db ∨ ∃ call ∈ r.calls, call.phase.isAdmitted
  waiting : ∀ call ∈ r.calls, call.decision.isBlank = false →
    call.phase = .called ∨ ∃ call' ∈ r.calls, call'.phase.isAdmitted

namespace Race

variable {rid : RequestId} {request : ApprovalRequest} {db : Db} {r r' : Race}
  {label : ℕ × Action}

theorem called_begin (db : Db) (calls : List (Decision × String)) :
    ∀ call ∈ (Race.begin db calls).calls, call.phase = .called := by
  intro call hcall
  obtain ⟨c, -, rfl⟩ := List.mem_map.mp hcall
  rfl

theorem serial_begin (calls : List (Decision × String)) :
    (Race.begin db calls).Serial rid request db := by
  have hcalled := called_begin db calls
  refine ⟨fun i call hi ↦ ?_, fun i j call call' hi _ hadm ↦ ?_, .inl rfl, fun call hcall _ ↦
    .inl (hcalled call hcall)⟩
  · rw [hcalled call (List.mem_of_getElem? hi)]
    trivial
  · rw [hcalled call (List.mem_of_getElem? hi)] at hadm
    cases hadm

theorem Serial.no_admitted (h : r.Serial rid request db) {request' : ApprovalRequest}
    (hload : r.db.loadPending rid = .ok request')
    (hdone : ∀ (j : ℕ) (call : Call), r.calls[j]? = some call → call.phase.isAdmitted →
      call.phase = .succeeded) :
    ∀ call ∈ r.calls, call.phase.isAdmitted = false := by
  intro call hmem
  obtain ⟨j, hj⟩ := List.mem_iff_getElem?.mp hmem
  by_contra hadm
  rw [Bool.not_eq_false] at hadm
  have hcons := h.consistent j call hj
  rw [hdone j call hj hadm] at hcons
  obtain ⟨e, he⟩ := Db.loadPending_of_decideRequest hcons
  rw [he] at hload
  cases hload

theorem Serial.step_readRequest (h : r.Serial rid request db)
    (hpending : db.loadPending rid = .ok request) {i : ℕ}
    (halone : ReadsAlone rid r (i, .readRequest) r')
    (hstep : r.step rid (i, .readRequest) = some r') : r'.Serial rid request db := by
  obtain ⟨call, phase, hi, hadv, hcalls⟩ := step_advance hstep
  obtain ⟨hphase, rfl, hdb⟩ := hadv.of_readRequest
  have hkeep : (∃ call ∈ r.calls, call.phase.isAdmitted) →
      ∃ call ∈ r'.calls, call.phase.isAdmitted := by
    rintro ⟨call', hmem, hadm⟩
    obtain ⟨j, hj⟩ := List.mem_iff_getElem?.mp hmem
    obtain ⟨call'', hj', hadm'⟩ := step_admitted hstep hj hadm
    exact ⟨call'', List.mem_of_getElem? hj', hadm'⟩
  have huntouched : r'.db = db ∨ ∃ call ∈ r'.calls, call.phase.isAdmitted := by
    rw [hdb]
    exact h.untouched.imp_right hkeep
  have hother {j : ℕ} {call' : Call} (hj : r'.calls[j]? = some call') (hne : j ≠ i) :
      r.calls[j]? = some call' := (calls_step_of_ne hcalls hne).symm.trans hj
  have hself {call' : Call} (hi' : r'.calls[i]? = some call') :
      call' = { call with phase := r.db.admission rid call.decision } :=
    Option.some.inj (hi'.symm.trans (calls_step_self hcalls hi))
  rcases r.db.admission_cases rid call.decision with
    ⟨e, hadmission, hreason⟩ | ⟨hblank, request', hload, hadmission⟩
  · -- refused: nobody new is admitted, and a call with a reason has met a decided request
    refine ⟨fun j call' hj ↦ ?_, fun j k call₁ call₂ hj hk hadm₁ hadm₂ ↦ ?_, huntouched,
      fun call' hmem hblank ↦ ?_⟩
    · by_cases hne : j = i
      · subst hne
        rw [hself hj, hadmission]
        trivial
      · rw [hdb]
        exact h.consistent j call' (hother hj hne)
    · have hneq {j : ℕ} {call' : Call} (hj : r'.calls[j]? = some call')
          (hadm : call'.phase.isAdmitted) : j ≠ i := by
        rintro rfl
        rw [hself hj, hadmission] at hadm
        cases hadm
      exact h.unique j k call₁ call₂ (hother hj (hneq hj hadm₁)) (hother hk (hneq hk hadm₂))
        hadm₁ hadm₂
    · obtain ⟨j, hj⟩ := List.mem_iff_getElem?.mp hmem
      by_cases hne : j = i
      · subst hne
        rw [hself hj] at hblank
        obtain ⟨e', he'⟩ := hreason hblank
        refine .inr (huntouched.resolve_left fun hsame ↦ ?_)
        rw [← hdb, hsame, hpending] at he'
        cases he'
      · exact (h.waiting call' (List.mem_of_getElem? (hother hj hne)) hblank).imp_right hkeep
  · -- admitted: it is the only one, and reads the database of the start
    have hnone := h.no_admitted hload fun j call' hj ↦
      halone call j call' request' hi hblank hload hj
    have hstart : r.db = db := by
      refine h.untouched.resolve_right ?_
      rintro ⟨call', hmem, hadm⟩
      rw [hnone call' hmem] at hadm
      cases hadm
    obtain rfl : request = request' := by
      rw [hstart, hpending] at hload
      exact Except.ok.inj hload
    have honly {j : ℕ} {call' : Call} (hj : r'.calls[j]? = some call')
        (hadm : call'.phase.isAdmitted) : j = i := by
      by_contra hne
      rw [hnone call' (List.mem_of_getElem? (hother hj hne))] at hadm
      cases hadm
    refine ⟨fun j call' hj ↦ ?_, fun j k call₁ call₂ hj hk hadm₁ hadm₂ ↦ ?_, huntouched,
      fun call' _ _ ↦ .inr ?_⟩
    · by_cases hne : j = i
      · subst hne
        rw [hself hj, hadmission]
        exact ⟨rfl, hdb.trans hstart⟩
      · rw [hdb]
        exact h.consistent j call' (hother hj hne)
    · exact (honly hj hadm₁).trans (honly hk hadm₂).symm
    · refine ⟨_, List.mem_of_getElem? (calls_step_self hcalls hi), ?_⟩
      rw [hadmission]
      rfl

theorem Serial.step_of_admitted (h : r.Serial rid request db)
    (hpending : db.loadPending rid = .ok request) {i : ℕ} {action : Action} {call : Call}
    {phase : Phase} (hi : r.calls[i]? = some call) (hadm : call.phase.isAdmitted)
    (hadv : Advance rid r.db call action phase r'.db)
    (hcalls : r'.calls = r.calls.modify i fun call ↦ { call with phase := phase }) :
    r'.Serial rid request db := by
  have hadmitted : ∃ call ∈ r'.calls, call.phase.isAdmitted :=
    ⟨_, List.mem_of_getElem? (calls_step_self hcalls hi), hadv.isAdmitted hadm⟩
  have hother {j : ℕ} {call' : Call} (hj : r'.calls[j]? = some call') (hne : j ≠ i) :
      call'.phase.isAdmitted = false := by
    by_contra hadm'
    rw [Bool.not_eq_false] at hadm'
    exact hne (h.unique j i call' call ((calls_step_of_ne hcalls hne).symm.trans hj) hi hadm' hadm)
  refine ⟨fun j call' hj ↦ ?_, fun j k call₁ call₂ hj hk hadm₁ hadm₂ ↦ ?_, .inr hadmitted,
    fun _ _ _ ↦ .inr hadmitted⟩
  · by_cases hne : j = i
    · subst hne
      obtain rfl := Option.some.inj (hj.symm.trans (calls_step_self hcalls hi))
      exact hadv.consistent hpending hadm (h.consistent j call hi)
    · have hidle := hother hj hne
      cases hphase : call'.phase <;> simp_all [Phase.isAdmitted, Phase.Consistent]
  · have hi' {j : ℕ} {call' : Call} (hj : r'.calls[j]? = some call')
        (hadm : call'.phase.isAdmitted) : j = i := by
      by_contra hne
      rw [hother hj hne] at hadm
      cases hadm
    exact (hi' hj hadm₁).trans (hi' hk hadm₂).symm

theorem Serial.step (h : r.Serial rid request db) (hpending : db.loadPending rid = .ok request)
    (halone : ReadsAlone rid r label r') (hstep : r.step rid label = some r') :
    r'.Serial rid request db := by
  obtain ⟨i, action⟩ := label
  cases action with
  | readRequest => exact h.step_readRequest hpending halone hstep
  | _ =>
    obtain ⟨call, phase, hi, hadv, hcalls⟩ := step_advance hstep
    exact h.step_of_admitted hpending hi (hadv.isAdmitted_before nofun) hadv hcalls

/-- In a run with one admitted call at a time, all calls over, the admitted one has decided. -/
theorem Serial.decidedOnce (h : r.Serial rid request db)
    (hpending : db.loadPending rid = .ok request) (hfin : r.Finished)
    (hreason : ∃ call ∈ r.calls, call.decision.isBlank = false) : DecidedOnce rid request db r := by
  have hover {call : Call} (hmem : call ∈ r.calls) (hadm : call.phase.isAdmitted) :
      call.phase = .succeeded := by
    have hend := hfin call hmem
    cases hphase : call.phase <;> simp_all [Phase.isAdmitted, Phase.isOver]
  obtain ⟨call₀, hmem₀, hblank⟩ := hreason
  have hadmitted : ∃ call ∈ r.calls, call.phase.isAdmitted := by
    refine (h.waiting call₀ hmem₀ hblank).resolve_left fun hcalled ↦ ?_
    have hend := hfin call₀ hmem₀
    rw [hcalled] at hend
    cases hend
  obtain ⟨call, hmem, hadm⟩ := hadmitted
  obtain ⟨i, hi⟩ := List.mem_iff_getElem?.mp hmem
  have hcons := h.consistent i call hi
  rw [hover hmem hadm] at hcons
  obtain ⟨request', -, -, -, hstrategies, -, -, hload, hentry⟩ := Db.decideRequest_eq_ok hcons
  obtain rfl := Except.ok.inj (hpending.symm.trans hload)
  refine ⟨i, call, hi, hover hmem hadm, fun j call' hj hdone ↦ ?_, hentry, ?_⟩
  · refine h.unique j i call' call hj hi ?_ hadm
    rw [hdone]
    rfl
  · rw [hstrategies, List.getElem?_modify_eq]
    rfl

def NoBlankAdmitted (r : Race) : Prop :=
  ∀ call ∈ r.calls, call.phase.isAdmitted → call.decision.isBlank = false

theorem noBlankAdmitted_begin (db : Db) (calls : List (Decision × String)) :
    (Race.begin db calls).NoBlankAdmitted := by
  intro call hmem hadm
  rw [called_begin db calls call hmem] at hadm
  cases hadm

theorem NoBlankAdmitted.step (h : r.NoBlankAdmitted) (hstep : r.step rid label = some r') :
    r'.NoBlankAdmitted := by
  obtain ⟨call, phase, hi, hadv, hcalls⟩ := step_advance hstep
  intro call' hmem hadm
  obtain ⟨j, hj⟩ := List.mem_iff_getElem?.mp hmem
  obtain ⟨call₀, hj₀, rfl⟩ := calls_step hcalls hj
  split_ifs at hadm ⊢ with hji
  · subst hji
    obtain rfl := Option.some.inj (hi.symm.trans hj₀)
    by_cases haction : label.2 = .readRequest
    · rw [haction] at hadv
      obtain ⟨-, rfl, -⟩ := hadv.of_readRequest
      rcases r.db.admission_cases rid call.decision with ⟨e, hadmission, -⟩ | ⟨hblank, -⟩
      · rw [hadmission] at hadm
        cases hadm
      · exact hblank
    · exact h call (List.mem_of_getElem? hi) (hadv.isAdmitted_before haction)
  · exact h call₀ (List.mem_of_getElem? hj₀) hadm

/-- The calls are the ones that were made. -/
theorem step_decisions (hstep : r.step rid label = some r') :
    r'.calls.map (fun call ↦ (call.decision, call.actorId)) =
      r.calls.map (fun call ↦ (call.decision, call.actorId)) := by
  obtain ⟨call, phase, -, -, hcalls⟩ := step_advance hstep
  apply List.ext_getElem?
  intro j
  rw [hcalls, List.getElem?_map, List.getElem?_map, List.getElem?_modify]
  cases r.calls[j]? with
  | none => rfl
  | some call =>
    simp only [Option.map_eq_map, Option.map_some]
    split <;> rfl

end Race

/-- For every interleaving of the statements of any number of decisions on one pending request:
it is decided once exactly if some call is more than a rejection without a reason, and no such
call reads the request pending between another's read and its commit. -/
theorem decided_once_iff (rid : RequestId) (request : ApprovalRequest) (db : Db)
    (calls : List (Decision × String)) (events : List (ℕ × Action)) (r : Race)
    (hpending : db.loadPending rid = .ok request)
    (hrun : Run (Race.step rid) (.begin db calls) events r) (hfin : r.Finished) :
    DecidedOnce rid request db r ↔
      (∃ c ∈ calls, c.1.isBlank = false) ∧
        Along (Race.step rid) (ReadsAlone rid) (.begin db calls) events := by
  have hcalls : r.calls.map (fun call ↦ (call.decision, call.actorId)) = calls := by
    refine hrun.invariant (fun _ _ _ h hst ↦ (Race.step_decisions hst).trans h) ?_
    simp only [Race.begin, List.map_map, Function.comp_def, List.map_id']
  constructor
  · intro honce
    refine ⟨?_, ?_⟩
    · have hreasons : r.NoBlankAdmitted :=
        hrun.invariant (fun _ _ _ h hst ↦ Race.NoBlankAdmitted.step h hst)
          (Race.noBlankAdmitted_begin db calls)
      obtain ⟨i, call, hi, hdone, -⟩ := honce
      have hmem := List.mem_of_getElem? hi
      have hblank := hreasons call hmem (by rw [hdone]; rfl)
      refine ⟨(call.decision, call.actorId), ?_, hblank⟩
      rw [← hcalls]
      exact List.mem_map_of_mem hmem
    · have hends := hrun.along_or
        (fun _ _ _ hst hno ↦ Race.twoAdmitted_of_not_readsAlone hst hno)
        (fun _ _ _ h hst ↦ Race.TwoAdmitted.step h hst)
      exact hends.resolve_right fun htwo ↦ Race.not_decidedOnce htwo hfin honce
  · rintro ⟨⟨c, hc, hblank⟩, halone⟩
    have hserial : r.Serial rid request db :=
      hrun.invariant_along (fun _ _ _ h hal hst ↦ h.step hpending hal hst) halone
        (Race.serial_begin calls)
    refine hserial.decidedOnce hpending hfin ?_
    rw [← hcalls] at hc
    obtain ⟨call, hmem, rfl⟩ := List.mem_map.mp hc
    exact ⟨call, hmem, hblank⟩

def openRequest : ApprovalRequest := ⟨0, 0, some 0, .pending, none, none⟩

def parked : Db := ⟨[⟨.pendingPaperApproval, some 0⟩], 1, [openRequest], []⟩

def twoDecisions : List (Decision × String) :=
  [(.approve, "pm@desk"), (.reject "drawdown too deep", "admin@desk")]

def oneAfterTheOther : List (ℕ × Action) :=
  [(0, .readRequest), (0, .readStrategy), (0, .lock), (0, .flush), (0, .commit),
    (1, .readRequest)]

def decidedInTurn : Race :=
  (exec (Race.step 0) (.begin parked twoDecisions) oneAfterTheOther).get (by decide +kernel)

theorem decided_once_in_turn : DecidedOnce 0 openRequest parked decidedInTurn := by
  have hrun : Run (Race.step 0) (.begin parked twoDecisions) oneAfterTheOther decidedInTurn :=
    exec_eq_some.mp (Option.some_get (by decide +kernel)).symm
  have hfin : decidedInTurn.Finished := by
    simp only [Race.Finished]
    decide +kernel
  refine (decided_once_iff 0 openRequest parked _ _ _ rfl hrun hfin).mpr
    ⟨⟨_, List.mem_cons_self, rfl⟩, fun _ _ call' _ _ _ _ hj hadm ↦ ?_, trivial, trivial, trivial,
      trivial, fun _ _ _ _ _ _ hload _ _ ↦ ?_, trivial⟩
  · rw [Race.called_begin parked twoDecisions call' (List.mem_of_getElem? hj)] at hadm
    cases hadm
  · have hdecided : Except.error _ = Except.ok _ := hload
    cases hdecided

def bothReadFirst : List (ℕ × Action) :=
  [(0, .readRequest), (1, .readRequest), (0, .readStrategy), (1, .readStrategy), (0, .lock),
    (0, .flush), (0, .commit), (1, .lock), (1, .flush), (1, .commit)]

def decidedTwice : Race :=
  (exec (Race.step 0) (.begin parked twoDecisions) bothReadFirst).get (by decide +kernel)

/-- Both calls read the request pending, then wait for each other at the audit lock: the approval
and the rejection both succeed, with an audit entry each. -/
theorem request_decided_twice :
    Run (Race.step 0) (.begin parked twoDecisions) bothReadFirst decidedTwice ∧
      decidedTwice.Finished ∧ ¬ DecidedOnce 0 openRequest parked decidedTwice := by
  refine ⟨exec_eq_some.mp (Option.some_get (by decide +kernel)).symm, ?_, ?_⟩
  · simp only [Race.Finished]
    decide +kernel
  · rintro ⟨k, -, -, -, honly, -⟩
    have hfirst := honly 0 _ rfl rfl
    have hsecond := honly 1 _ rfl rfl
    omega

end TradingOS.Governance
