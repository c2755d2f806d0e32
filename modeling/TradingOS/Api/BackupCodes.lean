import TradingOS.Api.Mfa
import TradingOS.Lib.Calls

namespace TradingOS.Api.BackupCodes

open Lib Lib.Runs Mfa

/-- A verification with a backup code. -/
structure Request where
  userId : ℕ
  email : String
  backupCode : String
  deriving DecidableEq

/-- The committed rows. A backup code is named by its place. -/
structure Db where
  codes : List MfaBackupCode
  refreshTokens : List (ℕ × String)
  audit : List AuditEntry
  deriving DecidableEq

/-- Where a call stands. `matched`, `audited` and `signed` lead to a session, `unmatched` and
`refusing` to none. -/
inductive Phase
  | called
  | matched (code : ℕ) (usedAt : ℤ)
  | audited (code : ℕ) (usedAt : ℤ)
  | signed (code : ℕ) (usedAt : ℤ) (refreshToken : String)
  | issued (code : ℕ)
  | unmatched
  | refusing
  | refused
  | failed
  deriving DecidableEq

namespace Phase

def isOver : Phase → Bool
  | issued _ | refused | failed => true
  | _ => false

/-- The code that a call has read as unused and not yet committed. -/
def claims : Phase → Option ℕ
  | matched code _ | audited code _ | signed code _ _ => some code
  | _ => none

def issuedCode : Phase → Option ℕ
  | issued code => some code
  | _ => none

end Phase

/-- A read comes with the row that it finds; the rows come in any order. -/
inductive Action
  | read (found : Option ℕ) (now : ℤ)
  | writeAudit
  | issueSession (refreshToken : String)
  | commit
  | fail
  deriving DecidableEq

namespace Db

variable (db : Db)

def isUnused (code : ℕ) : Bool := (db.codes[code]?).any fun row ↦ row.usedAt = none

/-- An unused row of the user that `checkpw` takes the presented code for. -/
def isMatch (checkpw : String → String → Bool) (request : Request) (code : ℕ) : Bool :=
  (db.codes[code]?).any fun row ↦
    row.userId = request.userId ∧ row.usedAt = none ∧ checkpw request.backupCode row.codeHash

/-- The update names its row by the key alone. -/
def use (code : ℕ) (usedAt : ℤ) : Db :=
  { db with codes := db.codes.modify code fun row ↦ { row with usedAt := some usedAt } }

def writeAuditEntry (request : Request) (action : String) : Db :=
  { db with audit := db.audit ++ [⟨request.email, action, some request.userId⟩] }

end Db

/-- The committed database, the holder of the audit log's advisory lock, and the calls. -/
structure Race where
  db : Db
  auditLock : Option ℕ
  calls : List (Served Request Phase)
  deriving DecidableEq

namespace Race

def move (r : Race) (i : ℕ) (phase : Phase) : Race :=
  { r with calls := Served.move r.calls i phase }

def lock (r : Race) (i : ℕ) (phase : Phase) : Option Race :=
  if r.auditLock = none then some { r.move i phase with auditLock := some i } else none

/-- A call at the next point where others can come between. The update of the code's row is sent
while the lock of the audit log is held, up to the end of the transaction. -/
def step (checkpw : String → String → Bool) (r : Race) : ℕ × Action → Option Race
  | (i, action) =>
    match r.calls[i]? with
    | none => none
    | some ⟨request, phase⟩ =>
      match action, phase with
      | .read (some code) now, .called =>
        if r.db.isMatch checkpw request code then some (r.move i (.matched code now)) else none
      | .read none _, .called =>
        if (List.range r.db.codes.length).any (r.db.isMatch checkpw request) then none
        else some (r.move i .unmatched)
      | .writeAudit, .matched code usedAt => r.lock i (.audited code usedAt)
      | .writeAudit, .unmatched => r.lock i .refusing
      | .issueSession refreshToken, .audited code usedAt =>
        some (r.move i (.signed code usedAt refreshToken))
      | .commit, .signed code usedAt refreshToken =>
        let used := (r.db.use code usedAt).writeAuditEntry request "MFA_LOGIN_SUCCESS"
        some
          { r.move i (.issued code) with
            db := { used with refreshTokens := used.refreshTokens ++ [(request.userId, refreshToken)] }
            auditLock := none }
      | .commit, .refusing =>
        some
          { r.move i .refused with
            db := r.db.writeAuditEntry request "MFA_LOGIN_FAILURE"
            auditLock := none }
      | .fail, phase =>
        if phase.isOver then none
        else
          some
            { r.move i .failed with
              auditLock := if r.auditLock = some i then none else r.auditLock }
      | _, _ => none

def start (db : Db) (requests : List Request) : Race := ⟨db, none, Served.start requests .called⟩

end Race

/-- No code was used for two sessions, and the unused ones are the first ones less those that were
used for one. -/
structure SingleUse (initial : Db) (r : Race) : Prop where
  once : ∀ (i j code : ℕ) (call call' : Served Request Phase), r.calls[i]? = some call →
    r.calls[j]? = some call' → call.phase.issuedCode = some code →
      call'.phase.issuedCode = some code → i = j
  unused : ∀ code, r.db.isUnused code ↔
    initial.isUnused code ∧ ∀ call ∈ r.calls, call.phase.issuedCode ≠ some code

/-- The code that is used by an action, if it is the commit of a session. -/
def usedBy : Action → Phase → Option ℕ
  | .commit, .signed code _ _ => some code
  | _, _ => none

/-- The condition: a session that is committed finds its code unused. -/
def CommitsUnused (r : Race) (label : ℕ × Action) (_ : Race) : Prop :=
  ∀ call ∈ r.calls[label.1]?, ∀ code ∈ usedBy label.2 call.phase, r.db.isUnused code

instance (r r' : Race) (label : ℕ × Action) : Decidable (CommitsUnused r label r') :=
  inferInstanceAs (Decidable (∀ _ ∈ _, ∀ _ ∈ _, _))

namespace Db

variable {db : Db} {code k : ℕ} {usedAt : ℤ}

theorem isUnused_use : (db.use code usedAt).isUnused k ↔ k ≠ code ∧ db.isUnused k := by
  simp only [isUnused, use, List.getElem?_modify]
  by_cases h : code = k
  · subst h
    cases db.codes[code]? <;> simp
  · simp [h, Ne.symm h]

theorem isUnused_of_isMatch {checkpw : String → String → Bool} {request : Request}
    (h : db.isMatch checkpw request code) : db.isUnused code := by
  rw [isMatch] at h
  rw [isUnused]
  cases hrow : db.codes[code]? with
  | none => simp [hrow] at h
  | some row =>
    simp only [hrow, Option.any_some, decide_eq_true_eq] at h
    simpa using h.2.1

end Db

/-- What an action does: it uses the code it claims, or leaves the codes as they are. -/
inductive Advance (db : Db) (action : Action) : Phase → Phase → Db → Prop
  | quiet {phase phase' : Phase} {db' : Db} (hcodes : db'.codes = db.codes)
      (hused : usedBy action phase = none) (hopen : phase.issuedCode = none)
      (hnew : phase'.issuedCode = none)
      (hclaims : ∀ code, phase'.claims = some code →
        db.isUnused code ∨ phase.claims = some code) : Advance db action phase phase' db'
  | issue {code : ℕ} {usedAt : ℤ} {refreshToken : String} {db' : Db}
      (haction : action = .commit) (hcodes : db'.codes = (db.use code usedAt).codes) :
      Advance db action (.signed code usedAt refreshToken) (.issued code) db'

namespace Race

variable {checkpw : String → String → Bool} {r r' : Race} {i : ℕ} {action : Action}

theorem issuedCode_of_not_isOver {phase : Phase} (h : ¬ phase.isOver) :
    phase.issuedCode = none := by
  cases phase with
  | issued code => exact absurd rfl h
  | _ => rfl

theorem step_advance (h : r.step checkpw (i, action) = some r') :
    ∃ request phase phase', r.calls[i]? = some ⟨request, phase⟩ ∧
      Advance r.db action phase phase' r'.db ∧ r'.calls = Served.move r.calls i phase' := by
  simp only [step] at h
  split at h
  · cases h
  · next request phase hcall =>
    refine ⟨request, phase, ?_⟩
    split at h
    · split_ifs at h with hmatch
      cases h
      refine ⟨_, hcall, .quiet rfl rfl rfl rfl fun code hcode ↦ .inl ?_, rfl⟩
      obtain rfl := Option.some.inj hcode
      exact Db.isUnused_of_isMatch hmatch
    · split_ifs at h
      cases h
      exact ⟨_, hcall, .quiet rfl rfl rfl rfl (fun _ hcode ↦ by cases hcode), rfl⟩
    · rw [lock] at h
      split_ifs at h
      cases h
      exact ⟨.audited _ _, hcall, .quiet rfl rfl rfl rfl fun _ hcode ↦ .inr hcode, rfl⟩
    · rw [lock] at h
      split_ifs at h
      cases h
      exact ⟨_, hcall, .quiet rfl rfl rfl rfl (fun _ hcode ↦ by cases hcode), rfl⟩
    · cases h
      exact ⟨.signed _ _ _, hcall, .quiet rfl rfl rfl rfl fun _ hcode ↦ .inr hcode, rfl⟩
    · cases h
      exact ⟨_, hcall, .issue rfl rfl, rfl⟩
    · cases h
      exact ⟨_, hcall, .quiet rfl rfl rfl rfl (fun _ hcode ↦ by cases hcode), rfl⟩
    · split_ifs at h with hover
      all_goals
        cases h
        refine ⟨.failed, hcall, .quiet rfl rfl ?_ rfl (fun _ hcode ↦ by cases hcode), rfl⟩
        exact issuedCode_of_not_isOver hover
    · cases h

end Race

/-- The codes that calls claim were unused at first, and those still unused are the ones that no
call has used. -/
structure Accounted (initial : Db) (r : Race) : Prop where
  claimed : ∀ call ∈ r.calls, ∀ code, call.phase.claims = some code → initial.isUnused code
  unused : ∀ code, r.db.isUnused code ↔
    initial.isUnused code ∧ ∀ call ∈ r.calls, call.phase.issuedCode ≠ some code

namespace Race

variable {checkpw : String → String → Bool} {initial : Db} {r r' : Race} {i : ℕ} {action : Action}

theorem isUnused_congr {db db' : Db} (h : db'.codes = db.codes) (code : ℕ) :
    db'.isUnused code = db.isUnused code := by
  rw [Db.isUnused, Db.isUnused, h]

/-- Of the calls after a step, those that have issued a session have before, but for the one that
moves. -/
theorem exists_issued_iff {request : Request} {phase phase' : Phase} {k : ℕ}
    (hcall : r.calls[i]? = some ⟨request, phase⟩) (hopen : phase.issuedCode = none)
    (hcalls : r'.calls = Served.move r.calls i phase') :
    (∀ call ∈ r'.calls, call.phase.issuedCode ≠ some k) ↔
      (∀ call ∈ r.calls, call.phase.issuedCode ≠ some k) ∧ phase'.issuedCode ≠ some k := by
  rw [hcalls]
  constructor
  · refine fun h ↦ ⟨fun call hmem hissued ↦ ?_, h _ (Served.mem_move_self hcall)⟩
    obtain ⟨call', hmem', hissued'⟩ := Served.exists_mem_move phase'
      (p := fun call : Served Request Phase ↦ call.phase.issuedCode = some k) hcall
      (by simp [hopen]) ⟨call, hmem, hissued⟩
    exact h call' hmem' hissued'
  · rintro ⟨hold, hnew⟩
    exact Served.forall_mem_move hcall hold hnew

theorem accounted_step (h : Accounted initial r) (hstep : r.step checkpw (i, action) = some r') :
    Accounted initial r' := by
  obtain ⟨request, phase, phase', hcall, hadvance, hcalls⟩ := step_advance hstep
  have hmem := List.mem_of_getElem? hcall
  cases hadvance with
  | quiet hcodes _ hopen hnew hclaims =>
    refine ⟨?_, fun code ↦ ?_⟩
    · rw [hcalls]
      refine Served.forall_mem_move hcall h.claimed fun code hcode ↦ ?_
      rcases hclaims code hcode with hunused | hclaimed
      · exact ((h.unused code).mp hunused).1
      · exact h.claimed _ hmem code hclaimed
    · rw [isUnused_congr hcodes, h.unused, exists_issued_iff hcall hopen hcalls, hnew]
      simp
  | @issue code usedAt refreshToken db' _ hcodes =>
    refine ⟨?_, fun k ↦ ?_⟩
    · rw [hcalls]
      exact Served.forall_mem_move hcall h.claimed fun code hcode ↦ by cases hcode
    · rw [isUnused_congr hcodes, Db.isUnused_use, h.unused, exists_issued_iff hcall rfl hcalls]
      simp only [Phase.issuedCode, ne_eq, Option.some.injEq, eq_comm (a := code)]
      tauto

theorem accounted_start (db : Db) (requests : List Request) : Accounted db (start db requests) := by
  have hcalled : ∀ call ∈ (start db requests).calls, call.phase = .called :=
    fun call hcall ↦ Served.phase_of_mem_start hcall
  refine ⟨fun call hmem code hclaims ↦ ?_, fun code ↦ ?_⟩
  · rw [hcalled call hmem] at hclaims
    cases hclaims
  · refine (and_iff_left fun call hmem hissued ↦ ?_).symm
    rw [hcalled call hmem] at hissued
    cases hissued

theorem singleUse_start (db : Db) (requests : List Request) : SingleUse db (start db requests) := by
  refine ⟨fun i j code call call' hi _ hissued ↦ ?_, (accounted_start db requests).unused⟩
  rw [Served.phase_of_mem_start (List.mem_of_getElem? hi)] at hissued
  cases hissued

/-- A step keeps the codes single-use exactly if what it commits finds its code unused. -/
theorem singleUse_step_iff (h : Accounted initial r) (hsingle : SingleUse initial r)
    (hstep : r.step checkpw (i, action) = some r') :
    SingleUse initial r' ↔ CommitsUnused r (i, action) r' := by
  have hunused := (accounted_step h hstep).unused
  obtain ⟨request, phase, phase', hcall, hadvance, hcalls⟩ := step_advance hstep
  have hmoved {j : ℕ} {call : Served Request Phase} (hj : r'.calls[j]? = some call) :
      j = i ∧ call.phase = phase' ∨ j ≠ i ∧ r.calls[j]? = some call := by
    rw [hcalls] at hj
    rcases Served.of_getElem?_move hcall hj with ⟨rfl, rfl⟩ | hold
    · exact .inl ⟨rfl, rfl⟩
    · exact .inr hold
  have hcommits : CommitsUnused r (i, action) r' ↔ ∀ code ∈ usedBy action phase, r.db.isUnused code := by
    rw [CommitsUnused, hcall]
    simp only [Option.mem_some_iff, forall_eq']
  rw [hcommits]
  cases hadvance with
  | quiet _ hused hopen hnew _ =>
    refine iff_of_true ⟨fun j k code call call' hj hk hissued hissued' ↦ ?_, hunused⟩ ?_
    · rcases hmoved hj with ⟨-, hphase⟩ | ⟨-, hj⟩
      · rw [hphase, hnew] at hissued
        cases hissued
      · rcases hmoved hk with ⟨-, hphase⟩ | ⟨-, hk⟩
        · rw [hphase, hnew] at hissued'
          cases hissued'
        · exact hsingle.once j k code call call' hj hk hissued hissued'
    · intro code hcode
      rw [hused] at hcode
      cases hcode
  | @issue code usedAt refreshToken _ haction _ =>
    have hused : usedBy action (.signed code usedAt refreshToken) = some code := by rw [haction]; rfl
    have hinitial : initial.isUnused code := h.claimed _ (List.mem_of_getElem? hcall) code rfl
    rw [hused]
    simp only [Option.mem_some_iff, forall_eq']
    constructor
    · intro hsingle'
      refine (h.unused code).mpr ⟨hinitial, fun call hmem hissued ↦ ?_⟩
      obtain ⟨j, hj⟩ := List.mem_iff_getElem?.mp hmem
      have hne : j ≠ i := by
        rintro rfl
        obtain rfl := Option.some.inj (hj.symm.trans hcall)
        cases hissued
      refine hne (hsingle'.once j i code call ⟨request, .issued code⟩ ?_ ?_ hissued rfl)
      · rw [hcalls, Served.getElem?_move_of_ne hne, hj]
      · rw [hcalls, Served.getElem?_move_self hcall]
    · intro hcode
      have hnone := ((h.unused code).mp hcode).2
      refine ⟨fun j k code' call call' hj hk hissued hissued' ↦ ?_, hunused⟩
      rcases hmoved hj with ⟨rfl, hphase⟩ | ⟨-, hj⟩ <;> rcases hmoved hk with ⟨rfl, hphase'⟩ | ⟨-, hk⟩
      · rfl
      · rw [hphase] at hissued
        obtain rfl := Option.some.inj hissued
        exact absurd hissued' (hnone call' (List.mem_of_getElem? hk))
      · rw [hphase'] at hissued'
        obtain rfl := Option.some.inj hissued'
        exact absurd hissued (hnone call (List.mem_of_getElem? hj))
      · exact hsingle.once j k code' call call' hj hk hissued hissued'

end Race

/-- In every interleaving the codes stay single-use exactly if no session is committed for a code
that has been used since it was read. -/
theorem single_use_iff (checkpw : String → String → Bool) (db : Db) (requests : List Request)
    (labels : List (ℕ × Action)) :
    Along (Race.step checkpw) (fun _ _ r ↦ SingleUse db r) (.start db requests) labels ↔
      Along (Race.step checkpw) CommitsUnused (.start db requests) labels :=
  along_state_iff_of_invariant (fun _ (_, _) _ h hstep ↦ Race.accounted_step h hstep)
    (fun _ (_, _) _ h hsingle hstep ↦ Race.singleUse_step_iff h hsingle hstep)
    (Race.accounted_start db requests) (Race.singleUse_start db requests)

section Alone

variable {checkpw : String → String → Bool} {r : Race} {i : ℕ} {request : Request} {now : ℤ}

theorem spend_eq (matching : String → Bool) (userId : ℕ) (codes : List MfaBackupCode) :
    Server.spend matching userId now codes =
      (codes.findIdx? fun row ↦ row.userId = userId ∧ row.usedAt = none ∧ matching row.codeHash).map
        fun code ↦ codes.modify code fun row ↦ { row with usedAt := some now } := by
  induction codes with
  | nil => rfl
  | cons row rest ih =>
    rw [Server.spend, List.findIdx?_cons]
    split
    · next h => simp [h]
    · next h =>
      rw [ih, if_neg (by simpa using h), Option.map_map, Option.map_map]
      rfl

/-- A call alone whose code is there is answered, and uses it up. -/
theorem exists_run_matched {code : ℕ} (hmatch : r.db.isMatch checkpw request code)
    (refreshToken : String) (hcall : r.calls[i]? = some ⟨request, .called⟩)
    (hlock : r.auditLock = none) :
    ∃ r', Run (Race.step checkpw) r [(i, .read (some code) now),
        (i, .writeAudit), (i, .issueSession refreshToken), (i, .commit)] r' ∧
      r'.db.codes = (r.db.use code now).codes ∧ r'.calls = Served.move r.calls i (.issued code) := by
  obtain ⟨r₁, hread, hdb₁, hcalls₁, hlock₁⟩ : ∃ r₁,
      r.step checkpw (i, .read (some code) now) = some r₁ ∧ r₁.db = r.db ∧
        r₁.calls = Served.move r.calls i (.matched code now) ∧ r₁.auditLock = none :=
    ⟨r.move i (.matched code now), by simp only [Race.step, hcall, hmatch, if_true], rfl, rfl,
      hlock⟩
  have hcall₁ : r₁.calls[i]? = some ⟨request, .matched code now⟩ := by
    rw [hcalls₁]
    exact Served.getElem?_move_self hcall
  obtain ⟨r₂, haudit, hdb₂, hcalls₂⟩ : ∃ r₂, r₁.step checkpw (i, .writeAudit) = some r₂ ∧
      r₂.db = r₁.db ∧ r₂.calls = Served.move r₁.calls i (.audited code now) :=
    ⟨{ r₁.move i (.audited code now) with auditLock := some i },
      by simp only [Race.step, hcall₁, Race.lock, hlock₁, if_true], rfl, rfl⟩
  have hcall₂ : r₂.calls[i]? = some ⟨request, .audited code now⟩ := by
    rw [hcalls₂]
    exact Served.getElem?_move_self hcall₁
  obtain ⟨r₃, hissue, hdb₃, hcalls₃⟩ : ∃ r₃,
      r₂.step checkpw (i, .issueSession refreshToken) = some r₃ ∧ r₃.db = r₂.db ∧
        r₃.calls = Served.move r₂.calls i (.signed code now refreshToken) :=
    ⟨r₂.move i (.signed code now refreshToken), by simp only [Race.step, hcall₂], rfl, rfl⟩
  have hcall₃ : r₃.calls[i]? = some ⟨request, .signed code now refreshToken⟩ := by
    rw [hcalls₃]
    exact Served.getElem?_move_self hcall₂
  obtain ⟨r₄, hcommit, hdb₄, hcalls₄⟩ : ∃ r₄, r₃.step checkpw (i, .commit) = some r₄ ∧
      r₄.db.codes = (r₃.db.use code now).codes ∧
        r₄.calls = Served.move r₃.calls i (.issued code) := by
    rw [Race.step, hcall₃]
    exact ⟨_, rfl, rfl, rfl⟩
  refine ⟨r₄, .cons hread (.cons haudit (.cons hissue (.cons hcommit (.nil _)))), ?_, ?_⟩
  · rw [hdb₄, hdb₃, hdb₂, hdb₁]
  · rw [hcalls₄, hcalls₃, hcalls₂, hcalls₁, Served.move_move, Served.move_move, Served.move_move]

/-- A call alone without a code that is there is refused. -/
theorem exists_run_unmatched
    (hnone : (List.range r.db.codes.length).any (r.db.isMatch checkpw request) = false)
    (hcall : r.calls[i]? = some ⟨request, .called⟩) (hlock : r.auditLock = none) :
    ∃ r', Run (Race.step checkpw) r [(i, .read none now), (i, .writeAudit), (i, .commit)] r' ∧
      r'.db.codes = r.db.codes ∧ r'.calls = Served.move r.calls i .refused := by
  obtain ⟨r₁, hread, hdb₁, hcalls₁, hlock₁⟩ : ∃ r₁,
      r.step checkpw (i, .read none now) = some r₁ ∧ r₁.db = r.db ∧
        r₁.calls = Served.move r.calls i .unmatched ∧ r₁.auditLock = none :=
    ⟨r.move i .unmatched,
      by simp only [Race.step, hcall, hnone, Bool.false_eq_true, if_false], rfl, rfl, hlock⟩
  have hcall₁ : r₁.calls[i]? = some ⟨request, .unmatched⟩ := by
    rw [hcalls₁]
    exact Served.getElem?_move_self hcall
  obtain ⟨r₂, haudit, hdb₂, hcalls₂⟩ : ∃ r₂, r₁.step checkpw (i, .writeAudit) = some r₂ ∧
      r₂.db = r₁.db ∧ r₂.calls = Served.move r₁.calls i .refusing :=
    ⟨{ r₁.move i .refusing with auditLock := some i },
      by simp only [Race.step, hcall₁, Race.lock, hlock₁, if_true], rfl, rfl⟩
  have hcall₂ : r₂.calls[i]? = some ⟨request, .refusing⟩ := by
    rw [hcalls₂]
    exact Served.getElem?_move_self hcall₁
  obtain ⟨r₃, hcommit, hdb₃, hcalls₃⟩ : ∃ r₃, r₂.step checkpw (i, .commit) = some r₃ ∧
      r₃.db.codes = r₂.db.codes ∧ r₃.calls = Served.move r₂.calls i .refused := by
    rw [Race.step, hcall₂]
    exact ⟨_, rfl, rfl, rfl⟩
  refine ⟨r₃, .cons hread (.cons haudit (.cons hcommit (.nil _))), ?_, ?_⟩
  · rw [hdb₃, hdb₂, hdb₁]
  · rw [hcalls₃, hcalls₂, hcalls₁, Served.move_move, Served.move_move]

/-- Without another call in between, the codes become what `verify` makes of them. -/
theorem exists_run_alone (refreshToken : String) (hcall : r.calls[i]? = some ⟨request, .called⟩)
    (hlock : r.auditLock = none) :
    match Server.spend (checkpw request.backupCode) request.userId now r.db.codes with
    | some codes => ∃ code r', Run (Race.step checkpw) r [(i, .read (some code) now),
        (i, .writeAudit), (i, .issueSession refreshToken), (i, .commit)] r' ∧
        r'.db.codes = codes ∧ r'.calls = Served.move r.calls i (.issued code)
    | none => ∃ r', Run (Race.step checkpw) r
        [(i, .read none now), (i, .writeAudit), (i, .commit)] r' ∧
        r'.db.codes = r.db.codes ∧ r'.calls = Served.move r.calls i .refused := by
  rw [spend_eq]
  cases hfind : r.db.codes.findIdx? fun row ↦ row.userId = request.userId ∧ row.usedAt = none ∧
      checkpw request.backupCode row.codeHash with
  | some code =>
    have hmatch : r.db.isMatch checkpw request code := by
      obtain ⟨hlt, hrow, -⟩ := List.findIdx?_eq_some_iff_getElem.mp hfind
      rw [Db.isMatch, List.getElem?_eq_getElem hlt]
      exact hrow
    obtain ⟨r', hrun, hcodes, hcalls⟩ := exists_run_matched hmatch refreshToken hcall hlock
    exact ⟨code, r', hrun, hcodes, hcalls⟩
  | none =>
    have hnone : (List.range r.db.codes.length).any (r.db.isMatch checkpw request) = false := by
      rw [List.any_eq_false]
      intro code hcode
      have hrow := List.findIdx?_eq_none_iff.mp hfind _
        (List.getElem_mem (List.mem_range.mp hcode))
      rw [Db.isMatch, List.getElem?_eq_getElem (List.mem_range.mp hcode)]
      simpa using hrow
    exact exists_run_unmatched hnone hcall hlock

end Alone

/-- Two calls with one code. -/
def oneCode : Db := ⟨[⟨1, "hash", none⟩], [], []⟩

def twoCalls : List Request :=
  [⟨1, "owner@example.com", "a1b2c3d4e5"⟩, ⟨1, "owner@example.com", "a1b2c3d4e5"⟩]

def hashes (code hash : String) : Bool := code = "a1b2c3d4e5" ∧ hash = "hash"

def overlapping : List (ℕ × Action) :=
  [(0, .read (some 0) 1), (1, .read (some 0) 1), (0, .writeAudit), (0, .issueSession "first"),
    (0, .commit), (1, .writeAudit), (1, .issueSession "second"), (1, .commit)]

/-- Both calls have read the code as unused before the first commits, and both get a session. -/
theorem overlapping_uses_twice :
    (exec (Race.step hashes) (.start oneCode twoCalls) overlapping).map
        (fun r ↦ (r.calls.map Served.phase, r.db.refreshTokens)) =
      some ([.issued 0, .issued 0], [(1, "first"), (1, "second")]) ∧
    ¬ Along (Race.step hashes) (fun _ _ r ↦ SingleUse oneCode r) (.start oneCode twoCalls)
      overlapping := by
  have hrun : (exec (Race.step hashes) (.start oneCode twoCalls) overlapping).map
      (fun r ↦ (r.calls.map Served.phase, r.db.refreshTokens)) =
        some ([.issued 0, .issued 0], [(1, "first"), (1, "second")]) := by decide +kernel
  refine ⟨hrun, fun h ↦ ?_⟩
  obtain ⟨r, hr, hresult⟩ := Option.map_eq_some_iff.mp hrun
  obtain ⟨-, hsingle⟩ := @Along.last _ _ _ _ _ _ (overlapping.take 7) _ h (exec_eq_some.mp hr)
  obtain ⟨hphases, -⟩ := Prod.mk.inj hresult
  have hissued {i : ℕ} (hi : [Phase.issued 0, .issued 0][i]? = some (.issued 0)) :
      ∃ call, r.calls[i]? = some call ∧ call.phase.issuedCode = some 0 := by
    rw [← hphases, List.getElem?_map] at hi
    obtain ⟨call, hcall, hphase⟩ := Option.map_eq_some_iff.mp hi
    exact ⟨call, hcall, by rw [hphase]; rfl⟩
  obtain ⟨call, hcall, h0⟩ := hissued (i := 0) rfl
  obtain ⟨call', hcall', h1⟩ := hissued (i := 1) rfl
  exact absurd (hsingle.once 0 1 0 call call' hcall hcall' h0 h1) (by decide)

end TradingOS.Api.BackupCodes
