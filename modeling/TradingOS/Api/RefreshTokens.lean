import TradingOS.Lib.Calls
import TradingOS.Lib.Runs
import TradingOS.Lib.Table

namespace TradingOS.Api.RefreshTokens

open Lib Lib.Runs

structure RefreshToken where
  userId : ℕ
  familyId : ℕ
  parentId : Option String
  expiresAt : ℤ
  usedAt : Option ℤ := none
  revokedAt : Option ℤ := none
  revokedReason : Option String := none
  deriving DecidableEq

/-- Neither rotated nor revoked. -/
def RefreshToken.isLive (token : RefreshToken) : Bool :=
  token.usedAt = none ∧ token.revokedAt = none

structure AuditEntry where
  actorId : ℕ
  action : String
  familyId : ℕ
  deriving DecidableEq

/-- The committed rows, the tokens under their hashes and the users with `is_active`. -/
structure Db where
  tokens : Table String RefreshToken
  users : Table ℕ Bool
  audit : List AuditEntry
  deriving DecidableEq

/-- A request, with the hash of the token it presents. -/
inductive Request
  | refresh (tokenHash : String)
  | logout (tokenHash : String)
  deriving DecidableEq

def Request.tokenHash : Request → String
  | refresh h | logout h => h

/-- Where a call stands. `readLive`, `rotating` and `flushed` lead a refresh to its new pair,
`readSpent`, `revoking` and `audited` to the revocation of the family. -/
inductive Phase
  | called
  | readLive (row : RefreshToken)
  | rotating (row : RefreshToken) (usedAt : ℤ)
  | flushed (usedAt : ℤ) (childHash : String) (child : RefreshToken)
  | issued (childHash : String)
  | readSpent (row : RefreshToken)
  | revoking (row : RefreshToken) (now : ℤ) (todo done : List String)
  | audited (row : RefreshToken) (now : ℤ) (done : List String)
  | detected
  | marked (now : ℤ) (done : List String)
  | loggedOut
  | unmatched
  | invalid
  | failed
  deriving DecidableEq

namespace Phase

def isIssued : Phase → Bool
  | issued _ => true
  | _ => false

/-- What was to end the family has committed. -/
def isClosing : Phase → Bool
  | detected | loggedOut => true
  | _ => false

def isOver : Phase → Bool
  | issued _ | detected | loggedOut | unmatched | invalid | failed => true
  | _ => false

end Phase

/-- The rows that an update of a transaction has locked until its end. -/
def rowLocks (call : Served Request Phase) : List String :=
  match call.phase with
  | .flushed .. => [call.input.tokenHash]
  | .revoking _ _ _ done | .audited _ _ done | .marked _ done => done
  | _ => []

inductive Action
  | read (now : ℤ)
  | readUser (now : ℤ)
  | flush (childHash : String) (now : ℤ)
  | scan (now : ℤ)
  | write
  | writeAudit
  | revoke (now : ℤ)
  | commit
  | fail
  deriving DecidableEq

def refreshTokenTtlDays : ℤ := 7

def refreshTokenTtl : ℤ := refreshTokenTtlDays * 86400

namespace Db

variable (db : Db)

/-- `issue_session` starts a family. -/
def issueSession (userId familyId : ℕ) (tokenHash : String) (now : ℤ) : Db :=
  let token : RefreshToken :=
    { userId := userId
      familyId := familyId
      parentId := none
      expiresAt := now + refreshTokenTtl }
  { db with tokens := db.tokens.setdefault tokenHash token }

/-- What the commit of a rotation makes visible. The update names its row by the key alone. -/
def rotate (tokenHash : String) (usedAt : ℤ) (childHash : String) (child : RefreshToken) : Db :=
  let used := db.tokens.modify tokenHash fun row ↦ { row with usedAt := some usedAt }
  { db with tokens := used.setdefault childHash child }

def revoke (done : List String) (now : ℤ) (reason : String) : Db :=
  let revoked := db.tokens.mapVals fun k row ↦
    if k ∈ done then { row with revokedAt := some now, revokedReason := some reason } else row
  { db with tokens := revoked }

def live (tokenHash : String) : Bool := (db.tokens.get? tokenHash).any RefreshToken.isLive

def unrevoked (tokenHash : String) : Bool :=
  (db.tokens.get? tokenHash).any fun row ↦ row.revokedAt = none

/-- The update that revokes a family finds the rows that are visible when it begins. -/
def familyRows (familyId : ℕ) : List String :=
  (db.tokens.rows.filter fun (_, row) ↦ row.familyId = familyId ∧ row.revokedAt = none).map Prod.fst

end Db

/-- The committed database, the holder of the audit log's advisory lock, and the calls. -/
structure Race where
  db : Db
  auditLock : Option ℕ
  calls : List (Served Request Phase)
  deriving DecidableEq

namespace Race

def move (r : Race) (i : ℕ) (phase : Phase) : Race :=
  { r with calls := Served.move r.calls i phase }

/-- Another transaction that is not over has locked the row. -/
def blocked (r : Race) (i : ℕ) (tokenHash : String) : Bool :=
  r.calls.zipIdx.any fun (call, j) ↦ j ≠ i ∧ tokenHash ∈ rowLocks call

/-- No row has the hash, and no transaction is about to add one. -/
def fresh (r : Race) (tokenHash : String) : Bool :=
  tokenHash ∉ r.db.tokens.keys ∧ r.calls.all fun call ↦
    match call.phase with
    | .flushed _ childHash _ => childHash ≠ tokenHash
    | _ => true

/-- An update that has waited for a lock looks again at the row it waited for, and at no row that
has come since. -/
def step (r : Race) : ℕ × Action → Option Race
  | (i, action) =>
    match r.calls[i]? with
    | none => none
    | some ⟨request, phase⟩ =>
      match request, action, phase with
      | .refresh h, .read now, .called =>
        match r.db.tokens.get? h with
        | none => some (r.move i .invalid)
        | some row =>
          if ¬ row.isLive then some (r.move i (.readSpent row))
          else if row.expiresAt < now then some (r.move i .invalid)
          else some (r.move i (.readLive row))
      | .refresh _, .readUser now, .readLive row =>
        if r.db.users.get? row.userId = some true then some (r.move i (.rotating row now))
        else some (r.move i .invalid)
      | .refresh h, .flush childHash now, .rotating row usedAt =>
        let child : RefreshToken :=
          { userId := row.userId
            familyId := row.familyId
            parentId := some h
            expiresAt := now + refreshTokenTtl }
        if r.blocked i h ∨ ¬ r.fresh childHash then none
        else some (r.move i (.flushed usedAt childHash child))
      | .refresh h, .commit, .flushed usedAt childHash child =>
        some { r.move i (.issued childHash) with db := r.db.rotate h usedAt childHash child }
      | .refresh _, .scan now, .readSpent row =>
        some (r.move i (.revoking row now (r.db.familyRows row.familyId) []))
      | .refresh _, .write, .revoking row now (k :: todo) done =>
        if r.blocked i k then none
        else
          some (r.move i (.revoking row now todo (if r.db.unrevoked k then k :: done else done)))
      | .refresh _, .writeAudit, .revoking row now [] done =>
        if r.auditLock = none then
          some { r.move i (.audited row now done) with auditLock := some i }
        else none
      | .refresh _, .commit, .audited row now done =>
        let entry : AuditEntry := ⟨row.userId, "REFRESH_TOKEN_REUSE_DETECTED", row.familyId⟩
        let revoked := r.db.revoke done now "REUSE_DETECTED"
        some
          { r.move i .detected with
            db := { revoked with audit := revoked.audit ++ [entry] }
            auditLock := none }
      | .logout h, .revoke now, .called =>
        match r.db.tokens.get? h with
        | none => some (r.move i .unmatched)
        | some row =>
          if r.blocked i h then none
          else some (r.move i (.marked now (if row.revokedAt = none then [h] else [])))
      | .logout _, .commit, .marked now done =>
        some { r.move i .loggedOut with db := r.db.revoke done now "LOGOUT" }
      | _, .fail, phase =>
        if phase.isOver then none
        else
          some
            { r.move i .failed with
              auditLock := if r.auditLock = some i then none else r.auditLock }
      | _, _, _ => none

/-- A family of one token, as a session was issued, and the requests that present its tokens. -/
def begin (users : Table ℕ Bool) (userId familyId : ℕ) (tokenHash : String) (now : ℤ)
    (requests : List Request) : Race where
  db := Db.issueSession ⟨.empty, users, []⟩ userId familyId tokenHash now
  auditLock := none
  calls := Served.start requests .called

end Race

/-- No token was exchanged twice, and at most one can still be. -/
structure Linear (r : Race) : Prop where
  once : ∀ (i j : ℕ) (call call' : Served Request Phase), r.calls[i]? = some call →
    r.calls[j]? = some call' → call.phase.isIssued → call'.phase.isIssued →
      call.input.tokenHash = call'.input.tokenHash → i = j
  live : ∀ k k', r.db.live k → r.db.live k' → k = k'

def Race.closed (r : Race) : Prop := ∃ call ∈ r.calls, call.phase.isClosing

/-- Once the family is closed nobody comes to a new pair. -/
structure Sound (r : Race) (_ : ℕ × Action) (r' : Race) : Prop where
  linear : Linear r'
  revoked : r.closed → ∀ (i : ℕ) (call : Served Request Phase), r'.calls[i]? = some call →
    call.phase.isIssued → r.calls[i]? = some call

/-- What is about to commit knows the rows that are live now. -/
def Phase.isCurrent (db : Db) (tokenHash : String) : Phase → Bool
  | flushed .. => db.live tokenHash
  | audited _ _ done | marked _ done => db.tokens.keys.all fun k ↦ db.live k → k ∈ done
  | _ => true

/-- The condition: a rotation that commits finds its token live, and what closes a family has
revoked every token that is live when it commits. -/
def CommitsCurrent (r : Race) (label : ℕ × Action) (_ : Race) : Prop :=
  label.2 = .commit → ∀ call ∈ r.calls[label.1]?, call.phase.isCurrent r.db call.input.tokenHash

instance (r r' : Race) (label : ℕ × Action) : Decidable (CommitsCurrent r label r') :=
  inferInstanceAs (Decidable (_ → _))

namespace Db

variable {db : Db} {k tokenHash childHash : String} {usedAt now : ℤ} {child : RefreshToken}
  {done : List String} {reason : String}

theorem mem_keys_of_live (h : db.live k) : k ∈ db.tokens.keys := by
  by_contra hk
  rw [live, db.tokens.get?_eq_none.mpr hk] at h
  cases h

theorem mem_keys_rotate (h : k ∈ db.tokens.keys) :
    k ∈ (db.rotate tokenHash usedAt childHash child).tokens.keys := by
  rw [rotate, Table.mem_keys_setdefault, Table.keys_modify]
  exact .inr h

/-- A rotation leaves no token live but the ones that were, less the one it used, and its child. -/
theorem of_live_rotate (h : (db.rotate tokenHash usedAt childHash child).live k) :
    k ≠ tokenHash ∧ db.live k ∨ k = childHash ∧ k ∉ db.tokens.keys := by
  simp only [live, rotate, Table.get?_setdefault, Table.get?_modify] at h
  cases hrow : db.tokens.get? k with
  | none =>
    refine .inr ⟨?_, db.tokens.get?_eq_none.mp hrow⟩
    by_contra hne
    simp [hrow, hne] at h
  | some row =>
    refine .inl ?_
    by_cases hchild : k = childHash
    · subst hchild
      by_cases hk : k = tokenHash
      · subst hk
        simp [hrow, RefreshToken.isLive] at h
      · exact ⟨hk, by simpa [hrow, hk, live] using h⟩
    · by_cases hk : k = tokenHash
      · subst hk
        simp [hrow, hchild, RefreshToken.isLive] at h
      · exact ⟨hk, by simpa [hrow, hk, hchild, live] using h⟩

theorem live_revoke : (db.revoke done now reason).live k ↔ db.live k ∧ k ∉ done := by
  simp only [live, revoke, Table.get?_mapVals, Option.any_map]
  cases db.tokens.get? k with
  | none => simp
  | some row => by_cases h : k ∈ done <;> simp [h, RefreshToken.isLive]

end Db

/-- The statements by what they do to the committed tokens: nothing, a rotation, a revocation. -/
inductive Advance (db : Db) : Request → Action → Phase → Phase → Db → Prop
  | quiet {request : Request} {action : Action} {phase phase' : Phase} :
      phase.isOver = false → phase'.isIssued = false → phase'.isClosing = false →
      Advance db request action phase phase' db
  | rotate {tokenHash childHash : String} {usedAt : ℤ} {child : RefreshToken} :
      Advance db (.refresh tokenHash) .commit (.flushed usedAt childHash child) (.issued childHash)
        (db.rotate tokenHash usedAt childHash child)
  | detect {tokenHash : String} {row : RefreshToken} {now : ℤ} {done : List String}
      {audit : List AuditEntry} :
      Advance db (.refresh tokenHash) .commit (.audited row now done) .detected
        { db.revoke done now "REUSE_DETECTED" with audit := audit }
  | logout {tokenHash : String} {now : ℤ} {done : List String} :
      Advance db (.logout tokenHash) .commit (.marked now done) .loggedOut
        (db.revoke done now "LOGOUT")

namespace Race

variable {r r' : Race} {i : ℕ} {action : Action}

theorem step_advance (h : r.step (i, action) = some r') :
    ∃ request phase phase', r.calls[i]? = some ⟨request, phase⟩ ∧
      Advance r.db request action phase phase' r'.db ∧
      r'.calls = Served.move r.calls i phase' := by
  simp only [step] at h
  split at h
  · cases h
  · next request phase hcall =>
    refine ⟨request, phase, ?_⟩
    split at h
    · split at h
      · cases h
        exact ⟨_, hcall, .quiet rfl rfl rfl, rfl⟩
      · split_ifs at h
        all_goals
          cases h
          exact ⟨_, hcall, .quiet rfl rfl rfl, rfl⟩
    · split_ifs at h
      all_goals
        cases h
        exact ⟨_, hcall, .quiet rfl rfl rfl, rfl⟩
    · split_ifs at h
      cases h
      exact ⟨_, hcall, .quiet rfl rfl rfl, rfl⟩
    · cases h
      exact ⟨_, hcall, .rotate, rfl⟩
    · cases h
      exact ⟨_, hcall, .quiet rfl rfl rfl, rfl⟩
    · split_ifs at h
      all_goals
        cases h
        exact ⟨_, hcall, .quiet rfl rfl rfl, rfl⟩
    · split_ifs at h
      cases h
      exact ⟨_, hcall, .quiet rfl rfl rfl, rfl⟩
    · cases h
      exact ⟨_, hcall, .detect, rfl⟩
    · split at h
      · cases h
        exact ⟨_, hcall, .quiet rfl rfl rfl, rfl⟩
      · split_ifs at h
        all_goals
          cases h
          exact ⟨_, hcall, .quiet rfl rfl rfl, rfl⟩
    · cases h
      exact ⟨_, hcall, .logout, rfl⟩
    · split_ifs at h with hover
      all_goals
        cases h
        exact ⟨_, hcall, .quiet (Bool.eq_false_iff.mpr hover) rfl rfl, rfl⟩
    · cases h

end Race

/-- A token that was exchanged is not live, and none is in a family that was closed. -/
structure Kept (r : Race) : Prop where
  linear : Linear r
  spent : ∀ call ∈ r.calls, call.phase.isIssued →
    call.input.tokenHash ∈ r.db.tokens.keys ∧ ¬ r.db.live call.input.tokenHash
  shut : r.closed → ∀ k, ¬ r.db.live k

namespace Race

variable {r r' : Race} {i : ℕ} {action : Action} {request : Request} {phase phase' : Phase}

theorem closed_iff_of_move (hi : r.calls[i]? = some ⟨request, phase⟩)
    (hcalls : r'.calls = Served.move r.calls i phase') (hphase : phase.isClosing = false)
    (hphase' : phase'.isClosing = false) : r'.closed ↔ r.closed := by
  constructor
  · rintro ⟨call, hcall, hclosing⟩
    obtain ⟨j, hj⟩ := List.mem_iff_getElem?.mp (hcalls ▸ hcall)
    rcases Served.of_getElem?_move hi hj with ⟨-, rfl⟩ | ⟨-, hold⟩
    · simp [hphase'] at hclosing
    · exact ⟨call, List.mem_of_getElem? hold, hclosing⟩
  · intro h
    rw [closed, hcalls]
    refine Served.exists_mem_move _ (p := fun call : Served _ Phase ↦ call.phase.isClosing) hi ?_ h
    simp [hphase]

/-- A step that issues nothing and brings no token to life. -/
theorem kept_of_not_issued (h : Kept r) (hi : r.calls[i]? = some ⟨request, phase⟩)
    (hcalls : r'.calls = Served.move r.calls i phase') (hphase' : phase'.isIssued = false)
    (hkeys : r'.db.tokens.keys = r.db.tokens.keys) (hlive : ∀ k, r'.db.live k → r.db.live k)
    (hshut : r'.closed → ∀ k, ¬ r'.db.live k) : Kept r' ∧ Sound r (i, action) r' := by
  have hold {j : ℕ} {call : Served Request Phase} (hj : r'.calls[j]? = some call)
      (hissued : call.phase.isIssued) : r.calls[j]? = some call := by
    rw [hcalls] at hj
    rcases Served.of_getElem?_move hi hj with ⟨-, rfl⟩ | ⟨-, hj⟩
    · simp [hphase'] at hissued
    · exact hj
  have hlinear : Linear r' :=
    { once := fun j k call call' hj hk hissued hissued' ↦
        h.linear.once j k call call' (hold hj hissued) (hold hk hissued') hissued hissued'
      live := fun k k' hk hk' ↦ h.linear.live k k' (hlive k hk) (hlive k' hk') }
  refine ⟨⟨hlinear, fun call hcall hissued ↦ ?_, hshut⟩, hlinear, fun _ j call hj hissued ↦
    hold hj hissued⟩
  obtain ⟨j, hj⟩ := List.mem_iff_getElem?.mp hcall
  obtain ⟨hmem, hspent⟩ := h.spent call (List.mem_of_getElem? (hold hj hissued)) hissued
  exact ⟨hkeys ▸ hmem, fun hk ↦ hspent (hlive _ hk)⟩

/-- A rotation of the live token puts its child in its place. -/
theorem kept_of_rotate {tokenHash childHash : String} {usedAt : ℤ} {child : RefreshToken}
    (h : Kept r) (hi : r.calls[i]? = some ⟨.refresh tokenHash, .flushed usedAt childHash child⟩)
    (hcalls : r'.calls = Served.move r.calls i (.issued childHash))
    (hdb : r'.db = r.db.rotate tokenHash usedAt childHash child) (hlive : r.db.live tokenHash) :
    Kept r' ∧ Sound r (i, action) r' := by
  have hopen : ¬ r.closed := fun hclosed ↦ h.shut hclosed tokenHash hlive
  have hcases {j : ℕ} {call : Served Request Phase} (hj : r'.calls[j]? = some call) :
      j = i ∧ call.input = .refresh tokenHash ∨ j ≠ i ∧ r.calls[j]? = some call := by
    rw [hcalls] at hj
    refine (Served.of_getElem?_move hi hj).imp_left fun ⟨hji, he⟩ ↦ ⟨hji, ?_⟩
    rw [he]
  have hspent {call : Served Request Phase} (hcall : call ∈ r'.calls)
      (hissued : call.phase.isIssued) :
      call.input.tokenHash ∈ r.db.tokens.keys ∧
        (call.input.tokenHash = tokenHash ∨ ¬ r.db.live call.input.tokenHash) := by
    obtain ⟨j, hj⟩ := List.mem_iff_getElem?.mp hcall
    rcases hcases hj with ⟨-, hinput⟩ | ⟨-, hj⟩
    · rw [hinput]
      exact ⟨Db.mem_keys_of_live hlive, .inl rfl⟩
    · exact (h.spent call (List.mem_of_getElem? hj) hissued).imp_right .inr
  have hother {j : ℕ} {call : Served Request Phase} (hj : r.calls[j]? = some call)
      (hissued : call.phase.isIssued) : call.input.tokenHash ≠ tokenHash := by
    intro he
    exact (h.spent call (List.mem_of_getElem? hj) hissued).2 (he ▸ hlive)
  have hlinear : Linear r' := by
    refine ⟨fun j k call call' hj hk hissued hissued' he ↦ ?_, fun k k' hk hk' ↦ ?_⟩
    · rcases hcases hj with ⟨rfl, hinput⟩ | ⟨-, hj⟩ <;>
        rcases hcases hk with ⟨rfl, hinput'⟩ | ⟨-, hk⟩
      · rfl
      · exact absurd (he.symm.trans (congrArg Request.tokenHash hinput)) (hother hk hissued')
      · exact absurd (he.trans (congrArg Request.tokenHash hinput')) (hother hj hissued)
      · exact h.linear.once j k call call' hj hk hissued hissued' he
    · have hchild {k : String} (hk : r'.db.live k) : k = childHash := by
        rw [hdb] at hk
        rcases Db.of_live_rotate hk with ⟨hne, hk⟩ | ⟨he, -⟩
        · exact absurd (h.linear.live k tokenHash hk hlive) hne
        · exact he
      exact (hchild hk).trans (hchild hk').symm
  refine ⟨⟨hlinear, fun call hcall hissued ↦ ?_, fun hclosed ↦ ?_⟩, hlinear, fun hclosed ↦
    absurd hclosed hopen⟩
  · obtain ⟨hmem, hcall⟩ := hspent hcall hissued
    rw [hdb]
    refine ⟨Db.mem_keys_rotate hmem, fun hk ↦ ?_⟩
    rcases Db.of_live_rotate hk with ⟨hne, hk⟩ | ⟨-, hnew⟩
    · rcases hcall with he | hdead
      · exact hne he
      · exact hdead hk
    · exact hnew hmem
  · exact absurd ((closed_iff_of_move hi hcalls rfl rfl).mp hclosed) hopen

theorem kept_of_revoke {done : List String} {now : ℤ} {reason : String} (h : Kept r)
    (hi : r.calls[i]? = some ⟨request, phase⟩) (hcalls : r'.calls = Served.move r.calls i phase')
    (hphase' : phase'.isIssued = false)
    (hdb : r'.db.tokens = (r.db.revoke done now reason).tokens)
    (hdone : r.db.tokens.keys.all fun k ↦ r.db.live k → k ∈ done) :
    Kept r' ∧ Sound r (i, action) r' := by
  have hlive {k : String} : r'.db.live k ↔ r.db.live k ∧ k ∉ done := by
    rw [← @Db.live_revoke r.db k now done reason, Db.live, Db.live, hdb]
  refine kept_of_not_issued h hi hcalls hphase' ?_ (fun k hk ↦ (hlive.mp hk).1) fun _ k hk ↦ ?_
  · rw [hdb]
    exact Table.keys_mapVals ..
  · obtain ⟨hk, hnot⟩ := hlive.mp hk
    exact hnot (of_decide_eq_true (List.all_eq_true.mp hdone k (Db.mem_keys_of_live hk)) hk)

theorem kept_step (h : Kept r) (hcurrent : CommitsCurrent r (i, action) r')
    (hstep : r.step (i, action) = some r') : Kept r' ∧ Sound r (i, action) r' := by
  obtain ⟨request, phase, phase', hi, hadv, hcalls⟩ := step_advance hstep
  generalize hdb : r'.db = db' at hadv
  cases hadv with
  | quiet hphase hissued hclosing =>
    have hopen : phase.isClosing = false := by cases phase <;> first | rfl | cases hphase
    refine kept_of_not_issued h hi hcalls hissued (by rw [hdb]) (fun k hk ↦ hdb ▸ hk) ?_
    rw [closed_iff_of_move hi hcalls hopen hclosing, hdb]
    exact h.shut
  | rotate => exact kept_of_rotate h hi hcalls hdb (hcurrent rfl _ hi)
  | @detect _ _ now done =>
    have htokens : r'.db.tokens = (r.db.revoke done now "REUSE_DETECTED").tokens := by rw [hdb]
    exact kept_of_revoke h hi hcalls rfl htokens (hcurrent rfl _ hi)
  | logout => exact kept_of_revoke h hi hcalls rfl (congrArg Db.tokens hdb) (hcurrent rfl _ hi)

theorem kept_begin (users : Table ℕ Bool) (userId familyId : ℕ) (tokenHash : String) (now : ℤ)
    (requests : List Request) : Kept (.begin users userId familyId tokenHash now requests) := by
  have hcalled : ∀ call ∈ (begin users userId familyId tokenHash now requests).calls,
      call.phase = .called := fun call hcall ↦ Served.phase_of_mem_start hcall
  have hroot {k : String} (hk : (begin users userId familyId tokenHash now requests).db.live k) :
      k = tokenHash := by
    have hempty : (Table.empty : Table String RefreshToken).get? k = none := rfl
    by_contra hne
    simp [begin, Db.issueSession, Db.live, Table.get?_setdefault, hempty, hne] at hk
  have hlive : ∀ k k', _ → _ → k = k' := fun _ _ hk hk' ↦ (hroot hk).trans (hroot hk').symm
  refine ⟨⟨fun i j call call' hi hj hissued ↦ ?_, hlive⟩, fun call hcall hissued ↦ ?_, ?_⟩
  · rw [hcalled call (List.mem_of_getElem? hi)] at hissued
    cases hissued
  · rw [hcalled call hcall] at hissued
    cases hissued
  · rintro ⟨call, hcall, hclosing⟩
    rw [hcalled call hcall] at hclosing
    cases hclosing

end Race

/-- While what commits is current, refreshes and logouts that overlap leave a family linear, and
closed once one of them closes it. -/
theorem sound_along (users : Table ℕ Bool) (userId familyId : ℕ) (tokenHash : String) (now : ℤ)
    (requests : List Request) (labels : List (ℕ × Action))
    (h : Along Race.step CommitsCurrent (.begin users userId familyId tokenHash now requests)
      labels) :
    Along Race.step Sound (.begin users userId familyId tokenHash now requests) labels :=
  along_of_invariant (fun _ (_, _) _ hkept hcurrent hstep ↦ Race.kept_step hkept hcurrent hstep)
    (Race.kept_begin users userId familyId tokenHash now requests) h

def twoRefreshes : Race :=
  .begin (Table.empty.put 1 true) 1 1 "root" 0 [.refresh "root", .refresh "root"]

def reuse : List (ℕ × Action) :=
  [(0, .read 1), (0, .readUser 1), (0, .flush "child" 1), (0, .commit), (1, .read 2), (1, .scan 2),
   (1, .write), (1, .write), (1, .writeAudit), (1, .commit)]

theorem sound_along_reuse :
    (exec Race.step twoRefreshes reuse).map (·.calls.map (·.phase)) =
        some [.issued "child", .detected] ∧
      Along Race.step Sound twoRefreshes reuse :=
  ⟨by decide +kernel, sound_along _ 1 1 "root" 0 _ reuse (by decide +kernel)⟩

def overlapping : List (ℕ × Action) :=
  [(0, .read 1), (1, .read 1), (0, .readUser 1), (1, .readUser 1), (0, .flush "first" 1),
   (0, .commit), (1, .flush "second" 1), (1, .commit)]

/-- Two refreshes that have both read a token live both exchange it. -/
theorem not_sound_overlapping :
    (exec Race.step twoRefreshes overlapping).map (·.calls.map (·.phase)) =
        some [.issued "first", .issued "second"] ∧
      ¬ Along Race.step Sound twoRefreshes overlapping := by
  have hphases : (exec Race.step twoRefreshes overlapping).map (·.calls.map (·.phase)) =
      some [.issued "first", .issued "second"] := by decide +kernel
  have hlive : (exec Race.step twoRefreshes overlapping).all fun r ↦
      r.db.live "first" ∧ r.db.live "second" := by decide +kernel
  refine ⟨hphases, fun h ↦ ?_⟩
  obtain ⟨r, hr, -⟩ := Option.map_eq_some_iff.mp hphases
  obtain ⟨s, hsound⟩ := @Along.last _ _ _ _ _ _ (overlapping.take 7) _ h (exec_eq_some.mp hr)
  rw [hr, Option.all_some, decide_eq_true_iff] at hlive
  exact absurd (hsound.linear.live _ _ hlive.1 hlive.2) (by decide)

end TradingOS.Api.RefreshTokens
