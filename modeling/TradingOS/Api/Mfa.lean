import TradingOS.Governance.Approvals
import TradingOS.Lib.Runs
import TradingOS.Lib.Table

namespace TradingOS.Api.Mfa

open Lib Lib.Runs
open Governance (HttpError)

structure User where
  email : String
  hashedPassword : String
  role : String
  mfaEnabled : Bool
  isActive : Bool
  lastLoginAt : Option ℤ
  deriving DecidableEq

structure MfaBackupCode where
  userId : ℕ
  codeHash : String
  usedAt : Option ℤ
  deriving DecidableEq

structure AuditEntry where
  actorId : String
  action : String
  entityId : Option ℕ
  deriving DecidableEq

/-- A token that the server signed, with its claims. -/
structure Token where
  userId : ℕ
  role : String
  mfaPending : Bool
  exp : ℤ
  deriving DecidableEq

structure IssuedSession where
  accessToken : Token
  refreshToken : String
  deriving DecidableEq

/-- The rows of Postgres, with a refresh token for each session, and the secrets of Vault. -/
structure Server where
  users : Table ℕ User
  backupCodes : List MfaBackupCode
  refreshTokens : List (ℕ × String)
  audit : List AuditEntry
  secrets : Table ℕ String
  deriving DecidableEq

inductive Request
  | login (email password : String)
  | enroll (token : Option Token)
  | confirm (token : Option Token) (totpCode : String)
  | verify (token : Option Token) (totpCode backupCode : Option String)
  deriving DecidableEq

inductive Response
  | mfaRequired (pendingToken : Token) (mfaEnrolled : Bool)
  | session (issued : IssuedSession)
  | enrolled (userId : ℕ) (secret : String) (backupCodes : List String)
  | error (error : HttpError)
  | crashed
  deriving DecidableEq

def Response.tokens : Response → List Token
  | mfaRequired token _ => [token]
  | session issued => [issued.accessToken]
  | _ => []

/-- The clock, and which of Vault's services answer: signing, verifying, the secrets. -/
structure Env where
  now : ℤ
  signs : Bool := true
  verifies : Bool := true
  secretsUp : Bool := true
  deriving DecidableEq

/-- What a request draws at random, backup codes with their hashes. -/
structure Drawn where
  secret : String
  backupCodes : List (String × String)
  refreshToken : String
  deriving DecidableEq

/-- The roles that must complete MFA, and the libraries that check passwords and codes. -/
structure Config where
  mfaMandatoryRoles : List String
  verifyPassword : String → String → Bool
  totpVerify : String → String → ℤ → Bool
  checkpw : String → String → Bool

def accessTokenTtl : ℤ := 15 * 60

def mfaPendingTokenTtl : ℤ := 5 * 60

def credentialsError : HttpError := ⟨401, "Not authenticated"⟩

namespace Server

variable (server : Server)

def writeAuditEntry (actorId action : String) (entityId : Option ℕ) : Server :=
  { server with audit := server.audit ++ [⟨actorId, action, entityId⟩] }

def issueSession (userId : ℕ) (user : User) (env : Env) (drawn : Drawn) :
    Option (Server × Response) :=
  if env.signs then
    some ({ server with refreshTokens := server.refreshTokens ++ [(userId, drawn.refreshToken)] },
      .session ⟨⟨userId, user.role, false, env.now + accessTokenTtl⟩, drawn.refreshToken⟩)
  else none

def findByEmail (email : String) : Option (ℕ × User) :=
  server.users.rows.find? (·.2.email = email)

def readMfaSecret (userId : ℕ) (env : Env) : Option String :=
  if env.secretsUp then server.secrets.get? userId else none

def codesOf (userId : ℕ) : List MfaBackupCode := server.backupCodes.filter (·.userId = userId)

/-- `decode_access_token` and the user it names. Nobody has a signature but of a token it was given. -/
def decodeAndLoadUser (given : List Token) (token : Option Token) (env : Env) :
    Except HttpError (Token × User) :=
  match token with
  | none => .error credentialsError
  | some token =>
    if token ∉ given ∨ env.verifies = false ∨ env.now > token.exp then .error credentialsError
    else
      match server.users.get? token.userId with
      | none => .error credentialsError
      | some user => if user.isActive then .ok (token, user) else .error credentialsError

def getUserAnyToken (given : List Token) (token : Option Token) (env : Env) :
    Except HttpError (ℕ × User) :=
  (server.decodeAndLoadUser given token env).map fun (token, user) ↦ (token.userId, user)

def getMfaPendingUser (given : List Token) (token : Option Token) (env : Env) :
    Except HttpError (ℕ × User) :=
  match server.decodeAndLoadUser given token env with
  | .error error => .error error
  | .ok (token, user) =>
    if token.mfaPending then .ok (token.userId, user) else .error credentialsError

variable (c : Config) (env : Env) (drawn : Drawn)

def login (email password : String) : Server × Response :=
  match server.findByEmail email with
  | none =>
    (server.writeAuditEntry email "LOGIN_FAILURE" none,
      .error ⟨401, "Incorrect email or password"⟩)
  | some (userId, user) =>
    if c.verifyPassword password user.hashedPassword = false then
      (server.writeAuditEntry email "LOGIN_FAILURE" none,
        .error ⟨401, "Incorrect email or password"⟩)
    else if user.isActive = false then
      (server.writeAuditEntry user.email "LOGIN_FAILURE" (some userId),
        .error ⟨401, "Account is inactive"⟩)
    else
      let stamped :=
        { server with
          users := server.users.modify userId fun row ↦ { row with lastLoginAt := some env.now } }
      let server' := stamped.writeAuditEntry user.email "LOGIN_SUCCESS" (some userId)
      let unavailable := (server', .error ⟨503, "Authentication is temporarily unavailable"⟩)
      if user.role ∈ c.mfaMandatoryRoles then
        if env.signs then
          (server', .mfaRequired ⟨userId, user.role, true, env.now + mfaPendingTokenTtl⟩
            user.mfaEnabled)
        else unavailable
      else (server'.issueSession userId user env drawn).getD unavailable

def enroll (userId : ℕ) : Server × Response :=
  if env.secretsUp = false then (server, .error ⟨503, "Could not write MFA secret to Vault"⟩)
  else
    ({ server with
        secrets := server.secrets.assign userId drawn.secret
        backupCodes := server.backupCodes.filter (·.userId ≠ userId) ++
          drawn.backupCodes.map fun (_, hash) ↦ ⟨userId, hash, none⟩ },
      .enrolled userId drawn.secret (drawn.backupCodes.map Prod.fst))

def confirm (userId : ℕ) (user : User) (totpCode : String) : Server × Response :=
  match server.readMfaSecret userId env with
  | none => (server, .error ⟨503, "MFA secret unavailable -- enroll again"⟩)
  | some secret =>
    if c.totpVerify secret totpCode env.now = false then
      (server, .error ⟨401, "Incorrect TOTP code"⟩)
    else
      let enabled :=
        { server with users := server.users.modify userId fun row ↦ { row with mfaEnabled := true } }
      ((enabled.writeAuditEntry user.email "MFA_ENROLLED" (some userId)).issueSession userId user
        env drawn).getD (server, .crashed)

/-- `_verify_backup_code` uses the first code of the user that matches. -/
def spend (matching : String → Bool) (userId : ℕ) (now : ℤ) :
    List MfaBackupCode → Option (List MfaBackupCode)
  | [] => none
  | row :: rest =>
    if row.userId = userId ∧ row.usedAt = none ∧ matching row.codeHash then
      some ({ row with usedAt := some now } :: rest)
    else (spend matching userId now rest).map (row :: ·)

/-- The end of `verify`. Nothing of it is kept when the session cannot be signed. -/
def finishVerify (userId : ℕ) (user : User) (passed : Option Server) : Server × Response :=
  match passed with
  | none =>
    (server.writeAuditEntry user.email "MFA_LOGIN_FAILURE" (some userId),
      .error ⟨401, "Incorrect MFA code"⟩)
  | some server' =>
    ((server'.writeAuditEntry user.email "MFA_LOGIN_SUCCESS" (some userId)).issueSession userId
      user env drawn).getD (server, .crashed)

def verify (userId : ℕ) (user : User) (totpCode backupCode : Option String) : Server × Response :=
  match totpCode with
  | some code =>
    match server.readMfaSecret userId env with
    | none => (server, .error ⟨503, "MFA verification unavailable"⟩)
    | some secret =>
      let passed := if c.totpVerify secret code env.now then some server else none
      server.finishVerify env drawn userId user passed
  | none =>
    let spent := spend (c.checkpw (backupCode.getD "")) userId env.now server.backupCodes
    server.finishVerify env drawn userId user
      (spent.map fun codes ↦ { server with backupCodes := codes })

/-- `VerifyRequest` wants one factor that is not empty, and one that is missing or empty. -/
def exactlyOneFactor (totpCode backupCode : Option String) : Bool :=
  (totpCode.any (· ≠ "")) ≠ (backupCode.any (· ≠ ""))

def handle (given : List Token) : Request → Server × Response
  | .login email password => server.login c env drawn email password
  | .enroll token =>
    match server.getUserAnyToken given token env with
    | .error error => (server, .error error)
    | .ok (userId, _) => server.enroll env drawn userId
  | .confirm token totpCode =>
    match server.getUserAnyToken given token env with
    | .error error => (server, .error error)
    | .ok (userId, user) => server.confirm c env drawn userId user totpCode
  | .verify token totpCode backupCode =>
    match server.getMfaPendingUser given token env with
    | .error error => (server, .error error)
    | .ok (userId, user) =>
      if exactlyOneFactor totpCode backupCode then
        server.verify c env drawn userId user totpCode backupCode
      else
        (server, .error ⟨422, "provide exactly one of totp_code or backup_code"⟩)

end Server

structure Label where
  request : Request
  env : Env
  drawn : Drawn
  deriving DecidableEq

/-- The server, and what it has answered to the party that sends the requests. -/
structure World where
  server : Server
  responses : List Response
  deriving DecidableEq

namespace World

variable (w : World)

def given : List Token := w.responses.flatMap Response.tokens

def knowsSecret (userId : ℕ) (secret : String) : Bool := w.responses.any fun
  | .enrolled userId' secret' _ => userId' = userId ∧ secret' = secret
  | _ => false

def knowsBackupCode (userId : ℕ) (code : String) : Bool := w.responses.any fun
  | .enrolled userId' _ codes => userId' = userId ∧ code ∈ codes
  | _ => false

/-- A code that is right for a secret the party was not shown. -/
def guessesTotp (c : Config) (env : Env) (userId : ℕ) (code : String) : Bool :=
  (w.server.readMfaSecret userId env).any fun secret ↦
    c.totpVerify secret code env.now ∧ w.knowsSecret userId secret = false

def guessesBackupCode (c : Config) (env : Env) (userId : ℕ) (code : String) : Bool :=
  (Server.spend (c.checkpw code) userId env.now w.server.backupCodes).isSome ∧
    w.knowsBackupCode userId code = false

def guesses (c : Config) (label : Label) : Bool :=
  match label.request with
  | .confirm token totpCode =>
    match w.server.getUserAnyToken w.given token label.env with
    | .error _ => false
    | .ok (userId, _) => w.guessesTotp c label.env userId totpCode
  | .verify token totpCode backupCode =>
    match w.server.getMfaPendingUser w.given token label.env with
    | .error _ => false
    | .ok (userId, _) =>
      match totpCode with
      | some code => w.guessesTotp c label.env userId code
      | none => w.guessesBackupCode c label.env userId (backupCode.getD "")
  | _ => false

/-- A request and its answer. No code is guessed, and a drawn secret is nobody's yet. -/
def step (c : Config) (w : World) (label : Label) : Option World :=
  if w.guesses c label ∨ label.drawn.secret ∈ w.server.secrets.values then none
  else
    let (server, response) := w.server.handle c label.env label.drawn w.given label.request
    some ⟨server, w.responses ++ [response]⟩

end World

/-- A user who is enrolled, in a role that must be. -/
structure Enrolled (c : Config) (server : Server) where
  id : ℕ
  user : User
  row : server.users.get? id = some user
  enabled : user.mfaEnabled
  mandatory : user.role ∈ c.mfaMandatoryRoles

/-- No session of the user was answered, and the enrolled factors are what they were. -/
structure Secure (server : Server) (userId : ℕ) (w : World) : Prop where
  sessions : ∀ issued, .session issued ∈ w.responses → issued.accessToken.userId ≠ userId
  secret : w.server.secrets.get? userId = server.secrets.get? userId
  backupCodes : w.server.codesOf userId = server.codesOf userId

/-- The condition: no enrolment with a token of the user, pending or not, while Vault takes secrets. -/
def World.spares (userId : ℕ) (w : World) (label : Label) : Bool :=
  match label.request with
  | .enroll token =>
    match w.server.getUserAnyToken w.given token label.env with
    | .error _ => true
    | .ok (userId', _) => userId' ≠ userId ∨ label.env.secretsUp = false
  | _ => true

def Response.concerns (userId : ℕ) : Response → Bool
  | session issued => issued.accessToken.userId = userId
  | enrolled userId' .. => userId' = userId
  | _ => false

/-- What a request leaves alone. -/
structure Calm (userId : ℕ) (server server' : Server) (response : Response) : Prop where
  role : (server'.users.get? userId).map User.role = (server.users.get? userId).map User.role
  secret : server'.secrets.get? userId = server.secrets.get? userId
  backupCodes : server'.codesOf userId = server.codesOf userId
  response : response.concerns userId = false

namespace Server

variable {c : Config} {env : Env} {drawn : Drawn} {server : Server} {userId owner : ℕ} {user : User}

theorem calm_error (error : HttpError) : Calm userId server server (.error error) :=
  ⟨rfl, rfl, rfl, rfl⟩

theorem role_modify {f : User → User} (hf : ∀ row, (f row).role = row.role) :
    ((server.users.modify owner f).get? userId).map User.role =
      (server.users.get? userId).map User.role := by
  rw [Table.get?_modify]
  split
  · rw [Option.map_map]
    exact congrArg (Option.map · _) (funext hf)
  · rfl

/-- A session is its owner's alone, and the rest is as the request left it. -/
theorem calm_issueSession {server' : Server} {fallback : Server × Response}
    (hfallback : Calm userId server fallback.1 fallback.2)
    (hrole : (server'.users.get? userId).map User.role = (server.users.get? userId).map User.role)
    (hsecret : server'.secrets.get? userId = server.secrets.get? userId)
    (hcodes : server'.codesOf userId = server.codesOf userId) (howner : owner ≠ userId) :
    Calm userId server ((server'.issueSession owner user env drawn).getD fallback).1
      ((server'.issueSession owner user env drawn).getD fallback).2 := by
  rw [issueSession]
  split
  · exact ⟨hrole, hsecret, hcodes, decide_eq_false howner⟩
  · exact hfallback

theorem calm_login {row : User} (hrow : server.users.get? userId = some row)
    (hrole : row.role ∈ c.mfaMandatoryRoles) (email password : String) :
    Calm userId server (server.login c env drawn email password).1
      (server.login c env drawn email password).2 := by
  rw [login]
  cases hfind : server.findByEmail email with
  | none => exact ⟨rfl, rfl, rfl, rfl⟩
  | some found =>
    obtain ⟨owner, user⟩ := found
    have howner : server.users.get? owner = some user :=
      server.users.get?_eq_some.mpr (List.mem_of_find?_eq_some hfind)
    have hstamped : ((server.users.modify owner fun row ↦
        { row with lastLoginAt := some env.now }).get? userId).map User.role =
          (server.users.get? userId).map User.role := role_modify fun _ ↦ rfl
    simp only
    split_ifs with hpassword hactive hmandatory hsigns
    · exact ⟨rfl, rfl, rfl, rfl⟩
    · exact ⟨rfl, rfl, rfl, rfl⟩
    · exact ⟨hstamped, rfl, rfl, rfl⟩
    · exact ⟨hstamped, rfl, rfl, rfl⟩
    · refine calm_issueSession ⟨hstamped, rfl, rfl, rfl⟩ hstamped rfl rfl ?_
      rintro rfl
      exact hmandatory (Option.some.inj (howner.symm.trans hrow) ▸ hrole)

theorem calm_enroll (h : owner ≠ userId ∨ env.secretsUp = false) :
    Calm userId server (server.enroll env drawn owner).1 (server.enroll env drawn owner).2 := by
  rw [enroll]
  split_ifs with hdown
  · exact calm_error _
  · have hne : owner ≠ userId := h.resolve_right hdown
    refine ⟨rfl, ?_, ?_, decide_eq_false hne⟩
    · rw [Table.get?_assign, if_neg hne.symm]
    · have hnew : (drawn.backupCodes.map fun (_, hash) ↦ (⟨owner, hash, none⟩ : MfaBackupCode)).filter
          (·.userId = userId) = [] :=
        List.filter_eq_nil_iff.mpr (List.forall_mem_map.mpr fun _ _ ↦ by simpa using hne)
      rw [codesOf, List.filter_append, hnew, List.append_nil, List.filter_filter, codesOf]
      refine List.filter_congr fun row _ ↦ ?_
      by_cases hrow : row.userId = userId
      · simp [hrow, hne.symm]
      · simp [hrow]

theorem calm_confirm {totpCode : String} (h : owner = userId → ∀ secret,
      server.readMfaSecret userId env = some secret →
        c.totpVerify secret totpCode env.now = false) :
    Calm userId server (server.confirm c env drawn owner user totpCode).1
      (server.confirm c env drawn owner user totpCode).2 := by
  rw [confirm]
  split
  · exact calm_error _
  · next secret hsecret =>
    split_ifs with hwrong
    · exact calm_error _
    · exact calm_issueSession ⟨rfl, rfl, rfl, rfl⟩ (role_modify fun _ ↦ rfl) rfl rfl
        fun he ↦ hwrong (h he secret (he ▸ hsecret))

theorem filter_spend {matching : String → Bool} {now : ℤ} {rows rows' : List MfaBackupCode}
    (hne : owner ≠ userId) (h : spend matching owner now rows = some rows') :
    rows'.filter (·.userId = userId) = rows.filter (·.userId = userId) := by
  induction rows generalizing rows' with
  | nil => cases h
  | cons row rest ih =>
    rw [spend] at h
    split_ifs at h with hrow
    · cases h
      have howner : row.userId ≠ userId := hrow.1 ▸ hne
      simp [howner]
    · obtain ⟨rest', hrest, rfl⟩ := Option.map_eq_some_iff.mp h
      simp only [List.filter_cons, ih hrest]

theorem calm_finishVerify {passed : Option Server} (howner : owner = userId → passed = none)
    (hpassed : ∀ server', passed = some server' → owner ≠ userId →
      server'.users = server.users ∧ server'.secrets = server.secrets ∧
        server'.codesOf userId = server.codesOf userId) :
    Calm userId server (server.finishVerify env drawn owner user passed).1
      (server.finishVerify env drawn owner user passed).2 := by
  cases passed with
  | none => exact ⟨rfl, rfl, rfl, rfl⟩
  | some server' =>
    have hne : owner ≠ userId := fun he ↦ by cases howner he
    obtain ⟨husers, hsecrets, hcodes⟩ := hpassed server' rfl hne
    exact calm_issueSession ⟨rfl, rfl, rfl, rfl⟩
      (congrArg (fun users : Table ℕ User ↦ (users.get? userId).map User.role) husers)
      (congrArg (·.get? userId) hsecrets) hcodes hne

theorem calm_verify {totpCode backupCode : Option String}
    (htotp : ∀ code, totpCode = some code → owner = userId → ∀ secret,
      server.readMfaSecret userId env = some secret → c.totpVerify secret code env.now = false)
    (hbackup : totpCode = none → owner = userId →
      spend (c.checkpw (backupCode.getD "")) owner env.now server.backupCodes = none) :
    Calm userId server (server.verify c env drawn owner user totpCode backupCode).1
      (server.verify c env drawn owner user totpCode backupCode).2 := by
  cases totpCode with
  | some code =>
    rw [verify]
    split
    · exact calm_error _
    · next secret hsecret =>
      refine calm_finishVerify (fun he ↦ ?_) fun server' hserver' _ ↦ ?_
      · rw [htotp code rfl he secret (he ▸ hsecret)]
        rfl
      · split_ifs at hserver'
        cases hserver'
        exact ⟨rfl, rfl, rfl⟩
  | none =>
    refine calm_finishVerify (fun he ↦ ?_) fun server' hserver' hne ↦ ?_
    · rw [hbackup rfl he]
      rfl
    · obtain ⟨rows, hrows, rfl⟩ := Option.map_eq_some_iff.mp hserver'
      exact ⟨rfl, rfl, filter_spend hne hrows⟩

end Server

/-- What lasts while the user is spared. -/
structure Guarded (c : Config) (server : Server) (userId : ℕ) (w : World) : Prop where
  role : ∃ user, w.server.users.get? userId = some user ∧ user.role ∈ c.mfaMandatoryRoles
  secret : w.server.secrets.get? userId = server.secrets.get? userId
  backupCodes : w.server.codesOf userId = server.codesOf userId
  responses : ∀ response ∈ w.responses, response.concerns userId = false

namespace Guarded

variable {c : Config} {server : Server} {userId : ℕ} {w w' : World} {label : Label}

theorem secure (h : Guarded c server userId w) : Secure server userId w where
  sessions _ hissued := of_decide_eq_false (h.responses _ hissued)
  secret := h.secret
  backupCodes := h.backupCodes

/-- The party was answered nothing that concerns the user. -/
theorem any_responses_eq_false (h : Guarded c server userId w) {p : Response → Bool}
    (hp : ∀ response, p response → response.concerns userId) : w.responses.any p = false := by
  rw [List.any_eq_false]
  intro response hresponse hshown
  have hconcerns := hp response hshown
  rw [h.responses response hresponse] at hconcerns
  cases hconcerns

theorem not_knowsSecret (h : Guarded c server userId w) (secret : String) :
    w.knowsSecret userId secret = false := by
  refine h.any_responses_eq_false fun response hshown ↦ ?_
  cases response with
  | enrolled => exact decide_eq_true (of_decide_eq_true hshown).1
  | _ => cases hshown

theorem not_knowsBackupCode (h : Guarded c server userId w) (code : String) :
    w.knowsBackupCode userId code = false := by
  refine h.any_responses_eq_false fun response hshown ↦ ?_
  cases response with
  | enrolled => exact decide_eq_true (of_decide_eq_true hshown).1
  | _ => cases hshown

theorem of_guessesTotp (h : Guarded c server userId w) {env : Env} {code : String}
    (hguess : w.guessesTotp c env userId code = false) {secret : String}
    (hsecret : w.server.readMfaSecret userId env = some secret) :
    c.totpVerify secret code env.now = false := by
  simpa [World.guessesTotp, hsecret, h.not_knowsSecret] using hguess

theorem of_guessesBackupCode (h : Guarded c server userId w) {env : Env} {code : String}
    (hguess : w.guessesBackupCode c env userId code = false) :
    Server.spend (c.checkpw code) userId env.now w.server.backupCodes = none := by
  simpa [World.guessesBackupCode, h.not_knowsBackupCode] using hguess

theorem calm_handle (h : Guarded c server userId w) (hguess : w.guesses c label = false)
    (hspares : w.spares userId label) :
    Calm userId w.server (w.server.handle c label.env label.drawn w.given label.request).1
      (w.server.handle c label.env label.drawn w.given label.request).2 := by
  obtain ⟨request, env, drawn⟩ := label
  cases request with
  | login email password =>
    obtain ⟨user, hrow, hrole⟩ := h.role
    exact Server.calm_login hrow hrole email password
  | enroll token =>
    simp only [World.spares] at hspares
    rw [Server.handle]
    split
    · exact Server.calm_error _
    · next owner user hauth =>
      simp only [hauth] at hspares
      exact Server.calm_enroll (by simpa using hspares)
  | confirm token totpCode =>
    simp only [World.guesses] at hguess
    rw [Server.handle]
    split
    · exact Server.calm_error _
    · next owner user hauth =>
      simp only [hauth] at hguess
      refine Server.calm_confirm fun he secret hsecret ↦ ?_
      exact h.of_guessesTotp (he ▸ hguess) hsecret
  | verify token totpCode backupCode =>
    simp only [World.guesses] at hguess
    rw [Server.handle]
    split
    · exact Server.calm_error _
    · next owner user hauth =>
      simp only [hauth] at hguess
      split
      · refine Server.calm_verify (fun code hcode he secret hsecret ↦ ?_) fun hnone he ↦ ?_
        · subst hcode
          exact h.of_guessesTotp (he ▸ hguess) hsecret
        · subst hnone
          subst he
          exact h.of_guessesBackupCode hguess
      · exact Server.calm_error _

theorem of_calm (h : Guarded c server userId w) {server' : Server} {response : Response}
    (hcalm : Calm userId w.server server' response) :
    Guarded c server userId ⟨server', w.responses ++ [response]⟩ where
  role := by
    obtain ⟨user, hrow, hrole⟩ := h.role
    have hsame := hcalm.role
    rw [hrow, Option.map_some, Option.map_eq_some_iff] at hsame
    obtain ⟨user', hrow', he⟩ := hsame
    exact ⟨user', hrow', he ▸ hrole⟩
  secret := hcalm.secret.trans h.secret
  backupCodes := hcalm.backupCodes.trans h.backupCodes
  responses r hr := by
    rcases List.mem_append.mp hr with hr | hr
    · exact h.responses r hr
    · exact List.mem_singleton.mp hr ▸ hcalm.response

/-- An enrolment in the user's name puts the drawn secret in the place of the enrolled one. -/
theorem secret_of_not_spares (hspares : ¬ w.spares userId label) :
    (w.server.handle c label.env label.drawn w.given label.request).1.secrets.get? userId =
      some label.drawn.secret := by
  obtain ⟨request, env, drawn⟩ := label
  cases request with
  | enroll token =>
    simp only [World.spares] at hspares
    split at hspares
    · exact absurd rfl hspares
    · next owner user hauth =>
      obtain ⟨rfl, hup⟩ : owner = userId ∧ env.secretsUp = true := by simpa using hspares
      simp [Server.handle, hauth, Server.enroll, hup, Table.get?_assign]
  | login | confirm | verify => exact absurd rfl hspares

/-- A step that spares the user guards it, and another one does not leave the secret. -/
theorem step (h : Guarded c server userId w) (hstep : w.step c label = some w') :
    if w.spares userId label then Guarded c server userId w' else ¬ Secure server userId w' := by
  simp only [World.step] at hstep
  split_ifs at hstep with hguess
  obtain ⟨hguess, hfresh⟩ := not_or.mp hguess
  obtain rfl := Option.some.inj hstep
  split
  · next hspares => exact h.of_calm (h.calm_handle (Bool.eq_false_iff.mpr hguess) hspares)
  · next hspares =>
    intro hsecure
    have hsame := (secret_of_not_spares hspares).symm.trans (hsecure.secret.trans h.secret.symm)
    exact hfresh ((Table.mem_values _).mpr ⟨userId, hsame.symm⟩)

end Guarded

/-- Whatever a party that knows the password sends, the enrolled user is secure in every state exactly
if no enrolment in the user's name goes through. -/
theorem secure_along_iff (c : Config) (server : Server) (u : Enrolled c server)
    (labels : List Label) :
    Along (World.step c) (fun _ _ w ↦ Secure server u.id w) ⟨server, []⟩ labels ↔
      Along (World.step c) (fun w label _ ↦ w.spares u.id label) ⟨server, []⟩ labels := by
  have hguarded : Guarded c server u.id ⟨server, []⟩ :=
    ⟨⟨u.user, u.row, u.mandatory⟩, rfl, rfl, fun _ h ↦ absurd h List.not_mem_nil⟩
  constructor
  · refine along_of_invariant (fun w label w' h hsecure hstep ↦ ?_) hguarded
    have hiff := h.step hstep
    split at hiff
    · next hspares => exact ⟨hiff, hspares⟩
    · exact absurd hsecure hiff
  · refine along_of_invariant (fun w label w' h hspares hstep ↦ ?_) hguarded
    have hiff := h.step hstep
    rw [if_pos hspares] at hiff
    exact ⟨hiff, hiff.secure⟩

def mandatoryManagers : Config where
  mfaMandatoryRoles := ["RiskManager"]
  verifyPassword password hashed := s!"bcrypt:{password}" = hashed
  totpVerify secret code _ := s!"totp:{secret}" = code
  checkpw code hashed := s!"bcrypt:{code}" = hashed

def managed : Server where
  users := Table.empty.put 1
    { email := "risk@example.com"
      hashedPassword := "bcrypt:password"
      role := "RiskManager"
      mfaEnabled := true
      isActive := true
      lastLoginAt := none }
  backupCodes := [⟨1, "bcrypt:backup", none⟩]
  refreshTokens := []
  audit := []
  secrets := Table.empty.put 1 "enrolled"

def manager : Enrolled mandatoryManagers managed :=
  ⟨1, _, rfl, rfl, by decide +kernel⟩

/-- The password gives a pending token, which enrols a secret of the party's own and confirms it. -/
def bypass : List Label :=
  let pending : Token := ⟨1, "RiskManager", true, mfaPendingTokenTtl⟩
  [⟨.login "risk@example.com" "password", { now := 0 }, ⟨"", [], ""⟩⟩,
   ⟨.enroll (some pending), { now := 1 }, ⟨"drawn", [("code", "bcrypt:code")], ""⟩⟩,
   ⟨.confirm (some pending) "totp:drawn", { now := 2 }, ⟨"", [], "refresh"⟩⟩]

theorem not_secure_bypass :
    (exec (World.step mandatoryManagers) ⟨managed, []⟩ bypass).map (·.responses.getLast?) =
        some (some (.session ⟨⟨1, "RiskManager", false, 2 + accessTokenTtl⟩, "refresh"⟩)) ∧
      ¬ Along (World.step mandatoryManagers) (fun _ _ w ↦ Secure managed manager.id w)
        ⟨managed, []⟩ bypass := by
  have hlast : (exec (World.step mandatoryManagers) ⟨managed, []⟩ bypass).map
      (·.responses.getLast?) =
        some (some (.session ⟨⟨1, "RiskManager", false, 2 + accessTokenTtl⟩, "refresh"⟩)) := by
    decide +kernel
  refine ⟨hlast, fun h ↦ ?_⟩
  obtain ⟨w, hw, hsession⟩ := Option.map_eq_some_iff.mp hlast
  obtain ⟨_, hsecure⟩ := @Along.last _ _ _ _ _ _ (bypass.take 2) _ h (exec_eq_some.mp hw)
  exact hsecure.sessions _ (List.mem_of_getLast? hsession) rfl

end TradingOS.Api.Mfa
