import TradingOS.Lib.Runs
import TradingOS.Lib.Table
import TradingOS.Lib.Words

namespace TradingOS.Agents.PromptRegistry

open Lib Lib.Runs

inductive Kind
  | system | task | chat
  deriving DecidableEq

def Kind.text : Kind → String
  | system => "system"
  | task => "task"
  | chat => "chat"

/-- The part of a text before a suffix that it ends with. -/
def beforeSuffix (suffix text : String) : Option String :=
  if suffix.toList <:+ text.toList then
    some (String.ofList (text.toList.take (text.toList.length - suffix.toList.length)))
  else none

/-- What the table calls a prompt, `(agent_slug, kind)`: the name of a system prompt does not end
like that of a task or a chat. -/
structure Key where
  agentSlug : String
  kind : Kind
  resolved : kind = .system →
    beforeSuffix "_task" agentSlug = none ∧ beforeSuffix "_chat" agentSlug = none
  deriving DecidableEq

def resolveSlug (agentSlug : String) : Kind → Key
  | .system =>
    match htask : beforeSuffix "_task" agentSlug with
    | some base => ⟨base, .task, nofun⟩
    | none =>
      match hchat : beforeSuffix "_chat" agentSlug with
      | some base => ⟨base, .chat, nofun⟩
      | none => ⟨agentSlug, .system, fun _ ↦ ⟨htask, hchat⟩⟩
  | .task => ⟨agentSlug, .task, nofun⟩
  | .chat => ⟨agentSlug, .chat, nofun⟩

def dirSlug (key : Key) : String :=
  match key.kind with
  | .system => key.agentSlug
  | .task => key.agentSlug ++ "_task"
  | .chat => key.agentSlug ++ "_chat"

section Slugs

variable {suffix text base : String} {key : Key}

theorem beforeSuffix_append (base suffix : String) :
    beforeSuffix suffix (base ++ suffix) = some base := by
  rw [beforeSuffix, if_pos (by simp)]
  simp

theorem append_of_beforeSuffix (h : beforeSuffix suffix text = some base) :
    base ++ suffix = text := by
  rw [beforeSuffix] at h
  split at h
  · next hsuffix =>
    obtain ⟨before, hbefore⟩ := hsuffix
    obtain rfl := Option.some.inj h
    refine String.toList_inj.mp ?_
    simp [← hbefore]
  · cases h

/-- The directory of a prompt is called what its files are activated under. -/
theorem dirSlug_resolveSlug (agentSlug : String) :
    dirSlug (resolveSlug agentSlug .system) = agentSlug := by
  rw [resolveSlug]
  split
  · next base h => exact append_of_beforeSuffix h
  · split
    · next base h => exact append_of_beforeSuffix h
    · rfl

theorem beforeSuffix_task_chat (base : String) : beforeSuffix "_task" (base ++ "_chat") = none := by
  refine if_neg fun ⟨before, hbefore⟩ ↦ ?_
  have hlast := congrArg List.getLast? hbefore
  simp at hlast

theorem resolveSlug_dirSlug (key : Key) : resolveSlug (dirSlug key) .system = key := by
  obtain ⟨agentSlug, kind, resolved⟩ := key
  cases kind with
  | system =>
    obtain ⟨htask, hchat⟩ := resolved rfl
    rw [dirSlug, resolveSlug]
    split
    · next h => cases htask.symm.trans h
    · split
      · next h => cases hchat.symm.trans h
      · rfl
  | task =>
    rw [dirSlug, resolveSlug]
    split
    · next h =>
      obtain rfl := Option.some.inj ((beforeSuffix_append agentSlug "_task").symm.trans h)
      rfl
    · next h => cases (beforeSuffix_append agentSlug "_task").symm.trans h
  | chat =>
    rw [dirSlug, resolveSlug]
    split
    · next h => cases (beforeSuffix_task_chat agentSlug).symm.trans h
    · split
      · next h =>
        obtain rfl := Option.some.inj ((beforeSuffix_append agentSlug "_chat").symm.trans h)
        rfl
      · next h => cases (beforeSuffix_append agentSlug "_chat").symm.trans h

end Slugs

structure ManifestEntry where
  promptId : String
  activeVersion : ℤ
  deriving DecidableEq

/-- The columns of `prompt_versions` that are read, beside the unique three. -/
structure PromptVersion where
  content : String
  isActive : Bool
  deriving DecidableEq

/-- The table, whose partial unique index admits one active version of a prompt. -/
structure PromptTable where
  rows : Table (Key × ℤ) PromptVersion
  oneActive : ∀ {key v v' row row'}, rows.get? (key, v) = some row →
    rows.get? (key, v') = some row' → row.isActive → row'.isActive → v = v'

structure AuditEntry where
  actorId : String
  key : Key
  before : Option ℤ
  after : ℤ
  deriving DecidableEq

/-- The files under `PROMPTS_DIR`, each by its directory and version. -/
structure PromptFiles where
  dir : String
  file : String → ℤ → Option String

/-- The manifest, the table with its audit trail, and the version of each prompt that was last
activated by a call that returned. -/
structure Registry where
  manifest : Table String ManifestEntry
  prompts : PromptTable
  audit : List AuditEntry
  activated : Table Key ℤ

inductive RegistryError
  | promptNotFound (text : String)
  | database
  deriving DecidableEq

namespace PromptTable

variable (T : PromptTable) (key : Key) (version : ℤ)

/-- The version of a prompt that is active, with its row. -/
def active : Option (ℤ × PromptVersion) :=
  (T.rows.rows.find? fun e ↦ e.1.1 = key ∧ e.2.isActive).map fun e ↦ (e.1.2, e.2)

def activeRows : Table (Key × ℤ) PromptVersion :=
  T.rows.mapVals fun k row ↦
    if k.1 = key then { row with isActive := decide (k.2 = version) } else row

theorem get?_activeRows {k : Key × ℤ} {row : PromptVersion}
    (h : (T.activeRows key version).get? k = some row) : ∃ row₀, T.rows.get? k = some row₀ ∧
      row = if k.1 = key then { row₀ with isActive := decide (k.2 = version) } else row₀ := by
  rw [activeRows, Table.get?_mapVals, Option.map_eq_some_iff] at h
  obtain ⟨row₀, hrow₀, rfl⟩ := h
  exact ⟨row₀, hrow₀, rfl⟩

/-- The other versions are cleared before the one is set. -/
def setActive : PromptTable where
  rows := T.activeRows key version
  oneActive := by
    intro key' v v' row row' h h' hrow hrow'
    obtain ⟨row₀, hrow₀, rfl⟩ := T.get?_activeRows key version h
    obtain ⟨row₀', hrow₀', rfl⟩ := T.get?_activeRows key version h'
    by_cases hkey : key' = key
    · simp only [hkey, if_true, decide_eq_true_eq] at hrow hrow'
      exact hrow.trans hrow'.symm
    · simp only [hkey, if_false] at hrow hrow'
      exact T.oneActive hrow₀ hrow₀' hrow hrow'

/-- `_db_set_active`, which leaves the table alone if the version is not in it. -/
def dbSetActive : PromptTable :=
  if (T.rows.get? (key, version)).isSome then T.setActive key version else T

/-- The versions of a prompt in the table. -/
def versions : List ℤ := (T.rows.keys.filter fun k ↦ k.1 = key).map Prod.snd

end PromptTable

inductive Request
  | setActiveVersion (agentSlug : String) (version : ℤ)
  | activate (agentSlug : String) (kind : Kind) (version : ℤ) (actor : String)
  | rollback (agentSlug : String) (kind : Kind) (actor : String)
  | getActivePrompt (agentSlug : String) (kind : Kind)
  deriving DecidableEq

/-- A call, and whether the database can be reached while it is served. -/
structure Call where
  request : Request
  reachable : Bool
  deriving DecidableEq

inductive Answer
  | done
  | rolledBackTo (version : ℤ)
  | prompt (content : String)
  deriving DecidableEq

namespace Registry

variable (files : PromptFiles) (s : Registry)

/-- `read_text().strip()` of a version's file. -/
def fileContent (key : Key) (version : ℤ) : Option String :=
  (files.file (dirSlug key) version).map fun text ↦ String.ofList (strip text.toList)

def missing (agentSlug : String) (version : ℤ) : RegistryError :=
  .promptNotFound s!"prompt file missing: {files.dir}/{agentSlug}/v{version}.md"

def activeFromFile (key : Key) : Except RegistryError String :=
  match s.manifest.get? (dirSlug key) with
  | none => .error (.promptNotFound s!"no registry entry for agent '{dirSlug key}'")
  | some entry =>
    match fileContent files key entry.activeVersion with
    | none => .error (missing files (dirSlug key) entry.activeVersion)
    | some content => .ok content

def getActivePrompt (reachable : Bool) (key : Key) : Except RegistryError String :=
  match if reachable then s.prompts.active key else none with
  | some (_, row) => .ok row.content
  | none => s.activeFromFile files key

/-- The file is written first, and what becomes of the table is not looked at. -/
def setActiveVersion (reachable : Bool) (agentSlug : String) (version : ℤ) :
    Except RegistryError Registry :=
  match s.manifest.get? agentSlug with
  | none => .error (.promptNotFound s!"no registry entry for agent '{agentSlug}'")
  | some entry =>
    match files.file agentSlug version with
    | none => .error (missing files agentSlug version)
    | some _ =>
      let key := resolveSlug agentSlug .system
      .ok { s with
        manifest := s.manifest.assign agentSlug { entry with activeVersion := version }
        prompts := if reachable then s.prompts.dbSetActive key version else s.prompts
        activated := s.activated.assign key version }

def activate (reachable : Bool) (key : Key) (version : ℤ) (actor : String) :
    Except RegistryError Registry :=
  if reachable then
    if (s.prompts.rows.get? (key, version)).isSome then
      .ok { s with
        prompts := s.prompts.setActive key version
        audit := s.audit ++ [⟨actor, key, (s.prompts.active key).map Prod.fst, version⟩]
        activated := s.activated.assign key version }
    else
      .error (.promptNotFound s!"no prompt version {version} for '{key.agentSlug}' ({key.kind.text})")
  else .error .database

/-- The versions below the active one, or all if none is. -/
def earlier (key : Key) : List ℤ :=
  match s.prompts.active key with
  | some (current, _) => (s.prompts.versions key).filter (· < current)
  | none => s.prompts.versions key

def rollback (reachable : Bool) (key : Key) (actor : String) :
    Except RegistryError (Registry × ℤ) :=
  if reachable then
    match (s.earlier key).max? with
    | none =>
      .error (.promptNotFound s!"no earlier prompt version to roll back to for '{key.agentSlug}'")
    | some target =>
      (s.activate reachable (resolveSlug key.agentSlug key.kind) target actor).map (·, target)
  else .error .database

def handle (call : Call) : Except RegistryError (Registry × Answer) :=
  match call.request with
  | .setActiveVersion agentSlug version =>
    (s.setActiveVersion files call.reachable agentSlug version).map (·, .done)
  | .activate agentSlug kind version actor =>
    (s.activate call.reachable (resolveSlug agentSlug kind) version actor).map (·, .done)
  | .rollback agentSlug kind actor =>
    (s.rollback call.reachable (resolveSlug agentSlug kind) actor).map fun (s', target) ↦
      (s', .rolledBackTo target)
  | .getActivePrompt agentSlug kind =>
    (s.getActivePrompt files call.reachable (resolveSlug agentSlug kind)).map fun content ↦
      (s, .prompt content)

/-- A call that raises leaves both stores as they are. -/
def step (call : Call) : Option Registry :=
  match s.handle files call with
  | .ok (s', _) => some s'
  | .error _ => some s

/-- The content of a version: that of its row, or of its file if the table has no such row. -/
def contentOf (key : Key) (version : ℤ) : Option String :=
  match s.prompts.rows.get? (key, version) with
  | some row => some row.content
  | none => fileContent files key version

/-- What was activated is what the stores serve, and nothing else is active beside it. -/
structure ServesActivated : Prop where
  served : ∀ key version, s.activated.get? key = some version → ∃ content,
    s.contentOf files key version = some content ∧
      s.getActivePrompt files true key = .ok content
  oneActive : ∀ key version version' row row', s.prompts.rows.get? (key, version) = some row →
    s.prompts.rows.get? (key, version') = some row' → row.isActive → row'.isActive →
      version = version'

/-- A lookup answers with the version that was activated. -/
def AnswersActivated (call : Call) : Prop :=
  match call.request with
  | .getActivePrompt agentSlug kind => ∀ version,
    s.activated.get? (resolveSlug agentSlug kind) = some version → ∃ content,
      s.contentOf files (resolveSlug agentSlug kind) version = some content ∧
        (s.handle files call).map Prod.snd = .ok (.prompt content)
  | _ => True

/-- The table follows the files: the version is there to be made active, or there is none active to
be read in its place. -/
def TableFollows (reachable : Bool) (key : Key) (version : ℤ) : Prop :=
  (reachable ∧ (s.prompts.rows.get? (key, version)).isSome) ∨
    match s.prompts.active key with
    | some (_, row) => s.contentOf files key version = some row.content
    | none => s.contentOf files key version = fileContent files key version

/-- The condition: the table follows a version activated through the files, and a lookup that cannot
reach the table finds in the files what was activated. -/
def InStep (call : Call) : Prop :=
  match call.request with
  | .setActiveVersion agentSlug version =>
    (s.manifest.get? agentSlug).isSome → (files.file agentSlug version).isSome →
      s.TableFollows files call.reachable (resolveSlug agentSlug .system) version
  | .getActivePrompt agentSlug kind => call.reachable = false → ∀ version,
    s.activated.get? (resolveSlug agentSlug kind) = some version → ∃ content,
      s.contentOf files (resolveSlug agentSlug kind) version = some content ∧
        s.activeFromFile files (resolveSlug agentSlug kind) = .ok content
  | _ => True

end Registry

section Active

variable {T : PromptTable} {key key' : Key} {version : ℤ} {row : PromptVersion}

theorem active_eq_some :
    T.active key = some (version, row) ↔ T.rows.get? (key, version) = some row ∧ row.isActive := by
  constructor
  · intro h
    obtain ⟨⟨⟨key', version'⟩, row'⟩, hfind, heq⟩ := Option.map_eq_some_iff.mp h
    obtain ⟨rfl, rfl⟩ := Prod.mk.inj heq
    have hprop := List.find?_some hfind
    simp only [decide_eq_true_eq] at hprop
    obtain ⟨rfl, hactive⟩ := hprop
    exact ⟨T.rows.get?_eq_some.mpr (List.mem_of_find?_eq_some hfind), hactive⟩
  · rintro ⟨hget, hactive⟩
    have hmem := T.rows.get?_eq_some.mp hget
    cases hfind : T.rows.rows.find? fun e ↦ e.1.1 = key ∧ e.2.isActive with
    | none =>
      have hnone := List.find?_eq_none.mp hfind _ hmem
      simp [hactive] at hnone
    | some e =>
      obtain ⟨⟨key', version'⟩, row'⟩ := e
      have hprop := List.find?_some hfind
      simp only [decide_eq_true_eq] at hprop
      obtain ⟨rfl, hactive'⟩ := hprop
      have hget' := T.rows.get?_eq_some.mpr (List.mem_of_find?_eq_some hfind)
      obtain rfl := T.oneActive hget hget' hactive hactive'
      obtain rfl := Option.some.inj (hget.symm.trans hget')
      rw [PromptTable.active, hfind]
      rfl

theorem get?_setActive (k : Key × ℤ) : (T.setActive key version).rows.get? k =
    (T.rows.get? k).map fun row ↦
      if k.1 = key then { row with isActive := decide (k.2 = version) } else row :=
  Table.get?_mapVals ..

theorem active_setActive (h : T.rows.get? (key, version) = some row) :
    (T.setActive key version).active key = some (version, { row with isActive := true }) :=
  active_eq_some.mpr ⟨by simp [get?_setActive, h], rfl⟩

theorem active_setActive_of_ne (h : key' ≠ key) :
    (T.setActive key version).active key' = T.active key' := by
  refine Option.ext fun ⟨version', row'⟩ ↦ ?_
  simp only [active_eq_some, get?_setActive, if_neg h, Option.map_id']

theorem map_content_setActive (k : Key × ℤ) :
    ((T.setActive key version).rows.get? k).map PromptVersion.content =
      (T.rows.get? k).map PromptVersion.content := by
  rw [get?_setActive, Option.map_map]
  congr 1
  funext row
  simp only [Function.comp_apply]
  split <;> rfl

theorem map_content_dbSetActive (k : Key × ℤ) :
    ((T.dbSetActive key version).rows.get? k).map PromptVersion.content =
      (T.rows.get? k).map PromptVersion.content := by
  rw [PromptTable.dbSetActive]
  split
  · exact map_content_setActive k
  · rfl

theorem active_dbSetActive_of_ne (h : key' ≠ key) :
    (T.dbSetActive key version).active key' = T.active key' := by
  rw [PromptTable.dbSetActive]
  split
  · exact active_setActive_of_ne h
  · rfl

end Active

namespace Registry

variable {files : PromptFiles} {s s' : Registry} {key key' : Key} {version : ℤ}

theorem contentOf_congr (h : (s'.prompts.rows.get? (key, version)).map PromptVersion.content =
    (s.prompts.rows.get? (key, version)).map PromptVersion.content) :
    s'.contentOf files key version = s.contentOf files key version := by
  rw [contentOf, contentOf]
  cases hs : s.prompts.rows.get? (key, version) <;>
    cases hs' : s'.prompts.rows.get? (key, version) <;> simp_all

/-- What the database and the files serve of a prompt, from what they hold of it. -/
theorem getActivePrompt_congr {reachable : Bool} (hactive : s'.prompts.active key = s.prompts.active key)
    (hmanifest : s'.manifest.get? (dirSlug key) = s.manifest.get? (dirSlug key)) :
    s'.getActivePrompt files reachable key = s.getActivePrompt files reachable key := by
  rw [getActivePrompt, getActivePrompt, hactive, activeFromFile, activeFromFile, hmanifest]

/-- What a call that activates a version leaves of everything else. -/
structure Moves (s s' : Registry) (key : Key) (version : ℤ) : Prop where
  activated : s'.activated = s.activated.assign key version
  active : ∀ key', key' ≠ key → s'.prompts.active key' = s.prompts.active key'
  manifest : ∀ key', key' ≠ key → s'.manifest.get? (dirSlug key') = s.manifest.get? (dirSlug key')
  content : ∀ k, (s'.prompts.rows.get? k).map PromptVersion.content =
    (s.prompts.rows.get? k).map PromptVersion.content

/-- The version just activated is the one to look at. -/
theorem Moves.serves_iff (h : Moves s s' key version) (hserves : s.ServesActivated files) :
    s'.ServesActivated files ↔ ∃ content, s.contentOf files key version = some content ∧
      s'.getActivePrompt files true key = .ok content := by
  have hcontent (key' : Key) (v : ℤ) : s'.contentOf files key' v = s.contentOf files key' v :=
    contentOf_congr (h.content _)
  constructor
  · intro hserves'
    obtain ⟨content, hv, hprompt⟩ := hserves'.served key version
      (by rw [h.activated, Table.get?_assign, if_pos rfl])
    exact ⟨content, hcontent key version ▸ hv, hprompt⟩
  · rintro ⟨content, hv, hprompt⟩
    refine ⟨fun key' v hactivated ↦ ?_, fun key' v v' row row' ↦ s'.prompts.oneActive⟩
    rw [h.activated, Table.get?_assign] at hactivated
    rw [hcontent]
    split at hactivated
    · next heq =>
      obtain rfl := Option.some.inj hactivated
      exact ⟨content, heq ▸ hv, heq ▸ hprompt⟩
    · next hne =>
      rw [getActivePrompt_congr (h.active key' hne) (h.manifest key' hne)]
      exact hserves.served key' v hactivated

variable (files) in
theorem activate_eq_ok {reachable : Bool} {actor : String}
    (h : s.activate reachable key version actor = .ok s') :
    Moves s s' key version ∧ ∃ content, s.contentOf files key version = some content ∧
      s'.getActivePrompt files true key = .ok content := by
  rw [activate] at h
  split at h
  · split at h
    · next hsome =>
      obtain ⟨row, hrow⟩ := Option.isSome_iff_exists.mp hsome
      obtain rfl := Except.ok.inj h
      refine ⟨⟨rfl, fun key' hne ↦ active_setActive_of_ne hne, fun _ _ ↦ rfl,
        fun k ↦ map_content_setActive k⟩, row.content, by rw [contentOf, hrow], ?_⟩
      simp only [getActivePrompt, if_true, active_setActive hrow]
    · cases h
  · cases h

theorem rollback_eq_ok {reachable : Bool} {actor : String} {target : ℤ}
    (h : s.rollback reachable key actor = .ok (s', target)) :
    s.activate reachable (resolveSlug key.agentSlug key.kind) target actor = .ok s' := by
  rw [rollback] at h
  split at h
  · split at h
    · cases h
    · next target' htarget =>
      cases hactivate : s.activate reachable (resolveSlug key.agentSlug key.kind) target' actor with
      | error e =>
        rw [hactivate] at h
        cases h
      | ok s'' =>
        rw [hactivate] at h
        cases h
        exact hactivate
  · cases h

/-- A version that the files have been moved to is served if the table has been moved too, or else if
what the table has active, or the file, is the same text. -/
theorem serves_version_iff {reachable : Bool} {manifest : Table String ManifestEntry}
    {audit : List AuditEntry} {activated : Table Key ℤ}
    (hfile : ∃ entry, manifest.get? (dirSlug key) = some entry ∧ entry.activeVersion = version)
    (hsome : (fileContent files key version).isSome) :
    (∃ content, s.contentOf files key version = some content ∧
        getActivePrompt files
          ⟨manifest, if reachable then s.prompts.dbSetActive key version else s.prompts, audit,
            activated⟩ true key = .ok content) ↔
      s.TableFollows files reachable key version := by
  by_cases hrow : reachable ∧ (s.prompts.rows.get? (key, version)).isSome
  · obtain ⟨rfl, hpresent⟩ := id hrow
    obtain ⟨row, hget⟩ := Option.isSome_iff_exists.mp hpresent
    refine iff_of_true ⟨row.content, by rw [contentOf, hget], ?_⟩ (.inl hrow)
    simp only [getActivePrompt, if_true, PromptTable.dbSetActive, hpresent, active_setActive hget]
  · have hprompts : (if reachable then s.prompts.dbSetActive key version else s.prompts) =
        s.prompts := by
      cases reachable with
      | true => rw [if_pos rfl, PromptTable.dbSetActive, if_neg fun h ↦ hrow ⟨rfl, h⟩]
      | false => rfl
    rw [hprompts, TableFollows, or_iff_right hrow, getActivePrompt]
    simp only [if_true]
    cases hactive : s.prompts.active key with
    | some e =>
      obtain ⟨v, row⟩ := e
      simp
    | none =>
      obtain ⟨entry, hentry, rfl⟩ := hfile
      obtain ⟨content, hcontent⟩ := Option.isSome_iff_exists.mp hsome
      simp [activeFromFile, hentry, hcontent]

theorem setActiveVersion_eq_ok {reachable : Bool} {agentSlug : String}
    (h : s.setActiveVersion files reachable agentSlug version = .ok s') :
    (s.manifest.get? agentSlug).isSome ∧ (files.file agentSlug version).isSome ∧
      Moves s s' (resolveSlug agentSlug .system) version ∧
      ((∃ content, s.contentOf files (resolveSlug agentSlug .system) version = some content ∧
          s'.getActivePrompt files true (resolveSlug agentSlug .system) = .ok content) ↔
        s.TableFollows files reachable (resolveSlug agentSlug .system) version) := by
  rw [setActiveVersion] at h
  cases hentry : s.manifest.get? agentSlug with
  | none =>
    rw [hentry] at h
    cases h
  | some entry =>
    cases hfile : files.file agentSlug version with
    | none =>
      rw [hentry, hfile] at h
      cases h
    | some text =>
      rw [hentry, hfile] at h
      obtain rfl := Except.ok.inj h
      refine ⟨rfl, rfl, ⟨rfl, fun key' hne ↦ ?_, fun key' hne ↦ ?_, fun k ↦ ?_⟩, ?_⟩
      · cases reachable with
        | true => exact active_dbSetActive_of_ne hne
        | false => rfl
      · rw [Table.get?_assign, if_neg]
        rintro rfl
        exact hne (resolveSlug_dirSlug key').symm
      · cases reachable with
        | true => exact map_content_dbSetActive k
        | false => rfl
      · refine serves_version_iff ⟨{ entry with activeVersion := version }, ?_, rfl⟩ ?_
        · rw [dirSlug_resolveSlug, Table.get?_assign, if_pos rfl]
        · rw [fileContent, dirSlug_resolveSlug, hfile]
          rfl

theorem setActiveVersion_eq_error {reachable : Bool} {agentSlug : String} {e : RegistryError}
    (h : s.setActiveVersion files reachable agentSlug version = .error e) :
    ¬ ((s.manifest.get? agentSlug).isSome ∧ (files.file agentSlug version).isSome) := by
  rintro ⟨hentry, hfile⟩
  obtain ⟨entry, hentry⟩ := Option.isSome_iff_exists.mp hentry
  obtain ⟨text, hfile⟩ := Option.isSome_iff_exists.mp hfile
  simp [setActiveVersion, hentry, hfile] at h

theorem answer_eq_ok_iff {agentSlug : String} {kind : Kind} {reachable : Bool} {content : String} :
    (s.handle files ⟨.getActivePrompt agentSlug kind, reachable⟩).map Prod.snd =
        .ok (.prompt content) ↔
      s.getActivePrompt files reachable (resolveSlug agentSlug kind) = .ok content := by
  dsimp only [handle]
  cases s.getActivePrompt files reachable (resolveSlug agentSlug kind) <;> simp [Except.map]

theorem step_getActivePrompt {agentSlug : String} {kind : Kind} {reachable : Bool}
    (h : s.step files ⟨.getActivePrompt agentSlug kind, reachable⟩ = some s') : s' = s := by
  rw [step, handle] at h
  cases hprompt : s.getActivePrompt files reachable (resolveSlug agentSlug kind) <;>
    simp_all [Except.map]

/-- One call: after it what was activated is served, and it has itself been answered so, exactly if
the table is kept in step with the files. -/
theorem step_serves_iff {call : Call} (hserves : s.ServesActivated files)
    (h : s.step files call = some s') :
    s'.ServesActivated files ∧ s.AnswersActivated files call ↔ s.InStep files call := by
  obtain ⟨request, reachable⟩ := call
  rw [step] at h
  cases request with
  | setActiveVersion agentSlug version =>
    rw [AnswersActivated, and_true, InStep]
    cases hset : s.setActiveVersion files reachable agentSlug version with
    | error e =>
      simp only [handle, hset, Except.map, Option.some.injEq] at h
      exact iff_of_true (h ▸ hserves) fun hentry hfile ↦
        absurd ⟨hentry, hfile⟩ (setActiveVersion_eq_error hset)
    | ok s'' =>
      simp only [handle, hset, Except.map, Option.some.injEq] at h
      subst h
      obtain ⟨hentry, hfile, hmoves, hiff⟩ := setActiveVersion_eq_ok hset
      rw [hmoves.serves_iff hserves, hiff]
      exact ⟨fun hfollows _ _ ↦ hfollows, fun hfollows ↦ hfollows hentry hfile⟩
  | activate agentSlug kind version actor =>
    refine iff_of_true ⟨?_, trivial⟩ trivial
    cases hactivate : s.activate reachable (resolveSlug agentSlug kind) version actor with
    | error e =>
      simp only [handle, hactivate, Except.map, Option.some.injEq] at h
      exact h ▸ hserves
    | ok s'' =>
      simp only [handle, hactivate, Except.map, Option.some.injEq] at h
      subst h
      obtain ⟨hmoves, hcontent⟩ := activate_eq_ok files hactivate
      exact (hmoves.serves_iff hserves).mpr hcontent
  | rollback agentSlug kind actor =>
    refine iff_of_true ⟨?_, trivial⟩ trivial
    cases hrollback : s.rollback reachable (resolveSlug agentSlug kind) actor with
    | error e =>
      simp only [handle, hrollback, Except.map, Option.some.injEq] at h
      exact h ▸ hserves
    | ok r =>
      obtain ⟨s'', target⟩ := r
      simp only [handle, hrollback, Except.map, Option.some.injEq] at h
      subst h
      obtain ⟨hmoves, hcontent⟩ := activate_eq_ok files (rollback_eq_ok hrollback)
      exact (hmoves.serves_iff hserves).mpr hcontent
  | getActivePrompt agentSlug kind =>
    obtain rfl := step_getActivePrompt h
    simp only [and_iff_right hserves, AnswersActivated, answer_eq_ok_iff, InStep]
    cases reachable with
    | true => exact iff_of_true (hserves.served _) fun hlost ↦ Bool.noConfusion hlost
    | false => exact (true_imp_iff.symm.trans (imp_congr_left (by simp)))

/-- The stores as they are found, before any call. -/
def start (manifest : Table String ManifestEntry) (prompts : PromptTable) (audit : List AuditEntry) :
    Registry := ⟨manifest, prompts, audit, .empty⟩

/-- Through a run of calls the registry serves what was activated exactly if it is kept in step. -/
theorem serves_activated_iff (files : PromptFiles) (manifest : Table String ManifestEntry)
    (prompts : PromptTable) (audit : List AuditEntry) (calls : List Call) :
    Along (step files) (fun s call s' ↦ s'.ServesActivated files ∧ s.AnswersActivated files call)
        (start manifest prompts audit) calls ↔
      Along (step files) (fun s call _ ↦ s.InStep files call) (start manifest prompts audit) calls := by
  have hserves : (start manifest prompts audit).ServesActivated files :=
    ⟨fun key version h ↦ (by cases h), fun key v v' row row' ↦ prompts.oneActive⟩
  refine along_step_iff ?_ hserves
  intro s call s' hserves h
  exact step_serves_iff hserves h

end Registry

section CeoAgent

def twoFiles : PromptFiles where
  dir := "prompts"
  file agentSlug version :=
    if agentSlug = "ceo_agent" then
      if version = 1 then some "Plan." else if version = 2 then some "Plan again." else none
    else none

def ceoAgent : Key := resolveSlug "ceo_agent" .system

def manifest : Table String ManifestEntry := Table.empty.put "ceo_agent" ⟨"PMPT-001", 1⟩

/-- The first version only, seeded as the active one. -/
def seeded : PromptTable where
  rows := Table.empty.put (ceoAgent, 1) ⟨"Plan.", true⟩
  oneActive := by
    have hone {k : Key × ℤ} {row : PromptVersion}
        (h : (Table.empty.put (ceoAgent, 1) ⟨"Plan.", true⟩).get? k = some row) : k.2 = 1 := by
      rw [Table.get?_put] at h
      split at h
      · next heq => rw [heq]
      · cases h
    intro key v v' row row' h h' _ _
    exact (hone h).trans (hone h').symm

/-- The second version has no row: its activation returns, and the first is served. -/
theorem first_version_served : ¬ Along (Registry.step twoFiles)
    (fun s call s' ↦ s'.ServesActivated twoFiles ∧ s.AnswersActivated twoFiles call)
    (Registry.start manifest seeded []) [⟨.setActiveVersion "ceo_agent" 2, true⟩] := by
  intro h
  obtain ⟨⟨hserves, -⟩, -⟩ := h
  obtain ⟨content, hcontent, hprompt⟩ := hserves.served ceoAgent 2 rfl
  obtain rfl : "Plan." = content := Except.ok.inj hprompt
  exact absurd hcontent (by decide)

end CeoAgent

end TradingOS.Agents.PromptRegistry
