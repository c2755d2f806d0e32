import TradingOS.Orchestration.ReadyPass

namespace TradingOS.Orchestration

open Lib Lib.Runs

/-- The attempt at the task is under way or over. -/
def TaskStatus.isSpent (st : TaskStatus) : Bool := st = .running ∨ st.isTerminal

theorem TaskStatus.isSpent_of_isTerminal {st : TaskStatus} (h : st.isTerminal) : st.isSpent := by
  simp [isSpent, h]

theorem TaskStatus.isSpent_of_isCandidate {st : TaskStatus} (h : st.isCandidate) :
    st.isSpent = false := by
  cases st <;> first | rfl | cases h

theorem Task.assign_status (row : Task) (st : TaskStatus) (t : Task) :
    (row.assign st t).status = t.status ∨ (row.assign st t).status = st := by
  simp only [assign]
  split_ifs
  · exact .inl rfl
  · exact .inr rfl

namespace Db

variable {db db' : Db} {tid k : TaskId} {st : TaskStatus}

def Spent (db : Db) (k : TaskId) : Prop := ∃ st, db.statusOf k = some st ∧ st.isSpent

theorem isCandidate_iff : db.isCandidate k ↔ ∃ st, db.statusOf k = some st ∧ st.isCandidate := Option.any_eq_true _ _

theorem Spent.not_isCandidate (h : db.Spent k) : ¬ db.isCandidate k := by
  obtain ⟨st, hst, hspent⟩ := h
  rw [isCandidate_iff]
  rintro ⟨st', hst', hcand⟩
  obtain rfl := Option.some.inj (hst.symm.trans hst')
  rw [TaskStatus.isSpent_of_isCandidate hcand] at hspent
  cases hspent

/-- A status from which the task may be dispatched, now or once its dependencies let it. -/
def Offers (db : Db) (k : TaskId) (st : TaskStatus) : Prop :=
  st = .retrying ∨ st = .waitingForDependency ∨ st = .ready ∧ db.hardSatisfied k

/-- What a transaction does to a task that it does not claim. -/
def Moves (db db' : Db) (k : TaskId) : Prop :=
  db'.statusOf k = db.statusOf k ∨ ∃ st, db'.statusOf k = some st ∧ (st.isTerminal ∨ db'.Offers k st)

def Stops (db db' : Db) (k : TaskId) : Prop :=
  db'.statusOf k = db.statusOf k ∨ ∃ st, db'.statusOf k = some st ∧ st.isTerminal

theorem Stops.moves (h : Stops db db' k) : Moves db db' k :=
  h.imp_right fun ⟨st, hst, hterm⟩ ↦ ⟨st, hst, .inl hterm⟩

theorem Stops.spent (h : Stops db db' k) (hk : db.Spent k) : db'.Spent k := by
  rcases h with h | ⟨st, hst, hterm⟩
  · rwa [Spent, h]
  · exact ⟨st, hst, TaskStatus.isSpent_of_isTerminal hterm⟩

theorem Moves.spent (h : Moves db db' k) (hk : db.Spent k) (hno : ¬ db'.isCandidate k) :
    db'.Spent k := by
  rcases h with h | ⟨st, hst, hterm | hoffer⟩
  · rwa [Spent, h]
  · exact ⟨st, hst, TaskStatus.isSpent_of_isTerminal hterm⟩
  · refine absurd (isCandidate_iff.mpr ⟨st, hst, ?_⟩) hno
    rcases hoffer with rfl | rfl | ⟨rfl, -⟩ <;> rfl

/-- No dependency changes but for its state, and none that is satisfied ceases to be. -/
structure Evolves (db db' : Db) : Prop where
  reset : db'.deps.map TaskDependency.reset = db.deps.map TaskDependency.reset
  mono : ∀ k, db.hardSatisfied k → db'.hardSatisfied k

theorem Evolves.of_mark (h : db'.deps.map TaskDependency.mark = db.deps.map TaskDependency.mark) :
    Evolves db db' where
  reset := by
    have hreset := congrArg (List.map TaskDependency.reset) h
    simpa only [List.map_map, Function.comp_def, TaskDependency.reset_mark] using hreset
  mono _ := hardSatisfied_of_mark h

theorem moves_of_map {f : TaskId → Task → Task}
    (hdb' : ∀ k, db'.tasks.get? k = (db.tasks.get? k).map (f k))
    (hf : ∀ t, db.tasks.get? k = some t → (f k t).status = t.status ∨
      (f k t).status.isTerminal ∨ db'.Offers k (f k t).status) : Moves db db' k :=
  (statusOf_of_map (hdb' k) hf).imp_right fun ⟨t, _, hst, hto⟩ ↦ ⟨(f k t).status, hst, hto⟩

theorem stops_of_map {f : TaskId → Task → Task}
    (hdb' : ∀ k, db'.tasks.get? k = (db.tasks.get? k).map (f k))
    (hf : ∀ t, db.tasks.get? k = some t → (f k t).status = t.status ∨ (f k t).status.isTerminal) :
    Stops db db' k :=
  (statusOf_of_map (hdb' k) hf).imp_right fun ⟨t, _, hst, hterm⟩ ↦ ⟨(f k t).status, hst, hterm⟩

theorem stops_fail {f : Task → Task} (hf : ∀ t, (f t).status = t.status ∨ (f t).status.isTerminal)
    (capability reason : String) (k : TaskId) :
    Stops db ((db.modifyTask tid f).markUnsatisfiable tid capability reason) k := by
  have hown : Stops db (db.modifyTask tid f) k := by
    refine stops_of_map (f := fun k t ↦ if k = tid then f t else t) (fun k ↦ ?_) fun t _ ↦ ?_
    · rw [modifyTask_get?]
      split_ifs <;> simp
    · split_ifs
      · exact hf t
      · exact .inl rfl
  have hothers : Stops (db.modifyTask tid f)
      ((db.modifyTask tid f).markUnsatisfiable tid capability reason) k := by
    refine stops_of_map (Table.get?_mapVals _ _) fun t _ ↦ ?_
    rcases (db.modifyTask tid f).block_cases tid k capability reason t with hb | ⟨hb, -⟩
    · exact .inl (congrArg Task.status hb)
    · rw [hb]
      exact .inr rfl
  rcases hothers with he | hterm
  · rwa [Stops, he]
  · exact .inr hterm

theorem stops_handleTaskTimeout (db : Db) (tid k : TaskId) : Stops db (db.handleTaskTimeout tid) k := by
  simp only [handleTaskTimeout]
  split
  · exact .inl rfl
  · split_ifs
    · exact stops_fail (fun _ ↦ .inr rfl) _ _ k
    · exact .inl rfl

theorem stops_cancelTasks (db : Db) (k : TaskId) : Stops db db.cancelTasks k := by
  refine stops_of_map (Table.get?_mapVals _ _) fun t _ ↦ ?_
  split_ifs
  · exact .inl rfl
  · exact .inr rfl

theorem moves_reapRows (db : Db) {tids : List TaskId} (hsat : ∀ k ∈ tids, db.hardSatisfied k)
    (k : TaskId) : Moves db (db.reapRows tids) k := by
  refine moves_of_map (Table.get?_mapVals _ _) fun t _ ↦ ?_
  split_ifs with hk
  · exact .inr (.inr (.inr (.inr ⟨rfl, hsat k hk⟩)))
  · exact .inr (.inl rfl)
  · exact .inl rfl

theorem reapRows_statusOf {tids : List TaskId} (hk : k ∉ tids) :
    (db.reapRows tids).statusOf k = db.statusOf k := by
  simp only [statusOf, reapRows, Table.get?_mapVals, hk, if_false, Option.map_map, Function.comp_def]

theorem moves_setStatuses {sent : List (TaskId × TaskStatus)}
    (hsent : ∀ r ∈ sent, db.Offers r.1 r.2) (k : TaskId) : Moves db (db.setStatuses sent) k := by
  refine moves_of_map (Table.get?_mapVals _ _) fun t _ ↦ ?_
  cases hk : sent.lookup k with
  | none => exact .inl rfl
  | some st =>
    obtain ⟨l₁, l₂, rfl, -⟩ := List.lookup_eq_some_iff.mp hk
    exact .inr (.inr (hsent (k, st) (List.mem_append_right _ List.mem_cons_self)))

/-- A pass's updates leave the spent tasks alone, if they are sent for candidates. -/
theorem Spent.setStatuses (h : db.Spent k) {sent : List (TaskId × TaskStatus)}
    (hsent : ∀ r ∈ sent, db.isCandidate r.1) : (db.setStatuses sent).Spent k := by
  have hnone : sent.lookup k = none := by
    rw [Table.lookup_eq_none_iff_notMem]
    intro hmem
    obtain ⟨r, hr, rfl⟩ := List.mem_map.mp hmem
    exact h.not_isCandidate (hsent r hr)
  obtain ⟨st, hst, hspent⟩ := h
  obtain ⟨t, ht, rfl⟩ := statusOf_eq_some.mp hst
  refine ⟨_, statusOf_eq_some.mpr ⟨_, (Table.get?_mapVals _ _ _).trans (congrArg _ ht), rfl⟩, ?_⟩
  simp only [hnone, Option.getD_none]
  exact hspent

theorem moves_modifyTask {f : Task → Task} (hf : ∀ t, (f t).status = t.status ∨
    db.Offers tid (f t).status) (k : TaskId) : Moves db (db.modifyTask tid f) k := by
  refine moves_of_map (f := fun k t ↦ if k = tid then f t else t) (fun k ↦ ?_) fun t _ ↦ ?_
  · rw [modifyTask_get?]
    split_ifs <;> simp
  · split_ifs with hk
    · subst hk
      exact (hf t).imp_right .inr
    · exact .inl rfl

theorem handleFrom_moves (hsat : db.hardSatisfied tid) (row : Task) (outcome : DispatchOutcome)
    (k : TaskId) : Moves db (db.handleFrom tid row outcome) k := by
  have hstop (st : TaskStatus) (hterm : st.isTerminal) (t : Task) :
      (row.assign st t).status = t.status ∨ (row.assign st t).status.isTerminal := by
    rcases row.assign_status st t with he | he
    · exact .inl he
    · rw [he]
      exact .inr hterm
  have hoffer (st : TaskStatus) (ho : db.Offers tid st) (t : Task) :
      (row.assign st t).status = t.status ∨ db.Offers tid (row.assign st t).status := by
    rcases row.assign_status st t with he | he
    · exact .inl he
    · rw [he]
      exact .inr ho
  cases outcome with
  | success => exact .inl rfl
  | dataStale dataset =>
    refine (stops_fail (fun t ↦ ?_) _ _ k).moves
    exact hstop .blocked rfl t
  | agentUnavailable error registry =>
    simp only [handleFrom]
    split
    · refine moves_modifyTask (fun t ↦ ?_) k
      exact hoffer .ready (.inr (.inr ⟨rfl, hsat⟩)) t
    · refine (stops_fail (fun t ↦ ?_) _ _ k).moves
      exact hstop .escalated rfl t
  | raised error =>
    simp only [handleFrom]
    split_ifs
    · refine moves_modifyTask (fun t ↦ ?_) k
      exact hoffer .retrying (.inl rfl) t
    · refine (stops_fail (fun t ↦ ?_) _ _ k).moves
      exact hstop .failed rfl t

theorem handleFrom_mark (db : Db) (tid : TaskId) (row : Task) (outcome : DispatchOutcome) :
    (db.handleFrom tid row outcome).deps.map TaskDependency.mark =
      db.deps.map TaskDependency.mark := by
  cases outcome with
  | success => rfl
  | dataStale dataset => exact markUnsatisfiable_mark _ _ _ _
  | agentUnavailable error registry =>
    simp only [handleFrom]
    split
    · rfl
    · exact markUnsatisfiable_mark _ _ _ _
  | raised error =>
    simp only [handleFrom]
    split_ifs
    · rfl
    · exact markUnsatisfiable_mark _ _ _ _

/-- A completion wakes tasks that wait for it, none of which runs. -/
theorem complete_moves (hhard : ∀ d ∈ db.deps, d.policy = .hard)
    (hrunning : ∀ k, db.statusOf k = some .running → db.hardSatisfied k)
    (hrun : db.statusOf tid = some .running) (k : TaskId) :
    let db' := (db.modifyTask tid fun t ↦ { t with status := .completed }).evaluateOnCompletion tid
    Moves db db' k ∧ (db.Spent k → db'.Spent k) := by
  intro db'
  obtain ⟨t, ht, hst⟩ := statusOf_eq_some.mp hrun
  have hfin := finishes_completed ht hst
  by_cases hk : k = tid
  · subst hk
    have hself : db'.statusOf k = some .completed := statusOf_eq_some.mpr ⟨_, hfin.get?_self, rfl⟩
    exact ⟨.inr ⟨_, hself, .inl rfl⟩, fun _ ↦ ⟨_, hself, rfl⟩⟩
  · let db₁ := db.modifyTask tid fun t ↦ { t with status := .completed }
    have hget : db'.tasks.get? k = (db.tasks.get? k).map (db₁.wake tid k) := hfin.get?_ne hk
    cases htask : db.tasks.get? k with
    | none =>
      have hsame : db'.statusOf k = db.statusOf k := by simp only [statusOf, hget, htask, Option.map_none]
      refine ⟨.inl hsame, fun hspent ↦ ?_⟩
      rwa [Spent, hsame]
    | some task =>
      have hto : db'.statusOf k = some (db₁.wake tid k task).status := by
        simp only [statusOf, hget, htask, Option.map_some]
      have hfrom : db.statusOf k = some task.status := by
        simp only [statusOf, htask, Option.map_some]
      rcases db₁.wake_cases tid k task with hw | ⟨hw, hterm, hsat, d, hd, hby, hdep⟩
      · have hsame : db'.statusOf k = db.statusOf k := by rw [hto, hw, hfrom]
        refine ⟨.inl hsame, fun hspent ↦ ?_⟩
        rwa [Spent, hsame]
      · rw [hw] at hto
        refine ⟨.inr ⟨_, hto, .inr (.inr (.inr ⟨rfl, hsat⟩))⟩, fun hspent ↦ ?_⟩
        obtain ⟨st, hst', hspent⟩ := hspent
        obtain rfl := Option.some.inj (hfrom.symm.trans hst')
        have hwaits : task.status ≠ .running := fun he ↦
          not_satisfiedBy hhard (hrunning k (he ▸ hfrom)) hd hdep hby
        simp [TaskStatus.isSpent, hwaits, hterm] at hspent

theorem complete_evolves (db : Db) (tid : TaskId) :
    Evolves db
      ((db.modifyTask tid fun t ↦ { t with status := .completed }).evaluateOnCompletion tid) where
  reset := map_reset (fun d ↦ by split <;> rfl) _
  mono k hk := @hardSatisfied_satisfyDeps (db.modifyTask tid _) tid k hk

theorem Offers.mono (h : db.Offers k st) (hev : Evolves db db') : db'.Offers k st :=
  h.imp_right fun h ↦ h.imp_right fun h ↦ ⟨h.1, hev.mono k h.2⟩

theorem offers_verdict (db : Db) (k : TaskId) : db.Offers k (db.verdict k) := by
  simp only [verdict]
  split_ifs with hsat
  · exact .inr (.inr ⟨rfl, hsat⟩)
  · exact .inr (.inl rfl)

theorem setStatuses_nil (db : Db) : db.setStatuses [] = db := by
  simp only [setStatuses, List.lookup_nil, Option.getD_none]
  rw [db.tasks.mapVals_eq_self fun _ _ _ ↦ rfl]

theorem hard_of_reset (h : db'.deps.map TaskDependency.reset = db.deps.map TaskDependency.reset)
    (hhard : ∀ d ∈ db.deps, d.policy = .hard) : ∀ d ∈ db'.deps, d.policy = .hard := by
  intro d hd
  have hmem : d.reset ∈ db.deps.map TaskDependency.reset := h ▸ List.mem_map_of_mem hd
  obtain ⟨d', hd', he⟩ := List.mem_map.mp hmem
  exact (congrArg TaskDependency.policy he).symm.trans (hhard d' hd')

theorem runningTasks_status (h : k ∈ db.runningTasks) : db.statusOf k = some .running := by
  obtain ⟨r, hr, rfl⟩ := List.mem_map.mp h
  rw [List.mem_filter] at hr
  exact statusOf_eq_some.mpr ⟨r.2, db.tasks.get?_eq_some.mpr hr.1, of_decide_eq_true hr.2⟩

/-- Tasks that are ready or run have their dependencies behind them. -/
def Started (db : Db) : Prop :=
  ∀ k st, db.statusOf k = some st → st = .ready ∨ st = .running → db.hardSatisfied k

theorem Started.of_moves (h : db.Started) (hev : Evolves db db') (hmoves : ∀ k, Moves db db' k) :
    db'.Started := by
  intro k st hst hgo
  rcases hmoves k with he | ⟨st', hst', hterm | rfl | rfl | ⟨-, hsat⟩⟩
  · exact hev.mono k (h k st (he ▸ hst) hgo)
  · obtain rfl := Option.some.inj (hst.symm.trans hst')
    rcases hgo with rfl | rfl <;> cases hterm
  · obtain rfl := Option.some.inj (hst.symm.trans hst')
    rcases hgo with hgo | hgo <;> cases hgo
  · obtain rfl := Option.some.inj (hst.symm.trans hst')
    rcases hgo with hgo | hgo <;> cases hgo
  · exact hsat

end Db

namespace LoopRace

def begin (p : Plan) : LoopRace where
  db := p.db
  eventLock := none
  loops := fun _ ↦ ⟨none, []⟩
  live := []
  handlings := []
  reaps := []
  attempt := fun _ ↦ 0
  dispatched := []

def decisionHolds (s : LoopRace) (i : ℕ) : Bool :=
  match (s.loops i).pass.bind Pass.unsent with
  | none => true
  | some (k, _) => s.db.isCandidate k

/-- The task that a pass has assigned a status, and has not sent it, is in one of the statuses that
`ready_tasks` selects by. -/
def DecisionsHold (s : LoopRace) : Prop := ∀ i, s.decisionHolds i

theorem DecisionsHold.isCandidate {s : LoopRace} (h : s.DecisionsHold) {i : ℕ} {p : Pass}
    {k : TaskId} {st : TaskStatus} (hp : (s.loops i).pass = some p)
    (hk : p.unsent = some (k, st)) : s.db.isCandidate k := by
  have hi := h i
  simpa only [decisionHolds, hp, Option.bind_some, hk] using hi

/-- A task has been dispatched for no attempt later than its current one, and for that one only
if it is under way or over. -/
structure Inv (s : LoopRace) : Prop where
  hard : ∀ d ∈ s.db.deps, d.policy = .hard
  started : s.db.Started
  live : ∀ k ∈ s.live, s.db.hardSatisfied k
  handlings : ∀ h ∈ s.handlings, s.db.hardSatisfied h.taskId
  reaps : ∀ tids ∈ s.reaps, ∀ k ∈ tids, s.db.hardSatisfied k
  unsent : ∀ i p k st, (s.loops i).pass = some p → p.unsent = some (k, st) → s.db.Offers k st
  sent : ∀ i p k st, (s.loops i).pass = some p → (k, st) ∈ p.sent →
    s.eventLock = some i ∧ s.db.isCandidate k ∧ s.db.Offers k st
  dispatched : ∀ r ∈ s.dispatched, r.2 ≤ s.attempt r.1 ∧ (r.2 = s.attempt r.1 → s.db.Spent r.1)
  nodup : s.dispatched.Nodup

variable {s t : LoopRace} {i : ℕ}

theorem inv_begin (p : Plan) : Inv (begin p) where
  hard d hd := (p.hard d hd).1
  started k st hst hgo := by
    obtain ⟨t, ht, rfl⟩ := Db.statusOf_eq_some.mp hst
    rw [p.planned t (p.db.tasks.mem_values.mpr ⟨k, ht⟩)] at hgo
    rcases hgo with hgo | hgo <;> cases hgo
  live _ h := by cases h
  handlings _ h := by cases h
  reaps _ h := by cases h
  unsent _ _ _ _ h := by cases h
  sent _ _ _ _ h := by cases h
  dispatched _ h := by cases h
  nodup := .nil

theorem pass_update {loops : ℕ → LoopThread} {loop : LoopThread} {j : ℕ} {p : Pass}
    (h : (Function.update loops i loop j).pass = some p) :
    j = i ∧ loop.pass = some p ∨ j ≠ i ∧ (loops j).pass = some p := by
  by_cases hj : j = i
  · subst hj
    rw [Function.update_self] at h
    exact .inl ⟨rfl, h⟩
  · rw [Function.update_of_ne hj] at h
    exact .inr ⟨hj, h⟩

namespace Inv

/-- A transaction that no pass's updates stand in the way of. -/
theorem of_evolves (h : Inv s) (hev : Db.Evolves s.db t.db) (hstarted : t.db.Started)
    (hpass : ∀ i p, (t.loops i).pass = some p → (s.loops i).pass = some p)
    (hsent : ∀ i p k st, (t.loops i).pass = some p → (k, st) ∈ p.sent →
      t.eventLock = some i ∧ t.db.isCandidate k)
    (hlive : ∀ k ∈ t.live, k ∈ s.live ∨ s.db.hardSatisfied k)
    (hhandlings : ∀ x ∈ t.handlings, x ∈ s.handlings) (hreaps : ∀ x ∈ t.reaps, x ∈ s.reaps)
    (hdispatched : ∀ r ∈ t.dispatched,
      r.2 ≤ t.attempt r.1 ∧ (r.2 = t.attempt r.1 → t.db.Spent r.1))
    (hnodup : t.dispatched.Nodup) : Inv t where
  hard := Db.hard_of_reset hev.reset h.hard
  started := hstarted
  live k hk := hev.mono k ((hlive k hk).elim (h.live k) id)
  handlings x hx := hev.mono _ (h.handlings x (hhandlings x hx))
  reaps x hx k hk := hev.mono k (h.reaps x (hreaps x hx) k hk)
  unsent i p k st hp hk := (h.unsent i p k st (hpass i p hp) hk).mono hev
  sent i p k st hp hk := by
    obtain ⟨hlock, hcand⟩ := hsent i p k st hp hk
    exact ⟨hlock, hcand, (h.sent i p k st (hpass i p hp) hk).2.2.mono hev⟩
  dispatched := hdispatched
  nodup := hnodup

/-- While the event lock is free no pass has sent an update. -/
theorem not_sent (h : Inv s) (hlock : s.eventLock = none) {p : Pass} {k : TaskId} {st : TaskStatus}
    (hp : (s.loops i).pass = some p) (hk : (k, st) ∈ p.sent) : False := by
  have hheld := (h.sent i p k st hp hk).1
  rw [hlock] at hheld
  cases hheld

/-- A step of one pass, which commits nothing. -/
theorem of_pass (h : Inv s) {loop : LoopThread} {lock : Option ℕ}
    (hlock : ∀ j, j ≠ i → s.eventLock = some j → lock = some j)
    (hunsent : ∀ p k st, loop.pass = some p → p.unsent = some (k, st) → s.db.Offers k st)
    (hsent : ∀ p k st, loop.pass = some p → (k, st) ∈ p.sent →
      lock = some i ∧ s.db.isCandidate k ∧ s.db.Offers k st) :
    Inv { s with loops := Function.update s.loops i loop, eventLock := lock } where
  hard := h.hard
  started := h.started
  live := h.live
  handlings := h.handlings
  reaps := h.reaps
  unsent j p k st hp hk := by
    rcases pass_update hp with ⟨rfl, hp'⟩ | ⟨-, hp'⟩
    · exact hunsent p k st hp' hk
    · exact h.unsent j p k st hp' hk
  sent j p k st hp hk := by
    rcases pass_update hp with ⟨rfl, hp'⟩ | ⟨hj, hp'⟩
    · exact hsent p k st hp' hk
    · obtain ⟨hheld, hrest⟩ := h.sent j p k st hp' hk
      exact ⟨hlock j hj hheld, hrest⟩
  dispatched := h.dispatched
  nodup := h.nodup

end Inv

theorem release_of_ne {j : ℕ} (hj : j ≠ i) (h : s.eventLock = some j) : s.release i = some j := by
  have hne : s.eventLock ≠ some i := by
    rw [h]
    exact fun he ↦ hj (Option.some.inj he)
  rw [release, if_neg hne, h]

theorem mem_lockedRows {p : Pass} {k : TaskId} {st : TaskStatus} (hlock : s.eventLock = some i)
    (hp : (s.loops i).pass = some p) (hk : (k, st) ∈ p.sent) : k ∈ s.lockedRows := by
  simp only [lockedRows, hlock, Option.bind_some, hp]
  exact List.mem_map_of_mem hk

theorem Inv.putBack_dispatched (h : Inv s) {db : Db} (hmoves : ∀ k, Db.Moves s.db db k)
    {r : TaskId × ℕ} (hr : r ∈ s.dispatched) :
    r.2 ≤ (s.putBack db).attempt r.1 ∧ (r.2 = (s.putBack db).attempt r.1 → db.Spent r.1) := by
  obtain ⟨hle, hspent⟩ := h.dispatched r hr
  simp only [putBack]
  split_ifs with hback
  · exact ⟨Nat.le_succ_of_le hle, fun he ↦ by omega⟩
  · refine ⟨hle, fun he ↦ ?_⟩
    have hs := hspent he
    exact (hmoves r.1).spent hs fun hcand ↦ hback ⟨hs.not_isCandidate, hcand⟩

section Steps

variable {s t : LoopRace} (h : Inv s)

include h

theorem Inv.select (hstep : s.step (.select i) = some t) : Inv t := by
  simp only [step] at hstep
  split_ifs at hstep
  obtain rfl := Option.some.inj hstep
  refine h.of_pass (fun _ _ hlock ↦ hlock) (fun p k st hp hk ↦ ?_) fun p k st hp hk ↦ ?_
  · obtain rfl := Option.some.inj hp
    cases hk
  · obtain rfl := Option.some.inj hp
    cases hk

theorem Inv.readDeps (hstep : s.step (.readDeps i) = some t) : Inv t := by
  simp only [step] at hstep
  obtain ⟨q, hq, rfl⟩ := Option.map_eq_some_iff.mp hstep
  obtain ⟨p, hp, hread⟩ := Option.bind_eq_some_iff.mp hq
  simp only [Pass.readDeps] at hread
  split at hread
  · next tid st rest _ _ =>
    obtain rfl := Option.some.inj hread
    refine h.of_pass (fun _ _ hlock ↦ hlock) (fun q k st' hq hk ↦ ?_) fun q k st' hq hk ↦ ?_
    · obtain rfl := Option.some.inj hq
      simp only at hk
      split_ifs at hk
      obtain ⟨rfl, rfl⟩ := Prod.mk.inj (Option.some.inj hk)
      exact s.db.offers_verdict tid
    · obtain rfl := Option.some.inj hq
      exact h.sent i p k st' hp hk
  · cases hread

theorem Inv.update (hhold : s.DecisionsHold) (hstep : s.step (.update i) = some t) : Inv t := by
  simp only [step] at hstep
  split_ifs at hstep with hlock
  obtain ⟨q, hq, rfl⟩ := Option.map_eq_some_iff.mp hstep
  obtain ⟨p, hp, hupdate⟩ := Option.bind_eq_some_iff.mp hq
  obtain ⟨row, hrow, rfl⟩ := Option.map_eq_some_iff.mp hupdate
  refine h.of_pass (fun j hj hheld ↦ ?_) (fun q k st hq hk ↦ ?_) fun q k st hq hk ↦ ?_
  · rcases hlock with hlock | hlock <;> rw [hlock] at hheld
    · cases hheld
    · exact absurd (Option.some.inj hheld).symm hj
  · obtain rfl := Option.some.inj hq
    cases hk
  · obtain rfl := Option.some.inj hq
    rcases List.mem_append.mp hk with hk | hk
    · exact ⟨rfl, (h.sent i p k st hp hk).2⟩
    · obtain rfl := List.mem_singleton.mp hk
      exact ⟨rfl, hhold.isCandidate hp hrow, h.unsent i p k st hp hrow⟩

theorem Inv.rollback (hstep : s.step (.rollback i) = some t) : Inv t := by
  simp only [step] at hstep
  split at hstep
  · cases hstep
  · obtain rfl := Option.some.inj hstep
    refine h.of_pass (fun j hj hheld ↦ release_of_ne hj hheld) (fun p k st hp ↦ ?_)
      fun p k st hp ↦ ?_
    · cases hp
    · cases hp

theorem Inv.commit (hstep : s.step (.commit i) = some t) : Inv t := by
  simp only [step] at hstep
  split at hstep
  · cases hstep
  · next p hp =>
    split_ifs at hstep
    obtain rfl := Option.some.inj hstep
    have hoffers (r) (hr : r ∈ p.sent) : s.db.Offers r.1 r.2 := (h.sent i p r.1 r.2 hp hr).2.2
    have hev : Db.Evolves s.db (s.db.setStatuses p.sent) := ⟨rfl, fun _ hk ↦ hk⟩
    refine h.of_evolves hev (h.started.of_moves hev (Db.moves_setStatuses hoffers))
      (fun j q hq ↦ ?_) (fun j q k st hq hk ↦ ?_) (fun _ ↦ .inl) (fun _ ↦ id) (fun _ ↦ id)
      (fun r hr ↦ ?_) h.nodup
    · rcases pass_update hq with ⟨-, hq⟩ | ⟨-, hq⟩
      · cases hq
      · exact hq
    · rcases pass_update hq with ⟨-, hq⟩ | ⟨hj, hq⟩
      · cases hq
      -- the lock is another pass's, so that this one has sent nothing
      obtain ⟨hheld, hcand, -⟩ := h.sent j q k st hq hk
      have hnone : p.sent = [] := by
        rw [List.eq_nil_iff_forall_not_mem]
        intro r hr
        have hown := (h.sent i p r.1 r.2 hp hr).1
        exact hj (Option.some.inj (hheld.symm.trans hown))
      refine ⟨release_of_ne hj hheld, ?_⟩
      simp only [hnone, Db.setStatuses_nil]
      exact hcand
    · obtain ⟨hle, hspent⟩ := h.dispatched r hr
      exact ⟨hle, fun he ↦ (hspent he).setStatuses fun r hr ↦ (h.sent i p r.1 r.2 hp hr).2.1⟩

theorem Inv.claim {tid : TaskId} (hstep : s.step (.claim i tid) = some t) : Inv t := by
  simp only [step] at hstep
  split at hstep
  swap
  · cases hstep
  let loop : LoopThread := { s.loops i with ready := (s.loops i).ready.erase tid }
  have hpass (j) (p) (hp : (Function.update s.loops i loop j).pass = some p) :
      (s.loops j).pass = some p := by
    rcases pass_update hp with ⟨rfl, hp'⟩ | ⟨-, hp'⟩
    · exact hp'
    · exact hp'
  cases hclaim : s.db.claim tid with
  | none =>
    rw [hclaim] at hstep
    obtain rfl := Option.some.inj hstep
    exact h.of_evolves ⟨rfl, fun _ hk ↦ hk⟩ h.started hpass
      (fun j p k st hp hk ↦ (h.sent j p k st (hpass j p hp) hk).imp_right And.left) (fun _ ↦ .inl)
      (fun _ ↦ id) (fun _ ↦ id) h.dispatched h.nodup
  | some db =>
    rw [hclaim] at hstep
    simp only at hstep
    split_ifs at hstep with hlock
    obtain rfl := Option.some.inj hstep
    obtain ⟨hready, rfl⟩ := Db.claim_eq_some.mp hclaim
    have hsat := h.started tid .ready hready (.inl rfl)
    have hself : (s.db.modifyTask tid fun t ↦ { t with status := .running }).Spent tid := by
      obtain ⟨task, htask, -⟩ := Db.statusOf_eq_some.mp hready
      refine ⟨.running, ?_, rfl⟩
      rw [Db.statusOf_modifyTask_self, htask]
      rfl
    have hfresh : (tid, s.attempt tid) ∉ s.dispatched := by
      intro hmem
      obtain ⟨st, hst, hspent⟩ := (h.dispatched _ hmem).2 rfl
      obtain rfl := Option.some.inj (hready.symm.trans hst)
      cases hspent
    refine h.of_evolves ⟨rfl, fun _ hk ↦ hk⟩ (fun k st hst hgo ↦ ?_) hpass
      (fun j p k st hp hk ↦ (h.not_sent hlock (hpass j p hp) hk).elim) (fun k hk ↦ ?_)
      (fun _ ↦ id) (fun _ ↦ id) (fun r hr ↦ ?_) (List.nodup_cons.mpr ⟨hfresh, h.nodup⟩)
    · by_cases hk : k = tid
      · exact hk ▸ hsat
      · exact h.started k st ((Db.statusOf_modifyTask_ne hk).symm.trans hst) hgo
    · rcases List.mem_cons.mp hk with rfl | hk
      · exact .inr hsat
      · exact .inl hk
    · rcases List.mem_cons.mp hr with rfl | hr
      · exact ⟨le_rfl, fun _ ↦ hself⟩
      · obtain ⟨hle, hspent⟩ := h.dispatched r hr
        refine ⟨hle, fun he ↦ ?_⟩
        by_cases hk : r.1 = tid
        · exact hk ▸ hself
        · obtain ⟨st, hst, hs⟩ := hspent he
          exact ⟨st, (Db.statusOf_modifyTask_ne hk).trans hst, hs⟩

/-- A transaction that needs the event lock, and puts no task back. -/
theorem Inv.of_locked (hlock : s.eventLock = none) {db : Db} {live : List TaskId}
    (hev : Db.Evolves s.db db) (hmoves : ∀ k, Db.Moves s.db db k)
    (hspent : ∀ k, s.db.Spent k → db.Spent k) (hlive : ∀ k ∈ live, k ∈ s.live) :
    Inv { s with db := db, live := live } :=
  h.of_evolves hev (h.started.of_moves hev hmoves) (fun _ _ ↦ id)
    (fun _ _ _ _ hp hk ↦ (h.not_sent hlock hp hk).elim) (fun k hk ↦ .inl (hlive k hk))
    (fun _ ↦ id) (fun _ ↦ id)
    (fun r hr ↦ ⟨(h.dispatched r hr).1, fun he ↦ hspent r.1 ((h.dispatched r hr).2 he)⟩) h.nodup

theorem Inv.complete {tid : TaskId} (hstep : s.step (.complete tid) = some t) : Inv t := by
  simp only [step] at hstep
  split_ifs at hstep with hgo
  obtain rfl := Option.some.inj hstep
  have hlive (k) (hk : k ∈ s.live.erase tid) : k ∈ s.live := List.mem_of_mem_erase hk
  by_cases hrun : s.db.statusOf tid = some .running
  · have hmoves := Db.complete_moves h.hard (fun k hk ↦ h.started k _ hk (.inr rfl)) hrun
    simp only [Db.runDispatchAndComplete, if_pos hrun]
    exact h.of_locked hgo.2 (s.db.complete_evolves tid) (fun k ↦ (hmoves k).1)
      (fun k ↦ (hmoves k).2) hlive
  · simp only [Db.runDispatchAndComplete, if_neg hrun]
    exact h.of_locked hgo.2 ⟨rfl, fun _ hk ↦ hk⟩ (fun _ ↦ .inl rfl) (fun _ ↦ id) hlive

theorem Inv.timeout {tid : TaskId} (hstep : s.step (.timeout tid) = some t) : Inv t := by
  simp only [step] at hstep
  split_ifs at hstep with hgo
  obtain rfl := Option.some.inj hstep
  have hstops := s.db.stops_handleTaskTimeout tid
  exact h.of_locked hgo.2 (.of_mark (s.db.handleTaskTimeout_mark tid)) (fun k ↦ (hstops k).moves)
    (fun k ↦ (hstops k).spent) fun _ ↦ id

theorem Inv.handle {tid : TaskId} {outcome : DispatchOutcome}
    (hstep : s.step (.handle tid outcome) = some t) : Inv t := by
  simp only [step] at hstep
  split_ifs at hstep with hgo
  obtain ⟨row, -, rfl⟩ := Option.map_eq_some_iff.mp hstep
  refine { h with
    live := fun k hk ↦ h.live k (List.mem_of_mem_erase hk)
    handlings := fun x hx ↦ ?_ }
  rcases List.mem_cons.mp hx with rfl | hx
  · exact h.live tid hgo.1
  · exact h.handlings x hx

theorem Inv.reap (hstep : s.step .reap = some t) : Inv t := by
  obtain rfl := Option.some.inj hstep
  refine { h with reaps := fun tids htids k hk ↦ ?_ }
  rcases List.mem_cons.mp htids with rfl | htids
  · exact h.started k _ (Db.runningTasks_status hk) (.inr rfl)
  · exact h.reaps tids htids k hk

theorem Inv.commitHandling {x : Handling} (hstep : s.step (.commitHandling x) = some t) : Inv t := by
  simp only [step] at hstep
  split_ifs at hstep with hgo
  obtain rfl := Option.some.inj hstep
  have hmoves := Db.handleFrom_moves (h.handlings x hgo.1) x.row x.outcome
  have hev : Db.Evolves s.db (s.db.handleFrom x.taskId x.row x.outcome) :=
    .of_mark (s.db.handleFrom_mark x.taskId x.row x.outcome)
  exact h.of_evolves hev (h.started.of_moves hev hmoves) (fun _ _ ↦ id)
    (fun _ _ _ _ hp hk ↦ (h.not_sent hgo.2 hp hk).elim) (fun _ ↦ .inl)
    (fun _ ↦ List.mem_of_mem_erase) (fun _ ↦ id) (fun r hr ↦ h.putBack_dispatched hmoves hr) h.nodup

theorem Inv.cancelRun (hstep : s.step .cancelRun = some t) : Inv t := by
  simp only [step] at hstep
  split_ifs at hstep with hrows
  obtain rfl := Option.some.inj hstep
  have hstops := s.db.stops_cancelTasks
  have hev : Db.Evolves s.db s.db.cancelTasks := ⟨rfl, fun _ hk ↦ hk⟩
  refine h.of_evolves hev (h.started.of_moves hev fun k ↦ (hstops k).moves) (fun _ _ ↦ id)
    (fun i p k st hp hk ↦ ?_) (fun _ ↦ .inl) (fun _ ↦ id) (fun _ ↦ id)
    (fun r hr ↦ ⟨(h.dispatched r hr).1, fun he ↦ (hstops r.1).spent ((h.dispatched r hr).2 he)⟩)
    h.nodup
  obtain ⟨hheld, hcand, -⟩ := h.sent i p k st hp hk
  refine ⟨hheld, ?_⟩
  rwa [Db.isCandidate, hrows k (mem_lockedRows hheld hp hk)]

theorem Inv.commitReap {tids : List TaskId} (hstep : s.step (.commitReap tids) = some t) :
    Inv t := by
  simp only [step] at hstep
  split_ifs at hstep with hgo
  obtain rfl := Option.some.inj hstep
  have hmoves := s.db.moves_reapRows (h.reaps tids hgo.1)
  have hev : Db.Evolves s.db (s.db.reapRows tids) := ⟨rfl, fun _ hk ↦ hk⟩
  refine h.of_evolves hev (h.started.of_moves hev hmoves) (fun _ _ ↦ id)
    (fun i p k st hp hk ↦ ?_) (fun _ ↦ .inl) (fun _ ↦ id) (fun _ ↦ List.mem_of_mem_erase)
    (fun r hr ↦ h.putBack_dispatched hmoves hr) h.nodup
  obtain ⟨hheld, hcand, -⟩ := h.sent i p k st hp hk
  refine ⟨hheld, ?_⟩
  change (s.db.reapRows tids).isCandidate k
  rwa [Db.isCandidate, Db.reapRows_statusOf (hgo.2 k (mem_lockedRows hheld hp hk))]

theorem Inv.step (hhold : s.DecisionsHold) (e : RaceEvent) (hstep : s.step e = some t) : Inv t := by
  cases e with
  | select i => exact h.select hstep
  | readDeps i => exact h.readDeps hstep
  | update i => exact h.update hhold hstep
  | commit i => exact h.commit hstep
  | rollback i => exact h.rollback hstep
  | claim i tid => exact h.claim hstep
  | complete tid => exact h.complete hstep
  | timeout tid => exact h.timeout hstep
  | handle tid outcome => exact h.handle hstep
  | commitHandling x => exact h.commitHandling hstep
  | cancelRun => exact h.cancelRun hstep
  | reap => exact h.reap hstep
  | commitReap tids => exact h.commitReap hstep

end Steps

/-- Every row that a pass commits an update to has, up to then, one of the statuses that
`ready_tasks` selects by. -/
def CommitsHold (s : LoopRace) (e : RaceEvent) (_ : LoopRace) : Prop :=
  ∀ i p k st, e = .commit i → (s.loops i).pass = some p → (k, st) ∈ p.sent → s.db.isCandidate k

theorem decisionsHold_begin (p : Plan) : (begin p).DecisionsHold := fun _ ↦ rfl

/-- In every interleaving of any number of loops in which, from when a pass decides on a task's
status until it sends it, nobody takes the task out of the statuses `ready_tasks` selects by: no
task is dispatched twice for one attempt, and no pass overwrites a status that it would not
select. -/
theorem dispatched_once (p : Plan) {events : List RaceEvent} {s : LoopRace}
    (hrun : Run step (begin p) events s)
    (hhold : Along step (fun _ _ t ↦ t.DecisionsHold) (begin p) events) :
    s.dispatched.Nodup ∧ Along step CommitsHold (begin p) events := by
  have hstep (s : LoopRace) (e : RaceEvent) (t : LoopRace) (h : Inv s ∧ s.DecisionsHold)
      (ht : t.DecisionsHold) (hst : s.step e = some t) : Inv t ∧ t.DecisionsHold :=
    ⟨h.1.step h.2 e hst, ht⟩
  have hbegin := And.intro (inv_begin p) (decisionsHold_begin p)
  refine ⟨(hrun.invariant_along hstep hhold hbegin).1.nodup, ?_⟩
  refine along_of_invariant (fun s e t h ht hst ↦ ⟨hstep s e t h ht hst, ?_⟩) hbegin hhold
  intro i p k st _ hp hk
  exact (h.1.sent i p k st hp hk).2.1

section Example

def loneTask : Plan where
  db :=
    { tasks := ⟨[(0, ⟨"news_ingestion", "news", .planned, true, 0, 3, 600, none, none⟩)], by decide⟩
      deps := [] }
  planned := by decide
  hard := by decide
  dependent_mem := by decide
  prerequisite_mem := by decide

/-- The second loop reads the task ready, and the first has claimed it by then. -/
def secondFindsReady : List RaceEvent :=
  [.select 0, .readDeps 0, .update 0, .commit 0, .select 1, .claim 0 0, .readDeps 1, .commit 1,
    .claim 1 0]

def secondFindsReadyEnd : LoopRace :=
  (exec step (begin loneTask) secondFindsReady).get (by decide +kernel)

theorem secondFindsReadyEnd_dispatched : secondFindsReadyEnd.dispatched.Nodup := by
  have hrun : Run step (begin loneTask) secondFindsReady secondFindsReadyEnd :=
    exec_eq_some.mp (Option.some_get (by decide +kernel)).symm
  refine (dispatched_once loneTask hrun ?_).1
  refine ⟨?_, ?_, ?_, ?_, ?_, ?_, ?_, ?_, ?_, trivial⟩
  all_goals
    intro i
    rcases i with _ | _ | i
    · decide +kernel
    · decide +kernel
    · rfl

/-- The second loop has read the task planned. -/
def secondFindsPlanned : List RaceEvent :=
  [.select 0, .select 1, .readDeps 0, .update 0, .commit 0, .claim 0 0, .readDeps 1, .update 1,
    .commit 1, .claim 1 0]

def secondFindsPlannedEnd : LoopRace :=
  (exec step (begin loneTask) secondFindsPlanned).get (by decide +kernel)

/-- The first loop readies the task and claims it, and the second puts it back to ready, having
read it planned, and claims it again. -/
theorem task_dispatched_twice :
    Run step (begin loneTask) secondFindsPlanned secondFindsPlannedEnd ∧
      ¬ secondFindsPlannedEnd.dispatched.Nodup ∧
      ¬ Along step CommitsHold (begin loneTask) secondFindsPlanned := by
  refine ⟨exec_eq_some.mp (Option.some_get (by decide +kernel)).symm, by decide +kernel, fun h ↦ ?_⟩
  obtain ⟨-, -, -, -, -, -, -, -, hcommit, -⟩ := h
  cases hcommit 1 _ 0 .ready rfl rfl List.mem_cons_self

end Example

end LoopRace

end TradingOS.Orchestration
