import Mathlib.Data.List.Nodup
import TradingOS.Lib.Runs
import TradingOS.Sandbox.Pool

namespace TradingOS.Sandbox

open Lib.Runs Function

variable {ρ : Type} {codec : Codec ρ} {p p' : Pool ρ}

/-- What the call returned is what the runner dumped for its job, or an error of the pool that
no line of a worker made. -/
def Outcome.Genuine (reports : List (JobId × RunnerResult ρ)) (job : JobId) : Outcome ρ → Prop
  | .result r => ∀ r', (job, r') ∈ reports ↔ r' = r
  | .failed (.nonJsonOutput _) | .outputRaised => False
  | .failed .diedBeforeAccepting | .failed .exceededTimeoutOrDied | .payloadRaised => True

/-- No job has got another's result, and none a line that its code has printed. -/
def Pool.NoInterference (p : Pool ρ) : Prop :=
  ∀ e ∈ p.log, e.2.Genuine p.reports e.1

/-- No job's code brings a byte of its own to the pipe. -/
def KeepsText (p : Pool ρ) : PoolEvent ρ → Pool ρ → Prop
  | .idleWorker index event, _ => ∀ w ∈ p.available[index]?, w.KeepsText event
  | .busyWorker thread event, _ => ∀ c ∈ p.calls thread, c.worker.KeepsText event
  | _, _ => True

/-- Where a call and its worker are, when nothing but results reaches the pipe. -/
inductive Call.Sound (codec : Codec ρ) (reports : List (JobId × RunnerResult ρ)) (c : Call) : Prop
  | unsent (hsent : c.sent = false) (hidle : c.worker.Idle) (hreceived : c.received = [])
      (hnew : c.job ∉ reports.map Prod.fst)
  | working (hsent : c.sent) (hworking : c.worker.Working c.job) (hreceived : c.received = [])
      (hnew : c.job ∉ reports.map Prod.fst)
  | answering (hsent : c.sent) {r : RunnerResult ρ} (hreported : (c.job, r) ∈ reports)
      (hanswering : c.worker.Answering codec r c.received)
  | gone (hsent : c.sent) (hgone : c.worker.Gone c.received)

structure Pool.Sound (codec : Codec ρ) (p : Pool ρ) : Prop where
  idle : ∀ w ∈ p.available, w.Idle
  calls : ∀ thread c, p.calls thread = some c → c.Sound codec p.reports
  distinct : ∀ thread thread' c c', p.calls thread = some c → p.calls thread' = some c' →
    c.job = c'.job → thread = thread'
  jobs_lt : ∀ thread c, p.calls thread = some c → c.job < p.nextJob
  reports_lt : ∀ e ∈ p.reports, e.1 < p.nextJob
  reports_nodup : (p.reports.map Prod.fst).Nodup
  log : ∀ e ∈ p.log, e.2.Genuine p.reports e.1

theorem eq_of_newline_mem {line received rest : List Byte} (hline : newline ∉ line)
    (happend : received ++ rest = line ++ [newline]) (hmem : newline ∈ received) :
    received = line ++ [newline] ∧ rest = [] := by
  induction line generalizing received with
  | nil =>
    cases received with
    | nil => cases hmem
    | cons b received =>
      obtain ⟨rfl, hnil⟩ := List.cons.inj happend
      obtain ⟨rfl, rfl⟩ := List.append_eq_nil_iff.mp hnil
      exact ⟨rfl, rfl⟩
  | cons a line ih =>
    cases received with
    | nil => cases hmem
    | cons b received =>
      obtain ⟨rfl, htail⟩ := List.cons.inj happend
      obtain ⟨hne, hnotMem⟩ := not_or.mp (mt List.mem_cons.mpr hline)
      obtain ⟨rfl, rfl⟩ := ih hnotMem htail ((List.mem_cons.mp hmem).resolve_left hne)
      exact ⟨rfl, rfl⟩

theorem takeWhile_line {line : List Byte} (hline : newline ∉ line) :
    (line ++ [newline]).takeWhile (· ≠ newline) = line := by
  rw [List.takeWhile_append_of_pos]
  · simp
  · intro b hb
    exact decide_eq_true fun h ↦ hline (h ▸ hb)

theorem Outcome.Genuine.cons {outcome : Outcome ρ} {reports : List (JobId × RunnerResult ρ)}
    {job job' : JobId} {r : RunnerResult ρ} (h : outcome.Genuine reports job)
    (hnew : job' ∉ reports.map Prod.fst) : outcome.Genuine ((job', r) :: reports) job := by
  cases outcome with
  | result r' =>
    have hne : job ≠ job' := fun hjob ↦
      hnew (hjob ▸ List.mem_map_of_mem (f := Prod.fst) ((h r').mpr rfl))
    intro r''
    rw [← h r'', List.mem_cons]
    exact or_iff_right fun heq ↦ hne (Prod.mk.inj heq).1
  | failed error => cases error <;> exact h
  | payloadRaised => trivial
  | outputRaised => exact h

theorem Call.Sound.cons {c : Call} {reports : List (JobId × RunnerResult ρ)} {job : JobId}
    {r : RunnerResult ρ} (h : c.Sound codec reports) (hne : c.job ≠ job) :
    c.Sound codec ((job, r) :: reports) := by
  have hnotMem (hnew : c.job ∉ reports.map Prod.fst) :
      c.job ∉ ((job, r) :: reports).map Prod.fst := by
    rw [List.map_cons, List.mem_cons]
    exact not_or.mpr ⟨hne, hnew⟩
  cases h with
  | unsent hsent hidle hreceived hnew => exact .unsent hsent hidle hreceived (hnotMem hnew)
  | working hsent hworking hreceived hnew => exact .working hsent hworking hreceived (hnotMem hnew)
  | answering hsent hreported hanswering =>
    exact .answering hsent (List.mem_cons_of_mem _ hreported) hanswering
  | gone hsent hgone => exact .gone hsent hgone

namespace Pool.Sound

theorem init (size : ℕ) : (Pool.init size).Sound codec where
  idle w hw := by
    obtain ⟨-, rfl⟩ := List.mem_replicate.mp hw
    exact Worker.idle_spawn false
  calls := nofun
  distinct := nofun
  jobs_lt := nofun
  reports_lt := nofun
  reports_nodup := List.nodup_nil
  log := nofun

theorem idle_checkin (h : p.Sound codec) {w : Worker} {healthy : Bool}
    (hw : healthy → w.Idle) : ∀ v ∈ p.checkin w healthy, v.Idle := by
  intro v hv
  unfold checkin at hv
  split at hv
  · exact h.idle v hv
  · split at hv
    · rcases List.mem_append.mp hv with hv | hv
      · exact h.idle v hv
      · rw [List.mem_singleton.mp hv]
        exact Worker.idle_spawn false
    · next hhealthy =>
      rcases List.mem_append.mp hv with hv | hv
      · exact h.idle v hv
      · rw [List.mem_singleton.mp hv]
        exact hw (by simpa using (not_or.mp hhealthy).1)

theorem finish (h : p.Sound codec) {thread : ThreadId} {job : JobId} {available : List Worker}
    {outcome : Outcome ρ} (havailable : ∀ w ∈ available, w.Idle)
    (houtcome : outcome.Genuine p.reports job) :
    (p.finish thread job available outcome).Sound codec := by
  have hcalls {thread' : ThreadId} {c : Call} (hc : update p.calls thread none thread' = some c) :
      p.calls thread' = some c := by
    rw [update_apply] at hc
    split at hc
    · cases hc
    · exact hc
  exact
    { idle := havailable
      calls := fun _ _ hc ↦ h.calls _ _ (hcalls hc)
      distinct := fun _ _ _ _ hc hc' ↦ h.distinct _ _ _ _ (hcalls hc) (hcalls hc')
      jobs_lt := fun _ _ hc ↦ h.jobs_lt _ _ (hcalls hc)
      reports_lt := h.reports_lt
      reports_nodup := h.reports_nodup
      log := fun e he ↦ by
        rcases List.mem_cons.mp he with rfl | he
        · exact houtcome
        · exact h.log e he }

theorem update_call (h : p.Sound codec) {thread : ThreadId} {c c' : Call}
    {reports : List (JobId × RunnerResult ρ)} (hc : p.calls thread = some c)
    (hjob : c'.job = c.job) (hc' : c'.Sound codec reports)
    (hothers : ∀ thread' d, thread' ≠ thread → p.calls thread' = some d → d.Sound codec reports)
    (hlt : ∀ e ∈ reports, e.1 < p.nextJob) (hnodup : (reports.map Prod.fst).Nodup)
    (hlog : ∀ e ∈ p.log, e.2.Genuine reports e.1) :
    Sound codec { p with calls := update p.calls thread (some c'), reports := reports } := by
  have hcalls {thread' : ThreadId} {d : Call}
      (hd : update p.calls thread (some c') thread' = some d) :
      d.Sound codec reports ∧ ∃ e, p.calls thread' = some e ∧ e.job = d.job := by
    rw [update_apply] at hd
    split at hd
    · next heq =>
      obtain rfl := Option.some.inj hd
      exact ⟨hc', c, heq ▸ hc, hjob.symm⟩
    · next hne => exact ⟨hothers _ _ hne hd, d, hd, rfl⟩
  exact
    { idle := h.idle
      calls := fun _ _ hd ↦ (hcalls hd).1
      distinct := fun _ _ _ _ hd hd' hjobs ↦ by
        obtain ⟨-, e, he, hejob⟩ := hcalls hd
        obtain ⟨-, e', he', hejob'⟩ := hcalls hd'
        exact h.distinct _ _ _ _ he he' (hejob.trans (hjobs.trans hejob'.symm))
      jobs_lt := fun _ _ hd ↦ by
        obtain ⟨-, e, he, hejob⟩ := hcalls hd
        exact hejob ▸ h.jobs_lt _ _ he
      reports_lt := hlt
      reports_nodup := hnodup
      log := hlog }

theorem continue_call (h : p.Sound codec) {thread : ThreadId} {c c' : Call}
    (hc : p.calls thread = some c) (hjob : c'.job = c.job) (hc' : c'.Sound codec p.reports) :
    Sound codec { p with calls := update p.calls thread (some c') } :=
  h.update_call hc hjob hc' (fun _ d _ hd ↦ h.calls _ d hd) h.reports_lt h.reports_nodup h.log

theorem report (h : p.Sound codec) {thread : ThreadId} {c : Call} {w : Worker}
    {r : RunnerResult ρ} (hc : p.calls thread = some c) (hsent : c.sent)
    (hnew : c.job ∉ p.reports.map Prod.fst) (hw : w.Answering codec r c.received) :
    Sound codec { p with
      calls := update p.calls thread (some { c with worker := w })
      reports := (c.job, r) :: p.reports } := by
  refine h.update_call hc rfl (.answering hsent List.mem_cons_self hw) ?_ ?_ ?_ ?_
  · intro thread' d hne hd
    exact (h.calls _ d hd).cons fun hjob ↦ hne (h.distinct _ _ _ _ hd hc hjob)
  · intro e he
    rcases List.mem_cons.mp he with rfl | he
    · exact h.jobs_lt _ _ hc
    · exact h.reports_lt e he
  · rw [List.map_cons]
    exact List.nodup_cons.mpr ⟨hnew, h.reports_nodup⟩
  · exact fun e he ↦ (h.log e he).cons hnew

theorem genuine_result (h : p.Sound codec) {job : JobId} {r : RunnerResult ρ}
    (hmem : (job, r) ∈ p.reports) : (Outcome.result r).Genuine p.reports job := by
  intro r'
  constructor
  · intro hmem'
    exact (Prod.mk.inj (List.inj_on_of_nodup_map h.reports_nodup hmem' hmem rfl)).2
  · rintro rfl
    exact hmem

theorem readChunk (h : p.Sound codec) {thread : ThreadId} {c : Call} (count : ℕ)
    (hc : p.calls thread = some c) (hsent : c.sent) (hpipe : c.worker.pipe ≠ []) :
    (p.readChunk codec thread c count).Sound codec := by
  unfold Pool.readChunk
  have hsplit := List.take_append_drop count c.worker.pipe
  cases h.calls thread c hc with
  | unsent hsent' => cases hsent.symm.trans hsent'
  | working _ hworking => exact absurd hworking.pipe hpipe
  | answering _ hreported hanswering =>
    obtain ⟨hinbox, hrunning, hdead, rest, hline, hrest⟩ := hanswering
    rw [← hsplit, ← List.append_assoc, List.append_assoc] at hline
    dsimp only
    split
    · next hmem =>
      have hnotMem := codec.newline_notMem_dumps
      obtain ⟨hreceived, hnil⟩ := eq_of_newline_mem (hnotMem _) hline hmem
      obtain ⟨hdrop, rfl⟩ := List.append_eq_nil_iff.mp hnil
      rw [hreceived, takeWhile_line (hnotMem _)]
      simp only [complete, codec.loads_dumps]
      refine h.finish (h.idle_checkin fun _ ↦ ⟨hinbox, hrunning, ?_, hdrop⟩)
        (h.genuine_result hreported)
      cases halive : c.worker.alive with
      | true => exact (hrest halive).symm
      | false => exact hdead halive
    · refine h.continue_call hc rfl (.answering hsent hreported ?_)
      refine ⟨hinbox, hrunning, hdead, rest, ?_, hrest⟩
      rwa [List.append_assoc]
  | gone _ hgone =>
    have hno := hgone.no_line
    rw [← hsplit, ← List.append_assoc] at hno
    dsimp only
    split
    · next hmem => exact absurd (List.mem_append_left _ hmem) hno
    · exact h.continue_call hc rfl (.gone hsent ⟨hgone.dead, hno⟩)

theorem idleWorker (h : p.Sound codec) {index : ℕ} {event : WorkerEvent ρ}
    (hkeeps : KeepsText p (.idleWorker index event) p')
    (hstep : p.step codec (.idleWorker index event) = some p') : p'.Sound codec := by
  obtain ⟨w, hw, hstep⟩ := Option.bind_eq_some_iff.mp hstep
  obtain ⟨w', hw', rfl⟩ := Option.map_eq_some_iff.mp hstep
  have hkept := Worker.kept_of_step (hkeeps w hw) hw'
  obtain ⟨hidle, hreport⟩ := (h.idle w (List.mem_of_getElem? hw)).kept hkept
  rw [hreport]
  refine ⟨fun v hv ↦ ?_, h.calls, h.distinct, h.jobs_lt, h.reports_lt, h.reports_nodup, h.log⟩
  rcases List.mem_or_eq_of_mem_set hv with hv | rfl
  · exact h.idle v hv
  · exact hidle

theorem busyWorker (h : p.Sound codec) {thread : ThreadId} {event : WorkerEvent ρ}
    (hkeeps : KeepsText p (.busyWorker thread event) p')
    (hstep : p.step codec (.busyWorker thread event) = some p') : p'.Sound codec := by
  obtain ⟨c, hc, hstep⟩ := Option.bind_eq_some_iff.mp hstep
  obtain ⟨w, hw, rfl⟩ := Option.map_eq_some_iff.mp hstep
  have hkept := Worker.kept_of_step (hkeeps c hc) hw
  cases h.calls thread c hc with
  | unsent hsent hidle hreceived hnew =>
    obtain ⟨hidle', hreport⟩ := hidle.kept hkept
    rw [hreport]
    exact h.continue_call hc rfl (.unsent hsent hidle' hreceived hnew)
  | working hsent hworking hreceived hnew =>
    rcases hworking.kept hkept with ⟨hreport, hworking' | hgone⟩ | ⟨r, hreport, hanswering⟩
    · rw [hreport]
      exact h.continue_call hc rfl (.working hsent hworking' hreceived hnew)
    · rw [hreport]
      exact h.continue_call hc rfl (.gone hsent (by rwa [hreceived]))
    · rw [hreport]
      exact h.report hc hsent hnew (by rwa [hreceived])
  | answering hsent hreported hanswering =>
    obtain ⟨hreport, hanswering'⟩ := hanswering.kept (Worker.alive_of_step hw).1 hkept
    rw [hreport]
    exact h.continue_call hc rfl (.answering hsent hreported hanswering')
  | gone hsent hgone => exact absurd hw hgone.not_step

theorem checkout (h : p.Sound codec) {thread : ThreadId}
    (hstep : p.step codec (.checkout thread) = some p') : p'.Sound codec := by
  simp only [step] at hstep
  split at hstep
  · next hnone =>
    obtain rfl := Option.some.inj hstep
    have hidle : p.nextWorker.Idle := by
      unfold nextWorker
      cases hlast : p.available.getLast? with
      | none => exact Worker.idle_spawn true
      | some w => exact h.idle w (List.mem_of_getLast? hlast)
    have hnew : p.nextJob ∉ p.reports.map Prod.fst := by
      intro hmem
      obtain ⟨e, he, heq⟩ := List.mem_map.mp hmem
      exact (h.reports_lt e he).ne heq
    have hcalls {thread' : ThreadId} {d : Call}
        (hd : update p.calls thread (some ⟨p.nextJob, p.nextWorker, false, []⟩) thread' = some d) :
        thread' = thread ∧ d = ⟨p.nextJob, p.nextWorker, false, []⟩ ∨ p.calls thread' = some d := by
      rw [update_apply] at hd
      split at hd
      · next heq => exact .inl ⟨heq, (Option.some.inj hd).symm⟩
      · exact .inr hd
    refine ⟨fun w hw ↦ h.idle w (List.dropLast_subset _ hw), ?_, ?_, ?_, ?_, h.reports_nodup, h.log⟩
    · intro thread' d hd
      rcases hcalls hd with ⟨-, rfl⟩ | hd
      · exact .unsent rfl hidle rfl hnew
      · exact h.calls _ _ hd
    · intro thread₁ thread₂ d₁ d₂ hd₁ hd₂ hjobs
      rcases hcalls hd₁ with ⟨heq₁, rfl⟩ | hold₁ <;> rcases hcalls hd₂ with ⟨heq₂, rfl⟩ | hold₂
      · exact heq₁.trans heq₂.symm
      · exact absurd hjobs (h.jobs_lt _ _ hold₂).ne'
      · exact absurd hjobs (h.jobs_lt _ _ hold₁).ne
      · exact h.distinct _ _ _ _ hold₁ hold₂ hjobs
    · intro thread' d hd
      rcases hcalls hd with ⟨-, rfl⟩ | hd
      · exact Nat.lt_succ_self _
      · exact Nat.lt_succ_of_lt (h.jobs_lt _ _ hd)
    · exact fun e he ↦ Nat.lt_succ_of_lt (h.reports_lt e he)
  · cases hstep

theorem send (h : p.Sound codec) {thread : ThreadId}
    (hstep : p.step codec (.send thread) = some p') : p'.Sound codec := by
  simp only [step] at hstep
  split at hstep
  · next job w received hc =>
    split at hstep
    · next halive =>
      obtain rfl := Option.some.inj hstep
      cases h.calls thread _ hc with
      | unsent _ hidle hreceived hnew =>
        have hinbox : w.inbox ++ [job] = [job] := congrArg (· ++ [job]) hidle.inbox
        refine h.continue_call hc rfl (.working rfl ?_ hreceived hnew)
        exact ⟨halive, hidle.buffer, hidle.pipe, .inl ⟨hinbox, hidle.running⟩⟩
      | working hsent | answering hsent | gone hsent => cases hsent
    · obtain rfl := Option.some.inj hstep
      exact h.finish (h.idle_checkin nofun) trivial
  · cases hstep

theorem read (h : p.Sound codec) {thread : ThreadId} {count : ℕ}
    (hstep : p.step codec (.read thread count) = some p') : p'.Sound codec := by
  simp only [step] at hstep
  split at hstep
  · next job w received hc =>
    split at hstep
    · next hpipe =>
      split at hstep
      · obtain rfl := Option.some.inj hstep
        exact h.readChunk count hc rfl hpipe
      · cases hstep
    · split at hstep
      · cases hstep
      · obtain rfl := Option.some.inj hstep
        exact h.finish (h.idle_checkin nofun) trivial
  · cases hstep

theorem step {event : PoolEvent ρ} (h : p.Sound codec) (hkeeps : KeepsText p event p')
    (hstep : p.step codec event = some p') : p'.Sound codec := by
  cases event with
  | idleWorker index event => exact h.idleWorker hkeeps hstep
  | busyWorker thread event => exact h.busyWorker hkeeps hstep
  | checkout thread => exact h.checkout hstep
  | payloadRaises thread =>
    simp only [Pool.step] at hstep
    split at hstep
    · obtain rfl := Option.some.inj hstep
      exact h.finish h.idle trivial
    · cases hstep
  | send thread => exact h.send hstep
  | read thread count => exact h.read hstep
  | deadline thread =>
    simp only [Pool.step] at hstep
    split at hstep
    · obtain rfl := Option.some.inj hstep
      exact h.finish (h.idle_checkin nofun) trivial
    · cases hstep
  | shutdown =>
    obtain rfl := Option.some.inj hstep
    exact ⟨nofun, h.calls, h.distinct, h.jobs_lt, h.reports_lt, h.reports_nodup, h.log⟩

end Pool.Sound

/-- In every interleaving of calls, jobs and deaths of workers in which no job's code brings a
byte of its own to the pipe, each call returns its own job's result. -/
theorem jobs_do_not_interfere (codec : Codec ρ) (size : ℕ) (events : List (PoolEvent ρ))
    (hkeeps : Along (Pool.step codec) KeepsText (.init size) events) :
    Along (Pool.step codec) (fun _ _ p ↦ p.NoInterference) (.init size) events := by
  have hinit : (Pool.init size).Sound codec := .init size
  refine along_of_invariant (fun p event p' h hkeeps hstep ↦ ?_) hinit hkeeps
  have h' := h.step hkeeps hstep
  exact ⟨h', h'.log⟩

inductive JsonConstant
  | null | no | yes | emptyObject
  deriving DecidableEq

def ascii (s : String) : List Byte := s.toList.map Char.toUInt8

namespace JsonConstant

def text : JsonConstant → List Byte
  | .null => ascii "null"
  | .no => ascii "false"
  | .yes => ascii "true"
  | .emptyObject => ascii "\x7b\x7d"

def all : List JsonConstant := [.null, .no, .yes, .emptyObject]

theorem newline_notMem_text (c : JsonConstant) : newline ∉ c.text := by
  cases c <;> decide +kernel

theorem text_append_inj {c c' : JsonConstant} {rest rest' : List Byte}
    (h : c.text ++ rest = c'.text ++ rest') : c = c' ∧ rest = rest' := by
  have hhead (c c' : JsonConstant) (h : c.text.head? = c'.text.head?) : c = c' := by
    revert h
    cases c <;> cases c' <;> decide +kernel
  have hsome (c : JsonConstant) : c.text.head?.isSome := by cases c <;> decide +kernel
  have heq := congrArg List.head? h
  rw [List.head?_append, List.head?_append, Option.or_of_isSome (hsome c),
    Option.or_of_isSome (hsome c')] at heq
  obtain rfl := hhead c c' heq
  exact ⟨rfl, List.append_cancel_left h⟩

end JsonConstant

def RunnerResult.json (r : RunnerResult JsonConstant) : List Byte :=
  ascii "\x7b\"passed\": " ++ (r.passed.text ++ (ascii ", \"portfolio_summary\": " ++
    (r.portfolioSummary.text ++ (ascii ", \"error\": " ++ (r.error.text ++ ascii "\x7d")))))

theorem RunnerResult.json_inj {r r' : RunnerResult JsonConstant} (h : r.json = r'.json) :
    r = r' := by
  obtain ⟨passed, portfolioSummary, error⟩ := r
  obtain ⟨passed', portfolioSummary', error'⟩ := r'
  obtain ⟨rfl, h⟩ := JsonConstant.text_append_inj (List.append_cancel_left h)
  obtain ⟨rfl, h⟩ := JsonConstant.text_append_inj (List.append_cancel_left h)
  obtain ⟨rfl, -⟩ := JsonConstant.text_append_inj (List.append_cancel_left h)
  rfl

def constantResults : List (RunnerResult JsonConstant) :=
  JsonConstant.all.flatMap fun passed ↦ JsonConstant.all.flatMap fun portfolioSummary ↦
    JsonConstant.all.map fun error ↦ ⟨passed, portfolioSummary, error⟩

theorem mem_constantResults (r : RunnerResult JsonConstant) : r ∈ constantResults := by
  have hall (c : JsonConstant) : c ∈ JsonConstant.all := by cases c <;> decide
  simp only [constantResults, List.mem_flatMap, List.mem_map]
  exact ⟨r.passed, hall _, r.portfolioSummary, hall _, r.error, hall _, rfl⟩

def constantCodec : Codec JsonConstant where
  dumps := RunnerResult.json
  loads line := (constantResults.find? (·.json = line)).elim .notJson .result
  newline_notMem_dumps r := by
    simp only [RunnerResult.json, List.mem_append, not_or]
    refine ⟨?_, JsonConstant.newline_notMem_text _, ?_, JsonConstant.newline_notMem_text _, ?_,
      JsonConstant.newline_notMem_text _, ?_⟩ <;> decide +kernel
  loads_dumps r := by
    cases hfind : constantResults.find? (·.json = r.json) with
    | none =>
      have hne := List.find?_eq_none.mp hfind r (mem_constantResults r)
      exact absurd (decide_eq_true rfl) hne
    | some r' =>
      have heq : r'.json = r.json := by simpa using List.find?_some hfind
      rw [RunnerResult.json_inj heq]
      rfl

def flatResult : RunnerResult JsonConstant := ⟨.yes, .emptyObject, .null⟩

def forgedResult : RunnerResult JsonConstant := ⟨.yes, .null, .null⟩

theorem jobs_do_not_interfere_printed :
    Along (Pool.step constantCodec) (fun _ _ p ↦ p.NoInterference) (.init 1)
      [.checkout 0, .send 0, .busyWorker 0 .take,
        .busyWorker 0 (.print (forgedResult.json ++ [newline])), .busyWorker 0 (.report flatResult),
        .busyWorker 0 (.flushBuffer 100), .read 0 65536] := by
  apply jobs_do_not_interfere
  exact ⟨trivial, trivial, fun _ _ ↦ trivial, fun _ _ ↦ trivial, fun _ _ ↦ trivial,
    fun _ _ ↦ trivial, trivial, trivial⟩

def forgingCall : List (PoolEvent JsonConstant) :=
  [.checkout 0, .send 0, .busyWorker 0 .take,
    .busyWorker 0 (.print (forgedResult.json ++ [newline])), .busyWorker 0 .drain,
    .busyWorker 0 (.flushBuffer 100)]

def forgedPool : Pool JsonConstant :=
  (exec (Pool.step constantCodec) (.init 1) (forgingCall ++ [.read 0 65536])).get (by decide +kernel)

/-- A call ends with the line its job has printed and flushed. -/
theorem printed_line_returned :
    ¬ Along (Pool.step constantCodec) (fun _ _ p ↦ p.NoInterference) (.init 1)
      (forgingCall ++ [.read 0 65536]) := by
  intro h
  obtain ⟨-, hgenuine⟩ := h.last (exec_eq_some.mp (Option.some_get (by decide +kernel)).symm)
  have hlog : (0, Outcome.result forgedResult) ∈ forgedPool.log := by decide +kernel
  have hreported : (0, forgedResult) ∈ forgedPool.reports :=
    (hgenuine _ hlog forgedResult).mpr rfl
  revert hreported
  decide +kernel

end TradingOS.Sandbox
