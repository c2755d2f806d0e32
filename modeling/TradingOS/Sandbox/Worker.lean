import Mathlib.Data.List.Basic
import Mathlib.Data.UInt

namespace TradingOS.Sandbox

abbrev JobId := ℕ

abbrev Byte := UInt8

def newline : Byte := 10

/-- The dictionary a worker dumps for a job, over JSON values `ρ`. -/
structure RunnerResult (ρ : Type) where
  passed : ρ
  portfolioSummary : ρ
  error : ρ
  deriving DecidableEq

/-- What `execute` makes of a line: `line.decode`, `json.loads` and the look-up of the three
keys, the first two of which can raise. -/
inductive Loaded (ρ : Type)
  | undecodable
  | notJson
  | keysMissing
  | result (r : RunnerResult ρ)
  deriving DecidableEq

/-- `json.dumps` and `json.loads` on the values that can be dumped. -/
structure Codec (ρ : Type) where
  dumps : RunnerResult ρ → List Byte
  loads : List Byte → Loaded ρ
  newline_notMem_dumps : ∀ r, newline ∉ dumps r
  loads_dumps : ∀ r, loads (dumps r) = .result r

/-- A worker process: `sys.stdin`, the job it is at, the text of `sys.stdout`, the bytes of
`sys.stdout.buffer`, and those written to the pipe and not read yet. -/
structure Worker where
  alive : Bool
  inbox : List JobId
  running : Option JobId
  text : List Byte
  buffer : List Byte
  pipe : List Byte
  jobsDone : ℕ
  isOverflow : Bool
  deriving DecidableEq

/-- The steps of a worker process. Those on `sys.stdout` are open to the code of any job it has
ever run; `report` and `crash` are the worker script's own, after the job. -/
inductive WorkerEvent (ρ : Type)
  | take
  | print (bytes : List Byte)
  | drain
  | writeBuffer (bytes : List Byte)
  | flushBuffer (count : ℕ)
  | writePipe (bytes : List Byte)
  | report (r : RunnerResult ρ)
  | crash
  | killed

namespace Worker

variable {ρ : Type} (codec : Codec ρ) (w : Worker)

def spawn (isOverflow : Bool) : Worker := ⟨true, [], none, [], [], [], 0, isOverflow⟩

def exit (output : List Byte) : Worker :=
  { w with
    alive := false, inbox := [], running := none, text := [], buffer := []
    pipe := w.pipe ++ output }

/-- A result that cannot be dumped ends the script, and the interpreter flushes `sys.stdout`. -/
def act : WorkerEvent ρ → Option Worker
  | .take =>
    match w.running, w.inbox with
    | none, job :: inbox => some { w with running := some job, inbox := inbox }
    | _, _ => none
  | .print bytes => some { w with text := w.text ++ bytes }
  | .drain => some { w with text := [], buffer := w.buffer ++ w.text }
  | .writeBuffer bytes => some { w with buffer := w.buffer ++ bytes }
  | .flushBuffer count =>
    some { w with pipe := w.pipe ++ w.buffer.take count, buffer := w.buffer.drop count }
  | .writePipe bytes => some { w with pipe := w.pipe ++ bytes }
  | .report r =>
    w.running.map fun _ ↦
      { w with running := none, buffer := w.buffer ++ (codec.dumps r ++ [newline]) }
  | .crash => w.running.map fun _ ↦ w.exit (w.buffer ++ w.text)
  | .killed => some (w.exit [])

def step (event : WorkerEvent ρ) : Option Worker := if w.alive then w.act codec event else none

def reported : WorkerEvent ρ → Option (JobId × RunnerResult ρ)
  | .report r => w.running.map (·, r)
  | _ => none

/-- The step moves no byte of a job's own past the text of `sys.stdout`, or at the exit no
whole line. -/
def KeepsText : WorkerEvent ρ → Prop
  | .drain => w.text = []
  | .writeBuffer bytes | .writePipe bytes => bytes = []
  | .crash => newline ∉ w.text
  | _ => True

end Worker

structure Worker.Idle (w : Worker) : Prop where
  inbox : w.inbox = []
  running : w.running = none
  buffer : w.buffer = []
  pipe : w.pipe = []

structure Worker.Working (w : Worker) (job : JobId) : Prop where
  alive : w.alive
  buffer : w.buffer = []
  pipe : w.pipe = []
  at_job : w.inbox = [job] ∧ w.running = none ∨ w.inbox = [] ∧ w.running = some job

/-- The bytes read and those still to come are the line of the result `r`, up to what a dead
worker never wrote. -/
structure Worker.Answering {ρ : Type} (w : Worker) (codec : Codec ρ) (r : RunnerResult ρ)
    (received : List Byte) : Prop where
  inbox : w.inbox = []
  running : w.running = none
  dead : w.alive = false → w.buffer = []
  line : ∃ rest, received ++ w.pipe ++ rest = codec.dumps r ++ [newline] ∧
    (w.alive → rest = w.buffer)

structure Worker.Gone (w : Worker) (received : List Byte) : Prop where
  dead : w.alive = false
  no_line : newline ∉ received ++ w.pipe

namespace Worker

variable {ρ : Type} {codec : Codec ρ} {w w' : Worker} {event : WorkerEvent ρ}

theorem alive_of_step (h : w.step codec event = some w') : w.alive ∧ w.act codec event = some w' := by
  unfold step at h
  split at h
  · exact ⟨by assumption, h⟩
  · cases h

theorem idle_spawn (isOverflow : Bool) : (spawn isOverflow).Idle := ⟨rfl, rfl, rfl, rfl⟩

inductive Kept (codec : Codec ρ) (w : Worker) : Option (JobId × RunnerResult ρ) → Worker → Prop
  | output {w' : Worker} (halive : w'.alive) (hinbox : w'.inbox = w.inbox)
      (hrunning : w'.running = w.running) (hbytes : w'.pipe ++ w'.buffer = w.pipe ++ w.buffer) :
      Kept codec w none w'
  | take {job : JobId} {inbox : List JobId} (hrunning : w.running = none)
      (hinbox : w.inbox = job :: inbox) :
      Kept codec w none { w with running := some job, inbox := inbox }
  | report {job : JobId} (hrunning : w.running = some job) (r : RunnerResult ρ) :
      Kept codec w (some (job, r))
        { w with running := none, buffer := w.buffer ++ (codec.dumps r ++ [newline]) }
  | crash {job : JobId} (hrunning : w.running = some job) (htext : newline ∉ w.text) :
      Kept codec w none (w.exit (w.buffer ++ w.text))
  | killed : Kept codec w none (w.exit [])

theorem kept_of_step (hkeeps : w.KeepsText event) (hstep : w.step codec event = some w') :
    w.Kept codec (w.reported event) w' := by
  obtain ⟨halive, hact⟩ := alive_of_step hstep
  cases event with
  | take =>
    simp only [act] at hact
    split at hact
    · next hrunning hinbox =>
      obtain rfl := Option.some.inj hact
      exact .take hrunning hinbox
    · cases hact
  | print bytes =>
    obtain rfl := Option.some.inj hact
    exact .output halive rfl rfl rfl
  | drain =>
    obtain rfl := Option.some.inj hact
    have htext : w.text = [] := hkeeps
    exact .output halive rfl rfl (by simp [htext])
  | writeBuffer bytes =>
    obtain rfl := Option.some.inj hact
    have hbytes : bytes = [] := hkeeps
    exact .output halive rfl rfl (by simp [hbytes])
  | flushBuffer count =>
    obtain rfl := Option.some.inj hact
    exact .output halive rfl rfl (by simp [List.append_assoc])
  | writePipe bytes =>
    obtain rfl := Option.some.inj hact
    have hbytes : bytes = [] := hkeeps
    exact .output halive rfl rfl (by simp [hbytes])
  | report r =>
    obtain ⟨job, hrunning, rfl⟩ := Option.map_eq_some_iff.mp hact
    rw [reported, hrunning, Option.map_some]
    exact .report hrunning r
  | crash =>
    obtain ⟨job, hrunning, rfl⟩ := Option.map_eq_some_iff.mp hact
    exact .crash hrunning hkeeps
  | killed =>
    obtain rfl := Option.some.inj hact
    exact .killed

variable {report : Option (JobId × RunnerResult ρ)}

theorem Idle.kept (h : w.Idle) (hkept : w.Kept codec report w') : w'.Idle ∧ report = none := by
  obtain ⟨hinbox, hrunning, hbuffer, hpipe⟩ := h
  cases hkept with
  | output halive hinbox' hrunning' hbytes =>
    rw [hpipe, hbuffer, List.append_nil, List.append_eq_nil_iff] at hbytes
    exact ⟨⟨hinbox'.trans hinbox, hrunning'.trans hrunning, hbytes.2, hbytes.1⟩, rfl⟩
  | take _ hinbox' => cases hinbox.symm.trans hinbox'
  | report hrunning' => cases hrunning.symm.trans hrunning'
  | crash hrunning' => cases hrunning.symm.trans hrunning'
  | killed => exact ⟨⟨rfl, rfl, rfl, by rw [exit, hpipe, List.append_nil]⟩, rfl⟩

theorem Working.kept {job : JobId} (h : w.Working job) (hkept : w.Kept codec report w') :
    report = none ∧ (w'.Working job ∨ w'.Gone []) ∨
      ∃ r, report = some (job, r) ∧ w'.Answering codec r [] := by
  obtain ⟨halive, hbuffer, hpipe, hat⟩ := h
  cases hkept with
  | output halive' hinbox' hrunning' hbytes =>
    rw [hpipe, hbuffer, List.append_nil, List.append_eq_nil_iff] at hbytes
    rw [← hinbox', ← hrunning'] at hat
    exact .inl ⟨rfl, .inl ⟨halive', hbytes.2, hbytes.1, hat⟩⟩
  | take hrunning' hinbox' =>
    rcases hat with ⟨hinbox, -⟩ | ⟨-, hrunning⟩
    · obtain ⟨rfl, rfl⟩ := List.cons.inj (hinbox'.symm.trans hinbox)
      exact .inl ⟨rfl, .inl ⟨halive, hbuffer, hpipe, .inr ⟨rfl, rfl⟩⟩⟩
    · cases hrunning.symm.trans hrunning'
  | report hrunning' r =>
    rcases hat with ⟨-, hrunning⟩ | ⟨hinbox, hrunning⟩
    · cases hrunning.symm.trans hrunning'
    · obtain rfl := Option.some.inj (hrunning.symm.trans hrunning')
      refine .inr ⟨r, rfl, hinbox, rfl, ?_, codec.dumps r ++ [newline], ?_, fun _ ↦ ?_⟩
      · exact fun hdead ↦ absurd (halive.symm.trans hdead) nofun
      · rw [hpipe, List.append_nil, List.nil_append]
      · rw [hbuffer, List.nil_append]
  | crash hrunning' htext =>
    exact .inl ⟨rfl, .inr ⟨rfl, by simpa [exit, hpipe, hbuffer] using htext⟩⟩
  | killed => exact .inl ⟨rfl, .inr ⟨rfl, by simp [exit, hpipe]⟩⟩

theorem Answering.kept {r : RunnerResult ρ} {received : List Byte}
    (h : w.Answering codec r received) (halive : w.alive) (hkept : w.Kept codec report w') :
    report = none ∧ w'.Answering codec r received := by
  obtain ⟨hinbox, hrunning, -, rest, hline, hrest⟩ := h
  obtain rfl := hrest halive
  cases hkept with
  | output halive' hinbox' hrunning' hbytes =>
    refine ⟨rfl, hinbox'.trans hinbox, hrunning'.trans hrunning, ?_, w'.buffer, ?_, fun _ ↦ rfl⟩
    · exact fun hdead ↦ absurd (halive'.symm.trans hdead) nofun
    · rwa [List.append_assoc, hbytes, ← List.append_assoc]
  | take _ hinbox' => cases hinbox.symm.trans hinbox'
  | report hrunning' => cases hrunning.symm.trans hrunning'
  | crash hrunning' => cases hrunning.symm.trans hrunning'
  | killed =>
    refine ⟨rfl, rfl, rfl, fun _ ↦ rfl, w.buffer, ?_, nofun⟩
    rwa [exit, List.append_nil]

theorem Gone.not_step {received : List Byte} (h : w.Gone received) :
    w.step codec event ≠ some w' := by
  intro hstep
  have halive := (alive_of_step hstep).1
  rw [h.dead] at halive
  cases halive

end Worker

end TradingOS.Sandbox
