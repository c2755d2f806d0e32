import TradingOS.Core.ApiRateLimit
import TradingOS.Lib.Calls
import TradingOS.Lib.Runs

namespace TradingOS.Api.Webhooks

open Lib Lib.Runs
open Governance (HttpError)

inductive Channel
  | telegram | discord | slack
  deriving DecidableEq

namespace Channel

def name : Channel → String
  | telegram => "Telegram"
  | discord => "Discord"
  | slack => "Slack"

/-- The name in the keys of Redis. -/
def key : Channel → String
  | telegram => "telegram"
  | discord => "discord"
  | slack => "slack"

end Channel

/-- An identifier of a platform, a number or a string in its JSON. -/
inductive Id
  | int (n : ℤ)
  | str (s : String)
  deriving DecidableEq

def Id.text : Id → String
  | int n => .ofList (intText n)
  | str s => s

/-- What a handler takes from the body of an update: no text when there is nothing to route. -/
structure Update where
  channel : Channel
  messageId : String
  chatKey : String
  text : Option String
  handle : String
  metadata : List (String × String)
  notifyKwargs : List (String × String)
  deriving DecidableEq

/-- What a handler answers before it looks for a replay. -/
inductive Early
  | refused (error : HttpError)
  | handshake
  deriving DecidableEq

/-- Python's `not text`. -/
def nonempty (text : Option String) : Option String := text.filter (· ≠ "")

def unknown (id : Option Id) : String := id.elim "unknown" Id.text

def replayTimestampSkewSeconds : ℚ := 5 * 60

structure TelegramMessage where
  chatId : Option Id
  text : Option String

structure TelegramBody where
  updateId : Option Id
  message : Option TelegramMessage

def TelegramBody.update (body : TelegramBody) : Except Early Update :=
  match body.updateId with
  | none => .error (.refused ⟨400, "Missing update_id"⟩)
  | some updateId =>
    let chatId := unknown (body.message.bind TelegramMessage.chatId)
    .ok
      { channel := .telegram
        messageId := updateId.text
        chatKey := chatId
        text := nonempty (body.message.bind TelegramMessage.text)
        handle := chatId
        metadata := [("chat_id", chatId)]
        notifyKwargs := [("channel", "telegram"), ("chat_id", chatId)] }

structure DiscordOption where
  name : Option String
  value : String

structure DiscordBody where
  type : Option ℤ
  id : Option Id
  channelId : Option Id
  options : List DiscordOption
  memberUserId : Option Id
  userId : Option Id
  applicationId : String := ""
  token : String := ""

/-- The handshake comes before the check of the timestamp. -/
def DiscordBody.update (body : DiscordBody) (timestamp now : ℚ) : Except Early Update :=
  if body.type = some 1 then .error .handshake
  else if |now - timestamp| > replayTimestampSkewSeconds then
    .error (.refused ⟨401, "Timestamp outside allowed skew"⟩)
  else
    let text :=
      if body.type = some 2 then
        (body.options.find? (·.name = some "message")).map DiscordOption.value
      else none
    let member := body.memberUserId.filter fun id ↦ id ≠ .str "" ∧ id ≠ .int 0
    .ok
      { channel := .discord
        messageId := unknown body.id
        chatKey := unknown body.channelId
        text := nonempty text
        handle := unknown (member.or body.userId)
        metadata := [("channel_id", unknown body.channelId),
          ("application_id", body.applicationId), ("interaction_token", body.token)]
        notifyKwargs := [("channel", "discord"), ("application_id", body.applicationId),
          ("interaction_token", body.token)] }

structure SlackEvent where
  type : Option String
  botId : Option String
  channel : Option Id
  text : Option String
  user : Option Id

structure SlackBody where
  type : Option String
  eventId : Option Id
  event : SlackEvent

/-- The handshake comes after the check of the timestamp. Messages of bots are not routed. -/
def SlackBody.update (body : SlackBody) (timestamp now : ℚ) : Except Early Update :=
  if |now - timestamp| > replayTimestampSkewSeconds then
    .error (.refused ⟨401, "Timestamp outside allowed skew"⟩)
  else if body.type = some "url_verification" then .error .handshake
  else
    let event := body.event
    let isMessage : Bool := event.type = some "message" ∧ nonempty event.botId = none
    .ok
      { channel := .slack
        messageId := unknown body.eventId
        chatKey := unknown event.channel
        text := if isMessage then nonempty event.text else none
        handle := unknown event.user
        metadata := [("channel_id", unknown event.channel), ("slack_user_id", unknown event.user)]
        notifyKwargs := [("channel", "slack"), ("channel_id", unknown event.channel)] }

section Bodies

variable {u : Update} {timestamp now : ℚ}

theorem ne_of_nonempty {text : Option String} : nonempty text ≠ some "" := by
  intro h
  simpa using (Option.filter_eq_some_iff.mp h).2

theorem TelegramBody.update_ok {body : TelegramBody} (h : body.update = .ok u) :
    u.channel = .telegram ∧ u.text ≠ some "" := by
  unfold update at h
  split at h
  · cases h
  · cases h
    exact ⟨rfl, ne_of_nonempty⟩

/-- A handshake of Discord is answered however old it is. -/
theorem DiscordBody.update_ping {body : DiscordBody} (h : body.type = some 1) :
    body.update timestamp now = .error .handshake := if_pos h

theorem DiscordBody.update_ok {body : DiscordBody} (h : body.update timestamp now = .ok u) :
    u.channel = .discord ∧ u.text ≠ some "" ∧ |now - timestamp| ≤ replayTimestampSkewSeconds := by
  unfold update at h
  split at h
  · cases h
  · split at h
    · cases h
    · next hskew =>
      cases h
      exact ⟨rfl, ne_of_nonempty, not_lt.mp hskew⟩

/-- One of Slack is not. -/
theorem SlackBody.update_stale {body : SlackBody}
    (h : |now - timestamp| > replayTimestampSkewSeconds) :
    body.update timestamp now = .error (.refused ⟨401, "Timestamp outside allowed skew"⟩) :=
  if_pos h

theorem SlackBody.update_ok {body : SlackBody} (h : body.update timestamp now = .ok u) :
    u.channel = .slack ∧ u.text ≠ some "" ∧ |now - timestamp| ≤ replayTimestampSkewSeconds := by
  unfold update at h
  split_ifs at h with hskew htype
  cases h
  refine ⟨rfl, ?_, not_lt.mp hskew⟩
  dsimp only
  split
  · exact ne_of_nonempty
  · simp

end Bodies

structure NotificationChannel where
  userId : ℕ
  channelType : String
  externalHandle : String
  isVerified : Bool

structure User where
  email : String
  isActive : Bool

structure Directory where
  channels : List NotificationChannel
  users : Table ℕ User

def Directory.resolveSender (d : Directory) (channel : Channel) (handle : String) : Option User :=
  let binding := d.channels.find? fun c ↦
    c.channelType = channel.name ∧ c.externalHandle = handle ∧ c.isVerified
  binding.bind fun c ↦ (d.users.get? c.userId).filter User.isActive

structure WebhookEvent where
  update : Update
  routedToAgent : Option String
  receivedAt : ℚ
  deriving DecidableEq

structure ChatMessage where
  id : ℕ
  role : String
  content : String
  status : String
  channel : Channel
  chatKey : String
  metadata : List (String × String)
  webhookEventId : ℕ
  deriving DecidableEq

/-- What the background thread is started with. Its `on_complete` knows the event. -/
structure Dispatch where
  assistantMessageId : ℕ
  text : String
  channel : Channel
  requestedBy : String
  history : List (String × String × String)
  eventId : ℕ
  notifyKwargs : List (String × String)
  deriving DecidableEq

/-- What is to be routed, and for whom. -/
structure Job where
  text : String
  requestedBy : String
  deriving DecidableEq

/-- Where a delivery stands. `accepted`, `ignored` and `replayed` are answered with a 2xx status. -/
inductive Phase
  | waiting
  | called
  | fresh
  | admitted
  | unrouted
  | resolved (job : Job)
  | recorded (job : Job) (eventId : ℕ)
  | routed (job : Job) (eventId : ℕ)
  | stored (job : Job) (eventId assistantId : ℕ) (history : List (String × String × String))
  | accepted
  | ignored
  | replayed
  | refused (error : HttpError)
  | failed
  deriving DecidableEq

namespace Phase

def isOk : Phase → Bool
  | accepted | ignored | replayed => true
  | _ => false

/-- The delivery has set the replay mark and is not over. -/
def isWorking : Phase → Bool
  | fresh | admitted | unrouted | resolved _ | recorded .. | routed .. | stored .. => true
  | _ => false

/-- An update without a text to route, or without a sender, is recorded and that is all. -/
def afterRecord (u : Update) (eventId : ℕ) : Phase → Option Phase
  | admitted => if u.text = none then some .ignored else none
  | unrouted => some .ignored
  | resolved job => some (.recorded job eventId)
  | _ => none

def job : Phase → Option Job
  | resolved job | recorded job _ | routed job _ | stored job .. => some job
  | _ => none

end Phase

inductive Action
  | deliver
  | check (now : ℚ)
  | limit (now : ℚ)
  | resolve
  | record (eventId : ℕ) (now : ℚ)
  | route
  | store (userMessageId assistantId : ℕ)
  | dispatch
  | fail
  deriving DecidableEq

def replayTtlSeconds : ℚ := 24 * 60 * 60

def routedToAgent : String := "ceo_agent_chat"

def checkRateLimit (counters : Core.ApiRateLimit.Redis) (channel : Channel) (chatId : String)
    (now : ℚ) (limit : ℕ := 10) (windowSeconds : ℕ := 60) : Core.ApiRateLimit.Redis × Bool :=
  let bucket := Core.ApiRateLimit.windowBucket windowSeconds now
  let key := s!"webhook:ratelimit:{channel.key}:{chatId}:" ++ .ofList (intText bucket)
  let counter := Core.ApiRateLimit.current counters key now
  let count := counter.count + 1
  let expiresAt :=
    if count = 1 then counter.expiresAt.or (some (now + windowSeconds)) else counter.expiresAt
  (counters.put key ⟨count, expiresAt⟩, count ≤ limit)

/-- Redis, the committed rows, the threads started, and the deliveries of the platform. -/
structure Gateway where
  seen : Table String ℚ
  counters : Core.ApiRateLimit.Redis
  events : Table ℕ WebhookEvent
  messages : List ChatMessage
  dispatches : List Dispatch
  deliveries : List (Served Update Phase)
  deriving DecidableEq

def Update.seenKey (u : Update) : String := s!"webhook:seen:{u.channel.key}:{u.messageId}"

/-- The two messages of `_record_event_and_route`. -/
def Update.message (u : Update) (id : ℕ) (role content status : String) (eventId : ℕ) :
    ChatMessage :=
  { id := id
    role := role
    content := content
    status := status
    channel := u.channel
    chatKey := u.chatKey
    metadata := u.metadata
    webhookEventId := eventId }

def Update.started (u : Update) (job : Job) (eventId assistantId : ℕ)
    (history : List (String × String × String)) : Dispatch :=
  { assistantMessageId := assistantId
    text := job.text
    channel := u.channel
    requestedBy := job.requestedBy
    history := history
    eventId := eventId
    notifyKwargs := u.notifyKwargs }

namespace Gateway

variable (g : Gateway)

def move (i : ℕ) (phase : Phase) : Gateway :=
  { g with deliveries := Served.move g.deliveries i phase }

def isSeen (u : Update) (now : ℚ) : Bool := (g.seen.get? u.seenKey).any (now < ·)

def answeredOk (u : Update) : Bool := g.deliveries.any fun call ↦ call.input = u ∧ call.phase.isOk

def history (u : Update) : List (String × String × String) :=
  (g.messages.filter fun m ↦ m.channel = u.channel ∧ m.chatKey = u.chatKey).map fun m ↦
    (m.role, m.content, m.status)

/-- One statement of one delivery. The platform delivers an update again until one delivery is answered
with a 2xx status, and anything may fail on the way. -/
def step (d : Directory) (g : Gateway) : ℕ × Action → Option Gateway
  | (i, action) =>
    match g.deliveries[i]? with
    | none => none
    | some ⟨u, phase⟩ =>
      match action, phase with
      | .deliver, .waiting => if g.answeredOk u then none else some (g.move i .called)
      | .check now, .called =>
        if g.isSeen u now then some (g.move i .replayed)
        else some { g.move i .fresh with seen := g.seen.assign u.seenKey (now + replayTtlSeconds) }
      | .limit now, .fresh =>
        let (counters, allowed) := checkRateLimit g.counters u.channel u.chatKey now
        let phase' := if allowed then .admitted else .refused ⟨429, "Rate limit exceeded"⟩
        some { g.move i phase' with counters := counters }
      | .resolve, .admitted =>
        match u.text with
        | none => none
        | some text =>
          match d.resolveSender u.channel u.handle with
          | none => some (g.move i .unrouted)
          | some sender => some (g.move i (.resolved ⟨text, sender.email⟩))
      | .record eventId now, phase =>
        if eventId ∈ g.events.keys then none
        else
          (phase.afterRecord u eventId).map fun phase' ↦
            { g.move i phase' with events := g.events.setdefault eventId ⟨u, none, now⟩ }
      | .route, .recorded job eventId =>
        some
          { g.move i (.routed job eventId) with
            events := g.events.modify eventId fun event ↦
              { event with routedToAgent := some routedToAgent } }
      | .store userMessageId assistantId, .routed job eventId =>
        some
          { g.move i (.stored job eventId assistantId (g.history u)) with
            messages := g.messages ++
              [u.message userMessageId "user" job.text "Completed" eventId,
                u.message assistantId "assistant" "" "Pending" eventId] }
      | .dispatch, .stored job eventId assistantId history =>
        some
          { g.move i .accepted with
            dispatches := g.dispatches ++ [u.started job eventId assistantId history] }
      | .fail, phase => if phase = .called ∨ phase.isWorking then some (g.move i .failed) else none
      | _, _ => none

def eventsOf (u : Update) : List (ℕ × WebhookEvent) :=
  g.events.rows.filter (·.2.update = u)

/-- An empty gateway, and the deliveries that the platform may make. -/
def begin (deliveries : List Update) : Gateway where
  seen := .empty
  counters := .empty
  events := .empty
  messages := []
  dispatches := []
  deliveries := Served.start deliveries .waiting

end Gateway

/-- A text from a sender with a verified binding. -/
def Update.isRoutable (d : Directory) (u : Update) : Bool :=
  u.text.isSome ∧ (d.resolveSender u.channel u.handle).isSome

def Job.IsFor (d : Directory) (u : Update) (job : Job) : Prop :=
  u.text = some job.text ∧
    ∃ sender, d.resolveSender u.channel u.handle = some sender ∧ sender.email = job.requestedBy

theorem Job.IsFor.isRoutable {d : Directory} {u : Update} {job : Job} (h : job.IsFor d u) :
    u.isRoutable d := by
  obtain ⟨htext, sender, hsender, -⟩ := h
  simp [Update.isRoutable, htext, hsender]

/-- All there is of an update: its one event, and what refers to it. -/
structure Holds (g : Gateway) (u : Update) (eventId : ℕ) (agent : Option String)
    (messages : List ChatMessage) (dispatches : List Dispatch) : Prop where
  event : ∃ receivedAt, g.eventsOf u = [(eventId, ⟨u, agent, receivedAt⟩)]
  messages : g.messages.filter (·.webhookEventId = eventId) = messages
  dispatches : g.dispatches.filter (·.eventId = eventId) = dispatches

/-- One event, one user message, one pending reply, one dispatch. -/
def RoutedOnce (d : Directory) (g : Gateway) (u : Update) : Prop :=
  ∃ (job : Job) (eventId userMessageId assistantId : ℕ)
    (history : List (String × String × String)),
    job.IsFor d u ∧ Holds g u eventId (some routedToAgent)
      [u.message userMessageId "user" job.text "Completed" eventId,
        u.message assistantId "assistant" "" "Pending" eventId]
      [u.started job eventId assistantId history]

def ExactlyOnce (d : Directory) (g : Gateway) : Prop :=
  ∀ call ∈ g.deliveries, call.input.isRoutable d → call.phase.isOk → RoutedOnce d g call.input

/-- The condition: a delivery that is told it is a replay comes after one that went through, and one
that is not comes before any has recorded the update or is still at it. -/
def Gateway.isOrderly (d : Directory) (g : Gateway) : ℕ × Action → Bool
  | (i, .check now) =>
    g.deliveries[i]?.all fun call ↦ call.input.isRoutable d →
      if g.isSeen call.input now then
        g.deliveries.any fun call' ↦ call'.input = call.input ∧ call'.phase = .accepted
      else
        g.eventsOf call.input = [] ∧
          g.deliveries.all fun call' ↦ call'.input = call.input → call'.phase.isWorking = false
  | _ => true

/-- The statements of a delivery, by the phase it comes to and the rows it leaves. -/
inductive Advance (d : Directory) (g : Gateway) (u : Update) : Action → Phase → Phase →
    Table ℕ WebhookEvent → List ChatMessage → List Dispatch → Prop
  | deliver : Advance d g u .deliver .waiting .called g.events g.messages g.dispatches
  | replay {now : ℚ} :
      g.isSeen u now → Advance d g u (.check now) .called .replayed g.events g.messages g.dispatches
  | mark {now : ℚ} :
      g.isSeen u now = false →
      Advance d g u (.check now) .called .fresh g.events g.messages g.dispatches
  | admitted {now : ℚ} : Advance d g u (.limit now) .fresh .admitted g.events g.messages g.dispatches
  | refuse {now : ℚ} {error : HttpError} :
      Advance d g u (.limit now) .fresh (.refused error) g.events g.messages g.dispatches
  | ignoreSender :
      u.isRoutable d = false →
      Advance d g u .resolve .admitted .unrouted g.events g.messages g.dispatches
  | resolve {job : Job} :
      job.IsFor d u →
      Advance d g u .resolve .admitted (.resolved job) g.events g.messages g.dispatches
  | ignore {phase : Phase} {eventId : ℕ} {now : ℚ} :
      phase = .unrouted ∨ phase = .admitted ∧ u.isRoutable d = false → eventId ∉ g.events.keys →
      Advance d g u (.record eventId now) phase .ignored
        (g.events.setdefault eventId ⟨u, none, now⟩) g.messages g.dispatches
  | record {job : Job} {eventId : ℕ} {now : ℚ} :
      eventId ∉ g.events.keys →
      Advance d g u (.record eventId now) (.resolved job) (.recorded job eventId)
        (g.events.setdefault eventId ⟨u, none, now⟩) g.messages g.dispatches
  | route {job : Job} {eventId : ℕ} :
      Advance d g u .route (.recorded job eventId) (.routed job eventId)
        (g.events.modify eventId fun event ↦ { event with routedToAgent := some routedToAgent })
        g.messages g.dispatches
  | store {job : Job} {eventId userMessageId assistantId : ℕ} :
      Advance d g u (.store userMessageId assistantId) (.routed job eventId)
        (.stored job eventId assistantId (g.history u)) g.events
        (g.messages ++ [u.message userMessageId "user" job.text "Completed" eventId,
          u.message assistantId "assistant" "" "Pending" eventId]) g.dispatches
  | dispatch {job : Job} {eventId assistantId : ℕ} {history : List (String × String × String)} :
      Advance d g u .dispatch (.stored job eventId assistantId history) .accepted g.events
        g.messages (g.dispatches ++ [u.started job eventId assistantId history])
  | fail {phase : Phase} :
      phase = .called ∨ phase.isWorking →
      Advance d g u .fail phase .failed g.events g.messages g.dispatches

theorem Gateway.step_advance {d : Directory} {g g' : Gateway} {i : ℕ} {action : Action}
    (h : g.step d (i, action) = some g') :
    ∃ u phase phase', g.deliveries[i]? = some ⟨u, phase⟩ ∧
      g'.deliveries = Served.move g.deliveries i phase' ∧
      Advance d g u action phase phase' g'.events g'.messages g'.dispatches := by
  simp only [step] at h
  split at h
  · cases h
  · next u phase hcall =>
    refine ⟨u, phase, ?_⟩
    split at h
    · split_ifs at h
      cases h
      exact ⟨_, hcall, rfl, .deliver⟩
    · split_ifs at h with hseen
      · cases h
        exact ⟨_, hcall, rfl, .replay hseen⟩
      · cases h
        exact ⟨_, hcall, rfl, .mark (Bool.eq_false_iff.mpr hseen)⟩
    · cases h
      refine ⟨_, hcall, rfl, ?_⟩
      dsimp only [move]
      split
      · exact .admitted
      · exact .refuse
    · split at h
      · cases h
      · next text htext =>
        split at h
        · next hsender =>
          cases h
          exact ⟨_, hcall, rfl, .ignoreSender (by simp [Update.isRoutable, hsender])⟩
        · next sender hsender =>
          cases h
          exact ⟨_, hcall, rfl, .resolve ⟨htext, sender, hsender, rfl⟩⟩
    · split_ifs at h with hkey
      obtain ⟨phase', hphase', rfl⟩ := Option.map_eq_some_iff.mp h
      unfold Phase.afterRecord at hphase'
      split at hphase'
      · split_ifs at hphase' with htext
        cases hphase'
        exact ⟨_, hcall, rfl, .ignore (.inr ⟨rfl, by simp [Update.isRoutable, htext]⟩) hkey⟩
      · cases hphase'
        exact ⟨_, hcall, rfl, .ignore (.inl rfl) hkey⟩
      · cases hphase'
        exact ⟨_, hcall, rfl, .record hkey⟩
      · cases hphase'
    · cases h
      exact ⟨_, hcall, rfl, .route⟩
    · cases h
      exact ⟨_, hcall, rfl, .store⟩
    · cases h
      exact ⟨_, hcall, rfl, .dispatch⟩
    · split_ifs at h with hphase
      cases h
      exact ⟨_, hcall, rfl, .fail hphase⟩
    · cases h

/-- What a delivery at work has left of its update so far. -/
def Phase.Stage (g : Gateway) (u : Update) : Phase → Prop
  | fresh | admitted | resolved _ => g.eventsOf u = []
  | unrouted => False
  | recorded _ eventId => Holds g u eventId none [] []
  | routed _ eventId => Holds g u eventId (some routedToAgent) [] []
  | stored job eventId assistantId _ => ∃ userMessageId, Holds g u eventId (some routedToAgent)
      [u.message userMessageId "user" job.text "Completed" eventId,
        u.message assistantId "assistant" "" "Pending" eventId] []
  | _ => True

/-- No other delivery of the update is at work or answered. -/
def Gateway.Alone (g : Gateway) (i : ℕ) (u : Update) : Prop :=
  ∀ (j : ℕ) (call : Served Update Phase), g.deliveries[j]? = some call → call.input = u → j ≠ i →
    call.phase.isWorking = false ∧ call.phase.isOk = false

structure Kept (d : Directory) (g : Gateway) : Prop where
  messages : ∀ m ∈ g.messages, m.webhookEventId ∈ g.events.keys
  dispatches : ∀ x ∈ g.dispatches, x.eventId ∈ g.events.keys
  jobs : ∀ call ∈ g.deliveries, ∀ job, call.phase.job = some job → job.IsFor d call.input
  working : ∀ (i : ℕ) (call : Served Update Phase), g.deliveries[i]? = some call →
    call.input.isRoutable d → call.phase.isWorking →
      call.phase.Stage g call.input ∧ g.Alone i call.input
  routed : ExactlyOnce d g

/-- Nothing there is of the update changes. -/
structure Frame (g g' : Gateway) (u : Update) : Prop where
  events : g'.eventsOf u = g.eventsOf u
  messages : ∀ row ∈ g.eventsOf u, g'.messages.filter (·.webhookEventId = row.1) =
    g.messages.filter (·.webhookEventId = row.1)
  dispatches : ∀ row ∈ g.eventsOf u, g'.dispatches.filter (·.eventId = row.1) =
    g.dispatches.filter (·.eventId = row.1)

section Frame

variable {d : Directory} {g g' : Gateway} {u u' : Update} {eventId eventId' : ℕ}
  {agent agent' : Option String} {messages messages' : List ChatMessage}
  {dispatches dispatches' : List Dispatch}

theorem Holds.mem (h : Holds g u eventId agent messages dispatches) :
    ∃ event, (eventId, event) ∈ g.events.rows ∧ event.update = u := by
  obtain ⟨receivedAt, hevents⟩ := h.event
  have hmem : (eventId, ⟨u, agent, receivedAt⟩) ∈ g.eventsOf u := hevents ▸ List.mem_singleton_self _
  exact ⟨_, (List.mem_filter.mp hmem).1, rfl⟩

theorem Holds.mem_keys (h : Holds g u eventId agent messages dispatches) :
    eventId ∈ g.events.keys := by
  obtain ⟨event, hmem, -⟩ := h.mem
  exact List.mem_map_of_mem hmem

theorem Holds.ne_of_mem_eventsOf (h : Holds g u eventId agent messages dispatches) (hne : u' ≠ u)
    {row : ℕ × WebhookEvent} (hrow : row ∈ g.eventsOf u') : row.1 ≠ eventId := by
  rintro rfl
  obtain ⟨event, hmem, rfl⟩ := h.mem
  obtain ⟨hrow, hupdate⟩ := List.mem_filter.mp hrow
  have hsame : row.2 = event :=
    Option.some.inj ((g.events.get?_eq_some.mpr hrow).symm.trans (g.events.get?_eq_some.mpr hmem))
  exact hne (hsame ▸ (of_decide_eq_true hupdate).symm)

theorem Frame.holds (hframe : Frame g g' u) (h : Holds g u eventId agent messages dispatches) :
    Holds g' u eventId agent messages dispatches := by
  obtain ⟨receivedAt, hevents⟩ := h.event
  have hmem : (eventId, ⟨u, agent, receivedAt⟩) ∈ g.eventsOf u := hevents ▸ List.mem_singleton_self _
  exact
    { event := ⟨receivedAt, hframe.events.trans hevents⟩
      messages := (hframe.messages _ hmem).trans h.messages
      dispatches := (hframe.dispatches _ hmem).trans h.dispatches }

theorem Frame.routedOnce (hframe : Frame g g' u) (h : RoutedOnce d g u) : RoutedOnce d g' u := by
  obtain ⟨job, eventId, userMessageId, assistantId, history, hjob, hholds⟩ := h
  exact ⟨job, eventId, userMessageId, assistantId, history, hjob, hframe.holds hholds⟩

theorem Frame.stage (hframe : Frame g g' u) {phase : Phase} (h : phase.Stage g u) :
    phase.Stage g' u := by
  cases phase with
  | fresh | admitted | resolved => exact hframe.events.trans h
  | recorded | routed => exact hframe.holds h
  | stored =>
    obtain ⟨userMessageId, hholds⟩ := h
    exact ⟨userMessageId, hframe.holds hholds⟩
  | unrouted => exact h
  | _ => trivial

theorem frame_of_eq (hevents : g'.events = g.events) (hmessages : g'.messages = g.messages)
    (hdispatches : g'.dispatches = g.dispatches) (u : Update) : Frame g g' u where
  events := by rw [Gateway.eventsOf, hevents, Gateway.eventsOf]
  messages _ _ := by rw [hmessages]
  dispatches _ _ := by rw [hdispatches]

theorem eventsOf_of_record {event : WebhookEvent} (hkey : eventId ∉ g.events.keys)
    (hevents : g'.events = g.events.setdefault eventId event) (u : Update) :
    g'.eventsOf u = g.eventsOf u ++ if event.update = u then [(eventId, event)] else [] := by
  rw [Gateway.eventsOf, hevents, Table.rows_setdefault _ hkey, List.filter_append]
  by_cases h : event.update = u <;> simp [h, Gateway.eventsOf]

theorem eventsOf_of_route
    (hevents : g'.events = g.events.modify eventId fun event ↦
      { event with routedToAgent := some routedToAgent }) (u : Update) :
    g'.eventsOf u = (g.eventsOf u).map fun row ↦
      (row.1, if row.1 = eventId then { row.2 with routedToAgent := some routedToAgent }
        else row.2) := by
  rw [Gateway.eventsOf, hevents, Table.modify, Table.mapVals, List.filter_map, Gateway.eventsOf]
  congr 1
  refine List.filter_congr fun row _ ↦ ?_
  by_cases h : row.1 = eventId <;> simp [h]

theorem frame_of_record {event : WebhookEvent} (hkey : eventId ∉ g.events.keys)
    (hevents : g'.events = g.events.setdefault eventId event) (hmessages : g'.messages = g.messages)
    (hdispatches : g'.dispatches = g.dispatches) (hne : u ≠ event.update) : Frame g g' u where
  events := by rw [eventsOf_of_record hkey hevents, if_neg hne.symm, List.append_nil]
  messages _ _ := by rw [hmessages]
  dispatches _ _ := by rw [hdispatches]

theorem frame_of_route (hholds : Holds g u eventId agent messages dispatches)
    (hevents : g'.events = g.events.modify eventId fun event ↦
      { event with routedToAgent := some routedToAgent })
    (hmessages : g'.messages = g.messages) (hdispatches : g'.dispatches = g.dispatches)
    (hne : u' ≠ u) : Frame g g' u' where
  events := by
    rw [eventsOf_of_route hevents]
    refine (List.map_congr_left fun row hrow ↦ ?_).trans (List.map_id _)
    rw [if_neg (hholds.ne_of_mem_eventsOf hne hrow), id]
  messages _ _ := by rw [hmessages]
  dispatches _ _ := by rw [hdispatches]

/-- What is written beside an event is no other update's. -/
theorem frame_of_append (hholds : Holds g u eventId agent messages dispatches)
    (hevents : g'.events = g.events) (hmessages : g'.messages = g.messages ++ messages')
    (hdispatches : g'.dispatches = g.dispatches ++ dispatches')
    (hm : ∀ m ∈ messages', m.webhookEventId = eventId) (hd : ∀ x ∈ dispatches', x.eventId = eventId)
    (hne : u' ≠ u) : Frame g g' u' where
  events := by rw [Gateway.eventsOf, hevents, Gateway.eventsOf]
  messages row hrow := by
    rw [hmessages]
    exact filter_append_of_forall_ne fun m hmem he ↦
      hholds.ne_of_mem_eventsOf hne hrow (he.symm.trans (hm m hmem))
  dispatches row hrow := by
    rw [hdispatches]
    exact filter_append_of_forall_ne fun x hmem he ↦
      hholds.ne_of_mem_eventsOf hne hrow (he.symm.trans (hd x hmem))

theorem Holds.record (h : Kept d g) (hnone : g.eventsOf u = []) (hkey : eventId ∉ g.events.keys)
    {receivedAt : ℚ} (hevents : g'.events = g.events.setdefault eventId ⟨u, none, receivedAt⟩)
    (hmessages : g'.messages = g.messages) (hdispatches : g'.dispatches = g.dispatches) :
    Holds g' u eventId none [] [] where
  event := ⟨receivedAt, by rw [eventsOf_of_record hkey hevents, hnone, if_pos rfl, List.nil_append]⟩
  messages := by
    rw [hmessages]
    refine List.filter_eq_nil_iff.mpr fun m hm ↦ ?_
    have hne : m.webhookEventId ≠ eventId := fun he ↦ hkey (he ▸ h.messages m hm)
    simpa using hne
  dispatches := by
    rw [hdispatches]
    refine List.filter_eq_nil_iff.mpr fun x hx ↦ ?_
    have hne : x.eventId ≠ eventId := fun he ↦ hkey (he ▸ h.dispatches x hx)
    simpa using hne

theorem Holds.route (h : Holds g u eventId agent messages dispatches)
    (hevents : g'.events = g.events.modify eventId fun event ↦
      { event with routedToAgent := some routedToAgent })
    (hmessages : g'.messages = g.messages) (hdispatches : g'.dispatches = g.dispatches) :
    Holds g' u eventId (some routedToAgent) messages dispatches := by
  obtain ⟨receivedAt, hrow⟩ := h.event
  exact
    { event := ⟨receivedAt, by rw [eventsOf_of_route hevents, hrow]; simp⟩
      messages := by rw [hmessages, h.messages]
      dispatches := by rw [hdispatches, h.dispatches] }

theorem Holds.append (h : Holds g u eventId agent messages dispatches)
    (hevents : g'.events = g.events) (hmessages : g'.messages = g.messages ++ messages')
    (hdispatches : g'.dispatches = g.dispatches ++ dispatches')
    (hm : ∀ m ∈ messages', m.webhookEventId = eventId)
    (hd : ∀ x ∈ dispatches', x.eventId = eventId) :
    Holds g' u eventId agent (messages ++ messages') (dispatches ++ dispatches') where
  event := by
    rw [Gateway.eventsOf, hevents]
    exact h.event
  messages := by
    rw [hmessages, List.filter_append, h.messages, List.filter_eq_self.mpr (by simpa using hm)]
  dispatches := by
    rw [hdispatches, List.filter_append, h.dispatches, List.filter_eq_self.mpr (by simpa using hd)]

end Frame

section Step

variable {d : Directory} {g g' : Gateway} {i : ℕ} {u : Update} {phase phase' : Phase}

/-- What a step has to show of the delivery it moves, and of its update. -/
structure Moved (d : Directory) (g g' : Gateway) (i : ℕ) (u : Update) (phase phase' : Phase) :
    Prop where
  jobs : ∀ job, phase'.job = some job → job.IsFor d u
  own : u.isRoutable d → Frame g g' u ∨ phase.isWorking
  working : u.isRoutable d → phase'.isWorking → phase'.Stage g' u ∧ g.Alone i u
  ok : u.isRoutable d → phase'.isOk → RoutedOnce d g' u ∧
    ∀ (j : ℕ) (call : Served Update Phase), g.deliveries[j]? = some call → call.input = u →
      j ≠ i → call.phase.isWorking = false

theorem Kept.of_step (h : Kept d g) (hi : g.deliveries[i]? = some ⟨u, phase⟩)
    (hmove : g'.deliveries = Served.move g.deliveries i phase')
    (hmessages : ∀ m ∈ g'.messages, m.webhookEventId ∈ g'.events.keys)
    (hdispatches : ∀ x ∈ g'.dispatches, x.eventId ∈ g'.events.keys)
    (hothers : ∀ u' ≠ u, Frame g g' u') (hmoved : Moved d g g' i u phase phase') : Kept d g' := by
  have hcases {j : ℕ} {call : Served Update Phase} (hj : g'.deliveries[j]? = some call) :
      j = i ∧ call = ⟨u, phase'⟩ ∨ j ≠ i ∧ g.deliveries[j]? = some call :=
    Served.of_getElem?_move hi (hmove ▸ hj)
  -- A delivery that worked before the step has no other beside it, so the rows of its update stay.
  have hframe {j : ℕ} {call : Served Update Phase} (hj : g.deliveries[j]? = some call)
      (hji : j ≠ i) (hroutable : call.input.isRoutable d)
      (hactive : call.phase.isWorking ∨ call.phase.isOk) : Frame g g' call.input := by
    by_cases hinput : call.input = u
    · rcases hmoved.own (hinput ▸ hroutable) with hframe | hworking
      · exact hinput ▸ hframe
      · obtain ⟨-, halone⟩ := h.working i _ hi (hinput ▸ hroutable) hworking
        obtain ⟨hnot, hnotOk⟩ := halone j call hj hinput hji
        simp [hnot, hnotOk] at hactive
    · exact hothers _ hinput
  refine ⟨hmessages, hdispatches, fun call hcall job hjob ↦ ?_, fun j call hj hroutable hworking ↦ ?_,
    fun call hcall hroutable hok ↦ ?_⟩
  · obtain ⟨j, hj⟩ := List.mem_iff_getElem?.mp hcall
    rcases hcases hj with ⟨-, rfl⟩ | ⟨-, hj⟩
    · exact hmoved.jobs job hjob
    · exact h.jobs call (List.mem_of_getElem? hj) job hjob
  · rcases hcases hj with ⟨rfl, rfl⟩ | ⟨hji, hj⟩
    · obtain ⟨hstage, halone⟩ := hmoved.working hroutable hworking
      refine ⟨hstage, fun k call' hk hinput hkj ↦ ?_⟩
      rcases hcases hk with ⟨hki, -⟩ | ⟨-, hk⟩
      · exact absurd hki hkj
      · exact halone k call' hk hinput hkj
    · obtain ⟨hstage, halone⟩ := h.working j call hj hroutable hworking
      refine ⟨(hframe hj hji hroutable (.inl hworking)).stage hstage, fun k call' hk hinput hkj ↦ ?_⟩
      rcases hcases hk with ⟨rfl, rfl⟩ | ⟨-, hk⟩
      · obtain rfl : u = call.input := hinput
        constructor
        · by_contra hnew
          obtain ⟨-, halone'⟩ := hmoved.working hroutable (Bool.eq_true_of_not_eq_false hnew)
          simp [(halone' j call hj rfl hji).1] at hworking
        · by_contra hnew
          obtain ⟨-, hidle⟩ := hmoved.ok hroutable (Bool.eq_true_of_not_eq_false hnew)
          simp [hidle j call hj rfl hji] at hworking
      · exact halone k call' hk hinput hkj
  · obtain ⟨j, hj⟩ := List.mem_iff_getElem?.mp hcall
    rcases hcases hj with ⟨-, rfl⟩ | ⟨hji, hj⟩
    · exact (hmoved.ok hroutable hok).1
    · exact (hframe hj hji hroutable (.inr hok)).routedOnce
        (h.routed call (List.mem_of_getElem? hj) hroutable hok)

/-- A step that leaves the rows alone and whose delivery comes to no work and no answer. -/
theorem Kept.of_quiet (h : Kept d g) (hi : g.deliveries[i]? = some ⟨u, phase⟩)
    (hmove : g'.deliveries = Served.move g.deliveries i phase') (hevents : g'.events = g.events)
    (hmessages : g'.messages = g.messages) (hdispatches : g'.dispatches = g.dispatches)
    (hjobs : ∀ job, phase'.job = some job → job.IsFor d u)
    (hworking : u.isRoutable d → phase'.isWorking → phase'.Stage g u ∧ g.Alone i u)
    (hok : u.isRoutable d → phase'.isOk → RoutedOnce d g u ∧
      ∀ (j : ℕ) (call : Served Update Phase), g.deliveries[j]? = some call → call.input = u →
        j ≠ i → call.phase.isWorking = false) : Kept d g' := by
  have hframe := frame_of_eq hevents hmessages hdispatches
  refine h.of_step hi hmove ?_ ?_ (fun u' _ ↦ hframe u')
    { jobs := hjobs
      own := fun _ ↦ .inl (hframe u)
      working := fun hroutable hwork ↦ (hworking hroutable hwork).imp_left (hframe u).stage
      ok := fun hroutable hdone ↦ (hok hroutable hdone).imp_left (hframe u).routedOnce }
  · rw [hmessages, hevents]
    exact h.messages
  · rw [hdispatches, hevents]
    exact h.dispatches

theorem Kept.record_keys {eventId : ℕ} {event : WebhookEvent} (h : Kept d g)
    (hevents : g'.events = g.events.setdefault eventId event) (hmessages : g'.messages = g.messages)
    (hdispatches : g'.dispatches = g.dispatches) :
    (∀ m ∈ g'.messages, m.webhookEventId ∈ g'.events.keys) ∧
      ∀ x ∈ g'.dispatches, x.eventId ∈ g'.events.keys := by
  rw [hmessages, hdispatches, hevents]
  exact ⟨fun m hm ↦ (Table.mem_keys_setdefault _).mpr (.inr (h.messages m hm)),
    fun x hx ↦ (Table.mem_keys_setdefault _).mpr (.inr (h.dispatches x hx))⟩

theorem Kept.append_keys {eventId : ℕ} {messages : List ChatMessage} {dispatches : List Dispatch}
    (h : Kept d g) (hkey : eventId ∈ g.events.keys) (hevents : g'.events = g.events)
    (hmessages : g'.messages = g.messages ++ messages)
    (hdispatches : g'.dispatches = g.dispatches ++ dispatches)
    (hm : ∀ m ∈ messages, m.webhookEventId = eventId) (hd : ∀ x ∈ dispatches, x.eventId = eventId) :
    (∀ m ∈ g'.messages, m.webhookEventId ∈ g'.events.keys) ∧
      ∀ x ∈ g'.dispatches, x.eventId ∈ g'.events.keys := by
  rw [hmessages, hdispatches, hevents]
  constructor
  · intro m hmem
    rcases List.mem_append.mp hmem with hmem | hmem
    · exact h.messages m hmem
    · exact hm m hmem ▸ hkey
  · intro x hmem
    rcases List.mem_append.mp hmem with hmem | hmem
    · exact h.dispatches x hmem
    · exact hd x hmem ▸ hkey

theorem RoutedOnce.eventsOf_ne_nil (h : RoutedOnce d g u) : g.eventsOf u ≠ [] := by
  obtain ⟨_, _, _, _, _, -, hholds⟩ := h
  obtain ⟨_, hevents⟩ := hholds.event
  simp [hevents]

/-- Once a delivery of the update has gone through, none is at work on it. -/
theorem Kept.idle_of_accepted (h : Kept d g) {call call' : Served Update Phase} {j : ℕ}
    (hroutable : call.input.isRoutable d) (hmem : call ∈ g.deliveries)
    (haccepted : call.phase = .accepted) (hj : g.deliveries[j]? = some call')
    (hinput : call'.input = call.input) : call'.phase.isWorking = false := by
  by_contra hworking
  rw [Bool.not_eq_false] at hworking
  obtain ⟨-, halone⟩ := h.working j call' hj (hinput ▸ hroutable) hworking
  obtain ⟨k, hk⟩ := List.mem_iff_getElem?.mp hmem
  have hkj : k ≠ j := by
    rintro rfl
    obtain rfl := Option.some.inj (hk.symm.trans hj)
    simp [haccepted, Phase.isWorking] at hworking
  have hnot := (halone k call hk hinput.symm hkj).2
  rw [haccepted] at hnot
  cases hnot

theorem Kept.not_ok_of_unrecorded (h : Kept d g) {u : Update} (hroutable : u.isRoutable d)
    (hnone : g.eventsOf u = []) {call : Served Update Phase} (hmem : call ∈ g.deliveries)
    (hinput : call.input = u) : call.phase.isOk = false := by
  by_contra hok
  rw [Bool.not_eq_false] at hok
  have hrouted := h.routed call hmem (hinput ▸ hroutable) hok
  exact hrouted.eventsOf_ne_nil (hinput ▸ hnone)

theorem kept_step {action : Action} (h : Kept d g) (horderly : g.isOrderly d (i, action))
    (hstep : g.step d (i, action) = some g') : Kept d g' := by
  obtain ⟨u, phase, phase', hi, hmove, hadv⟩ := Gateway.step_advance hstep
  have hcall : ⟨u, phase⟩ ∈ g.deliveries := List.mem_of_getElem? hi
  generalize hevents : g'.events = events, hmessages : g'.messages = messages,
    hdispatches : g'.dispatches = dispatches at hadv
  cases hadv with
  | deliver | refuse | fail =>
    exact h.of_quiet hi hmove hevents hmessages hdispatches (fun _ hjob ↦ by cases hjob)
      (fun _ hwork ↦ by cases hwork) (fun _ hok ↦ by cases hok)
  | @replay now hseen =>
    refine h.of_quiet hi hmove hevents hmessages hdispatches (fun _ hjob ↦ by cases hjob)
      (fun _ hwork ↦ by cases hwork) fun hroutable _ ↦ ?_
    obtain ⟨call, hmem, rfl, haccepted⟩ :
        ∃ call ∈ g.deliveries, call.input = u ∧ call.phase = .accepted := by
      simpa [Gateway.isOrderly, hi, hseen, hroutable] using horderly
    refine ⟨h.routed call hmem hroutable (by rw [haccepted]; rfl), fun j call' hj hinput _ ↦ ?_⟩
    exact h.idle_of_accepted hroutable hmem haccepted hj hinput
  | @mark now hseen =>
    refine h.of_quiet hi hmove hevents hmessages hdispatches (fun _ hjob ↦ by cases hjob)
      (fun hroutable _ ↦ ?_) fun _ hok ↦ by cases hok
    obtain ⟨hnone, hidle⟩ : g.eventsOf u = [] ∧
        ∀ call ∈ g.deliveries, call.input = u → call.phase.isWorking = false := by
      simpa [Gateway.isOrderly, hi, hseen, hroutable, imp_iff_not_or] using horderly
    refine ⟨hnone, fun j call hj hinput _ ↦ ⟨hidle call (List.mem_of_getElem? hj) hinput, ?_⟩⟩
    exact h.not_ok_of_unrecorded hroutable hnone (List.mem_of_getElem? hj) hinput
  | admitted =>
    exact h.of_quiet hi hmove hevents hmessages hdispatches (fun _ hjob ↦ by cases hjob)
      (fun hroutable _ ↦ h.working i _ hi hroutable rfl) (fun _ hok ↦ by cases hok)
  | ignoreSender hnot =>
    exact h.of_quiet hi hmove hevents hmessages hdispatches (fun _ hjob ↦ by cases hjob)
      (fun hroutable _ ↦ absurd hroutable (by simp [hnot])) (fun _ hok ↦ by cases hok)
  | resolve hjob =>
    exact h.of_quiet hi hmove hevents hmessages hdispatches (fun _ he ↦ Option.some.inj he ▸ hjob)
      (fun hroutable _ ↦ h.working i _ hi hroutable rfl) (fun _ hok ↦ by cases hok)
  | ignore hphase hkey =>
    have hnot : u.isRoutable d = false := by
      rcases hphase with rfl | ⟨-, hnot⟩
      · by_contra hroutable
        rw [Bool.not_eq_false] at hroutable
        exact (h.working i _ hi hroutable rfl).1
      · exact hnot
    obtain ⟨hm, hd⟩ := h.record_keys hevents hmessages hdispatches
    exact h.of_step hi hmove hm hd
      (fun u' hne ↦ frame_of_record hkey hevents hmessages hdispatches hne)
      { jobs := fun _ hjob ↦ by cases hjob
        own := fun hroutable ↦ absurd hroutable (by simp [hnot])
        working := fun hroutable ↦ absurd hroutable (by simp [hnot])
        ok := fun hroutable ↦ absurd hroutable (by simp [hnot]) }
  | record hkey =>
    obtain ⟨hm, hd⟩ := h.record_keys hevents hmessages hdispatches
    have hjob := h.jobs _ hcall _ rfl
    obtain ⟨hnone, halone⟩ := h.working i _ hi hjob.isRoutable rfl
    exact h.of_step hi hmove hm hd
      (fun u' hne ↦ frame_of_record hkey hevents hmessages hdispatches hne)
      { jobs := fun _ he ↦ Option.some.inj he ▸ hjob
        own := fun _ ↦ .inr rfl
        working := fun _ _ ↦ ⟨.record h hnone hkey hevents hmessages hdispatches, halone⟩
        ok := fun _ hok ↦ by cases hok }
  | route =>
    have hjob := h.jobs _ hcall _ rfl
    obtain ⟨hholds, halone⟩ := h.working i _ hi hjob.isRoutable rfl
    have hkeys : g'.events.keys = g.events.keys := by rw [hevents, Table.keys_modify]
    refine h.of_step hi hmove ?_ ?_
      (fun u' hne ↦ frame_of_route hholds hevents hmessages hdispatches hne)
      { jobs := fun _ he ↦ Option.some.inj he ▸ hjob
        own := fun _ ↦ .inr rfl
        working := fun _ _ ↦ ⟨hholds.route hevents hmessages hdispatches, halone⟩
        ok := fun _ hok ↦ by cases hok }
    · rw [hmessages, hkeys]
      exact h.messages
    · rw [hdispatches, hkeys]
      exact h.dispatches
  | @store job eventId userMessageId assistantId =>
    have hjob := h.jobs _ hcall _ rfl
    obtain ⟨hholds, halone⟩ := h.working i _ hi hjob.isRoutable rfl
    rw [← List.append_nil g.dispatches] at hdispatches
    have hm : ∀ m ∈ [u.message userMessageId "user" job.text "Completed" eventId,
        u.message assistantId "assistant" "" "Pending" eventId], m.webhookEventId = eventId := by
      simp [Update.message]
    have hd : ∀ x ∈ ([] : List Dispatch), x.eventId = eventId := by simp
    obtain ⟨hmkeys, hdkeys⟩ := h.append_keys hholds.mem_keys hevents hmessages hdispatches hm hd
    exact h.of_step hi hmove hmkeys hdkeys
      (fun u' hne ↦ frame_of_append hholds hevents hmessages hdispatches hm hd hne)
      { jobs := fun _ he ↦ Option.some.inj he ▸ hjob
        own := fun _ ↦ .inr rfl
        working := fun _ _ ↦
          ⟨⟨userMessageId, hholds.append hevents hmessages hdispatches hm hd⟩, halone⟩
        ok := fun _ hok ↦ by cases hok }
  | @dispatch job eventId assistantId history =>
    have hjob := h.jobs _ hcall _ rfl
    obtain ⟨⟨userMessageId, hholds⟩, halone⟩ := h.working i _ hi hjob.isRoutable rfl
    rw [← List.append_nil g.messages] at hmessages
    have hm : ∀ m ∈ ([] : List ChatMessage), m.webhookEventId = eventId := by simp
    have hd : ∀ x ∈ [u.started job eventId assistantId history], x.eventId = eventId := by
      simp [Update.started]
    obtain ⟨hmkeys, hdkeys⟩ := h.append_keys hholds.mem_keys hevents hmessages hdispatches hm hd
    exact h.of_step hi hmove hmkeys hdkeys
      (fun u' hne ↦ frame_of_append hholds hevents hmessages hdispatches hm hd hne)
      { jobs := fun _ he ↦ by cases he
        own := fun _ ↦ .inr rfl
        working := fun _ hwork ↦ by cases hwork
        ok := fun _ _ ↦
          ⟨⟨job, eventId, userMessageId, assistantId, history, hjob,
              hholds.append hevents hmessages hdispatches hm hd⟩,
            fun j call hj hinput hji ↦ (halone j call hj hinput hji).1⟩ }

theorem kept_begin (d : Directory) (deliveries : List Update) : Kept d (.begin deliveries) := by
  have hwaiting : ∀ call ∈ (Gateway.begin deliveries).deliveries, call.phase = .waiting :=
    fun call hcall ↦ Served.phase_of_mem_start hcall
  refine ⟨fun m hm ↦ absurd hm List.not_mem_nil, fun x hx ↦ absurd hx List.not_mem_nil,
    fun call hcall job hjob ↦ ?_, fun i call hi _ hworking ↦ ?_, fun call hcall _ hok ↦ ?_⟩
  · rw [hwaiting call hcall] at hjob
    cases hjob
  · rw [hwaiting call (List.mem_of_getElem? hi)] at hworking
    cases hworking
  · rw [hwaiting call hcall] at hok
    cases hok

end Step

/-- While deliveries come in order, whatever is refused, fails or overlaps, a text that was answered
with a 2xx status has been recorded and routed once. -/
theorem exactlyOnce_along (d : Directory) (deliveries : List Update) (labels : List (ℕ × Action))
    (h : Along (Gateway.step d) (fun g label _ ↦ g.isOrderly d label) (.begin deliveries) labels) :
    Along (Gateway.step d) (fun _ _ g ↦ ExactlyOnce d g) (.begin deliveries) labels :=
  along_of_invariant (fun _ (_, _) _ hkept horderly hstep ↦
    ⟨kept_step hkept horderly hstep, (kept_step hkept horderly hstep).routed⟩)
    (kept_begin d deliveries) h

def oneUser : Directory where
  channels := [⟨1, "Telegram", "42", true⟩]
  users := Table.empty.put 1 ⟨"trader@example.com", true⟩

def question : Update where
  channel := .telegram
  messageId := "7"
  chatKey := "42"
  text := some "status?"
  handle := "42"
  metadata := [("chat_id", "42")]
  notifyKwargs := [("channel", "telegram"), ("chat_id", "42")]

example : TelegramBody.update ⟨some (.int 7), some ⟨some (.int 42), some "status?"⟩⟩ =
    .ok question := by rfl

def twice : Gateway := .begin [question, question]

/-- The first delivery fails before it looks for a replay, and the second goes through. -/
def retried : List (ℕ × Action) :=
  [(0, .deliver), (0, .fail), (1, .deliver), (1, .check 0), (1, .limit 0), (1, .resolve),
   (1, .record 1 0), (1, .route), (1, .store 1 2), (1, .dispatch)]

theorem exactlyOnce_along_retried :
    (exec (Gateway.step oneUser) twice retried).map (·.deliveries.map (·.phase)) =
        some [.failed, .accepted] ∧
      Along (Gateway.step oneUser) (fun _ _ g ↦ ExactlyOnce oneUser g) twice retried :=
  ⟨by decide +kernel, exactlyOnce_along oneUser [question, question] retried (by decide +kernel)⟩

/-- The first delivery fails after it has set the mark. -/
def markedFailure : List (ℕ × Action) :=
  [(0, .deliver), (0, .check 0), (0, .fail), (1, .deliver), (1, .check 1)]

/-- The second is then answered as a replay of an update that nobody has recorded. -/
theorem not_exactlyOnce_markedFailure :
    (exec (Gateway.step oneUser) twice markedFailure).map (fun g ↦
        (g.deliveries.map (·.phase), g.events.rows)) = some ([.failed, .replayed], []) ∧
      ¬ Along (Gateway.step oneUser) (fun _ _ g ↦ ExactlyOnce oneUser g) twice markedFailure := by
  have hend : (exec (Gateway.step oneUser) twice markedFailure).map (fun g ↦
      (g.deliveries.map (·.phase), g.events.rows)) = some ([.failed, .replayed], []) := by
    decide +kernel
  refine ⟨hend, fun h ↦ ?_⟩
  have hlost : (exec (Gateway.step oneUser) twice markedFailure).all fun g ↦
      ⟨question, .replayed⟩ ∈ g.deliveries ∧ g.eventsOf question = [] := by decide +kernel
  obtain ⟨g, hg, -⟩ := Option.map_eq_some_iff.mp hend
  obtain ⟨_, honce⟩ := @Along.last _ _ _ _ _ _ (markedFailure.take 4) _ h (exec_eq_some.mp hg)
  rw [hg, Option.all_some, decide_eq_true_iff] at hlost
  exact (honce _ hlost.1 (by decide +kernel) rfl).eventsOf_ne_nil hlost.2

end TradingOS.Api.Webhooks
