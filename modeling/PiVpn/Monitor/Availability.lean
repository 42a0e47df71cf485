import PiVpn.Lib.Broker
import PiVpn.Lib.Outbox
import PiVpn.Lib.Transition
import PiVpn.Monitor.Telemetry

/-! The telemetry agents of all devices and the broker they report to. The main thread of an
agent publishes readings until it is told to stop; its network thread connects, greets the broker
and connects again when the link is lost. -/

namespace Telemetry
open Text Monitor Broker Transition

/-! ## What an agent says -/

def configTopic (deviceId : Text) : Text := "homeassistant/device/".toList ++ (deviceId ++ "/config".toList)

def stateTopic (deviceId : Text) : Text := "pi-telemetry/".toList ++ (deviceId ++ "/state".toList)

def clientId (deviceId : Text) : Text := "pi-telemetry-".toList ++ deviceId

def onlineWord : Text := "online".toList
def offlineWord : Text := "offline".toList

abbrev Message := Text × Text

abbrev Hub := Broker.State Text Text Text

/-! ## An agent -/

abbrev Kept := Outbox.Item Message

/-- What is left of `on_connect`, and of the messages that the library repeats behind it. -/
inductive Todo where
  | first (m : Message)
  | state
  | again (m : Message)

/-- The network thread. -/
inductive Net where
  | idle
  | dialling (link : Nat)
  | greeting (link : Nat) (todo : List Todo)
  | connected (link : Nat)

/-- The main thread; between `stopping` and `off` it waits for the last message to leave. -/
inductive Main where
  | off
  | running
  | stopping
  deriving DecidableEq

structure Agent where
  deviceId : Text
  /-- The text of `_discovery_payload`, which is made when the process starts. -/
  discovery : Text
  main : Main
  net : Net
  outbox : List Kept

/-- What an agent does to its side of the network. -/
inductive Out where
  | none
  | dial
  | send (link : Nat) (p : Packet Text Text)

def Net.link? : Net → Option Nat
  | .idle => .none
  | .dialling i => i
  | .greeting i _ => i
  | .connected i => i

/-- `client.is_connected()`. -/
def Net.isConnected : Net → Bool
  | .idle => false
  | .dialling _ => false
  | .greeting _ _ => true
  | .connected _ => true

/-- Without a link nothing is written. -/
def Net.write (net : Net) (p : Packet Text Text) : Out :=
  match net.link? with
  | some i => .send i p
  | none => .none

/-- `max_inflight_messages`, which the agent leaves at its default. -/
def maxInflight : Nat := 20

def Net.writeNext (net : Net) : Option Message → Out
  | some m => net.write (.publish m.1 m.2)
  | none => .none

/-- Publish with acknowledgement: without a link the message waits for the next one, and
beside as many as may be under way for an acknowledgement. -/
def Agent.publish (g : Agent) (m : Message) : Agent × Out :=
  ({ g with outbox := Outbox.publish maxInflight g.net.link?.isSome g.outbox m },
    if Outbox.inflight g.outbox < maxInflight then g.net.write (.publish m.1 m.2) else .none)

/-- `publish_state`; there is no text where `collect` raised. -/
def Agent.publishState (g : Agent) : Option Text → Out
  | some text => g.net.write (.publish (stateTopic g.deviceId) text)
  | none => .none

/-- What the library writes again on a new link. -/
def Agent.repeats (g : Agent) : List Todo := (g.outbox.filter fun k => !k.sent).map fun k => .again k.message

/-- `on_connect` with what the library repeats. -/
def Agent.greeting (g : Agent) : List Todo :=
  .first (configTopic g.deviceId, g.discovery) :: .first (availabilityTopic g.deviceId, onlineWord) :: .state ::
    g.repeats

/-- What the callback still publishes once the link is gone waits for the next link. -/
def Net.unsaid : Net → List Kept
  | .greeting _ todo => todo.filterMap fun
    | .first m => some ⟨m, false⟩
    | _ => none
  | _ => []

inductive Act where
  | start (discovery : Text)
  | dial
  | connack
  | greet (state : Option Text)
  | tick (state : Option Text)
  | drop
  | acked (k : Nat)
  | stop
  | quit
  | kill

def Agent.ended (g : Agent) : Agent := { g with main := .off, net := .idle, outbox := [] }

/-- One step of either thread. -/
def Agent.move (hub : Hub) (g : Agent) : Act → Option (Agent × Out)
  | .start discovery =>
    if g.main = .off then some ({ g.ended with discovery := discovery, main := .running }, .none) else none
  | .dial =>
    match g.main, g.net with
    | .off, _ => none
    | _, .idle => some ({ g with
        net := .dialling hub.links.length
        outbox := Outbox.reset g.outbox }, .dial)
    | _, _ => none
  | .connack =>
    match g.net with
    | .dialling i =>
      match hub.links[i]? with
      | some l =>
        if l.stage = .live ∨ l.stage = .over then some ({ g with net := .greeting i g.greeting }, .none) else none
      | none => none
    | _ => none
  | .greet text =>
    match g.net with
    | .greeting i [] => some ({ g with net := .connected i }, .none)
    | .greeting i (.first m :: todo) =>
      let (g', out) := g.publish m
      some ({ g' with net := .greeting i todo }, out)
    | .greeting i (.state :: todo) => some ({ g with net := .greeting i todo }, g.publishState text)
    | .greeting i (.again m :: todo) =>
      some ({ g with net := .greeting i todo, outbox := Outbox.sendNext g.outbox }, g.net.write (.publish m.1 m.2))
    | _ => none
  | .tick text => if g.main = .running ∧ g.net.isConnected then some (g, g.publishState text) else none
  | .drop => some ({ g with net := .idle, outbox := g.outbox ++ g.net.unsaid }, .none)
  | .acked k =>
    match g.net with
    | .connected _ =>
      (Outbox.acked maxInflight g.outbox k).map fun (box, m?) => ({ g with outbox := box }, g.net.writeNext m?)
    | _ => none
  | .stop =>
    if g.main = .running then
      let (g', out) := g.publish (availabilityTopic g.deviceId, offlineWord)
      some ({ g' with main := .stopping }, out)
    else none
  | .quit =>
    match g.main, g.net with
    | .stopping, .greeting _ _ => none
    | .stopping, net => some (g.ended, net.write .disconnect)
    | _, _ => none
  | .kill => some (g.ended, .none)

/-! ## All devices -/

structure System where
  hub : Hub
  agents : List Agent

inductive Event where
  | agent (a : Nat) (act : Act)
  | hub (e : Broker.Event)

/-- The will is registered with the request to connect. -/
def Out.apply (deviceId : Text) (hub : Hub) : Out → Hub
  | .none => hub
  | .dial => hub.dial (clientId deviceId) (availabilityTopic deviceId, offlineWord)
  | .send i p => hub.send i p

/-- A step of one of the devices, or of the broker they report to. -/
def step (broker : Hub → Broker.Event → Option Hub) : Event → System → Option System
  | .agent a act, s =>
    match s.agents[a]? with
    | none => none
    | some g => (g.move s.hub act).map fun (g', out) => ⟨out.apply g.deviceId s.hub, s.agents.set a g'⟩
  | .hub e, s => (broker s.hub e).map fun hub => ⟨hub, s.agents⟩

/-! ## Topics -/

def role (deviceId : Text) : Role Text Text Text where
  client := clientId deviceId
  topic := availabilityTopic deviceId
  note := configTopic deviceId
  up := onlineWord
  down := offlineWord
  distinct := by decide

variable {d d' : Text}

theorem clientId_injective (h : clientId d = clientId d') : d = d' := by
  unfold clientId at h
  exact List.append_cancel_left h

theorem availabilityTopic_injective (h : availabilityTopic d = availabilityTopic d') : d = d' := by
  unfold availabilityTopic at h
  exact List.append_cancel_right (List.append_cancel_left h)

theorem configTopic_ne : configTopic d ≠ availabilityTopic d' := by
  intro h
  unfold configTopic availabilityTopic at h
  have hhead := congrArg List.head? h
  simp at hhead

theorem stateTopic_ne : stateTopic d ≠ availabilityTopic d' := by
  intro h
  unfold stateTopic availabilityTopic at h
  have hlast := congrArg List.getLast? (List.append_cancel_left h)
  rw [List.getLast?_append, List.getLast?_append] at hlast
  simp at hlast

/-- The topics with acknowledgement. -/
def Spoken (d : Text) (m : Message) : Prop := m.1 = configTopic d ∨ m.1 = availabilityTopic d

/-- Said while the agent is meant to run. -/
def Cheerful (d : Text) (m : Message) : Prop := m.1 = availabilityTopic d → m.2 = onlineWord

def Todo.message? : Todo → Option Message
  | .first m => some m
  | .state => none
  | .again m => some m

def Net.todo : Net → List Todo
  | .greeting _ todo => todo
  | _ => []

/-- What the agent still has to say, or to say again. -/
def Agent.messages (g : Agent) : List Message :=
  g.outbox.map Outbox.Item.message ++ g.net.todo.filterMap Todo.message?

theorem mem_messages {g : Agent} {m : Message} : m ∈ g.messages ↔
    (∃ k ∈ g.outbox, k.message = m) ∨ ∃ x ∈ g.net.todo, x.message? = some m := by
  rw [Agent.messages, List.mem_append, List.mem_map, List.mem_filterMap]

/-- An agent speaks of itself, and while it runs it does not say that it is down. -/
structure Speaks (g : Agent) : Prop where
  spoken : ∀ m ∈ g.messages, Spoken g.deviceId m
  cheerful : g.main = .running → ∀ m ∈ g.messages, Cheerful g.deviceId m

theorem speaks_of_subset {g g' : Agent} (h : Speaks g) (hid : g'.deviceId = g.deviceId)
    (hmain : g'.main = .running → g.main = .running) (hsub : ∀ m ∈ g'.messages, m ∈ g.messages) : Speaks g' := by
  constructor
  · intro m hm
    rw [hid]
    exact h.spoken m (hsub m hm)
  · intro hrun m hm
    rw [hid]
    exact h.cheerful (hmain hrun) m (hsub m hm)

theorem spoken_greeting (g : Agent) (h : Speaks g) :
    ∀ m ∈ g.greeting.filterMap Todo.message?,
      Spoken g.deviceId m ∧ (g.main = .running → Cheerful g.deviceId m) := by
  intro m hm
  simp only [Agent.greeting, Agent.repeats, List.filterMap_cons, Todo.message?, List.mem_cons, List.filterMap_map,
    List.mem_filterMap, Function.comp_apply, Option.some.injEq] at hm
  rcases hm with rfl | rfl | ⟨k, hk, rfl⟩
  · exact ⟨.inl rfl, fun _ htopic => absurd htopic configTopic_ne⟩
  · exact ⟨.inr rfl, fun _ _ => rfl⟩
  · have hmem : k.message ∈ g.messages :=
      List.mem_append_left _ (List.mem_map_of_mem (List.mem_of_mem_filter hk))
    exact ⟨h.spoken _ hmem, fun hrun => h.cheerful hrun _ hmem⟩

/-! ## What a greeting comes to -/

def Todo.packet? (x : Todo) : Option (Packet Text Text) := x.message?.map fun m => .publish m.1 m.2

/-- Once what is left of the greeting is said, the device is described and, while the agent
runs, shown as up. -/
def Known (d : Text) (main : Main) (todo : List Todo) (r : Text → Option Text) : Prop :=
  Sound (role d) r (todo.filterMap Todo.packet?) ∧
    (after r (todo.filterMap Todo.packet?) (configTopic d)).isSome = true ∧
    (main = .running → after r (todo.filterMap Todo.packet?) (availabilityTopic d) = some onlineWord)

variable {r r' : Text → Option Text} {main : Main} {todo : List Todo}

theorem known_ofRole : OfRole (role d) (Known d main todo) := by
  intro r r' halike h
  have hafter := halike.after (todo.filterMap Todo.packet?)
  exact ⟨h.1.mono halike.below, hafter.note h.2.1, fun hrun => hafter.topic.trans (h.2.2 hrun)⟩

/-- Behind the note and the word that the agent is up, the messages of an agent do no harm. -/
theorem known_again {ms : List Message} (hnote : (r (configTopic d)).isSome = true)
    (htopic : main = .running → r (availabilityTopic d) = some onlineWord)
    (hms : main = .running → ∀ m ∈ ms, Cheerful d m) : Known d main (ms.map .again) r := by
  induction ms generalizing r with
  | nil => exact ⟨trivial, hnote, htopic⟩
  | cons m ms ih =>
    have htopic' : main = .running → Function.update r m.1 (some m.2) (availabilityTopic d) = some onlineWord := by
      intro hrun
      rw [Function.update_apply]
      split
      · next ht => rw [hms hrun m List.mem_cons_self ht.symm]
      · exact htopic hrun
    obtain ⟨hsound, hrest, hup⟩ := ih (isSome_update hnote) htopic' fun hrun m hm =>
      hms hrun m (List.mem_cons_of_mem _ hm)
    exact ⟨⟨fun _ _ => hnote, hsound⟩, hrest, hup⟩

theorem known_greeting {g : Agent} (h : Speaks g) (r : Text → Option Text) :
    Known g.deviceId g.main g.greeting r := by
  have hms : g.main = .running →
      ∀ m ∈ (g.outbox.filter fun k => !k.sent).map Outbox.Item.message, Cheerful g.deviceId m := by
    intro hrun m hm
    obtain ⟨k, hk, rfl⟩ := List.mem_map.mp hm
    exact h.cheerful hrun _ (List.mem_append_left _ (List.mem_map_of_mem (List.mem_of_mem_filter hk)))
  set noted := Function.update r (configTopic g.deviceId) (some g.discovery)
  have hnote : (noted (configTopic g.deviceId)).isSome = true := by
    have hself : noted (configTopic g.deviceId) = some g.discovery := Function.update_self _ _ _
    rw [hself]
    rfl
  have hnote' : (Function.update noted (availabilityTopic g.deviceId) (some onlineWord)
      (configTopic g.deviceId)).isSome = true := isSome_update hnote
  have hrest := known_again hnote' (fun _ => Function.update_self _ _ _) hms
  rw [List.map_map] at hrest
  obtain ⟨hsound, hdescribed, hup⟩ := hrest
  exact ⟨⟨fun ht => absurd ht configTopic_ne, ⟨fun _ _ => hnote, hsound⟩⟩, hdescribed, hup⟩

/-! ## One agent and the broker -/

def Net.answered? : Net → Option Nat
  | .greeting i _ => some i
  | .connected i => some i
  | _ => none

def Todo.isFirst : Todo → Bool
  | .first _ => true
  | _ => false

def Todo.isAgain : Todo → Bool
  | .again _ => true
  | _ => false

/-- How many messages come first on the link and are still to be said. -/
def Net.firsts : Net → Nat
  | .dialling _ => 2
  | .greeting _ todo => todo.countP Todo.isFirst
  | _ => 0

/-- How many words of the main thread may be under way before the first messages. -/
def Main.words : Main → Nat
  | .stopping => 1
  | _ => 0

/-- There is room for what comes first on a link, and the repeats come behind it. -/
structure Light (g : Agent) : Prop where
  room : 0 < g.net.firsts → Outbox.inflight g.outbox + g.net.firsts ≤ 2 + g.main.words
  order : g.net.todo.Pairwise fun x y => x.isAgain = true → y.isFirst = false

theorem Light.inflight_lt {g : Agent} (h : Light g) (hfirsts : 0 < g.net.firsts) :
    Outbox.inflight g.outbox < maxInflight := by
  have hroom := h.room hfirsts
  have hwords : g.main.words ≤ 1 := by cases g.main <;> decide
  unfold maxInflight
  omega

theorem light_of_quiet {g : Agent} (hfirsts : g.net.firsts = 0) (htodo : g.net.todo = []) : Light g :=
  ⟨fun h => absurd h (by omega), by rw [htodo]; exact .nil⟩

structure AgentOk (hub : Hub) (g : Agent) : Prop where
  speaks : Speaks g
  light : Light g
  belongs : ∀ i, g.net.link? = some i → Belongs (clientId g.deviceId) hub.links i
  known : ∀ i, g.net.answered? = some i →
    Answered (role g.deviceId) (Known g.deviceId g.main g.net.todo) hub i

/-- What an agent writes: of its own topics, or its farewell. -/
def Ours (d : Text) : Packet Text Text → Prop
  | .connect => False
  | .publish t _ => t = configTopic d ∨ t = availabilityTopic d ∨ t = stateTopic d
  | .disconnect => True

/-- What an agent may do to its side of the network. -/
def Out.Fits (g : Agent) : Out → Prop
  | .none => True
  | .dial => True
  | .send i p => g.net.link? = some i ∧ Ours g.deviceId p

variable {hub hub' : Hub} {g g' : Agent} {act : Act} {out : Out}

inductive Moved (hub : Hub) (g : Agent) : Act → Agent → Out → Prop where
  | started (discovery : Text) (hmain : g.main = .off) :
      Moved hub g (.start discovery) { g.ended with discovery := discovery, main := .running } .none
  | dialled (hmain : g.main ≠ .off) (hnet : g.net = .idle) :
      Moved hub g .dial { g with net := .dialling hub.links.length, outbox := Outbox.reset g.outbox } .dial
  | answered (i : Nat) (l : Link Text Text Text) (hnet : g.net = .dialling i) (hl : hub.links[i]? = some l)
      (hstage : l.stage = .live ∨ l.stage = .over) :
      Moved hub g .connack { g with net := .greeting i g.greeting } .none
  | greeted (i : Nat) (text : Option Text) (hnet : g.net = .greeting i []) :
      Moved hub g (.greet text) { g with net := .connected i } .none
  | said (i : Nat) (text : Option Text) (m : Message) (todo : List Todo)
      (hnet : g.net = .greeting i (.first m :: todo)) :
      Moved hub g (.greet text) { g with net := .greeting i todo, outbox := (g.publish m).1.outbox } (g.publish m).2
  | read (i : Nat) (text : Option Text) (todo : List Todo) (hnet : g.net = .greeting i (.state :: todo)) :
      Moved hub g (.greet text) { g with net := .greeting i todo } (g.publishState text)
  | repeated (i : Nat) (text : Option Text) (m : Message) (todo : List Todo)
      (hnet : g.net = .greeting i (.again m :: todo)) :
      Moved hub g (.greet text) { g with net := .greeting i todo, outbox := Outbox.sendNext g.outbox }
        (.send i (.publish m.1 m.2))
  | ticked (text : Option Text) (hmain : g.main = .running) (hnet : g.net.isConnected = true) :
      Moved hub g (.tick text) g (g.publishState text)
  | dropped : Moved hub g .drop { g with net := .idle, outbox := g.outbox ++ g.net.unsaid } .none
  | acked (i k : Nat) (box : List Kept) (m? : Option Message) (hnet : g.net = .connected i)
      (hbox : Outbox.acked maxInflight g.outbox k = some (box, m?)) :
      Moved hub g (.acked k) { g with outbox := box } (g.net.writeNext m?)
  | stopped (hmain : g.main = .running) :
      Moved hub g .stop
        { g with main := .stopping, outbox := (g.publish (availabilityTopic g.deviceId, offlineWord)).1.outbox }
        (g.publish (availabilityTopic g.deviceId, offlineWord)).2
  | quit (hmain : g.main = .stopping) : Moved hub g .quit g.ended (g.net.write .disconnect)
  | killed : Moved hub g .kill g.ended .none

theorem moved_of_move (h : g.move hub act = some (g', out)) : Moved hub g act g' out := by
  cases act with
  | start discovery =>
    rw [Agent.move] at h
    split at h
    · next hmain =>
      cases h
      exact .started discovery hmain
    · cases h
  | dial =>
    rw [Agent.move] at h
    split at h
    · cases h
    · next hnet hmain =>
      cases h
      exact .dialled hmain hnet
    · cases h
  | connack =>
    rw [Agent.move] at h
    split at h
    · next i hnet =>
      split at h
      · next l hl =>
        split at h
        · next hstage =>
          cases h
          exact .answered i l hnet hl hstage
        · cases h
      · cases h
    · cases h
  | greet text =>
    rw [Agent.move] at h
    split at h
    · next i hnet =>
      cases h
      exact .greeted i text hnet
    · next i m todo hnet =>
      cases h
      exact .said i text m todo hnet
    · next i todo hnet =>
      cases h
      exact .read i text todo hnet
    · next i m todo hnet =>
      cases h
      have hwrite : g.net.write (.publish m.1 m.2) = .send i (.publish m.1 m.2) := by rw [hnet]; rfl
      rw [hwrite]
      exact .repeated i text m todo hnet
    · cases h
  | tick text =>
    rw [Agent.move] at h
    split at h
    · next hrun =>
      cases h
      exact .ticked text hrun.1 hrun.2
    · cases h
  | drop =>
    cases h
    exact .dropped
  | acked k =>
    rw [Agent.move] at h
    split at h
    · next i hnet =>
      obtain ⟨⟨box, m?⟩, hbox, heq⟩ := Option.map_eq_some_iff.mp h
      cases heq
      exact .acked i k box m? hnet hbox
    · cases h
  | stop =>
    rw [Agent.move] at h
    split at h
    · next hmain =>
      cases h
      exact .stopped hmain
    · cases h
  | quit =>
    rw [Agent.move] at h
    split at h
    · cases h
    · next hmain hnet =>
      cases h
      exact .quit hmain
    · cases h
  | kill =>
    cases h
    exact .killed

theorem fits_write {p : Packet Text Text} (hp : Ours g.deviceId p) : (g.net.write p).Fits g := by
  rw [Net.write]
  split
  · next i hi => exact ⟨hi, hp⟩
  · trivial

theorem publish_cases (g : Agent) (m : Message) :
    (g.publish m).2 = .none ∨ (g.publish m).2 = g.net.write (.publish m.1 m.2) := by
  rw [Agent.publish]
  split
  · exact .inr rfl
  · exact .inl rfl

theorem publish_of_room (h : Outbox.inflight g.outbox < maxInflight) (m : Message) :
    (g.publish m).2 = g.net.write (.publish m.1 m.2) := if_pos h

theorem mem_publish {m : Message} {k : Kept} (hk : k ∈ (g.publish m).1.outbox) : k ∈ g.outbox ∨ k.message = m := by
  rcases List.mem_append.mp hk with hk | hk
  · exact .inl hk
  · rw [List.mem_singleton.mp hk]
    exact .inr rfl

theorem fits_publish {m : Message} (hm : Spoken g.deviceId m) : (g.publish m).2.Fits g := by
  rcases publish_cases g m with heq | heq
  · rw [heq]
    trivial
  · rw [heq]
    exact fits_write (hm.imp_right .inl)

theorem fits_publishState (text : Option Text) : (g.publishState text).Fits g := by
  cases text with
  | none => trivial
  | some text => exact fits_write (.inr (.inr rfl))

theorem mem_todo_messages {i : Nat} {x : Todo} {m : Message} (hnet : g.net = .greeting i todo) (hx : x ∈ todo)
    (hm : x.message? = some m) : m ∈ g.messages := by
  apply List.mem_append_right
  rw [hnet]
  exact List.mem_filterMap.mpr ⟨x, hx, hm⟩

theorem mem_unsaid {k : Kept} (hk : k ∈ g.net.unsaid) : k.message ∈ g.messages := by
  cases hnet : g.net with
  | idle => simp [hnet, Net.unsaid] at hk
  | dialling i => simp [hnet, Net.unsaid] at hk
  | connected i => simp [hnet, Net.unsaid] at hk
  | greeting i todo =>
    rw [hnet, Net.unsaid, List.mem_filterMap] at hk
    obtain ⟨x, hx, hxk⟩ := hk
    cases x with
    | first m =>
      rw [← Option.some.inj hxk]
      exact mem_todo_messages hnet hx rfl
    | state => cases hxk
    | again m => cases hxk

theorem Moved.fits (h : Speaks g) (hmove : Moved hub g act g' out) : g'.deviceId = g.deviceId ∧ out.Fits g := by
  have hspoken : ∀ {i : Nat} {x : Todo} {todo : List Todo} {m : Message}, g.net = .greeting i (x :: todo) →
      x.message? = some m → Spoken g.deviceId m := fun hnet hm =>
    h.spoken _ (mem_todo_messages hnet List.mem_cons_self hm)
  cases hmove with
  | started discovery hmain => exact ⟨rfl, trivial⟩
  | dialled hmain hnet => exact ⟨rfl, trivial⟩
  | answered i l hnet hl hstage => exact ⟨rfl, trivial⟩
  | greeted i text hnet => exact ⟨rfl, trivial⟩
  | said i text m todo hnet => exact ⟨rfl, fits_publish (hspoken hnet rfl)⟩
  | read i text todo hnet => exact ⟨rfl, fits_publishState text⟩
  | repeated i text m todo hnet =>
    have hlink : g.net.link? = some i := by rw [hnet]; rfl
    exact ⟨rfl, hlink, (hspoken hnet rfl).imp_right .inl⟩
  | ticked text hmain hnet => exact ⟨rfl, fits_publishState text⟩
  | dropped => exact ⟨rfl, trivial⟩
  | acked i k box m? hnet hbox =>
    refine ⟨rfl, ?_⟩
    cases m? with
    | none => trivial
    | some m =>
      have hm : m ∈ g.messages := List.mem_append_left _ ((Outbox.mem_acked hbox).2 m rfl)
      exact fits_write ((h.spoken m hm).imp_right .inl)
  | stopped hmain => exact ⟨rfl, fits_publish (.inr rfl)⟩
  | quit hmain => exact ⟨rfl, fits_write trivial⟩
  | killed => exact ⟨rfl, trivial⟩

theorem Moved.speaks (h : Speaks g) (hmove : Moved hub g act g' out) : Speaks g' := by
  have hended : ∀ g' : Agent, g'.outbox = [] → g'.net = .idle → Speaks g' := by
    intro g' houtbox hnet
    have hnone : ∀ m, m ∉ g'.messages := by
      intro m hm
      rw [mem_messages, houtbox, hnet] at hm
      simp [Net.todo] at hm
    exact ⟨fun m hm => absurd hm (hnone m), fun _ m hm => absurd hm (hnone m)⟩
  cases hmove with
  | started discovery hmain => exact hended _ rfl rfl
  | dialled hmain hnet =>
    refine speaks_of_subset h rfl id fun m hm => ?_
    rcases mem_messages.mp hm with ⟨k, hk, rfl⟩ | ⟨x, hx, -⟩
    · obtain ⟨k', hk', rfl⟩ := List.mem_map.mp hk
      exact mem_messages.mpr (.inl ⟨k', hk', rfl⟩)
    · cases hx
  | answered i l hnet hl hstage =>
    have hall : ∀ m ∈ ({ g with net := .greeting i g.greeting } : Agent).messages,
        Spoken g.deviceId m ∧ (g.main = .running → Cheerful g.deviceId m) := by
      intro m hm
      rcases mem_messages.mp hm with hk | ⟨x, hx, hxm⟩
      · have hold : m ∈ g.messages := mem_messages.mpr (.inl hk)
        exact ⟨h.spoken _ hold, fun hrun => h.cheerful hrun _ hold⟩
      · exact spoken_greeting g h m (List.mem_filterMap.mpr ⟨x, hx, hxm⟩)
    exact ⟨fun m hm => (hall m hm).1, fun hrun m hm => (hall m hm).2 hrun⟩
  | greeted i text hnet =>
    refine speaks_of_subset h rfl id fun m hm => ?_
    rcases mem_messages.mp hm with hk | ⟨x, hx, -⟩
    · exact mem_messages.mpr (.inl hk)
    · cases hx
  | said i text m todo hnet =>
    refine speaks_of_subset h rfl id fun m' hm => ?_
    rcases mem_messages.mp hm with ⟨k, hk, rfl⟩ | ⟨x, hx, hxm⟩
    · rcases mem_publish hk with hk | hkm
      · exact mem_messages.mpr (.inl ⟨k, hk, rfl⟩)
      · rw [hkm]
        exact mem_todo_messages hnet List.mem_cons_self rfl
    · exact mem_todo_messages hnet (List.mem_cons_of_mem _ hx) hxm
  | read i text todo hnet =>
    refine speaks_of_subset h rfl id fun m hm => ?_
    rcases mem_messages.mp hm with hk | ⟨x, hx, hxm⟩
    · exact mem_messages.mpr (.inl hk)
    · exact mem_todo_messages hnet (List.mem_cons_of_mem _ hx) hxm
  | repeated i text m todo hnet =>
    refine speaks_of_subset h rfl id fun m' hm => ?_
    rcases mem_messages.mp hm with ⟨k, hk, rfl⟩ | ⟨x, hx, hxm⟩
    · have hsame : (Outbox.sendNext g.outbox).map Outbox.Item.message = g.outbox.map Outbox.Item.message :=
        Outbox.message_sendNext
      exact List.mem_append_left _ (hsame ▸ List.mem_map_of_mem hk)
    · exact mem_todo_messages hnet (List.mem_cons_of_mem _ hx) hxm
  | ticked text hmain hnet => exact h
  | dropped =>
    refine speaks_of_subset h rfl id fun m hm => ?_
    rcases mem_messages.mp hm with ⟨k, hk, rfl⟩ | ⟨x, hx, -⟩
    · rcases List.mem_append.mp hk with hk | hk
      · exact mem_messages.mpr (.inl ⟨k, hk, rfl⟩)
      · exact mem_unsaid hk
    · cases hx
  | acked i k box m? hnet hbox =>
    refine speaks_of_subset h rfl id fun m hm => ?_
    rcases mem_messages.mp hm with ⟨k', hk, rfl⟩ | hx
    · exact List.mem_append_left _ ((Outbox.mem_acked hbox).1 _ (List.mem_map_of_mem hk))
    · exact mem_messages.mpr (.inr hx)
  | stopped hmain =>
    refine ⟨fun m hm => ?_, fun hrun => by cases hrun⟩
    rcases mem_messages.mp hm with ⟨k, hk, rfl⟩ | hx
    · rcases mem_publish hk with hk | hkm
      · exact h.spoken _ (mem_messages.mpr (.inl ⟨k, hk, rfl⟩))
      · rw [hkm]
        exact .inr rfl
    · exact h.spoken m (mem_messages.mpr (.inr hx))
  | quit hmain => exact hended _ rfl rfl
  | killed => exact hended _ rfl rfl

theorem isAgain_of_mem_repeats {x : Todo} (hx : x ∈ g.repeats) : x.isAgain = true ∧ x.isFirst = false := by
  obtain ⟨k, -, rfl⟩ := List.mem_map.mp hx
  exact ⟨rfl, rfl⟩

theorem Moved.light (h : Light g) (hmove : Moved hub g act g' out) : Light g' := by
  cases hmove with
  | started discovery hmain => exact light_of_quiet rfl rfl
  | dialled hmain hnet => exact ⟨fun _ => by simp [Net.firsts], .nil⟩
  | answered i l hnet hl hstage =>
    have hroom := h.room (by rw [hnet]; exact Nat.two_pos)
    rw [hnet] at hroom
    have hnone : g.repeats.countP Todo.isFirst = 0 := List.countP_eq_zero.mpr fun x hx => by
      simp [(isAgain_of_mem_repeats hx).2]
    have hrest : g.repeats.Pairwise fun x y => x.isAgain = true → y.isFirst = false :=
      List.pairwise_of_forall_mem_list fun _ _ y hy _ => (isAgain_of_mem_repeats hy).2
    refine ⟨fun _ => ?_, ?_⟩
    · have hfirsts : g.greeting.countP Todo.isFirst = 2 := by
        rw [Agent.greeting, List.countP_cons_of_pos rfl, List.countP_cons_of_pos rfl,
          List.countP_cons_of_neg (by decide), hnone]
      rw [Net.firsts, hfirsts]
      exact hroom
    · exact .cons (fun _ _ h => by cases h) (.cons (fun _ _ h => by cases h) (.cons (fun _ _ h => by cases h) hrest))
  | greeted i text hnet => exact light_of_quiet rfl rfl
  | said i text m todo hnet =>
    have hfirsts : g.net.firsts = todo.countP Todo.isFirst + 1 := by rw [hnet]; exact List.countP_cons_of_pos rfl
    have hroom := h.room (by omega)
    have horder := h.order
    rw [hnet] at horder
    refine ⟨fun _ => ?_, horder.of_cons⟩
    have hle : Outbox.inflight (g.publish m).1.outbox ≤ Outbox.inflight g.outbox + 1 := Outbox.inflight_publish_le
    dsimp only [Net.firsts]
    omega
  | read i text todo hnet =>
    have hfirsts : g.net.firsts = todo.countP Todo.isFirst := by rw [hnet]; exact List.countP_cons_of_neg (by decide)
    have horder := h.order
    rw [hnet] at horder
    have hroom := h.room
    rw [hfirsts] at hroom
    exact ⟨hroom, horder.of_cons⟩
  | repeated i text m todo hnet =>
    have horder := h.order
    rw [hnet] at horder
    have hnone : todo.countP Todo.isFirst = 0 := by
      refine List.countP_eq_zero.mpr fun x hx => ?_
      rw [List.rel_of_pairwise_cons horder hx rfl]
      exact Bool.false_ne_true
    exact ⟨fun hpos => absurd hpos (by simp only [Net.firsts]; omega), horder.of_cons⟩
  | ticked text hmain hnet => exact h
  | dropped => exact light_of_quiet rfl rfl
  | acked i k box m? hnet hbox => exact light_of_quiet (by rw [hnet]; rfl) (by rw [hnet]; rfl)
  | stopped hmain =>
    refine ⟨fun hpos => ?_, h.order⟩
    have hroom := h.room hpos
    have hle : Outbox.inflight (g.publish (availabilityTopic g.deviceId, offlineWord)).1.outbox ≤
        Outbox.inflight g.outbox + 1 := Outbox.inflight_publish_le
    rw [hmain] at hroom
    simp only [Main.words] at hroom ⊢
    omega
  | quit hmain => exact light_of_quiet rfl rfl
  | killed => exact light_of_quiet rfl rfl

theorem belongs_apply {c : Text} {i : Nat} (h : Belongs c hub.links i) (deviceId : Text) (out : Out) :
    Belongs c (out.apply deviceId hub).links i := by
  cases out with
  | none => exact h
  | dial => exact h.dial _ _
  | send j p => exact h.send j p

variable {Q : (Text → Option Text) → Prop} {i : Nat}

theorem apply_write (d : Text) (hub : Hub) (net : Net) (p : Packet Text Text) : (net.write p).apply d hub = hub ∨
    ∃ i, net.link? = some i ∧ (net.write p).apply d hub = hub.send i p := by
  rw [Net.write]
  cases net.link? with
  | none => exact .inl rfl
  | some i => exact .inr ⟨i, rfl, rfl⟩

theorem apply_write_of_link {net : Net} (h : net.link? = some i) (p : Packet Text Text) :
    (net.write p).apply d hub = hub.send i p := by
  rw [Net.write, h]
  rfl

theorem answered_publishState (h : Answered (role d) Q hub i) (hQ : OfRole (role d) Q) (text : Option Text)
    (d' : Text) : Answered (role d) Q ((g.publishState text).apply d' hub) i := by
  cases text with
  | none => exact h
  | some text =>
    rw [Agent.publishState]
    rcases apply_write d' hub g.net (.publish (stateTopic g.deviceId) text) with heq | ⟨j, -, heq⟩
    · rwa [heq]
    · rw [heq]
      by_cases hij : j = i
      · rw [hij]
        exact h.send fun r hr => hQ _ _ (Alike.other stateTopic_ne text) hr
      · exact h.send_ne hij _

theorem link_of_answered {net : Net} (h : net.answered? = some i) : net.link? = some i := by
  cases net with
  | idle => cases h
  | dialling j => cases h
  | greeting j todo => exact h
  | connected j => exact h

theorem update_down_ne (d : Text) (r : Text → Option Text) :
    Function.update r (availabilityTopic d) (some offlineWord) (availabilityTopic d) ≠ some onlineWord := by
  intro hup
  rw [Function.update_self] at hup
  exact (role d).distinct (Option.some.inj hup)

theorem Known.stopping (h : Known d main todo r) : Known d .stopping todo r :=
  ⟨h.1, h.2.1, fun hrun => by cases hrun⟩

/-- A message that is written once there is room again does no harm. -/
theorem Known.again {m : Message} (h : Known d main [] r) (hm : main = .running → Cheerful d m) :
    Known d main [] (after r [.publish m.1 m.2]) := by
  have hms : main = .running → ∀ m' ∈ [m], Cheerful d m' := fun hrun m' hm' => List.mem_singleton.mp hm' ▸ hm hrun
  have hagain := known_again h.2.1 h.2.2 hms
  exact ⟨hagain.1.2, hagain.2⟩

/-- What comes first on a link is written at once. -/
theorem publish_said (h : Light g) {m : Message} (hnet : g.net = .greeting i (.first m :: todo)) :
    (g.publish m).2 = .send i (.publish m.1 m.2) := by
  have hfirst : 0 < (Todo.first m :: todo).countP Todo.isFirst :=
    List.countP_pos_iff.mpr ⟨_, List.mem_cons_self, rfl⟩
  rw [publish_of_room (h.inflight_lt (hnet ▸ hfirst)), hnet]
  rfl

theorem Known.stopped (h : Known d main todo r) :
    Known d .stopping todo (after r [.publish (availabilityTopic d) offlineWord]) := by
  have hbelow : Below (role d) r (Function.update r (availabilityTopic d) (some offlineWord)) :=
    ⟨fun hup => absurd hup (update_down_ne d r), isSome_update⟩
  exact ⟨h.1.mono hbelow, (hbelow.after _).note h.2.1, fun hrun => by cases hrun⟩

theorem AgentOk.greeting (h : AgentOk hub g) (hnet : g.net = .greeting i todo) :
    Belongs (clientId g.deviceId) hub.links i ∧
      Answered (role g.deviceId) (Known g.deviceId g.main todo) hub i := by
  have hbelongs := h.belongs i (by rw [hnet]; rfl)
  have hknown := h.known i (by rw [hnet]; rfl)
  rw [hnet] at hknown
  exact ⟨hbelongs, hknown⟩

theorem AgentOk.moved (h : AgentOk hub g) (hmove : Moved hub g act g' out) :
    AgentOk (out.apply g.deviceId hub) g' := by
  have hspeaks := hmove.speaks h.speaks
  have hlight := hmove.light h.light
  have hsilent : ∀ {hub : Hub} {g' : Agent}, g'.net = .idle → Speaks g' → Light g' → AgentOk hub g' := by
    intro hub g' hnet hspeaks hlight
    refine ⟨hspeaks, hlight, fun i hi => ?_, fun i hi => ?_⟩
    · rw [hnet] at hi
      cases hi
    · rw [hnet] at hi
      cases hi
  cases hmove with
  | started discovery hmain => exact hsilent rfl hspeaks hlight
  | dialled hmain hnet =>
    refine ⟨hspeaks, hlight, fun i hi => ?_, fun i hi => by cases hi⟩
    cases hi
    refine ⟨⟨clientId g.deviceId, (availabilityTopic g.deviceId, offlineWord), [.connect], .dialled⟩, ?_, rfl⟩
    change (hub.links ++ [_])[hub.links.length]? = _
    rw [List.getElem?_concat_length]
  | answered i l hnet hl hstage =>
    have hlink : g.net.link? = some i := by rw [hnet]; rfl
    obtain ⟨l', hl', hc⟩ := h.belongs i hlink
    obtain rfl : l = l' := Option.some.inj (hl.symm.trans hl')
    refine ⟨hspeaks, hlight, fun j hj => ?_, fun j hj => ?_⟩
    · cases hj
      exact ⟨l, hl, hc⟩
    · cases hj
      refine ⟨l, hl, hc, fun hd => ?_, fun _ => known_greeting h.speaks _⟩
      rcases hstage with hs | hs
      · rw [hs] at hd
        cases hd
      · rw [hs] at hd
        cases hd
  | greeted i text hnet =>
    obtain ⟨hbelongs, hknown⟩ := h.greeting hnet
    refine ⟨hspeaks, hlight, fun j hj => ?_, fun j hj => ?_⟩
    · cases hj
      exact hbelongs
    · cases hj
      exact hknown
  | said i text m todo hnet =>
    obtain ⟨hbelongs, hknown⟩ := h.greeting hnet
    refine ⟨hspeaks, hlight, fun j hj => ?_, fun j hj => ?_⟩
    · cases hj
      exact belongs_apply hbelongs _ _
    · cases hj
      rw [publish_said h.light hnet]
      exact hknown.send fun r hr => ⟨hr.1.2, hr.2⟩
  | read i text todo hnet =>
    obtain ⟨hbelongs, hknown⟩ := h.greeting hnet
    refine ⟨hspeaks, hlight, fun j hj => ?_, fun j hj => ?_⟩
    · cases hj
      exact belongs_apply hbelongs _ _
    · cases hj
      exact answered_publishState hknown known_ofRole text _
  | repeated i text m todo hnet =>
    obtain ⟨hbelongs, hknown⟩ := h.greeting hnet
    refine ⟨hspeaks, hlight, fun j hj => ?_, fun j hj => ?_⟩
    · cases hj
      exact hbelongs.send i _
    · cases hj
      exact hknown.send fun r hr => ⟨hr.1.2, hr.2⟩
  | ticked text hmain hnet =>
    exact ⟨hspeaks, hlight, fun i hi => belongs_apply (h.belongs i hi) _ _,
      fun i hi => answered_publishState (h.known i hi) known_ofRole text _⟩
  | dropped => exact hsilent rfl hspeaks hlight
  | acked i k box m? hnet hbox =>
    refine ⟨hspeaks, hlight, fun j hj => belongs_apply (h.belongs j hj) _ _, fun j hj => ?_⟩
    cases m? with
    | none => exact h.known j hj
    | some m =>
      have hm : m ∈ g.messages := List.mem_append_left _ ((Outbox.mem_acked hbox).2 m rfl)
      rw [Net.writeNext, apply_write_of_link (link_of_answered hj)]
      refine (h.known j hj).send fun r hr => ?_
      rw [hnet] at hr ⊢
      exact hr.again fun hrun => h.speaks.cheerful hrun m hm
  | stopped hmain =>
    refine ⟨hspeaks, hlight, fun i hi => belongs_apply (h.belongs i hi) _ _, fun i hi => ?_⟩
    rcases publish_cases g (availabilityTopic g.deviceId, offlineWord) with heq | heq
    · rw [heq]
      exact (h.known i hi).mono fun r hr => hr.stopping
    · rw [heq, apply_write_of_link (link_of_answered hi)]
      exact (h.known i hi).send fun r hr => hr.stopped
  | quit hmain => exact hsilent rfl hspeaks hlight
  | killed => exact hsilent rfl hspeaks hlight

theorem Out.Fits.belongs (h : AgentOk hub g) {p : Packet Text Text} (hfits : (Out.send i p).Fits g)
    {l : Link Text Text Text} (hl : hub.links[i]? = some l) : l.client = clientId g.deviceId := by
  obtain ⟨l', hl', hc⟩ := h.belongs i hfits.1
  rwa [Option.some.inj (hl.symm.trans hl')]

theorem owned_apply (h : AgentOk hub g) (hfits : out.Fits g) (hown : Owned (role d) hub.links) :
    Owned (role d) (out.apply g.deviceId hub).links := by
  cases out with
  | none => exact hown
  | dial =>
    refine hown.dial (fun hc => ?_) fun hc ht => ?_
    · rw [clientId_injective hc]
      rfl
    · exact hc (by rw [availabilityTopic_injective ht]; rfl)
  | send i p =>
    refine hown.send fun l hl hc hwrites => ?_
    have hclient := hfits.belongs h hl
    cases p with
    | connect => exact hwrites
    | publish t x =>
      have ht : t = availabilityTopic d := hwrites
      rcases hfits.2 with htopic | htopic | htopic
      · exact configTopic_ne (htopic.symm.trans ht)
      · apply hc
        rw [hclient, availabilityTopic_injective (htopic.symm.trans ht)]
        rfl
      · exact stateTopic_ne (htopic.symm.trans ht)
    | disconnect => exact hwrites

/-! ### Another agent is left alone -/

theorem presence_apply (h : AgentOk hub g) (hfits : out.Fits g) (hown : Owned (role d) hub.links)
    (hpresence : Presence (role d) hub) (hne : d ≠ g.deviceId) : Presence (role d) (out.apply g.deviceId hub) := by
  cases out with
  | none => exact hpresence
  | dial => exact hpresence.dial _ _
  | send i p =>
    refine hpresence.send hown fun l hl hc => ?_
    exact absurd (clientId_injective (hc.symm.trans (hfits.belongs h hl))) hne

theorem answered_apply (h : AgentOk hub g) (hfits : out.Fits g) (hlink : Belongs (clientId d) hub.links i)
    (hanswered : Answered (role d) Q hub i) (hne : d ≠ g.deviceId) :
    Answered (role d) Q (out.apply g.deviceId hub) i := by
  cases out with
  | none => exact hanswered
  | dial => exact hanswered.dial _ _
  | send j p =>
    refine hanswered.send_ne ?_ p
    rintro rfl
    obtain ⟨l, hl, hc⟩ := hlink
    exact hne (clientId_injective (hc.symm.trans (hfits.belongs h hl)))

theorem AgentOk.apply {g₂ : Agent} (h₂ : AgentOk hub g₂) (h : AgentOk hub g) (hfits : out.Fits g)
    (hne : g₂.deviceId ≠ g.deviceId) : AgentOk (out.apply g.deviceId hub) g₂ where
  speaks := h₂.speaks
  light := h₂.light
  belongs j hj := belongs_apply (h₂.belongs j hj) _ _
  known j hj := answered_apply h hfits (h₂.belongs j (link_of_answered hj)) (h₂.known j hj) hne

theorem AgentOk.stepped (h : AgentOk hub g) (hown : Owned (role g.deviceId) hub.links) (hs : Stepped hub hub') :
    AgentOk hub' g where
  speaks := h.speaks
  light := h.light
  belongs i hi := (h.belongs i hi).stepped hs
  known i hi := (h.known i hi).stepped known_ofRole hown hs

/-! ### Before an agent ends -/

/-- An agent that waits to end has no link, or its last word stands on it. -/
def Parting (hub : Hub) (g : Agent) : Prop :=
  g.main = .stopping → g.net = .idle ∨ ∃ i, g.net = .connected i ∧
    Answered (role g.deviceId) (fun r => r (availabilityTopic g.deviceId) ≠ some onlineWord) hub i

theorem parting_ofRole : OfRole (role d) fun r => r (availabilityTopic d) ≠ some onlineWord :=
  fun _ _ halike h hup => h (halike.topic.symm.trans hup)

/-- The network thread neither connects nor greets. -/
def Net.isSettled : Net → Bool
  | .idle => true
  | .connected _ => true
  | _ => false

theorem Net.settled_cases {net : Net} (h : net.isSettled = true) : net = .idle ∨ ∃ i, net = .connected i := by
  cases net with
  | idle => exact .inl rfl
  | dialling i => cases h
  | greeting i todo => cases h
  | connected i => exact .inr ⟨i, rfl⟩

/-- The agent is not stopped while it connects, nor while its link has no room for the farewell,
and does not connect while it stops. -/
def Act.Calm (g : Agent) : Act → Prop
  | .stop => g.net.isSettled = true ∧ (g.net.link?.isSome = true → Outbox.inflight g.outbox < maxInflight)
  | .dial => g.main ≠ .stopping
  | _ => True

instance (g : Agent) (act : Act) : Decidable (act.Calm g) :=
  match act with
  | .stop => inferInstanceAs (Decidable (_ ∧ _))
  | .dial => inferInstanceAs (Decidable (_ ≠ _))
  | .start _ | .connack | .greet _ | .tick _ | .drop | .acked _ | .quit | .kill => .isTrue trivial

/-- Once the greeting is over, no message waits. -/
def Ready (g : Agent) : Prop :=
  ∀ i, g.net.answered? = some i → Outbox.waiting g.outbox = g.net.todo.countP Todo.isAgain

theorem Moved.ready (hlight : Light g) (h : Ready g) (hmove : Moved hub g act g' out) (hcalm : act.Calm g) :
    Ready g' := by
  have hgreeting : ∀ {i : Nat} {todo : List Todo}, g.net = .greeting i todo →
      Outbox.waiting g.outbox = todo.countP Todo.isAgain := by
    intro i todo hnet
    have hready := h i (by rw [hnet]; rfl)
    rwa [hnet] at hready
  cases hmove with
  | started discovery hmain => exact fun i hi => by cases hi
  | dialled hmain hnet => exact fun i hi => by cases hi
  | answered i l hnet hl hstage =>
    intro j _
    have hall : g.repeats.countP Todo.isAgain = g.repeats.length :=
      List.countP_eq_length.mpr fun x hx => (isAgain_of_mem_repeats hx).1
    have hgreeting : g.greeting.countP Todo.isAgain = Outbox.waiting g.outbox := by
      rw [Agent.greeting, List.countP_cons_of_neg Bool.false_ne_true, List.countP_cons_of_neg Bool.false_ne_true,
        List.countP_cons_of_neg Bool.false_ne_true, hall, Agent.repeats, List.length_map, Outbox.waiting,
        List.countP_eq_length_filter]
    exact hgreeting.symm
  | greeted i text hnet => exact fun j _ => hgreeting hnet
  | said i text m todo hnet =>
    intro j _
    have hroom := hlight.inflight_lt (by rw [hnet]; exact List.countP_pos_iff.mpr ⟨_, List.mem_cons_self, rfl⟩)
    have hsent : Outbox.waiting (g.publish m).1.outbox = Outbox.waiting g.outbox :=
      Outbox.waiting_publish (by rw [hnet]; rfl) hroom
    rw [hsent, hgreeting hnet, List.countP_cons_of_neg Bool.false_ne_true]
    rfl
  | read i text todo hnet =>
    intro j _
    rw [hgreeting hnet, List.countP_cons_of_neg Bool.false_ne_true]
    rfl
  | repeated i text m todo hnet =>
    intro j _
    rw [Outbox.waiting_sendNext, hgreeting hnet, List.countP_cons_of_pos rfl]
    rfl
  | ticked text hmain hnet => exact h
  | dropped => exact fun i hi => by cases hi
  | acked i k box m? hnet hbox =>
    intro j _
    have hnone := h i (by rw [hnet]; rfl)
    rw [hnet] at hnone ⊢
    exact (Outbox.acked_of_waiting hbox hnone).1
  | stopped hmain =>
    intro i hi
    have hlink : g.net.link?.isSome = true := by rw [link_of_answered hi]; rfl
    have hsent : Outbox.waiting (g.publish (availabilityTopic g.deviceId, offlineWord)).1.outbox =
        Outbox.waiting g.outbox := Outbox.waiting_publish hlink (hcalm.2 hlink)
    exact hsent.trans (h i hi)
  | quit hmain => exact fun i hi => by cases hi
  | killed => exact fun i hi => by cases hi

/-- An acknowledgement makes room for nothing. -/
theorem Ready.acked {i k : Nat} {box : List Kept} {m? : Option Message} (h : Ready g) (hnet : g.net = .connected i)
    (hbox : Outbox.acked maxInflight g.outbox k = some (box, m?)) : g.net.writeNext m? = .none := by
  have hnone := h i (by rw [hnet]; rfl)
  rw [hnet] at hnone
  rw [(Outbox.acked_of_waiting hbox hnone).2]
  rfl

theorem Parting.stepped (h : Parting hub g) (hown : Owned (role g.deviceId) hub.links) (hs : Stepped hub hub') :
    Parting hub' g := by
  intro hmain
  rcases h hmain with hidle | ⟨i, hnet, hword⟩
  · exact .inl hidle
  · exact .inr ⟨i, hnet, hword.stepped parting_ofRole hown hs⟩

theorem Parting.apply {g₂ : Agent} (hp : Parting hub g₂) (h₂ : AgentOk hub g₂) (h : AgentOk hub g)
    (hfits : out.Fits g) (hne : g₂.deviceId ≠ g.deviceId) : Parting (out.apply g.deviceId hub) g₂ := by
  intro hmain
  rcases hp hmain with hidle | ⟨i, hnet, hword⟩
  · exact .inl hidle
  · have hlink := h₂.belongs i (by rw [hnet]; rfl)
    exact .inr ⟨i, hnet, answered_apply h hfits hlink hword hne⟩

theorem Moved.parting (h : AgentOk hub g) (hready : Ready g) (hp : Parting hub g) (hmove : Moved hub g act g' out)
    (hcalm : act.Calm g) : Parting (out.apply g.deviceId hub) g' := by
  intro hmain
  -- a stopping agent neither connects nor greets
  have hbusy : ∀ {net : Net}, g.net = net → g.main = .stopping → net ≠ .idle →
      (∀ i, net ≠ .connected i) → False := by
    intro net hnet hstop hidle hconnected
    rcases hp hstop with hi | ⟨i, hi, -⟩
    · exact hidle (hnet.symm.trans hi)
    · exact hconnected i (hnet.symm.trans hi)
  cases hmove with
  | started discovery hoff => cases hmain
  | dialled hoff hnet => exact absurd hmain hcalm
  | answered i l hnet hl hstage => exact (hbusy hnet hmain (by simp) (by simp)).elim
  | greeted i text hnet => exact (hbusy hnet hmain (by simp) (by simp)).elim
  | said i text m todo hnet => exact (hbusy hnet hmain (by simp) (by simp)).elim
  | read i text todo hnet => exact (hbusy hnet hmain (by simp) (by simp)).elim
  | repeated i text m todo hnet => exact (hbusy hnet hmain (by simp) (by simp)).elim
  | ticked text hrun hnet =>
    rw [hrun] at hmain
    cases hmain
  | dropped => exact .inl rfl
  | acked i k box m? hnet hbox =>
    rw [hready.acked hnet hbox]
    exact hp hmain
  | stopped hrun =>
    rcases Net.settled_cases hcalm.1 with hidle | ⟨i, hnet⟩
    · exact .inl hidle
    · have hlink : g.net.answered? = some i := by rw [hnet]; rfl
      refine .inr ⟨i, hnet, ?_⟩
      rw [publish_of_room (hcalm.2 (by rw [hnet]; rfl)), apply_write_of_link (link_of_answered hlink)]
      exact (h.known i hlink).send fun r _ => update_down_ne g.deviceId r
  | quit hstop => cases hmain
  | killed => cases hmain

/-- What is said on an answered link keeps the agent's presence sound. -/
theorem sound_of_known {p : Packet Text Text} {l : Link Text Text Text}
    (hQ : ∀ r, Q r → Sound (role d) r [p]) (h : Answered (role d) Q hub i) (hl : hub.links[i]? = some l)
    (hopen : l.isOpen = true) : Sound (role d) (after (hub.store l) l.wire) [p] := by
  obtain ⟨l', hl', hc, hstage, hread⟩ := h
  obtain rfl : l = l' := Option.some.inj (hl.symm.trans hl')
  have hlive : l.stage = .live := by
    rw [Link.isOpen, Bool.or_eq_true, decide_eq_true_eq, decide_eq_true_eq] at hopen
    exact hopen.resolve_left hstage
  rw [State.store, if_pos hlive]
  exact hQ _ (hread hlive)

theorem presence_publishState (hown : Owned (role d) hub.links) (hpresence : Presence (role d) hub)
    (text : Option Text) (d' : Text) : Presence (role d) ((g.publishState text).apply d' hub) := by
  cases text with
  | none => exact hpresence
  | some text =>
    rw [Agent.publishState]
    rcases apply_write d' hub g.net (.publish (stateTopic g.deviceId) text) with heq | ⟨i, -, heq⟩
    · rwa [heq]
    · rw [heq]
      exact hpresence.send hown fun l hl hc _ => ⟨fun ht => absurd ht stateTopic_ne, trivial⟩

theorem Moved.presence (h : AgentOk hub g) (hown : Owned (role g.deviceId) hub.links)
    (hpresence : Presence (role g.deviceId) hub) (hready : Ready g) (hp : Parting hub g)
    (hmove : Moved hub g act g' out) : Presence (role g.deviceId) (out.apply g.deviceId hub) := by
  have hsaid : ∀ {x : Todo} {todo : List Todo} {m : Message} {i : Nat}, g.net = .greeting i (x :: todo) →
      x.message? = some m → Presence (role g.deviceId) (hub.send i (.publish m.1 m.2)) := by
    intro x todo m i hnet hm
    refine hpresence.send hown fun l hl hc hopen => sound_of_known (fun r hr => ?_) (h.greeting hnet).2 hl hopen
    have hsound := hr.1
    rw [List.filterMap_cons, Todo.packet?, hm] at hsound
    exact ⟨hsound.1, trivial⟩
  cases hmove with
  | started discovery hmain => exact hpresence
  | dialled hmain hnet => exact hpresence.dial _ _
  | answered i l hnet hl hstage => exact hpresence
  | greeted i text hnet => exact hpresence
  | said i text m todo hnet =>
    rw [publish_said h.light hnet]
    exact hsaid hnet rfl
  | read i text todo hnet => exact presence_publishState hown hpresence text _
  | repeated i text m todo hnet => exact hsaid hnet rfl
  | ticked text hmain hnet => exact presence_publishState hown hpresence text _
  | dropped => exact hpresence
  | acked i k box m? hnet hbox =>
    rw [hready.acked hnet hbox]
    exact hpresence
  | stopped hmain =>
    rcases publish_cases g (availabilityTopic g.deviceId, offlineWord) with hout | hout
    · rwa [hout]
    rw [hout]
    rcases apply_write g.deviceId hub g.net (.publish (availabilityTopic g.deviceId) offlineWord) with
      heq | ⟨i, -, heq⟩
    · rwa [heq]
    · rw [heq]
      refine hpresence.send hown fun l hl hc _ => ⟨fun _ hup => ?_, trivial⟩
      exact absurd hup (role g.deviceId).distinct
  | quit hstop =>
    rcases hp hstop with hidle | ⟨i, hnet, hword⟩
    · rw [hidle]
      exact hpresence
    · rw [hnet]
      refine hpresence.send hown fun l hl hc hopen => sound_of_known (fun r hr => hr) hword hl hopen
  | killed => exact hpresence

/-! ## All agents -/

variable {broker : Hub → Broker.Event → Option Hub} {s s' : System} {e : Event} {es : List Event}

/-- Devices have names of their own, and no agent steps out of its part. -/
structure Orderly (s : System) : Prop where
  apart : ∀ (a b : Nat) (g h : Agent), s.agents[a]? = some g → s.agents[b]? = some h →
    g.deviceId = h.deviceId → a = b
  owned : ∀ (a : Nat) (g : Agent), s.agents[a]? = some g → Owned (role g.deviceId) s.hub.links
  agents : ∀ (a : Nat) (g : Agent), s.agents[a]? = some g → AgentOk s.hub g

/-- Besides, whoever is shown as up is connected. -/
structure Truthful (s : System) : Prop where
  presence : ∀ (a : Nat) (g : Agent), s.agents[a]? = some g → Presence (role g.deviceId) s.hub
  ready : ∀ (a : Nat) (g : Agent), s.agents[a]? = some g → Ready g
  parting : ∀ (a : Nat) (g : Agent), s.agents[a]? = some g → Parting s.hub g

def Calm (e : Event) (s : System) : Prop :=
  match e with
  | .agent a act => ∀ g ∈ s.agents[a]?, act.Calm g
  | .hub _ => True

instance (e : Event) (s : System) : Decidable (Calm e s) :=
  match e with
  | .agent _ _ => inferInstanceAs (Decidable (∀ _ ∈ _, _))
  | .hub _ => .isTrue trivial

/-- A step is one of the broker, or one of an agent that leaves the others alone. -/
theorem step_cases (hbroker : Obeys broker) (h : step broker e s = some s') :
    (∃ hub', Stepped s.hub hub' ∧ s' = ⟨hub', s.agents⟩) ∨
      ∃ a g act g' out, e = .agent a act ∧ s.agents[a]? = some g ∧ Moved s.hub g act g' out ∧
        s' = ⟨out.apply g.deviceId s.hub, s.agents.set a g'⟩ := by
  cases e with
  | hub e =>
    obtain ⟨hub', hstep, rfl⟩ := Option.map_eq_some_iff.mp h
    exact .inl ⟨hub', hbroker _ _ _ hstep, rfl⟩
  | agent a act =>
    rw [step] at h
    split at h
    · cases h
    · next g hg =>
      obtain ⟨⟨g', out⟩, hmove, rfl⟩ := Option.map_eq_some_iff.mp h
      exact .inr ⟨a, g, act, g', out, rfl, hg, moved_of_move hmove, rfl⟩

theorem Orderly.step (hbroker : Obeys broker) (h : Orderly s) (hstep : step broker e s = some s') : Orderly s' := by
  rcases step_cases hbroker hstep with ⟨hub', hs, rfl⟩ | ⟨a, g, act, g', out, rfl, hg, hmove, rfl⟩
  · exact ⟨h.apart, fun b k hk => (h.owned b k hk).stepped hs,
      fun b k hk => (h.agents b k hk).stepped (h.owned b k hk) hs⟩
  · have hok := h.agents a g hg
    obtain ⟨hid, hfits⟩ := hmove.fits hok.speaks
    -- every agent of the new list has the name of the one that was in its place
    have hold : ∀ (b : Nat) (k : Agent), (s.agents.set a g')[b]? = some k →
        ∃ k', s.agents[b]? = some k' ∧ k.deviceId = k'.deviceId := by
      intro b k hk
      rcases getElem?_set_cases hk with ⟨rfl, rfl⟩ | ⟨-, hk⟩
      · exact ⟨g, hg, hid⟩
      · exact ⟨k, hk, rfl⟩
    refine ⟨fun b c k m hk hm heq => ?_, fun b k hk => ?_, fun b k hk => ?_⟩
    · obtain ⟨k', hk', hkid⟩ := hold b k hk
      obtain ⟨m', hm', hmid⟩ := hold c m hm
      exact h.apart b c k' m' hk' hm' (hkid.symm.trans (heq.trans hmid))
    · obtain ⟨k', hk', hkid⟩ := hold b k hk
      rw [hkid]
      exact owned_apply hok hfits (h.owned b k' hk')
    · rcases getElem?_set_cases hk with ⟨rfl, rfl⟩ | ⟨hb, hk⟩
      · exact hok.moved hmove
      · exact (h.agents b k hk).apply hok hfits fun heq => hb (h.apart b a k g hk hg heq)

theorem Truthful.step (hbroker : Obeys broker) (h : Truthful s) (hs : Orderly s) (hcalm : Calm e s)
    (hstep : Telemetry.step broker e s = some s') : Truthful s' := by
  rcases step_cases hbroker hstep with ⟨hub', hstepped, rfl⟩ | ⟨a, g, act, g', out, rfl, hg, hmove, rfl⟩
  · exact ⟨fun b k hk => (h.presence b k hk).stepped (hs.owned b k hk) hstepped, h.ready,
      fun b k hk => (h.parting b k hk).stepped (hs.owned b k hk) hstepped⟩
  · have hok := hs.agents a g hg
    obtain ⟨hid, hfits⟩ := hmove.fits hok.speaks
    refine ⟨fun b k hk => ?_, fun b k hk => ?_, fun b k hk => ?_⟩
    · rcases getElem?_set_cases hk with ⟨rfl, rfl⟩ | ⟨hb, hk⟩
      · rw [hid]
        exact hmove.presence hok (hs.owned b g hg) (h.presence b g hg) (h.ready b g hg) (h.parting b g hg)
      · exact presence_apply hok hfits (hs.owned b k hk) (h.presence b k hk)
          fun heq => hb (hs.apart b a k g hk hg heq)
    · rcases getElem?_set_cases hk with ⟨rfl, rfl⟩ | ⟨hb, hk⟩
      · exact hmove.ready hok.light (h.ready b g hg) (hcalm g hg)
      · exact h.ready b k hk
    · rcases getElem?_set_cases hk with ⟨rfl, rfl⟩ | ⟨hb, hk⟩
      · exact hmove.parting hok (h.ready b g hg) (h.parting b g hg) (hcalm g hg)
      · exact (h.parting b k hk).apply (hs.agents b k hk) hok hfits fun heq => hb (hs.apart b a k g hk hg heq)

/-- A broker that nobody has connected to, and agents that do not run. -/
structure Fresh (s : System) : Prop where
  links : s.hub.links = []
  retained : ∀ t, s.hub.retained t = none
  ids : (s.agents.map Agent.deviceId).Nodup
  agents : ∀ g ∈ s.agents, g.main = .off ∧ g.net = .idle ∧ g.outbox = []

theorem Fresh.orderly (h : Fresh s) : Orderly s := by
  have hnone : ∀ (i : Nat), s.hub.links[i]? = none := fun i => by rw [h.links]; rfl
  refine ⟨fun a b g k hg hk heq => ?_, fun a g hg => ?_, fun a g hg => ?_⟩
  · have hg' : (s.agents.map Agent.deviceId)[a]? = some g.deviceId := by rw [List.getElem?_map, hg]; rfl
    have hk' : (s.agents.map Agent.deviceId)[b]? = some g.deviceId := by rw [List.getElem?_map, hk, heq]; rfl
    have hlt := (List.getElem?_eq_some_iff.mp hg').1
    exact (List.getElem?_inj hlt h.ids).mp (hg'.trans hk'.symm)
  · rw [h.links]
    constructor
    · intro i j l m hl
      simp at hl
    · intro i l hl
      simp at hl
    · intro i l hl
      simp at hl
  · obtain ⟨hmain, hnet, houtbox⟩ := h.agents g (List.mem_of_getElem? hg)
    have hsilent : ∀ m, m ∉ g.messages := by
      intro m hm
      rw [mem_messages, houtbox, hnet] at hm
      simp [Net.todo] at hm
    refine ⟨⟨fun m hm => absurd hm (hsilent m), fun _ m hm => absurd hm (hsilent m)⟩,
      light_of_quiet (by rw [hnet]; rfl) (by rw [hnet]; rfl), fun i hi => ?_, fun i hi => ?_⟩
    · rw [hnet] at hi
      cases hi
    · rw [hnet] at hi
      cases hi

theorem Fresh.truthful (h : Fresh s) : Truthful s := by
  refine ⟨fun a g hg => ⟨fun hup => ?_, fun i l hl => ?_⟩, fun a g hg i hi => ?_, fun a g hg hmain => ?_⟩
  · rw [h.retained] at hup
    cases hup
  · rw [h.links] at hl
    simp at hl
  · rw [(h.agents g (List.mem_of_getElem? hg)).2.1] at hi
    cases hi
  · rw [(h.agents g (List.mem_of_getElem? hg)).1] at hmain
    cases hmain

/-- Where no agent is stopped while it connects or its link has no room, a device is shown as up
only while the broker holds a connection of its agent, and the device is described there. -/
theorem online_is_connected (hbroker : Obeys broker) (hfresh : Fresh s)
    (hrun : steps (step broker) es s = some s') (hcalm : Along (step broker) Calm es s) :
    ∀ g ∈ s'.agents, s'.hub.retained (availabilityTopic g.deviceId) = some onlineWord →
      (s'.hub.retained (configTopic g.deviceId)).isSome = true ∧ HasLive (clientId g.deviceId) s'.hub.links := by
  have hinv : Orderly s' ∧ Truthful s' := by
    refine Along.invariant (I := fun s => Orderly s ∧ Truthful s) (fun e s t he hstep h => ?_) hcalm hrun
      ⟨hfresh.orderly, hfresh.truthful⟩
    exact ⟨h.1.step hbroker hstep, h.2.step hbroker h.1 he hstep⟩
  intro g hg hup
  obtain ⟨a, ha⟩ := List.mem_iff_getElem?.mp hg
  exact (hinv.2.presence a g ha).shown hup

def sampleAgent (deviceId : Text) : Agent where
  deviceId := deviceId
  discovery := []
  main := .off
  net := .idle
  outbox := []

def sampleDevices : System := ⟨⟨fun _ => none, []⟩, [sampleAgent "pi-a".toList, sampleAgent "pi-b".toList]⟩

theorem sampleDevices_fresh : Fresh sampleDevices where
  links := rfl
  retained := fun _ => rfl
  ids := by decide +kernel
  agents := by
    intro g hg
    obtain rfl | rfl : g = sampleAgent "pi-a".toList ∨ g = sampleAgent "pi-b".toList := by
      simpa [sampleDevices] using hg
    · exact ⟨rfl, rfl, rfl⟩
    · exact ⟨rfl, rfl, rfl⟩

/-- An agent connects on link `i` and says what comes first there. -/
def connecting (a i : Nat) : List Event :=
  [.agent a .dial, .hub (.receive i), .agent a .connack, .agent a (.greet none), .agent a (.greet none)]

/-- It goes on with the first reading and `n` repeats, and the broker reads it all. -/
def greeted (a i n : Nat) : List Event :=
  .agent a (.greet (some "{}".toList)) :: (List.replicate (n + 1) (.agent a (.greet none)) ++
    List.replicate (n + 3) (.hub (.receive i)))

def joining (a i : Nat) : List Event := .agent a (.start "{}".toList) :: (connecting a i ++ greeted a i 0)

/-- Both devices join; the first loses its link, and repeats what was not acknowledged; the
second is stopped, and its farewell is read. -/
def sampleDay : List Event :=
  joining 0 0 ++ joining 1 1 ++
    [.agent 0 (.acked 0), .agent 1 (.acked 1), .hub (.lose 0), .agent 0 .drop] ++ connecting 0 2 ++ greeted 0 2 1 ++
    [.agent 1 .stop, .agent 0 (.tick (some "{}".toList)), .agent 1 .quit, .hub (.receive 1), .hub (.receive 1)]

theorem sample_online_is_connected :
    ((steps (step State.step) sampleDay sampleDevices).map fun s =>
      [s.hub.retained (availabilityTopic "pi-a".toList), s.hub.retained (availabilityTopic "pi-b".toList)]) =
        some [some onlineWord, some offlineWord] ∧
    ∀ s', steps (step State.step) sampleDay sampleDevices = some s' →
      ∀ g ∈ s'.agents, s'.hub.retained (availabilityTopic g.deviceId) = some onlineWord →
        (s'.hub.retained (configTopic g.deviceId)).isSome = true ∧ HasLive (clientId g.deviceId) s'.hub.links :=
  ⟨by decide +kernel, fun _ hrun => online_is_connected obeys_step sampleDevices_fresh hrun (by decide +kernel)⟩

/-- Stopped in the middle of its greeting, the agent says last that it is up. -/
example : ((steps (step State.step) [.agent 0 (.start "{}".toList), .agent 0 .dial, .hub (.receive 0),
      .agent 0 .connack, .agent 0 (.greet none), .agent 0 .stop, .agent 0 (.greet none), .agent 0 (.greet none),
      .agent 0 (.greet none), .agent 0 .quit, .hub (.receive 0), .hub (.receive 0), .hub (.receive 0),
      .hub (.receive 0)] sampleDevices).map fun s =>
    (s.hub.retained (availabilityTopic "pi-a".toList), s.hub.links.map Link.stage)) =
      some (some onlineWord, [.over]) := by
  decide +kernel

/-- After nine links that broke without an acknowledgement the tenth has no room for the farewell. -/
example : ((steps (step State.step) (.agent 0 (.start "{}".toList) ::
      ((List.range 9).flatMap (fun i => connecting 0 i ++ [.hub (.lose i), .agent 0 .drop]) ++ connecting 0 9 ++
        greeted 0 9 18 ++ [.agent 0 .stop, .agent 0 .quit, .hub (.receive 9)])) sampleDevices).map fun s =>
    (s.hub.retained (availabilityTopic "pi-a".toList), (s.hub.links.map Link.stage).getLast?)) =
      some (some onlineWord, some .over) := by
  decide +kernel

/-- In every run, once nothing is on its way from an agent that runs and has been greeted, the
broker shows its device as up and describes it. -/
theorem connected_is_online (hbroker : Obeys broker) (hfresh : Fresh s)
    (hrun : steps (step broker) es s = some s') :
    ∀ g ∈ s'.agents, ∀ (i : Nat) (l : Link Text Text Text), g.main = .running → g.net = .connected i →
      s'.hub.links[i]? = some l → l.stage = .live → l.wire = [] →
      s'.hub.retained (availabilityTopic g.deviceId) = some onlineWord ∧
        (s'.hub.retained (configTopic g.deviceId)).isSome = true := by
  have hinv : Orderly s' :=
    Along.invariant (P := fun _ _ => True) (fun e s t _ hstep h => h.step hbroker hstep)
      (.of_forall fun _ _ _ => trivial) hrun hfresh.orderly
  intro g hg i l hmain hnet hl hlive hwire
  obtain ⟨a, ha⟩ := List.mem_iff_getElem?.mp hg
  obtain ⟨l', hl', -, -, hread⟩ := (hinv.agents a g ha).known i (by rw [hnet]; rfl)
  obtain rfl : l = l' := Option.some.inj (hl.symm.trans hl')
  obtain ⟨-, hnote, hup⟩ := hread hlive
  rw [hnet, hwire] at hnote hup
  exact ⟨hup hmain, hnote⟩

/-- The broker loses its data and the device joins again. -/
def sampleReturn : List Event :=
  joining 0 0 ++ [.hub .reinstall, .agent 0 .drop] ++ connecting 0 1 ++ greeted 0 1 2

theorem sample_connected_is_online :
    ((steps (step State.step) sampleReturn sampleDevices).map fun s => s.hub.links.map Link.stage) =
      some [.over, .live] ∧
    ∀ s', steps (step State.step) sampleReturn sampleDevices = some s' →
      ∀ g ∈ s'.agents, ∀ (i : Nat) (l : Link Text Text Text), g.main = .running → g.net = .connected i →
        s'.hub.links[i]? = some l → l.stage = .live → l.wire = [] →
        s'.hub.retained (availabilityTopic g.deviceId) = some onlineWord ∧
          (s'.hub.retained (configTopic g.deviceId)).isSome = true :=
  ⟨by decide +kernel, fun _ hrun => connected_is_online obeys_step sampleDevices_fresh hrun⟩

end Telemetry
