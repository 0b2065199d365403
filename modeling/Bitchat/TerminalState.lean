import Bitchat.Channel
import Bitchat.Rust.Call
import Bitchat.Rust.Map
import Bitchat.Rust.Recency

/-!
# The state of the terminal

`UIState` of the command line client: what an event of the core does to it, and the
tidying up that follows every ten seconds. Events that no handler of the core
returns (`ConversationUpdated`, `SystemBusy`) do not occur.
-/
namespace Bitchat
open Rust

inductive MessageDirection where
  | incoming
  | outgoing
  deriving DecidableEq

structure UIMessage where
  sender : PeerId
  recipient : Option PeerId
  content : Text
  timestamp : UInt64
  direction : MessageDirection
  deriving DecidableEq

structure PeerUIState where
  peerId : PeerId
  status : ConnectionStatus
  transport : Option ChannelTransportType
  lastSeen : Option UInt64
  messageCount : UInt32
  deriving DecidableEq

inductive SystemStatus where
  | starting
  | ready
  | busy (reason : Text)
  | error (error : String)
  | shuttingDown
  deriving DecidableEq

structure UIState where
  discoveryActive : Bool
  peers : Map PeerId PeerUIState
  recentMessages : List UIMessage
  systemStatus : SystemStatus
  busyOperations : List Text

/-- The message that the terminal lists of an event. -/
def AppEvent.listed (ourPeerId : PeerId) : AppEvent → Option UIMessage
  | .messageReceived sender content timestamp =>
    some ⟨sender, some ourPeerId, content, timestamp, .incoming⟩
  | .messageSent recipient content timestamp =>
    some ⟨ourPeerId, some recipient, content, timestamp, .outgoing⟩
  | _ => none

/-- The peer whose messages an event adds to. -/
def AppEvent.counted : AppEvent → Option PeerId
  | .messageReceived sender _ _ => some sender
  | .messageSent recipient _ _ => some recipient
  | _ => none

/-- The error that an event reports. -/
def AppEvent.trouble : AppEvent → Option String
  | .systemError error => some error
  | _ => none

/-- How a peer was last seen: in a message with that date, or in a report at that time. -/
inductive Stamp where
  | dated (timestamp : UInt64)
  | met (now : UInt64)
  deriving DecidableEq

def Stamp.value : Stamp → UInt64
  | .dated timestamp => timestamp
  | .met now => now

/-- What an event says about when a peer was seen. -/
def AppEvent.stampFor (p : PeerId) (now : UInt64) : AppEvent → Option Stamp
  | .messageReceived sender _ timestamp => if p = sender then some (.dated timestamp) else none
  | .peerStatusChanged q _ _ => if p = q then some (.met now) else none
  | _ => none

namespace UIState

def default : UIState := ⟨false, ∅, [], .starting, []⟩

def discoveryOperation : Text := "Discovery active".toList

def overloaded : Text := "Core Logic overloaded".toList

/-- `op.contains("Discovery")`. -/
def isDiscovery (op : Text) : Bool := decide ("Discovery".toList <:+: op)

def push (ui : UIState) (message : UIMessage) : UIState :=
  { ui with recentMessages := ui.recentMessages ++ [message] }

/-- `message_count += 1` on the peer if it is listed, and then what else is noted of it. The
addition panics when it overflows. -/
def countMessage (ui : UIState) (p : PeerId) (note : PeerUIState → PeerUIState) :
    Call Empty UIState Unit :=
  match ui.peers.lookup p with
  | some peer =>
    if peer.messageCount.toNat + 1 < 2 ^ 32 then
      let counted := { peer with messageCount := peer.messageCount + 1 }
      ({ ui with peers := ui.peers.insert p (note counted) }, .ok ())
    else (ui, panicked)
  | none => (ui, .ok ())

/-- Trim to the last 100 messages, of which one was pushed. -/
def trim (ui : UIState) : UIState :=
  { ui with
    recentMessages :=
      if 100 < ui.recentMessages.length then ui.recentMessages.tail else ui.recentMessages }

/-- A message with the peer `p`. -/
def listMessage (ui : UIState) (message : UIMessage) (p : PeerId)
    (note : PeerUIState → PeerUIState) : Call Empty UIState Unit :=
  ((ui.push message).countMessage p note).andThen fun ui _ => (ui.trim, .ok ())

/-- `process_app_event` with the lock held. Reports are only logged. -/
def processAppEvent (ui : UIState) (ourPeerId : PeerId) (now : UInt64) :
    AppEvent → Call Empty UIState Unit
  | .messageReceived sender content timestamp =>
    ui.listMessage ⟨sender, some ourPeerId, content, timestamp, .incoming⟩ sender
      fun peer => { peer with lastSeen := some timestamp }
  | .messageSent recipient content timestamp =>
    ui.listMessage ⟨ourPeerId, some recipient, content, timestamp, .outgoing⟩ recipient id
  | .peerStatusChanged p status transport =>
    let peer := (ui.peers.lookup p).getD ⟨p, .disconnected, none, none, 0⟩
    ({ ui with
        peers := ui.peers.insert p
          { peer with status := status, transport := transport, lastSeen := some now } }, .ok ())
  | .discoveryStateChanged active _ =>
    ({ ui with
        discoveryActive := active
        busyOperations :=
          if active then ui.busyOperations ++ [discoveryOperation]
          else ui.busyOperations.filter fun op => !isDiscovery op }, .ok ())
  | .systemError error => ({ ui with systemStatus := .error error }, .ok ())
  | _ => (ui, .ok ())

/-- The event adds a message to the count of a listed peer that has no room for it. -/
def Full (ui : UIState) (a : AppEvent) : Prop :=
  ∃ p ∈ a.counted, ∃ peer ∈ ui.peers.lookup p, peer.messageCount.toNat + 1 = 2 ^ 32

/-- What `send_command` notes when the channel is full. -/
def noteOverload (ui : UIState) : UIState :=
  { ui with
    systemStatus := .busy overloaded
    busyOperations :=
      if overloaded ∈ ui.busyOperations then ui.busyOperations
      else ui.busyOperations ++ [overloaded] }

/-- `current_time - last_seen` overflows for one of the peers. -/
def FromFuture (ui : UIState) (now : UInt64) : Prop :=
  ∃ peer ∈ Map.values ui.peers, ∃ seen ∈ peer.lastSeen, now < seen

instance (ui : UIState) (now : UInt64) : Decidable (ui.FromFuture now) :=
  Multiset.decidableExistsMultiset

def timeoutThreshold : UInt64 := 300000

/-- The peer is taken off the list. -/
def isStale (now : UInt64) (peer : PeerUIState) : Bool :=
  match peer.lastSeen with
  | some seen => decide (timeoutThreshold < now - seen) && decide (peer.status = .disconnected)
  | none => false

/-- What `perform_ui_maintenance` makes of the state. -/
def tidied (ui : UIState) (now : UInt64) : UIState :=
  let busyOperations := ui.busyOperations.filter fun op => !isDiscovery op || ui.discoveryActive
  { ui with
    busyOperations := busyOperations
    systemStatus :=
      match ui.systemStatus with
      | .busy reason => if busyOperations = [] then .ready else .busy reason
      | status => status
    peers := Map.retain (fun _ peer => !isStale now peer) ui.peers }

/-- `perform_ui_maintenance` with the lock held. Whatever the order of the peers, it panics if
one of them is from the future. -/
def performUiMaintenance (ui : UIState) (now : UInt64) : Outcome Empty UIState :=
  if ui.FromFuture now then panicked else .ok (ui.tidied now)

section

variable {ui : UIState} {ourPeerId p : PeerId} {now : UInt64}

/-- What is listed of a peer after an event, given what was listed before. -/
structure Touched (a : AppEvent) (p : PeerId) (now : UInt64) (old : Option PeerUIState)
    (peer : PeerUIState) : Prop where
  seen : peer.lastSeen = (a.stampFor p now).elim (old.bind PeerUIState.lastSeen) (some ·.value)
  count : peer.messageCount.toNat =
    old.elim 0 (·.messageCount.toNat) + if a.counted = some p then 1 else 0
  known : old = none → a.counted ≠ some p ∧ (a.stampFor p now).isSome

theorem touched_unchanged {a : AppEvent} (unstamped : a.stampFor p now = none)
    (uncounted : a.counted ≠ some p) (peer : PeerUIState) : Touched a p now (some peer) peer where
  seen := by rw [unstamped]; rfl
  count := by simp [uncounted]
  known := by simp

/-- What an event does when it is taken to its end. -/
structure Noted (ui : UIState) (ourPeerId : PeerId) (now : UInt64) (a : AppEvent)
    (ui' : UIState) : Prop where
  recent : ui'.recentMessages =
    (a.listed ourPeerId).elim ui.recentMessages (pushCapped 100 ui.recentMessages)
  status : ui'.systemStatus = a.trouble.elim ui.systemStatus .error
  listed : ∀ p ∈ ui.peers, p ∈ ui'.peers
  peers : ∀ p peer, ui'.peers.lookup p = some peer → Touched a p now (ui.peers.lookup p) peer

theorem countMessage_cases (ui : UIState) (p : PeerId) (note : PeerUIState → PeerUIState) :
    (∃ peer, ui.peers.lookup p = some peer ∧ peer.messageCount.toNat + 1 = 2 ^ 32 ∧
        ui.countMessage p note = (ui, panicked)) ∨
      (∀ peer, ui.peers.lookup p = some peer → peer.messageCount.toNat + 1 < 2 ^ 32) ∧
        ∃ peers, ui.countMessage p note = ({ ui with peers := peers }, .ok ()) ∧
          ∀ q, peers.lookup q =
            if q = p then
              (ui.peers.lookup p).map fun peer =>
                note { peer with messageCount := peer.messageCount + 1 }
            else ui.peers.lookup q := by
  unfold countMessage
  cases h : ui.peers.lookup p with
  | none =>
    refine .inr ⟨by simp, ui.peers, rfl, fun q => ?_⟩
    split_ifs with hq
    · rw [hq, h, Option.map_none]
    · rfl
  | some peer =>
    by_cases room : peer.messageCount.toNat + 1 < 2 ^ 32
    · refine .inr ⟨by simpa using room, _, if_pos room, fun q => ?_⟩
      rw [Map.lookup_insert_if, Option.map_some]
    · have bound := peer.messageCount.toNat_lt
      exact .inl ⟨peer, rfl, by omega, if_neg room⟩

/-- What `processAppEvent` makes of an event. -/
def Ends (ui : UIState) (ourPeerId : PeerId) (now : UInt64) (a : AppEvent)
    (call : Call Empty UIState Unit) : Prop :=
  (ui.Full a ∧ ∃ message, a.listed ourPeerId = some message ∧
      call = (ui.push message, panicked)) ∨
    ¬ ui.Full a ∧ ∃ ui', call = (ui', .ok ()) ∧ Noted ui ourPeerId now a ui'

theorem ends_listMessage {a : AppEvent} {q : PeerId} {message : UIMessage}
    {note : PeerUIState → PeerUIState} (listed : a.listed ourPeerId = some message)
    (counted : a.counted = some q) (untroubled : a.trouble = none)
    (unstamped : ∀ p, p ≠ q → a.stampFor p now = none)
    (noteSeen : ∀ peer, (note peer).lastSeen =
      (a.stampFor q now).elim peer.lastSeen (some ·.value))
    (noteCount : ∀ peer, (note peer).messageCount = peer.messageCount) :
    Ends ui ourPeerId now a (ui.listMessage message q note) := by
  rcases countMessage_cases (ui.push message) q note with
    ⟨peer, hpeer, full, panics⟩ | ⟨room, peers, counts, after⟩
  · refine .inl ⟨⟨q, counted, peer, hpeer, full⟩, message, listed, ?_⟩
    rw [listMessage, panics]
    rfl
  refine .inr ⟨?_, { ui.push message with peers := peers }.trim, ?_, ?_, ?_, ?_, ?_⟩
  · rintro ⟨p, hp, peer, hpeer, full⟩
    obtain rfl := Option.some.inj (hp.symm.trans counted)
    exact absurd full (room peer hpeer).ne
  · rw [listMessage, counts, Call.andThen_ok]
  · rw [listed]
    rfl
  · rw [untroubled]
    rfl
  · intro p hp
    obtain ⟨peer, hpeer⟩ := Finmap.mem_iff.mp hp
    have kept : (ui.push message).peers.lookup p = some peer := hpeer
    rcases eq_or_ne p q with rfl | hq
    · exact Finmap.mem_iff.mpr ⟨_, by rw [trim, after, if_pos rfl, kept, Option.map_some]⟩
    · exact Finmap.mem_iff.mpr ⟨peer, by rw [trim, after, if_neg hq, kept]⟩
  · intro p peer hpeer
    rw [trim, after] at hpeer
    split_ifs at hpeer with hq
    · subst hq
      obtain ⟨old, hold, rfl⟩ := Option.map_eq_some_iff.mp hpeer
      have kept : ui.peers.lookup p = some old := hold
      rw [kept]
      refine ⟨by rw [noteSeen]; rfl, ?_, by simp⟩
      rw [noteCount, UInt32.toNat_add, if_pos counted]
      exact Nat.mod_eq_of_lt (room old hold)
    · have kept : ui.peers.lookup p = some peer := hpeer
      rw [kept]
      exact touched_unchanged (unstamped p hq)
        (fun h => hq (Option.some.inj (h.symm.trans counted))) peer

/-- An event is taken to its end, or it panics with its message pushed and not counted. -/
theorem ends_processAppEvent (ui : UIState) (ourPeerId : PeerId) (now : UInt64) (a : AppEvent) :
    Ends ui ourPeerId now a (ui.processAppEvent ourPeerId now a) := by
  cases a with
  | messageReceived sender content timestamp =>
    refine ends_listMessage rfl rfl rfl ?_ ?_ fun _ => rfl
    · intro p hp
      simp [AppEvent.stampFor, hp]
    · intro peer
      simp [AppEvent.stampFor, Stamp.value]
  | messageSent recipient content timestamp =>
    exact ends_listMessage rfl rfl rfl (fun _ _ => rfl) (fun _ => rfl) fun _ => rfl
  | peerStatusChanged q status transport =>
    refine .inr ⟨by simp [Full, AppEvent.counted], _, rfl, rfl, rfl, ?_, ?_⟩
    · intro p hp
      simp [hp]
    · intro p peer hpeer
      simp only [Map.lookup_insert_if] at hpeer
      split_ifs at hpeer with hp
      · subst hp
        rw [← Option.some.inj hpeer]
        refine ⟨by simp [AppEvent.stampFor, Stamp.value], ?_,
          by simp [AppEvent.counted, AppEvent.stampFor]⟩
        cases ui.peers.lookup p <;> simp [AppEvent.counted]
      · rw [hpeer]
        exact touched_unchanged (by simp [AppEvent.stampFor, hp]) (by simp [AppEvent.counted]) peer
  | _ =>
    refine .inr ⟨by simp [Full, AppEvent.counted], _, rfl, rfl, rfl, fun p hp => hp, ?_⟩
    intro p peer hpeer
    exact hpeer ▸ touched_unchanged rfl (by simp [AppEvent.counted]) peer

@[simp] theorem recentMessages_noteOverload : ui.noteOverload.recentMessages = ui.recentMessages :=
  rfl

@[simp] theorem recentMessages_tidied : (ui.tidied now).recentMessages = ui.recentMessages := rfl

theorem lookup_tidied {peer : PeerUIState} (h : (ui.tidied now).peers.lookup p = some peer) :
    ui.peers.lookup p = some peer := (Map.mem_retain_entries.mp h).1

/-- The status of a loop that has shown no error, or this one as the last. -/
def Reports (ui : UIState) (trouble : Option String) : Prop :=
  ui.systemStatus = trouble.elim .ready .error

/-- An error is not taken back. -/
theorem Reports.tidied {trouble : Option String} (h : ui.Reports trouble) :
    (ui.tidied now).Reports trouble := by
  cases trouble <;> simp_all [Reports, UIState.tidied]

end

end UIState

end Bitchat
