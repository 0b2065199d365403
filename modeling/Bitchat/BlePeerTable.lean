import Bitchat.BleMesh

/-!
# The table of Bluetooth peers

Discovery, connecting, disconnecting and maintenance of `BleTransportTask`. The
answers of the Bluetooth library are inputs, and time is a number of nanoseconds.
Maintenance judges a peer by the time of its last connection attempt alone, and a
link that stays up makes no further attempt.
-/
namespace Bitchat
open Rust

/-- A point in time. -/
abbrev Instant := ℕ

def fromSecs (n : ℕ) : ℕ := n * 10 ^ 9

def Instant.elapsed (t now : Instant) : ℕ := now - t

/-- `btleplug::platform::PeripheralId`. -/
abbrev PeripheralId := Bytes

/-- `BlePeer` with the fields of connecting. -/
structure BlePeerRecord extends BlePeer where
  peripheral : PeripheralId
  deviceName : Text
  lastConnectionAttempt : Option Instant
  retryCount : ℕ

/-- A device that was discovered. -/
structure Advertisement where
  peripheral : PeripheralId
  offersTx : Bool
  write : Bytes → Except String Unit
  localName : Option Text
  manufacturerData : Option Bytes

namespace BlePeerRecord

def new (peerId : PeerId) (device : Advertisement) (deviceName : Text) : BlePeerRecord :=
  ⟨⟨peerId, .disconnected, device.offersTx, device.write⟩, device.peripheral, deviceName, none, 0⟩

def isConnecting (p : BlePeerRecord) : Bool := p.connectionState == .connecting

def canRetry (p : BlePeerRecord) (now : Instant) : Bool :=
  p.retryCount < 3 &&
    (match p.lastConnectionAttempt with
    | some t => fromSecs (p.retryCount * 5) < t.elapsed now
    | none => true)

def startConnectionAttempt (p : BlePeerRecord) (now : Instant) : BlePeerRecord :=
  { p with
    connectionState := .connecting
    lastConnectionAttempt := some now
    retryCount := p.retryCount + 1 }

def markConnected (p : BlePeerRecord) : BlePeerRecord :=
  { p with
    connectionState := .connected
    retryCount := 0 }

def markFailed (p : BlePeerRecord) : BlePeerRecord := { p with connectionState := .failed }

def markDisconnected (p : BlePeerRecord) : BlePeerRecord :=
  { p with connectionState := .disconnected }

/-- Checks the id of an announced peer and stores nothing of it. -/
def updateFromAnnounce (p : BlePeerRecord) (discovered : PeerId) : BitchatResult BlePeerRecord := do
  rejectIf (p.peerId ≠ discovered) "Peer ID mismatch in announce update"
  pure p

theorem updateFromAnnounce_same {p q : BlePeerRecord} {discovered : PeerId}
    (h : p.updateFromAnnounce discovered = .ok q) : q = p := by
  simp only [updateFromAnnounce, rejectIf, failIf_bind_eq_ok] at h
  exact (Except.ok.inj h.2).symm

def fromDiscoveredPeer (_ : PeerId) : BitchatResult BlePeerRecord :=
  invalidPacket "Cannot create BlePeer from DiscoveredPeer without BLE peripheral"

end BlePeerRecord

/-- What the library answers while connecting; no answer to `connect` is a timeout. -/
structure ConnectCalls where
  connect : Option (Except String Unit)
  discoverServices : Except String Unit
  offersRx : Bool
  subscribe : Except String Unit
  notifications : Except String Unit

namespace ConnectCalls

def startReceivingFromPeer (calls : ConnectCalls) : BitchatResult Unit := do
  failIf (¬ calls.offersRx) (.transport (.invalidConfiguration "RX characteristic not found"))
  mapErr (fun e => .transport (.invalidConfiguration
    ("Failed to subscribe to notifications: " ++ e))) calls.subscribe
  mapErr (fun e => .transport (.invalidConfiguration
    ("Failed to get notifications stream: " ++ e))) calls.notifications

/-- The part of `connect_to_peer` from the start of the attempt on. -/
def attempt (calls : ConnectCalls) (timeoutMs : UInt64) (peerId : PeerId) (peer : BlePeerRecord)
    (now : Instant) : BlePeerRecord × BitchatResult Unit :=
  let peer := peer.startConnectionAttempt now
  match calls.connect with
  | some (.ok _) =>
    let peer := peer.markConnected
    match calls.discoverServices with
    | .error e =>
      (peer.markFailed, fail (.transport (.connectionFailed peerId.display
        ("Failed to discover services: " ++ e))))
    | .ok _ => (peer, calls.startReceivingFromPeer)
  | some (.error e) =>
    (peer.markFailed, fail (.transport (.connectionFailed peerId.display
      ("Connection failed: " ++ e))))
  | none => (peer.markFailed, fail (.transport (.timeout timeoutMs)))

end ConnectCalls

/-- The peers of `BleTransportTask` and what handling them reads. -/
structure BleTransportTask where
  localPeerId : PeerId
  maxPacketSize : ℕ
  connectionTimeoutMs : UInt64
  deviceNameStart : Text
  peers : Map PeerId BlePeerRecord
  cachedPeers : List PeerId

/-- What happens to the table. -/
inductive BleTableEvent where
  | deviceDiscovered (device : Option Advertisement)
  | deviceDisconnected (peripheral : PeripheralId) (order : List PeerId)
  | connectToPeer (peerId : PeerId) (calls : ConnectCalls)
  | disconnectPeer (peerId : PeerId)
  | disconnectAllPeers
  | announce (sender : PeerId) (discovered : Option PeerId)
  | maintenance

namespace BleTransportTask

def new (localPeerId : PeerId) (maxPacketSize : ℕ) (connectionTimeoutMs : UInt64)
    (deviceNameStart : Text) : BleTransportTask :=
  ⟨localPeerId, maxPacketSize, connectionTimeoutMs, deviceNameStart, ∅, []⟩

/-- The transport that sends and relays. -/
def transport (task : BleTransportTask) : BleTransport :=
  ⟨task.localPeerId, task.maxPacketSize, task.peers.mapValues BlePeerRecord.toBlePeer⟩

def setPeer (task : BleTransportTask) (peerId : PeerId) (peer : BlePeerRecord) :
    BleTransportTask :=
  { task with peers := task.peers.insert peerId peer }

/-- `CentralEvent::DeviceDiscovered`. A device without peripheral or properties is
`none`; `verify` is `extract_and_verify_peer_id` at the time of the event. -/
def processDiscovered (verify : Text → Bytes → Except String (Option PeerId))
    (task : BleTransportTask) (device : Option Advertisement) : BleTransportTask :=
  match device with
  | none => task
  | some found =>
    match found.localName with
    | none => task
    | some name =>
      let manufacturerData := found.manufacturerData.getD []
      if ¬ task.deviceNameStart.isPrefixOf name ∨ manufacturerData = [] then task
      else
        match verify name manufacturerData with
        | .ok (some peerId) =>
          if peerId ∈ task.peers then task
          else
            { task.setPeer peerId (.new peerId found name) with
              cachedPeers := task.cachedPeers ++ [peerId] }
        | _ => task

/-- `CentralEvent::DeviceDisconnected`, with the order in which the map is iterated. -/
def processDisconnected (task : BleTransportTask) (peripheral : PeripheralId)
    (order : List PeerId) : BleTransportTask :=
  match order.findSome? fun p => (task.peers.lookup p).bind fun peer =>
      if peer.peripheral = peripheral then some (p, peer) else none with
  | none => task
  | some (p, peer) => task.setPeer p peer.markDisconnected

def connectToPeer (task : BleTransportTask) (peerId : PeerId) (calls : ConnectCalls)
    (now : Instant) : BleTransportTask × BitchatResult Unit :=
  match task.peers.lookup peerId with
  | none => (task, fail (.transport (.peerNotFound peerId.display)))
  | some peer =>
    if peer.isConnected then (task, .ok ())
    else if peer.isConnecting then
      (task, fail (.transport (.connectionFailed peerId.display "Connection in progress")))
    else if ¬ peer.canRetry now then
      (task, fail (.transport (.connectionFailed peerId.display
        "Too many failed connection attempts")))
    else
      let attempted := calls.attempt task.connectionTimeoutMs peerId peer now
      (task.setPeer peerId attempted.1, attempted.2)

/-- The answer of the library to `disconnect` is only logged. -/
def disconnectPeer (task : BleTransportTask) (peerId : PeerId) : BleTransportTask :=
  match task.peers.lookup peerId with
  | none => task
  | some peer => if peer.isConnected then task.setPeer peerId peer.markDisconnected else task

def disconnectAllPeers (task : BleTransportTask) : BleTransportTask :=
  { task with
    peers := task.peers.mapValues fun peer =>
      if peer.isConnected then peer.markDisconnected else peer }

/-- The effect of `handle_announce_packet` on the table, for an announcement that
was read and verified. -/
def handleAnnounce (task : BleTransportTask) (sender discovered : PeerId) :
    BleTransportTask × BitchatResult Unit :=
  if discovered ≠ sender then
    (task, invalidPacket "Announce packet sender ID mismatch")
  else
    let updated := match task.peers.lookup sender with
      | some peer => peer.updateFromAnnounce discovered
      | none => BlePeerRecord.fromDiscoveredPeer discovered
    match updated with
    | .ok peer => (task.setPeer sender peer, .ok ())
    | .error e => (task, .error e)

def timeoutThreshold : ℕ := fromSecs 300

def isStale (peer : BlePeerRecord) (now : Instant) : Bool :=
  match peer.lastConnectionAttempt with
  | some t => timeoutThreshold < t.elapsed now
  | none => false

def performMaintenance (task : BleTransportTask) (now : Instant) : BleTransportTask :=
  let stalePeers := (Map.retain (fun _ peer => isStale peer now) task.peers).keys
  { task with
    peers := task.peers.retain fun peerId _ => peerId ∉ stalePeers
    cachedPeers := task.cachedPeers.filter fun p => p ∉ stalePeers }

/-- One event at a given time. -/
def step (verify : Instant → Text → Bytes → Except String (Option PeerId))
    (task : BleTransportTask) (received : BleTableEvent × Instant) : BleTransportTask × Unit :=
  (match received.1 with
  | .deviceDiscovered device => task.processDiscovered (verify received.2) device
  | .deviceDisconnected peripheral order => task.processDisconnected peripheral order
  | .connectToPeer peerId calls => (task.connectToPeer peerId calls received.2).1
  | .disconnectPeer peerId => task.disconnectPeer peerId
  | .disconnectAllPeers => task.disconnectAllPeers
  | .announce sender discovered =>
    match discovered with
    | none => task
    | some peerId => (task.handleAnnounce sender peerId).1
  | .maintenance => task.performMaintenance received.2, ())

variable {task : BleTransportTask}

theorem processDiscovered_cases (task : BleTransportTask)
    (verify : Text → Bytes → Except String (Option PeerId)) (device : Option Advertisement) :
    task.processDiscovered verify device = task ∨ ∃ p peer, p ∉ task.peers ∧
      task.processDiscovered verify device =
        { task.setPeer p peer with cachedPeers := task.cachedPeers ++ [p] } := by
  cases device with
  | none => exact .inl rfl
  | some found =>
    cases hname : found.localName with
    | none => exact .inl (by simp only [processDiscovered, hname])
    | some name =>
      simp only [processDiscovered, hname]
      split_ifs
      · exact .inl rfl
      · split
        · split_ifs with hmem
          · exact .inl rfl
          · exact .inr ⟨_, _, hmem, rfl⟩
        · exact .inl rfl

theorem processDisconnected_cases (task : BleTransportTask) (peripheral : PeripheralId)
    (order : List PeerId) :
    task.processDisconnected peripheral order = task ∨ ∃ p old,
      task.peers.lookup p = some old ∧ old.peripheral = peripheral ∧
        task.processDisconnected peripheral order = task.setPeer p old.markDisconnected := by
  unfold processDisconnected
  split
  · exact .inl rfl
  · rename_i p peer hfound
    obtain ⟨q, _, hq⟩ := List.exists_of_findSome?_eq_some hfound
    obtain ⟨old, hold, hif⟩ := Option.bind_eq_some_iff.mp hq
    split_ifs at hif with hperipheral
    obtain ⟨rfl, rfl⟩ := Prod.mk.inj (Option.some.inj hif)
    exact .inr ⟨q, old, hold, hperipheral, rfl⟩

theorem connectToPeer_cases (task : BleTransportTask) (p : PeerId) (calls : ConnectCalls)
    (now : Instant) :
    (task.connectToPeer p calls now).1 = task ∨ ∃ old peer,
      task.peers.lookup p = some old ∧ old.isConnected = false ∧
        (task.connectToPeer p calls now).1 = task.setPeer p peer := by
  cases hold : task.peers.lookup p with
  | none => exact .inl (by simp only [connectToPeer, hold])
  | some old =>
    simp only [connectToPeer, hold]
    by_cases hconnected : old.isConnected = true
    · exact .inl (by rw [if_pos hconnected])
    · rw [if_neg hconnected]
      split_ifs
      · exact .inl rfl
      · exact .inr ⟨old, _, rfl, Bool.eq_false_iff.mpr hconnected, rfl⟩
      · exact .inl rfl

theorem disconnectPeer_cases (task : BleTransportTask) (p : PeerId) :
    task.disconnectPeer p = task ∨ ∃ old, task.peers.lookup p = some old ∧
      task.disconnectPeer p = task.setPeer p old.markDisconnected := by
  cases hold : task.peers.lookup p with
  | none => exact .inl (by simp only [disconnectPeer, hold])
  | some old =>
    simp only [disconnectPeer, hold]
    split_ifs
    · exact .inr ⟨old, rfl, rfl⟩
    · exact .inl rfl

/-- An announcement leaves the record of its sender as it is. -/
theorem handleAnnounce_cases (task : BleTransportTask) (sender discovered : PeerId) :
    (task.handleAnnounce sender discovered).1 = task ∨ ∃ old,
      task.peers.lookup sender = some old ∧
        (task.handleAnnounce sender discovered).1 = task.setPeer sender old := by
  by_cases hsender : discovered ≠ sender
  · exact .inl (by rw [handleAnnounce, if_pos hsender])
  · rw [handleAnnounce, if_neg hsender]
    cases hold : task.peers.lookup sender with
    | none => exact .inl rfl
    | some old =>
      cases hupdated : old.updateFromAnnounce discovered with
      | ok peer =>
        obtain rfl := BlePeerRecord.updateFromAnnounce_same hupdated
        exact .inr ⟨peer, rfl, by simp only [hupdated]⟩
      | error e => exact .inl (by simp only [hupdated])

/-- A peer that packets are sent to. -/
theorem mem_connectedPeers {p : PeerId} :
    p ∈ task.transport.connectedPeers ↔
      ∃ peer, task.peers.lookup p = some peer ∧ peer.isConnected = true := by
  simp only [BleTransport.connectedPeers, transport, Map.mem_keys_iff, Map.mem_retain_entries,
    Map.lookup_mapValues, Option.map_eq_some_iff]
  constructor
  · rintro ⟨_, ⟨peer, hpeer, rfl⟩, hconnected⟩
    exact ⟨peer, hpeer, hconnected⟩
  · rintro ⟨peer, hpeer, hconnected⟩
    exact ⟨_, ⟨peer, hpeer, rfl⟩, hconnected⟩

/-- A peer stays connected when another one is written, or itself as connected. -/
theorem setPeer_connected {p q : PeerId} {peer : BlePeerRecord}
    (hp : p ∈ task.transport.connectedPeers) (hq : p = q → peer.isConnected = true) :
    p ∈ (task.setPeer q peer).transport.connectedPeers := by
  obtain ⟨old, hold, hconnected⟩ := mem_connectedPeers.mp hp
  refine mem_connectedPeers.mpr ?_
  rw [setPeer, Map.lookup_insert_if]
  split_ifs with h
  · exact ⟨peer, rfl, hq h⟩
  · exact ⟨old, hold, hconnected⟩

theorem isConnected_of_lookup {p : PeerId} {peer : BlePeerRecord}
    (hp : p ∈ task.transport.connectedPeers) (hpeer : task.peers.lookup p = some peer) :
    peer.isConnected = true := by
  obtain ⟨same, hsame, hconnected⟩ := mem_connectedPeers.mp hp
  rw [hpeer] at hsame
  obtain rfl := Option.some.inj hsame
  exact hconnected

theorem isStale_eq_false {peer : BlePeerRecord} {now : Instant} :
    isStale peer now = false ↔
      ∀ t, peer.lastConnectionAttempt = some t → t.elapsed now ≤ timeoutThreshold := by
  unfold isStale
  cases peer.lastConnectionAttempt with
  | none => simp
  | some t => simp

theorem not_mem_stale_iff {now : Instant} {p : PeerId} {peer : BlePeerRecord}
    (hpeer : task.peers.lookup p = some peer) :
    p ∉ (Map.retain (fun _ peer => isStale peer now) task.peers).keys ↔
      isStale peer now = false := by
  rw [Map.mem_keys_iff]
  constructor
  · intro hnot
    by_contra hstale
    exact hnot ⟨peer, Map.mem_retain_entries.mpr ⟨hpeer, by simpa using hstale⟩⟩
  · rintro hfresh ⟨same, hsame⟩
    obtain ⟨hlookup, hstale⟩ := Map.mem_retain_entries.mp hsame
    rw [hpeer] at hlookup
    obtain rfl := Option.some.inj hlookup
    rw [hfresh] at hstale
    cases hstale

/-- Maintenance removes the stale peers and no others. -/
theorem lookup_performMaintenance {now : Instant} {p : PeerId} {peer : BlePeerRecord} :
    (task.performMaintenance now).peers.lookup p = some peer ↔
      task.peers.lookup p = some peer ∧ isStale peer now = false := by
  unfold performMaintenance
  simp only [Map.mem_retain_entries, decide_eq_true_eq]
  exact and_congr_right not_mem_stale_iff

theorem mem_connectedPeers_performMaintenance {now : Instant} {p : PeerId} :
    p ∈ (task.performMaintenance now).transport.connectedPeers ↔
      ∃ peer, task.peers.lookup p = some peer ∧ peer.isConnected = true ∧
        isStale peer now = false := by
  simp only [mem_connectedPeers, lookup_performMaintenance, and_assoc, and_comm]

/-- The events that disconnect a peer. -/
def Disconnects (task : BleTransportTask) (p : PeerId) : BleTableEvent → Prop
  | .deviceDisconnected peripheral _ =>
    ∃ peer, task.peers.lookup p = some peer ∧ peer.peripheral = peripheral
  | .disconnectPeer peerId => peerId = p
  | .disconnectAllPeers => True
  | _ => False

/-- A connected peer leaves the set that packets are sent to only by being disconnected. -/
def KeepsLinks (verify : Instant → Text → Bytes → Except String (Option PeerId))
    (task : BleTransportTask) (received : BleTableEvent × Instant) : Prop :=
  ∀ p ∈ task.transport.connectedPeers,
    p ∉ (task.step verify received).1.transport.connectedPeers → task.Disconnects p received.1

/-- At maintenance the last attempt to connect to a connected peer is at most five
minutes ago. -/
def LinksAreRecent (task : BleTransportTask) (received : BleTableEvent × Instant) : Prop :=
  received.1 = .maintenance → ∀ p peer t, task.peers.lookup p = some peer →
    peer.isConnected = true → peer.lastConnectionAttempt = some t →
      t.elapsed received.2 ≤ timeoutThreshold

variable (verify : Instant → Text → Bytes → Except String (Option PeerId))

/-- What one event does to the table. A peer that is connected is written as another one
only by an event that disconnects it. -/
theorem step_cases (task : BleTransportTask) (event : BleTableEvent) (now : Instant) :
    (task.step verify (event, now)).1 = task ∨
    (∃ p peer, p ∉ task.peers ∧ (task.step verify (event, now)).1 =
      { task.setPeer p peer with cachedPeers := task.cachedPeers ++ [p] }) ∨
    (∃ p old peer, task.peers.lookup p = some old ∧
      (old.isConnected = true → peer.isConnected = true ∨ task.Disconnects p event) ∧
      (task.step verify (event, now)).1 = task.setPeer p peer) ∨
    event = .disconnectAllPeers ∨ event = .maintenance := by
  cases event with
  | deviceDiscovered device =>
    rcases processDiscovered_cases task (verify now) device with heq | ⟨p, peer, hnew, heq⟩
    · exact .inl heq
    · exact .inr (.inl ⟨p, peer, hnew, heq⟩)
  | deviceDisconnected peripheral order =>
    rcases processDisconnected_cases task peripheral order with
      heq | ⟨p, old, hold, hperipheral, heq⟩
    · exact .inl heq
    · exact .inr (.inr (.inl ⟨p, old, _, hold, fun _ => .inr ⟨old, hold, hperipheral⟩, heq⟩))
  | connectToPeer q calls =>
    rcases connectToPeer_cases task q calls now with heq | ⟨old, peer, hold, hno, heq⟩
    · exact .inl heq
    · refine .inr (.inr (.inl ⟨q, old, peer, hold, fun hconnected => ?_, heq⟩))
      simp [hno] at hconnected
  | disconnectPeer q =>
    rcases disconnectPeer_cases task q with heq | ⟨old, hold, heq⟩
    · exact .inl heq
    · exact .inr (.inr (.inl ⟨q, old, _, hold, fun _ => .inr rfl, heq⟩))
  | disconnectAllPeers => exact .inr (.inr (.inr (.inl rfl)))
  | announce sender discovered =>
    cases discovered with
    | none => exact .inl rfl
    | some peerId =>
      rcases handleAnnounce_cases task sender peerId with heq | ⟨old, hold, heq⟩
      · exact .inl heq
      · exact .inr (.inr (.inl ⟨sender, old, old, hold, .inl, heq⟩))
  | maintenance => exact .inr (.inr (.inr (.inr rfl)))

/-- No event but maintenance takes a link that was not disconnected. -/
theorem keepsLinks_of_ne_maintenance {event : BleTableEvent} (now : Instant)
    (h : event ≠ .maintenance) : task.KeepsLinks verify (event, now) := by
  intro p hp hgone
  rcases step_cases verify task event now with
    heq | ⟨q, peer, hnew, heq⟩ | ⟨q, old, peer, hold, hwritten, heq⟩ | rfl | rfl
  · exact absurd hp (heq ▸ hgone)
  · rw [heq] at hgone
    refine absurd (setPeer_connected hp fun hpq => ?_) hgone
    obtain ⟨old, hold, _⟩ := mem_connectedPeers.mp hp
    exact absurd (Finmap.mem_iff.mpr ⟨old, hpq ▸ hold⟩) hnew
  · rw [heq] at hgone
    by_cases hpq : p = q
    · subst hpq
      rcases hwritten (isConnected_of_lookup hp hold) with hconnected | hdisconnects
      · exact absurd (setPeer_connected hp fun _ => hconnected) hgone
      · exact hdisconnects
    · exact absurd (setPeer_connected hp fun heq => absurd heq hpq) hgone
  · trivial
  · exact absurd rfl h

/-- Maintenance keeps the links exactly when they are all recent. -/
theorem keepsLinks_iff (received : BleTableEvent × Instant) :
    task.KeepsLinks verify received ↔ task.LinksAreRecent received := by
  obtain ⟨event, now⟩ := received
  by_cases h : event = .maintenance
  · subst h
    constructor
    · intro keeps _ p peer t hpeer hconnected ht
      have hp : p ∈ task.transport.connectedPeers :=
        mem_connectedPeers.mpr ⟨peer, hpeer, hconnected⟩
      have hstays : p ∈ (task.performMaintenance now).transport.connectedPeers := by
        by_contra hgone
        exact keeps p hp hgone
      obtain ⟨same, hsame, _, hfresh⟩ := mem_connectedPeers_performMaintenance.mp hstays
      rw [hpeer] at hsame
      obtain rfl := Option.some.inj hsame
      exact isStale_eq_false.mp hfresh t ht
    · intro recent p hp hgone
      obtain ⟨peer, hpeer, hconnected⟩ := mem_connectedPeers.mp hp
      refine absurd (mem_connectedPeers_performMaintenance.mpr ⟨peer, hpeer, hconnected, ?_⟩) hgone
      exact isStale_eq_false.mpr fun t ht => recent rfl p peer t hpeer hconnected ht
  · exact ⟨fun _ hevent => absurd hevent h, fun _ => keepsLinks_of_ne_maintenance verify now h⟩

/-- The cached ids are those of the table, each once. -/
structure Caches (task : BleTransportTask) : Prop where
  nodup : task.cachedPeers.Nodup
  mem_iff : ∀ p, p ∈ task.cachedPeers ↔ p ∈ task.peers

theorem Caches.setPeer (h : task.Caches) {p : PeerId} {old : BlePeerRecord}
    (hold : task.peers.lookup p = some old) (peer : BlePeerRecord) :
    (task.setPeer p peer).Caches where
  nodup := h.nodup
  mem_iff q := by
    have hp : p ∈ task.peers := Finmap.mem_iff.mpr ⟨old, hold⟩
    simp only [BleTransportTask.setPeer, h.mem_iff, Finmap.mem_insert]
    constructor
    · exact .inr
    · rintro (rfl | hq)
      · exact hp
      · exact hq

theorem Caches.discovered (h : task.Caches) {p : PeerId} (hnew : p ∉ task.peers)
    (peer : BlePeerRecord) :
    Caches { task.setPeer p peer with cachedPeers := task.cachedPeers ++ [p] } where
  nodup := by
    refine List.Nodup.append h.nodup (List.nodup_singleton p) ?_
    simpa [h.mem_iff] using hnew
  mem_iff q := by
    simp [BleTransportTask.setPeer, h.mem_iff, Finmap.mem_insert, or_comm]

theorem Caches.performMaintenance (h : task.Caches) (now : Instant) :
    (task.performMaintenance now).Caches where
  nodup := h.nodup.filter _
  mem_iff q := by
    simp only [BleTransportTask.performMaintenance, List.mem_filter, h.mem_iff, Finmap.mem_iff,
      Map.mem_retain_entries]
    simp

theorem Caches.disconnectAllPeers (h : task.Caches) : task.disconnectAllPeers.Caches where
  nodup := h.nodup
  mem_iff q := by
    simp [BleTransportTask.disconnectAllPeers, h.mem_iff, Finmap.mem_iff, Map.lookup_mapValues]

theorem Caches.step (h : task.Caches) (received : BleTableEvent × Instant) :
    (task.step verify received).1.Caches := by
  obtain ⟨event, now⟩ := received
  rcases step_cases verify task event now with
    heq | ⟨q, peer, hnew, heq⟩ | ⟨q, old, peer, hold, _, heq⟩ | rfl | rfl
  · rw [heq]
    exact h
  · rw [heq]
    exact h.discovered hnew peer
  · rw [heq]
    exact h.setPeer hold peer
  · exact h.disconnectAllPeers
  · exact h.performMaintenance now

/-- In every run connected peers leave the set that packets are sent to only by being
disconnected exactly if maintenance always finds the links recent, and the cached ids
are those of the table, each once. -/
theorem links_kept_iff (localPeerId : PeerId) (maxPacketSize : ℕ) (connectionTimeoutMs : UInt64)
    (deviceNameStart : Text) (events : List (BleTableEvent × Instant)) :
    (Along (step verify) (KeepsLinks verify)
        (.new localPeerId maxPacketSize connectionTimeoutMs deviceNameStart) events ↔
      Along (step verify) LinksAreRecent
        (.new localPeerId maxPacketSize connectionTimeoutMs deviceNameStart) events) ∧
      (run (step verify) (.new localPeerId maxPacketSize connectionTimeoutMs deviceNameStart)
        events).Caches := by
  constructor
  · constructor
    · exact along_of_invariant (I := fun _ => True) (fun _ _ _ _ => trivial)
        (fun _ received _ => (keepsLinks_iff verify received).mp) trivial
    · exact along_of_invariant (I := fun _ => True) (fun _ _ _ _ => trivial)
        (fun _ received _ => (keepsLinks_iff verify received).mpr) trivial
  · refine Reachable.invariant (I := Caches) (fun _ received h => h.step verify received) ?_
      ⟨events, rfl⟩
    exact ⟨List.nodup_nil, fun p => by simp [new, Finmap.notMem_empty]⟩

def neighbour : Advertisement where
  peripheral := [7]
  offersTx := true
  write _ := .ok ()
  localName := some "BitChat_02".toList
  manufacturerData := some [1]

def successful : ConnectCalls := ⟨some (.ok ()), .ok (), true, .ok (), .ok ()⟩

/-- A peer is connected on discovery, and maintenance comes five minutes and a second later. -/
def longLink : List (BleTableEvent × Instant) :=
  [(.deviceDiscovered (some neighbour), 0), (.connectToPeer (Mesh.peer 2) successful, 0),
    (.maintenance, fromSecs 301)]

/-- Maintenance removes a link that is up for more than five minutes. -/
theorem long_link_removed :
    longLink.Pairwise (fun earlier later => earlier.2 ≤ later.2) ∧
      ¬ Along (step fun _ _ _ => .ok (some (Mesh.peer 2)))
        (KeepsLinks fun _ _ _ => .ok (some (Mesh.peer 2)))
        (.new (Mesh.peer 1) 500 5000 "BitChat".toList) longLink := by
  refine ⟨by decide, fun kept => ?_⟩
  exact kept.2.2.1 (Mesh.peer 2) (by decide +kernel) (by decide +kernel)

end BleTransportTask

end Bitchat
