import Bitchat.Session
import Bitchat.Rust.Run

/-!
# The life of a Noise session

The handshake, rekeying and failing of `NoiseSession`. Every call brings the answers
that the Noise library gives to it. The parts of a session agree with its state as long
as the library does not fail where the session has already given up its old parts. A
rekey cannot be completed, since the messages of its handshake are refused.
-/
namespace Bitchat
open Rust

/-- The `Debug` text of a state. -/
def SessionState.debug : SessionState → String
  | .handshaking => "Handshaking"
  | .established => "Established"
  | .rekeying => "Rekeying"
  | .failed => "Failed"

/-- The public operations of a session. -/
inductive SessionOp where
  | createHandshakeMessage (payload : Bytes)
  | processHandshakeMessage (input : Bytes)
  | encrypt (plaintext : Bytes)
  | decrypt (ciphertext : Bytes)
  | startRekey (localKey : Key32)
  | completeRekey
  | markFailed
  | setRekeyThreshold (threshold : UInt64)
  | setRekeyIntervalSecs (intervalSecs : UInt64)

/-- A call of an operation, with the library as it answers to this call. -/
structure SessionCall (H T : Type) where
  op : SessionOp
  noise : NoiseLibrary H T
  now : Timestamp

namespace NoiseSession

variable {H T : Type}

section

variable (sha256 : Bytes → Key32) (noise : NoiseLibrary H T)

/-- What reading and writing a handshake message have in common. The handshake is
given up before it is turned into a transport. -/
def exchange (call : H → Bytes → H × Except String Bytes) (s : NoiseSession H T) (data : Bytes)
    (now : Timestamp) : NoiseSession H T × BitchatResult Bytes :=
  if s.state ≠ .handshaking then (s, invalidPacket "Not in handshaking state")
  else
    match s.handshake with
    | none =>
      (s, fail (.session (.invalidState s.peerId.display "Handshaking" "No handshake state")))
    | some handshake =>
      match call handshake data with
      | (handshake, .error e) => ({ s with handshake := some handshake }, fail (.noise e))
      | (handshake, .ok output) =>
        if noise.isHandshakeFinished handshake then
          let s := { s with
            peerFingerprint := match noise.getRemoteStatic handshake with
              | some remoteStatic => some (sha256 remoteStatic.toList)
              | none => s.peerFingerprint
            handshake := none }
          match noise.intoTransportMode handshake with
          | .error e => (s, fail (.noise e))
          | .ok transport =>
            ({ s with
              transport := some transport
              state := .established
              lastActivity := now }, .ok output)
        else ({ s with handshake := some handshake, lastActivity := now }, .ok output)

def createHandshakeMessage (s : NoiseSession H T) (payload : Bytes) (now : Timestamp) :
    NoiseSession H T × BitchatResult Bytes :=
  exchange sha256 noise noise.writeHandshake s payload now

def processHandshakeMessage (s : NoiseSession H T) (input : Bytes) (now : Timestamp) :
    NoiseSession H T × BitchatResult (Option Bytes) :=
  let read := exchange sha256 noise noise.readHandshake s input now
  (read.1, read.2.map fun output => if output = [] then none else some output)

/-- The state is changed before the new handshake is built. -/
def startRekey (s : NoiseSession H T) (localKey : Key32) (now : Timestamp) :
    NoiseSession H T × BitchatResult Unit :=
  if s.state ≠ .established then
    (s, fail (.session (.invalidState s.peerId.display "Established" s.state.debug)))
  else
    match noise.buildInitiator localKey with
    | .error e => ({ s with state := .rekeying }, fail (.noise e))
    | .ok handshake =>
      ({ s with
        state := .rekeying
        handshake := some handshake
        transport := none
        messageCount := 0
        lastRekey := now
        lastActivity := now }, .ok ())

def completeRekey (s : NoiseSession H T) (now : Timestamp) :
    NoiseSession H T × BitchatResult Unit :=
  if s.state ≠ .rekeying then
    (s, fail (.session (.invalidState s.peerId.display "Rekeying" s.state.debug)))
  else
    match s.handshake with
    | none =>
      (s, fail (.session (.invalidState s.peerId.display "Rekeying with handshake"
        "No handshake state")))
    | some handshake =>
      if ¬ noise.isHandshakeFinished handshake then
        (s, fail (.session (.invalidState s.peerId.display "Completed handshake"
          "Handshake not finished")))
      else
        match noise.intoTransportMode handshake with
        | .error e => ({ s with handshake := none }, fail (.noise e))
        | .ok transport =>
          ({ s with
            handshake := none
            transport := some transport
            state := .established
            lastActivity := now }, .ok ())

end

def markFailed (s : NoiseSession H T) : NoiseSession H T :=
  { s with
    state := .failed
    handshake := none
    transport := none }

def setRekeyThreshold (s : NoiseSession H T) (threshold : UInt64) : NoiseSession H T :=
  { s with rekeyThreshold := threshold.toNat }

def setRekeyIntervalSecs (s : NoiseSession H T) (intervalSecs : UInt64) : NoiseSession H T :=
  { s with rekeyIntervalSecs := intervalSecs.toNat }

/-- One call, with its success or failure. -/
def step (sha256 : Bytes → Key32) (s : NoiseSession H T) (call : SessionCall H T) :
    NoiseSession H T × BitchatResult Unit :=
  match call.op with
  | .createHandshakeMessage payload =>
    (s.createHandshakeMessage sha256 call.noise payload call.now).map id (·.map fun _ => ())
  | .processHandshakeMessage input =>
    (s.processHandshakeMessage sha256 call.noise input call.now).map id (·.map fun _ => ())
  | .encrypt plaintext => (s.encrypt call.noise plaintext call.now).map id (·.map fun _ => ())
  | .decrypt ciphertext => (s.decrypt call.noise ciphertext call.now).map id (·.map fun _ => ())
  | .startRekey localKey => s.startRekey call.noise localKey call.now
  | .completeRekey => s.completeRekey call.noise call.now
  | .markFailed => (s.markFailed, .ok ())
  | .setRekeyThreshold threshold => (s.setRekeyThreshold threshold, .ok ())
  | .setRekeyIntervalSecs intervalSecs => (s.setRekeyIntervalSecs intervalSecs, .ok ())

/-- A session as one of its two constructors gives it. -/
def Created (noise : NoiseLibrary H T) (s : NoiseSession H T) : Prop :=
  ∃ peerId localKey now, newOutbound noise peerId localKey now = .ok s ∨
    newInbound noise peerId localKey now = .ok s

/-- The handshake and the transport that go with the state. -/
def WellFormed (s : NoiseSession H T) : Prop :=
  match s.state with
  | .established => s.transport.isSome ∧ s.handshake.isNone
  | .handshaking => s.handshake.isSome ∧ s.transport.isNone
  | .rekeying => s.handshake.isSome ∧ s.transport.isNone
  | .failed => s.handshake.isNone ∧ s.transport.isNone

/-- Reading or writing `data` is the last step of the handshake, and leaves `handshake`. -/
def FinishesBy (noise : NoiseLibrary H T) (call : H → Bytes → H × Except String Bytes)
    (s : NoiseSession H T) (data : Bytes) (handshake : H) : Prop :=
  s.state = .handshaking ∧ noise.isHandshakeFinished handshake = true ∧
    ∃ before output, s.handshake = some before ∧ call before data = (handshake, .ok output)

/-- The call finishes the handshake of the session. -/
def Finishes (s : NoiseSession H T) (call : SessionCall H T) (handshake : H) : Prop :=
  match call.op with
  | .createHandshakeMessage payload =>
    FinishesBy call.noise call.noise.writeHandshake s payload handshake
  | .processHandshakeMessage input =>
    FinishesBy call.noise call.noise.readHandshake s input handshake
  | _ => False

/-- The library does not fail to turn a finished handshake into a transport, nor to build
the handshake of a rekey. -/
def LibraryHolds (s : NoiseSession H T) (call : SessionCall H T) : Prop :=
  (∀ handshake, s.Finishes call handshake →
    ∃ transport, call.noise.intoTransportMode handshake = .ok transport) ∧
  match call.op with
  | .startRekey localKey => s.state = .established →
    ∃ handshake, call.noise.buildInitiator localKey = .ok handshake
  | .completeRekey => s.state = .rekeying → ∀ handshake, s.handshake = some handshake →
    call.noise.isHandshakeFinished handshake = true →
      ∃ transport, call.noise.intoTransportMode handshake = .ok transport
  | _ => True

variable {sha256 : Bytes → Key32} {noise : NoiseLibrary H T} {s : NoiseSession H T}

theorem wellFormed_starting (peerId : PeerId) (handshake : H) (now : Timestamp) :
    (starting peerId handshake now : NoiseSession H T).WellFormed := ⟨rfl, rfl⟩

theorem Created.eq_starting (h : Created noise s) :
    ∃ peerId handshake now, s = starting peerId handshake now := by
  obtain ⟨peerId, localKey, now, hnew | hnew⟩ := h
  · obtain ⟨handshake, _, hs⟩ := bind_eq_ok.mp hnew
    exact ⟨peerId, handshake, now, (Except.ok.inj hs).symm⟩
  · obtain ⟨handshake, _, hs⟩ := bind_eq_ok.mp hnew
    exact ⟨peerId, handshake, now, (Except.ok.inj hs).symm⟩

/-- A handshake message keeps the session well-formed unless it is the last one and
there is no transport to go on with. -/
theorem wellFormed_exchange_iff (call : H → Bytes → H × Except String Bytes) (data : Bytes)
    (now : Timestamp) (hs : s.WellFormed) :
    (exchange sha256 noise call s data now).1.WellFormed ↔
      ∀ handshake, FinishesBy noise call s data handshake →
        ∃ transport, noise.intoTransportMode handshake = .ok transport := by
  by_cases hstate : s.state = .handshaking
  · obtain ⟨hsome, hnone⟩ : s.handshake.isSome ∧ s.transport.isNone := by
      simpa [WellFormed, hstate] using hs
    obtain ⟨before, hbefore⟩ := Option.isSome_iff_exists.mp hsome
    cases hcall : call before data with
    | mk after result =>
      cases result with
      | error e => simp [exchange, FinishesBy, hstate, hbefore, hcall, WellFormed, hnone]
      | ok output =>
        have hby : ∀ handshake, FinishesBy noise call s data handshake ↔
            handshake = after ∧ noise.isHandshakeFinished after = true := by
          intro handshake
          simp only [FinishesBy, hstate, hbefore, true_and, Option.some.injEq]
          constructor
          · rintro ⟨hfinished, _, _, rfl, hafter⟩
            obtain rfl := (Prod.mk.inj (hcall.symm.trans hafter)).1
            exact ⟨rfl, hfinished⟩
          · rintro ⟨rfl, hfinished⟩
            exact ⟨hfinished, before, output, rfl, hcall⟩
        by_cases hfinished : noise.isHandshakeFinished after = true
        · cases hinto : noise.intoTransportMode after with
          | error e => simp [hby, exchange, hstate, hbefore, hcall, hfinished, hinto, WellFormed]
          | ok transport =>
            simp [hby, exchange, hstate, hbefore, hcall, hfinished, hinto, WellFormed]
        · simp [hby, exchange, hstate, hbefore, hcall, hfinished, WellFormed, hnone]
  · simp [exchange, FinishesBy, hstate, hs]

/-- Traffic changes neither the state of a session nor its handshake and fingerprint. -/
theorem transfer_frame (call : T → Bytes → T × Except String Bytes) (data : Bytes)
    (now : Timestamp) :
    (transfer call s data now).1.state = s.state ∧
      (transfer call s data now).1.handshake = s.handshake ∧
      (transfer call s data now).1.peerFingerprint = s.peerFingerprint := by
  unfold transfer
  split_ifs
  · exact ⟨rfl, rfl, rfl⟩
  · cases s.transport <;> exact ⟨rfl, rfl, rfl⟩

theorem wellFormed_transfer (call : T → Bytes → T × Except String Bytes) (data : Bytes)
    (now : Timestamp) (hs : s.WellFormed) : (transfer call s data now).1.WellFormed := by
  unfold transfer
  split_ifs with hstate
  · exact hs
  · rw [not_not] at hstate
    obtain ⟨hsome, hnone⟩ : s.transport.isSome ∧ s.handshake.isNone := by
      simpa [WellFormed, hstate] using hs
    obtain ⟨transport, htransport⟩ := Option.isSome_iff_exists.mp hsome
    simp [htransport, WellFormed, hstate, hnone]

theorem wellFormed_startRekey_iff (localKey : Key32) (now : Timestamp) (hs : s.WellFormed) :
    (s.startRekey noise localKey now).1.WellFormed ↔ (s.state = .established →
      ∃ handshake, noise.buildInitiator localKey = .ok handshake) := by
  unfold startRekey
  by_cases hstate : s.state = .established
  · obtain ⟨hsome, hnone⟩ : s.transport.isSome ∧ s.handshake.isNone := by
      simpa [WellFormed, hstate] using hs
    cases hbuild : noise.buildInitiator localKey with
    | error e => simp_all [WellFormed]
    | ok handshake => simp [hstate, WellFormed]
  · simp [hstate, hs]

theorem wellFormed_completeRekey_iff (now : Timestamp) (hs : s.WellFormed) :
    (s.completeRekey noise now).1.WellFormed ↔ (s.state = .rekeying →
      ∀ handshake, s.handshake = some handshake → noise.isHandshakeFinished handshake = true →
        ∃ transport, noise.intoTransportMode handshake = .ok transport) := by
  unfold completeRekey
  by_cases hstate : s.state = .rekeying
  · obtain ⟨hsome, hnone⟩ : s.handshake.isSome ∧ s.transport.isNone := by
      simpa [WellFormed, hstate] using hs
    obtain ⟨handshake, hhandshake⟩ := Option.isSome_iff_exists.mp hsome
    by_cases hfinished : noise.isHandshakeFinished handshake = true
    · cases hinto : noise.intoTransportMode handshake with
      | error e => simp [hstate, hhandshake, hfinished, hinto, WellFormed]
      | ok transport => simp [hstate, hhandshake, hfinished, hinto, WellFormed]
    · simp [hstate, hhandshake, hfinished, hs]
  · simp [hstate, hs]

/-- A call keeps a session well-formed exactly when the library holds. -/
theorem wellFormed_step_iff (call : SessionCall H T) (hs : s.WellFormed) :
    (s.step sha256 call).1.WellFormed ↔ s.LibraryHolds call := by
  obtain ⟨op, noise, now⟩ := call
  cases op with
  | createHandshakeMessage payload =>
    simpa [step, createHandshakeMessage, LibraryHolds, Finishes] using
      wellFormed_exchange_iff noise.writeHandshake payload now hs
  | processHandshakeMessage input =>
    simpa [step, processHandshakeMessage, LibraryHolds, Finishes] using
      wellFormed_exchange_iff noise.readHandshake input now hs
  | encrypt plaintext =>
    simpa [step, encrypt, LibraryHolds, Finishes] using
      wellFormed_transfer noise.writeMessage plaintext now hs
  | decrypt ciphertext =>
    simpa [step, decrypt, LibraryHolds, Finishes] using
      wellFormed_transfer noise.readMessage ciphertext now hs
  | startRekey localKey =>
    simpa [step, LibraryHolds, Finishes] using wellFormed_startRekey_iff localKey now hs
  | completeRekey =>
    simpa [step, LibraryHolds, Finishes] using wellFormed_completeRekey_iff now hs
  | markFailed => simp [step, markFailed, LibraryHolds, Finishes, WellFormed]
  | setRekeyThreshold threshold =>
    have hset : (s.setRekeyThreshold threshold).WellFormed := hs
    simp [step, LibraryHolds, Finishes, hset]
  | setRekeyIntervalSecs intervalSecs =>
    have hset : (s.setRekeyIntervalSecs intervalSecs).WellFormed := hs
    simp [step, LibraryHolds, Finishes, hset]

/-- Only finishing a handshake changes the fingerprint of the peer. -/
theorem fingerprint_exchange (call : H → Bytes → H × Except String Bytes) (data : Bytes)
    (now : Timestamp) :
    (exchange sha256 noise call s data now).1.peerFingerprint = s.peerFingerprint ∨
      ∃ handshake, FinishesBy noise call s data handshake := by
  unfold exchange FinishesBy
  by_cases hstate : s.state = .handshaking
  · cases hbefore : s.handshake with
    | none => simp [hstate]
    | some before =>
      cases hcall : call before data with
      | mk after result =>
        cases result with
        | error e => simp [hstate, hcall]
        | ok output =>
          by_cases hfinished : noise.isHandshakeFinished after = true
          · exact .inr ⟨after, hstate, hfinished, before, output, rfl, hcall⟩
          · simp [hstate, hcall, hfinished]
  · simp [hstate]

theorem fingerprint_step (sha256 : Bytes → Key32) (call : SessionCall H T) :
    (s.step sha256 call).1.peerFingerprint = s.peerFingerprint ∨
      ∃ handshake, s.Finishes call handshake := by
  obtain ⟨op, noise, now⟩ := call
  cases op with
  | createHandshakeMessage payload => exact fingerprint_exchange noise.writeHandshake payload now
  | processHandshakeMessage input => exact fingerprint_exchange noise.readHandshake input now
  | encrypt plaintext => exact .inl (transfer_frame noise.writeMessage plaintext now).2.2
  | decrypt ciphertext => exact .inl (transfer_frame noise.readMessage ciphertext now).2.2
  | startRekey localKey =>
    left
    simp only [step, startRekey]
    split_ifs <;> cases noise.buildInitiator localKey <;> rfl
  | completeRekey =>
    left
    simp only [step, completeRekey]
    cases s.handshake with
    | none => split_ifs <;> rfl
    | some handshake =>
      cases hinto : noise.intoTransportMode handshake <;> simp only [hinto] <;> split_ifs <;> rfl
  | markFailed => exact .inl rfl
  | setRekeyThreshold threshold => exact .inl rfl
  | setRekeyIntervalSecs intervalSecs => exact .inl rfl

/-- A fingerprint that a run leaves was there before, or a call of the run finished a handshake. -/
theorem fingerprint_run (calls : List (SessionCall H T))
    (h : (run (step sha256) s calls).peerFingerprint.isSome = true) :
    s.peerFingerprint.isSome = true ∨ ∃ front call rest handshake,
      calls = front ++ call :: rest ∧ (run (step sha256) s front).Finishes call handshake := by
  induction calls generalizing s with
  | nil => exact .inl h
  | cons call rest ih =>
    rcases ih h with hsome | ⟨front, later, rest', handshake, rfl, hfinishes⟩
    · rcases fingerprint_step sha256 (s := s) call with hsame | ⟨handshake, hfinishes⟩
      · exact .inl (hsame ▸ hsome)
      · exact .inr ⟨[], call, rest, handshake, rfl, hfinishes⟩
    · exact .inr ⟨call :: front, later, rest', handshake, rfl, hfinishes⟩

/-- In every run from a new session all states are well-formed exactly if the library
holds at every call, and a fingerprint comes from a finished handshake of the run. -/
theorem representation_iff (sha256 : Bytes → Key32) (noise : NoiseLibrary H T)
    (s : NoiseSession H T) (hcreated : Created noise s) (calls : List (SessionCall H T)) :
    (Along (step sha256) (fun s call => (s.step sha256 call).1.WellFormed) s calls ↔
      Along (step sha256) LibraryHolds s calls) ∧
    ((run (step sha256) s calls).peerFingerprint.isSome = true → ∃ front call rest handshake,
      calls = front ++ call :: rest ∧ (run (step sha256) s front).Finishes call handshake) := by
  obtain ⟨peerId, handshake, now, rfl⟩ := hcreated.eq_starting
  constructor
  · exact along_step_iff (I := WellFormed) (fun s call hs => wellFormed_step_iff call hs)
      (wellFormed_starting peerId handshake now)
  · intro hsome
    rcases fingerprint_run calls hsome with hstart | hfinished
    · cases hstart
    · exact hfinished

/-- A handshake of three messages in turn, of which the first is the initiator's. -/
def threeMessages : NoiseLibrary (Bool × ℕ) Unit where
  buildInitiator _ := .ok (true, 0)
  buildResponder _ := .ok (false, 0)
  writeHandshake h payload :=
    if h.1 = decide (h.2 % 2 = 0) ∧ h.2 < 3 then ((h.1, h.2 + 1), .ok payload)
    else (h, .error "state error: NotTurnToWrite")
  readHandshake h message :=
    if h.1 ≠ decide (h.2 % 2 = 0) ∧ h.2 < 3 then ((h.1, h.2 + 1), .ok message)
    else (h, .error "state error: NotTurnToRead")
  isHandshakeFinished h := h.2 == 3
  getRemoteStatic h := if 2 ≤ h.2 then some (List.Vector.replicate 32 9) else none
  intoTransportMode h :=
    if h.2 = 3 then .ok () else .error "state error: HandshakeNotFinished"
  writeMessage := NoiseLibrary.masked.writeMessage
  readMessage := NoiseLibrary.masked.readMessage

def localKey : Key32 := List.Vector.replicate 32 7

def remotePeer : PeerId := ⟨List.Vector.replicate 8 9⟩

/-- A new session of the initiator. -/
def outbound : NoiseSession (Bool × ℕ) Unit := starting remotePeer (true, 0) ⟨0⟩

theorem created_outbound : Created threeMessages outbound :=
  ⟨remotePeer, localKey, ⟨0⟩, .inl rfl⟩

/-- The initiator's part of the handshake, and a rekey. -/
def handshakeAndRekey (rekeying : NoiseLibrary (Bool × ℕ) Unit) :
    List (SessionCall (Bool × ℕ) Unit) :=
  [⟨.createHandshakeMessage [], threeMessages, ⟨1⟩⟩,
    ⟨.processHandshakeMessage [], threeMessages, ⟨2⟩⟩,
    ⟨.createHandshakeMessage [], threeMessages, ⟨3⟩⟩, ⟨.startRekey localKey, rekeying, ⟨4⟩⟩]

theorem representation_iff_outbound :
    ∃ front call rest handshake, handshakeAndRekey threeMessages = front ++ call :: rest ∧
      (run (step fun _ => localKey) outbound front).Finishes call handshake :=
  (representation_iff (fun _ => localKey) threeMessages outbound created_outbound
    (handshakeAndRekey threeMessages)).2 (by decide +kernel)

/-- When the library fails to build the handshake of a rekey, the session is in the state
of rekeying with the old transport and without a handshake. -/
theorem failed_rekey_not_wellFormed :
    Created threeMessages outbound ∧
      ¬ (run (step fun _ => localKey) outbound (handshakeAndRekey { threeMessages with
        buildInitiator := fun _ => .error "getting rng" })).WellFormed := by
  refine ⟨created_outbound, fun h => ?_⟩
  exact absurd h.1 (by decide)

/-! ## Completing a rekey -/

/-- The library tells by `finished` whether a handshake is finished, and a new one is not. -/
structure Starts (finished : H → Bool) (noise : NoiseLibrary H T) : Prop where
  isHandshakeFinished : noise.isHandshakeFinished = finished
  fresh : ∀ localKey handshake, noise.buildInitiator localKey = .ok handshake →
    finished handshake = false

/-- Some calls of which each is accepted lead to an established session with a transport. -/
def CanComplete (sha256 : Bytes → Key32) (finished : H → Bool) (s : NoiseSession H T) : Prop :=
  ∃ calls : List (SessionCall H T), (∀ call ∈ calls, Starts finished call.noise) ∧
    Along (step sha256) (fun s call => (s.step sha256 call).2 = .ok ()) s calls ∧
    (run (step sha256) s calls).state = .established ∧
    (run (step sha256) s calls).transport.isSome = true

/-- Nothing is left of a handshake once it is over, and that of a rekey is not finished. -/
def Unfinished (finished : H → Bool) (s : NoiseSession H T) : Prop :=
  (s.state = .established → s.handshake = none) ∧
    (s.state = .rekeying → ∀ handshake ∈ s.handshake, finished handshake = false)

/-- The session failed, or waits for a handshake that is not finished. -/
def Stuck (finished : H → Bool) (s : NoiseSession H T) : Prop :=
  s.state = .failed ∨ s.state = .rekeying ∧ ∀ handshake ∈ s.handshake, finished handshake = false

variable {finished : H → Bool}

theorem exchange_of_ne (call : H → Bytes → H × Except String Bytes) (data : Bytes)
    (now : Timestamp) (h : s.state ≠ .handshaking) :
    (exchange sha256 noise call s data now).1 = s := by
  rw [exchange, if_pos h]

/-- A handshake message leaves the session in its handshake, or the handshake is over. -/
theorem exchange_state (sha256 : Bytes → Key32) (noise : NoiseLibrary H T)
    (call : H → Bytes → H × Except String Bytes) (data : Bytes) (now : Timestamp)
    (h : s.state = .handshaking) :
    (exchange sha256 noise call s data now).1.state = .handshaking ∨
      (exchange sha256 noise call s data now).1.state = .established ∧
        (exchange sha256 noise call s data now).1.handshake = none := by
  unfold exchange
  rw [if_neg (not_not.mpr h)]
  cases s.handshake with
  | none => exact .inl h
  | some before =>
    cases hcall : call before data with
    | mk after result =>
      cases result with
      | error e => exact .inl (by simp [hcall, h])
      | ok output =>
        by_cases hfinished : noise.isHandshakeFinished after = true
        · cases hinto : noise.intoTransportMode after with
          | error e => exact .inl (by simp [hcall, hfinished, hinto, h])
          | ok transport => exact .inr (by simp [hcall, hfinished, hinto])
        · exact .inl (by simp [hcall, hfinished, h])

theorem completeRekey_of_unfinished (now : Timestamp)
    (h : ∀ handshake ∈ s.handshake, noise.isHandshakeFinished handshake = false) :
    (s.completeRekey noise now).1 = s := by
  unfold completeRekey
  split_ifs
  · rfl
  · cases hhandshake : s.handshake with
    | none => rfl
    | some handshake => simp [h handshake hhandshake]

/-- No call leads out of being stuck. -/
theorem stuck_step (h : s.Stuck finished) {call : SessionCall H T}
    (hstarts : Starts finished call.noise) : (s.step sha256 call).1.Stuck finished := by
  have hother : s.state ≠ .handshaking ∧ s.state ≠ .established := by
    rcases h with h | ⟨h, _⟩ <;> simp [h]
  obtain ⟨op, noise, now⟩ := call
  cases op with
  | createHandshakeMessage payload =>
    have hsame : (s.createHandshakeMessage sha256 noise payload now).1 = s :=
      exchange_of_ne _ payload now hother.1
    simpa [step, hsame] using h
  | processHandshakeMessage input =>
    have hsame : (s.processHandshakeMessage sha256 noise input now).1 = s :=
      exchange_of_ne _ input now hother.1
    simpa [step, hsame] using h
  | encrypt plaintext =>
    obtain ⟨hstate, hhandshake, _⟩ := transfer_frame (s := s) noise.writeMessage plaintext now
    simpa [step, encrypt, Stuck, hstate, hhandshake] using h
  | decrypt ciphertext =>
    obtain ⟨hstate, hhandshake, _⟩ := transfer_frame (s := s) noise.readMessage ciphertext now
    simpa [step, decrypt, Stuck, hstate, hhandshake] using h
  | startRekey localKey => simpa [step, startRekey, hother.2] using h
  | completeRekey =>
    rcases h with hfailed | ⟨hrekeying, hunfinished⟩
    · simp [step, completeRekey, hfailed, Stuck]
    · have hsame : (s.completeRekey noise now).1 = s := by
        refine completeRekey_of_unfinished now fun handshake hh => ?_
        rw [hstarts.isHandshakeFinished]
        exact hunfinished handshake hh
      simp only [step, hsame]
      exact .inr ⟨hrekeying, hunfinished⟩
  | markFailed => exact .inl rfl
  | setRekeyThreshold threshold => exact h
  | setRekeyIntervalSecs intervalSecs => exact h

theorem stuck_of_rekeying (h : s.Unfinished finished) (hrekeying : s.state = .rekeying) :
    s.Stuck finished := .inr ⟨hrekeying, h.2 hrekeying⟩

theorem unfinished_of_stuck (h : s.Stuck finished) : s.Unfinished finished := by
  rcases h with h | ⟨h, hunfinished⟩
  · simp [Unfinished, h]
  · exact ⟨fun hstate => by simp [h] at hstate, fun _ => hunfinished⟩

/-- Whatever leads to a rekey leaves its handshake unfinished. -/
theorem unfinished_step (h : s.Unfinished finished) {call : SessionCall H T}
    (hstarts : Starts finished call.noise) : (s.step sha256 call).1.Unfinished finished := by
  by_cases hrekeying : s.state = .rekeying
  · exact unfinished_of_stuck (stuck_step (stuck_of_rekeying h hrekeying) hstarts)
  obtain ⟨op, noise, now⟩ := call
  have hexchange (call : H → Bytes → H × Except String Bytes) (data : Bytes) :
      (exchange sha256 noise call s data now).1.Unfinished finished := by
    by_cases hstate : s.state = .handshaking
    · rcases exchange_state sha256 noise call data now hstate with
        hsame | ⟨hover, hnone⟩
      · simp [Unfinished, hsame]
      · simp [Unfinished, hover, hnone]
    · rw [exchange_of_ne call data now hstate]
      exact h
  have htransfer (call : T → Bytes → T × Except String Bytes) (data : Bytes) :
      (transfer call s data now).1.Unfinished finished := by
    obtain ⟨hstate, hhandshake, _⟩ := transfer_frame (s := s) call data now
    simpa [Unfinished, hstate, hhandshake] using h
  cases op with
  | createHandshakeMessage payload => exact hexchange noise.writeHandshake payload
  | processHandshakeMessage input => exact hexchange noise.readHandshake input
  | encrypt plaintext => exact htransfer noise.writeMessage plaintext
  | decrypt ciphertext => exact htransfer noise.readMessage ciphertext
  | startRekey localKey =>
    by_cases hstate : s.state = .established
    · cases hbuild : noise.buildInitiator localKey with
      | error e => simp [step, startRekey, hstate, hbuild, Unfinished, h.1 hstate]
      | ok handshake =>
        have hfresh := hstarts.fresh localKey handshake hbuild
        simp [step, startRekey, hstate, hbuild, Unfinished, hfresh]
    · simpa [step, startRekey, hstate] using h
  | completeRekey => simpa [step, completeRekey, hrekeying] using h
  | markFailed => simp [step, markFailed, Unfinished]
  | setRekeyThreshold threshold => exact h
  | setRekeyIntervalSecs intervalSecs => exact h

theorem unfinished_run (h : s.Unfinished finished) {calls : List (SessionCall H T)}
    (hstarts : ∀ call ∈ calls, Starts finished call.noise) :
    (run (step sha256) s calls).Unfinished finished :=
  run_invariant (I := Unfinished finished)
    (P := fun _ (call : SessionCall H T) => Starts finished call.noise)
    (fun _ _ hs hcall => unfinished_step hs hcall) h (along_of_forall hstarts)

theorem stuck_run (sha256 : Bytes → Key32) (h : s.Stuck finished) {calls : List (SessionCall H T)}
    (hstarts : ∀ call ∈ calls, Starts finished call.noise) :
    (run (step sha256) s calls).Stuck finished :=
  run_invariant (I := Stuck finished)
    (P := fun _ (call : SessionCall H T) => Starts finished call.noise)
    (fun _ _ hs hcall => stuck_step hs hcall) h (along_of_forall hstarts)

theorem stuck_not_canComplete (h : s.Stuck finished) : ¬ s.CanComplete sha256 finished := by
  rintro ⟨calls, hstarts, _, hestablished, _⟩
  rcases stuck_run sha256 h hstarts with hstate | ⟨hstate, _⟩
  · simp [hstate] at hestablished
  · simp [hstate] at hestablished

/-- From a session that is being rekeyed no accepted calls lead to an established one. -/
theorem rekey_not_completable (sha256 : Bytes → Key32) (finished : H → Bool)
    (noise : NoiseLibrary H T) (s : NoiseSession H T) (hcreated : Created noise s)
    (calls : List (SessionCall H T)) (hstarts : ∀ call ∈ calls, Starts finished call.noise)
    (hrekeying : (run (step sha256) s calls).state = .rekeying) :
    ¬ (run (step sha256) s calls).CanComplete sha256 finished := by
  obtain ⟨peerId, handshake, now, rfl⟩ := hcreated.eq_starting
  have hstart : (starting peerId handshake now : NoiseSession H T).Unfinished finished := by
    simp [Unfinished, starting]
  exact stuck_not_canComplete (stuck_of_rekeying (unfinished_run hstart hstarts) hrekeying)

/-- An initiator's session that is being rekeyed. -/
def rekeyedOutbound : NoiseSession (Bool × ℕ) Unit :=
  run (step fun _ => localKey) outbound (handshakeAndRekey threeMessages)

theorem starts_threeMessages : Starts (fun h => h.2 == 3) threeMessages where
  isHandshakeFinished := rfl
  fresh := by
    intro localKey handshake h
    rw [← Except.ok.inj h]
    rfl

theorem starts_handshakeAndRekey :
    ∀ call ∈ handshakeAndRekey threeMessages, Starts (fun h => h.2 == 3) call.noise := by
  intro call hcall
  simp only [handshakeAndRekey, List.mem_cons, List.not_mem_nil, or_false] at hcall
  rcases hcall with rfl | rfl | rfl | rfl <;> exact starts_threeMessages

theorem rekey_not_completable_outbound :
    ¬ rekeyedOutbound.CanComplete (fun _ => localKey) fun h => h.2 == 3 :=
  rekey_not_completable (fun _ => localKey) (fun h => h.2 == 3) threeMessages outbound
    created_outbound (handshakeAndRekey threeMessages) starts_handshakeAndRekey rfl

/-- The session has its new handshake, and refuses to write it, to read it and to complete. -/
theorem rekeyed_session_stuck :
    rekeyedOutbound.state = .rekeying ∧ rekeyedOutbound.handshake = some (true, 0) ∧
      (rekeyedOutbound.createHandshakeMessage (fun _ => localKey) threeMessages [] ⟨5⟩).2 =
        invalidPacket "Not in handshaking state" ∧
      (rekeyedOutbound.processHandshakeMessage (fun _ => localKey) threeMessages [] ⟨5⟩).2 =
        invalidPacket "Not in handshaking state" ∧
      ¬ rekeyedOutbound.CanComplete (fun _ => localKey) fun h => h.2 == 3 := by
  refine ⟨rfl, rfl, rfl, rfl, stuck_not_canComplete (.inr ⟨rfl, ?_⟩)⟩
  intro handshake h
  obtain rfl := Option.some.inj h
  rfl

end NoiseSession

end Bitchat
