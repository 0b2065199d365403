import Bitchat.Rust.Map
import Bitchat.Types

/-!
# The rate limiter

`EventWindow`, `PeerLimits` and `RateLimiter` of `rate_limiter.rs`. Instants are
nanoseconds of a monotonic clock. The order in which the peer table is
iterated, which decides between peers of equal age, is a parameter.
-/
namespace Bitchat
open Rust

structure RateLimitConfig where
  messagesPerPeerPerWindow : ℕ
  connectionsPerPeerPerWindow : ℕ
  globalMessagesPerWindow : ℕ
  globalConnectionsPerWindow : ℕ
  windowDurationSecs : ℕ
  maxTrackedPeers : ℕ

def RateLimitConfig.default : RateLimitConfig := ⟨50, 5, 1000, 100, 60, 1000⟩

def nanosPerSec : ℕ := 1000000000

structure EventWindow where
  events : List ℕ
  windowDurationSecs : ℕ
  deriving DecidableEq

namespace EventWindow

def new (windowDurationSecs : ℕ) : EventWindow := ⟨[], windowDurationSecs⟩

/-- Drops events from the front while they are older than the window. -/
def cleanupOldEvents (w : EventWindow) (instant : ℕ) : EventWindow :=
  { w with events := w.events.dropWhile fun event =>
      w.windowDurationSecs * nanosPerSec < instant - event }

/-- The count is cast to 32 bits. -/
def addEvent (w : EventWindow) (instant : ℕ) : EventWindow × ℕ :=
  let w := cleanupOldEvents { w with events := w.events ++ [instant] } instant
  (w, w.events.length % 2 ^ 32)

/-- The count of the window, without a new event. -/
def getCount (w : EventWindow) (instant : ℕ) : EventWindow × ℕ :=
  let w := cleanupOldEvents w instant
  (w, w.events.length % 2 ^ 32)

end EventWindow

structure PeerLimits where
  messageWindow : EventWindow
  connectionWindow : EventWindow
  lastAccess : ℕ
  deriving DecidableEq

def PeerLimits.new (config : RateLimitConfig) (instant : ℕ) : PeerLimits :=
  ⟨EventWindow.new config.windowDurationSecs, EventWindow.new config.windowDurationSecs, instant⟩

/-- The iteration order of a peer table. -/
abbrev PeerOrder := Map PeerId PeerLimits → List (PeerId × PeerLimits)

structure RateLimiter where
  config : RateLimitConfig
  peerLimits : Map PeerId PeerLimits
  globalMessageWindow : EventWindow
  globalConnectionWindow : EventWindow

namespace RateLimiter

def new (config : RateLimitConfig) : RateLimiter :=
  ⟨config, ∅, EventWindow.new config.windowDurationSecs, EventWindow.new config.windowDurationSecs⟩

/-- Drops peers that were not active for two windows, then the least recently
used ones beyond the limit. The doubled window must fit 64 bits. -/
def cleanupOldPeers (r : RateLimiter) (instant : ℕ) (order : PeerOrder) :
    BitchatResult RateLimiter :=
  if 2 ^ 64 ≤ r.config.windowDurationSecs * 2 then panicked
  else
    let recent := Map.retain (fun _ limits =>
      instant - limits.lastAccess < r.config.windowDurationSecs * 2 * nanosPerSec) r.peerLimits
    let byAccess := (order recent).mergeSort fun a b => a.2.lastAccess ≤ b.2.lastAccess
    let excess := (byAccess.take (Map.size recent - r.config.maxTrackedPeers)).map Prod.fst
    .ok { r with peerLimits := excess.foldl (fun limits peerId => limits.erase peerId) recent }

/-- The check that both kinds of events pass through: the global window, the
clean-up, and the window of the peer. -/
def check (globalCount globalLimit peerLimit : ℕ) (kind : String)
    (addPeerEvent : PeerLimits → PeerLimits × ℕ) (r : RateLimiter) (peerId : PeerId)
    (instant : ℕ) (order : PeerOrder) : RateLimiter × BitchatResult Unit :=
  let window := toString r.config.windowDurationSecs
  if globalLimit < globalCount then
    (r, fail (.rateLimited ("Global " ++ kind ++ " rate limit exceeded: " ++
      toString globalCount ++ " " ++ kind ++ "s in " ++ window ++ "s window")))
  else
    match r.cleanupOldPeers instant order with
    | .error e => (r, .error e)
    | .ok r =>
      let limits := (r.peerLimits.lookup peerId).getD (PeerLimits.new r.config instant)
      let added := addPeerEvent { limits with lastAccess := instant }
      ({ r with peerLimits := r.peerLimits.insert peerId added.1 },
        failIf (peerLimit < added.2) (.rateLimited ("Peer " ++ peerId.display ++ " " ++ kind ++
          " rate limit exceeded: " ++ toString added.2 ++ " " ++ kind ++ "s in " ++ window ++
          "s window")))

def addMessageEvent (instant : ℕ) (limits : PeerLimits) : PeerLimits × ℕ :=
  ({ limits with messageWindow := (limits.messageWindow.addEvent instant).1 },
    (limits.messageWindow.addEvent instant).2)

def addConnectionEvent (instant : ℕ) (limits : PeerLimits) : PeerLimits × ℕ :=
  ({ limits with connectionWindow := (limits.connectionWindow.addEvent instant).1 },
    (limits.connectionWindow.addEvent instant).2)

def checkMessageAllowed (r : RateLimiter) (peerId : PeerId) (instant : ℕ) (order : PeerOrder) :
    RateLimiter × BitchatResult Unit :=
  let added := r.globalMessageWindow.addEvent instant
  check added.2 r.config.globalMessagesPerWindow r.config.messagesPerPeerPerWindow "message"
    (addMessageEvent instant) { r with globalMessageWindow := added.1 } peerId instant order

def checkConnectionAllowed (r : RateLimiter) (peerId : PeerId) (instant : ℕ) (order : PeerOrder) :
    RateLimiter × BitchatResult Unit :=
  let added := r.globalConnectionWindow.addEvent instant
  check added.2 r.config.globalConnectionsPerWindow r.config.connectionsPerPeerPerWindow
    "connection" (addConnectionEvent instant) { r with globalConnectionWindow := added.1 } peerId
    instant order

end RateLimiter

structure RateLimitStats where
  globalMessagesInWindow : ℕ
  globalConnectionsInWindow : ℕ
  trackedPeers : ℕ
  config : RateLimitConfig

/-- The calls on a rate limiter. -/
inductive LimiterCall where
  | message (peerId : PeerId)
  | connection (peerId : PeerId)
  | stats
  deriving DecidableEq

/-- A call with the time and the iteration order that it meets. -/
structure LimiterInput where
  call : LimiterCall
  instant : ℕ
  order : PeerOrder

inductive LimiterAnswer where
  | checked (result : BitchatResult Unit)
  | stats (result : BitchatResult RateLimitStats)

namespace RateLimiter

def getStats (r : RateLimiter) (instant : ℕ) (order : PeerOrder) :
    RateLimiter × BitchatResult RateLimitStats :=
  match r.cleanupOldPeers instant order with
  | .error e => (r, .error e)
  | .ok r =>
    let messages := r.globalMessageWindow.getCount instant
    let connections := r.globalConnectionWindow.getCount instant
    ({ r with globalMessageWindow := messages.1, globalConnectionWindow := connections.1 },
      .ok ⟨messages.2, connections.2, Map.size r.peerLimits, r.config⟩)

def step (r : RateLimiter) (i : LimiterInput) : RateLimiter × LimiterAnswer :=
  match i.call with
  | .message peerId => (r.checkMessageAllowed peerId i.instant i.order).map id .checked
  | .connection peerId => (r.checkConnectionAllowed peerId i.instant i.order).map id .checked
  | .stats => (r.getStats i.instant i.order).map id .stats

end RateLimiter

end Bitchat
