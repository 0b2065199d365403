import Bitchat.FailoverQueue
import Bitchat.Rust.StableSort

/-!
# Transports that reach the recipient

A message for one peer is to go out by transports that are healthy and reach the peer. All
paths look at the health. Under load balancing the basic manager turns to the other transport
without asking whether it reaches the peer, and the rules and the scores of the advanced
manager never ask.
-/
namespace Bitchat
open Rust

def TransportType.other : TransportType → TransportType
  | .ble => .nostr
  | .nostr => .ble

/-- Whether a transport reaches the peer. -/
def PeerReachability.reaches (reach : PeerReachability) : TransportType → Bool
  | .ble => reach.bleReachable
  | .nostr => reach.nostrAvailable

namespace TransportSelection

/-- The transports that a message is sent by. -/
def transports : TransportSelection → List TransportType
  | .useTransport transport => [transport]
  | .useAll transports => transports
  | .queue => []
  | .cannotSend _ => []

/-- The message is queued or cannot be sent. -/
def Waits : TransportSelection → Prop
  | .queue => True
  | .cannotSend _ => True
  | _ => False

end TransportSelection

namespace BasicTransportManager

/-- Only healthy transports that reach the peer are used. -/
def Sound (m : BasicTransportManager) (reach : PeerReachability)
    (selection : TransportSelection) : Prop :=
  ∀ t ∈ selection.transports, m.isTransportHealthy t = true ∧ reach.reaches t = true

/-- A message waits only if no healthy transport reaches the peer. -/
def Complete (m : BasicTransportManager) (reach : PeerReachability)
    (selection : TransportSelection) : Prop :=
  selection.Waits → ∀ t, ¬ (m.isTransportHealthy t = true ∧ reach.reaches t = true)

/-- Under load balancing, only one transport reaches the peer, and only the other is healthy. -/
def FallsBackBlindly (m : BasicTransportManager) (reach : PeerReachability) : Prop :=
  m.config.routingStrategy = .loadBalance ∧ ∃ t, reach.reaches t = true ∧
    reach.reaches t.other = false ∧ m.isTransportHealthy t = false ∧
    m.isTransportHealthy t.other = true

variable {m : BasicTransportManager} {p : PeerId} {reach : PeerReachability}
  {context : MessageContext} {t : TransportType}

theorem selectTransport_of_recipient (h : context.recipient = some p) :
    m.selectTransport context = m.selectTransportForPeer p := by
  cases context <;> cases h <;> rfl

variable (reach) in
/-- Under load balancing a transport that reaches the peer is preferred, if there is one. -/
theorem preferredTransport_loadBalance {config : FailoverConfig}
    (hstrategy : config.routingStrategy = .loadBalance) :
    (∀ t, reach.preferredTransport config = some t → reach.reaches t = true) ∧
      (reach.preferredTransport config = none → ∀ t, reach.reaches t = false) := by
  obtain ⟨ble, nostr, lastBle, lastNostr⟩ := reach
  unfold PeerReachability.preferredTransport
  rw [hstrategy]
  cases ble <;> cases nostr
  · exact ⟨fun t h => (by cases h), fun _ t => by cases t <;> rfl⟩
  · exact ⟨fun t h => by cases h; rfl, fun h => (by cases h)⟩
  · exact ⟨fun t h => by cases h; rfl, fun h => (by cases h)⟩
  · refine ⟨fun t _ => by cases t <;> rfl, fun h => ?_⟩
    dsimp only at h
    split at h
    · split_ifs at h
    · cases h

/-- The other transport is used if it is healthy, and is right if it reaches the peer. -/
theorem sound_useIfHealthy : m.Sound reach (m.useIfHealthy t) ↔
    (m.isTransportHealthy t = true → reach.reaches t = true) := by
  unfold useIfHealthy
  split_ifs with hhealthy
  · simp [Sound, TransportSelection.transports, hhealthy]
  · simp [Sound, TransportSelection.transports, hhealthy]

theorem waits_useIfHealthy :
    (m.useIfHealthy t).Waits ↔ m.isTransportHealthy t = false := by
  unfold useIfHealthy
  split_ifs with hhealthy
  · simp [TransportSelection.Waits, hhealthy]
  · simp [TransportSelection.Waits, hhealthy]

/-- A single transport is right if it is healthy and reaches the peer. -/
theorem sound_useTransport : m.Sound reach (.useTransport t) ↔
    m.isTransportHealthy t = true ∧ reach.reaches t = true := by
  simp [Sound, TransportSelection.transports]

theorem sound_queue : m.Sound reach .queue := fun _ ht => nomatch ht

theorem respects_preferPrimary (hstrategy : m.config.routingStrategy = .preferPrimary)
    (hreach : m.peerReachability.lookup p = some reach) :
    m.Sound reach (m.selectTransportForPeer p) ∧
      m.Complete reach (m.selectTransportForPeer p) := by
  unfold selectTransportForPeer
  simp only [hstrategy, hreach]
  split_ifs with hble hnostr
  · obtain ⟨hreaches, hhealthy⟩ := Bool.and_eq_true_iff.mp hble
    exact ⟨sound_useTransport.mpr ⟨hhealthy, hreaches⟩, fun hwaits => hwaits.elim⟩
  · obtain ⟨hreaches, hhealthy⟩ := Bool.and_eq_true_iff.mp hnostr
    exact ⟨sound_useTransport.mpr ⟨hhealthy, hreaches⟩, fun hwaits => hwaits.elim⟩
  · refine ⟨sound_queue, fun _ t ⟨hhealthy, hreaches⟩ => ?_⟩
    cases t with
    | ble => exact hble (Bool.and_eq_true_iff.mpr ⟨hreaches, hhealthy⟩)
    | nostr => exact hnostr (Bool.and_eq_true_iff.mpr ⟨hreaches, hhealthy⟩)

theorem respects_broadcastAll (hstrategy : m.config.routingStrategy = .broadcastAll)
    (hreach : m.peerReachability.lookup p = some reach) :
    m.Sound reach (m.selectTransportForPeer p) ∧
      m.Complete reach (m.selectTransportForPeer p) := by
  set available := (if reach.bleReachable && m.isTransportHealthy .ble then [TransportType.ble]
    else []) ++ if reach.nostrAvailable && m.isTransportHealthy .nostr then [.nostr] else []
    with havailable
  have hmem (t : TransportType) :
      t ∈ available ↔ m.isTransportHealthy t = true ∧ reach.reaches t = true := by
    rw [havailable, List.mem_append, and_comm]
    cases t <;> split_ifs <;> simp_all [PeerReachability.reaches]
  have hselect : m.selectTransportForPeer p =
      if available.isEmpty then .queue else .useAll available := by
    unfold selectTransportForPeer
    simp only [hstrategy, hreach]
    rfl
  rw [hselect]
  split_ifs with hempty
  · rw [List.isEmpty_iff] at hempty
    refine ⟨sound_queue, fun _ t ht => ?_⟩
    rw [← hmem t, hempty] at ht
    cases ht
  · exact ⟨fun t ht => (hmem t).mp ht, fun hwaits => hwaits.elim⟩

/-- Under load balancing a message waits only if it must, but may go out by a transport that
does not reach the peer. -/
theorem respects_loadBalance_iff (hstrategy : m.config.routingStrategy = .loadBalance)
    (hreach : m.peerReachability.lookup p = some reach) :
    (m.Sound reach (m.selectTransportForPeer p) ↔ ¬ m.FallsBackBlindly reach) ∧
      m.Complete reach (m.selectTransportForPeer p) := by
  obtain ⟨hsome, hnone⟩ := preferredTransport_loadBalance reach hstrategy
  cases hpreferred : reach.preferredTransport m.config with
  | none =>
    have hselect : m.selectTransportForPeer p =
        .cannotSend "Peer not reachable via any transport" := by
      unfold selectTransportForPeer
      simp only [hstrategy, hreach, hpreferred]
    have hunreached := hnone hpreferred
    rw [hselect]
    refine ⟨iff_of_true (fun _ ht => nomatch ht) ?_, fun _ t ht => ?_⟩
    · rintro ⟨-, t, hreaches, -⟩
      rw [hunreached t] at hreaches
      cases hreaches
    · rw [hunreached t] at ht
      cases ht.2
  | some t =>
    have hselect : m.selectTransportForPeer p =
        if m.isTransportHealthy t then .useTransport t else m.useIfHealthy t.other := by
      unfold selectTransportForPeer
      simp only [hstrategy, hreach, hpreferred]
      cases t <;> rfl
    have hreaches := hsome t hpreferred
    rw [hselect]
    split_ifs with hhealthy
    · refine ⟨iff_of_true (sound_useTransport.mpr ⟨hhealthy, hreaches⟩) ?_,
        fun hwaits => hwaits.elim⟩
      rintro ⟨-, u, hu, hother, hill, -⟩
      cases t <;> cases u <;> simp_all [TransportType.other]
    · constructor
      · rw [sound_useIfHealthy]
        constructor
        · rintro hsound ⟨-, u, hu, hother, hill, hwell⟩
          cases t <;> cases u <;> simp_all [TransportType.other]
        · intro hblind hwell
          by_contra hmissed
          exact hblind ⟨hstrategy, t, hreaches, by simpa using hmissed, by simpa using hhealthy,
            hwell⟩
      · intro hwaits u hu
        rw [waits_useIfHealthy] at hwaits
        cases t <;> cases u <;> simp_all [TransportType.other]

/-- The basic manager lets a message wait only if it must, and uses only transports that are
healthy and reach the peer exactly if it does not fall back blindly. -/
theorem respects_selectTransport (hcontext : context.recipient = some p)
    (hreach : m.peerReachability.lookup p = some reach) :
    (m.Sound reach (m.selectTransport context) ↔ ¬ m.FallsBackBlindly reach) ∧
      m.Complete reach (m.selectTransport context) := by
  rw [selectTransport_of_recipient hcontext]
  cases hstrategy : m.config.routingStrategy with
  | preferPrimary =>
    obtain ⟨hsound, hcomplete⟩ := respects_preferPrimary hstrategy hreach
    refine ⟨iff_of_true hsound ?_, hcomplete⟩
    rintro ⟨hbalanced, -⟩
    rw [hstrategy] at hbalanced
    cases hbalanced
  | broadcastAll =>
    obtain ⟨hsound, hcomplete⟩ := respects_broadcastAll hstrategy hreach
    refine ⟨iff_of_true hsound ?_, hcomplete⟩
    rintro ⟨hbalanced, -⟩
    rw [hstrategy] at hbalanced
    cases hbalanced
  | loadBalance => exact respects_loadBalance_iff hstrategy hreach

end BasicTransportManager

namespace AdvancedTransportManager

/-- The score that a transport is chosen by, a middling one where its health is unknown. -/
def score (m : AdvancedTransportManager) (t : TransportType) : ℚ :=
  ((m.healthMonitor.lookup t).map TransportHealth.transportScore).getD (1 / 2)

/-- In the rule, each usable transport that does not reach the peer stands behind a usable one
that does. -/
def RulePrefersReaching (m : AdvancedTransportManager) (rule : RoutingRule)
    (reach : PeerReachability) : Prop :=
  ∀ front t back, rule.preferredTransport :: rule.fallbackTransports = front ++ t :: back →
    m.isUsable t = true → ¬ reach.reaches t = true →
    ∃ u ∈ front, m.isUsable u = true ∧ reach.reaches u = true

/-- Each healthy transport that does not reach the peer has a lower score than a healthy one
that does, where BLE wins a tie. -/
def ScoresPreferReaching (m : AdvancedTransportManager) (reach : PeerReachability) : Prop :=
  ∀ t, m.basicManager.isTransportHealthy t = true → ¬ reach.reaches t = true →
    ∃ u, m.basicManager.isTransportHealthy u = true ∧ reach.reaches u = true ∧
      (m.score t < m.score u ∨ m.score t = m.score u ∧ u = .ble)

/-- On the path that a message takes, transports that reach the peer come first. -/
def PrefersReaching (m : AdvancedTransportManager) (context : MessageContext)
    (reach : PeerReachability) : Prop :=
  match m.routingTable.findRule context.recipient context with
  | some rule => m.RulePrefersReaching rule reach
  | none =>
    if m.config.enablePerformanceRouting then m.ScoresPreferReaching reach
    else ¬ m.basicManager.FallsBackBlindly reach

variable {m : AdvancedTransportManager} {p : PeerId} {reach : PeerReachability}
  {context : MessageContext} {t : TransportType}

theorem sound_applyRoutingRule_iff (rule : RoutingRule) :
    m.basicManager.Sound reach (m.applyRoutingRule rule) ↔ m.RulePrefersReaching rule reach := by
  rw [RulePrefersReaching, ← find?_forall_iff, applyRoutingRule]
  cases hfind : (rule.preferredTransport :: rule.fallbackTransports).find? m.isUsable with
  | none => exact iff_of_true BasicTransportManager.sound_queue fun t ht => nomatch ht
  | some t =>
    have husable := List.find?_some hfind
    have hhealthy : m.basicManager.isTransportHealthy t = true :=
      (Bool.and_eq_true_iff.mp husable).2
    rw [BasicTransportManager.sound_useTransport, and_iff_right hhealthy]
    constructor
    · intro hreaches u hu
      rwa [← Option.some.inj hu]
    · intro h
      exact h t rfl

/-- The healthy transports with their scores, in the order in which they are looked at. -/
def scored (m : AdvancedTransportManager) : List (TransportType × ℚ) :=
  ([TransportType.ble, .nostr].filter m.basicManager.isTransportHealthy).map fun t => (t, m.score t)

theorem mem_scored {entry : TransportType × ℚ} : entry ∈ m.scored ↔
    m.basicManager.isTransportHealthy entry.1 = true ∧ m.score entry.1 = entry.2 := by
  obtain ⟨t, q⟩ := entry
  cases t <;> simp [scored]

/-- BLE is looked at before Nostr. -/
theorem ble_first {earlier later : List (TransportType × ℚ)} {best entry : TransportType × ℚ}
    (h : m.scored = earlier ++ best :: later) (hentry : entry ∈ later) : best.1 = .ble := by
  have hpair : [best, entry].Sublist m.scored := by
    rw [h]
    exact ((List.singleton_sublist.mpr hentry).cons_cons best).trans (List.sublist_append_right _ _)
  have htransports : [best.1, entry.1].Sublist [TransportType.ble, .nostr] := by
    have hfirst := hpair.map Prod.fst
    simp only [scored, List.map_map] at hfirst
    exact hfirst.trans (by simp [Function.comp_def])
  revert htransports
  cases best.1 <;> cases entry.1 <;> decide

/-- No healthy transport is better than the best one. -/
theorem best_spec {best : TransportType × ℚ} (h : m.transportScores.head? = some best) :
    m.basicManager.isTransportHealthy best.1 = true ∧
      ∀ u, m.basicManager.isTransportHealthy u = true → u ≠ best.1 →
        m.score u < m.score best.1 ∨ m.score u = m.score best.1 ∧ best.1 = .ble := by
  have hfind : m.transportScores.find? (fun _ => true) = some best := by
    cases hscores : m.transportScores with
    | nil =>
      rw [hscores] at h
      cases h
    | cons first rest =>
      rw [hscores] at h
      exact h
  have horder : RankOrder Prod.snd m.scored m.transportScores := rankOrder_sortByRank _ _
  obtain ⟨earlier, later, heq, hearlier, hlater⟩ := horder.find?_eq_some hfind
  have hbest : best ∈ m.scored := by simp [heq]
  obtain ⟨hhealthy, hscore⟩ := mem_scored.mp hbest
  refine ⟨hhealthy, fun u hu hne => ?_⟩
  have hentry : (u, m.score u) ∈ m.scored := mem_scored.mpr ⟨hu, rfl⟩
  rw [heq, List.mem_append, List.mem_cons] at hentry
  rw [hscore]
  rcases hentry with hentry | hentry | hentry
  · exact Or.inl (hearlier _ hentry rfl)
  · exact absurd (congrArg Prod.fst hentry) hne
  · rcases lt_or_eq_of_le (hlater _ hentry rfl) with hlt | hsame
    · exact Or.inl hlt
    · exact Or.inr ⟨hsame, ble_first heq hentry⟩

theorem sound_selectByPerformance_iff (hcontext : context.recipient = some p) :
    m.basicManager.Sound reach (m.selectByPerformance context) ↔ m.ScoresPreferReaching reach := by
  cases hbest : m.transportScores.head? with
  | none =>
    have hselect : m.selectByPerformance context = .queue := by
      cases context <;> cases hcontext <;> simp only [selectByPerformance, hbest]
    rw [hselect]
    refine iff_of_true BasicTransportManager.sound_queue fun t hhealthy => ?_
    have hperm : m.transportScores.Perm m.scored := perm_sortByRank _ _
    have hmem : (t, m.score t) ∈ m.transportScores :=
      hperm.mem_iff.mpr (mem_scored.mpr ⟨hhealthy, rfl⟩)
    rw [List.head?_eq_none_iff.mp hbest] at hmem
    exact absurd hmem List.not_mem_nil
  | some best =>
    have hselect : m.selectByPerformance context = .useTransport best.1 := by
      cases context <;> cases hcontext <;> simp only [selectByPerformance, hbest]
    obtain ⟨hhealthy, hothers⟩ := best_spec hbest
    rw [hselect, BasicTransportManager.sound_useTransport, and_iff_right hhealthy]
    constructor
    · intro hreaches t ht hunreached
      have hne : t ≠ best.1 := by
        rintro rfl
        exact hunreached hreaches
      exact ⟨best.1, hhealthy, hreaches, hothers t ht hne⟩
    · intro hprefers
      by_contra hunreached
      obtain ⟨u, hu, hreaches, hbeats⟩ := hprefers best.1 hhealthy hunreached
      have hne : u ≠ best.1 := by
        rintro rfl
        exact hunreached hreaches
      rcases hothers u hu hne with hlt | ⟨hsame, hble⟩
      · rcases hbeats with hlt' | ⟨hsame', -⟩
        · exact lt_asymm hlt hlt'
        · exact hlt.ne' hsame'
      · rcases hbeats with hlt' | ⟨-, hble'⟩
        · exact hlt'.ne' hsame
        · exact hne (hble'.trans hble.symm)

theorem sound_selectTransportAdvanced_iff (hcontext : context.recipient = some p)
    (hreach : m.basicManager.peerReachability.lookup p = some reach) :
    m.basicManager.Sound reach (m.selectTransportAdvanced context) ↔
      m.PrefersReaching context reach := by
  unfold selectTransportAdvanced PrefersReaching
  cases m.routingTable.findRule context.recipient context with
  | some rule => exact sound_applyRoutingRule_iff rule
  | none =>
    simp only
    split_ifs with hperformance
    · exact sound_selectByPerformance_iff hcontext
    · exact (BasicTransportManager.respects_selectTransport hcontext hreach).1

end AdvancedTransportManager

/-- For a message to a peer whose reachability is known, the basic manager uses only healthy
transports that reach the peer, and queues only if there is none, exactly if it does not fall
back blindly; the advanced one uses only healthy transports that reach the peer exactly if such
transports come first on the path that the message takes. -/
theorem selection_respects_iff (context : MessageContext) (p : PeerId)
    (hcontext : context.recipient = some p) :
    (∀ (m : BasicTransportManager) (reach : PeerReachability),
      m.peerReachability.lookup p = some reach →
      (m.Sound reach (m.selectTransport context) ∧ m.Complete reach (m.selectTransport context) ↔
        ¬ m.FallsBackBlindly reach)) ∧
    ∀ (m : AdvancedTransportManager) (reach : PeerReachability),
      m.basicManager.peerReachability.lookup p = some reach →
      (m.basicManager.Sound reach (m.selectTransportAdvanced context) ↔
        m.PrefersReaching context reach) := by
  constructor
  · intro m reach hreach
    obtain ⟨hsound, hcomplete⟩ := BasicTransportManager.respects_selectTransport hcontext hreach
    rw [and_iff_left hcomplete]
    exact hsound
  · intro m reach hreach
    exact AdvancedTransportManager.sound_selectTransportAdvanced_iff hcontext hreach

/-! ## A peer without a Nostr key -/

def meshPeer : PeerId := ⟨List.Vector.replicate 8 1⟩

/-- BLE reaches the peer but is down, Nostr is up. -/
def onlyNostrUp (strategy : BasicRoutingStrategy) : BasicTransportManager where
  config := ⟨.ble, strategy⟩
  transportStatus := (Finmap.singleton .ble .new).insert .nostr ⟨true, 0⟩
  peerReachability := Finmap.singleton meshPeer ⟨true, false, some 0, none⟩

/-- BLE reaches the peer, and both transports are up. -/
def bothUp : BasicTransportManager :=
  { onlyNostrUp .loadBalance with
    transportStatus := (Finmap.singleton .ble ⟨true, 0⟩).insert .nostr ⟨true, 0⟩ }

theorem selection_respects_iff_meshPeer :
    bothUp.selectTransport (.privateMessage meshPeer) = .useTransport .ble ∧
      bothUp.Sound ⟨true, false, some 0, none⟩
        (bothUp.selectTransport (.privateMessage meshPeer)) := by
  have careful : ¬ bothUp.FallsBackBlindly ⟨true, false, some 0, none⟩ := by
    rintro ⟨-, t, -, -, down, -⟩
    cases t <;> exact absurd down (by decide)
  exact ⟨by decide, (((selection_respects_iff (.privateMessage meshPeer) meshPeer rfl).1 bothUp
    ⟨true, false, some 0, none⟩ Finmap.lookup_singleton_eq).mpr careful).1⟩

/-- The message goes out by Nostr, under load balancing and by the scores. -/
theorem unreached_transport_used :
    (onlyNostrUp .loadBalance).peerReachability.lookup meshPeer =
        some ⟨true, false, some 0, none⟩ ∧
      (onlyNostrUp .loadBalance).selectTransport (.privateMessage meshPeer) = .useTransport .nostr ∧
      ({ AdvancedTransportManager.new .default with
          basicManager := onlyNostrUp .preferPrimary }).selectTransportAdvanced
        (.privateMessage meshPeer) = .useTransport .nostr ∧
      ¬ (onlyNostrUp .loadBalance).Sound ⟨true, false, some 0, none⟩ (.useTransport .nostr) := by
  refine ⟨Finmap.lookup_singleton_eq, by decide, by decide +kernel, fun h => ?_⟩
  have hreaches := (h .nostr (by decide)).2
  cases hreaches

end Bitchat
