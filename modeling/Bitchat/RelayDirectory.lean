import Bitchat.Rust.Map
import Bitchat.Rust.Str
import Bitchat.Types

/-!
# The geographic relay directory

`GeoRelayDirectory` of the Nostr transport's `relay_manager.rs`. Relays are stored under
prefixes of geohashes, and a look-up cuts the geohash one byte at a time. It panics at a
byte inside a character, unless it has found enough relays by then.
-/
namespace Bitchat
open Rust

inductive RelayHealth where
  | healthy | degraded | unhealthy | unknown
  deriving DecidableEq

structure RelayCapabilities where
  supportsNip04 : Bool
  supportsNip17 : Bool
  supportsCustomKinds : Bool
  maxEventSize : Option ℕ
  rateLimitPerMinute : Option ℕ
  requiresPayment : Bool
  deriving DecidableEq

/-- `RelayCapabilities::default()`. -/
def RelayCapabilities.standard : RelayCapabilities := ⟨true, false, true, some 65535, none, false⟩

structure RelayStats where
  connectionAttempts : ℕ
  successfulConnections : ℕ
  eventsSent : ℕ
  eventsFailed : ℕ
  averageLatencyMs : Option ℕ
  lastLatencyMs : Option ℕ
  bytesSent : ℕ
  bytesReceived : ℕ
  deriving DecidableEq

/-- `RelayStats::default()`. -/
def RelayStats.zero : RelayStats := ⟨0, 0, 0, 0, none, none, 0, 0⟩

structure RelayInfo where
  url : Text
  health : RelayHealth
  capabilities : RelayCapabilities
  privacyScore : Float
  location : Option (Float × Float)
  stats : RelayStats
  lastConnectionAttempt : Option Timestamp
  lastSuccess : Option Timestamp
  consecutiveFailures : ℕ
  isConnected : Bool

/-- A relay that nothing is known of yet. -/
def RelayInfo.untested (url : Text) (privacyScore : Float) (location : Option (Float × Float)) :
    RelayInfo where
  url := url
  health := .unknown
  capabilities := .standard
  privacyScore := privacyScore
  location := location
  stats := .zero
  lastConnectionAttempt := none
  lastSuccess := none
  consecutiveFailures := 0
  isConnected := false

structure GeoRelayDirectory where
  geoRelays : Map Text (List RelayInfo)
  defaultRelays : List RelayInfo

/-- Relays in the order in which they are added, each with the prefix that it is added under. -/
abbrev RelayAdditions := List (Text × RelayInfo)

namespace GeoRelayDirectory

def getDefaultRelays : List RelayInfo :=
  ["wss://relay.damus.io", "wss://nostr-relay.wlvs.space", "wss://nostr.fmt.wiz.biz",
    "wss://relay.nostr.band", "wss://nos.lol"].map fun url =>
      .untested url.toList 0.7 none

def new : GeoRelayDirectory := ⟨∅, getDefaultRelays⟩

/-- The relays stored under a prefix. -/
def relaysOf (d : GeoRelayDirectory) (geohashPrefix : Text) : List RelayInfo :=
  (d.geoRelays.lookup geohashPrefix).getD []

def addGeoRelay (d : GeoRelayDirectory) (geohashPrefix : Text) (relay : RelayInfo) :
    GeoRelayDirectory :=
  { d with geoRelays := d.geoRelays.insert geohashPrefix (d.relaysOf geohashPrefix ++ [relay]) }

def addAll (d : GeoRelayDirectory) (additions : RelayAdditions) : GeoRelayDirectory :=
  additions.foldl (fun d addition => d.addGeoRelay addition.1 addition.2) d

/-- The prefixes of at most so many bytes, from the longest on. -/
def closestFrom (d : GeoRelayDirectory) (geohash : Text) (count : ℕ) :
    ℕ → Outcome Empty (List RelayInfo)
  | 0 => .ok (d.defaultRelays.take count)
  | n + 1 => do
    let geohashPrefix ← strTo geohash (n + 1)
    match d.geoRelays.lookup geohashPrefix with
    | some relays =>
      if count ≤ relays.length then pure (relays.take count) else d.closestFrom geohash count n
    | none => d.closestFrom geohash count n

def closestRelays (d : GeoRelayDirectory) (geohash : Text) (count : ℕ) :
    Outcome Empty (List RelayInfo) :=
  d.closestFrom geohash count geohash.size

end GeoRelayDirectory

namespace RelayAdditions

/-- The relays added under a prefix. -/
def under (additions : RelayAdditions) (geohashPrefix : Text) : List RelayInfo :=
  (additions.filter fun addition => addition.1 = geohashPrefix).map Prod.snd

/-- The prefix is an area that at least `count` relays were added under. -/
def Serves (additions : RelayAdditions) (count : ℕ) (geohashPrefix : Text) : Prop :=
  geohashPrefix ≠ [] ∧ count ≤ (additions.under geohashPrefix).length

/-- The first relays of the longest prefix that serves, or the first default relays if no
prefix does. -/
def Closest (additions : RelayAdditions) (geohash : Text) (count : ℕ) (relays : List RelayInfo) :
    Prop :=
  (∃ area, area <+: geohash ∧ additions.Serves count area ∧
    (∀ other, other <+: geohash → additions.Serves count other → other.length ≤ area.length) ∧
    relays = (additions.under area).take count) ∨
  ((∀ other, other <+: geohash → ¬ additions.Serves count other) ∧
    relays = GeoRelayDirectory.getDefaultRelays.take count)

/-- Each character of more than one byte lies in a prefix that serves. -/
def CoversWide (additions : RelayAdditions) (geohash : Text) (count : ℕ) : Prop :=
  ∀ before c after, geohash = before ++ c :: after → 1 < c.utf8Size →
    ∃ area, before ++ [c] <+: area ∧ area <+: geohash ∧ additions.Serves count area

variable {additions : RelayAdditions} {geohash : Text} {c : Char} {count : ℕ}
  {relays : List RelayInfo}

theorem under_cons (geohashPrefix : Text) (relay : RelayInfo) (additions : RelayAdditions)
    (p : Text) :
    under ((geohashPrefix, relay) :: additions) p =
      (if p = geohashPrefix then [relay] else []) ++ additions.under p := by
  by_cases hp : p = geohashPrefix
  · simp [under, hp]
  · simp [under, hp, Ne.symm hp]

/-- A text that serves as a whole is the most specific area. -/
theorem closest_of_serves (h : additions.Serves count geohash) :
    additions.Closest geohash count relays ↔
      relays = (additions.under geohash).take count := by
  constructor
  · rintro (⟨area, harea, -, hlongest, rfl⟩ | ⟨hnone, -⟩)
    · have hsame : area = geohash :=
        harea.eq_of_length_le (hlongest geohash List.prefix_rfl h)
      rw [hsame]
    · exact absurd h (hnone geohash List.prefix_rfl)
  · intro hrelays
    exact .inl ⟨geohash, List.prefix_rfl, h, fun _ hother _ => hother.length_le, hrelays⟩

/-- A text that does not serve as a whole has the areas of the text without its last
character. -/
theorem closest_concat (h : ¬ additions.Serves count (geohash ++ [c])) :
    additions.Closest (geohash ++ [c]) count relays ↔ additions.Closest geohash count relays := by
  have hareas : ∀ area, area <+: geohash ++ [c] ∧ additions.Serves count area ↔
      area <+: geohash ∧ additions.Serves count area := by
    intro area
    rw [List.prefix_concat_iff]
    constructor
    · rintro ⟨rfl | harea, hserves⟩
      · exact absurd hserves h
      · exact ⟨harea, hserves⟩
    · rintro ⟨harea, hserves⟩
      exact ⟨.inr harea, hserves⟩
  have hevery : ∀ P : Text → Prop,
      (∀ area, area <+: geohash ++ [c] → additions.Serves count area → P area) ↔
        ∀ area, area <+: geohash → additions.Serves count area → P area := by
    intro P
    refine forall_congr' fun area => ?_
    rw [← and_imp, hareas, and_imp]
  unfold Closest
  refine or_congr (exists_congr fun area => ?_) (and_congr_left fun _ => hevery fun _ => False)
  rw [← and_assoc, hareas, hevery, and_assoc]

theorem coversWide_of_serves (h : additions.Serves count geohash) :
    additions.CoversWide geohash count := by
  rintro before c after rfl -
  refine ⟨_, ?_, List.prefix_rfl, h⟩
  exact ⟨after, by rw [List.append_assoc, List.singleton_append]⟩

theorem coversWide_concat (h : ¬ additions.Serves count (geohash ++ [c])) :
    additions.CoversWide (geohash ++ [c]) count ↔
      c.utf8Size = 1 ∧ additions.CoversWide geohash count := by
  constructor
  · intro hcovers
    constructor
    · by_contra hwide
      have hpos := c.utf8Size_pos
      obtain ⟨area, hin, harea, hserves⟩ := hcovers geohash c [] rfl (by omega)
      have hsame : area = geohash ++ [c] := (harea.eq_of_length_le hin.length_le)
      exact h (hsame ▸ hserves)
    · rintro before c' after rfl hwide
      obtain ⟨area, hin, harea, hserves⟩ := hcovers before c' (after ++ [c]) (by simp) hwide
      rcases List.prefix_concat_iff.mp harea with rfl | harea
      · exact absurd hserves h
      · exact ⟨area, hin, harea, hserves⟩
  · rintro ⟨hnarrow, hcovers⟩ before c' after hsplit hwide
    rcases List.eq_nil_or_concat' after with rfl | ⟨earlier, last, rfl⟩
    · obtain ⟨-, hlast⟩ := List.append_inj' hsplit rfl
      rw [← List.singleton_inj.mp hlast, hnarrow] at hwide
      exact absurd hwide (lt_irrefl 1)
    · have hsplit' : geohash ++ [c] = (before ++ c' :: earlier) ++ [last] := by
        rw [hsplit, List.append_assoc, List.cons_append]
      obtain ⟨hgeohash, -⟩ := List.append_inj' hsplit' rfl
      obtain ⟨area, hin, harea, hserves⟩ := hcovers before c' earlier hgeohash hwide
      exact ⟨area, hin, harea.trans (List.prefix_append geohash [c]), hserves⟩

end RelayAdditions

namespace GeoRelayDirectory

variable {d : GeoRelayDirectory} {geohash : Text} {count : ℕ}

theorem relaysOf_addGeoRelay (geohashPrefix : Text) (relay : RelayInfo) (p : Text) :
    (d.addGeoRelay geohashPrefix relay).relaysOf p =
      d.relaysOf p ++ if p = geohashPrefix then [relay] else [] := by
  rw [relaysOf, addGeoRelay, Map.lookup_insert_if]
  split_ifs with hp
  · rw [Option.getD_some, hp]
  · rw [List.append_nil, relaysOf]

/-- What is found under a prefix are the relays added under it, in their order. -/
theorem relaysOf_addAll (additions : RelayAdditions) (p : Text) :
    (d.addAll additions).relaysOf p = d.relaysOf p ++ additions.under p := by
  induction additions generalizing d with
  | nil => simp [addAll, RelayAdditions.under]
  | cons addition additions ih =>
    have hrest := ih (d := d.addGeoRelay addition.1 addition.2)
    rw [relaysOf_addGeoRelay, List.append_assoc, ← RelayAdditions.under_cons] at hrest
    exact hrest

theorem defaultRelays_addAll (additions : RelayAdditions) :
    (d.addAll additions).defaultRelays = d.defaultRelays := by
  induction additions generalizing d with
  | nil => rfl
  | cons addition additions ih => exact ih

/-- A prefix with no relays is skipped like one that is not stored. -/
theorem closestFrom_succ (hcount : 1 ≤ count) (n : ℕ) :
    d.closestFrom geohash count (n + 1) = strTo geohash (n + 1) >>= fun geohashPrefix =>
      if count ≤ (d.relaysOf geohashPrefix).length then
        .ok ((d.relaysOf geohashPrefix).take count)
      else d.closestFrom geohash count n := by
  rw [closestFrom]
  congr
  funext geohashPrefix
  unfold relaysOf
  cases d.geoRelays.lookup geohashPrefix with
  | some relays => rfl
  | none => rw [Option.getD_none, List.length_nil, if_neg (by omega)]

theorem closestFrom_append (geohash' : Text) {n : ℕ} (h : n ≤ geohash.size) :
    d.closestFrom (geohash ++ geohash') count n = d.closestFrom geohash count n := by
  induction n with
  | zero => rfl
  | succ n ih =>
    rw [closestFrom, closestFrom, strTo_append geohash' h, ih (by omega)]

/-- One character is cut off if the text does not serve as a whole. -/
theorem closestRelays_concat (hcount : 1 ≤ count) (c : Char) :
    d.closestRelays (geohash ++ [c]) count =
      if count ≤ (d.relaysOf (geohash ++ [c])).length then
        .ok ((d.relaysOf (geohash ++ [c])).take count)
      else if c.utf8Size = 1 then d.closestRelays geohash count
      else panicked := by
  have hpos := c.utf8Size_pos
  obtain ⟨k, hk⟩ : ∃ k, c.utf8Size = k + 1 := ⟨c.utf8Size - 1, by omega⟩
  have hwhole : (geohash ++ [c]).size = geohash.size + k + 1 := by
    rw [Text.size_concat, hk, Nat.add_assoc]
  rw [closestRelays, hwhole, closestFrom_succ hcount, ← hwhole, strTo_size, ok_bind]
  refine ite_congr rfl (fun _ => rfl) fun _ => ?_
  cases k with
  | zero =>
    rw [if_pos hk, closestRelays, Nat.add_zero]
    exact closestFrom_append [c] (le_refl geohash.size)
  | succ k =>
    rw [if_neg (by omega), ← Nat.add_assoc, closestFrom_succ hcount, Nat.add_assoc,
      strTo_inside geohash (by omega) (by omega), panicked_bind]

/-- **A look-up in the relays that were added gives the first ones of the most specific area
exactly if each wide character lies in an area with enough relays.** -/
theorem closestRelays_iff (additions : RelayAdditions) (geohash : Text) {count : ℕ}
    (hcount : 1 ≤ count) :
    (∃ relays, (new.addAll additions).closestRelays geohash count = .ok relays ∧
        additions.Closest geohash count relays) ↔
      additions.CoversWide geohash count := by
  have hrelays : ∀ p, (new.addAll additions).relaysOf p = additions.under p :=
    fun p => relaysOf_addAll additions p
  induction geohash using List.reverseRecOn with
  | nil =>
    have hnone : ∀ other, other <+: [] → ¬ additions.Serves count other :=
      fun other hother hserves => hserves.1 (List.prefix_nil.mp hother)
    refine iff_of_true ⟨_, ?_, .inr ⟨hnone, rfl⟩⟩ ?_
    · rw [closestRelays, Text.size_nil, closestFrom, defaultRelays_addAll, new]
    · intro before c after hsplit
      simp at hsplit
  | append_singleton geohash c ih =>
    rw [closestRelays_concat hcount, hrelays]
    by_cases henough : count ≤ (additions.under (geohash ++ [c])).length
    · have hserves : additions.Serves count (geohash ++ [c]) := ⟨by simp, henough⟩
      rw [if_pos henough]
      exact iff_of_true ⟨_, rfl, (RelayAdditions.closest_of_serves hserves).mpr rfl⟩
        (RelayAdditions.coversWide_of_serves hserves)
    · have hserves : ¬ additions.Serves count (geohash ++ [c]) := fun h => henough h.2
      rw [if_neg henough, RelayAdditions.coversWide_concat hserves]
      split_ifs with hnarrow
      · rw [and_iff_right hnarrow]
        refine Iff.trans ?_ ih
        simp only [RelayAdditions.closest_concat hserves]
      · refine iff_of_false ?_ fun h => hnarrow h.1
        rintro ⟨relays, hpanic, -⟩
        exact panicked_ne_ok relays hpanic

/-- An area that ends in a wide character, and a geohash that goes on behind it. -/
theorem closestRelays_behind_wide :
    let additions : RelayAdditions := [(['é'], .untested "wss://nos.lol".toList 0.8 none)]
    ∃ relays, (new.addAll additions).closestRelays ['é', 'u'] 1 = .ok relays ∧
      additions.Closest ['é', 'u'] 1 relays := by
  intro additions
  refine (closestRelays_iff additions ['é', 'u'] (by decide)).mpr ?_
  have hwhole : ¬ additions.Serves 1 (['é'] ++ ['u']) := fun h => absurd h.2 (by decide)
  have harea : additions.Serves 1 ['é'] := ⟨by decide, by decide⟩
  exact (RelayAdditions.coversWide_concat hwhole).mpr
    ⟨by decide, RelayAdditions.coversWide_of_serves harea⟩

/-- In a new directory the look-up for a wide character panics. -/
theorem closestRelays_wide_panics :
    (new.addAll []).closestRelays ['é'] 1 = panicked ∧
      ¬ ∃ relays, (new.addAll []).closestRelays ['é'] 1 = .ok relays ∧
        RelayAdditions.Closest [] ['é'] 1 relays := by
  have hpanic : (new.addAll []).closestRelays ['é'] 1 = panicked := by
    rw [← List.nil_append ['é'], closestRelays_concat le_rfl, relaysOf_addAll]
    rfl
  refine ⟨hpanic, ?_⟩
  rintro ⟨relays, hok, -⟩
  rw [hpanic] at hok
  exact panicked_ne_ok relays hok

end GeoRelayDirectory

end Bitchat
