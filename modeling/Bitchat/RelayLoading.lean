import Bitchat.RelayDirectory
import Bitchat.Rust.Call
import Bitchat.Rust.FloatText
import Mathlib.Data.List.Forall2

/-!
# Loading relays from a table

`GeoRelayDirectory::load_from_csv`. Each line is read and its relay added before the next
line is looked at, and an unreadable coordinate ends the loading. The relays of the lines
before it stay in the directory.
-/
namespace Bitchat
open Rust

/-- `NostrTransportError::ConfigurationError`, the one error of the loading. -/
inductive RelayTableError where
  | configurationError (reason : String)
  deriving DecidableEq

/-- The first four fields of a line, trimmed. -/
structure RelayRow where
  url : Text
  latitude : Text
  longitude : Text
  geohashPrefix : Text
  deriving DecidableEq

namespace RelayRow

/-- A line with fewer than four fields is no row. -/
def ofLine (line : Text) : Option RelayRow :=
  match split ',' line with
  | url :: latitude :: longitude :: geohashPrefix :: _ =>
    some ⟨trim url, trim latitude, trim longitude, trim geohashPrefix⟩
  | _ => none

def location (row : RelayRow) : Outcome RelayTableError (Float × Float) := do
  let lat ← okOr (parseF64 row.latitude) (.configurationError "Invalid latitude")
  let lon ← okOr (parseF64 row.longitude) (.configurationError "Invalid longitude")
  pure (lat, lon)

def relay (row : RelayRow) (location : Float × Float) : RelayInfo :=
  .untested row.url 0.8 (some location)

def Readable (row : RelayRow) : Prop := ∃ location, row.location = .ok location

/-- The relay of the row under its prefix. -/
def Describes (row : RelayRow) (addition : Text × RelayInfo) : Prop :=
  ∃ location, row.location = .ok location ∧ addition = (row.geohashPrefix, row.relay location)

end RelayRow

/-- The rows of a table, which start behind its header. -/
def relayRows (csvData : Text) : List RelayRow := ((lines csvData).drop 1).filterMap RelayRow.ofLine

/-- If the first row can be read, all of them can. -/
def ReadableThroughout (csvData : Text) : Prop :=
  ∀ first rest, relayRows csvData = first :: rest → first.Readable → ∀ row ∈ rest, row.Readable

namespace GeoRelayDirectory

def loadLines (d : GeoRelayDirectory) (loadedCount : ℕ) :
    List Text → Call RelayTableError GeoRelayDirectory ℕ
  | [] => (d, .ok loadedCount)
  | line :: rest =>
    match RelayRow.ofLine line with
    | some row => Call.andThen (d, row.location) fun d location =>
      (d.addGeoRelay row.geohashPrefix (row.relay location)).loadLines (loadedCount + 1) rest
    | none => d.loadLines loadedCount rest

def loadFromCsv (d : GeoRelayDirectory) (csvData : Text) :
    Call RelayTableError GeoRelayDirectory ℕ :=
  d.loadLines 0 ((lines csvData).drop 1)

/-- An error leaves the directory as it was, and without one the relays of the rows are added
under their prefixes in the order of the rows. -/
structure LoadsAllOrNothing (d : GeoRelayDirectory) (csvData : Text) : Prop where
  failed : ∀ e, (d.loadFromCsv csvData).2 = fail e → (d.loadFromCsv csvData).1 = d
  loaded : ∀ n, (d.loadFromCsv csvData).2 = .ok n → ∃ additions : RelayAdditions,
    List.Forall₂ RelayRow.Describes (relayRows csvData) additions ∧ n = additions.length ∧
      (∀ p, (d.loadFromCsv csvData).1.relaysOf p = d.relaysOf p ++ additions.under p) ∧
      (d.loadFromCsv csvData).1.defaultRelays = d.defaultRelays

variable {d : GeoRelayDirectory} {rows : List RelayRow} {additions : RelayAdditions}

/-- The loop over the rows alone. -/
def loadRows (d : GeoRelayDirectory) (loadedCount : ℕ) :
    List RelayRow → Call RelayTableError GeoRelayDirectory ℕ
  | [] => (d, .ok loadedCount)
  | row :: rest => Call.andThen (d, row.location) fun d location =>
      (d.addGeoRelay row.geohashPrefix (row.relay location)).loadRows (loadedCount + 1) rest

theorem loadLines_eq_loadRows (loadedCount : ℕ) (ls : List Text) :
    d.loadLines loadedCount ls = d.loadRows loadedCount (ls.filterMap RelayRow.ofLine) := by
  induction ls generalizing d loadedCount with
  | nil => rfl
  | cons line rest ih =>
    rw [loadLines]
    cases hrow : RelayRow.ofLine line with
    | none =>
      rw [List.filterMap_cons_none hrow]
      exact ih loadedCount
    | some row =>
      rw [List.filterMap_cons_some hrow, loadRows]
      refine congrArg (Call.andThen (d, row.location)) ?_
      funext d location
      exact ih (loadedCount + 1)

/-- Rows that can be read are all added before the next one is read. -/
theorem loadRows_append (h : List.Forall₂ RelayRow.Describes rows additions) (loadedCount : ℕ)
    (rest : List RelayRow) :
    d.loadRows loadedCount (rows ++ rest) =
      (d.addAll additions).loadRows (loadedCount + additions.length) rest := by
  induction h generalizing d loadedCount with
  | nil => rfl
  | @cons row addition rows additions hrow hrows ih =>
    obtain ⟨location, hlocation, rfl⟩ := hrow
    rw [List.cons_append, loadRows, hlocation, Call.andThen_ok, ih, List.length_cons,
      Nat.add_right_comm, ← Nat.add_assoc]
    rfl

theorem error_of_not_readable {row : RelayRow} (h : ¬ row.Readable) :
    ∃ e, row.location = fail e := by
  unfold RelayRow.Readable RelayRow.location at *
  cases hlat : parseF64 row.latitude with
  | none => exact ⟨_, rfl⟩
  | some lat =>
    cases hlon : parseF64 row.longitude with
    | none => exact ⟨_, rfl⟩
    | some lon =>
      refine absurd ⟨(lat, lon), ?_⟩ h
      rw [hlat, hlon]
      rfl

/-- The rows that can be read up to the first one that cannot. -/
theorem exists_readable_split (rows : List RelayRow) :
    ∃ good rest additions, rows = good ++ rest ∧
      List.Forall₂ RelayRow.Describes good additions ∧
      ∀ bad more, rest = bad :: more → ¬ bad.Readable := by
  induction rows with
  | nil => exact ⟨[], [], [], rfl, .nil, by simp⟩
  | cons row rows ih =>
    by_cases hrow : row.Readable
    · obtain ⟨location, hlocation⟩ := hrow
      obtain ⟨good, rest, additions, rfl, hgood, hrest⟩ := ih
      exact ⟨row :: good, rest, _, rfl, .cons ⟨location, hlocation, rfl⟩ hgood, hrest⟩
    · refine ⟨[], row :: rows, [], rfl, .nil, ?_⟩
      rintro bad more ⟨⟩
      exact hrow

theorem readable_of_describes (h : List.Forall₂ RelayRow.Describes rows additions) :
    ∀ row ∈ rows, row.Readable := by
  induction h with
  | nil => simp
  | cons hrow hrows ih =>
    obtain ⟨location, hlocation, -⟩ := hrow
    exact List.forall_mem_cons.mpr ⟨⟨location, hlocation⟩, ih⟩

theorem addAll_eq_self_iff : d.addAll additions = d ↔ additions = [] := by
  constructor
  · intro hsame
    cases additions with
    | nil => rfl
    | cons addition additions =>
      have hrelays := relaysOf_addAll (d := d) (addition :: additions) addition.1
      rw [hsame, List.self_eq_append_right, RelayAdditions.under_cons, if_pos rfl] at hrelays
      exact absurd hrelays (by simp)
  · rintro rfl
    rfl

/-- The rows that can be read are added, and the loading goes on behind them. -/
theorem loadFromCsv_of_split {csvData : Text} {rest : List RelayRow}
    (hrows : relayRows csvData = rows ++ rest)
    (h : List.Forall₂ RelayRow.Describes rows additions) :
    d.loadFromCsv csvData = (d.addAll additions).loadRows additions.length rest := by
  rw [loadFromCsv, loadLines_eq_loadRows, ← relayRows, hrows, loadRows_append h, Nat.zero_add]

/-- A row that cannot be read leaves the relays of the rows before it behind. -/
theorem loadFromCsv_of_not_readable {csvData : Text} {bad : RelayRow} {more : List RelayRow}
    (hrows : relayRows csvData = rows ++ bad :: more)
    (h : List.Forall₂ RelayRow.Describes rows additions) (hbad : ¬ bad.Readable) :
    ∃ e, d.loadFromCsv csvData = (d.addAll additions, fail e) := by
  obtain ⟨e, he⟩ := error_of_not_readable hbad
  refine ⟨e, ?_⟩
  rw [loadFromCsv_of_split hrows h, loadRows, he]
  rfl

theorem loadsAllOrNothing_of_describes {csvData : Text}
    (h : List.Forall₂ RelayRow.Describes (relayRows csvData) additions) :
    d.LoadsAllOrNothing csvData := by
  have hload : d.loadFromCsv csvData = (d.addAll additions, .ok additions.length) :=
    loadFromCsv_of_split (List.append_nil _).symm h
  refine ⟨?_, ?_⟩
  · intro e he
    rw [hload] at he
    exact absurd he.symm (fail_ne_ok e _)
  · intro n hn
    rw [hload] at hn ⊢
    exact ⟨additions, h, (Except.ok.inj hn).symm, relaysOf_addAll additions,
      defaultRelays_addAll additions⟩

/-- With an unreadable row, nothing may have been added before it. -/
theorem loadsAllOrNothing_iff_of_not_readable {csvData : Text} {bad : RelayRow}
    {more : List RelayRow} (hrows : relayRows csvData = rows ++ bad :: more)
    (h : List.Forall₂ RelayRow.Describes rows additions) (hbad : ¬ bad.Readable) :
    d.LoadsAllOrNothing csvData ↔ rows = [] := by
  obtain ⟨e, hfailed⟩ := loadFromCsv_of_not_readable (d := d) hrows h hbad
  constructor
  · intro hatomic
    have hsame := hatomic.failed e (congrArg Prod.snd hfailed)
    rw [hfailed, addAll_eq_self_iff] at hsame
    rwa [hsame, List.forall₂_nil_right_iff] at h
  · rintro rfl
    rw [List.forall₂_nil_left_iff] at h
    rw [h] at hfailed
    refine ⟨fun _ _ => congrArg Prod.fst hfailed, ?_⟩
    intro n hn
    rw [hfailed] at hn
    exact absurd hn (fail_ne_ok e n)

theorem readableThroughout_iff_of_not_readable {csvData : Text} {bad : RelayRow}
    {more : List RelayRow} (hrows : relayRows csvData = rows ++ bad :: more)
    (hreadable : ∀ row ∈ rows, row.Readable) (hbad : ¬ bad.Readable) :
    ReadableThroughout csvData ↔ rows = [] := by
  constructor
  · intro hthroughout
    cases rows with
    | nil => rfl
    | cons first others =>
      have hall := hthroughout first (others ++ bad :: more) hrows
        (hreadable first List.mem_cons_self)
      exact absurd (hall bad (by simp)) hbad
  · rintro rfl first others hsplit hfirst
    rw [hrows, List.nil_append, List.cons.injEq] at hsplit
    exact absurd (hsplit.1 ▸ hfirst) hbad

/-- **Loading is all or nothing for the tables whose rows can all be read or whose first row
cannot, and for no others.** -/
theorem loadsAllOrNothing_iff (d : GeoRelayDirectory) (csvData : Text) :
    d.LoadsAllOrNothing csvData ↔ ReadableThroughout csvData := by
  obtain ⟨good, rest, additions, hrows, hgood, hrest⟩ := exists_readable_split (relayRows csvData)
  have hreadable := readable_of_describes hgood
  cases rest with
  | nil =>
    rw [List.append_nil] at hrows
    refine iff_of_true (loadsAllOrNothing_of_describes (hrows ▸ hgood)) ?_
    intro first others hsplit _ row hrow
    refine hreadable row ?_
    rw [← hrows, hsplit]
    exact List.mem_cons_of_mem _ hrow
  | cons bad more =>
    have hbad := hrest bad more rfl
    rw [loadsAllOrNothing_iff_of_not_readable hrows hgood hbad,
      readableThroughout_iff_of_not_readable hrows hreadable hbad]

/-- A table in which the latitude of the second row is no number. -/
def spoiledTable : Text :=
  ("Relay URL,Latitude,Longitude,Geohash\n" ++ "wss://nos.lol,52.5,13.4,u33d\n" ++
    "wss://relay.damus.io,north,13.4,u33d\n").toList

/-- The relay of the first row is kept. -/
theorem not_loadsAllOrNothing : ¬ new.LoadsAllOrNothing spoiledTable := by
  intro hatomic
  let first : RelayRow := ⟨"wss://nos.lol".toList, "52.5".toList, "13.4".toList, "u33d".toList⟩
  let second : RelayRow :=
    ⟨"wss://relay.damus.io".toList, "north".toList, "13.4".toList, "u33d".toList⟩
  have hrows : relayRows spoiledTable = [first] ++ [second] := by decide +kernel
  obtain ⟨lat, hlat⟩ : ∃ lat, parseF64 first.latitude = some lat :=
    Option.isSome_iff_exists.mp (by decide +kernel)
  obtain ⟨lon, hlon⟩ : ∃ lon, parseF64 first.longitude = some lon :=
    Option.isSome_iff_exists.mp (by decide +kernel)
  have hnorth : parseF64 second.latitude = none := Option.isNone_iff_eq_none.mp (by decide +kernel)
  have hfirst : first.location = .ok (lat, lon) := by
    rw [RelayRow.location, hlat, hlon]
    rfl
  have hsecond : ¬ second.Readable := by
    rintro ⟨location, hlocation⟩
    rw [RelayRow.location, hnorth] at hlocation
    cases hlocation
  have hnothing := (loadsAllOrNothing_iff_of_not_readable hrows
    (.cons ⟨(lat, lon), hfirst, rfl⟩ .nil) hsecond).mp hatomic
  exact List.cons_ne_nil _ _ hnothing

end GeoRelayDirectory

end Bitchat
