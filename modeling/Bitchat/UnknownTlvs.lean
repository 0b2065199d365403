import Bitchat.Announce

/-!
# Entries of unknown types

A newer version may write entries that this one does not know, between those that it
does. The length of an unknown entry is known all the same, so that it could be passed
over; the decoder stops at its type instead and refuses the announcement.
-/
namespace Bitchat
open Rust

/-- An entry of any type, known or not. -/
structure RawTlv where
  typeByte : UInt8
  value : Bytes
  deriving DecidableEq

namespace RawTlv

def encode (raw : RawTlv) : Bytes :=
  [raw.typeByte] ++ u16ToBeBytes (UInt16.ofNat raw.value.length) ++ raw.value

def ofEntry (entry : TlvEntry) : RawTlv := ⟨entry.tlvType.asU8, entry.value⟩

/-- The type is one of the four. -/
def isKnown (raw : RawTlv) : Bool := raw.typeByte ∈ ([1, 2, 3, 4] : List UInt8)

theorem isKnown_ofEntry (entry : TlvEntry) : (ofEntry entry).isKnown = true := by
  obtain ⟨tlvType, value⟩ := entry
  cases tlvType <;> rfl

theorem flatMap_ofEntry (entries : List TlvEntry) :
    (entries.map ofEntry).flatMap encode = entries.flatMap TlvEntry.encode :=
  List.flatMap_map ..

end RawTlv

namespace TlvCodec

/-- Entries of unknown types between those of a codec. All of their lengths fit. -/
structure Extension (codec : TlvCodec) where
  entries : List RawTlv
  known : entries.filter RawTlv.isKnown = codec.entries.map RawTlv.ofEntry
  fits : ∀ raw ∈ entries, raw.isKnown = false → raw.value.length < 2 ^ 16

namespace Extension

variable {codec : TlvCodec}

def encode (extension : codec.Extension) : Bytes := extension.entries.flatMap RawTlv.encode

/-- The entries that the codec does not have. -/
def inserted (extension : codec.Extension) : List RawTlv :=
  extension.entries.filter fun raw => !raw.isKnown

/-- Without insertions there is nothing but the entries of the codec. -/
theorem encode_of_inserted_nil {extension : codec.Extension} (h : extension.inserted = []) :
    extension.encode = codec.encode := by
  have hall : ∀ raw ∈ extension.entries, raw.isKnown = true := by
    intro raw hraw
    simpa using List.filter_eq_nil_iff.mp h raw hraw
  have hsame : extension.entries = codec.entries.map RawTlv.ofEntry := by
    rw [← extension.known, List.filter_eq_self.mpr hall]
  rw [encode, hsame, RawTlv.flatMap_ofEntry]
  rfl

/-- In front of the first insertion there are some first entries of the codec. -/
theorem encode_of_inserted {extension : codec.Extension} (h : extension.inserted ≠ []) :
    ∃ first later raw rest, codec.entries = first ++ later ∧ raw.isKnown = false ∧
      extension.encode = first.flatMap TlvEntry.encode ++ (RawTlv.encode raw ++ rest) := by
  obtain ⟨raw, hraw⟩ := List.exists_mem_of_ne_nil _ h
  have hfound : (extension.entries.find? fun raw => !raw.isKnown).isSome := by
    rw [List.find?_isSome]
    exact ⟨raw, List.mem_filter.mp hraw⟩
  obtain ⟨raw, hfirst⟩ := Option.isSome_iff_exists.mp hfound
  obtain ⟨hunknown, before, rest, hsplit, hbefore⟩ := List.find?_eq_some_iff_append.mp hfirst
  have hunknown : raw.isKnown = false := by simpa using hunknown
  have hbefore : ∀ raw ∈ before, raw.isKnown = true := by simpa using hbefore
  have hknown := extension.known
  rw [hsplit, List.filter_append, List.filter_eq_self.mpr hbefore] at hknown
  obtain ⟨first, later, hentries, hmap, -⟩ := List.map_eq_append_iff.mp hknown.symm
  refine ⟨first, later, raw, rest.flatMap RawTlv.encode, hentries, hunknown, ?_⟩
  rw [encode, hsplit, List.flatMap_append, List.flatMap_cons, ← hmap, RawTlv.flatMap_ofEntry]

end Extension

/-- Two entries that fit and start the same data are the same. -/
theorem entry_unique {entry entry' : TlvEntry} {rest rest' : Bytes} (hfits : entry.Fits)
    (hfits' : entry'.Fits) (h : entry.encode ++ rest = entry'.encode ++ rest') :
    entry = entry' := by
  have hread := slice_middle (ε := BitchatError) [] entry.encode rest
  have hread' := slice_middle (ε := BitchatError) [] entry'.encode rest'
  simp only [List.nil_append, List.length_nil, Nat.zero_add] at hread hread'
  rw [← h] at hread'
  have hdecoded := TlvEntry.decode_eq_ok.mpr ⟨hfits, hread⟩
  have hdecoded' := TlvEntry.decode_eq_ok.mpr ⟨hfits', hread'⟩
  rw [hdecoded] at hdecoded'
  exact (Prod.mk.inj (Except.ok.inj hdecoded')).1

/-- Entries that start the data are the first entries of it. -/
theorem entries_of_prefix {first entries : List TlvEntry} {rest : Bytes}
    (hfirst : ∀ entry ∈ first, entry.Fits) (hentries : ∀ entry ∈ entries, entry.Fits)
    (h : first.flatMap TlvEntry.encode ++ rest = entries.flatMap TlvEntry.encode) :
    ∃ later, entries = first ++ later ∧ rest = later.flatMap TlvEntry.encode := by
  induction first generalizing entries with
  | nil => exact ⟨entries, rfl, h⟩
  | cons entry first ih =>
    obtain ⟨hentry, hfirst⟩ := List.forall_mem_cons.mp hfirst
    rw [List.flatMap_cons, List.append_assoc] at h
    cases entries with
    | nil =>
      have hlength := congrArg List.length h
      simp at hlength
    | cons other entries =>
      obtain ⟨hother, htail⟩ := List.forall_mem_cons.mp hentries
      rw [List.flatMap_cons] at h
      obtain rfl := entry_unique hentry hother h
      obtain ⟨later, rfl, hrest⟩ := ih hfirst htail (List.append_cancel_left h)
      exact ⟨later, rfl, hrest⟩

/-- Behind entries that fit an unknown one does not decode. -/
theorem decode_unknown_ne_ok {first : List TlvEntry} {raw : RawTlv} (rest : Bytes)
    (hfirst : ∀ entry ∈ first, entry.Fits) (hraw : raw.isKnown = false) (codec : TlvCodec) :
    decode (first.flatMap TlvEntry.encode ++ (raw.encode ++ rest)) ≠ .ok codec := by
  intro h
  obtain ⟨hfits, hdata⟩ := decode_eq_ok.mp h
  obtain ⟨later, -, hlater⟩ := entries_of_prefix hfirst hfits hdata
  cases later with
  | nil => simp [RawTlv.encode] at hlater
  | cons entry later =>
    have htype : raw.typeByte = entry.tlvType.asU8 := by
      simpa [RawTlv.encode, TlvEntry.encode] using congrArg List.head? hlater
    have hknown := RawTlv.isKnown_ofEntry entry
    rw [RawTlv.isKnown, RawTlv.ofEntry, ← htype] at hknown
    rw [RawTlv.isKnown, hknown] at hraw
    exact absurd hraw (by decide)

end TlvCodec

namespace AnnouncePayload

/-- Only the neighbours, which come last, can be too many for their length. -/
theorem fits_dropLast {payload : AnnouncePayload} (hnickname : payload.nickname.size ≤ 255) :
    ∀ entry ∈ payload.codec.entries.dropLast, entry.Fits := by
  have hshort : (TlvEntry.mk .nickname payload.nickname.asBytes).Fits :=
    Nat.lt_of_le_of_lt hnickname (by decide)
  have hnoise := TlvEntry.fits_ofNoisePublicKey payload.noisePublicKey
  have hsigning := TlvEntry.fits_ofSigningPublicKey payload.signingPublicKey
  unfold codec
  cases payload.directNeighbors with
  | none => simp [hshort, hnoise]
  | some keys => simp [hshort, hnoise, hsigning]

/-- Whatever decodes without insertions does not decode with them. -/
theorem decode_extension_ne_ok {payload p q : AnnouncePayload} {data : Bytes}
    (h : payload.encode = .ok data) {extension : payload.codec.Extension}
    (hinserted : extension.inserted ≠ []) (hp : decode data = .ok p) :
    decode extension.encode ≠ .ok q := by
  obtain ⟨hnickname, rfl⟩ := encode_eq_ok.mp h
  obtain ⟨first, later, raw, rest, hentries, hraw, hencode⟩ :=
    TlvCodec.Extension.encode_of_inserted hinserted
  intro hq
  obtain ⟨codec, hcodec, -⟩ := decode_eq_ok.mp hq
  rw [hencode] at hcodec
  by_cases hlater : later = []
  · -- The neighbours may be too many, and their keys may be read as further entries.
    obtain ⟨whole, hwhole, -⟩ := decode_eq_ok.mp hp
    obtain ⟨hfits, hdata⟩ := TlvCodec.decode_eq_ok.mp hwhole
    rw [hlater, List.append_nil] at hentries
    have hfirst : first.flatMap TlvEntry.encode = whole.entries.flatMap TlvEntry.encode := by
      rw [← hentries]
      exact hdata
    rw [hfirst] at hcodec
    exact TlvCodec.decode_unknown_ne_ok rest hfits hraw codec hcodec
  · have hdropped := fits_dropLast hnickname
    rw [hentries, List.dropLast_append_of_ne_nil hlater] at hdropped
    have hfirst : ∀ entry ∈ first, entry.Fits := fun entry hentry =>
      hdropped entry (List.mem_append_left _ hentry)
    exact TlvCodec.decode_unknown_ne_ok rest hfirst hraw codec hcodec

/-- An announcement decodes to the same payload as without insertions exactly if there are
none, and to the payload that was encoded if moreover its neighbours fit. -/
theorem decode_extension_iff (payload : AnnouncePayload) (data : Bytes)
    (h : payload.encode = .ok data) (extension : payload.codec.Extension) :
    (∀ p, decode data = .ok p →
      (decode extension.encode = .ok p ↔ extension.inserted = [])) ∧
    (decode extension.encode = .ok payload ↔
      extension.inserted = [] ∧ payload.neighborCount ≤ 2047) := by
  have hsame (hnone : extension.inserted = []) : extension.encode = data := by
    rw [TlvCodec.Extension.encode_of_inserted_nil hnone]
    exact (encode_eq_ok.mp h).2.symm
  constructor
  · intro p hp
    constructor
    · intro hdecoded
      by_contra hinserted
      exact decode_extension_ne_ok h hinserted hp hdecoded
    · intro hnone
      rw [hsame hnone]
      exact hp
  · constructor
    · intro hdecoded
      have hcount := neighborCount_of_decode hdecoded
      refine ⟨?_, hcount⟩
      by_contra hinserted
      exact decode_extension_ne_ok h hinserted ((decode_encode_iff h).mpr hcount) hdecoded
    · rintro ⟨hnone, hcount⟩
      rw [hsame hnone]
      exact (decode_encode_iff h).mpr hcount

/-- Nothing is inserted into the announcement of `alice`. -/
def aliceAlone : alice.codec.Extension where
  entries := alice.codec.entries.map RawTlv.ofEntry
  known := by decide +kernel
  fits := by decide +kernel

theorem decode_extension_alice : decode aliceAlone.encode = .ok alice :=
  ((decode_extension_iff alice alice.codec.encode rfl aliceAlone).2).mpr (by decide +kernel)

/-- A newer version adds an empty entry of type 5. -/
def aliceNewer : alice.codec.Extension where
  entries := alice.codec.entries.map RawTlv.ofEntry ++ [⟨5, []⟩]
  known := by decide +kernel
  fits := by decide +kernel

theorem unknown_entry_refused :
    alice.encode = .ok alice.codec.encode ∧ decode alice.codec.encode = .ok alice ∧
      decode aliceNewer.encode = fail (.invalidTlvType 5) := by
  decide +kernel

end AnnouncePayload

end Bitchat
