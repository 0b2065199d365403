import Bitchat.Rust.BigEndian

/-!
# Readers at a running offset

A reader takes bytes and an offset to a value and the offset behind it. How it adds to
the offset is a parameter: without a bound, unless the parameter is given. A reader
recognizes a format when it reads exactly the values that fit the format, exactly
where they are written. Recognition composes along sequences, options and lists, and
gives both directions of a round trip at once.
-/
namespace Rust

abbrev Reader (ε α : Type) := Bytes → ℕ → Outcome ε (α × ℕ)

variable {ε α β : Type}

/-- How readers move an offset on. -/
class Offsets where
  add {ε : Type} (offset n : ℕ) : Outcome ε ℕ

/-- Offsets are natural numbers, and no addition to them overflows. -/
instance Offsets.unbounded : Offsets := ⟨fun offset n => .ok (offset + n)⟩

@[simp] theorem Offsets.add_eq_ok (offset n : ℕ) :
    (Offsets.add offset n : Outcome ε ℕ) = .ok (offset + n) := rfl

/-- A part stands where what follows it begins behind it. -/
theorem slice_iff_drop {bytes part : Bytes} {start stop : ℕ} :
    (slice bytes start stop : Outcome ε Bytes) = .ok part ↔
      stop = start + part.length ∧ stop ≤ bytes.length ∧
        bytes.drop start = part ++ bytes.drop stop := by
  constructor
  · intro h
    have hlength := slice_length h
    have hle := (slice_eq_ok.mp h).1
    exact ⟨by omega, hlength.2, slice_drop h⟩
  · rintro ⟨rfl, hstop, hdrop⟩
    refine slice_eq_ok.mpr ⟨by omega, hstop, ?_⟩
    rw [hdrop, Nat.add_sub_cancel_left, List.take_left]

/-- Two parts stand next to each other. -/
theorem slice_append_iff {bytes front back : Bytes} {start stop : ℕ} :
    (slice bytes start stop : Outcome ε Bytes) = .ok (front ++ back) ↔
      ∃ middle, (slice bytes start middle : Outcome ε Bytes) = .ok front ∧
        (slice bytes middle stop : Outcome ε Bytes) = .ok back := by
  simp only [slice_iff_drop]
  constructor
  · rintro ⟨rfl, hstop, hdrop⟩
    rw [List.length_append] at hstop
    have hmiddle : bytes.drop (start + front.length) =
        back ++ bytes.drop (start + (front ++ back).length) := by
      rw [← List.drop_drop, hdrop, List.append_assoc, List.drop_left]
    refine ⟨start + front.length, ⟨rfl, by omega, ?_⟩, by simp [Nat.add_assoc], ?_, hmiddle⟩
    · rw [hmiddle, hdrop, List.append_assoc]
    · rw [List.length_append]
      exact hstop
  · rintro ⟨middle, ⟨rfl, _, hfront⟩, rfl, hstop, hback⟩
    refine ⟨by simp [Nat.add_assoc], hstop, ?_⟩
    rw [hfront, hback, List.append_assoc]

theorem slice_nil_iff {bytes : Bytes} {start stop : ℕ} (h : start ≤ bytes.length) :
    (slice bytes start stop : Outcome ε Bytes) = .ok [] ↔ stop = start := by
  rw [slice_iff_drop]
  constructor
  · rintro ⟨rfl, _⟩
    rfl
  · rintro rfl
    exact ⟨rfl, h, rfl⟩

theorem slice_singleton_iff {bytes : Bytes} {start : ℕ} {b : UInt8} :
    (slice bytes start (start + 1) : Outcome ε Bytes) = .ok [b] ↔
      (index bytes start : Outcome ε UInt8) = .ok b := by
  rw [index_eq_ok, slice_iff_drop]
  constructor
  · rintro ⟨_, _, hdrop⟩
    have hget : (bytes.drop start)[0]? = some b := by simp [hdrop]
    simpa using hget
  · intro hget
    obtain ⟨hlt, hb⟩ := List.getElem?_eq_some_iff.mp hget
    refine ⟨rfl, hlt, ?_⟩
    rw [List.drop_eq_getElem_cons hlt, hb]
    rfl

/-- What is written from the start is what the bytes start with. -/
theorem slice_zero_iff {bytes part : Bytes} :
    (∃ stop, (slice bytes 0 stop : Outcome ε Bytes) = .ok part) ↔ part <+: bytes := by
  constructor
  · rintro ⟨stop, h⟩
    exact ⟨bytes.drop stop, (slice_drop h).symm⟩
  · rintro ⟨rest, rfl⟩
    exact ⟨part.length, slice_iff_drop.mpr ⟨by simp, by simp, by simp⟩⟩

namespace Reader

/-- The reader takes exactly the values that fit, where they are written. -/
def Recognizes (read : Reader ε α) (fits : α → Prop) (write : α → Bytes) : Prop :=
  ∀ bytes offset a next, offset ≤ bytes.length →
    (read bytes offset = .ok (a, next) ↔
      fits a ∧ (slice bytes offset next : Outcome ε Bytes) = .ok (write a))

/-- One reader, then another one that depends on what the first has read. -/
def andThen (first : Reader ε α) (second : α → Reader ε β) : Reader ε β := fun bytes offset => do
  let (a, offset) ← first bytes offset
  second a bytes offset

/-- A loop of `n` reads. -/
def many (read : Reader ε α) : ℕ → Reader ε (List α)
  | 0, _, offset => .ok ([], offset)
  | n + 1, bytes, offset => do
    let (a, offset) ← read bytes offset
    let (rest, offset) ← many read n bytes offset
    pure (a :: rest, offset)

/-- A loop of reads as long as there are bytes left. It gets one round for each byte; a
reader that takes no bytes would leave it running, which counts as a panic here. -/
def untilEnd (read : Reader ε α) : ℕ → Reader ε (List α)
  | 0, bytes, offset => if offset < bytes.length then panicked else .ok ([], offset)
  | rounds + 1, bytes, offset =>
    if offset < bytes.length then do
      let (a, offset) ← read bytes offset
      let (rest, offset) ← untilEnd read rounds bytes offset
      pure (a :: rest, offset)
    else .ok ([], offset)

/-- How the loop ends that has no bound on its rounds. A loop that runs on has no end. -/
inductive Ends (read : Reader ε α) (bytes : Bytes) : ℕ → Outcome ε (List α × ℕ) → Prop
  | done {offset : ℕ} (atEnd : bytes.length ≤ offset) : Ends read bytes offset (.ok ([], offset))
  | failed {offset : ℕ} {fault : Fault ε} (left : offset < bytes.length)
    (refused : read bytes offset = .error fault) : Ends read bytes offset (.error fault)
  | round {offset next : ℕ} {a : α} {outcome : Outcome ε (List α × ℕ)}
    (left : offset < bytes.length) (taken : read bytes offset = .ok (a, next))
    (rest : Ends read bytes next outcome) :
    Ends read bytes offset (outcome.map fun r => (a :: r.1, r.2))

/-- With a round for each byte, a loop whose reads take bytes ends by itself. -/
theorem ends_untilEnd {read : Reader ε α} {bytes : Bytes}
    (hprogress : ∀ offset a next, read bytes offset = .ok (a, next) → offset < next)
    {rounds offset : ℕ} (henough : bytes.length ≤ offset + rounds) :
    Ends read bytes offset (untilEnd read rounds bytes offset) := by
  induction rounds generalizing offset with
  | zero =>
    rw [untilEnd, if_neg (by omega)]
    exact .done henough
  | succ rounds ih =>
    by_cases hleft : offset < bytes.length
    · rw [untilEnd, if_pos hleft]
      cases hread : read bytes offset with
      | error fault => exact .failed hleft hread
      | ok r =>
        obtain ⟨a, next⟩ := r
        have hnext := hprogress offset a next hread
        have hrest := @ih next (by omega)
        simp only [ok_bind]
        cases hloop : untilEnd read rounds bytes next with
        | error fault =>
          rw [hloop] at hrest
          exact .round hleft hread hrest
        | ok rest =>
          rw [hloop] at hrest
          exact .round hleft hread hrest
    · rw [untilEnd, if_neg hleft]
      exact .done (by omega)

/-- There is only one way in which the loop ends. -/
theorem Ends.unique {read : Reader ε α} {bytes : Bytes} {offset : ℕ}
    {first second : Outcome ε (List α × ℕ)} (h : Ends read bytes offset first)
    (h' : Ends read bytes offset second) : first = second := by
  induction h generalizing second with
  | done atEnd =>
    cases h' with
    | done _ => rfl
    | failed left _ => omega
    | round left _ _ => omega
  | failed left refused =>
    cases h' with
    | done atEnd => omega
    | failed _ refused' => exact Except.error.inj (refused.symm.trans refused') ▸ rfl
    | round _ taken _ => cases refused.symm.trans taken
  | round left taken _ ih =>
    cases h' with
    | done atEnd => omega
    | failed _ refused => cases taken.symm.trans refused
    | round _ taken' rest =>
      obtain ⟨rfl, rfl⟩ := Prod.mk.inj (Except.ok.inj (taken.symm.trans taken'))
      rw [ih rest]

namespace Recognizes

variable {fits : α → Prop} {write : α → Bytes} {read : Reader ε α}

theorem congr {fits' : α → Prop} {write' : α → Bytes} (h : Recognizes read fits write)
    (hfits : ∀ a, fits' a ↔ fits a) (hwrite : ∀ a, fits a → write' a = write a) :
    Recognizes read fits' write' := by
  intro bytes offset a next hle
  rw [h bytes offset a next hle, hfits]
  exact and_congr_right fun hfit => by rw [hwrite a hfit]

/-- What the first reader takes must be the part `key` of what the second one takes. -/
theorem andThen {fits₂ : β → Prop} {write₂ : β → Bytes} (key : β → α) {second : α → Reader ε β}
    (h : Recognizes read fits write)
    (h₂ : ∀ a, fits a → Recognizes (second a) (fun b => fits₂ b ∧ key b = a) write₂) :
    Recognizes (Reader.andThen read second) (fun b => fits (key b) ∧ fits₂ b)
      (fun b => write (key b) ++ write₂ b) := by
  intro bytes offset b next hle
  simp only [Reader.andThen, bind_eq_ok, Prod.exists, slice_append_iff]
  constructor
  · rintro ⟨a, middle, hfirst, hsecond⟩
    obtain ⟨hfit, hslice⟩ := (h bytes offset a middle hle).mp hfirst
    obtain ⟨⟨hfit₂, rfl⟩, hslice₂⟩ :=
      (h₂ a hfit bytes middle b next (slice_length hslice).2).mp hsecond
    exact ⟨⟨hfit, hfit₂⟩, middle, hslice, hslice₂⟩
  · rintro ⟨⟨hfit, hfit₂⟩, middle, hslice, hslice₂⟩
    exact ⟨key b, middle, (h bytes offset _ middle hle).mpr ⟨hfit, hslice⟩,
      (h₂ _ hfit bytes middle b next (slice_length hslice).2).mpr ⟨⟨hfit₂, rfl⟩, hslice₂⟩⟩

theorem many (h : Recognizes read fits write) (n : ℕ) :
    Recognizes (Reader.many read n) (fun l => l.length = n ∧ ∀ a ∈ l, fits a)
      (fun l => l.flatMap write) := by
  induction n with
  | zero =>
    intro bytes offset l next hle
    simp only [Reader.many, Except.ok.injEq, Prod.mk.injEq, List.length_eq_zero_iff]
    constructor
    · rintro ⟨rfl, rfl⟩
      exact ⟨⟨rfl, by simp⟩, (slice_nil_iff hle).mpr rfl⟩
    · rintro ⟨⟨rfl, _⟩, hslice⟩
      exact ⟨rfl, ((slice_nil_iff hle).mp hslice).symm⟩
  | succ n ih =>
    intro bytes offset l next hle
    simp only [Reader.many, bind_eq_ok, Prod.exists, pure_eq_ok, Except.ok.injEq, Prod.mk.injEq]
    constructor
    · rintro ⟨a, middle, hfirst, rest, stop, hrest, rfl, rfl⟩
      obtain ⟨hfit, hslice⟩ := (h bytes offset a middle hle).mp hfirst
      obtain ⟨⟨hlength, hfits⟩, hslices⟩ :=
        (ih bytes middle rest stop (slice_length hslice).2).mp hrest
      refine ⟨⟨by simp [hlength], ?_⟩, slice_append_iff.mpr ⟨middle, hslice, hslices⟩⟩
      simpa using ⟨hfit, hfits⟩
    · rintro ⟨⟨hlength, hfits⟩, hslice⟩
      cases l with
      | nil => simp at hlength
      | cons a rest =>
        obtain ⟨middle, hfirst, hrest⟩ := slice_append_iff.mp hslice
        have hfit := hfits a List.mem_cons_self
        have hothers : ∀ b ∈ rest, fits b := fun b hb => hfits b (List.mem_cons_of_mem a hb)
        refine ⟨a, middle, (h bytes offset a middle hle).mpr ⟨hfit, hfirst⟩, rest, next, ?_,
          rfl, rfl⟩
        exact (ih bytes middle rest next (slice_length hfirst).2).mpr
          ⟨⟨by simpa using hlength, hothers⟩, hrest⟩

/-- Behind the last byte nothing is written. -/
theorem untilEnd_done {bytes : Bytes} {offset next : ℕ} {l : List α}
    (hwrite : ∀ a, fits a → write a ≠ []) (hend : offset = bytes.length) :
    (Except.ok ([], offset) : Outcome ε (List α × ℕ)) = .ok (l, next) ↔
      (∀ a ∈ l, fits a) ∧ next = bytes.length ∧ bytes.drop offset = l.flatMap write := by
  have hdrop : bytes.drop offset = [] := List.drop_of_length_le (Nat.le_of_eq hend.symm)
  cases l with
  | nil => simp [hend, eq_comm]
  | cons a l =>
    simp only [hdrop, List.flatMap_cons, Except.ok.injEq, Prod.mk.injEq]
    constructor
    · rintro ⟨hnil, _⟩
      cases hnil
    · rintro ⟨hfits, _, hnil⟩
      have hempty := (List.append_eq_nil_iff.mp hnil.symm).1
      exact absurd hempty (hwrite a (hfits a List.mem_cons_self))

/-- A loop to the end takes exactly what values that fit write there. -/
theorem untilEnd (h : Recognizes read fits write) (hwrite : ∀ a, fits a → write a ≠ [])
    {rounds : ℕ} {bytes : Bytes} {offset next : ℕ} {l : List α} (hle : offset ≤ bytes.length)
    (henough : bytes.length ≤ offset + rounds) :
    Reader.untilEnd read rounds bytes offset = .ok (l, next) ↔
      (∀ a ∈ l, fits a) ∧ next = bytes.length ∧ bytes.drop offset = l.flatMap write := by
  induction rounds generalizing offset next l with
  | zero =>
    have hend : offset = bytes.length := by omega
    rw [Reader.untilEnd, if_neg (by omega)]
    exact untilEnd_done hwrite hend
  | succ rounds ih =>
    by_cases hlt : offset < bytes.length
    · simp only [Reader.untilEnd, hlt, if_true, bind_eq_ok, Prod.exists, pure_eq_ok,
        Except.ok.injEq, Prod.mk.injEq]
      constructor
      · rintro ⟨a, middle, hfirst, rest, stop, hrest, rfl, rfl⟩
        obtain ⟨hfit, hslice⟩ := (h bytes offset a middle hle).mp hfirst
        obtain ⟨hmiddle, hstop, hdrop⟩ := slice_iff_drop.mp hslice
        have hpos := List.length_pos_iff.mpr (hwrite a hfit)
        obtain ⟨hfits, hnext, htail⟩ := (ih hstop (by omega)).mp hrest
        refine ⟨?_, hnext, ?_⟩
        · simpa using ⟨hfit, hfits⟩
        · rw [hdrop, htail, List.flatMap_cons]
      · rintro ⟨hfits, hnext, hdrop⟩
        cases l with
        | nil =>
          have hlength := congrArg List.length hdrop
          simp at hlength
          omega
        | cons a rest =>
          have hfit := hfits a List.mem_cons_self
          have hpos := List.length_pos_iff.mpr (hwrite a hfit)
          have hlength := congrArg List.length hdrop
          rw [List.flatMap_cons, List.length_append, List.length_drop] at hlength
          have hrest : bytes.drop (offset + (write a).length) = rest.flatMap write := by
            rw [← List.drop_drop, hdrop, List.flatMap_cons, List.drop_left]
          have hslice : (slice bytes offset (offset + (write a).length) : Outcome ε Bytes) =
              .ok (write a) := by
            refine slice_iff_drop.mpr ⟨rfl, by omega, ?_⟩
            rw [hrest, hdrop, List.flatMap_cons]
          refine ⟨a, _, (h bytes offset a _ hle).mpr ⟨hfit, hslice⟩, rest, next, ?_, rfl, rfl⟩
          exact (ih (by omega) (by omega)).mpr
            ⟨fun b hb => hfits b (List.mem_cons_of_mem a hb), hnext, hrest⟩
    · rw [Reader.untilEnd, if_neg hlt]
      exact untilEnd_done hwrite (by omega)

end Recognizes

end Reader

end Rust
