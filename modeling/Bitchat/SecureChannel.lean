import Bitchat.SessionLifecycle

/-!
# Two sessions and the network between them

Both ends of an established session call any operations at any time. The network loses,
repeats, reorders and makes up ciphertexts, except that it cannot seal one itself and that
no ciphertext it delivers happens to be the sealing of two numbers. What comes out at one
end is the beginning of what went in at the other. A ciphertext is opened exactly if it is
the next one, so the first that is lost is the last.
-/
namespace Bitchat
open Rust

/-- What can be said of a transport state of the Noise library: its two keys and
counters, and how it seals a plaintext. -/
structure TransportView (T K : Type) where
  sendingKey : T → K
  sent : T → ℕ
  receivingKey : T → K
  received : T → ℕ
  encryption : K → ℕ → Bytes → Bytes

/-- A transport state with these keys and counters. -/
structure TransportView.Tuned {T K : Type} (view : TransportView T K) (t : T)
    (sendingKey receivingKey : K) (sent received : ℕ) : Prop where
  sendingKey : view.sendingKey t = sendingKey
  receivingKey : view.receivingKey t = receivingKey
  sent : view.sent t = sent
  received : view.received t = received

/-- What the library promises of its transport states: a message is sealed with the key and
the counter as a nonce, it is opened only under the same, and a failed call changes nothing. -/
structure NoiseLibrary.Seals {H T K : Type} (noise : NoiseLibrary H T)
    (view : TransportView T K) : Prop where
  write : ∀ {t t' plaintext ciphertext}, noise.writeMessage t plaintext = (t', .ok ciphertext) →
    ciphertext = view.encryption (view.sendingKey t) (view.sent t) plaintext ∧
      view.Tuned t' (view.sendingKey t) (view.receivingKey t) (view.sent t + 1) (view.received t)
  writeFails : ∀ {t t' plaintext e}, noise.writeMessage t plaintext = (t', .error e) → t' = t
  read : ∀ {t t' ciphertext plaintext}, noise.readMessage t ciphertext = (t', .ok plaintext) →
    ciphertext = view.encryption (view.receivingKey t) (view.received t) plaintext ∧
      view.Tuned t' (view.sendingKey t) (view.receivingKey t) (view.sent t) (view.received t + 1)
  readFails : ∀ {t t' ciphertext e}, noise.readMessage t ciphertext = (t', .error e) → t' = t
  opens : ∀ {s s' t plaintext ciphertext}, noise.writeMessage s plaintext = (s', .ok ciphertext) →
    view.receivingKey t = view.sendingKey s → view.received t = view.sent s →
      (noise.readMessage t ciphertext).2 = .ok plaintext

inductive Side where
  | initiator
  | responder
  deriving DecidableEq

def Side.other : Side → Side
  | .initiator => .responder
  | .responder => .initiator

@[simp] theorem Side.other_other (side : Side) : side.other.other = side := by
  cases side <;> rfl

/-- The two ends, and the ciphertexts that each has put on the network. -/
structure SecureChannel (H T : Type) where
  ends : Side → NoiseSession H T
  sent : Side → List Bytes

namespace SecureChannel

/-- A plaintext goes in at one end, or comes out. -/
inductive Seen where
  | sealed (side : Side) (plaintext : Bytes)
  | opened (side : Side) (plaintext : Bytes)

/-- An operation at one end. A ciphertext to decrypt comes from the network. -/
structure Act where
  side : Side
  op : SessionOp
  now : Timestamp

variable {H T K : Type}

def step (sha256 : Bytes → Key32) (noise : NoiseLibrary H T) (channel : SecureChannel H T)
    (act : Act) : SecureChannel H T × Option Seen :=
  match act.op with
  | .encrypt plaintext =>
    let result := (channel.ends act.side).encrypt noise plaintext act.now
    let ends := Function.update channel.ends act.side result.1
    match result.2 with
    | .ok ciphertext =>
      (⟨ends, Function.update channel.sent act.side (channel.sent act.side ++ [ciphertext])⟩,
        some (.sealed act.side plaintext))
    | .error _ => (⟨ends, channel.sent⟩, none)
  | .decrypt ciphertext =>
    let result := (channel.ends act.side).decrypt noise ciphertext act.now
    let ends := Function.update channel.ends act.side result.1
    match result.2 with
    | .ok plaintext => (⟨ends, channel.sent⟩, some (.opened act.side plaintext))
    | .error _ => (⟨ends, channel.sent⟩, none)
  | op =>
    (⟨Function.update channel.ends act.side
      ((channel.ends act.side).step sha256 ⟨op, noise, act.now⟩).1, channel.sent⟩, none)

/-- What went in and came out, in order. -/
def log (sha256 : Bytes → Key32) (noise : NoiseLibrary H T) (channel : SecureChannel H T)
    (acts : List Act) : List Seen :=
  collected (step sha256 noise) (fun _ seen => seen) channel acts

def Seen.sealedBy (side : Side) : Seen → Option Bytes
  | .sealed s plaintext => if s = side then some plaintext else none
  | .opened _ _ => none

def Seen.openedBy (side : Side) : Seen → Option Bytes
  | .opened s plaintext => if s = side then some plaintext else none
  | .sealed _ _ => none

/-- With this key a ciphertext is the sealing of its own number only. That two numbers, with
any plaintexts, give the same ciphertext is not excluded by the cipher, only unlikely. -/
def OnlyAt (view : TransportView T K) (key : K) (n : ℕ) (ciphertext : Bytes) : Prop :=
  ∀ m plaintext, ciphertext = view.encryption key m plaintext → m = n

/-- The network gives back what was put on it, and of that no ciphertext that is the sealing
of a second number, or what is not sealed with the key at all. -/
def Unforged (view : TransportView T K) (key : Side → K) (channel : SecureChannel H T)
    (act : Act) : Prop :=
  ∀ ciphertext, act.op = .decrypt ciphertext →
    (∃ n, (channel.sent act.side.other)[n]? = some ciphertext ∧
      OnlyAt view (key act.side.other) n ciphertext) ∨
      ∀ n plaintext, ciphertext ≠ view.encryption (key act.side.other) n plaintext

/-- A session that is established and tuned, or that does nothing any more. -/
def Serves (view : TransportView T K) (finished : H → Bool) (s : NoiseSession H T)
    (sendingKey receivingKey : K) (sent received : ℕ) : Prop :=
  (s.state = .established ∧ s.handshake = none ∧ ∃ t, s.transport = some t ∧
    view.Tuned t sendingKey receivingKey sent received) ∨ s.Stuck finished

section

variable {view : TransportView T K} {finished : H → Bool} {noise : NoiseLibrary H T}
  {s : NoiseSession H T} {sendingKey receivingKey : K} {sent received : ℕ}

/-- Traffic asks the library once, unless the session is over. -/
theorem Serves.transfer (h : Serves view finished s sendingKey receivingKey sent received)
    (call : T → Bytes → T × Except String Bytes) (data : Bytes) (now : Timestamp) :
    (∃ t t' result, s.state = .established ∧
        view.Tuned t sendingKey receivingKey sent received ∧ call t data = (t', result) ∧
        (NoiseSession.transfer call s data now).2 = mapNoise result ∧
        ∀ m n, view.Tuned t' sendingKey receivingKey m n →
          Serves view finished (NoiseSession.transfer call s data now).1 sendingKey receivingKey
            m n) ∨
      s.state ≠ .established ∧
        (∃ error, (NoiseSession.transfer call s data now).2 = .error error) ∧
        (NoiseSession.transfer call s data now).1.Stuck finished := by
  rcases h with ⟨established, ended, t, transport, tuned⟩ | stuck
  · have asked : NoiseSession.transfer call s data now = ({ s with
        transport := some (call t data).1
        messageCount := s.messageCount + 1
        lastActivity := now }, mapNoise (call t data).2) := by
      simp [NoiseSession.transfer, established, transport]
    rw [asked]
    exact .inl ⟨t, (call t data).1, (call t data).2, established, tuned, rfl, rfl,
      fun m n next => .inl ⟨established, ended, (call t data).1, rfl, next⟩⟩
  · have other : s.state ≠ .established := by
      rcases stuck with h | ⟨h, -⟩ <;> simp [h]
    unfold NoiseSession.transfer
    rw [if_pos other]
    exact .inr ⟨other, ⟨_, rfl⟩, stuck⟩

/-- What an operation other than traffic leaves of a session that serves. -/
theorem Serves.step (h : Serves view finished s sendingKey receivingKey sent received)
    (starts : NoiseSession.Starts finished noise) (sha256 : Bytes → Key32) {op : SessionOp}
    (now : Timestamp) (silent : (∀ p, op ≠ .encrypt p) ∧ ∀ c, op ≠ .decrypt c) :
    Serves view finished (s.step sha256 ⟨op, noise, now⟩).1 sendingKey receivingKey sent
      received := by
  rcases h with ⟨established, ended, t, transport, tuned⟩ | stuck
  · have kept : Serves view finished s sendingKey receivingKey sent received :=
      .inl ⟨established, ended, t, transport, tuned⟩
    have later : s.state ≠ .handshaking ∧ s.state ≠ .rekeying := by simp [established]
    cases op with
    | createHandshakeMessage payload =>
      have same : (s.createHandshakeMessage sha256 noise payload now).1 = s :=
        NoiseSession.exchange_of_ne _ payload now later.1
      simpa [NoiseSession.step, same] using kept
    | processHandshakeMessage input =>
      have same : (s.processHandshakeMessage sha256 noise input now).1 = s :=
        NoiseSession.exchange_of_ne _ input now later.1
      simpa [NoiseSession.step, same] using kept
    | encrypt plaintext => exact absurd rfl (silent.1 plaintext)
    | decrypt ciphertext => exact absurd rfl (silent.2 ciphertext)
    | startRekey localKey =>
      right
      cases build : noise.buildInitiator localKey with
      | error e =>
        simp [NoiseSession.step, NoiseSession.startRekey, established, build, NoiseSession.Stuck,
          ended]
      | ok handshake =>
        have fresh := starts.fresh localKey handshake build
        simp [NoiseSession.step, NoiseSession.startRekey, established, build, NoiseSession.Stuck,
          fresh]
    | completeRekey => simpa [NoiseSession.step, NoiseSession.completeRekey, later.2] using kept
    | markFailed => exact .inr (.inl rfl)
    | setRekeyThreshold threshold => exact .inl ⟨established, ended, t, transport, tuned⟩
    | setRekeyIntervalSecs intervalSecs => exact .inl ⟨established, ended, t, transport, tuned⟩
  · exact .inr (NoiseSession.stuck_step stuck starts)

/-- The ciphertext is what the library makes of the plaintext with this key and number. -/
def Written (noise : NoiseLibrary H T) (view : TransportView T K) (key : K) (n : ℕ)
    (plaintext ciphertext : Bytes) : Prop :=
  ∃ t t', noise.writeMessage t plaintext = (t', .ok ciphertext) ∧ view.sendingKey t = key ∧
    view.sent t = n

/-- What was written with the key and the number that are next is read as it was. -/
theorem reads_written (seals : noise.Seals view) {t : T}
    (tuned : view.Tuned t sendingKey receivingKey sent received) {plaintext ciphertext : Bytes}
    (written : Written noise view receivingKey received plaintext ciphertext) :
    (noise.readMessage t ciphertext).2 = .ok plaintext := by
  obtain ⟨w, w', hwrite, hkey, hsent⟩ := written
  exact seals.opens hwrite (tuned.receivingKey.trans hkey.symm) (tuned.received.trans hsent.symm)

/-- A message that is encrypted is sealed with the next number; a refused one is not counted. -/
theorem Serves.encrypt (h : Serves view finished s sendingKey receivingKey sent received)
    (seals : noise.Seals view) (plaintext : Bytes) (now : Timestamp) :
    (∃ ciphertext, (s.encrypt noise plaintext now).2 = .ok ciphertext ∧
        Written noise view sendingKey sent plaintext ciphertext ∧
        Serves view finished (s.encrypt noise plaintext now).1 sendingKey receivingKey (sent + 1)
          received) ∨
      (∃ error, (s.encrypt noise plaintext now).2 = .error error) ∧
        Serves view finished (s.encrypt noise plaintext now).1 sendingKey receivingKey sent
          received := by
  rcases h.transfer noise.writeMessage plaintext now with
    ⟨t, t', e | ciphertext, -, tuned, hcall, hresult, next⟩ | ⟨-, failed, stuck⟩
  · obtain rfl := seals.writeFails hcall
    exact .inr ⟨⟨_, hresult⟩, next sent received tuned⟩
  · obtain ⟨-, tuned'⟩ := seals.write hcall
    rw [tuned.sendingKey, tuned.receivingKey, tuned.sent, tuned.received] at tuned'
    exact .inl ⟨ciphertext, hresult, ⟨t, t', hcall, tuned.sendingKey, tuned.sent⟩,
      next (sent + 1) received tuned'⟩
  · exact .inr ⟨failed, .inr stuck⟩

/-- A message that is decrypted was sealed with the next number; a refused one is not counted. -/
theorem Serves.decrypt (h : Serves view finished s sendingKey receivingKey sent received)
    (seals : noise.Seals view) (ciphertext : Bytes) (now : Timestamp) :
    (∃ plaintext, (s.decrypt noise ciphertext now).2 = .ok plaintext ∧ s.state = .established ∧
        ciphertext = view.encryption receivingKey received plaintext ∧
        (∀ q, Written noise view receivingKey received q ciphertext → q = plaintext) ∧
        Serves view finished (s.decrypt noise ciphertext now).1 sendingKey receivingKey sent
          (received + 1)) ∨
      (∃ error, (s.decrypt noise ciphertext now).2 = .error error) ∧
        Serves view finished (s.decrypt noise ciphertext now).1 sendingKey receivingKey sent
          received ∧
        (s.state = .established → ∀ plaintext,
          ¬ Written noise view receivingKey received plaintext ciphertext) := by
  rcases h.transfer noise.readMessage ciphertext now with
    ⟨t, t', e | plaintext, established, tuned, hcall, hresult, next⟩ | ⟨other, failed, stuck⟩
  · obtain rfl := seals.readFails hcall
    refine .inr ⟨⟨_, hresult⟩, next sent received tuned, ?_⟩
    intro _ plaintext written
    have opens := reads_written seals tuned written
    rw [hcall] at opens
    cases opens
  · obtain ⟨hsealed, tuned'⟩ := seals.read hcall
    rw [tuned.receivingKey, tuned.received] at hsealed
    rw [tuned.sendingKey, tuned.receivingKey, tuned.sent, tuned.received] at tuned'
    refine .inl ⟨plaintext, hresult, established, hsealed, ?_, next sent (received + 1) tuned'⟩
    intro q written
    have opens := reads_written seals tuned written
    rw [hcall] at opens
    exact (Except.ok.inj opens).symm
  · exact .inr ⟨failed, .inr stuck, fun established => absurd established other⟩

end

/-- The ciphertexts of a side are those of its plaintexts, in order. -/
structure Encodes (noise : NoiseLibrary H T) (view : TransportView T K) (key : K)
    (plaintexts ciphertexts : List Bytes) : Prop where
  length : ciphertexts.length = plaintexts.length
  written : ∀ n plaintext ciphertext, plaintexts[n]? = some plaintext →
    ciphertexts[n]? = some ciphertext → Written noise view key n plaintext ciphertext

/-- What holds between the ends and what went in and came out. -/
structure Linked (noise : NoiseLibrary H T) (view : TransportView T K) (finished : H → Bool)
    (key : Side → K) (channel : SecureChannel H T) (log : List Seen) : Prop where
  serves : ∀ side, Serves view finished (channel.ends side) (key side) (key side.other)
    (log.filterMap (Seen.sealedBy side)).length (log.filterMap (Seen.openedBy side)).length
  encodes : ∀ side, Encodes noise view (key side) (log.filterMap (Seen.sealedBy side))
    (channel.sent side)
  opened : ∀ side,
    log.filterMap (Seen.openedBy side.other) <+: log.filterMap (Seen.sealedBy side)

section

variable {noise : NoiseLibrary H T} {view : TransportView T K} {finished : H → Bool}
  {key : Side → K} {channel : SecureChannel H T} {log : List Seen}

theorem Encodes.concat {key : K} {plaintexts ciphertexts : List Bytes}
    (h : Encodes noise view key plaintexts ciphertexts) {plaintext ciphertext : Bytes}
    (written : Written noise view key plaintexts.length plaintext ciphertext) :
    Encodes noise view key (plaintexts ++ [plaintext]) (ciphertexts ++ [ciphertext]) := by
  constructor
  · simp [h.length]
  · intro n p c hp hc
    rw [List.getElem?_append] at hp hc
    rw [h.length] at hc
    split_ifs at hp hc with hn
    · exact h.written n p c hp hc
    · obtain ⟨hlast, rfl⟩ := List.getElem?_eq_some_iff.mp hp
      obtain ⟨-, rfl⟩ := List.getElem?_eq_some_iff.mp hc
      have here : n = plaintexts.length := by
        simp at hlast
        omega
      simpa [here] using written

/-- The ciphertext of a number is written for the plaintext of the number. -/
theorem Linked.written (h : Linked noise view finished key channel log) {side : Side} {n : ℕ}
    {ciphertext : Bytes} (sent : (channel.sent side)[n]? = some ciphertext) :
    ∃ plaintext, (log.filterMap (Seen.sealedBy side))[n]? = some plaintext ∧
      Written noise view (key side) n plaintext ciphertext := by
  obtain ⟨hlt, -⟩ := List.getElem?_eq_some_iff.mp sent
  have hlt' : n < (log.filterMap (Seen.sealedBy side)).length := (h.encodes side).length ▸ hlt
  have plain := List.getElem?_eq_getElem hlt'
  exact ⟨_, plain, (h.encodes side).written n _ ciphertext plain sent⟩

/-- An operation at one end that neither seals nor opens. -/
theorem Linked.quiet (h : Linked noise view finished key channel log) {side : Side}
    {s : NoiseSession H T} (serves : Serves view finished s (key side) (key side.other)
      (log.filterMap (Seen.sealedBy side)).length (log.filterMap (Seen.openedBy side)).length) :
    Linked noise view finished key ⟨Function.update channel.ends side s, channel.sent⟩ log := by
  refine ⟨fun one => ?_, h.encodes, h.opened⟩
  by_cases hone : one = side
  · subst hone
    simpa using serves
  · simpa [hone] using h.serves one

theorem Linked.seal (h : Linked noise view finished key channel log) {side : Side}
    {s : NoiseSession H T} {plaintext ciphertext : Bytes}
    (serves : Serves view finished s (key side) (key side.other)
      ((log.filterMap (Seen.sealedBy side)).length + 1)
      (log.filterMap (Seen.openedBy side)).length)
    (written : Written noise view (key side) (log.filterMap (Seen.sealedBy side)).length plaintext
      ciphertext) :
    Linked noise view finished key ⟨Function.update channel.ends side s,
      Function.update channel.sent side (channel.sent side ++ [ciphertext])⟩
      (log ++ [.sealed side plaintext]) := by
  constructor
  · intro one
    by_cases hone : one = side
    · subst hone
      simpa [List.filterMap_cons, Seen.sealedBy, Seen.openedBy] using serves
    · simpa [List.filterMap_cons, Seen.sealedBy, Seen.openedBy, hone, Ne.symm hone] using
        h.serves one
  · intro one
    by_cases hone : one = side
    · subst hone
      simpa [List.filterMap_cons, Seen.sealedBy] using (h.encodes one).concat written
    · simpa [List.filterMap_cons, Seen.sealedBy, hone, Ne.symm hone] using h.encodes one
  · intro one
    have more := (List.prefix_append (log.filterMap (Seen.sealedBy one))
      ([Seen.sealed side plaintext].filterMap (Seen.sealedBy one)))
    simpa [List.filterMap_cons, Seen.openedBy] using (h.opened one).trans more

theorem Linked.open (h : Linked noise view finished key channel log) {side : Side}
    {s : NoiseSession H T} {plaintext : Bytes}
    (serves : Serves view finished s (key side) (key side.other)
      (log.filterMap (Seen.sealedBy side)).length
      ((log.filterMap (Seen.openedBy side)).length + 1))
    (next : (log.filterMap (Seen.sealedBy side.other))[
      (log.filterMap (Seen.openedBy side)).length]? = some plaintext) :
    Linked noise view finished key ⟨Function.update channel.ends side s, channel.sent⟩
      (log ++ [.opened side plaintext]) := by
  constructor
  · intro one
    by_cases hone : one = side
    · subst hone
      simpa [List.filterMap_cons, Seen.sealedBy, Seen.openedBy] using serves
    · simpa [List.filterMap_cons, Seen.sealedBy, Seen.openedBy, hone, Ne.symm hone] using
        h.serves one
  · intro one
    simpa [List.filterMap_cons, Seen.sealedBy] using h.encodes one
  · intro one
    by_cases hone : one.other = side
    · subst hone
      obtain ⟨hlt, hget⟩ := List.getElem?_eq_some_iff.mp next
      have before := List.prefix_iff_eq_take.mp (h.opened one)
      simp only [Side.other_other] at hlt hget
      have taken := List.take_concat_get' (log.filterMap (Seen.sealedBy one)) _ hlt
      rw [← before, hget] at taken
      simpa [List.filterMap_cons, Seen.sealedBy, Seen.openedBy, taken] using
        List.take_prefix _ (log.filterMap (Seen.sealedBy one))
    · simpa [List.filterMap_cons, Seen.sealedBy, Seen.openedBy, Ne.symm hone] using h.opened one

/-- A ciphertext of the network is opened exactly if it is the next one and the session has
not ended. -/
theorem Linked.opens_iff (h : Linked noise view finished key channel log)
    (seals : noise.Seals view) (sha256 : Bytes → Key32) {side : Side} {n : ℕ} {ciphertext : Bytes}
    (sent : (channel.sent side.other)[n]? = some ciphertext)
    (only : OnlyAt view (key side.other) n ciphertext) (now : Timestamp) :
    (∃ plaintext, (step sha256 noise channel ⟨side, .decrypt ciphertext, now⟩).2 =
        some (.opened side plaintext)) ↔
      (channel.ends side).state = .established ∧
        n = (log.filterMap (Seen.openedBy side)).length := by
  obtain ⟨_, _, written⟩ := h.written sent
  simp only [SecureChannel.step]
  rcases (h.serves side).decrypt seals ciphertext now with
    ⟨plaintext, hresult, established, sealed, -⟩ | ⟨⟨error, hresult⟩, -, unwritten⟩
  · have here := only _ plaintext sealed
    simp [hresult, established, here]
  · simp only [hresult, reduceCtorEq, exists_false, false_iff]
    rintro ⟨established, rfl⟩
    exact unwritten established _ written

/-- What is opened is the next ciphertext of the network. -/
theorem Linked.next_of_opened (h : Linked noise view finished key channel log)
    (seals : noise.Seals view) (sha256 : Bytes → Key32) {act : Act} {side : Side}
    {plaintext : Bytes} (unforged : Unforged view key channel act)
    (opened : (step sha256 noise channel act).2 = some (.opened side plaintext)) :
    act.side = side ∧ ∃ ciphertext, act.op = .decrypt ciphertext ∧
      (channel.sent side.other)[(log.filterMap (Seen.openedBy side)).length]? =
        some ciphertext := by
  obtain ⟨one, op, now⟩ := act
  cases op with
  | decrypt ciphertext =>
    have same : one = side := by
      simp only [SecureChannel.step] at opened
      split at opened
      · exact (Seen.opened.inj (Option.some.inj opened)).1
      · cases opened
    subst same
    refine ⟨rfl, ciphertext, rfl, ?_⟩
    rcases unforged ciphertext rfl with ⟨n, here, only⟩ | forged
    · rw [← ((h.opens_iff seals sha256 here only now).mp ⟨plaintext, opened⟩).2]
      exact here
    · simp only [SecureChannel.step] at opened
      rcases (h.serves one).decrypt seals ciphertext now with
        ⟨plaintext, -, -, sealed, -⟩ | ⟨⟨error, hresult⟩, -⟩
      · exact absurd sealed (forged _ _)
      · rw [hresult] at opened
        cases opened
  | encrypt plaintext =>
    simp only [SecureChannel.step] at opened
    split at opened <;> cases opened
  | _ => cases opened

theorem Linked.step (h : Linked noise view finished key channel log) (seals : noise.Seals view)
    (starts : NoiseSession.Starts finished noise) (sha256 : Bytes → Key32) {act : Act}
    (unforged : Unforged view key channel act) :
    Linked noise view finished key (step sha256 noise channel act).1
      (log ++ (step sha256 noise channel act).2.toList) := by
  obtain ⟨side, op, now⟩ := act
  have other (op : SessionOp) (silent : (∀ p, op ≠ .encrypt p) ∧ ∀ c, op ≠ .decrypt c) :
      Linked noise view finished key ⟨Function.update channel.ends side
        ((channel.ends side).step sha256 ⟨op, noise, now⟩).1, channel.sent⟩ (log ++ []) := by
    rw [List.append_nil]
    exact h.quiet ((h.serves side).step starts sha256 now silent)
  cases op with
  | encrypt plaintext =>
    rw [SecureChannel.step]
    rcases (h.serves side).encrypt seals plaintext now with
      ⟨ciphertext, hresult, written, serves⟩ | ⟨⟨error, hresult⟩, serves⟩
    · simp only [hresult]
      exact h.seal serves written
    · simp only [hresult, Option.toList_none, List.append_nil]
      exact h.quiet serves
  | decrypt ciphertext =>
    rw [SecureChannel.step]
    rcases (h.serves side).decrypt seals ciphertext now with
      ⟨plaintext, hresult, -, sealed, reads, serves⟩ | ⟨⟨error, hresult⟩, serves, -⟩
    · simp only [hresult]
      rcases unforged ciphertext rfl with ⟨n, here, only⟩ | forged
      · obtain ⟨q, plain, written⟩ := h.written here
        obtain rfl := only _ plaintext sealed
        rw [reads q written] at plain
        exact h.open serves plain
      · exact absurd sealed (forged _ _)
    · simp only [hresult, Option.toList_none, List.append_nil]
      exact h.quiet serves
  | createHandshakeMessage payload => exact other _ ⟨nofun, nofun⟩
  | processHandshakeMessage input => exact other _ ⟨nofun, nofun⟩
  | startRekey localKey => exact other _ ⟨nofun, nofun⟩
  | completeRekey => exact other _ ⟨nofun, nofun⟩
  | markFailed => exact other _ ⟨nofun, nofun⟩
  | setRekeyThreshold threshold => exact other _ ⟨nofun, nofun⟩
  | setRekeyIntervalSecs intervalSecs => exact other _ ⟨nofun, nofun⟩

end

/-- Both ends have just established the session: each seals with its own key and opens with
the other's, from the first number on. -/
def Fresh (view : TransportView T K) (key : Side → K) (channel : SecureChannel H T) : Prop :=
  ∀ side, channel.sent side = [] ∧ (channel.ends side).state = .established ∧
    (channel.ends side).handshake = none ∧ ∃ t, (channel.ends side).transport = some t ∧
      view.Tuned t (key side) (key side.other) 0 0

section

variable (sha256 : Bytes → Key32) {noise : NoiseLibrary H T} {view : TransportView T K}
  {finished : H → Bool} {key : Side → K} {channel : SecureChannel H T} {acts : List Act}

theorem linked_run (seals : noise.Seals view) (starts : NoiseSession.Starts finished noise)
    (fresh : Fresh view key channel)
    (unforged : Along (step sha256 noise) (Unforged view key) channel acts) :
    Linked noise view finished key (run (step sha256 noise) channel acts)
      (channel.log sha256 noise acts) := by
  refine collected_invariant (fun channel log act h hact => h.step seals starts sha256 hact) ?_
    unforged
  refine ⟨fun side => .inl (fresh side).2, fun side => ?_, fun side => List.prefix_rfl⟩
  rw [(fresh side).1]
  exact ⟨rfl, by simp⟩

/-- What is opened at one end is the beginning of what was sealed at the other, whatever the
network does and whatever operations the two ends call, rekeys included. -/
theorem opened_prefix_of_sealed (seals : noise.Seals view)
    (starts : NoiseSession.Starts finished noise) (fresh : Fresh view key channel)
    (unforged : Along (step sha256 noise) (Unforged view key) channel acts) (side : Side) :
    (channel.log sha256 noise acts).filterMap (Seen.openedBy side.other) <+:
      (channel.log sha256 noise acts).filterMap (Seen.sealedBy side) :=
  (linked_run sha256 seals starts fresh unforged).opened side

/-- The network never gives the other end the ciphertext of this number. -/
def Loses (side : Side) (n : ℕ) (channel : SecureChannel H T) (act : Act) : Prop :=
  act.side = side.other → ∀ ciphertext, act.op = .decrypt ciphertext →
    (channel.sent side)[n]? ≠ some ciphertext

/-- In every run a ciphertext of the network that seals its own number only is opened exactly
if the session there is still established and all ciphertexts before it, and not it itself,
have been opened. -/
theorem opens_iff_next (seals : noise.Seals view) (starts : NoiseSession.Starts finished noise)
    (fresh : Fresh view key channel)
    (unforged : Along (step sha256 noise) (Unforged view key) channel acts) {side : Side} {n : ℕ}
    {ciphertext : Bytes}
    (sent : ((run (step sha256 noise) channel acts).sent side.other)[n]? = some ciphertext)
    (only : OnlyAt view (key side.other) n ciphertext) (now : Timestamp) :
    (∃ plaintext, (step sha256 noise (run (step sha256 noise) channel acts)
        ⟨side, .decrypt ciphertext, now⟩).2 = some (.opened side plaintext)) ↔
      ((run (step sha256 noise) channel acts).ends side).state = .established ∧
        n = ((channel.log sha256 noise acts).filterMap (Seen.openedBy side)).length :=
  (linked_run sha256 seals starts fresh unforged).opens_iff seals sha256 sent only now

/-- There is no way around a lost ciphertext: if the one of number `n` never arrives, then no
more than the `n` before it are ever opened. -/
theorem loss_silences (seals : noise.Seals view) (starts : NoiseSession.Starts finished noise)
    (fresh : Fresh view key channel)
    (unforged : Along (step sha256 noise) (Unforged view key) channel acts) (side : Side) (n : ℕ)
    (loses : Along (step sha256 noise) (Loses side n) channel acts) :
    ((channel.log sha256 noise acts).filterMap (Seen.openedBy side.other)).length ≤ n := by
  refine (collected_invariant (I := fun channel log => Linked noise view finished key channel log ∧
    (log.filterMap (Seen.openedBy side.other)).length ≤ n) ?_ ⟨?_, Nat.zero_le n⟩
    (along_and.mpr ⟨unforged, loses⟩)).2
  · rintro channel log act ⟨linked, bound⟩ ⟨hunforged, hloses⟩
    refine ⟨linked.step seals starts sha256 hunforged, ?_⟩
    rw [List.filterMap_append, List.length_append]
    rcases hseen : (step sha256 noise channel act).2 with _ | ⟨one, plaintext⟩ | ⟨one, plaintext⟩
    · simpa using bound
    · simpa [List.filterMap_cons, Seen.openedBy] using bound
    · by_cases hone : one = side.other
      · subst hone
        -- a further one would be the lost one
        obtain ⟨hside, ciphertext, hop, hnext⟩ :=
          linked.next_of_opened seals sha256 hunforged hseen
        rw [Side.other_other] at hnext
        have more : (log.filterMap (Seen.openedBy side.other)).length ≠ n := by
          rintro rfl
          exact hloses hside ciphertext hop hnext
        have one_more : ([Seen.opened side.other plaintext].filterMap
            (Seen.openedBy side.other)).length = 1 := by
          simp [Seen.openedBy]
        rw [Option.toList_some, one_more]
        omega
      · simpa [List.filterMap_cons, Seen.openedBy, hone] using bound
  · have nothing : Along (step sha256 noise) (Unforged view key) channel [] := trivial
    exact linked_run sha256 seals starts fresh nothing

end

/-- The keys and counters of a transport state. -/
structure Counters where
  sendingKey : UInt8
  receivingKey : UInt8
  sent : ℕ
  received : ℕ

/-- A ciphertext starts with its key and, by so many ones, its number. -/
def heading (key : UInt8) (n : ℕ) : Bytes := key :: (List.replicate n 1 ++ [0])

theorem heading_number {key : UInt8} {m n : ℕ} {p q : Bytes}
    (h : heading key m ++ p = heading key n ++ q) : m = n := by
  have rest : List.replicate m (1 : UInt8) ++ 0 :: p = List.replicate n 1 ++ 0 :: q := by
    simpa [heading] using h
  clear h
  induction m generalizing n with
  | zero =>
    cases n with
    | zero => rfl
    | succ n => simp [List.replicate_succ] at rest
  | succ m ih =>
    cases n with
    | zero => simp [List.replicate_succ] at rest
    | succ n => exact congrArg (· + 1) (ih (by simpa [List.replicate_succ] using rest))

/-- A library that seals nothing but keeps count. -/
def counting : NoiseLibrary Unit Counters where
  buildInitiator _ := .ok ()
  buildResponder _ := .ok ()
  writeHandshake _ payload := ((), .ok payload)
  readHandshake _ message := ((), .ok message)
  isHandshakeFinished _ := false
  getRemoteStatic _ := none
  intoTransportMode _ := .error "state must be HandshakeState"
  writeMessage t plaintext :=
    ({ t with sent := t.sent + 1 }, .ok (heading t.sendingKey t.sent ++ plaintext))
  readMessage t ciphertext :=
    if ciphertext.take (heading t.receivingKey t.received).length =
        heading t.receivingKey t.received then
      ({ t with received := t.received + 1 },
        .ok (ciphertext.drop (heading t.receivingKey t.received).length))
    else (t, .error "decrypt error")

def countingView : TransportView Counters UInt8 where
  sendingKey := Counters.sendingKey
  sent := Counters.sent
  receivingKey := Counters.receivingKey
  received := Counters.received
  encryption key n plaintext := heading key n ++ plaintext

theorem onlyAt_heading (key : UInt8) (n : ℕ) (q : Bytes) :
    OnlyAt countingView key n (heading key n ++ q) :=
  fun _ _ h => heading_number h.symm

theorem counting_seals : counting.Seals countingView where
  write h := by
    obtain ⟨rfl, hsealed⟩ := Prod.mk.inj h
    exact ⟨(Except.ok.inj hsealed).symm, rfl, rfl, rfl, rfl⟩
  writeFails h := by cases (Prod.mk.inj h).2
  read {t t' ciphertext plaintext} h := by
    simp only [counting] at h
    split_ifs at h with begins
    · obtain ⟨rfl, hopened⟩ := Prod.mk.inj h
      refine ⟨?_, rfl, rfl, rfl, rfl⟩
      have parts := List.take_append_drop (heading t.receivingKey t.received).length ciphertext
      rw [begins, Except.ok.inj hopened] at parts
      exact parts.symm
    · cases (Prod.mk.inj h).2
  readFails {t t' ciphertext e} h := by
    simp only [counting] at h
    split_ifs at h with begins
    · cases (Prod.mk.inj h).2
    · exact (Prod.mk.inj h).1.symm
  opens {s s' t plaintext ciphertext} h hkey hcount := by
    obtain ⟨-, hsealed⟩ := Prod.mk.inj h
    have sealed : ciphertext = heading t.receivingKey t.received ++ plaintext := by
      rw [← Except.ok.inj hsealed]
      exact congrArg₂ (fun k n => heading k n ++ plaintext) hkey.symm hcount.symm
    simp [counting, sealed]

theorem counting_starts : NoiseSession.Starts (fun _ => false) counting :=
  ⟨rfl, fun _ _ _ => rfl⟩

/-- The keys of the two sides. -/
def keyOf : Side → UInt8
  | .initiator => 7
  | .responder => 8

/-- Two ends that have just established their session. -/
def counted : SecureChannel Unit Counters where
  ends side := { (NoiseSession.starting NoiseSession.remotePeer () ⟨0⟩ :
      NoiseSession Unit Counters) with
    state := .established
    handshake := none
    transport := some ⟨keyOf side, keyOf side.other, 0, 0⟩ }
  sent _ := []

theorem counted_fresh : Fresh countingView keyOf counted :=
  fun _ => ⟨rfl, rfl, rfl, _, rfl, ⟨rfl, rfl, rfl, rfl⟩⟩

/-- Two messages of which the second arrives first. -/
def reordered : List Act :=
  [⟨.initiator, .encrypt [1], ⟨1⟩⟩, ⟨.initiator, .encrypt [2], ⟨2⟩⟩,
    ⟨.responder, .decrypt (heading 7 1 ++ [2]), ⟨3⟩⟩]

theorem reordered_unforged :
    Along (step (fun _ => NoiseSession.localKey) counting) (Unforged countingView keyOf) counted
      reordered := by
  refine ⟨nofun, nofun, ?_, trivial⟩
  intro ciphertext h
  obtain rfl := SessionOp.decrypt.inj h
  exact .inl ⟨1, by decide, onlyAt_heading 7 1 [2]⟩

theorem reordered_opened_prefix :
    (counted.log (fun _ => NoiseSession.localKey) counting reordered).filterMap
        (Seen.openedBy .responder) <+:
      (counted.log (fun _ => NoiseSession.localKey) counting reordered).filterMap
        (Seen.sealedBy .initiator) :=
  opened_prefix_of_sealed _ counting_seals counting_starts counted_fresh reordered_unforged
    .initiator

theorem reordered_opens_next :
    ∃ plaintext, (step (fun _ => NoiseSession.localKey) counting
      (run (step (fun _ => NoiseSession.localKey) counting) counted reordered)
      ⟨.responder, .decrypt (heading 7 0 ++ [1]), ⟨4⟩⟩).2 =
        some (.opened .responder plaintext) :=
  have only : OnlyAt countingView (keyOf Side.responder.other) 0 (heading 7 0 ++ [1]) :=
    onlyAt_heading 7 0 [1]
  (opens_iff_next _ counting_seals counting_starts counted_fresh reordered_unforged (by decide)
    only ⟨4⟩).mpr ⟨by decide, by decide⟩

theorem reordered_loses : Along (step (fun _ => NoiseSession.localKey) counting)
    (Loses .initiator 0) counted reordered := by
  refine ⟨nofun, nofun, ?_, trivial⟩
  intro _ ciphertext h
  obtain rfl := SessionOp.decrypt.inj h
  decide

theorem reordered_loss_silences :
    ((counted.log (fun _ => NoiseSession.localKey) counting reordered).filterMap
      (Seen.openedBy .responder)).length ≤ 0 :=
  loss_silences _ counting_seals counting_starts counted_fresh reordered_unforged .initiator 0
    reordered_loses

end SecureChannel

end Bitchat
