import Bitchat.MessageRefs
import Bitchat.Rust.Gossip
import Mathlib.Order.ConditionallyCompleteLattice.Basic

/-!
# Session synchronisation between many devices

The devices of one identity ask each other for message references over a network that
loses, repeats and reorders requests and responses. A response brings only what its
request did not mention, and yet every device knows at every time what it would know if
each response brought everything.
-/
namespace Bitchat
open Rust

/-- The devices, and the requests and responses on the network, each with the device that
asked. -/
structure SyncNetwork (D : Type) where
  devices : D → MultiDeviceSessionManager
  requests : List (D × SessionSyncRequest)
  responses : List (D × SessionSyncResponse)

namespace SyncNetwork

variable {D : Type} [DecidableEq D]

/-- No device knows anything. -/
def start (info : D → DeviceInfo) : SyncNetwork D :=
  ⟨fun d => .new (info d), [], []⟩

/-- A user's message, and the three parts of an exchange. The time is that of the device. -/
inductive Act (D : Type) where
  | write (d : D) (ref : MessageRef)
  | ask (d : D) (now : Timestamp)
  | answer (d : D) (n : ℕ) (now : Timestamp)
  | merge (n : ℕ) (now : Timestamp)

def step (net : SyncNetwork D) (act : Act D) : SyncNetwork D × Unit :=
  match act with
  | .write d ref =>
    ({ net with devices := Function.update net.devices d ((net.devices d).addMessageRef ref).1 },
      ())
  | .ask d now =>
    ({ net with requests := net.requests ++ [(d, (net.devices d).createSyncRequest now)] }, ())
  | .answer d n now =>
    match net.requests[n]? with
    | some (asker, request) =>
      let answered := (net.devices d).processSyncRequest request now
      match answered.2 with
      | .ok response =>
        ({ net with
          devices := Function.update net.devices d answered.1
          responses := net.responses ++ [(asker, response)] }, ())
      | .error _ => ({ net with devices := Function.update net.devices d answered.1 }, ())
    | none => (net, ())
  | .merge n now =>
    match net.responses[n]? with
    | some (d, response) =>
      let merged := ((net.devices d).processSyncResponse response now).1
      ({ net with devices := Function.update net.devices d merged }, ())
    | none => (net, ())

/-- The action on sets of references. -/
def Act.gossip : Act D → Gossip.Act D (Set MessageRef)
  | .write d ref => .write d {ref}
  | .ask d _ => .ask d
  | .answer d n _ => .answer d n
  | .merge n _ => .merge n

/-- Nobody knows anything. -/
def ignorant (D : Type) : Gossip D (Set MessageRef) := ⟨fun _ => ∅, [], []⟩

/-- What the users write in a run. -/
def written (acts : List (Act D)) : Set MessageRef := {ref | ∃ d, .write d ref ∈ acts}

/-- No two references have one id, and there are fewer than a device can store. -/
structure Fits (refs : Set MessageRef) : Prop where
  unique : ∀ ref ∈ refs, ∀ ref' ∈ refs, ref.messageId = ref'.messageId → ref = ref'
  few : ∃ ids : Finset Text, (∀ ref ∈ refs, ref.messageId ∈ ids) ∧ ids.card < maxMessageRefs

/-- The device stores the references of the set and no others. -/
def Holds (m : MultiDeviceSessionManager) (refs : Set MessageRef) : Prop :=
  ∀ ref, m.Stores ref ↔ ref ∈ refs

section

variable {m : MultiDeviceSessionManager} {refs all : Set MessageRef} {ref : MessageRef}

theorem Holds.size_lt (h : Holds m refs) (fits : Fits refs) :
    m.messageRefs.size < maxMessageRefs := by
  obtain ⟨ids, mem, few⟩ := fits.few
  rw [← KeyedMap.card_keys]
  refine lt_of_le_of_lt (Finset.card_le_card fun id hid => ?_) few
  obtain ⟨held, hget⟩ := KeyedMap.mem_keys_iff.mp hid
  have key : held.messageId = id := KeyedMap.key_of_get hget
  rw [← key]
  exact mem held ((h held).mp (by rw [MultiDeviceSessionManager.Stores, key]; exact hget))

theorem Fits.mono (fits : Fits all) (sub : refs ⊆ all) : Fits refs := by
  obtain ⟨ids, mem, few⟩ := fits.few
  exact ⟨fun ref href ref' href' => fits.unique ref (sub href) ref' (sub href'),
    ids, fun ref href => mem ref (sub href), few⟩

theorem Holds.addMessageRef (h : Holds m refs) (fits : Fits (refs ∪ {ref})) :
    Holds (m.addMessageRef ref).1 (refs ∪ {ref}) := by
  have room := h.size_lt (fits.mono Set.subset_union_left)
  rw [MultiDeviceSessionManager.addMessageRef_of_room room]
  intro other
  rw [MultiDeviceSessionManager.Stores, KeyedMap.get_put]
  split_ifs with same
  · constructor
    · intro heq
      obtain rfl := Option.some.inj heq
      exact .inr rfl
    · intro hother
      exact congrArg some (fits.unique ref (.inr rfl) other hother same)
  · rw [Set.mem_union, Set.mem_singleton_iff, ← h other]
    refine ⟨.inl, fun hor => hor.resolve_right fun heq => same ?_⟩
    rw [heq]

theorem Holds.addMessageRefs (h : Holds m refs) {added : List MessageRef}
    (fits : Fits (refs ∪ {ref | ref ∈ added})) :
    Holds (run MultiDeviceSessionManager.addMessageRef m added) (refs ∪ {ref | ref ∈ added}) := by
  induction added generalizing m refs with
  | nil => simpa using h
  | cons ref rest ih =>
    have split : refs ∪ {r | r ∈ ref :: rest} = refs ∪ {ref} ∪ {r | r ∈ rest} := by
      ext r
      simp only [Set.mem_union, Set.mem_ofPred_eq, List.mem_cons, Set.mem_singleton_iff]
      tauto
    rw [split] at fits ⊢
    exact ih (h.addMessageRef (fits.mono Set.subset_union_left)) fits

@[simp] theorem holds_sessions {sessions : KeyedMap SessionSyncState.peerId} :
    Holds { m with sessionStates := sessions } refs ↔ Holds m refs := Iff.rfl

/-- A device that takes a response in holds what the response brings, too. -/
theorem Holds.processSyncResponse (h : Holds m refs) (response : SessionSyncResponse)
    (fits : Fits (refs ∪ {ref | ref ∈ response.newMessages})) (now : Timestamp) :
    Holds (m.processSyncResponse response now).1
      (refs ∪ {ref | ref ∈ response.newMessages}) := by
  have updated : Holds (response.sessionUpdates.foldl MultiDeviceSessionManager.updateSession m)
      refs := by
    rw [MultiDeviceSessionManager.updateSessions_eq]
    exact h
  exact updated.addMessageRefs fits

/-- A response brings what the device holds and the request does not mention. -/
theorem Holds.mem_newMessages (h : Holds m refs) (request : SessionSyncRequest) (now : Timestamp) :
    ∃ response, m.processSyncRequest request now =
        ({ m with deviceSyncTimes := m.deviceSyncTimes.insert request.deviceId now },
          .ok response) ∧
      ∀ ref, ref ∈ response.newMessages ↔
        ref ∈ refs ∧ ∀ msg ∈ request.messageRefs, msg.messageId ≠ ref.messageId := by
  refine ⟨_, rfl, fun ref => ?_⟩
  rw [List.mem_filter, KeyedMap.mem_values, ← h ref, MultiDeviceSessionManager.Stores]
  simp

end

/-- Each response on the network brings no more than the answer that it stands for, and no less
but what the device that asked knows already. -/
structure Carries (known : D → Set MessageRef) (response : D × SessionSyncResponse)
    (answer : D × Set MessageRef) : Prop where
  asker : response.1 = answer.1
  sound : ∀ ref ∈ response.2.newMessages, ref ∈ answer.2
  complete : ∀ ref ∈ answer.2, ref ∈ response.2.newMessages ∨ ref ∈ known answer.1

/-- The devices hold what the nodes know, a request mentions no more than the device that asked
knows, and responses stand for answers. -/
structure Represents (net : SyncNetwork D) (g : Gossip D (Set MessageRef)) : Prop where
  holds : ∀ d, Holds (net.devices d) (g.known d)
  asked : g.asked = net.requests.map Prod.fst
  mentions : ∀ request ∈ net.requests, ∀ ref ∈ request.2.messageRefs, ref ∈ g.known request.1
  carries : List.Forall₂ (Carries g.known) net.responses g.carried

section

variable {net : SyncNetwork D} {g : Gossip D (Set MessageRef)} {all : Set MessageRef}

omit [DecidableEq D] in
theorem represents_start (info : D → DeviceInfo) : Represents (start info) (ignorant D) := by
  refine ⟨fun d ref => ?_, rfl, nofun, .nil⟩
  simp [start, ignorant, MultiDeviceSessionManager.new, MultiDeviceSessionManager.Stores]

/-- A device that learns something. -/
theorem Represents.learn (h : Represents net g) {d : D} {refs : Set MessageRef}
    {m : MultiDeviceSessionManager} (holds : Holds m (g.known d ∪ refs)) :
    Represents { net with devices := Function.update net.devices d m } (g.learn d refs) := by
  have more (d' : D) : g.known d' ⊆ (g.learn d refs).known d' := Gossip.known_le_learn d'
  refine ⟨fun d' => ?_, h.asked, ?_, ?_⟩
  · by_cases hd : d' = d
    · subst hd
      simpa using holds
    · simpa [Gossip.learn, hd] using h.holds d'
  · exact fun request hmem ref href => more _ (h.mentions request hmem ref href)
  · refine h.carries.imp fun response answer carries => ⟨carries.asker, carries.sound, ?_⟩
    exact fun ref href => (carries.complete ref href).imp_right fun hknown => more _ hknown

/-- A request mentions what the device that asks holds, and stays true of it. -/
theorem Represents.ask (h : Represents net g) (d : D) (now : Timestamp) :
    Represents (step net (.ask d now)).1 (Gossip.step g (.ask d)).1 := by
  refine ⟨h.holds, ?_, ?_, h.carries⟩
  · simp [step, Gossip.step, h.asked]
  · intro request hmem ref href
    rcases List.mem_append.mp hmem with hmem | hmem
    · exact h.mentions request hmem ref href
    · rw [List.mem_singleton.mp hmem] at href ⊢
      have stored : (net.devices d).Stores ref := KeyedMap.mem_values.mp href
      exact (h.holds d ref).mp stored

/-- What an answer leaves out was mentioned, so that the device that asked knows it. -/
theorem Represents.answer (h : Represents net g) (fits : Fits all) (below : g.Below all)
    (b : D) (n : ℕ) (now : Timestamp) :
    Represents (step net (.answer b n now)).1 (Gossip.step g (.answer b n)).1 := by
  have hasked : g.asked[n]? = net.requests[n]?.map Prod.fst := by rw [h.asked, List.getElem?_map]
  rw [step, Gossip.step, hasked]
  cases hrequest : net.requests[n]? with
  | none => exact h
  | some asking =>
    obtain ⟨asker, request⟩ := asking
    obtain ⟨response, hanswered, brings⟩ := (h.holds b).mem_newMessages request now
    have mentions := h.mentions _ (List.mem_of_getElem? hrequest)
    have carries : Carries g.known (asker, response) (asker, g.known b) := by
      refine ⟨rfl, fun ref href => ((brings ref).mp href).1, fun ref href => ?_⟩
      by_cases hmentioned : ∃ msg ∈ request.messageRefs, msg.messageId = ref.messageId
      · obtain ⟨msg, hmsg, hid⟩ := hmentioned
        have known : msg ∈ g.known asker := mentions msg hmsg
        rw [← fits.unique msg (below.known asker known) ref (below.known b href) hid]
        exact .inr known
      · refine .inl ((brings ref).mpr ⟨href, fun msg hmsg hid => hmentioned ⟨msg, hmsg, hid⟩⟩)
    simp only [hanswered, Option.map_some]
    refine ⟨fun d => ?_, h.asked, h.mentions, ?_⟩
    · by_cases hd : d = b
      · subst hd
        simp only [Function.update_self]
        exact h.holds d
      · simpa [hd] using h.holds d
    · exact List.rel_append h.carries (.cons carries .nil)

/-- What a response does not bring is known already when it comes in. -/
theorem Represents.merge (h : Represents net g) (fits : Fits all) (below : g.Below all)
    (n : ℕ) (now : Timestamp) :
    Represents (step net (.merge n now)).1 (Gossip.step g (.merge n)).1 := by
  have same := h.carries.length_eq
  rw [step, Gossip.step]
  cases hresponse : net.responses[n]? with
  | none =>
    have hnone : g.carried[n]? = none := by
      rw [List.getElem?_eq_none_iff] at hresponse ⊢
      omega
    rw [hnone]
    exact h
  | some received =>
    obtain ⟨hn, hget⟩ := List.getElem?_eq_some_iff.mp hresponse
    have hanswer : g.carried[n]? = some (g.carried.get ⟨n, same ▸ hn⟩) :=
      List.getElem?_eq_getElem _
    have carries : Carries g.known received (g.carried.get ⟨n, same ▸ hn⟩) :=
      hget ▸ h.carries.get hn (same ▸ hn)
    rw [hanswer]
    generalize g.carried.get ⟨n, same ▸ hn⟩ = answer at hanswer carries
    obtain ⟨d, refs⟩ := answer
    obtain ⟨d', response⟩ := received
    obtain rfl : d' = d := carries.asker
    have joined : g.known d' ∪ {ref | ref ∈ response.newMessages} = g.known d' ∪ refs := by
      ext ref
      constructor
      · exact Or.imp_right (carries.sound ref)
      · rintro (hknown | href)
        · exact .inl hknown
        · exact (carries.complete ref href).symm
    have inside : g.known d' ∪ refs ⊆ all :=
      Set.union_subset (below.known d') (below.carried _ (List.mem_of_getElem? hanswer))
    refine h.learn ?_
    rw [← joined] at inside ⊢
    exact (h.holds d').processSyncResponse response (fits.mono inside) now

theorem Represents.step (h : Represents net g) (fits : Fits all) (below : g.Below all)
    {act : Act D} (inside : ∀ d ref, act = .write d ref → ref ∈ all) :
    Represents (step net act).1 (Gossip.step g act.gossip).1 := by
  cases act with
  | write d ref =>
    refine h.learn ((h.holds d).addMessageRef (fits.mono ?_))
    exact Set.union_subset (below.known d) (Set.singleton_subset_iff.mpr (inside d ref rfl))
  | ask d now => exact h.ask d now
  | answer b n now => exact h.answer fits below b n now
  | merge n now => exact h.merge fits below n now

/-- The devices follow the nodes through a run. -/
theorem Represents.run (h : Represents net g) (fits : Fits all) (below : g.Below all)
    {acts : List (Act D)} (inside : written acts ⊆ all) :
    Represents (Rust.run SyncNetwork.step net acts)
      (Rust.run Gossip.step g (acts.map Act.gossip)) := by
  induction acts generalizing net g with
  | nil => exact h
  | cons act rest ih =>
    have first (d : D) (ref : MessageRef) (hact : act = .write d ref) : ref ∈ all :=
      inside ⟨d, hact ▸ List.mem_cons_self⟩
    refine ih (h.step fits below first) (below.step ?_) ?_
    · intro d refs hact
      cases act with
      | write d' ref =>
        cases hact
        exact Set.singleton_subset_iff.mpr (first _ ref rfl)
      | ask d' now => cases hact
      | answer d' n now => cases hact
      | merge n now => cases hact
    · rintro ref ⟨d, hmem⟩
      exact inside ⟨d, List.mem_cons_of_mem act hmem⟩

omit [DecidableEq D] in
theorem below_ignorant : (ignorant D).Below all :=
  ⟨fun _ => Set.empty_subset all, nofun⟩

theorem represents_run (info : D → DeviceInfo) {acts : List (Act D)} (fits : Fits (written acts)) :
    Represents (Rust.run step (start info) acts)
      (Rust.run Gossip.step (ignorant D) (acts.map Act.gossip)) :=
  (represents_start info).run fits below_ignorant subset_rfl

end

/-- Responses that leave out what the request mentioned, on a network that loses, repeats and
reorders, leave each device with what answers with everything would. -/
theorem stores_iff_known (info : D → DeviceInfo) (acts : List (Act D)) (fits : Fits (written acts))
    (d : D) (ref : MessageRef) :
    ((run step (start info) acts).devices d).Stores ref ↔
      ref ∈ (run Gossip.step (ignorant D) (acts.map Act.gossip)).known d :=
  (represents_run info fits).holds d ref

/-- The reference that is written. -/
def news : MessageRef := MultiDeviceSessionManager.numbered 7

/-- Only the first of two responses arrives. -/
def lossyExchange : List (Act Bool) :=
  [.write true news, .ask false ⟨1⟩, .answer true 0 ⟨2⟩, .answer true 0 ⟨3⟩, .merge 0 ⟨4⟩]

theorem fits_lossyExchange : Fits (written lossyExchange) := by
  have only (ref : MessageRef) (h : ref ∈ written lossyExchange) : ref = news := by
    obtain ⟨d, hmem⟩ := h
    simp only [lossyExchange, List.mem_cons, Act.write.injEq, reduceCtorEq, or_false,
      List.not_mem_nil] at hmem
    exact hmem.2
  refine ⟨fun ref h ref' h' _ => (only ref h).trans (only ref' h').symm, {news.messageId}, ?_, ?_⟩
  · intro ref h
    rw [only ref h]
    exact Finset.mem_singleton_self _
  · simp [maxMessageRefs]

theorem lossyExchange_stores :
    ((run step (start fun _ => ⟨⟨['p']⟩⟩) lossyExchange).devices false).Stores news := by
  refine (stores_iff_known _ lossyExchange fits_lossyExchange false news).mpr ?_
  simp [lossyExchange, Act.gossip, run, Gossip.step, Gossip.learn, ignorant]

/-- Once the response is merged, however late, the device that asked stores for good what the
other one stored when it answered. -/
theorem merged_brings_stored (info : D → DeviceInfo) {before between after : List (Act D)}
    {b d : D} {n : ℕ} {now now' : Timestamp} {request : SessionSyncRequest} {ref : MessageRef}
    (hrequest : (run step (start info) before).requests[n]? = some (d, request))
    (fits : Fits (written (before ++ .answer b n now :: between ++
      .merge (run step (start info) before).responses.length now' :: after)))
    (stored : ((run step (start info) before).devices b).Stores ref) :
    ((run step (start info) (before ++ .answer b n now :: between ++
      .merge (run step (start info) before).responses.length now' :: after)).devices d).Stores
        ref := by
  have fitsBefore : Fits (written before) := fits.mono fun ref ⟨d, hmem⟩ => ⟨d, by simp [hmem]⟩
  have represents := represents_run info fitsBefore
  have hasked : (run Gossip.step (ignorant D) (before.map Act.gossip)).asked[n]? = some d := by
    rw [represents.asked, List.getElem?_map, hrequest, Option.map_some]
  rw [(represents_run info fits).holds d ref, represents.carries.length_eq]
  simp only [List.append_assoc, List.cons_append, List.map_append, List.map_cons, Act.gossip]
  rw [run_append]
  exact Gossip.known_le_of_merged hasked _ _ ((represents.holds b ref).mp stored)

theorem lossyExchange_brings :
    ((run step (start fun _ => ⟨⟨['p']⟩⟩) lossyExchange).devices false).Stores news := by
  refine @merged_brings_stored Bool _ (fun _ => ⟨⟨['p']⟩⟩) [.write true news, .ask false ⟨1⟩]
    [.answer true 0 ⟨3⟩] [] true false 0 ⟨2⟩ ⟨4⟩ _ news rfl fits_lossyExchange ?_
  exact (KeyedMap.get_put _ _ _).trans (if_pos rfl)

end SyncNetwork

end Bitchat
