import MiniP2P.Pubsub.Codec

/-! What is encoded is decoded again, and nothing is decoded that is not whole. -/
namespace Pubsub
open Framing Identity List

variable {fields : List Field} {input : List UInt8}

section

variable {σ α : Type} (apply : σ → Nat → Value → Option σ) (number : Nat)

theorem applyAll_append (message : σ) (fields fields' : List Field) :
    applyAll apply message (fields ++ fields') =
      (applyAll apply message fields).bind fun message => applyAll apply message fields' :=
  foldlM_append

theorem applyAll_list (put : List α → σ) (encode : α → List UInt8) (before values : List α)
    (takes : ∀ list, ∀ value ∈ values,
      apply (put list) number (.len (encode value)) = some (put (list ++ [value]))) :
    applyAll apply (put before) (lenFields number (values.map encode)) =
      some (put (before ++ values)) := by
  induction values generalizing before with
  | nil => simp [applyAll, lenFields]
  | cons value values ih =>
    have rest := ih (before ++ [value]) fun list v mem => takes list v (mem_cons_of_mem _ mem)
    rw [append_assoc] at rest
    simp only [applyAll, lenFields, map_cons, foldlM_cons] at rest ⊢
    rw [takes before value mem_cons_self]
    exact rest

theorem applyAll_option (put : Option α → σ) (encode : α → List UInt8) (value : Option α)
    (takes : ∀ v, value = some v →
      apply (put none) number (.len (encode v)) = some (put (some v))) :
    applyAll apply (put none) (lenFields number (value.toList.map encode)) = some (put value) := by
  cases value with
  | none => rfl
  | some v => simp [applyAll, lenFields, takes v rfl]

theorem applyAll_bytes (put : Option (List UInt8) → σ) (value : Option (List UInt8))
    (takes : ∀ bytes, apply (put none) number (.len bytes) = some (put (some bytes))) :
    applyAll apply (put none) (lenFields number value.toList) = some (put value) := by
  simpa using applyAll_option apply number put id value fun bytes _ => takes bytes

theorem applyAll_topic (put : Option String → σ) (topic : Option String)
    (takes : ∀ bytes, apply (put none) number (.len bytes) =
      (Utf8.decode bytes).map fun text => put (some text)) :
    applyAll apply (put none) (lenFields number (topic.toList.map Utf8.encode)) =
      some (put topic) :=
  applyAll_option apply number put Utf8.encode topic fun text _ => by rw [takes, Utf8.decode_encode,
    Option.map_some]

theorem applyAll_keeps (P : σ → Prop) (keeps : ∀ message number v message', v.Fits → P message →
      apply message number v = some message' → P message') {message result : σ}
    (fits : ∀ f ∈ fields, f.Fits) (holds : P message)
    (applied : applyAll apply message fields = some result) : P result := by
  induction fields generalizing message with
  | nil =>
    cases applied
    exact holds
  | cons f fields ih =>
    obtain ⟨message', first, rest⟩ := Option.bind_eq_some_iff.mp applied
    exact ih (fun g mem => fits g (mem_cons_of_mem _ mem))
      (keeps _ _ _ _ (fits f mem_cons_self).value holds first) rest

end

def Field.Plain (f : Field) : Prop :=
  0 < f.number ∧ f.number < 16 ∧
    match f.value with
    | .varint n => n < 2 ^ 64
    | .len _ => True
    | _ => False

theorem plain_lenFields (number : Nat) (known : 0 < number ∧ number < 16)
    (values : List (List UInt8)) : ∀ f ∈ lenFields number values, f.Plain := by
  intro f mem
  obtain ⟨bytes, -, rfl⟩ := mem_map.mp mem
  exact ⟨known.1, known.2, trivial⟩

theorem fits_of_plain (plain : ∀ f ∈ fields, f.Plain)
    (short : (fields.flatMap Field.encode).length < 2 ^ 64) : ∀ f ∈ fields, f.Fits := by
  intro f mem
  have inside : f.encode.length ≤ (fields.flatMap Field.encode).length := by
    obtain ⟨before, after, rfl⟩ := append_of_mem mem
    simp only [flatMap_append, flatMap_cons, length_append]
    omega
  obtain ⟨number, v | v | v | v⟩ := f
  all_goals obtain ⟨positive, small, value⟩ := plain _ mem
  · refine ⟨positive, ?_, value⟩
    unfold Field.tag Value.wireType wireVarint
    dsimp only at small ⊢
    omega
  · cases value
  · refine ⟨positive, ?_, ?_⟩
    · unfold Field.tag Value.wireType wireLen
      dsimp only at small ⊢
      omega
    · simp only [Field.encode, Value.encode, length_append] at inside
      change v.length < 2 ^ 64
      omega
  · cases value

theorem SubOpts.decode_encode (opts : SubOpts) (fits : opts.encode.length < 2 ^ 64) :
    decode opts.encode = .ok opts := by
  rw [encode_eq] at fits ⊢
  refine (follows _).decode.mpr ⟨opts.fields, fits_of_plain ?_ fits, rfl, ?_⟩
  · intro f mem
    rcases mem_append.mp mem with mem | mem
    · obtain ⟨n, known, rfl⟩ := mem_map.mp mem
      obtain ⟨subscribe, -, rfl⟩ := mem_map.mp known
      cases subscribe <;> exact ⟨Nat.one_pos, by decide, by decide⟩
    · exact plain_lenFields _ (by decide) _ f mem
  · obtain ⟨subscribe, topicId⟩ := opts
    have first : applyAll apply {} (varintFields 1 (subscribe.toList.map fun s =>
        if s then 1 else 0)) =
        some { subscribe } := by
      rcases subscribe with _ | _ | _ <;> rfl
    rw [fields, applyAll_append, first]
    exact applyAll_topic apply 2 (fun topicId => ⟨subscribe, topicId⟩) topicId fun _ => rfl

theorem PeerInfo.decode_encode (peer : PeerInfo) (fits : peer.encode.length < 2 ^ 64) :
    decode peer.encode = .ok peer := by
  rw [encode_eq] at fits ⊢
  refine (follows _).decode.mpr ⟨peer.fields, fits_of_plain (forall_mem_append.mpr
    ⟨plain_lenFields _ (by decide) _, plain_lenFields _ (by decide) _⟩) fits,
    rfl, ?_⟩
  have first : applyAll apply {} (lenFields 1 peer.peerId.toList) = some ⟨peer.peerId, none⟩ :=
    applyAll_bytes apply 1 (fun peerId => ⟨peerId, none⟩) peer.peerId fun _ => rfl
  rw [fields, applyAll_append, first]
  exact applyAll_bytes apply 2 (fun record => ⟨peer.peerId, record⟩)
    peer.signedPeerRecord fun _ => rfl

theorem ControlIHave.decode_encode (message : ControlIHave)
    (fits : message.encode.length < 2 ^ 64) :
    decode message.encode = .ok message := by
  rw [encode_eq] at fits ⊢
  refine (follows _).decode.mpr ⟨message.fields, fits_of_plain (forall_mem_append.mpr
    ⟨plain_lenFields _ (by decide) _, plain_lenFields _ (by decide) _⟩) fits,
    rfl, ?_⟩
  have first : applyAll apply {} (lenFields 1 (message.topicId.toList.map Utf8.encode)) =
      some ⟨message.topicId, []⟩ :=
    applyAll_topic apply 1 (fun topicId => ⟨topicId, []⟩) message.topicId fun _ => rfl
  rw [fields, applyAll_append, first]
  simpa using applyAll_list apply 2 (fun ids => ⟨message.topicId, ids⟩) id [] message.messageIds
    fun _ _ _ => rfl

theorem ControlIWant.decode_encode (message : ControlIWant)
    (fits : message.encode.length < 2 ^ 64) :
    decode message.encode = .ok message := by
  rw [encode_eq] at fits ⊢
  refine (follows _).decode.mpr ⟨message.fields,
    fits_of_plain (plain_lenFields _ (by decide) _) fits, rfl, ?_⟩
  simpa [fields] using applyAll_list apply 1 (fun ids => ⟨ids⟩) id [] message.messageIds
    fun _ _ _ => rfl

theorem ControlGraft.decode_encode (message : ControlGraft)
    (fits : message.encode.length < 2 ^ 64) :
    decode message.encode = .ok message := by
  rw [encode_eq] at fits ⊢
  exact (follows _).decode.mpr ⟨message.fields,
    fits_of_plain (plain_lenFields _ (by decide) _) fits, rfl,
    applyAll_topic apply 1 (fun topicId => ⟨topicId⟩) message.topicId fun _ => rfl⟩

/-- The back-off is a `u64`. -/
def ControlPrune.Sound (message : ControlPrune) : Prop := ∀ n, message.backoff = some n → n < 2 ^ 64

def ControlMessage.Sound (control : ControlMessage) : Prop := ∀ m ∈ control.prune, m.Sound

variable {control : ControlMessage} {message : ControlPrune} {α : Type}

theorem toOption_map {β : Type} {result : Except PubsubWireError α} {value : α} (put : α → β)
    (decoded : result = .ok value) : result.toOption.map put = some (put value) := by
  rw [decoded]
  rfl

theorem of_toOption {result : Except PubsubWireError α} {value : α}
    (succeeded : result.toOption = some value) : result = .ok value := by
  cases result with
  | error e => cases succeeded
  | ok value' =>
    cases succeeded
    rfl

theorem nested_lt (number : Nat) {encode : α → List UInt8} {values : List α}
    (fits : ∀ f ∈ fields, f.Fits) (part : ∀ f ∈ lenFields number (values.map encode), f ∈ fields)
    {value : α} (mem : value ∈ values) : (encode value).length < 2 ^ 64 :=
  (fits ⟨number, .len (encode value)⟩
    (part _ (mem_map.mpr ⟨_, mem_map.mpr ⟨value, mem, rfl⟩, rfl⟩))).value

theorem ControlPrune.decode_encode (sound : message.Sound)
    (fits : message.encode.length < 2 ^ 64) : decode message.encode = .ok message := by
  rw [encode_eq] at fits ⊢
  have fit : ∀ f ∈ message.fields, f.Fits := by
    refine fits_of_plain (forall_mem_append.mpr ⟨forall_mem_append.mpr
      ⟨plain_lenFields _ (by decide) _, plain_lenFields _ (by decide) _⟩, ?_⟩) fits
    intro f mem
    obtain ⟨n, known, rfl⟩ := mem_map.mp mem
    exact ⟨by simp, by simp, sound n (Option.mem_toList.mp known)⟩
  refine (follows _).decode.mpr ⟨message.fields, fit, rfl, ?_⟩
  have peer (p : PeerInfo) (mem : p ∈ message.peers) : PeerInfo.decode p.encode = .ok p :=
    p.decode_encode (nested_lt 2 fit (fun f known => by simp [fields, known]) mem)
  have first : applyAll apply {} (lenFields 1 (message.topicId.toList.map Utf8.encode)) =
      some ⟨message.topicId, [], none⟩ :=
    applyAll_topic apply 1 (fun topicId => ⟨topicId, [], none⟩) message.topicId fun _ => rfl
  have second : applyAll apply ⟨message.topicId, [], none⟩
      (lenFields 2 (message.peers.map PeerInfo.encode)) =
        some ⟨message.topicId, message.peers, none⟩ :=
    applyAll_list apply 2 (fun peers => ⟨message.topicId, peers, none⟩) PeerInfo.encode [] _
      fun _ p mem => toOption_map _ (peer p mem)
  rw [fields, applyAll_append, applyAll_append, first, Option.bind_some, second]
  obtain ⟨topicId, peers, backoff⟩ := message
  cases backoff <;> rfl

theorem ControlMessage.mergeFrom_encode (sound : control.Sound)
    (fits : control.encode.length < 2 ^ 64) : mergeFrom {} control.encode = .ok control := by
  rw [encode_eq] at fits ⊢
  have fit : ∀ f ∈ control.fields, f.Fits :=
    fits_of_plain (forall_mem_append.mpr ⟨forall_mem_append.mpr ⟨forall_mem_append.mpr
      ⟨plain_lenFields 1 (by decide) _, plain_lenFields 2 (by decide) _⟩,
      plain_lenFields 3 (by decide) _⟩, plain_lenFields 4 (by decide) _⟩) fits
  refine (follows _).decode.mpr ⟨control.fields, fit, rfl, ?_⟩
  have ihave (m : ControlIHave) (mem : m ∈ control.ihave) : ControlIHave.decode m.encode = .ok m :=
    m.decode_encode (nested_lt 1 fit (fun f known => by simp [fields, known]) mem)
  have iwant (m : ControlIWant) (mem : m ∈ control.iwant) : ControlIWant.decode m.encode = .ok m :=
    m.decode_encode (nested_lt 2 fit (fun f known => by simp [fields, known]) mem)
  have graft (m : ControlGraft) (mem : m ∈ control.graft) : ControlGraft.decode m.encode = .ok m :=
    m.decode_encode (nested_lt 3 fit (fun f known => by simp [fields, known]) mem)
  have prune (m : ControlPrune) (mem : m ∈ control.prune) : ControlPrune.decode m.encode = .ok m :=
    ControlPrune.decode_encode (sound m mem)
      (nested_lt 4 fit (fun f known => by simp [fields, known]) mem)
  have first := applyAll_list apply 1 (fun ihave => ⟨ihave, [], [], []⟩) _ [] control.ihave
    fun _ m mem => toOption_map _ (ihave m mem)
  have second :=
    applyAll_list apply 2 (fun iwant => ⟨control.ihave, iwant, [], []⟩) _ [] control.iwant
    fun _ m mem => toOption_map _ (iwant m mem)
  have third := applyAll_list apply 3 (fun graft => ⟨control.ihave, control.iwant, graft, []⟩) _ []
    control.graft fun _ m mem => toOption_map _ (graft m mem)
  have fourth :=
    applyAll_list apply 4 (fun prune => ⟨control.ihave, control.iwant, control.graft, prune⟩)
    _ [] control.prune fun _ m mem => toOption_map _ (prune m mem)
  simp only [nil_append] at first second third fourth
  rw [fields, applyAll_append, applyAll_append, applyAll_append, first, Option.bind_some, second,
    Option.bind_some, third]
  exact fourth

namespace RawMessage

/-- What is kept as a message's encoding belongs to its fields: it was made from them, or they
from it. -/
def Consistent (message : RawMessage) : Prop :=
  message.raw = message.encodeFields true ∨ decode message.raw = .ok message

theorem plain_fields (message : RawMessage) : ∀ f ∈ message.fields, f.Plain := by
  simp only [fields, signedFields, forall_mem_append]
  exact ⟨⟨⟨⟨⟨plain_lenFields 1 (by decide) _, plain_lenFields 2 (by decide) _⟩,
    plain_lenFields 3 (by decide) _⟩, plain_lenFields 4 (by decide) _⟩,
    plain_lenFields 5 (by decide) _⟩, plain_lenFields 6 (by decide) _⟩

theorem decode_encodeFields (message : RawMessage)
    (fits : (message.encodeFields true).length < 2 ^ 64) :
    decode (message.encodeFields true) = .ok { message with raw := message.encodeFields true } := by
  rw [encodeFields_true] at fits ⊢
  generalize raw : message.fields.flatMap Field.encode = bytes at fits ⊢
  refine (follows bytes).decode.mpr ⟨message.fields,
    fits_of_plain message.plain_fields (raw ▸ fits), raw.symm, ?_⟩
  obtain ⟨-, source, data, seqno, topicIds, signature, key⟩ := message
  have first := applyAll_bytes apply 1 (fun x => ⟨bytes, x, none, none, [], none, none⟩) source
    fun _ => rfl
  have second := applyAll_bytes apply 2 (fun x => ⟨bytes, source, x, none, [], none, none⟩) data
    fun _ => rfl
  have third := applyAll_bytes apply 3 (fun x => ⟨bytes, source, data, x, [], none, none⟩) seqno
    fun _ => rfl
  have topics := applyAll_list apply 4 (fun x => ⟨bytes, source, data, seqno, x, none, none⟩)
    Utf8.encode [] topicIds fun list topic _ => by simp [apply]
  have fifth := applyAll_bytes apply 5 (fun x => ⟨bytes, source, data, seqno, topicIds, x, none⟩)
    signature fun _ => rfl
  have sixth :=
    applyAll_bytes apply 6 (fun x => ⟨bytes, source, data, seqno, topicIds, signature, x⟩)
    key fun _ => rfl
  simp only [nil_append] at topics
  simp only [fields, signedFields, applyAll_append]
  rw [first, Option.bind_some, second, Option.bind_some, third, Option.bind_some, topics,
    Option.bind_some, fifth]
  exact sixth

variable {message : RawMessage}

theorem raw_of_decode (decoded : decode input = .ok message) : message.raw = input := by
  obtain ⟨fields, fits, -, applied⟩ := (follows input).decode.mp decoded
  refine applyAll_keeps apply (fun m => m.raw = input) ?_ fits rfl applied
  intro m number v m' _ same step
  unfold apply at step
  split at step
  all_goals first
    | (cases step; exact same)
    | (obtain ⟨topic, -, rfl⟩ := Option.map_eq_some_iff.mp step; exact same)

theorem Consistent.decode_toWire (consistent : message.Consistent)
    (fits : message.toWire.length < 2 ^ 64) : decode message.toWire = .ok message := by
  rcases consistent with made | kept
  · have wire : message.toWire = message.encodeFields true := by
      unfold toWire
      split
      · rfl
      · exact made
    rw [wire] at fits ⊢
    rw [message.decode_encodeFields fits, ← made]
  · have wire : message.toWire = message.raw := by
      unfold toWire
      split
      · rename_i nothing
        have empty : message.raw = [] := List.isEmpty_iff.mp nothing
        rw [empty] at kept
        cases kept
        rfl
      · rfl
    rw [wire]
    exact kept

end RawMessage

namespace Rpc

/-- Messages keep an encoding of their own, and back-offs are `u64`s. -/
structure Sound (rpc : Rpc) : Prop where
  publish : ∀ message ∈ rpc.publish, message.Consistent
  control : ∀ control, rpc.control = some control → control.Sound

theorem decode_encode {rpc : Rpc} (sound : rpc.Sound) (fits : rpc.encode.length < 2 ^ 64) :
    decode rpc.encode = .ok rpc := by
  rw [encode_eq] at fits ⊢
  have fit : ∀ f ∈ rpc.fields, f.Fits :=
    fits_of_plain (forall_mem_append.mpr ⟨forall_mem_append.mpr
      ⟨plain_lenFields 1 (by decide) _, plain_lenFields 2 (by decide) _⟩,
      plain_lenFields 3 (by decide) _⟩) fits
  refine (follows _ true).decode.mpr ⟨rpc.fields, fit, rfl, ?_⟩
  have sub (s : SubOpts) (mem : s ∈ rpc.subscriptions) : SubOpts.decode s.encode = .ok s :=
    s.decode_encode (nested_lt 1 fit (fun f known => by simp [fields, known]) mem)
  have message (m : RawMessage) (mem : m ∈ rpc.publish) : RawMessage.decode m.toWire = .ok m :=
    (sound.publish m mem).decode_toWire (nested_lt 2 fit
      (fun f known => by simp [fields, known]) mem)
  have control (c : ControlMessage) (present : rpc.control = some c) :
      ControlMessage.mergeFrom {} c.encode = .ok c :=
    ControlMessage.mergeFrom_encode (sound.control c present)
      (nested_lt 3 fit (fun f known => by simp [fields, known]) (Option.mem_toList.mpr present))
  have first := applyAll_list (apply true) 1 (fun x => ⟨x, [], none⟩) _ [] rpc.subscriptions
    fun _ s mem => toOption_map _ (sub s mem)
  have second :=
    applyAll_list (apply true) 2 (fun x => ⟨rpc.subscriptions, x, none⟩) _ [] rpc.publish
    fun _ m mem => toOption_map _ (message m mem)
  have third :=
    applyAll_option (apply true) 3 (fun x => ⟨rpc.subscriptions, rpc.publish, x⟩) _ rpc.control
    fun c succeeded => toOption_map _ (control c succeeded)
  simp only [nil_append] at first second
  rw [fields, applyAll_append, applyAll_append, first, Option.bind_some, second]
  exact third

end Rpc

theorem ControlPrune.sound_of_decode (decoded : decode input = .ok message) : message.Sound := by
  obtain ⟨fields, fits, -, applied⟩ := (follows input).decode.mp decoded
  have start : Sound {} := fun _ => nofun
  refine applyAll_keeps apply Sound ?_ fits start applied
  intro m number v m' small sound step
  unfold apply at step
  split at step
  · obtain ⟨topic, -, rfl⟩ := Option.map_eq_some_iff.mp step
    exact sound
  · obtain ⟨peer, -, rfl⟩ := Option.map_eq_some_iff.mp step
    exact sound
  · cases step
    rintro n ⟨⟩
    exact small
  · cases step
    exact sound

theorem ControlMessage.Sound.mergeFrom {control' : ControlMessage} (sound : control.Sound)
    (merged : control.mergeFrom input = .ok control') : control'.Sound := by
  obtain ⟨fields, fits, -, applied⟩ := (follows input).decode.mp merged
  refine applyAll_keeps apply Sound ?_ fits sound applied
  intro c number v c' _ sound step
  unfold apply at step
  split at step
  · obtain ⟨m, -, rfl⟩ := Option.map_eq_some_iff.mp step
    exact sound
  · obtain ⟨m, -, rfl⟩ := Option.map_eq_some_iff.mp step
    exact sound
  · obtain ⟨m, -, rfl⟩ := Option.map_eq_some_iff.mp step
    exact sound
  · obtain ⟨m, decoded, rfl⟩ := Option.map_eq_some_iff.mp step
    exact forall_mem_append.mpr
      ⟨sound, forall_mem_singleton.mpr (ControlPrune.sound_of_decode (of_toOption decoded))⟩
  · cases step
    exact sound

theorem Rpc.sound_of_decode {rpc : Rpc} (decoded : decode input = .ok rpc) : rpc.Sound := by
  obtain ⟨fields, fits, -, applied⟩ := (follows input true).decode.mp decoded
  have start : Sound {} := ⟨fun _ => nofun, fun _ => nofun⟩
  refine applyAll_keeps (apply true) Sound ?_ fits start applied
  intro r number v r' _ sound step
  unfold apply at step
  split at step
  · obtain ⟨s, -, rfl⟩ := Option.map_eq_some_iff.mp step
    exact ⟨sound.publish, sound.control⟩
  · obtain ⟨m, read, rfl⟩ := Option.map_eq_some_iff.mp step
    refine ⟨?_, sound.control⟩
    intro message mem
    rcases mem_append.mp mem with mem | mem
    · exact sound.publish message mem
    · have kept := of_toOption read
      rw [mem_singleton.mp mem]
      exact .inr (RawMessage.raw_of_decode kept ▸ kept)
  · obtain ⟨c, merged, rfl⟩ := Option.map_eq_some_iff.mp step
    refine ⟨sound.publish, ?_⟩
    rintro control ⟨⟩
    have before : (r.control.getD {}).Sound := by
      cases known : r.control with
      | none => exact fun _ => nofun
      | some c => exact sound.control c known
    exact before.mergeFrom (of_toOption merged)
  · cases step
    exact sound

theorem Rpc.apply_floodsub {rpc rpc' : Rpc} {number : Nat} {v : Value}
    (step : apply true rpc number v = some rpc') :
    apply false { rpc with control := none } number v = some { rpc' with control := none } := by
  unfold apply at step
  split at step
  · obtain ⟨s, decoded, rfl⟩ := Option.map_eq_some_iff.mp step
    exact toOption_map _ (of_toOption decoded)
  · obtain ⟨m, decoded, rfl⟩ := Option.map_eq_some_iff.mp step
    exact toOption_map _ (of_toOption decoded)
  · obtain ⟨c, -, rfl⟩ := Option.map_eq_some_iff.mp step
    rfl
  · cases step
    simp_all [apply]

theorem Rpc.applyAll_floodsub {rpc rpc' : Rpc}
    (applied : applyAll (apply true) rpc fields = some rpc') :
    applyAll (apply false) { rpc with control := none } fields = some
      { rpc' with control := none } := by
  induction fields generalizing rpc with
  | nil =>
    cases applied
    rfl
  | cons f fields ih =>
    obtain ⟨middle, step, applied⟩ := Option.bind_eq_some_iff.mp applied
    exact Option.bind_eq_some_iff.mpr ⟨_, apply_floodsub step, ih applied⟩

/-- Floodsub passes over control messages: of what is decoded it has all the rest. -/
theorem Rpc.decodeFloodsub_of_decode {rpc : Rpc} (decoded : decode input = .ok rpc) :
    decodeFloodsub input = .ok { rpc with control := none } := by
  obtain ⟨fields, fits, row, applied⟩ := (follows input true).decode.mp decoded
  exact (follows input false).decode.mpr ⟨fields, fits, row, applyAll_floodsub applied⟩

/-! ### Whole messages -/

/-- What a decoder accepts is a row of fields to the last byte; a length that runs past the end of
its message is refused. -/
structure Exact {σ : Type} (decode : List UInt8 → Except PubsubWireError σ) : Prop where
  whole : ∀ input result, decode input = .ok result →
    ∃ fields : List Field, (∀ f ∈ fields, f.Fits) ∧ input = fields.flatMap Field.encode
  overrun : ∀ (fields : List Field) number len rest, (∀ f ∈ fields, f.Fits) →
    number * 8 + wireLen < 2 ^ 64 →
    len < 2 ^ 64 → rest.length < len → ∃ e, decode (fields.flatMap Field.encode ++
      (writeUvarint (number * 8 + wireLen) ++ (writeUvarint len ++ rest))) = .error e

theorem exact_of_follows {σ : Type} {read : List UInt8 → FieldReader σ} {start : List UInt8 → σ}
    {apply : σ → Nat → Value → Option σ} (follows : ∀ input, Follows (read input) input apply) :
    Exact fun input => decodeFields (read input) input (start input) := by
  have whole (input : List UInt8) (result : σ)
      (decoded : decodeFields (read input) input (start input) = .ok result) :
      ∃ fields : List Field, (∀ f ∈ fields, f.Fits) ∧ input = fields.flatMap Field.encode := by
    obtain ⟨fields, fits, row, -⟩ := (follows input).decode.mp decoded
    exact ⟨fields, fits, row⟩
  refine ⟨whole, ?_⟩
  intro fields number len rest fits tag small short
  cases decoded : decodeFields (read _) _ (start _) with
  | error e => exact ⟨e, rfl⟩
  | ok result =>
    obtain ⟨fields', fits', row⟩ := whole _ result decoded
    exact absurd row (overrun_no_row fits fits' tag small short)

structure Inside (input : List UInt8) (idx next : Nat) : Prop where
  tag : ∀ number wireType, readTag input idx = .ok (some (number, wireType, next)) →
    next ≤ input.length
  varint : ∀ n, readVarintValue input idx = .ok (n, next) → next ≤ input.length
  len : ∀ bytes, readLenDelimited input idx = .ok (bytes, next) → next ≤ input.length
  skip : ∀ wireType, skipUnknownField input idx wireType = .ok next → next ≤ input.length

theorem inside (input : List UInt8) (idx next : Nat) : Inside input idx next where
  tag _ _ read := (readTag_iff.mp read).2.2.2.le
  varint _ read := (readVarintValue_iff.mp read).2.le
  len _ read := (readLenDelimited_iff.mp read).2.le
  skip _ skipped := by
    obtain ⟨v, -, -, reads⟩ := skipUnknownField_iff.mp skipped
    exact reads.le

/-- The codec of the RPC. Encodings are held to the sizes that memory has. -/
theorem rpc_codec : (∀ input rpc, Rpc.decode input = .ok rpc → rpc.encode.length < 2 ^ 64 →
      Rpc.decode rpc.encode = .ok rpc) ∧
    (∀ rpc : Rpc, rpc.Sound → rpc.encode.length < 2 ^ 64 → Rpc.decode rpc.encode = .ok rpc) ∧
    (∀ input rpc, Rpc.decode input = .ok rpc →
      Rpc.decodeFloodsub input = .ok { rpc with control := none }) ∧
    (Exact Rpc.decode ∧ Exact Rpc.decodeFloodsub ∧ Exact RawMessage.decode ∧ Exact SubOpts.decode ∧
      (∀ control : ControlMessage, Exact control.mergeFrom) ∧ Exact ControlIHave.decode ∧
      Exact ControlIWant.decode ∧ Exact ControlGraft.decode ∧ Exact ControlPrune.decode ∧
      Exact PeerInfo.decode) ∧
    ∀ input idx next, Inside input idx next :=
  ⟨fun _ _ decoded => Rpc.decode_encode (Rpc.sound_of_decode decoded), fun _ => Rpc.decode_encode,
    fun _ _ => Rpc.decodeFloodsub_of_decode,
    ⟨exact_of_follows fun input => Rpc.follows input true,
      exact_of_follows fun input => Rpc.follows input false, exact_of_follows RawMessage.follows,
      exact_of_follows SubOpts.follows, fun _ => exact_of_follows ControlMessage.follows,
      exact_of_follows ControlIHave.follows, exact_of_follows ControlIWant.follows,
      exact_of_follows ControlGraft.follows, exact_of_follows ControlPrune.follows,
      exact_of_follows PeerInfo.follows⟩, inside⟩

/-- A publish entry with an unknown field, and a control message in two parts. -/
theorem rpc_codec_parts :
    let input : List UInt8 := [0x12, 4, 0x12, 0, 0x38, 7, 0x1a, 2, 0x1a, 0, 0x1a, 0]
    let rpc : Rpc := { publish := [{ raw := [0x12, 0, 0x38, 7], data := some [] }]
                       control := some { graft := [{}] } }
    Rpc.decode input = .ok rpc ∧ Rpc.decode rpc.encode = .ok rpc :=
  have decoded : Rpc.decode [0x12, 4, 0x12, 0, 0x38, 7, 0x1a, 2, 0x1a, 0, 0x1a, 0] =
      .ok { publish := [{ raw := [0x12, 0, 0x38, 7], data := some [] }]
            control := some { graft := [{}] } } := by decide +kernel
  ⟨decoded, rpc_codec.1 _ _ decoded (by decide +kernel)⟩

end Pubsub
