import MiniP2P.Pubsub.Fields

/-! The messages of the pubsub RPC and the fields they are made of: what each field does to its
message, and the row of fields that a message is written as. -/
namespace Pubsub
open Framing List

/-! ### What fields do -/

def SubOpts.apply : SubOpts → Nat → Value → Option SubOpts
  | opts, 1, .varint n => some { opts with subscribe := some (n != 0) }
  | opts, 2, .len bytes => (Utf8.decode bytes).map fun topic => { opts with topicId := some topic }
  | opts, _, _ => some opts

def PeerInfo.apply : PeerInfo → Nat → Value → Option PeerInfo
  | peer, 1, .len bytes => some { peer with peerId := some bytes }
  | peer, 2, .len bytes => some { peer with signedPeerRecord := some bytes }
  | peer, _, _ => some peer

def ControlIHave.apply : ControlIHave → Nat → Value → Option ControlIHave
  | message, 1, .len bytes =>
    (Utf8.decode bytes).map fun topic => { message with topicId := some topic }
  | message, 2, .len id => some { message with messageIds := message.messageIds ++ [id] }
  | message, _, _ => some message

def ControlIWant.apply : ControlIWant → Nat → Value → Option ControlIWant
  | message, 1, .len id => some { message with messageIds := message.messageIds ++ [id] }
  | message, _, _ => some message

def ControlGraft.apply : ControlGraft → Nat → Value → Option ControlGraft
  | message, 1, .len bytes =>
    (Utf8.decode bytes).map fun topic => { message with topicId := some topic }
  | message, _, _ => some message

def ControlPrune.apply : ControlPrune → Nat → Value → Option ControlPrune
  | message, 1, .len bytes =>
    (Utf8.decode bytes).map fun topic => { message with topicId := some topic }
  | message, 2, .len nested =>
    (PeerInfo.decode nested).toOption.map fun peer =>
      { message with peers := message.peers ++ [peer] }
  | message, 3, .varint n => some { message with backoff := some n }
  | message, _, _ => some message

def ControlMessage.apply : ControlMessage → Nat → Value → Option ControlMessage
  | control, 1, .len nested =>
    (ControlIHave.decode nested).toOption.map fun m =>
      { control with ihave := control.ihave ++ [m] }
  | control, 2, .len nested =>
    (ControlIWant.decode nested).toOption.map fun m =>
      { control with iwant := control.iwant ++ [m] }
  | control, 3, .len nested =>
    (ControlGraft.decode nested).toOption.map fun m =>
      { control with graft := control.graft ++ [m] }
  | control, 4, .len nested =>
    (ControlPrune.decode nested).toOption.map fun m =>
      { control with prune := control.prune ++ [m] }
  | control, _, _ => some control

def RawMessage.apply : RawMessage → Nat → Value → Option RawMessage
  | message, 1, .len bytes => some { message with source := some bytes }
  | message, 2, .len bytes => some { message with data := some bytes }
  | message, 3, .len bytes => some { message with seqno := some bytes }
  | message, 4, .len bytes =>
    (Utf8.decode bytes).map fun topic => { message with topicIds := message.topicIds ++ [topic] }
  | message, 5, .len bytes => some { message with signature := some bytes }
  | message, 6, .len bytes => some { message with key := some bytes }
  | message, _, _ => some message

def Rpc.apply (decodeControl : Bool) : Rpc → Nat → Value → Option Rpc
  | rpc, 1, .len nested =>
    (SubOpts.decode nested).toOption.map fun sub =>
      { rpc with subscriptions := rpc.subscriptions ++ [sub] }
  | rpc, 2, .len nested =>
    (RawMessage.decode nested).toOption.map fun message =>
      { rpc with publish := rpc.publish ++ [message] }
  | rpc, 3, .len nested =>
    if decodeControl then
      ((rpc.control.getD {}).mergeFrom nested).toOption.map fun control =>
        { rpc with control := some control }
    else some rpc
  | rpc, _, _ => some rpc

section

variable {σ τ : Type} {input : List UInt8} {idx next : Nat} {message : σ}

theorem step_len {result : Except PubsubWireError (σ × Nat)} {put : List UInt8 → Option σ}
    (spec : result = .ok (message, next) ↔
      ∃ bytes, readLenDelimited input idx = .ok (bytes, next) ∧ put bytes = some message)
    (apply : Value → Option σ) (same : ∀ bytes, apply (.len bytes) = put bytes) :
    result = .ok (message, next) ↔
      ∃ v : Value, v.wireType = 2 ∧ v.Fits ∧ Reads input v.encode idx next ∧
        apply v = some message := by
  rw [spec]
  constructor
  · rintro ⟨bytes, read, known⟩
    obtain ⟨fits, reads⟩ := readLenDelimited_iff.mp read
    exact ⟨.len bytes, rfl, fits, reads, (same bytes).trans known⟩
  · rintro ⟨v | v | v | v, kind, fits, reads, known⟩ <;> cases kind
    exact ⟨v, readLenDelimited_iff.mpr ⟨fits, reads⟩, (same v).symm.trans known⟩

theorem step_varint {set : Nat → σ} (apply : Value → Option σ)
    (same : ∀ n, apply (.varint n) = some (set n)) :
    (readVarintValue input idx).map (fun (value, idx) => (set value, idx)) = .ok (message, next) ↔
      ∃ v : Value, v.wireType = 0 ∧ v.Fits ∧ Reads input v.encode idx next ∧
        apply v = some message := by
  have spec : (readVarintValue input idx).map (fun (value, idx) => (set value, idx)) =
      .ok (message, next) ↔ ∃ n, readVarintValue input idx = .ok (n, next) ∧ set n = message := by
    cases readVarintValue input idx with
    | error e => simp [Except.map]
    | ok pair => simp [Except.map, Prod.ext_iff, and_comm]
  rw [spec]
  constructor
  · rintro ⟨n, read, rfl⟩
    obtain ⟨fits, reads⟩ := readVarintValue_iff.mp read
    exact ⟨.varint n, rfl, fits, reads, same n⟩
  · rintro ⟨v | v | v | v, kind, fits, reads, known⟩ <;> cases kind
    rw [same] at known
    exact ⟨v, readVarintValue_iff.mpr ⟨fits, reads⟩, Option.some.inj known⟩

theorem lenField_spec {set : List UInt8 → σ} :
    (readLenDelimited input idx).map (fun (bytes, idx) => (set bytes, idx)) = .ok (message, next) ↔
      ∃ bytes, readLenDelimited input idx = .ok (bytes, next) ∧
        some (set bytes) = some message := by
  cases readLenDelimited input idx with
  | error e => simp [Except.map]
  | ok pair => simp [Except.map, Prod.ext_iff, and_comm]

theorem stringField_spec {set : String → σ} :
    (readString input idx).map (fun (text, idx) => (set text, idx)) = .ok (message, next) ↔
      ∃ bytes, readLenDelimited input idx = .ok (bytes, next) ∧
        (Utf8.decode bytes).map set = some message := by
  unfold readString
  cases readLenDelimited input idx with
  | error e => simp [Except.map]
  | ok pair =>
    cases text : Utf8.decode pair.1 <;> simp [Except.map, Prod.ext_iff, text, and_comm]

theorem nestedField_spec {decode : List UInt8 → Except PubsubWireError τ} {set : τ → σ}
    {other : Except PubsubWireError (σ × Nat)} :
    (nestedField input idx decode set).getD other = .ok (message, next) ↔
      ∃ bytes, readLenDelimited input idx = .ok (bytes, next) ∧
        (decode bytes).toOption.map set = some message := by
  unfold nestedField
  cases readLenDelimited input idx with
  | error e => simp
  | ok pair =>
    cases nested : decode pair.1 <;>
      simp [Except.map, Except.toOption, Prod.ext_iff, nested, and_comm]

theorem step_skip {wireType : Nat} {message' : σ} (apply : Value → Option σ)
    (unknown : ∀ v : Value, v.wireType = wireType → apply v = some message) :
    (skipUnknownField input idx wireType).map (message, ·) = .ok (message', next) ↔
      ∃ v : Value, v.wireType = wireType ∧ v.Fits ∧ Reads input v.encode idx next ∧
        apply v = some message' := by
  have spec : (skipUnknownField input idx wireType).map (message, ·) = .ok (message', next) ↔
      skipUnknownField input idx wireType = .ok next ∧ message = message' := by
    cases skipUnknownField input idx wireType <;> simp [Except.map, and_comm]
  rw [spec, skipUnknownField_iff]
  constructor
  · rintro ⟨⟨v, kind, fits, reads⟩, rfl⟩
    exact ⟨v, kind, fits, reads, unknown v kind⟩
  · rintro ⟨v, kind, fits, reads, known⟩
    rw [unknown v kind] at known
    exact ⟨⟨v, kind, fits, reads⟩, Option.some.inj known⟩

end

variable (input : List UInt8)

theorem SubOpts.follows : Follows (read input) input apply where
  step opts number wireType idx opts' next := by
    unfold fieldStep read
    split
    · exact step_varint (apply opts 1) fun _ => rfl
    · exact step_len stringField_spec (apply opts 2) fun _ => rfl
    · refine step_skip (apply opts number) fun v kind => ?_
      unfold apply
      split <;> simp_all [Value.wireType, wireVarint, wireLen]

theorem PeerInfo.follows : Follows (read input) input apply where
  step peer number wireType idx peer' next := by
    unfold fieldStep read
    split
    · exact step_len lenField_spec (apply peer 1) fun _ => rfl
    · exact step_len lenField_spec (apply peer 2) fun _ => rfl
    · refine step_skip (apply peer number) fun v kind => ?_
      unfold apply
      split <;> simp_all [Value.wireType, wireVarint, wireLen]

theorem ControlIHave.follows : Follows (read input) input apply where
  step message number wireType idx message' next := by
    unfold fieldStep read
    split
    · exact step_len stringField_spec (apply message 1) fun _ => rfl
    · exact step_len lenField_spec (apply message 2) fun _ => rfl
    · refine step_skip (apply message number) fun v kind => ?_
      unfold apply
      split <;> simp_all [Value.wireType, wireVarint, wireLen]

theorem ControlIWant.follows : Follows (read input) input apply where
  step message number wireType idx message' next := by
    unfold fieldStep read
    split
    · exact step_len lenField_spec (apply message 1) fun _ => rfl
    · refine step_skip (apply message number) fun v kind => ?_
      unfold apply
      split <;> simp_all [Value.wireType, wireVarint, wireLen]

theorem ControlGraft.follows : Follows (read input) input apply where
  step message number wireType idx message' next := by
    unfold fieldStep read
    split
    · exact step_len stringField_spec (apply message 1) fun _ => rfl
    · refine step_skip (apply message number) fun v kind => ?_
      unfold apply
      split <;> simp_all [Value.wireType, wireVarint, wireLen]

theorem ControlPrune.follows : Follows (read input) input apply where
  step message number wireType idx message' next := by
    unfold fieldStep read
    split
    · exact step_len stringField_spec (apply message 1) fun _ => rfl
    · exact step_len nestedField_spec (apply message 2) fun _ => rfl
    · exact step_varint (apply message 3) fun _ => rfl
    · refine step_skip (apply message number) fun v kind => ?_
      unfold apply
      split <;> simp_all [Value.wireType, wireVarint, wireLen]

theorem ControlMessage.follows : Follows (read input) input apply where
  step control number wireType idx control' next := by
    unfold fieldStep read
    split
    · exact step_len nestedField_spec (apply control 1) fun _ => rfl
    · exact step_len nestedField_spec (apply control 2) fun _ => rfl
    · exact step_len nestedField_spec (apply control 3) fun _ => rfl
    · exact step_len nestedField_spec (apply control 4) fun _ => rfl
    · refine step_skip (apply control number) fun v kind => ?_
      unfold apply
      split <;> simp_all [Value.wireType, wireVarint, wireLen]

theorem RawMessage.follows : Follows (read input) input apply where
  step message number wireType idx message' next := by
    unfold fieldStep read
    split
    · exact step_len lenField_spec (apply message 1) fun _ => rfl
    · exact step_len lenField_spec (apply message 2) fun _ => rfl
    · exact step_len lenField_spec (apply message 3) fun _ => rfl
    · exact step_len stringField_spec (apply message 4) fun _ => rfl
    · exact step_len lenField_spec (apply message 5) fun _ => rfl
    · exact step_len lenField_spec (apply message 6) fun _ => rfl
    · refine step_skip (apply message number) fun v kind => ?_
      unfold apply
      split <;> simp_all [Value.wireType, wireVarint, wireLen]

theorem Rpc.follows (decodeControl : Bool) :
    Follows (read decodeControl input) input (apply decodeControl) where
  step rpc number wireType idx rpc' next := by
    unfold fieldStep read
    split
    · exact step_len nestedField_spec (apply decodeControl rpc 1) fun _ => rfl
    · exact step_len nestedField_spec (apply decodeControl rpc 2) fun _ => rfl
    · cases decodeControl with
      | true => exact step_len nestedField_spec (apply true rpc 3) fun _ => rfl
      | false => exact step_len lenField_spec (apply false rpc 3) fun _ => rfl
    · refine step_skip (apply decodeControl rpc number) fun v kind => ?_
      unfold apply
      split <;> simp_all [Value.wireType, wireVarint, wireLen]

/-! ### The row of fields of a message -/

def lenFields (number : Nat) (values : List (List UInt8)) : List Field :=
  values.map fun bytes => ⟨number, .len bytes⟩

def varintFields (number : Nat) (values : List Nat) : List Field :=
  values.map fun n => ⟨number, .varint n⟩

def SubOpts.fields (opts : SubOpts) : List Field :=
  varintFields 1 (opts.subscribe.toList.map fun subscribe => if subscribe then 1 else 0) ++
    lenFields 2 (opts.topicId.toList.map Utf8.encode)

def PeerInfo.fields (peer : PeerInfo) : List Field :=
  lenFields 1 peer.peerId.toList ++ lenFields 2 peer.signedPeerRecord.toList

def ControlIHave.fields (message : ControlIHave) : List Field :=
  lenFields 1 (message.topicId.toList.map Utf8.encode) ++ lenFields 2 message.messageIds

def ControlIWant.fields (message : ControlIWant) : List Field := lenFields 1 message.messageIds

def ControlGraft.fields (message : ControlGraft) : List Field :=
  lenFields 1 (message.topicId.toList.map Utf8.encode)

def ControlPrune.fields (message : ControlPrune) : List Field :=
  lenFields 1 (message.topicId.toList.map Utf8.encode) ++
    lenFields 2 (message.peers.map PeerInfo.encode) ++ varintFields 3 message.backoff.toList

def ControlMessage.fields (control : ControlMessage) : List Field :=
  lenFields 1 (control.ihave.map ControlIHave.encode) ++
    lenFields 2 (control.iwant.map ControlIWant.encode) ++
    lenFields 3 (control.graft.map ControlGraft.encode) ++
    lenFields 4 (control.prune.map ControlPrune.encode)

variable (message : RawMessage)

def RawMessage.signedFields : List Field :=
  lenFields 1 message.source.toList ++ lenFields 2 message.data.toList ++
    lenFields 3 message.seqno.toList ++ lenFields 4 (message.topicIds.map Utf8.encode)

def RawMessage.fields : List Field :=
  message.signedFields ++ lenFields 5 message.signature.toList ++ lenFields 6 message.key.toList

def Rpc.fields (rpc : Rpc) : List Field :=
  lenFields 1 (rpc.subscriptions.map SubOpts.encode) ++
    lenFields 2 (rpc.publish.map RawMessage.toWire) ++
    lenFields 3 (rpc.control.toList.map ControlMessage.encode)

theorem writeUvarint_digit {n : Nat} (small : n < 128) : writeUvarint n = [UInt8.ofNat n] := by
  rw [writeUvarint, writeUvarintLoop, if_neg (by omega), Nat.mod_eq_of_lt small]

section

variable {number : Nat} (small : number < 16)

include small

theorem encodeBytesField_eq (bytes : List UInt8) :
    encodeBytesField (tagByte number wireLen) bytes = Field.encode ⟨number, .len bytes⟩ := by
  have tag : writeUvarint (number * 8 + wireLen) = [tagByte number wireLen] :=
    writeUvarint_digit (by unfold wireLen; omega)
  change _ = writeUvarint (number * 8 + wireLen) ++ _
  rw [tag]
  rfl

theorem encodeVarintField_eq (n : Nat) :
    encodeVarintField (tagByte number wireVarint) n = Field.encode ⟨number, .varint n⟩ := by
  have tag : writeUvarint (number * 8 + wireVarint) = [tagByte number wireVarint] :=
    writeUvarint_digit (by unfold wireVarint; omega)
  change _ = writeUvarint (number * 8 + wireVarint) ++ _
  rw [tag]
  rfl

theorem encodeOptional_eq (value : Option (List UInt8)) :
    encodeOptional (tagByte number wireLen) value =
      (lenFields number value.toList).flatMap Field.encode := by
  cases value with
  | none => rfl
  | some bytes => simp [encodeOptional, lenFields, encodeBytesField_eq small]

theorem flatMap_encodeBytesField {α : Type} (encode : α → List UInt8) (values : List α) :
    values.flatMap (fun value => encodeBytesField (tagByte number wireLen) (encode value)) =
      (lenFields number (values.map encode)).flatMap Field.encode := by
  simp [lenFields, flatMap_map, encodeBytesField_eq small]

end

theorem SubOpts.encode_eq (opts : SubOpts) : opts.encode = opts.fields.flatMap Field.encode := by
  obtain ⟨subscribe, topicId⟩ := opts
  rw [encode, fields, encodeOptional_eq (by decide)]
  cases subscribe <;> cases topicId <;> simp [varintFields, encodeVarintField_eq]

theorem PeerInfo.encode_eq (peer : PeerInfo) : peer.encode = peer.fields.flatMap Field.encode := by
  rw [encode, fields, flatMap_append, encodeOptional_eq (by decide), encodeOptional_eq (by decide)]

theorem toList_map {α β : Type} (f : α → β) (value : Option α) :
    (value.map f).toList = value.toList.map f := by
  cases value <;> rfl

theorem flatMap_encodeBytesField_id {number : Nat} (small : number < 16)
    (values : List (List UInt8)) :
    values.flatMap (encodeBytesField (tagByte number wireLen)) =
      (lenFields number values).flatMap Field.encode := by
  simpa using flatMap_encodeBytesField small id values

theorem ControlIHave.encode_eq (message : ControlIHave) :
    message.encode = message.fields.flatMap Field.encode := by
  rw [encode, fields, flatMap_append, encodeOptional_eq (by decide), toList_map,
    flatMap_encodeBytesField_id (by decide)]

theorem ControlIWant.encode_eq (message : ControlIWant) :
    message.encode = message.fields.flatMap Field.encode :=
  flatMap_encodeBytesField_id (by decide) _

theorem ControlGraft.encode_eq (message : ControlGraft) :
    message.encode = message.fields.flatMap Field.encode := by
  rw [encode, fields, encodeOptional_eq (by decide), toList_map]

theorem ControlPrune.encode_eq (message : ControlPrune) :
    message.encode = message.fields.flatMap Field.encode := by
  obtain ⟨topicId, peers, backoff⟩ := message
  simp only [encode, fields, flatMap_append, encodeNestedField]
  rw [encodeOptional_eq (by decide), toList_map, flatMap_encodeBytesField (by decide)]
  cases backoff <;> simp [varintFields, encodeVarintField_eq]

theorem ControlMessage.encode_eq (control : ControlMessage) :
    control.encode = control.fields.flatMap Field.encode := by
  simp only [encode, fields, flatMap_append, encodeNestedField]
  rw [flatMap_encodeBytesField (by decide), flatMap_encodeBytesField (by decide),
    flatMap_encodeBytesField (by decide), flatMap_encodeBytesField (by decide)]

theorem RawMessage.encodeFields_false :
    message.encodeFields false = message.signedFields.flatMap Field.encode := by
  simp only [encodeFields, signedFields, flatMap_append, Bool.false_eq_true, if_false,
    append_nil]
  rw [encodeOptional_eq (by decide), encodeOptional_eq (by decide), encodeOptional_eq (by decide),
    flatMap_encodeBytesField (by decide)]

theorem RawMessage.encodeFields_true :
    message.encodeFields true = message.fields.flatMap Field.encode := by
  have signed := message.encodeFields_false
  simp only [encodeFields, Bool.false_eq_true, if_false, append_nil] at signed
  simp only [encodeFields, if_true]
  rw [signed, fields, flatMap_append, flatMap_append, encodeOptional_eq (by decide),
    encodeOptional_eq (by decide), append_assoc]

theorem Rpc.encode_eq (rpc : Rpc) : rpc.encode = rpc.fields.flatMap Field.encode := by
  obtain ⟨subscriptions, publish, control⟩ := rpc
  simp only [encode, fields, flatMap_append, encodeNestedField]
  rw [flatMap_encodeBytesField (by decide), flatMap_encodeBytesField (by decide)]
  cases control with
  | none => rfl
  | some control => simp [lenFields, encodeBytesField_eq]

end Pubsub
