import Mathlib.Data.Vector.Defs
import MiniP2P.Core.Bytes
import MiniP2P.Lib.BTreeMap
import MiniP2P.Transport.Types

/-! Stateless Retry of the QUIC transport: its tokens, and the poll that accepts a connection for
one. quiche, the socket, the clock and the randomness are given. -/
namespace Quic
open BigEndian Collections Core Transport
open List hiding Vector

def retryTokenVersion : UInt8 := 1

def retryTokenLifetimeSecs : Nat := 10

def retryTokenMacLen : Nat := 32

def maxConnIdLen : Nat := 20

def retryTokenMinLen : Nat := 1 + 8 + 1 + 6 + 1 + 1 + retryTokenMacLen

def retryTokenMaxLen : Nat := 1 + 8 + 1 + 18 + 1 + maxConnIdLen + retryTokenMacLen

inductive IpAddr where
  | v4 (octets : Vector UInt8 4)
  | v6 (octets : Vector UInt8 16)
  deriving DecidableEq

/-- The last two are those of an IPv6 address; a token does not bind them. -/
structure SocketAddr where
  ip : IpAddr
  port : UInt16
  flowinfo : UInt32 := 0
  scopeId : UInt32 := 0
  deriving DecidableEq

def IpAddr.octets : IpAddr → List UInt8
  | .v4 octets => octets.toList
  | .v6 octets => octets.toList

def retryAddressBytes (addr : SocketAddr) : List UInt8 :=
  addr.ip.octets ++ toBytes 2 addr.port.toNat

def retryBody (source : SocketAddr) (originalDcid : List UInt8) (issuedAt : UInt64) : List UInt8 :=
  let address := retryAddressBytes source
  retryTokenVersion :: (toBytes 8 issuedAt.toNat ++
    UInt8.ofNat address.length :: (address ++ UInt8.ofNat originalDcid.length :: originalDcid))

variable (mac : Bytes 32 → List UInt8 → Bytes 32)

def mintRetryToken (secret : Bytes 32) (source : SocketAddr) (originalDcid : List UInt8)
    (issuedAt : UInt64) : List UInt8 :=
  let body := retryBody source originalDcid issuedAt
  body ++ (mac secret body).toList

def slice (bytes : List UInt8) (start stop : Nat) : Option (List UInt8) :=
  if start ≤ stop ∧ stop ≤ bytes.length then some ((bytes.drop start).take (stop - start)) else none

def validateRetryToken (secret : Bytes 32) (source : SocketAddr) (token : List UInt8)
    (now : UInt64) : Option (List UInt8) := do
  guard (retryTokenMinLen ≤ token.length ∧ token.length ≤ retryTokenMaxLen)
  let body := token.take (token.length - retryTokenMacLen)
  guard ((mac secret body).toList = token.drop (token.length - retryTokenMacLen))
  guard ((← body[0]?) = retryTokenVersion)
  let issuedAt := ofBytes (← slice body 1 9)
  guard (issuedAt ≤ now.toNat ∧ now.toNat - issuedAt ≤ retryTokenLifetimeSecs)
  let addressLen := (← body[9]?).toNat
  let addressEnd := 10 + addressLen
  let expected := retryAddressBytes source
  guard (addressLen = expected.length)
  guard ((← slice body 10 addressEnd) = expected)
  let dcidLen := (← body[addressEnd]?).toNat
  let dcidEnd := addressEnd + 1 + dcidLen
  guard (dcidEnd = body.length ∧ dcidLen ≠ 0 ∧ dcidLen ≤ maxConnIdLen)
  slice body (addressEnd + 1) dcidEnd

variable {mac} {secret : Bytes 32} {source source' : SocketAddr} {d d' token : List UInt8}
    {now issuedAt issuedAt' : UInt64}

theorem retryAddressBytes_inj (same : retryAddressBytes source = retryAddressBytes source') :
    source.ip = source'.ip ∧ source.port = source'.port := by
  obtain ⟨ip, port⟩ := source
  obtain ⟨ip', port'⟩ := source'
  obtain ⟨octets, ports⟩ := append_inj' same (by simp)
  have port : port = port' := by
    have := congrArg ofBytes ports
    rw [ofBytes_toBytes port.toNat_lt, ofBytes_toBytes port'.toNat_lt] at this
    exact UInt16.toNat_inj.mp this
  refine ⟨?_, port⟩
  have len := congrArg length octets
  cases ip with
  | v4 a | v6 a =>
    cases ip' with
    | v4 b | v6 b =>
      simp only [IpAddr.octets, Vector.length_toList, Vector.toList_inj] at len octets
      first | omega | rw [octets]

theorem address_length (source : SocketAddr) : (retryAddressBytes source).length = 6 ∨
    (retryAddressBytes source).length = 18 := by
  obtain ⟨ip, port⟩ := source
  cases ip with
  | v4 | v6 => simp [retryAddressBytes, IpAddr.octets]

/-- The fields of a body lie where validation looks for them, so no two read the same. -/
theorem retryBody_inj (same : retryBody source d issuedAt = retryBody source' d' issuedAt') :
    (source.ip = source'.ip ∧ source.port = source'.port) ∧ d = d' ∧ issuedAt = issuedAt' := by
  have len := address_length source
  have len' := address_length source'
  simp only [retryBody, cons.injEq, true_and] at same
  obtain ⟨times, rest⟩ := append_inj same (by simp)
  obtain ⟨lens, rest⟩ := cons.inj rest
  have lens := congrArg UInt8.toNat lens
  simp only [UInt8.toNat_ofNat'] at lens
  obtain ⟨address, rest⟩ := append_inj rest (by omega)
  refine ⟨retryAddressBytes_inj address, (cons.inj rest).2, ?_⟩
  have times := congrArg ofBytes times
  rw [ofBytes_toBytes issuedAt.toNat_lt, ofBytes_toBytes issuedAt'.toNat_lt] at times
  exact UInt64.toNat_inj.mp times

theorem drop_of_getElem? {bytes : List UInt8} {i : Nat} {byte : UInt8}
    (found : bytes[i]? = some byte) : bytes.drop i = byte :: bytes.drop (i + 1) := by
  obtain ⟨inside, rfl⟩ := List.getElem?_eq_some_iff.mp found
  exact drop_eq_getElem_cons inside

theorem drop_of_slice {bytes part : List UInt8} {i j : Nat} (found : slice bytes i j = some part) :
    bytes.drop i = part ++ bytes.drop j ∧ part.length = j - i := by
  unfold slice at found
  split at found
  · rename_i inside
    cases found
    refine ⟨?_, by rw [length_take, length_drop]; omega⟩
    conv_lhs => rw [← take_append_drop (j - i) (bytes.drop i), drop_drop]
    rw [Nat.add_sub_cancel' inside.1]
  · cases found

theorem slice_append (before part after : List UInt8) :
    slice (before ++ (part ++ after)) before.length (before.length + part.length) = some part := by
  unfold slice
  rw [if_pos (by simp), drop_left, Nat.add_sub_cancel_left, take_left]

/-- What validation accepts is a token as it is minted, for this source and this id. -/
theorem validateRetryToken_iff : validateRetryToken mac secret source token now = some d ↔
    ∃ issuedAt, token = mintRetryToken mac secret source d issuedAt ∧
      issuedAt ≤ now ∧ now.toNat - issuedAt.toNat ≤ retryTokenLifetimeSecs ∧
      1 ≤ d.length ∧ d.length ≤ maxConnIdLen := by
  constructor
  · intro valid
    simp only [validateRetryToken, Option.bind_eq_bind, Option.bind_eq_some_iff,
      Option.guard_eq_some', exists_const] at valid
    obtain ⟨-, tagged, version, first, rfl, time, timed, ⟨early, recent⟩, addressLen, ninth, len,
      address, tenth, rfl, dcidLen, after, ⟨last, least, most⟩, dcid⟩ := valid
    have whole := (take_append_drop (token.length - retryTokenMacLen) token).symm
    rw [← tagged] at whole
    generalize token.take (token.length - retryTokenMacLen) = body at *
    obtain ⟨times, width⟩ := drop_of_slice timed
    obtain ⟨ids, size⟩ := drop_of_slice dcid
    rw [last, drop_length, append_nil] at ids
    have value : (UInt64.ofNat (ofBytes time)).toNat = ofBytes time := by
      have small := ofBytes_lt time
      rw [width] at small
      exact UInt64.toNat_ofNat_of_lt' small
    have fields : body = retryBody source d (.ofNat (ofBytes time)) := by
      rw [← drop_zero (l := body), drop_of_getElem? first, times, drop_of_getElem? ninth,
        (drop_of_slice tenth).1, drop_of_getElem? after, ids]
      have same : d.length = dcidLen.toNat := by omega
      have kept := toBytes_ofBytes time
      rw [width] at kept
      rw [retryBody, value, ← len, same, UInt8.ofNat_toNat, UInt8.ofNat_toNat, kept]
    refine ⟨.ofNat (ofBytes time), ?_, ?_, ?_, ?_⟩
    · rw [whole, mintRetryToken, ← fields]
    · rw [UInt64.le_iff_toNat_le, value]
      exact early
    · rwa [value]
    · omega
  · rintro ⟨issuedAt, rfl, early, recent, least, most⟩
    have len := address_length source
    have size : (mintRetryToken mac secret source d issuedAt).length - retryTokenMacLen =
        (retryBody source d issuedAt).length := by
      simp [mintRetryToken, (mac secret _).size, retryTokenMacLen]
    have whole : (mintRetryToken mac secret source d issuedAt).length =
        43 + (retryAddressBytes source).length + d.length := by
      simp [mintRetryToken, retryBody, (mac secret _).size]
      omega
    have width : (retryBody source d issuedAt).length =
        11 + (retryAddressBytes source).length + d.length := by
      rw [← size, whole, retryTokenMacLen]
      omega
    have small : (UInt8.ofNat (retryAddressBytes source).length).toNat =
        (retryAddressBytes source).length := by
      rw [UInt8.toNat_ofNat']
      omega
    unfold maxConnIdLen at most
    have short : (UInt8.ofNat d.length).toNat = d.length := by
      rw [UInt8.toNat_ofNat']
      omega
    have time := ofBytes_toBytes (w := 8) issuedAt.toNat_lt
    obtain ⟨before, parts, place⟩ : ∃ before,
        retryBody source d issuedAt = before ++ .ofNat d.length :: d ∧
        before.length = 10 + (retryAddressBytes source).length := by
      refine ⟨retryTokenVersion :: (toBytes 8 issuedAt.toNat ++
        .ofNat (retryAddressBytes source).length :: retryAddressBytes source), ?_, ?_⟩
      · simp [retryBody]
      simp
      omega
    rw [UInt64.le_iff_toNat_le] at early
    simp only [validateRetryToken, Option.bind_eq_bind, Option.bind_eq_some_iff,
      Option.guard_eq_some', exists_const, size]
    rw [whole, mintRetryToken, take_left, drop_left]
    refine ⟨?_, rfl, retryTokenVersion, rfl, rfl, _,
      slice_append [retryTokenVersion] (toBytes 8 _) _, ?_,
      .ofNat (retryAddressBytes source).length, ?_, small, retryAddressBytes source, ?_, rfl,
      .ofNat d.length, ?_, ?_, ?_⟩
    · unfold retryTokenMinLen retryTokenMaxLen retryTokenMacLen maxConnIdLen
      omega
    · rw [time]
      exact ⟨early, recent⟩
    · simp [retryBody]
    · have cut := slice_append (retryTokenVersion :: (toBytes 8 issuedAt.toNat ++
        [.ofNat (retryAddressBytes source).length])) (retryAddressBytes source)
        (.ofNat d.length :: d)
      rw [small]
      simpa [retryBody] using cut
    · rw [small, ← place, parts]
      simp
    · rw [small, short, width]
      unfold maxConnIdLen
      omega
    · have cut := slice_append (before ++ [.ofNat d.length]) d []
      rw [length_append, place, length_singleton, append_nil, append_assoc, singleton_append,
        ← parts] at cut
      rw [small, short]
      exact cut

/-- A token as it was minted: the secret, the source, the id and the time. -/
structure Minted where
  secret : Bytes 32
  source : SocketAddr
  originalDcid : List UInt8
  issuedAt : UInt64

/-- An ideal MAC: what is offered verifies under a secret only if that very body was minted with
that secret. -/
def Ideal (mac : Bytes 32 → List UInt8 → Bytes 32) (minted : List Minted) (offered : List UInt8) :
    Prop :=
  ∀ secret body, offered = body ++ (mac secret body).toList →
    ∃ m ∈ minted, m.secret = secret ∧ body = retryBody m.source m.originalDcid m.issuedAt

theorem Ideal.minted {minted : List Minted} (ideal : Ideal mac minted token)
    (valid : validateRetryToken mac secret source token now = some d) :
    ∃ m ∈ minted, token = mintRetryToken mac secret m.source d m.issuedAt ∧ m.secret = secret ∧
      m.source.ip = source.ip ∧ m.source.port = source.port ∧ m.originalDcid = d ∧
      m.issuedAt ≤ now ∧ now.toNat - m.issuedAt.toNat ≤ retryTokenLifetimeSecs := by
  obtain ⟨issuedAt, rfl, early, recent, -⟩ := validateRetryToken_iff.mp valid
  obtain ⟨m, member, key, same⟩ := ideal secret _ rfl
  obtain ⟨⟨ip, port⟩, rfl, rfl⟩ := retryBody_inj same
  exact ⟨m, member, by rw [mintRetryToken, mintRetryToken, same], key, ip.symm, port.symm, rfl,
    early, recent⟩

/-! ### The poll -/

structure Header where
  initial : Bool
  dcid : List UInt8
  scid : List UInt8
  token : Option (List UInt8)
  version : UInt32

structure QuicConnection (Conn : Type) where
  conn : Conn
  peerAddr : SocketAddr
  endpoint : ConnectionEndpoint
  indexedCids : List (List UInt8) := []

/-- What a connection makes of a packet or of its timers. -/
structure Worked (Conn : Type) where
  connection : QuicConnection Conn
  events : List TransportEvent
  error : Option TransportError

/-- The library, and the order in which the map of connections yields its entries. -/
structure Quiche (Conn : Type) where
  header : List UInt8 → Option Header
  retry : Header → (retryScid token : List UInt8) → Except String (List UInt8)
  accept : (scid : List UInt8) → (odcid : Option (List UInt8)) → SocketAddr → Except String Conn
  sourceIds : Conn → List (List UInt8)
  isClosed : Conn → Bool
  recvPacket : QuicConnection Conn → List UInt8 → SocketAddr → Worked Conn
  tend : QuicConnection Conn → Worked Conn
  order : BTreeMap ConnectionId (QuicConnection Conn) → List ConnectionId

/-- A datagram, with the clock and the random connection id at hand when it is read. -/
structure Arrival where
  packet : List UInt8
  source : SocketAddr
  unixSecs : UInt64
  generated : Except String (List UInt8)

structure QuicTransport (Conn : Type) where
  maxConnections : Nat
  requireAddressValidation : Bool
  listening : Bool
  retrySecret : Bytes 32
  claimed : UInt8
  nextSequence : Nat
  connections : BTreeMap ConnectionId (QuicConnection Conn)
  cidToConnection : List UInt8 → Option ConnectionId
  pendingEvents : List TransportEvent

def socketAddrToMultiaddr (addr : SocketAddr) : Multiaddr :=
  let host : Protocol := match addr.ip with | .v4 octets => .ip4 octets | .v6 octets => .ip6 octets
  ⟨[host, .udp addr.port, .quicV1]⟩

/-- How a connection id prints. -/
def displayId (id : ConnectionId) : String :=
  let sequence := toString (id % 2 ^ 56)
  match id / 2 ^ 56 with
  | 0 => sequence
  | 1 => "quic/ip4#" ++ sequence
  | 2 => "quic/ip6#" ++ sequence
  | 3 => "tcp/ip4#" ++ sequence
  | 4 => "tcp/ip6#" ++ sequence
  | 128 => "circuit#" ++ sequence
  | tag => "ns(" ++ toString tag ++ ")#" ++ sequence

def rejectOversizedRetryToken (requireAddressValidation : Bool) (token : List UInt8) : Bool :=
  requireAddressValidation && !token.isEmpty && retryTokenMaxLen < token.length

namespace QuicTransport

variable {Conn : Type} (Q : Quiche Conn) (mac : Bytes 32 → List UInt8 → Bytes 32)
    (t : QuicTransport Conn)

def unindexedSourceCids (c : QuicConnection Conn) : List (List UInt8) :=
  (Q.sourceIds c.conn).filter (· ∉ c.indexedCids)

def route (cids : List (List UInt8)) (id : ConnectionId) : List UInt8 → Option ConnectionId :=
  fun cid => if cid ∈ cids then some id else t.cidToConnection cid

def allocateConnectionId : Option ConnectionId :=
  if t.nextSequence < 2 ^ 56 then some (t.claimed.toNat * 2 ^ 56 + t.nextSequence) else none

/-- The ids a new connection is accepted with; none for a packet that is dropped or answered by a
Retry. -/
def connIds (a : Arrival) (h : Header) :
    Except TransportError (Option (List UInt8 × Option (List UInt8))) :=
  let token := h.token.getD []
  if t.requireAddressValidation then
    if token.isEmpty then
      match a.generated with
      | .error e => .error (.pollError ("failed to generate Retry connection id: " ++ e))
      | .ok retryScid =>
        match Q.retry h retryScid (mintRetryToken mac t.retrySecret a.source h.dcid a.unixSecs) with
        | .error e => .error (.pollError ("failed to encode QUIC Retry: " ++ e))
        | .ok _ => .ok none
    else
      .ok ((validateRetryToken mac t.retrySecret a.source token a.unixSecs).map fun odcid =>
        (h.dcid, some odcid))
  else
    match a.generated with
    | .error e => .error (.pollError ("failed to generate server connection id: " ++ e))
    | .ok scid => .ok (some (scid, none))

def accept (a : Arrival) (h : Header) :
    QuicTransport Conn × Except TransportError (Option ConnectionId) :=
  if t.maxConnections ≤ t.connections.len then (t, .ok none)
  else
    match t.connIds Q mac a h with
    | .error e => (t, .error e)
    | .ok none => (t, .ok none)
    | .ok (some (scid, odcid)) =>
      match Q.accept scid odcid a.source with
      | .error e => (t, .error (.pollError ("quiche accept error: " ++ e)))
      | .ok conn =>
        match t.allocateConnectionId with
        | none => (t, .error (.resourceExhausted "connection ids"))
        | some id =>
          let endpoint : ConnectionEndpoint := ⟨socketAddrToMultiaddr a.source, none⟩
          let c : QuicConnection Conn := ⟨conn, a.source, endpoint, []⟩
          let cids := unindexedSourceCids Q c
          let next := { t with
            nextSequence := t.nextSequence + 1
            cidToConnection := t.route cids id
            connections := t.connections.insert id
              { c with indexedCids := if h.dcid ∈ cids then cids else cids ++ [h.dcid] } }
          if t.connections.containsKey id then
            (next, .error
              (.pollError ("connection id collision for incoming connection " ++ displayId id)))
          else
            ({ next with
              cidToConnection := next.route [h.dcid] id
              pendingEvents := t.pendingEvents ++ [.incomingConnection id endpoint] },
              .ok (some id))

def ofPeer (addr : SocketAddr) : Option ConnectionId :=
  (Q.order t.connections).find? fun id => (t.connections.get id).any (·.peerAddr = addr)

def deliver (a : Arrival) (target : Option ConnectionId) :
    QuicTransport Conn × Option TransportError :=
  match target.or (t.ofPeer Q a.source) with
  | none => (t, none)
  | some id =>
    match t.connections.get id with
    | none => (t, none)
    | some before =>
      let worked := Q.recvPacket before a.packet a.source
      let c := worked.connection
      let pendingEvents := t.pendingEvents ++ worked.events
      match worked.error with
      | some error =>
        ({ t with connections := t.connections.insert id c, pendingEvents }, some error)
      | none =>
        let cids := unindexedSourceCids Q c
        let verified : List TransportEvent :=
          if c.endpoint.peerId = before.endpoint.peerId then []
          else [.peerIdentityVerified id c.endpoint before.endpoint.peerId]
        ({ t with
          connections := t.connections.insert id { c with indexedCids := c.indexedCids ++ cids }
          cidToConnection := t.route cids id
          pendingEvents := pendingEvents ++ verified }, none)

def receive (a : Arrival) : QuicTransport Conn × Option TransportError :=
  let parsedHeader := Q.header a.packet
  let target := parsedHeader.bind fun h => t.cidToConnection h.dcid
  match parsedHeader.filter fun h => target.isNone && t.listening && h.initial with
  | none => t.deliver Q a target
  | some h =>
    if h.token.any (rejectOversizedRetryToken t.requireAddressValidation) then (t, none)
    else
      match t.accept Q mac a h with
      | (t, .error error) => (t, some error)
      | (t, .ok none) => (t, none)
      | (t, .ok (some id)) => t.deliver Q a (some id)

def receiveAll (t : QuicTransport Conn) :
    List (Except String Arrival) → QuicTransport Conn × Option TransportError
  | [] => (t, none)
  | .error e :: _ => (t, some (.pollError ("udp recv error: " ++ e)))
  | .ok a :: rest =>
    match t.receive Q mac a with
    | (t, some error) => (t, some error)
    | (t, none) => t.receiveAll rest

def tendAll (t : QuicTransport Conn) :
    List ConnectionId → QuicTransport Conn × Option TransportError
  | [] => (t, none)
  | id :: ids =>
    match t.connections.get id with
    | none => t.tendAll ids
    | some c =>
      let worked := Q.tend c
      let next := { t with
        connections := t.connections.insert id worked.connection
        pendingEvents := t.pendingEvents ++ worked.events }
      match worked.error with
      | some error => (next, some error)
      | none => next.tendAll ids

def remove (t : QuicTransport Conn) (id : ConnectionId) : QuicTransport Conn :=
  { t with
    connections := t.connections.remove id
    cidToConnection := fun cid =>
      if (t.connections.get id).any (cid ∈ ·.indexedCids) then none else t.cidToConnection cid
    pendingEvents := t.pendingEvents ++ [.closed id] }

def maxDatagramsPerPoll : Nat := 128

/-- The datagrams are those the socket has, up to where a read would block. -/
def poll (received : List (Except String Arrival)) :
    QuicTransport Conn × Except TransportError (List TransportEvent) :=
  match t.receiveAll Q mac (received.take maxDatagramsPerPoll) with
  | (t, some error) => (t, .error error)
  | (t, none) =>
    match t.tendAll Q (Q.order t.connections) with
    | (t, some error) => (t, .error error)
    | (t, none) =>
      let toRemove := (Q.order t.connections).filter fun id =>
        (t.connections.get id).any (Q.isClosed ·.conn)
      let t := toRemove.foldl remove t
      ({ t with pendingEvents := [] }, .ok t.pendingEvents)

/-- The packet is an Initial whose token validates for its source, accepted with the id the token
names. -/
def Admitted (secret : Bytes 32) (a : Arrival) : Prop :=
  ∃ h odcid conn, Q.header a.packet = some h ∧ h.initial = true ∧
    validateRetryToken mac secret a.source (h.token.getD []) a.unixSecs = some odcid ∧
    Q.accept h.dcid (some odcid) a.source = .ok conn

/-- Between the two transports one connection was created for each of the arrivals, under the next
id, and no other. -/
structure Creates (t t' : QuicTransport Conn) (arrivals : List Arrival) : Prop where
  retrySecret : t'.retrySecret = t.retrySecret
  required : t'.requireAddressValidation = t.requireAddressValidation
  claimed : t'.claimed = t.claimed
  sequence : t'.nextSequence = t.nextSequence + arrivals.length
  each : ∀ id, (t'.connections.get id).isSome → (t.connections.get id).isSome ∨
    ∃ i < arrivals.length, id = t.claimed.toNat * 2 ^ 56 + (t.nextSequence + i)

variable {Q mac t} {t' t'' : QuicTransport Conn} {as bs : List Arrival}

theorem Creates.refl : Creates t t [] := ⟨rfl, rfl, rfl, rfl, fun _ live => .inl live⟩

theorem Creates.trans (first : Creates t t' as) (second : Creates t' t'' bs) :
    Creates t t'' (as ++ bs) := by
  refine ⟨second.retrySecret.trans first.retrySecret, second.required.trans first.required,
    second.claimed.trans first.claimed, ?_, ?_⟩
  · rw [second.sequence, first.sequence, length_append, Nat.add_assoc]
  · intro id live
    rw [length_append]
    obtain before | ⟨i, inside, rfl⟩ := second.each id live
    · obtain before | ⟨i, inside, rfl⟩ := first.each id before
      · exact .inl before
      · exact .inr ⟨i, by omega, rfl⟩
    · exact .inr ⟨as.length + i, by omega, by rw [first.claimed, first.sequence, Nat.add_assoc]⟩

/-- Work on connections that are there creates none. -/
theorem Creates.update {id : ConnectionId} {before c : QuicConnection Conn}
    (found : t.connections.get id = some before) (routes : List UInt8 → Option ConnectionId)
    (events : List TransportEvent) :
    Creates t
      { t with
        connections := t.connections.insert id c
        cidToConnection := routes
        pendingEvents := events } [] := by
  refine ⟨rfl, rfl, rfl, rfl, fun j live => .inl ?_⟩
  rw [BTreeMap.get_insert] at live
  split at live
  · rename_i same
    rw [same, found]
    rfl
  · exact live

theorem deliver_creates (a : Arrival) (target : Option ConnectionId) :
    Creates t (t.deliver Q a target).1 [] := by
  fun_cases deliver Q t a target with
  | case1 | case2 => exact .refl
  | case3 id _ before found | case4 id _ before found => exact .update found _ _

/-- Under address validation the ids come from a token that validates. -/
theorem connIds_valid {a : Arrival} {h : Header} {scid : List UInt8} {odcid : Option (List UInt8)}
    (required : t.requireAddressValidation = true)
    (admitted : t.connIds Q mac a h = .ok (some (scid, odcid))) :
    scid = h.dcid ∧ ∃ d, odcid = some d ∧
      validateRetryToken mac t.retrySecret a.source (h.token.getD []) a.unixSecs = some d := by
  unfold connIds at admitted
  rw [if_pos required] at admitted
  split at admitted
  · split at admitted
    · cases admitted
    · split at admitted <;> cases admitted
  · obtain ⟨d, valid, same⟩ := Option.map_eq_some_iff.mp (Except.ok.inj admitted)
    cases same
    exact ⟨rfl, d, rfl, valid⟩

variable (Q mac) in
/-- Connections are created for a part of the arrivals only, each of it admitted. -/
def Guarded (t t' : QuicTransport Conn) (arrivals : List Arrival) : Prop :=
  ∃ as, as <+ arrivals ∧ (∀ a ∈ as, Admitted Q mac t.retrySecret a) ∧ Creates t t' as

theorem Creates.guarded (idle : Creates t t' []) : Guarded Q mac t t' as :=
  ⟨[], nil_sublist _, by simp, idle⟩

theorem Guarded.trans (first : Guarded Q mac t t' as) (second : Guarded Q mac t' t'' bs) :
    Guarded Q mac t t'' (as ++ bs) := by
  obtain ⟨cs, part, admitted, creates⟩ := first
  obtain ⟨ds, part', admitted', creates'⟩ := second
  refine ⟨cs ++ ds, part.append part', fun a member => ?_, creates.trans creates'⟩
  obtain member | member := mem_append.mp member
  · exact admitted a member
  · exact creates.retrySecret ▸ admitted' a member

theorem Guarded.then_creates (first : Guarded Q mac t t' as) (idle : Creates t' t'' []) :
    Guarded Q mac t t'' as := by
  have rest : Guarded Q mac t' t'' [] := idle.guarded
  have both := first.trans rest
  rwa [append_nil] at both

/-- Under address validation a connection is accepted only for a packet that is admitted. -/
theorem accept_guarded {a : Arrival} {h : Header} (required : t.requireAddressValidation = true)
    (parsed : Q.header a.packet = some h) (initial : h.initial = true) :
    Guarded Q mac t (t.accept Q mac a h).1 [a] := by
  unfold accept
  split
  · exact Creates.refl.guarded
  · split
    · exact Creates.refl.guarded
    · exact Creates.refl.guarded
    · rename_i scid odcid admitted
      obtain ⟨rfl, d, rfl, valid⟩ := connIds_valid required admitted
      split
      · exact Creates.refl.guarded
      · rename_i conn accepted
        split
        · exact Creates.refl.guarded
        · rename_i id allocated
          have fresh : id = t.claimed.toNat * 2 ^ 56 + t.nextSequence := by
            unfold allocateConnectionId at allocated
            split at allocated
            · exact (Option.some.inj allocated).symm
            · cases allocated
          have new (c : QuicConnection Conn) (j : ConnectionId)
              (live : ((t.connections.insert id c).get j).isSome) : (t.connections.get j).isSome ∨
                ∃ i < [a].length, j = t.claimed.toNat * 2 ^ 56 + (t.nextSequence + i) := by
            rw [BTreeMap.get_insert] at live
            split at live
            · rename_i same
              exact .inr ⟨0, Nat.zero_lt_one, same.trans fresh⟩
            · exact .inl live
          refine ⟨[a], .refl _, fun b member => ?_, ?_⟩
          · cases mem_singleton.mp member
            exact ⟨h, d, conn, parsed, initial, valid, accepted⟩
          · split
            · exact ⟨rfl, rfl, rfl, rfl, new _⟩
            · exact ⟨rfl, rfl, rfl, rfl, new _⟩

theorem receive_guarded (a : Arrival) (required : t.requireAddressValidation = true) :
    Guarded Q mac t (t.receive Q mac a).1 [a] := by
  unfold receive
  dsimp only
  split
  · exact (deliver_creates a _).guarded
  · rename_i h new
    obtain ⟨parsed, fits⟩ := Option.filter_eq_some_iff.mp new
    have initial : h.initial = true := (Bool.and_eq_true_iff.mp fits).2
    split
    · exact Creates.refl.guarded
    · have accepted : Guarded Q mac t (t.accept Q mac a h).1 [a] :=
        accept_guarded required parsed initial
      split
      · rename_i same
        rwa [same] at accepted
      · rename_i same
        rwa [same] at accepted
      · rename_i id same
        rw [same] at accepted
        exact accepted.then_creates (deliver_creates a _)

def arrivals (received : List (Except String Arrival)) : List Arrival :=
  received.filterMap Except.toOption

/-- Datagram after datagram, up to the first error. -/
theorem receiveAll_guarded (received : List (Except String Arrival))
    (required : t.requireAddressValidation = true) :
    Guarded Q mac t (t.receiveAll Q mac received).1 (arrivals received) := by
  induction received generalizing t with
  | nil => exact Creates.refl.guarded
  | cons r rest ih =>
    cases r with
    | error e => exact Creates.refl.guarded
    | ok a =>
      have step : Guarded Q mac t (t.receive Q mac a).1 [a] := receive_guarded a required
      unfold receiveAll
      generalize t.receive Q mac a = result at step
      obtain ⟨next, none | error⟩ := result
      · obtain ⟨as, _, _, creates⟩ := id step
        exact step.trans (ih (creates.required.trans required))
      · have stopped : Guarded Q mac next next (arrivals rest) := Creates.refl.guarded
        exact step.trans stopped

theorem tendAll_creates (ids : List ConnectionId) : Creates t (t.tendAll Q ids).1 [] := by
  fun_induction tendAll Q t ids with
  | case1 => exact .refl
  | case2 _ _ _ _ ih => exact ih
  | case3 t id ids c found => exact .update found _ _
  | case4 t id ids c found _ _ _ ih => exact (Creates.update found _ _).trans ih

theorem remove_creates (ids : List ConnectionId) : Creates t (ids.foldl remove t) [] := by
  induction ids generalizing t with
  | nil => exact .refl
  | cons id ids ih =>
    have removed : Creates t (t.remove id) [] := by
      refine ⟨rfl, rfl, rfl, rfl, fun j live => .inl ?_⟩
      unfold remove at live
      grind
    exact removed.trans ih

theorem poll_guarded (received : List (Except String Arrival))
    (required : t.requireAddressValidation = true) :
    Guarded Q mac t (t.poll Q mac received).1 (arrivals (received.take maxDatagramsPerPoll)) := by
  unfold poll
  generalize received.take maxDatagramsPerPoll = received
  have read : Guarded Q mac t (t.receiveAll Q mac received).1 (arrivals received) :=
    receiveAll_guarded _ required
  generalize t.receiveAll Q mac received = result at read
  obtain ⟨next, none | error⟩ := result
  · have tended : Creates next (next.tendAll Q (Q.order next.connections)).1 [] := tendAll_creates _
    dsimp only
    generalize next.tendAll Q (Q.order next.connections) = result at tended
    obtain ⟨last, none | error⟩ := result
    · obtain ⟨secret, validates, claimed, sequence, each⟩ := tended.trans (remove_creates _)
      exact read.then_creates ⟨secret, validates, claimed, sequence, each⟩
    · exact read.then_creates tended
  · exact read

end QuicTransport

open QuicTransport

end Quic
