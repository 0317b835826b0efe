import MiniP2P.Core.MultiaddrCodec
import MiniP2P.Identity.Text

/-! Multiaddrs as text. Components are segments between slashes, one or two to a component. The
text of an IPv6 address is left to the standard library. -/
namespace Core
open Identity Protocol Multiaddr
open List hiding Vector

structure Ipv6Text where
  display : Vector UInt8 16 → String
  parse : String → Option (Vector UInt8 16)
  parse_display : ∀ ip, parse (display ip) = some ip
  plain : ∀ ip, '/' ∉ (display ip).toList
  nonempty : ∀ ip, display ip ≠ ""

variable (T : Ipv6Text)

def parseUnsigned (bound : Nat) (text : List Char) : Option Nat :=
  let digits := match text with
    | '+' :: digits => digits
    | digits => digits
  if digits ≠ [] ∧ digits.all Char.isDigit then
    let n := Nat.ofDigitChars 10 digits 0
    if n < bound then some n else none
  else none

def parseU8 (text : List Char) : Option UInt8 := (parseUnsigned (2 ^ 8) text).map UInt8.ofNat

def parseU16 (text : List Char) : Option UInt16 := (parseUnsigned (2 ^ 16) text).map UInt16.ofNat

variable (value : String)

def parseIp4 : Option (Vector UInt8 4) :=
  match value.toList.splitOn '.' with
  | [a, b, c, d] =>
    match parseU8 a, parseU8 b, parseU8 c, parseU8 d with
    | some a, some b, some c, some d => some #v[a, b, c, d]
    | _, _, _, _ => none
  | _ => none

def valued (protocol : String) (parse : String → Except MultiaddrError Protocol) :
    List String → Except MultiaddrError (Protocol × List String)
  | value :: rest =>
    if value = "" then .error (.missingValue protocol) else (parse value).map (·, rest)
  | [] => .error (.missingValue protocol)

def parseIp4Value : Except MultiaddrError Protocol :=
  match parseIp4 value with
  | none => .error (.invalidIp4 value)
  | some ip => .ok (.ip4 ip)

def parseIp6Value : Except MultiaddrError Protocol :=
  match T.parse value with
  | none => .error (.invalidIp6 value)
  | some ip => .ok (.ip6 ip)

def parseDnsValue (wrap : String → Protocol) (value : String) : Except MultiaddrError Protocol :=
  if isValidDns value then .ok (wrap value) else .error (.invalidDnsName value)

def parsePortValue (wrap : UInt16 → Protocol) (value : String) : Except MultiaddrError Protocol :=
  match parseU16 value.toList with
  | none => .error (.invalidPort value)
  | some port => .ok (wrap port)

section

variable [MultihashCrate]

def parsePeerValue (value : String) : Except MultiaddrError Protocol :=
  match PeerId.fromStr value with
  | .error e => .error (.invalidPeerId value e)
  | .ok peerId => .ok (.p2p peerId)

def parseComponent (protocol : String) (rest : List String) :
    Except MultiaddrError (Protocol × List String) :=
  match protocol with
  | "" => .error .emptyProtocol
  | "ip4" => valued protocol parseIp4Value rest
  | "ip6" => valued protocol (parseIp6Value T) rest
  | "dns" => valued protocol (parseDnsValue .dns) rest
  | "dns4" => valued protocol (parseDnsValue .dns4) rest
  | "dns6" => valued protocol (parseDnsValue .dns6) rest
  | "tcp" => valued protocol (parsePortValue .tcp) rest
  | "udp" => valued protocol (parsePortValue .udp) rest
  | "quic-v1" => .ok (.quicV1, rest)
  | "p2p-circuit" => .ok (.p2pCircuit, rest)
  | "p2p" => valued protocol parsePeerValue rest
  | _ => .error (.unknownProtocol protocol)

def parseLoop : Nat → List String → Except MultiaddrError (List Protocol)
  | 0, _ => .ok []
  | _, [] => .ok []
  | fuel + 1, protocol :: rest =>
    match parseComponent T protocol rest with
    | .error e => .error e
    | .ok (p, rest) => (parseLoop fuel rest).map (p :: ·)

/-- `parse_multiaddr`. Nothing stands before the slash a text begins with. -/
def Multiaddr.fromStr (input : String) : Except MultiaddrError Multiaddr :=
  if input = "" then .error .emptyInput
  else if ¬ ['/'].isPrefixOf input.toList then .error .missingLeadingSlash
  else
    let segments := ((input.toList.splitOn '/').map String.ofList).drop 1
    (parseLoop T segments.length segments).map mk

end

variable (ip : Vector UInt8 4)

def displayIp4 : String :=
  toString ip[0].toNat ++ "." ++ toString ip[1].toNat ++ "." ++ toString ip[2].toNat ++ "." ++
    toString ip[3].toNat

section

variable [MultihashCrate]

def Protocol.display : Protocol → String
  | .ip4 ip => "/ip4/" ++ displayIp4 ip
  | .ip6 ip => "/ip6/" ++ T.display ip
  | .dns name => "/dns/" ++ name
  | .dns4 name => "/dns4/" ++ name
  | .dns6 name => "/dns6/" ++ name
  | .tcp port => "/tcp/" ++ toString port.toNat
  | .udp port => "/udp/" ++ toString port.toNat
  | .quicV1 => "/quic-v1"
  | .p2p peerId => "/p2p/" ++ peerId.toBase58
  | .p2pCircuit => "/p2p-circuit"

def Multiaddr.toString (a : Multiaddr) : String := String.join (a.protocols.map (display T))

def Protocol.HasKeyPeer : Protocol → Prop
  | .p2p peerId => peerId.code = identityMultihashCode ∨ peerId.code = sha256MultihashCode
  | _ => True

/-- The text of the peer id begins as base58btc text does that is taken for it. -/
def Protocol.HasLegacyPeer : Protocol → Prop
  | .p2p peerId => PeerId.looksLegacy peerId.toBase58 = true
  | _ => True

end

/-! ### Values -/

theorem parseUnsigned_toDigits {bound n : Nat} (small : n < bound) :
    parseUnsigned bound (Nat.toDigits 10 n) = some n := by
  have digits : ∀ c ∈ Nat.toDigits 10 n, c.isDigit = true :=
    fun _ => Nat.isDigit_of_mem_toDigits (by decide) (by decide)
  have unsigned (more : List Char) (found : Nat.toDigits 10 n = '+' :: more) : False := by
    have := digits '+' (found ▸ mem_cons_self)
    cases this
  rw [parseUnsigned, if_pos ⟨Nat.toDigits_ne_nil, all_eq_true.mpr digits⟩,
    Nat.ofDigitChars_toDigits (by decide) (by decide)]
  · exact if_pos small
  · exact unsigned

theorem toList_toString (n : Nat) : (toString n).toList = Nat.toDigits 10 n :=
  String.toList_ofList

theorem parseU8_toDigits (byte : UInt8) : parseU8 (Nat.toDigits 10 byte.toNat) = some byte := by
  rw [parseU8, parseUnsigned_toDigits byte.toNat_lt, Option.map_some, UInt8.ofNat_toNat]

theorem parseU16_toDigits (port : UInt16) : parseU16 (Nat.toDigits 10 port.toNat) = some port := by
  rw [parseU16, parseUnsigned_toDigits port.toNat_lt, Option.map_some, UInt16.ofNat_toNat]

theorem not_mem_toDigits {c : Char} (n : Nat) (other : c.isDigit = false) :
    c ∉ Nat.toDigits 10 n := by
  intro mem
  rw [Nat.isDigit_of_mem_toDigits (by decide) (by decide) mem] at other
  cases other

theorem toList_displayIp4 : (displayIp4 ip).toList =
    ['.'].intercalate [Nat.toDigits 10 ip[0].toNat, Nat.toDigits 10 ip[1].toNat,
      Nat.toDigits 10 ip[2].toNat, Nat.toDigits 10 ip[3].toNat] := by
  simp only [displayIp4, String.toList_append, toList_toString]
  simp [List.intercalate]

theorem parseIp4_display : parseIp4 (displayIp4 ip) = some ip := by
  have parts := @splitOn_intercalate _ [Nat.toDigits 10 ip[0].toNat,
    Nat.toDigits 10 ip[1].toNat, Nat.toDigits 10 ip[2].toNat, Nat.toDigits 10 ip[3].toNat] _ _ '.'
      (by simp [not_mem_toDigits]) (by simp)
  rw [parseIp4, toList_displayIp4, parts]
  simp only [parseU8_toDigits]
  congr 1
  apply Vector.ext
  intro i small
  match i, small with
  | 0, _ | 1, _ | 2, _ | 3, _ => rfl

theorem not_mem_displayIp4 : '/' ∉ (displayIp4 ip).toList := by
  simp [displayIp4, not_mem_toDigits]

theorem toString_ne_empty (n : Nat) : toString n ≠ "" := by
  intro empty
  have digits := toList_toString n
  rw [empty] at digits
  exact Nat.toDigits_ne_nil digits.symm

theorem base58Char_ne_slash (digit : Nat) : base58Char digit ≠ '/' := by
  by_cases small : digit < 58
  · exact (base58_table.2 digit small).2.2
  · rw [base58Char_past (Nat.le_of_not_lt small)]
    decide

theorem intercalate_slash (first : List Char) (segments : List (List Char)) :
    ['/'].intercalate (first :: segments) = first ++ segments.flatMap ('/' :: ·) := by
  induction segments generalizing first with
  | nil => simp [List.intercalate]
  | cons segment segments ih =>
    have rest := ih segment
    simp [rest]

section

variable [MultihashCrate]

theorem not_mem_toBase58 (p : PeerId) : '/' ∉ p.toBase58.toList := by
  rw [PeerId.toBase58, encodeBase58_eq, String.toList_ofList]
  intro mem
  obtain ⟨digit, -, slash⟩ := mem_map.mp mem
  exact base58Char_ne_slash digit slash

theorem toBase58_ne_empty [MultihashCrate.Documented] (p : PeerId) : p.toBase58 ≠ "" := by
  intro empty
  have read := p.fromBase58_toBase58
  rw [empty] at read
  cases read

/-! ### Segments -/

namespace Protocol

/-- The segments of a component, without their slashes. -/
def segments : Protocol → List String
  | .ip4 ip => ["ip4", displayIp4 ip]
  | .ip6 ip => ["ip6", T.display ip]
  | .dns name => ["dns", name]
  | .dns4 name => ["dns4", name]
  | .dns6 name => ["dns6", name]
  | .tcp port => ["tcp", toString port.toNat]
  | .udp port => ["udp", toString port.toNat]
  | .quicV1 => ["quic-v1"]
  | .p2p peerId => ["p2p", peerId.toBase58]
  | .p2pCircuit => ["p2p-circuit"]

theorem toList_display (p : Protocol) :
    (p.display T).toList = (p.segments T).flatMap fun segment => '/' :: segment.toList := by
  cases p <;> simp [display, segments]

variable {p : Protocol}

theorem HasValidDns.plain (valid : p.HasValidDns) :
    ∀ segment ∈ p.segments T, '/' ∉ segment.toList := by
  have dns {name : String} (known : isValidDns name = true) : '/' ∉ name.toList := by
    simp [isValidDns] at known
    exact known.1.2
  cases p with
  | ip4 ip => simp [segments, not_mem_displayIp4]
  | ip6 ip => simp [segments, T.plain]
  | dns name | dns4 name | dns6 name => simp [segments, dns valid]
  | tcp port | udp port => simp [segments, not_mem_toDigits]
  | quicV1 | p2pCircuit => simp [segments]
  | p2p peerId => simp [segments, not_mem_toBase58]

theorem HasKeyPeer.legacy [MultihashCrate.Documented] (key : p.HasKeyPeer) : p.HasLegacyPeer := by
  cases p with
  | p2p peerId => exact Or.elim key PeerId.looksLegacy_identity PeerId.looksLegacy_sha256
  | _ => trivial

/-- What the text of a component is read as. -/
def reread : Protocol → Except MultiaddrError Protocol
  | .p2p peerId => parsePeerValue peerId.toBase58
  | p => .ok p

theorem reread_iff [MultihashCrate.Documented] : p.reread = .ok p ↔ p.HasLegacyPeer := by
  cases p with
  | p2p peerId =>
    rw [HasLegacyPeer, ← PeerId.fromStr_toBase58, reread, parsePeerValue]
    cases PeerId.fromStr peerId.toBase58 <;> simp
  | _ => exact iff_of_true rfl trivial

theorem parseComponent_segments [MultihashCrate.Documented] (valid : p.HasValidDns) :
    ∃ name values, p.segments T = name :: values ∧
      ∀ rest, parseComponent T name (values ++ rest) = p.reread.map (·, rest) := by
  have read {name value : String} {parse : String → Except MultiaddrError Protocol}
      (nonempty : value ≠ "") (known : parse value = p.reread) (rest : List String) :
      valued name parse ([value] ++ rest) = p.reread.map (·, rest) := by
    rw [singleton_append, valued, if_neg nonempty, known]
  have dns {name : String} (known : isValidDns name = true) (wrap : String → Protocol) :
      name ≠ "" ∧ parseDnsValue wrap name = .ok (wrap name) := by
    refine ⟨?_, by rw [parseDnsValue, if_pos known]⟩
    rintro rfl
    cases known
  have port (port : UInt16) (wrap : UInt16 → Protocol) :
      parsePortValue wrap (toString port.toNat) = .ok (wrap port) := by
    rw [parsePortValue, toList_toString, parseU16_toDigits]
  cases p with
  | ip4 ip =>
    refine ⟨_, _, rfl, fun rest => ?_⟩
    have nonempty : displayIp4 ip ≠ "" := by
      intro empty
      have known := parseIp4_display ip
      rw [empty] at known
      cases known
    exact @read "ip4" _ parseIp4Value nonempty (by rw [parseIp4Value, parseIp4_display]; rfl) rest
  | ip6 ip =>
    refine ⟨_, _, rfl, fun rest => ?_⟩
    exact @read "ip6" _ (parseIp6Value T) (T.nonempty ip)
      (by rw [parseIp6Value, T.parse_display]; rfl) rest
  | dns name =>
    refine ⟨_, _, rfl, fun rest => ?_⟩
    exact @read "dns" _ _ (dns valid .dns).1 (dns valid .dns).2 rest
  | dns4 name =>
    refine ⟨_, _, rfl, fun rest => ?_⟩
    exact @read "dns4" _ _ (dns valid .dns4).1 (dns valid .dns4).2 rest
  | dns6 name =>
    refine ⟨_, _, rfl, fun rest => ?_⟩
    exact @read "dns6" _ _ (dns valid .dns6).1 (dns valid .dns6).2 rest
  | tcp number =>
    refine ⟨_, _, rfl, fun rest => ?_⟩
    exact @read "tcp" _ _ (toString_ne_empty _) (port number .tcp) rest
  | udp number =>
    refine ⟨_, _, rfl, fun rest => ?_⟩
    exact @read "udp" _ _ (toString_ne_empty _) (port number .udp) rest
  | quicV1 | p2pCircuit => exact ⟨_, _, rfl, fun rest => rfl⟩
  | p2p peerId =>
    refine ⟨_, _, rfl, fun rest => ?_⟩
    exact @read "p2p" _ parsePeerValue (toBase58_ne_empty peerId) rfl rest

theorem hasValidDns_of_parseComponent {name : String} {values rest : List String}
    (read : parseComponent T name values = .ok (p, rest)) : p.HasValidDns := by
  have inside {parse : String → Except MultiaddrError Protocol}
      (known : ∀ value q, parse value = .ok q → q.HasValidDns)
      (read : valued name parse values = .ok (p, rest)) : p.HasValidDns := by
    cases values with
    | nil => cases read
    | cons value more =>
      rw [valued] at read
      split at read
      · cases read
      · obtain ⟨q, parsed, same⟩ := of_map_ok read
        cases same
        exact known value _ parsed
  have dns {wrap : String → Protocol}
      (same : ∀ value, (wrap value).HasValidDns ↔ isValidDns value = true)
      (value : String) (q : Protocol) (parsed : parseDnsValue wrap value = .ok q) :
      q.HasValidDns := by
    unfold parseDnsValue at parsed
    split at parsed
    · rename_i valid
      cases parsed
      exact (same value).mpr valid
    · cases parsed
  have port (wrap : UInt16 → Protocol) (valid : ∀ number, (wrap number).HasValidDns)
      (value : String) (q : Protocol) (parsed : parsePortValue wrap value = .ok q) :
      q.HasValidDns := by
    unfold parsePortValue at parsed
    split at parsed <;> cases parsed
    exact valid _
  unfold parseComponent at read
  split at read
  · cases read
  · exact inside (fun value q parsed => by
      unfold parseIp4Value at parsed
      split at parsed <;> cases parsed
      trivial) read
  · exact inside (fun value q parsed => by
      unfold parseIp6Value at parsed
      split at parsed <;> cases parsed
      trivial) read
  · exact inside (dns fun _ => Iff.rfl) read
  · exact inside (dns fun _ => Iff.rfl) read
  · exact inside (dns fun _ => Iff.rfl) read
  · exact inside (port .tcp fun _ => trivial) read
  · exact inside (port .udp fun _ => trivial) read
  · cases read
    trivial
  · cases read
    trivial
  · exact inside (fun value q parsed => by
      unfold parsePeerValue at parsed
      split at parsed <;> cases parsed
      trivial) read
  · cases read

end Protocol

/-! ### Addresses -/

variable {protocols : List Protocol} {fuel : Nat}

theorem parseLoop_segments [MultihashCrate.Documented] (valid : ∀ p ∈ protocols, p.HasValidDns)
    (enough : (protocols.flatMap (segments T)).length ≤ fuel) :
    parseLoop T fuel (protocols.flatMap (segments T)) = .ok protocols ↔
      ∀ p ∈ protocols, p.HasLegacyPeer := by
  induction protocols generalizing fuel with
  | nil => cases fuel <;> simp [parseLoop]
  | cons p protocols ih =>
    obtain ⟨here, later⟩ := forall_mem_cons.mp valid
    obtain ⟨name, values, segments, read⟩ := parseComponent_segments T here
    rw [flatMap_cons, segments, cons_append, length_cons, length_append] at enough
    obtain ⟨fuel, rfl⟩ : ∃ f, fuel = f + 1 := ⟨fuel - 1, by omega⟩
    have rest := ih later (Nat.le_of_add_left_le (Nat.le_of_succ_le_succ enough))
    rw [flatMap_cons, segments, cons_append, parseLoop, read, forall_mem_cons, ← reread_iff, ← rest]
    cases p.reread with
    | error e => simp [Except.map]
    | ok q =>
      simp only [Except.map]
      generalize parseLoop T fuel _ = loop
      cases loop <;> simp

theorem hasValidDns_of_parseLoop {segments : List String}
    (read : parseLoop T fuel segments = .ok protocols) : ∀ p ∈ protocols, p.HasValidDns := by
  induction fuel generalizing segments protocols with
  | zero =>
    cases read
    nofun
  | succ fuel ih =>
    cases segments with
    | nil =>
      cases read
      nofun
    | cons name values =>
      rw [parseLoop] at read
      split at read
      · cases read
      · rename_i p rest found
        obtain ⟨more, others, rfl⟩ := of_map_ok read
        rintro q (_ | ⟨_, mem⟩)
        · exact hasValidDns_of_parseComponent T found
        · exact ih others q mem

theorem parseLoop_ne_nil {segment : String} {segments : List String} :
    parseLoop T (fuel + 1) (segment :: segments) ≠ .ok [] := by
  intro read
  rw [parseLoop] at read
  split at read
  · cases read
  · obtain ⟨more, -, same⟩ := of_map_ok read
    cases same

namespace Multiaddr

theorem toList_toString (a : Multiaddr) : (a.toString T).toList =
    (a.protocols.flatMap (segments T)).flatMap fun segment => '/' :: segment.toList := by
  rw [toString]
  induction a.protocols with
  | nil => rfl
  | cons p protocols ih =>
    simp [ih, toList_display]

theorem fromStr_toString [MultihashCrate.Documented] {a : Multiaddr} (nonempty : a.protocols ≠ [])
    (valid : ∀ p ∈ a.protocols, p.HasValidDns) :
    fromStr T (a.toString T) = .ok a ↔ ∀ p ∈ a.protocols, p.HasLegacyPeer := by
  have text := a.toList_toString T
  have plain : ∀ segment ∈ a.protocols.flatMap (segments T), '/' ∉ segment.toList := by
    intro segment mem
    obtain ⟨p, known, mem⟩ := mem_flatMap.mp mem
    exact (valid p known).plain T segment mem
  have loop := parseLoop_segments T valid (Nat.le_refl _)
  obtain ⟨p, protocols, list⟩ := exists_cons_of_ne_nil nonempty
  obtain ⟨name, values, first, -⟩ := parseComponent_segments T (valid p (list ▸ mem_cons_self))
  obtain ⟨segment, more, found⟩ : ∃ segment more,
      a.protocols.flatMap (segments T) = segment :: more := by
    rw [list, flatMap_cons, first]
    exact ⟨_, _, rfl⟩
  generalize a.protocols.flatMap (segments T) = segments at *
  have parts : (a.toString T).toList.splitOn '/' = [] :: segments.map String.toList := by
    have joined := intercalate_slash [] (segments.map String.toList)
    rw [flatMap_map, nil_append, ← text] at joined
    rw [← joined]
    apply splitOn_intercalate
    · simpa using plain
    · simp
  have slash : ['/'].isPrefixOf (a.toString T).toList = true := by
    rw [text, found]
    simp
  have written : a.toString T ≠ "" := by
    intro empty
    rw [empty] at slash
    cases slash
  rw [← loop, fromStr, if_neg written, if_neg (by rw [slash]; simp)]
  dsimp only
  rw [parts, map_cons, drop_one, tail_cons, map_map,
    show String.ofList ∘ String.toList = id from funext fun _ => String.ofList_toList, map_id]
  generalize parseLoop T segments.length segments = read
  cases a
  cases read <;> simp [Except.map]

theorem of_fromStr {input : String} {a : Multiaddr} (read : fromStr T input = .ok a) :
    a.protocols ≠ [] ∧ ∀ p ∈ a.protocols, p.HasValidDns := by
  unfold fromStr at read
  split at read
  · cases read
  · split at read
    · cases read
    · rename_i slash
      -- The text before the slash is one segment, and at least one more follows it.
      obtain ⟨rest, starts⟩ := isPrefixOf_iff_prefix.mp (Classical.not_not.mp slash)
      have split : (['/'] ++ rest).splitOn '/' = [] :: rest.splitOn '/' := by
        rw [singleton_append, splitOn, splitOnP_cons_eq_if_modifyHead, if_pos (by simp)]
        rfl
      obtain ⟨segment, more, found⟩ := exists_cons_of_ne_nil (splitOn_ne_nil '/' rest)
      rw [← starts, split, map_cons, drop_one, tail_cons, found, map_cons] at read
      obtain ⟨protocols, loop, rfl⟩ := of_map_ok read
      refine ⟨?_, hasValidDns_of_parseLoop T loop⟩
      rintro rfl
      exact parseLoop_ne_nil T loop

/-- An address that either form yields is read back from its text exactly when the texts of its peer
ids look like base58btc, as those of keys do, and from its bytes. -/
theorem text_binary_agree [MultihashCrate.Documented] :
    (∀ bytes a, fromBytes bytes = .ok a → a.protocols ≠ [] → (∀ p ∈ a.protocols, p.HasKeyPeer) →
      fromStr T (a.toString T) = .ok a) ∧
    (∀ input a, fromStr T input = .ok a →
      (fromStr T (a.toString T) = .ok a ↔ ∀ p ∈ a.protocols, p.HasLegacyPeer) ∧
        (a.toBytes.length < 2 ^ 64 → fromBytes a.toBytes = .ok a)) := by
  refine ⟨?_, ?_⟩
  · intro bytes a read nonempty peers
    exact (fromStr_toString T nonempty (parts_of_fromBytes read).1).mpr
      fun p mem => (peers p mem).legacy
  · intro input a read
    obtain ⟨nonempty, valid⟩ := of_fromStr T read
    exact ⟨fromStr_toString T nonempty valid, fromBytes_toBytes valid⟩

end Multiaddr

end

theorem letter_toNat (byte : UInt8) :
    (Char.ofNat (0x100 + byte.toNat)).toNat = 0x100 + byte.toNat := by
  have small := byte.toNat_lt
  have valid : (0x100 + byte.toNat).isValidChar := .inl (by omega)
  rw [Char.ofNat, dif_pos valid]
  exact UInt32.toNat_ofNatLT

theorem letter_byte (byte : UInt8) :
    UInt8.ofNat (Char.ofNat (0x100 + byte.toNat)).toNat = byte ∧
      Char.ofNat (0x100 + byte.toNat) ≠ '/' := by
  constructor
  · rw [letter_toNat]
    apply UInt8.toNat_inj.mp
    rw [UInt8.toNat_ofNat', Nat.add_mod_left, Nat.mod_eq_of_lt byte.toNat_lt]
  · intro slash
    have same := congrArg Char.toNat slash
    rw [letter_toNat] at same
    have slash : '/'.toNat = 47 := rfl
    omega

def letters : Ipv6Text where
  display ip := String.ofList (ip.toList.map fun byte => Char.ofNat (0x100 + byte.toNat))
  parse text :=
    let bytes := text.toList.map fun c => UInt8.ofNat c.toNat
    if size : bytes.length = 16 then some ⟨bytes.toArray, by simpa using size⟩ else none
  parse_display ip := by
    have bytes : ip.toList.map ((fun c => UInt8.ofNat c.toNat) ∘
        fun byte => Char.ofNat (0x100 + byte.toNat)) = ip.toList :=
      (map_congr_left fun byte _ => (letter_byte byte).1).trans (map_id _)
    simp only [String.toList_ofList, map_map, bytes, Vector.length_toList, dite_true]
    rfl
  plain ip mem := by
    rw [String.toList_ofList] at mem
    obtain ⟨byte, -, slash⟩ := mem_map.mp mem
    exact (letter_byte byte).2 slash
  nonempty ip empty := by
    have length := congrArg (List.length ∘ String.toList) empty
    simp at length

theorem text_binary_agree_quic :
    fromStr letters "/dns/a/udp/+80/quic-v1" = .ok ⟨[.dns "a", .udp 80, .quicV1]⟩ ∧
      fromStr letters "/dns/a/udp/80/quic-v1" = .ok ⟨[.dns "a", .udp 80, .quicV1]⟩ :=
  have read : fromStr letters "/dns/a/udp/+80/quic-v1" =
    .ok ⟨[.dns "a", .udp 80, .quicV1]⟩ := by decide +kernel
  ⟨read, ((text_binary_agree letters).2 _ _ read).1.mpr (by simp [Protocol.HasLegacyPeer])⟩

theorem foreign_address_unreadable :
    fromStr letters ("/p2p/" ++ foreign.toCidBase32) = .ok ⟨[.p2p foreign]⟩ ∧
      fromStr letters ((⟨[.p2p foreign]⟩ : Multiaddr).toString letters) =
        .error (.invalidPeerId "5R" (.unsupportedMultibase '5')) := by
  decide +kernel

end Core
