import Mathlib.Algebra.Group.Nat.Defs

/-! Limits and admission policy of the relay server. A validated configuration carries
what validation checked. -/
namespace RelayServer

def u32Max : Nat := 2 ^ 32 - 1
def u64Max : Nat := 2 ^ 64 - 1

def saturatingAdd (a b : Nat) : Nat := min (a + b) u64Max
def saturatingMul (a b : Nat) : Nat := min (a * b) u64Max

structure RateLimit where
  capacity : Nat
  refillIntervalMs : Nat
  deriving DecidableEq

structure RateLimit.Valid (r : RateLimit) : Prop where
  capacity : 0 < r.capacity
  interval : 0 < r.refillIntervalMs

structure RelayServerConfig where
  maxReservations : Nat := 128
  reservationDurationSecs : Nat := 3600
  maxCircuits : Nat := 16
  maxCircuitsPerPeer : Nat := 4
  maxCircuitDurationSecs : Nat := 120
  maxCircuitBytes : Nat := 131072
  maxPendingHopRequestsPerConnection : Nat := 10
  maxPendingStopRequestsPerConnection : Nat := 10
  controlStreamTimeoutMs : Nat := 60000
  reservationRateLimitPerPeer : Option RateLimit := some ⟨30, 120000⟩
  reservationRateLimitPerIp : Option RateLimit := some ⟨60, 60000⟩
  circuitRateLimitPerPeer : Option RateLimit := some ⟨30, 120000⟩
  circuitRateLimitPerIp : Option RateLimit := some ⟨60, 60000⟩
  deriving DecidableEq

inductive RelayServerConfigErrorKind where
  | mustBeNonZero
  | exceedsWireU32
  deriving DecidableEq

structure RelayServerConfigError where
  field : String
  reason : RelayServerConfigErrorKind
  deriving DecidableEq

def validateRateLimit (name : String) : Option RateLimit → Except RelayServerConfigError Unit
  | none => .ok ()
  | some limit =>
    if limit.capacity = 0 then .error ⟨name ++ ".capacity", .mustBeNonZero⟩
    else if limit.refillIntervalMs = 0 then
      .error ⟨name ++ ".refill_interval_ms", .mustBeNonZero⟩
    else .ok ()

namespace RelayServerConfig

def validate (c : RelayServerConfig) : Except RelayServerConfigError Unit :=
  if c.reservationDurationSecs = 0 then
    .error ⟨"reservation_duration_secs", .mustBeNonZero⟩
  else if u32Max < c.maxCircuitDurationSecs then
    .error ⟨"max_circuit_duration_secs", .exceedsWireU32⟩
  else if c.controlStreamTimeoutMs = 0 then
    .error ⟨"control_stream_timeout_ms", .mustBeNonZero⟩
  else do
    validateRateLimit "reservation_rate_limit_per_peer" c.reservationRateLimitPerPeer
    validateRateLimit "reservation_rate_limit_per_ip" c.reservationRateLimitPerIp
    validateRateLimit "circuit_rate_limit_per_peer" c.circuitRateLimitPerPeer
    validateRateLimit "circuit_rate_limit_per_ip" c.circuitRateLimitPerIp

end RelayServerConfig

structure RelayServerConfig.Valid (c : RelayServerConfig) : Prop where
  reservation_lasts : 0 < c.reservationDurationSecs
  circuit_fits : c.maxCircuitDurationSecs ≤ u32Max
  timeout_lasts : 0 < c.controlStreamTimeoutMs
  reservation_peer : ∀ r, c.reservationRateLimitPerPeer = some r → r.Valid
  reservation_ip : ∀ r, c.reservationRateLimitPerIp = some r → r.Valid
  circuit_peer : ∀ r, c.circuitRateLimitPerPeer = some r → r.Valid
  circuit_ip : ∀ r, c.circuitRateLimitPerIp = some r → r.Valid

structure ValidConfig extends RelayServerConfig where
  valid : toRelayServerConfig.Valid

theorem validateRateLimit_ok {name : String} {limit : Option RateLimit}
    (passed : validateRateLimit name limit = .ok ()) : ∀ r, limit = some r → r.Valid := by
  rintro r rfl
  simp only [validateRateLimit] at passed
  split at passed
  · cases passed
  · rename_i capacity
    split at passed
    · cases passed
    · rename_i interval
      exact ⟨Nat.pos_of_ne_zero capacity, Nat.pos_of_ne_zero interval⟩

theorem andThen_ok {ε : Type} {x y : Except ε Unit} (passed : (do x; y) = .ok ()) :
    x = .ok () ∧ y = .ok () := by
  cases x with
  | error e => cases passed
  | ok _ => exact ⟨rfl, passed⟩

namespace RelayServerConfig

theorem validate_ok {c : RelayServerConfig} (passed : c.validate = .ok ()) : c.Valid := by
  unfold validate at passed
  split at passed
  · cases passed
  · split at passed
    · cases passed
    · split at passed
      · cases passed
      · obtain ⟨reservationPeer, passed⟩ := andThen_ok passed
        obtain ⟨reservationIp, passed⟩ := andThen_ok passed
        obtain ⟨circuitPeer, circuitIp⟩ := andThen_ok passed
        exact ⟨by omega, by omega, by omega, validateRateLimit_ok reservationPeer,
          validateRateLimit_ok reservationIp, validateRateLimit_ok circuitPeer,
          validateRateLimit_ok circuitIp⟩

def checked (c : RelayServerConfig) : Except RelayServerConfigError ValidConfig :=
  match passed : c.validate with
  | .error e => .error e
  | .ok () => .ok ⟨c, validate_ok passed⟩

end RelayServerConfig

end RelayServer
