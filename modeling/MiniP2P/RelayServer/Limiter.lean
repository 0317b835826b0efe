import Mathlib.Order.Nat
import MiniP2P.Lib.BTreeMap
import MiniP2P.RelayServer.Config

/-! Token buckets. A bucket that is not full is filed under the time of its next refill;
a sweep takes every due time off the schedule and files its buckets again, later. -/
namespace RelayServer
open Collections

structure Bucket where
  tokens : Nat
  lastRefillMs : Nat
  generation : Nat
  deriving DecidableEq

structure TokenBuckets (κ : Type) [LinearOrder κ] where
  config : RateLimit
  valid : config.Valid
  buckets : BTreeMap κ Bucket
  due : BTreeMap Nat (List (κ × Nat))
  nextGeneration : Nat

def refill (bucket : Bucket) (config : RateLimit) (nowMs : Nat) : Bucket :=
  let elapsed := nowMs - bucket.lastRefillMs
  let intervals := elapsed / config.refillIntervalMs
  if intervals = 0 then bucket
  else
    let added := min intervals u32Max
    { bucket with
      tokens := min (min (bucket.tokens + added) u32Max) config.capacity
      lastRefillMs := saturatingAdd bucket.lastRefillMs
        (saturatingMul intervals config.refillIntervalMs) }

namespace TokenBuckets

variable {κ : Type} [LinearOrder κ]

def new (config : RateLimit) (valid : config.Valid) : TokenBuckets κ :=
  ⟨config, valid, .empty, .empty, 1⟩

variable (b : TokenBuckets κ)

def schedule (key : κ) (bucket : Bucket) : TokenBuckets κ × Bucket :=
  if bucket.generation ≠ 0 then (b, bucket)
  else
    let deadline := saturatingAdd bucket.lastRefillMs b.config.refillIntervalMs
    if deadline = u64Max then (b, bucket)
    else
      let generation := b.nextGeneration
      ({ b with
          nextGeneration := max ((b.nextGeneration + 1) % 2 ^ 64) 1
          due := b.due.insert deadline ((b.due.get deadline).getD [] ++ [(key, generation)]) },
        { bucket with generation })

/-- File the bucket, on the schedule too unless it is there already. -/
def file (key : κ) (bucket : Bucket) : TokenBuckets κ :=
  let scheduled := b.schedule key bucket
  { scheduled.1 with buckets := scheduled.1.buckets.insert key scheduled.2 }

/-- One entry of a due time. An entry of an older generation is stale. -/
def sweepEntry (nowMs : Nat) (b : TokenBuckets κ) (entry : κ × Nat) : TokenBuckets κ :=
  match b.buckets.get entry.1 with
  | none => b
  | some bucket =>
    if bucket.generation ≠ entry.2 then b
    else
      let b := { b with buckets := b.buckets.remove entry.1 }
      let bucket := refill { bucket with generation := 0 } b.config nowMs
      if bucket.tokens < b.config.capacity then b.file entry.1 bucket else b

/-- `none` is a loop that outlasts its fuel. -/
def sweepLoop (nowMs : Nat) : Nat → TokenBuckets κ → Option (TokenBuckets κ)
  | 0, _ => none
  | fuel + 1, b =>
    match b.due.first with
    | none => some b
    | some (deadline, entries) =>
      if nowMs < deadline then some b
      else sweepLoop nowMs fuel
        (entries.foldl (sweepEntry nowMs) { b with due := b.due.remove deadline })

def sweep (nowMs : Nat) : Option (TokenBuckets κ) :=
  sweepLoop nowMs (b.due.len + 1) b

def consume (key : κ) (nowMs : Nat) : Option (Bool × TokenBuckets κ) := do
  let b ← b.sweep nowMs
  let bucket := (b.buckets.get key).getD ⟨b.config.capacity, nowMs, 0⟩
  let b := { b with buckets := b.buckets.remove key }
  let bucket := refill bucket b.config nowMs
  if bucket.tokens = 0 then return (false, b.file key bucket)
  else return (true, b.file key { bucket with tokens := bucket.tokens - 1 })

/-- The due times that a sweep at `nowMs` has to take off the schedule. -/
def overdue (nowMs : Nat) (b : TokenBuckets κ) : Nat :=
  b.due.sum (fun deadline _ => if deadline ≤ nowMs then 1 else 0)

variable {nowMs : Nat}

/-- A refilled bucket is due again after `nowMs`, unless the clock saturates. -/
theorem refill_later {bucket : Bucket} {config : RateLimit} (valid : config.Valid)
    (scheduled : saturatingAdd (refill bucket config nowMs).lastRefillMs config.refillIntervalMs ≠
      u64Max) :
    nowMs < saturatingAdd (refill bucket config nowMs).lastRefillMs config.refillIntervalMs := by
  have interval := valid.interval
  have split := Nat.div_add_mod (nowMs - bucket.lastRefillMs) config.refillIntervalMs
  have rest := Nat.mod_lt (nowMs - bucket.lastRefillMs) interval
  unfold refill at scheduled ⊢
  dsimp only at scheduled ⊢
  split at scheduled
  · rename_i nothing
    rw [if_pos nothing]
    rw [nothing, Nat.mul_zero] at split
    unfold saturatingAdd at scheduled ⊢
    omega
  · rename_i present
    rw [if_neg present]
    rw [Nat.mul_comm] at split
    unfold saturatingAdd saturatingMul at scheduled ⊢
    dsimp only at scheduled ⊢
    omega

theorem file_overdue {b : TokenBuckets κ} {key : κ} {bucket : Bucket}
    (later : saturatingAdd bucket.lastRefillMs b.config.refillIntervalMs ≠ u64Max →
      nowMs < saturatingAdd bucket.lastRefillMs b.config.refillIntervalMs) :
    overdue nowMs (b.file key bucket) = overdue nowMs b := by
  show overdue nowMs (b.schedule key bucket).1 = overdue nowMs b
  unfold schedule
  split
  · rfl
  · dsimp only
    split
    · rfl
    · rename_i scheduled
      unfold overdue
      have filed := b.due.sum_insert (fun deadline _ => if deadline ≤ nowMs then 1 else 0)
        (saturatingAdd bucket.lastRefillMs b.config.refillIntervalMs)
        ((b.due.get (saturatingAdd bucket.lastRefillMs b.config.refillIntervalMs)).getD [] ++
          [(key, b.nextGeneration)])
      rw [if_neg (by omega)] at filed
      cases found : b.due.get (saturatingAdd bucket.lastRefillMs b.config.refillIntervalMs) with
      | none | some entries => simpa [found] using filed

theorem sweepEntry_overdue (nowMs : Nat) (b : TokenBuckets κ) (entry : κ × Nat) :
    overdue nowMs (sweepEntry nowMs b entry) = overdue nowMs b := by
  unfold sweepEntry
  split
  · rfl
  · split
    · rfl
    · dsimp only
      split
      · exact file_overdue (refill_later b.valid)
      · rfl

theorem sweepEntries_overdue (nowMs : Nat) (entries : List (κ × Nat)) (b : TokenBuckets κ) :
    overdue nowMs (entries.foldl (sweepEntry nowMs) b) = overdue nowMs b := by
  induction entries generalizing b with
  | nil => rfl
  | cons entry entries ih => rw [List.foldl_cons, ih, sweepEntry_overdue]

theorem sweepLoop_returns {fuel : Nat} {b : TokenBuckets κ}
    (enough : overdue nowMs b < fuel) : ∃ b', sweepLoop nowMs fuel b = some b' := by
  induction fuel generalizing b with
  | zero => omega
  | succ fuel ih =>
    unfold sweepLoop
    split
    · exact ⟨b, rfl⟩
    · rename_i deadline entries first
      split
      · exact ⟨b, rfl⟩
      · apply ih
        rw [sweepEntries_overdue]
        have taken :=
          b.due.sum_remove (fun deadline _ => if deadline ≤ nowMs then 1 else 0) deadline
        rw [BTreeMap.get_of_first first, Option.elim_some, if_pos (by omega)] at taken
        unfold overdue at enough ⊢
        dsimp only
        omega

theorem overdue_le_len (nowMs : Nat) (b : TokenBuckets κ) : overdue nowMs b ≤ b.due.len := by
  rw [BTreeMap.len_eq_sum]
  exact BTreeMap.sum_le (fun _ _ => by split <;> omega)

theorem sweep_returns (nowMs : Nat) : ∃ b', b.sweep nowMs = some b' :=
  sweepLoop_returns (Nat.lt_succ_of_le (overdue_le_len nowMs b))

theorem consume_returns (key : κ) (nowMs : Nat) :
    ∃ allowed b', b.consume key nowMs = some (allowed, b') := by
  obtain ⟨swept, sweeps⟩ := b.sweep_returns nowMs
  simp only [consume, sweeps, Option.bind_eq_bind, Option.bind_some]
  split
  · exact ⟨_, _, rfl⟩
  · exact ⟨_, _, rfl⟩

end TokenBuckets

end RelayServer
