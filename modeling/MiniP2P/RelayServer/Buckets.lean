import MiniP2P.Lib.Meter
import MiniP2P.RelayServer.Limiter

/-! How much the token buckets let through: the meter of a key is the time at which its bucket will
be full. -/
namespace RelayServer
open Collections BTreeMap List Meter

variable {config : RateLimit} {bucket : Bucket} {now clock : Nat}

def Bucket.fullAt (bucket : Bucket) (config : RateLimit) : Nat :=
  bucket.lastRefillMs + (config.capacity - bucket.tokens) * config.refillIntervalMs

/-- What a bucket has seen lies behind, and it holds no more than it may. -/
structure Bucket.Sane (bucket : Bucket) (config : RateLimit) (clock : Nat) : Prop where
  low : bucket.tokens ≤ config.capacity
  past : bucket.lastRefillMs ≤ clock

theorem refill_eq (fits : config.capacity ≤ u32Max) (sane : bucket.Sane config now)
    (early : now ≤ u64Max) :
    refill bucket config now =
      { bucket with
        tokens := min (bucket.tokens + (now - bucket.lastRefillMs) / config.refillIntervalMs)
          config.capacity
        lastRefillMs := bucket.lastRefillMs +
          (now - bucket.lastRefillMs) / config.refillIntervalMs * config.refillIntervalMs } := by
  obtain ⟨low, past⟩ := sane
  have whole := Nat.div_mul_le_self (now - bucket.lastRefillMs) config.refillIntervalMs
  unfold refill saturatingAdd saturatingMul
  dsimp only
  split
  · rename_i nothing
    rw [nothing, Nat.zero_mul, Nat.add_zero, Nat.add_zero, Nat.min_eq_left low]
  · generalize (now - bucket.lastRefillMs) / config.refillIntervalMs = intervals at *
    rw [Bucket.mk.injEq]
    omega

/-- What a refill makes of a bucket. -/
structure Refilled (config : RateLimit) (now : Nat) (before after : Bucket) : Prop where
  sane : after.Sane config now
  later : before.fullAt config ≤ after.fullAt config
  sooner : after.fullAt config ≤ max now (before.fullAt config)
  fresh : now < after.lastRefillMs + config.refillIntervalMs
  full : before.fullAt config ≤ now → after.tokens = config.capacity

theorem refill_refilled (valid : config.Valid) (fits : config.capacity ≤ u32Max)
    (sane : bucket.Sane config now) (early : now ≤ u64Max) :
    Refilled config now bucket (refill bucket config now) := by
  rw [refill_eq fits sane early]
  have split := Nat.div_add_mod (now - bucket.lastRefillMs) config.refillIntervalMs
  have rest := Nat.mod_lt (now - bucket.lastRefillMs) valid.interval
  have reached := Nat.le_div_iff_mul_le (x := config.capacity - bucket.tokens)
    (y := now - bucket.lastRefillMs) valid.interval
  obtain ⟨low, past⟩ := sane
  rw [Nat.mul_comm] at split
  generalize (now - bucket.lastRefillMs) / config.refillIntervalMs = intervals at *
  have missing : (config.capacity - min (bucket.tokens + intervals) config.capacity) *
      config.refillIntervalMs = (config.capacity - bucket.tokens) * config.refillIntervalMs -
        intervals * config.refillIntervalMs := by
    rw [← Nat.sub_mul]
    congr 1
    omega
  constructor
  · constructor <;> dsimp only <;> omega
  · simp only [Bucket.fullAt, missing]
    omega
  · simp only [Bucket.fullAt, missing]
    omega
  · dsimp only
    omega
  · intro full
    have := reached.mpr (by unfold Bucket.fullAt at full; omega)
    dsimp only
    omega

theorem refill_fresh (valid : config.Valid)
    (fresh : now < bucket.lastRefillMs + config.refillIntervalMs) :
    refill bucket config now = bucket :=
  if_pos (Nat.div_eq_of_lt (by have := valid.interval; omega))

theorem refill_generation (generation : Nat) : refill { bucket with generation } config now =
      { refill bucket config now with generation } := by
  simp only [refill]
  split <;> rfl

namespace TokenBuckets

variable {κ : Type} [LinearOrder κ] {b b' : TokenBuckets κ} {key : κ} {todo : List (κ × Nat)}

@[simp] theorem file_config (key : κ) (bucket : Bucket) :
    (b.file key bucket).config = b.config := by
  simp only [file, schedule]
  repeat' split
  all_goals rfl

/-- A bucket that was taken out and filed again. -/
theorem refile_get (key : κ) (bucket : Bucket) : ∃ generation, ∀ other,
    ({ b with buckets := b.buckets.remove key }.file key bucket).buckets.get other =
      if other = key then some { bucket with generation } else b.buckets.get other := by
  refine ⟨({ b with buckets := b.buckets.remove key }.schedule key bucket).2.generation,
    fun other => ?_⟩
  have taken (v : Bucket) : ((b.buckets.remove key).insert key v).get other =
      if other = key then some v else b.buckets.get other := by
    rw [get_insert, get_remove]
    split <;> rfl
  simp only [file, schedule]
  split
  · exact taken _
  · split <;> exact taken _

theorem sweepEntry_config (entry : κ × Nat) : (sweepEntry now b entry).config = b.config := by
  simp only [sweepEntry]
  repeat' split
  all_goals simp

variable {I : TokenBuckets κ → List (κ × Nat) → Prop} {allowed : Bool}

theorem entries_rule (entry : ∀ {b entry todo}, I b (entry :: todo) →
    I (sweepEntry now b entry) todo)
    (before : I b todo) : I (todo.foldl (sweepEntry now) b) [] := by
  induction todo generalizing b with
  | nil => exact before
  | cons e todo ih => exact ih (entry before)

/-- The rule for a sweep: what holds with nothing to do holds after it, if taking a due time off the
schedule keeps it with the entries to do, and each entry keeps it for the rest of them. -/
theorem sweep_rule (pop : ∀ {b deadline entries}, b.due.get deadline = some entries → I b [] →
      I { b with due := b.due.remove deadline } entries)
    (entry : ∀ {b entry todo}, I b (entry :: todo) → I (sweepEntry now b entry) todo)
    (swept : b.sweep now = some b') (before : I b []) :
    I b' [] ∧ ∀ deadline entries, b'.due.get deadline = some entries → now < deadline := by
  unfold sweep at swept
  generalize b.due.len + 1 = fuel at swept
  induction fuel generalizing b with
  | zero => cases swept
  | succ fuel ih =>
    unfold sweepLoop at swept
    split at swept
    · rename_i nothing
      cases swept
      refine ⟨before, fun deadline entries found => ?_⟩
      have member := (b'.due.mem_entries deadline entries).mpr found
      rw [head?_eq_none_iff.mp nothing] at member
      cases member
    · rename_i deadline entries first
      split at swept
      · rename_i later
        cases swept
        exact ⟨before, fun other _ found => lt_of_lt_of_le later (first_le first found)⟩
      · exact ih (entries_rule entry (pop (get_of_first first) before)) swept

theorem sweep_config (swept : b.sweep now = some b') : b'.config = b.config :=
  (sweep_rule (I := fun c _ => c.config = b.config) (fun _ same => same)
    (fun same => (sweepEntry_config _).trans same) swept rfl).1

/-- A consume sweeps, and files the bucket again with a token less if it holds one. -/
theorem consume_cases (consumed : b.consume key now = some (allowed, b')) :
    ∃ c bucket, b.sweep now = some c ∧
      refill ((c.buckets.get key).getD ⟨c.config.capacity, now, 0⟩) c.config now = bucket ∧
      allowed = decide (0 < bucket.tokens) ∧
      b' = { c with buckets := c.buckets.remove key }.file key
        { bucket with tokens := bucket.tokens - 1 } := by
  obtain ⟨c, swept, rest⟩ := Option.bind_eq_some_iff.mp consumed
  refine ⟨c, _, swept, rfl, ?_⟩
  dsimp only at rest
  generalize refill _ c.config now = bucket at rest
  split at rest
  · rename_i nothing
    cases rest
    exact ⟨by simp [nothing], by rw [show bucket.tokens - 1 = bucket.tokens by omega]⟩
  · cases rest
    exact ⟨by simp; omega, rfl⟩

def tokensAt (b : TokenBuckets κ) (key : κ) (now : Nat) : Nat :=
  (b.buckets.get key).elim b.config.capacity fun bucket => (refill bucket b.config now).tokens

/-- A key without a bucket has been full until now. -/
def fullAt (b : TokenBuckets κ) (key : κ) (clock : Nat) : Nat :=
  (b.buckets.get key).elim clock (·.fullAt b.config)

/-- What holds of one key after it was `asked` for at these times with these answers. -/
structure Fair (key : κ) (clock : Nat) (b : TokenBuckets κ) (asked : List (Nat × Bool)) : Prop where
  sane : ∀ bucket, b.buckets.get key = some bucket → bucket.Sane b.config clock
  metered : Metered b.config.capacity b.config.refillIntervalMs clock (b.fullAt key clock) asked

variable {asked : List (Nat × Bool)}

theorem Fair.later (fair : Fair key clock b asked) (le : clock ≤ now) : Fair key now b asked := by
  have full : b.fullAt key clock ≤ b.fullAt key now ∧
      b.fullAt key now ≤ max now (b.fullAt key clock) := by
    unfold fullAt
    cases b.buckets.get key <;> simp only [Option.elim_none, Option.elim_some] <;> omega
  exact ⟨fun bucket held => ⟨(fair.sane bucket held).1, (fair.sane bucket held).2.trans le⟩,
    fair.metered.wait le full.1 full.2⟩

theorem Fair.of_get (fair : Fair key clock b asked) (same : b'.config = b.config)
    (get : b'.buckets.get key = b.buckets.get key) : Fair key clock b' asked := by
  obtain ⟨sane, metered⟩ := fair
  constructor <;> simpa only [fullAt, same, get]

section Clock

variable (fits : b.config.capacity ≤ u32Max) (early : now ≤ u64Max)
include fits early

section

variable (fair : Fair key now b asked)
include fair

theorem Fair.entry (entry : κ × Nat) : Fair key now (sweepEntry now b entry) asked ∧
      (sweepEntry now b entry).tokensAt key now = b.tokensAt key now := by
  unfold sweepEntry
  split
  · exact ⟨fair, rfl⟩
  · rename_i bucket found
    split
    · exact ⟨fair, rfl⟩
    · dsimp only
      rw [refill_generation]
      obtain ⟨generation, files⟩ :=
        b.refile_get entry.1 { refill bucket b.config now with generation := 0 }
      by_cases own : key = entry.1
      · subst own
        have refilled := refill_refilled b.valid fits (fair.sane bucket found) early
        have metered := fair.metered
        rw [fullAt, found] at metered
        split
        · refine ⟨⟨?_, ?_⟩, ?_⟩
          all_goals simp only [fullAt, tokensAt, files, if_pos, found, file_config,
            Option.elim_some]
          · rintro _ ⟨⟩
            exact ⟨refilled.sane.1, refilled.sane.2⟩
          · exact metered.wait (le_refl _) refilled.later (refilled.sooner)
          · rw [refill_generation, refill_fresh b.valid refilled.fresh]
        · rename_i full
          have ready : bucket.fullAt b.config ≤ now := refilled.later.trans (by
            rw [Bucket.fullAt, Nat.sub_eq_zero_of_le (Nat.le_of_not_lt full), Nat.zero_mul]
            exact refilled.sane.past)
          refine ⟨⟨?_, ?_⟩, ?_⟩
          all_goals simp only [fullAt, tokensAt, get_remove_self, found, Option.elim_some]
          · simp
          · exact metered.wait (le_refl _) ready (le_max_left ..)
          · exact (refilled.full ready).symm
      · split
        · have get := (files key).trans (if_neg own)
          exact ⟨fair.of_get (file_config ..) get, by simp only [tokensAt, get, file_config]⟩
        · have get := (b.buckets.get_remove entry.1 key).trans (if_neg own)
          exact ⟨fair.of_get rfl get, by simp only [tokensAt, get]⟩

theorem Fair.sweep (swept : b.sweep now = some b') :
    Fair key now b' asked ∧ b'.tokensAt key now = b.tokensAt key now :=
  (sweep_rule (I := fun c _ => c.config = b.config ∧ Fair key now c asked ∧
    c.tokensAt key now = b.tokensAt key now) (fun _ ⟨same, fair, tokens⟩ =>
      ⟨same, fair.of_get rfl rfl, tokens⟩)
    (fun ⟨same, fair, tokens⟩ => ⟨(sweepEntry_config _).trans same,
      (fair.entry (same ▸ fits) early _).imp_right (·.trans tokens)⟩)
    swept ⟨rfl, fair, rfl⟩).1.2

/-- The bucket a consume finds after its sweep, refilled. -/
theorem Fair.found (taken : refill ((b.buckets.get key).getD ⟨b.config.capacity, now, 0⟩) b.config
    now = bucket) :
    bucket.Sane b.config now ∧
      Metered b.config.capacity b.config.refillIntervalMs now (bucket.fullAt b.config) asked ∧
      now < bucket.lastRefillMs + b.config.refillIntervalMs ∧
      b.tokensAt key now = bucket.tokens := by
  have sane : ((b.buckets.get key).getD ⟨b.config.capacity, now, 0⟩).Sane b.config now := by
    cases held : b.buckets.get key with
    | none => exact ⟨le_refl _, le_refl _⟩
    | some bucket => exact fair.sane bucket held
  have refilled := refill_refilled b.valid fits sane early
  have metered := fair.metered
  rw [taken] at refilled
  unfold fullAt at metered
  unfold tokensAt
  cases held : b.buckets.get key with
  | none =>
    rw [held] at refilled taken metered
    have full : (⟨b.config.capacity, now, 0⟩ : Bucket).fullAt b.config = now := by
      simp [Bucket.fullAt]
    exact ⟨refilled.sane, metered.wait (le_refl _) (full ▸ refilled.later)
      (refilled.sooner.trans_eq (by rw [Option.getD_none, full]; rfl)), refilled.fresh,
      (refilled.full full.le).symm⟩
  | some _ =>
    rw [held] at refilled taken metered
    exact ⟨refilled.sane, metered.wait (le_refl _) refilled.later refilled.sooner, refilled.fresh,
      congrArg Bucket.tokens taken⟩

theorem Fair.ask (taken : refill ((b.buckets.get key).getD ⟨b.config.capacity, now, 0⟩)
    b.config now = bucket)
    (filed : b' = { b with buckets := b.buckets.remove key }.file key
      { bucket with tokens := bucket.tokens - 1 }) :
    Fair key now b' (asked ++ [(now, decide (0 < bucket.tokens))]) ∧
      b'.tokensAt key now = b.tokensAt key now - 1 := by
  obtain ⟨⟨low, past⟩, metered, fresh, tokens⟩ := fair.found fits early taken
  obtain ⟨generation, files⟩ := b.refile_get key { bucket with tokens := bucket.tokens - 1 }
  have same : b'.config = b.config := by rw [filed, file_config]
  have get : b'.buckets.get key =
      some { bucket with tokens := bucket.tokens - 1, generation } := by rw [filed,
        files, if_pos rfl]
  have fewer : (bucket.fullAt b.config + if decide (0 < bucket.tokens) then
      b.config.refillIntervalMs else 0) = b'.fullAt key now := by
    simp only [fullAt, get, same, Option.elim_some, Bucket.fullAt, decide_eq_true_eq]
    split
    · rw [Nat.add_assoc, ← Nat.succ_mul]
      congr 2
      omega
    · rw [Nat.add_zero, show bucket.tokens - 1 = bucket.tokens by omega]
  have most := Nat.mul_le_mul_right b.config.refillIntervalMs
    (Nat.sub_le b.config.capacity (bucket.tokens - 1))
  refine ⟨⟨?_, ?_⟩, ?_⟩
  · rw [get, same]
    rintro _ ⟨⟩
    exact ⟨by dsimp only; omega, past⟩
  · rw [same]
    apply metered.ask b.valid.interval (fresh.trans_le (Nat.add_le_add_right
      (Nat.le_add_right ..) _))
      fewer.le
    simp only [fullAt, get, same, Option.elim_some, Bucket.fullAt]
    omega
  · rw [tokens]
    simp only [tokensAt, get, same, Option.elim_some]
    rw [refill_fresh b.valid (by exact fresh)]

end

end Clock

def nextRefill (b : TokenBuckets κ) (bucket : Bucket) : Nat :=
  saturatingAdd bucket.lastRefillMs b.config.refillIntervalMs

/-- How often an entry is to be on the schedule. -/
def expected (b : TokenBuckets κ) (key : κ) (deadline generation : Nat) : Nat :=
  (b.buckets.get key).elim 0 fun bucket =>
    if deadline = b.nextRefill bucket ∧ deadline ≠ u64Max ∧ generation = bucket.generation then 1
    else 0

def filed (b : TokenBuckets κ) (key : κ) (deadline generation : Nat) : Nat :=
  ((b.due.get deadline).getD []).count (key, generation)

/-- The schedule is as expected, with the entries of the `due` time that are still `todo`. -/
structure Scheduled (due : Nat) (b : TokenBuckets κ) (todo : List (κ × Nat)) : Prop where
  each : ∀ key deadline generation, b.filed key deadline generation +
    (if deadline = due then todo.count (key, generation) else 0) =
      b.expected key deadline generation
  stamped : ∀ key bucket, b.buckets.get key = some bucket →
    (bucket.generation = 0 ↔ b.nextRefill bucket = u64Max)
  short : ∀ key bucket, b.buckets.get key = some bucket → bucket.tokens < b.config.capacity
  next : 0 < b.nextGeneration

variable {due : Nat}

/-- A bucket taken out whose entry is off the schedule, or that never had one. -/
theorem Scheduled.file (scheduled : Scheduled due b todo) (nothing : b.buckets.get key = none)
    (short : bucket.tokens < b.config.capacity) (zero : bucket.generation = 0) :
    Scheduled due (b.file key bucket) todo := by
  obtain ⟨each, stamped, shorts, next⟩ := scheduled
  unfold TokenBuckets.file schedule
  rw [if_neg (not_not_intro zero)]
  dsimp only
  split
  · constructor
    · intro other deadline generation
      have := each other deadline generation
      simp only [expected, filed, nextRefill, get_insert] at this ⊢
      split <;> grind
    · grind [nextRefill]
    · grind
    · exact next
  · constructor
    · intro other deadline generation
      have := each other deadline generation
      simp only [expected, filed, nextRefill, get_insert] at this ⊢
      split
      · grind
      · grind
    · grind [nextRefill]
    · grind
    · exact Nat.lt_of_lt_of_le Nat.zero_lt_one (Nat.le_max_right ..)

theorem Scheduled.pop {entries : List (κ × Nat)} (found : b.due.get due = some entries)
    (scheduled : Scheduled clock b []) :
    Scheduled due { b with due := b.due.remove due } entries := by
  obtain ⟨each, stamped, short, next⟩ := scheduled
  refine ⟨fun key deadline generation => ?_, stamped, short, next⟩
  have := each key deadline generation
  simp only [count_nil, ite_self, Nat.add_zero, filed] at this ⊢
  refine Eq.trans ?_ this
  rw [get_remove]
  split
  · rename_i same
    rw [same, found, Option.getD_none, count_nil, Nat.zero_add, Option.getD_some]
  · rfl

theorem Scheduled.entry {entry : κ × Nat} (scheduled : Scheduled due b (entry :: todo)) :
    Scheduled due (sweepEntry now b entry) todo := by
  obtain ⟨each, stamped, short, next⟩ := scheduled
  have own := each entry.1 due entry.2
  rw [if_pos rfl, count_cons_self] at own
  unfold sweepEntry
  cases held : b.buckets.get entry.1 with
  | none =>
    rw [expected, held, Option.elim_none] at own
    omega
  | some bucket =>
    simp only [expected, held, Option.elim_some] at own
    split at own
    · rename_i on_time
      dsimp only
      rw [if_neg (not_not_intro on_time.2.2.symm)]
      have out : Scheduled due { b with buckets := b.buckets.remove entry.1 } todo := by
        refine ⟨fun key deadline generation => ?_, ?_, ?_, next⟩
        · have := each key deadline generation
          simp only [expected, filed, nextRefill, get_remove, count_cons] at this own on_time ⊢
          grind
        · grind [nextRefill]
        · grind
      split
      · rename_i low
        exact out.file (get_remove_self ..) low (by rw [refill_generation])
      · exact out
    · omega

/-- A bucket put back with as many entries on the schedule as before. -/
theorem Scheduled.put {old : Bucket} (scheduled : Scheduled due b todo)
    (held : b.buckets.get key = some old) (short : bucket.tokens < b.config.capacity)
    (same : bucket.generation = old.generation) (due' : b.nextRefill bucket = b.nextRefill old) :
    Scheduled due ({ b with buckets := b.buckets.remove key }.file key bucket) todo := by
  obtain ⟨each, stamped, shorts, next⟩ := scheduled
  have put : { b with buckets := b.buckets.remove key }.schedule key bucket =
      ({ b with buckets := b.buckets.remove key }, bucket) := by
    unfold schedule
    split
    · rfl
    · exact if_pos (by grind [nextRefill])
  unfold TokenBuckets.file
  rw [put]
  refine ⟨fun other deadline generation => ?_, ?_, ?_, next⟩
  · have := each other deadline generation
    simp only [expected, filed, nextRefill, get_insert, get_remove] at this due' ⊢
    grind
  · grind [nextRefill]
  · grind

theorem Scheduled.sweep (scheduled : Scheduled due b []) (swept : b.sweep now = some b') :
    Scheduled due b' [] ∧ ∀ deadline entries, b'.due.get deadline = some entries →
      now < deadline := by
  obtain ⟨⟨_, kept⟩, later⟩ := sweep_rule (I := fun b todo => ∃ due, Scheduled due b todo)
    (fun found kept => ⟨_, .pop found kept.choose_spec⟩)
    (fun kept => ⟨_, kept.choose_spec.entry⟩) swept ⟨due, scheduled⟩
  exact ⟨{ kept with each := by simpa using kept.each }, later⟩

theorem Scheduled.consume (scheduled : Scheduled due b [])
    (consumed : b.consume key now = some (allowed, b')) : Scheduled due b' [] := by
  obtain ⟨c, bucket, swept, refilled, -, rfl⟩ := consume_cases consumed
  obtain ⟨scheduled, later⟩ := scheduled.sweep swept
  have capacity := c.valid.capacity
  cases held : c.buckets.get key with
  | none =>
    rw [held, Option.getD_none, refill_fresh c.valid
      (Nat.lt_add_of_pos_right c.valid.interval)] at refilled
    subst refilled
    have out : Scheduled due { c with buckets := c.buckets.remove key } [] := by
      rwa [show c.buckets.remove key = c.buckets by apply BTreeMap.ext_get; grind]
    exact out.file (get_remove_self ..) (by dsimp only; omega) rfl
  | some old =>
    rw [held, Option.getD_some] at refilled
    -- a bucket on the schedule has nothing to refill yet, and one off it stays off
    have fresh (early : c.nextRefill old ≠ u64Max) : bucket = old := by
      have each := scheduled.each key (c.nextRefill old) old.generation
      simp only [expected, held, filed, Option.elim_some, early, ne_eq, not_false_eq_true, and_self,
        if_true, count_nil, ite_self, Nat.add_zero] at each
      cases found : c.due.get (c.nextRefill old) with
      | none => simp [found] at each
      | some entries =>
        have ahead := later _ _ found
        rw [← refilled]
        exact refill_fresh c.valid (by unfold nextRefill saturatingAdd at ahead; omega)
    have short := scheduled.short key old held
    unfold refill at refilled
    dsimp only at refilled
    apply scheduled.put held
    · dsimp only
      split at refilled <;> subst refilled
      · omega
      · dsimp only
        omega
    · split at refilled <;> subst refilled <;> rfl
    · by_cases late : c.nextRefill old = u64Max
      · unfold nextRefill saturatingAdd at late ⊢
        unfold saturatingAdd at refilled
        split at refilled <;> subst refilled
        · rfl
        · dsimp only
          omega
      · rw [fresh late]
        rfl

/-- The states of the token buckets, with the consumes so far: key, time and answer. -/
inductive Runs (config : RateLimit) (valid : config.Valid) :
    Nat → TokenBuckets κ → List (κ × Nat × Bool) → Prop
  | new : Runs config valid 0 (new config valid) []
  | sweep {clock now b b' log} (runs : Runs config valid clock b log) (le : clock ≤ now)
    (early : now ≤ u64Max) (swept : b.sweep now = some b') : Runs config valid now b' log
  | consume {clock now b b' log key allowed} (runs : Runs config valid clock b log)
    (le : clock ≤ now) (early : now ≤ u64Max) (consumed : b.consume key now = some (allowed, b')) :
    Runs config valid now b' (log ++ [(key, now, allowed)])

def askedFor (key : κ) (log : List (κ × Nat × Bool)) : List (Nat × Bool) :=
  (log.filter (·.1 = key)).map (·.2)

variable {log : List (κ × Nat × Bool)} {valid : config.Valid}

theorem Fair.consume {other : κ} (fair : Fair key clock b (askedFor key log))
    (fits : b.config.capacity ≤ u32Max) (early : now ≤ u64Max) (le : clock ≤ now)
    (consumed : b.consume other now = some (allowed, b')) :
    Fair key now b' (askedFor key (log ++ [(other, now, allowed)])) ∧ b'.config = b.config ∧
      (key = other → allowed = decide (0 < b.tokensAt key now) ∧
        b'.tokensAt key now = b.tokensAt key now - 1) := by
  obtain ⟨c, bucket, swept, taken, answer, filed⟩ := consume_cases consumed
  have same := sweep_config swept
  obtain ⟨fair, tokens⟩ := (fair.later le).sweep fits early swept
  have configs : b'.config = b.config := by rw [filed, file_config, same]
  simp only [askedFor, filter_append, map_append] at fair ⊢
  by_cases own : other = key
  · subst own
    obtain ⟨asked, left⟩ := fair.ask (same ▸ fits) early taken filed
    have held := (fair.found (same ▸ fits) early taken).2.2.2
    refine ⟨by simpa [answer] using asked, configs, fun _ => ?_⟩
    rw [answer, left, ← tokens, held]
    exact ⟨rfl, rfl⟩
  · refine ⟨?_, configs, fun eq => absurd eq.symm own⟩
    obtain ⟨_, files⟩ := c.refile_get other { bucket with tokens := bucket.tokens - 1 }
    have same : b'.config = c.config := by rw [filed, file_config]
    simpa [own] using fair.of_get same (by rw [filed, files, if_neg (Ne.symm own)])

theorem Runs.kept (fits : config.capacity ≤ u32Max) (runs : Runs config valid clock b log) :
    b.config = config ∧ Scheduled 0 b [] ∧ ∀ key, Fair key clock b (askedFor key log) := by
  induction runs with
  | new =>
    refine ⟨rfl, ⟨fun _ _ _ => by simp [filed, expected, TokenBuckets.new], by
      simp [TokenBuckets.new], by simp [TokenBuckets.new], Nat.one_pos⟩, fun key => ?_⟩
    exact ⟨by simp [TokenBuckets.new], by simp [askedFor, granted], fun _ _ => Nat.zero_le _,
      fun _ _ => Nat.zero_le _⟩
  | sweep _ le early swept ih =>
    obtain ⟨rfl, scheduled, fair⟩ := ih
    exact ⟨sweep_config swept, (scheduled.sweep swept).1, fun key =>
      (((fair key).later le).sweep fits early swept).1⟩
  | @consume _ _ _ _ _ key _ _ le early consumed ih =>
    obtain ⟨rfl, scheduled, fair⟩ := ih
    exact ⟨((fair key).consume fits early le consumed).2.1, scheduled.consume consumed,
      fun other => ((fair other).consume fits early le consumed).1⟩

/-- The entry of a bucket that would be due at the end of time is never made; every other bucket has
one. Calls that a run does not make take nothing from the bound, sweeps among them. -/
theorem runs_limited (fits : config.capacity ≤ u32Max) (runs : Runs config valid clock b log) :
    (∀ key start length,
      log.countP (fun a => a.1 = key ∧ start ≤ a.2.1 ∧ a.2.1 ≤ start + length ∧ a.2.2) ≤
        config.capacity + length / config.refillIntervalMs + 1) ∧
    (∀ key deadline generation,
      b.filed key deadline generation = b.expected key deadline generation) ∧
    (∀ key bucket, b.buckets.get key = some bucket → bucket.tokens < config.capacity) ∧
    ∀ now, clock ≤ now → now ≤ u64Max →
      (∀ key, (∀ a ∈ log, a.1 = key →
        a.2.1 + config.capacity * config.refillIntervalMs ≤ now) →
          b.tokensAt key now = config.capacity) ∧
      (∀ key, ∃ b', b.consume key now = some (decide (0 < b.tokensAt key now), b') ∧
        b'.tokensAt key now = b.tokensAt key now - 1) ∧
      ∃ b', b.sweep now = some b' ∧
        ∀ deadline entries, b'.due.get deadline = some entries → now < deadline := by
  obtain ⟨rfl, scheduled, fair⟩ := runs.kept fits
  refine ⟨fun key start length => ?_, fun key deadline generation => ?_, scheduled.short,
    fun now le early => ⟨fun key rested => ?_, fun key => ?_, ?_⟩⟩
  · have := (fair key).metered.bounded start length
    rw [askedFor, countP_map, countP_filter] at this
    convert this using 3
    simp only [Function.comp_apply, ← Bool.decide_and, and_comm (b := _ = key)]
  · simpa using scheduled.each key deadline generation
  · have soon := (fair key).metered.rested now fun a asked => by
      obtain ⟨call, found, rfl⟩ := mem_map.mp asked
      obtain ⟨found, own⟩ := mem_filter.mp found
      exact rested call found (of_decide_eq_true own)
    unfold tokensAt
    unfold fullAt at soon
    cases held : b.buckets.get key with
    | none => rfl
    | some bucket =>
      have sane := (fair key).sane bucket held
      rw [held, Nat.max_eq_right le] at soon
      exact (refill_refilled b.valid fits ⟨sane.low, sane.past.trans le⟩ early).full soon
  · obtain ⟨_, b', consumed⟩ := b.consume_returns key now
    obtain ⟨rfl, left⟩ := ((fair key).consume fits early le consumed).2.2 rfl
    exact ⟨b', consumed, left⟩
  · obtain ⟨b', swept⟩ := b.sweep_returns now
    exact ⟨b', swept, (scheduled.sweep swept).2⟩

theorem runs_limited_once : ∃ b : TokenBuckets Nat,
    (new ⟨1, 10⟩ ⟨by decide, by decide⟩).consume 7 5 = some (true, b) ∧
      b.tokensAt 7 15 = 1 ∧ b.filed 7 15 1 = b.expected 7 15 1 := by
  obtain ⟨b, consumed⟩ : ∃ b : TokenBuckets Nat,
    (new ⟨1, 10⟩ ⟨by decide, by decide⟩).consume 7 5 = some (true, b) := ⟨_, rfl⟩
  have limited := runs_limited (by decide) (.consume .new (Nat.zero_le 5) (by decide) consumed)
  exact ⟨b, consumed, (limited.2.2.2 15 (by decide) (by decide)).1 7 (by decide),
    limited.2.1 7 15 1⟩

/-- A bucket that is not full and has no entry for a sweep to keep. -/
theorem late_bucket_unscheduled : ∃ (b : TokenBuckets Nat) (log : List (Nat × Nat × Bool)),
    Runs ⟨1, 10⟩ ⟨by decide, by decide⟩ u64Max b log ∧
      (b.buckets.get 7).map (·.tokens) = some 0 ∧ b.due.first = none :=
  ⟨⟨⟨1, 10⟩, ⟨by decide, by decide⟩, BTreeMap.empty.insert 7 ⟨0, u64Max, 0⟩, .empty, 1⟩,
    [(7, u64Max, true)], .sweep (.consume .new (Nat.zero_le _) (le_refl _) rfl) (le_refl _)
      (le_refl _) rfl, rfl, rfl⟩

end TokenBuckets

end RelayServer
