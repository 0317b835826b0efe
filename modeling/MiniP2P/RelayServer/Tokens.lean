import MiniP2P.RelayServer.Calls

/-! Tokens. Until the counter comes round, a token names one operation and one action, and
an action leaves the queue only when the host takes it or its operation is cancelled. -/
namespace RelayServer
open Collections Core Identity Relay List BTreeMap

variable {s t : Agent} {marks : List Mark}

namespace Agent

def maxTokens : Nat := 2 ^ 64

/-- What a step does to the queue of actions and to the operations. -/
inductive Filing (s t : Agent) (marks : List Mark) : Prop where
  | same : t.nextToken = s.nextToken → t.actions = s.actions →
      (∀ token op, t.pendingOperations.get token = some op →
        s.pendingOperations.get token = some op) → Filing s t marks
  | taken {action : RelayServerAction}
      {forward : Option (StreamKey × CircuitDirection × List UInt8)} :
      marks = [.taken action forward] → t.nextToken = s.nextToken →
      s.actions = action :: t.actions → t.pendingOperations = s.pendingOperations →
      Filing s t marks
  | cancelled (p : PendingOperation → Bool) {key : StreamKey} :
      (p = isHopOp key ∧ t.hopWorkers.get key = none) ∨ p = isControlOp key ∨ p = isForwardOp key →
      t.nextToken = s.nextToken → t.actions = (s.cancelWhere p).actions →
      t.pendingOperations = (s.cancelWhere p).pendingOperations → Filing s t marks
  | enqueued {op : PendingOperation} {action : RelayServerAction} :
      t.nextToken = s.token.2 → t.actions = s.actions ++ [action] →
      t.pendingOperations = s.pendingOperations.insert s.token.1 op → action.token = s.token.1 →
      op.suits action → Filing s t marks
  | launched {u : Agent}
    (posts : List (PendingOperation × (RelayServerToken → RelayServerAction))) :
      (∀ post ∈ posts, ∀ token, (post.2 token).token = token ∧ post.1.suits (post.2 token)) →
      t.nextToken = (u.enqueueAll posts).nextToken → t.actions = (u.enqueueAll posts).actions →
      t.pendingOperations = (u.enqueueAll posts).pendingOperations →
      u.nextToken = s.nextToken → u.actions = s.actions →
      (∀ token op, u.pendingOperations.get token = some op →
        s.pendingOperations.get token = some op) → Filing s t marks

theorem PendingCircuit.posts_suit {c : PendingCircuit} {key stream : StreamKey} :
    ∀ post ∈ c.posts key stream, ∀ token,
      (post.2 token).token = token ∧ post.1.suits (post.2 token) := by
  intro post member token
  rcases RelayServer.PendingCircuit.mem_posts member with ⟨_, _, _, _, rfl⟩ | ⟨_, _, _, rfl⟩
  · exact ⟨rfl, rfl⟩
  · exact ⟨rfl, rfl⟩

theorem Step.filing (step : Step s marks t) : Filing s t marks := by
  cases step with
  | reserved | completed | resolved | paid | linked =>
    exact .same rfl rfl (fun _ _ => operation_take)
  | posted _ suits => exact .enqueued rfl rfl rfl (suits _).1 (suits _).2
  | dismissed => exact .cancelled _ (.inl ⟨rfl, get_remove_self ..⟩) rfl rfl rfl
  | deserted | dropped => exact .cancelled _ (.inr (.inl rfl)) rfl rfl rfl
  | closed => exact .cancelled _ (.inr (.inr rfl)) rfl rfl rfl
  | replied _ _ reply =>
    cases reply with
    | status | closeWrite => exact .enqueued rfl rfl rfl rfl rfl
    | reset => exact .enqueued rfl rfl rfl rfl trivial
  | promised | stopAccepted | bridged | eof => exact .enqueued rfl rfl rfl rfl rfl
  | asked => exact .enqueued rfl rfl rfl rfl trivial
  | @committed token _ key stream circuit now _ before known =>
    obtain ⟨deadlineMs, launch⟩ := committed_eq token now before known
    rw [launch]
    exact .launched (circuit.posts key stream) PendingCircuit.posts_suit rfl rfl rfl rfl rfl
      (fun _ _ => operation_take)
  | taken queue => exact .taken rfl rfl queue rfl
  | arrived arrival =>
    cases arrival with
    | source | destination => exact .enqueued rfl rfl rfl rfl rfl
    | _ => exact .same rfl rfl (fun _ _ => id)
  | _ => exact .same rfl rfl (fun _ _ => id)

/-! ### Drawing -/

theorem nextToken_lt_token (s : Agent) : s.nextToken < s.token.2 := by
  unfold token
  split <;> simp

theorem token_eq (positive : 0 < s.nextToken) (room : s.nextToken < maxTokens) :
    s.token = (s.nextToken, s.nextToken + 1) := by
  have small : s.nextToken % 2 ^ 64 = s.nextToken := Nat.mod_eq_of_lt room
  unfold token
  rw [small, if_neg (by omega)]

theorem nextToken_le_enqueueAll (s : Agent)
    (posts : List (PendingOperation × (RelayServerToken → RelayServerAction))) :
    s.nextToken ≤ (s.enqueueAll posts).nextToken := by
  induction posts generalizing s with
  | nil => exact Nat.le_refl _
  | cons post posts ih =>
    exact (Nat.le_of_lt s.nextToken_lt_token).trans (ih (s.enqueue post.1 post.2))

theorem Filing.nextToken_le (filing : Filing s t marks) : s.nextToken ≤ t.nextToken := by
  cases filing with
  | same next | taken _ next | cancelled _ _ next => exact Nat.le_of_eq next.symm
  | enqueued next => exact next ▸ Nat.le_of_lt s.nextToken_lt_token
  | launched posts _ next _ _ before =>
    rw [next, ← before]
    exact nextToken_le_enqueueAll ..

theorem Step.nextToken_le (step : Step s marks t) :
    s.nextToken ≤ t.nextToken := step.filing.nextToken_le

theorem Trace.nextToken_le (run : Transition.Trace Step s marks t) : s.nextToken ≤ t.nextToken := by
  induction run with
  | nil => exact Nat.le_refl _
  | cons step _ ih => exact step.nextToken_le.trans ih

theorem Does.nextToken_le {P : Mark → Prop} (does : Does P s t) : s.nextToken ≤ t.nextToken := by
  obtain ⟨_, run, _⟩ := does
  exact Trace.nextToken_le run

/-! ### The files -/

/-- What is queued and filed carries tokens that have been drawn, and a queued action is the
one of the operation that is filed under its token. -/
structure Filed (s : Agent) : Prop where
  positive : 0 < s.nextToken
  queued : ∀ action ∈ s.actions, action.token < s.nextToken
  filed : ∀ token op, s.pendingOperations.get token = some op → token < s.nextToken
  suits : ∀ action ∈ s.actions, ∀ op, s.pendingOperations.get action.token = some op →
    op.suits action

theorem Filed.fewer (filed : s.Filed) (next : t.nextToken = s.nextToken)
    (actions : ∀ action ∈ t.actions, action ∈ s.actions)
    (operations : ∀ token op, t.pendingOperations.get token = some op →
      s.pendingOperations.get token = some op) : t.Filed := by
  refine ⟨next ▸ filed.positive, fun action member => ?_, fun token op found => ?_,
    fun action member op found => ?_⟩
  · exact next ▸ filed.queued action (actions action member)
  · exact next ▸ filed.filed token op (operations token op found)
  · exact filed.suits action (actions action member) op (operations _ op found)

variable {posts : List (PendingOperation × (RelayServerToken → RelayServerAction))}
  {action : RelayServerAction} {token : RelayServerToken} {op : PendingOperation}

theorem Filed.enqueued (filed : s.Filed) (room : t.nextToken ≤ maxTokens)
    (next : t.nextToken = s.token.2)
    (actions : t.actions = s.actions ++ [action])
    (operations : t.pendingOperations = s.pendingOperations.insert s.token.1 op)
    (token : action.token = s.token.1) (suits : op.suits action) : t.Filed := by
  have later := s.nextToken_lt_token
  have drawn : s.token = (s.nextToken, s.nextToken + 1) := token_eq filed.positive (by omega)
  rw [drawn] at next operations token
  refine ⟨next ▸ Nat.succ_pos _, fun other member => ?_, fun token' other found => ?_,
    fun other member op' found => ?_⟩
  · rw [actions] at member
    rw [next]
    rcases mem_append.mp member with old | new
    · exact Nat.lt_succ_of_lt (filed.queued other old)
    · cases mem_singleton.mp new
      exact token ▸ Nat.lt_succ_self _
  · rw [operations, get_insert] at found
    rw [next]
    split at found
    · rename_i here
      exact here ▸ Nat.lt_succ_self _
    · exact Nat.lt_succ_of_lt (filed.filed token' other found)
  · rw [operations, get_insert] at found
    rw [actions] at member
    rcases mem_append.mp member with old | new
    · have apart : other.token ≠ s.nextToken := Nat.ne_of_lt (filed.queued other old)
      rw [if_neg apart] at found
      exact filed.suits other old op' found
    · cases mem_singleton.mp new
      rw [if_pos token] at found
      cases found
      exact suits

theorem Filed.enqueueAll (filed : s.Filed)
    (room : (s.enqueueAll posts).nextToken ≤ maxTokens)
    (suits : ∀ post ∈ posts, ∀ token, (post.2 token).token = token ∧ post.1.suits (post.2 token)) :
    (s.enqueueAll posts).Filed := by
  induction posts generalizing s with
  | nil => exact filed
  | cons post posts ih =>
    have here := suits post mem_cons_self s.token.1
    have below := nextToken_le_enqueueAll (s.enqueue post.1 post.2) posts
    exact ih (filed.enqueued (below.trans room) rfl rfl rfl here.1 here.2) room
      (fun other member => suits other (mem_cons_of_mem _ member))

theorem Filed.step (filed : s.Filed) (step : Step s marks t) (room : t.nextToken ≤ maxTokens) :
    t.Filed := by
  cases step.filing with
  | same next actions operations =>
    exact filed.fewer next (fun _ member => actions ▸ member) operations
  | taken _ next queue operations =>
    refine filed.fewer next (fun action member => ?_) (fun _ _ found => operations ▸ found)
    rw [queue]
    exact mem_cons_of_mem _ member
  | cancelled p _ next actions operations =>
    refine filed.fewer next (fun action member => ?_) (fun token op found => ?_)
    · rw [actions] at member
      exact (mem_filter.mp member).1
    · rw [operations] at found
      exact (operation_cancelWhere found).1
  | enqueued next actions operations token suits =>
    exact filed.enqueued room next actions operations token suits
  | @launched u posts suits next actions operations before queue fewer =>
    have filed : u.Filed := filed.fewer before (fun _ member => queue ▸ member) fewer
    have all := filed.enqueueAll (next ▸ room) suits
    exact all.fewer next (fun _ member => actions ▸ member) (fun _ _ found => operations ▸ found)

theorem operation_enqueueAll_old (filed : s.Filed)
    (room : (s.enqueueAll posts).nextToken ≤ maxTokens)
    (suits : ∀ post ∈ posts, ∀ token, (post.2 token).token = token ∧ post.1.suits (post.2 token))
    (drawn : token < s.nextToken) :
    (s.enqueueAll posts).pendingOperations.get token = s.pendingOperations.get token := by
  induction posts generalizing s with
  | nil => rfl
  | cons post posts ih =>
    have here := suits post mem_cons_self s.token.1
    have below := nextToken_le_enqueueAll (s.enqueue post.1 post.2) posts
    have later := s.nextToken_lt_token
    have fits : s.nextToken < maxTokens := Nat.lt_of_lt_of_le later (below.trans room)
    have filed' : (s.enqueue post.1 post.2).Filed :=
      filed.enqueued (below.trans room) rfl rfl rfl here.1 here.2
    refine (ih filed' room (fun other member => suits other (mem_cons_of_mem _ member))
      (Nat.lt_trans drawn later)).trans ?_
    have apart : token ≠ s.token.1 := by
      rw [token_eq filed.positive fits]
      exact Nat.ne_of_lt drawn
    exact (get_insert ..).trans (if_neg apart)

theorem Step.operation_old (step : Step s marks t) (filed : s.Filed)
    (room : t.nextToken ≤ maxTokens) (drawn : token < s.nextToken)
    (found : t.pendingOperations.get token = some op) :
    s.pendingOperations.get token = some op := by
  cases step.filing with
  | same _ _ operations => exact operations token op found
  | taken _ _ _ operations => exact operations ▸ found
  | cancelled _ _ _ _ operations =>
    rw [operations] at found
    exact (operation_cancelWhere found).1
  | enqueued next _ operations =>
    have fits : s.nextToken < maxTokens :=
      Nat.lt_of_lt_of_le s.nextToken_lt_token (next ▸ room)
    rw [operations, token_eq filed.positive fits, get_insert,
      if_neg (Nat.ne_of_lt drawn)] at found
    exact found
  | @launched u posts suits next _ operations before queue fewer =>
    have filed : u.Filed := filed.fewer before (fun _ member => queue ▸ member) fewer
    rw [operations, operation_enqueueAll_old filed (next ▸ room) suits (before ▸ drawn)] at found
    exact fewer token op found

/-! ### What is queued under a token -/

def lastUnder (token : RelayServerToken) (actions : List RelayServerAction) :
    Option RelayServerAction :=
  actions.reverse.find? (·.token = token)

theorem lastUnder_concat (actions : List RelayServerAction) :
    lastUnder token (actions ++ [action]) =
    if action.token = token then some action else lastUnder token actions := by
  simp [lastUnder, find?_cons]
  split <;> simp_all

theorem lastUnder_filter {p : RelayServerAction → Bool} (taken actions : List RelayServerAction)
    (kept : ∀ action : RelayServerAction, action.token = token → p action = true) :
    lastUnder token (taken ++ actions.filter p) = lastUnder token (taken ++ actions) := by
  have same (action : RelayServerAction) : p action = true ∧ action.token = token ↔
      action.token = token :=
    and_iff_right_of_imp (kept action)
  simp only [lastUnder, reverse_append, ← filter_reverse, find?_append, find?_filter,
    decide_eq_true_eq, same]

/-- The operation on file under a token is the one of the action last queued under it. -/
def Posted (taken : List RelayServerAction) (s : Agent) : Prop :=
  ∀ token op, s.pendingOperations.get token = some op →
    ∃ action, lastUnder token (taken ++ s.actions) = some action ∧ op.suits action

variable {taken : List RelayServerAction}

theorem Posted.fewer (posted : Posted taken s) (actions : t.actions = s.actions)
    (operations : ∀ token op, t.pendingOperations.get token = some op →
      s.pendingOperations.get token = some op) : Posted taken t := by
  intro token op found
  rw [actions]
  exact posted token op (operations token op found)

theorem Posted.enqueued (posted : Posted taken s) (actions : t.actions = s.actions ++ [action])
    (operations : t.pendingOperations = s.pendingOperations.insert s.token.1 op)
    (token : action.token = s.token.1) (suits : op.suits action) : Posted taken t := by
  intro other op' found
  rw [operations, get_insert] at found
  rw [actions, ← append_assoc, lastUnder_concat, token]
  split at found
  · rename_i here
    cases found
    exact ⟨action, if_pos here.symm, suits⟩
  · rename_i away
    rw [if_neg (Ne.symm away)]
    exact posted other op' found

theorem Posted.enqueueAll (posted : Posted taken s)
    (suits : ∀ post ∈ posts, ∀ token, (post.2 token).token = token ∧ post.1.suits (post.2 token)) :
    Posted taken (s.enqueueAll posts) := by
  induction posts generalizing s with
  | nil => exact posted
  | cons post posts ih =>
    have here := suits post mem_cons_self s.token.1
    exact ih (posted.enqueued rfl rfl here.1 here.2)
      (fun other member => suits other (mem_cons_of_mem _ member))

theorem unseen_takes (unseen : ∀ mark ∈ marks, mark.outer = false) :
    marks.filterMap Mark.takes = [] :=
  filterMap_eq_nil_iff.mpr fun mark member => by
    cases mark with
    | taken => cases unseen _ member
    | _ => rfl

/-- The host takes an action from the head of the queue. -/
theorem Step.takes (step : Step s marks t) : marks.filterMap Mark.takes = [] ∨
    ∃ action, marks.filterMap Mark.takes = [action] ∧ s.actions = action :: t.actions ∧
      t.pendingOperations = s.pendingOperations := by
  cases step with
  | taken queue => exact .inr ⟨_, rfl, queue, rfl⟩
  | replied _ _ reply => cases reply with | _ => exact .inl rfl
  | arrived arrival => cases arrival with | _ => exact .inl rfl
  | _ => exact .inl rfl

theorem Posted.step (posted : Posted taken s) (step : Step s marks t) :
    Posted (taken ++ marks.filterMap Mark.takes) t := by
  obtain silent | ⟨action, takes, queue, operations⟩ := step.takes
  · rw [silent, append_nil]
    cases step.filing with
    | same _ actions operations => exact posted.fewer actions operations
    | taken marked => rw [marked] at silent; cases silent
    | cancelled p _ _ actions operations =>
      intro token op found
      rw [operations] at found
      obtain ⟨before, spared⟩ := operation_cancelWhere found
      obtain ⟨action, last, suits⟩ := posted token op before
      refine ⟨action, ?_, suits⟩
      rw [actions, ← last]
      refine lastUnder_filter taken s.actions fun action under => ?_
      simp [under, mem_keysWhere, before, spared]
    | enqueued _ actions operations token suits =>
      exact posted.enqueued actions operations token suits
    | launched posts suits _ actions operations _ queue fewer =>
      have all := (posted.fewer queue fewer).enqueueAll suits
      exact all.fewer actions fun _ _ found => operations ▸ found
  · intro token op found
    rw [takes, append_assoc, singleton_append, ← queue]
    exact posted token op (operations ▸ found)

theorem Posted.trace (posted : Posted taken s) (run : Transition.Trace Step s marks t) :
    Posted (taken ++ marks.filterMap Mark.takes) t := by
  induction run generalizing taken with
  | nil => simpa using posted
  | cons step _ ih =>
    rw [filterMap_append, ← append_assoc]
    exact ih (posted.step step)

/-! ### How an action leaves the queue -/

theorem mem_enqueueAll (member : action ∈ s.actions)
    (posts : List (PendingOperation × (RelayServerToken → RelayServerAction))) :
    action ∈ (s.enqueueAll posts).actions := by
  induction posts generalizing s with
  | nil => exact member
  | cons post posts ih => exact ih (mem_append_left _ member)

inductive Cancels (t : Agent) (op : PendingOperation) : Prop where
  | hop {key : StreamKey} : isHopOp key op = true → t.hopWorkers.get key = none → Cancels t op
  | control {key : StreamKey} : isControlOp key op = true → Cancels t op
  | forward {key : StreamKey} : isForwardOp key op = true → Cancels t op

theorem Step.leaves {s t : Agent} {marks : List Mark} (step : Step s marks t)
    (member : action ∈ s.actions) :
    action ∈ t.actions ∨ (∃ forward, .taken action forward ∈ marks) ∨
      ∃ op, s.pendingOperations.get action.token = some op ∧ Cancels t op := by
  cases step.filing with
  | same _ actions => exact .inl (actions ▸ member)
  | enqueued _ actions => exact .inl (actions ▸ mem_append_left _ member)
  | launched posts _ _ actions _ _ queue =>
    rw [actions]
    exact .inl (mem_enqueueAll (queue ▸ member) posts)
  | @taken first forward marks _ queue =>
    rw [queue] at member
    rcases mem_cons.mp member with rfl | later
    · exact .inr (.inl ⟨forward, by simp [marks]⟩)
    · exact .inl later
  | @cancelled p key why _ actions =>
    by_cases listed : action.token ∈ s.pendingOperations.keysWhere (fun _ op => p op)
    · obtain ⟨op, filed, chosen⟩ := mem_keysWhere.mp listed
      refine .inr (.inr ⟨op, filed, ?_⟩)
      rcases why with ⟨rfl, gone⟩ | rfl | rfl
      · exact .hop chosen gone
      · exact .control chosen
      · exact .forward chosen
    · rw [actions]
      exact .inl (mem_filter.mpr ⟨member, by simpa using listed⟩)

end Agent

end RelayServer
