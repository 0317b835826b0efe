import Mathlib.Data.List.Perm.Basic
import MiniP2P.Core.MultiaddrKind
import MiniP2P.Transport.Types

/-! Several transports behind one. Here a member is what it claims, which no other member does; what
its own poll returns, if it is polled, is given with each poll of the set. -/
namespace Transport
open Core List

abbrev ConnectionNamespace := UInt8

def namespaceOf (id : ConnectionId) : ConnectionNamespace := .ofNat (id / 2 ^ 56)

structure Member where
  kind : TransportKind
  namespaces : List ConnectionNamespace

inductive TransportSetError where
  | duplicateKind (kind : TransportKind)
  | duplicateNamespace (claimed : ConnectionNamespace)
  | noNamespace

abbrev Polled := Except TransportError (List TransportEvent)

structure TransportSet where
  members : List Member := []
  pending : List TransportEvent := []
  failures : List TransportError := []

namespace TransportSet

variable {s t : TransportSet} {results : List Polled} {id : ConnectionId} {claims : List Member}

def conflict (s : TransportSet) (m : Member) : Option TransportSetError :=
  if m.namespaces = [] then some .noNamespace
  else if s.members.any (·.kind = m.kind) then some (.duplicateKind m.kind)
  else (m.namespaces.find? fun n => s.members.any (n ∈ ·.namespaces)).map .duplicateNamespace

def insert (s : TransportSet) (m : Member) : Except TransportSetError TransportSet :=
  match s.conflict m with
  | some error => .error error
  | none => .ok { s with members := s.members ++ [m] }

def indexForId (s : TransportSet) (id : ConnectionId) : Except TransportError Nat :=
  match s.members.findIdx? (namespaceOf id ∈ ·.namespaces) with
  | some i => .ok i
  | none => .error (.connectionNotFound id)

def eventsOf : Polled → List TransportEvent
  | .ok events => events
  | .error _ => []

def errorsOf : Polled → List TransportError
  | .ok _ => []
  | .error error => [error]

/-- The members are polled only when nothing is held back. -/
def poll (s : TransportSet) (round : Member → Polled) : Polled × TransportSet :=
  if s.pending ≠ [] then (.ok s.pending, { s with pending := [] })
  else match s.failures with
    | error :: failures => (.error error, { s with failures })
    | [] =>
      let results := s.members.map round
      match results.flatMap errorsOf with
      | error :: failures =>
        (.error error, { s with pending := results.flatMap eventsOf, failures })
      | [] => (.ok (results.flatMap eventsOf), s)

def nextDeadline (s : TransportSet) (deadlines : Member → Option Nat) : Option Nat :=
  if s.pending ≠ [] ∨ s.failures ≠ [] then some 0 else (s.members.filterMap deadlines).min?

/-! ### Polls -/

def items (p : Polled) : List (TransportEvent ⊕ TransportError) :=
  (eventsOf p).map .inl ++ (errorsOf p).map .inr

/-- How the results of the members are told: the first error, all events, the other errors. -/
def toldAs (results : List Polled) : List (TransportEvent ⊕ TransportError) :=
  ((results.flatMap errorsOf).take 1).map .inr ++ (results.flatMap eventsOf).map .inl ++
    ((results.flatMap errorsOf).drop 1).map .inr

def held (s : TransportSet) : List (TransportEvent ⊕ TransportError) :=
  s.pending.map .inl ++ s.failures.map .inr

/-- What a row of polls returns, the rounds in which the members were polled, and the set after. -/
def polls (s : TransportSet) : List (Member → Polled) →
    List (TransportEvent ⊕ TransportError) × List (Member → Polled) × TransportSet
  | [] => ([], [], s)
  | round :: rounds =>
    let (out, taken, t) := polls (s.poll round).2 rounds
    (items (s.poll round).1 ++ out, if s.held = [] then round :: taken else taken, t)

theorem poll_tells (s : TransportSet) (round : Member → Polled) :
    (s.poll round).2.members = s.members ∧
    items (s.poll round).1 ++ (s.poll round).2.held =
      s.held ++ if s.held = [] then toldAs (s.members.map round) else [] := by
  unfold poll held toldAs
  split
  · rename_i waiting
    simp [items, eventsOf, errorsOf, waiting]
  · rename_i idle
    rw [not_not.mp idle]
    dsimp only
    generalize s.members.map round = results
    cases failed : s.failures with
    | cons => simp [items, eventsOf, errorsOf]
    | nil =>
      cases errors : results.flatMap errorsOf <;>
        simp [items, eventsOf, errorsOf, failed, not_not.mp idle]

theorem polls_tell (s : TransportSet) (rounds : List (Member → Polled)) :
    (s.polls rounds).2.2.members = s.members ∧
    (s.polls rounds).1 ++ (s.polls rounds).2.2.held =
      s.held ++ (s.polls rounds).2.1.flatMap fun round => toldAs (s.members.map round) := by
  induction rounds generalizing s with
  | nil => simp [polls]
  | cons round rounds ih =>
    obtain ⟨same, here⟩ := s.poll_tells round
    obtain ⟨same', later⟩ := ih (s.poll round).2
    refine ⟨same'.trans same, ?_⟩
    simp only [polls, append_assoc]
    rw [later, ← append_assoc, here, same]
    split <;> simp

theorem toldAs_perm (results : List Polled) : toldAs results ~ results.flatMap items := by
  have whole : (results.flatMap errorsOf).take 1 ++ (results.flatMap errorsOf).drop 1 =
      results.flatMap errorsOf := take_append_drop ..
  have swapped : toldAs results ~
      (results.flatMap eventsOf).map .inl ++ (results.flatMap errorsOf).map .inr := by
    rw [← whole, map_append, ← append_assoc]
    exact (perm_append_comm).append_right _
  refine swapped.trans ?_
  rw [map_flatMap, map_flatMap]
  exact (flatMap_append_perm results _ _)

theorem items_sublist {p : Polled} (member : p ∈ results) : items p <+ toldAs results := by
  cases p with
  | ok events =>
    have part : eventsOf (.ok events) <+ results.flatMap eventsOf :=
      sublist_flatten_of_mem (mem_map.mpr ⟨_, member, rfl⟩)
    simp only [items, errorsOf, map_nil, append_nil]
    exact ((part.map _).trans (sublist_append_right _ _)).trans (sublist_append_left _ _)
  | error error =>
    refine singleton_sublist.mpr ((toldAs_perm results).mem_iff.mpr
      (mem_flatMap.mpr ⟨_, member, ?_⟩))
    simp [items, eventsOf, errorsOf]

/-! ### Routes -/

/-- No two members claim the same. -/
def Apart (members : List Member) : Prop :=
  members.Pairwise fun m m' => m.kind ≠ m'.kind ∧ ∀ n ∈ m.namespaces, n ∉ m'.namespaces

theorem insert_apart {m : Member} (accepted : s.insert m = .ok t) :
    t = { s with members := s.members ++ [m] } ∧ (Apart s.members → Apart t.members) := by
  unfold insert at accepted
  split at accepted
  · cases accepted
  · rename_i free
    cases accepted
    refine ⟨rfl, fun before => pairwise_append.mpr ⟨before, by simp, ?_⟩⟩
    intro other known _ here
    cases mem_singleton.mp here
    unfold conflict at free
    split at free
    · cases free
    · split at free
      · cases free
      · rename_i new
        refine ⟨fun same => new (any_eq_true.mpr ⟨other, known, decide_eq_true same⟩), ?_⟩
        intro n claimed again
        have unclaimed := find?_eq_none.mp (Option.map_eq_none_iff.mp free) n again
        exact unclaimed (any_eq_true.mpr ⟨other, known, decide_eq_true claimed⟩)

theorem inserts_apart (apart : Apart s.members) (accepted : claims.foldlM insert s = .ok t) :
    t = { s with members := s.members ++ claims } ∧ Apart t.members := by
  induction claims generalizing s with
  | nil =>
    cases accepted
    exact ⟨by simp, apart⟩
  | cons m claims ih =>
    rw [foldlM_cons] at accepted
    cases joined : s.insert m with
    | error => rw [joined] at accepted; cases accepted
    | ok next =>
      rw [joined] at accepted
      obtain ⟨rfl, apart'⟩ := insert_apart joined
      obtain ⟨same, last⟩ := ih (apart' apart) accepted
      exact ⟨by simpa using same, last⟩

theorem indexForId_iff (apart : Apart s.members) {i : Nat} :
    s.indexForId id = .ok i ↔ ∃ m, s.members[i]? = some m ∧ namespaceOf id ∈ m.namespaces := by
  have found : s.indexForId id = .ok i ↔
      s.members.findIdx? (namespaceOf id ∈ ·.namespaces) = some i := by
    unfold indexForId
    cases s.members.findIdx? (namespaceOf id ∈ ·.namespaces) <;> simp
  rw [found, findIdx?_eq_some_iff_getElem]
  constructor
  · rintro ⟨inside, claimed, -⟩
    exact ⟨_, getElem?_eq_getElem inside, by simpa using claimed⟩
  · rintro ⟨m, here, claimed⟩
    obtain ⟨inside, rfl⟩ := List.getElem?_eq_some_iff.mp here
    refine ⟨inside, by simpa using claimed, fun j earlier => ?_⟩
    have off := pairwise_iff_getElem.mp apart j i (by omega) inside earlier
    simpa using fun also => off.2 _ also claimed

theorem indexForId_error (s : TransportSet) (id : ConnectionId) :
    s.indexForId id = .error (.connectionNotFound id) ↔
      ∀ m ∈ s.members, namespaceOf id ∉ m.namespaces := by
  have missing : s.indexForId id = .error (.connectionNotFound id) ↔
      s.members.findIdx? (namespaceOf id ∈ ·.namespaces) = none := by
    unfold indexForId
    cases s.members.findIdx? (namespaceOf id ∈ ·.namespaces) <;> simp
  simp [missing, findIdx?_eq_none_iff]

def twoClaims : List Member := [⟨.tcp, [3]⟩, ⟨.quic, [1, 2]⟩]

def pair : TransportSet := { members := twoClaims }

def faultyRound (m : Member) : Polled :=
  if m.kind = .tcp then .ok [.closed 5] else .error (.pollError "")

end TransportSet

end Transport
