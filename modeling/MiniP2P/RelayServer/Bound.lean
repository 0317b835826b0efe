import MiniP2P.RelayServer.Calls

/-! How reservations hang on connections: every peer has one connection, a reservation is
made on it, and at most one is on its way for a peer. -/
namespace RelayServer
open Collections Core Identity Relay BTreeMap

def Mark.regrants : Mark → Bool
  | .accepted .. | .ended .. => true
  | _ => false

namespace Agent

/-- What a step does to connections and reservations, with the marks that tell. -/
inductive Rebinds (s t : Agent) : List Mark → Prop where
  | same {marks : List Mark} : t.connections = s.connections → t.reservations = s.reservations →
      (∀ mark ∈ marks, mark.regrants = false) → Rebinds s t marks
  | addressed {connId : ConnectionId} {old new : Connection} :
      s.connections.get connId = some old → t.connections = s.connections.insert connId new →
      new.peerId = old.peerId → t.reservations = s.reservations → Rebinds s t [.rewired]
  | established {connId : ConnectionId} {connection : Connection} :
      (∀ id other, s.connections.get id = some other → other.peerId = connection.peerId →
        id = connId) →
      (∀ r, s.reservations.get connection.peerId = some r → r.connId = connId) →
      t.connections = s.connections.insert connId connection → t.reservations = s.reservations →
      Rebinds s t [.rewired]
  | departed {connId : ConnectionId} : t.connections = s.connections.remove connId →
      t.reservations = s.reservations → Rebinds s t [.rewired]
  | unreserved {peerId : PeerId} {reason : ReservationCloseReason} :
      (s.reservations.get peerId).isSome → t.connections = s.connections →
      t.reservations = s.reservations.remove peerId → Rebinds s t [.ended peerId reason]
  | reserved {token : RelayServerToken} {peerId : PeerId} {pending : PendingReservation} :
      s.pendingOperations.get token = some (.send peerId (.commitReservation pending)) →
      s.live pending = true → t.pendingOperations = s.pendingOperations.remove token →
      t.connections = s.connections →
      t.reservations = s.reservations.insert pending.peerId
        ⟨pending.connId, pending.deadlineMs, pending.expiresUnixSecs⟩ →
      Rebinds s t [.echoed token, .accepted pending.peerId pending.renewed pending.expiresUnixSecs]

variable {s : Agent} {pending : PendingReservation} {token : RelayServerToken}

theorem Step.rebinds {t : Agent} {marks : List Mark} (step : Step s marks t) :
    Rebinds s t marks := by
  cases step with
  | addressed _ found => exact .addressed found rfl rfl rfl
  | established alone bound => exact .established alone bound rfl rfl
  | departed => exact .departed rfl rfl
  | unreserved _ held => exact .unreserved held rfl rfl
  | reserved filed live => exact .reserved filed live rfl rfl rfl
  | replied _ _ reply =>
    cases reply with
    | _ => exact .same rfl rfl (by simp)
  | @committed token _ _ _ _ now _ before known =>
    have opens := committed_opens token now before known
    exact .same opens.connections opens.reservations (by simp [Mark.regrants])
  | arrived arrival =>
    cases arrival with
    | _ =>
      exact .same rfl rfl (by simp [Mark.regrants])
  | _ =>
    exact .same rfl rfl (by simp [Mark.regrants])

structure Bound (s : Agent) : Prop where
  alone : ∀ id id' connection connection', s.connections.get id = some connection →
    s.connections.get id' = some connection' → connection.peerId = connection'.peerId → id = id'
  bound : ∀ id connection record, s.connections.get id = some connection →
    s.reservations.get connection.peerId = some record → record.connId = id
  initial : ∀ token peerId pending record,
    s.pendingOperations.get token = some (.send peerId (.commitReservation pending)) →
    pending.renewed = false → s.reservations.get pending.peerId = some record →
    record.connId ≠ pending.connId
  once : ∀ token token' peerId peerId' pending pending',
    s.pendingOperations.get token = some (.send peerId (.commitReservation pending)) →
    s.pendingOperations.get token' = some (.send peerId' (.commitReservation pending')) →
    pending.peerId = pending'.peerId → token = token'

theorem Bound.vacant (bound : s.Bound) {peerId : PeerId}
    (filed : s.pendingOperations.get token = some (.send peerId (.commitReservation pending)))
    (live : s.live pending = true) (initial : pending.renewed = false) :
    s.reservations.get pending.peerId = none := by
  obtain ⟨connection, found, same⟩ := (Option.any_eq_true _ _).mp live
  have same : connection.peerId = pending.peerId := by simpa using same
  cases held : s.reservations.get pending.peerId with
  | none => rfl
  | some record =>
    exact absurd (bound.bound _ connection record found (same ▸ held))
      (bound.initial _ _ _ record filed initial held)

theorem unpromised {peerId : PeerId} (free : s.pendingForPeer peerId = false) {sender : PeerId}
    (filed : s.pendingOperations.get token = some (.send sender (.commitReservation pending))) :
    pending.peerId ≠ peerId := by
  intro same
  have taken : s.pendingForPeer peerId = true :=
    List.any_eq_true.mpr ⟨_, mem_values filed, by simp [isCommitFor, same]⟩
  cases free.symm.trans taken

theorem Bound.step {t : Agent} {marks : List Mark} (bound : s.Bound) (step : Step s marks t) :
    t.Bound := by
  have once : ∀ token token' peerId peerId' pending pending',
      t.pendingOperations.get token = some (.send peerId (.commitReservation pending)) →
      t.pendingOperations.get token' = some (.send peerId' (.commitReservation pending')) →
      pending.peerId = pending'.peerId → token = token' := by
    intro token token' peerId peerId' pending pending' filed filed' same
    rcases step.operation filed with old | new
    · rcases step.operation filed' with old' | new'
      · exact bound.once _ _ _ _ _ _ old old' same
      · cases new' with
        | inert inert => cases inert
        | reservation _ free => exact absurd same (unpromised free old)
    · cases new with
      | inert inert => cases inert
      | reservation drawn free =>
        rcases step.operation filed' with old' | new'
        · exact absurd same.symm (unpromised free old')
        · cases new' with
          | inert inert => cases inert
          | reservation drawn' => rw [drawn, drawn']
  have initial (kept : ∀ peerId record, t.reservations.get peerId = some record →
      s.reservations.get peerId = some record) : ∀ token peerId pending record,
      t.pendingOperations.get token = some (.send peerId (.commitReservation pending)) →
      pending.renewed = false → t.reservations.get pending.peerId = some record →
      record.connId ≠ pending.connId := by
    intro token peerId pending record filed first held
    have held := kept _ _ held
    rcases step.operation filed with old | new
    · exact bound.initial _ _ _ _ old first held
    · cases new with
      | inert inert => cases inert
      | reservation _ _ _ renews =>
        rw [first, Agent.renews, held] at renews
        simpa using renews.symm
  -- where no connection is new, the peers and their reservations are those of before
  have fewer (back : ∀ id connection, t.connections.get id = some connection →
      ∃ before, s.connections.get id = some before ∧ before.peerId = connection.peerId)
      (kept : ∀ peerId record, t.reservations.get peerId = some record →
        s.reservations.get peerId = some record) : t.Bound := by
    refine ⟨fun id id' connection connection' found found' same => ?_,
      fun id connection record found held => ?_, initial kept, once⟩
    · obtain ⟨before, found, peer⟩ := back id connection found
      obtain ⟨before', found', peer'⟩ := back id' connection' found'
      exact bound.alone _ _ _ _ found found' (by rw [peer, peer', same])
    · obtain ⟨before, found, peer⟩ := back id connection found
      exact bound.bound _ _ _ found (peer ▸ kept _ _ held)
  cases step.rebinds with
  | same connections reservations =>
    exact fewer (fun id connection found => ⟨connection, connections ▸ found, rfl⟩)
      (fun _ _ held => reservations ▸ held)
  | @addressed connId old new before connections peer reservations =>
    refine fewer (fun id connection found => ?_) (fun _ _ held => reservations ▸ held)
    rw [connections, get_insert] at found
    split at found
    · rename_i here
      cases found
      exact ⟨old, here ▸ before, peer.symm⟩
    · exact ⟨connection, found, rfl⟩
  | departed connections reservations =>
    refine fewer (fun id connection found => ?_) (fun _ _ held => reservations ▸ held)
    rw [connections, get_remove] at found
    split at found
    · cases found
    · exact ⟨connection, found, rfl⟩
  | unreserved _ connections reservations =>
    refine fewer (fun id connection found => ⟨connection, connections ▸ found, rfl⟩)
      (fun peerId record held => ?_)
    rw [reservations, get_remove] at held
    split at held
    · cases held
    · exact held
  | @established connId connection alone on connections reservations =>
    have back (id) (other) (found : t.connections.get id = some other) :
        (id = connId ∧ other = connection) ∨ s.connections.get id = some other := by
      rw [connections, get_insert] at found
      split at found
      · rename_i here
        cases found
        exact .inl ⟨here, rfl⟩
      · exact .inr found
    refine ⟨fun id id' one other found found' same => ?_, fun id other record found held => ?_,
      initial (fun _ _ held => reservations ▸ held), once⟩
    · rcases back id one found with ⟨rfl, rfl⟩ | found
      · rcases back id' other found' with ⟨rfl, -⟩ | found'
        · rfl
        · exact (alone _ _ found' same.symm).symm
      · rcases back id' other found' with ⟨rfl, rfl⟩ | found'
        · exact alone _ _ found same
        · exact bound.alone _ _ _ _ found found' same
    · rw [reservations] at held
      rcases back id other found with ⟨rfl, rfl⟩ | found
      · exact on record held
      · exact bound.bound _ _ _ found held
  | @reserved token peerId pending filed live operations connections reservations =>
    obtain ⟨connection, there, same⟩ := (Option.any_eq_true _ _).mp live
    have same : connection.peerId = pending.peerId := by simpa using same
    refine ⟨by rw [connections]; exact bound.alone, fun id other record found held => ?_, ?_, once⟩
    · rw [connections] at found
      rw [reservations, get_insert] at held
      split at held
      · rename_i peer
        cases held
        exact bound.alone _ _ _ _ there found (same.trans peer.symm)
      · exact bound.bound _ _ _ found held
    · intro token' sender pending' record filed' first held
      rw [operations, get_remove] at filed'
      split at filed'
      · cases filed'
      · rename_i apart
        rw [reservations, get_insert] at held
        split at held
        · rename_i peer
          exact absurd (bound.once _ _ _ _ _ _ filed' filed peer) apart
        · exact bound.initial _ _ _ _ filed' first held

end Agent

end RelayServer
