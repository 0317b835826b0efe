/-! Incremental parsing of a byte stream that arrives in arbitrary pieces. A parser
sees only the unread bytes. Its verdicts are stable: more bytes never change an
item it has already found or an error it has already reported. -/
namespace Incremental
open List

structure Parser (β E α : Type) where
  parse : List β → Except E (Option (α × List β))
  parse_nil : parse [] = .ok none
  shrinks : ∀ {bs : List β} {a : α} {rest : List β},
    parse bs = .ok (some (a, rest)) → rest.length < bs.length
  extend_item : ∀ {bs : List β} {a : α} {rest : List β} (more : List β),
    parse bs = .ok (some (a, rest)) → parse (bs ++ more) = .ok (some (a, rest ++ more))
  extend_error : ∀ {bs : List β} {e : E} (more : List β),
    parse bs = .error e → parse (bs ++ more) = .error e

open Incremental.Parser

/-- A parser with its encoder: the parser finds exactly the legal encodings. -/
structure Codec (β E α : Type) extends Parser β E α where
  encode : α → List β
  Legal : α → Prop
  parse_encode : ∀ {a : α} (rest : List β), Legal a →
    parse (encode a ++ rest) = .ok (some (a, rest))
  encode_of_parse : ∀ {bs : List β} {a : α} {rest : List β},
    parse bs = .ok (some (a, rest)) → Legal a ∧ bs = encode a ++ rest

namespace Codec

variable {β E α : Type} (c : Codec β E α)

def encodeAll (as : List α) : List β := (as.map c.encode).flatten

@[simp] theorem encodeAll_nil : c.encodeAll [] = [] := rfl

@[simp] theorem encodeAll_cons (a : α) (as : List α) :
    c.encodeAll (a :: as) = c.encode a ++ c.encodeAll as := rfl

@[simp] theorem encodeAll_append (as bs : List α) :
    c.encodeAll (as ++ bs) = c.encodeAll as ++ c.encodeAll bs := by
  simp [encodeAll]

theorem parse_partial {a : α} (legal : c.Legal a) {u v rest : List β}
    (same : u ++ v = c.encode a ++ rest) (short : u.length < (c.encode a).length) :
    c.parse u = .ok none := by
  have whole := c.parse_encode rest legal
  rw [← same] at whole
  cases hp : c.parse u with
  | error e => rw [c.extend_error v hp] at whole; cases whole
  | ok r =>
    cases r with
    | none => rfl
    | some item =>
      obtain ⟨b, left⟩ := item
      rw [c.extend_item v hp] at whole
      injection whole with found
      have hb : b = a := congrArg Prod.fst (Option.some.inj found)
      have consumed := congrArg List.length (c.encode_of_parse hp).2
      rw [hb, length_append] at consumed
      omega

theorem parse_stream {as : List α} (legal : ∀ a ∈ as, c.Legal a) {u v : List β}
    (same : u ++ v = c.encodeAll as) :
    (c.parse u = .ok none ∧ (v = [] → as = [])) ∨
      ∃ a rest left, as = a :: rest ∧ c.parse u = .ok (some (a, left)) ∧
        left ++ v = c.encodeAll rest := by
  cases as with
  | nil =>
    have empty : u = [] := by simp_all
    exact .inl ⟨empty ▸ c.parse_nil, fun _ => rfl⟩
  | cons a rest =>
    have first : c.Legal a := legal a (by simp)
    by_cases short : u.length < (c.encode a).length
    · refine .inl ⟨c.parse_partial first same short, ?_⟩
      intro hv
      have len := congrArg List.length same
      simp [hv] at len
      omega
    · right
      obtain ⟨left, rfl⟩ := prefix_of_prefix_length_le ⟨c.encodeAll rest, rfl⟩ ⟨v, same⟩
        (Nat.le_of_not_gt short)
      refine ⟨a, rest, left, rfl, c.parse_encode left first, ?_⟩
      rw [append_assoc] at same
      exact append_cancel_left same

end Codec

inductive Call (β : Type) where
  | push (bytes : List β)
  | next

def pushed {β : Type} : List (Call β) → List β
  | [] => []
  | .push bytes :: calls => bytes ++ pushed calls
  | .next :: calls => pushed calls

def yielded {E α : Type} : List (Except E (Option α)) → List α
  | [] => []
  | .ok (some a) :: answers => a :: yielded answers
  | .ok none :: answers => yielded answers
  | .error _ :: answers => yielded answers

section Calls

variable {β E α : Type}

/-- Answers to a sequence of calls, and the bytes left unread. An item consumes its
bytes; an error or a wait leaves them all. -/
def Parser.answers (p : Parser β E α) : List β → List (Call β) → List (Except E (Option α)) × List β
  | u, [] => ([], u)
  | u, .push bytes :: calls => p.answers (u ++ bytes) calls
  | u, .next :: calls =>
    match p.parse u with
    | .error e => let r := p.answers u calls; (.error e :: r.1, r.2)
    | .ok none => let r := p.answers u calls; (.ok none :: r.1, r.2)
    | .ok (some (a, rest)) => let r := p.answers rest calls; (.ok (some a) :: r.1, r.2)

variable {as : List α}

theorem Codec.answers_exact (c : Codec β E α) (calls : List (Call β))
    (legal : ∀ a ∈ as, c.Legal a) {u v : List β}
    (same : u ++ pushed calls ++ v = c.encodeAll as) :
    ∃ todo, as = yielded (c.answers u calls).1 ++ todo ∧
      (∀ r ∈ (c.answers u calls).1, ∃ o, r = .ok o) ∧
      (c.answers u calls).2 ++ v = c.encodeAll todo := by
  induction calls generalizing as u with
  | nil =>
    refine ⟨as, rfl, nofun, ?_⟩
    simpa [answers, pushed] using same
  | cons call calls ih =>
    cases call with
    | push bytes => exact ih legal (by simpa [pushed] using same)
    | next =>
      have cut : u ++ (pushed calls ++ v) = c.encodeAll as := by simpa [pushed] using same
      rcases c.parse_stream legal cut with ⟨hp, -⟩ | ⟨a, rest, left, rfl, hp, tail⟩
      · obtain ⟨todo, items, noError, unread⟩ := ih legal (by simpa [pushed] using same)
        simp only [answers, hp]
        exact ⟨todo, by simpa [yielded] using items, by simpa using noError, unread⟩
      · have legalRest : ∀ b ∈ rest, c.Legal b := fun b hb => legal b (by simp [hb])
        obtain ⟨todo, items, noError, unread⟩ := ih legalRest (by simpa using tail)
        simp only [answers, hp]
        refine ⟨todo, ?_, by simpa using noError, unread⟩
        simpa [yielded] using items

theorem answers_append (p : Parser β E α) (u : List β) (xs ys : List (Call β)) :
    p.answers u (xs ++ ys) =
      ((p.answers u xs).1 ++ (p.answers (p.answers u xs).2 ys).1,
        (p.answers (p.answers u xs).2 ys).2) := by
  induction xs generalizing u with
  | nil => rfl
  | cons call xs ih =>
    cases call with
    | push bytes => simpa [answers] using ih (u ++ bytes)
    | next =>
      simp only [cons_append, answers]
      split <;> simp [ih]

theorem Codec.answers_drain (c : Codec β E α) (legal : ∀ a ∈ as, c.Legal a)
    {n : Nat} (enough : as.length ≤ n) :
    yielded (c.answers (c.encodeAll as) (List.replicate n .next)).1 = as ∧
      (∀ r ∈ (c.answers (c.encodeAll as) (List.replicate n .next)).1, ∃ o, r = .ok o) ∧
      (c.answers (c.encodeAll as) (List.replicate n .next)).2 = [] := by
  induction n generalizing as with
  | zero =>
    have empty : as = [] := eq_nil_of_length_eq_zero (Nat.le_zero.mp enough)
    subst empty
    exact ⟨rfl, nofun, rfl⟩
  | succ n ih =>
    cases as with
    | nil =>
      have tail := @ih [] (by simp) (by simp)
      simp only [replicate_succ, answers, encodeAll_nil, c.parse_nil] at tail ⊢
      exact ⟨by simpa [yielded] using tail.1, by simpa using tail.2.1, tail.2.2⟩
    | cons a as =>
      have first : c.Legal a := legal a (by simp)
      have tail := @ih as (fun b hb => legal b (by simp [hb])) (by simpa using enough)
      simp only [replicate_succ, answers, encodeAll_cons, c.parse_encode _ first]
      exact ⟨by simpa [yielded] using tail.1, by simpa using tail.2.1, tail.2.2⟩

theorem yielded_append (xs ys : List (Except E (Option α))) :
    yielded (xs ++ ys) = yielded xs ++ yielded ys := by
  induction xs with
  | nil => rfl
  | cons x xs ih =>
    cases x with
    | error e => exact ih
    | ok o => cases o <;> simp [yielded, ih]

theorem Codec.answers_all (c : Codec β E α) (legal : ∀ a ∈ as, c.Legal a)
    {calls : List (Call β)} (bytes : pushed calls = c.encodeAll as) {n : Nat}
    (enough : as.length ≤ n) :
    yielded (c.answers [] (calls ++ List.replicate n .next)).1 = as ∧
      (∀ r ∈ (c.answers [] (calls ++ List.replicate n .next)).1, ∃ o, r = .ok o) ∧
      (c.answers [] (calls ++ List.replicate n .next)).2 = [] := by
  obtain ⟨todo, items, noError, unread⟩ :=
    c.answers_exact calls legal (show [] ++ pushed calls ++ [] = _ by simpa using bytes)
  rw [append_nil] at unread
  have less : todo.length ≤ n := by
    have len := congrArg List.length items
    rw [length_append] at len
    omega
  have legalTodo : ∀ a ∈ todo, c.Legal a := fun a member => legal a (by rw [items]; simp [member])
  obtain ⟨rest, noError', empty⟩ := c.answers_drain legalTodo less
  rw [answers_append, unread]
  refine ⟨?_, fun r member => ?_, empty⟩
  · rw [yielded_append, rest]
    exact items.symm
  · rcases mem_append.mp member with member | member
    · exact noError r member
    · exact noError' r member

end Calls

section Drive

variable {β E α σ ρ : Type}

inductive Outcome (σ ρ β : Type) where
  | waiting (state : σ) (unread : List β)
  | finished (result : ρ)

/-- Handle every complete item. `none` is a handler that does not return, or a
loop that outlasts its fuel. -/
def Parser.drive (p : Parser β E α) (handle : σ → α → Option (σ ⊕ ρ)) (fail : σ → E → ρ) :
    Nat → σ → List β → Option (Outcome σ ρ β)
  | 0, _, _ => none
  | fuel + 1, s, u =>
    match p.parse u with
    | .error e => some (.finished (fail s e))
    | .ok none => some (.waiting s u)
    | .ok (some (a, rest)) =>
      match handle s a with
      | none => none
      | some (.inr r) => some (.finished r)
      | some (.inl s') => p.drive handle fail fuel s' rest

variable (p : Parser β E α) (handle : σ → α → Option (σ ⊕ ρ)) (fail : σ → E → ρ) {u : List β}
  {o : Outcome σ ρ β} {n : Nat} {s : σ}

theorem drive_more (h : p.drive handle fail n s u = some o) (k : Nat) :
    p.drive handle fail (n + k) s u = some o := by
  induction n generalizing s u with
  | zero => cases h
  | succ n ih =>
    rw [Nat.succ_add]
    unfold drive at h ⊢
    split at h
    · exact h
    · exact h
    · split at h
      · cases h
      · exact h
      · exact ih h

theorem drive_finished {r : ρ} (v : List β) (h : p.drive handle fail n s u = some (.finished r)) :
    p.drive handle fail n s (u ++ v) = some (.finished r) := by
  induction n generalizing s u with
  | zero => cases h
  | succ n ih =>
    unfold drive at h
    split at h
    · rename_i e hp
      simpa [drive, p.extend_error v hp] using h
    · cases h
    · rename_i a rest hp
      simp only [drive, p.extend_item v hp]
      split at h
      · cases h
      · rename_i hh
        simpa [hh] using h
      · rename_i s' hh
        simpa [hh] using ih h

theorem drive_waiting {m : Nat} {t : σ} {w v : List β}
    (first : p.drive handle fail n s u = some (.waiting t w))
    (second : p.drive handle fail m t (w ++ v) = some o) :
    p.drive handle fail (n + m) s (u ++ v) = some o := by
  induction n generalizing s u with
  | zero => cases first
  | succ n ih =>
    unfold drive at first
    split at first
    · cases first
    · cases Option.some.inj first
      rw [Nat.add_comm]
      exact drive_more p handle fail second _
    · rename_i a rest hp
      rw [Nat.succ_add]
      simp only [drive, p.extend_item v hp]
      split at first
      · cases first
      · cases first
      · rename_i s' hh
        simpa [hh] using ih first

theorem drive_unique {k : Nat} {o' : Outcome σ ρ β}
    (first : p.drive handle fail n s u = some o) (second : p.drive handle fail k s u = some o') :
    o = o' := by
  have more := drive_more p handle fail second n
  rw [Nat.add_comm, drive_more p handle fail first k] at more
  exact Option.some.inj more

/-- The rule of the loop. An invariant of the state and the unread bytes that every
handled item keeps, with a handler that returns, makes the loop return: it waits
with the invariant and no complete item left, or finishes with the postcondition. -/
theorem drive_rule {Inv : σ → List β → Prop} {Post : ρ → Prop}
    (step : ∀ {s u a rest}, Inv s u → p.parse u = .ok (some (a, rest)) →
      (∃ s', handle s a = some (.inl s') ∧ Inv s' rest) ∨
        ∃ r, handle s a = some (.inr r) ∧ Post r)
    (failed : ∀ {s u e}, Inv s u → p.parse u = .error e → Post (fail s e))
    (initial : Inv s u) (enough : u.length < n) :
    (∃ t w, p.drive handle fail n s u = some (.waiting t w) ∧ Inv t w ∧ p.parse w = .ok none) ∨
      ∃ r, p.drive handle fail n s u = some (.finished r) ∧ Post r := by
  induction n generalizing s u with
  | zero => omega
  | succ n ih =>
    unfold drive
    split
    · rename_i e hp
      exact .inr ⟨_, rfl, failed initial hp⟩
    · rename_i hp
      exact .inl ⟨s, u, rfl, initial, hp⟩
    · rename_i a rest hp
      have less := p.shrinks hp
      rcases step initial hp with ⟨s', hh, kept⟩ | ⟨r, hh, done⟩
      · simp only [hh]
        exact ih kept (by omega)
      · simp only [hh]
        exact .inr ⟨r, rfl, done⟩

end Drive

section Read

variable {β E α σ : Type}

/-- What reads the items: it takes them one by one until it has what it wants, and an error
is the last thing it takes. -/
structure Reader (E α σ : Type) where
  handle : σ → α → σ
  fail : σ → E → σ
  stopped : σ → Bool
  fail_stopped : ∀ (s : σ) (e : E), stopped (fail s e) = true

/-- The reader takes all these items, as it has not stopped before any of them. -/
def Reader.Takes (r : Reader E α σ) : σ → List α → Prop
  | _, [] => True
  | s, a :: items => r.stopped s = false ∧ r.Takes (r.handle s a) items

theorem Reader.Takes.stopped {r : Reader E α σ} {s : σ} {items : List α} (takes : r.Takes s items)
    (halted : r.stopped s = true) : items = [] := by
  cases items with
  | nil => rfl
  | cons a items => exact absurd (takes.1.symm.trans halted) nofun

/-- The reading loop: the state reached, and the bytes not read. -/
def Parser.readLoop (p : Parser β E α) (r : Reader E α σ) : Nat → σ → List β → σ × List β
  | 0, s, u => (s, u)
  | fuel + 1, s, u =>
    if r.stopped s then (s, u)
    else
      match p.parse u with
      | .error e => (r.fail s e, u)
      | .ok none => (s, u)
      | .ok (some (a, rest)) => p.readLoop r fuel (r.handle s a) rest

def Parser.read (p : Parser β E α) (r : Reader E α σ) (s : σ) (u : List β) : σ × List β :=
  p.readLoop r (u.length + 1) s u

variable {p : Parser β E α} {r : Reader E α σ} {s : σ} {u : List β}

theorem readLoop_fuel {n m : Nat} (enough : u.length < n) (enough' : u.length < m) :
    p.readLoop r n s u = p.readLoop r m s u := by
  induction n generalizing m s u with
  | zero => omega
  | succ n ih =>
    obtain ⟨m, rfl⟩ : ∃ k, m = k + 1 := ⟨m - 1, by omega⟩
    rw [Parser.readLoop, Parser.readLoop]
    split
    · rfl
    · split
      · rfl
      · rfl
      · rename_i found
        have less := p.shrinks found
        exact ih (by omega) (by omega)

theorem read_stopped (stopped : r.stopped s = true) : p.read r s u = (s, u) := by
  rw [Parser.read, Parser.readLoop, if_pos stopped]

theorem read_error {e : E} (running : r.stopped s = false) (found : p.parse u = .error e) :
    p.read r s u = (r.fail s e, u) := by
  simp [Parser.read, Parser.readLoop, running, found]

theorem read_wait (found : p.parse u = .ok none) : p.read r s u = (s, u) := by
  simp [Parser.read, Parser.readLoop, found]

theorem read_item {a : α} {rest : List β} (running : r.stopped s = false)
    (found : p.parse u = .ok (some (a, rest))) :
    p.read r s u = p.read r (r.handle s a) rest := by
  have less := p.shrinks found
  rw [Parser.read, Parser.readLoop, if_neg (by simp [running]), found]
  exact readLoop_fuel less (by omega)

theorem read_induct {motive : σ → List β → Prop}
    (stopped : ∀ {s u}, r.stopped s = true → motive s u)
    (error : ∀ {s u e}, r.stopped s = false → p.parse u = .error e → motive s u)
    (wait : ∀ {s u}, r.stopped s = false → p.parse u = .ok none → motive s u)
    (item : ∀ {s u a rest}, r.stopped s = false → p.parse u = .ok (some (a, rest)) →
      motive (r.handle s a) rest → motive s u) (s : σ) (u : List β) : motive s u := by
  induction size : u.length using Nat.strongRecOn generalizing s u with
  | _ n ih =>
    cases halted : r.stopped s with
    | true => exact stopped halted
    | false =>
      cases found : p.parse u with
      | error e => exact error halted found
      | ok next =>
        cases next with
        | none => exact wait halted found
        | some next =>
          obtain ⟨a, rest⟩ := next
          have less := p.shrinks found
          exact item halted found (ih rest.length (by omega) _ rest rfl)

theorem read_append (s : σ) (u v : List β) :
    p.read r s (u ++ v) = p.read r (p.read r s u).1 ((p.read r s u).2 ++ v) := by
  induction s, u using (read_induct (p := p) (r := r)) with
  | stopped halted => simp only [read_stopped halted]
  | error running found =>
    rw [read_error running found, read_error running (p.extend_error v found),
      read_stopped (r.fail_stopped _ _)]
  | wait running found => simp only [read_wait found]
  | item running found ih =>
    rw [read_item running found, read_item running (p.extend_item v found), ih]

theorem read_map {f : σ → σ} (handle : ∀ s a, r.handle (f s) a = f (r.handle s a))
    (fail : ∀ s e, r.fail (f s) e = f (r.fail s e)) (stopped : ∀ s, r.stopped (f s) = r.stopped s)
    (s : σ) (u : List β) : p.read r (f s) u = (f (p.read r s u).1, (p.read r s u).2) := by
  induction s, u using (read_induct (p := p) (r := r)) with
  | stopped halted => rw [read_stopped halted, read_stopped ((stopped _).trans halted)]
  | error running found =>
    rw [read_error running found, read_error ((stopped _).trans running) found, fail]
  | wait running found => rw [read_wait found, read_wait found]
  | item running found ih =>
    rw [read_item running found, read_item ((stopped _).trans running) found, handle, ih]

theorem read_keeps {I : σ → Prop} (handle : ∀ {s} a, r.stopped s = false → I s → I (r.handle s a))
    (fail : ∀ {s} e, r.stopped s = false → I s → I (r.fail s e)) {s : σ} (u : List β)
    (holds : I s) :
    I (p.read r s u).1 := by
  induction s, u using (read_induct (p := p) (r := r)) with
  | stopped halted => rwa [read_stopped halted]
  | error running found =>
    rw [read_error running found]
    exact fail _ running holds
  | wait running found => rwa [read_wait found]
  | item running found ih =>
    rw [read_item running found]
    exact ih (handle _ running holds)

theorem Codec.read_items (c : Codec β E α) (r : Reader E α σ) (s : σ) (u : List β) :
    ∃ items, u = c.encodeAll items ++ (c.read r s u).2 ∧ r.Takes s items ∧
      ((c.read r s u).1 = items.foldl r.handle s ∨
        r.stopped (items.foldl r.handle s) = false ∧
          ∃ e, (c.read r s u).1 = r.fail (items.foldl r.handle s) e) := by
  induction s, u using (read_induct (p := c.toParser) (r := r)) with
  | stopped halted =>
    rw [read_stopped halted]
    exact ⟨[], rfl, trivial, .inl rfl⟩
  | error running found =>
    rw [read_error running found]
    exact ⟨[], rfl, trivial, .inr ⟨running, _, rfl⟩⟩
  | wait running found =>
    rw [read_wait found]
    exact ⟨[], rfl, trivial, .inl rfl⟩
  | @item s u a rest running found ih =>
    obtain ⟨items, whole, takes, last⟩ := ih
    rw [read_item running found]
    refine ⟨a :: items, ?_, ⟨running, takes⟩, last⟩
    rw [c.encodeAll_cons, append_assoc, ← whole]
    exact (c.encode_of_parse found).2

theorem Codec.read_stream (c : Codec β E α) (r : Reader E α σ) {items : List α}
    (legal : ∀ a ∈ items, c.Legal a) (s : σ) {u v : List β} (same : u ++ v = c.encodeAll items) :
    ∃ before after, items = before ++ after ∧ (c.read r s u).1 = before.foldl r.handle s ∧
      (c.read r s u).2 ++ v = c.encodeAll after ∧
      (v = [] → after = [] ∨ r.stopped (before.foldl r.handle s) = true) := by
  induction items generalizing s u with
  | nil =>
    have empty : u = [] ∧ v = [] := by simpa using same
    rw [empty.1, empty.2, read_wait c.parse_nil]
    exact ⟨[], [], rfl, rfl, rfl, fun _ => .inl rfl⟩
  | cons a items ih =>
    cases halted : r.stopped s with
    | true =>
      rw [read_stopped halted]
      exact ⟨[], a :: items, rfl, rfl, same, fun _ => .inr halted⟩
    | false =>
      rcases c.parse_stream legal same with ⟨found, last⟩ | ⟨b, rest, left, split, found, tail⟩
      · rw [read_wait found]
        exact ⟨[], a :: items, rfl, rfl, same, fun all => .inl (last all)⟩
      · cases split
        rw [read_item halted found]
        obtain ⟨before, after, whole, state, unread, last⟩ :=
          ih (fun b member => legal b (by simp [member])) (r.handle s a) tail
        exact ⟨a :: before, after, by rw [whole]; rfl, state, unread, last⟩

end Read

end Incremental
