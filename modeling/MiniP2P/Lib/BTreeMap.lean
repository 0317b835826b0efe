import Mathlib.Algebra.Order.BigOperators.Group.List
import Mathlib.Algebra.Order.Ring.Nat
import Mathlib.Data.List.Sort

/-! Ordered maps as strictly sorted association lists. Iteration order is the
key order, and two maps with the same lookups are equal. Weighted sums over the
entries give sizes and counts one update law. -/
namespace Collections
open List

universe u v

structure BTreeMap (κ : Type u) (α : Type v) [LinearOrder κ] where
  entries : List (κ × α)
  sorted : entries.Pairwise (fun x y => x.1 < y.1)

variable {κ : Type u} {α : Type v} [LinearOrder κ]

def lookup (k : κ) : List (κ × α) → Option α
  | [] => none
  | (k', v) :: rest => if k = k' then some v else lookup k rest

def insertEntry (k : κ) (v : α) : List (κ × α) → List (κ × α)
  | [] => [(k, v)]
  | (k', v') :: rest =>
    if k < k' then (k, v) :: (k', v') :: rest
    else if k = k' then (k, v) :: rest
    else (k', v') :: insertEntry k v rest

variable (f : κ → α → Nat)

def weigh (l : List (κ × α)) : Nat := (l.map (fun e => f e.1 e.2)).sum

variable {k : κ} {l : List (κ × α)}

theorem mem_insertEntry {v : α} {e : κ × α} (h : e ∈ insertEntry k v l) : e = (k, v) ∨ e ∈ l := by
  induction l with
  | nil => simpa [insertEntry] using h
  | cons a l ih =>
    simp only [insertEntry] at h
    split at h
    · simpa using h
    · split at h
      · rcases mem_cons.mp h with h | h
        · exact .inl h
        · exact .inr (mem_cons_of_mem _ h)
      · rcases mem_cons.mp h with h | h
        · exact .inr (by simp [h])
        · rcases ih h with h | h
          · exact .inl h
          · exact .inr (mem_cons_of_mem _ h)

theorem insertEntry_sorted (k : κ) (v : α) (h : l.Pairwise (fun x y => x.1 < y.1)) :
    (insertEntry k v l).Pairwise (fun x y => x.1 < y.1) := by
  induction l with
  | nil => simp [insertEntry]
  | cons a l ih =>
    obtain ⟨above, tail⟩ := pairwise_cons.mp h
    simp only [insertEntry]
    split
    · rename_i less
      refine pairwise_cons.mpr ⟨?_, h⟩
      intro e he
      rcases mem_cons.mp he with rfl | he
      · exact less
      · exact lt_trans less (above e he)
    · split
      · rename_i same
        exact pairwise_cons.mpr ⟨fun e he => same ▸ above e he, tail⟩
      · rename_i notLess notSame
        refine pairwise_cons.mpr ⟨?_, ih tail⟩
        intro e he
        rcases mem_insertEntry he with rfl | he
        · exact lt_of_le_of_ne (not_lt.mp notLess) (Ne.symm notSame)
        · exact above e he

theorem lookup_insertEntry (k k' : κ) (v : α) (l : List (κ × α)) :
    lookup k' (insertEntry k v l) = if k' = k then some v else lookup k' l := by
  induction l with
  | nil => simp [insertEntry, lookup]
  | cons a l ih =>
    simp only [insertEntry]
    split
    · simp [lookup]
    · split
      · rename_i same
        subst same
        simp only [lookup]
        split <;> rfl
      · rename_i notSame
        simp only [lookup, ih]
        by_cases hk : k' = a.1
        · simp [hk, Ne.symm notSame]
        · simp [hk]

theorem lookup_none_of_above (h : ∀ e ∈ l, k < e.1) : lookup k l = none := by
  induction l with
  | nil => rfl
  | cons a l ih =>
    have ne : k ≠ a.1 := ne_of_lt (h a (by simp))
    simp only [lookup, if_neg ne]
    exact ih (fun e he => h e (mem_cons_of_mem _ he))

theorem mem_of_lookup {v : α} (h : lookup k l = some v) : (k, v) ∈ l := by
  induction l with
  | nil => simp [lookup] at h
  | cons a l ih =>
    simp only [lookup] at h
    split at h
    · rename_i same
      cases Option.some.inj h
      simp [same]
    · exact mem_cons_of_mem _ (ih h)

theorem lookup_of_mem {v : α} (h : l.Pairwise (fun x y => x.1 < y.1)) (member : (k, v) ∈ l) :
    lookup k l = some v := by
  induction l with
  | nil => simp at member
  | cons a l ih =>
    obtain ⟨above, tail⟩ := pairwise_cons.mp h
    rcases mem_cons.mp member with rfl | member
    · simp [lookup]
    · have ne : k ≠ a.1 := ne_of_gt (above _ member)
      simp only [lookup, if_neg ne]
      exact ih tail member

theorem lookup_filter (p : κ → α → Bool) (k : κ) (h : l.Pairwise (fun x y => x.1 < y.1)) :
    lookup k (l.filter (fun e => p e.1 e.2)) = (lookup k l).filter (p k) := by
  induction l with
  | nil => rfl
  | cons a l ih =>
    obtain ⟨above, tail⟩ := pairwise_cons.mp h
    simp only [filter_cons, lookup]
    by_cases hk : k = a.1
    · subst hk
      by_cases hp : p a.1 a.2 = true
      · simp [hp, lookup, Option.filter]
      · have nothing : lookup a.1 (l.filter (fun e => p e.1 e.2)) = none :=
          lookup_none_of_above (fun e he => above e (mem_filter.mp he).1)
        simp [hp, nothing, Option.filter]
    · by_cases hp : p a.1 a.2 = true
      · simp [hp, lookup, hk, ih tail]
      · simp [hp, hk, ih tail]

theorem weigh_insertEntry (k : κ) (v : α) (h : l.Pairwise (fun x y => x.1 < y.1)) :
    weigh f (insertEntry k v l) + (lookup k l).elim 0 (f k) = weigh f l + f k v := by
  induction l with
  | nil => simp [insertEntry, lookup, weigh]
  | cons a l ih =>
    obtain ⟨above, tail⟩ := pairwise_cons.mp h
    simp only [insertEntry]
    split
    · rename_i less
      have nothing : lookup k (a :: l) = none := by
        apply lookup_none_of_above
        intro e he
        rcases mem_cons.mp he with rfl | he
        · exact less
        · exact lt_trans less (above e he)
      simp only [nothing, Option.elim_none, weigh, map_cons, sum_cons]
      omega
    · split
      · rename_i same
        subst same
        simp only [lookup, if_true, Option.elim_some, weigh, map_cons, sum_cons]
        omega
      · rename_i notSame
        have tailEq := ih tail
        simp only [lookup, if_neg notSame, weigh, map_cons, sum_cons] at tailEq ⊢
        omega

theorem weigh_filter (k : κ) (h : l.Pairwise (fun x y => x.1 < y.1)) :
    weigh f (l.filter (fun e => e.1 != k)) + (lookup k l).elim 0 (f k) = weigh f l := by
  induction l with
  | nil => rfl
  | cons a l ih =>
    obtain ⟨above, tail⟩ := pairwise_cons.mp h
    have tailEq := ih tail
    by_cases hk : k = a.1
    · subst hk
      have nothing : lookup a.1 l = none := lookup_none_of_above (fun e he => above e he)
      simp only [nothing, Option.elim_none] at tailEq
      simp only [filter_cons, bne_self_eq_false, Bool.false_eq_true, if_false, lookup,
        if_true, Option.elim_some]
      simp only [weigh, map_cons, sum_cons] at tailEq ⊢
      omega
    · have keep : (a.1 != k) = true := by simpa using Ne.symm hk
      simp only [filter_cons, keep, if_true, lookup, if_neg hk]
      simp only [weigh, map_cons, sum_cons] at tailEq ⊢
      omega

theorem entries_ext {m : List (κ × α)} (hl : l.Pairwise (fun x y => x.1 < y.1))
    (hm : m.Pairwise (fun x y => x.1 < y.1)) (same : ∀ k, lookup k l = lookup k m) : l = m := by
  refine hl.eq_of_mem_iff hm fun e => ⟨fun member => ?_, fun member => ?_⟩
  · exact mem_of_lookup ((same e.1).symm.trans (lookup_of_mem hl member))
  · exact mem_of_lookup ((same e.1).trans (lookup_of_mem hm member))

variable {m : BTreeMap κ α}

namespace BTreeMap

def empty : BTreeMap κ α := ⟨[], .nil⟩

variable (m : BTreeMap κ α)

def get (k : κ) : Option α := lookup k m.entries

def insert (k : κ) (v : α) : BTreeMap κ α :=
  ⟨insertEntry k v m.entries, insertEntry_sorted k v m.sorted⟩

variable (p : κ → α → Bool)

def retain : BTreeMap κ α :=
  ⟨m.entries.filter (fun e => p e.1 e.2), m.sorted.filter _⟩

def remove (k : κ) : BTreeMap κ α := m.retain (fun k' _ => k' != k)

def containsKey (k : κ) : Bool := (m.get k).isSome

def len : Nat := m.entries.length

def keys : List κ := m.entries.map Prod.fst

def values : List α := m.entries.map Prod.snd

def sum (f : κ → α → Nat) : Nat := weigh f m.entries

def first : Option (κ × α) := m.entries.head?

def count : Nat :=
  (m.entries.filter (fun e => p e.1 e.2)).length

def keysWhere : List κ :=
  (m.entries.filter (fun e => p e.1 e.2)).map Prod.fst

@[simp] theorem get_empty (k : κ) : (empty : BTreeMap κ α).get k = none := rfl

@[grind =] theorem get_insert (k k' : κ) (v : α) :
    (m.insert k v).get k' = if k' = k then some v else m.get k' :=
  lookup_insertEntry k k' v m.entries

@[simp] theorem get_insert_self (k : κ) (v : α) : (m.insert k v).get k = some v := by
  simp [get_insert]

theorem get_retain (k : κ) : (m.retain p).get k = (m.get k).filter (p k) :=
  lookup_filter p k m.sorted

@[grind =] theorem get_remove (k k' : κ) :
    (m.remove k).get k' = if k' = k then none else m.get k' := by
  rw [remove, get_retain]
  by_cases hk : k' = k
  · cases m.get k' <;> simp [hk, Option.filter]
  · cases m.get k' <;> simp [hk, Option.filter]

@[simp] theorem get_remove_self (k : κ) : (m.remove k).get k = none := by
  simp [get_remove]

theorem get_insert_update [DecidableEq κ] (k : κ) (v : α) :
    (m.insert k v).get = Function.update m.get k (some v) := by
  funext j
  rw [get_insert, Function.update_apply]
  congr

theorem get_remove_update [DecidableEq κ] (k : κ) :
    (m.remove k).get = Function.update m.get k none := by
  funext j
  rw [get_remove, Function.update_apply]
  congr

theorem ext_get {n : BTreeMap κ α} (same : ∀ k, m.get k = n.get k) : m = n := by
  cases m with
  | mk l hl =>
    cases n with
    | mk r hr =>
      have eq : l = r := entries_ext hl hr same
      subst eq
      rfl

theorem mem_entries (k : κ) (v : α) : (k, v) ∈ m.entries ↔ m.get k = some v :=
  ⟨lookup_of_mem m.sorted, mem_of_lookup⟩

variable {m : BTreeMap κ α} {l : List κ} {v : α}

theorem mem_values (found : m.get k = some v) : v ∈ m.values :=
  mem_map.mpr ⟨(k, v), (m.mem_entries k v).mpr found, rfl⟩

theorem mem_keys (k : κ) : k ∈ m.keys ↔ (m.get k).isSome := by
  constructor
  · intro h
    obtain ⟨e, he, rfl⟩ := mem_map.mp h
    rw [(m.mem_entries e.1 e.2).mp he]
    rfl
  · intro h
    obtain ⟨v, hv⟩ := Option.isSome_iff_exists.mp h
    exact mem_map.mpr ⟨(k, v), (m.mem_entries k v).mpr hv, rfl⟩

theorem keys_nodup : m.keys.Nodup := by
  rw [keys, List.Nodup, pairwise_map]
  exact m.sorted.imp (fun h => ne_of_lt h)

theorem sum_insert (f : κ → α → Nat) (k : κ) (v : α) :
    (m.insert k v).sum f + (m.get k).elim 0 (f k) = m.sum f + f k v :=
  weigh_insertEntry f k v m.sorted

theorem sum_remove (f : κ → α → Nat) (k : κ) :
    (m.remove k).sum f + (m.get k).elim 0 (f k) = m.sum f :=
  weigh_filter f k m.sorted

theorem sum_of_eq_away {n : BTreeMap κ α} (f : κ → α → Nat)
    (away : ∀ j, j ≠ k → n.get j = m.get j) :
    n.sum f + (m.get k).elim 0 (f k) = m.sum f + (n.get k).elim 0 (f k) := by
  have same : n.remove k = m.remove k := by
    apply ext_get
    intro j
    by_cases hj : j = k
    · simp [hj]
    · simp [get_remove, hj, away j hj]
  have hm := m.sum_remove f k
  have hn := n.sum_remove f k
  rw [same] at hn
  omega

theorem len_eq_sum : m.len = m.sum (fun _ _ => 1) := by
  rw [len, sum, weigh, map_const', sum_const_nat, Nat.mul_one]

theorem len_insert (k : κ) (v : α) :
    (m.insert k v).len + (m.get k).elim 0 (fun _ => 1) = m.len + 1 := by
  rw [len_eq_sum, len_eq_sum]
  exact m.sum_insert (fun _ _ => 1) k v

theorem len_remove (k : κ) : (m.remove k).len + (m.get k).elim 0 (fun _ => 1) = m.len := by
  rw [len_eq_sum, len_eq_sum]
  exact m.sum_remove (fun _ _ => 1) k

theorem len_split (nodup : l.Nodup) :
    m.len = l.countP (fun k => (m.get k).isSome) + m.keys.countP (· ∉ l) := by
  have listed : (m.keys.filter (· ∈ l)).Perm (l.filter (fun k => (m.get k).isSome)) := by
    rw [perm_ext_iff_of_nodup (m.keys_nodup.filter _) (nodup.filter _)]
    simp [mem_keys, and_comm]
  have halves := length_eq_countP_add_countP (fun k => decide (k ∈ l)) (l := m.keys)
  rw [countP_eq_length_filter, listed.length_eq, ← countP_eq_length_filter, keys] at halves
  simpa [len, keys] using halves

theorem countP_get_le (nodup : l.Nodup) : l.countP (fun k => (m.get k).isSome) ≤ m.len := by
  rw [m.len_split nodup]
  exact Nat.le_add_right _ _

theorem len_of_same_off {β : Type v} {n : BTreeMap κ β} (nodup : l.Nodup)
    (same : ∀ k, k ∉ l → (m.get k).isSome = (n.get k).isSome) :
    m.len + l.countP (fun k => (n.get k).isSome) =
      n.len + l.countP (fun k => (m.get k).isSome) := by
  have off : (m.keys.filter (· ∉ l)).Perm (n.keys.filter (· ∉ l)) := by
    rw [perm_ext_iff_of_nodup (m.keys_nodup.filter _) (n.keys_nodup.filter _)]
    intro k
    simp only [mem_filter, mem_keys, decide_eq_true_eq]
    refine and_congr_left fun absent => ?_
    rw [same k absent]
  have counted := off.length_eq
  rw [← countP_eq_length_filter, ← countP_eq_length_filter] at counted
  rw [m.len_split nodup, n.len_split nodup]
  omega

theorem count_eq_sum : m.count p = m.sum (fun k v => (p k v).toNat) := by
  rw [count, sum, weigh]
  induction m.entries with
  | nil => rfl
  | cons e l ih =>
    by_cases kept : p e.1 e.2 = true
    · simp [kept, ih, Nat.add_comm]
    · simp [kept, ih]

theorem get_of_first (h : m.first = some (k, v)) : m.get k = some v :=
  (m.mem_entries k v).mp (mem_of_mem_head? h)

theorem first_le {w : α} {j : κ} (h : m.first = some (k, v))
    (found : m.get j = some w) : k ≤ j := by
  have member := (m.mem_entries j w).mpr found
  have sorted := m.sorted
  obtain ⟨rest, cons⟩ := head?_eq_some_iff.mp h
  rw [cons] at member sorted
  rcases mem_cons.mp member with same | later
  · cases same
    exact le_refl _
  · exact le_of_lt (rel_of_pairwise_cons sorted later)

theorem mem_keysWhere {p : κ → α → Bool} :
    k ∈ m.keysWhere p ↔ ∃ v, m.get k = some v ∧ p k v = true := by
  constructor
  · intro h
    obtain ⟨e, he, rfl⟩ := mem_map.mp h
    obtain ⟨member, kept⟩ := mem_filter.mp he
    exact ⟨e.2, (m.mem_entries e.1 e.2).mp member, kept⟩
  · rintro ⟨v, found, kept⟩
    exact mem_map.mpr ⟨(k, v), mem_filter.mpr ⟨(m.mem_entries k v).mpr found, kept⟩, rfl⟩

theorem keysWhere_nodup : (m.keysWhere p).Nodup :=
  (filter_sublist.map Prod.fst).nodup m.keys_nodup

theorem insert_insert (k : κ) (v w : α) : (m.insert k v).insert k w = m.insert k w := by
  apply ext_get
  intro j
  simp only [get_insert]
  split <;> rfl

theorem remove_insert (k : κ) (v : α) : (m.insert k v).remove k = m.remove k := by
  apply ext_get
  intro j
  simp only [get_remove, get_insert]
  split <;> rfl

theorem sum_le {f g : κ → α → Nat} (le : ∀ k v, f k v ≤ g k v) : m.sum f ≤ m.sum g := by
  exact List.sum_le_sum fun e _ => le e.1 e.2

theorem sum_retain_le (f : κ → α → Nat) (p : κ → α → Bool) : (m.retain p).sum f ≤ m.sum f := by
  exact (filter_sublist.map _).sum_le_sum fun _ _ => Nat.zero_le _

theorem le_sum (f : κ → α → Nat) (h : m.get k = some v) : f k v ≤ m.sum f := by
  have erased := m.sum_remove f k
  rw [h, Option.elim_some] at erased
  omega

end BTreeMap

end Collections
