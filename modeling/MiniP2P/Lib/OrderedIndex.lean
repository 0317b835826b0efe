import MiniP2P.Lib.BTreeMap

/-! A map together with the queue of its keys. A new key goes to the end of the queue and a known
one keeps its place, so the queue lists every key once, in order of arrival. -/
namespace Collections

universe u v

structure OrderedIndex (κ : Type u) (α : Type v) [LinearOrder κ] where
  map : BTreeMap κ α
  order : List κ
  nodup : order.Nodup
  covers : ∀ k, k ∈ order ↔ (map.get k).isSome

namespace OrderedIndex

variable {κ : Type u} {α : Type v} [LinearOrder κ]

def empty : OrderedIndex κ α := ⟨.empty, [], .nil, by simp⟩

variable (m : OrderedIndex κ α)

def get (k : κ) : Option α := m.map.get k

def set (k : κ) (v : α) : OrderedIndex κ α where
  map := m.map.insert k v
  order := if (m.get k).isSome then m.order else m.order ++ [k]
  nodup := by
    split
    · exact m.nodup
    · rename_i new
      refine List.nodup_append.mpr ⟨m.nodup, by simp, ?_⟩
      rintro j known _ here rfl
      cases List.mem_singleton.mp here
      exact new ((m.covers _).mp known)
  covers := by
    intro j
    rw [BTreeMap.get_insert]
    by_cases here : j = k
    · subst here
      split <;> simp_all [m.covers, get]
    · split <;> simp [here, m.covers]

def remove (k : κ) : OrderedIndex κ α where
  map := m.map.remove k
  order := m.order.filter (· ≠ k)
  nodup := m.nodup.filter _
  covers := by
    intro j
    rw [BTreeMap.get_remove]
    by_cases here : j = k <;> simp [here, m.covers]

@[simp] theorem get_empty (k : κ) : (empty : OrderedIndex κ α).get k = none := rfl

@[grind =] theorem get_set (k j : κ) (v : α) :
    (m.set k v).get j = if j = k then some v else m.get j := m.map.get_insert k j v

@[grind =] theorem get_remove (k j : κ) :
    (m.remove k).get j = if j = k then none else m.get j := m.map.get_remove k j

theorem order_perm : m.order.Perm m.map.keys := by
  rw [List.perm_ext_iff_of_nodup m.nodup m.map.keys_nodup]
  intro k
  rw [m.covers, m.map.mem_keys]

theorem length_order : m.order.length = m.map.len := by
  rw [m.order_perm.length_eq, BTreeMap.keys, List.length_map, BTreeMap.len]

/-! ### The queue moves at one key -/

inductive Requeued (k : κ) (l : List κ) : List κ → Prop
  | same : Requeued k l l
  | left : Requeued k l (l.filter (· ≠ k))
  | joined (new : k ∉ l) : Requeued k l (l ++ [k])

theorem set_requeued (k : κ) (v : α) : Requeued k m.order (m.set k v).order := by
  change Requeued k m.order (if (m.get k).isSome then m.order else m.order ++ [k])
  split
  · exact .same
  · rename_i new
    exact .joined fun member => new ((m.covers k).mp member)

end OrderedIndex

end Collections
