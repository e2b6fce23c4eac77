import Mathlib.Data.List.Perm.Basic

/-!
# A stream with one consumer group

Entries are numbered by their place in the stream. A group reads each entry once;
what it has read stays pending, with the number of its deliveries, until it is
acknowledged. The cursor and the pending list stay inside the stream by construction.
-/
namespace Ragx

structure RedisStream (φ : Type*) where
  entries : List φ
  /-- Entries below this number have been read by the group. -/
  lastDelivered : ℕ
  /-- Numbers of unacknowledged entries, with how often each was delivered. -/
  pending : List (ℕ × ℕ)
  cursor_le : lastDelivered ≤ entries.length
  pending_lt : ∀ p ∈ pending, p.1 < lastDelivered

namespace RedisStream

variable {φ : Type*}

def empty : RedisStream φ := ⟨[], 0, [], Nat.le_refl 0, by simp⟩

/-- XADD -/
def xadd (s : RedisStream φ) (fields : φ) : RedisStream φ where
  entries := s.entries ++ [fields]
  lastDelivered := s.lastDelivered
  pending := s.pending
  cursor_le := Nat.le_trans s.cursor_le (by simp)
  pending_lt := s.pending_lt

/-- The next entries that the group has not read, at most `count`. -/
def unread (s : RedisStream φ) (count : ℕ) : List ℕ :=
  List.range' s.lastDelivered (min count (s.entries.length - s.lastDelivered))

/-- XREADGROUP with the id `>`: delivers `unread count`. -/
def xreadgroup (s : RedisStream φ) (count : ℕ) : RedisStream φ where
  entries := s.entries
  lastDelivered := s.lastDelivered + min count (s.entries.length - s.lastDelivered)
  pending := s.pending ++ (s.unread count).map fun id => (id, 1)
  cursor_le := by
    have := s.cursor_le
    omega
  pending_lt := by
    intro p hp
    rcases List.mem_append.mp hp with hp | hp
    · exact Nat.lt_of_lt_of_le (s.pending_lt p hp) (Nat.le_add_right _ _)
    · obtain ⟨id, hid, rfl⟩ := List.mem_map.mp hp
      exact (List.mem_range'_1.mp hid).2

/-- XACK -/
def xack (s : RedisStream φ) (id : ℕ) : RedisStream φ where
  entries := s.entries
  lastDelivered := s.lastDelivered
  pending := s.pending.filter fun p => p.1 ≠ id
  cursor_le := s.cursor_le
  pending_lt p hp := s.pending_lt p (List.mem_filter.mp hp).1

/-- XPENDING for one entry: how often it was delivered, if it is pending. -/
def timesDelivered (s : RedisStream φ) (id : ℕ) : Option ℕ :=
  (s.pending.find? fun p => p.1 = id).map Prod.snd

theorem mem_unread {s : RedisStream φ} {count id : ℕ} :
    id ∈ s.unread count ↔
      s.lastDelivered ≤ id ∧ id < (s.xreadgroup count).lastDelivered :=
  List.mem_range'_1

theorem nodup_unread (s : RedisStream φ) (count : ℕ) : (s.unread count).Nodup :=
  List.nodup_range'

/-- A delivery count on record is that of a pending entry. -/
theorem timesDelivered_eq_some {s : RedisStream φ} {id n : ℕ}
    (h : s.timesDelivered id = some n) : (id, n) ∈ s.pending := by
  obtain ⟨p, hp, rfl⟩ := Option.map_eq_some_iff.mp h
  have hid : p.1 = id := by simpa using List.find?_some hp
  rw [← hid]
  exact List.mem_of_find?_eq_some hp

/-- Without claims every entry is delivered once: that is what the group's reads leave
behind, and what acknowledgements keep. -/
def DeliveredOnce (s : RedisStream φ) : Prop := ∀ p ∈ s.pending, p.2 = 1

theorem deliveredOnce_xreadgroup {s : RedisStream φ} (h : s.DeliveredOnce) (count : ℕ) :
    (s.xreadgroup count).DeliveredOnce := by
  intro p hp
  rcases List.mem_append.mp hp with hp | hp
  · exact h p hp
  · obtain ⟨id, _, rfl⟩ := List.mem_map.mp hp
    rfl

theorem deliveredOnce_xack {s : RedisStream φ} (h : s.DeliveredOnce) (id : ℕ) :
    (s.xack id).DeliveredOnce := fun p hp => h p (List.mem_filter.mp hp).1

end RedisStream

end Ragx
