import AuroraGateway.ConnectionLimit.Types
import AuroraGateway.Foundation.HashTable

/-!
# The sharded connection tracker

The tracker counts the connections of a key.  A key lives in the shard that its
hash selects, and a key without connections has no entry.  What the operations
do is said by the count of each key.
-/

namespace AuroraGateway.ConnectionLimit

open Foundation

abbrev ConnShard := HashTable Bytes Nat

abbrev ShardedConnTracker := Fin numShards → ConnShard

namespace ShardedConnTracker

def new : ShardedConnTracker := fun _ => .empty

/-- The source unrolls the loop over the bytes four times. -/
def hashKey (key : Bytes) : Fin numShards :=
  let hash := key.foldl
    (fun hash byte => (hash ^^^ byte.toUInt64) * 0x100000001b3) (0xcbf29ce484222325 : UInt64)
  Fin.ofNat numShards (hash &&& UInt64.ofNat (numShards - 1)).toNat

variable (tracker : ShardedConnTracker)

def acquire (key : Bytes) (maxConnections : Nat) : ShardedConnTracker × Bool × Nat :=
  let shardIdx := hashKey key
  let map := tracker shardIdx
  match map.get? key with
  | some count =>
    if maxConnections ≤ count then (tracker, false, count)
    else
      (Function.update tracker shardIdx (map.insert key (wrapU32 (count + 1))), true,
        wrapU32 (count + 1))
  | none => (Function.update tracker shardIdx (map.insert key 1), true, 1)

def release (key : Bytes) : ShardedConnTracker :=
  let shardIdx := hashKey key
  let map := tracker shardIdx
  match map.get? key with
  | some count =>
    if 1 < count then Function.update tracker shardIdx (map.insert key (count - 1))
    else Function.update tracker shardIdx (map.erase key)
  | none => tracker

/-! ## Counts -/

def count (key : Bytes) : Nat :=
  ((tracker (hashKey key)).get? key).getD 0

variable (tracker : ShardedConnTracker) (key : Bytes)

@[simp] theorem count_new : count new key = 0 := rfl

theorem count_update {map : ConnShard}
    (hmap : ∀ key', key' ≠ key → map.get? key' = (tracker (hashKey key)).get? key') :
    count (Function.update tracker (hashKey key) map) =
      Function.update tracker.count key ((map.get? key).getD 0) := by
  funext key'
  by_cases hkey : key' = key
  · subst hkey
    rw [count, Function.update_self, Function.update_self]
  · rw [Function.update_of_ne hkey, count, count]
    by_cases hshard : hashKey key' = hashKey key
    · rw [hshard, Function.update_self, hmap key' hkey]
    · rw [Function.update_of_ne hshard]

theorem count_insert (n : Nat) :
    count (Function.update tracker (hashKey key) ((tracker (hashKey key)).insert key n)) =
      Function.update tracker.count key n := by
  rw [count_update, HashTable.get?_insert_self, Option.getD_some]
  exact fun key' hkey => HashTable.get?_insert_of_ne _ _ hkey

theorem count_erase :
    count (Function.update tracker (hashKey key) ((tracker (hashKey key)).erase key)) =
      Function.update tracker.count key 0 := by
  rw [count_update, HashTable.get?_erase_self, Option.getD_none]
  exact fun key' hkey => HashTable.get?_erase_of_ne _ hkey

variable {tracker : ShardedConnTracker}

theorem acquire_granted {key : Bytes} {maxConnections : Nat}
    (h : tracker.count key < maxConnections) (hlt : maxConnections < 2 ^ 32) :
    ∃ next, acquire tracker key maxConnections = (next, true, tracker.count key + 1) ∧
      next.count = Function.update tracker.count key (tracker.count key + 1) := by
  cases hget : (tracker (hashKey key)).get? key with
  | none =>
    have hcount : tracker.count key = 0 := by rw [count, hget, Option.getD_none]
    refine ⟨_, ?_, count_insert tracker key _⟩
    simp only [acquire, hget, hcount]
  | some n =>
    have hcount : tracker.count key = n := by rw [count, hget, Option.getD_some]
    refine ⟨_, ?_, count_insert tracker key _⟩
    rw [hcount] at h ⊢
    simp only [acquire, hget]
    rw [if_neg (Nat.not_le_of_lt h), wrapU32_of_lt (by omega)]

theorem acquire_refused {key : Bytes} {maxConnections : Nat}
    (h : maxConnections ≤ tracker.count key) (hpos : 0 < maxConnections) :
    acquire tracker key maxConnections = (tracker, false, tracker.count key) := by
  cases hget : (tracker (hashKey key)).get? key with
  | none =>
    rw [count, hget, Option.getD_none] at h
    omega
  | some n =>
    have hcount : tracker.count key = n := by rw [count, hget, Option.getD_some]
    rw [hcount] at h ⊢
    simp only [acquire, hget]
    rw [if_pos h]

theorem count_release :
    (release tracker key).count =
      Function.update tracker.count key (tracker.count key - 1) := by
  cases hget : (tracker (hashKey key)).get? key with
  | none =>
    have hcount : tracker.count key = 0 := by rw [count, hget, Option.getD_none]
    simp only [release, hget, hcount, Nat.zero_sub]
    rw [← hcount, Function.update_eq_self]
  | some n =>
    have hcount : tracker.count key = n := by rw [count, hget, Option.getD_some]
    simp only [release, hget, hcount]
    split
    · exact count_insert tracker key _
    · rw [count_erase, Nat.sub_eq_zero_of_le (by omega)]

end ShardedConnTracker

end AuroraGateway.ConnectionLimit
