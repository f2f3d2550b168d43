import Mathlib.Logic.Function.Basic
import Mathlib.Data.Fintype.Basic
import AuroraGateway.Foundation.MachineInt
import AuroraGateway.Foundation.Mirror
import AuroraGateway.ResponseCompression.Compressor

/-!
# The sharded store of cached responses

Entries are shared by reference counting: a thread that has looked up an entry
keeps it alive after the store has dropped it.  The heap of the model holds every
entry that was ever stored, and a shard refers to its entries by their address.
Byte counts are natural numbers; they count memory that is in use.
-/

namespace AuroraGateway.ResponseCache

open Foundation ResponseCompression

abbrev numShards : Nat := 16

instance : NeZero numShards := ⟨by decide⟩

/-! ## Entries -/

structure CacheEntry where
  key : Bytes
  status : Nat
  contentType : Bytes
  headers : List (Bytes × Bytes)
  createdAtEpochSec : Nat
  expiresAtEpochSec : Nat
  lastAccessedEpochSec : Nat
  rawBody : Bytes
  variants : HashTable CompressionAlgorithm Bytes
  entrySize : Nat
  deriving DecidableEq

namespace CacheEntry

/-- `structBytes` is the size of the entry structure on the target platform. -/
def new (structBytes : Nat) (key : Bytes) (status : Nat) (contentType : Bytes)
    (headers : List (Bytes × Bytes)) (createdAtEpochSec ttlSecs : Nat)
    (rawBody : Bytes) : CacheEntry :=
  let headersSize := (headers.map fun h => h.1.length + h.2.length).sum
  { key, status, contentType, headers, createdAtEpochSec
    expiresAtEpochSec := min (createdAtEpochSec + ttlSecs) u64Max
    lastAccessedEpochSec := createdAtEpochSec
    rawBody
    variants := .empty
    entrySize :=
      structBytes + key.length + contentType.length + headersSize + rawBody.length }

/-- The entry, the bytes that count as the variant, and how many bytes were added. -/
def storeVariant (entry : CacheEntry) (algo : CompressionAlgorithm)
    (variantBytes : Bytes) : CacheEntry × Bytes × Nat :=
  match entry.variants.get? algo with
  | some existing => (entry, existing, 0)
  | none =>
    let addedBytes := variantBytes.length
    ({ entry with
        variants := entry.variants.insert algo variantBytes
        entrySize := entry.entrySize + addedBytes }, variantBytes, addedBytes)

def getVariant (entry : CacheEntry) (algo : CompressionAlgorithm) : Option Bytes :=
  entry.variants.get? algo

def isExpired (entry : CacheEntry) (nowSec : Nat) : Bool :=
  entry.expiresAtEpochSec ≤ nowSec

variable (entry : CacheEntry) (algo : CompressionAlgorithm) (variantBytes : Bytes)

@[simp] theorem storeVariant_key :
    (entry.storeVariant algo variantBytes).1.key = entry.key := by
  unfold storeVariant
  split <;> simp

@[simp] theorem storeVariant_expiresAt :
    (entry.storeVariant algo variantBytes).1.expiresAtEpochSec = entry.expiresAtEpochSec := by
  unfold storeVariant
  split <;> simp

@[simp] theorem storeVariant_entrySize :
    (entry.storeVariant algo variantBytes).1.entrySize =
      entry.entrySize + (entry.storeVariant algo variantBytes).2.2 := by
  unfold storeVariant
  split <;> simp

end CacheEntry

/-! ## Shards -/

/-- The address behind an `Arc<CacheEntry>`. -/
abbrev Arc := Nat

structure ShardState where
  entries : HashTable Bytes Arc
  lruOrder : List Bytes
  currentBytes : Nat

namespace ShardState

variable (size : Arc → Nat)

def new : ShardState := ⟨.empty, [], 0⟩

def remove (shard : ShardState) (key : Bytes) (arc : Arc) : ShardState where
  entries := shard.entries.erase key
  lruOrder := shard.lruOrder.filter fun k => k ≠ key
  currentBytes := shard.currentBytes - size arc

/-- Pop keys from the front of the queue and drop their entries while there are too
many bytes.  The loop of `record_variant_memory` spares the entry that it is called
for and stops there. -/
def evictLoop (tooBig : Nat → Bool) (spared : Option Bytes) :
    List Bytes → HashTable Bytes Arc → Nat → ShardState
  | [], entries, currentBytes => ⟨entries, [], currentBytes⟩
  | evictedKey :: rest, entries, currentBytes =>
    if tooBig currentBytes then
      if spared = some evictedKey then ⟨entries, rest ++ [evictedKey], currentBytes⟩
      else
        match entries.get? evictedKey with
        | some evicted =>
          evictLoop tooBig spared rest (entries.erase evictedKey)
            (currentBytes - size evicted)
        | none => evictLoop tooBig spared rest entries currentBytes
    else ⟨entries, evictedKey :: rest, currentBytes⟩

def evict (tooBig : Nat → Bool) (spared : Option Bytes) (shard : ShardState) : ShardState :=
  evictLoop size tooBig spared shard.lruOrder shard.entries shard.currentBytes

/-- The first half of `insert`: drop the entry that is replaced, and evict. -/
def makeRoom (maxShardBytes entryBytes : Nat) (key : Bytes) (shard : ShardState) :
    ShardState :=
  let shard :=
    match shard.entries.get? key with
    | some old => shard.remove size key old
    | none => shard
  shard.evict size (fun currentBytes => maxShardBytes < currentBytes + entryBytes) none

def push (key : Bytes) (arc : Arc) (entryBytes : Nat) (shard : ShardState) : ShardState where
  entries := shard.entries.insert key arc
  lruOrder := shard.lruOrder ++ [key]
  currentBytes := shard.currentBytes + entryBytes

def recordVariant (maxShardBytes : Nat) (key : Bytes) (addedBytes : Nat)
    (shard : ShardState) : ShardState :=
  { shard with currentBytes := shard.currentBytes + addedBytes }.evict size
    (fun currentBytes => maxShardBytes < currentBytes) (some key)

def residentBytes (shard : ShardState) : Nat := shard.entries.total size

def Mirrored (shard : ShardState) : Prop := Mirrors shard.lruOrder shard.entries

theorem new_mirrored : new.Mirrored := Mirrors.empty

/-! ### What removals do -/

/-- Entries have gone, and their bytes have been taken off as far as there were any. -/
structure Shrinks (before after : ShardState) : Prop where
  sub : ∀ {key arc}, after.entries.get? key = some arc → before.entries.get? key = some arc
  account : ∃ removed, after.residentBytes size + removed = before.residentBytes size ∧
    after.currentBytes = before.currentBytes - removed
  mirrored : before.Mirrored → after.Mirrored

namespace Shrinks

variable {size} {before middle after : ShardState}

theorem refl (shard : ShardState) : Shrinks size shard shard where
  sub h := h
  account := ⟨0, rfl, rfl⟩
  mirrored h := h

theorem trans (h : Shrinks size before middle) (h' : Shrinks size middle after) :
    Shrinks size before after where
  sub hkey := h.sub (h'.sub hkey)
  account := by
    obtain ⟨removed, hresident, hcurrent⟩ := h.account
    obtain ⟨removed', hresident', hcurrent'⟩ := h'.account
    exact ⟨removed + removed', by omega, by omega⟩
  mirrored hm := h'.mirrored (h.mirrored hm)

end Shrinks

theorem sub_erase {t : HashTable Bytes Arc} {key key' : Bytes} {arc : Arc}
    (h : (t.erase key').get? key = some arc) : t.get? key = some arc := by
  by_cases hkey : key = key'
  · simp [hkey] at h
  · rwa [HashTable.get?_erase_of_ne t hkey] at h

theorem remove_shrinks {shard : ShardState} {key : Bytes} {arc : Arc}
    (h : shard.entries.get? key = some arc) :
    Shrinks size shard (shard.remove size key arc) where
  sub := sub_erase
  account := ⟨size arc, HashTable.total_erase h size, rfl⟩
  mirrored hm := Mirrors.remove hm key

/-- The queue names only entries that are there, so every key that is popped is the
key of an entry that goes. -/
theorem evictLoop_shrinks (tooBig : Nat → Bool) (spared : Option Bytes)
    {order : List Bytes} {entries : HashTable Bytes Arc} (hmirrors : Mirrors order entries)
    (currentBytes : Nat) :
    Shrinks size ⟨entries, order, currentBytes⟩
      (evictLoop size tooBig spared order entries currentBytes) := by
  induction order generalizing entries currentBytes with
  | nil => exact .refl _
  | cons evictedKey rest ih =>
    unfold evictLoop
    split_ifs with hover hspared
    · exact ⟨id, ⟨0, rfl, rfl⟩, Mirrors.rotate⟩
    · obtain ⟨evicted, hget⟩ := hmirrors.get?_head
      rw [hget]
      have hstep : Shrinks size ⟨entries, evictedKey :: rest, currentBytes⟩
          ⟨entries.erase evictedKey, rest, currentBytes - size evicted⟩ :=
        ⟨sub_erase, ⟨size evicted, HashTable.total_erase hget size, rfl⟩, Mirrors.pop⟩
      exact hstep.trans (ih hmirrors.pop _)
    · exact .refl _

theorem evict_shrinks (tooBig : Nat → Bool) (spared : Option Bytes) {shard : ShardState}
    (hmirrored : shard.Mirrored) : Shrinks size shard (shard.evict size tooBig spared) :=
  evictLoop_shrinks size tooBig spared hmirrored shard.currentBytes

section MakeRoom

variable (maxShardBytes entryBytes : Nat) (key : Bytes) {shard : ShardState}

theorem makeRoom_shrinks (hmirrored : shard.Mirrored) :
    Shrinks size shard (shard.makeRoom size maxShardBytes entryBytes key) := by
  unfold makeRoom
  cases hget : shard.entries.get? key with
  | none => exact evict_shrinks size _ none hmirrored
  | some old =>
    have hremove := remove_shrinks size hget
    exact hremove.trans (evict_shrinks size _ none (hremove.mirrored hmirrored))

theorem get?_makeRoom_self (hmirrored : shard.Mirrored) :
    (shard.makeRoom size maxShardBytes entryBytes key).entries.get? key = none := by
  rw [Option.eq_none_iff_forall_ne_some]
  intro arc harc
  cases hget : shard.entries.get? key with
  | none =>
    have := (makeRoom_shrinks size maxShardBytes entryBytes key hmirrored).sub harc
    simp [hget] at this
  | some old =>
    simp only [makeRoom, hget] at harc
    have hremove := remove_shrinks size hget
    have := (evict_shrinks size _ none (hremove.mirrored hmirrored)).sub harc
    simp [remove] at this

theorem push_mirrored (hmirrored : shard.Mirrored) (hget : shard.entries.get? key = none)
    (arc : Arc) : (shard.push key arc entryBytes).Mirrored :=
  Mirrors.push hmirrored hget arc

end MakeRoom

theorem recordVariant_shrinks (maxShardBytes : Nat) (key : Bytes) (addedBytes : Nat)
    {shard : ShardState} (hmirrored : shard.Mirrored) :
    Shrinks size { shard with currentBytes := shard.currentBytes + addedBytes }
      (shard.recordVariant size maxShardBytes key addedBytes) :=
  evict_shrinks size _ (some key) hmirrored

end ShardState

/-! ## The store -/

structure ShardedLruCache where
  heap : Arc → CacheEntry
  /-- The address of the next entry that is stored. -/
  next : Arc
  shards : Fin numShards → ShardState
  maxMemoryBytes : Nat
  maxShardBytes : Nat
  /-- The shard of a key, from the hash function of a third-party crate. -/
  getShardIndex : Bytes → Fin numShards

namespace ShardedLruCache

def unused : CacheEntry := .new 0 [] 0 [] [] 0 0 []

def new (getShardIndex : Bytes → Fin numShards) (maxMemoryMb : Nat) : ShardedLruCache :=
  let maxMemoryBytes := wrapU64 (maxMemoryMb * 1024 * 1024)
  { heap := fun _ => unused
    next := 0
    shards := fun _ => .new
    maxMemoryBytes
    maxShardBytes := max (maxMemoryBytes / numShards) (64 * 1024)
    getShardIndex }

variable (cache : ShardedLruCache) (key : Bytes)

def size (arc : Arc) : Nat := (cache.heap arc).entrySize

def shardOf : ShardState :=
  cache.shards (cache.getShardIndex key)

def setShardOf (shard : ShardState) : ShardedLruCache :=
  { cache with shards := Function.update cache.shards (cache.getShardIndex key) shard }

def write (arc : Arc) (entry : CacheEntry) : ShardedLruCache :=
  { cache with heap := Function.update cache.heap arc entry }

inductive ReadOutcome where
  | absent
  | expired
  | fresh (arc : Arc)
  deriving DecidableEq, Repr

/-- The part of `get` under the read lock. -/
def read (nowSec : Nat) : ShardedLruCache × ReadOutcome :=
  match (cache.shardOf key).entries.get? key with
  | none => (cache, .absent)
  | some arc =>
    if (cache.heap arc).isExpired nowSec then (cache, .expired)
    else
      (cache.write arc { cache.heap arc with lastAccessedEpochSec := nowSec }, .fresh arc)

/-- The part of `get` under the write lock, which looks again. -/
def purge (nowSec : Nat) : ShardedLruCache :=
  match (cache.shardOf key).entries.get? key with
  | none => cache
  | some arc =>
    if (cache.heap arc).isExpired nowSec then
      cache.setShardOf key ((cache.shardOf key).remove cache.size key arc)
    else cache

def get (nowSec : Nat) : ShardedLruCache × Option Arc :=
  match cache.read key nowSec with
  | (cache, .absent) => (cache, none)
  | (cache, .fresh arc) => (cache, some arc)
  | (cache, .expired) => (cache.purge key nowSec, none)

def insert (entry : CacheEntry) : ShardedLruCache :=
  let key := entry.key
  let entryBytes := entry.entrySize
  let room := (cache.shardOf key).makeRoom cache.size cache.maxShardBytes entryBytes key
  let cache := cache.setShardOf key (room.push key cache.next entryBytes)
  { cache.write cache.next entry with next := cache.next + 1 }

def recordVariantMemory (addedBytes : Nat) : ShardedLruCache :=
  if addedBytes = 0 then cache
  else
    cache.setShardOf key
      ((cache.shardOf key).recordVariant cache.size cache.maxShardBytes key addedBytes)

def storeVariant (arc : Arc) (algo : CompressionAlgorithm) (variantBytes : Bytes) :
    ShardedLruCache × Bytes × Nat :=
  let (entry, canonical, addedBytes) := (cache.heap arc).storeVariant algo variantBytes
  (cache.write arc entry, canonical, addedBytes)

def totalMemoryBytes : Nat :=
  ((List.finRange numShards).map fun i => (cache.shards i).currentBytes).sum

end ShardedLruCache

end AuroraGateway.ResponseCache
