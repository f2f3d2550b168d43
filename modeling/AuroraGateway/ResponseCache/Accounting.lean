import AuroraGateway.Foundation.Runs
import AuroraGateway.ResponseCache.Storage

/-!
# Memory accounting of the store

Threads share the store.  A lookup that finds an expired entry drops it under a
second lock; a lookup that finds a fresh entry hands it out, and its holder may
add compressed variants to it, first to the entry and then to the counter of the
shard.  Everything that happens under one lock is one step.
-/

namespace AuroraGateway.ResponseCache

open Foundation ResponseCompression HashTable ShardState

/-! ## Well-formed stores -/

namespace ShardedLruCache

/-- Every queue mirrors its table, and entries stand under their own keys. -/
structure Sound (cache : ShardedLruCache) : Prop where
  mirrored : ∀ i, (cache.shards i).Mirrored
  placed : ∀ {i key arc}, (cache.shards i).entries.get? key = some arc →
    arc < cache.next ∧ (cache.heap arc).key = key ∧ cache.getShardIndex key = i

theorem new_sound (getShardIndex : Bytes → Fin numShards) (maxMemoryMb : Nat) :
    (new getShardIndex maxMemoryMb).Sound where
  mirrored _ := ShardState.new_mirrored
  placed h := by simp [new, ShardState.new, get?, empty] at h

section SetShard

variable {cache : ShardedLruCache} {key : Bytes} {shard : ShardState}

@[simp] theorem setShardOf_heap : (cache.setShardOf key shard).heap = cache.heap := rfl

@[simp] theorem setShardOf_next : (cache.setShardOf key shard).next = cache.next := rfl

@[simp] theorem setShardOf_getShardIndex :
    (cache.setShardOf key shard).getShardIndex = cache.getShardIndex := rfl

@[simp] theorem setShardOf_size : (cache.setShardOf key shard).size = cache.size := rfl

@[simp] theorem setShardOf_shards_self :
    (cache.setShardOf key shard).shards (cache.getShardIndex key) = shard := by
  simp [setShardOf]

theorem setShardOf_shards_of_ne {i : Fin numShards} (h : i ≠ cache.getShardIndex key) :
    (cache.setShardOf key shard).shards i = cache.shards i := by
  simp [setShardOf, h]

theorem Sound.setShardOf (h : cache.Sound) (hmirrored : shard.Mirrored)
    (hsub : ∀ {k arc}, shard.entries.get? k = some arc →
      (cache.shardOf key).entries.get? k = some arc) :
    (cache.setShardOf key shard).Sound where
  mirrored i := by
    by_cases hi : i = cache.getShardIndex key
    · simpa [hi] using hmirrored
    · simpa [setShardOf_shards_of_ne hi] using h.mirrored i
  placed {i k arc} hk := by
    by_cases hi : i = cache.getShardIndex key
    · subst hi
      exact h.placed (hsub (by simpa using hk))
    · rw [setShardOf_shards_of_ne hi] at hk
      exact h.placed hk

theorem Sound.of_shrinks (h : cache.Sound)
    (hshrinks : ShardState.Shrinks cache.size (cache.shardOf key) shard) :
    (cache.setShardOf key shard).Sound :=
  h.setShardOf (hshrinks.mirrored (h.mirrored _)) hshrinks.sub

end SetShard

variable (cache : ShardedLruCache)

@[simp] theorem write_shards (arc : Arc) (entry : CacheEntry) :
    (cache.write arc entry).shards = cache.shards := rfl

variable {cache : ShardedLruCache}

theorem size_write {arc : Arc} {entry : CacheEntry}
    (hsize : entry.entrySize = (cache.heap arc).entrySize) :
    (cache.write arc entry).size = cache.size := by
  funext other
  by_cases hother : other = arc
  · simp [size, write, hother, hsize]
  · simp [size, write, hother]

theorem Sound.write (h : cache.Sound) {arc : Arc}
    {entry : CacheEntry} (hkey : entry.key = (cache.heap arc).key) :
    (cache.write arc entry).Sound where
  mirrored := h.mirrored
  placed {i key other} hother := by
    obtain ⟨hlt, hplace, hindex⟩ := h.placed hother
    refine ⟨hlt, ?_, hindex⟩
    by_cases heq : other = arc
    · subst heq
      simpa [ShardedLruCache.write, hkey] using hplace
    · simpa [ShardedLruCache.write, heq] using hplace

/-! ### What the operations do -/

inductive ReadResult (cache : ShardedLruCache) (key : Bytes) (nowSec : Nat) :
    ShardedLruCache × ReadOutcome → Prop
  | absent (h : (cache.shardOf key).entries.get? key = none) :
      ReadResult cache key nowSec (cache, .absent)
  | expired {arc : Arc} (h : (cache.shardOf key).entries.get? key = some arc)
      (hexpired : (cache.heap arc).isExpired nowSec = true) :
      ReadResult cache key nowSec (cache, .expired)
  | fresh {arc : Arc} (h : (cache.shardOf key).entries.get? key = some arc)
      (hfresh : (cache.heap arc).isExpired nowSec = false) :
      ReadResult cache key nowSec
        (cache.write arc { cache.heap arc with lastAccessedEpochSec := nowSec }, .fresh arc)

theorem read_result (key : Bytes) (nowSec : Nat) :
    ReadResult cache key nowSec (cache.read key nowSec) := by
  unfold read
  cases h : (cache.shardOf key).entries.get? key with
  | none => exact .absent h
  | some arc =>
    cases hexpired : (cache.heap arc).isExpired nowSec with
    | true => simpa [hexpired] using .expired h hexpired
    | false => simpa [hexpired] using .fresh h hexpired

theorem purge_eq (key : Bytes) (nowSec : Nat) :
    cache.purge key nowSec = cache ∨
      ∃ shard, cache.purge key nowSec = cache.setShardOf key shard ∧
        ShardState.Shrinks cache.size (cache.shardOf key) shard := by
  unfold purge
  cases h : (cache.shardOf key).entries.get? key with
  | none => exact .inl rfl
  | some arc =>
    by_cases hexpired : (cache.heap arc).isExpired nowSec = true
    · refine .inr ⟨_, if_pos hexpired, remove_shrinks _ h⟩
    · exact .inl (if_neg hexpired)

theorem storeVariant_eq_write (arc : Arc) (algo : CompressionAlgorithm) (variantBytes : Bytes) :
    (cache.storeVariant arc algo variantBytes).1 =
      cache.write arc ((cache.heap arc).storeVariant algo variantBytes).1 := rfl

section

variable (h : cache.Sound)
include h

theorem Sound.purge (key : Bytes) (nowSec : Nat) : (cache.purge key nowSec).Sound := by
  rcases cache.purge_eq key nowSec with heq | ⟨shard, heq, hshrinks⟩
  · rwa [heq]
  · rw [heq]
    exact h.of_shrinks hshrinks

theorem Sound.read (key : Bytes) (nowSec : Nat) : (cache.read key nowSec).1.Sound := by
  have hresult := cache.read_result key nowSec
  generalize cache.read key nowSec = result at hresult
  cases hresult with
  | absent => exact h
  | expired => exact h
  | fresh => exact h.write rfl

theorem Sound.storeVariant (arc : Arc) (algo : CompressionAlgorithm) (variantBytes : Bytes) :
    (cache.storeVariant arc algo variantBytes).1.Sound := by
  rw [storeVariant_eq_write]
  exact h.write (by simp)

theorem Sound.recordVariantMemory_sub {key k : Bytes} {addedBytes : Nat} {arc : Arc}
    (hget : ((cache.recordVariantMemory key addedBytes).shardOf key).entries.get? k = some arc) :
    (cache.shardOf key).entries.get? k = some arc := by
  unfold ShardedLruCache.recordVariantMemory at hget
  split at hget
  · exact hget
  · have hshrinks := recordVariant_shrinks cache.size cache.maxShardBytes key
      addedBytes (h.mirrored (cache.getShardIndex key))
    exact hshrinks.sub (by simpa [shardOf] using hget)

theorem Sound.recordVariantMemory (key : Bytes) (addedBytes : Nat) :
    (cache.recordVariantMemory key addedBytes).Sound := by
  unfold ShardedLruCache.recordVariantMemory
  split
  · exact h
  · have hshrinks := recordVariant_shrinks cache.size cache.maxShardBytes key
      addedBytes (h.mirrored (cache.getShardIndex key))
    exact h.setShardOf (hshrinks.mirrored (h.mirrored (cache.getShardIndex key)))
      hshrinks.sub

end

section Insert

variable {cache : ShardedLruCache} (entry : CacheEntry)

def roomFor (cache : ShardedLruCache) (entry : CacheEntry) : ShardState :=
  (cache.shardOf entry.key).makeRoom cache.size cache.maxShardBytes entry.entrySize entry.key

theorem Sound.roomFor_shrinks (h : cache.Sound) :
    ShardState.Shrinks cache.size (cache.shardOf entry.key) (cache.roomFor entry) :=
  makeRoom_shrinks _ _ _ _ (h.mirrored _)

theorem Sound.get?_roomFor (h : cache.Sound) :
    (cache.roomFor entry).entries.get? entry.key = none :=
  get?_makeRoom_self _ _ _ _ (h.mirrored _)

@[simp] theorem insert_shards_self :
    (cache.insert entry).shards (cache.getShardIndex entry.key) =
      (cache.roomFor entry).push entry.key cache.next entry.entrySize := by
  simp [insert, roomFor, write, setShardOf]

theorem insert_shards_of_ne {i : Fin numShards} (h : i ≠ cache.getShardIndex entry.key) :
    (cache.insert entry).shards i = cache.shards i := by
  simp [insert, write, setShardOf, h]

theorem insert_heap_next : (cache.insert entry).heap cache.next = entry := by
  simp [insert, write]

theorem insert_heap_of_lt {arc : Arc} (h : arc < cache.next) :
    (cache.insert entry).heap arc = cache.heap arc := by
  simp [insert, write, Nat.ne_of_lt h]

theorem get?_push_of_ne {shard : ShardState} {key key' : Bytes} (h : key' ≠ key) (arc : Arc)
    (entryBytes : Nat) :
    (shard.push key arc entryBytes).entries.get? key' = shard.entries.get? key' :=
  get?_insert_of_ne _ _ h

theorem Sound.insert (h : cache.Sound) : (cache.insert entry).Sound where
  mirrored i := by
    by_cases hi : i = cache.getShardIndex entry.key
    · rw [hi, insert_shards_self]
      exact push_mirrored _ _ ((h.roomFor_shrinks entry).mirrored (h.mirrored _))
        (h.get?_roomFor entry) _
    · rw [insert_shards_of_ne entry hi]
      exact h.mirrored i
  placed {i key arc} hget := by
    have hold : ∀ {i}, (cache.shards i).entries.get? key = some arc →
        arc < (cache.insert entry).next ∧ ((cache.insert entry).heap arc).key = key ∧
          (cache.insert entry).getShardIndex key = i := by
      intro i hi
      obtain ⟨hlt, hkey, hindex⟩ := h.placed hi
      exact ⟨Nat.lt_succ_of_lt hlt, by rw [insert_heap_of_lt entry hlt, hkey], hindex⟩
    by_cases hi : i = cache.getShardIndex entry.key
    · subst hi
      rw [insert_shards_self] at hget
      by_cases hkey : key = entry.key
      · subst hkey
        obtain rfl : cache.next = arc := by simpa [push] using hget
        exact ⟨Nat.lt_succ_self _, by rw [insert_heap_next], rfl⟩
      · rw [get?_push_of_ne hkey] at hget
        exact hold ((h.roomFor_shrinks entry).sub hget)
    · rw [insert_shards_of_ne entry hi] at hget
      exact hold hget

end Insert

/-! ## Counters -/

/-- The counter of every shard lacks only the bytes that are still to be recorded. -/
def Balances (cache : ShardedLruCache) (pending : Fin numShards → Nat) : Prop :=
  ∀ i, (cache.shards i).currentBytes + pending i = (cache.shards i).residentBytes cache.size

end ShardedLruCache

theorem ShardState.Shrinks.balanced {size : Arc → Nat} {before after : ShardState}
    {pending : Nat} (h : Shrinks size before after)
    (hpending : pending ≤ after.residentBytes size)
    (hbefore : before.currentBytes + pending = before.residentBytes size) :
    after.currentBytes + pending = after.residentBytes size := by
  obtain ⟨removed, hresident, hcurrent⟩ := h.account
  omega

namespace ShardedLruCache.Balances

variable {cache : ShardedLruCache} {pending : Fin numShards → Nat} {key : Bytes}

theorem new (getShardIndex : Bytes → Fin numShards) (maxMemoryMb : Nat) :
    Balances (.new getShardIndex maxMemoryMb) fun _ => 0 := fun _ => rfl

theorem residentBytes_congr (hsound : cache.Sound) {size : Arc → Nat}
    (hsize : ∀ arc < cache.next, size arc = cache.size arc)
    {i : Fin numShards} {shard : ShardState}
    (hsub : ∀ {key arc}, shard.entries.get? key = some arc →
      (cache.shards i).entries.get? key = some arc) :
    shard.residentBytes size = shard.residentBytes cache.size := by
  apply total_congr
  intro e he
  have hget := hsub (get?_eq_some_iff.mpr he)
  exact hsize e.2 (hsound.placed hget).1

section

variable (h : Balances cache pending)
include h

theorem insert (hsound : cache.Sound) (entry : CacheEntry)
    (hroom : pending (cache.getShardIndex entry.key) ≤
      (cache.roomFor entry).residentBytes cache.size) :
    Balances (cache.insert entry) pending := by
  intro i
  have hsize : ∀ arc < cache.next, (cache.insert entry).size arc = cache.size arc := by
    intro arc harc
    simp [size, insert_heap_of_lt entry harc]
  by_cases hi : i = cache.getShardIndex entry.key
  · subst hi
    have hshrinks := hsound.roomFor_shrinks entry
    have hbalanced := hshrinks.balanced hroom (h _)
    have hnew : (cache.insert entry).size cache.next = entry.entrySize := by
      simp [size, insert_heap_next]
    have hresident := residentBytes_congr hsound hsize hshrinks.sub
    rw [insert_shards_self]
    simp only [push, residentBytes] at hbalanced hresident ⊢
    rw [total_insert_of_none (hsound.get?_roomFor entry)]
    omega
  · rw [insert_shards_of_ne entry hi, residentBytes_congr hsound hsize fun hget => hget]
    exact h i

theorem setShardOf {pending' : Fin numShards → Nat} {shard : ShardState}
    (hother : ∀ i, i ≠ cache.getShardIndex key → pending' i = pending i)
    (hshard : shard.currentBytes + pending' (cache.getShardIndex key) =
      shard.residentBytes cache.size) : Balances (cache.setShardOf key shard) pending' := by
  intro i
  by_cases hi : i = cache.getShardIndex key
  · subst hi
    simpa using hshard
  · simpa [setShardOf_shards_of_ne hi, hother i hi] using h i

theorem purge {nowSec : Nat}
    (hstay : pending (cache.getShardIndex key) ≤
      ((cache.purge key nowSec).shardOf key).residentBytes cache.size) :
    Balances (cache.purge key nowSec) pending := by
  rcases cache.purge_eq key nowSec with heq | ⟨shard, heq, hshrinks⟩
  · rwa [heq]
  · rw [heq] at hstay ⊢
    apply h.setShardOf fun _ _ => rfl
    exact hshrinks.balanced (by simpa [shardOf] using hstay) (h _)

theorem write {arc : Arc} {entry : CacheEntry}
    (hsize : entry.entrySize = (cache.heap arc).entrySize) :
    Balances (cache.write arc entry) pending := by
  intro i
  rw [size_write hsize]
  exact h i

theorem read (key : Bytes) (nowSec : Nat) : Balances (cache.read key nowSec).1 pending := by
  have hresult := cache.read_result key nowSec
  generalize cache.read key nowSec = result at hresult
  cases hresult with
  | absent => exact h
  | expired => exact h
  | fresh => exact h.write rfl

theorem grow (hsound : cache.Sound) {arc : Arc} {entry : CacheEntry} {added : Nat}
    (hsize : entry.entrySize = (cache.heap arc).entrySize + added)
    (hresident : (cache.shardOf (cache.heap arc).key).entries.get? (cache.heap arc).key =
      some arc) :
    Balances (cache.write arc entry) fun i =>
      (if cache.getShardIndex (cache.heap arc).key = i then added else 0) + pending i := by
  have hother : ∀ other, other ≠ arc → (cache.write arc entry).size other = cache.size other := by
    intro other hne
    simp [size, ShardedLruCache.write, hne]
  have hself : (cache.write arc entry).size arc = cache.size arc + added := by
    simp [size, ShardedLruCache.write, hsize]
  intro i
  have hi := h i
  by_cases hindex : cache.getShardIndex (cache.heap arc).key = i
  · subst hindex
    have hgrow := total_grow hresident hself (by
      intro e he hkey
      apply hother
      rintro rfl
      exact hkey (hsound.placed (get?_eq_some_iff.mpr he)).2.1.symm)
    simp only [residentBytes, if_pos, ShardedLruCache.write, shardOf] at hgrow hi ⊢
    omega
  · have hsame : ((cache.write arc entry).shards i).residentBytes (cache.write arc entry).size =
        (cache.shards i).residentBytes cache.size := by
      apply total_congr
      intro e he
      apply hother
      rintro rfl
      have hplaced := hsound.placed (get?_eq_some_iff.mpr he)
      exact hindex (hplaced.2.1 ▸ hplaced.2.2)
    rw [hsame]
    simpa [hindex] using hi

end

theorem recordVariantMemory {addedBytes : Nat} (hsound : cache.Sound)
    (h : Balances cache fun i =>
      (if cache.getShardIndex key = i then addedBytes else 0) + pending i)
    (hstay : pending (cache.getShardIndex key) ≤
      ((cache.recordVariantMemory key addedBytes).shardOf key).residentBytes cache.size) :
    Balances (cache.recordVariantMemory key addedBytes) pending := by
  unfold ShardedLruCache.recordVariantMemory at hstay ⊢
  split at hstay
  · rename_i hzero
    intro i
    simpa [hzero] using h i
  · rename_i hadded
    rw [if_neg hadded]
    have hself := h (cache.getShardIndex key)
    have hshrinks := recordVariant_shrinks cache.size cache.maxShardBytes key
      addedBytes (hsound.mirrored (cache.getShardIndex key))
    apply h.setShardOf
    · intro i hi
      simp [Ne.symm hi]
    · apply hshrinks.balanced
      · simpa [shardOf] using hstay
      · simp only [if_pos, residentBytes] at hself ⊢
        omega

end ShardedLruCache.Balances

/-! ## Threads on the store -/

inductive Task where
  /-- `get` has found an expired entry and will take the write lock. -/
  | purging (key : Bytes) (nowSec : Nat)
  | holding (arc : Arc)
  /-- A variant has been stored in the entry and not yet in the counter. -/
  | recording (arc : Arc) (key : Bytes) (addedBytes : Nat)
  deriving DecidableEq, Repr

structure CacheSystem where
  cache : ShardedLruCache
  tasks : List Task

inductive CacheAction where
  | insert (entry : CacheEntry)
  | read (key : Bytes) (nowSec : Nat)
  | purge (key : Bytes) (nowSec : Nat)
  | getVariant (arc : Arc) (algo : CompressionAlgorithm)
  | storeVariant (arc : Arc) (algo : CompressionAlgorithm) (variantBytes : Bytes)
  | recordVariantMemory (arc : Arc) (key : Bytes) (addedBytes : Nat)
  | drop (arc : Arc)

namespace CacheSystem

def start (getShardIndex : Bytes → Fin numShards) (maxMemoryMb : Nat) : CacheSystem :=
  ⟨.new getShardIndex maxMemoryMb, []⟩

def step (s : CacheSystem) : CacheAction → Option CacheSystem
  | .insert entry => some { s with cache := s.cache.insert entry }
  | .read key nowSec =>
    match s.cache.read key nowSec with
    | (cache, .absent) => some ⟨cache, s.tasks⟩
    | (cache, .expired) => some ⟨cache, .purging key nowSec :: s.tasks⟩
    | (cache, .fresh arc) => some ⟨cache, .holding arc :: s.tasks⟩
  | .purge key nowSec =>
    if .purging key nowSec ∈ s.tasks then
      some ⟨s.cache.purge key nowSec, s.tasks.erase (.purging key nowSec)⟩
    else none
  | .getVariant arc _ => if .holding arc ∈ s.tasks then some s else none
  | .storeVariant arc algo variantBytes =>
    if .holding arc ∈ s.tasks then
      match s.cache.storeVariant arc algo variantBytes with
      | (cache, _, addedBytes) =>
        if 0 < addedBytes then
          some ⟨cache, .recording arc (s.cache.heap arc).key addedBytes ::
            s.tasks.erase (.holding arc)⟩
        else some ⟨cache, s.tasks⟩
    else none
  | .recordVariantMemory arc key addedBytes =>
    if .recording arc key addedBytes ∈ s.tasks then
      some ⟨s.cache.recordVariantMemory key addedBytes,
        .holding arc :: s.tasks.erase (.recording arc key addedBytes)⟩
    else none
  | .drop arc =>
    if .holding arc ∈ s.tasks then some { s with tasks := s.tasks.erase (.holding arc) }
    else none

end CacheSystem

def Task.unrecorded (getShardIndex : Bytes → Fin numShards) (i : Fin numShards) : Task → Nat
  | .recording _ key addedBytes => if getShardIndex key = i then addedBytes else 0
  | _ => 0

def CacheSystem.unrecorded (s : CacheSystem) (i : Fin numShards) : Nat :=
  (s.tasks.map (Task.unrecorded s.cache.getShardIndex i)).sum

/-- Bytes are added only to an entry that is in the store, and the entries that stay
when others are dropped have at least the bytes that are still to be recorded. -/
def KeepsBalance (s : CacheSystem) : CacheAction → Prop
  | .insert entry =>
    s.unrecorded (s.cache.getShardIndex entry.key) ≤
      (s.cache.roomFor entry).residentBytes s.cache.size
  | .purge key nowSec =>
    s.unrecorded (s.cache.getShardIndex key) ≤
      ((s.cache.purge key nowSec).shardOf key).residentBytes s.cache.size
  | .storeVariant arc algo variantBytes =>
    ((s.cache.heap arc).getVariant algo).isSome ∨ variantBytes = [] ∨
      (s.cache.shardOf (s.cache.heap arc).key).entries.get? (s.cache.heap arc).key = some arc
  | .recordVariantMemory _ key addedBytes =>
    s.unrecorded (s.cache.getShardIndex key) ≤ addedBytes +
      ((s.cache.recordVariantMemory key addedBytes).shardOf key).residentBytes s.cache.size
  | _ => True

instance (s : CacheSystem) (action : CacheAction) : Decidable (KeepsBalance s action) := by
  cases action <;> unfold KeepsBalance <;> infer_instance

structure CacheSystem.Inv (s : CacheSystem) : Prop where
  sound : s.cache.Sound
  balanced : s.cache.Balances s.unrecorded

section Step

variable {s : CacheSystem}

theorem inv_start (getShardIndex : Bytes → Fin numShards) (maxMemoryMb : Nat) :
    (CacheSystem.start getShardIndex maxMemoryMb).Inv where
  sound := ShardedLruCache.new_sound getShardIndex maxMemoryMb
  balanced := ShardedLruCache.Balances.new getShardIndex maxMemoryMb

theorem unrecorded_eq_erase {task : Task} (h : task ∈ s.tasks) (i : Fin numShards) :
    s.unrecorded i = task.unrecorded s.cache.getShardIndex i +
      ((s.tasks.erase task).map (Task.unrecorded s.cache.getShardIndex i)).sum :=
  (List.sum_map_erase _ h).symm

variable (cache : ShardedLruCache)

theorem getShardIndex_purge (key : Bytes) (nowSec : Nat) :
    (cache.purge key nowSec).getShardIndex = cache.getShardIndex := by
  rcases cache.purge_eq key nowSec with heq | ⟨shard, heq, -⟩ <;> rw [heq]
  rfl

theorem getShardIndex_read (key : Bytes) (nowSec : Nat) :
    (cache.read key nowSec).1.getShardIndex = cache.getShardIndex := by
  have hresult := cache.read_result key nowSec
  generalize cache.read key nowSec = result at hresult
  cases hresult <;> rfl

theorem getShardIndex_recordVariantMemory (key : Bytes) (addedBytes : Nat) :
    (cache.recordVariantMemory key addedBytes).getShardIndex = cache.getShardIndex := by
  unfold ShardedLruCache.recordVariantMemory
  split <;> rfl

theorem inv_read (h : s.Inv) (key : Bytes) (nowSec : Nat) {tasks : List Task}
    (htasks : ∀ i, (tasks.map (Task.unrecorded s.cache.getShardIndex i)).sum =
      s.unrecorded i) :
    CacheSystem.Inv ⟨(s.cache.read key nowSec).1, tasks⟩ where
  sound := h.sound.read key nowSec
  balanced i := by
    have := h.balanced.read key nowSec i
    rw [← htasks] at this
    simpa [CacheSystem.unrecorded, getShardIndex_read] using this

theorem inv_purge (h : s.Inv) {key : Bytes} {nowSec : Nat}
    (hmem : .purging key nowSec ∈ s.tasks) (hok : KeepsBalance s (.purge key nowSec)) :
    CacheSystem.Inv ⟨s.cache.purge key nowSec, s.tasks.erase (.purging key nowSec)⟩ where
  sound := h.sound.purge key nowSec
  balanced i := by
    have := h.balanced.purge hok i
    rw [unrecorded_eq_erase hmem] at this
    simpa [CacheSystem.unrecorded, getShardIndex_purge, Task.unrecorded] using this

variable {arc : Arc} {algo : CompressionAlgorithm} {variantBytes : Bytes}

theorem inv_storeVariant_of_zero (h : s.Inv)
    (hzero : (s.cache.storeVariant arc algo variantBytes).2.2 = 0) :
    CacheSystem.Inv ⟨(s.cache.storeVariant arc algo variantBytes).1, s.tasks⟩ where
  sound := h.sound.storeVariant arc algo variantBytes
  balanced := by
    have hsize : ((s.cache.heap arc).storeVariant algo variantBytes).1.entrySize =
        (s.cache.heap arc).entrySize := by
      rw [CacheEntry.storeVariant_entrySize]
      exact congrArg _ hzero
    exact h.balanced.write hsize

theorem inv_storeVariant (h : s.Inv) (hmem : .holding arc ∈ s.tasks)
    (hresident : (s.cache.shardOf (s.cache.heap arc).key).entries.get?
      (s.cache.heap arc).key = some arc) :
    CacheSystem.Inv ⟨(s.cache.storeVariant arc algo variantBytes).1,
      .recording arc (s.cache.heap arc).key (s.cache.storeVariant arc algo variantBytes).2.2 ::
        s.tasks.erase (.holding arc)⟩ where
  sound := h.sound.storeVariant arc algo variantBytes
  balanced i := by
    have hgrow := h.balanced.grow h.sound
      (CacheEntry.storeVariant_entrySize _ algo variantBytes) hresident i
    have htasks := unrecorded_eq_erase hmem i
    simp only [Task.unrecorded, Nat.zero_add] at htasks
    dsimp only at hgrow
    rw [htasks] at hgrow
    exact hgrow

theorem inv_recordVariantMemory (h : s.Inv) {key : Bytes} {addedBytes : Nat}
    (hmem : .recording arc key addedBytes ∈ s.tasks)
    (hok : KeepsBalance s (.recordVariantMemory arc key addedBytes)) :
    CacheSystem.Inv ⟨s.cache.recordVariantMemory key addedBytes,
      .holding arc :: s.tasks.erase (.recording arc key addedBytes)⟩ where
  sound := h.sound.recordVariantMemory key addedBytes
  balanced := by
    have hbalanced := h.balanced
    have hstay : s.unrecorded (s.cache.getShardIndex key) ≤ _ := hok
    rw [unrecorded_eq_erase hmem] at hstay
    rw [show s.unrecorded = _ from funext (unrecorded_eq_erase hmem)] at hbalanced
    intro i
    have := ShardedLruCache.Balances.recordVariantMemory h.sound hbalanced
      (by simpa [Task.unrecorded] using hstay) i
    simpa [CacheSystem.unrecorded, Task.unrecorded, getShardIndex_recordVariantMemory]
      using this

theorem addedBytes_eq_zero {cache : ShardedLruCache}
    (h : ((cache.heap arc).getVariant algo).isSome ∨ variantBytes = []) :
    (cache.storeVariant arc algo variantBytes).2.2 = 0 := by
  simp only [ShardedLruCache.storeVariant, CacheEntry.storeVariant]
  rcases h with hsome | rfl
  · obtain ⟨existing, hget⟩ := Option.isSome_iff_exists.mp hsome
    simp [show (cache.heap arc).variants.get? algo = some existing from hget]
  · split <;> rfl

theorem inv_step {action : CacheAction} {t : CacheSystem} (h : s.Inv)
    (hok : KeepsBalance s action) (hstep : s.step action = some t) : t.Inv := by
  cases action with
  | insert entry =>
    obtain rfl := Option.some.inj hstep
    exact ⟨h.sound.insert entry, h.balanced.insert h.sound entry hok⟩
  | read key nowSec =>
    have hread := @inv_read s h key nowSec
    simp only [CacheSystem.step] at hstep
    split at hstep <;> rename_i heq <;> obtain rfl := Option.some.inj hstep <;>
      rw [heq] at hread <;>
      exact hread fun i => by simp [CacheSystem.unrecorded, Task.unrecorded]
  | purge key nowSec =>
    simp only [CacheSystem.step, Option.ite_none_right_eq_some, Option.some.injEq] at hstep
    obtain ⟨hmem, rfl⟩ := hstep
    exact inv_purge h hmem hok
  | getVariant arc algo =>
    simp only [CacheSystem.step, Option.ite_none_right_eq_some, Option.some.injEq] at hstep
    obtain ⟨-, rfl⟩ := hstep
    exact h
  | storeVariant arc algo variantBytes =>
    simp only [CacheSystem.step, Option.ite_none_right_eq_some] at hstep
    obtain ⟨hmem, hstored⟩ := hstep
    by_cases hadded : 0 < (s.cache.storeVariant arc algo variantBytes).2.2
    · rw [if_pos hadded] at hstored
      obtain rfl := Option.some.inj hstored
      have hnew : ¬(((s.cache.heap arc).getVariant algo).isSome ∨ variantBytes = []) :=
        fun h => absurd (addedBytes_eq_zero h) (Nat.ne_of_gt hadded)
      exact inv_storeVariant h hmem ((or_assoc.mpr hok).resolve_left hnew)
    · rw [if_neg hadded] at hstored
      obtain rfl := Option.some.inj hstored
      exact inv_storeVariant_of_zero h (Nat.eq_zero_of_not_pos hadded)
  | recordVariantMemory arc key addedBytes =>
    simp only [CacheSystem.step, Option.ite_none_right_eq_some, Option.some.injEq] at hstep
    obtain ⟨hmem, rfl⟩ := hstep
    exact inv_recordVariantMemory h hmem hok
  | drop arc =>
    simp only [CacheSystem.step, Option.ite_none_right_eq_some, Option.some.injEq] at hstep
    obtain ⟨hmem, rfl⟩ := hstep
    refine ⟨h.sound, fun i => ?_⟩
    have := h.balanced i
    rw [unrecorded_eq_erase hmem] at this
    simpa [CacheSystem.unrecorded, Task.unrecorded] using this

end Step

/-- In every run that keeps the balance, once no thread is at work every counter is the
size of the entries of its shard, and every queue lists their keys once. -/
theorem idle_store_accounted {getShardIndex : Bytes → Fin numShards} {maxMemoryMb : Nat}
    {actions : List CacheAction} {s : CacheSystem}
    (hrun : RunsUnder CacheSystem.step KeepsBalance (.start getShardIndex maxMemoryMb)
      actions s) (hidle : s.tasks = []) (i : Fin numShards) :
    (s.cache.shards i).currentBytes = (s.cache.shards i).residentBytes s.cache.size ∧
      (s.cache.shards i).lruOrder.Nodup ∧
      ∀ key, key ∈ (s.cache.shards i).lruOrder ↔
        ((s.cache.shards i).entries.get? key).isSome := by
  have hinv : s.Inv := RunsUnder.invariant (fun h hok hstep => inv_step h hok hstep) hrun
    (inv_start getShardIndex maxMemoryMb)
  have hbalanced := hinv.balanced i
  rw [CacheSystem.unrecorded, hidle] at hbalanced
  exact ⟨hbalanced, (hinv.sound.mirrored i).nodup, (hinv.sound.mirrored i).mem_iff⟩

/-! ## Samples -/

def sampleEntry (body : Bytes) : CacheEntry :=
  .new 160 (ascii "GET:example.com:/") 200 (ascii "text/plain") [] 1000 60 body

def sampleBody : Bytes := List.replicate 64 97

/-- A reader finds the entry and stores a compressed variant in it. -/
def compressingReader : List CacheAction :=
  [ .insert (sampleEntry sampleBody), .read (ascii "GET:example.com:/") 1010,
    .getVariant 0 .zstd, .storeVariant 0 .zstd (List.replicate 20 1) ]

def finishedReader : List CacheAction :=
  [.recordVariantMemory 0 (ascii "GET:example.com:/") 20, .drop 0]

theorem compressing_reader_accounted :
    ∃ s, RunsUnder.check CacheSystem.step KeepsBalance (.start (fun _ => 0) 4)
        (compressingReader ++ finishedReader) = some s ∧ s.tasks = [] ∧
      (s.cache.shards 0).currentBytes = (s.cache.shards 0).residentBytes s.cache.size := by
  have hrun : ((RunsUnder.check CacheSystem.step KeepsBalance (.start (fun _ => 0) 4)
      (compressingReader ++ finishedReader)).any fun s => s.tasks.isEmpty) = true := by
    decide +kernel
  obtain ⟨s, hs, hidle⟩ := (Option.any_eq_true _ _).mp hrun
  have htasks : s.tasks = [] := List.isEmpty_iff.mp hidle
  exact ⟨s, hs, htasks, (idle_store_accounted (RunsUnder.of_check hs) htasks 0).1⟩

/-- Another response replaces the entry before the variant is recorded: the counter keeps
bytes that no entry has. -/
theorem replaced_entry_leaves_bytes :
    ((execute CacheSystem.step (.start (fun _ => 0) 4)
      (compressingReader ++ .insert (sampleEntry sampleBody) :: finishedReader)).map
        fun s => (s.tasks, (s.cache.shards 0).currentBytes,
          (s.cache.shards 0).residentBytes s.cache.size)) = some ([], 271, 251) := by
  decide +kernel

end AuroraGateway.ResponseCache
