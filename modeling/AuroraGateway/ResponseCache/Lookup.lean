import AuroraGateway.ResponseCache.Accounting

/-!
# The store as a key-value store with expiry

A sequential run of the store leaves a log: what was inserted, which keys the
queues have lost to eviction, and what was looked up when.  An entry is live as
long as the log has nothing after its insertion that ends its life.
-/

namespace AuroraGateway.ResponseCache

open Foundation ShardedLruCache

inductive StoreCall where
  | insert (entry : CacheEntry)
  | get (key : Bytes) (nowSec : Nat)
  | recordVariantMemory (key : Bytes) (addedBytes : Nat)

def ShardedLruCache.call (cache : ShardedLruCache) : StoreCall → ShardedLruCache
  | .insert entry => cache.insert entry
  | .get key nowSec => (cache.get key nowSec).1
  | .recordVariantMemory key addedBytes => cache.recordVariantMemory key addedBytes

inductive StoreEvent where
  | inserted (arc : Arc) (entry : CacheEntry)
  | evicted (key : Bytes)
  | looked (key : Bytes) (nowSec : Nat)

def departed (before after : ShardState) : List Bytes :=
  before.lruOrder.filter fun key => key ∉ after.lruOrder

def ShardedLruCache.events (cache : ShardedLruCache) : StoreCall → List StoreEvent
  | .insert entry =>
    .inserted cache.next entry ::
      (departed (cache.shardOf entry.key) ((cache.insert entry).shardOf entry.key)).map
        .evicted
  | .get key nowSec => [.looked key nowSec]
  | .recordVariantMemory key addedBytes =>
    (departed (cache.shardOf key)
      ((cache.recordVariantMemory key addedBytes).shardOf key)).map .evicted

structure StoreRun where
  cache : ShardedLruCache
  log : List StoreEvent

namespace StoreRun

def start (getShardIndex : Bytes → Fin numShards) (maxMemoryMb : Nat) : StoreRun :=
  ⟨.new getShardIndex maxMemoryMb, []⟩

def call (s : StoreRun) (c : StoreCall) : StoreRun :=
  ⟨s.cache.call c, s.cache.events c ++ s.log⟩

def run (s : StoreRun) (calls : List StoreCall) : StoreRun := calls.foldl call s

end StoreRun

/-! ## Live entries -/

/-- Replacement, eviction, and a lookup at or after the expiry, which purges. -/
def StoreEvent.Ends (key : Bytes) (entry : CacheEntry) : StoreEvent → Prop
  | .inserted _ other => other.key = key
  | .evicted other => other = key
  | .looked other nowSec => other = key ∧ entry.expiresAtEpochSec ≤ nowSec

def Live (log : List StoreEvent) (key : Bytes) (arc : Arc) (entry : CacheEntry) : Prop :=
  ∃ since before, log = since ++ .inserted arc entry :: before ∧ entry.key = key ∧
    ∀ event ∈ since, ¬event.Ends key entry

section Live

variable {log : List StoreEvent} {key : Bytes} {arc : Arc} {entry : CacheEntry}

theorem not_live_nil : ¬Live [] key arc entry := by
  rintro ⟨since, before, hlog, -⟩
  simp at hlog

theorem live_cons {event : StoreEvent} :
    Live (event :: log) key arc entry ↔
      (event = .inserted arc entry ∧ entry.key = key) ∨
        (¬event.Ends key entry ∧ Live log key arc entry) := by
  constructor
  · rintro ⟨since, before, hlog, hkey, hsince⟩
    cases since with
    | nil =>
      simp only [List.nil_append, List.cons.injEq] at hlog
      exact .inl ⟨hlog.1, hkey⟩
    | cons first since =>
      obtain ⟨rfl, rfl⟩ := hlog
      exact .inr ⟨hsince event (by simp), since, before, rfl, hkey,
        fun e he => hsince e (by simp [he])⟩
  · rintro (⟨rfl, hkey⟩ | ⟨hevent, since, before, rfl, hkey, hsince⟩)
    · exact ⟨[], log, rfl, hkey, by simp⟩
    · exact ⟨event :: since, before, rfl, hkey, by simpa using ⟨hevent, hsince⟩⟩

theorem live_evicted {keys : List Bytes} :
    Live (keys.map .evicted ++ log) key arc entry ↔
      key ∉ keys ∧ Live log key arc entry := by
  induction keys with
  | nil => simp
  | cons first keys ih =>
    simp [live_cons, ih, StoreEvent.Ends, eq_comm, and_assoc]

theorem Live.mem (h : Live log key arc entry) : .inserted arc entry ∈ log := by
  obtain ⟨since, before, rfl, -⟩ := h
  simp

end Live

/-! ## Queues and tables -/

variable {key : Bytes} {cache : ShardedLruCache}

/-- In a queue that mirrors its table, the keys that have left are the entries that
have left. -/
theorem get?_iff_not_departed {before after : ShardState} (hbefore : before.Mirrored)
    (hafter : after.Mirrored)
    (hsub : ∀ {arc}, after.entries.get? key = some arc → before.entries.get? key = some arc)
    (arc : Arc) : after.entries.get? key = some arc ↔
      key ∉ departed before after ∧ before.entries.get? key = some arc := by
  constructor
  · intro h
    have hqueue : key ∈ after.lruOrder := (hafter.mem_iff key).mpr (by simp [h])
    exact ⟨by simp [departed, hqueue], hsub h⟩
  · rintro ⟨hstays, h⟩
    have hqueue : key ∈ before.lruOrder := (hbefore.mem_iff key).mpr (by simp [h])
    have hqueue' : key ∈ after.lruOrder := by
      by_contra hgone
      exact hstays (by simp [departed, hqueue, hgone])
    obtain ⟨other, hother⟩ := Option.isSome_iff_exists.mp ((hafter.mem_iff key).mp hqueue')
    rw [hother, ← hsub hother, h]

theorem shardOf_eq_of_ne {cache' : ShardedLruCache} {touched : Bytes}
    (hindex : cache'.getShardIndex = cache.getShardIndex)
    (hshards : ∀ i, i ≠ cache.getShardIndex touched → cache'.shards i = cache.shards i)
    (hne : cache.getShardIndex key ≠ cache.getShardIndex touched) :
    cache'.shardOf key = cache.shardOf key := by
  rw [shardOf, hindex]
  exact hshards _ hne

theorem get?_call_iff {cache' : ShardedLruCache} (hsound : cache.Sound) (hsound' : cache'.Sound)
    {touched : Bytes} (hindex : cache'.getShardIndex = cache.getShardIndex)
    (hshards : ∀ i, i ≠ cache.getShardIndex touched → cache'.shards i = cache.shards i)
    (hsub : ∀ {arc}, (cache'.shardOf touched).entries.get? key = some arc → (cache.shardOf
      touched).entries.get? key = some arc) (arc : Arc) :
    (cache'.shardOf key).entries.get? key = some arc ↔
      key ∉ departed (cache.shardOf touched) (cache'.shardOf touched) ∧
        (cache.shardOf key).entries.get? key = some arc := by
  by_cases hsame : cache.getShardIndex key = cache.getShardIndex touched
  · have hshard : cache.shardOf key = cache.shardOf touched := congrArg cache.shards hsame
    have hshard' : cache'.shardOf key = cache'.shardOf touched := by
      simp [shardOf, hindex, hsame]
    rw [hshard, hshard']
    exact get?_iff_not_departed (hsound.mirrored _) (hsound'.mirrored _) hsub arc
  · rw [shardOf_eq_of_ne hindex hshards hsame]
    refine ⟨fun h => ⟨fun hgone => ?_, h⟩, And.right⟩
    -- a key stands in the queue of its own shard only
    have hqueue : key ∈ (cache.shardOf touched).lruOrder := List.mem_of_mem_filter hgone
    obtain ⟨other, hother⟩ := Option.isSome_iff_exists.mp
      (((hsound.mirrored _).mem_iff key).mp hqueue)
    exact hsame (hsound.placed hother).2.2

/-! ## One call -/

inductive GetResult (cache : ShardedLruCache) (key : Bytes) (nowSec : Nat) :
    ShardedLruCache × Option Arc → Prop
  | absent (h : (cache.shardOf key).entries.get? key = none) :
      GetResult cache key nowSec (cache, none)
  | expired {arc : Arc} (h : (cache.shardOf key).entries.get? key = some arc)
      (hexpired : (cache.heap arc).expiresAtEpochSec ≤ nowSec) :
      GetResult cache key nowSec
        (cache.setShardOf key ((cache.shardOf key).remove cache.size key arc), none)
  | fresh {arc : Arc} (h : (cache.shardOf key).entries.get? key = some arc)
      (hfresh : nowSec < (cache.heap arc).expiresAtEpochSec) :
      GetResult cache key nowSec
        (cache.write arc { cache.heap arc with lastAccessedEpochSec := nowSec }, some arc)

theorem get_result (cache : ShardedLruCache) (key : Bytes) (nowSec : Nat) :
    GetResult cache key nowSec (cache.get key nowSec) := by
  unfold ShardedLruCache.get
  have hread := cache.read_result key nowSec
  generalize cache.read key nowSec = result at hread
  cases hread with
  | absent h => exact .absent h
  | @expired arc h hexpired =>
    simp only [purge, h, hexpired, if_true]
    exact .expired h (by simpa [CacheEntry.isExpired] using hexpired)
  | fresh h hfresh => exact .fresh h (by simpa [CacheEntry.isExpired] using hfresh)

theorem get_eq_some_iff (cache : ShardedLruCache) (key : Bytes) (nowSec : Nat) (arc : Arc) :
    (cache.get key nowSec).2 = some arc ↔
      (cache.shardOf key).entries.get? key = some arc ∧
        nowSec < (cache.heap arc).expiresAtEpochSec := by
  have hget := get_result cache key nowSec
  generalize cache.get key nowSec = result at hget
  cases hget with
  | absent h => simp [h]
  | expired h hexpired =>
    simp only [h, Option.some.injEq, reduceCtorEq, false_iff, not_and, Nat.not_lt]
    rintro rfl
    exact hexpired
  | fresh h hfresh =>
    simp only [h, Option.some.injEq]
    constructor
    · rintro rfl
      exact ⟨rfl, hfresh⟩
    · exact And.left

theorem ShardedLruCache.Sound.get (h : cache.Sound) (key : Bytes) (nowSec : Nat) :
    (cache.get key nowSec).1.Sound := by
  have hget := get_result cache key nowSec
  generalize cache.get key nowSec = result at hget
  cases hget with
  | absent => exact h
  | expired hkey => exact h.of_shrinks (ShardState.remove_shrinks _ hkey)
  | fresh => exact h.write rfl

def CacheEntry.SameAs (entry stored : CacheEntry) : Prop :=
  { entry with lastAccessedEpochSec := stored.lastAccessedEpochSec } = stored

theorem CacheEntry.SameAs.expiresAt {entry stored : CacheEntry} (h : entry.SameAs stored) :
    entry.expiresAtEpochSec = stored.expiresAtEpochSec := by
  rw [← h]

structure StoreRun.Inv (s : StoreRun) : Prop where
  sound : s.cache.Sound
  stored : ∀ {arc entry}, .inserted arc entry ∈ s.log →
    arc < s.cache.next ∧ (s.cache.heap arc).SameAs entry
  live : ∀ {key arc}, (s.cache.shardOf key).entries.get? key = some arc ↔
    ∃ entry, Live s.log key arc entry

section Call

variable {s : StoreRun}

theorem storeInv_start (getShardIndex : Bytes → Fin numShards) (maxMemoryMb : Nat) :
    (StoreRun.start getShardIndex maxMemoryMb).Inv where
  sound := new_sound getShardIndex maxMemoryMb
  stored h := by simp [StoreRun.start] at h
  live := by
    intro key arc
    constructor
    · intro h
      simp [StoreRun.start, new, shardOf, ShardState.new,
        HashTable.get?, HashTable.empty] at h
    · rintro ⟨entry, h⟩
      exact absurd h not_live_nil

theorem storeInv_insert (h : s.Inv) (entry : CacheEntry) : (s.call (.insert entry)).Inv where
  sound := h.sound.insert entry
  stored {arc stored} hmem := by
    have hcases : (arc = s.cache.next ∧ stored = entry) ∨ .inserted arc stored ∈ s.log := by
      simpa [StoreRun.call, events] using hmem
    rcases hcases with ⟨rfl, rfl⟩ | hold
    · exact ⟨Nat.lt_succ_self _, by
        simp [StoreRun.call, call, insert_heap_next,
          CacheEntry.SameAs]⟩
    · obtain ⟨hlt, hsame⟩ := h.stored hold
      refine ⟨Nat.lt_succ_of_lt hlt, ?_⟩
      simpa [StoreRun.call, call, insert_heap_of_lt entry hlt]
        using hsame
  live {key arc} := by
    simp only [StoreRun.call, events, call, List.cons_append,
      live_cons, live_evicted, StoreEvent.Ends, StoreEvent.inserted.injEq]
    have hshard : (s.cache.insert entry).shardOf entry.key =
        (s.cache.roomFor entry).push entry.key s.cache.next entry.entrySize :=
      insert_shards_self entry
    by_cases hkey : entry.key = key
    · subst hkey
      rw [hshard]
      simp [ShardState.push, eq_comm]
    · have hcall : ((s.cache.insert entry).shardOf key).entries.get? key = some arc ↔
          key ∉ departed (s.cache.shardOf entry.key) ((s.cache.insert entry).shardOf entry.key) ∧
            (s.cache.shardOf key).entries.get? key = some arc :=
        get?_call_iff h.sound (h.sound.insert entry) rfl
          (fun i hi => insert_shards_of_ne entry hi)
          (fun {arc} harc => by
            rw [hshard, get?_push_of_ne (Ne.symm hkey)] at harc
            exact (h.sound.roomFor_shrinks entry).sub harc) arc
      rw [hcall, h.live]
      constructor
      · rintro ⟨hstays, stored, hlive⟩
        exact ⟨stored, .inr ⟨hkey, hstays, hlive⟩⟩
      · rintro ⟨stored, ⟨⟨-, rfl⟩, hsame⟩ | ⟨-, hstays, hlive⟩⟩
        · exact absurd hsame hkey
        · exact ⟨hstays, stored, hlive⟩

variable (cache : ShardedLruCache)

theorem get?_remove_of_ne {key other : Bytes} (hne : other ≠ key) (arc : Arc) :
    ((cache.setShardOf key ((cache.shardOf key).remove cache.size key arc)).shardOf
        other).entries.get? other = (cache.shardOf other).entries.get? other := by
  by_cases hsame : cache.getShardIndex other = cache.getShardIndex key
  · simp [shardOf, hsame, ShardState.remove,
      HashTable.get?_erase_of_ne _ hne]
  · simp [shardOf, setShardOf_shards_of_ne hsame]

theorem get?_get_of_ne {key other : Bytes} (nowSec : Nat) (hne : other ≠ key) :
    ((cache.get key nowSec).1.shardOf other).entries.get? other =
      (cache.shardOf other).entries.get? other := by
  have hget := get_result cache key nowSec
  generalize cache.get key nowSec = result at hget
  cases hget with
  | absent => rfl
  | expired => exact get?_remove_of_ne cache hne _
  | fresh => rfl

theorem get?_get_self (key : Bytes) (nowSec : Nat) :
    ((cache.get key nowSec).1.shardOf key).entries.get? key = (cache.get key nowSec).2 := by
  have hget := get_result cache key nowSec
  generalize cache.get key nowSec = result at hget
  cases hget with
  | absent h => exact h
  | expired => simp [shardOf, ShardState.remove]
  | fresh h => exact h

theorem stored_get {cache : ShardedLruCache} {key : Bytes} {nowSec : Nat} {arc : Arc}
    {entry : CacheEntry} (h : arc < cache.next ∧ (cache.heap arc).SameAs entry) :
    arc < (cache.get key nowSec).1.next ∧ ((cache.get key nowSec).1.heap arc).SameAs entry := by
  have hget := get_result cache key nowSec
  generalize cache.get key nowSec = result at hget
  cases hget with
  | absent => exact h
  | expired => exact h
  | @fresh old =>
    refine ⟨h.1, ?_⟩
    by_cases heq : arc = old
    · subst heq
      simpa [write, CacheEntry.SameAs] using h.2
    · simpa [write, heq] using h.2

theorem storeInv_get (h : s.Inv) (key : Bytes) (nowSec : Nat) :
    (s.call (.get key nowSec)).Inv where
  sound := h.sound.get key nowSec
  stored {arc entry} hmem := by
    have hold : .inserted arc entry ∈ s.log := by
      simpa [StoreRun.call, events] using hmem
    exact stored_get (h.stored hold)
  live {other arc} := by
    simp only [StoreRun.call, events, call, List.cons_append,
      List.nil_append, live_cons, StoreEvent.Ends, reduceCtorEq, false_and, false_or]
    by_cases hkey : other = key
    · subst hkey
      rw [get?_get_self, get_eq_some_iff, h.live]
      constructor
      · rintro ⟨⟨entry, hlive⟩, hfresh⟩
        have hsame := (h.stored hlive.mem).2.expiresAt
        exact ⟨entry, by omega, hlive⟩
      · rintro ⟨entry, hfresh, hlive⟩
        have hsame := (h.stored hlive.mem).2.expiresAt
        simp only [true_and, Nat.not_le] at hfresh
        exact ⟨⟨entry, hlive⟩, by omega⟩
    · rw [get?_get_of_ne s.cache nowSec hkey, h.live]
      simp [Ne.symm hkey]

theorem storeInv_recordVariantMemory (h : s.Inv) (key : Bytes) (addedBytes : Nat) :
    (s.call (.recordVariantMemory key addedBytes)).Inv where
  sound := h.sound.recordVariantMemory key addedBytes
  stored {arc entry} hmem := by
    have hold : .inserted arc entry ∈ s.log := by
      simpa [StoreRun.call, events] using hmem
    have hsame : (s.cache.recordVariantMemory key addedBytes).heap = s.cache.heap ∧
        (s.cache.recordVariantMemory key addedBytes).next = s.cache.next := by
      unfold recordVariantMemory
      split <;> simp
    simpa [StoreRun.call, call, hsame] using h.stored hold
  live {other arc} := by
    simp only [StoreRun.call, events, call, live_evicted]
    have hcall : ((s.cache.recordVariantMemory key addedBytes).shardOf other).entries.get?
        other = some arc ↔
        other ∉ departed (s.cache.shardOf key)
            ((s.cache.recordVariantMemory key addedBytes).shardOf key) ∧
          (s.cache.shardOf other).entries.get? other = some arc := by
      apply get?_call_iff h.sound (h.sound.recordVariantMemory key addedBytes)
        (getShardIndex_recordVariantMemory _ key addedBytes)
      · intro i hi
        unfold recordVariantMemory
        split
        · rfl
        · exact setShardOf_shards_of_ne hi
      · exact h.sound.recordVariantMemory_sub
    rw [hcall, h.live]
    simp

theorem storeInv_call (h : s.Inv) (c : StoreCall) : (s.call c).Inv := by
  cases c with
  | insert entry => exact storeInv_insert h entry
  | get key nowSec => exact storeInv_get h key nowSec
  | recordVariantMemory key addedBytes =>
    exact storeInv_recordVariantMemory h key addedBytes

theorem storeInv_run (h : s.Inv) (calls : List StoreCall) : (s.run calls).Inv := by
  induction calls generalizing s with
  | nil => exact h
  | cons c calls ih => exact ih (storeInv_call h c)

end Call

end AuroraGateway.ResponseCache
