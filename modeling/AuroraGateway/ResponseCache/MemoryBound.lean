import Mathlib.Algebra.Order.BigOperators.Group.List
import AuroraGateway.ResponseCache.Evaluator
import AuroraGateway.ResponseCache.Lookup

/-!
# The memory bound of the cache

Responses are stored and looked up one after the other.  Both loops of the store
evict from the front of a queue; the loop after the growth of an entry stops when
it reaches that entry.
-/

namespace AuroraGateway.ResponseCache

open Engine Foundation ResponseCompression ResponseCacheEngine ShardState

/-! ## Eviction loops -/

namespace ShardState

variable (size : Arc → Nat)

def bytesFrom (entries : HashTable Bytes Arc) (order : List Bytes) (key : Bytes) : Nat :=
  ((order.dropWhile fun k => k ≠ key).map (entries.weightAt size)).sum

variable {entries : HashTable Bytes Arc}

theorem bytesFrom_pop {popped key : Bytes} {rest : List Bytes}
    (hmirrors : Mirrors (popped :: rest) entries) (hne : popped ≠ key) :
    bytesFrom size (entries.erase popped) rest key =
      bytesFrom size entries (popped :: rest) key := by
  rw [bytesFrom, bytesFrom, List.dropWhile_cons_of_pos (by simpa using hne)]
  apply congrArg List.sum
  apply List.map_congr_left
  intro k hk
  exact entries.weightAt_erase_of_ne size
    (hmirrors.ne_of_mem ((List.dropWhile_sublist _).subset hk))

variable {tooBig : Nat → Bool} {order : List Bytes}

/-- The loop ends within the budget if the entry that it spares fits together with those
behind it. -/
theorem evictLoop_within (hzero : tooBig 0 = false) {spared : Option Bytes}
    (hmirrors : Mirrors order entries)
    (hspared : ∀ key, spared = some key → tooBig (bytesFrom size entries order key) = false) :
    tooBig (evictLoop size tooBig spared order entries (entries.total size)).currentBytes =
      false := by
  induction order generalizing entries with
  | nil =>
    have htotal : entries.total size = 0 := by
      simp [HashTable.total, hmirrors.entries_eq_nil]
    rw [htotal]
    exact hzero
  | cons popped rest ih =>
    unfold evictLoop
    split_ifs with hover hkey
    · have hall : bytesFrom size entries (popped :: rest) popped = entries.total size := by
        rw [bytesFrom, ← hmirrors.sum_weightAt size]
        simp
      rw [← hall]
      exact hspared popped hkey
    · obtain ⟨evicted, hget⟩ := hmirrors.get?_head
      have htotal := HashTable.total_erase hget size
      simp only [hget]
      rw [show entries.total size - size evicted = (entries.erase popped).total size by omega]
      apply ih hmirrors.pop
      intro key hsome
      rw [bytesFrom_pop size hmirrors fun heq => hkey (heq ▸ hsome)]
      exact hspared key hsome
    · simpa using hover

theorem evict_within (hzero : tooBig 0 = false) {spared : Option Bytes} {shard : ShardState}
    (hmirrored : shard.Mirrored) (hexact : shard.currentBytes = shard.residentBytes size)
    (hspared : ∀ key, spared = some key → tooBig (bytesFrom size shard.entries shard.lruOrder key) =
      false) :
    tooBig (shard.evict size tooBig spared).currentBytes = false := by
  rw [evict, hexact]
  exact evictLoop_within size hzero hmirrored hspared

theorem makeRoom_within {shard : ShardState} (hmirrored : shard.Mirrored)
    (hexact : shard.currentBytes = shard.residentBytes size) {maxShardBytes entryBytes : Nat}
    (hfits : entryBytes ≤ maxShardBytes) (key : Bytes) :
    (shard.makeRoom size maxShardBytes entryBytes key).currentBytes + entryBytes ≤
      maxShardBytes := by
  have hwithin : ∀ {shard : ShardState}, shard.Mirrored →
      shard.currentBytes = shard.residentBytes size →
      (shard.evict size (fun c => maxShardBytes < c + entryBytes) none).currentBytes +
        entryBytes ≤ maxShardBytes := by
    intro shard hmirrored hexact
    have := @evict_within size (fun c => maxShardBytes < c + entryBytes) (by simpa using hfits)
      none shard hmirrored hexact (by simp)
    simpa using this
  unfold makeRoom
  cases hget : shard.entries.get? key with
  | none => exact hwithin hmirrored hexact
  | some old =>
    have hshrinks := remove_shrinks size hget
    exact hwithin (hshrinks.mirrored hmirrored)
      (hshrinks.balanced (Nat.zero_le _) hexact)

theorem recordVariant_within {shard : ShardState} (hmirrored : shard.Mirrored)
    {maxShardBytes addedBytes : Nat} {key : Bytes}
    (hexact : shard.currentBytes + addedBytes = shard.residentBytes size)
    (hfits : bytesFrom size shard.entries shard.lruOrder key ≤ maxShardBytes) :
    (shard.recordVariant size maxShardBytes key addedBytes).currentBytes ≤ maxShardBytes := by
  have hspared : ∀ k, some key = some k →
      decide (maxShardBytes < bytesFrom size shard.entries shard.lruOrder k) = false := by
    simpa using hfits
  have := @evict_within size (fun c => maxShardBytes < c) (by simp) (some key)
    { shard with currentBytes := shard.currentBytes + addedBytes } hmirrored hexact hspared
  simpa [recordVariant] using this

theorem bytesFrom_grow {size size' : Arc → Nat} (hnodup : order.Nodup) {key : Bytes}
    (hmem : key ∈ order) {arc : Arc} {added : Nat} (hget : entries.get? key = some arc)
    (hself : size' arc = size arc + added)
    (hother : ∀ {k}, k ≠ key → entries.weightAt size' k = entries.weightAt size k) :
    bytesFrom size' entries order key = bytesFrom size entries order key + added := by
  unfold bytesFrom
  induction order with
  | nil => simp at hmem
  | cons first rest ih =>
    obtain ⟨hfirst, hrest⟩ := List.nodup_cons.mp hnodup
    by_cases heq : first = key
    · subst heq
      have hsame : rest.map (entries.weightAt size') = rest.map (entries.weightAt size) := by
        apply List.map_congr_left
        intro k hk
        exact hother fun h => hfirst (h ▸ hk)
      simp [hsame, HashTable.weightAt_of_some hget, hself]
      omega
    · rw [List.dropWhile_cons_of_pos (by simpa using heq)]
      exact ih hrest (by simpa [Ne.symm heq] using hmem)

end ShardState

/-! ## Bounded stores -/

structure ShardedLruCache.Bounded (cache : ShardedLruCache) : Prop where
  sound : cache.Sound
  balanced : cache.Balances fun _ => 0
  within : ∀ i, (cache.shards i).currentBytes ≤ cache.maxShardBytes

namespace ShardedLruCache.Bounded

variable {cache : ShardedLruCache}

theorem new (getShardIndex : Bytes → Fin numShards) (maxMemoryMb : Nat) :
    (ShardedLruCache.new getShardIndex maxMemoryMb).Bounded where
  sound := new_sound getShardIndex maxMemoryMb
  balanced := Balances.new getShardIndex maxMemoryMb
  within _ := Nat.zero_le _

section

variable (h : cache.Bounded)
include h

theorem insert {entry : CacheEntry} (hfits : entry.entrySize ≤ cache.maxShardBytes) :
    (cache.insert entry).Bounded where
  sound := h.sound.insert entry
  balanced := h.balanced.insert h.sound entry (Nat.zero_le _)
  within i := by
    by_cases hi : i = cache.getShardIndex entry.key
    · rw [hi, insert_shards_self]
      exact makeRoom_within cache.size (h.sound.mirrored _) (h.balanced _) hfits _
    · rw [insert_shards_of_ne entry hi]
      exact h.within i

theorem write {arc : Arc} {entry : CacheEntry} (hkey : entry.key = (cache.heap arc).key)
    (hsize : entry.entrySize = (cache.heap arc).entrySize) : (cache.write arc entry).Bounded where
  sound := h.sound.write hkey
  balanced := h.balanced.write hsize
  within := h.within

theorem of_shrinks {key : Bytes} {shard : ShardState}
    (hshrinks : ShardState.Shrinks cache.size (cache.shardOf key) shard) :
    (cache.setShardOf key shard).Bounded where
  sound := h.sound.of_shrinks hshrinks
  balanced := h.balanced.setShardOf (fun _ _ => rfl)
    (hshrinks.balanced (Nat.zero_le _) (h.balanced _))
  within i := by
    by_cases hi : i = cache.getShardIndex key
    · subst hi
      obtain ⟨removed, -, hcurrent⟩ := hshrinks.account
      have := h.within (cache.getShardIndex key)
      rw [setShardOf_shards_self, hcurrent]
      exact Nat.le_trans (Nat.sub_le _ _) this
    · rw [setShardOf_shards_of_ne hi]
      exact h.within i

theorem get (key : Bytes) (nowSec : Nat) : (cache.get key nowSec).1.Bounded := by
  have hget := get_result cache key nowSec
  generalize cache.get key nowSec = result at hget
  cases hget with
  | absent => exact h
  | expired hkey => exact h.of_shrinks (remove_shrinks _ hkey)
  | fresh => exact h.write rfl rfl

end

end ShardedLruCache.Bounded

def ShardedLruCache.bytesFrom (cache : ShardedLruCache) (key : Bytes) : Nat :=
  ShardState.bytesFrom cache.size (cache.shardOf key).entries (cache.shardOf key).lruOrder key

section Growth

variable {cache : ShardedLruCache} {arc : Arc} {algo : CompressionAlgorithm} {out : Bytes}

theorem storeVariant_addedBytes (hnew : (cache.heap arc).getVariant algo = none) :
    (cache.storeVariant arc algo out).2.2 = out.length := by
  simp only [ShardedLruCache.storeVariant, CacheEntry.storeVariant,
    show (cache.heap arc).variants.get? algo = none from hnew]

theorem bytesFrom_storeVariant (hsound : cache.Sound) {key : Bytes}
    (hresident : (cache.shardOf key).entries.get? key = some arc)
    (hnew : (cache.heap arc).getVariant algo = none) :
    ShardState.bytesFrom (cache.storeVariant arc algo out).1.size (cache.shardOf key).entries
        (cache.shardOf key).lruOrder key = cache.bytesFrom key + out.length := by
  have hmirrored := hsound.mirrored (cache.getShardIndex key)
  have hsize : ∀ other, (cache.storeVariant arc algo out).1.size other =
      cache.size other + if other = arc then out.length else 0 := by
    intro other
    have hadded := @storeVariant_addedBytes cache arc algo out hnew
    by_cases hother : other = arc
    · subst hother
      simp only [ShardedLruCache.storeVariant_eq_write, ShardedLruCache.size,
        ShardedLruCache.write, Function.update_self, CacheEntry.storeVariant_entrySize, if_true]
      exact congrArg _ hadded
    · simp [ShardedLruCache.storeVariant_eq_write, ShardedLruCache.size,
        ShardedLruCache.write, hother]
  have hmem : key ∈ (cache.shardOf key).lruOrder := by
    apply (hmirrored.mem_iff key).mpr
    rw [show (cache.shards (cache.getShardIndex key)).entries.get? key = some arc from hresident]
    rfl
  apply ShardState.bytesFrom_grow hmirrored.nodup hmem hresident
  · simp [hsize]
  · intro k hk
    cases hget : (cache.shardOf key).entries.get? k with
    | none => simp [HashTable.weightAt, hget]
    | some other =>
      -- an entry stands under its own key only
      have hne : other ≠ arc := by
        rintro rfl
        exact hk ((hsound.placed hget).2.1.symm.trans (hsound.placed hresident).2.1)
      simp [HashTable.weightAt, hget, hsize, hne]

theorem ShardedLruCache.Bounded.addVariant (h : cache.Bounded) {key : Bytes}
    (hresident : (cache.shardOf key).entries.get? key = some arc)
    (hnew : (cache.heap arc).getVariant algo = none) (hout : out ≠ [])
    (hfits : cache.bytesFrom key + out.length ≤ cache.maxShardBytes) :
    ((cache.storeVariant arc algo out).1.recordVariantMemory key out.length).Bounded := by
  have hkey := (h.sound.placed hresident).2.1
  have hsound := h.sound.storeVariant arc algo out
  have hadded := @storeVariant_addedBytes cache arc algo out hnew
  have hgrown : (cache.storeVariant arc algo out).1.Balances fun i =>
      (if cache.getShardIndex key = i then out.length else 0) + 0 := by
    have := h.balanced.grow h.sound (CacheEntry.storeVariant_entrySize _ algo out)
      (hkey ▸ hresident)
    rw [hkey] at this
    rw [← hadded]
    exact this
  have hlength : ¬out.length = 0 := by simpa using hout
  constructor
  · exact hsound.recordVariantMemory key out.length
  · exact ShardedLruCache.Balances.recordVariantMemory hsound hgrown (Nat.zero_le _)
  · intro i
    rw [ShardedLruCache.recordVariantMemory, if_neg hlength]
    by_cases hi : i = cache.getShardIndex key
    · subst hi
      have hexact := hgrown (cache.getShardIndex key)
      simp only [if_true, Nat.add_zero] at hexact
      have hwithin := @recordVariant_within
        (cache.storeVariant arc algo out).1.size (cache.shardOf key) (h.sound.mirrored _)
        cache.maxShardBytes out.length key hexact
        (bytesFrom_storeVariant h.sound hresident hnew ▸ hfits)
      have hshard := @ShardedLruCache.setShardOf_shards_self
        (cache.storeVariant arc algo out).1 key
        ((cache.shardOf key).recordVariant (cache.storeVariant arc algo out).1.size
          cache.maxShardBytes key out.length)
      exact (congrArg currentBytes hshard).trans_le hwithin
    · have hshard := @ShardedLruCache.setShardOf_shards_of_ne
        (cache.storeVariant arc algo out).1 key
        ((cache.shardOf key).recordVariant (cache.storeVariant arc algo out).1.size
          cache.maxShardBytes key out.length) i hi
      exact (congrArg currentBytes hshard).trans_le (h.within i)

end Growth

/-! ## Calls of the engine -/

def addedVariant (encoders : Encoders) (mask : BitVec 8) (entry : CacheEntry) :
    List (BitVec 8 × CompressionAlgorithm) → Option (CompressionAlgorithm × Bytes)
  | [] => none
  | (flag, algo) :: rest =>
    if mask &&& flag ≠ 0 then
      if (entry.getVariant algo).isSome then none
      else
        match compressedVariant encoders algo entry.rawBody with
        | some out => some (algo, out)
        | none => addedVariant encoders mask entry rest
    else addedVariant encoders mask entry rest

section Negotiation

variable {encoders : Encoders} {algo : CompressionAlgorithm} {out : Bytes}

theorem compressedVariant_ne_nil {body : Bytes}
    (h : compressedVariant encoders algo body = some out) : out ≠ [] := by
  have hpos := (Option.filter_eq_some_iff.mp h).2
  rintro rfl
  simp at hpos

theorem lazyCompress_eq {storage : ShardedLruCache} {arc : Arc}
    (hnew : (storage.heap arc).getVariant algo = none) :
    lazyCompress encoders storage arc algo =
      match compressedVariant encoders algo (storage.heap arc).rawBody with
      | none => (storage, none)
      | some out => ((storage.storeVariant arc algo out).1.recordVariantMemory
          (storage.heap arc).key out.length, some out) := by
  unfold lazyCompress
  rw [hnew]
  cases hout : compressedVariant encoders algo (storage.heap arc).rawBody with
  | none => rfl
  | some out =>
    have hadded := @storeVariant_addedBytes storage arc algo out hnew
    have hcanonical : (storage.storeVariant arc algo out).2.1 = out := by
      simp only [ShardedLruCache.storeVariant, CacheEntry.storeVariant,
        show (storage.heap arc).variants.get? algo = none from hnew]
    have hpos : 0 < out.length := List.length_pos_of_ne_nil (compressedVariant_ne_nil hout)
    simp only [hadded, hcanonical, if_pos hpos]

theorem negotiateFrom_storage (mask : BitVec 8) (arc : Arc)
    (preferred : List (BitVec 8 × CompressionAlgorithm)) (storage : ShardedLruCache) :
    (negotiateFrom encoders mask arc preferred storage).1 =
      match addedVariant encoders mask (storage.heap arc) preferred with
      | none => storage
      | some (algo, out) => (storage.storeVariant arc algo out).1.recordVariantMemory
          (storage.heap arc).key out.length := by
  induction preferred with
  | nil => rfl
  | cons first rest ih =>
    obtain ⟨flag, algo⟩ := first
    unfold negotiateFrom addedVariant
    by_cases hflag : mask &&& flag ≠ 0
    · rw [if_pos hflag, if_pos hflag]
      cases hvariant : (storage.heap arc).getVariant algo with
      | some var => rfl
      | none =>
        rw [lazyCompress_eq hvariant]
        cases compressedVariant encoders algo (storage.heap arc).rawBody with
        | none => exact ih
        | some out => rfl
    · rw [if_neg hflag, if_neg hflag]
      exact ih

theorem addedVariant_spec {mask : BitVec 8} {entry : CacheEntry}
    {preferred : List (BitVec 8 × CompressionAlgorithm)}
    (h : addedVariant encoders mask entry preferred = some (algo, out)) :
    entry.getVariant algo = none ∧ out ≠ [] := by
  induction preferred with
  | nil => simp [addedVariant] at h
  | cons first rest ih =>
    obtain ⟨flag, candidate⟩ := first
    unfold addedVariant at h
    split_ifs at h with hflag hvariant
    · cases hout : compressedVariant encoders candidate entry.rawBody with
      | none => exact ih (by simpa [hout] using h)
      | some written =>
        simp only [hout, Option.some.injEq, Prod.mk.injEq] at h
        obtain ⟨rfl, rfl⟩ := h
        exact ⟨by simpa using hvariant, compressedVariant_ne_nil hout⟩
    · exact ih h

end Negotiation

namespace ResponseCacheEngine

variable (platform : Platform)

/-- A response that is stored fits into a shard, and so does a variant that is added,
together with its entry and the entries behind it in the queue. -/
def Fits (engine : ResponseCacheEngine) : EngineCall → Prop
  | .store record clockSec =>
    ∀ ttlSecs ∈ engine.storableTtl record,
      (engine.entryFor platform record ttlSecs clockSec).entrySize ≤
        engine.storage.maxShardBytes
  | .access ctx acceptEncoding cacheControl clockSec =>
    let key := engine.keyOf ctx.method ctx.host ctx.path ctx.query
    engine.bypasses ctx.method ctx.path cacheControl = true ∨
      ∀ arc ∈ (engine.storage.shardOf key).entries.get? key,
        (engine.storage.heap arc).isExpired (nowSec ctx clockSec) = false →
        ∀ variant ∈ addedVariant platform.encoders (acceptedMask acceptEncoding)
            (engine.storage.heap arc) preferredEncodings,
          engine.storage.bytesFrom key + variant.2.length ≤ engine.storage.maxShardBytes

instance (engine : ResponseCacheEngine) (c : EngineCall) :
    Decidable (engine.Fits platform c) := by
  cases c <;> unfold Fits <;> infer_instance

end ResponseCacheEngine

/-! ### Lookups touch an entry and may add to it -/

def ShardedLruCache.touch (cache : ShardedLruCache) (arc : Arc) (nowSec : Nat) :
    ShardedLruCache :=
  cache.write arc { cache.heap arc with lastAccessedEpochSec := nowSec }

variable (cache : ShardedLruCache)

theorem size_touch (arc : Arc) (nowSec : Nat) :
    (cache.touch arc nowSec).size = cache.size :=
  ShardedLruCache.size_write rfl

theorem bytesFrom_touch (arc : Arc) (nowSec : Nat) (key : Bytes) :
    (cache.touch arc nowSec).bytesFrom key = cache.bytesFrom key := by
  rw [ShardedLruCache.bytesFrom, size_touch]
  rfl

theorem addedVariant_touch (encoders : Encoders) (mask : BitVec 8) (cache : ShardedLruCache)
    (arc : Arc) (nowSec : Nat) (preferred : List (BitVec 8 × CompressionAlgorithm)) :
    addedVariant encoders mask ((cache.touch arc nowSec).heap arc) preferred =
      addedVariant encoders mask (cache.heap arc) preferred := by
  have hheap : (cache.touch arc nowSec).heap arc =
      { cache.heap arc with lastAccessedEpochSec := nowSec } := by
    simp [ShardedLruCache.touch, ShardedLruCache.write]
  rw [hheap]
  induction preferred with
  | nil => rfl
  | cons first rest ih =>
    unfold addedVariant
    rw [ih]
    rfl

def ShardedLruCache.limits (cache : ShardedLruCache) : Nat × Nat :=
  (cache.maxShardBytes, cache.maxMemoryBytes)

theorem limits_recordVariantMemory (key : Bytes) (addedBytes : Nat) :
    (cache.recordVariantMemory key addedBytes).limits = cache.limits := by
  unfold ShardedLruCache.recordVariantMemory
  split <;> rfl

theorem limits_negotiateVariant (encoders : Encoders) (cache : ShardedLruCache) (arc : Arc)
    (acceptEncoding : Option Bytes) :
    (negotiateVariant encoders cache arc acceptEncoding).1.limits = cache.limits := by
  rw [negotiateVariant, negotiateFrom_storage]
  split
  · rfl
  · exact limits_recordVariantMemory _ _ _

theorem bounded_negotiateVariant {encoders : Encoders} {cache : ShardedLruCache}
    (h : cache.Bounded) {key : Bytes} {arc : Arc} {acceptEncoding : Option Bytes}
    (hresident : (cache.shardOf key).entries.get? key = some arc)
    (hfits : ∀ variant ∈ addedVariant encoders (acceptedMask acceptEncoding) (cache.heap arc)
        preferredEncodings, cache.bytesFrom key + variant.2.length ≤ cache.maxShardBytes) :
    (negotiateVariant encoders cache arc acceptEncoding).1.Bounded := by
  rw [negotiateVariant, negotiateFrom_storage]
  split
  · exact h
  · rename_i algo out hadded
    obtain ⟨hnew, hout⟩ := addedVariant_spec hadded
    rw [(h.sound.placed hresident).2.1]
    exact h.addVariant hresident hnew hout (hfits _ hadded)

theorem evaluateAccess_storage {platform : Platform} {engine : ResponseCacheEngine}
    {ctx : RequestContext} {acceptEncoding cacheControl : Option Bytes} {clockSec : Nat}
    (hbypass : engine.bypasses ctx.method ctx.path cacheControl = false) :
    (engine.evaluateAccess platform ctx acceptEncoding cacheControl clockSec).1.storage =
      match engine.storage.get (engine.keyOf ctx.method ctx.host ctx.path ctx.query)
          (nowSec ctx clockSec) with
      | (storage, none) => storage
      | (storage, some arc) =>
        (negotiateVariant platform.encoders storage arc acceptEncoding).1 := by
  unfold evaluateAccess
  rw [if_neg (by simp [hbypass])]
  dsimp only
  generalize engine.storage.get _ _ = result
  obtain ⟨storage, found⟩ := result
  cases found <;> rfl

structure ResponseCacheEngine.Inv (limits : Nat × Nat) (engine : ResponseCacheEngine) :
    Prop where
  bounded : engine.storage.Bounded
  limits_eq : engine.storage.limits = limits

section Step

variable {platform : Platform} {limits : Nat × Nat} {engine engine' : ResponseCacheEngine}

theorem engineInv_store (h : engine.Inv limits) {record : UpstreamResponseRecord}
    {clockSec : Nat} (hfits : engine.Fits platform (.store record clockSec)) :
    (engine.storeResponse platform record clockSec).1.Inv limits := by
  unfold storeResponse
  split
  · exact h
  · rename_i ttlSecs hstorable
    exact ⟨h.bounded.insert (hfits ttlSecs hstorable), h.limits_eq⟩

theorem engineInv_access (h : engine.Inv limits) {ctx : RequestContext}
    {acceptEncoding cacheControl : Option Bytes} {clockSec : Nat}
    (hfits : engine.Fits platform (.access ctx acceptEncoding cacheControl clockSec)) :
    (engine.evaluateAccess platform ctx acceptEncoding cacheControl clockSec).1.Inv limits := by
  cases hbypass : engine.bypasses ctx.method ctx.path cacheControl with
  | true =>
    rw [evaluateAccess, if_pos hbypass]
    exact h
  | false =>
    have hgrowth := hfits.resolve_left (by simp [hbypass])
    have hstorage := @evaluateAccess_storage platform engine ctx acceptEncoding cacheControl
      clockSec hbypass
    have hget := get_result engine.storage
      (engine.keyOf ctx.method ctx.host ctx.path ctx.query)
      (nowSec ctx clockSec)
    have hbounded := h.bounded.get (engine.keyOf ctx.method ctx.host ctx.path ctx.query)
      (nowSec ctx clockSec)
    generalize engine.storage.get _ _ = result at hstorage hget hbounded
    cases hget with
    | absent => exact ⟨hstorage ▸ hbounded, hstorage ▸ h.limits_eq⟩
    | expired => exact ⟨hstorage ▸ hbounded, hstorage ▸ h.limits_eq⟩
    | @fresh arc hresident hfresh =>
      have hadded := hgrowth arc hresident (by simpa [CacheEntry.isExpired] using hfresh)
      constructor
      · rw [hstorage]
        apply bounded_negotiateVariant hbounded hresident
        intro variant hvariant
        have hsame := bytesFrom_touch engine.storage arc
          (nowSec ctx clockSec)
          (engine.keyOf ctx.method ctx.host ctx.path ctx.query)
        have hfit := hadded variant (by
          rw [← addedVariant_touch _ _ _ _ (nowSec ctx clockSec)]
          exact hvariant)
        rw [← hsame] at hfit
        exact hfit
      · rw [hstorage, limits_negotiateVariant]
        exact h.limits_eq

theorem engineInv_call {c : EngineCall} (h : engine.Inv limits)
    (hfits : engine.Fits platform c) (hcall : engine.step platform c = some engine') :
    engine'.Inv limits := by
  cases c with
  | store record clockSec =>
    obtain rfl := Option.some.inj hcall
    exact engineInv_store h hfits
  | access ctx acceptEncoding cacheControl clockSec =>
    obtain rfl := Option.some.inj hcall
    exact engineInv_access h hfits

end Step

/-! ## The bound -/

/-- The shards share out the memory, unless the product of the limit in megabytes wraps
around to zero. -/
theorem maxShardBytes_mul_le (getShardIndex : Bytes → Fin numShards) {maxMemoryMb : Nat}
    (h : maxMemoryMb % 2 ^ 44 ≠ 0) :
    numShards * (ShardedLruCache.new getShardIndex maxMemoryMb).maxShardBytes ≤
      (ShardedLruCache.new getShardIndex maxMemoryMb).maxMemoryBytes := by
  have hwrap : wrapU64 (maxMemoryMb * 1024 * 1024) = maxMemoryMb % 2 ^ 44 * 2 ^ 20 := by
    rw [Nat.mul_assoc]
    exact Nat.mul_mod_mul_right (2 ^ 20) maxMemoryMb (2 ^ 44)
  simp only [ShardedLruCache.new, hwrap, numShards]
  omega

theorem sum_currentBytes_le {cache : ShardedLruCache} (h : cache.Bounded) :
    cache.totalMemoryBytes ≤ numShards * cache.maxShardBytes := by
  have hsum := List.sum_le_card_nsmul
    ((List.finRange numShards).map fun i => (cache.shards i).currentBytes) cache.maxShardBytes
    (by
      intro bytes hbytes
      obtain ⟨i, -, rfl⟩ := List.mem_map.mp hbytes
      exact h.within i)
  simpa [ShardedLruCache.totalMemoryBytes] using hsum

/-- If every call fits, the cache keeps to its memory, and each shard to its part. -/
theorem memory_bounded_of_fits {platform : Platform} {config : ResponseCacheConfig}
    (hlimit : config.sanitize.maxMemoryMb % 2 ^ 44 ≠ 0) {calls : List EngineCall}
    {engine : ResponseCacheEngine}
    (hrun : RunsUnder (ResponseCacheEngine.step platform) (ResponseCacheEngine.Fits platform)
      (.new platform config) calls engine) :
    engine.storage.totalMemoryBytes ≤ engine.storage.maxMemoryBytes ∧
      ∀ i, (engine.storage.shards i).currentBytes ≤ engine.storage.maxShardBytes := by
  have hstart : (new platform config).Inv
      (new platform config).storage.limits :=
    ⟨ShardedLruCache.Bounded.new _ _, rfl⟩
  have hinv := RunsUnder.invariant (fun h hfits hcall => engineInv_call h hfits hcall) hrun hstart
  obtain ⟨hshard, hmemory⟩ := Prod.mk.inj hinv.limits_eq
  refine ⟨?_, hinv.bounded.within⟩
  calc engine.storage.totalMemoryBytes
      ≤ numShards * engine.storage.maxShardBytes := sum_currentBytes_le hinv.bounded
    _ ≤ engine.storage.maxMemoryBytes := by
        rw [hshard, hmemory]
        exact maxShardBytes_mul_le platform.getShardIndex hlimit

/-! ## Samples -/

def fourMegabytes : ResponseCacheConfig := { ResponseCacheConfig.default with maxMemoryMb := 4 }

def pageRecord (body : Bytes) : UpstreamResponseRecord where
  method := ascii "GET"
  host := ascii "example.com"
  path := ascii "/"
  query := []
  status := 200
  contentType := ascii "text/plain"
  headers := []
  body := body
  cacheControl := none

theorem small_page_bounded :
    ∃ engine, RunsUnder.check (ResponseCacheEngine.step plainPlatform)
        (ResponseCacheEngine.Fits plainPlatform) (.new plainPlatform fourMegabytes)
        [.store (pageRecord (ascii "hello")) 1000] = some engine ∧
      fourMegabytes.sanitize.maxMemoryMb % 2 ^ 44 ≠ 0 ∧
      engine.storage.totalMemoryBytes ≤ engine.storage.maxMemoryBytes := by
  have hrun : (RunsUnder.check (step plainPlatform)
      (ResponseCacheEngine.Fits plainPlatform) (.new plainPlatform fourMegabytes)
      [.store (pageRecord (ascii "hello")) 1000]).isSome = true := by
    decide +kernel
  obtain ⟨engine, hengine⟩ := Option.isSome_iff_exists.mp hrun
  have hlimit : fourMegabytes.sanitize.maxMemoryMb % 2 ^ 44 ≠ 0 := by decide
  exact ⟨engine, hengine, hlimit,
    (memory_bounded_of_fits hlimit (RunsUnder.of_check hengine)).1⟩

theorem storableTtl_pageRecord {body : Bytes} (hbody : body ≠ [])
    (hlength : body.length ≤ 10485760) :
    (new plainPlatform fourMegabytes).storableTtl (pageRecord body) =
      some 300 := by
  have hchecks : (new plainPlatform fourMegabytes).config.enabled = true ∧
      (new plainPlatform fourMegabytes).config.isMethodCacheable
        (ascii "GET") = true ∧
      (new plainPlatform fourMegabytes).config.isStatusCacheable 200 =
        true ∧
      (new plainPlatform fourMegabytes).config.maxBodyBytes = 10485760 := by
    decide +kernel
  have httl : (new plainPlatform fourMegabytes).responseTtl
      (pageRecord body) = some 300 := by
    -- the body plays no part in the lifetime
    change (new plainPlatform fourMegabytes).responseTtl (pageRecord []) = _
    decide +kernel
  simp only [storableTtl, httl]
  simp [pageRecord, hchecks, hbody, hlength]

theorem totalMemoryBytes_insert_new (maxMemoryMb : Nat) (entry : CacheEntry) :
    ((ShardedLruCache.new (fun _ => 0) maxMemoryMb).insert entry).totalMemoryBytes =
      entry.entrySize := by
  have hshards : ∀ i, (((ShardedLruCache.new (fun _ => 0) maxMemoryMb).insert entry).shards
      i).currentBytes = if i = 0 then entry.entrySize else 0 := by
    intro i
    by_cases hi : i = 0
    · subst hi
      have hself := congrArg currentBytes
        (@ShardedLruCache.insert_shards_self (.new (fun _ => 0) maxMemoryMb) entry)
      exact hself.trans (Nat.zero_add _)
    · rw [if_neg hi, ShardedLruCache.insert_shards_of_ne entry hi]
      rfl
  simp only [ShardedLruCache.totalMemoryBytes, hshards]
  simp [List.finRange_succ]

theorem store_pageRecord {body : Bytes} (hbody : body ≠ []) (hlength : body.length ≤ 10485760) :
    ∃ engine, (new plainPlatform fourMegabytes).step plainPlatform
        (.store (pageRecord body) 1000) = some engine ∧
      engine.storage.maxMemoryBytes = 4194304 ∧
      engine.storage.totalMemoryBytes = 187 + body.length := by
  refine ⟨_, rfl, ?_, ?_⟩ <;>
    rw [call, storeResponse,
      storableTtl_pageRecord hbody hlength]
  · change (new plainPlatform fourMegabytes).storage.maxMemoryBytes = _
    decide +kernel
  · have hkey : ((new plainPlatform fourMegabytes).keyOf (ascii "GET")
        (ascii "example.com") (ascii "/") []).length = 17 := by
      decide +kernel
    have heager : (new plainPlatform
        fourMegabytes).config.eagerCompression = false := rfl
    have htype : (ascii "text/plain").length = 10 := by decide
    have hstruct : plainPlatform.entryStructBytes = 160 := rfl
    refine (totalMemoryBytes_insert_new 4 _).trans ?_
    rw [entryFor, eagerVariants, heager]
    simp [CacheEntry.new, pageRecord, hkey, htype, hstruct]

theorem large_page_exceeds_memory :
    ∃ engine, (ResponseCacheEngine.new plainPlatform fourMegabytes).step plainPlatform
        (.store (pageRecord (List.replicate 5000000 97)) 1000) = some engine ∧
      engine.storage.maxMemoryBytes = 4194304 ∧
      engine.storage.totalMemoryBytes = 5000187 := by
  have hlength : (List.replicate 5000000 (97 : UInt8)).length = 5000000 := List.length_replicate
  have hbody : List.replicate 5000000 (97 : UInt8) ≠ [] :=
    List.ne_nil_of_length_pos (by omega)
  have hstore := store_pageRecord hbody (by omega)
  rw [hlength] at hstore
  exact hstore

end AuroraGateway.ResponseCache
