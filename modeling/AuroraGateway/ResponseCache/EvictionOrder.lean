import AuroraGateway.ResponseCache.MemoryBound

/-!
# The order of evictions

A lookup that hits leaves the queue of its shard as it is, so the queue lists the
entries as they were stored.  It lists them by their last use as long as only the
entry at its end is hit.
-/

namespace AuroraGateway.ResponseCache

open Foundation ShardedLruCache

/-! ## What is evicted -/

/-- The rest of a queue after the shortest beginning without which the rest fits. -/
structure EvictsFront (tooBig : Nat → Bool) (weight : Bytes → Nat) (order rest : List Bytes) :
    Prop where
  suffix : rest <:+ order
  fits : rest = [] ∨ tooBig (rest.map weight).sum = false
  needed : ∀ longer, longer <:+ order → rest.length < longer.length →
    tooBig (longer.map weight).sum = true

theorem EvictsFront.congr {tooBig : Nat → Bool} {weight weight' : Bytes → Nat}
    {order rest : List Bytes} (h : EvictsFront tooBig weight order rest)
    (hweight : ∀ key ∈ order, weight' key = weight key) :
    EvictsFront tooBig weight' order rest := by
  have hsum : ∀ l, l <:+ order → (l.map weight').sum = (l.map weight).sum := by
    intro l hl
    rw [List.map_congr_left fun key hkey => hweight key (hl.subset hkey)]
  refine ⟨h.suffix, ?_, fun longer hlonger hlength => ?_⟩
  · rw [hsum rest h.suffix]
    exact h.fits
  · rw [hsum longer hlonger]
    exact h.needed longer hlonger hlength

namespace ShardState

variable {size : Arc → Nat} {shard : ShardState}

theorem evictLoop_front (tooBig : Nat → Bool) {order : List Bytes}
    {entries : HashTable Bytes Arc} (hmirrors : Mirrors order entries) :
    EvictsFront tooBig (entries.weightAt size) order
      (evictLoop size tooBig none order entries (entries.total size)).lruOrder := by
  induction order generalizing entries with
  | nil =>
    refine ⟨List.suffix_rfl, .inl rfl, fun longer hlonger hlength => ?_⟩
    rw [List.suffix_nil.mp hlonger] at hlength
    cases hlength
  | cons popped rest ih =>
    have hall := hmirrors.sum_weightAt size
    unfold evictLoop
    split_ifs with hover hspared
    · cases hspared
    · obtain ⟨evicted, hget⟩ := hmirrors.get?_head
      have htotal := HashTable.total_erase hget size
      simp only [hget]
      rw [show entries.total size - size evicted = (entries.erase popped).total size by omega]
      obtain ⟨hsuffix, hfits, hneeded⟩ := (ih hmirrors.pop).congr fun key hkey =>
        (entries.weightAt_erase_of_ne size (hmirrors.ne_of_mem hkey)).symm
      refine ⟨hsuffix.trans (List.suffix_cons _ _), hfits, fun longer hlonger hlength => ?_⟩
      rcases List.suffix_cons_iff.mp hlonger with rfl | hlonger
      · rwa [hall]
      · exact hneeded longer hlonger hlength
    · refine ⟨List.suffix_rfl, .inr ?_, fun longer hlonger hlength => ?_⟩
      · rw [hall]
        simpa using hover
      · exact absurd hlonger.length_le (Nat.not_le_of_lt hlength)

theorem makeRoom_front (hmirrored : shard.Mirrored)
    (hexact : shard.currentBytes = shard.residentBytes size) (maxShardBytes entryBytes : Nat)
    (key : Bytes) :
    EvictsFront (fun c => maxShardBytes < c + entryBytes) (shard.entries.weightAt size)
      (shard.lruOrder.filter fun k => k ≠ key)
      (shard.makeRoom size maxShardBytes entryBytes key).lruOrder := by
  unfold makeRoom evict
  cases hget : shard.entries.get? key with
  | none =>
    have hself : (shard.lruOrder.filter fun k => k ≠ key) = shard.lruOrder := by
      refine List.filter_eq_self.mpr fun k hk => decide_eq_true ?_
      rintro rfl
      have hsome := (hmirrored.mem_iff k).mp hk
      rw [hget] at hsome
      cases hsome
    rw [hself]
    simp only [hexact]
    exact evictLoop_front _ hmirrored
  | some old =>
    have hremoved : shard.currentBytes - size old = (shard.entries.erase key).total size := by
      have htotal := HashTable.total_erase hget size
      rw [hexact, residentBytes]
      omega
    simp only [remove, hremoved]
    refine (evictLoop_front _ (Mirrors.remove hmirrored key)).congr fun k hk => ?_
    have hne : k ≠ key := by simpa using (List.mem_filter.mp hk).2
    exact (shard.entries.weightAt_erase_of_ne size hne).symm

end ShardState

def Evicts (cache : ShardedLruCache) (entry : CacheEntry) (key : Bytes) : Prop :=
  key ≠ entry.key ∧ ((cache.shardOf entry.key).entries.get? key).isSome ∧
    ((cache.insert entry).shardOf entry.key).entries.get? key = none

def Keeps (cache : ShardedLruCache) (entry : CacheEntry) (key : Bytes) : Prop :=
  key ≠ entry.key ∧ (((cache.insert entry).shardOf entry.key).entries.get? key).isSome

section Room

variable {cache : ShardedLruCache} (hsound : cache.Sound) {entry : CacheEntry} {key : Bytes}
include hsound

theorem get?_insert_isSome_iff (hne : key ≠ entry.key) :
    (((cache.insert entry).shardOf entry.key).entries.get? key).isSome ↔
      key ∈ (cache.roomFor entry).lruOrder := by
  have hroom : (cache.roomFor entry).Mirrored :=
    (hsound.roomFor_shrinks entry).mirrored (hsound.mirrored _)
  change (((cache.insert entry).shards (cache.getShardIndex entry.key)).entries.get?
    key).isSome ↔ _
  rw [insert_shards_self, get?_push_of_ne hne, hroom.mem_iff]

theorem evicts_iff : Evicts cache entry key ↔
    key ∈ ((cache.shardOf entry.key).lruOrder.filter fun k => k ≠ entry.key) ∧
      key ∉ (cache.roomFor entry).lruOrder := by
  have hmem : key ∈ (cache.shardOf entry.key).lruOrder ↔ _ :=
    (hsound.mirrored (cache.getShardIndex entry.key)).mem_iff key
  rw [List.mem_filter, decide_eq_true_eq, hmem]
  constructor
  · rintro ⟨hne, hsome, hnone⟩
    refine ⟨⟨hsome, hne⟩, fun hmem => ?_⟩
    rw [← get?_insert_isSome_iff hsound hne, hnone] at hmem
    cases hmem
  · rintro ⟨⟨hsome, hne⟩, hnot⟩
    rw [← get?_insert_isSome_iff hsound hne, Option.not_isSome_iff_eq_none] at hnot
    exact ⟨hne, hsome, hnot⟩

theorem keeps_iff : Keeps cache entry key ↔
    key ≠ entry.key ∧ key ∈ (cache.roomFor entry).lruOrder :=
  and_congr_right fun hne => get?_insert_isSome_iff hsound hne

end Room

/-! ## Uses -/

structure UsedCache where
  cache : ShardedLruCache
  /-- When the entry of a key was stored or hit for the last time. -/
  lastUse : Bytes → Nat
  clock : Nat

inductive UseCall where
  | get (key : Bytes) (nowSec : Nat)
  | insert (entry : CacheEntry) (hsize : 0 < entry.entrySize)

namespace UsedCache

def step (s : UsedCache) : UseCall → Option UsedCache
  | .get key nowSec =>
    match s.cache.get key nowSec with
    | (cache, some _) => some ⟨cache, Function.update s.lastUse key s.clock, s.clock + 1⟩
    | (cache, none) => some ⟨cache, s.lastUse, s.clock + 1⟩
  | .insert entry _ =>
    some ⟨s.cache.insert entry, Function.update s.lastUse entry.key s.clock, s.clock + 1⟩

/-- Whatever is stored next, no entry that goes was used later than one that stays. -/
def EvictsOldest (s : UsedCache) : Prop :=
  ∀ entry : CacheEntry, 0 < entry.entrySize → ∀ gone kept, Evicts s.cache entry gone →
    Keeps s.cache entry kept → s.lastUse gone ≤ s.lastUse kept

/-- A lookup hits only the entry that was stored last in its shard. -/
def HitsNewest (s : UsedCache) : UseCall → Prop
  | .get key nowSec => (s.cache.get key nowSec).2.isSome →
      (s.cache.shardOf key).lruOrder.getLast? = some key
  | .insert _ _ => True

structure InUse (s : UsedCache) : Prop where
  sound : s.cache.Sound
  balanced : s.cache.Balances fun _ => 0
  /-- Only an entry that is too big for a shard is alone in it with too many bytes. -/
  roomy : ∀ i, (s.cache.shards i).currentBytes ≤ s.cache.maxShardBytes ∨
    (s.cache.shards i).lruOrder.length ≤ 1
  positive : ∀ {i key arc}, (s.cache.shards i).entries.get? key = some arc →
    0 < s.cache.size arc
  past : ∀ i, ∀ key ∈ (s.cache.shards i).lruOrder, s.lastUse key < s.clock
  spread : ∀ i (keys : List Bytes), ∃ key, key ∉ keys ∧ s.cache.getShardIndex key = i

def ByUse (s : UsedCache) : Prop :=
  ∀ i, (s.cache.shards i).lruOrder.Pairwise fun a b => s.lastUse a ≤ s.lastUse b

variable {s t : UsedCache}

theorem InUse.front (h : s.InUse) (entry : CacheEntry) :
    EvictsFront (fun c => s.cache.maxShardBytes < c + entry.entrySize)
      ((s.cache.shardOf entry.key).entries.weightAt s.cache.size)
      ((s.cache.shardOf entry.key).lruOrder.filter fun k => k ≠ entry.key)
      (s.cache.roomFor entry).lruOrder :=
  ShardState.makeRoom_front (h.sound.mirrored _) (h.balanced _) _ _ _

theorem evictsOldest_of_byUse (h : s.InUse) (hbyUse : s.ByUse) : s.EvictsOldest := by
  intro entry _ gone kept hgone hkept
  obtain ⟨hmem, hnot⟩ := (evicts_iff h.sound).mp hgone
  obtain ⟨-, hrest⟩ := (keeps_iff h.sound).mp hkept
  obtain ⟨front, hsplit⟩ := (h.front entry).suffix
  have hsorted := (hbyUse (s.cache.getShardIndex entry.key)).sublist
    (List.filter_sublist (p := fun k => decide (k ≠ entry.key)))
  change (List.filter _ (s.cache.shardOf entry.key).lruOrder).Pairwise _ at hsorted
  rw [← hsplit] at hsorted hmem
  refine (List.pairwise_append.mp hsorted).2.2 gone ?_ kept hrest
  exact (List.mem_append.mp hmem).resolve_right hnot

variable {i : Fin numShards} {cache : ShardedLruCache}

theorem InUse.weightAt_pos (h : s.InUse) {key : Bytes} (hkey : key ∈ (s.cache.shards i).lruOrder) :
    0 < (s.cache.shards i).entries.weightAt s.cache.size key := by
  obtain ⟨arc, harc⟩ := Option.isSome_iff_exists.mp (((h.sound.mirrored i).mem_iff key).mp hkey)
  rw [HashTable.weightAt_of_some harc]
  exact h.positive harc

theorem InUse.exists_entry (h : s.InUse) {front rest : List Bytes}
    (hsplit : (s.cache.shards i).lruOrder = front ++ rest) (hfront : front ≠ [])
    (hrest : rest ≠ []) :
    ∃ entry : CacheEntry, 0 < entry.entrySize ∧ s.cache.getShardIndex entry.key = i ∧
      entry.key ∉ (s.cache.shards i).lruOrder ∧ (s.cache.roomFor entry).lruOrder = rest := by
  obtain ⟨key, hkey, hindex⟩ := h.spread i (s.cache.shards i).lruOrder
  generalize hweight : (s.cache.shards i).entries.weightAt s.cache.size = weight
  have hpos : ∀ k ∈ front ++ rest, 0 < weight k := by
    intro k hk
    rw [← hweight]
    exact h.weightAt_pos (hsplit ▸ hk)
  have hsumPos : ∀ l : List Bytes, l ≠ [] → (∀ k ∈ l, k ∈ front ++ rest) →
      0 < (l.map weight).sum := by
    intro l hne hsub
    obtain ⟨k, hk⟩ := List.exists_mem_of_ne_nil l hne
    exact Nat.lt_of_lt_of_le (hpos k (hsub k hk))
      (List.single_le_sum (fun _ _ => Nat.zero_le _) _ (List.mem_map_of_mem hk))
  have hwithin : (front.map weight).sum + (rest.map weight).sum ≤ s.cache.maxShardBytes := by
    have htotal := (h.sound.mirrored i).sum_weightAt s.cache.size
    have hcurrent : (s.cache.shards i).currentBytes = _ := h.balanced i
    rw [hsplit, hweight, List.map_append, List.sum_append] at htotal
    rcases h.roomy i with hle | hle
    · rw [ShardState.residentBytes] at hcurrent
      omega
    · have hlengths := List.length_pos_of_ne_nil hfront
      have hlengths' := List.length_pos_of_ne_nil hrest
      rw [hsplit, List.length_append] at hle
      omega
  have hfrontPos := hsumPos front hfront fun k hk => List.mem_append_left _ hk
  let entry : CacheEntry := { unused with
    key := key
    entrySize := s.cache.maxShardBytes - (rest.map weight).sum }
  have hsize : entry.entrySize = s.cache.maxShardBytes - (rest.map weight).sum := rfl
  have hself : ((s.cache.shards i).lruOrder.filter fun k => k ≠ entry.key) = front ++ rest := by
    rw [← hsplit]
    refine List.filter_eq_self.mpr fun k hk => decide_eq_true ?_
    rintro rfl
    exact hkey hk
  have hroom := h.front entry
  rw [shardOf, show s.cache.getShardIndex entry.key = i from hindex, hself,
    hweight] at hroom
  refine ⟨entry, by omega, hindex, hkey, ?_⟩
  -- Were it shorter, the rest would have to go as well; were it longer, it would not fit.
  have hle : rest.length ≤ (s.cache.roomFor entry).lruOrder.length := by
    by_contra hlt
    have hneeded := hroom.needed rest (List.suffix_append _ _) (Nat.lt_of_not_le hlt)
    rw [decide_eq_true_eq] at hneeded
    omega
  obtain ⟨extra, hextra⟩ :=
    List.suffix_of_suffix_length_le (List.suffix_append front rest) hroom.suffix hle
  have hnone : extra = [] := by
    by_contra hsome
    rcases hroom.fits with hempty | hfits
    · rw [hempty, List.append_eq_nil_iff] at hextra
      exact hsome hextra.1
    · have hextraPos := hsumPos extra hsome fun k hk => hroom.suffix.subset
        (hextra ▸ List.mem_append_left _ hk)
      rw [← hextra, List.map_append, List.sum_append, decide_eq_false_iff_not] at hfits
      omega
  rw [← hextra, hnone, List.nil_append]

theorem byUse_of_evictsOldest (h : s.InUse) (holdest : s.EvictsOldest) : s.ByUse := by
  intro i
  rw [List.pairwise_iff_forall_sublist]
  intro a b hsub
  obtain ⟨front, rest, hsplit, ha, hb⟩ := List.cons_sublist_iff.mp hsub
  have hb := List.singleton_sublist.mp hb
  obtain ⟨entry, hsize, rfl, hkey, hroom⟩ :=
    h.exists_entry hsplit (List.ne_nil_of_mem ha) (List.ne_nil_of_mem hb)
  have hnodup := (h.sound.mirrored (s.cache.getShardIndex entry.key)).nodup
  have hne : ∀ k ∈ (s.cache.shardOf entry.key).lruOrder, k ≠ entry.key := by
    rintro k hk rfl
    exact hkey hk
  have hmem : ∀ k ∈ front ++ rest, k ∈ (s.cache.shardOf entry.key).lruOrder := by
    intro k hk
    rw [shardOf, hsplit]
    exact hk
  rw [hsplit] at hnodup
  refine holdest entry hsize a b ((evicts_iff h.sound).mpr ⟨?_, ?_⟩)
    ((keeps_iff h.sound).mpr ⟨hne b (hmem b (List.mem_append_right _ hb)), hroom ▸ hb⟩)
  · have hin := hmem a (List.mem_append_left _ ha)
    exact List.mem_filter.mpr ⟨hin, decide_eq_true (hne a hin)⟩
  · rw [hroom]
    exact fun ha' => (List.nodup_append.mp hnodup).2.2 a ha a ha' rfl

theorem evictsOldest_iff (h : s.InUse) : s.EvictsOldest ↔ s.ByUse :=
  ⟨byUse_of_evictsOldest h, evictsOldest_of_byUse h⟩

/-! ## One call -/

theorem InUse.index_eq (h : s.InUse) {key : Bytes} (hkey : key ∈ (s.cache.shards i).lruOrder) :
    s.cache.getShardIndex key = i := by
  obtain ⟨arc, harc⟩ := Option.isSome_iff_exists.mp (((h.sound.mirrored i).mem_iff key).mp hkey)
  exact (h.sound.placed harc).2.2

theorem get_shards (cache : ShardedLruCache) (key : Bytes) (nowSec : Nat) (i : Fin numShards) :
    ((cache.get key nowSec).1.shards i).lruOrder.Sublist (cache.shards i).lruOrder ∧
      ((cache.get key nowSec).1.shards i).currentBytes ≤ (cache.shards i).currentBytes ∧
      ∀ {k arc}, ((cache.get key nowSec).1.shards i).entries.get? k = some arc →
        (cache.shards i).entries.get? k = some arc := by
  have hget := get_result cache key nowSec
  generalize cache.get key nowSec = result at hget
  cases hget with
  | absent => exact ⟨.refl _, Nat.le_refl _, id⟩
  | fresh => exact ⟨.refl _, Nat.le_refl _, id⟩
  | expired hkey =>
    by_cases hi : i = cache.getShardIndex key
    · subst hi
      rw [setShardOf_shards_self]
      exact ⟨List.filter_sublist, Nat.sub_le _ _, (ShardState.remove_shrinks _ hkey).sub⟩
    · rw [setShardOf_shards_of_ne hi]
      exact ⟨.refl _, Nat.le_refl _, id⟩

theorem get_fixed (cache : ShardedLruCache) (key : Bytes) (nowSec : Nat) :
    (cache.get key nowSec).1.size = cache.size ∧
      (cache.get key nowSec).1.getShardIndex = cache.getShardIndex ∧
      (cache.get key nowSec).1.maxShardBytes = cache.maxShardBytes := by
  have hget := get_result cache key nowSec
  generalize cache.get key nowSec = result at hget
  cases hget with
  | absent => exact ⟨rfl, rfl, rfl⟩
  | expired => exact ⟨rfl, rfl, rfl⟩
  | fresh => exact ⟨size_write rfl, rfl, rfl⟩

theorem balanced_get (h : cache.Balances fun _ => 0) (key : Bytes) (nowSec : Nat) :
    (cache.get key nowSec).1.Balances fun _ => 0 := by
  have hget := get_result cache key nowSec
  generalize cache.get key nowSec = result at hget
  cases hget with
  | absent => exact h
  | expired hkey =>
    exact h.setShardOf (fun _ _ => rfl)
      ((ShardState.remove_shrinks _ hkey).balanced (Nat.zero_le _) (h _))
  | fresh => exact h.write rfl

theorem InUse.get (h : s.InUse) (key : Bytes) (nowSec : Nat) {lastUse : Bytes → Nat}
    (hlast : ∀ k, lastUse k = s.lastUse k ∨ lastUse k = s.clock) :
    InUse ⟨(s.cache.get key nowSec).1, lastUse, s.clock + 1⟩ := by
  obtain ⟨hsize, hindex, hmax⟩ := get_fixed s.cache key nowSec
  refine ⟨h.sound.get key nowSec, balanced_get h.balanced key nowSec, fun i => ?_,
    fun hget => ?_, fun i k hk => ?_, hindex.symm ▸ h.spread⟩
  · obtain ⟨horder, hbytes, -⟩ := get_shards s.cache key nowSec i
    rw [hmax]
    exact (h.roomy i).imp hbytes.trans horder.length_le.trans
  · rw [hsize]
    exact h.positive ((get_shards s.cache key nowSec _).2.2 hget)
  · have hpast := h.past i k ((get_shards s.cache key nowSec i).1.subset hk)
    have hk := hlast k
    change lastUse k < s.clock + 1
    omega

theorem size_insert_of_lt {entry : CacheEntry} {arc : Arc} (harc : arc < cache.next) :
    (cache.insert entry).size arc = cache.size arc := by
  simp [size, insert_heap_of_lt entry harc]

theorem InUse.roomy_insert (h : s.InUse) (entry : CacheEntry) :
    (s.cache.roomFor entry).currentBytes + entry.entrySize ≤ s.cache.maxShardBytes ∨
      (s.cache.roomFor entry).lruOrder = [] := by
  by_cases hfits : entry.entrySize ≤ s.cache.maxShardBytes
  · exact .inl (ShardState.makeRoom_within s.cache.size (h.sound.mirrored _) (h.balanced _)
      hfits _)
  · refine .inr ((h.front entry).fits.resolve_right ?_)
    rw [decide_eq_false_iff_not]
    omega

theorem InUse.insert (h : s.InUse) {entry : CacheEntry} (hsize : 0 < entry.entrySize) :
    InUse ⟨s.cache.insert entry, Function.update s.lastUse entry.key s.clock, s.clock + 1⟩ where
  sound := h.sound.insert entry
  balanced := h.balanced.insert h.sound entry (Nat.zero_le _)
  roomy i := by
    by_cases hi : i = s.cache.getShardIndex entry.key
    · subst hi
      rw [insert_shards_self]
      refine (h.roomy_insert entry).imp id fun hempty => ?_
      simp [ShardState.push, hempty]
    · rw [insert_shards_of_ne entry hi]
      exact h.roomy i
  positive := by
    intro i key arc hget
    by_cases hi : i = s.cache.getShardIndex entry.key
    · subst hi
      rw [insert_shards_self] at hget
      by_cases hkey : key = entry.key
      · subst hkey
        rw [ShardState.push, HashTable.get?_insert_self, Option.some.injEq] at hget
        rwa [← hget, size, insert_heap_next]
      · rw [get?_push_of_ne hkey] at hget
        have hold := (h.sound.roomFor_shrinks entry).sub hget
        rw [size_insert_of_lt (h.sound.placed hold).1]
        exact h.positive hold
    · rw [insert_shards_of_ne entry hi] at hget
      rw [size_insert_of_lt (h.sound.placed hget).1]
      exact h.positive hget
  past i key hkey := by
    change Function.update s.lastUse entry.key s.clock key < s.clock + 1
    rw [Function.update_apply]
    split_ifs with hne
    · exact Nat.lt_succ_self _
    · refine Nat.lt_succ_of_lt (h.past i key ?_)
      by_cases hi : i = s.cache.getShardIndex entry.key
      · subst hi
        rw [insert_shards_self] at hkey
        have hroom := (List.mem_append.mp hkey).resolve_right (by simpa using hne)
        exact List.mem_of_mem_filter ((h.front entry).suffix.subset hroom)
      · rwa [insert_shards_of_ne entry hi] at hkey
  spread := h.spread

theorem InUse.step (h : s.InUse) {call : UseCall} (hstep : s.step call = some t) : t.InUse := by
  cases call with
  | get key nowSec =>
    have hhit := @InUse.get s h key nowSec (Function.update s.lastUse key s.clock) fun k => by
      rw [Function.update_apply]
      split_ifs
      · exact .inr rfl
      · exact .inl rfl
    have hmiss := h.get key nowSec fun _ => .inl rfl
    dsimp only [UsedCache.step] at hstep
    split at hstep
    · next heq =>
        cases hstep
        rwa [heq] at hhit
    · next heq =>
        cases hstep
        rwa [heq] at hmiss
  | insert entry hsize =>
    cases hstep
    exact h.insert hsize

section Newest

variable {order : List Bytes} {lastUse : Bytes → Nat} {key : Bytes} {clock : Nat}

theorem pairwise_update (hnot : key ∉ order) :
    (order.Pairwise fun a b => Function.update lastUse key clock a ≤
        Function.update lastUse key clock b) ↔
      order.Pairwise fun a b => lastUse a ≤ lastUse b := by
  refine List.Pairwise.iff_of_mem fun ha hb => ?_
  rw [Function.update_of_ne (ne_of_mem_of_not_mem ha hnot),
    Function.update_of_ne (ne_of_mem_of_not_mem hb hnot)]

theorem pairwise_append_newest (hnot : key ∉ order) (hpast : ∀ k ∈ order, lastUse k < clock)
    (hsorted : order.Pairwise fun a b => lastUse a ≤ lastUse b) :
    (order ++ [key]).Pairwise fun a b => Function.update lastUse key clock a ≤
      Function.update lastUse key clock b := by
  refine List.pairwise_append.mpr ⟨(pairwise_update hnot).mpr hsorted,
    List.pairwise_singleton _ _, fun k hk last hlast => ?_⟩
  rw [List.mem_singleton.mp hlast, Function.update_self,
    Function.update_of_ne (ne_of_mem_of_not_mem hk hnot)]
  exact Nat.le_of_lt (hpast k hk)

end Newest

theorem byUse_insert (h : s.InUse) (hbyUse : s.ByUse) (entry : CacheEntry) :
    ByUse ⟨s.cache.insert entry, Function.update s.lastUse entry.key s.clock, s.clock + 1⟩ := by
  intro i
  by_cases hi : i = s.cache.getShardIndex entry.key
  · subst hi
    have hsuffix := (h.front entry).suffix
    have hsub := hsuffix.sublist.trans List.filter_sublist
    rw [insert_shards_self]
    refine pairwise_append_newest (fun hmem => ?_) (fun k hk => h.past _ k (hsub.subset hk))
      ((hbyUse _).sublist hsub)
    simpa using (List.mem_filter.mp (hsuffix.subset hmem)).2
  · rw [insert_shards_of_ne entry hi]
    exact (pairwise_update fun hmem => hi (h.index_eq hmem).symm).mpr (hbyUse i)

theorem byUse_hit_iff (h : s.InUse) (hbyUse : s.ByUse) {key : Bytes}
    (hkey : key ∈ (s.cache.shardOf key).lruOrder) :
    (∀ i, (s.cache.shards i).lruOrder.Pairwise fun a b =>
        Function.update s.lastUse key s.clock a ≤ Function.update s.lastUse key s.clock b) ↔
      (s.cache.shardOf key).lruOrder.getLast? = some key := by
  have hnodup : (s.cache.shardOf key).lruOrder.Nodup := (h.sound.mirrored _).nodup
  have hpast : ∀ k ∈ (s.cache.shardOf key).lruOrder, s.lastUse k < s.clock := h.past _
  constructor
  · intro hsorted
    have hself : (s.cache.shardOf key).lruOrder.Pairwise _ := hsorted _
    obtain ⟨last, hlast⟩ := List.getLast?_isSome.mpr (List.ne_nil_of_mem hkey) |>
      Option.isSome_iff_exists.mp
    obtain ⟨before, hsplit⟩ := List.getLast?_eq_some_iff.mp hlast
    by_contra hne
    rw [hlast, Option.some.injEq] at hne
    rw [hsplit] at hself hkey hpast
    have hbefore : key ∈ before :=
      (List.mem_append.mp hkey).resolve_right fun h => hne (List.mem_singleton.mp h).symm
    have hle := (List.pairwise_append.mp hself).2.2 key hbefore last (List.mem_singleton_self _)
    rw [Function.update_self, Function.update_of_ne hne] at hle
    exact Nat.not_le_of_lt (hpast last (by simp)) hle
  · intro hlast i
    by_cases hi : i = s.cache.getShardIndex key
    · subst hi
      obtain ⟨before, hsplit⟩ := List.getLast?_eq_some_iff.mp hlast
      have hsorted : (s.cache.shardOf key).lruOrder.Pairwise _ := hbyUse _
      change (s.cache.shardOf key).lruOrder.Pairwise _
      rw [hsplit] at hnodup hsorted hpast ⊢
      refine pairwise_append_newest (fun hmem => ?_)
        (fun k hk => hpast k (List.mem_append_left _ hk)) (List.pairwise_append.mp hsorted).1
      exact (List.nodup_append.mp hnodup).2.2 key hmem key (List.mem_singleton_self _) rfl
    · exact (pairwise_update fun hmem => hi (h.index_eq hmem).symm).mpr (hbyUse i)

theorem hitsNewest_iff (h : s.InUse) (hbyUse : s.ByUse) {call : UseCall}
    (hstep : s.step call = some t) : s.HitsNewest call ↔ t.ByUse := by
  cases call with
  | insert entry hsize =>
    cases hstep
    exact iff_of_true trivial (byUse_insert h hbyUse entry)
  | get key nowSec =>
    have hshards := get_shards s.cache key nowSec
    have hget := get_result s.cache key nowSec
    dsimp only [UsedCache.step] at hstep
    rw [HitsNewest]
    generalize s.cache.get key nowSec = result at hget hshards hstep
    cases hget with
    | absent =>
      cases hstep
      exact iff_of_true nofun hbyUse
    | expired =>
      cases hstep
      exact iff_of_true nofun fun i => (hbyUse i).sublist (hshards i).1
    | fresh hkey =>
      cases hstep
      have hmem : key ∈ (s.cache.shardOf key).lruOrder :=
        ((h.sound.mirrored (s.cache.getShardIndex key)).mem_iff key).mpr (by
          rw [show (s.cache.shards _).entries.get? key = _ from hkey]
          rfl)
      exact (imp_iff_right rfl).trans (byUse_hit_iff h hbyUse hmem).symm

end UsedCache

/-! ## Runs -/

/-- Calls on an empty store whose hash leads to every shard again and again. -/
structure UseRun where
  getShardIndex : Bytes → Fin numShards
  maxMemoryMb : Nat
  spread : ∀ i (keys : List Bytes), ∃ key, key ∉ keys ∧ getShardIndex key = i
  calls : List UseCall

def UsedCache.start (getShardIndex : Bytes → Fin numShards) (maxMemoryMb : Nat) : UsedCache :=
  ⟨.new getShardIndex maxMemoryMb, fun _ => 0, 0⟩

namespace UseRun

variable (run : UseRun)

def start : UsedCache := .start run.getShardIndex run.maxMemoryMb

theorem inUse_start : run.start.InUse where
  sound := new_sound _ _
  balanced := ShardedLruCache.Balances.new _ _
  roomy _ := .inr (Nat.zero_le _)
  positive h := by
    simp [start, UsedCache.start, new, ShardState.new, HashTable.get?,
      HashTable.empty] at h
  past _ key hkey := by
    simp [start, UsedCache.start, new, ShardState.new] at hkey
  spread := run.spread

theorem exists_execute (s : UsedCache) (calls : List UseCall) :
    ∃ t, execute UsedCache.step s calls = some t := by
  induction calls generalizing s with
  | nil => exact ⟨s, rfl⟩
  | cons call calls ih =>
    cases call with
    | insert entry hsize => exact ih _
    | get key nowSec =>
      rw [execute, UsedCache.step]
      split <;> exact ih _

/-- What every insertion evicts was used before what it keeps, at every point of a run,
exactly if every hit of the run is on the entry that its shard stored last. -/
theorem evicts_least_recent_iff :
    (∀ before s, before <+: run.calls →
        execute UsedCache.step run.start before = some s → s.EvictsOldest) ↔
      ∃ t, RunsUnder UsedCache.step UsedCache.HitsNewest run.start run.calls t := by
  have hinUse : ∀ {before s}, execute UsedCache.step run.start before = some s → s.InUse :=
    fun h => (RunsUnder.of_execute h).invariant (fun hs _ => hs.step) run.inUse_start
  have hstart : run.start.ByUse := fun _ => .nil
  obtain ⟨t, hrun⟩ := exists_execute run.start run.calls
  have hiff : RunsUnder UsedCache.step UsedCache.HitsNewest run.start run.calls t ↔ _ :=
    RunsUnder.iff_forall_states (fun hs hstep => hs.step hstep)
      (fun hs hby hstep => UsedCache.hitsNewest_iff hs hby hstep) run.inUse_start hstart hrun
  constructor
  · intro holdest
    refine ⟨t, hiff.mpr fun before s hbefore hs => ?_⟩
    exact (UsedCache.evictsOldest_iff (hinUse hs)).mp (holdest before s hbefore hs)
  · rintro ⟨u, hunder⟩ before s hbefore hs
    obtain rfl : u = t := Option.some.inj (hunder.execute_eq.symm.trans hrun)
    exact (UsedCache.evictsOldest_iff (hinUse hs)).mpr (hiff.mp hunder before s hbefore hs)

end UseRun

/-! ## A hit that is lost -/

def sizedEntry (name : String) (entrySize : Nat) : CacheEntry :=
  { unused with
    key := ascii name
    expiresAtEpochSec := 60
    entrySize := entrySize }

def readAgain : UseRun where
  getShardIndex key := ⟨key.length % numShards, Nat.mod_lt _ (by decide)⟩
  maxMemoryMb := 1
  spread i keys := by
    refine ⟨.replicate (i + numShards * ((keys.map List.length).sum + 1)) 0, fun hmem => ?_, ?_⟩
    · have hle : _ ≤ (keys.map List.length).sum := List.le_sum_of_mem (List.mem_map_of_mem hmem)
      simp only [List.length_replicate, numShards] at hle
      omega
    · simp [Nat.mod_eq_of_lt i.isLt]
  calls := [.insert (sizedEntry "a" 40000) (by decide), .insert (sizedEntry "b" 20000) (by decide),
    .get (ascii "a") 1]

/-- The first of two entries is read, and goes before the second. -/
theorem hit_entry_evicted :
    ∃ s, execute UsedCache.step readAgain.start readAgain.calls = some s ∧
      Evicts s.cache (sizedEntry "c" 30000) (ascii "a") ∧
      Keeps s.cache (sizedEntry "c" 30000) (ascii "b") ∧
      s.lastUse (ascii "b") < s.lastUse (ascii "a") :=
  ⟨_, rfl, ⟨by decide, by decide, by decide⟩, ⟨by decide, by decide⟩, by decide⟩

end AuroraGateway.ResponseCache
