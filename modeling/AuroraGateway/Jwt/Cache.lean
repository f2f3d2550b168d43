import AuroraGateway.Foundation.Bytes
import AuroraGateway.Foundation.HashTable
import AuroraGateway.Foundation.MachineInt

/-!
# The cache of verified and revoked tokens

A row says that a token is accepted, with the headers that go with it, or that
a token or a token id is refused; it holds until it expires.  Rows are kept in
shards.  A shard that has reached its burst capacity first drops the rows that
have expired, and then one more row, which its table happens to list first.
-/

namespace AuroraGateway.Jwt

open Foundation HashTable

abbrev ForwardedHeaders := List (Bytes × Bytes)

structure Hashing (H : Type) where
  hashToken : Bytes → H
  hashJti : Bytes → H
  asUsize : H → Nat

variable {H : Type}

/-! ## Rows and shards -/

inductive TokenStatus where
  | negative
  | positive
  deriving DecidableEq

structure CacheRow (H : Type) where
  expireEpochSecs : Nat
  /-- The hash of the id of the token, if it has one. -/
  jtiHash : Option H
  forwardedHeaders : ForwardedHeaders
  status : TokenStatus
  deriving DecidableEq

inductive CacheLookup where
  | hitAllow (forwardedHeaders : ForwardedHeaders)
  | hitDeny
  | miss
  deriving DecidableEq

def hysteresisDrainWindowSecs : Nat := 15

structure CacheShard (H : Type) where
  entries : HashTable H (CacheRow H)
  baseEntries : Nat
  maxBurstEntries : Nat
  lastSurgeEpoch : Nat

def CacheShard.new (baseEntries : Nat) : CacheShard H where
  entries := .empty
  baseEntries := max baseEntries 16
  maxBurstEntries := min (max baseEntries 16 * 4) u64Max
  lastSurgeEpoch := 0

abbrev RowOrder (H : Type) := IterationOrder H (CacheRow H)

def saturatingAdd (a b : Nat) : Nat := min (a + b) u64Max

namespace CacheShard

def dropExpired (nowEpoch : Nat) (shard : CacheShard H) : CacheShard H :=
  { shard with entries := shard.entries.retain fun e => nowEpoch < e.2.expireEpochSecs }

def cooldownDrain (nowEpoch : Nat) (shard : CacheShard H) : CacheShard H :=
  if 0 < shard.lastSurgeEpoch ∧
      hysteresisDrainWindowSecs ≤ nowEpoch - shard.lastSurgeEpoch then
    { shard.dropExpired nowEpoch with lastSurgeEpoch := 0 }
  else shard

variable [DecidableEq H] (order : RowOrder H)

/-- The row called the oldest is the one that the iteration begins with. -/
def evictOldest (shard : CacheShard H) : CacheShard H :=
  if shard.maxBurstEntries ≤ shard.entries.len then
    match (order.order shard.entries.entries).head? with
    | some (oldestKey, _) => { shard with entries := shard.entries.erase oldestKey }
    | none => shard
  else shard

def capacityGuard (nowEpoch : Nat) (shard : CacheShard H) : CacheShard H :=
  if shard.baseEntries ≤ shard.entries.len then
    let shard := { shard with lastSurgeEpoch := nowEpoch }
    if shard.maxBurstEntries ≤ shard.entries.len then
      (shard.dropExpired nowEpoch).evictOldest order
    else shard
  else shard

def makeRoom (nowEpoch : Nat) (shard : CacheShard H) : CacheShard H :=
  (shard.cooldownDrain nowEpoch).capacityGuard order nowEpoch

def put (shard : CacheShard H) (key : H) (row : CacheRow H) : CacheShard H :=
  { shard with entries := shard.entries.insert key row }

def flip (expire : Nat) (row : CacheRow H) : CacheRow H :=
  { row with
    status := .negative
    expireEpochSecs := max expire row.expireEpochSecs }

def refuse (key : H) (expire nowEpoch : Nat) (shard : CacheShard H) : CacheShard H :=
  match shard.entries.get? key with
  | some row => shard.put key (flip expire row)
  | none => (shard.makeRoom order nowEpoch).put key ⟨expire, none, [], .negative⟩

def accept (key : H) (row : CacheRow H) (nowEpoch : Nat) (shard : CacheShard H) : CacheShard H :=
  (shard.makeRoom order nowEpoch).put key row

end CacheShard

/-! ## The cache -/

structure JwtCache (H : Type) where
  shards : Nat → CacheShard H
  mask : Nat
  defaultTtlSecs : Nat
  negativeTtlSecs : Nat
  hasRevokedJtis : Bool

namespace JwtCache

def new (shardCount maxEntriesPerShard defaultTtlSecs negativeTtlSecs : Nat) :
    JwtCache H where
  shards := fun _ => .new maxEntriesPerShard
  mask := nextPowerOfTwo (max shardCount 1) - 1
  defaultTtlSecs := max defaultTtlSecs 1
  negativeTtlSecs := max negativeTtlSecs 1
  hasRevokedJtis := false

variable (hashing : Hashing H) (cache : JwtCache H)

def shardIdx (key : H) : Nat := hashing.asUsize key &&& cache.mask

variable [DecidableEq H]

def row? (key : H) : Option (CacheRow H) :=
  (cache.shards (cache.shardIdx hashing key)).entries.get? key

def isNegative (key : H) (nowEpoch : Nat) : Bool :=
  (cache.row? hashing key).any fun row =>
    row.status = .negative && nowEpoch < row.expireEpochSecs

def lookup (tokenHash : H) (nowEpoch : Nat) : CacheLookup :=
  match cache.row? hashing tokenHash with
  | none => .miss
  | some row =>
    if row.expireEpochSecs ≤ nowEpoch then .miss
    else if row.status = .negative then .hitDeny
    else if cache.hasRevokedJtis &&
        row.jtiHash.any fun jtiH => cache.isNegative hashing jtiH nowEpoch then .hitDeny
    else .hitAllow row.forwardedHeaders

def atShard (key : H) (f : CacheShard H → CacheShard H) : JwtCache H :=
  { cache with
    shards := Function.update cache.shards (cache.shardIdx hashing key)
      (f (cache.shards (cache.shardIdx hashing key))) }

/-- How long a verified token is kept; expiration 0 stands for a token that has none. -/
def positiveExpire (expEpochSecs nowEpoch : Nat) : Nat :=
  if 0 < expEpochSecs then min expEpochSecs (saturatingAdd nowEpoch cache.defaultTtlSecs)
  else saturatingAdd nowEpoch cache.defaultTtlSecs

def insertPositive (order : RowOrder H) (tokenHash : H) (expEpochSecs : Nat)
    (headers : ForwardedHeaders) (jtiHash : Option H) (nowEpoch : Nat) (cache : JwtCache H) :
    JwtCache H :=
  cache.atShard hashing tokenHash
    (.accept order tokenHash
      ⟨cache.positiveExpire expEpochSecs nowEpoch, jtiHash, headers, .positive⟩ nowEpoch)

def revokeExpire (untilEpochSecs nowEpoch : Nat) : Nat :=
  if 0 < untilEpochSecs then untilEpochSecs
  else saturatingAdd nowEpoch cache.negativeTtlSecs

def revokeToken (order : RowOrder H) (hashKey : H) (untilEpochSecs nowEpoch : Nat)
    (cache : JwtCache H) : JwtCache H :=
  cache.atShard hashing hashKey
    (.refuse order hashKey (cache.revokeExpire untilEpochSecs nowEpoch) nowEpoch)

def revokeJti (order : RowOrder H) (jti : Bytes) (untilEpochSecs nowEpoch : Nat)
    (cache : JwtCache H) : JwtCache H :=
  revokeToken hashing order (hashing.hashJti jti) untilEpochSecs nowEpoch
    { cache with hasRevokedJtis := true }

def insertNegative (order : RowOrder H) (tokenHash : H) (nowEpoch : Nat)
    (cache : JwtCache H) : JwtCache H :=
  cache.revokeToken hashing order tokenHash 0 nowEpoch

end JwtCache

/-! ## Rows that insertions leave alone -/

namespace CacheShard

section Kept

variable {shard : CacheShard H} {nowEpoch : Nat}

variable {e : H × CacheRow H} {key key' : H} {row : CacheRow H}

theorem mem_dropExpired
    (h : e ∈ (shard.dropExpired nowEpoch).entries.entries) :
    e ∈ shard.entries.entries :=
  (mem_retain.mp h).1

theorem mem_cooldownDrain
    (h : e ∈ (shard.cooldownDrain nowEpoch).entries.entries) : e ∈ shard.entries.entries := by
  unfold cooldownDrain at h
  split at h
  · exact mem_dropExpired h
  · exact h

variable [DecidableEq H] {order : RowOrder H}

theorem mem_evictOldest
    (h : e ∈ (shard.evictOldest order).entries.entries) : e ∈ shard.entries.entries := by
  unfold evictOldest at h
  split at h
  · split at h
    · exact (mem_retain.mp h).1
    · exact h
  · exact h

theorem mem_capacityGuard
    (h : e ∈ (shard.capacityGuard order nowEpoch).entries.entries) :
    e ∈ shard.entries.entries := by
  unfold capacityGuard at h
  split at h
  · dsimp only at h
    split at h
    · exact (mem_retain.mp (mem_evictOldest h)).1
    · exact h
  · exact h

theorem get?_of_makeRoom
    (h : (shard.makeRoom order nowEpoch).entries.get? key = some row) :
    shard.entries.get? key = some row := by
  rw [get?_eq_some_iff] at h ⊢
  exact mem_cooldownDrain (mem_capacityGuard h)

theorem len_makeRoom_le (order : RowOrder H) (nowEpoch : Nat) (shard : CacheShard H) :
    (shard.makeRoom order nowEpoch).entries.len ≤ shard.entries.len := by
  have hdrop : ∀ shard : CacheShard H,
      (shard.dropExpired nowEpoch).entries.len ≤ shard.entries.len :=
    fun shard => len_retain_le _ _
  have hevict : ∀ shard : CacheShard H,
      (shard.evictOldest order).entries.len ≤ shard.entries.len := by
    intro shard
    unfold evictOldest
    split
    · split
      · exact len_retain_le _ _
      · exact le_rfl
    · exact le_rfl
  have hcooldown : (shard.cooldownDrain nowEpoch).entries.len ≤ shard.entries.len := by
    unfold cooldownDrain
    split
    · exact hdrop shard
    · exact le_rfl
  refine le_trans ?_ hcooldown
  unfold makeRoom capacityGuard
  split
  · dsimp only
    split
    · exact (hevict _).trans (hdrop _)
    · exact le_rfl
  · exact le_rfl

@[simp] theorem maxBurstEntries_makeRoom (order : RowOrder H) (nowEpoch : Nat)
    (shard : CacheShard H) :
    (shard.makeRoom order nowEpoch).maxBurstEntries = shard.maxBurstEntries := by
  have hevict : ∀ shard : CacheShard H,
      (shard.evictOldest order).maxBurstEntries = shard.maxBurstEntries := by
    intro shard
    unfold evictOldest
    split
    · split <;> rfl
    · rfl
  have hcooldown : (shard.cooldownDrain nowEpoch).maxBurstEntries = shard.maxBurstEntries := by
    unfold cooldownDrain
    split <;> rfl
  rw [← hcooldown]
  unfold makeRoom capacityGuard
  split
  · dsimp only
    split
    · exact hevict _
    · rfl
  · rfl

def Keeps (order : RowOrder H) (nowEpoch : Nat) (shard : CacheShard H) (key : H) : Prop :=
  (shard.makeRoom order nowEpoch).entries.get? key = shard.entries.get? key

instance (key : H) : Decidable (Keeps order nowEpoch shard key) :=
  inferInstanceAs (Decidable (_ = _))

theorem keeps_of_lt (hrow : shard.entries.get? key = some row)
    (hexpire : nowEpoch < row.expireEpochSecs)
    (hroom : shard.entries.len < shard.maxBurstEntries) :
    Keeps order nowEpoch shard key := by
  have hdrain : (shard.cooldownDrain nowEpoch).entries.get? key = some row ∧
      (shard.cooldownDrain nowEpoch).entries.len < (shard.cooldownDrain nowEpoch).maxBurstEntries
      := by
    unfold cooldownDrain
    split
    · refine ⟨?_, lt_of_le_of_lt (len_retain_le _ _) hroom⟩
      rw [get?_eq_some_iff] at hrow ⊢
      exact mem_retain.mpr ⟨hrow, decide_eq_true hexpire⟩
    · exact ⟨hrow, hroom⟩
  rw [Keeps, hrow, makeRoom, capacityGuard]
  split
  · dsimp only
    rw [if_neg (by omega)]
    exact hdrain.1
  · exact hdrain.1

theorem get?_put_self (shard : CacheShard H) (key : H) (row : CacheRow H) :
    (shard.put key row).entries.get? key = some row :=
  get?_insert_self ..

theorem get?_put_of_ne (shard : CacheShard H) (row : CacheRow H)
    (hne : key' ≠ key) : (shard.put key row).entries.get? key' = shard.entries.get? key' :=
  get?_insert_of_ne _ _ hne

theorem len_put_le (shard : CacheShard H) (key : H) (row : CacheRow H) :
    (shard.put key row).entries.len ≤ shard.entries.len + 1 := by
  cases hold : shard.entries.get? key with
  | some old => exact (len_insert_of_some hold row).le.trans (Nat.le_succ _)
  | none => exact (len_insert_of_none hold row).le

theorem len_refuse_le (key : H) (expire : Nat) :
    (shard.refuse order key expire nowEpoch).entries.len ≤ shard.entries.len + 1 := by
  unfold refuse
  split
  · exact len_put_le _ _ _
  · exact (len_put_le _ _ _).trans (Nat.succ_le_succ (len_makeRoom_le _ _ _))

theorem maxBurstEntries_refuse (key : H) (expire : Nat) :
    (shard.refuse order key expire nowEpoch).maxBurstEntries = shard.maxBurstEntries := by
  unfold refuse
  split
  · rfl
  · exact maxBurstEntries_makeRoom _ _ _

theorem get?_refuse_self (key : H) (expire : Nat) :
    ∃ row, (shard.refuse order key expire nowEpoch).entries.get? key = some row ∧
      row.status = .negative ∧ expire ≤ row.expireEpochSecs ∧
      ∀ old, shard.entries.get? key = some old →
        old.expireEpochSecs ≤ row.expireEpochSecs := by
  unfold refuse
  split
  · rename_i old hold
    refine ⟨_, get?_put_self .., rfl, le_max_left _ _, ?_⟩
    intro old' hold'
    rw [hold] at hold'
    obtain rfl := Option.some.inj hold'
    exact le_max_right _ _
  · rename_i hnone
    refine ⟨_, get?_put_self .., rfl, le_rfl, ?_⟩
    intro old hold
    rw [hnone] at hold
    cases hold

theorem get?_refuse_of_ne (hne : key' ≠ key) (expire : Nat)
    (hkeep : Keeps order nowEpoch shard key') :
    (shard.refuse order key expire nowEpoch).entries.get? key' = shard.entries.get? key' := by
  unfold refuse
  split
  · exact get?_put_of_ne _ _ hne
  · rw [get?_put_of_ne _ _ hne]
    exact hkeep

theorem get?_of_refuse {expire : Nat}
    (h : (shard.refuse order key expire nowEpoch).entries.get? key' = some row) :
    shard.entries.get? key' = some row ∨ key' = key ∧ row.status = .negative := by
  by_cases hkey : key' = key
  · subst hkey
    obtain ⟨row', hrow', hstatus, -⟩ :=
      @get?_refuse_self H shard nowEpoch _ order key' expire
    rw [hrow'] at h
    obtain rfl := Option.some.inj h
    exact .inr ⟨rfl, hstatus⟩
  · refine .inl ?_
    unfold refuse at h
    split at h
    · rwa [get?_put_of_ne _ _ hkey] at h
    · rw [get?_put_of_ne _ _ hkey] at h
      exact get?_of_makeRoom h

theorem get?_of_accept {new : CacheRow H}
    (h : (shard.accept order key new nowEpoch).entries.get? key' = some row) :
    shard.entries.get? key' = some row ∨ key' = key ∧ row = new := by
  unfold accept at h
  by_cases hkey : key' = key
  · subst hkey
    rw [get?_put_self] at h
    exact .inr ⟨rfl, (Option.some.inj h).symm⟩
  · rw [get?_put_of_ne _ _ hkey] at h
    exact .inl (get?_of_makeRoom h)

end Kept

end CacheShard

/-! ## Refused keys -/

namespace JwtCache

variable [DecidableEq H] (hashing : Hashing H)

/-- The row of the key refuses it at every time before `bound`. -/
def Refuses (cache : JwtCache H) (key : H) (bound : Nat) : Prop :=
  ∃ row, cache.row? hashing key = some row ∧ row.status = .negative ∧
    bound ≤ row.expireEpochSecs

def KeepsRow (order : RowOrder H) (nowEpoch : Nat) (inserted key : H) (cache : JwtCache H) :
    Prop :=
  cache.shardIdx hashing key = cache.shardIdx hashing inserted →
    (cache.shards (cache.shardIdx hashing key)).Keeps order nowEpoch key

instance (order : RowOrder H) (nowEpoch : Nat) (inserted key : H) (cache : JwtCache H) :
    Decidable (cache.KeepsRow hashing order nowEpoch inserted key) :=
  inferInstanceAs (Decidable (_ → _))

section Refused

variable {hashing} {cache : JwtCache H} {key inserted : H} {bound nowEpoch : Nat}

theorem row?_atShard (f : CacheShard H → CacheShard H) :
    (cache.atShard hashing inserted f).row? hashing key =
      if cache.shardIdx hashing key = cache.shardIdx hashing inserted then
        (f (cache.shards (cache.shardIdx hashing key))).entries.get? key
      else cache.row? hashing key := by
  change (Function.update cache.shards (cache.shardIdx hashing inserted)
    (f (cache.shards (cache.shardIdx hashing inserted)))
    (cache.shardIdx hashing key)).entries.get? key = _
  rw [Function.update_apply]
  split
  · rename_i hsame
    rw [hsame]
  · rfl

variable {order : RowOrder H}

theorem row?_of_revokeToken {untilEpochSecs : Nat} {row : CacheRow H}
    (h : (cache.revokeToken hashing order inserted untilEpochSecs nowEpoch).row? hashing key =
      some row) :
    cache.row? hashing key = some row ∨ key = inserted ∧ row.status = .negative := by
  rw [revokeToken, row?_atShard] at h
  split at h
  · exact CacheShard.get?_of_refuse h
  · exact .inl h

variable {headers : ForwardedHeaders}

theorem row?_of_insertPositive {expEpochSecs : Nat} {jtiHash : Option H} {row : CacheRow H}
    (h : (cache.insertPositive hashing order inserted expEpochSecs headers jtiHash nowEpoch).row?
      hashing key = some row) :
    cache.row? hashing key = some row ∨ key = inserted ∧
      row = ⟨cache.positiveExpire expEpochSecs nowEpoch, jtiHash, headers, .positive⟩ := by
  rw [insertPositive, row?_atShard] at h
  split at h
  · exact CacheShard.get?_of_accept h
  · exact .inl h

theorem lookup_eq_hitAllow (h : cache.lookup hashing key nowEpoch = .hitAllow headers) :
    ∃ row, cache.row? hashing key = some row ∧ row.status = .positive ∧
      nowEpoch < row.expireEpochSecs ∧ row.forwardedHeaders = headers ∧
      (cache.hasRevokedJtis = true →
        ∀ jtiH, row.jtiHash = some jtiH → cache.isNegative hashing jtiH nowEpoch = false) := by
  unfold lookup at h
  split at h
  · cases h
  · rename_i row hrow
    split at h
    · cases h
    · split at h
      · cases h
      · rename_i hstatus
        split at h
        · cases h
        · rename_i hjti
          refine ⟨row, hrow, ?_, by omega, CacheLookup.hitAllow.inj h, ?_⟩
          · cases hs : row.status with
            | negative => exact absurd hs hstatus
            | positive => rfl
          · intro hflag jtiH hjtiH
            simpa [hflag, hjtiH] using hjti

theorem lookup_of_refuses (h : cache.Refuses hashing key bound) (hnow : nowEpoch < bound) :
    cache.lookup hashing key nowEpoch = .hitDeny := by
  obtain ⟨row, hrow, hstatus, hexpire⟩ := h
  rw [lookup, hrow]
  dsimp only
  rw [if_neg (by omega), if_pos hstatus]

theorem isNegative_of_refuses (h : cache.Refuses hashing key bound) (hnow : nowEpoch < bound) :
    cache.isNegative hashing key nowEpoch = true := by
  obtain ⟨row, hrow, hstatus, hexpire⟩ := h
  simp only [isNegative, hrow, Option.any_some, hstatus, decide_true, Bool.true_and,
    decide_eq_true_eq]
  omega

theorem refuses_revokeToken_self (order : RowOrder H) {untilEpochSecs : Nat}
    (hbound : bound ≤ cache.revokeExpire untilEpochSecs nowEpoch) :
    (cache.revokeToken hashing order key untilEpochSecs nowEpoch).Refuses hashing key bound := by
  obtain ⟨row, hrow, hstatus, hexpire, -⟩ :=
    @CacheShard.get?_refuse_self H (cache.shards (cache.shardIdx hashing key)) nowEpoch _ order
      key (cache.revokeExpire untilEpochSecs nowEpoch)
  refine ⟨row, ?_, hstatus, hbound.trans hexpire⟩
  rw [revokeToken, row?_atShard, if_pos rfl]
  exact hrow

theorem Refuses.revokeToken (h : cache.Refuses hashing key bound)
    (untilEpochSecs : Nat) (hkeep : cache.KeepsRow hashing order nowEpoch inserted key) :
    (cache.revokeToken hashing order inserted untilEpochSecs nowEpoch).Refuses hashing key bound
    := by
  obtain ⟨row, hrow, hstatus, hexpire⟩ := h
  by_cases hkey : key = inserted
  · subst hkey
    obtain ⟨row', hrow', hstatus', -, hmax⟩ :=
      @CacheShard.get?_refuse_self H (cache.shards (cache.shardIdx hashing key)) nowEpoch _ order
        key (cache.revokeExpire untilEpochSecs nowEpoch)
    refine ⟨row', ?_, hstatus', hexpire.trans (hmax row hrow)⟩
    rw [JwtCache.revokeToken, row?_atShard, if_pos rfl]
    exact hrow'
  · refine ⟨row, ?_, hstatus, hexpire⟩
    rw [JwtCache.revokeToken, row?_atShard]
    split
    · rename_i hsame
      rw [CacheShard.get?_refuse_of_ne hkey _ (hkeep hsame)]
      exact hrow
    · exact hrow

theorem Refuses.insertPositive (h : cache.Refuses hashing key bound)
    (hkey : key ≠ inserted) (expEpochSecs : Nat) (headers : ForwardedHeaders)
    (jtiHash : Option H) (hkeep : cache.KeepsRow hashing order nowEpoch inserted key) :
    (cache.insertPositive hashing order inserted expEpochSecs headers jtiHash nowEpoch).Refuses
      hashing key bound := by
  obtain ⟨row, hrow, hstatus, hexpire⟩ := h
  refine ⟨row, ?_, hstatus, hexpire⟩
  rw [JwtCache.insertPositive, row?_atShard]
  split
  · rename_i hsame
    rw [CacheShard.accept, CacheShard.get?_put_of_ne _ _ hkey, hkeep hsame]
    exact hrow
  · exact hrow

end Refused

end JwtCache

end AuroraGateway.Jwt
