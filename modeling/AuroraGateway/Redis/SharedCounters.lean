import AuroraGateway.Redis.QuotaIsolation

/-!
# Connections of several gateways

Any number of gateways count the connections of an identifier on one server.  Calls may fail
on the way to the server or back; no lease expires while a connection is held.
-/

namespace AuroraGateway.Redis

open Foundation

variable {F : Type} {store : Store F} {key : Bytes} {n : Nat}

/-- The key has been counted up to `n`; a count of zero is no key. -/
def Counts (store : Store F) (key : Bytes) (n : Nat) : Prop :=
  store.value? key = if n = 0 then none else some (.integer n)

theorem counts_write (n : Nat) : Counts (store.write key (.integer ↑(n + 1))) key (n + 1) :=
  Store.value?_write_self ..

theorem value?_expire_self (secs : Int) :
    (store.expire key secs).value? key = store.value? key := by
  unfold Store.expire Store.value?
  split
  · rename_i slot hslot
    simp [hslot]
  · rfl

theorem Counts.incr (h : Counts store key n) : store.incr key = none ∨
    ∃ next, store.incr key = some (next, ↑(n + 1)) ∧ Counts next key (n + 1) := by
  unfold Store.incr
  rw [h]
  by_cases hn : n = 0
  · subst hn
    exact .inr ⟨_, rfl, counts_write 0⟩
  · rw [if_neg hn]
    dsimp only
    split
    · exact .inr ⟨_, rfl, counts_write n⟩
    · exact .inl rfl

theorem Counts.number {store : Store ℚ} (h : Counts store key n) :
    store.number key = some (n : ℚ) := by
  rw [Store.number, h]
  by_cases hn : n = 0
  · simp [hn, Flonum.ofNat_rat]
  · simp [hn, ofReply, Flonum.ofNat_rat, Int.not_lt.mpr (Int.natCast_nonneg n)]

end AuroraGateway.Redis

namespace AuroraGateway.ConnectionLimit

open Foundation Redis RedisConnectionLimiter
open Flonum

variable {store : Store ℚ} {key : Bytes} {n : Nat}

theorem connLimitAcquireScript_counts (limit ttlSecs : Nat) (h : Counts store key n) :
    ∃ m, Counts (connLimitAcquireScript key limit ttlSecs store).1 key m ∧
      (n ≤ limit → m ≤ limit) ∧ n ≤ m ∧
      (((connLimitAcquireScript key limit ttlSecs store).2.bind acquireReply).any Prod.fst = true →
        n < m) := by
  unfold connLimitAcquireScript
  rw [h.number]
  dsimp only
  split
  · rename_i hroom
    have hlt : n < limit := by simpa [ofNat_rat] using hroom.2
    rcases h.incr with hnone | ⟨next, hnext, hcounts⟩
    · rw [hnone]
      exact ⟨n, h, id, le_rfl, fun hreply => by cases hreply⟩
    · rw [hnext]
      exact ⟨n + 1, (value?_expire_self _).trans hcounts, fun _ => hlt, Nat.le_succ n,
        fun _ => Nat.lt_succ_self n⟩
  · exact ⟨n, h, id, le_rfl, fun hreply => by cases hreply⟩

theorem connLimitReleaseScript_counts (h : Counts store key n) :
    ∃ m, Counts (connLimitReleaseScript key store).1 key m ∧ m ≤ n ∧ n ≤ m + 1 := by
  unfold connLimitReleaseScript
  rw [h.number]
  dsimp only
  split
  · rename_i hlast
    have hle : n ≤ 1 := by simpa [ofNat_rat] using hlast
    exact ⟨0, by simp [Counts, Store.value?], Nat.zero_le n, hle⟩
  · rename_i hmore
    have hlt : 1 < n := by simpa [ofNat_rat] using hmore
    obtain ⟨m, rfl⟩ : ∃ m, n = m + 2 := ⟨n - 2, by omega⟩
    have hdecr : store.decr key = some (store.write key (.integer ↑(m + 1)), ↑(m + 1)) := by
      rw [Store.decr, h, if_neg (by omega)]
      dsimp only
      rw [if_pos (by omega), show ((m + 2 : Nat) : Int) - 1 = ↑(m + 1) by omega]
    rw [hdecr]
    exact ⟨m + 1, counts_write m, Nat.le_succ _, le_rfl⟩

/-! ## Runs -/

inductive LeaseEvent where
  | acquire (fate : CallFate)
  | release (fate : CallFate)

/-- The server, and the connections that have been granted and not been given back. -/
structure LeaseState where
  store : Store ℚ
  held : Nat

variable (limiter : RedisConnectionLimiter) (ruleId identifier : Bytes) (limit : Nat)

def leaseStep (s : LeaseState) : LeaseEvent → LeaseState
  | .acquire fate =>
    let (store, reply) := limiter.acquire fate ruleId identifier limit s.store
    ⟨store, if reply.any Prod.fst then s.held + 1 else s.held⟩
  | .release fate =>
    if s.held = 0 then s
    else ⟨(limiter.release fate ruleId identifier s.store).1, s.held - 1⟩

def LeaseState.Within (s : LeaseState) : Prop :=
  ∃ n, Counts s.store (RedisConnectionLimiter.key ruleId identifier) n ∧ s.held ≤ n ∧ n ≤ limit

theorem within_leaseStep {s : LeaseState} (h : s.Within ruleId identifier limit)
    (event : LeaseEvent) :
    (leaseStep limiter ruleId identifier limit s event).Within ruleId identifier limit := by
  obtain ⟨n, hcounts, hheld, hle⟩ := h
  cases event with
  | acquire fate =>
    obtain ⟨m, hscript, hlimit, hnm, hgranted⟩ :=
      connLimitAcquireScript_counts limit limiter.leaseTtlSecs hcounts
    cases fate with
    | lostRequest => exact ⟨n, hcounts, hheld, hle⟩
    | lostReply => exact ⟨m, hscript, hheld.trans hnm, hlimit hle⟩
    | answered =>
      refine ⟨m, hscript, ?_, hlimit hle⟩
      dsimp only [leaseStep]
      split
      · rename_i hreply
        have := hgranted hreply
        omega
      · omega
  | release fate =>
    obtain ⟨m, hscript, hmn, hnm⟩ := connLimitReleaseScript_counts hcounts
    unfold leaseStep
    dsimp only
    split
    · exact ⟨n, hcounts, hheld, hle⟩
    · cases fate with
      | lostRequest => exact ⟨n, hcounts, (Nat.sub_le _ _).trans hheld, hle⟩
      | lostReply => exact ⟨m, hscript, by dsimp only; omega, hmn.trans hle⟩
      | answered => exact ⟨m, hscript, by dsimp only; omega, hmn.trans hle⟩

/-- However many gateways share the server, and whichever of their calls fail, they never hold
more connections that it granted for an identifier than the rule allows.  Those that a gateway
admits on its own when a call fails are not counted. -/
theorem distributed_connections_bounded (events : List LeaseEvent) :
    (events.foldl (leaseStep limiter ruleId identifier limit) ⟨.empty, 0⟩).held ≤ limit := by
  have hrun : (events.foldl (leaseStep limiter ruleId identifier limit) ⟨.empty, 0⟩).Within
      ruleId identifier limit := by
    induction events using List.reverseRecOn with
    | nil => exact ⟨0, rfl, le_rfl, Nat.zero_le _⟩
    | append_singleton events event ih =>
      rw [List.foldl_concat]
      exact within_leaseStep limiter ruleId identifier limit ih event
  obtain ⟨n, -, hheld, hle⟩ := hrun
  exact hheld.trans hle

end AuroraGateway.ConnectionLimit
