import AuroraGateway.Nginx.Filters
import AuroraGateway.ResponseCache.Evaluator

/-!
# Bodies that reach the cache

A chain is taken for the whole body when it is a single buffer that ends the
response, or ends its chain, or is as long as the announced length.  Only the
last of these looks at more than the chain itself.
-/

namespace AuroraGateway.Nginx

open Ffi Foundation ResponseCompression

structure Delivery where
  exchange : Exchange
  calls : List BodyCall
  nonempty : ∀ call ∈ calls, call.chain ≠ []
  lastMarked : ∃ before last, calls.flatMap (fun call => call.chain) = before ++ [last] ∧
    last.lastBuf = true ∧ ∀ buf ∈ before, buf.lastBuf = false

/-! ## Calls to the cache -/

theorem cacheStore_bodyFilter (encoders : Encoders) (world : FilterWorld) (x : Exchange)
    (chain : Chain) : (bodyFilter encoders world x chain).1.cacheStore = x.cacheStore := by
  unfold bodyFilter
  split
  · rfl
  · cases hctx : x.ctx with
    | none => rfl
    | some ctx =>
      dsimp only
      split
      · rfl
      · funext other
        simp [Exchange.cacheStore, Exchange.takesForWhole, Exchange.passesOver,
          Exchange.isCompleteBody, Exchange.offersToCache, hctx]

theorem cacheStores_eq (encoders : Encoders) (x : Exchange) (calls : List BodyCall) :
    cacheStores encoders x calls = calls.filterMap fun call => x.cacheStore call.chain := by
  induction calls generalizing x with
  | nil => rfl
  | cons call calls ih =>
    rw [cacheStores, ih, cacheStore_bodyFilter, List.filterMap_cons]
    cases x.cacheStore call.chain <;> rfl

theorem body_of_cacheStore {x : Exchange} {chain : Chain} {input : AuroraCacheStoreInput}
    (h : x.cacheStore chain = some input) :
    x.takesForWhole chain = true ∧ input.body = chain.bytes := by
  unfold Exchange.cacheStore at h
  split at h
  · rename_i hwhole
    obtain rfl := Option.some.inj h
    exact ⟨hwhole, rfl⟩
  · simp at h

theorem upstreamBody_split (before after : List BodyCall) (call : BodyCall) :
    upstreamBody (before ++ call :: after) =
      upstreamBody before ++ (call.chain.bytes ++ upstreamBody after) := by
  simp [upstreamBody]

theorem eq_append_self_append_iff {α : Type} {before body after : List α} :
    body = before ++ (body ++ after) ↔ before = [] ∧ after = [] := by
  constructor
  · intro h
    have hlength := congrArg List.length h
    simp only [List.length_append] at hlength
    exact ⟨List.eq_nil_of_length_eq_zero (by omega), List.eq_nil_of_length_eq_zero (by omega)⟩
  · rintro ⟨rfl, rfl⟩
    simp

/-- What is cached is the whole body if and only if no chain is taken for whole while another
chain of the response has bytes in it. -/
theorem whole_bodies_cached_iff (encoders : Encoders) (d : Delivery) :
    (∀ input ∈ cacheStores encoders d.exchange d.calls, input.body = upstreamBody d.calls) ↔
      ∀ before call after, d.calls = before ++ call :: after →
        d.exchange.takesForWhole call.chain = true →
        upstreamBody before = [] ∧ upstreamBody after = [] := by
  rw [cacheStores_eq]
  constructor
  · intro hstored before call after hcalls hwhole
    have hinput : d.exchange.cacheStore call.chain = some _ := if_pos hwhole
    have hbody := hstored _ (List.mem_filterMap.mpr ⟨call, by simp [hcalls], hinput⟩)
    rw [hcalls, upstreamBody_split] at hbody
    exact eq_append_self_append_iff.mp hbody
  · intro hwhole input hinput
    obtain ⟨call, hcall, hstore⟩ := List.mem_filterMap.mp hinput
    obtain ⟨before, after, hcalls⟩ := List.append_of_mem hcall
    obtain ⟨htaken, hbody⟩ := body_of_cacheStore hstore
    rw [hbody, hcalls, upstreamBody_split]
    exact eq_append_self_append_iff.mpr (hwhole before call after hcalls htaken)

/-! ## Samples -/

def twoPartPage : Delivery where
  exchange := pageExchange
  calls := [plainCall (ascii "first ") false, plainCall (ascii "second") true]
  nonempty := by decide
  lastMarked := ⟨[⟨ascii "first ", false, false⟩], ⟨ascii "second", true, false⟩, by decide⟩

/-- The second half goes into the cache as if it were the page. -/
theorem second_half_cached :
    (cacheStores ResponseCache.plainPlatform.encoders twoPartPage.exchange
        twoPartPage.calls).map (fun input => input.body) = [ascii "second"] ∧
      upstreamBody twoPartPage.calls = ascii "first second" := by
  constructor
  · decide +kernel
  · decide

end AuroraGateway.Nginx
