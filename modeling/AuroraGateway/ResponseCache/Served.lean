import AuroraGateway.ResponseCache.Tenants

/-!
# What a stored response is served as

A hit is made of the entry that a response was stored in.  Whether a response may be
stored is decided by two directives that are looked for in the bytes of its
`Cache-Control` header.  Its content coding is dropped when it is stored, and the body
is then served as if it had none.
-/

namespace AuroraGateway.ResponseCache

open Engine Foundation ResponseCompression ResponseCacheEngine

structure StoredHit (platform : Platform) where
  config : ResponseCacheConfig
  before : List EngineCall
  record : UpstreamResponseRecord
  storeClock : Nat
  between : List EngineCall
  ctx : RequestContext
  acceptEncoding : Option Bytes
  cacheControl : Option Bytes
  accessClock : Nat
  outcome : CacheHitOutcome
  accepted : (((ResponseCacheEngine.new platform config).run platform before).storeResponse platform
    record storeClock).2 = true
  served : ((((ResponseCacheEngine.new platform config).run platform before).storeResponse platform
    record storeClock).1.run platform between).servedArc ctx cacheControl accessClock =
      some ((ResponseCacheEngine.new platform config).run platform before).storage.next
  answered : (((((ResponseCacheEngine.new platform config).run platform before).storeResponse
    platform record storeClock).1.run platform between).evaluateAccess platform ctx acceptEncoding
      cacheControl accessClock).2 = .hit outcome

/-! ## Responses that must not be reused -/

def isOws (byte : UInt8) : Bool := byte = 32 || byte = 9

def trimOws (bytes : Bytes) : Bytes :=
  ((bytes.dropWhile isOws).reverse.dropWhile isOws).reverse

def directiveNames (cc : Bytes) : List Bytes :=
  (cc.splitOn 44).map fun element =>
    toAsciiLowercase (trimOws ((trimOws element).takeWhile (· ≠ 61)))

/-- A value of `Cache-Control` by which a response must not be reused. -/
structure ForbiddingValue where
  cc : Bytes
  forbids : ∃ name ∈ directiveNames cc,
    name = ascii "no-store" ∨ name = ascii "private" ∨ name = ascii "no-cache"

def minuteConfig : ResponseCacheConfig :=
  { ResponseCacheConfig.default with
    routesOverride := [⟨rootText, none, some 60, none⟩] }

def valued (cc : Bytes) : UpstreamResponseRecord :=
  { tenantResponse with cacheControl := some cc }

section Directives

variable {platform : Platform} {engine : ResponseCacheEngine} {record : UpstreamResponseRecord}
  {cc : Bytes}

theorem storableTtl_of_directive (hcc : record.cacheControl = some cc)
    (h : hasDirective cc (ascii "no-store") = true ∨ hasDirective cc (ascii "private") = true) :
    engine.storableTtl record = none := by
  have hresponse : engine.responseTtl record = none := by
    simp [responseTtl, hcc, h]
  simp [storableTtl, hresponse]

theorem storableTtl_valued
    (h : ¬ (hasDirective cc (ascii "no-store") = true ∨ hasDirective cc (ascii "private") = true)) :
    (new plainPlatform minuteConfig).storableTtl (valued cc) = some 60 := by
  have hroute : ∀ ttlSecs,
      (new plainPlatform minuteConfig).routeTrie.forEachMatch (ascii "/account")
        (fun current overrideCfg => overrideCfg.ttlSecs.getD current) ttlSecs = 60 := by
    intro ttlSecs
    rfl
  have hresponse : (new plainPlatform minuteConfig).responseTtl (valued cc) =
      some 60 := by
    simp [responseTtl, valued, tenantResponse, h, hroute]
  rw [storableTtl, hresponse]
  rfl

end Directives

/-- The directives are kept for every policy and every request only if one of the two is
found in the value. -/
theorem ForbiddingValue.never_served_iff (value : ForbiddingValue) :
    (∀ platform (hit : StoredHit platform), hit.record.cacheControl ≠ some value.cc) ↔
      hasDirective value.cc (ascii "no-store") = true ∨
        hasDirective value.cc (ascii "private") = true := by
  constructor
  · intro hnever
    by_contra h
    have hstorable := storableTtl_valued h
    let engine := new plainPlatform minuteConfig
    have hserved : (engine.storeResponse plainPlatform (valued value.cc) 1000).1.servedArc
        accountContext none 0 = some engine.storage.next :=
      servedArc_storeResponse hstorable (by decide +kernel) rfl (by decide +kernel)
    obtain ⟨outcome, hanswered⟩ := (@evaluateAccess_hit_iff plainPlatform _ _ _ _ none).mpr
      (Option.isSome_iff_exists.mpr ⟨_, hserved⟩)
    exact hnever plainPlatform
      { config := minuteConfig
        before := []
        record := valued value.cc
        storeClock := 1000
        between := []
        ctx := accountContext
        acceptEncoding := none
        cacheControl := none
        accessClock := 0
        outcome
        accepted := storeResponse_eq_true_iff.mpr (ne_of_eq_of_ne hstorable (by simp))
        served := hserved
        answered := hanswered } rfl
  · intro h platform hit hcc
    exact storeResponse_eq_true_iff.mp hit.accepted (storableTtl_of_directive hcc h)

def answerFor (cc : Bytes) : CacheLookupResult :=
  (((new plainPlatform .default).storeResponse plainPlatform (valued cc)
    1000).1.evaluateAccess plainPlatform accountContext none none 0).2

def redAccountHit : CacheHitOutcome :=
  ⟨200, ascii "text/plain", ascii "account of red",
    [(ascii "X-Cache", ascii "HIT"), (ascii "Vary", ascii "Accept-Encoding"),
      (ascii "Age", ascii "10")], none⟩

def noCache : ForbiddingValue := ⟨ascii "no-cache", by decide +kernel⟩

def tabNoStore : ForbiddingValue := ⟨ascii "public,\tno-store", by decide +kernel⟩

/-- A response with `no-cache` is served without asking again, and a tab hides `no-store`. -/
theorem forbidden_response_served :
    (ascii "no-cache" ∈ directiveNames noCache.cc ∧ answerFor noCache.cc = .hit redAccountHit) ∧
      ascii "no-store" ∈ directiveNames tabNoStore.cc ∧
      answerFor tabNoStore.cc = .hit redAccountHit := by
  decide +kernel

/-! ## Content codings -/

structure Codings (encoders : Encoders) where
  decode : (coding body : Bytes) → Option Bytes
  zstd : ∀ {level input capacity output}, encoders.zstd level input capacity = some output →
    decode (ascii "zstd") output = some input
  brotli : ∀ {level input capacity output}, encoders.brotli level input capacity = some output →
    decode (ascii "br") output = some input
  gzip : ∀ {level input capacity output}, encoders.gzip level input capacity = some output →
    decode (ascii "gzip") output = some input

def contentEncodings (headers : List (Bytes × Bytes)) : List Bytes :=
  (headers.filter fun h => eqIgnoreAsciiCase h.1 (ascii "content-encoding")).map Prod.snd

def Codings.decodedBody {encoders : Encoders} (codings : Codings encoders)
    (headers : List (Bytes × Bytes)) (body : Bytes) : Option Bytes :=
  (contentEncodings headers).reverse.foldlM (fun bytes coding => codings.decode coding bytes) body

theorem Codings.decode_compressedVariant {encoders : Encoders} (codings : Codings encoders)
    {algo : CompressionAlgorithm} {body out : Bytes}
    (h : compressedVariant encoders algo body = some out) :
    codings.decode algo.asContentEncoding out = some body := by
  obtain ⟨hout, hsize⟩ := Option.filter_eq_some_iff.mp h
  unfold compressInto at hout
  by_cases hempty : body.isEmpty = true
  · rw [if_pos hempty] at hout
    simp [← Option.some.inj hout] at hsize
  · rw [if_neg hempty] at hout
    cases algo with
    | none =>
      have hsame : body = out := by simpa using hout
      simp [hsame] at hsize
    | zstd => exact codings.zstd hout
    | brotli => exact codings.brotli hout
    | gzip => exact codings.gzip hout

/-! ## What an entry keeps of a response -/

/-- An entry with the body of a response, its headers but for those that are dropped, and
encodings of the body. -/
structure CacheEntry.Represents (encoders : Encoders) (record : UpstreamResponseRecord)
    (entry : CacheEntry) : Prop where
  rawBody : entry.rawBody = record.body
  headers : entry.headers = record.headers.filter fun h => isCachedHeader h.1
  variants : ∀ {algo out}, entry.getVariant algo = some out →
    compressedVariant encoders algo record.body = some out

section Entries

variable {encoders : Encoders} {record : UpstreamResponseRecord} {entry : CacheEntry}
  {algo : CompressionAlgorithm} {out : Bytes}

theorem CacheEntry.Represents.storeVariant (h : entry.Represents encoders record)
    (hout : compressedVariant encoders algo entry.rawBody = some out) :
    (entry.storeVariant algo out).1.Represents encoders record := by
  unfold CacheEntry.storeVariant
  split
  · exact h
  · refine ⟨h.rawBody, h.headers, fun {other bytes} hget => ?_⟩
    by_cases hother : other = algo
    · subst hother
      rw [CacheEntry.getVariant, HashTable.get?_insert_self] at hget
      rw [← h.rawBody, hout, hget]
    · rw [CacheEntry.getVariant, HashTable.get?_insert_of_ne _ _ hother] at hget
      exact h.variants hget

theorem CacheEntry.Represents.eagerVariant (h : entry.Represents encoders record)
    (algo : CompressionAlgorithm) :
    (eagerVariant encoders entry algo).Represents encoders record := by
  unfold ResponseCache.eagerVariant
  split
  · rename_i out hout
    exact h.storeVariant hout
  · exact h

theorem entryFor_represents (platform : Platform) (engine : ResponseCacheEngine)
    (ttlSecs clockSec : Nat) :
    (engine.entryFor platform record ttlSecs clockSec).Represents platform.encoders record := by
  unfold entryFor eagerVariants
  have hnew := (⟨rfl, rfl, fun hget => by
      simp [CacheEntry.new, CacheEntry.getVariant, HashTable.get?, HashTable.empty] at hget⟩ :
    (CacheEntry.new platform.entryStructBytes
      (engine.keyOf record.method record.host record.path record.query) record.status
      record.contentType (record.headers.filter fun h => isCachedHeader h.1) clockSec ttlSecs
      record.body).Represents platform.encoders record)
  split
  · exact ((hnew.eagerVariant _).eagerVariant _).eagerVariant _
  · exact hnew

end Entries

structure ShardedLruCache.Holds (encoders : Encoders) (arc : Arc)
    (record : UpstreamResponseRecord) (cache : ShardedLruCache) : Prop where
  lt_next : arc < cache.next
  represents : (cache.heap arc).Represents encoders record

namespace ShardedLruCache.Holds

variable {encoders : Encoders} {arc : Arc} {record : UpstreamResponseRecord}
  {cache : ShardedLruCache}

section

variable (h : cache.Holds encoders arc record)
include h

theorem write {other : Arc} {entry : CacheEntry}
    (hentry : (cache.heap other).Represents encoders record → entry.Represents encoders record) :
    (cache.write other entry).Holds encoders arc record where
  lt_next := h.lt_next
  represents := by
    by_cases heq : arc = other
    · subst heq
      simpa [ShardedLruCache.write] using hentry h.represents
    · simpa [ShardedLruCache.write, heq] using h.represents

theorem insert (entry : CacheEntry) : (cache.insert entry).Holds encoders arc record where
  lt_next := Nat.lt_succ_of_lt h.lt_next
  represents := insert_heap_of_lt entry h.lt_next ▸ h.represents

theorem get (key : Bytes) (nowSec : Nat) : (cache.get key nowSec).1.Holds encoders arc record := by
  have hget := get_result cache key nowSec
  generalize cache.get key nowSec = result at hget
  cases hget with
  | absent => exact h
  | expired => exact ⟨h.lt_next, h.represents⟩
  | fresh => exact h.write fun hother => ⟨hother.rawBody, hother.headers, hother.variants⟩

theorem recordVariantMemory (key : Bytes) (addedBytes : Nat) :
    (cache.recordVariantMemory key addedBytes).Holds encoders arc record := by
  unfold ShardedLruCache.recordVariantMemory
  split
  · exact h
  · exact ⟨h.lt_next, h.represents⟩

theorem negotiateFrom (mask : BitVec 8) (other : Arc)
    (preferred : List (BitVec 8 × CompressionAlgorithm)) :
    (negotiateFrom encoders mask other preferred cache).1.Holds encoders arc record := by
  induction preferred with
  | nil => exact h
  | cons first rest ih =>
    obtain ⟨flag, algo⟩ := first
    unfold ResponseCache.negotiateFrom
    split
    · cases hvariant : (cache.heap other).getVariant algo with
      | some var => exact h
      | none =>
        rw [lazyCompress_eq hvariant]
        cases hout : compressedVariant encoders algo (cache.heap other).rawBody with
        | none => exact ih
        | some out =>
          have hwrite : (cache.storeVariant other algo out).1.Holds encoders arc record := by
            exact h.write fun hother => hother.storeVariant hout
          exact hwrite.recordVariantMemory _ _
    · exact ih

end

end ShardedLruCache.Holds

theorem negotiateFrom_body {encoders : Encoders} {record : UpstreamResponseRecord}
    {cache : ShardedLruCache} {arc : Arc}
    (h : (cache.heap arc).Represents encoders record) (mask : BitVec 8)
    (preferred : List (BitVec 8 × CompressionAlgorithm)) :
    (negotiateFrom encoders mask arc preferred cache).2 = (record.body, none) ∨
      ∃ algo out, (negotiateFrom encoders mask arc preferred cache).2 = (out, some algo) ∧
        compressedVariant encoders algo record.body = some out := by
  induction preferred with
  | nil => exact .inl (by rw [negotiateFrom, h.rawBody])
  | cons first rest ih =>
    obtain ⟨flag, algo⟩ := first
    unfold negotiateFrom
    split
    · cases hvariant : (cache.heap arc).getVariant algo with
      | some var => exact .inr ⟨algo, var, rfl, h.variants hvariant⟩
      | none =>
        rw [lazyCompress_eq hvariant, h.rawBody]
        cases hout : compressedVariant encoders algo record.body with
        | none => exact ih
        | some out => exact .inr ⟨algo, out, rfl, hout⟩
    · exact ih

section Calls

variable {platform : Platform} {engine : ResponseCacheEngine} {arc : Arc}
  {record : UpstreamResponseRecord}

theorem holds_call (h : engine.storage.Holds platform.encoders arc record) (c : EngineCall) :
    (engine.call platform c).storage.Holds platform.encoders arc record := by
  cases c with
  | store other clockSec =>
    simp only [call, storeResponse]
    split
    · exact h
    · exact h.insert _
  | access ctx acceptEncoding cacheControl clockSec =>
    simp only [call]
    cases hbypass : engine.bypasses ctx.method ctx.path cacheControl with
    | true =>
      rw [evaluateAccess, if_pos hbypass]
      exact h
    | false =>
      rw [evaluateAccess_storage hbypass]
      have hget := h.get (engine.keyOf ctx.method ctx.host ctx.path ctx.query)
        (nowSec ctx clockSec)
      generalize engine.storage.get _ _ = result at hget
      obtain ⟨storage, found⟩ := result
      cases found with
      | none => exact hget
      | some other => exact hget.negotiateFrom _ _ _

theorem holds_run (h : engine.storage.Holds platform.encoders arc record)
    (calls : List EngineCall) :
    (engine.run platform calls).storage.Holds platform.encoders arc record := by
  induction calls generalizing engine with
  | nil => exact h
  | cons c calls ih => exact ih (holds_call h c)

theorem holds_storeResponse {clockSec : Nat}
    (h : (engine.storeResponse platform record clockSec).2 = true) :
    (engine.storeResponse platform record clockSec).1.storage.Holds platform.encoders
      engine.storage.next record := by
  cases hstorable : engine.storableTtl record with
  | none => exact absurd hstorable (storeResponse_eq_true_iff.mp h)
  | some ttlSecs =>
    rw [storeResponse, hstorable]
    refine ⟨Nat.lt_succ_self _, ?_⟩
    rw [ShardedLruCache.insert_heap_next]
    exact entryFor_represents platform engine ttlSecs clockSec

theorem contentEncodings_kept (headers : List (Bytes × Bytes)) :
    contentEncodings (headers.filter fun h => isCachedHeader h.1) = [] := by
  rw [contentEncodings, List.map_eq_nil_iff, List.filter_eq_nil_iff]
  intro header hmem hname
  have hkept := (List.mem_filter.mp hmem).2
  have hlower : toAsciiLowercase header.1 = ascii "content-encoding" := eq_of_beq hname
  simp [isCachedHeader, hlower] at hkept

theorem contentEncodings_hitOutcome {entry : CacheEntry} {encoders : Encoders}
    (h : entry.Represents encoders record) (nowSec : Nat) (body : Bytes)
    (algo : Option CompressionAlgorithm) :
    contentEncodings (hitOutcome entry nowSec body algo).headers =
      (algo.map CompressionAlgorithm.asContentEncoding).toList := by
  have hkept := contentEncodings_kept record.headers
  rw [← h.headers] at hkept
  unfold contentEncodings at hkept ⊢
  simp only [hitOutcome, List.filter_append, List.map_append, hkept]
  cases algo <;> rfl

theorem decodedBody_of_hit (codings : Codings platform.encoders) {ctx : RequestContext}
    {acceptEncoding cacheControl : Option Bytes} {clockSec : Nat} {outcome : CacheHitOutcome}
    (h : engine.storage.Holds platform.encoders arc record)
    (hserved : engine.servedArc ctx cacheControl clockSec = some arc)
    (hhit : (engine.evaluateAccess platform ctx acceptEncoding cacheControl clockSec).2 =
      .hit outcome) :
    codings.decodedBody outcome.headers outcome.body = some record.body := by
  have hget := h.get (engine.keyOf ctx.method ctx.host ctx.path ctx.query)
    (nowSec ctx clockSec)
  unfold servedArc at hserved
  unfold evaluateAccess at hhit
  split_ifs at hserved hhit with hbypass
  dsimp only at hhit
  generalize engine.storage.get _ _ = result at hget hserved hhit
  obtain ⟨storage, found⟩ := result
  obtain rfl : found = some arc := hserved
  have hstorage := hget.negotiateFrom (acceptedMask acceptEncoding) arc preferredEncodings
  have hbody := negotiateFrom_body hget.represents (acceptedMask acceptEncoding)
    preferredEncodings
  simp only [negotiateVariant] at hhit
  generalize negotiateFrom _ _ _ _ _ = negotiated at hstorage hbody hhit
  obtain ⟨storage', body, algo⟩ := negotiated
  obtain rfl := CacheLookupResult.hit.inj hhit
  rw [Codings.decodedBody, contentEncodings_hitOutcome hstorage.represents]
  rcases hbody with hraw | ⟨algo, out, hvariant, hout⟩
  · obtain ⟨rfl, rfl⟩ := Prod.mk.inj hraw
    rfl
  · obtain ⟨rfl, rfl⟩ := Prod.mk.inj hvariant
    simpa [hitOutcome] using codings.decode_compressedVariant hout

end Calls

/-- A hit stands for what the response of the upstream stood for only if the codings of the
response leave its body as it is. -/
theorem StoredHit.same_representation_iff {platform : Platform} (hit : StoredHit platform)
    (codings : Codings platform.encoders) :
    codings.decodedBody hit.outcome.headers hit.outcome.body =
        codings.decodedBody hit.record.headers hit.record.body ↔
      codings.decodedBody hit.record.headers hit.record.body = some hit.record.body := by
  have hholds := holds_run (holds_storeResponse hit.accepted) hit.between
  rw [decodedBody_of_hit codings hholds hit.served hit.answered]
  exact eq_comm

def headerByteCodings : Codings plainPlatform.encoders where
  decode coding body := if coding = ascii "gzip" then some body.tail else none
  zstd h := nomatch h
  brotli h := nomatch h
  gzip h := nomatch h

def encodedResponse : UpstreamResponseRecord :=
  { tenantResponse with
    headers := [(ascii "Content-Encoding", ascii "gzip")]
    body := ascii "~account" }

/-- The encoded bytes are served as the account itself. -/
theorem encoded_body_served_plain :
    ∃ outcome,
      (((ResponseCacheEngine.new plainPlatform .default).storeResponse plainPlatform
        encodedResponse 1000).1.evaluateAccess plainPlatform accountContext none none 0).2 =
          .hit outcome ∧
      contentEncodings outcome.headers = [] ∧
      headerByteCodings.decodedBody outcome.headers outcome.body = some (ascii "~account") ∧
      headerByteCodings.decodedBody encodedResponse.headers encodedResponse.body =
        some (ascii "account") := by
  refine ⟨⟨200, ascii "text/plain", ascii "~account",
    [(ascii "X-Cache", ascii "HIT"), (ascii "Vary", ascii "Accept-Encoding"),
      (ascii "Age", ascii "10")], none⟩, ?_⟩
  decide +kernel

end AuroraGateway.ResponseCache
