import AuroraGateway.Nginx.Filters

/-!
# Announced and actual codings

The coding of a response is announced before its body is seen.  The body is then
compressed if its first chain is a single buffer that is taken for the whole of
it, and is sent as it is otherwise.
-/

namespace AuroraGateway.Nginx

open Ffi Foundation ResponseCompression

variable {F : Type}

/-! ## Codings -/

/-- What the encoders write: `Encodes coding body encoded` says that `encoded` is one encoding
of the body in that coding. -/
structure ContentCodings (encoders : Encoders) where
  Encodes : Bytes → Bytes → Bytes → Prop
  zstd : ∀ {level input capacity out}, encoders.zstd level input capacity = some out →
    Encodes (ascii "zstd") input out
  brotli : ∀ {level input capacity out}, encoders.brotli level input capacity = some out →
    Encodes (ascii "br") input out
  gzip : ∀ {level input capacity out}, encoders.gzip level input capacity = some out →
    Encodes (ascii "gzip") input out
  selfDelimiting : ∀ {algorithm : CompressionAlgorithm} {body body' encoded rest : Bytes},
    algorithm ≠ .none → Encodes algorithm.asContentEncoding body encoded →
      Encodes algorithm.asContentEncoding body' (encoded ++ rest) → rest = []

theorem ContentCodings.of_compressSingleShot {encoders : Encoders}
    (codings : ContentCodings encoders) {engine : ResponseCompressionEngine}
    {algorithm : CompressionAlgorithm} (halgorithm : algorithm ≠ .none) {input out : Bytes}
    (hinput : input ≠ []) {granted : Bool}
    (h : engine.compressSingleShot encoders algorithm input granted = some out) :
    codings.Encodes algorithm.asContentEncoding input out := by
  have hnotEmpty : input.isEmpty = false := by simpa using hinput
  simp only [ResponseCompressionEngine.compressSingleShot, compressInto, hnotEmpty,
    Bool.false_eq_true, if_false] at h
  split at h
  · simp at h
  · cases algorithm with
    | none => exact absurd rfl halgorithm
    | zstd => exact codings.zstd h
    | brotli => exact codings.brotli h
    | gzip => exact codings.gzip h

/-! ## Replies -/

structure Reply (F : Type) where
  exchange : Exchange
  enabled : Bool
  space : Option (GatewayActiveSpace F)
  compression : Option ResponseCompressionEngine
  pushed : Bool × Bool
  calls : List BodyCall

namespace Reply

variable (reply : Reply F)

def filtered : Exchange :=
  headerFilter reply.enabled reply.space reply.compression reply.pushed reply.exchange

def Adds (coding : Bytes) : Prop :=
  ⟨1, ascii "Content-Encoding", coding⟩ ∈
    reply.filtered.out.headers.drop reply.exchange.out.headers.length

def passed (encoders : Encoders) : Bytes :=
  (passedOn encoders reply.filtered reply.calls).flatMap Chain.bytes

end Reply

def HeadersOut.IsCoded (out : HeadersOut) : Prop :=
  ∃ header ∈ out.headers, header.hash ≠ 0 ∧
    eqIgnoreAsciiCase header.key (ascii "content-encoding") = true

/-- A coding is added only to a response without one, and the client gets one encoding of
the body in that coding. -/
def Reply.Truthful (reply : Reply F) {encoders : Encoders} (codings : ContentCodings encoders) :
    Prop :=
  ∀ coding, reply.Adds coding →
    ¬reply.exchange.out.IsCoded ∧
      codings.Encodes coding (upstreamBody reply.calls) (reply.passed encoders)

/-! ## What the filters do -/

theorem mem_announce {x : Exchange} {ctx : Ctx} {outcome : AuroraHeaderFilterOutcome}
    {pushed : Bool × Bool} {coding : Bytes}
    (h : ⟨1, ascii "Content-Encoding", coding⟩ ∈
      (announce x ctx outcome pushed).out.headers.drop x.out.headers.length) :
    outcome.contentEncoding = some coding := by
  simp only [announce, List.drop_left, List.mem_append, Option.mem_toList,
    Option.map_eq_some_iff, Option.filter_eq_some_iff] at h
  rcases h with ⟨text, ⟨htext, -⟩, hheader⟩ | hvary
  · injection hheader with _ _ hvalue
    rw [htext, hvalue]
  · split at hvary
    · have hkey : ascii "Content-Encoding" = ascii "Vary" :=
        congrArg TableElt.key (List.mem_singleton.mp hvary)
      exact absurd hkey (by decide)
    · simp at hvary

theorem Reply.adds_cases {reply : Reply F} {coding : Bytes} (h : reply.Adds coding) :
    ∃ algorithm ctx, algorithm ≠ .none ∧ coding = algorithm.asContentEncoding ∧
      reply.filtered.ctx = some ctx ∧ ctx.fromCache = false ∧
      ctx.compressionAlgorithm = algorithmCode algorithm := by
  unfold Adds filtered at *
  unfold headerFilter at *
  cases hctx : reply.exchange.ctx with
  | none => simp [hctx] at h
  | some ctx =>
    simp only [hctx] at h ⊢
    split_ifs at h ⊢ with hskips henabled hcompress
    · simp at h
    · obtain ⟨algorithm, hne, houtcome⟩ := headerFilter_compress hcompress.1
      have hcoding := mem_announce h
      rw [houtcome] at hcoding ⊢
      have hfresh : ctx.fromCache = false := by simp_all
      exact ⟨algorithm, _, hne, (Option.some.inj hcoding).symm, rfl, by simp [hfresh], rfl⟩
    · simp at h
    · simp at h

/-- The first chain is a single buffer that is taken for the whole body, and the encoder
succeeds with it; `after` are the calls that follow. -/
inductive Compresses (encoders : Encoders) (x : Exchange) (algorithm : CompressionAlgorithm) :
    List BodyCall → Bytes → Bytes → List BodyCall → Prop
  | skip {call : BodyCall} {calls after : List BodyCall} {chunk out : Bytes}
      (hempty : call.chain = []) (h : Compresses encoders x algorithm calls chunk out after) :
      Compresses encoders x algorithm (call :: calls) chunk out after
  | here {call : BodyCall} {after : List BodyCall} {buf : Buf}
      {engine : ResponseCompressionEngine} {out : Bytes}
      (hchain : call.chain = [buf]) (hbody : x.headerOnly = false)
      (hwhole : x.isCompleteBody [buf] = true)
      (hengine : call.world.compression = some engine)
      (hout : engine.compressSingleShot encoders algorithm buf.data call.world.granted =
        some out)
      (hne : out ≠ []) : Compresses encoders x algorithm (call :: after) buf.data out after

section Bodies

variable {encoders : Encoders} {x : Exchange}

theorem passed_of_still (h : ∀ world chain, bodyFilter encoders world x chain = (x, chain))
    (calls : List BodyCall) :
    (passedOn encoders x calls).flatMap Chain.bytes = upstreamBody calls := by
  induction calls with
  | nil => rfl
  | cons call calls ih =>
    simp [passedOn, h, upstreamBody, ih]

theorem bodyFilter_of_headerOnly (h : x.headerOnly = true) (world : FilterWorld)
    (chain : Chain) : bodyFilter encoders world x chain = (x, chain) := by
  simp [bodyFilter, Exchange.passesOver, h]

theorem bodyFilter_nil (world : FilterWorld) : bodyFilter encoders world x [] = (x, []) := by
  simp [bodyFilter, Exchange.passesOver]

theorem bodyFilter_of_done {ctx : Ctx} (hctx : x.ctx = some ctx)
    (hdone : ctx.compressionAlgorithm = 0) (world : FilterWorld) (chain : Chain) :
    bodyFilter encoders world x chain = (x, chain) := by
  simp [bodyFilter, hctx, hdone]

variable {chain : Chain} {out : Bytes} {calls : List BodyCall}

theorem exists_of_isCompleteBody (h : x.isCompleteBody chain = true) :
    ∃ buf, chain = [buf] ∧ buf.data ≠ [] := by
  unfold Exchange.isCompleteBody at h
  split at h
  · rename_i buf
    refine ⟨buf, rfl, ?_⟩
    rintro hdata
    simp [hdata] at h
  · simp at h

variable {algorithm : CompressionAlgorithm} (halgorithm : algorithm ≠ .none)

include halgorithm

theorem compressChain_of_some {world : FilterWorld} {buf : Buf} (hdata : buf.data ≠ [])
    {engine : ResponseCompressionEngine} (hengine : world.compression = some engine)
    (hout : engine.compressSingleShot encoders algorithm buf.data world.granted = some out)
    (hne : out ≠ []) : compressChain encoders world (algorithmCode algorithm) [buf] =
      [{ buf with data := out }] := by
  simp [compressChain, phaseBodyFilter_eq encoders _ halgorithm hdata, hengine, hout,
    List.length_pos_iff, hne]

theorem compressChain_cases (world : FilterWorld) {buf : Buf} (hdata : buf.data ≠ []) :
    compressChain encoders world (algorithmCode algorithm) [buf] = [buf] ∨
      ∃ engine out, world.compression = some engine ∧
        engine.compressSingleShot encoders algorithm buf.data world.granted = some out ∧
        out ≠ [] := by
  cases hengine : world.compression with
  | none =>
    simp [compressChain, phaseBodyFilter_eq encoders _ halgorithm hdata, hengine,
      AuroraBodyFilterOutcome.default, auroraBodyFilterPassthrough, auroraBodyFilterMutated]
  | some engine =>
    cases hout : engine.compressSingleShot encoders algorithm buf.data world.granted with
    | none =>
      left
      simp [compressChain, phaseBodyFilter_eq encoders _ halgorithm hdata, hengine, hout,
        AuroraBodyFilterOutcome.default, auroraBodyFilterPassthrough,
        auroraBodyFilterMutated]
    | some out =>
      by_cases hne : out = []
      · left
        simp [compressChain, phaseBodyFilter_eq encoders _ halgorithm hdata, hengine, hout,
          hne]
      · exact .inr ⟨engine, out, rfl, hout, hne⟩

variable {ctx : Ctx} (hctx : x.ctx = some ctx) (hcache : ctx.fromCache = false)
  (hcode : ctx.compressionAlgorithm = algorithmCode algorithm)

include hctx hcache hcode

theorem bodyFilter_pending (hbody : x.headerOnly = false) (hchain : chain ≠ [])
    (world : FilterWorld) : bodyFilter encoders world x chain =
      ({ x with ctx := some { ctx with compressionAlgorithm := 0 } },
        if x.isCompleteBody chain then
          compressChain encoders world (algorithmCode algorithm) chain
        else chain) := by
  simp [bodyFilter, Exchange.passesOver, hctx, hcache, hcode, hbody, hchain,
    algorithmCode_ne_zero halgorithm]

theorem passed_after_first (hbody : x.headerOnly = false) {call : BodyCall}
    (hchain : call.chain ≠ []) (calls : List BodyCall) :
    (passedOn encoders x (call :: calls)).flatMap Chain.bytes =
      Chain.bytes (if x.isCompleteBody call.chain then
          compressChain encoders call.world (algorithmCode algorithm) call.chain
        else call.chain) ++ upstreamBody calls := by
  rw [passedOn, bodyFilter_pending halgorithm hctx hcache hcode hbody hchain, List.flatMap_cons,
    passed_of_still (bodyFilter_of_done rfl rfl)]

theorem passed_of_compresses {after : List BodyCall} {chunk : Bytes}
    (h : Compresses encoders x algorithm calls chunk out after) :
    (passedOn encoders x calls).flatMap Chain.bytes = out ++ upstreamBody after ∧
      upstreamBody calls = chunk ++ upstreamBody after := by
  induction h with
  | skip hempty _ ih =>
    simp only [upstreamBody] at ih ⊢
    simpa [passedOn, hempty, bodyFilter_nil, Chain.bytes] using ih
  | @here call after buf engine out hchain hbody hwhole hengine hout hne =>
    obtain ⟨_, hbuf, hdata⟩ := exists_of_isCompleteBody hwhole
    obtain rfl := List.singleton_inj.mp hbuf
    rw [passed_after_first halgorithm hctx hcache hcode hbody (by simp [hchain]), hchain,
      if_pos hwhole, compressChain_of_some halgorithm hdata hengine hout hne]
    simp [upstreamBody, Chain.bytes, hchain]

theorem passed_of_not_compresses
    (h : ∀ chunk out after, ¬Compresses encoders x algorithm calls chunk out after) :
    (passedOn encoders x calls).flatMap Chain.bytes = upstreamBody calls := by
  cases hbody : x.headerOnly with
  | true => exact passed_of_still (bodyFilter_of_headerOnly hbody) calls
  | false =>
    induction calls with
    | nil => rfl
    | cons call calls ih =>
      by_cases hchain : call.chain = []
      · have hrest := ih fun chunk out after hrest =>
          h chunk out after (.skip hchain hrest)
        simp only [upstreamBody] at hrest ⊢
        simp [passedOn, hchain, bodyFilter_nil, Chain.bytes, hrest]
      · rw [passed_after_first halgorithm hctx hcache hcode hbody hchain]
        have hsame : (if x.isCompleteBody call.chain then
            compressChain encoders call.world (algorithmCode algorithm) call.chain
            else call.chain) = call.chain := by
          split
          · rename_i hwhole
            obtain ⟨buf, hbuf, hdata⟩ := exists_of_isCompleteBody hwhole
            rw [hbuf] at hwhole ⊢
            have hcases := @compressChain_cases encoders algorithm halgorithm call.world
              buf hdata
            rcases hcases with hkept | ⟨engine, out, hengine, hout, hne⟩
            · exact hkept
            · exact absurd (.here hbuf hbody hwhole hengine hout hne) (h buf.data out calls)
          · rfl
        rw [hsame]
        simp [upstreamBody]

omit hctx hcache hcode in
theorem ContentCodings.of_compresses (codings : ContentCodings encoders) {after : List BodyCall}
    {chunk : Bytes} (h : Compresses encoders x algorithm calls chunk out after) :
    codings.Encodes algorithm.asContentEncoding chunk out := by
  induction h with
  | skip _ _ ih => exact ih
  | here _ _ hwhole _ hout _ =>
    obtain ⟨_, hbuf, hdata⟩ := exists_of_isCompleteBody hwhole
    obtain rfl := List.singleton_inj.mp hbuf
    exact codings.of_compressSingleShot halgorithm hdata hout

end Bodies

/-- The announcement comes true if and only if the response had no coding, and its first chain
is the whole body and gets compressed, or nothing gets compressed and the body happens to be
an encoding of itself. -/
theorem announced_coding_iff {encoders : Encoders} (codings : ContentCodings encoders)
    (reply : Reply F) :
    reply.Truthful codings ↔
      ∀ algorithm : CompressionAlgorithm, reply.Adds algorithm.asContentEncoding →
        ¬reply.exchange.out.IsCoded ∧
          ((∃ chunk out after,
              Compresses encoders reply.filtered algorithm reply.calls chunk out after ∧
                upstreamBody after = []) ∨
            (¬∃ chunk out after,
              Compresses encoders reply.filtered algorithm reply.calls chunk out after) ∧
              codings.Encodes algorithm.asContentEncoding (upstreamBody reply.calls)
                (upstreamBody reply.calls)) := by
  constructor
  · intro htruthful algorithm hadds
    obtain ⟨hcoded, hencodes⟩ := htruthful _ hadds
    obtain ⟨_, ctx, hne, hsame, hctx, hcache, hcode⟩ := Reply.adds_cases hadds
    obtain rfl := asContentEncoding_injective hsame
    refine ⟨hcoded, ?_⟩
    by_cases hcompresses : ∃ chunk out after,
        Compresses encoders reply.filtered algorithm reply.calls chunk out after
    · obtain ⟨chunk, out, after, h⟩ := hcompresses
      rw [Reply.passed, (passed_of_compresses hne hctx hcache hcode h).1] at hencodes
      exact .inl ⟨chunk, out, after, h,
        codings.selfDelimiting hne (codings.of_compresses hne h) hencodes⟩
    · have hkept := passed_of_not_compresses hne hctx hcache hcode
        fun chunk out after h => hcompresses ⟨chunk, out, after, h⟩
      rw [Reply.passed, hkept] at hencodes
      exact .inr ⟨hcompresses, hencodes⟩
  · intro hholds coding hadds
    obtain ⟨algorithm, ctx, hne, rfl, hctx, hcache, hcode⟩ := Reply.adds_cases hadds
    obtain ⟨hcoded, hbody⟩ := hholds algorithm hadds
    refine ⟨hcoded, ?_⟩
    rcases hbody with ⟨chunk, out, after, h, hrest⟩ | ⟨hcompresses, hself⟩
    · obtain ⟨hpassed, hupstream⟩ := passed_of_compresses hne hctx hcache hcode h
      rw [Reply.passed, hpassed, hupstream, hrest, List.append_nil, List.append_nil]
      exact codings.of_compresses hne h
    · rw [Reply.passed, passed_of_not_compresses hne hctx hcache hcode
        fun chunk out after h => hcompresses ⟨chunk, out, after, h⟩]
      exact hself

/-! ## Samples -/

def markBytes : Bytes → Bytes
  | [] => [0]
  | byte :: bytes => 1 :: byte :: markBytes bytes

theorem markBytes_selfDelimiting {body body' rest : Bytes}
    (h : markBytes body' = markBytes body ++ rest) : rest = [] := by
  induction body generalizing body' with
  | nil =>
    cases body' with
    | nil => simpa [markBytes] using h
    | cons byte bytes => simp [markBytes] at h
  | cons byte bytes ih =>
    cases body' with
    | nil => simp [markBytes] at h
    | cons byte' bytes' =>
      simp only [markBytes, List.cons_append, List.cons.injEq, true_and] at h
      exact ih h.2

def markEncoder : Encoder := fun _ input capacity =>
  if (markBytes input).length ≤ capacity then some (markBytes input) else none

def markEncoders : Encoders := ⟨markEncoder, markEncoder, markEncoder⟩

theorem markEncoder_eq_some (level : Nat) {capacity : Nat} {input out : Bytes}
    (h : markEncoder level input capacity = some out) : out = markBytes input := by
  unfold markEncoder at h
  split at h
  · exact (Option.some.inj h).symm
  · simp at h

def markCodings : ContentCodings markEncoders where
  Encodes _ body encoded := encoded = markBytes body
  zstd {level _ _ _} h := markEncoder_eq_some level h
  brotli {level _ _ _} h := markEncoder_eq_some level h
  gzip {level _ _ _} h := markEncoder_eq_some level h
  selfDelimiting _ hencoded hmore := markBytes_selfDelimiting (hencoded ▸ hmore.symm)

def openSpace : GatewayActiveSpace ℚ where
  toAccessPhaseEngines := .none
  responseCache := none
  routeTrie := .ofList []

def gzipReply (headers : List TableElt) : Reply ℚ where
  exchange :=
    { pageExchange with
      acceptEncoding := ascii "gzip", out := { pageExchange.out with headers } }
  enabled := true
  space := some openSpace
  compression := (ResponseCompressionEngine.new gzipConfig).toOption
  pushed := (true, true)
  calls := [plainCall (ascii "first ") false, plainCall (ascii "second") true]

/-- The page is announced as gzip and sent as it is; and the header is added to a page that
is already coded. -/
theorem plain_page_announced_as_gzip :
    (gzipReply []).Adds (ascii "gzip") ∧
      (gzipReply []).passed markEncoders = ascii "first second" ∧
      ¬markCodings.Encodes (ascii "gzip") (upstreamBody (gzipReply []).calls)
        ((gzipReply []).passed markEncoders) ∧
      (gzipReply [⟨1, ascii "Content-Encoding", ascii "br"⟩]).Adds (ascii "gzip") ∧
      (gzipReply [⟨1, ascii "Content-Encoding", ascii "br"⟩]).exchange.out.IsCoded := by
  refine ⟨?_, ?_, ?_, ?_, ?_⟩
  · unfold Reply.Adds
    decide +kernel
  · decide +kernel
  · simp only [markCodings]
    decide +kernel
  · unfold Reply.Adds
    decide +kernel
  · exact ⟨_, List.mem_singleton_self _, by decide, by decide⟩

end AuroraGateway.Nginx
