import AuroraGateway.Ffi.Filters
import AuroraGateway.Nginx.Request

/-!
# The output filters of the adapter

The header filter may announce a coding.  The body filter is called with the
chains of buffers that make up the body, in any number and of any length; it
guesses from the shape of one chain whether it holds the whole body, and stores
and compresses only what it takes for whole.
-/

namespace AuroraGateway.Nginx

open Ffi Foundation ResponseCompression

variable {F : Type}

structure Ctx where
  origPath : Bytes
  fromCache : Bool
  routeMask : BitVec 32
  compressionAlgorithm : Nat
  origContentLength : Nat

structure Exchange where
  request : Request
  acceptEncoding : Bytes
  isMain : Bool
  headerOnly : Bool
  out : HeadersOut
  ctx : Option Ctx

structure Buf where
  data : Bytes
  lastBuf : Bool
  lastInChain : Bool
  deriving DecidableEq

abbrev Chain := List Buf

def Chain.bytes (chain : Chain) : Bytes := chain.flatMap fun buf => buf.data

/-! ## Headers -/

def headerFilterInput (x : Exchange) (ctx : Ctx) : AuroraHeaderFilterInput where
  upstreamStatus := x.out.status % 2 ^ 32
  isWebsocket := false
  path := if ctx.origPath.isEmpty then x.request.uri else ctx.origPath
  contentType := x.out.contentType
  contentLength := x.out.contentLengthN.toNat
  acceptEncoding := x.acceptEncoding

/-- What the adapter does with a decision to compress; `pushed` tells whether the list of
headers has room for the first and for the second new header. -/
def announce (x : Exchange) (ctx : Ctx) (outcome : AuroraHeaderFilterOutcome)
    (pushed : Bool × Bool) : Exchange :=
  let coding := (outcome.contentEncoding.filter fun text => !text.isEmpty && pushed.1).map
    fun text => ⟨1, ascii "Content-Encoding", text⟩
  let vary := if pushed.2 then [⟨1, ascii "Vary", ascii "Accept-Encoding"⟩] else []
  { x with
    ctx := some { ctx with compressionAlgorithm := outcome.compressionAlgorithm }
    out :=
      { x.out with
        contentLengthN := -1
        headers := x.out.headers ++ (coding.toList ++ vary) } }

def noteContentLength (x : Exchange) (ctx : Ctx) : Ctx :=
  if 0 < x.out.contentLengthN then
    { ctx with origContentLength := x.out.contentLengthN.toNat }
  else ctx

@[simp] theorem noteContentLength_fromCache (x : Exchange) (ctx : Ctx) :
    (noteContentLength x ctx).fromCache = ctx.fromCache := by
  unfold noteContentLength
  split <;> rfl

def headerFilter (enabled : Bool) (space : Option (GatewayActiveSpace F))
    (compression : Option ResponseCompressionEngine) (pushed : Bool × Bool) (x : Exchange) :
    Exchange :=
  match x.ctx with
  | none => x
  | some ctx =>
    if !enabled || ctx.fromCache then x
    else
      let ctx := noteContentLength x ctx
      if enables ctx.routeMask auroraExtResponseCompression then
        let outcome := auroraGatewayPhaseHeaderFilter space compression (headerFilterInput x ctx)
        if outcome.action = auroraFilterCompress ∧ 0 < outcome.compressionAlgorithm then
          announce x ctx outcome pushed
        else { x with ctx := some ctx }
      else { x with ctx := some ctx }

/-! ## Bodies -/

namespace Exchange

variable (x : Exchange)

def isCompleteBody : Chain → Bool
  | [buf] =>
    0 < buf.data.length && x.isMain &&
      (buf.lastBuf || buf.lastInChain ||
        x.ctx.any (fun ctx =>
          0 < ctx.origContentLength && ctx.origContentLength ≤ buf.data.length) ||
        (0 < x.out.contentLengthN && x.out.contentLengthN ≤ buf.data.length))
  | _ => false

def passesOver (chain : Chain) : Bool :=
  chain.isEmpty || x.headerOnly || x.ctx.any fun ctx => ctx.fromCache

def offersToCache : Bool :=
  200 ≤ x.out.status && x.out.status ≤ 404 &&
    x.ctx.all fun ctx => enables ctx.routeMask auroraExtResponseCache

def takesForWhole (chain : Chain) : Bool :=
  !x.passesOver chain && x.isCompleteBody chain && x.offersToCache

def cacheStore (chain : Chain) : Option AuroraCacheStoreInput :=
  if x.takesForWhole chain then
    some (cacheStoreInput x.request ((x.ctx.map fun ctx => ctx.origPath).getD []) x.out
      (Chain.bytes chain))
  else none

end Exchange

/-- What a call of the body filter meets: the engine of the active space and the memory of
the host. -/
structure FilterWorld where
  compression : Option ResponseCompressionEngine
  granted : Bool

def compressChain (encoders : Encoders) (world : FilterWorld) (algorithm : Nat) :
    Chain → Chain
  | [] => []
  | buf :: rest =>
    let outcome := auroraGatewayPhaseBodyFilter encoders world.compression
      ⟨buf.data, true, algorithm, world.granted⟩
    if outcome.action = auroraBodyFilterMutated ∧ 0 < outcome.out.length then
      { buf with data := outcome.out } :: rest
    else buf :: rest

/-- The exchange after the call, and the chain for the next filter. -/
def bodyFilter (encoders : Encoders) (world : FilterWorld) (x : Exchange) (chain : Chain) :
    Exchange × Chain :=
  if x.passesOver chain then (x, chain)
  else
    match x.ctx with
    | none => (x, chain)
    | some ctx =>
      if ctx.compressionAlgorithm = 0 then (x, chain)
      else
        ({ x with ctx := some { ctx with compressionAlgorithm := 0 } },
          if x.isCompleteBody chain then
            compressChain encoders world ctx.compressionAlgorithm chain
          else chain)

/-! ## The calls for one response -/

structure BodyCall where
  chain : Chain
  world : FilterWorld

def cacheStores (encoders : Encoders) : Exchange → List BodyCall → List AuroraCacheStoreInput
  | _, [] => []
  | x, call :: calls =>
    (x.cacheStore call.chain).toList ++
      cacheStores encoders (bodyFilter encoders call.world x call.chain).1 calls

def passedOn (encoders : Encoders) : Exchange → List BodyCall → List Chain
  | _, [] => []
  | x, call :: calls =>
    (bodyFilter encoders call.world x call.chain).2 ::
      passedOn encoders (bodyFilter encoders call.world x call.chain).1 calls

def upstreamBody (calls : List BodyCall) : Bytes :=
  calls.flatMap fun call => call.chain.bytes

/-! ## Samples -/

def pageExchange : Exchange where
  request := ⟨ascii "GET", ascii "example.com", ascii "example.com", ascii "/", ascii "/", []⟩
  acceptEncoding := []
  isMain := true
  headerOnly := false
  out := ⟨200, ascii "text/plain", -1, []⟩
  ctx := some ⟨ascii "/", false, u32Mask, 0, 0⟩

def plainCall (data : Bytes) (lastBuf : Bool) : BodyCall :=
  ⟨[⟨data, lastBuf, false⟩], ⟨none, true⟩⟩

end AuroraGateway.Nginx
