import AuroraGateway.ControlWorker.Extensions
import AuroraGateway.Foundation.ConfText

/-!
# Directives of CORS

An extension that is rendered into directives of a server: the headers that let
pages of other origins read the responses.
-/

namespace AuroraGateway.ControlWorker

open Foundation

abbrev Config := List (Bytes × Json)

inductive MaterializeError where
  | controlCharacter (field : Bytes)
  deriving DecidableEq

variable (config : Config) (name : Bytes)

def Config.get? (field : String) : Option Json :=
  (Json.object config).get? (ascii field)

def configStrings (field : String) : Option (List Bytes) :=
  (config.get? field).bind Json.asStrings

def configBool (field : String) (default : Bool) : Bool :=
  ((config.get? field).bind Json.asBool).getD default

def quotedWord (value : Bytes) : Word where
  text := [34] ++ value.flatMap (fun b => if b = 92 ∨ b = 34 then [92, b] else [b]) ++ [34]
  value

def nginxQuoted (value : Bytes) (field : String) : Except MaterializeError Word :=
  if value.any fun b => b = 13 || b = 10 || b = 0 then .error (.controlCharacter (ascii field))
  else .ok (quotedWord value)

def responseHeader (value : Word) : Line :=
  .directive ⟨ascii "add_header", [.plain name, value, .ascii "always"]⟩

/-! ## CORS -/

def joinWith (separator : String) : List Bytes → Bytes
  | [] => []
  | [item] => item
  | item :: rest => item ++ ascii separator ++ joinWith separator rest

/-- The value of the header: the origin of the request, unless one origin is configured and
credentials are not allowed. -/
def corsOrigin : Bytes :=
  if configBool config "allow_credentials" false then ascii "$http_origin"
  else
    match configStrings config "allow_origins" with
    | some [origin] => origin
    | _ => ascii "$http_origin"

def corsMethods : Bytes :=
  ((configStrings config "allow_methods").map (joinWith ", ")).getD
    (ascii "GET, POST, PUT, DELETE, PATCH, OPTIONS")

def corsHeaders : Bytes :=
  ((configStrings config "allow_headers").map (joinWith ", ")).getD
    (ascii ("DNT,User-Agent,X-Requested-With,If-Modified-Since,Cache-Control,Content-Type," ++
      "Range,Authorization,X-API-Key,X-Request-ID"))

/-- The headers of every response; the requests for permission are then answered. -/
def corsHeaderLines : Except MaterializeError (List Line) := do
  let origin ← nginxQuoted (corsOrigin config) "allow_origins"
  let methods ← nginxQuoted (corsMethods config) "allow_methods"
  let headers ← nginxQuoted (corsHeaders config) "allow_headers"
  let expose ← (((configStrings config "expose_headers").filter fun items =>
    !items.isEmpty).toList).mapM fun items => nginxQuoted (joinWith ", " items) "expose_headers"
  .ok
    ([ responseHeader (ascii "Access-Control-Allow-Origin") origin,
       responseHeader (ascii "Access-Control-Allow-Methods") methods,
       responseHeader (ascii "Access-Control-Allow-Headers") headers,
       responseHeader (ascii "Access-Control-Max-Age")
         (.plain (decimal (((config.get? "max_age").bind Json.asU64).getD 86400))) ] ++
      (if configBool config "allow_credentials" false then
        [responseHeader (ascii "Access-Control-Allow-Credentials") ⟨ascii "\"true\"", ascii "true"⟩]
        else []) ++
      expose.map (responseHeader (ascii "Access-Control-Expose-Headers")))

end AuroraGateway.ControlWorker
