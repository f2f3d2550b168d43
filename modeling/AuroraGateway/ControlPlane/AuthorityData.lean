import AuroraGateway.ControlPlane.SpecScheduler
import AuroraGateway.Foundation.IpAddr

/-!
# Reading the authority data

The scheduler reads the tables with six queries, outside a transaction.  The
queries differ in what they do when the database fails: some give up, some
leave out a row, and some leave out their part of the document.
-/

namespace AuroraGateway.ControlPlane

open ControlWorker Foundation

/-! ## Tables -/

structure UpstreamRow where
  id : Int
  name : Text
  architectureType : Text
  algorithm : Text
  serversJson : Text
  transportJson : Text
  internalSslJson : Text
  version : Int
  deriving DecidableEq

structure RouteRow where
  rowid : Int
  id : Text
  host : Text
  path : Text
  upstreamName : Text
  enabled : Bool
  stripPath : Bool
  websocket : Bool
  priority : Int
  pluginsJson : Text
  deriving DecidableEq

structure CertificateRow extends SpecCertificateRecord where
  enabled : Bool

structure ExtensionRow extends SpecExtensionRecord where
  enabled : Bool

structure L4ServiceRow extends SpecL4ServiceRecord where
  id : Text

structure Tables where
  upstreams : List UpstreamRow
  routes : List RouteRow
  certificates : List CertificateRow
  extensionInstances : List ExtensionRow
  l4Services : List L4ServiceRow

/-- What `ORDER BY` does to the rows of a query; the order of equal rows is up to the
database. -/
structure RowOrder (α : Type) where
  sort : List α → List α
  perm : ∀ rows, (sort rows).Perm rows

theorem RowOrder.mem_sort {α : Type} (order : RowOrder α) {rows : List α} {row : α} :
    row ∈ order.sort rows ↔ row ∈ rows :=
  (order.perm rows).mem_iff

def RowOrder.stored {α : Type} : RowOrder α := ⟨id, fun _ => .refl _⟩

/-- The orders of the queries and the libraries that render the upstreams.  The decoders
give what is in the variable afterwards, also when they fail. -/
structure SpecSyncRepository where
  upstreamOrder : RowOrder UpstreamRow
  routeOrder : RowOrder RouteRow
  certificateOrder : RowOrder CertificateRow
  extensionOrder : RowOrder ExtensionRow
  l4Order : RowOrder L4ServiceRow
  unmarshalServers : Text → List ServerRecord
  unmarshalKeepAlive : Text → Int
  splitHostPort : Bytes → Option (Bytes × Bytes)
  parseIp : Bytes → Option IpAddr

/-! ## Upstream blocks -/

section Blocks

variable (repo : SpecSyncRepository)

def loadBalancer : Text := .ofAscii "Load Balancer"

variable (row : UpstreamRow)

def serverFlags (srv : ServerRecord) : List Text :=
  (if 0 < srv.weight ∧ row.architectureType = loadBalancer then
      [.ofAscii "weight=" ++ .decimal srv.weight.toNat]
    else []) ++
    (if 0 < srv.maxFails then [.ofAscii "max_fails=" ++ .decimal srv.maxFails.toNat] else []) ++
    (if srv.failTimeout.bytes.isEmpty then [] else [.ofAscii "fail_timeout=" ++ srv.failTimeout]) ++
    (if srv.backup then [.ofAscii "backup"] else [])

/-- A host name is resolved again while the gateway runs. -/
def resolveSuffix (address : Text) : Text :=
  let host := ((repo.splitHostPort address.bytes).map Prod.fst).getD address.bytes
  if (repo.parseIp host).isNone then .ofAscii " resolve" else .ofAscii ""

def serverLine (srv : ServerRecord) : Text :=
  .ofAscii "    server " ++ srv.address ++
    Text.concat ((serverFlags row srv).map fun flag => .ofAscii " " ++ flag) ++
    resolveSuffix repo srv.address ++ .ofAscii ";"

def openLine (name : Text) : Text := .ofAscii "upstream " ++ name ++ .ofAscii " \x7b"

def closeLine : Text := .ofAscii "\x7d"

def zoneLine (name : Text) : Text :=
  .ofAscii "    zone aurora_http_" ++ name ++ .ofAscii " 64k;"

def algorithmLines : List Text :=
  if row.architectureType = loadBalancer ∧ row.algorithm.bytes ≠ [] ∧
      row.algorithm.bytes ≠ ascii "round_robin" then
    [.ofAscii "    " ++ row.algorithm ++ .ofAscii ";"]
  else []

def keepAliveLine : Text :=
  let keepAlive := repo.unmarshalKeepAlive row.transportJson
  .ofAscii "    keepalive " ++ .decimal (if keepAlive ≤ 0 then 32 else keepAlive.toNat) ++
    .ofAscii ";"

def blockLines : List Text :=
  zoneLine row.name :: algorithmLines row ++
    (repo.unmarshalServers row.serversJson).map (serverLine repo row) ++ [keepAliveLine repo row]

def upstreamLines : List Text :=
  openLine row.name :: blockLines repo row ++ [closeLine, .ofAscii ""]

def headerLines : List Text :=
  [.ofAscii "# Auto-generated Aurora API Gateway Upstreams Configuration",
    .ofAscii "# Do not edit manually - managed by Aurora Control-Plane", .ofAscii ""]

def confLines (rows : List UpstreamRow) : List Text :=
  if rows.isEmpty then [.ofAscii "# No upstreams configured"]
  else headerLines ++ rows.flatMap (upstreamLines repo)

def renderUpstreams (rows : List UpstreamRow) : Text :=
  Text.concat ((confLines repo rows).map fun line => line ++ .ofAscii "\n")

theorem omitEmpty_renderUpstreams (rows : List UpstreamRow) :
    omitEmpty (renderUpstreams repo rows) = some (renderUpstreams repo rows) := by
  cases rows with
  | nil => rfl
  | cons row rows => rfl

end Blocks

/-! ## Queries -/

section Queries

variable (repo : SpecSyncRepository) (tables : Tables)

def upstreamsQuery : List UpstreamRow := repo.upstreamOrder.sort tables.upstreams

structure RoutingRow extends SpecRoutingRecord where
  id : Int

def routingRow (route : RouteRow) : RoutingRow where
  id := route.rowid
  host := route.host
  path := route.path
  target := route.upstreamName
  sslJson := ((tables.upstreams.find? fun u => u.name = route.upstreamName).map
    UpstreamRow.internalSslJson).getD (.ofAscii "")
  stripPath := route.stripPath
  websocket := route.websocket
  priority := route.priority
  pluginsJson := route.pluginsJson

def routingQuery : List RoutingRow :=
  (repo.routeOrder.sort (tables.routes.filter RouteRow.enabled)).map (routingRow tables)

def certificatesQuery : List CertificateRow :=
  repo.certificateOrder.sort (tables.certificates.filter CertificateRow.enabled)

def extensionsQuery : List ExtensionRow :=
  repo.extensionOrder.sort (tables.extensionInstances.filter ExtensionRow.enabled)

def l4ServicesQuery : List L4ServiceRow :=
  repo.l4Order.sort (tables.l4Services.filter fun s => s.enabled)

def routingRecords (rows : List RoutingRow) : List SpecRoutingRecord :=
  (rows.filter fun row => 0 < row.id).map RoutingRow.toSpecRoutingRecord

def upstreamRecords (rows : List UpstreamRow) : List SpecUnifiedUpstreamRecord :=
  rows.map fun row => ⟨row.name, row.algorithm, row.serversJson⟩

def authority : SpecAuthorityData where
  upstreamsConf := renderUpstreams repo (upstreamsQuery repo tables)
  routingRecords := routingRecords (routingQuery repo tables)
  certificates := (certificatesQuery repo tables).map CertificateRow.toSpecCertificateRecord
  extensions := (extensionsQuery repo tables).map ExtensionRow.toSpecExtensionRecord
  upstreamRecords := upstreamRecords (upstreamsQuery repo tables)
  l4Services := (l4ServicesQuery repo tables).map L4ServiceRow.toSpecL4ServiceRecord

end Queries

/-! ## A small repository -/

def sampleRepository : SpecSyncRepository where
  upstreamOrder := .stored
  routeOrder := .stored
  certificateOrder := .stored
  extensionOrder := .stored
  l4Order := .stored
  unmarshalServers := fun _ => []
  unmarshalKeepAlive := fun _ => 0
  splitHostPort := fun _ => none
  parseIp := fun _ => none

end AuroraGateway.ControlPlane
