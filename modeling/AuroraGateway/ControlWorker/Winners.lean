import AuroraGateway.ControlWorker.RouteTables
import AuroraGateway.ControlWorker.Routing
import AuroraGateway.Foundation.AsciiText

/-!
# Locations with the same path

Several locations of a domain may have the same path.  The renderer, the masks
of the routes and the overrides each choose one of them.
-/

namespace AuroraGateway.ControlWorker

open Ffi Foundation

abbrev Numbered := LocationRoutingSpec × Nat

/-- A path of several locations of a domain, and the policies that the routes are compiled
into. -/
structure ContestedPath where
  host : Text
  locations : List LocationRoutingSpec
  shmSlots : List (Nat × Bytes)
  path : Text
  several : 2 ≤ (locations.filter fun loc => loc.path.trim = path).length

namespace ContestedPath

variable (c : ContestedPath)

def routing : RoutingSpec := ⟨[⟨c.host, c.locations⟩]⟩

def numbered : List Numbered := c.locations.zipIdx

def sorted : List Numbered := sortByKey (fun e => e.1.priority) c.numbered

def clean : Text := if c.path.bytes.isEmpty then Engine.rootText else c.path

def contenders : List Numbered := c.numbered.filter fun e => cleanPath e.1.path = c.clean

/-! ## The three choices -/

def renderedTable : List Numbered :=
  c.numbered.foldl (upsertIf (fun e => e.1.path.trim) (outranks fun e => e.1.priority)) []

/-- The location that is rendered for the path; a domain without a host is not rendered. -/
def Rendered (e : Numbered) : Prop :=
  hostOf ⟨c.host, c.locations⟩ ≠ [] ∧
    c.renderedTable.find? (fun e => e.1.path.trim = c.path) = some e

def ruleTable : List Numbered := c.sorted.foldl (upsert fun e => cleanPath e.1.path) []

def DecidesMask (e : Numbered) : Prop :=
  c.ruleTable.find? (fun e => cleanPath e.1.path = c.clean) = some e

section Overrides

variable (codec : JsonCodec) (kind : OverrideKind)

def overrideEntries : List (Json × Option Numbered) :=
  c.sorted.flatMap fun e =>
    (e.1.route.overrides codec c.shmSlots kind).map fun entry => (entry, some e)

def slotItems : Option (List Json) :=
  (getShmSlot c.shmSlots kind.slot).bind (configItems codec kind)

def overrideTable (items : List Json) : List (Json × Option Numbered) :=
  (c.overrideEntries codec kind).foldl (pushNew fun entry => pathPrefix entry.1)
    (items.map fun item => (item, none))

def Kept (e : Numbered) : Prop :=
  ∃ items, c.slotItems codec kind = some items ∧
    ∃ entry, (entry, some e) ∈ c.overrideTable codec kind items ∧
      pathPrefix entry = some c.clean.bytes

/-- The rendered location is the one that gives the mask and the overrides. -/
def OneWins : Prop :=
  ∀ e, c.Rendered e →
    (∀ other, c.DecidesMask other → other = e) ∧
    ∀ kind other, c.Kept codec kind other → other = e

end Overrides

/-! ## What is chosen is what is used -/

theorem allLocs_routing : allLocs c.routing = c.numbered.map fun e => e.1.route := by
  have hfst : c.numbered.map Prod.fst = c.locations := List.zipIdx_map_fst 0 c.locations
  calc
    allLocs c.routing = c.locations.map LocationRoutingSpec.route := by simp [allLocs, routing]
    _ = (c.numbered.map Prod.fst).map LocationRoutingSpec.route := by rw [hfst]
    _ = c.numbered.map fun e => e.1.route := List.map_map

theorem sortedLocs_routing : sortedLocs c.routing = c.sorted.map fun e => e.1.route := by
  rw [sortedLocs, allLocs_routing]
  exact (map_sortByKey RouteLocation.priority (fun e : Numbered => e.1.route) c.numbered).symm

theorem routeRules_routing (codec : JsonCodec) :
    routeRules codec c.routing c.shmSlots =
      c.ruleTable.map fun e => e.1.route.rule codec c.shmSlots := by
  rw [routeRules, sortedLocs_routing, List.map_map]
  exact (map_foldl (fun e : Numbered => e.1.route.rule codec c.shmSlots)
    (map_upsert RouteMaskRule.path fun e : Numbered => e.1.route.rule codec c.shmSlots)
    c.sorted []).symm

theorem overrideTable_fst (codec : JsonCodec) (kind : OverrideKind) (items : List Json) :
    (c.overrideTable codec kind items).map Prod.fst =
      (routeOverrides codec c.routing c.shmSlots kind).foldl (pushNew pathPrefix) items := by
  have hentries : (c.overrideEntries codec kind).map Prod.fst =
      routeOverrides codec c.routing c.shmSlots kind := by
    rw [routeOverrides, sortedLocs_routing, overrideEntries, List.map_flatMap, List.flatMap_map]
    simp [Function.comp_def]
  rw [overrideTable, map_foldl Prod.fst (map_pushNew pathPrefix Prod.fst), hentries]
  simp [Function.comp_def]

theorem renderedTable_fst : c.renderedTable.map Prod.fst = dedupePaths c.locations := by
  have hfst : c.numbered.map Prod.fst = c.locations := List.zipIdx_map_fst 0 c.locations
  rw [← hfst]
  exact map_foldl Prod.fst (map_upsertIf (fun loc : LocationRoutingSpec => loc.path.trim)
    Prod.fst fun loc existing => decide (existing.priority < loc.priority)) c.numbered []

variable {e : Numbered}

theorem Rendered.mem_deduped (h : c.Rendered e) (env : RouteRenderer) :
    hostMap c.routing = [(hostOf ⟨c.host, c.locations⟩, c.locations)] ∧
      e.1 ∈ deduped env c.locations := by
  constructor
  · simp [hostMap, routing, addHost, h.1]
  · have hmem : e.1 ∈ dedupePaths c.locations := by
      rw [← renderedTable_fst]
      exact List.mem_map_of_mem (List.mem_of_find?_eq_some h.2)
    exact (mem_sortByKey _).mpr ((env.hashOrder_perm _).mem_iff.mpr hmem)

/-- The tables in which every entry has its location are those that the source computes. -/
theorem tables_computed (codec : JsonCodec) (env : RouteRenderer) :
    dedupePaths c.locations = c.renderedTable.map Prod.fst ∧
    routeRules codec c.routing c.shmSlots =
      c.ruleTable.map (fun e => e.1.route.rule codec c.shmSlots) ∧
    (∀ kind items, (routeOverrides codec c.routing c.shmSlots kind).foldl (pushNew pathPrefix)
      items = (c.overrideTable codec kind items).map Prod.fst) ∧
    ∀ e, c.Rendered e → e.1 ∈ deduped env c.locations :=
  ⟨c.renderedTable_fst.symm, c.routeRules_routing codec,
    fun kind items => (c.overrideTable_fst codec kind items).symm,
    fun _ h => (h.mem_deduped c env).2⟩

/-! ## Who is chosen -/

def Before (a b : Numbered) : Prop :=
  a.1.priority < b.1.priority ∨ a.1.priority = b.1.priority ∧ a.2 < b.2

theorem Before.asymm (a b : Numbered) (h : Before a b) : ¬Before b a := by
  unfold Before at *
  omega

theorem numbered_pairwise : c.numbered.Pairwise fun a b => a.2 < b.2 := by
  rw [← List.pairwise_map (f := Prod.snd) (R := (· < ·)), numbered, List.zipIdx_map_snd]
  exact List.pairwise_lt_range'

theorem sorted_pairwise : c.sorted.Pairwise Before :=
  sortByKey_pairwise_lex (fun e : Numbered => e.1.priority) c.numbered_pairwise

theorem mem_sorted : e ∈ c.sorted ↔ e ∈ c.numbered := mem_sortByKey _

theorem mem_contenders :
    e ∈ c.contenders ↔ e ∈ c.numbered ∧ cleanPath e.1.path = c.clean := by
  simp [contenders]

theorem decidesMask_iff :
    c.DecidesMask e ↔ e ∈ c.contenders ∧ ∀ other ∈ c.contenders, other ≠ e → Before other e := by
  rw [DecidesMask, ruleTable, find?_foldl_upsert, List.find?_nil, Option.or_none,
    getLast?_eq_some_iff (c.sorted_pairwise.filter _) Before.asymm]
  simp [mem_sorted, mem_contenders]

theorem rendered_iff :
    c.Rendered e ↔ hostOf ⟨c.host, c.locations⟩ ≠ [] ∧
      Leads (fun e : Numbered => e.1.priority) (fun a b => a.2 < b.2)
        (c.numbered.filter fun e => e.1.path.trim = c.path) e := by
  rw [Rendered, renderedTable, find?_foldl_upsertIf, List.find?_nil,
    foldl_better_eq_some_iff (fun _ _ h => Nat.lt_asymm h) (c.numbered_pairwise.filter _)]

section Overrides

variable (codec : JsonCodec)

def Takes (kind : OverrideKind) : Prop :=
  ∃ items, c.slotItems codec kind = some items ∧ some c.clean.bytes ∉ items.map pathPrefix

variable {e : Numbered} {kind : OverrideKind}

theorem path_eq_iff {entry : Json}
    (h : entry ∈ e.1.route.overrides codec c.shmSlots kind) :
    pathPrefix entry = some c.clean.bytes ↔ cleanPath e.1.path = c.clean := by
  rw [pathPrefix_of_mem_overrides h, Option.some.injEq]
  constructor
  · intro hbytes
    exact Text.mk.injEq .. ▸ hbytes
  · intro hpath
    exact congrArg Text.bytes hpath

theorem exists_mem_overrideTable_iff (items : List Json) :
    (∃ entry, (entry, some e) ∈ c.overrideTable codec kind items ∧
        pathPrefix entry = some c.clean.bytes) ↔
      some c.clean.bytes ∉ items.map pathPrefix ∧
        ∃ entry, (c.overrideEntries codec kind).find?
          (fun entry => pathPrefix entry.1 = some c.clean.bytes) = some (entry, some e) := by
  have hkept := @filter_firstOfKey (Json × Option Numbered) _ _ (fun entry => pathPrefix entry.1)
    (items.map pathPrefix) (c.overrideEntries codec kind) (some c.clean.bytes)
  have hmem : ∀ entry, (entry, some e) ∈ c.overrideTable codec kind items ∧
      pathPrefix entry = some c.clean.bytes ↔
      (entry, some e) ∈ (firstOfKey (fun entry : Json × Option Numbered => pathPrefix entry.1)
        (items.map pathPrefix) (c.overrideEntries codec kind)).filter
          fun entry => pathPrefix entry.1 = some c.clean.bytes := by
    rw [overrideTable, foldl_pushNew]
    simp [Function.comp_def]
  simp only [hmem, hkept]
  by_cases htaken : some c.clean.bytes ∈ items.map pathPrefix
  · simp [htaken]
  · simp only [htaken, if_false, not_false_eq_true, true_and, Option.mem_toList]

theorem kept_iff :
    c.Kept codec kind e ↔ c.Takes codec kind ∧ e ∈ c.contenders ∧
      e.1.route.overrides codec c.shmSlots kind ≠ [] ∧
      ∀ other ∈ c.contenders, other.1.route.overrides codec c.shmSlots kind ≠ [] →
        other ≠ e → Before e other := by
  have hfirst := exists_find?_flatMap
    (g := fun e : Numbered => e.1.route.overrides codec c.shmSlots kind)
    (p := fun entry => pathPrefix entry.1 = some c.clean.bytes)
    (q := fun e => cleanPath e.1.path = c.clean)
    (fun e entry h => decide_eq_decide.mpr (c.path_eq_iff codec h)) c.sorted e
  have hhead := head?_eq_some_iff (a := e) (c.sorted_pairwise.filter fun e =>
    decide (cleanPath e.1.path = c.clean) &&
      !(e.1.route.overrides codec c.shmSlots kind).isEmpty) Before.asymm
  rw [List.head?_filter] at hhead
  rw [hhead] at hfirst
  have hentry : (∃ entry, (c.overrideEntries codec kind).find?
      (fun entry => pathPrefix entry.1 = some c.clean.bytes) = some (entry, some e)) ↔
      e ∈ c.contenders ∧ e.1.route.overrides codec c.shmSlots kind ≠ [] ∧
      ∀ other ∈ c.contenders, other.1.route.overrides codec c.shmSlots kind ≠ [] →
        other ≠ e → Before e other := by
    refine hfirst.trans ?_
    simp [mem_sorted, mem_contenders, and_assoc]
  unfold Kept Takes
  simp only [exists_mem_overrideTable_iff, hentry]
  constructor
  · rintro ⟨items, hitems, hfree, hrest⟩
    exact ⟨⟨items, hitems, hfree⟩, hrest⟩
  · rintro ⟨⟨items, hitems, hfree⟩, hrest⟩
    exact ⟨items, hitems, hfree, hrest⟩

def Yields (e other : Numbered) : Prop :=
  other.1.priority < e.1.priority ∨
    other.1.priority = e.1.priority ∧ other.2 < e.2 ∧ other.1.path.trim ≠ c.path

theorem mem_contenders_of_trim (he : e ∈ c.numbered)
    (hpath : e.1.path.trim = c.path) : e ∈ c.contenders := by
  refine c.mem_contenders.mpr ⟨he, ?_⟩
  rw [cleanPath, hpath, clean]

theorem exists_rendered (hhost : hostOf ⟨c.host, c.locations⟩ ≠ []) : ∃ e, c.Rendered e := by
  have hfst : c.numbered.map Prod.fst = c.locations := List.zipIdx_map_fst 0 c.locations
  have hlength : (c.numbered.filter fun e => e.1.path.trim = c.path).length =
      (c.locations.filter fun loc => loc.path.trim = c.path).length := by
    rw [← hfst, List.filter_map, List.length_map]
    rfl
  have hsome : ∃ first rest, (c.numbered.filter fun e => e.1.path.trim = c.path) =
      first :: rest := by
    have := c.several
    exact List.exists_cons_of_length_pos (by omega)
  obtain ⟨first, rest, hsplit⟩ := hsome
  have hpair := c.numbered_pairwise.filter fun e => decide (e.1.path.trim = c.path)
  rw [hsplit] at hpair
  obtain ⟨best, -, hbest⟩ := @leads_foldl_better _ _ _ (fun e : Numbered => e.1.priority)
    (fun a b => a.2 < b.2) (fun _ _ h => Nat.lt_asymm h) rest first hpair
  exact ⟨best, c.rendered_iff.mpr ⟨hhost, hsplit ▸ hbest⟩⟩

theorem exists_decidesMask (he : e ∈ c.contenders) : ∃ e, c.DecidesMask e := by
  have hmem : e ∈ c.sorted.filter fun e => cleanPath e.1.path = c.clean := by
    simpa [mem_sorted, mem_contenders] using he
  have hlast := List.getLast?_eq_some_getLast (List.ne_nil_of_mem hmem)
  refine ⟨_, Eq.trans ?_ hlast⟩
  rw [ruleTable, find?_foldl_upsert, List.find?_nil, Option.or_none]

theorem exists_kept (htakes : c.Takes codec kind)
    (he : e ∈ c.contenders) (hoverrides : e.1.route.overrides codec c.shmSlots kind ≠ []) :
    ∃ e, c.Kept codec kind e := by
  have hpair := c.sorted_pairwise.filter fun e =>
    decide (cleanPath e.1.path = c.clean) &&
      !(e.1.route.overrides codec c.shmSlots kind).isEmpty
  have hmem : e ∈ c.sorted.filter fun e => decide (cleanPath e.1.path = c.clean) &&
      !(e.1.route.overrides codec c.shmSlots kind).isEmpty := by
    simpa [mem_sorted, mem_contenders, hoverrides] using he
  obtain ⟨first, rest, hsplit⟩ := List.exists_cons_of_ne_nil (List.ne_nil_of_mem hmem)
  have hfirst := (head?_eq_some_iff hpair Before.asymm).mp (by rw [hsplit]; rfl)
  refine ⟨first, (c.kept_iff codec).mpr ⟨htakes, ?_⟩⟩
  simpa [mem_sorted, mem_contenders, and_assoc] using hfirst

theorem OneWins.yields {codec : JsonCodec} (h : c.OneWins codec) {other : Numbered}
    (he : c.Rendered e) (hother : other ∈ c.contenders) (hne : other ≠ e) :
    c.Yields e other ∧
      ∀ kind, c.Takes codec kind → other.1.route.overrides codec c.shmSlots kind = [] := by
  obtain ⟨hmask, hkept⟩ := h e he
  have hbefore : Before other e := by
    obtain ⟨last, hlast⟩ := c.exists_decidesMask hother
    obtain rfl := hmask last hlast
    exact (c.decidesMask_iff.mp hlast).2 other hother hne
  constructor
  · rcases hbefore with hlt | ⟨heq, hlt⟩
    · exact .inl hlt
    refine .inr ⟨heq, hlt, fun hpath => ?_⟩
    -- The renderer takes the first of two locations with the same path and priority.
    have hgroup : other ∈ c.numbered.filter fun e => e.1.path.trim = c.path := by
      simpa using ⟨(c.mem_contenders.mp hother).1, hpath⟩
    rcases (c.rendered_iff.mp he).2.2 other hgroup hne with hpriority | ⟨-, hlater⟩
    · exact hpriority.ne heq
    · exact Nat.lt_asymm hlt hlater
  · intro kind htakes
    by_contra hoverrides
    obtain ⟨first, hfirst⟩ := c.exists_kept codec htakes hother hoverrides
    obtain rfl := hkept kind first hfirst
    have hafter := ((c.kept_iff codec).mp hfirst).2.2.2 other hother hoverrides hne
    exact Before.asymm _ _ hbefore hafter

/-- One location wins exactly if one location of the path goes before all others, and only
this location has overrides of the kinds that are taken. -/
theorem one_location_wins_iff :
    c.OneWins codec ↔ hostOf ⟨c.host, c.locations⟩ = [] ∨
      ∃ e ∈ c.numbered, e.1.path.trim = c.path ∧
        ∀ other ∈ c.contenders, other ≠ e → c.Yields e other ∧
          ∀ kind, c.Takes codec kind → other.1.route.overrides codec c.shmSlots kind = [] := by
  constructor
  · intro h
    by_cases hhost : hostOf ⟨c.host, c.locations⟩ = []
    · exact .inl hhost
    · obtain ⟨e, he⟩ := c.exists_rendered hhost
      obtain ⟨hmem, -⟩ := (c.rendered_iff.mp he).2
      obtain ⟨hnumbered, hpath⟩ := List.mem_filter.mp hmem
      exact .inr ⟨e, hnumbered, by simpa using hpath, fun other hother hne =>
        h.yields c he hother hne⟩
  · rintro (hhost | ⟨e, he, hpath, hothers⟩)
    · exact fun e he => absurd hhost he.1
    · intro rendered hrendered
      have hleads : Leads (fun e : Numbered => e.1.priority) (fun a b => a.2 < b.2)
          (c.numbered.filter fun e => e.1.path.trim = c.path) e := by
        refine ⟨by simpa using ⟨he, hpath⟩, fun other hother hne => .inl ?_⟩
        obtain ⟨hnumbered, htrim⟩ := List.mem_filter.mp hother
        have htrim : other.1.path.trim = c.path := by simpa using htrim
        rcases (hothers other (c.mem_contenders_of_trim hnumbered htrim) hne).1 with
          hlt | ⟨-, -, hother⟩
        · exact hlt
        · exact absurd htrim hother
      obtain rfl := (c.rendered_iff.mp hrendered).2.unique (fun _ _ h => Nat.lt_asymm h) hleads
      refine ⟨fun other hother => ?_, fun kind other hother => ?_⟩
      · by_contra hne
        obtain ⟨hcontender, hlast⟩ := c.decidesMask_iff.mp hother
        have hafter := hlast rendered (c.mem_contenders_of_trim he hpath) (Ne.symm hne)
        refine Before.asymm _ _ hafter ?_
        exact (hothers other hcontender hne).1.imp_right fun ⟨heq, hlt, _⟩ => ⟨heq, hlt⟩
      · by_contra hne
        obtain ⟨htakes, hcontender, hoverrides, -⟩ := (c.kept_iff codec).mp hother
        exact hoverrides ((hothers other hcontender hne).2 kind htakes)

end Overrides

end ContestedPath

/-! ## A tie -/

def tiedLocation (upstream : String) (pluginsJson : Option Text) : LocationRoutingSpec where
  path := .ofAscii "/api"
  upstream := .ofAscii upstream
  stripPath := false
  websocket := false
  priority := 0
  pluginsJson
  originTls := none

def tiedPath : ContestedPath where
  host := .ofAscii "example.com"
  locations :=
    [tiedLocation "first" none,
      tiedLocation "second" (some (.ofAscii "\x7b\"_profile\":\"passthrough\"\x7d"))]
  shmSlots := []
  path := .ofAscii "/api"
  several := by decide +kernel

theorem tie_splits_the_route :
    tiedPath.Rendered (tiedPath.locations[0], 0) ∧
      tiedPath.DecidesMask (tiedPath.locations[1], 1) ∧
      ∀ codec : JsonCodec, ¬tiedPath.OneWins codec := by
  have hrendered : tiedPath.Rendered (tiedPath.locations[0], 0) := by
    refine ⟨by decide +kernel, ?_⟩
    rfl
  have hmask : tiedPath.DecidesMask (tiedPath.locations[1], 1) := by
    rfl
  refine ⟨hrendered, hmask, fun codec h => ?_⟩
  have heq := (h _ hrendered).1 _ hmask
  exact absurd (congrArg Prod.snd heq) (by decide)

end AuroraGateway.ControlWorker
