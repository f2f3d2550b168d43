import AuroraGateway.Foundation.AsciiText
import AuroraGateway.Foundation.Runs

/-!
# Switching an L4 service on and off

The handler of the switch reads the row of the service and writes all of its columns back.
An update may be written in between.
-/

namespace AuroraGateway.ControlPlane

open Foundation

structure L4Columns where
  name : Text
  protocol : Text
  listenPort : Int
  forwardTargetType : Text
  upstreamName : Text
  directEndpoint : Text
  aclRulesJson : Text
  proxyTimeout : Text
  proxyConnectTimeout : Text
  description : Text
  deriving DecidableEq

structure L4ServiceItem where
  columns : L4Columns
  enabled : Bool
  updatedAt : Text
  deriving DecidableEq

def unlessEmpty (text default : Text) : Text :=
  if text.bytes.isEmpty then default else text

def L4Columns.filled (c : L4Columns) : L4Columns :=
  { c with
    aclRulesJson := unlessEmpty c.aclRulesJson (.ofAscii "[]")
    proxyTimeout := unlessEmpty c.proxyTimeout (.ofAscii "1h")
    proxyConnectTimeout := unlessEmpty c.proxyConnectTimeout (.ofAscii "5s") }

inductive ServiceOperation where
  | update (columns : L4Columns) (enabled : Bool) (now : Text)
  | toggle (enabled : Bool) (now : Text)

def ServiceOperation.apply (row : L4ServiceItem) : ServiceOperation → L4ServiceItem
  | .update columns enabled now => ⟨columns.filled, enabled, now⟩
  | .toggle enabled now => { row with enabled, updatedAt := now }

structure ToggleState where
  row : L4ServiceItem
  toggles : List (L4Columns × Bool)
  written : List ServiceOperation

inductive ToggleEvent where
  | update (columns : L4Columns) (enabled : Bool) (now : Text)
  | read (enabled : Bool)
  | write (index : Nat) (now : Text)

namespace ToggleState

def step (s : ToggleState) : ToggleEvent → Option ToggleState
  | .update columns enabled now =>
    some { s with
      row := ⟨columns.filled, enabled, now⟩
      written := s.written ++ [.update columns enabled now] }
  | .read enabled => some { s with toggles := s.toggles ++ [(s.row.columns, enabled)] }
  | .write index now => s.toggles[index]?.map fun (columns, enabled) =>
    ⟨⟨columns.filled, enabled, now⟩, s.toggles.eraseIdx index,
      s.written ++ [.toggle enabled now]⟩

def KeepsColumns (s : ToggleState) (event : ToggleEvent) : Prop :=
  ∀ index now t, event = .write index now → s.step event = some t →
    t.row.columns = s.row.columns

def Unchanged (s : ToggleState) : ToggleEvent → Prop
  | .write index _ => ∀ columns enabled, s.toggles[index]? = some (columns, enabled) →
    columns.filled = s.row.columns
  | _ => True

variable {s t : ToggleState} {event : ToggleEvent}

theorem keepsColumns_iff : s.KeepsColumns event ↔ s.Unchanged event := by
  cases event with
  | update columns enabled now => exact ⟨fun _ => trivial, nofun⟩
  | read enabled => exact ⟨fun _ => trivial, nofun⟩
  | write index now =>
    constructor
    · intro h columns enabled hread
      have hstep : s.step (.write index now) = some ⟨⟨columns.filled, enabled, now⟩,
          s.toggles.eraseIdx index, s.written ++ [.toggle enabled now]⟩ := by
        rw [step, hread, Option.map_some]
      exact h index now _ rfl hstep
    · rintro h _ _ t ⟨⟩ hstep
      obtain ⟨⟨columns, enabled⟩, hread, rfl⟩ := Option.map_eq_some_iff.mp hstep
      exact h columns enabled hread

theorem row_step {first : L4ServiceItem}
    (hrow : s.row = s.written.foldl ServiceOperation.apply first) (hok : s.Unchanged event)
    (hstep : s.step event = some t) :
    t.row = t.written.foldl ServiceOperation.apply first := by
  cases event with
  | update columns enabled now =>
    obtain rfl := Option.some.inj hstep
    rw [List.foldl_concat]
    rfl
  | read enabled =>
    obtain rfl := Option.some.inj hstep
    exact hrow
  | write index now =>
    obtain ⟨⟨columns, enabled⟩, hread, rfl⟩ := Option.map_eq_some_iff.mp hstep
    rw [List.foldl_concat, ← hrow, ServiceOperation.apply, ← hok columns enabled hread]

end ToggleState

structure ToggleRun where
  row : L4ServiceItem
  events : List ToggleEvent
  last : ToggleState
  runs : execute ToggleState.step ⟨row, [], []⟩ events = some last

/-- The operations are as good as done one after another, and no toggle undoes an update, exactly
if every toggle writes while the row has the columns that it has read. -/
theorem ToggleRun.serial_iff (r : ToggleRun) :
    (∃ order : List ServiceOperation, order.Perm r.last.written ∧
        r.last.row = order.foldl ServiceOperation.apply r.row) ∧
      RunsUnder ToggleState.step ToggleState.KeepsColumns ⟨r.row, [], []⟩ r.events r.last ↔
    RunsUnder ToggleState.step ToggleState.Unchanged ⟨r.row, [], []⟩ r.events r.last := by
  have hsame : ToggleState.KeepsColumns = ToggleState.Unchanged := by
    funext s event
    exact propext ToggleState.keepsColumns_iff
  rw [hsame, and_iff_right_iff_imp]
  intro hruns
  have hrow : r.last.row = r.last.written.foldl ServiceOperation.apply r.row :=
    @RunsUnder.invariant _ _ _ _ _ _ _
      (fun s => s.row = s.written.foldl ServiceOperation.apply r.row)
      (fun hrow hok hstep => ToggleState.row_step hrow hok hstep) hruns rfl
  exact ⟨_, .refl _, hrow⟩

def databaseService : L4ServiceItem where
  columns := ⟨.ofAscii "database", .ofAscii "tcp", 5432, .ofAscii "upstream", .ofAscii "database",
    .ofAscii "", .ofAscii "[]", .ofAscii "1h", .ofAscii "5s", .ofAscii ""⟩
  enabled := true
  updatedAt := .ofAscii "t0"

def closedColumns : L4Columns :=
  { databaseService.columns with
    aclRulesJson := .ofAscii "[\x7b\"action\":\"deny\",\"cidr\":\"10.0.0.0/8\"\x7d]" }

def reopened : ToggleRun where
  row := databaseService
  events := [.read true, .update closedColumns true (.ofAscii "t1"), .write 0 (.ofAscii "t2")]
  last := _
  runs := rfl

/-- An update closes the service to a network; a toggle that has read before opens it again,
which neither order of the two does. -/
theorem closed_service_reopened :
    let update := ServiceOperation.update closedColumns true (.ofAscii "t1")
    let toggle := ServiceOperation.toggle true (.ofAscii "t2")
    execute ToggleState.step ⟨reopened.row, [], []⟩ reopened.events = some reopened.last ∧
    reopened.last.row.columns = databaseService.columns ∧
    ([update, toggle].foldl ServiceOperation.apply databaseService).columns = closedColumns ∧
    ([toggle, update].foldl ServiceOperation.apply databaseService).columns = closedColumns := by
  refine ⟨reopened.runs, ?_⟩
  decide +kernel

end AuroraGateway.ControlPlane
