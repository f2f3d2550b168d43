import AuroraGateway.Foundation.AsciiText
import AuroraGateway.Foundation.Runs

/-!
# Authentication providers

A provider is switched off only if two were on when the providers were counted.  Other calls
may write between the count and the write.
-/

namespace AuroraGateway.ControlPlane

open Foundation

structure AuthProvider where
  id : Text
  enabled : Bool
  configJson : Text

structure ProviderCall where
  id : Text
  enabled : Bool
  configJson : Text

def ProviderCall.config (call : ProviderCall) : Text :=
  if call.configJson.bytes.isEmpty then .ofAscii "\x7b\x7d" else call.configJson

def ProviderCall.write (call : ProviderCall) (row : AuthProvider) : AuthProvider :=
  if row.id = call.id then { row with enabled := call.enabled, configJson := call.config } else row

def getActiveProvidersCount (rows : List AuthProvider) : Nat := rows.countP AuthProvider.enabled

/-- A call that has passed its checks, with the rows as they were when it counted. -/
structure PendingCall extends ProviderCall where
  counted : List AuthProvider

structure ProviderState where
  rows : List AuthProvider
  pending : List PendingCall

inductive ProviderEvent where
  | count (call : ProviderCall)
  | write (index : Nat)

namespace ProviderState

variable (jsonValid : Text → Bool)

/-- A call that fails a check, or whose write finds no row, leaves the rows as they are. -/
def step (s : ProviderState) : ProviderEvent → Option ProviderState
  | .count call =>
    if !call.enabled && getActiveProvidersCount s.rows ≤ 1 then some s
    else if jsonValid call.config then some { s with pending := s.pending ++ [⟨call, s.rows⟩] }
    else some s
  | .write index => s.pending[index]?.map fun call =>
    ⟨s.rows.map call.write, s.pending.eraseIdx index⟩

def SomeOn (s : ProviderState) : Prop := ∃ row ∈ s.rows, row.enabled = true

/-- A provider that was on when the call counted has been switched off since. -/
def Overtaken (rows : List AuthProvider) (call : PendingCall) : Prop :=
  ∃ row ∈ call.counted, row.enabled = true ∧ ∀ now ∈ rows, now.id = row.id → now.enabled = false

def LeavesOne (s : ProviderState) : ProviderEvent → Prop
  | .count _ => True
  | .write index => ∀ call ∈ s.pending[index]?, call.enabled = false → Overtaken s.rows call →
    ∃ row ∈ s.rows, row.enabled = true ∧ row.id ≠ call.id

/-- Ids are primary keys, and a call that is to switch a provider off has counted two. -/
structure Inv (s : ProviderState) : Prop where
  ids : (s.rows.map AuthProvider.id).Nodup
  counted : ∀ call ∈ s.pending, (call.counted.map AuthProvider.id).Nodup ∧
    (call.enabled = false → 2 ≤ getActiveProvidersCount call.counted)

variable {jsonValid} {s t : ProviderState} {event : ProviderEvent}

theorem id_comp_write (call : ProviderCall) :
    AuthProvider.id ∘ call.write = AuthProvider.id := by
  funext row
  simp only [Function.comp, ProviderCall.write]
  split <;> rfl

theorem Inv.step (hs : s.Inv) (h : s.step jsonValid event = some t) : t.Inv := by
  cases event with
  | count call =>
    simp only [ProviderState.step] at h
    split at h
    · exact Option.some.inj h ▸ hs
    · rename_i hguard
      split at h
      · rw [← Option.some.inj h]
        refine ⟨hs.ids, fun pending hpending => ?_⟩
        rcases List.mem_append.mp hpending with hold | hnew
        · exact hs.counted pending hold
        · rw [List.mem_singleton.mp hnew]
          refine ⟨hs.ids, fun henabled => ?_⟩
          simp [show call.enabled = false from henabled] at hguard
          exact hguard
      · exact Option.some.inj h ▸ hs
  | write index =>
    obtain ⟨call, -, rfl⟩ := Option.map_eq_some_iff.mp h
    refine ⟨?_, fun pending hpending => hs.counted pending (List.mem_of_mem_eraseIdx hpending)⟩
    rw [List.map_map, id_comp_write]
    exact hs.ids

/-- Of two providers that are on, one is not the provider of the call. -/
theorem exists_other_on {rows : List AuthProvider} (hids : (rows.map AuthProvider.id).Nodup)
    (hcount : 2 ≤ getActiveProvidersCount rows) (id : Text) :
    ∃ row ∈ rows, row.enabled = true ∧ row.id ≠ id := by
  by_contra hnone
  push Not at hnone
  have hsame : ((rows.filter AuthProvider.enabled).map AuthProvider.id) =
      List.replicate (getActiveProvidersCount rows) id := by
    refine List.eq_replicate_iff.mpr ⟨?_, fun other hother => ?_⟩
    · rw [List.length_map, getActiveProvidersCount, List.countP_eq_length_filter]
    · obtain ⟨row, hrow, rfl⟩ := List.mem_map.mp hother
      exact hnone row (List.mem_of_mem_filter hrow) (List.of_mem_filter hrow)
  have hnodup := hids.sublist ((rows.filter_sublist (p := AuthProvider.enabled)).map _)
  rw [hsame, List.nodup_replicate] at hnodup
  omega

/-- After a call that switches a provider off, one is on exactly if another one was. -/
theorem exists_on_write_iff {rows : List AuthProvider} {call : ProviderCall}
    (hoff : call.enabled = false) : (∃ row ∈ rows.map call.write, row.enabled = true) ↔
      ∃ row ∈ rows, row.enabled = true ∧ row.id ≠ call.id := by
  constructor
  · rintro ⟨_, hwritten, hon⟩
    obtain ⟨row, hrow, rfl⟩ := List.mem_map.mp hwritten
    by_cases hid : row.id = call.id
    · rw [ProviderCall.write, if_pos hid, hoff] at hon
      cases hon
    · rw [ProviderCall.write, if_neg hid] at hon
      exact ⟨row, hrow, hon, hid⟩
  · rintro ⟨row, hrow, hon, hid⟩
    refine ⟨row, List.mem_map.mpr ⟨row, hrow, ?_⟩, hon⟩
    rw [ProviderCall.write, if_neg hid]

theorem leavesOne_iff (hs : s.Inv) (hon : s.SomeOn) (h : s.step jsonValid event = some t) :
    s.LeavesOne event ↔ t.SomeOn := by
  cases event with
  | count call =>
    have hrows : t.rows = s.rows := by
      simp only [step] at h
      split at h
      · rw [← Option.some.inj h]
      · split at h <;> rw [← Option.some.inj h]
    simpa only [LeavesOne, SomeOn, hrows, true_iff] using hon
  | write index =>
    obtain ⟨call, hcall, rfl⟩ := Option.map_eq_some_iff.mp h
    have hcounted := hs.counted call (List.mem_of_getElem? hcall)
    simp only [LeavesOne, SomeOn, hcall, Option.mem_some, forall_eq']
    cases henabled : call.enabled with
    | true =>
      obtain ⟨row, hrow, hrowOn⟩ := hon
      refine iff_of_true nofun ⟨call.write row, List.mem_map_of_mem hrow, ?_⟩
      unfold ProviderCall.write
      split
      · exact henabled
      · exact hrowOn
    | false =>
      rw [exists_on_write_iff henabled]
      refine ⟨fun hleaves => ?_, fun hother _ _ => hother⟩
      by_cases hovertaken : Overtaken s.rows call
      · exact hleaves rfl hovertaken
      · -- The providers that were counted are still on.
        obtain ⟨row, hrow, hrowOn, hid⟩ :=
          exists_other_on hcounted.1 (hcounted.2 henabled) call.id
        unfold Overtaken at hovertaken
        push Not at hovertaken
        obtain ⟨now, hnow, hsame, hnowOn⟩ := hovertaken row hrow hrowOn
        exact ⟨now, hnow, by simpa using hnowOn, hsame ▸ hid⟩

end ProviderState

structure ProviderRun where
  jsonValid : Text → Bool
  rows : List AuthProvider
  distinct : (rows.map AuthProvider.id).Nodup
  someOn : ∃ row ∈ rows, row.enabled = true
  events : List ProviderEvent
  last : ProviderState
  runs : execute (ProviderState.step jsonValid) ⟨rows, []⟩ events = some last

/-- Some provider is on in all states of a run exactly if no call switches the last one off
after a provider that it had counted has been switched off. -/
theorem ProviderRun.stays_enabled_iff (r : ProviderRun) :
    (∀ before s, before <+: r.events →
      execute (ProviderState.step r.jsonValid) ⟨r.rows, []⟩ before = some s → s.SomeOn) ↔
    RunsUnder (ProviderState.step r.jsonValid) ProviderState.LeavesOne ⟨r.rows, []⟩ r.events
      r.last := by
  have hon : ProviderState.SomeOn ⟨r.rows, []⟩ := r.someOn
  have hinv : ProviderState.Inv ⟨r.rows, []⟩ := ⟨r.distinct, by simp⟩
  exact (RunsUnder.iff_forall_states ProviderState.Inv.step ProviderState.leavesOne_iff hinv hon
    r.runs).symm

def localProvider : AuthProvider := ⟨.ofAscii "local", true, .ofAscii "\x7b\x7d"⟩

def ldapProvider : AuthProvider := ⟨.ofAscii "ldap", true, .ofAscii "\x7b\x7d"⟩

/-- Two calls count two providers, and each then switches one of them off. -/
def bothCounted : ProviderRun where
  jsonValid := fun _ => true
  rows := [localProvider, ldapProvider]
  distinct := by decide +kernel
  someOn := ⟨localProvider, List.mem_cons_self, rfl⟩
  events := [.count ⟨localProvider.id, false, .ofAscii ""⟩,
    .count ⟨ldapProvider.id, false, .ofAscii ""⟩, .write 0, .write 0]
  last := _
  runs := rfl

theorem both_switched_off :
    execute (ProviderState.step bothCounted.jsonValid) ⟨bothCounted.rows, []⟩
        bothCounted.events = some bothCounted.last ∧
      ¬bothCounted.last.SomeOn := by
  refine ⟨bothCounted.runs, ?_⟩
  have hoff : ∀ row ∈ bothCounted.last.rows, row.enabled = false := by decide +kernel
  rintro ⟨row, hrow, hon⟩
  rw [hoff row hrow] at hon
  cases hon

end AuroraGateway.ControlPlane
