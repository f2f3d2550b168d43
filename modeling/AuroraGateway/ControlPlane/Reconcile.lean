import AuroraGateway.ControlPlane.AuthorityData
import AuroraGateway.Foundation.KeyedLists

/-!
# Publication of the cluster configuration

A release is a document with its digest.  Releases are never changed; the head
says which of them is active.
-/

namespace AuroraGateway.ControlPlane

open ControlWorker Foundation

structure ClusterSpecRelease where
  id : Nat
  digest : Bytes
  specJson : Bytes
  deriving DecidableEq

/-- The releases and the head; the database never gives out an id again. -/
structure ReleaseTable where
  releases : List ClusterSpecRelease
  head : Option Nat
  nextId : Nat
  fresh : ∀ release ∈ releases, release.id < nextId
  ids : (releases.map ClusterSpecRelease.id).Nodup

namespace ReleaseTable

def empty : ReleaseTable := ⟨[], none, 1, by simp, by simp⟩

variable (table : ReleaseTable) (digest specJson : Bytes)

def getActiveSpecRelease : Option ClusterSpecRelease :=
  table.head.bind fun id => table.releases.find? fun release => release.id = id

def insert : ReleaseTable where
  releases := table.releases ++ [⟨table.nextId, digest, specJson⟩]
  head := some table.nextId
  nextId := table.nextId + 1
  fresh := by
    intro release hrelease
    rcases List.mem_append.mp hrelease with h | h
    · exact Nat.lt_succ_of_lt (table.fresh release h)
    · simp [List.mem_singleton.mp h]
  ids := by
    rw [List.map_append, List.nodup_append]
    refine ⟨table.ids, by simp, ?_⟩
    intro id hid id' hid'
    obtain ⟨release, hrelease, rfl⟩ := List.mem_map.mp hid
    simp only [List.map_cons, List.map_nil, List.mem_singleton] at hid'
    rw [hid']
    exact Nat.ne_of_lt (table.fresh release hrelease)

/-- A release with the same digest is made active again. -/
def publishSpecRelease : ReleaseTable :=
  match table.releases.find? fun release => release.digest = digest with
  | some release => { table with head := some release.id }
  | none => table.insert digest specJson

theorem digest_publishSpecRelease :
    (table.publishSpecRelease digest specJson).getActiveSpecRelease.map
      ClusterSpecRelease.digest = some digest := by
  unfold publishSpecRelease
  split
  · rename_i release hfind
    have hactive : ({ table with head := some release.id } :
        ReleaseTable).getActiveSpecRelease = some release :=
      find?_key_of_mem table.ids (List.mem_of_find?_eq_some hfind)
    have hdigest : release.digest = digest := by simpa using List.find?_some hfind
    rw [hactive, Option.map_some, hdigest]
  · have hactive : (table.insert digest specJson).getActiveSpecRelease =
        some ⟨table.nextId, digest, specJson⟩ :=
      find?_key_of_mem (table.insert digest specJson).ids
        (List.mem_append_right _ (List.mem_singleton.mpr rfl))
    rw [hactive, Option.map_some]

def published (documents : List (Bytes × Bytes)) : ReleaseTable :=
  documents.foldl (fun table document => table.publishSpecRelease document.1 document.2) empty

/-- The first document of every digest is kept, and the last one that was published is active. -/
theorem first_of_digest_kept (documents : List (Bytes × Bytes)) :
    (published documents).releases.map (fun release => (release.digest, release.specJson)) =
        documents.foldl (pushNew Prod.fst) [] ∧
      (published documents).getActiveSpecRelease.map ClusterSpecRelease.digest =
        documents.getLast?.map Prod.fst := by
  induction documents using List.reverseRecOn with
  | nil => exact ⟨rfl, rfl⟩
  | append_singleton documents document ih =>
    rw [published, List.foldl_concat, ← published, List.foldl_concat, ← ih.1,
      digest_publishSpecRelease, List.getLast?_concat]
    refine ⟨?_, rfl⟩
    unfold publishSpecRelease pushNew
    cases hfind : (published documents).releases.find? fun release =>
        release.digest = document.1 with
    | none =>
      have hnew := List.find?_eq_none.mp hfind
      rw [if_neg (by simpa using hnew)]
      exact List.map_append
    | some release =>
      have hsame := List.find?_some hfind
      rw [if_pos]
      rw [List.any_map]
      exact List.any_eq_true.mpr ⟨release, List.mem_of_find?_eq_some hfind, hsame⟩

end ReleaseTable

structure SpecScheduler where
  repo : SpecSyncRepository
  compiler : Compiler

end AuroraGateway.ControlPlane
