import AuroraGateway.Redis.Store

/-!
# Scripts that keep to their keys

A script is local to some keys of the server if it changes no other key and its
reply depends on these keys only.  What scripts with other keys do then makes no
difference to it.
-/

namespace AuroraGateway.Redis

open Foundation

variable {F : Type}

/-! ## Commands -/

section Commands

variable {store : Store F} {key key' : Bytes}

theorem Store.get?_write_of_ne (value : StoreValue F) (hne : key' ≠ key) :
    (store.write key value).get? key' = store.get? key' :=
  HashTable.get?_insert_of_ne _ _ hne

theorem Store.get?_expire_of_ne (secs : Int) (hne : key' ≠ key) :
    (store.expire key secs).get? key' = store.get? key' := by
  unfold Store.expire
  split
  · exact HashTable.get?_insert_of_ne _ _ hne
  · rfl

theorem Store.get?_incr_of_ne {next : Store F} {count : Int}
    (h : store.incr key = some (next, count)) (hne : key' ≠ key) :
    next.get? key' = store.get? key' := by
  unfold Store.incr at h
  split at h
  · obtain ⟨rfl, -⟩ := Prod.mk.inj (Option.some.inj h)
    exact Store.get?_write_of_ne _ hne
  · split at h
    · obtain ⟨rfl, -⟩ := Prod.mk.inj (Option.some.inj h)
      exact Store.get?_write_of_ne _ hne
    · cases h
  · cases h

theorem Store.get?_decr_of_ne {next : Store F} {count : Int}
    (h : store.decr key = some (next, count)) (hne : key' ≠ key) :
    next.get? key' = store.get? key' := by
  unfold Store.decr at h
  split at h
  · obtain ⟨rfl, -⟩ := Prod.mk.inj (Option.some.inj h)
    exact Store.get?_write_of_ne _ hne
  · split at h
    · obtain ⟨rfl, -⟩ := Prod.mk.inj (Option.some.inj h)
      exact Store.get?_write_of_ne _ hne
    · cases h
  · cases h

variable {store' : Store F}

theorem Store.value?_congr (h : store.get? key = store'.get? key) :
    store.value? key = store'.value? key := by
  rw [Store.value?, h, Store.value?]

theorem Store.incr_congr (h : store.get? key = store'.get? key) :
    (store.incr key).map Prod.snd = (store'.incr key).map Prod.snd := by
  unfold Store.incr
  rw [Store.value?_congr h]
  split
  · rfl
  · split <;> rfl
  · rfl

end Commands

/-! ## Locality -/

structure LocalTo {α : Type} (keys : Bytes → Prop) (script : Store F → Store F × α) : Prop where
  frame : ∀ store key, ¬keys key → (script store).1.get? key = store.get? key
  reply : ∀ store store', (∀ key, keys key → store.get? key = store'.get? key) →
    (script store).2 = (script store').2

namespace LocalTo

variable {α β : Type} {keys others : Bytes → Prop} {script : Store F → Store F × α}

theorem map (h : LocalTo keys script) (f : α → β) :
    LocalTo keys fun store => ((script store).1, f (script store).2) where
  frame := h.frame
  reply := fun store store' hagree => congrArg f (h.reply store store' hagree)

theorem invoke {script : Store F → Store F × Option α} (h : LocalTo keys script)
    (fate : CallFate) : LocalTo keys fun store => fate.invoke store script := by
  cases fate with
  | answered => exact h
  | lostRequest => exact ⟨fun _ _ _ => rfl, fun _ _ _ => rfl⟩
  | lostReply => exact ⟨h.frame, fun _ _ _ => rfl⟩

variable {scripts : List (Store F → Store F × β)}

theorem foldl_frame (h : ∀ script ∈ scripts, LocalTo others script) (store : Store F) {key : Bytes}
    (hkey : ¬others key) :
    (scripts.foldl (fun store script => (script store).1) store).get? key = store.get? key := by
  induction scripts generalizing store with
  | nil => rfl
  | cons script scripts ih =>
    obtain ⟨hhead, htail⟩ := List.forall_mem_cons.mp h
    rw [List.foldl_cons, ih htail, hhead.frame store key hkey]

theorem undisturbed (h : LocalTo keys script) (hothers : ∀ other ∈ scripts, LocalTo others other)
    (hdisjoint : ∀ key, keys key → ¬others key) (store : Store F) :
    (script (scripts.foldl (fun store other => (other store).1) store)).2 = (script store).2 :=
  h.reply _ _ fun key hkey => foldl_frame hothers store (hdisjoint key hkey)

end LocalTo

end AuroraGateway.Redis
