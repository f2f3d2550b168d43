import AuroraGateway.Foundation.AsciiText
import AuroraGateway.Foundation.Runs
import AuroraGateway.Jwt.Cache

/-!
# Synchronisation of revocations

Redis holds the set of revoked items and a version that every publication
increments.  A worker applies the messages it gets and, when its version is
behind, the pages of a scan of the set; its version is then the one it has heard
of or scanned for, whether or not everything up to it has arrived.
-/

namespace AuroraGateway.Jwt

open Foundation

/-! ## Items -/

inductive RevocationTarget where
  | jti (jti : Bytes)
  | hash (tokenHash : Nat)
  | token (token : Bytes)
  deriving DecidableEq

/-- What an item revokes; until epoch 0 if the item does not say. -/
structure Revocation where
  target : RevocationTarget
  untilEpoch : Nat
  deriving DecidableEq

def Revocation.expired (revocation : Revocation) (now : Nat) : Bool :=
  decide (0 < revocation.untilEpoch) && decide (revocation.untilEpoch ≤ now)

def splitVersion (trimmed : Bytes) : Bytes × Option Nat :=
  match (rsplitOnce 35 trimmed).or (rsplitOnce 64 trimmed) with
  | none => (trimmed, none)
  | some (before, suffix) =>
    match parseU64 suffix with
    | none => (trimmed, none)
    | some version => (trim before, some version)

def splitExpiry (trimmed : Bytes) : Bytes × Nat :=
  match rsplitOnce 58 trimmed with
  | none => (trimmed, 0)
  | some (before, suffix) =>
    match parseU64 suffix with
    | none => (trimmed, 0)
    | some epoch => if before.isEmpty then (trimmed, 0) else (before, epoch)

def readTarget (target : Bytes) : RevocationTarget :=
  match stripPrefix? (ascii "jti:") target with
  | some jti => .jti jti
  | none =>
    match parseU64 target with
    | some tokenHash => .hash tokenHash
    | none => .token target

def readRevocation (trimmed : Bytes) : Option Revocation :=
  if trimmed.isEmpty then none
  else
    let (target, untilEpoch) := splitExpiry trimmed
    some ⟨readTarget target, untilEpoch⟩

def readItem (item : Bytes) : Option Revocation × Option Nat :=
  if (trim item).isEmpty then (none, none)
  else
    let (rest, version) := splitVersion (trim item)
    (readRevocation rest, version)

section Apply

variable {H : Type} [DecidableEq H]

structure SyncHashing (H : Type) extends Hashing H where
  ofU64 : Nat → H

def Revocation.apply (hashing : SyncHashing H) (order : RowOrder H) (revocation : Revocation)
    (now : Nat) (cache : JwtCache H) : JwtCache H :=
  match revocation.target with
  | .jti jti => cache.revokeJti hashing.toHashing order jti revocation.untilEpoch now
  | .hash tokenHash =>
    cache.revokeToken hashing.toHashing order (hashing.ofU64 tokenHash) revocation.untilEpoch now
  | .token token =>
    cache.revokeToken hashing.toHashing order (hashing.hashToken token) revocation.untilEpoch now

def applyRevocationItem (hashing : SyncHashing H) (order : RowOrder H) (cache : JwtCache H)
    (item : Bytes) (now : Nat) : JwtCache H × Option Nat :=
  let (revocation, version) := readItem item
  (revocation.elim cache fun revocation => revocation.apply hashing order now cache, version)

end Apply

/-! ## Publications -/

structure Publication where
  item : Text
  version : Nat
  deriving DecidableEq

namespace Publication

def revocation (publication : Publication) : Option Revocation :=
  readRevocation (trim publication.item.bytes)

/-- The message `item#version`. -/
def payload (publication : Publication) : Bytes :=
  publication.item.bytes ++ 35 :: decimal publication.version

end Publication

theorem trim_append_decimal {sep : UInt8} (hsep : ∀ seq ∈ whiteSpace, sep ∉ seq) (text : Bytes)
    (n : Nat) : trim (text ++ sep :: decimal n) = trimStart text ++ sep :: decimal n := by
  have hlast : ∃ digits last, decimal n = digits ++ [last] :=
    ⟨_, _, (List.dropLast_append_getLast (decimal_ne_nil _)).symm⟩
  obtain ⟨digits, last, hdecimal⟩ := hlast
  have hdigit : isAsciiDigit last = true := by
    refine @isAsciiDigit_of_mem_decimal n last ?_
    rw [hdecimal]
    exact List.mem_append_right _ List.mem_cons_self
  rw [trim, trimStart_append hsep, hdecimal, ← List.cons_append, ← List.append_assoc]
  refine trimEnd_concat (fun seq hseq heq => ?_) _
  have hwhite : ∀ seq ∈ whiteSpace, seq.getLast?.all (fun byte => !isAsciiDigit byte) = true := by
    decide
  have hnot := hwhite seq hseq
  rw [heq] at hnot
  simp [hdigit] at hnot

theorem not_mem_decimal {byte : UInt8} (h : isAsciiDigit byte = false) (n : Nat) :
    byte ∉ decimal n := by
  intro hmem
  rw [isAsciiDigit_of_mem_decimal hmem] at h
  cases h

theorem readItem_append_version (text : Bytes) {version : Nat} (h : version < 2 ^ 64) :
    readItem (text ++ 35 :: decimal version) = (readRevocation (trim text), some version) := by
  have hsplit : splitVersion (trim (text ++ 35 :: decimal version)) =
      (trim text, some version) := by
    rw [trim_append_decimal (by decide), splitVersion,
      rsplitOnce_append _ (not_mem_decimal (by decide) _), Option.some_or]
    dsimp only
    rw [parseU64_decimal h]
    dsimp only
    rw [trim_trimStart]
  have hne : (trim (text ++ 35 :: decimal version)).isEmpty = false := by
    rw [trim_append_decimal (by decide)]
    simp
  rw [readItem, hne, hsplit]
  rfl

theorem readItem_payload {publication : Publication} (h : publication.version < 2 ^ 64) :
    readItem publication.payload = (publication.revocation, some publication.version) :=
  readItem_append_version _ h

/-! ## The system -/

/-- The worker waits, or it scans for a version and is owed the items that were in the set when
the scan began and still are. -/
inductive SyncPhase where
  | idle
  | scanning (remoteVersion : Nat) (owed : List Text)
  deriving DecidableEq

structure SyncState (H : Type) where
  now : Nat
  version : Nat
  members : List Text
  published : List Publication
  localVersion : Option Nat
  phase : SyncPhase
  cache : JwtCache H
  applied : List Revocation

inductive SyncAction where
  | tick (seconds : Nat)
  | publish (item : Text)
  /-- An expired item leaves the set. -/
  | discard (item : Text)
  /-- A message arrives; lost messages do not, and others may arrive again and late. -/
  | deliver (message : Publication)
  | reconcile (connected answered : Bool)
  | page (batch : List Text) (last : Bool)
  | pageFails
  deriving DecidableEq

/-- `INCR` refuses to exceed a signed integer of 64 bits. -/
def maxRevocationVersion : Nat := 2 ^ 63 - 1

namespace SyncState

variable {H : Type}

def start (now : Nat) (cache : JwtCache H) : SyncState H where
  now
  version := 0
  members := []
  published := []
  localVersion := none
  phase := .idle
  cache
  applied := []

def publish (item : Text) (s : SyncState H) : SyncState H :=
  { s with
    version := s.version + 1
    members := item :: s.members
    published := ⟨item, s.version + 1⟩ :: s.published }

def discard (item : Text) (s : SyncState H) : SyncState H :=
  { s with
    members := s.members.filter (· ≠ item)
    phase :=
      match s.phase with
      | .idle => .idle
      | .scanning remoteVersion owed => .scanning remoteVersion (owed.filter (· ≠ item)) }

/-- The version that the worker reads; a failed request counts as version 0. -/
def remoteVersion (answered : Bool) (s : SyncState H) : Nat := if answered then s.version else 0

theorem remoteVersion_le (answered : Bool) (s : SyncState H) :
    s.remoteVersion answered ≤ s.version := by
  cases answered
  · exact Nat.zero_le _
  · exact le_rfl

def reconcile (connected answered : Bool) (s : SyncState H) : SyncState H :=
  if !connected || s.localVersion.any (s.remoteVersion answered ≤ ·) then s
  else { s with phase := .scanning (s.remoteVersion answered) s.members }

def finish (remoteVersion : Nat) (s : SyncState H) : SyncState H :=
  { s with localVersion := some remoteVersion, phase := .idle }

/-! ## Invariants -/

def Live (s : SyncState H) (publication : Publication) (r : Revocation) : Prop :=
  publication ∈ s.published ∧ publication.revocation = some r ∧ r.expired s.now = false

/-- Versions are counted from 1 on, one for each publication. -/
structure Numbered (version : Nat) (published : List Publication) : Prop where
  bounded : version ≤ maxRevocationVersion
  versions : ∀ p ∈ published, 1 ≤ p.version ∧ p.version ≤ version
  unique : ∀ p ∈ published, ∀ q ∈ published, p.version = q.version → p = q

variable {published : List Publication} {message : Publication}

theorem Numbered.version_lt {version : Nat} (h : Numbered version published) {p : Publication}
    (hp : p ∈ published) :
    p.version < 2 ^ 64 := by
  have hbounded := h.bounded
  have hversion := (h.versions p hp).2
  unfold maxRevocationVersion at hbounded
  omega

theorem Numbered.publish {version : Nat} (h : Numbered version published)
    (hversion : version < maxRevocationVersion) (item : Text) :
    Numbered (version + 1) (⟨item, version + 1⟩ :: published) where
  bounded := hversion
  versions := by
    intro p hp
    rcases List.mem_cons.mp hp with rfl | hp
    · exact ⟨Nat.le_add_left 1 _, le_rfl⟩
    · exact ⟨(h.versions p hp).1, (h.versions p hp).2.trans (Nat.le_succ _)⟩
  unique := by
    have hnew : ∀ p ∈ published, p.version ≠ version + 1 := by
      intro p hp heq
      have hle := (h.versions p hp).2
      omega
    intro p hp q hq heq
    rcases List.mem_cons.mp hp with rfl | hp
    · rcases List.mem_cons.mp hq with rfl | hq
      · rfl
      · exact absurd heq.symm (hnew q hq)
    · rcases List.mem_cons.mp hq with rfl | hq
      · exact absurd heq (hnew p hp)
      · exact h.unique p hp q hq heq

/-- A scan reads another revocation from an item that ends like a message, in its version. -/
def Misread (p : Publication) (r : Revocation) : Prop := (readItem p.item.bytes).1 ≠ some r

/-- What has been published up to a version has been applied or is still owed by the scan. -/
def OwedUpTo (remote : Nat) (owed : List Text) (s : SyncState H) : Prop :=
  ∀ p r, s.Live p r → p.version ≤ remote → r ∈ s.applied ∨ p.item ∈ owed ∨ Misread p r

structure Inv (s : SyncState H) : Prop where
  numbered : Numbered s.version s.published
  localVersion : ∀ v ∈ s.localVersion, v ≤ s.version
  stored : ∀ p r, s.Live p r → p.item ∈ s.members
  scanned : ∀ remote owed, s.phase = .scanning remote owed →
    remote ≤ s.version ∧ s.OwedUpTo remote owed

/-- Every revocation published up to the version of the worker that is not expired has been
applied. -/
def Synced (s : SyncState H) : Prop :=
  ∀ v ∈ s.localVersion, ∀ p r, s.Live p r → p.version ≤ v → r ∈ s.applied

theorem expired_mono {r : Revocation} {now later : Nat} (hle : now ≤ later)
    (h : r.expired later = false) : r.expired now = false := by
  unfold Revocation.expired at h ⊢
  simp only [Bool.and_eq_false_iff, decide_eq_false_iff_not] at h ⊢
  omega

theorem inv_start (now : Nat) (cache : JwtCache H) : Inv (start now cache) where
  numbered := ⟨Nat.zero_le _, by simp [start], by simp [start]⟩
  localVersion := by simp [start]
  stored := by simp [start, Live]
  scanned := by simp [start]

variable {s t : SyncState H}

theorem Live.of_tick {seconds : Nat} {p : Publication} {r : Revocation}
    (h : Live { s with now := s.now + seconds } p r) : s.Live p r :=
  ⟨h.1, h.2.1, expired_mono (Nat.le_add_right _ _) h.2.2⟩

theorem Live.ne_discarded {item : Text} {p : Publication} {r : Revocation} (h : s.Live p r)
    (hexpired : ∀ r, readRevocation (trim item.bytes) = some r → r.expired s.now = true) :
    p.item ≠ item := by
  rintro rfl
  have hlive := h.2.2
  rw [hexpired r h.2.1] at hlive
  cases hlive

theorem Synced.of_grows (h : Synced s) (hlocal : t.localVersion = s.localVersion)
    (hlive : ∀ p r, t.Live p r → (∃ v ∈ s.localVersion, p.version ≤ v) → s.Live p r)
    (happlied : s.applied ⊆ t.applied) : Synced t := by
  intro v hv p r hp hle
  rw [hlocal] at hv
  exact happlied (h v hv p r (hlive p r hp ⟨v, hv, hle⟩) hle)

theorem exists_of_discard_scanning {item : Text} {remote : Nat} {owed : List Text}
    (h : (s.discard item).phase = .scanning remote owed) :
    ∃ owed', s.phase = .scanning remote owed' ∧ owed = owed'.filter (· ≠ item) := by
  unfold SyncState.discard at h
  split at h
  · cases h
  · rename_i remote' owed' hscan
    obtain ⟨rfl, rfl⟩ := SyncPhase.scanning.inj h
    exact ⟨owed', hscan, rfl⟩

theorem synced_finish_iff {remote : Nat} :
    Synced (s.finish remote) ↔ ∀ p r, s.Live p r → p.version ≤ remote → r ∈ s.applied := by
  constructor
  · intro h p r hp hle
    exact h remote rfl p r hp hle
  · intro h v hv p r hp hle
    obtain rfl := Option.some.inj hv
    exact h p r hp hle

/-! ## Steps -/

variable [DecidableEq H] (hashing : SyncHashing H) (order : RowOrder H)

def hear (texts : List Bytes) (s : SyncState H) : SyncState H :=
  { s with
    cache := texts.foldl (fun cache text =>
      (applyRevocationItem hashing order cache text s.now).1) s.cache
    applied := texts.filterMap (fun text => (readItem text).1) ++ s.applied }

def deliver (message : Publication) (s : SyncState H) : SyncState H :=
  { s.hear hashing order [message.payload] with
    localVersion :=
      match (readItem message.payload).2 with
      | some version => some (max (s.localVersion.getD 0) version)
      | none => s.localVersion }

def step (s : SyncState H) : SyncAction → Option (SyncState H)
  | .tick seconds => some { s with now := s.now + seconds }
  | .publish item => if s.version < maxRevocationVersion then some (s.publish item) else none
  | .discard item =>
    if (readRevocation (trim item.bytes)).all (·.expired s.now) then some (s.discard item)
    else none
  | .deliver message =>
    if s.phase = .idle ∧ message ∈ s.published then some (s.deliver hashing order message)
    else none
  | .reconcile connected answered =>
    if s.phase = .idle then some (s.reconcile connected answered) else none
  | .page batch last =>
    match s.phase with
    | .idle => none
    | .scanning remoteVersion owed =>
      let heard := s.hear hashing order (batch.map Text.bytes)
      if !batch.all (s.members.contains ·) then none
      else if last then
        -- A full iteration returns every element that was there from start to end.
        if owed.all (batch.contains ·) then some (heard.finish remoteVersion) else none
      else
        some { heard with phase := .scanning remoteVersion (owed.filter (!batch.contains ·)) }
  | .pageFails =>
    match s.phase with
    | .idle => none
    | .scanning remoteVersion _ => some (s.finish remoteVersion)

/-! ## What a step can do -/

inductive StepOutcome (s : SyncState H) : SyncAction → SyncState H → Prop
  | tick (seconds : Nat) : StepOutcome s (.tick seconds) { s with now := s.now + seconds }
  | publish (item : Text) (h : s.version < maxRevocationVersion) :
      StepOutcome s (.publish item) (s.publish item)
  | discard (item : Text)
      (h : ∀ r, readRevocation (trim item.bytes) = some r → r.expired s.now = true) :
      StepOutcome s (.discard item) (s.discard item)
  | deliver (message : Publication) (hidle : s.phase = .idle) (h : message ∈ s.published) :
      StepOutcome s (.deliver message) (s.deliver hashing order message)
  | skip (connected answered : Bool) : StepOutcome s (.reconcile connected answered) s
  | scan (connected answered : Bool) (hidle : s.phase = .idle) {remoteVersion : Nat}
      (h : remoteVersion ≤ s.version) :
      StepOutcome s (.reconcile connected answered)
        { s with phase := .scanning remoteVersion s.members }
  | page {remoteVersion : Nat} {owed : List Text} (batch : List Text)
      (hphase : s.phase = .scanning remoteVersion owed) :
      StepOutcome s (.page batch false)
        { s.hear hashing order (batch.map Text.bytes) with
          phase := .scanning remoteVersion (owed.filter (!batch.contains ·)) }
  | lastPage {remoteVersion : Nat} {owed : List Text} (batch : List Text)
      (hphase : s.phase = .scanning remoteVersion owed) (h : owed ⊆ batch) :
      StepOutcome s (.page batch true)
        ((s.hear hashing order (batch.map Text.bytes)).finish remoteVersion)
  | pageFails {remoteVersion : Nat} {owed : List Text}
      (hphase : s.phase = .scanning remoteVersion owed) :
      StepOutcome s .pageFails (s.finish remoteVersion)

variable {hashing order} {action : SyncAction}

theorem step_outcome (h : s.step hashing order action = some t) :
    StepOutcome hashing order s action t := by
  cases action with
  | tick seconds =>
    obtain rfl := Option.some.inj h
    exact .tick seconds
  | publish item =>
    obtain ⟨hversion, h⟩ := Option.ite_none_right_eq_some.mp h
    obtain rfl := Option.some.inj h
    exact .publish item hversion
  | discard item =>
    obtain ⟨hexpired, h⟩ := Option.ite_none_right_eq_some.mp h
    obtain rfl := Option.some.inj h
    refine .discard item fun r hr => ?_
    simpa [hr] using hexpired
  | deliver message =>
    obtain ⟨⟨hidle, hmem⟩, h⟩ := Option.ite_none_right_eq_some.mp h
    obtain rfl := Option.some.inj h
    exact .deliver message hidle hmem
  | reconcile connected answered =>
    obtain ⟨hidle, h⟩ := Option.ite_none_right_eq_some.mp h
    obtain rfl := Option.some.inj h
    unfold reconcile
    split
    · exact .skip connected answered
    · exact .scan connected answered hidle (s.remoteVersion_le answered)
  | page batch last =>
    rw [step] at h
    split at h
    · cases h
    · rename_i remoteVersion owed hphase
      obtain ⟨-, h⟩ := Option.ite_none_left_eq_some.mp h
      cases last with
      | false =>
        obtain rfl := Option.some.inj h
        exact .page batch hphase
      | true =>
        obtain ⟨howed, h⟩ := Option.ite_none_right_eq_some.mp h
        obtain rfl := Option.some.inj h
        refine .lastPage batch hphase fun item hitem => ?_
        simpa using List.all_eq_true.mp howed item hitem
  | pageFails =>
    rw [step] at h
    split at h
    · cases h
    · rename_i remoteVersion owed hphase
      obtain rfl := Option.some.inj h
      exact .pageFails hphase

theorem deliver_localVersion (h : Inv s) (hmem : message ∈ s.published) :
    (s.deliver hashing order message).localVersion =
      some (max (s.localVersion.getD 0) message.version) := by
  rw [SyncState.deliver, readItem_payload (h.numbered.version_lt hmem)]

theorem mem_applied_hear {texts : List Bytes} {r : Revocation} :
    r ∈ (s.hear hashing order texts).applied ↔
      r ∈ s.applied ∨ ∃ text ∈ texts, (readItem text).1 = some r := by
  rw [hear, List.mem_append, List.mem_filterMap, or_comm]

theorem OwedUpTo.page {remote : Nat} {owed batch : List Text} (h : s.OwedUpTo remote owed) :
    (s.hear hashing order (batch.map Text.bytes)).OwedUpTo remote
      (owed.filter (!batch.contains ·)) := by
  intro p r hp hle
  rw [mem_applied_hear]
  rcases h p r hp hle with happlied | howed | hmisread
  · exact .inl (.inl happlied)
  · by_cases hbatch : p.item ∈ batch
    · by_cases hread : Misread p r
      · exact .inr (.inr hread)
      · exact .inl (.inr ⟨_, List.mem_map_of_mem hbatch, not_not.mp hread⟩)
    · exact .inr (.inl (List.mem_filter.mpr ⟨howed, by simpa using hbatch⟩))
  · exact .inr (.inr hmisread)

theorem Inv.step (h : Inv s) (hstep : s.step hashing order action = some t) : Inv t := by
  cases step_outcome hstep with
  | tick seconds =>
    refine ⟨h.numbered, h.localVersion, fun p r hp => h.stored p r hp.of_tick, ?_⟩
    intro remote owed hphase
    obtain ⟨hremote, howed⟩ := h.scanned remote owed hphase
    exact ⟨hremote, fun p r hp => howed p r hp.of_tick⟩
  | publish item hversion =>
    refine ⟨h.numbered.publish hversion item,
      fun v hv => (h.localVersion v hv).trans (Nat.le_succ _), fun p r hp => ?_, ?_⟩
    · rcases List.mem_cons.mp hp.1 with rfl | hold
      · exact List.mem_cons_self
      · exact List.mem_cons_of_mem _ (h.stored p r ⟨hold, hp.2⟩)
    · intro remote owed hphase
      obtain ⟨hremote, howed⟩ := h.scanned remote owed hphase
      refine ⟨hremote.trans (Nat.le_succ _), fun p r hp hle => ?_⟩
      refine howed p r ⟨(List.mem_cons.mp hp.1).resolve_left ?_, hp.2⟩ hle
      rintro rfl
      exact absurd (hle.trans hremote) (Nat.not_succ_le_self _)
  | discard item hexpired =>
    refine ⟨h.numbered, h.localVersion, fun p r hp => ?_, fun remote owed hphase => ?_⟩
    · have hp : s.Live p r := hp
      simpa [SyncState.discard, hp.ne_discarded hexpired] using h.stored p r hp
    · obtain ⟨owed', hscan, rfl⟩ := exists_of_discard_scanning hphase
      obtain ⟨hremote, howed⟩ := h.scanned remote owed' hscan
      refine ⟨hremote, fun p r hp hle => ?_⟩
      have hp : s.Live p r := hp
      exact (howed p r hp hle).imp_right (Or.imp_left fun hmem =>
        List.mem_filter.mpr ⟨hmem, by simpa using hp.ne_discarded hexpired⟩)
  | deliver message hidle hmem =>
    refine ⟨h.numbered, fun v hv => ?_, h.stored, fun remote owed hphase => ?_⟩
    · rw [deliver_localVersion h hmem] at hv
      obtain rfl := Option.some.inj hv
      refine max_le ?_ (h.numbered.versions message hmem).2
      cases hlocal : s.localVersion with
      | none => exact Nat.zero_le _
      | some v => exact h.localVersion v hlocal
    · cases hidle.symm.trans hphase
  | skip connected answered => exact h
  | scan connected answered hidle hremote =>
    refine ⟨h.numbered, h.localVersion, h.stored, fun remote owed hphase => ?_⟩
    obtain ⟨rfl, rfl⟩ := SyncPhase.scanning.inj hphase
    exact ⟨hremote, fun p r hp _ => .inr (.inl (h.stored p r hp))⟩
  | page batch hphase =>
    refine ⟨h.numbered, h.localVersion, h.stored, fun remote owed hnew => ?_⟩
    obtain ⟨rfl, rfl⟩ := SyncPhase.scanning.inj hnew
    obtain ⟨hremote, howed⟩ := h.scanned _ _ hphase
    exact ⟨hremote, @OwedUpTo.page H s _ hashing order _ _ batch howed⟩
  | lastPage batch hphase howed =>
    refine ⟨h.numbered, fun v hv => ?_, h.stored, fun remote owed hnew => by cases hnew⟩
    obtain rfl := Option.some.inj hv
    exact (h.scanned _ _ hphase).1
  | pageFails hphase =>
    refine ⟨h.numbered, fun v hv => ?_, h.stored, fun remote owed hnew => by cases hnew⟩
    obtain rfl := Option.some.inj hv
    exact (h.scanned _ _ hphase).1

/-! ## Steps that keep the worker synchronised -/

/-- Revocations that are live and later than the version of the worker. -/
def Unseen (s : SyncState H) (p : Publication) (r : Revocation) : Prop :=
  s.Live p r ∧ s.localVersion.getD 0 < p.version

/-- What may make the worker miss something: a message that comes after a gap in the versions, a
page that fails while the scan owes an item, and an item that the scan misreads. -/
def Covered (s : SyncState H) : SyncAction → Prop
  | .deliver message => ∀ p r, s.Unseen p r → p.version < message.version →
      r ∈ s.applied ∨ message.revocation = some r
  | .page batch true => ∀ remote owed, s.phase = .scanning remote owed →
      ∀ p r, s.Unseen p r → p.version ≤ remote → Misread p r →
        r ∈ s.applied ∨ ∃ item ∈ batch, (readItem item.bytes).1 = some r
  | .pageFails => ∀ remote owed, s.phase = .scanning remote owed →
      ∀ p r, s.Unseen p r → p.version ≤ remote → p.item ∈ owed ∨ Misread p r → r ∈ s.applied
  | _ => True

omit [DecidableEq H] in
theorem Synced.applied_or_unseen (h : Synced s) (hinv : Inv s) {p : Publication} {r : Revocation}
    (hp : s.Live p r) : r ∈ s.applied ∨ s.Unseen p r := by
  have hpositive := (hinv.numbered.versions p hp.1).1
  by_cases hseen : p.version ≤ s.localVersion.getD 0
  · cases hlocal : s.localVersion with
    | none =>
      rw [hlocal, Option.getD_none] at hseen
      omega
    | some v =>
      rw [hlocal] at hseen
      exact .inl (h v hlocal p r hp hseen)
  · exact .inr ⟨hp, Nat.lt_of_not_le hseen⟩

theorem synced_deliver_iff (hinv : Inv s) (h : Synced s) (hmem : message ∈ s.published) :
    Covered s (.deliver message) ↔ Synced (s.deliver hashing order message) := by
  have hread := readItem_payload (hinv.numbered.version_lt hmem)
  have happlied : ∀ r, r ∈ (s.deliver hashing order message).applied ↔
      r ∈ s.applied ∨ message.revocation = some r := by
    intro r
    change r ∈ (s.hear hashing order [message.payload]).applied ↔ _
    rw [mem_applied_hear]
    simp [hread]
  constructor
  · intro hcovered v hv p r hp hle
    rw [deliver_localVersion hinv hmem] at hv
    obtain rfl := Option.some.inj hv
    rw [happlied]
    rcases h.applied_or_unseen hinv hp with happlied | hunseen
    · exact .inl happlied
    · have hlater := (le_sup_iff.mp hle).resolve_left (Nat.not_le_of_lt hunseen.2)
      rcases hlater.lt_or_eq with hlt | heq
      · exact hcovered p r hunseen hlt
      · exact .inr (hinv.numbered.unique p hp.1 message hmem heq ▸ hp.2.1)
  · intro hsynced p r hp hlt
    rw [← happlied]
    refine hsynced _ (deliver_localVersion hinv hmem) p r hp.1 ?_
    exact hlt.le.trans (le_max_right _ _)

theorem covered_iff (hinv : Inv s) (h : Synced s) (hstep : s.step hashing order action = some t) :
    Covered s action ↔ Synced t := by
  cases step_outcome hstep with
  | tick seconds =>
    refine iff_of_true trivial (h.of_grows rfl (fun p r hp _ => ?_) (List.Subset.refl _))
    exact ⟨hp.1, hp.2.1, expired_mono (Nat.le_add_right _ _) hp.2.2⟩
  | publish item hversion =>
    refine iff_of_true trivial (h.of_grows rfl (fun p r hp hle => ?_) (List.Subset.refl _))
    obtain ⟨v, hv, hle⟩ := hle
    refine ⟨(List.mem_cons.mp hp.1).resolve_left ?_, hp.2⟩
    rintro rfl
    exact absurd (hle.trans (hinv.localVersion v hv)) (Nat.not_succ_le_self _)
  | discard item hexpired =>
    exact iff_of_true trivial (h.of_grows rfl (fun p r hp _ => hp) (List.Subset.refl _))
  | deliver message hidle hmem => exact synced_deliver_iff hinv h hmem
  | skip connected answered => exact iff_of_true trivial h
  | scan connected answered hidle hremote =>
    exact iff_of_true trivial (h.of_grows rfl (fun p r hp _ => hp) (List.Subset.refl _))
  | page batch hphase =>
    exact iff_of_true trivial
      (h.of_grows rfl (fun p r hp _ => hp) (List.subset_append_right _ _))
  | @lastPage remote owed batch hphase hreturned =>
    rw [synced_finish_iff]
    simp only [mem_applied_hear, List.mem_map, exists_exists_and_eq_and]
    constructor
    · intro hcovered p r hp hle
      rcases h.applied_or_unseen hinv hp with happlied | hunseen
      · exact .inl happlied
      · by_cases hmisread : Misread p r
        · exact hcovered remote owed hphase p r hunseen hle hmisread
        · -- A full iteration has returned what it owed.
          rcases (hinv.scanned remote owed hphase).2 p r hp hle with happlied | howed | hread
          · exact .inl happlied
          · exact .inr ⟨p.item, hreturned howed, not_not.mp hmisread⟩
          · exact absurd hread hmisread
    · intro hall remote' owed' hphase' p r hp hle _
      obtain ⟨rfl, rfl⟩ := SyncPhase.scanning.inj (hphase.symm.trans hphase')
      exact hall p r hp.1 hle
  | @pageFails remote owed hphase =>
    rw [synced_finish_iff]
    constructor
    · intro hcovered p r hp hle
      rcases h.applied_or_unseen hinv hp with happlied | hunseen
      · exact happlied
      · rcases (hinv.scanned remote owed hphase).2 p r hp hle with happlied | howed
        · exact happlied
        · exact hcovered remote owed hphase p r hunseen hle howed
    · intro hall remote' owed' hphase' p r hp hle _
      obtain ⟨rfl, rfl⟩ := SyncPhase.scanning.inj (hphase.symm.trans hphase')
      exact hall p r hp.1 hle

theorem synced_of_not_idle (hinv : Inv s) (h : Synced s)
    (hstep : s.step hashing order action = some t) (hphase : t.phase ≠ .idle) : Synced t := by
  rw [← covered_iff hinv h hstep]
  cases step_outcome hstep with
  | deliver message hidle hmem => exact absurd hidle hphase
  | lastPage batch hscan howed => exact absurd rfl hphase
  | pageFails hscan => exact absurd rfl hphase
  | _ => trivial

end SyncState

/-! ## Runs -/

structure SyncRun (H : Type) [DecidableEq H] where
  hashing : SyncHashing H
  order : RowOrder H
  now : Nat
  cache : JwtCache H
  actions : List SyncAction
  final : SyncState H
  runs : execute (SyncState.step hashing order) (SyncState.start now cache) actions = some final

variable {H : Type} [DecidableEq H]

section Samples

def sampleSyncHashing : SyncHashing Nat where
  hashToken := fun token => token.length
  hashJti := fun jti => 1000 + jti.length
  asUsize := id
  ofU64 := id

def aliceLogout : Publication := ⟨.ofAscii "jti:alice", 1⟩

def bobLogout : Publication := ⟨.ofAscii "jti:bob:500", 2⟩

/-- The first message is lost.  After the second one the worker has version 2, and it does not
scan the set again. -/
def lostMessage : SyncRun Nat where
  hashing := sampleSyncHashing
  order := .asStored _ _
  now := 100
  cache := .new 1 16 300 30
  actions := [.reconcile true true, .page [] true, .publish aliceLogout.item,
    .publish bobLogout.item, .deliver bobLogout, .tick 30, .reconcile true true]
  final := _
  runs := rfl

end Samples

end AuroraGateway.Jwt
