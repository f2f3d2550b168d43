import AuroraGateway.Foundation.UrlTarget
import AuroraGateway.Foundation.Utf8

/-!
# Retention of the backups in a bucket

After an upload the service lists the bucket and deletes what is older than the
retention period.  It looks at the time of an object and not at its name, and
it puts the key behind the host of a URL as it is.
-/

namespace AuroraGateway.ControlPlane

open Foundation
open Foundation.UrlTarget (isPlain targetPath targetPath_eq_self_iff)

/-! ## Times -/

/-- Seconds since the first of January of the year one, and nanoseconds. -/
structure Instant where
  sec : Int
  nsec : Nat
  deriving DecidableEq

namespace Instant

def isZero (t : Instant) : Bool := t.sec == 0 && t.nsec == 0

def before (t u : Instant) : Bool := t.sec < u.sec || (t.sec == u.sec && t.nsec < u.nsec)

/-- The seconds are counted in 64 bits. -/
def addDays (t : Instant) (days : Int) : Instant := ⟨(t.sec + 86400 * days).bmod (2 ^ 64), t.nsec⟩

end Instant

/-! ## Backups -/

structure BackupConfig where
  s3Enabled : Bool
  s3Endpoint : Bytes
  s3Bucket : Bytes
  s3Prefix : Bytes
  s3RetentionDays : Int

structure BackupStamp where
  year : Nat
  month : Nat
  day : Nat
  hour : Nat
  minute : Nat
  second : Nat
  month_range : 1 ≤ month ∧ month ≤ 12
  day_range : 1 ≤ day ∧ day ≤ 31
  hour_lt : hour < 24
  minute_lt : minute < 60
  second_lt : second < 60

def padDecimal (width n : Nat) : Bytes :=
  List.replicate (width - (decimal n).length) 48 ++ decimal n

namespace BackupStamp

def format (stamp : BackupStamp) : Bytes :=
  padDecimal 4 stamp.year ++ ascii "-" ++ padDecimal 2 stamp.month ++ ascii "-" ++
    padDecimal 2 stamp.day ++ ascii "-" ++ padDecimal 2 stamp.hour ++
    padDecimal 2 stamp.minute ++ padDecimal 2 stamp.second

def filename (stamp : BackupStamp) : Bytes := ascii "aurora-waf-s3-" ++ stamp.format ++ ascii ".db"

end BackupStamp

def trimSlashes (text : Bytes) : Bytes :=
  ((text.dropWhile fun byte => byte == slash).reverse.dropWhile fun byte => byte == slash).reverse

namespace BackupConfig

variable (cfg : BackupConfig)

def trimmedPrefix : Bytes := trimSlashes (trim cfg.s3Prefix)

def objectKey (filename : Bytes) : Bytes :=
  if cfg.trimmedPrefix.isEmpty then filename else cfg.trimmedPrefix ++ slash :: filename

def endpoint : Bytes :=
  let endpoint := trim cfg.s3Endpoint
  let endpoint := if endpoint.isEmpty then ascii "https://s3.amazonaws.com" else endpoint
  if (ascii "http://").isPrefixOf endpoint || (ascii "https://").isPrefixOf endpoint then endpoint
  else ascii "https://" ++ endpoint

def objectTarget (key : Bytes) : Bytes :=
  slash :: cfg.s3Bucket ++ slash :: key

end BackupConfig

/-! ## Pruning -/

structure S3Content where
  key : Bytes
  lastModified : Instant
  deriving DecidableEq

/-- The libraries of the service: the host of an endpoint, if it is a URL, and the escape of a
query. -/
structure S3Library where
  parseEndpoint : Bytes → Option Bytes
  queryEscape : Bytes → Bytes

section Prune

variable (lib : S3Library) (cfg : BackupConfig) (now : Instant)

def listTarget : Bytes :=
  slash :: cfg.s3Bucket ++ 63 :: ascii "list-type=2" ++
    if cfg.trimmedPrefix.isEmpty then []
    else ascii "&prefix=" ++ lib.queryEscape (cfg.trimmedPrefix ++ [slash])

def lists : Bool :=
  cfg.s3Enabled && 0 < cfg.s3RetentionDays && !(trim cfg.s3Bucket).isEmpty &&
    (lib.parseEndpoint cfg.endpoint).isSome && (targetPath (listTarget lib cfg)).isSome

def cutoff : Instant := now.addDays (-cfg.s3RetentionDays)

def expired (item : S3Content) : Bool :=
  !item.lastModified.isZero && item.lastModified.before (cutoff cfg now)

/-- The path of the request; none if it cannot be made. -/
def deleteS3Object (key : Bytes) : Option Bytes := targetPath (cfg.objectTarget key)

/-- The requests to delete, each with the object that it is sent for.  The listing is what the
store answers; there is none if the call fails. -/
def pruneS3Retention (listing : Option (List S3Content)) : List (S3Content × Bytes) :=
  if lists lib cfg then
    (listing.getD []).filterMap fun item =>
      if expired cfg now item then (deleteS3Object cfg item.key).map fun path => (item, path)
      else none
  else []

def remaining (objects : List Bytes) (requests : List (S3Content × Bytes)) : List Bytes :=
  objects.filter fun object => !requests.any fun request => request.2 == object

/-! ## Backups of the gateway -/

def OwnBackup (key : Bytes) : Prop := ∃ stamp : BackupStamp, key = cfg.objectKey stamp.filename

def Outdated (item : S3Content) : Prop :=
  item.lastModified.before ⟨now.sec - 86400 * cfg.s3RetentionDays, now.nsec⟩ = true

/-- The seconds of the time that many days ago do not fit into 64 bits. -/
def CutoffWraps : Prop :=
  (cutoff cfg now).sec ≠ now.sec - 86400 * cfg.s3RetentionDays

/-- The request is for the object that it is sent for, a backup of the gateway that is out of
date. -/
structure RightRequest (item : S3Content) (path : Bytes) : Prop where
  address : path = cfg.objectTarget item.key
  own : OwnBackup cfg item.key
  outdated : Outdated cfg now item

structure RetentionSafe (listing : Option (List S3Content)) : Prop where
  requests : ∀ request ∈ pruneS3Retention lib cfg now listing,
    request.1 ∈ listing.getD [] ∧ RightRequest cfg now request.1 request.2
  frame : ∀ (objects : List Bytes) (object : Bytes), object ∈ objects →
    object ∉ remaining objects (pruneS3Retention lib cfg now listing) →
      ∃ item ∈ listing.getD [], RightRequest cfg now item object

def Chosen (item : S3Content) : Prop :=
  lists lib cfg = true ∧ expired cfg now item = true ∧
    (deleteS3Object cfg item.key).isSome = true

variable {lib cfg now} {listing : Option (List S3Content)} {item : S3Content} {path : Bytes}

theorem mem_pruneS3Retention :
    (item, path) ∈ pruneS3Retention lib cfg now listing ↔
      lists lib cfg = true ∧ item ∈ listing.getD [] ∧ expired cfg now item = true ∧
        deleteS3Object cfg item.key = some path := by
  unfold pruneS3Retention
  cases lists lib cfg with
  | false => simp
  | true =>
    simp only [if_true, List.mem_filterMap, true_and]
    constructor
    · rintro ⟨other, hother, hrequest⟩
      split at hrequest
      · rename_i hexpired
        obtain ⟨path', hpath, heq⟩ := Option.map_eq_some_iff.mp hrequest
        obtain ⟨rfl, rfl⟩ := Prod.mk.inj heq
        exact ⟨hother, hexpired, hpath⟩
      · cases hrequest
    · rintro ⟨hitem, hexpired, hpath⟩
      refine ⟨item, hitem, ?_⟩
      rw [if_pos hexpired, hpath]
      rfl

theorem outdated_of_expired (hexpired : expired cfg now item = true)
    (hfits : ¬CutoffWraps cfg now) : Outdated cfg now item := by
  have hbefore := (Bool.and_eq_true_iff.mp hexpired).2
  unfold Outdated
  rwa [← not_not.mp hfits]

theorem rightRequest_iff (h : deleteS3Object cfg item.key = some path)
    (hexpired : expired cfg now item = true) :
    RightRequest cfg now item path ↔
      OwnBackup cfg item.key ∧ isPlain (cfg.objectTarget item.key) = true ∧
        (CutoffWraps cfg now → Outdated cfg now item) := by
  have haddress := targetPath_eq_self_iff h
  constructor
  · intro hright
    exact ⟨hright.own, haddress.mp hright.address, fun _ => hright.outdated⟩
  · rintro ⟨hown, hplain, hwraps⟩
    refine ⟨haddress.mpr hplain, hown, ?_⟩
    exact (em (CutoffWraps cfg now)).elim hwraps (outdated_of_expired hexpired)

theorem exists_request_of_deleted {objects : List Bytes} {object : Bytes}
    {requests : List (S3Content × Bytes)} (hmem : object ∈ objects)
    (hgone : object ∉ remaining objects requests) : ∃ item, (item, object) ∈ requests := by
  by_contra hnone
  refine hgone (List.mem_filter.mpr ⟨hmem, ?_⟩)
  rw [Bool.not_eq_true', List.any_eq_false]
  intro request hrequest heq
  refine hnone ⟨request.1, ?_⟩
  rw [← beq_iff_eq.mp heq]
  exact hrequest

/-- The retention deletes only backups of the gateway that are out of date exactly if every
object that the code chooses from the listing is a backup, neither its key nor the bucket has a
character that a URL gives a meaning to, and the time it is compared with is the right one. -/
theorem retention_safe_iff (lib : S3Library) (cfg : BackupConfig) (now : Instant)
    (listing : Option (List S3Content)) :
    RetentionSafe lib cfg now listing ↔
      ∀ item ∈ listing.getD [], Chosen lib cfg now item →
        OwnBackup cfg item.key ∧ isPlain (cfg.objectTarget item.key) = true ∧
          (CutoffWraps cfg now → Outdated cfg now item) := by
  constructor
  · rintro hsafe item hitem ⟨hlists, hexpired, hvalid⟩
    obtain ⟨path, hpath⟩ := Option.isSome_iff_exists.mp hvalid
    have hrequest := mem_pruneS3Retention.mpr ⟨hlists, hitem, hexpired, hpath⟩
    exact (rightRequest_iff hpath hexpired).mp (hsafe.requests _ hrequest).2
  · intro h
    have hrequests : ∀ request ∈ pruneS3Retention lib cfg now listing,
        request.1 ∈ listing.getD [] ∧ RightRequest cfg now request.1 request.2 := by
      rintro ⟨item, path⟩ hrequest
      obtain ⟨hlists, hitem, hexpired, hpath⟩ := mem_pruneS3Retention.mp hrequest
      have hchosen : Chosen lib cfg now item :=
        ⟨hlists, hexpired, Option.isSome_of_eq_some hpath⟩
      exact ⟨hitem, (rightRequest_iff hpath hexpired).mpr (h item hitem hchosen)⟩
    refine ⟨hrequests, fun objects object hmem hgone => ?_⟩
    obtain ⟨item, hrequest⟩ := exists_request_of_deleted hmem hgone
    exact ⟨item, hrequests _ hrequest⟩

end Prune

/-! ## Objects of others -/

def sampleS3Library : S3Library where
  parseEndpoint := some
  queryEscape := id

def sharedBucket : BackupConfig where
  s3Enabled := true
  s3Endpoint := []
  s3Bucket := ascii "corp"
  s3Prefix := []
  s3RetentionDays := 30

def invoice : S3Content := ⟨ascii "invoices.csv", ⟨1, 0⟩⟩

def questionable : S3Content := ⟨ascii "report?draft", ⟨1, 0⟩⟩

theorem not_ownBackup_of_prefix {cfg : BackupConfig} {key : Bytes}
    (hroot : cfg.trimmedPrefix = []) (h : ¬ascii "aurora-waf-s3-" <+: key) :
    ¬OwnBackup cfg key := by
  rintro ⟨stamp, rfl⟩
  refine h ?_
  rw [BackupConfig.objectKey, hroot]
  exact ⟨_, (List.append_assoc _ _ _).symm⟩

/-- An object of somebody else is deleted, and a listed key makes the service delete an object
that is not listed. -/
theorem foreign_objects_deleted :
    pruneS3Retention sampleS3Library sharedBucket ⟨63000000000, 0⟩ (some [invoice]) =
        [(invoice, ascii "/corp/invoices.csv")] ∧
      pruneS3Retention sampleS3Library sharedBucket ⟨63000000000, 0⟩ (some [questionable]) =
        [(questionable, ascii "/corp/report")] ∧
      ¬RetentionSafe sampleS3Library sharedBucket ⟨63000000000, 0⟩ (some [invoice]) ∧
      ¬RetentionSafe sampleS3Library sharedBucket ⟨63000000000, 0⟩ (some [questionable]) := by
  have hinvoice : pruneS3Retention sampleS3Library sharedBucket ⟨63000000000, 0⟩
      (some [invoice]) = [(invoice, ascii "/corp/invoices.csv")] := by decide +kernel
  have hquestionable : pruneS3Retention sampleS3Library sharedBucket ⟨63000000000, 0⟩
      (some [questionable]) = [(questionable, ascii "/corp/report")] := by decide +kernel
  refine ⟨hinvoice, hquestionable, fun hsafe => ?_, fun hsafe => ?_⟩
  · have hrequest := hsafe.requests (invoice, ascii "/corp/invoices.csv")
    rw [hinvoice] at hrequest
    refine not_ownBackup_of_prefix ?_ ?_ (hrequest List.mem_cons_self).2.own
    · decide +kernel
    · decide +kernel
  · have hrequest := hsafe.requests (questionable, ascii "/corp/report")
    rw [hquestionable] at hrequest
    exact absurd (hrequest List.mem_cons_self).2.address (by decide +kernel)

end AuroraGateway.ControlPlane
