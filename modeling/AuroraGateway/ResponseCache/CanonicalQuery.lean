import AuroraGateway.ResponseCache.CacheKey

/-!
# Queries of one key

The key depends on the parameters that count, in any order.  A query that is not UTF-8 is
dropped as a whole, though, so that a parameter that does not count can drop those that do.
-/

namespace AuroraGateway.ResponseCache

open Foundation

variable (config : ResponseCacheConfig)

def counts (name : Bytes) : Bool :=
  match config.cacheKeyQueryParams with
  | some allowed => allowed.any fun a => a.bytes == name
  | none => true

/-- The parameters as they stand between the ampersands, without empty ones and those that do
not count. -/
def countedPairs (query : Bytes) : List Bytes :=
  (query.splitOn ampersand).filter fun pair =>
    !pair.isEmpty && counts config (splitParam pair).1

theorem keyParams_eq_countedPairs (query : Bytes) : keyParams config query =
      if validUtf8 query then (countedPairs config query).map splitParam else [] := by
  have hfilter : (params query).filter (fun param => counts config param.1) =
      (countedPairs config query).map splitParam := by
    rw [params, List.filter_map, List.filter_filter]
    refine congrArg (List.map splitParam) (List.filter_congr fun pair _ => ?_)
    rw [Function.comp_apply, Bool.and_comm]
  rw [← hfilter]
  cases query with
  | nil => simp [keyParams, params, List.splitOn_nil]
  | cons byte rest =>
    rfl

theorem isParam_of_mem_keyParams {config : ResponseCacheConfig} {query : Bytes}
    {param : Bytes × Bytes} (h : param ∈ keyParams config query) : IsParam param := by
  unfold keyParams at h
  split at h
  · exact isParam_of_mem_params (List.mem_filter.mp h).1
  · cases h

/-- Two queries with the same parameters that count: the order of the parameters, empty
parameters and those that do not count are as they like. -/
structure QueryEdit where
  config : ResponseCacheConfig
  before : Bytes
  after : Bytes
  edited : (countedPairs config before).Perm (countedPairs config after)

namespace QueryEdit

variable (edit : QueryEdit)

theorem computeCacheKey_eq_iff_perm (method host path : Bytes) :
    computeCacheKey edit.config method host path edit.before =
        computeCacheKey edit.config method host path edit.after ↔
      (keyParams edit.config edit.before).Perm (keyParams edit.config edit.after) := by
  rw [computeCacheKey, computeCacheKey, List.append_cancel_left_eq,
    renderQuery_eq_iff (fun _ => isParam_of_mem_keyParams) fun _ => isParam_of_mem_keyParams]

/-- The key is kept exactly if both queries are UTF-8 or neither is, or if no parameter
counts. -/
theorem key_kept_iff (method host path : Bytes) :
    computeCacheKey edit.config method host path edit.before =
        computeCacheKey edit.config method host path edit.after ↔
      validUtf8 edit.before = validUtf8 edit.after ∨
        countedPairs edit.config edit.before = [] := by
  rw [edit.computeCacheKey_eq_iff_perm, keyParams_eq_countedPairs, keyParams_eq_countedPairs]
  have hperm := edit.edited.map splitParam
  have hempty : countedPairs edit.config edit.before = [] ↔
      countedPairs edit.config edit.after = [] := by
    rw [← List.isEmpty_iff, ← List.isEmpty_iff, edit.edited.isEmpty_eq]
  cases hbefore : validUtf8 edit.before <;> cases hafter : validUtf8 edit.after
  · simp
  · simp [List.nil_perm, hempty]
  · simp [List.perm_nil]
  · simpa using hperm

end QueryEdit

def undecodableEdit : QueryEdit where
  config :=
    { ResponseCacheConfig.default with
      cacheKeyQueryParams := some [⟨ascii "page", by decide⟩] }
  before := ascii "page=1"
  after := ascii "page=1&utm=" ++ [255]
  edited := by decide +kernel

theorem uncounted_parameter_changes_key :
    computeCacheKey undecodableEdit.config (ascii "GET") (ascii "example.com") (ascii "/")
        undecodableEdit.before = ascii "GET:example.com:/?page=1" ∧
      computeCacheKey undecodableEdit.config (ascii "GET") (ascii "example.com") (ascii "/")
        undecodableEdit.after = ascii "GET:example.com:/" := by
  decide +kernel

end AuroraGateway.ResponseCache
