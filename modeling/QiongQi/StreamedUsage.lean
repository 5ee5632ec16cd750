import Mathlib.Algebra.Order.Ring.Rat
import QiongQi.UsageProjections

/-! The usage of a streamed call, merged from the usage that its chunks report. -/
namespace QiongQi.StreamedUsage
open UsageProjections

structure DeepseekPrice where
  inputCacheHit : ℚ
  inputCacheMiss : ℚ
  output : ℚ

structure DeepseekPriceSet where
  usd : DeepseekPrice
  cny : DeepseekPrice

def tokensPerMillion : ℚ := 1000000

def computeCost (price : DeepseekPrice) (cacheHitTokens cacheMissTokens outputTokens : Nat) : ℚ :=
  cacheHitTokens / tokensPerMillion * price.inputCacheHit +
    cacheMissTokens / tokensPerMillion * price.inputCacheMiss +
    outputTokens / tokensPerMillion * price.output

/-- `estimateCacheSavings` in one currency. -/
def computeSavings (price : DeepseekPrice) (cacheHitTokens : Nat) : ℚ :=
  cacheHitTokens / tokensPerMillion * max 0 (price.inputCacheMiss - price.inputCacheHit)

/-- The counters that `mapUsage` reads, absent where a payload does not report them. -/
structure UsagePayload where
  promptTokens : Option Nat := none
  promptEvalCount : Option Nat := none
  inputTokens : Option Nat := none
  completionTokens : Option Nat := none
  evalCount : Option Nat := none
  outputTokens : Option Nat := none
  totalTokens : Option Nat := none
  /-- `prompt_tokens_details.cached_tokens` -/
  cachedTokens : Option Nat := none
  promptCacheHitTokens : Option Nat := none
  promptCacheMissTokens : Option Nat := none
  cacheReadInputTokens : Option Nat := none
  /-- `cost_usd ?? costUsd` -/
  reportedCostUsd : Option ℚ := none
  reportedCostCny : Option ℚ := none

namespace UsagePayload
variable (usage : UsagePayload)

def prompt : Nat := ((usage.promptTokens.or usage.promptEvalCount).or usage.inputTokens).getD 0

def completion : Nat := ((usage.completionTokens.or usage.evalCount).or usage.outputTokens).getD 0

def hasNativeCache : Bool :=
  usage.promptCacheHitTokens.getD 0 > 0 || usage.promptCacheMissTokens.getD 0 > 0

def cacheHit : Nat :=
  if usage.hasNativeCache then usage.promptCacheHitTokens.getD 0
  else if usage.cachedTokens.getD 0 > 0 then usage.cachedTokens.getD 0
  else usage.cacheReadInputTokens.getD 0

def cacheMiss : Nat :=
  if usage.hasNativeCache then usage.promptCacheMissTokens.getD 0
  else usage.prompt - usage.cacheHit

/-- The first of the figures that is not zero. -/
def cached : Nat :=
  if usage.cacheHit ≠ 0 then usage.cacheHit
  else if usage.cachedTokens.getD 0 ≠ 0 then usage.cachedTokens.getD 0
  else usage.cacheReadInputTokens.getD 0

end UsagePayload

def hitRate (hit miss : Nat) : Option ℚ :=
  if hit + miss = 0 then none else some (hit / (hit + miss : Nat))

/-- The prices are those of the model, if its host has a table with them. -/
def mapUsage (prices : Option DeepseekPriceSet) (usage : UsagePayload) : UsageSnapshot :=
  let cost (price : DeepseekPrice) :=
    computeCost price usage.cacheHit usage.cacheMiss usage.completion
  { emptyUsageSnapshot with
    promptTokens := usage.prompt
    completionTokens := usage.completion
    totalTokens := usage.totalTokens.getD (usage.prompt + usage.completion)
    cachedTokens := some usage.cached
    cacheHitTokens := some usage.cacheHit
    cacheMissTokens := some usage.cacheMiss
    cacheHitRate := hitRate usage.cacheHit usage.cacheMiss
    turns := 1
    costUsd := usage.reportedCostUsd.or (prices.map fun table => cost table.usd)
    costCny := usage.reportedCostCny.or (prices.map fun table => cost table.cny)
    cacheSavingsUsd := prices.map fun table => computeSavings table.usd usage.cacheHit
    cacheSavingsCny := prices.map fun table => computeSavings table.cny usage.cacheHit }

def mergeUsageSnapshots (current : Option UsageSnapshot) (next : UsageSnapshot) : UsageSnapshot :=
  match current with
  | none => next
  | some current =>
    let promptTokens := if next.promptTokens ≠ 0 then next.promptTokens else current.promptTokens
    let completionTokens := max next.completionTokens current.completionTokens
    { promptTokens
      completionTokens
      totalTokens := if next.totalTokens > 0 ∧ next.promptTokens > 0 then next.totalTokens
        else promptTokens + completionTokens
      cachedTokens := some (max (current.cachedTokens.getD 0) (next.cachedTokens.getD 0))
      cacheHitTokens := some (max (current.cacheHitTokens.getD 0) (next.cacheHitTokens.getD 0))
      cacheMissTokens := some (max (current.cacheMissTokens.getD 0) (next.cacheMissTokens.getD 0))
      cacheHitRate := next.cacheHitRate.or current.cacheHitRate
      turns := next.turns
      costUsd := next.costUsd.or current.costUsd
      costCny := next.costCny.or current.costCny
      cacheSavingsUsd := next.cacheSavingsUsd.or current.cacheSavingsUsd
      cacheSavingsCny := next.cacheSavingsCny.or current.cacheSavingsCny
      tokenEconomySavingsTokens :=
        next.tokenEconomySavingsTokens.or current.tokenEconomySavingsTokens
      tokenEconomySavingsUsd := next.tokenEconomySavingsUsd.or current.tokenEconomySavingsUsd
      tokenEconomySavingsCny := next.tokenEconomySavingsCny.or current.tokenEconomySavingsCny
      hasError := next.hasError.or current.hasError }

/-- The usage that `streamSse` holds after payloads of one call. -/
def streamedUsage (prices : Option DeepseekPriceSet) (payloads : List UsagePayload) :
    Option UsageSnapshot :=
  payloads.foldl
    (fun usage payload => some (mergeUsageSnapshots usage (mapUsage prices payload))) none

open UsagePayload

/-- The one payload with the token counters of a snapshot. -/
def carrying (merged : UsageSnapshot) : UsagePayload where
  promptTokens := some merged.promptTokens
  completionTokens := some merged.completionTokens
  totalTokens := some merged.totalTokens
  cachedTokens := merged.cachedTokens
  promptCacheHitTokens := merged.cacheHitTokens
  promptCacheMissTokens := merged.cacheMissTokens

/-- The same cost and the same cache figures. -/
structure SameCost (one other : UsageSnapshot) : Prop where
  costUsd : one.costUsd = other.costUsd
  costCny : one.costCny = other.costCny
  cachedTokens : one.cachedTokens = other.cachedTokens
  cacheHitTokens : one.cacheHitTokens = other.cacheHitTokens
  cacheMissTokens : one.cacheMissTokens = other.cacheMissTokens
  cacheHitRate : one.cacheHitRate = other.cacheHitRate
  cacheSavingsUsd : one.cacheSavingsUsd = other.cacheSavingsUsd
  cacheSavingsCny : one.cacheSavingsCny = other.cacheSavingsCny

/-- The largest count that a payload reports. -/
def most (count : UsagePayload → Nat) (payloads : List UsagePayload) : Nat :=
  payloads.foldl (fun largest payload => max largest (count payload)) 0

theorem most_concat :
    most count (payloads ++ [payload]) = max (most count payloads) (count payload) := by
  rw [most, List.foldl_append]
  rfl

theorem idle_payload {payload : UsagePayload} (hit : payload.cacheHit = 0)
    (miss : payload.cacheMiss = 0) : payload.cached = 0 ∧ payload.prompt = 0 := by
  simp only [cached, cacheHit, cacheMiss, hasNativeCache] at *
  grind

/-- What the merged snapshot holds of the payloads so far. -/
structure Merged (prices : DeepseekPriceSet) (payloads : List UsagePayload) (last : UsagePayload)
    (merged : UsageSnapshot) : Prop where
  output : merged.completionTokens = most completion payloads
  shown : merged.cachedTokens = some (most cached payloads)
  hit : merged.cacheHitTokens = some (most cacheHit payloads)
  miss : merged.cacheMissTokens = some (most cacheMiss payloads)
  rate : merged.cacheHitRate = (hitRate last.cacheHit last.cacheMiss).or merged.cacheHitRate
  idle : most cacheHit payloads = 0 → most cacheMiss payloads = 0 →
    merged.cacheHitRate = none ∧ most cached payloads = 0 ∧ merged.promptTokens = 0
  costUsd : merged.costUsd = (mapUsage (some prices) last).costUsd
  costCny : merged.costCny = (mapUsage (some prices) last).costCny
  savingsUsd : merged.cacheSavingsUsd = some (computeSavings prices.usd last.cacheHit)
  savingsCny : merged.cacheSavingsCny = some (computeSavings prices.cny last.cacheHit)

theorem hitRate_none : hitRate hit miss = none ↔ hit = 0 ∧ miss = 0 := by
  simp [hitRate]

theorem streamedUsage_concat : streamedUsage prices (earlier ++ [last]) =
      some (mergeUsageSnapshots (streamedUsage prices earlier) (mapUsage prices last)) := by
  rw [streamedUsage, List.foldl_append]
  rfl

theorem streamedUsage_merged (earlier : List UsagePayload) (last : UsagePayload) :
    ∃ merged, streamedUsage (some prices) (earlier ++ [last]) = some merged ∧
      Merged prices (earlier ++ [last]) last merged := by
  refine ⟨_, streamedUsage_concat, ?_⟩
  have idle := @idle_payload last
  induction earlier using List.reverseRecOn generalizing last with
  | nil =>
    constructor <;>
      simp_all [most, streamedUsage, mergeUsageSnapshots, mapUsage, hitRate_none]
  | append_singleton earlier previous ih =>
    have before := ih previous idle_payload
    rw [streamedUsage_concat]
    generalize mergeUsageSnapshots _ (mapUsage _ previous) = current at before
    constructor <;> simp only [mergeUsageSnapshots, mapUsage, most_concat, before.hit,
      before.miss, before.shown, before.output, Option.map_some, Option.some_or,
      Option.getD_some, Nat.max_comm]
    · cases hitRate last.cacheHit last.cacheMiss <;> rfl
    · intro hits misses
      obtain ⟨rate, cached, prompt⟩ := before.idle (by rw [most_concat]; omega)
        (by rw [most_concat]; omega)
      rw [most_concat] at cached
      obtain ⟨cached', prompt'⟩ := idle (by omega) (by omega)
      have none_ : hitRate last.cacheHit last.cacheMiss = none :=
        hitRate_none.mpr ⟨by omega, by omega⟩
      simp [*]
    · cases last.reportedCostUsd <;> rfl
    · cases last.reportedCostCny <;> rfl

theorem Merged.carrying {merged : UsageSnapshot} (held : Merged prices payloads last merged) :
    (carrying merged).completion = most completion payloads ∧
      (carrying merged).cacheHit = most cacheHit payloads ∧
      (carrying merged).cacheMiss = most cacheMiss payloads ∧
      (carrying merged).cached = if most cacheHit payloads ≠ 0
        then most cacheHit payloads else most cached payloads := by
  have idle := held.idle
  simp only [StreamedUsage.carrying, completion, cached, cacheMiss, cacheHit, hasNativeCache,
    prompt, held.output, held.hit, held.miss, held.shown]
  grind

theorem most_le (count : UsagePayload → Nat) (payloads : List UsagePayload) (bound : Nat) :
    most count payloads ≤ bound ↔ ∀ payload ∈ payloads, count payload ≤ bound := by
  induction payloads using List.reverseRecOn with
  | nil => simp [most]
  | append_singleton earlier last ih =>
    rw [most_concat, Nat.max_le, ih]
    simp only [List.mem_append, List.mem_singleton, or_imp, forall_and, forall_eq]

theorem most_last (count : UsagePayload → Nat) (earlier : List UsagePayload) (last : UsagePayload) :
    most count (earlier ++ [last]) = count last ↔ ∀ payload ∈ earlier, count payload ≤ count last := by
  rw [most_concat, ← most_le]
  omega

theorem cost_same :
    (∀ price, computeCost price hit miss output = computeCost price hit' miss' output') ↔
      hit = hit' ∧ miss = miss' ∧ output = output' := by
  constructor
  · intro same
    have scaled {count other : Nat}
        (eq : (count : ℚ) / tokensPerMillion = other / tokensPerMillion) : count = other := by
      rw [Rat.div_def, Rat.div_def] at eq
      exact Nat.cast_injective (mul_right_cancel₀ (by decide +kernel) eq)
    have hits := same ⟨1, 0, 0⟩
    have misses := same ⟨0, 1, 0⟩
    have outputs := same ⟨0, 0, 1⟩
    simp only [computeCost, mul_one, mul_zero, add_zero, zero_add] at hits misses outputs
    exact ⟨scaled hits, scaled misses, scaled outputs⟩
  · rintro ⟨rfl, rfl, rfl⟩ price
    rfl

/-- The merged snapshot has the cost of the call's tokens if and only if no payload reports more
cache hits, cache misses or completion tokens than the last one, nor more cached tokens than the
hits, if there are hits. -/
theorem streamed_cost_iff (earlier : List UsagePayload) (last : UsagePayload)
    (uncosted : last.reportedCostUsd = none ∧ last.reportedCostCny = none) :
    (∀ prices, ∃ merged, streamedUsage (some prices) (earlier ++ [last]) = some merged ∧
      SameCost merged (mapUsage (some prices) (carrying merged))) ↔
    (∀ payload ∈ earlier, payload.cacheHit ≤ last.cacheHit ∧ payload.cacheMiss ≤ last.cacheMiss ∧
      payload.completion ≤ last.completion) ∧
    (last.cacheHit = 0 ∨ ∀ payload ∈ earlier ++ [last], payload.cached ≤ last.cacheHit) := by
  have hits := most_last cacheHit earlier last
  have misses := most_last cacheMiss earlier last
  have outputs := most_last completion earlier last
  have cached : last.cacheHit ≠ 0 → last.cached = last.cacheHit := fun some_ => by
    rw [UsagePayload.cached, if_pos some_]
  have most_cached := most_le UsagePayload.cached (earlier ++ [last]) last.cacheHit
  have last_cached := (most_le UsagePayload.cached (earlier ++ [last]) _).mp (Nat.le_refl _) last
    (List.mem_append_right _ List.mem_cons_self)
  simp only [forall_and, ← hits, ← misses, ← outputs, ← most_cached]
  constructor
  · intro same
    have costs := cost_same.mp fun price => by
      obtain ⟨merged, streamed, agree⟩ := same ⟨price, price⟩
      obtain ⟨other, streamed', held⟩ := streamedUsage_merged earlier last
      cases streamed.symm.trans streamed'
      obtain ⟨completion, hit, miss, -⟩ := held.carrying
      have cost := held.costUsd.symm.trans agree.costUsd
      simp only [mapUsage, uncosted.1, hit, miss, completion] at cost
      exact Option.some.inj cost
    obtain ⟨hit, miss, completion⟩ := costs
    refine ⟨⟨hit.symm, miss.symm, completion.symm⟩, ?_⟩
    obtain ⟨merged, streamed, agree⟩ := same ⟨⟨0, 0, 0⟩, ⟨0, 0, 0⟩⟩
    obtain ⟨other, streamed', held⟩ := streamedUsage_merged earlier last
    cases streamed.symm.trans streamed'
    have shown := Option.some.inj (held.shown.symm.trans agree.cachedTokens)
    rw [held.carrying.2.2.2, ← hit] at shown
    split at shown <;> omega
  · rintro ⟨⟨hit, miss, completion⟩, bound⟩ prices
    obtain ⟨merged, streamed, held⟩ := streamedUsage_merged earlier last
    refine ⟨merged, streamed, ?_⟩
    obtain ⟨completion', hit', miss', cached'⟩ := held.carrying
    rw [hit] at hit' cached'
    rw [miss] at miss'
    rw [completion] at completion'
    constructor <;> simp only [mapUsage, hit', miss', completion', cached']
    · simp only [held.costUsd, mapUsage, uncosted.1]; rfl
    · simp only [held.costCny, mapUsage, uncosted.2]; rfl
    · rw [held.shown]
      split <;> congr 1
      omega
    · rw [held.hit, hit]
    · rw [held.miss, miss]
    · cases rate : hitRate last.cacheHit last.cacheMiss with
      | none =>
        obtain ⟨none_, none'⟩ := hitRate_none.mp rate
        exact (held.idle (hit.trans none_) (miss.trans none')).1
      | some _ => rw [held.rate, rate, Option.some_or]
    · exact held.savingsUsd
    · exact held.savingsCny

theorem streamed_cost_full : ∃ merged, streamedUsage (some ⟨⟨0, 0, 1⟩, ⟨0, 0, 1⟩⟩)
        ([{ promptTokens := some 9 }] ++ [{ promptTokens := some 9, completionTokens := some 4 }]) =
      some merged ∧ SameCost merged (mapUsage (some ⟨⟨0, 0, 1⟩, ⟨0, 0, 1⟩⟩) (carrying merged)) :=
  (streamed_cost_iff [{ promptTokens := some 9 }]
    { promptTokens := some 9, completionTokens := some 4 } ⟨rfl, rfl⟩).mpr (by decide) _

/-- The prompt is counted by the first payload and the answer by the last: only the answer is paid
for. -/
theorem split_counters_cost : ¬ ∀ prices, ∃ merged,
    streamedUsage (some prices) [{ inputTokens := some 1000 }, { outputTokens := some 5 }] =
      some merged ∧ SameCost merged (mapUsage (some prices) (carrying merged)) := by
  intro same
  obtain ⟨merged, streamed, agree⟩ := same ⟨⟨1 / 50, 1, 2⟩, ⟨1 / 50, 1, 2⟩⟩
  cases streamed
  exact absurd agree.costUsd (by decide +kernel)

end QiongQi.StreamedUsage
