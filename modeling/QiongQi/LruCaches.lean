import Mathlib.Data.List.Induction
import QiongQi.RecencyLists

/-! The caches of `lru-cache.ts` and `ttl-lru-cache.ts`: the recency of an entry is its place in a
`Map`, which `delete` and `set` move to the end. -/
namespace QiongQi.LruCaches
open KeyedMaps Machines RecencyLists List

/-- A key may be `undefined`. -/
abbrev Key (κ : Type) := Option κ

structure LruCache (κ β : Type) where
  limit : ℕ
  entries : List (Key κ × β) := []

namespace LruCache
variable {κ β : Type} [DecidableEq κ] (cache : LruCache κ β) (key : Key κ)

def size : ℕ := cache.entries.length

def has : Bool := cache.entries.any fun entry => entry.1 = key

def get : LruCache κ β × Option β :=
  match find Prod.fst key cache.entries with
  | none => (cache, none)
  | some entry =>
    ({ cache with entries := setEntry Prod.fst (key, entry.2) (drop Prod.fst key cache.entries) },
      some entry.2)

def set (value : β) : LruCache κ β × Option β :=
  if cache.has key then
    ({ cache with entries := setEntry Prod.fst (key, value) (drop Prod.fst key cache.entries) }, none)
  else if cache.limit ≤ cache.size then
    -- `undefined` is a key of its own and what the keys of an empty map begin with.
    match (cache.entries.head?.map Prod.fst).join with
    | none => ({ cache with entries := setEntry Prod.fst (key, value) cache.entries }, none)
    | some oldestKey =>
      ({ cache with
          entries := setEntry Prod.fst (key, value) (drop Prod.fst (some oldestKey) cache.entries) },
        (find Prod.fst (some oldestKey) cache.entries).map Prod.snd)
  else ({ cache with entries := setEntry Prod.fst (key, value) cache.entries }, none)

def delete : LruCache κ β × Bool :=
  ({ cache with entries := drop Prod.fst key cache.entries }, cache.has key)

end LruCache

structure Entry (ν τ : Type) where
  value : Option ν
  expiresAt : τ

/-- The cache that a `TtlLruCache` holds. Its `ttlMs` never changes. -/
abbrev TtlLruCache (κ ν τ : Type) := LruCache κ (Entry ν τ)

namespace TtlLruCache
variable {κ ν τ : Type} [DecidableEq κ] [LE τ] [DecidableLE τ] (cache : TtlLruCache κ ν τ)

def get (key : Key κ) (now : τ) : TtlLruCache κ ν τ × Option ν :=
  match LruCache.get cache key with
  | (used, none) => (used, none)
  | (used, some entry) =>
    if entry.expiresAt ≤ now then ((LruCache.delete used key).1, none) else (used, entry.value)

def has (key : Key κ) (now : τ) : TtlLruCache κ ν τ × Bool :=
  ((get cache key now).1, (get cache key now).2.isSome)

def set [Add τ] (ttlMs : τ) (key : Key κ) (value : Option ν) (now : τ) :
    TtlLruCache κ ν τ × Option ν :=
  let added := LruCache.set cache key ⟨value, now + ttlMs⟩
  (added.1, added.2.bind Entry.value)

/-- One round of the loop of `sweep`. -/
def sweepKey (now : τ) (swept : TtlLruCache κ ν τ × ℕ) (key : Key κ) : TtlLruCache κ ν τ × ℕ :=
  match LruCache.get swept.1 key with
  | (used, none) => (used, swept.2)
  | (used, some entry) =>
    if entry.expiresAt ≤ now then ((LruCache.delete used key).1, swept.2 + 1) else (used, swept.2)

def sweep (now : τ) : TtlLruCache κ ν τ × ℕ :=
  (cache.entries.map Prod.fst).foldl (sweepKey now) (cache, 0)

end TtlLruCache

inductive LruCall (κ β : Type) where
  | get (key : Key κ)
  | set (key : Key κ) (value : β)
  | has (key : Key κ)
  | delete (key : Key κ)

/-- The calls at the times at which they look at the clock. -/
inductive TtlCall (κ ν τ : Type) where
  | get (key : Key κ) (now : τ)
  | set (key : Key κ) (value : Option ν) (now : τ)
  | has (key : Key κ) (now : τ)
  | delete (key : Key κ)
  | sweep (now : τ)

section
variable {κ β ν τ : Type} [DecidableEq κ] [LE τ] [DecidableLE τ]

def LruCache.call (cache : LruCache κ β) : LruCall κ β → LruCache κ β
  | .get key => (cache.get key).1
  | .set key value => (cache.set key value).1
  | .has _ => cache
  | .delete key => (cache.delete key).1

def TtlLruCache.call [Add τ] (ttlMs : τ) (cache : TtlLruCache κ ν τ) :
    TtlCall κ ν τ → TtlLruCache κ ν τ
  | .get key now => (TtlLruCache.get cache key now).1
  | .set key value now => (TtlLruCache.set cache ttlMs key value now).1
  | .has key now => (TtlLruCache.has cache key now).1
  | .delete key => (LruCache.delete cache key).1
  | .sweep now => (TtlLruCache.sweep cache now).1

/-- What the calls make of a recency list. -/
def listed (limit : ℕ) (items : List (Key κ × β)) : LruCall κ β → List (Key κ × β)
  | .get key => touch key items
  | .set key value => record limit (key, value) items
  | .has _ => items
  | .delete key => drop Prod.fst key items

/-- An entry whose time has passed is given up when it is looked at. -/
def lookedAt (key : Key κ) (now : τ) (items : List (Key κ × Entry ν τ)) : List (Key κ × Entry ν τ) :=
  match find Prod.fst key items with
  | some (_, entry) =>
    if entry.expiresAt ≤ now then drop Prod.fst key items else touch key items
  | none => items

def timed [Add τ] (limit : ℕ) (ttlMs : τ) (items : List (Key κ × Entry ν τ)) :
    TtlCall κ ν τ → List (Key κ × Entry ν τ)
  | .get key now | .has key now => lookedAt key now items
  | .set key value now => record limit (key, ⟨value, now + ttlMs⟩) items
  | .delete key => drop Prod.fst key items
  | .sweep now => items.filter fun item => ¬ item.2.expiresAt ≤ now

/-- The cache has the entries of the list, and no more than its limit. -/
structure Refines (limit : ℕ) (cache : LruCache κ β) (items : List (Key κ × β)) : Prop where
  limited : cache.limit = limit
  contents : cache.entries.reverse = items
  bounded : cache.size ≤ limit
  distinct : (items.map Prod.fst).Nodup

/-- No new entry comes while the limit is reached and the oldest key is `undefined`. -/
def Evicts (cache : LruCache κ β) (key : Key κ) : Prop :=
  cache.has key = true ∨ cache.size < cache.limit ∨ cache.entries.head?.map Prod.fst ≠ some none

variable {cache : LruCache κ β} {items : List (Key κ × β)} {limit : ℕ}

omit [DecidableEq κ] in
theorem Refines.nodup (refines : Refines limit cache items) :
    (cache.entries.map Prod.fst).Nodup := by
  rw [← nodup_reverse, ← map_reverse, refines.contents]
  exact refines.distinct

omit [DecidableEq κ] in
theorem Refines.of_reverse {entries : List (Key κ × β)} (contents : entries.reverse = items)
    (distinct : (entries.map Prod.fst).Nodup) (bounded : entries.length ≤ limit) :
    Refines limit ⟨limit, entries⟩ items := by
  refine ⟨rfl, contents, bounded, ?_⟩
  rw [← contents, map_reverse, nodup_reverse]
  exact distinct

theorem has_iff : cache.has key = true ↔ key ∈ cache.entries.map Prod.fst := by
  simp [LruCache.has]

theorem Refines.delete (refines : Refines limit cache items) :
    Refines limit (cache.delete key).1 (drop Prod.fst key items) := by
  have distinct := refines.nodup
  obtain ⟨rfl, rfl, bounded, -⟩ := refines
  refine .of_reverse drop_reverse.symm (keys_drop_nodup distinct) ?_
  exact Nat.le_trans (length_filter_le ..) bounded

theorem Refines.get (refines : Refines limit cache items) :
    Refines limit (cache.get key).1 (touch key items) := by
  have distinct := refines.nodup
  have whole := refines
  obtain ⟨rfl, rfl, bounded, -⟩ := refines
  unfold LruCache.get
  split
  · rename_i missing
    have absent : key ∉ cache.entries.reverse.map Prod.fst := by
      rw [map_reverse, mem_reverse, mem_map]
      rintro ⟨item, held, same⟩
      exact find?_eq_none.mp missing item held (by simpa using same)
    rw [touch_absent absent]
    exact whole
  · rename_i entry found
    obtain ⟨held, rfl⟩ := find_mem found
    rw [setEntry_absent name_notMem_drop]
    refine .of_reverse (touch_reverse distinct found) ?_ ?_
    · exact keys_append_nodup (keys_drop_nodup distinct) name_notMem_drop
    · have fewer := length_drop_lt (mem_map_of_mem (f := Prod.fst) held)
      rw [length_append, length_singleton]
      exact Nat.le_trans fewer bounded

theorem Refines.set_iff (positive : 0 < limit) (refines : Refines limit cache items) :
    Refines limit (cache.set key value).1 (record limit (key, value) items) ↔
      Evicts cache key := by
  have distinct := refines.nodup
  obtain ⟨rfl, rfl, bounded, -⟩ := refines
  unfold LruCache.set Evicts
  by_cases held : cache.has key = true
  · rw [if_pos held]
    refine iff_of_true ?_ (.inl held)
    have fewer := length_drop_lt (has_iff.mp held)
    rw [setEntry_absent name_notMem_drop]
    refine .of_reverse (record_reverse (Nat.lt_of_lt_of_le fewer bounded)) ?_ ?_
    · exact keys_append_nodup (keys_drop_nodup distinct) name_notMem_drop
    · rw [length_append, length_singleton]
      exact Nat.le_trans fewer bounded
  have absent : key ∉ cache.entries.map Prod.fst := mt has_iff.mpr held
  have longer : (setEntry Prod.fst (key, value) cache.entries).length = cache.size + 1 := by
    rw [setEntry_absent absent]
    simp [LruCache.size]
  rw [if_neg held]
  by_cases full : cache.limit ≤ cache.size
  · rw [if_pos full]
    obtain ⟨limit, entries⟩ := cache
    cases entries with
    | nil => exact absurd full (Nat.not_le.mpr positive)
    | cons oldest rest =>
      obtain ⟨undefined_ | oldestKey, old⟩ := oldest
      · refine iff_of_false (fun kept => ?_) ?_
        · have short := Nat.le_trans (Nat.le_of_eq longer.symm) kept.bounded
          exact absurd full (Nat.not_le.mpr short)
        · simpa [held] using full
      · have first : some oldestKey ∉ rest.map Prod.fst := (nodup_cons.mp distinct).1
        have later : key ∉ rest.map Prod.fst := fun inside => absent (mem_cons_of_mem _ inside)
        have left : drop Prod.fst (some oldestKey) ((some oldestKey, old) :: rest) = rest :=
          (filter_cons_of_neg (by simp)).trans (drop_absent first)
        refine iff_of_true ?_ (.inr (.inr (by simp)))
        simp only [head?_cons, Option.map_some, Option.join_some, left, setEntry_absent later]
        refine .of_reverse ?_ ?_ ?_
        · exact record_reverse_full absent (Nat.le_antisymm bounded full)
        · exact keys_append_nodup (nodup_cons.mp distinct).2 later
        · rw [length_append, length_singleton]
          exact bounded
  · rw [if_neg full]
    have room := Nat.not_le.mp full
    refine iff_of_true ?_ (.inr (.inl room))
    rw [setEntry_absent absent] at longer ⊢
    refine .of_reverse ?_ (keys_append_nodup distinct absent) ?_
    · have moved := @record_reverse _ _ _ cache.entries key cache.limit value
      rw [drop_absent absent] at moved
      exact moved room
    · rw [longer]
      exact room

theorem get_answer (cache : LruCache κ β) (key : Key κ) :
    (cache.get key).2 = (find Prod.fst key cache.entries).map Prod.snd := by
  unfold LruCache.get
  cases find Prod.fst key cache.entries with
  | none => rfl
  | some entry => rfl

section
variable {cache : TtlLruCache κ ν τ} {entries : List (Key κ × Entry ν τ)}

theorem Refines.lookedAt (refines : Refines limit cache entries) :
    Refines limit (TtlLruCache.get cache key now).1 (lookedAt key now entries) := by
  have used : Refines limit (LruCache.get cache key).1 (touch key entries) := refines.get
  have same : find Prod.fst key entries = find Prod.fst key cache.entries := by
    rw [← refines.contents]
    exact find_reverse refines.nodup
  have answer := get_answer cache key
  unfold TtlLruCache.get LruCaches.lookedAt
  rw [same]
  rcases got : LruCache.get cache key with ⟨after, found⟩
  rw [got] at used answer
  subst answer
  cases held : find Prod.fst key cache.entries with
  | none =>
    rw [LruCache.get, held] at got
    cases got
    exact refines
  | some item =>
    dsimp only [Option.map_some]
    split
    · rw [← drop_touch]
      exact used.delete
    · exact used

theorem sweep_rest (limit dropped : ℕ) (now : τ)
    (distinct : ((entries ++ passed).map Prod.fst).Nodup) :
    (entries.map Prod.fst).foldl (TtlLruCache.sweepKey now)
        ((⟨limit, entries ++ passed⟩ : TtlLruCache κ ν τ), dropped) =
      (⟨limit, passed ++ entries.filter fun item => ¬ item.2.expiresAt ≤ now⟩,
        dropped + entries.countP fun item => item.2.expiresAt ≤ now) := by
  induction entries generalizing passed dropped with
  | nil => simp
  | cons item rest ih =>
    obtain ⟨key, entry⟩ := item
    obtain ⟨fresh, others⟩ := nodup_cons.mp distinct
    have left : drop Prod.fst key (rest ++ passed) = rest ++ passed := drop_absent fresh
    have got : LruCache.get (⟨limit, (key, entry) :: rest ++ passed⟩ : TtlLruCache κ ν τ) key =
        (⟨limit, rest ++ (passed ++ [(key, entry)])⟩, some entry) := by
      have found : find Prod.fst key ((key, entry) :: rest ++ passed) = some (key, entry) :=
        find?_cons_of_pos (by simp)
      have dropped : drop Prod.fst key ((key, entry) :: rest ++ passed) = rest ++ passed :=
        (filter_cons_of_neg (by simp)).trans left
      have again : setEntry Prod.fst (key, entry) (rest ++ passed) =
          rest ++ (passed ++ [(key, entry)]) :=
        (setEntry_absent fresh).trans (append_assoc ..)
      simp only [LruCache.get, found, dropped, again]
    rw [map_cons, foldl_cons, TtlLruCache.sweepKey, got]
    by_cases expired : entry.expiresAt ≤ now
    · have deleted : drop Prod.fst key (rest ++ (passed ++ [(key, entry)])) = rest ++ passed := by
        rw [← append_assoc, Machines.drop, filter_append, ← Machines.drop, left]
        simp
      simp only [if_pos expired, LruCache.delete, deleted]
      rw [ih _ others]
      simp [expired, Nat.add_assoc, Nat.add_comm 1]
    · simp only [if_neg expired]
      rw [ih]
      · simp [expired]
      · rw [← append_assoc]
        exact keys_append_nodup others fresh

theorem Refines.sweep (refines : Refines limit cache entries) :
    Refines limit (TtlLruCache.sweep cache now).1
      (entries.filter fun item => ¬ item.2.expiresAt ≤ now) := by
  have distinct := refines.nodup
  obtain ⟨rfl, rfl, bounded, -⟩ := refines
  have swept := sweep_rest cache.limit 0 now ((append_nil cache.entries).symm ▸ distinct)
  rw [append_nil, nil_append] at swept
  unfold TtlLruCache.sweep
  rw [swept, filter_reverse]
  refine .of_reverse rfl (distinct.sublist (filter_sublist.map _)) ?_
  exact Nat.le_trans (length_filter_le ..) bounded

end

/-- Along a run an invariant holds just when every step keeps it where it holds before. -/
theorem always_iff {σ α : Type} {step : σ → α → σ} {fair : σ → α → Prop} {inv : σ → Prop} {state : σ}
    (exact_ : ∀ state action, inv state → (fair state action ↔ inv (step state action)))
    (start : inv state) (actions : List α) :
    (∀ front back, actions = front ++ back → inv (front.foldl step state)) ↔
      ∀ front action back, actions = front ++ action :: back →
        fair (front.foldl step state) action := by
  constructor
  · intro always front action back split
    refine (exact_ _ action (always front _ split)).mpr ?_
    have next := always (front ++ [action]) back (by rw [split, append_assoc]; rfl)
    rwa [foldl_append] at next
  · intro fairly front
    induction front using List.reverseRecOn with
    | nil => exact fun _ _ => start
    | append_singleton front action ih =>
      intro back split
      rw [append_assoc] at split
      rw [foldl_append]
      exact (exact_ _ action (ih _ split)).mp (fairly front action back split)

/-- A cache and the recency list beside it. -/
def lruStep (limit : ℕ) (state : LruCache κ β × List (Key κ × β)) (call : LruCall κ β) :
    LruCache κ β × List (Key κ × β) :=
  (state.1.call call, listed limit state.2 call)

def ttlStep [Add τ] (limit : ℕ) (ttlMs : τ)
    (state : TtlLruCache κ ν τ × List (Key κ × Entry ν τ)) (call : TtlCall κ ν τ) :
    TtlLruCache κ ν τ × List (Key κ × Entry ν τ) :=
  (TtlLruCache.call ttlMs state.1 call, timed limit ttlMs state.2 call)

/-- A run of one cache of each kind, from the start. -/
def lruRun (limit : ℕ) (calls : List (LruCall κ β)) : LruCache κ β × List (Key κ × β) :=
  calls.foldl (lruStep limit) (⟨limit, []⟩, [])

def ttlRun [Add τ] (limit : ℕ) (ttlMs : τ) (calls : List (TtlCall κ ν τ)) :
    TtlLruCache κ ν τ × List (Key κ × Entry ν τ) :=
  calls.foldl (ttlStep limit ttlMs) (⟨limit, []⟩, [])

def LruCall.Evicts (cache : LruCache κ β) : LruCall κ β → Prop
  | .set key _ => LruCaches.Evicts cache key
  | _ => True

def TtlCall.Evicts (cache : TtlLruCache κ ν τ) : TtlCall κ ν τ → Prop
  | .set key _ _ => LruCaches.Evicts cache key
  | _ => True

omit [DecidableEq κ] in
theorem refines_empty : Refines limit (⟨limit, []⟩ : LruCache κ β) [] :=
  .of_reverse rfl nodup_nil (Nat.zero_le _)

theorem lruStep_iff (positive : 0 < limit) (state : LruCache κ β × List (Key κ × β))
    (call : LruCall κ β) (refines : Refines limit state.1 state.2) :
    call.Evicts state.1 ↔ Refines limit (lruStep limit state call).1 (lruStep limit state call).2 := by
  cases call with
  | get key => exact iff_of_true trivial refines.get
  | set key value => exact (refines.set_iff positive).symm
  | has key => exact iff_of_true trivial refines
  | delete key => exact iff_of_true trivial refines.delete

theorem ttlStep_iff [Add τ] (positive : 0 < limit) (ttlMs : τ)
    (state : TtlLruCache κ ν τ × List (Key κ × Entry ν τ)) (call : TtlCall κ ν τ)
    (refines : Refines limit state.1 state.2) : call.Evicts state.1 ↔
      Refines limit (ttlStep limit ttlMs state call).1 (ttlStep limit ttlMs state call).2 := by
  cases call with
  | get key now | has key now => exact iff_of_true trivial refines.lookedAt
  | set key value now => exact (refines.set_iff positive).symm
  | delete key => exact iff_of_true trivial refines.delete
  | sweep now => exact iff_of_true trivial refines.sweep

/-- The caches refine their recency lists in every state of a run, just when no new entry comes
while the limit is reached and the oldest key is `undefined`. -/
theorem caches_refine_iff [Add τ] (positive : 0 < limit) (ttlMs : τ) (lru : List (LruCall κ β))
    (ttl : List (TtlCall κ ν τ)) :
    ((∀ front back, lru = front ++ back →
        Refines limit (lruRun limit front).1 (lruRun limit front).2) ↔
      ∀ front call back, lru = front ++ call :: back → call.Evicts (lruRun limit front).1) ∧
    ((∀ front back, ttl = front ++ back →
        Refines limit (ttlRun limit ttlMs front).1 (ttlRun limit ttlMs front).2) ↔
      ∀ front call back, ttl = front ++ call :: back → call.Evicts (ttlRun limit ttlMs front).1) :=
  ⟨always_iff (lruStep_iff positive) refines_empty lru,
    always_iff (ttlStep_iff positive ttlMs) refines_empty ttl⟩

/-- The first entry of a cache, and a sweep of an empty one. -/
theorem caches_refine_single : Refines 1 (lruRun 1 [.set (some "a") 1]).1 [(some "a", 1)] ∧
    Refines 1 (ttlRun 1 5 ([.sweep 3] : List (TtlCall String ℕ ℕ))).1 [] := by
  have both := caches_refine_iff Nat.one_pos 5 [.set (some "a") 1]
    ([.sweep 3] : List (TtlCall String ℕ ℕ))
  refine ⟨both.1.mpr ?_ _ [] rfl, both.2.mpr ?_ _ [] rfl⟩
  · intro front call back split
    cases front with
    | nil =>
      cases split
      exact .inr (.inl (by decide))
    | cons first rest => simp at split
  · intro front call back split
    cases front with
    | nil =>
      cases split
      trivial
    | cons first rest => simp at split

/-- The key `undefined` is not evicted. -/
theorem undefined_kept : ¬ Refines 1 (lruRun 1 [.set none 1, .set (some "a") 2]).1
    (lruRun 1 [.set none 1, .set (some "a") 2]).2 :=
  fun refines => absurd refines.bounded (by decide)

end

end QiongQi.LruCaches
